import Mathlib.Data.List.Sort
import Chainloop.Go.Map

namespace Chainloop

open Go (Map)

abbrev Bytes := List UInt8

-- CraftingSchema.Material.MaterialType, in the order of its proto numbers.
inductive MaterialType where
  | unspecified | string | containerImage | artifact | sbomCyclonedxJson | sbomSpdxJson | junitXml
  | openvex | csafVex | sarif | helmChart | evidence | attestation | csafInformationalAdvisory
  | csafSecurityAdvisory | csafSecurityIncidentResponse | gitlabSecurityReport | zapDastZip
  | blackduckScaJson | twistcliScanJson | ghasCodeScan | ghasSecretScan | ghasDependencyScan
  | jacocoXml | slsaProvenance | chainloopRunnerContext | chainloopPrInfo | gitleaksJson
  | chainloopAiAgentConfig | chainloopAiCodingSession | openapiSpec | asyncapiSpec | graphqlSpec
  | yelpDetectSecretsBaseline | sysinternalsSigcheck | sysinternalsAccesschk | certccDranzer
  | ossfScorecardJson | radamsaReport | radamsaCrashes | trufflehogJson | coberturaXml
  | checkmarxJson | oversecuredJson | pitestXml | chainloopAiSecurityContext | msbuildLog
deriving DecidableEq

namespace MaterialType

def name : MaterialType → String
  | .unspecified => "MATERIAL_TYPE_UNSPECIFIED"
  | .string => "STRING"
  | .containerImage => "CONTAINER_IMAGE"
  | .artifact => "ARTIFACT"
  | .sbomCyclonedxJson => "SBOM_CYCLONEDX_JSON"
  | .sbomSpdxJson => "SBOM_SPDX_JSON"
  | .junitXml => "JUNIT_XML"
  | .openvex => "OPENVEX"
  | .csafVex => "CSAF_VEX"
  | .sarif => "SARIF"
  | .helmChart => "HELM_CHART"
  | .evidence => "EVIDENCE"
  | .attestation => "ATTESTATION"
  | .csafInformationalAdvisory => "CSAF_INFORMATIONAL_ADVISORY"
  | .csafSecurityAdvisory => "CSAF_SECURITY_ADVISORY"
  | .csafSecurityIncidentResponse => "CSAF_SECURITY_INCIDENT_RESPONSE"
  | .gitlabSecurityReport => "GITLAB_SECURITY_REPORT"
  | .zapDastZip => "ZAP_DAST_ZIP"
  | .blackduckScaJson => "BLACKDUCK_SCA_JSON"
  | .twistcliScanJson => "TWISTCLI_SCAN_JSON"
  | .ghasCodeScan => "GHAS_CODE_SCAN"
  | .ghasSecretScan => "GHAS_SECRET_SCAN"
  | .ghasDependencyScan => "GHAS_DEPENDENCY_SCAN"
  | .jacocoXml => "JACOCO_XML"
  | .slsaProvenance => "SLSA_PROVENANCE"
  | .chainloopRunnerContext => "CHAINLOOP_RUNNER_CONTEXT"
  | .chainloopPrInfo => "CHAINLOOP_PR_INFO"
  | .gitleaksJson => "GITLEAKS_JSON"
  | .chainloopAiAgentConfig => "CHAINLOOP_AI_AGENT_CONFIG"
  | .chainloopAiCodingSession => "CHAINLOOP_AI_CODING_SESSION"
  | .openapiSpec => "OPENAPI_SPEC"
  | .asyncapiSpec => "ASYNCAPI_SPEC"
  | .graphqlSpec => "GRAPHQL_SPEC"
  | .yelpDetectSecretsBaseline => "YELP_DETECT_SECRETS_BASELINE"
  | .sysinternalsSigcheck => "SYSINTERNALS_SIGCHECK"
  | .sysinternalsAccesschk => "SYSINTERNALS_ACCESSCHK"
  | .certccDranzer => "CERTCC_DRANZER"
  | .ossfScorecardJson => "OSSF_SCORECARD_JSON"
  | .radamsaReport => "RADAMSA_REPORT"
  | .radamsaCrashes => "RADAMSA_CRASHES"
  | .trufflehogJson => "TRUFFLEHOG_JSON"
  | .coberturaXml => "COBERTURA_XML"
  | .checkmarxJson => "CHECKMARX_JSON"
  | .oversecuredJson => "OVERSECURED_JSON"
  | .pitestXml => "PITEST_XML"
  | .chainloopAiSecurityContext => "CHAINLOOP_AI_SECURITY_CONTEXT"
  | .msbuildLog => "MSBUILD_LOG"

def all : List MaterialType :=
  [.unspecified, .string, .containerImage, .artifact, .sbomCyclonedxJson, .sbomSpdxJson, .junitXml,
   .openvex, .csafVex, .sarif, .helmChart, .evidence, .attestation, .csafInformationalAdvisory,
   .csafSecurityAdvisory, .csafSecurityIncidentResponse, .gitlabSecurityReport, .zapDastZip,
   .blackduckScaJson, .twistcliScanJson, .ghasCodeScan, .ghasSecretScan, .ghasDependencyScan,
   .jacocoXml, .slsaProvenance, .chainloopRunnerContext, .chainloopPrInfo, .gitleaksJson,
   .chainloopAiAgentConfig, .chainloopAiCodingSession, .openapiSpec, .asyncapiSpec, .graphqlSpec,
   .yelpDetectSecretsBaseline, .sysinternalsSigcheck, .sysinternalsAccesschk, .certccDranzer,
   .ossfScorecardJson, .radamsaReport, .radamsaCrashes, .trufflehogJson, .coberturaXml,
   .checkmarxJson, .oversecuredJson, .pitestXml, .chainloopAiSecurityContext, .msbuildLog]

def value? (kind : String) : Option MaterialType := all.find? fun t => t.name == kind

def inValidationOrder : List MaterialType :=
  [.openvex, .sbomCyclonedxJson, .sbomSpdxJson, .csafVex, .csafInformationalAdvisory,
   .csafSecurityAdvisory, .csafSecurityIncidentResponse, .gitlabSecurityReport, .gitleaksJson,
   .yelpDetectSecretsBaseline, .sysinternalsSigcheck, .ossfScorecardJson, .openapiSpec,
   .asyncapiSpec, .graphqlSpec, .junitXml, .jacocoXml, .coberturaXml, .pitestXml, .helmChart,
   .sarif, .blackduckScaJson, .twistcliScanJson, .zapDastZip, .slsaProvenance,
   .chainloopRunnerContext, .chainloopAiAgentConfig, .chainloopAiCodingSession,
   .chainloopAiSecurityContext, .attestation, .containerImage, .artifact, .string]

def listAvailable : List String :=
  ((all.filter (· ≠ .unspecified)).map name).insertionSort (· ≤ ·)

theorem mem_all (t : MaterialType) : t ∈ all := by
  cases t <;> decide

theorem name_injective : Function.Injective name := by
  have key : ∀ a ∈ all, ∀ b ∈ all, a.name = b.name → a = b := by decide +kernel
  intro a b h
  exact key a (mem_all a) b (mem_all b) h

theorem value?_name (t : MaterialType) : value? t.name = some t := by
  cases hf : value? t.name with
  | none =>
    have := List.find?_eq_none.mp hf t (mem_all t)
    simp at this
  | some u =>
    have hu : u.name = t.name := by simpa using List.find?_some hf
    rw [name_injective hu]

theorem name_of_value? {t : MaterialType} (h : value? kind = some t) : t.name = kind := by
  simpa using List.find?_some h

end MaterialType

inductive AttestationPhase where
  | unspecified | init | push
deriving DecidableEq

inductive MatchMode where
  | unspecified | exact | namePrefix
deriving DecidableEq

structure SchemaMaterial where
  type : MaterialType
  name : String
  optional : Bool
  output : Bool
  annotations : List (String × String)
  group : String
deriving DecidableEq

structure Metadata where
  name : String
  description : String
  annotations : Map String String
  findingType : String
deriving DecidableEq

structure PolicyInput where
  name : String
  required : Bool
  defaultValue : String
deriving DecidableEq

-- The source oneof of PolicySpec (path, embedded) and PolicySpecV2 (also ref).
inductive ScriptSource where
  | path (location : String)
  | embedded (source : String)
  | ref (location : String)
deriving DecidableEq

structure PolicySpecV2 where
  source : Option ScriptSource
  kind : MaterialType
  attestationPhases : List AttestationPhase
deriving DecidableEq

structure PolicySpec where
  source : Option ScriptSource
  type : MaterialType
  policies : List PolicySpecV2
  inputs : List PolicyInput
deriving DecidableEq

structure Policy where
  metadata : Metadata
  spec : PolicySpec
deriving DecidableEq

structure MaterialSelector where
  name : String
  matchMode : MatchMode
deriving DecidableEq

-- The policy oneof of an attachment is `ref`, unless `embedded` is set.
structure PolicyAttachment where
  ref : String
  embedded : Option Policy
  selector : MaterialSelector
  disabled : Bool
  withArgs : Map String String
  requirements : List String
  gate : Option Bool
deriving DecidableEq

structure Policies where
  materials : List PolicyAttachment
  attestation : List PolicyAttachment
deriving DecidableEq

structure PolicyGroupAttachment where
  ref : String
  withArgs : Map String String
  skip : List String
  gate : Option Bool
deriving DecidableEq

structure GroupMaterial where
  type : MaterialType
  name : String
  optional : Bool
  matchMode : MatchMode
  policies : List PolicyAttachment
deriving DecidableEq

structure PolicyGroup where
  metadata : Metadata
  materials : List GroupMaterial
  attestation : List PolicyAttachment
  inputs : List PolicyInput
deriving DecidableEq

-- The part of a contract that the crafter reads. A contract is refused when two
-- of its materials share a name.
structure Contract where
  materials : List SchemaMaterial
  policies : Policies
  policyGroups : List PolicyGroupAttachment
  unique : (materials.map SchemaMaterial.name).Nodup
deriving DecidableEq

end Chainloop
