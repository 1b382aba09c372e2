import Chainloop.Steps.Schedule
import Chainloop.Tokens.Token

namespace Chainloop.Tokens

open Go Authz Schedule Option Map Except

variable {row : Row} {id : UUID} {db db' : Db}

theorem APIToken.verifyRow_iff {t : APIToken} {claims : CustomClaims} :
    t.verifyRow claims = .ok () ↔
      ∃ kind, t.scope = some kind ∧ claims.getScope = .ok (kind, t.scopeID) ∧
        claims.orgID = idText t.organization ∧ claims.projectID = idText (t.project.map (·.id)) ∧
        claims.workflowID = idText (t.workflow.map (·.id)) := by
  unfold verifyRow
  split
  · rename_i e hscope
    simp [hscope]
  · rename_i kind id hscope
    rw [guard_eq_ok, guard_eq_ok, guard_eq_ok, guard_eq_ok]
    simp only [sameClaimedID, decide_eq_false_iff_not, not_or, not_not, and_true]
    constructor
    · rintro ⟨⟨hkind, rfl⟩, horg, hproject, hworkflow⟩
      exact ⟨kind, hkind, hscope, horg, hproject, hworkflow⟩
    · rintro ⟨kind', hkind, hread, horg, hproject, hworkflow⟩
      rw [hscope] at hread
      cases hread
      exact ⟨⟨hkind, rfl⟩, horg, hproject, hworkflow⟩

theorem verifyRow_of_signed {t : APIToken} {opts : GenerateJWTOptions}
    (h : opts.generateJWT = .ok claims) (hscope : opts.scope = t.scope)
    (hscopeID : opts.scopeID = t.scopeID) (horg : opts.org.map (·.id) = t.organization)
    (hproject : opts.project.map (·.id) = t.project.map (·.id))
    (hworkflow : opts.workflowID = t.workflow.map (·.id)) : t.verifyRow claims = .ok () := by
  obtain ⟨kind, hkind, rfl, hread⟩ := GenerateJWTOptions.generateJWT_eq_ok h
  refine APIToken.verifyRow_iff.mpr ⟨kind, hscope ▸ hkind, hscopeID ▸ hread, ?_, ?_, ?_⟩
  · rw [← horg]
    rfl
  · rw [← hproject]
    rfl
  · rw [← hworkflow]
    rfl

structure Row.SameGrant (row row' : Row) : Prop where
  organizationID : row'.organizationID = row.organizationID
  projectID : row'.projectID = row.projectID
  workflowID : row'.workflowID = row.workflowID
  scope : row'.scope = row.scope
  scopeID : row'.scopeID = row.scopeID

theorem Row.SameGrant.refl (row : Row) : row.SameGrant row := ⟨rfl, rfl, rfl, rfl, rfl⟩

theorem Row.toBiz_project (h : row.Refers catalog) (id : UUID) :
    (row.toBiz catalog id).project.map (·.id) = row.projectID := by
  cases hp : row.projectID with
  | none => simp [toBiz, hp]
  | some p =>
    obtain ⟨project, hproject⟩ := isSome_iff_exists.mp
      ((mem_keys_iff_isSome ..).mp (h.2.1 p hp))
    simp [toBiz, hp, hproject]

theorem Row.toBiz_workflow (h : row.Refers catalog) (id : UUID) :
    (row.toBiz catalog id).workflow.map (·.id) = row.workflowID := by
  cases hw : row.workflowID with
  | none => simp [toBiz, hw]
  | some w =>
    obtain ⟨workflow, hworkflow⟩ := isSome_iff_exists.mp
      ((mem_keys_iff_isSome ..).mp (h.2.2 w hw))
    simp [toBiz, hw, hworkflow]

theorem verifyRow_congr {row' : Row} (hsame : row.SameGrant row')
    (hrefers : row.Refers catalog) (hrefers' : row'.Refers catalog')
    (h : (row.toBiz catalog id).verifyRow claims = .ok ()) :
    (row'.toBiz catalog' id).verifyRow claims = .ok () := by
  obtain ⟨kind, hkind, hread, horg, hproject, hworkflow⟩ := APIToken.verifyRow_iff.mp h
  have horgID : (row'.toBiz catalog' id).organizationID = (row.toBiz catalog id).organizationID :=
    congrArg (·.getD UUID.nil) hsame.organizationID
  refine APIToken.verifyRow_iff.mpr ⟨kind, hsame.scope.trans hkind, ?_, ?_, ?_, ?_⟩
  · rw [hread]
    exact congrArg (fun s => ok (kind, s)) hsame.scopeID.symm
  · rw [horg, APIToken.organization, APIToken.organization, horgID]
  · rw [hproject, Row.toBiz_project hrefers, Row.toBiz_project hrefers', hsame.projectID]
  · rw [hworkflow, Row.toBiz_workflow hrefers, Row.toBiz_workflow hrefers', hsame.workflowID]

namespace Db

def Accepts (db : Db) (id : UUID) (claims : CustomClaims) : Prop :=
  verifyClaims (db.findByID id) (some claims) = .ok ()

theorem accepts_iff : db.Accepts id claims ↔
      ∃ row, db.tokens.get? id = some row ∧ (row.toBiz db.catalog id).verifyRow claims = .ok () := by
  unfold Accepts findByID
  cases hrow : db.tokens.get? id with
  | none => simp [verifyClaims]
  | some row => simp [verifyClaims]

def Keeps (db db' : Db) : Prop :=
  ∀ id row, db.tokens.get? id = some row → ∃ row', db'.tokens.get? id = some row' ∧ row.SameGrant row'

theorem Keeps.accepts (h : db.Keeps db') (haccepts : db.Accepts id claims) :
    db'.Accepts id claims := by
  obtain ⟨row, hrow, hverify⟩ := accepts_iff.mp haccepts
  obtain ⟨row', hrow', hsame⟩ := h id row hrow
  have hrefers := db.references id row hrow
  have hrefers' := db'.references id row' hrow'
  exact accepts_iff.mpr ⟨row', hrow', verifyRow_congr hsame hrefers hrefers' hverify⟩

theorem keeps_updateOneID (db : Db) (id : UUID) (f : Row → Row)
    (h : ∀ row catalog, row.Refers catalog → (f row).Refers catalog) (hsame : ∀ row : Row, row.SameGrant (f row)) :
    db.Keeps (db.updateOneID id f h) := by
  intro k row hrow
  refine ⟨if k = id then f row else row, ?_, ?_⟩
  · rw [updateOneID, get?_mapValues, hrow]
    rfl
  · split
    · exact hsame row
    · exact Row.SameGrant.refl row

theorem keeps_withCatalog (db : Db) (catalog : Catalog) (h : db.Grows catalog) :
    db.Keeps (db.withCatalog catalog h) :=
  fun _ row hrow => ⟨row, hrow, Row.SameGrant.refl row⟩

theorem insert_eq_ok (h : db.insert id row = .ok db') :
    db'.tokens.get? id = some row ∧ db.Keeps db' := by
  unfold insert at h
  split at h
  · rename_i haccepted
    cases h
    refine ⟨get?_set_self .., fun k other hother => ⟨other, ?_, Row.SameGrant.refl other⟩⟩
    have hne : k ≠ id := by
      rintro rfl
      rw [(get?_eq_none_iff ..).mpr haccepted.1] at hother
      cases hother
    exact (get?_set_ne db.tokens row hne).trans hother
  · cases h

theorem repoCreate_eq_ok (h : db.repoCreate id row = .ok db') :
    (∃ stored, db'.tokens.get? id = some stored ∧ row.SameGrant stored) ∧ db.Keeps db' := by
  obtain ⟨-, -, hrest⟩ := bind_eq_ok.mp h
  obtain ⟨projectIDs, -, hinsert⟩ := bind_eq_ok.mp hrest
  obtain ⟨hstored, hkeeps⟩ := insert_eq_ok hinsert
  exact ⟨⟨_, hstored, rfl, rfl, rfl, rfl, rfl⟩, hkeeps⟩

theorem resolveOrg_ne_nil {org : Named} (h : db.resolveOrg orgID = .ok (some org)) :
    org.id ≠ .nil := by
  cases orgID with
  | none => cases h
  | some text =>
    simp only [resolveOrg] at h
    split at h
    · cases h
    · obtain ⟨id, -, hrest⟩ := bind_eq_ok.mp h
      obtain ⟨found, hfound, hok⟩ := bind_eq_ok.mp hrest
      cases hok
      rw [Catalog.findOrganization] at hfound
      split at hfound
      · cases hfound
      · rename_i hsome
        obtain ⟨hget, -⟩ := filter_eq_some_iff.mp hsome
        refine db.catalog.identified id ((mem_keys_iff_isSome ..).mpr ?_)
        rw [hget]
        rfl

theorem newRow_eq_ok {org : Option Named} {options : Options}
    (h : newRow org name expiresAt options = .ok row) :
    row.organizationID = org.map (·.id) ∧ row.projectID = options.project.map (·.id) ∧
      row.workflowID = options.workflow.map (·.workflow.id) := by
  unfold newRow at h
  simp only [guard_eq_ok] at h
  obtain ⟨-, hrest⟩ := h
  obtain ⟨workflowID, hworkflow, hrest⟩ := bind_eq_ok.mp hrest
  obtain ⟨-, -, hrest⟩ := bind_eq_ok.mp hrest
  obtain ⟨policies, -, hok⟩ := bind_eq_ok.mp hrest
  cases hok
  refine ⟨rfl, rfl, ?_⟩
  unfold Options.workflowID at hworkflow
  split at hworkflow
  · rename_i hnone
    cases hworkflow
    rw [hnone]
    rfl
  · cases hworkflow
  · rename_i hsome _
    rw [guard_eq_ok] at hworkflow
    rw [hsome]
    exact (ok.inj hworkflow.2).symm

section

variable {validateIsDNS1123 : String → Except GoError Unit}

theorem create_eq_ok
    (h : db.create validateIsDNS1123 id now name expiresIn orgID options = .ok (db', signed)) :
    db.Keeps db' ∧ ∀ claims, signed = .ok claims → db'.Accepts id claims := by
  obtain ⟨org, horg, hrest⟩ := bind_eq_ok.mp h
  obtain ⟨-, -, hrest⟩ := bind_eq_ok.mp hrest
  obtain ⟨row, hrow, hrest⟩ := bind_eq_ok.mp hrest
  obtain ⟨created, hcreated, hrest⟩ := bind_eq_ok.mp hrest
  obtain ⟨⟨stored, hstored, hsame⟩, hkeeps⟩ := repoCreate_eq_ok (mapError_eq_ok.mp hcreated)
  rw [findByID, hstored] at hrest
  cases hrest
  refine ⟨hkeeps, fun claims hsigned => accepts_iff.mpr ⟨stored, hstored, ?_⟩⟩
  obtain ⟨hrowOrg, hrowProject, hrowWorkflow⟩ := newRow_eq_ok hrow
  have hrefers := db'.references id stored hstored
  refine verifyRow_of_signed ((wrapErr_eq_ok ..).mp hsigned) hsame.scope.symm hsame.scopeID.symm ?_ ?_ ?_
  · have hstoredOrg : stored.organizationID = org.map (·.id) := hsame.organizationID.trans hrowOrg
    cases org with
    | none => simp [newJWTOptions, APIToken.organization, Row.toBiz, hstoredOrg]
    | some org => simp [newJWTOptions, APIToken.organization, Row.toBiz, hstoredOrg, resolveOrg_ne_nil horg]
  · rw [Row.toBiz_project hrefers, hsame.projectID, hrowProject]
    rfl
  · rw [Row.toBiz_workflow hrefers, hsame.workflowID, hrowWorkflow]
    rfl

end

theorem tokenOrg_eq_ok {token : APIToken} {org : Option Named} (h : db.tokenOrg token = .ok org) :
    org.map (·.id) = token.organization := by
  unfold tokenOrg at h
  split at h
  · rename_i hnone
    cases h
    exact hnone.symm
  · rename_i id hsome
    obtain ⟨found, -, hok⟩ := bind_eq_ok.mp h
    cases hok
    exact hsome.symm

theorem regenerateJWT_eq_ok (h : db.regenerateJWT id now expiresIn = .ok (db', claims)) :
    db.Keeps db' ∧ db'.Accepts id claims := by
  rw [regenerateJWT, guard_eq_ok] at h
  obtain ⟨-, hrest⟩ := h
  split at hrest
  · cases hrest
  · rename_i token htoken
    rw [guard_eq_ok] at hrest
    obtain ⟨-, -, hrest⟩ := bind_eq_ok.mp hrest.2
    obtain ⟨org, horg, hrest⟩ := bind_eq_ok.mp hrest
    obtain ⟨signed, hsigned, hok⟩ := bind_eq_ok.mp hrest
    cases hok
    have hkeeps : db.Keeps (db.updateExpiration id (now + expiresIn)) :=
      keeps_updateOneID db id _ _ fun row => ⟨rfl, rfl, rfl, rfl, rfl⟩
    refine ⟨hkeeps, hkeeps.accepts ?_⟩
    have hverify : token.verifyRow claims = .ok () :=
      verifyRow_of_signed ((wrapErr_eq_ok ..).mp hsigned) rfl rfl (tokenOrg_eq_ok horg) rfl rfl
    rw [Accepts, htoken]
    exact hverify

end Db

section

variable {validateIsDNS1123 : String → Except GoError Unit}

theorem System.step_accepts {s s' : System} (h : s.step validateIsDNS1123 e = some s')
    (hs : ∀ handed ∈ s.handedOut, s.db.Accepts handed.1 handed.2) :
    ∀ handed ∈ s'.handedOut, s'.db.Accepts handed.1 handed.2 := by
  cases e with simp only [System.step] at h
  | create id now name expiresIn orgID options =>
    split at h
    · cases h
      exact hs
    · rename_i hcreate
      cases h
      exact fun handed hmem => (Db.create_eq_ok hcreate).1.accepts (hs handed hmem)
    · rename_i claims hcreate
      cases h
      obtain ⟨hkeeps, hnew⟩ := Db.create_eq_ok hcreate
      intro handed hmem
      rcases List.mem_cons.mp hmem with rfl | hold
      · exact hnew claims rfl
      · exact hkeeps.accepts (hs handed hold)
  | regenerate id now expiresIn =>
    split at h
    · cases h
      exact hs
    · rename_i hregenerate
      cases h
      obtain ⟨hkeeps, hnew⟩ := Db.regenerateJWT_eq_ok hregenerate
      intro handed hmem
      rcases List.mem_cons.mp hmem with rfl | hold
      · exact hnew
      · exact hkeeps.accepts (hs handed hold)
  | revoke id =>
    cases h
    have hkeeps : s.db.Keeps (s.db.revoke id) :=
      Db.keeps_updateOneID s.db id _ _ fun row => ⟨rfl, rfl, rfl, rfl, rfl⟩
    exact fun handed hmem => hkeeps.accepts (hs handed hmem)
  | catalog catalog =>
    split at h
    · rename_i hgrows
      cases h
      exact fun handed hmem => (Db.keeps_withCatalog s.db catalog hgrows).accepts (hs handed hmem)
    · cases h

end

def claimedID (claim : String) : Option UUID := if claim = "" then none else UUID.parse claim

theorem claimedID_idText (id : Option UUID) : claimedID (idText id) = id := by
  cases id <;> simp [claimedID]

theorem token_claims_agree_with_row :
    (∀ validateIsDNS1123 db events s, run (System.step validateIsDNS1123) ⟨db, []⟩ events = some s →
        ∀ handed ∈ s.handedOut, verifyClaims (s.db.findByID handed.1) (some handed.2) = .ok ()) ∧
      ∀ (token : APIToken) (claims : CustomClaims), verifyClaims (some token) (some claims) = .ok () →
        (∃ kind, token.scope = some kind ∧ claims.getScope = .ok (kind, token.scopeID)) ∧
          claimedID claims.orgID = token.organization ∧ claimedID claims.projectID = token.project.map (·.id) ∧
          claimedID claims.workflowID = token.workflow.map (·.id) := by
  constructor
  · intro validateIsDNS1123 db events s hrun
    refine run_keeps (fun s => ∀ handed ∈ s.handedOut, s.db.Accepts handed.1 handed.2) ?_ ?_ hrun
    · intro handed hmem
      cases hmem
    · exact fun mid e next hmid hstep => System.step_accepts hstep hmid
  · intro token claims h
    obtain ⟨kind, hkind, hread, horg, hproject, hworkflow⟩ := APIToken.verifyRow_iff.mp h
    rw [horg, hproject, hworkflow, claimedID_idText, claimedID_idText, claimedID_idText]
    exact ⟨⟨kind, hkind, hread⟩, rfl, rfl, rfl⟩

def oneWorkflow : Db where
  catalog :=
    { organizations := empty.set (.ofByte 9) ⟨"acme", false⟩
      projects := empty.set (.ofByte 5) ⟨"shop", .ofByte 9, false⟩
      workflows := empty.set (.ofByte 6) ⟨"build", .ofByte 5⟩
      identified := by decide }
  tokens := .empty
  references := by
    intro id row hrow
    cases hrow

def workflowToken : Options where
  project := some ⟨.ofByte 5, "shop"⟩
  workflow := some ⟨⟨.ofByte 6, "build"⟩, .ofByte 5⟩
  scope := none
  projectIDs := none
  policies := none
  isSystem := false

def createAndRegenerate : List Event :=
  [.create (.ofByte 1) 0 "ci" (some 10) (some (UUID.ofByte 9).toString) workflowToken, .regenerate (.ofByte 1) 5 10]

theorem workflowToken_claims_agree :
    ∃ s, run (System.step fun _ => .ok ()) ⟨oneWorkflow, []⟩ createAndRegenerate = some s ∧
      s.handedOut.map (fun handed => (handed.2.scope, claimedID handed.2.workflowID)) =
        [("project", some (.ofByte 6)), ("project", some (.ofByte 6))] ∧
      ∀ handed ∈ s.handedOut, verifyClaims (s.db.findByID handed.1) (some handed.2) = .ok () := by
  have hrun : ((run (System.step fun _ => .ok ()) ⟨oneWorkflow, []⟩ createAndRegenerate).map fun s =>
      s.handedOut.map fun handed => (handed.2.scope, claimedID handed.2.workflowID)) =
        some [("project", some (.ofByte 6)), ("project", some (.ofByte 6))] := by decide +kernel
  obtain ⟨s, hs, hhanded⟩ := map_eq_some_iff.mp hrun
  exact ⟨s, hs, hhanded, token_claims_agree_with_row.1 _ _ _ s hs⟩

end Chainloop.Tokens
