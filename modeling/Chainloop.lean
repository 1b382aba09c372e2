import Chainloop.Action.Enforcement
import Chainloop.Archives.Caps
import Chainloop.Archives.DranzerCounters
import Chainloop.Archives.DranzerFindings
import Chainloop.Archives.Fields
import Chainloop.Archives.SafePath
import Chainloop.Authz.Projects
import Chainloop.Backends.Roles
import Chainloop.BuildLogs.Folding
import Chainloop.BuildLogs.Runs
import Chainloop.Cas.DownloadIntegrity
import Chainloop.Cas.Upload
import Chainloop.Crafter.Follow
import Chainloop.Crafter.Gates
import Chainloop.Login.OneShot
import Chainloop.Materials.AccessChk
import Chainloop.Members.Downloads
import Chainloop.Members.Groups
import Chainloop.Members.Owners
import Chainloop.Policies.Defaults
import Chainloop.Policies.InputMaps
import Chainloop.Policies.Selection
import Chainloop.Redaction.Fragments
import Chainloop.Redaction.Frame
import Chainloop.Redaction.Idempotent
import Chainloop.Redaction.OwnLine
import Chainloop.Referrers.Downloadable
import Chainloop.Referrers.Pages
import Chainloop.Runs.Bundles
import Chainloop.Runs.Expiry
import Chainloop.Runs.Immutable
import Chainloop.Runs.Listing
import Chainloop.Runs.NoLostUpdate
import Chainloop.Tokens.Agreement
import Chainloop.Trace.Enriched
import Chainloop.Trace.Executor
import Chainloop.Trace.LiveWork
import Chainloop.Trace.OwnEvidence
import Chainloop.Trace.Settle
import Chainloop.Trace.Slug
