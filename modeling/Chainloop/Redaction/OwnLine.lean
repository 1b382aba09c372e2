import Chainloop.Redaction.Soundness

namespace Chainloop.Redaction

open Go Json Text Except
open List hiding span

-- Of the secrets of a call an eligible leaf is left with occurrences that stood, in
-- the given document, on a line of the leaf with a marker of its own.
def Redactor.OnOwnLine (r : Redactor) (history : List (List SecretRule)) (path s : Chars) : Prop :=
  (r.leafCells history path s).map Prod.fst = encodeStringBody (r.leafAfter history path s) ∧
    ∀ secrets ∈ history, ∀ sr ∈ secrets, ∀ i,
      sr.secret <+: (encodeStringBody (r.leafAfter history path s)).drop i →
      ∃ j, ((r.leafCells history path s).drop i).take sr.secret.length
          = original (((encodeStringBody s).zipIdx.drop j).take sr.secret.length) ∧
        sr.secret <+: (encodeStringBody s).drop j ∧
        ∃ span, AllowedLine (encodeStringBody s) span ∧ span.start ≤ j ∧ j + sr.secret.length ≤ span.stop

theorem Redactor.Undisturbed.onOwnLine {r : Redactor} {scan : Scanner} {P : SecretRule → Prop} {root : Value}
    (h : r.Undisturbed scan P (r.start root).root)
    (hrun : r.passes scan r.maxPasses 1 (r.start root) = .ok st)
    (hleaf : leaf ∈ leaves (r.start root).root []) (hpath : r.pathFilter leaf.1 = true) :
    r.OnOwnLine (r.chases scan root) leaf.1 leaf.2 := by
  obtain ⟨hP, hleaves⟩ := h.start hrun
  have hstage := hleaves leaf hleaf
  refine ⟨?_, fun secrets hsecrets sr hsr i hocc => ?_⟩
  · rw [Redactor.LeafStage, if_pos hpath] at hstage
    exact hstage.1
  · obtain ⟨hPsr, hne⟩ := hP secrets hsecrets sr hsr
    obtain ⟨-, j, hcells, hgiven, -, hline⟩ := hstage.on_line hpath (h.calm leaf hleaf hpath) h.breaks hPsr hne
      ⟨secrets, hsecrets, mem_map_of_mem hsr⟩ hocc
    exact ⟨j, hcells, hgiven, hline⟩

def lineRules : List SecretRule :=
  [⟨['K', 'E', 'Y'], ['k']⟩, ⟨['Y', '\\', 'n', 'Z'], ['m']⟩, ⟨[']', 'x'], ['x']⟩]

def markerRedactor : Redactor := { Redactor.new (seeks lineRules) with allowMarkers := true }

def markedDocument : Chars := "\x7b\"t\":\"KEY gitleaks:allow\\nKEY ]x\"\x7d".toList

theorem markerRedactor_undisturbed : markerRedactor.Undisturbed (seeks lineRules) (· ∈ lineRules)
    (markerRedactor.start (strings [(['t'], "KEY gitleaks:allow\nKEY ]x".toList)])).root := by
  refine undisturbed_seeks (by decide +kernel) fun leaf hleaf _ => ?_
  obtain rfl : leaf = (['/', 't'], "KEY gitleaks:allow\nKEY ]x".toList) := mem_singleton.mp hleaf
  exact calm_of_parses (by decide +kernel) (fun _ => by decide +kernel) (by decide)

def joinedDocument : Chars := "\x7b\"t\":\"KEY Y\\nZ gitleaks:allow\"\x7d".toList

theorem line_runs :
    (decodeObject markedDocument = .ok (strings [(['t'], "KEY gitleaks:allow\nKEY ]x".toList)]) ∧
      (markerRedactor.redact markedDocument).toOption.map Prod.fst =
        some "\x7b\"t\":\"KEY gitleaks:allow\\n[CHAINLOOP_TRACE_REDACTED:k] [CHAINLOOP_TRACE_REDACTED:x]\"\x7d".toList) ∧
    decodeObject joinedDocument = .ok (strings [(['t'], "KEY Y\nZ gitleaks:allow".toList)]) ∧
      (markerRedactor.redact joinedDocument).toOption.map Prod.fst =
        some "\x7b\"t\":\"KEY [CHAINLOOP_TRACE_REDACTED:m] gitleaks:allow\"\x7d".toList ∧
      markerRedactor.chases (seeks lineRules) (strings [(['t'], "KEY Y\nZ gitleaks:allow".toList)])
        = [[⟨['Y', '\\', 'n', 'Z'], ['m']⟩, ⟨['K', 'E', 'Y'], ['k']⟩]] := by
  refine ⟨⟨decodeObject_strings ?_ (by simp), ?_⟩, decodeObject_strings ?_ (by simp), ?_⟩ <;> decide +kernel

end Chainloop.Redaction
