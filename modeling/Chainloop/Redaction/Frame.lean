import Chainloop.Redaction.Soundness

namespace Chainloop.Redaction

open Go Json Text

def Redactor.MayDiffer (r : Redactor) (history : List (List SecretRule)) (path s s' : Chars) : Prop :=
  s' = s ∨ r.pathFilter path = true ∧
    ∃ secrets ∈ history, ∃ sr ∈ secrets, sr.secret <:+: encodeStringBody s

theorem mayDiffer_leafAfter (r : Redactor) (history : List (List SecretRule)) (path s : Chars) :
    r.MayDiffer history path s (r.leafAfter history path s) := by
  by_cases hleaf : r.leafAfter history path s = s
  · exact .inl hleaf
  · right
    by_contra hno
    apply hleaf
    apply leafAfter_untouched
    by_cases hpath : r.pathFilter path = true
    · right
      intro secrets hsecrets sr hsr hin
      exact hno ⟨hpath, secrets, hsecrets, sr, hsr, hin⟩
    · exact .inl (by simpa using hpath)

def mediaRedactor : Redactor :=
  { guardedRedactor with opaqueFilter := some fun _ _ k => k == ['m'] }

def mediaDocument : Chars := "\x7b\"id\":\"SEC\",\"m\":\"SEC\",\"n\":1,\"t\":\"SEC!\"\x7d".toList

end Chainloop.Redaction
