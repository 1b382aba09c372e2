import Mathlib.Data.List.TakeWhile
import Chainloop.Go.Strings

namespace Chainloop.Go

open String

-- filepath.Ext: from the last dot of the last element, if there is one.
def fileExt (path : String) : String :=
  let r := path.toList.reverse
  let tail := r.takeWhile fun c => c != '.' && c != '/'
  match r.drop tail.length with
  | '.' :: _ => ofList ('.' :: tail.reverse)
  | _ => ""

def trimExt (path : String) : String :=
  ofList (path.toList.take (path.toList.length - (fileExt path).toList.length))

def baseName (path : String) : String :=
  if path = "" then "."
  else
    let stripped := path.toList.reverse.dropWhile (· == '/')
    let last := (stripped.takeWhile (· != '/')).reverse
    if last = [] then "/" else ofList last

theorem baseName_of_not_mem {s : String} (hne : s ≠ "") (h : '/' ∉ s.toList) : baseName s = s := by
  have hall (c) (hc : c ∈ s.toList.reverse) : (c != '/') = true := by
    rw [bne_iff_ne]
    rintro rfl
    exact h (List.mem_reverse.mp hc)
  have hdrop : s.toList.reverse.dropWhile (· == '/') = s.toList.reverse := by
    cases hs : s.toList.reverse with
    | nil => rfl
    | cons c rest =>
      have hc := hall c (by simp [hs])
      rw [List.dropWhile_cons, if_neg (by simpa using hc)]
  have htake : s.toList.reverse.takeWhile (· != '/') = s.toList.reverse :=
    List.takeWhile_eq_self_iff.mpr hall
  have hnil : s.toList ≠ [] := fun hnil => hne (toList_inj.mp hnil)
  simp only [baseName, if_neg hne, hdrop, htake, List.reverse_reverse, if_neg hnil, ofList_toList]

theorem baseName_ne_empty (s : String) : baseName s ≠ "" := by
  unfold baseName
  split_ifs with hs
  · decide
  · dsimp only
    split_ifs with hlast
    · decide
    · intro h
      exact hlast (ofList_injective h)

theorem not_mem_baseName (h : baseName s ≠ "/") : '/' ∉ (baseName s).toList := by
  revert h
  unfold baseName
  split_ifs with hs
  · decide
  · dsimp only
    split_ifs with hlast
    · exact fun h => absurd rfl h
    · intro _ hmem
      rw [toList_ofList, List.mem_reverse] at hmem
      have hkept := List.mem_takeWhile_imp hmem
      exact absurd hkept (by decide)

end Chainloop.Go
