import Chainloop.Materials.Names
import Mathlib.Data.List.DropRight

namespace Chainloop.Trace

open Go List Materials Bool

def labelMaxLength : Nat := 63

-- One round of the loop: what the builder holds, and whether a separator is pending.
def slugStep (st : List Char × Bool) (c : Char) : List Char × Bool :=
  let r := toLowerName c
  if isNameChar r then
    ((if st.2 && st.1 ≠ [] then st.1 ++ ['-'] else st.1) ++ [r], false)
  else (st.1, true)

-- All that the builder holds is ASCII: its bytes are its characters.
def slugifyDNS1123 (name : String) : String :=
  let slug := String.ofList (name.toList.foldl slugStep ([], false)).1
  if slug.length > labelMaxLength then
    trimRight (· == '-') (String.ofList (slug.toList.take labelMaxLength))
  else slug

-- validation.IsDNS1123Label: [a-z0-9]([-a-z0-9]*[a-z0-9])?, of at most 63 bytes.
def isDNS1123Label (s : List Char) : Bool :=
  s.length ≤ labelMaxLength && s.all (fun c => isNameChar c || c == '-') &&
    s.head?.any isNameChar && s.getLast?.any isNameChar

theorem foldl_slugStep (cs b : List Char) (pending : Bool) :
    (cs.foldl slugStep (b, pending)).1 = b ++ sanitizeFrom pending (b ≠ []) cs := by
  induction cs generalizing b pending with
  | nil => simp [sanitizeFrom]
  | cons c cs ih =>
    simp only [foldl_cons, slugStep, sanitizeFrom]
    split_ifs <;> simp [ih]

theorem toLowerName_of_isNameChar (hc : isNameChar c) : toLowerName c = c := by
  simp only [isNameChar, or_eq_true, and_eq_true, decide_eq_true_eq, Char.le_def,
    UInt32.le_iff_toNat_le] at hc
  have hlower : ¬ (c.val ≥ 'A'.val ∧ c.val ≤ 'Z'.val) := by
    simp only [ge_iff_le, UInt32.le_iff_toNat_le]
    simp at hc ⊢
    omega
  have hval : c.val ≠ 0x130 ∧ c.val ≠ 0x212a := by
    simp only [ne_eq, ← UInt32.toNat_inj]
    simp at hc ⊢
    omega
  rw [toLowerName, if_neg hval.1, if_neg hval.2]
  exact dif_neg hlower

-- What both loops write: name characters with single hyphens between them. The
-- index says whether a name character stands before.
inductive Slug : Bool → List Char → Prop
  | nil : Slug true []
  | name (hc : isNameChar c) (h : Slug true l) : Slug b (c :: l)
  | hyphen (h : Slug false l) : Slug true ('-' :: l)

theorem sanitizeFrom_slug (pending started : Bool) (cs : List Char) :
    sanitizeFrom pending started cs = [] ∨ Slug started (sanitizeFrom pending started cs) := by
  induction cs generalizing pending started with
  | nil => exact .inl rfl
  | cons c cs ih =>
    have hrest : Slug true (sanitizeFrom false true cs) :=
      (ih false true).elim (fun h => h ▸ .nil) fun h => h
    rw [sanitizeFrom]
    split_ifs with hc hsep
    · rw [and_eq_true] at hsep
      exact .inr (hsep.2 ▸ .hyphen (.name hc hrest))
    · exact .inr (.name hc hrest)
    · exact ih true started

theorem Slug.sanitized (h : Slug b l) (hb : b = true → pending = false ∧ started = true) :
    sanitizeFrom pending started l = if pending && started then '-' :: l else l := by
  induction h generalizing pending started with
  | nil => simp [hb rfl, sanitizeFrom]
  | name hc _ ih => simp [sanitizeFrom, toLowerName_of_isNameChar hc, hc, ih]
  | hyphen _ ih =>
    have hhyphen : isNameChar (toLowerName '-') = false := by decide
    simp [sanitizeFrom, hhyphen, hb rfl, ih]

theorem Slug.of_prefix (h : Slug b l) (hq : q <+: l) (hlast : q.getLast? ≠ some '-') :
    q = [] ∨ Slug b q := by
  induction h generalizing q with
  | nil => exact .inl (prefix_nil.mp hq)
  | name hc _ ih =>
    obtain rfl | ⟨q, rfl, hrest⟩ := prefix_cons_iff.mp hq
    · exact .inl rfl
    · obtain rfl | h := ih hrest fun h => hlast (by simp [getLast?_cons, h])
      · exact .inr (.name hc .nil)
      · exact .inr (.name hc h)
  | hyphen _ ih =>
    obtain rfl | ⟨q, rfl, hrest⟩ := prefix_cons_iff.mp hq
    · exact .inl rfl
    · obtain rfl | h := ih hrest fun h => hlast (by simp [getLast?_cons, h])
      · exact absurd rfl hlast
      · exact .inr (.hyphen h)

theorem Slug.chars (h : Slug b l) (hb : b = true → isNameChar c) :
    (∀ d ∈ l, isNameChar d || d == '-') ∧ isNameChar (l.getLast?.getD c) := by
  induction h generalizing c with
  | nil => simp [hb]
  | name hc _ ih =>
    obtain ⟨hall, hlast⟩ := ih fun _ => hc
    simp_all [getLast?_cons]
  | hyphen _ ih =>
    obtain ⟨hall, hlast⟩ := ih (c := '-') nofun
    simp_all [getLast?_cons]

theorem Slug.isLabel (h : Slug false l) (hlen : l.length ≤ labelMaxLength) :
    isDNS1123Label l := by
  cases h with
  | name hc h =>
    obtain ⟨hall, hlast⟩ := h.chars fun _ => hc
    simp_all [isDNS1123Label, getLast?_cons]

-- The longest part of text, from its start, that ends in no hyphen and is not over the limit.
structure LongestCut (text cut : List Char) : Prop where
  starts : cut <+: text
  short : cut.length ≤ labelMaxLength
  ends : cut.getLast? ≠ some '-'
  longest : ∀ q, q <+: text → q.length ≤ labelMaxLength → q.getLast? ≠ some '-' →
    q.length ≤ cut.length

theorem prefix_rdropWhile (hq : q <+: l) (hlast : q.getLast? ≠ some '-') :
    q <+: l.rdropWhile (· == '-') := by
  induction l using reverseRecOn with
  | nil => exact hq
  | append_singleton l c ih =>
    rw [rdropWhile_concat]
    split_ifs with hc
    · obtain rfl | hq := prefix_concat_iff.mp hq
      · simp_all
      · exact ih hq
    · exact hq

theorem longestCut (text : List Char) :
    LongestCut text ((text.take labelMaxLength).rdropWhile (· == '-')) := by
  have hcut := rdropWhile_prefix (· == '-') (text.take labelMaxLength)
  have hfront := take_prefix labelMaxLength text
  refine ⟨hcut.trans hfront, hcut.length_le.trans (length_take_le ..), fun h => ?_,
    fun q hq hlen hlast => (prefix_rdropWhile ?_ hlast).length_le⟩
  · obtain ⟨hne, hlast⟩ := mem_getLast?_eq_getLast h
    exact rdropWhile_last_not _ _ hne (by simp [← hlast])
  · exact prefix_take_iff.mpr ⟨hq, hlen⟩

theorem slugifyDNS1123_eq (name : String) : slugifyDNS1123 name =
    if (sanitizeMaterialName name).length > labelMaxLength then
      trimRight (· == '-') (String.ofList ((sanitizeMaterialName name).toList.take labelMaxLength))
    else sanitizeMaterialName name := by
  rw [slugifyDNS1123, foldl_slugStep]
  rfl

theorem sanitizeMaterialName_of_slug (h : name.toList = [] ∨ Slug false name.toList) :
    sanitizeMaterialName name = name := by
  obtain h | h := h
  · rw [String.toList_eq_nil_iff.mp h]
    rfl
  · rw [sanitizeMaterialName, h.sanitized (by simp)]
    exact String.ofList_toList

structure SlugsAgree (name : String) : Prop where
  short : (sanitizeMaterialName name).length ≤ labelMaxLength →
    slugifyDNS1123 name = sanitizeMaterialName name
  long : labelMaxLength < (sanitizeMaterialName name).length →
    LongestCut (sanitizeMaterialName name).toList (slugifyDNS1123 name).toList
  label : slugifyDNS1123 name = "" ∨ isDNS1123Label (slugifyDNS1123 name).toList
  idempotent : slugifyDNS1123 (slugifyDNS1123 name) = slugifyDNS1123 name ∧
    sanitizeMaterialName (sanitizeMaterialName name) = sanitizeMaterialName name

theorem slugs_agree (name : String) : SlugsAgree name := by
  have hshort (name : String) (h : (sanitizeMaterialName name).length ≤ labelMaxLength) :
      slugifyDNS1123 name = sanitizeMaterialName name := by
    rw [slugifyDNS1123_eq, if_neg (by omega)]
  have hlong (h : labelMaxLength < (sanitizeMaterialName name).length) :
      LongestCut (sanitizeMaterialName name).toList (slugifyDNS1123 name).toList := by
    rw [slugifyDNS1123_eq, if_pos h, trimRight, String.toList_ofList, String.toList_ofList]
    exact longestCut _
  have hfull : (sanitizeMaterialName name).toList = [] ∨
      Slug false (sanitizeMaterialName name).toList := by
    rw [sanitizeMaterialName, String.toList_ofList]
    exact sanitizeFrom_slug ..
  have hslug : ((slugifyDNS1123 name).toList = [] ∨ Slug false (slugifyDNS1123 name).toList) ∧
      (slugifyDNS1123 name).length ≤ labelMaxLength := by
    by_cases h : (sanitizeMaterialName name).length ≤ labelMaxLength
    · rw [hshort name h]
      exact ⟨hfull, h⟩
    · have hcut := hlong (by omega)
      refine ⟨?_, hcut.short⟩
      obtain hnil | hslug := hfull
      · exact .inl (prefix_nil.mp (hnil ▸ hcut.starts))
      · exact hslug.of_prefix hcut.starts hcut.ends
  have hagain := sanitizeMaterialName_of_slug hslug.1
  exact {
    short := hshort name
    long := hlong
    label := hslug.1.imp String.toList_eq_nil_iff.mp fun h => h.isLabel hslug.2
    idempotent := ⟨(hshort _ (hagain.symm ▸ hslug.2)).trans hagain,
      sanitizeMaterialName_of_slug hfull⟩ }

end Chainloop.Trace
