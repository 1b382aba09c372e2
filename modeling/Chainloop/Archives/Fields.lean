import Chainloop.Archives.Radamsa

namespace Chainloop.Archives.Radamsa

open List

-- What stands before a character: a backslash that escapes it, an open quote.
structure Scan where
  escaped : Bool
  inQuote : Bool
deriving DecidableEq

namespace Scan

def outside : Scan := ⟨false, false⟩

def next (s : Scan) (c : Char) : Scan :=
  if s.escaped then { s with escaped := false }
  else if c = '\\' then { s with escaped := true }
  else if c = '"' then { s with inQuote := !s.inQuote }
  else s

end Scan

def separator : List Char := [',', ' ']

-- The separator may cut a text that is scanned from `s` right behind `before`.
def Cuts (s : Scan) (before : List Char) : Prop := before.foldl Scan.next s = .outside

def Uncut (s : Scan) (part : List Char) : Prop :=
  ∀ before behind, part = before ++ separator ++ behind → ¬ Cuts s before

-- The first part of a text and the further ones.
inductive Parts : Scan → List Char → List Char → List (List Char) → Prop where
  | last (h : Uncut s part) : Parts s part part []
  | cut (h : Uncut s part) (hcut : Cuts s part) (hrest : Parts .outside rest part' parts) :
      Parts s (part ++ separator ++ rest) part (part' :: parts)

-- The separator between `before` and `behind` stands behind the first or a further part.
def Between : List (List Char) → List Char → List Char → Prop
  | part :: part' :: parts, before, behind =>
    before = part ∧ behind = separator.intercalate (part' :: parts) ∨
      ∃ b, before = part ++ separator ++ b ∧ Between (part' :: parts) b behind
  | _, _, _ => False

theorem uncut_nil (s : Scan) : Uncut s [] := by
  intro before behind h
  cases before <;> cases h

theorem Uncut.cons (h : Uncut (s.next c) part)
    (hc : s = .outside → c = ',' → part.head? ≠ some ' ') : Uncut s (c :: part) := by
  intro before behind heq hcuts
  cases before with
  | nil =>
    obtain ⟨rfl, rfl⟩ := cons.inj heq
    exact hc hcuts rfl rfl
  | cons b before =>
    obtain ⟨rfl, hpart⟩ := cons.inj heq
    exact h before behind hpart hcuts

theorem Parts.cons (h : Parts (s.next c) text part parts)
    (hc : s = .outside → c = ',' → text.head? ≠ some ' ') : Parts s (c :: text) (c :: part) parts := by
  cases h with
  | last h => exact .last (h.cons hc)
  | cut h hcut hrest =>
    refine .cut (h.cons fun hs hcomma hhead => hc hs hcomma ?_) hcut hrest
    rw [append_assoc, head?_append, hhead]
    rfl

theorem splitParts_spec (inQuote : Bool) (part rest : List Char) :
    ∃ first parts, splitParts inQuote part rest = (part.reverse ++ first) :: parts ∧
      Parts ⟨false, inQuote⟩ rest first parts := by
  fun_induction splitParts inQuote part rest with
  | case1 inQuote part => exact ⟨[], [], by simp, .last (uncut_nil _)⟩
  | case2 inQuote part c rest ih =>
    obtain ⟨first, parts, heq, hparts⟩ := ih
    refine ⟨'\\' :: c :: first, parts, by simp [heq], ?_⟩
    exact .cons (.cons hparts (by simp [Scan.next, Scan.outside])) (by simp)
  | case3 inQuote part rest ih =>
    obtain ⟨first, parts, heq, hparts⟩ := ih
    exact ⟨'"' :: first, parts, by simp [heq], .cons hparts (by simp)⟩
  | case4 part rest ih =>
    obtain ⟨first, parts, heq, hparts⟩ := ih
    refine ⟨',' :: ' ' :: first, parts, by simp [heq], ?_⟩
    exact .cons (.cons hparts (by simp)) (by simp [Scan.outside])
  | case5 inQuote part rest hquote ih =>
    obtain rfl : inQuote = false := by simpa using hquote
    obtain ⟨first, parts, heq, hparts⟩ := ih
    refine ⟨[], first :: parts, by simpa using heq, ?_⟩
    exact .cut (uncut_nil _) rfl hparts
  | case6 inQuote part c rest hslash hquote hcomma ih =>
    cases rest with
    | nil => exact ⟨[c], [], by simp [splitParts], .last ((uncut_nil _).cons (by simp))⟩
    | cons d rest =>
      obtain ⟨first, parts, heq, hparts⟩ := ih
      have hne : c ≠ '\\' := fun hc => hslash d rest hc rfl
      have hnext : (⟨false, inQuote⟩ : Scan).next c = ⟨false, inQuote⟩ := by
        simp [Scan.next, hne, show c ≠ '"' from hquote]
      refine ⟨c :: first, parts, by simp [heq], .cons (by rwa [hnext]) fun _ hc hd => ?_⟩
      obtain rfl : d = ' ' := by simpa using hd
      exact hcomma rest hc rfl

theorem Parts.joined (h : Parts s text part parts) : separator.intercalate (part :: parts) = text := by
  induction h with
  | last => simp [intercalate]
  | cut _ _ _ ih => simp [intercalate, ← ih]

theorem separator_append (h : separator ++ x = m ++ (separator ++ y)) :
    (m = [] ∧ x = y) ∨ ∃ m', m = separator ++ m' ∧ x = m' ++ separator ++ y := by
  match m with
  | [] => exact .inl ⟨rfl, append_cancel_left h⟩
  | [_] => simp [separator] at h
  | _ :: _ :: m' =>
    simp only [separator, cons_append, nil_append, cons.injEq] at h
    obtain ⟨rfl, rfl, rfl⟩ := h
    exact .inr ⟨m', rfl, by simp [separator]⟩

theorem Parts.cuts_iff (h : Parts s text part parts) (before behind : List Char)
    (heq : text = before ++ separator ++ behind) : Cuts s before ↔ Between (part :: parts) before behind := by
  induction h generalizing before behind with
  | last h => exact iff_of_false (h before behind heq) not_false
  | cut h hcut hrest ih =>
    rename_i s part rest part' parts
    rw [Between, hrest.joined]
    rw [append_assoc, append_assoc, append_eq_append_iff] at heq
    rcases heq with ⟨m, rfl, heq⟩ | ⟨m, rfl, heq⟩ <;> rcases separator_append heq with ⟨rfl, rfl⟩ | ⟨m', rfl, rfl⟩
    · simpa using hcut
    · have hstate : Cuts s (part ++ (separator ++ m')) ↔ Cuts .outside m' := by
        rw [Cuts, foldl_append, hcut]
        rfl
      rw [hstate, ih m' behind rfl]
      constructor
      · exact fun hbetween => .inr ⟨m', by simp, hbetween⟩
      · rintro (⟨hpart, -⟩ | ⟨b, hb, hbetween⟩)
        · simp [separator] at hpart
        · obtain rfl : m' = b := by simpa using hb
          exact hbetween
    · simpa using hcut
    · refine iff_of_false (h before m' (by simp)) ?_
      rintro (⟨hb, -⟩ | ⟨b, hb, -⟩)
      · simp [separator] at hb
      · have hlength := congrArg length hb
        simp only [length_append] at hlength
        have : separator.length = 2 := rfl
        omega

theorem Parts.uncut (h : Parts s text part parts) : Uncut s part ∧ ∀ p ∈ parts, Uncut .outside p := by
  induction h with
  | last h => exact ⟨h, by simp⟩
  | cut h _ _ ih => exact ⟨h, forall_mem_cons.mpr ih⟩

-- The separators that cut are those outside of quotes that are not escaped.
structure CutExactly (line : List Char) (parts : List (List Char)) : Prop where
  joined : separator.intercalate parts = line
  cuts : ∀ before behind, line = before ++ separator ++ behind →
    (Cuts .outside before ↔ Between parts before behind)
  uncut : ∀ part ∈ parts, Uncut .outside part

theorem fields_cut_exactly (line : String) :
    CutExactly line.toList ((splitTopLevel line).map String.toList) := by
  obtain ⟨first, parts, heq, hparts⟩ := splitParts_spec false [] line.toList
  have hmap : (splitTopLevel line).map String.toList = first :: parts := by
    rw [splitTopLevel, heq]
    simp
  rw [hmap]
  exact ⟨hparts.joined, hparts.cuts_iff, forall_mem_cons.mpr hparts.uncut⟩

end Chainloop.Archives.Radamsa
