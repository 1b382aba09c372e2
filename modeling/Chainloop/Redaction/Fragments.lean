import Chainloop.Redaction.Body
import Chainloop.Text.Fragments

namespace Chainloop.Redaction

open Go Json Text

variable {w : Rewriter} {path : Chars}

def Rewriter.edits (w : Rewriter) : List (Edit Char) :=
  w.secrets.map fun sr => ⟨sr.secret, encodeStringBody (w.placeholder sr.ruleID)⟩

-- The rewritten body of a leaf, every character with the position it came from.
def Rewriter.cells (w : Rewriter) (s : Chars) : List (Cell Char) :=
  trace w.edits (original (encodeStringBody s).zipIdx)

theorem map_fst_cells (hmarked : w.marked (encodeStringBody s) = false) (hne : ∀ sr ∈ w.secrets, sr.secret ≠ []) :
    (w.cells s).map Prod.fst = w.finalBody s := by
  have hcells : w.cells s = w.cellsAfter false w.secrets (original (encodeStringBody s).zipIdx) := by
    rw [Rewriter.cells, trace, Rewriter.edits, List.foldl_map]
    rfl
  have hstart : (original (encodeStringBody s).zipIdx).map Prod.fst = encodeStringBody s := by
    simp [original, Function.comp_def]
  rw [hcells, map_fst_cellsAfter false hne, hstart, Rewriter.finalBody, hmarked]

def WholeLeaf (w : Rewriter) (s path : Chars) (t : Tally) : Prop :=
  decodeStringBody ((w.cells s).map Prod.fst) = none ∧
    ∃ sr ∈ w.secrets, (w.redactLeaf s path t).1 = w.placeholder sr.ruleID

-- No position of an occurrence of a secret is left: the whole leaf is replaced, or
-- placeholders stand exactly where the occurrences stood.
def NoFragmentLeft (w : Rewriter) (s path : Chars) (t : Tally) : Prop :=
  WholeLeaf w s path t ∨
    decodeStringBody ((w.cells s).map Prod.fst) = some (w.redactLeaf s path t).1 ∧
      Replaced w.edits (encodeStringBody s)

theorem edits_ne_nil (hne : ∀ sr ∈ w.secrets, sr.secret ≠ []) : ∀ e ∈ w.edits, e.old ≠ [] := by
  intro e he
  obtain ⟨sr, hsr, rfl⟩ := List.mem_map.mp he
  exact hne sr hsr

theorem noFragmentLeft_iff_replaced {s : Chars} (t : Tally) (hpath : w.pathFilter path = true)
    (hmarked : w.marked (encodeStringBody s) = false) (hne : ∀ sr ∈ w.secrets, sr.secret ≠ []) :
    NoFragmentLeft w s path t ↔ WholeLeaf w s path t ∨ Replaced w.edits (encodeStringBody s) := by
  obtain ⟨hdecodes, hwhole⟩ := redactLeaf_eligible hpath hne s t
  rw [← map_fst_cells hmarked hne] at hdecodes hwhole
  constructor
  · rintro (h | ⟨_, h⟩)
    · exact .inl h
    · exact .inr h
  · rintro (h | h)
    · exact .inl h
    · cases hdec : decodeStringBody ((w.cells s).map Prod.fst) with
      | none =>
        obtain ⟨rule, hleaf, before, sr, rest, hsplit, rfl, -⟩ := hwhole hdec
        exact .inl ⟨hdec, sr, by simp [hsplit], hleaf⟩
      | some out => exact .inr ⟨by rw [hdec, hdecodes out hdec], h⟩

def fragmentRewriter (secrets : List Chars) : Rewriter where
  pathFilter := fun _ => true
  placeholder := defaultPlaceholder
  allowMarkers := false
  secrets := secrets.map fun secret => ⟨secret, ['r']⟩

-- The placeholder and the character after it make up a secret, and the character,
-- which was in none, is gone.
example : ('x', some 3) ∉ (fragmentRewriter ["abc".toList, "]x".toList]).cells "abcx".toList := by decide +kernel

end Chainloop.Redaction
