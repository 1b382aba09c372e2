import Mathlib.Data.List.Nodup
import Chainloop.Json.Value

namespace Chainloop.Redaction

open Json List

-- What Decoder.Token gives for the parts of a document.
inductive Token where
  | opened (object : Bool)
  | closed (object : Bool)
  | string (s : Chars)
  | scalar

structure JSONFrame where
  isObject : Bool
  keys : List Chars
  expectKey : Bool

inductive KeyError where
  | duplicate (key : Chars)
  | unbalanced (object : Bool)

-- A value is complete, so that an object around it expects the next key.
def completed : List JSONFrame → List JSONFrame
  | [] => []
  | frame :: stack => (if frame.isObject then { frame with expectKey := true } else frame) :: stack

def Token.key : Token → Chars
  | .string s => s
  | _ => []

def rejectDuplicateKeys : List JSONFrame → List Token → Option KeyError
  | _, [] => none
  | stack, .opened object :: rest => rejectDuplicateKeys (⟨object, [], object⟩ :: stack) rest
  | [], .closed object :: _ => some (.unbalanced object)
  | _ :: stack, .closed _ :: rest => rejectDuplicateKeys (completed stack) rest
  | [], _ :: rest => rejectDuplicateKeys [] rest
  | frame :: stack, token :: rest =>
    if frame.isObject && frame.expectKey then
      if frame.keys.contains token.key then some (.duplicate token.key)
      else rejectDuplicateKeys ({ frame with keys := token.key :: frame.keys, expectKey := false } :: stack) rest
    else rejectDuplicateKeys (completed (frame :: stack)) rest

mutual

def tokens : Value → List Token
  | .obj members => .opened true :: memberTokens members ++ [.closed true]
  | .arr items => .opened false :: itemTokens items ++ [.closed false]
  | .str s => [.string s]
  | .detached _ => [.string []]
  | .num _ | .bool _ | .null => [.scalar]

def memberTokens : List (Chars × Value) → List Token
  | [] => []
  | (k, v) :: members => .string k :: (tokens v ++ memberTokens members)

def itemTokens : List Value → List Token
  | [] => []
  | v :: items => tokens v ++ itemTokens items

end

inductive Inside (v : Value) : Value → Prop where
  | self : Inside v v
  | member {m : Chars × Value} (hm : m ∈ members) (h : Inside v m.2) : Inside v (.obj members)
  | item {w : Value} (hw : w ∈ items) (h : Inside v w) : Inside v (.arr items)

-- No object in the value repeats a key.
def Unrepeated (v : Value) : Prop := ∀ members, Inside (.obj members) v → (members.map Prod.fst).Nodup

-- If the condition holds the walk goes on as the other one, and otherwise it finds a duplicate.
def Follows (p : Prop) (walk next : Option KeyError) : Prop :=
  (p → walk = next) ∧ (¬ p → ∃ key, walk = some (.duplicate key))

theorem Follows.and (h : Follows p walk mid) (h' : Follows q mid later) : Follows (p ∧ q) walk later := by
  refine ⟨fun hpq => (h.1 hpq.1).trans (h'.1 hpq.2), fun hnot => ?_⟩
  by_cases hp : p
  · rw [h.1 hp]
    exact h'.2 fun hq => hnot ⟨hp, hq⟩
  · exact h.2 hp

theorem Follows.of_eq (hp : p) (h : walk = later) : Follows p walk later :=
  ⟨fun _ => h, fun hnot => absurd hp hnot⟩

theorem Follows.congr (h : Follows p walk later) (hpq : p ↔ q) : Follows q walk later := by
  rwa [← propext hpq]

-- The next token of the innermost object or array is not a key.
def ExpectsValue : List JSONFrame → Prop
  | [] => True
  | frame :: _ => (frame.isObject && frame.expectKey) = false

theorem rejectDuplicateKeys_scalar (h : ExpectsValue stack) (token : Token)
    (htoken : token = .scalar ∨ ∃ s, token = .string s) (rest : List Token) :
    rejectDuplicateKeys stack (token :: rest) = rejectDuplicateKeys (completed stack) rest := by
  cases stack with
  | nil => rcases htoken with rfl | ⟨s, rfl⟩ <;> rfl
  | cons frame stack =>
    replace h : (frame.isObject && frame.expectKey) = false := h
    rcases htoken with rfl | ⟨s, rfl⟩ <;> simp [rejectDuplicateKeys, h]

theorem unrepeated_leaf {v : Value} (hobj : ∀ members, v ≠ .obj members) (harr : ∀ items, v ≠ .arr items) :
    Unrepeated v := by
  intro members h
  cases h with
  | self => exact absurd rfl (hobj _)
  | member => exact absurd rfl (hobj _)
  | item => exact absurd rfl (harr _)

theorem unrepeated_obj : Unrepeated (.obj members) ↔ (members.map Prod.fst).Nodup ∧ ∀ m ∈ members, Unrepeated m.2 := by
  constructor
  · exact fun h => ⟨h members .self, fun m hm inner hinside => h inner (.member hm hinside)⟩
  · rintro ⟨hnodup, hall⟩ inner hinside
    cases hinside with
    | self => exact hnodup
    | member hm hinside => exact hall _ hm inner hinside

theorem unrepeated_arr : Unrepeated (.arr items) ↔ ∀ v ∈ items, Unrepeated v := by
  constructor
  · exact fun h v hv inner hinside => h inner (.item hv hinside)
  · intro hall inner hinside
    cases hinside with
    | item hw hinside => exact hall _ hw inner hinside

mutual

theorem follows_tokens : ∀ (v : Value) (stack : List JSONFrame) (rest : List Token), ExpectsValue stack →
    Follows (Unrepeated v) (rejectDuplicateKeys stack (tokens v ++ rest)) (rejectDuplicateKeys (completed stack) rest)
  | .obj members, stack, rest, _ => by
    obtain ⟨seen, h⟩ := follows_memberTokens members [] stack (.closed true :: rest)
    have hwalk : tokens (.obj members) ++ rest = .opened true :: (memberTokens members ++ .closed true :: rest) := by
      simp [tokens]
    rw [hwalk]
    exact h.congr (by simp [unrepeated_obj])
  | .arr items, stack, rest, _ => by
    have h := follows_itemTokens items stack (.closed false :: rest)
    have hwalk : tokens (.arr items) ++ rest = .opened false :: (itemTokens items ++ .closed false :: rest) := by
      simp [tokens]
    rw [hwalk]
    exact h.congr unrepeated_arr.symm
  | .str s, _, rest, h => .of_eq (unrepeated_leaf nofun nofun) (rejectDuplicateKeys_scalar h _ (.inr ⟨s, rfl⟩) rest)
  | .detached _, _, rest, h => .of_eq (unrepeated_leaf nofun nofun) (rejectDuplicateKeys_scalar h _ (.inr ⟨[], rfl⟩) rest)
  | .num _, _, rest, h | .bool _, _, rest, h | .null, _, rest, h =>
    .of_eq (unrepeated_leaf nofun nofun) (rejectDuplicateKeys_scalar h _ (.inl rfl) rest)

-- Between its members an object has the keys so far and expects another one.
theorem follows_memberTokens : ∀ (members : List (Chars × Value)) (keys : List Chars)
    (stack : List JSONFrame) (rest : List Token), ∃ seen,
    Follows ((∀ m ∈ members, m.1 ∉ keys) ∧ (members.map Prod.fst).Nodup ∧ ∀ m ∈ members, Unrepeated m.2)
      (rejectDuplicateKeys (⟨true, keys, true⟩ :: stack) (memberTokens members ++ rest))
      (rejectDuplicateKeys (⟨true, seen, true⟩ :: stack) rest)
  | [], keys, _, _ => ⟨keys, .of_eq (by simp) rfl⟩
  | (k, v) :: members, keys, stack, rest => by
    obtain ⟨seen, hrest⟩ := follows_memberTokens members (k :: keys) stack rest
    have hv := follows_tokens v (⟨true, k :: keys, false⟩ :: stack) (memberTokens members ++ rest) rfl
    have hkey : Follows (k ∉ keys)
        (rejectDuplicateKeys (⟨true, keys, true⟩ :: stack) (memberTokens ((k, v) :: members) ++ rest))
        (rejectDuplicateKeys (⟨true, k :: keys, false⟩ :: stack) (tokens v ++ (memberTokens members ++ rest))) := by
      constructor
      · intro hk
        simp [memberTokens, rejectDuplicateKeys, Token.key, hk]
      · intro hk
        exact ⟨k, by simp_all [memberTokens, rejectDuplicateKeys, Token.key]⟩
    refine ⟨seen, (hkey.and (hv.and hrest)).congr ?_⟩
    have hfresh : (∀ m ∈ members, m.1 ∉ k :: keys) ↔ (∀ m ∈ members, m.1 ∉ keys) ∧ k ∉ members.map Prod.fst := by
      simp only [mem_cons, not_or, mem_map, not_exists, not_and]
      exact ⟨fun h => ⟨fun m hm => (h m hm).2, fun m hm heq => (h m hm).1 heq⟩,
        fun h m hm => ⟨fun heq => h.2 m hm heq, h.1 m hm⟩⟩
    rw [hfresh, map_cons, nodup_cons, forall_mem_cons, forall_mem_cons]
    tauto

theorem follows_itemTokens : ∀ (items : List Value) (stack : List JSONFrame) (rest : List Token),
    Follows (∀ v ∈ items, Unrepeated v)
      (rejectDuplicateKeys (⟨false, [], false⟩ :: stack) (itemTokens items ++ rest))
      (rejectDuplicateKeys (⟨false, [], false⟩ :: stack) rest)
  | [], _, _ => .of_eq (by simp) rfl
  | v :: items, stack, rest => by
    have hv := follows_tokens v (⟨false, [], false⟩ :: stack) (itemTokens items ++ rest) rfl
    rw [itemTokens, append_assoc]
    exact (hv.and (follows_itemTokens items stack rest)).congr forall_mem_cons.symm

end

theorem duplicate_keys_found_exactly (v : Value) :
    ((∃ key, rejectDuplicateKeys [] (tokens v) = some (.duplicate key)) ↔
        ∃ members, Inside (.obj members) v ∧ ¬ (members.map Prod.fst).Nodup) ∧
      ((∀ members, Inside (.obj members) v → (members.map Prod.fst).Nodup) →
        rejectDuplicateKeys [] (tokens v) = none) := by
  have h := follows_tokens v [] [] trivial
  rw [append_nil] at h
  refine ⟨⟨fun ⟨key, hkey⟩ => ?_, fun ⟨members, hinside, hrepeats⟩ => h.2 fun hclean => ?_⟩, h.1⟩
  · by_contra hnone
    have hclean : Unrepeated v := fun members hinside => by_contra fun hrepeats => hnone ⟨members, hinside, hrepeats⟩
    cases (h.1 hclean).symm.trans hkey
  · exact hrepeats (hclean members hinside)

end Chainloop.Redaction
