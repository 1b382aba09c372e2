import Chainloop.Json.Escape

namespace Chainloop.Json

-- The members of an object stand in the order of their keys, in which a Go map is
-- written. A detached leaf is an empty string in the tree whose value is kept aside.
inductive Value where
  | obj (members : List (Chars × Value))
  | arr (items : List Value)
  | str (s : Chars)
  | detached (s : Chars)
  | num (digits : Chars)
  | bool (b : Bool)
  | null

def quoted (s : Chars) : Chars := '"' :: encodeStringBody s ++ ['"']

def newline (indent : Bool) (depth : Nat) : Chars :=
  if indent then '\n' :: List.replicate (2 * depth) ' ' else []

mutual

def render (indent : Bool) : Value → Nat → Chars
  | .obj [], _ => ['\x7b', '\x7d']
  | .obj (m :: ms), depth =>
    '\x7b' :: renderMembers indent (m :: ms) (depth + 1) ++ newline indent depth ++ ['\x7d']
  | .arr [], _ => ['[', ']']
  | .arr (v :: vs), depth =>
    '[' :: renderItems indent (v :: vs) (depth + 1) ++ newline indent depth ++ [']']
  | .str s, _ => quoted s
  | .detached _, _ => quoted []
  | .num digits, _ => digits
  | .bool true, _ => ['t', 'r', 'u', 'e']
  | .bool false, _ => ['f', 'a', 'l', 's', 'e']
  | .null, _ => ['n', 'u', 'l', 'l']

def renderMembers (indent : Bool) : List (Chars × Value) → Nat → Chars
  | [], _ => []
  | (k, v) :: ms, depth =>
    newline indent depth ++ quoted k ++ ':' :: (if indent then [' '] else []) ++
      render indent v depth ++ (if ms.isEmpty then [] else [',']) ++ renderMembers indent ms depth

def renderItems (indent : Bool) : List Value → Nat → Chars
  | [], _ => []
  | v :: vs, depth =>
    newline indent depth ++ render indent v depth ++ (if vs.isEmpty then [] else [',']) ++
      renderItems indent vs depth

end

-- The text of an encoder, without the line break it ends with.
def encode (v : Value) (indent : Bool) : Chars := render indent v 0

def keyPath (path k : Chars) : Chars := path ++ '/' :: k

def indexPath (path : Chars) (i : Nat) : Chars := path ++ '/' :: Nat.toDigits 10 i

mutual

def leaves : Value → Chars → List (Chars × Chars)
  | .obj ms, path => memberLeaves ms path
  | .arr vs, path => itemLeaves vs 0 path
  | .str s, path => [(path, s)]
  | _, _ => []

def memberLeaves : List (Chars × Value) → Chars → List (Chars × Chars)
  | [], _ => []
  | (k, v) :: ms, path => leaves v (keyPath path k) ++ memberLeaves ms path

def itemLeaves : List Value → Nat → Chars → List (Chars × Chars)
  | [], _, _ => []
  | v :: vs, i, path => leaves v (indexPath path i) ++ itemLeaves vs (i + 1) path

end

-- The tree as a program that walks it sees it.
mutual

def blank : Value → Value
  | .obj ms => .obj (blankMembers ms)
  | .arr vs => .arr (blankItems vs)
  | .detached _ => .str []
  | v => v

def blankMembers : List (Chars × Value) → List (Chars × Value)
  | [] => []
  | (k, v) :: ms => (k, blank v) :: blankMembers ms

def blankItems : List Value → List Value
  | [] => []
  | v :: vs => blank v :: blankItems vs

end

mutual

def restore : Value → Value
  | .obj ms => .obj (restoreMembers ms)
  | .arr vs => .arr (restoreItems vs)
  | .detached s => .str s
  | v => v

def restoreMembers : List (Chars × Value) → List (Chars × Value)
  | [] => []
  | (k, v) :: ms => (k, restore v) :: restoreMembers ms

def restoreItems : List Value → List Value
  | [] => []
  | v :: vs => restore v :: restoreItems vs

end

open List

theorem Value.ind {P : Value → Prop} (obj : ∀ ms, (∀ m ∈ ms, P m.2) → P (.obj ms))
    (arr : ∀ vs, (∀ v ∈ vs, P v) → P (.arr vs)) (str : ∀ s, P (.str s)) (detached : ∀ s, P (.detached s))
    (num : ∀ digits, P (.num digits)) (bool : ∀ b, P (.bool b)) (null : P .null) (v : Value) : P v := by
  refine @Value.rec P (fun ms => ∀ m ∈ ms, P m.2) (fun vs => ∀ v ∈ vs, P v) (fun m => P m.2)
    obj arr str detached num bool null ?_ ?_ ?_ ?_ ?_ v
  · simp
  · exact fun _ _ hm hms => forall_mem_cons.mpr ⟨hm, hms⟩
  · simp
  · exact fun _ _ hv hvs => forall_mem_cons.mpr ⟨hv, hvs⟩
  · exact fun _ _ hv => hv

section Lists

variable (ms ns : List (Chars × Value)) (vs : List Value) (path : Chars)

theorem restoreMembers_eq_map : restoreMembers ms = ms.map fun m => (m.1, restore m.2) := by
  induction ms with
  | nil => rfl
  | cons m ms ih => rw [restoreMembers, ih, map_cons]

theorem restoreItems_eq_map : restoreItems vs = vs.map restore := by
  induction vs with
  | nil => rfl
  | cons v vs ih => rw [restoreItems, ih, map_cons]

theorem blankMembers_eq_map : blankMembers ms = ms.map fun m => (m.1, blank m.2) := by
  induction ms with
  | nil => rfl
  | cons m ms ih => rw [blankMembers, ih, map_cons]

theorem blankItems_eq_map : blankItems vs = vs.map blank := by
  induction vs with
  | nil => rfl
  | cons v vs ih => rw [blankItems, ih, map_cons]

theorem memberLeaves_eq_flatMap : memberLeaves ms path = ms.flatMap fun m => leaves m.2 (keyPath path m.1) := by
  induction ms with
  | nil => rfl
  | cons m ms ih => rw [memberLeaves, ih, flatMap_cons]

theorem itemLeaves_eq_flatten (i : Nat) :
    itemLeaves vs i path = (vs.mapIdx fun j v => leaves v (indexPath path (i + j))).flatten := by
  induction vs generalizing i with
  | nil => rfl
  | cons v vs ih => simp [itemLeaves, ih, mapIdx_cons, Nat.add_assoc, Nat.add_comm 1]

theorem restoreMembers_append : restoreMembers (ms ++ ns) = restoreMembers ms ++ restoreMembers ns := by
  simp [restoreMembers_eq_map]

end Lists

end Chainloop.Json
