import Chainloop.Json.Value

namespace Chainloop.Json

open List

-- The tree with every string leaf replaced by what the function makes of its path
-- and text.
mutual

def mapLeaves (f : Chars → Chars → Chars) : Value → Chars → Value
  | .obj ms, path => .obj (mapMemberLeaves f ms path)
  | .arr vs, path => .arr (mapItemLeaves f vs 0 path)
  | .str s, path => .str (f path s)
  | v, _ => v

def mapMemberLeaves (f : Chars → Chars → Chars) : List (Chars × Value) → Chars → List (Chars × Value)
  | [], _ => []
  | (k, v) :: ms, path => (k, mapLeaves f v (keyPath path k)) :: mapMemberLeaves f ms path

def mapItemLeaves (f : Chars → Chars → Chars) : List Value → Nat → Chars → List Value
  | [], _, _ => []
  | v :: vs, i, path => mapLeaves f v (indexPath path i) :: mapItemLeaves f vs (i + 1) path

end

section Map

variable (f g : Chars → Chars → Chars)

theorem mapMemberLeaves_eq_map (ms : List (Chars × Value)) (path : Chars) :
    mapMemberLeaves f ms path = ms.map fun m => (m.1, mapLeaves f m.2 (keyPath path m.1)) := by
  induction ms with
  | nil => rfl
  | cons m ms ih => rw [mapMemberLeaves, ih, map_cons]

theorem mapItemLeaves_eq_mapIdx (vs : List Value) (i : Nat) (path : Chars) :
    mapItemLeaves f vs i path = vs.mapIdx fun j v => mapLeaves f v (indexPath path (i + j)) := by
  induction vs generalizing i with
  | nil => rfl
  | cons v vs ih => simp [mapItemLeaves, ih, mapIdx_cons, Nat.add_assoc, Nat.add_comm 1]

theorem leaves_mapLeaves (v : Value) (path : Chars) :
    leaves (mapLeaves f v path) path = (leaves v path).map fun leaf => (leaf.1, f leaf.1 leaf.2) := by
  induction v using Value.ind generalizing path with
  | obj ms ih =>
    simp only [leaves, mapLeaves, mapMemberLeaves_eq_map, memberLeaves_eq_flatMap, flatMap_map, map_flatMap]
    exact flatMap_congr fun m hm => ih m hm _
  | arr vs ih =>
    simp only [leaves, mapLeaves, mapItemLeaves_eq_mapIdx, itemLeaves_eq_flatten, map_flatten]
    exact congrArg flatten (ext_getElem (by simp) fun j _ _ => by simp [ih])
  | str | detached | num | bool | null => rfl

theorem mapLeaves_mapLeaves (v : Value) (path : Chars) :
    mapLeaves g (mapLeaves f v path) path = mapLeaves (fun path s => g path (f path s)) v path := by
  induction v using Value.ind generalizing path with
  | obj ms ih => simpa [mapLeaves, mapMemberLeaves_eq_map] using fun k v h => ih (k, v) h _
  | arr vs ih =>
    simp only [mapLeaves, mapItemLeaves_eq_mapIdx]
    exact congrArg Value.arr (ext_getElem (by simp) fun j _ _ => by simp [ih])
  | str | detached | num | bool | null => rfl

theorem mapLeaves_eq_self {f : Chars → Chars → Chars} (v : Value) (path : Chars)
    (h : ∀ leaf ∈ leaves v path, f leaf.1 leaf.2 = leaf.2) : mapLeaves f v path = v := by
  induction v using Value.ind generalizing path with
  | obj ms ih =>
    simp only [leaves, memberLeaves_eq_flatMap, mem_flatMap] at h
    have hms : ∀ m ∈ ms, (m.1, mapLeaves f m.2 (keyPath path m.1)) = id m := fun m hm =>
      congrArg (m.1, ·) (ih m hm _ fun leaf hleaf => h leaf ⟨m, hm, hleaf⟩)
    rw [mapLeaves, mapMemberLeaves_eq_map, map_congr_left hms, map_id]
  | arr vs ih =>
    simp only [leaves, itemLeaves_eq_flatten, mem_flatten, mem_mapIdx] at h
    rw [mapLeaves, mapItemLeaves_eq_mapIdx]
    refine congrArg Value.arr (ext_getElem (by simp) fun j _ hj => ?_)
    rw [getElem_mapIdx]
    exact ih _ (getElem_mem hj) _ fun leaf hleaf => h leaf ⟨_, ⟨j, hj, rfl⟩, hleaf⟩
  | str s => exact congrArg Value.str (h (path, s) mem_cons_self)
  | detached | num | bool | null => rfl

theorem restore_mapLeaves (v : Value) (path : Chars) :
    restore (mapLeaves f (restore v) path) = mapLeaves f (restore v) path := by
  induction v using Value.ind generalizing path with
  | obj ms ih =>
    simpa [restore, mapLeaves, restoreMembers_eq_map, mapMemberLeaves_eq_map] using fun k v h => ih (k, v) h _
  | arr vs ih =>
    simp only [restore, mapLeaves, restoreItems_eq_map, mapItemLeaves_eq_mapIdx]
    exact congrArg Value.arr (ext_getElem (by simp) fun j _ _ => by simp [ih])
  | str | detached | num | bool | null => rfl

-- A function that leaves the empty text alone sees the tree with the blanks.
theorem blank_mapLeaves (hf : ∀ path, f path [] = []) (v : Value) (path : Chars) :
    blank (mapLeaves f v path) = mapLeaves f (blank v) path := by
  induction v using Value.ind generalizing path with
  | obj ms ih =>
    simpa [blank, mapLeaves, blankMembers_eq_map, mapMemberLeaves_eq_map] using fun k v h => ih (k, v) h _
  | arr vs ih =>
    simp only [blank, mapLeaves, blankItems_eq_map, mapItemLeaves_eq_mapIdx]
    exact congrArg Value.arr (ext_getElem (by simp) fun j _ _ => by simp [ih])
  | detached => simp [blank, mapLeaves, hf]
  | str | num | bool | null => rfl

end Map

-- Two trees of the same structure: the same keys, array lengths, numbers, booleans
-- and nulls. The string leaves are related. A detached leaf has its value back.
mutual

def Frame (R : Chars → Chars → Chars → Prop) : Value → Value → Chars → Prop
  | .obj ms, .obj ms', path => FrameMembers R ms ms' path
  | .arr vs, .arr vs', path => FrameItems R vs vs' 0 path
  | .str s, .str s', path => R path s s'
  | .detached s, .str s', _ => s' = s
  | .num digits, .num digits', _ => digits' = digits
  | .bool b, .bool b', _ => b' = b
  | .null, .null, _ => True
  | _, _, _ => False

def FrameMembers (R : Chars → Chars → Chars → Prop) :
    List (Chars × Value) → List (Chars × Value) → Chars → Prop
  | [], [], _ => True
  | (k, v) :: ms, (k', v') :: ms', path => k' = k ∧ Frame R v v' (keyPath path k) ∧ FrameMembers R ms ms' path
  | _, _, _ => False

def FrameItems (R : Chars → Chars → Chars → Prop) : List Value → List Value → Nat → Chars → Prop
  | [], [], _, _ => True
  | v :: vs, v' :: vs', i, path => Frame R v v' (indexPath path i) ∧ FrameItems R vs vs' (i + 1) path
  | _, _, _, _ => False

end

section Frame

variable {R : Chars → Chars → Chars → Prop} {f : Chars → Chars → Chars} {ms : List (Chars × Value)} {vs : List Value}

theorem frameMembers_map {a b : Chars × Value → Value} (h : ∀ m ∈ ms, Frame R (a m) (b m) (keyPath path m.1)) :
    FrameMembers R (ms.map fun m => (m.1, a m)) (ms.map fun m => (m.1, b m)) path := by
  induction ms with
  | nil => trivial
  | cons m ms ih =>
    obtain ⟨hm, hms⟩ := forall_mem_cons.mp h
    exact ⟨rfl, hm, ih hms⟩

theorem frameItems_mapIdx {a c : Value → Value} {b : Nat → Value → Value}
    (h : ∀ v ∈ vs, ∀ j, Frame R (a v) (c (b j v)) (indexPath path (i + j))) :
    FrameItems R (vs.map a) ((vs.mapIdx b).map c) i path := by
  induction vs generalizing i b with
  | nil => trivial
  | cons v vs ih =>
    obtain ⟨hv, hvs⟩ := forall_mem_cons.mp h
    rw [mapIdx_cons]
    exact ⟨hv 0, ih fun v hv j => by simpa [Nat.add_assoc, Nat.add_comm 1] using hvs v hv (j + 1)⟩

theorem frame_mapLeaves (h : ∀ path s, R path s (f path s)) (v : Value) (path : Chars) :
    Frame R v (restore (mapLeaves f v path)) path := by
  induction v using Value.ind generalizing path with
  | obj ms ih =>
    simp only [restore, mapLeaves, restoreMembers_eq_map, mapMemberLeaves_eq_map, map_map]
    have hms := frameMembers_map fun m hm => ih m hm (keyPath path m.1)
    rw [show ms.map (fun m => (m.1, m.2)) = ms from map_id ms] at hms
    exact hms
  | arr vs ih =>
    simp only [restore, mapLeaves, restoreItems_eq_map, mapItemLeaves_eq_mapIdx]
    have hvs := frameItems_mapIdx (i := 0) (a := id) fun v hv j => ih v hv (indexPath path (0 + j))
    rw [map_id] at hvs
    exact hvs
  | str s => exact h path s
  | detached | num | bool => rfl
  | null => trivial

end Frame

-- The leaves that were taken out, each with the way to it: what the side list of
-- detachOpaque holds as an object, a key and a value.
mutual

def detachedLeaves : Value → List (List Nat × Chars)
  | .obj ms => detachedMembers ms 0
  | .arr vs => detachedItems vs 0
  | .detached s => [([], s)]
  | _ => []

def detachedMembers : List (Chars × Value) → Nat → List (List Nat × Chars)
  | [], _ => []
  | (_, v) :: ms, i => (detachedLeaves v).map (fun d => (i :: d.1, d.2)) ++ detachedMembers ms (i + 1)

def detachedItems : List Value → Nat → List (List Nat × Chars)
  | [], _ => []
  | v :: vs, i => (detachedLeaves v).map (fun d => (i :: d.1, d.2)) ++ detachedItems vs (i + 1)

end

mutual

def writeBack (s : Chars) : Value → List Nat → Value
  | .obj ms, i :: way => .obj (writeMember s ms i way)
  | .arr vs, i :: way => .arr (writeItem s vs i way)
  | .str _, [] => .str s
  | v, _ => v

def writeMember (s : Chars) : List (Chars × Value) → Nat → List Nat → List (Chars × Value)
  | [], _, _ => []
  | (k, v) :: ms, 0, way => (k, writeBack s v way) :: ms
  | m :: ms, i + 1, way => m :: writeMember s ms i way

def writeItem (s : Chars) : List Value → Nat → List Nat → List Value
  | [], _, _ => []
  | v :: vs, 0, way => writeBack s v way :: vs
  | v :: vs, i + 1, way => v :: writeItem s vs i way

end

def writeAllBack (v : Value) (side : List (List Nat × Chars)) : Value :=
  side.foldl (fun v d => writeBack d.2 v d.1) v

section Side

theorem writeMember_append (s : Chars) (done ms : List (Chars × Value)) (way : List Nat) (i : Nat) :
    writeMember s (done ++ ms) (done.length + i) way = done ++ writeMember s ms i way := by
  induction done with
  | nil => simp
  | cons m done ih =>
    rw [cons_append, length_cons, Nat.add_right_comm, writeMember, ih, cons_append]

theorem writeItem_append (s : Chars) (done vs : List Value) (way : List Nat) (i : Nat) :
    writeItem s (done ++ vs) (done.length + i) way = done ++ writeItem s vs i way := by
  induction done with
  | nil => simp
  | cons v done ih =>
    rw [cons_append, length_cons, Nat.add_right_comm, writeItem, ih, cons_append]

theorem writeAllBack_member (done ms : List (Chars × Value)) (k : Chars) (side : List (List Nat × Chars))
    (v : Value) :
    writeAllBack (.obj (done ++ (k, v) :: ms)) (side.map fun d => (done.length :: d.1, d.2))
      = .obj (done ++ (k, writeAllBack v side) :: ms) := by
  induction side generalizing v with
  | nil => rfl
  | cons d side ih =>
    have hstep : writeBack d.2 (.obj (done ++ (k, v) :: ms)) (done.length :: d.1)
        = .obj (done ++ (k, writeBack d.2 v d.1) :: ms) := by
      rw [writeBack, ← Nat.add_zero done.length, writeMember_append, writeMember]
    rw [map_cons, writeAllBack, foldl_cons, hstep]
    exact ih _

theorem writeAllBack_item (done vs : List Value) (side : List (List Nat × Chars)) (v : Value) :
    writeAllBack (.arr (done ++ v :: vs)) (side.map fun d => (done.length :: d.1, d.2))
      = .arr (done ++ writeAllBack v side :: vs) := by
  induction side generalizing v with
  | nil => rfl
  | cons d side ih =>
    have hstep : writeBack d.2 (.arr (done ++ v :: vs)) (done.length :: d.1)
        = .arr (done ++ writeBack d.2 v d.1 :: vs) := by
      rw [writeBack, ← Nat.add_zero done.length, writeItem_append, writeItem]
    rw [map_cons, writeAllBack, foldl_cons, hstep]
    exact ih _

theorem writeAllBack_append (v : Value) (side side' : List (List Nat × Chars)) :
    writeAllBack v (side ++ side') = writeAllBack (writeAllBack v side) side' := foldl_append

-- Writing the side list back into the tree with the blanks puts the leaves back.
mutual

theorem writeAllBack_detachedLeaves : ∀ v : Value, writeAllBack (blank v) (detachedLeaves v) = restore v
  | .obj ms => writeAllBack_detachedMembers [] ms
  | .arr vs => writeAllBack_detachedItems [] vs
  | .str _ | .detached _ | .num _ | .bool _ | .null => rfl

theorem writeAllBack_detachedMembers : ∀ done ms : List (Chars × Value),
    writeAllBack (.obj (done ++ blankMembers ms)) (detachedMembers ms done.length)
      = .obj (done ++ restoreMembers ms)
  | done, [] => rfl
  | done, (k, v) :: ms => by
    have hrest := writeAllBack_detachedMembers (done ++ [(k, restore v)]) ms
    rw [blankMembers, detachedMembers, writeAllBack_append, writeAllBack_member,
      writeAllBack_detachedLeaves v]
    rw [length_append, length_singleton, append_assoc, append_assoc] at hrest
    exact hrest

theorem writeAllBack_detachedItems : ∀ done vs : List Value,
    writeAllBack (.arr (done ++ blankItems vs)) (detachedItems vs done.length)
      = .arr (done ++ restoreItems vs)
  | done, [] => rfl
  | done, v :: vs => by
    have hrest := writeAllBack_detachedItems (done ++ [restore v]) vs
    rw [blankItems, detachedItems, writeAllBack_append, writeAllBack_item, writeAllBack_detachedLeaves v]
    rw [length_append, length_singleton, append_assoc, append_assoc] at hrest
    exact hrest

end

-- The side list stays valid.
variable {f : Chars → Chars → Chars}

mutual

theorem detachedLeaves_mapLeaves : ∀ (v : Value) (path : Chars),
    detachedLeaves (mapLeaves f v path) = detachedLeaves v
  | .obj ms, path => detachedMembers_mapLeaves ms 0 path
  | .arr vs, path => detachedItems_mapLeaves vs 0 0 path
  | .str _, _ | .detached _, _ | .num _, _ | .bool _, _ | .null, _ => rfl

theorem detachedMembers_mapLeaves : ∀ (ms : List (Chars × Value)) (i : Nat) (path : Chars),
    detachedMembers (mapMemberLeaves f ms path) i = detachedMembers ms i
  | [], _, _ => rfl
  | (k, v) :: ms, i, path => by
    rw [mapMemberLeaves, detachedMembers, detachedMembers, detachedLeaves_mapLeaves v,
      detachedMembers_mapLeaves ms]

theorem detachedItems_mapLeaves : ∀ (vs : List Value) (i n : Nat) (path : Chars),
    detachedItems (mapItemLeaves f vs n path) i = detachedItems vs i
  | [], _, _, _ => rfl
  | v :: vs, i, n, path => by
    rw [mapItemLeaves, detachedItems, detachedItems, detachedLeaves_mapLeaves v, detachedItems_mapLeaves vs]

end

end Side

end Chainloop.Json
