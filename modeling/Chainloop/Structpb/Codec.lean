import Chainloop.Go.Errors
import Chainloop.Go.Map

-- Decoded JSON values as google.protobuf.Value holds them, and how a Go type is
-- written to one and read back.
namespace Chainloop.Structpb

open Go List Except

-- The numbers are counters here, so they are whole.
inductive Value where
  | null
  | number (n : Nat)
  | string (s : String)
  | bool (b : Bool)
  | struct (fields : List (String × Value))
  | list (values : List Value)
deriving Repr

def Value.kind : Value → String
  | .null => "null"
  | .number _ => "number"
  | .string _ => "string"
  | .bool _ => "bool"
  | .struct _ => "object"
  | .list _ => "array"

def mismatch {α : Type} (v : Value) (goType : String) : Except GoError α :=
  .error (.new ("json: cannot unmarshal " ++ v.kind ++ " into Go value of type " ++ goType))

-- A Go type with what encoding/json writes for a value, what it reads from one, and
-- the values that omitempty leaves out.
structure Codec (α : Type) where
  zero : α
  empty : α → Bool
  encode : α → Value
  decode : Value → Except GoError α
  decode_encode : ∀ a, decode (encode a) = .ok a
  eq_zero_of_empty : ∀ a, empty a = true → a = zero

namespace Codec

variable {α β : Type}

def string : Codec String where
  zero := ""
  empty s := s == ""
  encode := .string
  decode
    | .string s => .ok s
    | .null => .ok ""
    | v => mismatch v "string"
  decode_encode _ := rfl
  eq_zero_of_empty s h := by simpa using h

def bool : Codec Bool where
  zero := false
  empty b := !b
  encode := .bool
  decode
    | .bool b => .ok b
    | .null => .ok false
    | v => mismatch v "bool"
  decode_encode _ := rfl
  eq_zero_of_empty b h := by simpa using h

def int : Codec Nat where
  zero := 0
  empty n := n == 0
  encode := .number
  decode
    | .number n => .ok n
    | .null => .ok 0
    | v => mismatch v "int"
  decode_encode _ := rfl
  eq_zero_of_empty n h := by simpa using h

def raw : Codec Value where
  zero := .null
  empty _ := false
  encode v := v
  decode v := .ok v
  decode_encode _ := rfl
  eq_zero_of_empty _ h := by cases h

-- A type that is written as another one.
def via (c : Codec β) (write : α → β) (read : β → α) (h : ∀ a, read (write a) = a)
    (keep : ∀ a, c.empty (write a) = true → a = read c.zero) : Codec α where
  zero := read c.zero
  empty a := c.empty (write a)
  encode a := c.encode (write a)
  decode v := read <$> c.decode v
  decode_encode a := map_eq_ok.mpr ⟨write a, c.decode_encode _, h a⟩
  eq_zero_of_empty := keep

theorem mapM_decode_encode (c : Codec α) (l : List α) : (l.map c.encode).mapM c.decode = .ok l := by
  rw [mapM_eq_ok_iff, forall₂_map_left_iff, forall₂_same]
  exact fun a _ => c.decode_encode a

def slice (c : Codec α) : Codec (List α) where
  zero := []
  empty l := l.isEmpty
  encode l := .list (l.map c.encode)
  decode
    | .list vs => vs.mapM c.decode
    | .null => .ok []
    | v => mismatch v "slice"
  decode_encode l := mapM_decode_encode c l
  eq_zero_of_empty l h := by simpa using h

-- A pointer that is not followed when it is nil.
def pointer (c : Codec α) (h : ∀ a, c.encode a ≠ .null) : Codec (Option α) where
  zero := none
  empty a := a.isNone
  encode
    | none => .null
    | some a => c.encode a
  decode
    | .null => .ok none
    | v => some <$> c.decode v
  decode_encode
    | none => rfl
    | some a => by
      simp only
      split
      · next hnull => exact absurd hnull (h a)
      · exact map_eq_ok.mpr ⟨a, c.decode_encode a, rfl⟩
  eq_zero_of_empty a h := by simpa using h

-- map[string]T. The entries are set one after the other, in the order they stand in.
def dict (c : Codec α) : Codec (Map String α) where
  zero := .empty
  empty m := m.entries.isEmpty
  encode m := .struct (m.entries.map fun e => (e.1, c.encode e.2))
  decode
    | .struct fields => do
      let entries ← fields.mapM fun e => do
        let a ← c.decode e.2
        return (e.1, a)
      return .ofList entries
    | .null => .ok .empty
    | v => mismatch v "map"
  decode_encode m := by
    refine bind_eq_ok.mpr ⟨m.entries, ?_, congrArg ok (Map.ofList_entries m)⟩
    rw [mapM_eq_ok_iff, forall₂_map_left_iff, forall₂_same]
    intro e _
    exact bind_eq_ok.mpr ⟨e.2, c.decode_encode e.2, rfl⟩
  eq_zero_of_empty m h := by
    apply Map.ext_entries
    exact isEmpty_iff.mp h

end Codec

-- Some of the fields of a Go struct. What they are read from may have members under
-- other keys before and behind them.
structure Fields (α : Type) where
  keys : List String
  write : α → List (String × Value)
  read : List (String × Value) → Except GoError α
  write_keys : ∀ a, ∀ e ∈ write a, e.1 ∈ keys
  read_write : ∀ a before after, (∀ e ∈ before, e.1 ∉ keys) → (∀ e ∈ after, e.1 ∉ keys) →
    read (before ++ (write a ++ after)) = .ok a

namespace Fields

variable {α β : Type}

theorem lookup_behind {after : List (String × Value)} (h : ∀ e ∈ before, e.1 ∉ [key]) :
    (before ++ after).lookup key = after.lookup key := by
  rw [lookup_append, lookup_eq_none_iff.mpr, Option.none_or]
  intro e he
  simpa using fun hkey : key = e.1 => h e he (by simp [hkey])

theorem lookup_absent {fields : List (String × Value)} (h : ∀ e ∈ fields, e.1 ∉ [key]) :
    fields.lookup key = none := by
  have hnil : (fields ++ []).lookup key = [].lookup key := lookup_behind h
  rwa [append_nil] at hnil

-- A missing member leaves the zero value.
def readField (key : String) (c : Codec α) (fields : List (String × Value)) : Except GoError α :=
  match fields.lookup key with
  | none => .ok c.zero
  | some v => c.decode v

def field (key : String) (c : Codec α) : Fields α where
  keys := [key]
  write a := [(key, c.encode a)]
  read := readField key c
  write_keys a e he := by
    rw [mem_singleton.mp he]
    exact mem_singleton_self key
  read_write a before after hbefore hafter := by
    rw [readField, lookup_behind hbefore]
    simpa using c.decode_encode a

def omitEmpty (key : String) (c : Codec α) : Fields α where
  keys := [key]
  write a := if c.empty a then [] else [(key, c.encode a)]
  read := readField key c
  write_keys a e he := by
    split at he
    · cases he
    · rw [mem_singleton.mp he]
      exact mem_singleton_self key
  read_write a before after hbefore hafter := by
    rw [readField, lookup_behind hbefore]
    cases hempty : c.empty a with
    | true =>
      rw [if_pos rfl, nil_append, lookup_absent hafter]
      exact congrArg ok (c.eq_zero_of_empty a hempty).symm
    | false => simpa using c.decode_encode a

def both (f : Fields α) (g : Fields β) (h : ∀ k ∈ f.keys, k ∉ g.keys) : Fields (α × β) where
  keys := f.keys ++ g.keys
  write p := f.write p.1 ++ g.write p.2
  read fields := do
    let a ← f.read fields
    let b ← g.read fields
    return (a, b)
  write_keys p e he := by
    rcases mem_append.mp he with he | he
    · exact mem_append_left _ (f.write_keys p.1 e he)
    · exact mem_append_right _ (g.write_keys p.2 e he)
  read_write p before after hbefore hafter := by
    have hf : f.read (before ++ (f.write p.1 ++ g.write p.2 ++ after)) = .ok p.1 := by
      rw [append_assoc (f.write p.1)]
      refine f.read_write p.1 before (g.write p.2 ++ after) ?_ ?_
      · exact fun e he hk => hbefore e he (mem_append_left _ hk)
      · intro e he hk
        rcases mem_append.mp he with he | he
        · exact h e.1 hk (g.write_keys p.2 e he)
        · exact hafter e he (mem_append_left _ hk)
    have hg : g.read (before ++ (f.write p.1 ++ g.write p.2 ++ after)) = .ok p.2 := by
      rw [append_assoc (f.write p.1), ← append_assoc before]
      refine g.read_write p.2 (before ++ f.write p.1) after ?_ ?_
      · intro e he hk
        rcases mem_append.mp he with he | he
        · exact hbefore e he (mem_append_right _ hk)
        · exact h e.1 (f.write_keys p.1 e he) hk
      · exact fun e he hk => hafter e he (mem_append_right _ hk)
    exact bind_eq_ok.mpr ⟨p.1, hf, bind_eq_ok.mpr ⟨p.2, hg, rfl⟩⟩

def as (f : Fields β) (write : α → β) (read : β → α) (h : ∀ a, read (write a) = a) : Fields α where
  keys := f.keys
  write a := f.write (write a)
  read fields := read <$> f.read fields
  write_keys a := f.write_keys (write a)
  read_write a before after hbefore hafter :=
    map_eq_ok.mpr ⟨write a, f.read_write (write a) before after hbefore hafter, h a⟩

def object (f : Fields α) (zero : α) : Codec α where
  zero := zero
  empty _ := false
  encode a := .struct (f.write a)
  decode
    | .struct fields => f.read fields
    | .null => .ok zero
    | v => mismatch v "struct"
  decode_encode a := by
    have h := f.read_write a [] [] (by simp) (by simp)
    rwa [nil_append, append_nil] at h
  eq_zero_of_empty _ h := by cases h

def pointer (f : Fields α) (zero : α) : Codec (Option α) :=
  (f.object zero).pointer fun _ h => by cases h

end Fields

end Chainloop.Structpb
