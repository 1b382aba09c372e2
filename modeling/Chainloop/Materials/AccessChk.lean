import Chainloop.Go.Intern

namespace Chainloop.Materials.AccessChk

open Go

-- A slice, which may be nil. reflect.DeepEqual does not take nil for an empty slice.
abbrev Slice (α : Type) := Option (List α)

structure Tool where
  name : String
  version : String
deriving DecidableEq

structure AccessEntry where
  access : String
  principal : String
  rights : Slice String
deriving DecidableEq

structure ACE where
  index : Int
  aceType : String
  principal : String
  aceFlags : Slice String
  rights : Slice String
deriving DecidableEq

structure Object where
  name : String
  descriptorFlags : Slice String
  owner : String
  dacl : Slice ACE
  sacl : Slice ACE
  accessEntries : Slice AccessEntry
  rawLines : Slice String
deriving DecidableEq

structure Report where
  tool : Tool
  objects : List Object
  raw : String
deriving DecidableEq

structure Descriptor where
  descriptorFlags : Slice String
  owner : String
  dacl : Slice ACE
  sacl : Slice ACE
  accessEntries : Slice AccessEntry
deriving DecidableEq

structure ProjectedObject where
  name : String
  descriptor : Nat
  rawLines : Slice String
deriving DecidableEq

structure Projection where
  tool : Tool
  descriptors : List Descriptor
  objects : List ProjectedObject
  raw : String
deriving DecidableEq

def fnv64a (b : List UInt8) : UInt64 :=
  b.foldl (fun h c => (h ^^^ c.toUInt64) * 1099511628211) 14695981039346656037

def Object.descriptor (o : Object) : Descriptor :=
  ⟨o.descriptorFlags, o.owner, o.dacl, o.sacl, o.accessEntries⟩

-- What json.Encoder writes for a descriptor. It has strings and numbers only, so it does not fail.
variable (encode : Descriptor → List UInt8)

def fingerprint (d : Descriptor) : UInt64 := fnv64a (encode d)

structure Projected where
  table : Interned (fingerprint encode) := .empty
  objects : List ProjectedObject := []

def Projected.add (p : Projected encode) (o : Object) : Projected encode :=
  let placed := p.table.intern o.descriptor
  ⟨placed.1, p.objects ++ [⟨o.name, placed.2, o.rawLines⟩]⟩

def Report.project (r : Report) : Projection :=
  let p : Projected encode := r.objects.foldl (Projected.add encode) {}
  ⟨r.tool, p.table.values, p.objects, r.raw⟩

structure Restores (descriptors : List Descriptor) (o : Object) (po : ProjectedObject) : Prop where
  name : po.name = o.name
  rawLines : po.rawLines = o.rawLines
  descriptor : descriptors[po.descriptor]? = some o.descriptor

structure Lossless (r : Report) (p : Projection) : Prop where
  tool : p.tool = r.tool
  raw : p.raw = r.raw
  objects : List.Forall₂ (Restores p.descriptors) r.objects p.objects
  distinct : p.descriptors.Nodup
  used : ∀ i < p.descriptors.length, ∃ po ∈ p.objects, po.descriptor = i

variable {encode}

-- What holds after the objects, of which there are any number.
structure Tracks (done : List Object) (p : Projected encode) : Prop where
  objects : List.Forall₂ (Restores p.table.values) done p.objects
  used : ∀ i < p.table.values.length, ∃ po ∈ p.objects, po.descriptor = i

theorem Restores.mono (h : ds <+: es) (hr : Restores ds o po) : Restores es o po where
  name := hr.name
  rawLines := hr.rawLines
  descriptor := by
    obtain ⟨tail, rfl⟩ := h
    obtain ⟨hlt, -⟩ := List.getElem?_eq_some_iff.mp hr.descriptor
    rw [List.getElem?_append_left hlt, hr.descriptor]

theorem Tracks.add {p : Projected encode} (h : Tracks done p) (o : Object) :
    Tracks (done ++ [o]) (p.add encode o) where
  objects := by
    have hgrown := p.table.values_isPrefix_intern o.descriptor
    refine List.rel_append (h.objects.imp fun _ _ => Restores.mono hgrown) ?_
    exact .cons ⟨rfl, rfl, p.table.getElem?_intern o.descriptor⟩ .nil
  used := by
    intro i hi
    obtain hold | hnew := Interned.place_of_intern hi
    · obtain ⟨po, hpo, hplace⟩ := h.used i hold
      exact ⟨po, List.mem_append_left _ hpo, hplace⟩
    · exact ⟨_, List.mem_append_right _ (List.mem_singleton_self _), hnew.symm⟩

theorem tracks_foldl (objects done : List Object) (h : Tracks done p) :
    Tracks (done ++ objects) (objects.foldl (Projected.add encode) p) := by
  induction objects generalizing done p with
  | nil => simpa using h
  | cons o rest ih => simpa using ih _ (h.add o)

theorem project_lossless (encode : Descriptor → List UInt8) (r : Report) :
    Lossless r (r.project encode) := by
  have hstart : Tracks [] ({} : Projected encode) := ⟨.nil, fun i hi => nomatch hi⟩
  have htracks := tracks_foldl r.objects [] hstart
  exact ⟨rfl, rfl, htracks.objects, Interned.nodup _, htracks.used⟩

end Chainloop.Materials.AccessChk
