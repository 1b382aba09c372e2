import Chainloop.Crafter.State

namespace Chainloop.Crafting

open Go Policies Materials

structure ArchiveEntry where
  name : String
  tmpPath : String
deriving DecidableEq

def normalizeArchivePath (name : String) : String := replaceAll "\\" "/" name

-- sort.SliceStable on the normalized paths.
def sortEntries (entries : List ArchiveEntry) : List ArchiveEntry :=
  entries.insertionSort fun a b => ¬ normalizeArchivePath b.name < normalizeArchivePath a.name

structure ArchiveEnv where
  mkdirTemp : Except GoError Unit
  walk : Except GoError (List ArchiveEntry)
  stage : Nat → StageEnv
  write : Except GoError Unit

structure Staging where
  state : CraftingState
  allocator : NameAllocator
  stagedNames : List String
  result : List Material
deriving DecidableEq

-- The second pass: name and stage the entries one by one, up to the first failure.
def stageEntries (env : Nat → StageEnv) (kind : MaterialType) (namePrefix : String)
    (runtimeAnnotations : Map String String) (opts : AddOpts) :
    List ArchiveEntry → Staging → Outcome Unit × Staging
  | [], s => (.ok (), s)
  | e :: rest, s =>
    let (matName, allocator) := allocateNamed s.allocator namePrefix
    match stageMaterial (env s.result.length) s.state (freeMaterial kind matName) e.tmpPath
        runtimeAnnotations opts with
    | (.ok mt, st) =>
      stageEntries env kind namePrefix runtimeAnnotations opts rest
        ⟨st, allocator, s.stagedNames ++ [matName], s.result ++ [mt]⟩
    | (.failed err, st) =>
      (.failed (err.wrap ("staging entry " ++ quote e.name ++ " as material " ++ quote matName)),
        ⟨st, allocator, s.stagedNames, s.result⟩)
    | (.panicked, st) => (.panicked, ⟨st, allocator, s.stagedNames, s.result⟩)

def materialReferences : String := "chainloop.material.references"

def addReference (mt : Material) (names : List String) : Material :=
  let references := appendReferences (mt.annotations.getD materialReferences "") names
  { mt with annotations := mt.annotations.set materialReferences references }

-- Recording the archive itself. The exploded materials that point back at it are
-- the objects that the materials map holds.
def stageSourceArchive (env : Nat → StageEnv) (namePrefix archivePath : String) (opts : AddOpts)
    (s : Staging) : Outcome Unit × Staging :=
  let (archiveName, allocator) :=
    allocateNamed s.allocator (nameOr "material" namePrefix ++ "-archive")
  let references := .ofList [(materialReferences, ",".intercalate (s.result.map Material.id))]
  match stageMaterial (env s.result.length) s.state (freeMaterial .evidence archiveName) archivePath
      references opts with
  | (.ok _, st) =>
    let result := s.result.map fun mt => addReference mt [archiveName]
    (.ok (), ⟨{ st with materials := result.foldl (fun m mt => m.set mt.id mt) st.materials },
      allocator, s.stagedNames ++ [archiveName], result⟩)
  | (.failed err, st) =>
    (.failed (err.wrap ("recording source archive " ++ quote archivePath ++ " as evidence " ++
      quote archiveName)), ⟨st, allocator, s.stagedNames, s.result⟩)
  | (.panicked, st) => (.panicked, ⟨st, allocator, s.stagedNames, s.result⟩)

def stageArchive (env : Nat → StageEnv) (kind : MaterialType) (namePrefix archivePath : String)
    (runtimeAnnotations : Map String String) (opts : AddOpts) (entries : List ArchiveEntry)
    (s : Staging) : Outcome Unit × Staging :=
  match stageEntries env kind namePrefix runtimeAnnotations opts (sortEntries entries) s with
  | (.ok (), s) =>
    if opts.recordSourceArchive then stageSourceArchive env namePrefix archivePath opts s
    else (.ok (), s)
  | stopped => stopped

-- The closure rollback. Reslicing beyond the capacity would panic.
def rollback (checkpoint : Nat) (s : Staging) : Option CraftingState :=
  (s.state.policyEvaluations.reslice checkpoint).map fun evs =>
    { s.state with
      policyEvaluations := evs
      materials := s.stagedNames.foldl Map.erase s.state.materials }

def rollbackAndReturn (checkpoint : Nat) (s : Staging) (c : Crafter) (e : GoError) :
    Outcome (List Material) × Crafter :=
  match rollback checkpoint s with
  | none => (.panicked, { c with state := s.state })
  | some st => (.failed e, { c with state := st })

def commitArchive (env : ArchiveEnv) (c : Crafter) (kind : MaterialType)
    (namePrefix archivePath : String) (runtimeAnnotations : Map String String) (opts : AddOpts)
    (entries : List ArchiveEntry) : Outcome (List Material) × Crafter :=
  let checkpoint := c.state.policyEvaluations.len
  let start : Staging := ⟨c.state, newNameAllocator c.state.materials.keys, [], []⟩
  match stageArchive env.stage kind namePrefix archivePath runtimeAnnotations opts entries start with
  | (.panicked, s) => (.panicked, { c with state := s.state })
  | (.failed e, s) => rollbackAndReturn checkpoint s c e
  | (.ok (), s) =>
    match Crafter.write env.write { c with state := s.state } with
    | (.error e, _) => rollbackAndReturn checkpoint s c e
    | (.ok (), c) => (.ok s.result, c)

def addMaterialsFromArchive (env : ArchiveEnv) (c : Crafter) (kind namePrefix archivePath : String)
    (runtimeAnnotations : Map String String) (opts : AddOpts) : Outcome (List Material) × Crafter :=
  match MaterialType.value? kind with
  | none => (.failed (kindNotFound kind), c)
  | some materialKind =>
    match env.mkdirTemp with
    | .error e => (.failed (e.wrap "creating temp dir for archive expansion"), c)
    | .ok () =>
      match env.walk with
      | .error e => (.failed (e.wrap ("expanding archive " ++ quote archivePath)), c)
      | .ok [] => (.failed (.new ("archive " ++ quote archivePath ++
          " contains no processable entries")), c)
      | .ok (entry :: entries) =>
        commitArchive env c materialKind namePrefix archivePath runtimeAnnotations opts
          (entry :: entries)

end Chainloop.Crafting
