import Chainloop.Crafter.Staging

namespace Chainloop.Crafting

open Go Policies Materials List

def entriesLog (env : Nat → StageEnv) (st : CraftingState) (kind : MaterialType)
    (namePrefix : String) (annotations : Map String String) (opts : AddOpts) :
    List ArchiveEntry → Nat → NameAllocator → List LogEntry × NameAllocator
  | [], _, a => ([], a)
  | e :: rest, i, a =>
    let (n, a) := allocateNamed a namePrefix
    let (log, a) := entriesLog env st kind namePrefix annotations opts rest (i + 1) a
    (⟨n, kind, produced (env i) st (freeMaterial kind n) e.tmpPath annotations opts⟩ :: log, a)

def archiveLog (env : Nat → StageEnv) (st : CraftingState) (kind : MaterialType)
    (namePrefix archivePath : String) (annotations : Map String String) (opts : AddOpts)
    (entries : List ArchiveEntry) : List LogEntry :=
  let (log, a) := entriesLog env st kind namePrefix annotations opts (sortEntries entries) 0
    (newNameAllocator st.materials.keys)
  if opts.recordSourceArchive then
    let n := (allocateNamed a (nameOr "material" namePrefix ++ "-archive")).1
    let references := .ofList [(materialReferences, ",".intercalate (log.map LogEntry.name))]
    log ++ [⟨n, .evidence,
      produced (env log.length) st (freeMaterial .evidence n) archivePath references opts⟩]
  else log

variable {st : CraftingState} {l : List PolicyEvaluation}

def Returned (s : Staging) (log : List LogEntry) : Prop :=
  s.result.map (fun mt => (mt.id, mt.materialType)) = log.map fun p => (p.name, p.type)

variable {log : List LogEntry}

theorem Returned.length {s : Staging} (h : Returned s log) :
    s.result.length = log.length := by
  simpa using congrArg List.length h

theorem Returned.ids {s : Staging} (h : Returned s log) :
    s.result.map Material.id = log.map LogEntry.name := by
  simpa [Function.comp_def] using congrArg (map Prod.fst) h

theorem stageEntries_spec (hst : Consistent st l) (env : Nat → StageEnv) (kind : MaterialType)
    (namePrefix : String) (annotations : Map String String) (opts : AddOpts)
    (entries : List ArchiveEntry) (s : Staging) (log : List LogEntry) (h : Underway st l s log)
    (hres : Returned s log) :
    let result := stageEntries env kind namePrefix annotations opts entries s
    let next := entriesLog env st kind namePrefix annotations opts entries log.length s.allocator
    (∃ e, result.1 = .failed e ∧ Extends st l result.2) ∨
    (result.1 = .ok () ∧ Underway st l result.2 (log ++ next.1) ∧
      Returned result.2 (log ++ next.1) ∧ result.2.allocator = next.2) := by
  induction entries generalizing s log with
  | nil =>
    refine .inr ⟨rfl, ?_, ?_, rfl⟩
    · simpa [stageEntries, entriesLog] using h
    · simpa [stageEntries, entriesLog] using hres
  | cons e rest ih =>
    have hstep := h.stage_next hst (env s.result.length) kind namePrefix e.tmpPath annotations opts
    simp only [stageEntries, entriesLog, hres.length] at hstep ⊢
    generalize (allocateNamed s.allocator namePrefix).1 = n at hstep ⊢
    generalize stageMaterial (env log.length) s.state (freeMaterial kind n) e.tmpPath
      annotations opts = staged at hstep ⊢
    obtain ⟨outcome, st'⟩ := staged
    rcases hstep with ⟨err, hout, hext⟩ | ⟨mt, hout, hid, htype, hnext⟩
    · subst hout
      exact .inl ⟨_, rfl, hext _⟩
    · subst hout
      have hres' : Returned ⟨st', (allocateNamed s.allocator namePrefix).2,
          s.stagedNames ++ [n], s.result ++ [mt]⟩
          (log ++ [⟨n, kind, produced (env log.length) st (freeMaterial kind n) e.tmpPath
            annotations opts⟩]) := by
        unfold Returned at hres ⊢
        rw [map_append, hres]
        simp [hid, htype]
      have hrest := ih _ _ hnext hres'
      simp only [length_append, length_singleton, append_assoc, singleton_append] at hrest
      exact hrest

theorem underway_references (mts : List Material) (s : Staging)
    (h : Underway st l s log)
    (hmts : ∀ mt ∈ mts, (mt.id, mt.materialType) ∈ log.map fun p => (p.name, p.type)) :
    Underway st l { s with state := { s.state with
      materials := mts.foldl (fun m mt => m.set mt.id mt) s.state.materials } } log := by
  induction mts generalizing s with
  | nil => exact h
  | cons mt rest ih =>
    have hone := h.replace mt (hmts mt mem_cons_self)
    exact ih _ hone fun mt' hmt' => hmts mt' (mem_cons_of_mem _ hmt')

theorem stageSourceArchive_spec (hst : Consistent st l) (env : Nat → StageEnv)
    (namePrefix archivePath : String) (opts : AddOpts) (s : Staging) (log : List LogEntry)
    (h : Underway st l s log) (hres : Returned s log) :
    let result := stageSourceArchive env namePrefix archivePath opts s
    let n := (allocateNamed s.allocator (nameOr "material" namePrefix ++ "-archive")).1
    let references := .ofList [(materialReferences, ",".intercalate (log.map LogEntry.name))]
    (∃ e, result.1 = .failed e ∧ Extends st l result.2) ∨
    (result.1 = .ok () ∧ Underway st l result.2 (log ++ [⟨n, .evidence,
      produced (env log.length) st (freeMaterial .evidence n) archivePath references opts⟩])) := by
  have hstep := h.stage_next hst (env log.length) .evidence
    (nameOr "material" namePrefix ++ "-archive") archivePath
    (.ofList [(materialReferences, ",".intercalate (log.map LogEntry.name))]) opts
  simp only [stageSourceArchive, hres.length, hres.ids] at hstep ⊢
  generalize (allocateNamed s.allocator (nameOr "material" namePrefix ++ "-archive")).1 = n
    at hstep ⊢
  generalize Map.ofList [(materialReferences, ",".intercalate (log.map LogEntry.name))] = references
    at hstep ⊢
  generalize stageMaterial (env log.length) s.state (freeMaterial .evidence n) archivePath
    references opts = staged at hstep ⊢
  obtain ⟨outcome, st'⟩ := staged
  rcases hstep with ⟨err, hout, hext⟩ | ⟨mt, hout, hid, htype, hnext⟩
  · subst hout
    exact .inl ⟨_, rfl, hext _⟩
  · subst hout
    refine .inr ⟨rfl, ?_⟩
    have hback := underway_references (s.result.map fun mt => addReference mt [n]) _ hnext (by
      intro mt' hmt'
      obtain ⟨mt'', hmt'', rfl⟩ := mem_map.mp hmt'
      have hin : (mt''.id, mt''.materialType) ∈ log.map fun p => (p.name, p.type) := by
        rw [← hres]
        exact mem_map_of_mem hmt''
      rw [map_append]
      exact mem_append_left _ hin)
    exact { hback with }

theorem stageArchive_spec (hst : Consistent st l) (env : Nat → StageEnv) (kind : MaterialType)
    (namePrefix archivePath : String) (annotations : Map String String) (opts : AddOpts)
    (entries : List ArchiveEntry) :
    let result := stageArchive env kind namePrefix archivePath annotations opts entries
      ⟨st, newNameAllocator st.materials.keys, [], []⟩
    (∃ e, result.1 = .failed e ∧ Extends st l result.2) ∨
    (result.1 = .ok () ∧ Underway st l result.2
      (archiveLog env st kind namePrefix archivePath annotations opts entries)) := by
  have hentries := stageEntries_spec hst env kind namePrefix annotations opts (sortEntries entries)
    _ [] (underway_start hst) rfl
  simp only [stageArchive, archiveLog] at hentries ⊢
  generalize stageEntries env kind namePrefix annotations opts (sortEntries entries)
    ⟨st, newNameAllocator st.materials.keys, [], []⟩ = staged at hentries ⊢
  obtain ⟨outcome, s⟩ := staged
  rcases hentries with ⟨e, hout, hext⟩ | ⟨hout, hunder, hres, halloc⟩
  · subst hout
    exact .inl ⟨e, rfl, hext⟩
  · subst hout
    cases hrec : opts.recordSourceArchive with
    | false => exact .inr ⟨rfl, hunder⟩
    | true =>
      have hsource := stageSourceArchive_spec hst env namePrefix archivePath opts s _ hunder hres
      rw [halloc] at hsource
      exact hsource

end Chainloop.Crafting
