import Chainloop.Runs.Table
import Chainloop.Steps.Schedule

namespace Chainloop.Runs.Bundles

open Go Option Function

variable {run : UUID} {bundle : Bytes} {digest : String}

inductive Reader where
  | loaded (run : UUID) (digest : String)
  | missed (run : UUID) (digest : String)
  | absent (run : UUID) (digest : String)
  | returned (digest : String) (bundle : Option Bytes)
  | failed
deriving DecidableEq

structure System where
  runs : Table
  -- the rows of the attestation table, one for each run at most
  bundles : UUID → Option Bytes
  cache : String → Option Bytes
  readers : Nat → Option Reader

-- The steps of Store and of the reads of a run, and entries that leave the cache. A call that
-- fails just takes no further step.
inductive Event where
  | save (run : UUID) (bundle : Bytes) (skipDbStorage inline : Bool)
  | finish (run : UUID) (now : Time)
  | evict (digest : String)
  | load (k : Nat) (run : UUID)
  | lookup (k : Nat)
  | miss (k : Nat)
  | query (k : Nat) (cached : Bool)
  | queryFails (k : Nat)
  | download (k : Nat) (content : Bytes) (cached : Bool)
  | downloadFails (k : Nat)

-- storeAttestation: inline backends have no external CAS to fall back to.
def skipDB (skipDbStorage inline : Bool) : Bool := skipDbStorage && !inline

def System.reach (s : System) (k : Nat) (reader : Reader) : System :=
  { s with readers := update s.readers k (some reader) }

def System.saveAttestationDigest (s : System) (run : UUID) (digest : String) : Option System :=
  (s.runs.updateOneID run fun row => { row with attestationDigest := digest }).map fun runs =>
    { s with runs := runs }

-- SaveAttestationBundle. The row of a run is unique: a second one rolls both writes back.
def System.saveAttestationBundle (s : System) (run : UUID) (digest : String) (bundle : Bytes) :
    Option System :=
  if (s.bundles run).isSome then none
  else
    (s.saveAttestationDigest run digest).map fun s =>
      { s with bundles := update s.bundles run (some bundle) }

def System.cacheBundle (s : System) (digest : String) (bundle : Bytes) (cached : Bool) : System :=
  if cached then { s with cache := update s.cache digest (some bundle) } else s

section Model

variable (sha256 : Bytes → String) (unmarshals : Bytes → Bool)

def System.saveAttestation (s : System) (run : UUID) (bundle : Bytes) (skip : Bool) : Option System :=
  if skip then s.saveAttestationDigest run (sha256 bundle)
  else s.saveAttestationBundle run (sha256 bundle) bundle

def applyBundle (digest : String) (bundle : Bytes) : Reader :=
  if unmarshals bundle then .returned digest (some bundle) else .failed

def load (run : UUID) (row : WorkflowRun) : Reader :=
  if row.state ≠ .success ∨ row.attestationDigest = "" then .returned row.attestationDigest none
  else .loaded run row.attestationDigest

def System.step (s : System) : Event → Option System
  | .save run bundle skipDbStorage inline =>
    s.saveAttestation sha256 run bundle (skipDB skipDbStorage inline)
  | .finish run now => (s.runs.finish run .success "" now).map fun runs => { s with runs := runs }
  | .evict digest => some { s with cache := update s.cache digest none }
  | .load k run =>
    match s.readers k, s.runs.get? run with
    | none, some row => some (s.reach k (load run row))
    | _, _ => none
  | .lookup k =>
    match s.readers k with
    | some (.loaded run digest) =>
      match s.cache digest with
      | some bundle => some (s.reach k (applyBundle unmarshals digest bundle))
      | none => some (s.reach k (.missed run digest))
    | _ => none
  | .miss k =>
    -- an error of the cache is a miss, and so is a service without one
    match s.readers k with
    | some (.loaded run digest) => some (s.reach k (.missed run digest))
    | _ => none
  | .query k cached =>
    match s.readers k with
    | some (.missed run digest) =>
      let bundle := (s.bundles run).getD []
      if bundle ≠ [] then
        some ((s.cacheBundle digest bundle cached).reach k (applyBundle unmarshals digest bundle))
      else some (s.reach k (.absent run digest))
    | _ => none
  | .queryFails k =>
    match s.readers k with
    | some (.missed _ _) => some (s.reach k .failed)
    | _ => none
  | .download k content cached =>
    -- what the CAS returns for a digest has that digest
    match s.readers k with
    | some (.absent _ digest) =>
      if sha256 content = digest ∧ content ≠ [] then
        some ((s.cacheBundle digest content cached).reach k (applyBundle unmarshals digest content))
      else none
    | _ => none
  | .downloadFails k =>
    match s.readers k with
    | some (.absent _ digest) => some (s.reach k (.returned digest none))
    | _ => none

end Model

def start (runs : Table) : System := ⟨runs, fun _ => none, fun _ => none, fun _ => none⟩

variable {sha256 : Bytes → String} {unmarshals : Bytes → Bool}

-- The history has saved the bundle for the run, on either path, or with a row of its own.
def Saves (past : List Event) (run : UUID) (bundle : Bytes) : Prop :=
  ∃ skipDbStorage inline, Event.save run bundle skipDbStorage inline ∈ past

def Stores (past : List Event) (run : UUID) (bundle : Bytes) : Prop :=
  ∃ skipDbStorage inline, skipDB skipDbStorage inline = false ∧
    Event.save run bundle skipDbStorage inline ∈ past

variable {past : List Event}

theorem Saves.append (h : Saves past run bundle)
    (more : List Event) : Saves (past ++ more) run bundle := by
  obtain ⟨skipDbStorage, inline, hmem⟩ := h
  exact ⟨skipDbStorage, inline, List.mem_append_left _ hmem⟩

theorem Stores.append (h : Stores past run bundle)
    (more : List Event) : Stores (past ++ more) run bundle := by
  obtain ⟨skipDbStorage, inline, hskip, hmem⟩ := h
  exact ⟨skipDbStorage, inline, hskip, List.mem_append_left _ hmem⟩

-- A run that gets a row in the attestation table is never saved with another digest.
def Steady (sha256 : Bytes → String) (events : List Event) : Prop :=
  ∀ run bundle other, Stores events run bundle → Saves events run other → sha256 other = sha256 bundle

theorem Steady.of_append (h : Steady sha256 (past ++ more)) : Steady sha256 past :=
  fun run bundle other hstores hsaves => h run bundle other (hstores.append more) (hsaves.append more)

def Recorded (sha256 : Bytes → String) (past : List Event) (run : UUID) (digest : String) : Prop :=
  ∃ bundle, Saves past run bundle ∧ sha256 bundle = digest

theorem Recorded.append
    (h : Recorded sha256 past run digest) (more : List Event) :
    Recorded sha256 (past ++ more) run digest := by
  obtain ⟨bundle, hsaves, hdigest⟩ := h
  exact ⟨bundle, hsaves.append more, hdigest⟩

def Reader.seeks : Reader → Option (UUID × String)
  | .loaded run digest | .missed run digest | .absent run digest => some (run, digest)
  | .returned _ _ | .failed => none

def Reader.Agrees (sha256 : Bytes → String) : Reader → Prop
  | .returned digest (some bundle) => sha256 bundle = digest
  | .returned _ none | .loaded .. | .missed .. | .absent .. | .failed => True

structure Inv (sha256 : Bytes → String) (past : List Event) (s : System) : Prop where
  runs : ∀ run row, s.runs.get? run = some row → row.attestationDigest ≠ "" →
    Recorded sha256 past run row.attestationDigest
  seeks : ∀ k reader run digest, s.readers k = some reader → reader.seeks = some (run, digest) →
    Recorded sha256 past run digest
  bundles : ∀ run bundle, s.bundles run = some bundle → Stores past run bundle
  agrees : ∀ k reader, s.readers k = some reader → reader.Agrees sha256
  cache : ∀ digest bundle, s.cache digest = some bundle → sha256 bundle = digest

theorem inv_start {runs : Table}
    (hempty : ∀ run row, runs.get? run = some row → row.attestationDigest = "") :
    Inv sha256 [] (start runs) where
  runs run row hrow hne := absurd (hempty run row hrow) hne
  seeks _ _ _ _ h := by cases h
  bundles _ _ h := by cases h
  agrees _ _ h := by cases h
  cache _ _ h := by cases h

section Steps

variable {past : List Event} {s s' : System} {k : Nat}

theorem Inv.append (h : Inv sha256 past s) (more : List Event) : Inv sha256 (past ++ more) s where
  runs run row hrow hne := (h.runs run row hrow hne).append more
  seeks k reader run digest hk hseeks := (h.seeks k reader run digest hk hseeks).append more
  bundles run bundle hbundle := (h.bundles run bundle hbundle).append more
  agrees := h.agrees
  cache := h.cache

theorem System.reach_readers (s : System) (k l : Nat) (reader : Reader) :
    (s.reach k reader).readers l = if l = k then some reader else s.readers l := by
  simp [System.reach, update_apply]

theorem Inv.reach (h : Inv sha256 past s) {reader : Reader}
    (hseeks : ∀ run digest, reader.seeks = some (run, digest) → Recorded sha256 past run digest)
    (hagrees : reader.Agrees sha256) : Inv sha256 past (s.reach k reader) where
  runs := h.runs
  seeks l other run digest hl hother := by
    rw [System.reach_readers] at hl
    split at hl
    · cases hl
      exact hseeks run digest hother
    · exact h.seeks l other run digest hl hother
  bundles := h.bundles
  agrees l other hl := by
    rw [System.reach_readers] at hl
    split at hl
    · cases hl
      exact hagrees
    · exact h.agrees l other hl
  cache := h.cache

theorem Inv.cacheBundle (h : Inv sha256 past s) (hagrees : sha256 bundle = digest) (cached : Bool) :
    Inv sha256 past (s.cacheBundle digest bundle cached) := by
  unfold System.cacheBundle
  split
  · refine ⟨h.runs, h.seeks, h.bundles, h.agrees, fun other found hfound => ?_⟩
    simp only [update_apply] at hfound
    split at hfound
    · cases hfound
      rw [hagrees, ‹other = digest›]
    · exact h.cache other found hfound
  · exact h

theorem Inv.evict (h : Inv sha256 past s) (digest : String) :
    Inv sha256 past { s with cache := update s.cache digest none } := by
  refine ⟨h.runs, h.seeks, h.bundles, h.agrees, fun other found hfound => ?_⟩
  simp only [update_apply] at hfound
  split at hfound
  · cases hfound
  · exact h.cache other found hfound

theorem applyBundle_seeks (digest : String) (bundle : Bytes) :
    (applyBundle unmarshals digest bundle).seeks = none := by
  unfold applyBundle
  split <;> rfl

theorem applyBundle_agrees (h : sha256 bundle = digest) :
    (applyBundle unmarshals digest bundle).Agrees sha256 := by
  unfold applyBundle
  split
  · exact h
  · trivial

section
variable (h : Inv sha256 past s)
include h

theorem Inv.apply (hagrees : sha256 bundle = digest) :
    Inv sha256 past (s.reach k (applyBundle unmarshals digest bundle)) := by
  refine h.reach (fun run found hseeks => ?_) (applyBundle_agrees hagrees)
  rw [applyBundle_seeks] at hseeks
  cases hseeks

theorem Inv.updateOneID {set : WorkflowRun → WorkflowRun} {runs : Table}
    (hupdate : s.runs.updateOneID run set = some runs)
    (hset : ∀ row, (set row).attestationDigest = row.attestationDigest ∨
      Recorded sha256 past run (set row).attestationDigest) :
    Inv sha256 past { s with runs := runs } := by
  refine ⟨fun other row hrow hne => ?_, h.seeks, h.bundles, h.agrees, h.cache⟩
  simp only [Table.updateOneID_get? hupdate] at hrow
  split at hrow
  · subst other
    obtain ⟨before, hbefore, rfl⟩ := map_eq_some_iff.mp hrow
    rcases hset before with hsame | hrecorded
    · rw [hsame] at hne ⊢
      exact h.runs run before hbefore hne
    · exact hrecorded
  · exact h.runs other row hrow hne

theorem Inv.saveAttestation {skip : Bool}
    (hsaves : Saves past run bundle) (hstores : skip = false → Stores past run bundle)
    (hstep : s.saveAttestation sha256 run bundle skip = some s') : Inv sha256 past s' := by
  have hdigest : ∀ runs, s.runs.updateOneID run (fun row => { row with
      attestationDigest := sha256 bundle }) = some runs → Inv sha256 past { s with runs := runs } :=
    fun runs hruns => h.updateOneID hruns fun row => .inr ⟨bundle, hsaves, rfl⟩
  cases skip with
  | true =>
    obtain ⟨runs, hruns, rfl⟩ := map_eq_some_iff.mp hstep
    exact hdigest runs hruns
  | false =>
    simp only [System.saveAttestation, System.saveAttestationBundle, Bool.false_eq_true, if_false,
      ite_none_left_eq_some] at hstep
    obtain ⟨mid, hmid, rfl⟩ := map_eq_some_iff.mp hstep.2
    obtain ⟨runs, hruns, rfl⟩ := map_eq_some_iff.mp hmid
    have hinv := hdigest runs hruns
    refine ⟨hinv.runs, hinv.seeks, fun other found hfound => ?_, hinv.agrees, hinv.cache⟩
    simp only [update_apply] at hfound
    split at hfound
    · cases hfound
      subst other
      exact hstores rfl
    · exact h.bundles other found hfound

theorem Inv.seek {old new : Reader} (hk : s.readers k = some old)
    (hseeks : new.seeks = old.seeks) (hagrees : new.Agrees sha256) :
    Inv sha256 past (s.reach k new) :=
  h.reach (fun run digest hnew => h.seeks k old run digest hk (hseeks ▸ hnew)) hagrees

theorem Inv.load {row : WorkflowRun}
    (hrow : s.runs.get? run = some row) : Inv sha256 past (s.reach k (load run row)) := by
  unfold Bundles.load
  split
  · exact h.reach nofun trivial
  · rename_i hfound
    refine h.reach (fun other digest hseeks => ?_) trivial
    cases hseeks
    exact h.runs run row hrow fun hempty => hfound (.inr hempty)

end

theorem Inv.step {e : Event} (h : Inv sha256 past s) (hsteady : Steady sha256 (past ++ [e]))
    (hstep : s.step sha256 unmarshals e = some s') : Inv sha256 (past ++ [e]) s' := by
  have hpast := h.append [e]
  cases e with simp only [System.step] at hstep
  | save run bundle skipDbStorage inline =>
    have hmem : Event.save run bundle skipDbStorage inline ∈ past ++ [.save run bundle skipDbStorage inline] :=
      List.mem_append_right _ List.mem_cons_self
    exact hpast.saveAttestation ⟨_, _, hmem⟩ (fun hskip => ⟨_, _, hskip, hmem⟩) hstep
  | finish run now =>
    obtain ⟨runs, hruns, rfl⟩ := map_eq_some_iff.mp hstep
    exact hpast.updateOneID hruns fun row => .inl rfl
  | evict digest =>
    cases hstep
    exact hpast.evict digest
  | load k run =>
    split at hstep <;> cases hstep
    exact hpast.load ‹_›
  | lookup k =>
    split at hstep
    · rename_i run digest hk
      split at hstep <;> cases hstep
      · exact hpast.apply (h.cache _ _ ‹_›)
      · exact hpast.seek hk rfl trivial
    · cases hstep
  | miss k =>
    split at hstep <;> cases hstep
    rename_i run digest hk
    exact hpast.seek hk rfl trivial
  | query k cached =>
    split at hstep
    · rename_i run digest hk
      split at hstep <;> cases hstep
      · rename_i hne
        have hstored : s.bundles run = some ((s.bundles run).getD []) := by
          cases hrow : s.bundles run with
          | none => exact absurd (by simp [hrow]) hne
          | some found => rfl
        obtain ⟨saved, hsaved, rfl⟩ := hpast.seeks k _ run digest hk rfl
        have hagrees := hsteady run _ saved (hpast.bundles run _ hstored) hsaved
        exact (hpast.cacheBundle hagrees.symm cached).apply hagrees.symm
      · exact hpast.seek hk rfl trivial
    · cases hstep
  | queryFails k =>
    split at hstep <;> cases hstep
    exact hpast.reach nofun trivial
  | download k content cached =>
    split at hstep
    · simp only [ite_none_right_eq_some, some.injEq] at hstep
      obtain ⟨⟨hagrees, -⟩, rfl⟩ := hstep
      exact (hpast.cacheBundle hagrees cached).apply hagrees
    · cases hstep
  | downloadFails k =>
    split at hstep <;> cases hstep
    exact hpast.reach nofun trivial

end Steps

structure Agreement (sha256 : Bytes → String) (s : System) : Prop where
  returned : ∀ k digest bundle, s.readers k = some (.returned digest (some bundle)) →
    sha256 bundle = digest
  cache : ∀ digest bundle, s.cache digest = some bundle → sha256 bundle = digest

theorem digest_and_bundle_agree (sha256 : Bytes → String) (unmarshals : Bytes → Bool) (runs : Table)
    (hempty : ∀ run row, runs.get? run = some row → row.attestationDigest = "")
    (events : List Event) (hsteady : Steady sha256 events) (s : System)
    (hrun : Schedule.run (System.step sha256 unmarshals) (start runs) events = some s) :
    Agreement sha256 s := by
  have hinv : Inv sha256 events s :=
    Schedule.run_invariant (fun past s => Steady sha256 past → Inv sha256 past s)
      (fun _ => inv_start hempty)
      (fun past mid e next hmid hstep hsteady => (hmid hsteady.of_append).step hsteady hstep) hrun hsteady
  exact ⟨fun k digest bundle hk => hinv.agrees k _ hk, hinv.cache⟩

def aRun : UUID := .ofByte 1

def oneRun : Table := Map.ofList [(aRun, ⟨0, none, .initialized, "", none, ""⟩)]

def firstByte (bundle : Bytes) : String := if bundle = [7] then "seven" else "other"

def readBack : List Event := [.load 0 aRun, .lookup 0, .query 0 true]

def storeAndRead : List Event := .save aRun [7] false false :: .finish aRun 1 :: readBack

theorem storeAndRead_agrees :
    ∃ s, Schedule.run (System.step firstByte fun _ => true) (start oneRun) storeAndRead = some s ∧
      s.readers 0 = some (.returned "seven" (some [7])) ∧ Agreement firstByte s := by
  have hrun : (Schedule.run (System.step firstByte fun _ => true) (start oneRun) storeAndRead).map
      (·.readers 0) = some (some (.returned "seven" (some [7]))) := by
    decide +kernel
  obtain ⟨s, hs, hreader⟩ := map_eq_some_iff.mp hrun
  refine ⟨s, hs, hreader, digest_and_bundle_agree firstByte (fun _ => true) oneRun ?_ storeAndRead ?_ s hs⟩
  · intro run row hrow
    have hmem := (Map.get?_eq_some_iff oneRun run row).mp hrow
    cases List.mem_singleton.mp hmem
    rfl
  · rintro run bundle other ⟨skip, inline, -, hstores⟩ ⟨skip', inline', hsaves⟩
    simp [storeAndRead, readBack] at hstores hsaves
    rw [hstores.2.1, hsaves.2.1]

theorem bundle_of_another_digest :
    (Schedule.run (System.step firstByte fun _ => true) (start oneRun)
      (.save aRun [7] false false :: .finish aRun 1 :: .save aRun [8] true false :: .finish aRun 2 ::
        readBack)).map (fun s => (s.readers 0, s.cache "other")) =
      some (some (.returned "other" (some [7])), some [7]) ∧ firstByte [7] ≠ "other" := by
  decide +kernel

end Chainloop.Runs.Bundles
