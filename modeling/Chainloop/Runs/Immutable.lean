import Chainloop.Runs.Release

namespace Chainloop.Runs.Release

open Go RowLock Option Function

variable {stage : Stage} {versions : Db Nat UUID ProjectVersion} {version : UUID}

variable {s s' : System} {t : Nat}

def Stage.holds : Stage → Option UUID
  | .accepted _ version _ | .saved _ version _ | .promoting _ version | .versioned version true
  | .inserted _ version true | .counted _ version true => some version
  | .saving .. | .creating .. | .versioned _ false | .inserted _ _ false | .counted _ _ false
  | .updating .. | .updated => none

def Stage.early : Stage → Bool
  | .saving .. | .creating _ (some _) | .updating .. => true
  | .accepted .. | .saved .. | .creating _ none | .promoting .. | .versioned .. | .inserted ..
  | .counted .. | .updated => false

def Stage.attests : Stage → Option (UUID × UUID)
  | .accepted run version _ | .saved run version _ => some (run, version)
  | .saving .. | .creating .. | .promoting .. | .versioned .. | .inserted .. | .counted ..
  | .updating .. | .updated => none

inductive Effect (block : Bool) (s s' : System) (e : Event) (t : Nat) : Prop where
  | begins {stage : Stage} (hnone : s.txs t = none) (hholds : stage.holds = none)
      (hattests : stage.attests = none) (hnext : s' = s.set t stage)
  | accepts {run : UUID} {digest : String} (hstage : s.txs t = some (.saving run digest))
      (hnext : s.accept block t run digest = some s')
  | rereads {opts : CreateOpts} {version : UUID} (hstage : s.txs t = some (.creating opts (some version)))
      (hnext : s.reread block t opts version = some s')
  | passes {old new : Stage} (hstage : s.txs t = some old) (hnext : s' = s.set t new)
      (hlate : new.early = false)
      (hholds : ∀ version, new.holds = some version → old.holds = some version)
      (hattests : ∀ use, new.attests = some use → old.attests = some use)
  | writes {old new : Stage} {version : UUID} {change : ProjectVersion → ProjectVersion}
      (hstage : s.txs t = some old) (hnext : s.writes t version change new = some s')
      (hlate : new.early = false)
      (hholds : ∀ version, new.holds = some version →
        old.holds = some version ∧ ∀ row, (change row).prerelease = row.prerelease)
      (hattests : new.attests = none)
  | inserts {opts : CreateOpts} {version : UUID} (hnext : s.insertVersion t opts version = some s')
  | commits (hcommit : e = .commit t)
  | aborts (hnext : s' = s.abort t)

theorem System.writes_of_unlatest (h : s.unlatest t opts version stage = some s') :
    s.writes t version (fun row => { row with latest := false }) stage = some s' := by
  unfold System.unlatest at h
  split at h
  · cases h
  · split at h
    · exact h
    · cases h

theorem System.step_effect (hstep : s.step block e = some s') : ∃ t, Effect block s s' e t := by
  cases e with simp only [System.step] at hstep
  | beginSave t run digest =>
    split at hstep <;> cases hstep
    exact ⟨t, .begins ‹_› rfl rfl rfl⟩
  | accept t =>
    split at hstep
    · exact ⟨t, .accepts ‹_› hstep⟩
    · cases hstep
  | writeDigest t =>
    split at hstep <;> cases hstep
    rename_i hstage
    exact ⟨t, .passes hstage rfl rfl (fun _ hholds => hholds) fun _ hattests => hattests⟩
  | beginCreate t opts found =>
    split at hstep
    · simp only [ite_none_right_eq_some, some.injEq] at hstep
      exact ⟨t, .begins ‹_› rfl rfl hstep.2.symm⟩
    · cases hstep
  | reread t =>
    split at hstep
    · exact ⟨t, .rereads ‹_› hstep⟩
    · cases hstep
  | unlatest t version =>
    split at hstep
    · exact ⟨t, .writes ‹_› (System.writes_of_unlatest hstep) rfl
        (fun _ hholds => ⟨hholds, fun _ => rfl⟩) rfl⟩
    · split at hstep
      · exact ⟨t, .writes ‹_› (System.writes_of_unlatest hstep) rfl
          (fun _ hholds => ⟨hholds, fun _ => rfl⟩) rfl⟩
      · cases hstep
    · cases hstep
  | promote t =>
    split at hstep
    · rename_i hstage
      exact ⟨t, .writes hstage hstep rfl (fun _ hholds => ⟨hholds, fun _ => rfl⟩) rfl⟩
    · cases hstep
  | insertVersion t version =>
    split at hstep
    · exact ⟨t, .inserts hstep⟩
    · cases hstep
  | insertRun t run =>
    split at hstep <;> cases hstep
    rename_i version existing hstage
    refine ⟨t, .passes hstage rfl rfl (fun held hheld => ?_) fun _ hattests => by cases hattests⟩
    cases existing with
    | true => exact hheld
    | false => cases hheld
  | count t now =>
    split at hstep
    · rename_i run version existing hstage
      refine ⟨t, .writes hstage hstep rfl (fun held hheld => ⟨?_, fun _ => rfl⟩) rfl⟩
      cases existing with
      | true => exact hheld
      | false => cases hheld
    · cases hstep
  | beginUpdate t version prerelease =>
    split at hstep
    · split at hstep
      · cases hstep
      · simp only [ite_none_left_eq_some, some.injEq] at hstep
        exact ⟨t, .begins ‹_› rfl rfl hstep.2.symm⟩
    · cases hstep
  | update t now =>
    split at hstep
    · exact ⟨t, .writes ‹_› hstep rfl (fun _ hholds => by cases hholds) rfl⟩
    · cases hstep
  | commit t => exact ⟨t, .commits rfl⟩
  | fail t =>
    split at hstep <;> cases hstep
    exact ⟨t, .aborts rfl⟩

def IsPrerelease (row : Option ProjectVersion) : Prop := ∃ v, row = some v ∧ v.prerelease = true

structure Held (db : Db Nat UUID ProjectVersion) (t : Nat) (version : UUID) : Prop where
  owner : db.owner version = some t
  committed : IsPrerelease (db.committed version)
  pending : IsPrerelease (db.pending version)

theorem Held.frame (h : Held db t version) (hframe : Db.Frame t db db') : Held db' t version where
  owner := (hframe.owner version).mpr h.owner
  committed := hframe.committed version h.owner ▸ h.committed
  pending := hframe.pending version h.owner ▸ h.pending

structure Inv (s : System) : Prop where
  free : ∀ t, (∀ stage, s.txs t = some stage → stage.early = true) →
    ∀ version, s.versions.owner version ≠ some t
  held : ∀ t stage version, s.txs t = some stage → stage.holds = some version →
    Held s.versions t version
  runs : ∀ t stage run version, s.txs t = some stage → stage.attests = some (run, version) →
    ∃ digest, s.runs run = some (version, digest)

theorem inv_start (versions : UUID → Option ProjectVersion) (runs : UUID → Option (UUID × String)) :
    Inv (start versions runs) where
  free _ _ _ h := by cases h
  held _ _ _ h := by cases h
  runs _ _ _ _ h := by cases h

-- A step of one transaction: the others keep what they have locked, and runs stay on their
-- versions.
structure Moves (s s' : System) (t : Nat) : Prop where
  txs : ∀ u, u ≠ t → s'.txs u = s.txs u
  frame : ∀ u, u ≠ t → Db.Frame u s.versions s'.versions
  runs : ∀ run version digest, s.runs run = some (version, digest) →
    ∃ digest', s'.runs run = some (version, digest')

theorem Inv.of_tx (h : Inv s) (hmoves : Moves s s' t)
    (hfree : (∀ stage, s'.txs t = some stage → stage.early = true) →
      ∀ version, s'.versions.owner version ≠ some t)
    (hheld : ∀ stage version, s'.txs t = some stage → stage.holds = some version →
      Held s'.versions t version)
    (hruns : ∀ stage run version, s'.txs t = some stage → stage.attests = some (run, version) →
      ∃ digest, s'.runs run = some (version, digest)) : Inv s' := by
  constructor
  · intro u hearly version howner
    by_cases hu : u = t
    · subst u
      exact hfree hearly version howner
    · rw [hmoves.txs u hu] at hearly
      exact h.free u hearly version (((hmoves.frame u hu).owner version).mp howner)
  · intro u stage version hstage hholds
    by_cases hu : u = t
    · subst u
      exact hheld stage version hstage hholds
    · rw [hmoves.txs u hu] at hstage
      exact (h.held u stage version hstage hholds).frame (hmoves.frame u hu)
  · intro u stage run version hstage hattests
    by_cases hu : u = t
    · subst u
      exact hruns stage run version hstage hattests
    · rw [hmoves.txs u hu] at hstage
      obtain ⟨digest, hrun⟩ := h.runs u stage run version hstage hattests
      exact hmoves.runs run version digest hrun

@[simp] theorem System.set_txs_self (stage : Stage) : (s.set t stage).txs t = some stage :=
  update_self ..

theorem System.set_txs_ne (stage : Stage) (hne : u ≠ t) : (s.set t stage).txs u = s.txs u :=
  update_of_ne hne ..

theorem Inv.set (h : Inv s) (hframe : ∀ u, u ≠ t → Db.Frame u s.versions versions)
    (hfree : stage.early = true → ∀ version, versions.owner version ≠ some t)
    (hheld : ∀ version, stage.holds = some version → Held versions t version)
    (hruns : ∀ run version, stage.attests = some (run, version) →
      ∃ digest, s.runs run = some (version, digest)) :
    Inv { s.set t stage with versions := versions } := by
  refine h.of_tx (t := t) ⟨fun u hu => System.set_txs_ne stage hu, hframe,
    fun run version digest hrun => ⟨digest, hrun⟩⟩ ?_ ?_ ?_
  · exact fun hearly => hfree (hearly stage (System.set_txs_self stage))
  · intro other version hstage
    obtain rfl : stage = other := some.inj ((System.set_txs_self stage).symm.trans hstage)
    exact hheld version
  · intro other run version hstage
    obtain rfl : stage = other := some.inj ((System.set_txs_self stage).symm.trans hstage)
    exact hruns run version

theorem Inv.end (h : Inv s) {runs : UUID → Option (UUID × String)}
    (hframe : ∀ u, u ≠ t → Db.Frame u s.versions versions)
    (hfree : ∀ version, versions.owner version ≠ some t)
    (hruns : ∀ run version digest, s.runs run = some (version, digest) →
      ∃ digest', runs run = some (version, digest')) :
    Inv ⟨versions, runs, update s.txs t none⟩ := by
  refine h.of_tx (t := t) ⟨fun u hu => update_of_ne hu .., hframe, hruns⟩ (fun _ => hfree) ?_ ?_
  · intro stage version hstage
    simp at hstage
  · intro stage run version hstage
    simp at hstage

theorem Inv.abort (h : Inv s) : Inv (s.abort t) :=
  h.end (fun _ hu => Db.rollback_frame _ hu) (fun _ => Db.release_self) fun _ _ digest hrun => ⟨digest, hrun⟩

theorem Inv.lock_abort (h : Inv s) (hlock : s.versions.lock t version = some versions) :
    Inv (System.abort { s with versions := versions } t) :=
  h.end (fun _ hu => (Db.lock_frame hlock hu).trans (Db.rollback_frame _ hu)) (fun _ => Db.release_self)
    fun _ _ digest hrun => ⟨digest, hrun⟩

variable {row : ProjectVersion}

theorem Inv.lock_held (h : Inv s) (hstage : s.txs t = some stage) (hearly : stage.early = true)
    (hlock : s.versions.lock t version = some versions)
    (hread : versions.read t version = some row) (hpre : row.prerelease = true) :
    Held versions t version := by
  have howner := Db.lock_owner hlock
  have hfree : s.versions.owner version ≠ some t := by
    refine h.free t (fun other hother => ?_) version
    rw [hstage] at hother
    cases hother
    exact hearly
  have hpending : versions.pending version = some row := by
    simpa only [Db.read, howner, if_true] using hread
  have hcommitted : versions.committed version = some row := by
    rw [Db.lock_committed hlock, ← hpending, Db.lock_pending hlock, Db.read, if_neg hfree]
  exact ⟨howner, ⟨row, hcommitted, hpre⟩, ⟨row, hpending, hpre⟩⟩

theorem Held.write {db db' : Db Nat UUID ProjectVersion} {other : UUID} (h : Held db t version)
    {change : ProjectVersion → ProjectVersion}
    (hkeeps : ∀ row, (change row).prerelease = row.prerelease) (hread : db.read t other = some row)
    (hwrite : db.write t other (change row) = some db') : Held db' t version := by
  have hcommitted : IsPrerelease (db'.committed version) := by
    rw [Db.write_committed hwrite]
    exact h.committed
  by_cases hsame : version = other
  · subst other
    obtain ⟨held, hheld, hpre⟩ := h.pending
    obtain rfl : held = row := by
      rw [Db.read, if_pos h.owner, hheld] at hread
      exact some.inj hread
    exact ⟨Db.write_owner hwrite, hcommitted, ⟨_, Db.write_pending hwrite, (hkeeps held).trans hpre⟩⟩
  · obtain ⟨howner, hpending⟩ := Db.write_ne hwrite hsame
    exact ⟨howner.trans h.owner, hcommitted, hpending ▸ h.pending⟩

section
variable (h : Inv s)
include h

theorem Inv.writes {old new : Stage} (hstage : s.txs t = some old) (hlate : new.early = false)
    {change : ProjectVersion → ProjectVersion}
    (hholds : ∀ version, new.holds = some version →
      old.holds = some version ∧ ∀ row, (change row).prerelease = row.prerelease)
    (hattests : new.attests = none) (hstep : s.writes t version change new = some s') :
    Inv s' := by
  unfold System.writes at hstep
  split at hstep
  · cases hstep
    exact h.abort
  · rename_i row hread
    obtain ⟨versions, hwrite, rfl⟩ := map_eq_some_iff.mp hstep
    refine h.set (fun u hu => Db.write_frame hwrite hu) (fun hearly => ?_) (fun held hheld => ?_) ?_
    · rw [hlate] at hearly
      cases hearly
    · obtain ⟨hbefore, hkeeps⟩ := hholds held hheld
      exact (h.held t old held hstage hbefore).write hkeeps hread hwrite
    · simp [hattests]

theorem Inv.accept (hstage : s.txs t = some (.saving run digest))
    (hstep : s.accept true t run digest = some s') : Inv s' := by
  unfold System.accept at hstep
  split at hstep
  · cases hstep
    exact h.abort
  · rename_i version current hrun
    obtain ⟨versions, hlock, rfl⟩ := map_eq_some_iff.mp hstep
    split
    · exact h.lock_abort hlock
    · rename_i row hread
      split
      · rename_i hpre
        refine h.set (fun u hu => Db.lock_frame hlock hu) (fun h => by cases h) (fun held hheld => ?_)
          fun run' version' hattests => ?_
        · cases hheld
          exact h.lock_held hstage rfl hlock hread hpre
        · cases hattests
          exact ⟨current, hrun⟩
      · exact h.lock_abort hlock

theorem Inv.reread (hstage : s.txs t = some (.creating opts (some version)))
    (hstep : s.reread true t opts version = some s') : Inv s' := by
  unfold System.reread at hstep
  obtain ⟨versions, hlock, rfl⟩ := map_eq_some_iff.mp hstep
  split
  · exact h.lock_abort hlock
  · rename_i row hread
    split
    · exact h.lock_abort hlock
    · split
      · exact h.lock_abort hlock
      · rename_i hnot
        have hheld : Held versions t version :=
          h.lock_held hstage rfl hlock hread (by simpa using hnot)
        split
        · split
          · refine h.set (fun u hu => Db.lock_frame hlock hu) (fun h => by cases h)
              (fun held hholds => ?_) (fun _ _ h => by cases h)
            cases hholds
            exact hheld
          · exact h.lock_abort hlock
        · refine h.set (fun u hu => Db.lock_frame hlock hu) (fun h => by cases h)
              (fun held hholds => ?_) (fun _ _ h => by cases h)
          cases hholds
          exact hheld

theorem Inv.insertVersion (hstep : s.insertVersion t opts version = some s') : Inv s' := by
  unfold System.insertVersion at hstep
  split at hstep
  · cases hstep
    exact h.abort
  · split at hstep
    · cases hstep
    · obtain ⟨versions, hwrite, rfl⟩ := map_eq_some_iff.mp hstep
      exact h.set (fun u hu => Db.write_frame hwrite hu) nofun nofun nofun

theorem Inv.commit {run : UUID} {digest : String}
    (hrun : ∀ other digest', s.runs run = some (other, digest') → other = version) :
    Inv { s.commit t with runs := update s.runs run (some (version, digest)) } := by
  refine h.end (fun u hu => Db.commit_frame _ hu) (fun _ => Db.release_self) ?_
  intro other known current hknown
  by_cases hsame : other = run
  · subst other
    rw [hrun known current hknown]
    exact ⟨digest, update_self ..⟩
  · exact ⟨current, (update_of_ne hsame ..).trans hknown⟩

theorem Inv.commit_step (hstep : s.step true (.commit t) = some s') : Inv s' := by
  simp only [System.step] at hstep
  split at hstep
  · rename_i run version digest hstage
    obtain ⟨current, hrun⟩ := h.runs t _ run version hstage rfl
    rw [hrun] at hstep
    cases hstep
    refine h.commit fun other digest' hother => ?_
    rw [hrun] at hother
    cases hother
    rfl
  · split at hstep <;> cases hstep
    · rename_i hnone
      exact h.commit fun other digest' hother => by rw [hnone] at hother; cases hother
    · exact h.abort
  · cases hstep
    exact h.end (fun u hu => Db.commit_frame _ hu) (fun _ => Db.release_self)
      fun _ _ digest hrun => ⟨digest, hrun⟩
  · cases hstep

end

theorem Inv.step {e : Event} (h : Inv s) (hstep : s.step true e = some s') : Inv s' := by
  obtain ⟨t, heffect⟩ := System.step_effect hstep
  cases heffect with
  | begins hnone hholds hattests hnext =>
    subst hnext
    refine h.set (fun u _ => Db.Frame.refl u _) (fun _ => h.free t ?_) (by simp [hholds])
      (by simp [hattests])
    intro stage hstage
    rw [hnone] at hstage
    cases hstage
  | accepts hstage hnext => exact h.accept hstage hnext
  | rereads hstage hnext => exact h.reread hstage hnext
  | passes hstage hnext hlate hholds hattests =>
    subst hnext
    refine h.set (fun u _ => Db.Frame.refl u _) (by simp [hlate]) (fun held hheld => ?_)
      fun run version hattest => ?_
    · exact h.held t _ held hstage (hholds held hheld)
    · exact h.runs t _ run version hstage (hattests _ hattest)
  | writes hstage hnext hlate hholds hattests => exact h.writes hstage hlate hholds hattests hnext
  | inserts hnext => exact h.insertVersion hnext
  | commits hcommit =>
    subst hcommit
    exact h.commit_step hstep
  | aborts hnext =>
    subst hnext
    exact h.abort

-- A transaction about to commit that has written the digest of a run, or created a run on
-- a version that was there: the run and its version.
def Stage.uses : Stage → Option (UUID × UUID)
  | .saved run version _ | .counted run version true => some (run, version)
  | .saving .. | .accepted .. | .creating .. | .promoting .. | .versioned .. | .inserted ..
  | .counted _ _ false | .updating .. | .updated => none

theorem Stage.holds_of_uses (h : stage.uses = some (run, version)) :
    stage.holds = some version := by
  cases stage with
  | saved =>
    cases h
    rfl
  | counted _ _ existing =>
    cases existing <;> cases h
    rfl
  | saving | accepted | creating | promoting | versioned | inserted | updating | updated => cases h

theorem Held.commit {db : Db Nat UUID ProjectVersion} (h : Held db t version) :
    IsPrerelease ((db.commit t).committed version) := by
  have hread : (db.commit t).committed version = db.pending version := by
    simp [Db.commit, Db.read, h.owner]
  rw [hread]
  exact h.pending

theorem Inv.commit_prerelease (h : Inv s) (hstage : s.txs t = some stage)
    (huses : stage.uses = some (run, version)) (hstep : s.step true (.commit t) = some s') :
    IsPrerelease (s.versions.committed version) ∧ IsPrerelease (s'.versions.committed version) := by
  have hheld := h.held t stage version hstage (Stage.holds_of_uses huses)
  refine ⟨hheld.committed, ?_⟩
  cases stage with
  | saved =>
    simp only [System.step, hstage] at hstep
    split at hstep <;> cases hstep
    · exact hheld.committed
    · exact hheld.commit
  | counted =>
    simp only [System.step, hstage] at hstep
    split at hstep <;> cases hstep
    · exact hheld.commit
    · exact hheld.committed
  | saving | accepted | creating | promoting | versioned | inserted | updating | updated => cases huses

theorem System.writes_runs (hstep : s.writes t version change stage = some s') :
    s'.runs = s.runs := by
  unfold System.writes at hstep
  split at hstep
  · cases hstep
    rfl
  · obtain ⟨versions, -, rfl⟩ := map_eq_some_iff.mp hstep
    rfl

theorem System.accept_runs (hstep : s.accept block t run digest = some s') : s'.runs = s.runs := by
  unfold System.accept at hstep
  split at hstep
  · cases hstep
    rfl
  · split at hstep
    · obtain ⟨versions, -, rfl⟩ := map_eq_some_iff.mp hstep
      repeat' split
      all_goals rfl
    · cases hstep
      rfl

theorem System.reread_runs (hstep : s.reread block t opts version = some s') :
    s'.runs = s.runs := by
  unfold System.reread at hstep
  split at hstep
  · obtain ⟨versions, -, rfl⟩ := map_eq_some_iff.mp hstep
    repeat' split
    all_goals rfl
  · cases hstep
    rfl

theorem System.insertVersion_runs (hstep : s.insertVersion t opts version = some s') :
    s'.runs = s.runs := by
  unfold System.insertVersion at hstep
  split at hstep
  · cases hstep
    rfl
  · split at hstep
    · cases hstep
    · obtain ⟨versions, -, rfl⟩ := map_eq_some_iff.mp hstep
      rfl

theorem Effect.runs {block : Bool} {e : Event} (h : Effect block s s' e t) (hcommit : e ≠ .commit t) :
    s'.runs = s.runs := by
  cases h with
  | begins _ _ _ hnext | passes _ hnext | aborts hnext =>
    subst hnext
    rfl
  | accepts _ hnext => exact System.accept_runs hnext
  | rereads _ hnext => exact System.reread_runs hnext
  | writes _ hnext => exact System.writes_runs hnext
  | inserts hnext => exact System.insertVersion_runs hnext
  | commits h => exact absurd h hcommit

theorem System.commit_runs (hstep : s.step block (.commit t) = some s')
    (hchanged : s'.runs run ≠ s.runs run) : ∃ stage version digest, s.txs t = some stage ∧
      s'.runs run = some (version, digest) ∧
      (stage.uses = some (run, version) ∨ stage = .counted run version false) := by
  simp only [System.step] at hstep
  split at hstep
  · rename_i other version digest hstage
    split at hstep <;> cases hstep
    · exact absurd rfl hchanged
    · by_cases hrun : run = other
      · subst run
        exact ⟨_, version, digest, hstage, update_self .., .inl rfl⟩
      · exact absurd (update_of_ne hrun ..) hchanged
  · rename_i other version existing hstage
    split at hstep <;> cases hstep
    · by_cases hrun : run = other
      · subst run
        refine ⟨_, version, "", hstage, update_self .., ?_⟩
        cases existing with
        | true => exact .inl rfl
        | false => exact .inr rfl
      · exact absurd (update_of_ne hrun ..) hchanged
    · exact absurd rfl hchanged
  · cases hstep
    exact absurd rfl hchanged
  · cases hstep

theorem System.step_runs (hstep : s.step block e = some s') (hchanged : s'.runs run ≠ s.runs run) :
    ∃ t stage version digest, e = .commit t ∧ s.txs t = some stage ∧
      s'.runs run = some (version, digest) ∧
      (stage.uses = some (run, version) ∨ stage = .counted run version false) := by
  obtain ⟨t, heffect⟩ := System.step_effect hstep
  have hcommit : e = .commit t := by
    by_contra hne
    exact hchanged (congrFun (heffect.runs hne) run)
  subst hcommit
  obtain ⟨stage, version, digest, hstage, hrun, huses⟩ := System.commit_runs hstep hchanged
  exact ⟨t, stage, version, digest, rfl, hstage, hrun, huses⟩

theorem Inv.keeps_version (h : Inv s) (hstep : s.step true e = some s')
    (hrun : s.runs run = some (version, digest)) :
    ∃ digest', s'.runs run = some (version, digest') := by
  by_cases hsame : s'.runs run = s.runs run
  · exact ⟨digest, hsame.trans hrun⟩
  · obtain ⟨t, stage, other, saved, rfl, hstage, hnext, huses⟩ := System.step_runs hstep hsame
    cases stage with simp [Stage.uses] at huses
    | saved =>
      obtain ⟨rfl, rfl⟩ := huses
      obtain ⟨current, hcurrent⟩ := h.runs t _ _ _ hstage rfl
      cases hrun.symm.trans hcurrent
      exact ⟨saved, hnext⟩
    | counted created =>
      -- the run is there, so its insertion fails
      obtain rfl : created = run := by grind [Stage.uses]
      simp only [System.step, hstage, hrun] at hstep
      cases hstep
      exact absurd rfl hsame

-- Where released versions are blocked: a transaction that has written a digest on a run, or
-- created a run on a version that was there, commits while the version is a pre-release and
-- leaves it one. A digest is written for the version that the run is on, a run stays on its
-- version, and nothing else changes a run.
structure Immutable (s : System) (events : List Event) : Prop where
  prerelease : ∀ mid t next stage run version,
    Schedule.Occurs (System.step true) s events mid (.commit t) next →
    mid.txs t = some stage → stage.uses = some (run, version) →
    IsPrerelease (mid.versions.committed version) ∧ IsPrerelease (next.versions.committed version)
  own : ∀ mid e next t stage run version, Schedule.Occurs (System.step true) s events mid e next →
    mid.txs t = some stage → stage.attests = some (run, version) →
    ∃ digest, mid.runs run = some (version, digest)
  keeps : ∀ mid e next run version digest, Schedule.Occurs (System.step true) s events mid e next →
    mid.runs run = some (version, digest) → ∃ digest', next.runs run = some (version, digest')
  runs : ∀ mid e next run, Schedule.Occurs (System.step true) s events mid e next →
    next.runs run ≠ mid.runs run → ∃ t stage version digest, e = .commit t ∧
      mid.txs t = some stage ∧ next.runs run = some (version, digest) ∧
      (stage.uses = some (run, version) ∨ stage = .counted run version false)

theorem released_versions_are_immutable (versions : UUID → Option ProjectVersion)
    (runs : UUID → Option (UUID × String)) (events : List Event) :
    Immutable (start versions runs) events := by
  have hinv {mid e next} (h : Schedule.Occurs (System.step true) (start versions runs) events mid e next) :
      Inv mid := h.keeps Inv (inv_start versions runs) fun _ _ _ h hstep => h.step hstep
  constructor
  · intro mid t next stage run version hoccurs hstage huses
    have h := hinv hoccurs
    obtain ⟨before, after, -, -, hstep⟩ := hoccurs
    exact h.commit_prerelease hstage huses hstep
  · exact fun mid e next t stage run version hoccurs => (hinv hoccurs).runs t stage run version
  · intro mid e next run version digest hoccurs hrun
    have h := hinv hoccurs
    obtain ⟨before, after, -, -, hstep⟩ := hoccurs
    exact h.keeps_version hstep hrun
  · rintro mid e next run ⟨before, after, -, -, hstep⟩ hchanged
    exact System.step_runs hstep hchanged

end Chainloop.Runs.Release
