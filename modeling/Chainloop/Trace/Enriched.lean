import Mathlib.Algebra.BigOperators.Group.List.Basic
import Chainloop.Trace.CountedOnce

namespace Chainloop.Trace

open Go List Map

variable {f : FileChange} {git : Git} {sessionID : String} {sha8 : String → String}
  {ledgers : Ledgers} {commits : List CommitLines} {tip : Tip} {changes out : CodeChanges}

def FileChange.AddsUp (f : FileChange) : Prop :=
  f.linesAdded = f.aiLinesAdded + f.humanLinesAdded ∧
    f.linesRemoved = f.aiLinesRemoved + f.humanLinesRemoved

-- So do the totals over the files.
def CodeChanges.AddsUp (c : CodeChanges) : Prop :=
  (∀ f ∈ c.files, f.AddsUp) ∧ c.linesAdded = c.aiLinesAdded + c.humanLinesAdded ∧
    c.linesRemoved = c.aiLinesRemoved + c.humanLinesRemoved

-- Each range covers lines of the file, no line twice, and names their author.
def FileChange.Located (f : FileChange) (lines : List BlameLine) : Prop :=
  ((counted f.lineRanges).map Prod.fst).Nodup ∧
    (∀ k ∈ (counted f.lineRanges).map Prod.fst, 1 ≤ k ∧ k ≤ lines.length) ∧
    f.aiLinesAdded = (counted f.lineRanges).countP (fun e => e.2 == some .ai) ∧
    f.humanLinesAdded = (counted f.lineRanges).countP (fun e => e.2 == some .human)

theorem legacySplit_addsUp (f : FileChange) (ranges : List LineRange) :
    (legacySplit f ranges).AddsUp := by
  simp only [FileChange.AddsUp, legacySplit]
  omega

theorem enrichFile_spec (self : AILineAttribution) (byPath net : Map String FileSplit)
    (f : FileChange) :
    let f' := enrichFile sessionID self commits byPath net f
    f'.path = f.path ∧ (f.aiLinesAdded = 0 ∧ f.aiLinesRemoved = 0 → f'.AddsUp) := by
  unfold enrichFile
  extract_lets g g' f'
  have hsame : g'.path = f.path ∧ g'.aiLinesAdded = f.aiLinesAdded ∧
      g'.aiLinesRemoved = f.aiLinesRemoved := by
    subst g' g
    cases editedRanges self f.path (oldPathsOf commits f.path) <;> dsimp only <;>
      cases net.get? f.path <;> exact ⟨rfl, rfl, rfl⟩
  subst f'
  by_cases hlegacy : self.legacy.getD g'.path false = true
  · rw [if_pos hlegacy]
    exact ⟨hsame.1, fun _ => legacySplit_addsUp g' _⟩
  · rw [if_neg hlegacy]
    cases byPath.get? g'.path with
    | some s => exact ⟨hsame.1, fun _ => ⟨rfl, rfl⟩⟩
    | none =>
      dsimp only
      split_ifs
      · refine ⟨hsame.1, fun h => ?_⟩
        simp only [FileChange.AddsUp]
        omega
      · exact ⟨hsame.1, fun _ => legacySplit_addsUp g' _⟩

theorem enrich_addsUp (h : ∀ f ∈ changes.files, f.aiLinesAdded = 0 ∧ f.aiLinesRemoved = 0) :
    (enrich sha8 sessionID ledgers commits tip changes).AddsUp := by
  have hfiles : ∀ f ∈ (enrich sha8 sessionID ledgers commits tip changes).files, f.AddsUp := by
    intro f hf
    obtain ⟨f, hmem, rfl⟩ := mem_map.mp hf
    exact (enrichFile_spec _ _ _ f).2 (h f hmem)
  refine ⟨hfiles, ?_, ?_⟩
  · exact (congrArg sum (map_congr_left fun f hf => (hfiles f hf).1)).trans sum_map_add
  · exact (congrArg sum (map_congr_left fun f hf => (hfiles f hf).2)).trans sum_map_add

theorem legacyMarks_eq : legacyMarks sessionID ledgers =
    (ledgers.getD sessionID (newAILineAttribution sessionID)).legacy := by
  unfold legacyMarks Map.getD
  cases ledgers.get? sessionID <;> rfl

theorem enrich_located (hf : f ∈ (enrich sha8 sessionID ledgers commits tip changes).files)
    (hlegacy : (legacyMarks sessionID ledgers).getD f.path false = false)
    (htip : tip.get? f.path = some lines) : f.Located lines := by
  obtain ⟨f, -, rfl⟩ := mem_map.mp hf
  rw [(enrichFile_spec _ _ _ f).1] at hlegacy htip
  rw [legacyMarks_eq] at hlegacy
  have hkey : f.path ∈ (netAdded (netInput sha8 sessionID ledgers commits tip)).keys := by
    rw [Map.keys, netAdded_entries, map_map]
    exact mem_map.mpr ⟨f.path, (sortedKeys_perm tip).mem_iff.mpr
      ((mem_keys_iff_isSome ..).mpr (by rw [htip]; rfl)), rfl⟩
  obtain ⟨s, hs⟩ := Option.isSome_iff_exists.mp ((mem_keys_iff_isSome ..).mp hkey)
  obtain ⟨hai, hhuman, hranges⟩ := enrichFile_net sessionID _ commits
    (splitByPath sha8 sessionID _ ledgers commits) _ f hlegacy hs
  obtain ⟨-, htallied⟩ := netAdded_tallied hs
  obtain ⟨hnodup, hai', hhuman', -⟩ := owners_of_tallied htallied (ownedLines_nodup _ _ _ _)
  simp only [netInput] at hai hhuman hranges
  rw [FileChange.Located, hai, hhuman, hranges, ← hai', ← hhuman']
  refine ⟨hnodup, fun k hk => ?_, rfl, rfl⟩
  obtain ⟨o, ho⟩ := (mem_counted htallied k).mp hk
  obtain ⟨i, rfl, howner⟩ := (mem_ownedLines _).mp ho
  obtain ⟨l, hl, -⟩ := Option.bind_eq_some_iff.mp howner
  simp only [netInput, Map.getD, htip, Option.getD_some] at hl
  obtain ⟨hi, -⟩ := List.getElem?_eq_some_iff.mp hl
  omega

-- A changed file that is not legacy and that HEAD holds is in the tip.
theorem get?_sessionTip {legacy : Map String Bool} {shas paths : List String} {path : String}
    (hpath : path ∈ paths) (hlegacy : legacy.getD path false = false)
    (hblame : git.blame "HEAD" (git.headPath shas path) = some lines) :
    (sessionTip git legacy shas paths).get? path = some lines := by
  induction paths using reverseRecOn with
  | nil => cases hpath
  | append_singleton paths p ih =>
    rw [sessionTip, foldl_append, foldl_cons, foldl_nil, ← sessionTip]
    by_cases hp : path = p
    · subst hp
      rw [hlegacy, hblame]
      exact get?_set_self _ _ _
    · have hprev := ih ((mem_append.mp hpath).resolve_right (by simpa using hp))
      split_ifs
      · exact hprev
      · cases git.blame "HEAD" (git.headPath shas p) with
        | none => exact hprev
        | some other => exact (get?_set_ne _ _ hp).trans hprev

theorem session_changes_add_up {records : List CommitRecord} {isGenerated : Option (String → Bool)}
    (h : sessionCodeChanges git sessionID sha8 records ledgers isGenerated = some out)
    (hread : ∀ sha ∈ ownSHAs sessionID records, (git.commitLines sha).isSome)
    (hdiff : ∀ changes, git.codeChangesForCommits (ownSHAs sessionID records) = some changes →
      ∀ f ∈ changes.files, f.aiLinesAdded = 0 ∧ f.aiLinesRemoved = 0) :
    out.AddsUp ∧
      ∀ f ∈ out.files, ∀ lines, (legacyMarks sessionID ledgers).getD f.path false = false →
        git.blame "HEAD" (git.headPath (ownSHAs sessionID records) f.path) = some lines →
        f.Located lines := by
  obtain ⟨changes, hchanges, h⟩ := Option.bind_eq_some_iff.mp h
  rw [if_pos (all_eq_true.mpr hread)] at h
  cases h
  have hfiles : ∀ f ∈ (filterGenerated isGenerated changes).files, f ∈ changes.files := by
    intro f hf
    cases isGenerated with
    | none => exact hf
    | some _ => exact mem_of_mem_filter hf
  refine ⟨enrich_addsUp fun f hf => hdiff changes hchanges f (hfiles f hf),
    fun f hf lines hlegacy hblame => ?_⟩
  refine enrich_located hf hlegacy (get?_sessionTip ?_ hlegacy hblame)
  obtain ⟨f, hmem, rfl⟩ := mem_map.mp hf
  rw [(enrichFile_spec _ _ _ f).1]
  exact mem_map_of_mem hmem

def renamedTwicePush : Git :=
  { renamedTwice ["x"] with
    codeChangesForCommits := fun _ => some ⟨1, 0, 0, 9, 2, 0, 0, 0, 0, 0, 0,
      [⟨"c.txt", "modified", 9, 2, none, [], [], 0, 0, 0, 0⟩]⟩ }

theorem renamed_changes_add_up : ∃ out f,
    sessionCodeChanges renamedTwicePush "s" id (renamedTwiceRecords ["x"]) .empty none = some out ∧
      out.linesAdded = 2 ∧ out.AddsUp ∧ out.files = [f] ∧
      (counted f.lineRanges).map Prod.fst = [2, 3] ∧
      f.Located [⟨"c1", "one"⟩, ⟨"j", "x"⟩, ⟨"c2", "y"⟩] := by
  have hout : sessionCodeChanges renamedTwicePush "s" id (renamedTwiceRecords ["x"]) .empty none =
    some _ := rfl
  obtain ⟨haddsUp, hlocated⟩ := session_changes_add_up hout (by decide) (by
    rintro _ ⟨⟩
    decide)
  exact ⟨_, _, hout, by decide +kernel, haddsUp, rfl, by decide +kernel,
    hlocated _ mem_cons_self _ (by decide +kernel) (by decide +kernel)⟩

end Chainloop.Trace
