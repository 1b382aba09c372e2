import Chainloop.BuildLogs.Report

namespace Chainloop.BuildLogs

open Go Chainloop.Lists List

theorem mem_compact : i ∈ compact l ↔ i ∈ l := by
  induction l using compact.induct with
  | case1 => rfl
  | case2 j => rfl
  | case3 j rest ih =>
    rw [compact, if_pos rfl, ih]
    simp
  | case4 j k rest hne ih =>
    rw [compact, if_neg hne, mem_cons, ih, ← mem_cons]

theorem pairwise_compact {l : List Nat} (h : l.Pairwise (· ≤ ·)) : (compact l).Pairwise (· < ·) := by
  induction l using compact.induct with
  | case1 => exact List.Pairwise.nil
  | case2 j => exact pairwise_singleton _ j
  | case3 j rest ih =>
    rw [compact, if_pos rfl]
    exact ih (pairwise_cons.mp h).2
  | case4 j k rest hne ih =>
    obtain ⟨hj, hrest⟩ := pairwise_cons.mp h
    rw [compact, if_neg hne]
    refine pairwise_cons.mpr ⟨fun i hi => ?_, ih hrest⟩
    have hjk : j < k := Nat.lt_of_le_of_ne (hj k mem_cons_self) hne
    rcases mem_cons.mp (mem_compact.mp hi) with rfl | hi
    · exact hjk
    · exact Nat.lt_of_lt_of_le hjk ((pairwise_cons.mp hrest).1 i hi)

theorem mem_mergeIndexes : i ∈ mergeIndexes a b ↔ i ∈ a ∨ i ∈ b := by
  unfold mergeIndexes
  rw [mem_compact, mem_insertionSort, mem_append]

theorem pairwise_mergeIndexes (a b : List Nat) : (mergeIndexes a b).Pairwise (· < ·) :=
  pairwise_compact (pairwise_insertionSort _ _)

def Counts.of (c : Counts) : Severity → Int
  | .error => c.errors
  | .warning => c.warnings

def Summary.of (s : Summary) : Severity → Nat
  | .error => s.errors
  | .warning => s.warnings

def ofSeverity (s : Severity) (d : Diagnostic) : Bool := d.severity = s

theorem occurrences_of (diagnostics : List Diagnostic) (s : Severity) :
    (occurrences diagnostics).of s = ((diagnostics.filter (ofSeverity s)).map occurrencesOf).sum := by
  induction diagnostics using reverseRecOn with
  | nil => cases s <;> rfl
  | append_singleton rest d ih =>
    rw [filter_append, map_append, sum_append, ← ih]
    unfold occurrences
    cases hd : d.severity <;> cases s <;> simp [isError, ofSeverity, hd, Counts.of]

theorem summarize_of (diagnostics : List Diagnostic) (s : Severity) :
    (summarize diagnostics).of s = diagnostics.countP (ofSeverity s) := by
  induction diagnostics using reverseRecOn with
  | nil => cases s <;> rfl
  | append_singleton rest d ih =>
    rw [countP_append, ← ih]
    unfold summarize
    by_cases hcode : d.code = ""
    · cases hd : d.severity <;> cases s <;> simp [isError, ofSeverity, hd, Summary.of, hcode]
    · cases hd : d.severity <;> cases s <;> simp [isError, ofSeverity, hd, Summary.of, hcode]

def ofCode (code : String) (d : Diagnostic) : Bool := d.code = code

theorem summarize_byCode (diagnostics : List Diagnostic) (code : String) :
    (summarize diagnostics).byCode.get? code =
      if code ≠ "" ∧ 0 < diagnostics.countP (ofCode code) then
        some (diagnostics.countP (ofCode code))
      else none := by
  induction diagnostics using reverseRecOn with
  | nil => simp [summarize]
  | append_singleton rest d ih =>
    have hstep : (summarize (rest ++ [d])).byCode = if d.code = "" then (summarize rest).byCode
        else (summarize rest).byCode.set d.code ((summarize rest).byCode.getD d.code 0 + 1) := by
      unfold summarize
      rw [foldl_append, foldl_cons]
      split_ifs <;> simp_all
    rw [hstep, countP_append, countP_singleton]
    by_cases hempty : d.code = ""
    · rw [if_pos hempty, ih]
      by_cases hcode : code = ""
      · simp [hcode]
      · simp [ofCode, hempty, Ne.symm hcode]
    · rw [if_neg hempty, Map.get?_set]
      by_cases hcode : code = d.code
      · subst hcode
        rw [Map.getD, ih]
        simp only [ofCode, if_true]
        split_ifs <;> simp_all
      · rw [if_neg hcode, ih]
        simp [ofCode, Ne.symm hcode]

theorem sum_filter_map {α : Type} (p : α → Bool) (f : α → Int) (l : List α) :
    ((l.filter p).map f).sum = (l.map fun a => if p a then f a else 0).sum := by
  induction l with
  | nil => rfl
  | cons a rest ih => cases hp : p a <;> simp [hp, ih]

section Fold

variable (lower : String → String)

theorem keepsKey_fold : KeepsKey (keyOf lower) mergeRepeat firstSeen := ⟨fun _ _ => rfl, fun _ => rfl⟩

section
variable (diagnostics : List Diagnostic)

theorem fold_perm :
    (fold lower diagnostics).Perm (foldByKey (keyOf lower) mergeRepeat firstSeen diagnostics) :=
  perm_insertionSort _ _

theorem nodup_keys_fold : ((fold lower diagnostics).map (keyOf lower)).Nodup :=
  ((fold_perm lower diagnostics).map _).nodup_iff.mpr
    (nodup_keys_foldByKey (keepsKey_fold lower) diagnostics)

theorem mem_keys_fold (k : DiagnosticKey) :
    k ∈ (fold lower diagnostics).map (keyOf lower) ↔ k ∈ diagnostics.map (keyOf lower) := by
  rw [((fold_perm lower diagnostics).map _).mem_iff]
  exact mem_keys_foldByKey (keepsKey_fold lower) diagnostics k

theorem sum_fold (s : Severity) :
    (((fold lower diagnostics).filter (ofSeverity s)).map Diagnostic.occurrences).sum =
      ((diagnostics.filter (ofSeverity s)).map occurrencesOf).sum := by
  rw [(((fold_perm lower diagnostics).filter _).map _).sum_eq, sum_filter_map, sum_filter_map]
  refine sum_foldByKey (keepsKey_fold lower) (fun e d hkeys => ?_) (fun d => rfl) diagnostics
  have hseverity : e.severity = d.severity := congrArg DiagnosticKey.severity hkeys
  by_cases hs : d.severity = s <;> simp [ofSeverity, mergeRepeat, firstSeen, hseverity, hs]

end

variable {d : Diagnostic}

theorem one_le_of_mem_fold (h : d ∈ fold lower diagnostics) :
    1 ≤ d.occurrences := by
  have hone : ∀ e : Diagnostic, 1 ≤ occurrencesOf e := fun e => le_max_right _ _
  refine forall_mem_foldByKey (P := fun d => 1 ≤ d.occurrences) (fun e a _ he => ?_)
    (fun a _ => hone a) d ((fold_perm lower diagnostics).mem_iff.mp h)
  have hmerged : (mergeRepeat e a).occurrences = e.occurrences + occurrencesOf a := rfl
  have ha := hone a
  omega

theorem mem_logs_of_mem_fold (h : d ∈ fold lower diagnostics) (i : Nat) :
    i ∈ d.logs ↔ ∃ e ∈ diagnostics, keyOf lower e = keyOf lower d ∧ i ∈ e.logs :=
  iff_of_mem_foldByKey (Q := fun d => i ∈ d.logs) (keepsKey_fold lower)
    (fun _ _ => mem_mergeIndexes) (fun _ => Iff.rfl) ((fold_perm lower diagnostics).mem_iff.mp h)

theorem pairwise_logs_of_mem_fold (hlogs : ∀ d ∈ diagnostics, d.logs.Pairwise (· < ·))
    (h : d ∈ fold lower diagnostics) : d.logs.Pairwise (· < ·) :=
  forall_mem_foldByKey (P := fun d => d.logs.Pairwise (· < ·))
    (fun _ _ _ _ => pairwise_mergeIndexes _ _) hlogs d ((fold_perm lower diagnostics).mem_iff.mp h)

def allFolded (logs : List ParsedLog) : List Diagnostic :=
  (logs.mapIdx fun place l => foldLog lower place l).flatten

theorem mem_allFolded :
    d ∈ allFolded lower logs ↔ ∃ i l, logs[i]? = some l ∧ d ∈ foldLog lower i l := by
  unfold allFolded
  simp only [List.mem_flatten, List.mem_mapIdx]
  constructor
  · rintro ⟨_, ⟨i, hi, rfl⟩, hd⟩
    exact ⟨i, _, List.getElem?_eq_getElem hi, hd⟩
  · rintro ⟨i, l, hl, hd⟩
    obtain ⟨hi, rfl⟩ := List.getElem?_eq_some_iff.mp hl
    exact ⟨_, ⟨i, hi, rfl⟩, hd⟩

theorem sum_foldLog (place : Nat) (l : ParsedLog) (s : Severity) :
    (((foldLog lower place l).filter (ofSeverity s)).map occurrencesOf).sum =
      (occurrences l.diagnostics).of s := by
  rw [occurrences_of, ← sum_fold lower l.diagnostics]
  unfold foldLog
  rw [filter_map, map_map]
  congr 1
  refine map_congr_left fun d hd => ?_
  have hone := one_le_of_mem_fold lower (mem_filter.mp hd).1
  exact max_eq_left hone

theorem sum_allFolded (logs : List ParsedLog) (s : Severity) :
    (((allFolded lower logs).filter (ofSeverity s)).map occurrencesOf).sum =
      (logs.map fun l => (occurrences l.diagnostics).of s).sum := by
  unfold allFolded
  induction logs using reverseRecOn with
  | nil => rfl
  | append_singleton rest l ih =>
    rw [mapIdx_concat, flatten_append, filter_append, map_append,
      sum_append, ih, map_append, sum_append]
    simp [sum_foldLog]

structure Conserves (logs : List ParsedLog) (report : Report) : Prop where
  distinct : (report.diagnostics.map (keyOf lower)).Nodup
  occurrences : ∀ s, ((report.diagnostics.filter (ofSeverity s)).map Diagnostic.occurrences).sum =
    (report.logs.map fun l => l.parsed.of s).sum
  parsed : report.logs.map Log.parsed = logs.map fun l => BuildLogs.occurrences l.diagnostics
  places : ∀ d ∈ report.diagnostics, ∀ i, i ∈ d.logs ↔
    ∃ l, logs[i]? = some l ∧ ∃ e ∈ l.diagnostics, keyOf lower e = keyOf lower d
  increasing : ∀ d ∈ report.diagnostics, d.logs.Pairwise (· < ·)
  summary : ∀ s, report.summary.of s = report.diagnostics.countP (ofSeverity s)
  byCode : ∀ code, report.summary.byCode.get? code =
    if code ≠ "" ∧ 0 < report.diagnostics.countP (ofCode code) then
      some (report.diagnostics.countP (ofCode code))
    else none

theorem mem_logs_newReport (hd : d ∈ (newReport lower logs).diagnostics) (i : Nat) :
    i ∈ d.logs ↔ ∃ l, logs[i]? = some l ∧ ∃ e ∈ l.diagnostics, keyOf lower e = keyOf lower d := by
  rw [mem_logs_of_mem_fold lower hd]
  constructor
  · rintro ⟨e, he, hkeys, hi⟩
    obtain ⟨j, l, hl, he⟩ := (mem_allFolded lower).mp he
    obtain ⟨f, hf, rfl⟩ := mem_map.mp he
    obtain rfl : i = j := mem_singleton.mp hi
    have hkeys : keyOf lower f = keyOf lower d := hkeys
    have hkey : keyOf lower d ∈ l.diagnostics.map (keyOf lower) := by
      rw [← mem_keys_fold, ← hkeys]
      exact mem_map_of_mem hf
    obtain ⟨g, hg, hkeys⟩ := mem_map.mp hkey
    exact ⟨l, hl, g, hg, hkeys⟩
  · rintro ⟨l, hl, g, hg, hkeys⟩
    have hkey : keyOf lower d ∈ (fold lower l.diagnostics).map (keyOf lower) := by
      rw [mem_keys_fold, ← hkeys]
      exact mem_map_of_mem hg
    obtain ⟨f, hf, hkeys⟩ := mem_map.mp hkey
    exact ⟨{ f with logs := [i] }, (mem_allFolded lower).mpr ⟨i, l, hl, mem_map_of_mem hf⟩,
      hkeys, mem_singleton_self i⟩

theorem newReport_conserves (logs : List ParsedLog) :
    Conserves lower logs (newReport lower logs) where
  distinct := nodup_keys_fold lower _
  occurrences s := by
    have hlogs : (newReport lower logs).logs.map (fun l => l.parsed.of s) =
        logs.map fun l => (BuildLogs.occurrences l.diagnostics).of s := map_map
    rw [hlogs, ← sum_allFolded lower]
    exact sum_fold lower (allFolded lower logs) s
  parsed := map_map
  places d hd i := mem_logs_newReport lower hd i
  increasing d hd := by
    refine pairwise_logs_of_mem_fold lower (fun e he => ?_) hd
    obtain ⟨i, l, -, he⟩ := (mem_allFolded lower).mp he
    obtain ⟨f, -, rfl⟩ := mem_map.mp he
    exact pairwise_singleton _ i
  summary s := summarize_of _ s
  byCode code := summarize_byCode _ code

end Fold

end Chainloop.BuildLogs
