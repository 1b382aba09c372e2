import Mathlib.Data.List.Sort
import Mathlib.Data.String.Basic
import Chainloop.Go.Map
import Chainloop.Go.Strings

namespace Chainloop.Trace

open Go
open List hiding set

abbrev LineCounts := Map String Nat

namespace LineCounts

def count (c : LineCounts) (fp : String) : Nat := c.getD fp 0

def add (c : LineCounts) (fps : List String) : LineCounts :=
  fps.foldl (fun c fp => Map.set c fp (count c fp + 1)) c

-- One copy less, and whether there was one. No count of zero stays behind.
def take (c : LineCounts) (fp : String) : Bool × LineCounts :=
  if count c fp = 0 then (false, c)
  else if count c fp = 1 then (true, Map.erase c fp)
  else (true, Map.set c fp (count c fp - 1))

@[simp] theorem count_empty (fp : String) : count .empty fp = 0 := rfl

variable (c : LineCounts)

theorem count_set (fp fp' : String) (n : Nat) :
    count (Map.set c fp n) fp' = if fp' = fp then n else count c fp' := by
  simp only [count, Map.getD, Map.get?_set]
  split_ifs <;> rfl

theorem count_erase (fp fp' : String) :
    count (Map.erase c fp) fp' = if fp' = fp then 0 else count c fp' := by
  simp only [count, Map.getD, Map.get?_erase]
  split_ifs <;> rfl

theorem count_add (fps : List String) (fp : String) :
    count (add c fps) fp = count c fp + fps.count fp := by
  induction fps generalizing c with
  | nil => simp [add]
  | cons x rest ih =>
    have hfold : add c (x :: rest) = add (Map.set c x (count c x + 1)) rest := rfl
    rw [hfold, ih, count_set]
    by_cases hx : fp = x
    · subst hx
      simp
      omega
    · have hne : x ≠ fp := fun h => hx h.symm
      simp [hx, hne]

theorem take_fst (fp : String) : (take c fp).1 = decide (0 < count c fp) := by
  unfold take
  split_ifs with h0 h1
  · simp [h0]
  · simp [h1]
  · simp
    omega

theorem count_take (fp fp' : String) :
    count (take c fp).2 fp' = if fp' = fp then count c fp' - 1 else count c fp' := by
  unfold take
  split_ifs with h0 h1 he he <;> simp_all [count_set, count_erase]

end LineCounts

structure LineSet where
  added : List String
  removed : List String
deriving DecidableEq

structure OpenLines where
  added : LineCounts
  removed : LineCounts
deriving DecidableEq

inductive Owner where
  | ai | human
deriving DecidableEq

-- A range without an attribution is an AI range at edit time.
structure LineRange where
  start : Nat
  last : Nat
  attribution : Option Owner
deriving DecidableEq

structure PendingEdit where
  editedAt : Nat
  seq : Nat
deriving DecidableEq

structure AILineAttribution where
  sessionID : String
  files : Map String (List LineRange)
  pending : Map String PendingEdit
  written : Map String LineCounts
  erased : Map String LineCounts
  opened : Map String OpenLines
  legacy : Map String Bool
  generatedAdded : Nat
  generatedRemoved : Nat
deriving DecidableEq

def newAILineAttribution (sessionID : String) : AILineAttribution :=
  ⟨sessionID, .empty, .empty, .empty, .empty, .empty, .empty, 0, 0⟩

-- One record of a ledger. Its time is what the text parses to, if it does.
structure LedgerEntry where
  sessionID : String
  file : String
  ranges : List LineRange
  recordedAt : Option Nat
  consumedBy : String
  consumedSeq : Nat
  lines : Option LineSet
  linesAdded : Nat
  linesRemoved : Nat
  settled : Option LineSet
deriving DecidableEq

def OpenLines.none : OpenLines := ⟨.empty, .empty⟩

def OpenLines.isEmpty (o : OpenLines) : Bool := o.added.size == 0 && o.removed.size == 0

def LineCounts.takeAll (c : LineCounts) (fps : List String) : LineCounts :=
  fps.foldl (fun c fp => (LineCounts.take c fp).2) c

def AILineAttribution.settle (a : AILineAttribution) (file : String) (set : LineSet) :
    AILineAttribution :=
  match a.opened.get? file with
  | none => a
  | some o =>
    let left : OpenLines :=
      ⟨LineCounts.takeAll o.added set.added, LineCounts.takeAll o.removed set.removed⟩
    { a with opened := a.opened.set file left }

-- A removal of an open added line closes it, and so does writing back an open removal.
def OpenLines.edit (o : OpenLines) (lines : LineSet) : OpenLines :=
  let o := lines.removed.foldl (fun (o : OpenLines) fp =>
    if (LineCounts.take o.added fp).1 then { o with added := (LineCounts.take o.added fp).2 }
    else { o with removed := LineCounts.add o.removed [fp] }) o
  lines.added.foldl (fun (o : OpenLines) fp =>
    if (LineCounts.take o.removed fp).1 then { o with removed := (LineCounts.take o.removed fp).2 }
    else { o with added := LineCounts.add o.added [fp] }) o

def AILineAttribution.applyEdit (a : AILineAttribution) (entry : LedgerEntry) (lines : LineSet) :
    AILineAttribution :=
  { a with
    written := a.written.set entry.file (LineCounts.add (a.written.getD entry.file .empty) lines.added)
    erased := a.erased.set entry.file (LineCounts.add (a.erased.getD entry.file .empty) lines.removed)
    opened := a.opened.set entry.file ((a.opened.getD entry.file .none).edit lines)
    generatedAdded := a.generatedAdded + entry.linesAdded
    generatedRemoved := a.generatedRemoved + entry.linesRemoved }

structure Replay where
  attr : AILineAttribution
  legacyPending : Map String PendingEdit
  lastEdit : Map String PendingEdit
  seq : Nat
deriving DecidableEq

def Replay.edit (r : Replay) (entry : LedgerEntry) : Replay :=
  let ranges := r.attr.files.getD entry.file [] ++ entry.ranges
  let attr := { r.attr with files := r.attr.files.set entry.file ranges }
  let attr := match entry.lines with
    | some lines => attr.applyEdit entry lines
    | none => { attr with legacy := attr.legacy.set entry.file true }
  match entry.recordedAt with
  | none => { r with attr }
  | some at' =>
    let edit : PendingEdit := ⟨at', r.seq⟩
    { r with
      attr
      lastEdit := r.lastEdit.set entry.file edit
      legacyPending :=
        if entry.lines.isNone then r.legacyPending.set entry.file edit else r.legacyPending }

-- A marker retires the legacy edit that the commit held, not one recorded after it.
def Replay.marker (r : Replay) (entry : LedgerEntry) : Replay :=
  let retired := (r.legacyPending.get? entry.file).any fun cur =>
    entry.consumedSeq == 0 || decide (cur.seq ≤ entry.consumedSeq)
  { r with
    legacyPending := if retired then r.legacyPending.erase entry.file else r.legacyPending
    attr := match entry.settled with
      | some set => r.attr.settle entry.file set
      | none => r.attr }

def Replay.entry (r : Replay) (entry : LedgerEntry) : Replay :=
  let attr := if entry.sessionID = "" then r.attr else { r.attr with sessionID := entry.sessionID }
  let r := { r with attr, seq := r.seq + 1 }
  if entry.consumedBy ≠ "" then r.marker entry
  else match entry.settled with
    | some set => { r with attr := r.attr.settle entry.file set }
    | none => r.edit entry

-- A file is pending while a legacy edit is, or while it has open lines.
def Replay.pending (r : Replay) : Map String PendingEdit :=
  r.lastEdit.filter fun file _ =>
    (r.legacyPending.get? file).isSome || !(r.attr.opened.getD file .none).isEmpty

def loadAILineAttribution (sessionID : String) (entries : List LedgerEntry) : AILineAttribution :=
  let r := entries.foldl Replay.entry ⟨newAILineAttribution sessionID, .empty, .empty, 0⟩
  { r.attr with pending := r.pending }

def replay (sessionID : String) (entries : List LedgerEntry) : Replay :=
  entries.foldl Replay.entry ⟨newAILineAttribution sessionID, .empty, .empty, 0⟩

theorem replay_append (sessionID : String) (entries new : List LedgerEntry) :
    replay sessionID (entries ++ new) = new.foldl Replay.entry (replay sessionID entries) :=
  foldl_append

theorem AILineAttribution.settle_sessionID (a : AILineAttribution) (file : String) (set : LineSet) :
    (a.settle file set).sessionID = a.sessionID := by
  unfold settle
  cases a.opened.get? file <;> rfl

theorem AILineAttribution.settle_files (a : AILineAttribution) (file : String) (set : LineSet) :
    (a.settle file set).files = a.files := by
  unfold settle
  cases a.opened.get? file <;> rfl

theorem AILineAttribution.settle_opened_of_ne (a : AILineAttribution) (set : LineSet) (h : f ≠ file) :
    (a.settle file set).opened.get? f = a.opened.get? f := by
  unfold settle
  cases a.opened.get? file with
  | none => rfl
  | some o => exact Map.get?_set_ne _ _ h

theorem Replay.edit_sessionID (r : Replay) (entry : LedgerEntry) :
    (r.edit entry).attr.sessionID = r.attr.sessionID := by
  unfold Replay.edit
  cases entry.recordedAt <;> cases entry.lines <;> rfl

theorem Replay.entry_sessionID (r : Replay) (entry : LedgerEntry) : (r.entry entry).attr.sessionID =
      if entry.sessionID = "" then r.attr.sessionID else entry.sessionID := by
  have hstart : (if entry.sessionID = "" then r.attr
      else { r.attr with sessionID := entry.sessionID }).sessionID =
        if entry.sessionID = "" then r.attr.sessionID else entry.sessionID := by
    split_ifs <;> rfl
  rw [← hstart]
  unfold Replay.entry
  generalize (if entry.sessionID = "" then r.attr
    else { r.attr with sessionID := entry.sessionID }) = attr
  split_ifs
  · cases hset : entry.settled with
    | none => simp [Replay.marker, hset]
    | some set => simp [Replay.marker, hset, AILineAttribution.settle_sessionID]
  · cases entry.settled with
    | none => exact Replay.edit_sessionID _ _
    | some set => exact AILineAttribution.settle_sessionID _ _ _

structure Replay.Agree (f : String) (r r' : Replay) : Prop where
  lastEdit : r'.lastEdit.get? f = r.lastEdit.get? f
  legacyPending : r'.legacyPending.get? f = r.legacyPending.get? f
  opened : r'.attr.opened.get? f = r.attr.opened.get? f

theorem Replay.Agree.trans (h : Replay.Agree f r r') (h' : Replay.Agree f r' r'') :
    Replay.Agree f r r'' :=
  ⟨h'.lastEdit.trans h.lastEdit, h'.legacyPending.trans h.legacyPending, h'.opened.trans h.opened⟩

variable {r : Replay}

theorem Replay.Agree.edit {entry : LedgerEntry} (h : f ≠ entry.file) :
    Replay.Agree f r (r.edit entry) := by
  have hopened : (r.edit entry).attr.opened.get? f = r.attr.opened.get? f := by
    unfold Replay.edit
    cases entry.lines <;> cases entry.recordedAt <;>
      simp [AILineAttribution.applyEdit, Map.get?_set_ne _ _ h]
  refine ⟨?_, ?_, hopened⟩
  · unfold Replay.edit
    cases entry.recordedAt with
    | none => rfl
    | some t => exact Map.get?_set_ne _ _ h
  · unfold Replay.edit
    cases entry.recordedAt with
    | none => rfl
    | some t =>
      split_ifs
      · exact Map.get?_set_ne _ _ h
      · rfl

theorem Replay.Agree.marker {entry : LedgerEntry} (h : f ≠ entry.file) :
    Replay.Agree f r (r.marker entry) := by
  refine ⟨rfl, ?_, ?_⟩
  · unfold Replay.marker
    dsimp only
    split_ifs
    · rw [Map.get?_erase, if_neg h]
    · rfl
  · unfold Replay.marker
    cases entry.settled with
    | none => rfl
    | some set => exact AILineAttribution.settle_opened_of_ne _ _ h

theorem Replay.Agree.entry {entry : LedgerEntry} (h : f ≠ entry.file) :
    Replay.Agree f r (r.entry entry) := by
  unfold Replay.entry
  have hstart : ∀ attr : AILineAttribution, attr.opened = r.attr.opened →
      Replay.Agree f r { r with attr, seq := r.seq + 1 } :=
    fun attr hattr => ⟨rfl, rfl, congrArg (Map.get? · f) hattr⟩
  have hattr : (if entry.sessionID = "" then r.attr
      else { r.attr with sessionID := entry.sessionID }).opened = r.attr.opened := by
    split_ifs <;> rfl
  generalize (if entry.sessionID = "" then r.attr
    else { r.attr with sessionID := entry.sessionID }) = attr at hattr
  split_ifs
  · exact (hstart attr hattr).trans (.marker h)
  · cases entry.settled with
    | none => exact (hstart attr hattr).trans (.edit h)
    | some set =>
      exact (hstart attr hattr).trans ⟨rfl, rfl, AILineAttribution.settle_opened_of_ne _ _ h⟩

theorem Replay.Agree.foldl {new : List LedgerEntry} (h : ∀ e ∈ new, f ≠ e.file) (r : Replay) :
    Replay.Agree f r (new.foldl Replay.entry r) := by
  induction new generalizing r with
  | nil => exact ⟨rfl, rfl, rfl⟩
  | cons e rest ih =>
    have hfirst : Replay.Agree f r (r.entry e) := .entry (h e mem_cons_self)
    exact hfirst.trans (ih (fun e he => h e (mem_cons_of_mem _ he)) (r.entry e))

theorem Replay.pending_get?_of_agree {r r' : Replay} (h : Replay.Agree f r r') :
    r'.pending.get? f = r.pending.get? f := by
  have hopened : r'.attr.opened.getD f .none = r.attr.opened.getD f .none :=
    congrArg (Option.getD · OpenLines.none) h.opened
  ext edit
  simp only [Replay.pending, Map.get?_filter, h.lastEdit, h.legacyPending, hopened]

theorem pending_append (h : ∀ e ∈ new, f ≠ e.file) (sessionID : String) (entries : List LedgerEntry) :
    (loadAILineAttribution sessionID (entries ++ new)).pending.get? f =
      (loadAILineAttribution sessionID entries).pending.get? f := by
  change (replay sessionID (entries ++ new)).pending.get? f = (replay sessionID entries).pending.get? f
  rw [replay_append]
  exact Replay.pending_get?_of_agree (.foldl h _)

theorem sessionID_append {P : String → Prop} {sessionID : String}
    (h : P (loadAILineAttribution sessionID entries).sessionID)
    (hnew : ∀ e ∈ new, e.sessionID ≠ "" → P e.sessionID) :
    P (loadAILineAttribution sessionID (entries ++ new)).sessionID := by
  change P (replay sessionID (entries ++ new)).attr.sessionID
  replace h : P (replay sessionID entries).attr.sessionID := h
  rw [replay_append]
  generalize replay sessionID entries = r at h
  induction new generalizing r with
  | nil => exact h
  | cons e rest ih =>
    refine ih (fun e he => hnew e (mem_cons_of_mem _ he)) (r.entry e) ?_
    rw [Replay.entry_sessionID]
    split_ifs with hid
    · exact h
    · exact hnew e mem_cons_self hid

theorem Replay.mem_files_of_lastEdit (entry : LedgerEntry)
    (h : f ∈ r.lastEdit.keys → f ∈ r.attr.files.keys) :
    f ∈ (r.entry entry).lastEdit.keys → f ∈ (r.entry entry).attr.files.keys := by
  have hfiles : (if entry.sessionID = "" then r.attr
      else { r.attr with sessionID := entry.sessionID }).files = r.attr.files := by
    split_ifs <;> rfl
  unfold Replay.entry
  generalize (if entry.sessionID = "" then r.attr
    else { r.attr with sessionID := entry.sessionID }) = attr at hfiles
  rw [← hfiles] at h
  split_ifs
  · unfold Replay.marker
    cases entry.settled with
    | none => exact h
    | some set => simpa only [AILineAttribution.settle_files] using h
  · cases entry.settled with
    | some set => simpa only [AILineAttribution.settle_files] using h
    | none =>
      have hset : ((({ r with attr := attr, seq := r.seq + 1 } : Replay).edit entry).attr.files) =
          attr.files.set entry.file (attr.files.getD entry.file [] ++ entry.ranges) := by
        unfold Replay.edit
        cases entry.recordedAt <;> cases entry.lines <;> rfl
      have hlast : f ∈ (({ r with attr := attr, seq := r.seq + 1 } : Replay).edit entry).lastEdit.keys →
          f = entry.file ∨ f ∈ r.lastEdit.keys := by
        unfold Replay.edit
        cases entry.recordedAt with
        | none => exact Or.inr
        | some t => exact fun hmem => (Map.mem_keys_set _ _ _ _).mp hmem
      intro hmem
      rw [hset, Map.mem_keys_set]
      exact (hlast hmem).imp_right h

theorem files_of_pending (h : (loadAILineAttribution sessionID entries).pending.get? f = some edit) :
    f ∈ (loadAILineAttribution sessionID entries).files.keys := by
  have hreplay : ∀ (entries : List LedgerEntry) (r : Replay),
      (f ∈ r.lastEdit.keys → f ∈ r.attr.files.keys) →
      f ∈ (entries.foldl Replay.entry r).lastEdit.keys →
        f ∈ (entries.foldl Replay.entry r).attr.files.keys := by
    intro entries
    induction entries with
    | nil => exact fun r hr => hr
    | cons e rest ih => exact fun r hr => ih _ (Replay.mem_files_of_lastEdit e hr)
  have hlast := (Map.get?_filter _ _ _ _).mp h
  refine hreplay entries _ (fun hmem => absurd hmem not_mem_nil) ?_
  rw [Map.mem_keys_iff_isSome]
  exact Option.isSome_of_eq_some hlast.1

def sortedUnique (l : List String) : List String := l.dedup.insertionSort (· ≤ ·)

@[simp] theorem mem_sortedUnique : x ∈ sortedUnique l ↔ x ∈ l := by
  rw [sortedUnique, mem_insertionSort, mem_dedup]

theorem sortedUnique_congr (h : ∀ x, x ∈ l ↔ x ∈ l') : sortedUnique l = sortedUnique l' := by
  have hperm : l.dedup.Perm l'.dedup := by
    rw [perm_ext_iff_of_nodup (nodup_dedup l) (nodup_dedup l')]
    simpa using h
  refine ((perm_insertionSort _ l.dedup).trans
    (hperm.trans (perm_insertionSort _ l'.dedup).symm)).eq_of_pairwise' (r := (· ≤ ·)) ?_ ?_
  · exact pairwise_insertionSort _ _
  · exact pairwise_insertionSort _ _

theorem pairwise_sortedUnique (l : List String) : (sortedUnique l).Pairwise (· < ·) := by
  have hnodup := ((perm_insertionSort (· ≤ ·) l.dedup).nodup_iff).mpr (nodup_dedup l)
  exact (pairwise_insertionSort (· ≤ ·) l.dedup).and hnodup |>.imp fun h => lt_of_le_of_ne h.1 h.2

structure FileOwner where
  sessionID : String
  editedAt : Nat
deriving DecidableEq

-- Equal times fall to the lower session ID.
def FileOwner.supersededBy (o : FileOwner) (sessionID : String) (editedAt : Nat) : Bool :=
  if editedAt = o.editedAt then decide (sessionID < o.sessionID) else decide (o.editedAt < editedAt)

def claim (owners : Map String FileOwner) (sessionID file : String) (edit : PendingEdit) :
    Map String FileOwner :=
  match owners.get? file with
  | some cur =>
    if cur.supersededBy sessionID edit.editedAt then owners.set file ⟨sessionID, edit.editedAt⟩
    else owners
  | none => owners.set file ⟨sessionID, edit.editedAt⟩

def fileOwners (attrs : List AILineAttribution) (files : List String) : Map String FileOwner :=
  attrs.foldl (fun owners attr =>
    attr.pending.entries.foldl (fun owners e =>
      if files.contains e.1 then claim owners attr.sessionID e.1 e.2 else owners) owners) .empty

def matchSessionsToFiles (attrs : List AILineAttribution) (files : List String) : List String :=
  sortedUnique ((fileOwners attrs files).entries.map fun e => e.2.sessionID)

variable {id : String}

theorem FileOwner.supersededBy_iff {o : FileOwner} : o.supersededBy id t = true ↔
    o.editedAt < t ∨ o.editedAt = t ∧ id < o.sessionID := by
  unfold supersededBy
  split_ifs with h
  · simp [h]
  · simp [Ne.symm h]

-- The order is that of the times, and at equal times the order of the IDs from above.
theorem FileOwner.not_supersededBy_iff {o : FileOwner} : o.supersededBy id t = false ↔
    t < o.editedAt ∨ t = o.editedAt ∧ o.sessionID ≤ id := by
  rw [← Bool.not_eq_true, supersededBy_iff, not_or, not_and, not_lt, not_lt]
  constructor
  · rintro ⟨hle, hid⟩
    rcases hle.lt_or_eq with hlt | heq
    · exact .inl hlt
    · exact .inr ⟨heq, hid heq.symm⟩
  · rintro (hlt | ⟨rfl, hid⟩)
    · exact ⟨hlt.le, fun heq => absurd heq hlt.ne'⟩
    · exact ⟨le_rfl, fun _ => hid⟩

def claims (attrs : List AILineAttribution) : List (String × String × PendingEdit) :=
  attrs.flatMap fun attr => attr.pending.entries.map fun e => (attr.sessionID, e.1, e.2)

def claimStaged (files : List String) (owners : Map String FileOwner)
    (c : String × String × PendingEdit) : Map String FileOwner :=
  if files.contains c.2.1 then claim owners c.1 c.2.1 c.2.2 else owners

theorem fileOwners_eq (attrs : List AILineAttribution) (files : List String) :
    fileOwners attrs files = (claims attrs).foldl (claimStaged files) .empty := by
  simp only [claims, foldl_flatMap, foldl_map]
  rfl

theorem mem_claims : (id, f, edit) ∈ claims attrs ↔
    ∃ attr ∈ attrs, attr.sessionID = id ∧ attr.pending.get? f = some edit := by
  simp [claims, Map.get?_eq_some_iff, and_comm]

theorem get?_claimStaged {owners : Map String FileOwner} :
    (claimStaged files owners (id, file, edit)).get? f =
      if f = file ∧ f ∈ files then some (match owners.get? f with
        | some cur => if cur.supersededBy id edit.editedAt then ⟨id, edit.editedAt⟩ else cur
        | none => ⟨id, edit.editedAt⟩)
      else owners.get? f := by
  unfold claimStaged claim
  by_cases hf : f = file
  · subst hf
    cases hcur : owners.get? f with
    | none => by_cases hstaged : f ∈ files <;> simp [hstaged, hcur]
    | some cur =>
      by_cases hstaged : f ∈ files
      · by_cases hsup : cur.supersededBy id edit.editedAt <;> simp [hstaged, hsup, hcur]
      · simp [hstaged, hcur]
  · have hset (o : FileOwner) : (owners.set file o).get? f = owners.get? f := Map.get?_set_ne _ _ hf
    rw [eq_comm, if_neg fun h => hf h.1]
    split_ifs
    · split
      · split_ifs
        · rw [hset]
        · rfl
      · rw [hset]
    · rfl

-- The owner made one of the claims on the file, and none of them comes after it.
def LastOf (cs : List (String × String × PendingEdit)) (f : String) (o : FileOwner) : Prop :=
  (∃ c ∈ cs, c.2.1 = f ∧ o = ⟨c.1, c.2.2.editedAt⟩) ∧
    ∀ c ∈ cs, c.2.1 = f → o.supersededBy c.1 c.2.2.editedAt = false

theorem LastOf.unique (h : LastOf cs f o) (h' : LastOf cs f o') : o = o' := by
  obtain ⟨⟨c, hc, hcf, rfl⟩, hlast⟩ := h
  obtain ⟨⟨c', hc', hcf', rfl⟩, hlast'⟩ := h'
  have hle := FileOwner.not_supersededBy_iff.mp (hlast c' hc' hcf')
  have hle' := FileOwner.not_supersededBy_iff.mp (hlast' c hc hcf)
  dsimp only at hle hle'
  have htime : c.2.2.editedAt = c'.2.2.editedAt := by omega
  rw [htime, lt_self_iff_false, false_or, and_iff_right rfl] at hle hle'
  rw [hle.antisymm hle', htime]

theorem get?_foldl_claimStaged (files : List String) (cs : List (String × String × PendingEdit)) :
    match (cs.foldl (claimStaged files) .empty).get? f with
    | some o => f ∈ files ∧ LastOf cs f o
    | none => f ∈ files → ∀ c ∈ cs, c.2.1 ≠ f := by
  induction cs using reverseRecOn with
  | nil => exact fun _ _ hc => absurd hc not_mem_nil
  | append_singleton cs c ih =>
    obtain ⟨id, file, edit⟩ := c
    rw [foldl_append, foldl_cons, foldl_nil, get?_claimStaged]
    generalize (cs.foldl (claimStaged files) .empty).get? f = owner at ih
    by_cases hmatch : f = file ∧ f ∈ files
    · obtain ⟨rfl, hf⟩ := hmatch
      rw [if_pos ⟨rfl, hf⟩]
      refine ⟨hf, ?_⟩
      cases owner with
      | none =>
        refine ⟨⟨(id, f, edit), by simp, rfl, rfl⟩, fun c hc hcf => ?_⟩
        rcases mem_append.mp hc with hc | hc
        · exact absurd hcf (ih hf c hc)
        · rw [mem_singleton.mp hc, FileOwner.not_supersededBy_iff]
          exact .inr ⟨rfl, le_rfl⟩
      | some cur =>
        obtain ⟨-, ⟨c', hc', hcf', rfl⟩, hlast⟩ := ih
        dsimp only
        split_ifs with hsup
        · rw [FileOwner.supersededBy_iff] at hsup
          refine ⟨⟨(id, f, edit), by simp, rfl, rfl⟩, fun c hc hcf => ?_⟩
          rw [FileOwner.not_supersededBy_iff]
          rcases mem_append.mp hc with hc | hc
          · have hle := FileOwner.not_supersededBy_iff.mp (hlast c hc hcf)
            dsimp only at hle hsup ⊢
            rcases hsup with hlt | ⟨heq, hid⟩
            · exact .inl (by omega)
            · rw [← heq]
              exact hle.imp_right fun h => ⟨h.1, hid.le.trans h.2⟩
          · rw [mem_singleton.mp hc]
            exact .inr ⟨rfl, le_rfl⟩
        · refine ⟨⟨c', by simp [hc'], hcf', rfl⟩, fun c hc hcf => ?_⟩
          rcases mem_append.mp hc with hc | hc
          · exact hlast c hc hcf
          · rw [mem_singleton.mp hc]
            exact Bool.not_eq_true _ ▸ hsup
    · rw [if_neg hmatch]
      have hother : ∀ c ∈ cs ++ [(id, file, edit)], f ∈ files → c.2.1 = f → c ∈ cs := by
        intro c hc hf hcf
        rcases mem_append.mp hc with hc | hc
        · exact hc
        · rw [mem_singleton.mp hc] at hcf
          exact absurd ⟨hcf.symm, hf⟩ hmatch
      cases owner with
      | none => exact fun hf c hc hcf => ih hf c (hother c hc hf hcf) hcf
      | some cur =>
        obtain ⟨hf, ⟨c', hc', hcf', rfl⟩, hlast⟩ := ih
        exact ⟨hf, ⟨c', by simp [hc'], hcf', rfl⟩, fun c hc hcf => hlast c (hother c hc hf hcf) hcf⟩

theorem get?_fileOwners : (fileOwners attrs files).get? f = some o ↔ f ∈ files ∧ LastOf (claims attrs) f o := by
  have hspec := get?_foldl_claimStaged (f := f) files (claims attrs)
  rw [← fileOwners_eq] at hspec
  cases howner : (fileOwners attrs files).get? f with rw [howner] at hspec
  | none =>
    refine iff_of_false nofun ?_
    rintro ⟨hf, ⟨c, hc, hcf, -⟩, -⟩
    exact hspec hf c hc hcf
  | some cur =>
    constructor
    · rintro ⟨⟩
      exact hspec
    · exact fun h => congrArg some (hspec.2.unique h.2)

theorem mem_matchSessionsToFiles_iff :
    id ∈ matchSessionsToFiles attrs files ↔ ∃ f ∈ files, ∃ t, LastOf (claims attrs) f ⟨id, t⟩ := by
  rw [matchSessionsToFiles, mem_sortedUnique, mem_map]
  constructor
  · rintro ⟨⟨f, o⟩, he, rfl⟩
    obtain ⟨hf, hlast⟩ := get?_fileOwners.mp ((Map.get?_eq_some_iff ..).mpr he)
    exact ⟨f, hf, o.editedAt, hlast⟩
  · rintro ⟨f, hf, t, hlast⟩
    exact ⟨(f, ⟨id, t⟩), (Map.get?_eq_some_iff ..).mp (get?_fileOwners.mpr ⟨hf, hlast⟩), rfl⟩

theorem mem_matchSessionsToFiles {attr : AILineAttribution} {edit : PendingEdit}
    (hattr : attr ∈ attrs) (hf : f ∈ files) (hedit : attr.pending.get? f = some edit)
    (hlast : ∀ other ∈ attrs, ∀ e, other.pending.get? f = some e →
      FileOwner.supersededBy ⟨attr.sessionID, edit.editedAt⟩ other.sessionID e.editedAt = false) :
    attr.sessionID ∈ matchSessionsToFiles attrs files := by
  refine mem_matchSessionsToFiles_iff.mpr ⟨f, hf, edit.editedAt,
    ⟨(attr.sessionID, f, edit), mem_claims.mpr ⟨attr, hattr, rfl, hedit⟩, rfl, rfl⟩, ?_⟩
  rintro ⟨id, file, e⟩ hc rfl
  obtain ⟨other, hother, rfl, he⟩ := mem_claims.mp hc
  exact hlast other hother e he

theorem mem_attrs_of_match (h : id ∈ matchSessionsToFiles attrs files) :
    ∃ attr ∈ attrs, attr.sessionID = id := by
  obtain ⟨-, -, -, ⟨⟨id, file, edit⟩, hc, -, ⟨⟩⟩, -⟩ := mem_matchSessionsToFiles_iff.mp h
  obtain ⟨attr, hattr, hid, -⟩ := mem_claims.mp hc
  exact ⟨attr, hattr, hid⟩

-- The session has the latest pending edit of the file, with the lowest ID among equals.
def Owns (attrs : List AILineAttribution) (f id : String) : Prop :=
  ∃ attr ∈ attrs, attr.sessionID = id ∧ ∃ edit, attr.pending.get? f = some edit ∧
    ∀ other ∈ attrs, ∀ e, other.pending.get? f = some e →
      e.editedAt < edit.editedAt ∨ e.editedAt = edit.editedAt ∧ id ≤ other.sessionID

theorem owns_iff : Owns attrs f id ↔ ∃ t, LastOf (claims attrs) f ⟨id, t⟩ := by
  constructor
  · rintro ⟨attr, hattr, rfl, edit, hedit, hlast⟩
    refine ⟨edit.editedAt, ⟨_, mem_claims.mpr ⟨attr, hattr, rfl, hedit⟩, rfl, rfl⟩, ?_⟩
    rintro ⟨id, file, e⟩ hc rfl
    obtain ⟨other, hother, rfl, he⟩ := mem_claims.mp hc
    exact FileOwner.not_supersededBy_iff.mpr (hlast other hother e he)
  · rintro ⟨t, ⟨⟨id, file, edit⟩, hc, rfl, ⟨⟩⟩, hlast⟩
    obtain ⟨attr, hattr, rfl, hedit⟩ := mem_claims.mp hc
    refine ⟨attr, hattr, rfl, edit, hedit, fun other hother e he => ?_⟩
    exact FileOwner.not_supersededBy_iff.mp (hlast _ (mem_claims.mpr ⟨other, hother, rfl, he⟩) rfl)

-- The same ledgers, read in another order and with their maps in another order.
def SameLedgers (attrs attrs' : List AILineAttribution) : Prop :=
  ∃ l, l.Perm attrs ∧ List.Forall₂ (fun a b => a.sessionID = b.sessionID ∧
    ∀ f, a.pending.get? f = b.pending.get? f) attrs' l

theorem SameLedgers.mem_claims (h : SameLedgers attrs attrs') : c ∈ claims attrs' ↔ c ∈ claims attrs := by
  obtain ⟨l, hperm, hsame⟩ := h
  obtain ⟨id, f, edit⟩ := c
  simp only [Trace.mem_claims, ← hperm.mem_iff]
  clear hperm
  induction hsame with
  | nil => rfl
  | cons hab _ ih => simp [ih, hab.1, hab.2]

theorem matched_sessions_own_staged_files (attrs : List AILineAttribution) (files : List String) :
    (matchSessionsToFiles attrs files).Pairwise (· < ·) ∧
      (∀ id, id ∈ matchSessionsToFiles attrs files ↔ ∃ f ∈ files, Owns attrs f id) ∧
      ∀ attrs' files', SameLedgers attrs attrs' → (∀ f, f ∈ files' ↔ f ∈ files) →
        matchSessionsToFiles attrs' files' = matchSessionsToFiles attrs files := by
  refine ⟨pairwise_sortedUnique _, fun id => ?_, fun attrs' files' hsame hfiles => ?_⟩
  · simp only [owns_iff]
    exact mem_matchSessionsToFiles_iff
  · refine sortedUnique_congr fun id => ?_
    rw [← mem_sortedUnique, ← mem_sortedUnique (l := map _ (fileOwners attrs files).entries)]
    change id ∈ matchSessionsToFiles attrs' files' ↔ id ∈ matchSessionsToFiles attrs files
    simp only [mem_matchSessionsToFiles_iff, LastOf, hsame.mem_claims, hfiles]

end Chainloop.Trace
