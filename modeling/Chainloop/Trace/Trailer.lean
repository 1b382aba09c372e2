import Chainloop.Go.Errors
import Chainloop.Go.Paths
import Chainloop.Trace.Ledger

namespace Chainloop.Trace

open Go Text
open List hiding contains_iff

def trailerKey : String := "Chainloop-Trace-Sessions"

def trailerMark : String := trailerKey ++ ":"

def validSessionID (id : String) : Bool :=
  id != "" && id != "." && id != ".." && baseName id == id

def cutStart (s start : String) : Option String :=
  if startsWith s start then some (trimStart s start) else none

def trailerValues (values : String) : List String :=
  ((splitString "," values).map trimSpace).filter validSessionID

def trailerLine (line : String) : List String :=
  match cutStart line trailerMark with
  | none => []
  | some values => trailerValues values

def parseSessionIDsFromTrailer (message : String) : List String :=
  sortedUnique ((splitString "\n" message).flatMap trailerLine)

def mergeSessionIDs (a b : List String) : List String := sortedUnique (a ++ b)

def trailerOf (sessionIDs : List String) : String :=
  trailerKey ++ ": " ++ ", ".intercalate sessionIDs ++ "\n"

def appendTrailer (msg : String) (sessionIDs : List String) : String :=
  if Text.contains trailerMark.toList msg.toList then msg
  else trimRight (· == '\n') msg ++ "\n\n" ++ trailerOf sessionIDs

structure CommitHook where
  mergeInProgress : Bool
  authorDate : Option String
  headAuthorTime : Option Int
  headMessage : Except GoError String
  attrs : Except GoError (List AILineAttribution)
  stagedFiles : Except GoError (List String)

def isAmendOfHead (h : CommitHook) : Bool :=
  match h.authorDate, h.headAuthorTime with
  | some date, some head =>
    match cutStart date "@" with
    | none => false
    | some raw =>
      match (splitN2 " " raw).head?.bind parseInt64 with
      | none => false
      | some authored => head == authored
  | _, _ => false

def hookSessions (h : CommitHook) : Except GoError (List String) := do
  let kept ←
    if isAmendOfHead h then
      (wrapErr "get HEAD commit" h.headMessage).map parseSessionIDsFromTrailer
    else .ok []
  let attrs ← wrapErr "load AI line attributions" h.attrs
  if attrs = [] then return kept
  let stagedFiles ← wrapErr "get staged files" h.stagedFiles
  return mergeSessionIDs kept (matchSessionsToFiles attrs stagedFiles)

def commitMessage (msg : String) (sessionIDs : List String) : String :=
  if sessionIDs = [] then msg else appendTrailer msg sessionIDs

-- An error of the hook is logged, and the message stays as it is.
def handleCommitMsg (h : CommitHook) (msg : String) : String :=
  if h.mergeInProgress then msg
  else match hookSessions h with
    | .error _ => msg
    | .ok sessionIDs => commitMessage msg sessionIDs

-- The sessions of the post-commit record: those of the trailer, or, without one, those
-- with pending work in the committed files.
def postCommitSessions (message : String) (attrs : List AILineAttribution) (files : List String) :
    List String :=
  let sessionIDs := parseSessionIDsFromTrailer message
  if sessionIDs = [] then matchSessionsToFiles attrs files else sessionIDs

-- An ID that the agents use: a path element without commas and whitespace.
def PlainID (id : String) : Prop :=
  validSessionID id = true ∧ ',' ∉ id.toList ∧ ∀ c ∈ id.toList, isSpace c = false

instance (id : String) : Decidable (PlainID id) :=
  have : Decidable (∀ c ∈ id.toList, isSpace c = false) := decidableBAll _ _
  inferInstanceAs (Decidable (_ ∧ _))

theorem PlainID.ne_empty {id : String} (h : PlainID id) : id.toList ≠ [] := by
  intro he
  have hempty : id = "" := String.toList_inj.mp he
  have hvalid := h.1
  rw [hempty] at hvalid
  cases hvalid

theorem trimSpace_plain {id : String} (hne : id.toList ≠ [])
    (hspace : ∀ c ∈ id.toList, isSpace c = false) : trimSpace (" " ++ id) = id := by
  have hlist : (" " ++ id).toList = ' ' :: id.toList := by simp
  have hstay (l : List Char) : l ≠ [] → (∀ c ∈ l, isSpace c = false) → l.dropWhile isSpace = l := by
    intro hl hl'
    cases l with
    | nil => exact absurd rfl hl
    | cons c rest => rw [dropWhile_cons, if_neg (by simp [hl' c mem_cons_self])]
  have hright : ((' ' :: id.toList).reverse.dropWhile isSpace).reverse = ' ' :: id.toList := by
    have hrev : (' ' :: id.toList).reverse.dropWhile isSpace = (' ' :: id.toList).reverse := by
      rw [reverse_cons, dropWhile_append]
      have hrest := hstay id.toList.reverse (by simpa using hne) fun c hc => hspace c (by simpa using hc)
      rw [hrest, if_neg (by simpa using hne)]
    rw [hrev, reverse_reverse]
  have hblank : isSpace ' ' = true := by decide
  rw [trimSpace, trimRight, String.toList_ofList, hlist, hright, dropWhile_cons, if_pos hblank,
    hstay id.toList hne hspace, String.ofList_toList]

theorem trailerValues_ids (ids : List String) (hids : ∀ id ∈ ids, PlainID id) :
    trailerValues (" " ++ ", ".intercalate ids) = ids := by
  have hcomma : ",".toList = [','] := rfl
  unfold trailerValues splitString
  rw [hcomma]
  induction ids with
  | nil => decide
  | cons id rest ih =>
    obtain ⟨hplain, hrest⟩ := forall_mem_cons.mp hids
    have hno : ',' ∉ (" " ++ id).toList := by simpa using hplain.2.1
    have hvalue : trimSpace (" " ++ id) = id := trimSpace_plain hplain.ne_empty hplain.2.2
    cases rest with
    | nil =>
      have htext : " " ++ ", ".intercalate [id] = " " ++ id := by simp
      rw [htext, split_of_not_mem hno]
      simp [hvalue, hplain.1]
    | cons id' rest =>
      have htext : (" " ++ ", ".intercalate (id :: id' :: rest)).toList =
          (" " ++ id).toList ++ ',' :: (" " ++ ", ".intercalate (id' :: rest)).toList := by
        simp
      rw [htext, split_of_cut hno, map_cons, map_cons, filter_cons,
        String.ofList_toList, hvalue, if_pos hplain.1, ih hrest]

theorem trailerLines_of_absent {text : List Char} (h : ¬ trailerMark.toList <:+: text) :
    (((split ['\n'] text).map String.ofList).flatMap trailerLine) = [] := by
  refine flatMap_eq_nil_iff.mpr fun line hline => ?_
  obtain ⟨part, hpart, rfl⟩ := mem_map.mp hline
  have hinfix := infix_of_mem_split hpart
  have hstart : startsWith (String.ofList part) trailerMark = false := by
    rw [← Bool.not_eq_true]
    intro hstart
    rw [startsWith, String.toList_ofList, isPrefixOf_iff_prefix] at hstart
    exact h (hstart.isInfix.trans hinfix)
  rw [trailerLine, cutStart, hstart]
  rfl

theorem trailerLine_self (values : String) :
    trailerLine (trailerMark ++ values) = trailerValues values := by
  have hstart : startsWith (trailerMark ++ values) trailerMark = true := by
    rw [startsWith, isPrefixOf_iff_prefix, String.toList_append]
    exact prefix_append _ _
  have hrest : trimStart (trailerMark ++ values) trailerMark = values := by
    rw [trimStart, if_pos hstart, String.toList_append, drop_left, String.ofList_toList]
  rw [trailerLine, cutStart, if_pos hstart, hrest]

theorem not_mem_intercalate {sep : String} (hsep : c ∉ sep.toList) (hl : ∀ s ∈ l, c ∉ s.toList) :
    c ∉ (sep.intercalate l).toList := by
  induction l with
  | nil => simp
  | cons s rest ih =>
    obtain ⟨hs, hrest⟩ := forall_mem_cons.mp hl
    cases rest with
    | nil => simpa [String.intercalate_singleton] using hs
    | cons s' rest =>
      rw [String.intercalate_cons_cons, String.toList_append, String.toList_append]
      simp only [mem_append, not_or]
      exact ⟨⟨hs, hsep⟩, ih hrest⟩

theorem parse_appended {msg : String} (hids : ∀ id ∈ ids, PlainID id)
    (habsent : ¬ trailerMark.toList <:+: msg.toList) :
    parseSessionIDsFromTrailer (trimRight (· == '\n') msg ++ "\n\n" ++ trailerOf ids) =
      sortedUnique ids := by
  have hnewline : "\n".toList = ['\n'] := rfl
  have htext : (trimRight (· == '\n') msg ++ "\n\n" ++ trailerOf ids).toList =
      (trimRight (· == '\n') msg).toList ++ '\n' :: ([] ++ '\n' ::
        ((trailerMark ++ (" " ++ ", ".intercalate ids)).toList ++ '\n' :: [])) := by
    simp [trailerOf, trailerMark]
  have hline : '\n' ∉ (trailerMark ++ (" " ++ ", ".intercalate ids)).toList := by
    have hkey : '\n' ∉ trailerMark.toList := by decide
    have hblank : '\n' ∉ " ".toList := by decide
    have hjoin : '\n' ∉ (", ".intercalate ids).toList := by
      refine not_mem_intercalate (by decide) fun id hid hmem => ?_
      have hspace := (hids id hid).2.2 '\n' hmem
      cases hspace
    rw [String.toList_append, String.toList_append]
    simp only [mem_append, not_or]
    exact ⟨hkey, hblank, hjoin⟩
  have hkept : ¬ trailerMark.toList <:+: (trimRight (· == '\n') msg).toList := by
    intro h
    refine habsent (h.trans (List.IsPrefix.isInfix ?_))
    rw [trimRight]
    exact reverse_suffix.mp (by simpa using dropWhile_suffix _)
  unfold parseSessionIDsFromTrailer splitString
  rw [hnewline, htext, split_append, split_append, split_append, split_of_not_mem hline,
    map_append, flatMap_append, trailerLines_of_absent hkept]
  have hempty : trailerLine "" = [] := by decide
  simp only [split, splitFrom, map_append, map_cons, map_nil, flatMap_append,
    flatMap_cons, flatMap_nil, nil_append, append_nil, String.ofList_nil, hempty,
    String.ofList_toList, trailerLine_self, trailerValues_ids ids hids]

theorem parse_commitMessage_iff (msg : String) (hids : ∀ id ∈ ids, PlainID id) :
    parseSessionIDsFromTrailer (commitMessage msg ids) =
        mergeSessionIDs (parseSessionIDsFromTrailer msg) ids ↔
      (Text.contains trailerMark.toList msg.toList = true →
        ∀ id ∈ ids, id ∈ parseSessionIDsFromTrailer msg) := by
  have hunchanged : parseSessionIDsFromTrailer msg =
        mergeSessionIDs (parseSessionIDsFromTrailer msg) ids ↔
      ∀ id ∈ ids, id ∈ parseSessionIDsFromTrailer msg := by
    constructor
    · intro h id hid
      rw [h, mergeSessionIDs, mem_sortedUnique]
      exact mem_append_right _ hid
    · intro h
      refine sortedUnique_congr fun id => ?_
      rw [mem_append, ← mem_sortedUnique]
      exact ⟨.inl, fun hid => hid.elim (fun hmem => hmem) (h id)⟩
  unfold commitMessage appendTrailer
  split_ifs with hnone hcontains
  · subst hnone
    rw [hunchanged]
    simp
  · rw [hunchanged]
    simp [hcontains]
  · have habsent : ¬ trailerMark.toList <:+: msg.toList := by
      rwa [← contains_iff]
    have hno : parseSessionIDsFromTrailer msg = [] := by
      have hlines := trailerLines_of_absent habsent
      have hnewline : "\n".toList = ['\n'] := rfl
      rw [parseSessionIDsFromTrailer, splitString, hnewline, hlines]
      rfl
    rw [parse_appended hids habsent, hno]
    simp [hcontains, mergeSessionIDs]

theorem mem_postCommitSessions {message id : String} (h : id ∈ parseSessionIDsFromTrailer message)
    (attrs : List AILineAttribution) (files : List String) :
    id ∈ postCommitSessions message attrs files := by
  rw [postCommitSessions, if_neg (ne_nil_of_mem h)]
  exact h

theorem trailer_holds_union_iff (msg : String) (ids : List String) (hids : ∀ id ∈ ids, PlainID id) :
    (parseSessionIDsFromTrailer (commitMessage msg ids) =
        mergeSessionIDs (parseSessionIDsFromTrailer msg) ids ↔
      (Text.contains trailerMark.toList msg.toList = true →
        ∀ id ∈ ids, id ∈ parseSessionIDsFromTrailer msg)) ∧
      ((Text.contains trailerMark.toList msg.toList = true →
          ∀ id ∈ ids, id ∈ parseSessionIDsFromTrailer msg) →
        ∀ attrs files, ∀ id ∈ ids, id ∈ postCommitSessions (commitMessage msg ids) attrs files) := by
  refine ⟨parse_commitMessage_iff msg hids, fun h attrs files id hid => ?_⟩
  refine mem_postCommitSessions ?_ attrs files
  rw [(parse_commitMessage_iff msg hids).mpr h, mergeSessionIDs, mem_sortedUnique]
  exact mem_append_right _ hid

theorem trailer_of_two_sessions : (∀ id ∈ ["s1", "s2"], PlainID id) ∧
    parseSessionIDsFromTrailer (commitMessage "fix: bug\n" ["s1", "s2"]) =
      mergeSessionIDs (parseSessionIDsFromTrailer "fix: bug\n") ["s1", "s2"] ∧
    ∀ attrs files, ∀ id ∈ ["s1", "s2"],
      id ∈ postCommitSessions (commitMessage "fix: bug\n" ["s1", "s2"]) attrs files := by
  have hids : ∀ id ∈ ["s1", "s2"], PlainID id := by decide +kernel
  obtain ⟨hiff, hcredited⟩ := trailer_holds_union_iff "fix: bug\n" ["s1", "s2"] hids
  exact ⟨hids, hiff.mpr (by decide +kernel), hcredited (by decide +kernel)⟩

theorem mention_of_key_loses_session : PlainID "s1" ∧
    parseSessionIDsFromTrailer "docs: explain the Chainloop-Trace-Sessions: line\n" = [] ∧
    parseSessionIDsFromTrailer
        (commitMessage "docs: explain the Chainloop-Trace-Sessions: line\n" ["s1"]) ≠
      mergeSessionIDs
        (parseSessionIDsFromTrailer "docs: explain the Chainloop-Trace-Sessions: line\n") ["s1"] := by
  decide +kernel

end Chainloop.Trace
