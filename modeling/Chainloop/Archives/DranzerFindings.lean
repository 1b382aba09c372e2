import Mathlib.Order.WellFounded
import Chainloop.Text.Captures
import Chainloop.Archives.Dranzer

namespace Chainloop.Archives.Dranzer

open Go Text List Nat

variable {α : Type} {data : List UInt8} {code message : String}

def linesOf (data : List UInt8) : List Line :=
  let raw := String.ofList (validRunes data.length data)
  (splitString "\n" (replaceAll "\r\n" "\n" raw)).map classify

namespace Line

def isFailure : Line → Bool
  | failure _ _ => true
  | _ => false

def isViolation : Line → Bool
  | violation _ _ _ => true
  | _ => false

def isException : Line → Bool
  | exception _ _ _ => true
  | _ => false

end Line

section Past

-- A failure header waits for its error until an error or an object comes.
def waits : List Line → Bool
  | [] => false
  | .failure _ _ :: _ => true
  | .object _ _ :: _ => false
  | .error _ _ :: _ => false
  | _ :: past => waits past

def unclaimedErrors : List Line → Nat
  | [] => 0
  | .error _ _ :: past => unclaimedErrors past + if waits past then 0 else 1
  | _ :: past => unclaimedErrors past

def findingCount (past : List Line) : Nat :=
  past.countP Line.isFailure + past.countP Line.isViolation + past.countP Line.isException +
    unclaimedErrors past

def headerPlace : List Line → Nat
  | [] => 0
  | .failure _ _ :: past => findingCount past
  | _ :: past => headerPlace past

def errorPlace (past : List Line) : Nat :=
  if waits past then headerPlace past else findingCount past

variable (rt : Runtime)

def full (n : Nat) : Bool := (range (n + 1)).any fun k => rt.grow^[k] 0 = n

-- The findings were moved to a larger slice since the header that waits.
def moved : List Line → Bool
  | [] => false
  | .failure _ _ :: _ => false
  | .object _ _ :: _ => false
  | .error _ _ :: _ => false
  | .violation _ _ _ :: past => waits past && (moved past || full rt (findingCount past))
  | .exception _ _ _ :: past => waits past && (moved past || full rt (findingCount past))
  | _ :: past => moved past

def texts : List Line → List (String × String)
  | [] => []
  | .failure _ _ :: past => texts past ++ [("", "")]
  | .violation message _ _ :: past => texts past ++ [(message, "")]
  | .exception message code _ :: past => texts past ++ [(message, code)]
  | .error message code :: past =>
    if waits past then
      if moved rt past then texts past else (texts past).set (headerPlace past) (message, code)
    else texts past ++ [(message, code)]
  | _ :: past => texts past

def adds (past : List Line) : Line → Nat
  | .failure _ _ => 1
  | .violation _ _ _ => 1
  | .exception _ _ _ => 1
  | .error _ _ => if waits past then 0 else 1
  | _ => 0

theorem findingCount_cons (line : Line) (past : List Line) :
    findingCount (line :: past) = findingCount past + adds past line := by
  unfold findingCount
  cases line <;>
    simp only [unclaimedErrors, countP_cons, adds, Line.isFailure, Line.isViolation,
      Line.isException] <;> simp <;> omega

theorem length_texts (past : List Line) : (texts rt past).length = findingCount past := by
  induction past with
  | nil => rfl
  | cons line past ih =>
    rw [findingCount_cons]
    cases line with
    | error message code =>
      rw [texts]
      cases hwaits : waits past <;> cases hmoved : moved rt past <;> simp [ih, adds, hwaits]
    | _ => simp [texts, ih, adds]

end Past

section Slice

variable {rt : Runtime}

-- The capacity of a slice that has grown from an empty one to so many elements.
def Fits (rt : Runtime) (capacity n : Nat) : Prop :=
  ∃ k, capacity = rt.grow^[k] 0 ∧ n ≤ capacity ∧ ∀ j < k, rt.grow^[j] 0 < n

theorem grow_iterate_strictMono (rt : Runtime) : StrictMono fun k => rt.grow^[k] 0 :=
  strictMono_nat_of_lt_succ fun k => by
    rw [Function.iterate_succ_apply']
    exact rt.grows _

theorem full_iff : full rt n = true ↔ ∃ k, rt.grow^[k] 0 = n := by
  simp only [full, any_eq_true, mem_range, decide_eq_true_eq]
  constructor
  · rintro ⟨k, -, hk⟩
    exact ⟨k, hk⟩
  · rintro ⟨k, hk⟩
    have hle : k ≤ rt.grow^[k] 0 := (grow_iterate_strictMono rt).le_apply
    exact ⟨k, by omega, hk⟩

theorem Fits.full_iff (h : Fits rt capacity n) : n = capacity ↔ full rt n = true := by
  obtain ⟨k, rfl, hle, hlt⟩ := h
  rw [Dranzer.full_iff]
  constructor
  · exact fun heq => ⟨k, heq.symm⟩
  · rintro ⟨j, rfl⟩
    obtain hj | rfl | hj := lt_trichotomy j k
    · exact absurd (hlt j hj) (lt_irrefl _)
    · rfl
    · exact absurd (grow_iterate_strictMono rt hj) (not_lt.mpr hle)

theorem Fits.append (h : Fits rt capacity n) :
    Fits rt (if n = capacity then rt.grow capacity else capacity) (n + 1) := by
  obtain ⟨k, rfl, hle, hlt⟩ := h
  split_ifs with heq
  · refine ⟨k + 1, (Function.iterate_succ_apply' _ _ _).symm, ?_, ?_⟩
    · have hgrow := rt.grows (rt.grow^[k] 0)
      omega
    · intro j hj
      have hmono : rt.grow^[j] 0 ≤ rt.grow^[k] 0 :=
        (grow_iterate_strictMono rt).monotone (Nat.lt_succ_iff.mp hj)
      omega
  · exact ⟨k, rfl, by omega, fun j hj => lt_succ_of_lt (hlt j hj)⟩

end Slice

section Run

variable {rt : Runtime} {past : List Line} {s : ParseState}

def Finding.text (f : Finding) : String × String := (f.errorMessage, f.errorCode)

theorem text_inlineFinding (o : Option Object) (f : Finding) : (inlineFinding o f).text = f.text := by
  cases o <;> rfl

theorem map_modify_eq_set {β : Type} {f : α → β} {g : α → α} {y : β} (h : ∀ x, f (g x) = y)
    (l : List α) (i : Nat) : (l.modify i g).map f = (l.map f).set i y := by
  induction l generalizing i with
  | nil => simp
  | cons x rest ih =>
    cases i with
    | zero => simp [h]
    | succ i => simp [ih]

-- What the lines say about the findings of the parser, their slice and the pointer into it.
structure Tracks (rt : Runtime) (past : List Line) (s : ParseState) : Prop where
  texts : s.report.findings.map Finding.text = Dranzer.texts rt past
  fits : Fits rt s.capacity s.report.findings.length
  pending : s.pending = if waits past then some ⟨headerPlace past, !moved rt past⟩ else none

section
variable (h : Tracks rt past s)
include h

theorem Tracks.length : s.report.findings.length = findingCount past := by
  rw [← length_texts rt, ← h.texts, length_map]

theorem Tracks.length_eq_capacity :
    s.report.findings.length = s.capacity ↔ full rt (findingCount past) = true := by
  rw [h.fits.full_iff, h.length]

theorem Tracks.fits_addFinding (f : Finding) :
    Fits rt (s.addFinding rt f).capacity (s.addFinding rt f).report.findings.length := by
  have hlength : (s.addFinding rt f).report.findings.length = s.report.findings.length + 1 := by
    simp [ParseState.addFinding]
  rw [hlength]
  exact h.fits.append

theorem Tracks.texts_addFinding (f : Finding) :
    (s.addFinding rt f).report.findings.map Finding.text = Dranzer.texts rt past ++ [f.text] := by
  simp [ParseState.addFinding, h.texts]

theorem Tracks.pending_addFinding (f : Finding) : (s.addFinding rt f).pending = if waits past then
      some ⟨headerPlace past, !(moved rt past || full rt (findingCount past))⟩ else none := by
  unfold ParseState.addFinding
  rw [h.pending]
  cases hwaits : waits past with
  | false => simp
  | true =>
    by_cases hfull : s.report.findings.length = s.capacity
    · simp [hfull, h.length_eq_capacity.mp hfull]
    · have hnot : full rt (findingCount past) = false :=
        Bool.eq_false_iff.mpr fun ht => hfull (h.length_eq_capacity.mpr ht)
      simp [hfull, hnot]

theorem Tracks.detail {f : Finding}
    (htexts : Dranzer.texts rt (line :: past) = Dranzer.texts rt past ++ [f.text])
    (hwaits : waits (line :: past) = waits past)
    (hplace : headerPlace (line :: past) = headerPlace past)
    (hmoved : moved rt (line :: past) =
      (waits past && (moved rt past || full rt (findingCount past)))) :
    Tracks rt (line :: past) (s.addFinding rt f) where
  texts := by rw [h.texts_addFinding, htexts]
  fits := h.fits_addFinding f
  pending := by
    rw [h.pending_addFinding, hwaits, hplace, hmoved]
    cases waits past <;> rfl

theorem Tracks.failure (clsid className : String) :
    Tracks rt (.failure clsid className :: past) (s.step rt (.failure clsid className)) where
  texts := h.texts_addFinding _
  fits := h.fits_addFinding _
  pending := by simp [ParseState.step, waits, headerPlace, moved, h.length]

theorem Tracks.error (message code : String) :
    Tracks rt (.error message code :: past) (s.step rt (.error message code)) := by
  have hpending := h.pending
  change Tracks rt _ (s.addError rt message code)
  unfold ParseState.addError
  cases hwaits : waits past with rw [hwaits] at hpending
  | false =>
    rw [show s.pending = none from hpending]
    refine ⟨?_, h.fits_addFinding _, ?_⟩
    · rw [h.texts_addFinding, text_inlineFinding, Dranzer.texts, hwaits]
      rfl
    · rw [h.pending_addFinding, hwaits]
      rfl
  | true =>
    rw [show s.pending = some ⟨headerPlace past, !moved rt past⟩ from hpending]
    cases hmoved : moved rt past with
    | true =>
      refine ⟨?_, h.fits, rfl⟩
      rw [Dranzer.texts, hwaits, hmoved]
      exact h.texts
    | false =>
      refine ⟨?_, ?_, rfl⟩
      · rw [Dranzer.texts, hwaits, hmoved, ← h.texts]
        exact map_modify_eq_set (f := Finding.text) (y := (message, code)) (fun _ => rfl) _ _
      · simpa using h.fits

theorem Tracks.step (line : Line) : Tracks rt (line :: past) (s.step rt line) := by
  cases line with
  | skipped => exact ⟨h.texts, h.fits, h.pending⟩
  | counter label value =>
    rw [ParseState.step]
    exact ⟨h.texts, h.fits, h.pending⟩
  | object clsid description => exact ⟨h.texts, h.fits, rfl⟩
  | method signature => exact ⟨h.texts, h.fits, h.pending⟩
  | violation message address access =>
    exact h.detail (by rw [text_inlineFinding]; rfl) rfl rfl rfl
  | exception message code address =>
    exact h.detail (by rw [text_inlineFinding]; rfl) rfl rfl rfl
  | failure clsid className => exact h.failure clsid className
  | error message code => exact h.error message code
  | banner => exact ⟨h.texts, h.fits, h.pending⟩
  | other text =>
    rw [ParseState.step, ParseState.addMetadata]
    split <;> exact ⟨h.texts, h.fits, h.pending⟩

end

theorem tracks_start (rt : Runtime) (raw : String) : Tracks rt [] (parseStart raw) where
  texts := rfl
  fits := ⟨0, rfl, le_rfl, fun j hj => absurd hj (not_lt_zero j)⟩
  pending := rfl

theorem tracks_foldl (lines : List Line) (h : Tracks rt past s) :
    Tracks rt (lines.reverse ++ past) (lines.foldl (fun s line => s.step rt line) s) := by
  induction lines generalizing past s with
  | nil => exact h
  | cons line rest ih =>
    rw [reverse_cons, append_assoc]
    exact ih (h.step line)

theorem texts_parse (rt : Runtime) (data : List UInt8) :
    (parse rt data).findings.map Finding.text = texts rt (linesOf data).reverse := by
  have htracks := tracks_foldl (linesOf data)
    (tracks_start rt (String.ofList (validRunes data.length data)))
  rw [append_nil] at htracks
  rw [← htracks.texts, parse, linesOf, foldl_map]

end Run

section Errors

variable (rt : Runtime)

theorem classify_eq_error (h : classify line = .error message code) :
    ∃ m, errorRe.submatch (trimSpace line) = some m ∧ code = m 2 := by
  unfold classify at h
  dsimp only at h
  -- the expressions of the other lines come first, and the last two are no errors either
  split at h
  · cases h
  · repeat' split at h
    all_goals first | cases h; exact ⟨_, by assumption, rfl⟩ | cases h

theorem code_ne_empty (h : classify line = .error message code) : code ≠ "" := by
  obtain ⟨m, hm, rfl⟩ := classify_eq_error h
  exact Regex.submatch_ne_empty (by decide +kernel) hm

theorem code_ne_empty_of_mem (h : .error message code ∈ linesOf data) : code ≠ "" := by
  obtain ⟨line, -, hline⟩ := mem_map.mp h
  exact code_ne_empty hline

theorem getElem?_append_of_some {l t : List α} {i : Nat} {x : α} (h : l[i]? = some x) :
    (l ++ t)[i]? = some x := by
  rw [List.getElem?_append_left (List.getElem?_eq_some_iff.mp h).1, h]

variable {past : List Line}

theorem getElem?_headerPlace (h : waits past = true) :
    (texts rt past)[headerPlace past]? = some ("", "") := by
  induction past with
  | nil => cases h
  | cons line past ih =>
    cases line with
    | failure clsid className =>
      rw [headerPlace, ← length_texts rt past]
      exact getElem?_concat_length
    | object clsid description => cases h
    | error message code => cases h
    | violation message address access => exact getElem?_append_of_some (ih h)
    | exception message code address => exact getElem?_append_of_some (ih h)
    | _ => exact ih h

theorem headerPlace_lt (h : waits past = true) : headerPlace past < findingCount past := by
  rw [← length_texts ⟨id, succ, lt_succ_self⟩]
  exact (List.getElem?_eq_some_iff.mp (getElem?_headerPlace _ h)).1

structure Filed (place : Nat) (past : List Line) : Prop where
  there : place < findingCount past
  free : waits past = true → headerPlace past ≠ place

theorem Filed.step {place : Nat} (h : Filed place past) (line : Line) :
    Filed place (line :: past) ∧ (texts rt (line :: past))[place]? = (texts rt past)[place]? := by
  have hlt : place < (texts rt past).length := (length_texts rt past).symm ▸ h.there
  have hthere : place < findingCount (line :: past) := by
    rw [findingCount_cons]
    exact Nat.lt_add_right _ h.there
  cases line with
  | failure clsid className =>
    exact ⟨⟨hthere, fun _ => ne_of_gt h.there⟩, getElem?_append_left hlt⟩
  | object clsid description => exact ⟨⟨hthere, fun hwaits => nomatch hwaits⟩, rfl⟩
  | violation message address access =>
    exact ⟨⟨hthere, h.free⟩, getElem?_append_left hlt⟩
  | exception message code address =>
    exact ⟨⟨hthere, h.free⟩, getElem?_append_left hlt⟩
  | error message code =>
    refine ⟨⟨hthere, fun hwaits => nomatch hwaits⟩, ?_⟩
    rw [texts]
    split_ifs with hwaits hmoved
    · rfl
    · exact getElem?_set_ne (h.free hwaits)
    · exact getElem?_append_left hlt
  | _ => exact ⟨⟨hthere, h.free⟩, rfl⟩

theorem Filed.append (h : Filed place past) (newer : List Line) : Filed place (newer ++ past) ∧
      (texts rt (newer ++ past))[place]? = (texts rt past)[place]? := by
  induction newer with
  | nil => exact ⟨h, rfl⟩
  | cons line newer ih =>
    obtain ⟨hfiled, hsame⟩ := ih.1.step rt line
    exact ⟨hfiled, hsame.trans ih.2⟩

theorem filed_errorPlace (past : List Line) (message code : String) :
    Filed (errorPlace past) (.error message code :: past) := by
  refine ⟨?_, fun hwaits => nomatch hwaits⟩
  rw [findingCount_cons, errorPlace, adds]
  cases hwaits : waits past with
  | true => simpa using headerPlace_lt hwaits
  | false => simp

theorem waits_of_moved (h : moved rt past = true) : waits past = true := by
  induction past with
  | nil => cases h
  | cons line past ih =>
    cases line with
    | failure clsid className => rfl
    | object clsid description => cases h
    | error message code => cases h
    | violation message address access => exact (Bool.and_eq_true _ _ |>.mp h).1
    | exception message code address => exact (Bool.and_eq_true _ _ |>.mp h).1
    | _ => exact ih h

theorem not_moved_of_not_waits (h : waits past = false) : moved rt past = false := by
  cases hmoved : moved rt past with
  | false => rfl
  | true => exact absurd (waits_of_moved rt hmoved) (by simp [h])

theorem getElem?_errorPlace (past : List Line) (message code : String) :
    (texts rt (.error message code :: past))[errorPlace past]? =
      some (if moved rt past then ("", "") else (message, code)) := by
  rw [texts, errorPlace]
  cases hwaits : waits past with
  | false =>
    rw [not_moved_of_not_waits rt hwaits, ← length_texts rt past]
    exact getElem?_concat_length
  | true =>
    have hheader := getElem?_headerPlace rt hwaits
    cases hmoved : moved rt past with
    | true => simpa using hheader
    | false =>
      have hlt := (List.getElem?_eq_some_iff.mp hheader).1
      simpa using getElem?_set_self hlt

theorem mem_set_iff {l : List α} {i : Nat} {x y z : α} (hi : l[i]? = some z)
    (hx : x ≠ z) : x ∈ l.set i y ↔ x = y ∨ x ∈ l := by
  induction l generalizing i with
  | nil => cases hi
  | cons a rest ih =>
    cases i with
    | zero =>
      obtain rfl : a = z := by simpa using hi
      simp [hx]
    | succ i =>
      rw [set_cons_succ, mem_cons, mem_cons, ih hi]
      tauto

theorem mem_texts_cons {line : Line} (hcode : code ≠ "") :
    (message, code) ∈ texts rt (line :: past) ↔
      (line = .error message code ∧ moved rt past = false) ∨
        (∃ address, line = .exception message code address) ∨ (message, code) ∈ texts rt past := by
  have hne : (message, code) ≠ ("", "") := fun h => hcode (Prod.mk.inj h).2
  cases line with
  | failure clsid className => simp [texts, hcode]
  | violation m address access => simp [texts, hcode]
  | exception m c address =>
    simp only [texts, mem_append, mem_singleton, Prod.mk.injEq]
    constructor
    · rintro (h | ⟨rfl, rfl⟩)
      · exact .inr (.inr h)
      · exact .inr (.inl ⟨address, rfl⟩)
    · rintro (⟨h, -⟩ | ⟨a, h⟩ | h)
      · cases h
      · cases h
        exact .inr ⟨rfl, rfl⟩
      · exact .inl h
  | error m c =>
    rw [texts]
    cases hwaits : waits past with
    | false => simp [not_moved_of_not_waits rt hwaits, or_comm, eq_comm]
    | true =>
      cases hmoved : moved rt past with
      | true => simp
      | false =>
        have hset : (message, code) ∈ (texts rt past).set (headerPlace past) (m, c) ↔
            (message, code) = (m, c) ∨ (message, code) ∈ texts rt past :=
          mem_set_iff (getElem?_headerPlace rt hwaits) hne
        simpa [eq_comm] using hset
  | _ => simp [texts]

-- An error is among the texts if it was written to a finding that was not moved away, or if an
-- exception says the same.
theorem mem_texts_iff (hcode : code ≠ "") : (message, code) ∈ texts rt past ↔
      (∃ older, (.error message code :: older) <:+ past ∧ moved rt older = false) ∨
        ∃ address, .exception message code address ∈ past := by
  induction past with
  | nil => simp [texts]
  | cons line past ih =>
    rw [mem_texts_cons rt hcode, ih]
    constructor
    · rintro (⟨rfl, hmoved⟩ | ⟨address, rfl⟩ | ⟨older, holder, hmoved⟩ | ⟨address, h⟩)
      · exact .inl ⟨past, suffix_rfl, hmoved⟩
      · exact .inr ⟨address, mem_cons_self⟩
      · exact .inl ⟨older, holder.trans (suffix_cons line past), hmoved⟩
      · exact .inr ⟨address, mem_cons_of_mem _ h⟩
    · rintro (⟨older, holder, hmoved⟩ | ⟨address, h⟩)
      · obtain h | h := suffix_cons_iff.mp holder
        · cases h
          exact .inl ⟨rfl, hmoved⟩
        · exact .inr (.inr (.inl ⟨older, h, hmoved⟩))
      · obtain rfl | h := mem_cons.mp h
        · exact .inr (.inl ⟨address, rfl⟩)
        · exact .inr (.inr (.inr ⟨address, h⟩))

structure KeepsErrors (data : List UInt8) (report : Report) : Prop where
  count : report.findings.length = findingCount (linesOf data).reverse
  errors : ∀ message code, .error message code ∈ linesOf data →
    ∃ f ∈ report.findings, f.errorMessage = message ∧ f.errorCode = code

-- The error of each line is in the finding that it belongs to, so that no two share one.
structure KeepsOwnErrors (data : List UInt8) (report : Report) : Prop where
  count : report.findings.length = findingCount (linesOf data).reverse
  errors : ∀ message code past, (.error message code :: past) <:+ (linesOf data).reverse →
    ∃ f, report.findings[errorPlace past]? = some f ∧ f.errorMessage = message ∧ f.errorCode = code

theorem length_findings_parse (data : List UInt8) :
    (parse rt data).findings.length = findingCount (linesOf data).reverse := by
  rw [← length_texts rt, ← texts_parse, length_map]

theorem mem_findings_parse :
    (∃ f ∈ (parse rt data).findings, f.errorMessage = message ∧ f.errorCode = code) ↔
      (message, code) ∈ texts rt (linesOf data).reverse := by
  rw [← texts_parse, mem_map]
  simp [Finding.text]

theorem getElem?_findings_parse {place : Nat} :
    (∃ f, (parse rt data).findings[place]? = some f ∧ f.errorMessage = message ∧
        f.errorCode = code) ↔
      (texts rt (linesOf data).reverse)[place]? = some (message, code) := by
  rw [← texts_parse, getElem?_map, Option.map_eq_some_iff]
  simp [Finding.text]

theorem own_error_kept_iff
    (h : (.error message code :: past) <:+ (linesOf data).reverse) :
    (texts rt (linesOf data).reverse)[errorPlace past]? = some (message, code) ↔
      moved rt past = false := by
  have hmem : Line.error message code ∈ linesOf data :=
    mem_reverse.mp (h.subset mem_cons_self)
  have hcode := code_ne_empty_of_mem hmem
  obtain ⟨newer, hnewer⟩ := h
  rw [← hnewer, ((filed_errorPlace past message code).append rt newer).2, getElem?_errorPlace]
  cases moved rt past with
  | true => simpa using fun _ => Ne.symm hcode
  | false => simp

theorem parse_keeps_errors_iff (data : List UInt8) : (KeepsErrors data (parse rt data) ↔
      ∀ message code, .error message code ∈ linesOf data →
        (∃ past, (.error message code :: past) <:+ (linesOf data).reverse ∧ moved rt past = false) ∨
          ∃ address, .exception message code address ∈ linesOf data) ∧
    (KeepsOwnErrors data (parse rt data) ↔
      ∀ message code past, (.error message code :: past) <:+ (linesOf data).reverse →
        moved rt past = false) := by
  constructor
  · have herror (message code) : .error message code ∈ linesOf data →
        ((∃ f ∈ (parse rt data).findings, f.errorMessage = message ∧ f.errorCode = code) ↔
          (∃ past, (.error message code :: past) <:+ (linesOf data).reverse ∧ moved rt past = false) ∨
            ∃ address, .exception message code address ∈ linesOf data) := by
      intro hmem
      rw [mem_findings_parse, mem_texts_iff rt (code_ne_empty_of_mem hmem)]
      simp
    constructor
    · exact fun h message code hmem => (herror message code hmem).mp (h.errors message code hmem)
    · intro h
      exact ⟨length_findings_parse rt data,
        fun message code hmem => (herror message code hmem).mpr (h message code hmem)⟩
  · constructor
    · intro h message code past hpast
      exact (own_error_kept_iff rt hpast).mp
        ((getElem?_findings_parse rt).mp (h.errors message code past hpast))
    · intro h
      exact ⟨length_findings_parse rt data, fun message code past hpast =>
        (getElem?_findings_parse rt).mpr ((own_error_kept_iff rt hpast).mpr (h message code past hpast))⟩

def violationBetween : List UInt8 :=
  bytes "\x7bA\x7d-x\nV at 0x1 :Bad read on 0x2\nERROR - m (0x3)"

theorem error_of_moved_header_lost :
    .error "m" "0x3" ∈ linesOf violationBetween ∧
      ¬ KeepsErrors violationBetween (parse .small violationBetween) := by
  have hlost : Line.error "m" "0x3" ∈ linesOf violationBetween ∧
      ∀ f ∈ (parse .small violationBetween).findings, f.errorCode ≠ "0x3" := by
    decide +kernel
  refine ⟨hlost.1, fun h => ?_⟩
  obtain ⟨f, hf, -, hcode⟩ := h.errors _ _ hlost.1
  exact hlost.2 f hf hcode

end Errors

end Chainloop.Archives.Dranzer
