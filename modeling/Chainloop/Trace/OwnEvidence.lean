import Chainloop.Trace.Evidence

namespace Chainloop.Trace

open Go Materials List Option Map

-- Names of spec and skill materials start with an s, those of sessions with an a.
def isSpecName (name : String) : Prop := name.toList.head? = some 's'

theorem candidateName_head {b : String} (h : b.toList.head? = some c) (n : Nat) :
    (candidateName b n).toList.head? = some c := by
  unfold candidateName
  split_ifs
  · exact h
  · rw [String.toList_append, String.toList_append, append_assoc, head?_append, h]
    rfl

theorem sanitize_head (rest : String) :
    (sanitizeMaterialName ("spec-" ++ rest)).toList.head? = some 's' := by
  have htext : ("spec-" ++ rest).toList = 's' :: ("pec-" ++ rest).toList := by simp
  have hlower : toLowerName 's' = 's' := by decide
  have hchar : isNameChar 's' = true := by decide
  rw [sanitizeMaterialName, String.toList_ofList, htext, sanitizeFrom]
  simp only [hlower, hchar, if_true, Bool.and_false, Bool.false_eq_true, if_false, head?_cons]

theorem isSpecName_allocated (a : NameAllocator) (rest : String) :
    isSpecName (allocateNamed a ("spec-" ++ rest)).1 := by
  have hhead := sanitize_head rest
  have hne : sanitizeMaterialName ("spec-" ++ rest) ≠ "" := by
    intro he
    rw [he] at hhead
    cases hhead
  have hname : nameOr "material" ("spec-" ++ rest) = sanitizeMaterialName ("spec-" ++ rest) :=
    if_neg hne
  simp only [allocateNamed, hname]
  exact candidateName_head hhead _

theorem isSpecName_prefixed (a : NameAllocator) (sessionID rest : String) :
    isSpecName (allocateNamed a (specMaterialPrefix sessionID ++ rest)).1 := by
  rw [specMaterialPrefix, String.append_assoc, String.append_assoc]
  exact isSpecName_allocated a _

theorem not_isSpecName_evidenceName (id : String) : ¬ isSpecName (evidenceName id) := by
  have hhead : (evidenceName id).toList.head? = some 'a' := by
    have hstart : "ai-coding-session-".toList.head? = some 'a' := by simp
    unfold evidenceName
    rw [String.toList_append]
    rfl
  rw [isSpecName, hhead]
  decide

structure OnlySpecs (ms ms' : Map String Stored) : Prop where
  others : ∀ name, ¬ isSpecName name → ms'.get? name = ms.get? name
  files : ∀ name m, ms'.get? name = some m →
    ms.get? name = some m ∨ ∃ file data, m.content = .file file data

theorem OnlySpecs.refl (ms : Map String Stored) : OnlySpecs ms ms :=
  ⟨fun _ _ => rfl, fun _ _ h => .inl h⟩

theorem OnlySpecs.trans (h : OnlySpecs ms ms') (h' : OnlySpecs ms' ms'') : OnlySpecs ms ms'' := by
  refine ⟨fun name hname => (h'.others name hname).trans (h.others name hname), ?_⟩
  intro name m hm
  rcases h'.files name m hm with hm | hfile
  · exact h.files name m hm
  · exact .inr hfile

theorem OnlySpecs.set (ms : Map String Stored) {m : Stored} (hname : isSpecName name)
    (hm : m.content = .file file data) :
    OnlySpecs ms (ms.set name m) := by
  constructor
  · intro other hother
    exact get?_set_ne ms m fun he => hother (he ▸ hname)
  · intro other m' hm'
    rw [get?_set] at hm'
    split_ifs at hm' with he
    · cases hm'
      exact .inr ⟨file, data, hm⟩
    · exact .inl hm'

theorem addMaterial_onlySpecs (reply : Reply) {m : Stored} (ms : Map String Stored)
    (hname : isSpecName name) (hm : m.content = .file file data) :
    OnlySpecs ms (addMaterial reply name m ms).2 := by
  rw [addMaterial_materials]
  split_ifs
  · exact .set ms hname hm
  · exact .refl ms

section Specs

variable (w : World) (sessionID : String)

theorem specFile_file (c : Capture) : ∃ file data, specFile w c = .file file data := by
  unfold specFile
  cases c.verbatim with
  | true => exact ⟨_, _, rfl⟩
  | false => cases w.htmlBody c.raw <;> exact ⟨_, _, rfl⟩

theorem addSpecMaterial_onlySpecs (c : Capture) (ms : Map String Stored) (hname : isSpecName name) :
    OnlySpecs ms (addSpecMaterial w sessionID name c ms).2 := by
  unfold addSpecMaterial
  split
  · exact .refl ms
  · obtain ⟨file, data, hfile⟩ := specFile_file w c
    exact addMaterial_onlySpecs _ ms hname hfile

theorem storeCapture_onlySpecs (c : Capture) (ms : Map String Stored) (hname : isSpecName name) :
    OnlySpecs ms (storeCapture w sessionID name c ms).2 := by
  unfold storeCapture
  split
  · exact .refl ms
  · exact addSpecMaterial_onlySpecs w sessionID _ ms hname

theorem attachSpec_onlySpecs (r : Attached × Attestation) (c : Capture) :
    OnlySpecs r.2.materials (attachSpec w sessionID r c).2.materials := by
  have hname : isSpecName (allocateNamed r.2.names (specMaterialName sessionID c.fileName)).1 :=
    isSpecName_prefixed _ _ _
  have hstore := storeCapture_onlySpecs w sessionID c r.2.materials hname
  simp only [attachSpec]
  split
  · next h => rwa [h] at hstore
  · next h => rwa [h] at hstore

theorem attachSpecs_onlySpecs (stage : Stage) (captures : List Capture) (att : Attestation) :
    OnlySpecs att.materials (attachSpecs w sessionID stage captures att).2.materials := by
  have hfold : ∀ r : Attached × Attestation,
      OnlySpecs r.2.materials (captures.foldl (attachSpec w sessionID) r).2.materials := by
    induction captures with
    | nil => exact fun r => .refl _
    | cons c rest ih => exact fun r => (attachSpec_onlySpecs w sessionID r c).trans (ih _)
  unfold attachSpecs
  split_ifs
  · exact .refl _
  · split
    · exact .refl _
    · exact hfold (.none, att)

theorem storePackage_onlySpecs (rest stem : String) (s : SessionSkill) (pkg : Package)
    (att : Attestation) :
    OnlySpecs att.materials
      (storePackage w sessionID (specMaterialPrefix sessionID ++ rest) stem s pkg att).2.2.materials := by
  unfold storePackage
  split_ifs
  · exact .refl _
  · split
    · exact .refl _
    · have hname : isSpecName
          (allocateNamed att.names (specMaterialPrefix sessionID ++ rest ++ "-pkg")).1 := by
        rw [String.append_assoc]
        exact isSpecName_prefixed _ _ _
      have hadd := addMaterial_onlySpecs (w.add (allocateNamed att.names
        (specMaterialPrefix sessionID ++ rest ++ "-pkg")).1)
        (m := ⟨specMaterialKind, skillAnnotations sessionID s "package",
          .file (stem ++ ".tar.gz") pkg.archive⟩) att.materials hname rfl
      dsimp only
      split
      · next h => rwa [h] at hadd
      · next h => rwa [h] at hadd

theorem storeSkill_onlySpecs (s : SessionSkill) (att : Attestation) :
    OnlySpecs att.materials (storeSkill w sessionID s att).2.materials := by
  unfold storeSkill
  split
  · exact .refl _
  · exact .refl _
  · next pkg _ _ =>
      have hname : isSpecName (allocateNamed att.names (specMaterialPrefix sessionID ++
          ("skill-" ++ materialStem s.use.name "skill"))).1 := isSpecName_prefixed _ _ _
      rw [← String.append_assoc] at hname
      have hadd := addMaterial_onlySpecs (w.add (allocateNamed att.names
        (specMaterialPrefix sessionID ++ "skill-" ++ materialStem s.use.name "skill")).1)
        (m := ⟨specMaterialKind, skillAnnotations sessionID s "definition",
          .file "SKILL.md" pkg.definition⟩) att.materials hname rfl
      dsimp only
      split
      · next h => rwa [h] at hadd
      · next digest ms h =>
          rw [h] at hadd
          have hpkg := storePackage_onlySpecs w sessionID
            ("skill-" ++ materialStem s.use.name "skill") (materialStem s.use.name "skill") s pkg
            ⟨(allocateNamed att.names (specMaterialPrefix sessionID ++ "skill-" ++
              materialStem s.use.name "skill")).2, ms⟩
          rw [← String.append_assoc] at hpkg
          exact OnlySpecs.trans hadd hpkg

theorem attachSkill_onlySpecs (r : (List SpecEntry × List String) × Attestation)
    (s : SessionSkill) :
    OnlySpecs r.2.materials (attachSkill w sessionID r s).2.materials := by
  have hstore := storeSkill_onlySpecs w sessionID s r.2
  unfold attachSkill
  split
  · next h => rwa [h] at hstore
  · next h => rwa [h] at hstore

theorem attachSkills_onlySpecs (skills : List SessionSkill) (att : Attestation) :
    OnlySpecs att.materials (attachSkills w sessionID skills att).2.materials := by
  have hfold : ∀ r : (List SpecEntry × List String) × Attestation,
      OnlySpecs r.2.materials (skills.foldl (attachSkill w sessionID) r).2.materials := by
    induction skills with
    | nil => exact fun r => .refl _
    | cons s rest ih => exact fun r => (attachSkill_onlySpecs w sessionID r s).trans (ih _)
  unfold attachSkills
  split_ifs
  · exact .refl _
  · split
    · exact .refl _
    · exact hfold (([], []), att)

end Specs

-- Whether the evidence of a session reaches the materials, and whether the session
-- is then listed as attested.
def storesEvidence (w : World) (id : String) : Bool :=
  (w.writeEvidence id).isOk && (isDNS1123 (evidenceName id) && (w.addSession id).stores)

def attests (w : World) (id : String) : Bool :=
  (w.writeEvidence id).isOk && (isDNS1123 (evidenceName id) && (w.addSession id).succeeds)

theorem storesEvidence_of_attests {id : String} (h : attests w id = true) :
    storesEvidence w id = true := by
  unfold attests at h
  unfold storesEvidence
  cases hreply : w.addSession id <;> simp_all [Reply.stores, Reply.succeeds]

theorem attachSession_spec (w : World) (p : Push) (se : SessionEvidence) :
    ∃ ms document, OnlySpecs p.attestation.materials ms ∧
      (attachSession w p se).attestation.materials = (if storesEvidence w se.sessionID then
          ms.set (evidenceName se.sessionID) ⟨evidenceKind, .empty, .evidence se.sessionID document⟩
        else ms) ∧
      (attachSession w p se).attestedSessions =
        if attests w se.sessionID then p.attestedSessions ++ [se.sessionID]
        else p.attestedSessions := by
  simp only [attachSession]
  have hspecs := attachSpecs_onlySpecs w se.sessionID .specs se.specs p.attestation
  generalize attachSpecs w se.sessionID .specs se.specs p.attestation = specs at hspecs ⊢
  generalize pastedImageCaptures w se.sessionID se.evidence.rawSession specs.1.sources = captures
  have hpasted := attachSpecs_onlySpecs w se.sessionID .pasted captures specs.2
  generalize attachSpecs w se.sessionID .pasted captures specs.2 = pasted at hpasted ⊢
  have hskills := attachSkills_onlySpecs w se.sessionID se.skills pasted.2
  generalize attachSkills w se.sessionID se.skills pasted.2 = skills at hskills ⊢
  generalize ({ rawSession := _, spec := _, warnings := _ } : Evidence) = document
  refine ⟨skills.2.materials, document, (hspecs.trans hpasted).trans hskills, ?_⟩
  unfold addSessionEvidence storesEvidence attests
  generalize evidenceName se.sessionID = name
  generalize (⟨evidenceKind, .empty, .evidence se.sessionID document⟩ : Stored) = m
  cases w.writeEvidence se.sessionID with
  | error e => exact ⟨rfl, rfl⟩
  | ok _ =>
    have hms := addMaterial_materials (w.addSession se.sessionID) name m skills.2.materials
    have hok := addMaterial_ok_iff (w.addSession se.sessionID) name m skills.2.materials
    generalize addMaterial (w.addSession se.sessionID) name m skills.2.materials =
      result at hms hok ⊢
    obtain ⟨outcome, ms⟩ := result
    cases outcome with
    | error e =>
      have hno : (isDNS1123 name && (w.addSession se.sessionID).succeeds) = false := by
        rw [← Bool.not_eq_true, ← hok]
        simp
      simp only [hno, Except.isOk, Except.toBool, Bool.true_and, Bool.false_eq_true, if_false,
        and_true]
      exact hms
    | ok digest =>
      have hyes := hok.mp ⟨digest, rfl⟩
      simp only [hyes, Except.toBool, Bool.true_and, if_true, and_true]
      exact hms

def lastWriter (w : World) (name : String) : List SessionEvidence → Option String
  | [] => none
  | se :: rest =>
    (lastWriter w name rest).or
      (if evidenceName se.sessionID = name ∧ storesEvidence w se.sessionID then some se.sessionID
      else none)

theorem lastWriter_eq_none : lastWriter w name sessions = none ↔
      ∀ se ∈ sessions, evidenceName se.sessionID = name → storesEvidence w se.sessionID = false := by
  induction sessions with
  | nil => simp [lastWriter]
  | cons se rest ih =>
    rw [lastWriter, or_eq_none_iff, ih, and_comm]
    simp

theorem lastWriter_mem {id : String} {sessions : List SessionEvidence}
    (h : lastWriter w name sessions = some id) : id ∈ sessions.map SessionEvidence.sessionID := by
  induction sessions with
  | nil => cases h
  | cons se rest ih =>
    rw [lastWriter, or_eq_some_iff] at h
    rcases h with h | ⟨_, h⟩
    · exact mem_cons_of_mem _ (ih h)
    · split_ifs at h
      cases h
      exact mem_cons_self

def Placed (ms : Map String Stored) : Prop :=
  ∀ name m id document, ms.get? name = some m → m.content = .evidence id document →
    name = evidenceName id

theorem Placed.onlySpecs (h : Placed ms) (hspecs : OnlySpecs ms ms') : Placed ms' := by
  intro name m id document hm hcontent
  rcases hspecs.files name m hm with hm | ⟨file, data, hfile⟩
  · exact h name m id document hm hcontent
  · rw [hfile] at hcontent
    cases hcontent

theorem Placed.set {ms : Map String Stored} (h : Placed ms) (id kind : String)
    (annotations : Map String String) (document : Evidence) :
    Placed (ms.set (evidenceName id) ⟨kind, annotations, .evidence id document⟩) := by
  intro name m id' document' hm hcontent
  rw [get?_set] at hm
  split_ifs at hm with he
  · cases hm
    cases hcontent
    exact he
  · exact h name m id' document' hm hcontent

-- The name of a session holds the evidence of its last writer, or what it held before.
def Written (w : World) (sessions : List SessionEvidence) (ms ms' : Map String Stored) : Prop :=
  ∀ name, ¬ isSpecName name → match lastWriter w name sessions with
    | none => ms'.get? name = ms.get? name
    | some id => ∃ m document, ms'.get? name = some m ∧ m.content = .evidence id document

theorem attachSession_written (w : World) (p : Push) (se : SessionEvidence) :
    Written w [se] p.attestation.materials (attachSession w p se).attestation.materials := by
  obtain ⟨ms, document, hspecs, hms, _⟩ := attachSession_spec w p se
  intro name hname
  rw [lastWriter, hms]
  split_ifs with hname' hstores hstores
  · exact ⟨_, document, by rw [hname'.1, get?_set_self], rfl⟩
  · exact absurd hname'.2 hstores
  · have hne : name ≠ evidenceName se.sessionID := fun he => hname' ⟨he.symm, hstores⟩
    rw [get?_set_ne _ _ hne]
    exact hspecs.others name hname
  · exact hspecs.others name hname

theorem attachSession_placed (w : World) (p : Push) (se : SessionEvidence)
    (h : Placed p.attestation.materials) : Placed (attachSession w p se).attestation.materials := by
  obtain ⟨ms, document, hspecs, hms, _⟩ := attachSession_spec w p se
  rw [hms]
  split_ifs
  · exact (h.onlySpecs hspecs).set _ _ _ _
  · exact h.onlySpecs hspecs

theorem Written.cons (h : Written w [se] ms ms') (h' : Written w rest ms' ms'') :
    Written w (se :: rest) ms ms'' := by
  intro name hname
  have h := h name hname
  have h' := h' name hname
  rw [lastWriter] at h
  rw [lastWriter]
  cases hlast : lastWriter w name rest with rw [hlast] at h'
  | some id =>
    exact h'
  | none =>
    split_ifs at h ⊢ with hwrites
    · obtain ⟨m, document, hm, hcontent⟩ := h
      exact ⟨m, document, h'.trans hm, hcontent⟩
    · exact h'.trans h

theorem attach_run (w : World) (sessions : List SessionEvidence) (p : Push)
    (hplaced : Placed p.attestation.materials) :
    Written w sessions p.attestation.materials
        (sessions.foldl (attachSession w) p).attestation.materials ∧
      Placed (sessions.foldl (attachSession w) p).attestation.materials ∧
      (sessions.foldl (attachSession w) p).attestedSessions =
        p.attestedSessions ++ (sessions.map SessionEvidence.sessionID).filter (attests w) := by
  induction sessions generalizing p with
  | nil => exact ⟨fun _ _ => rfl, hplaced, by simp⟩
  | cons se rest ih =>
    obtain ⟨hwritten, hkeeps, hlisted⟩ :=
      ih (attachSession w p se) (attachSession_placed w p se hplaced)
    refine ⟨(attachSession_written w p se).cons hwritten, hkeeps, ?_⟩
    obtain ⟨_, _, _, _, hone⟩ := attachSession_spec w p se
    rw [foldl_cons, hlisted, hone, map_cons, filter_cons]
    split_ifs <;> simp

theorem own_iff_lastWriter (w : World) (init : Initialized) (sessions : List SessionEvidence)
    (id : String) (hid : storesEvidence w id = true)
    (hmem : id ∈ sessions.map SessionEvidence.sessionID) :
    (∃ name m document, (attachSessionEvidence w init sessions).attestation.materials.get? name =
        some m ∧ m.content = .evidence id document) ↔
      lastWriter w (evidenceName id) sessions = some id := by
  have hstart : Placed init.materials := by
    intro name m id document hm hcontent
    obtain ⟨artifact, ha⟩ := init.collected name m hm
    rw [ha] at hcontent
    cases hcontent
  obtain ⟨hwritten, hplaced, _⟩ := attach_run w sessions init.start hstart
  have hname := hwritten (evidenceName id) (not_isSpecName_evidenceName id)
  constructor
  · rintro ⟨name, m, document, hm, hcontent⟩
    obtain rfl := hplaced name m id document hm hcontent
    cases hlast : lastWriter w (evidenceName id) sessions with
    | none =>
      obtain ⟨se, hse, rfl⟩ := mem_map.mp hmem
      have hno := lastWriter_eq_none.mp hlast se hse rfl
      rw [hid] at hno
      cases hno
    | some id' =>
      rw [hlast] at hname
      obtain ⟨m', document', hm', hcontent'⟩ := hname
      have hsame : some m = some m' := hm.symm.trans hm'
      cases hsame
      rw [hcontent] at hcontent'
      cases hcontent'
      rfl
  · intro hlast
    rw [hlast] at hname
    obtain ⟨m, document, hm, hcontent⟩ := hname
    exact ⟨evidenceName id, m, document, hm, hcontent⟩

-- No session is listed and then followed by one that stores under the same name.
def NamesKept (w : World) (sessions : List SessionEvidence) : Prop :=
  sessions.Pairwise fun se later =>
    evidenceName se.sessionID = evidenceName later.sessionID →
      attests w se.sessionID = true → storesEvidence w later.sessionID = false

instance (w : World) (sessions : List SessionEvidence) : Decidable (NamesKept w sessions) :=
  inferInstanceAs (Decidable (List.Pairwise _ _))

theorem namesKept_iff (w : World) (sessions : List SessionEvidence)
    (hdistinct : (sessions.map SessionEvidence.sessionID).Nodup) :
    NamesKept w sessions ↔ ∀ se ∈ sessions, attests w se.sessionID = true →
      lastWriter w (evidenceName se.sessionID) sessions = some se.sessionID := by
  induction sessions with
  | nil => simp [NamesKept]
  | cons se rest ih =>
    rw [map_cons, nodup_cons] at hdistinct
    rw [NamesKept, pairwise_cons, forall_mem_cons]
    refine and_congr ?_ ?_
    · -- the first session is the last writer if and only if no other one writes
      have hfirst : (attests w se.sessionID = true →
            lastWriter w (evidenceName se.sessionID) (se :: rest) = some se.sessionID) ↔
          (attests w se.sessionID = true →
            lastWriter w (evidenceName se.sessionID) rest = none) := by
        refine imp_congr_right fun hattests => ?_
        rw [lastWriter, if_pos ⟨rfl, storesEvidence_of_attests hattests⟩]
        cases hlast : lastWriter w (evidenceName se.sessionID) rest with
        | none => simp
        | some id =>
          have hne : id ≠ se.sessionID := fun he => hdistinct.1 (he ▸ lastWriter_mem hlast)
          simp [hne]
      rw [hfirst]
      constructor
      · intro h hattests
        exact lastWriter_eq_none.mpr fun later hlater hname => h later hlater hname.symm hattests
      · intro h later hlater hname hattests
        exact lastWriter_eq_none.mp (h hattests) later hlater hname.symm
    · rw [← NamesKept, ih hdistinct.2]
      refine forall₂_congr fun later hlater => imp_congr_right fun hattests => ?_
      rw [lastWriter]
      -- the later session itself writes, so the first one is not the last
      have hsome : lastWriter w (evidenceName later.sessionID) rest ≠ none := by
        intro hnone
        have hno := lastWriter_eq_none.mp hnone later hlater rfl
        rw [storesEvidence_of_attests hattests] at hno
        cases hno
      obtain ⟨id, hid⟩ := ne_none_iff_exists'.mp hsome
      rw [hid, some_or]

theorem attested_sessions_keep_evidence_iff (w : World) (init : Initialized)
    (sessions : List SessionEvidence)
    (hdistinct : (sessions.map SessionEvidence.sessionID).Nodup) :
    (∀ id ∈ (attachSessionEvidence w init sessions).attestedSessions,
      ∃ name m document, (attachSessionEvidence w init sessions).attestation.materials.get? name =
        some m ∧ m.content = .evidence id document) ↔ NamesKept w sessions := by
  have hstart : Placed init.materials := by
    intro name m id document hm hcontent
    obtain ⟨artifact, ha⟩ := init.collected name m hm
    rw [ha] at hcontent
    cases hcontent
  obtain ⟨_, _, hlisted⟩ := attach_run w sessions init.start hstart
  have hlist : (attachSessionEvidence w init sessions).attestedSessions =
      (sessions.map SessionEvidence.sessionID).filter (attests w) := hlisted
  rw [namesKept_iff w sessions hdistinct, hlist]
  constructor
  · intro h se hse hattests
    have hmem := mem_map_of_mem (f := SessionEvidence.sessionID) hse
    rw [← own_iff_lastWriter w init sessions _ (storesEvidence_of_attests hattests) hmem]
    exact h _ (mem_filter.mpr ⟨hmem, hattests⟩)
  · intro h id hid
    obtain ⟨hmem, hattests⟩ := mem_filter.mp hid
    rw [own_iff_lastWriter w init sessions id (storesEvidence_of_attests hattests) hmem]
    obtain ⟨se, hse, rfl⟩ := mem_map.mp hmem
    exact h se hse hattests

def calm : World where
  mkdirTemp _ _ := .ok ()
  redact _ doc := .ok doc
  parse _ := none
  parseMeta _ := ⟨"", "", ""⟩
  htmlBody _ := none
  stageFile _ := .ok ()
  digest _ := ""
  detectContentType _ := ""
  pastedImages _ _ := []
  replaceSpecCopies _ := none
  makePackage _ := .ok ⟨[], [], false⟩
  stageSkill _ _ := .ok ()
  stagePackage _ _ := .ok ()
  now := ""
  writeEvidence _ := .ok ()
  add name := .stored name
  addSession id := .stored id

def bareSession (id : String) : SessionEvidence := ⟨id, ⟨.empty, [], []⟩, [], []⟩

-- An attestation that was begun with a container image in it.
def imageCollected : Initialized where
  materials := Map.ofList [("image", ⟨"CONTAINER_IMAGE", .empty, .collected "registry/app@sha256:00"⟩)]
  collected name m h := by
    have hmem := (Map.get?_eq_some_iff ..).mp h
    obtain ⟨-, rfl⟩ := Prod.ext_iff.mp (mem_singleton.mp hmem)
    exact ⟨_, rfl⟩

theorem sessions_of_two_starts_keep_evidence :
    ([bareSession "0198a1b2-11", bareSession "77e0c3d4-22"].map SessionEvidence.sessionID).Nodup ∧
    ∀ id ∈ (attachSessionEvidence calm imageCollected
        [bareSession "0198a1b2-11", bareSession "77e0c3d4-22"]).attestedSessions,
      ∃ name m document, (attachSessionEvidence calm imageCollected
        [bareSession "0198a1b2-11", bareSession "77e0c3d4-22"]).attestation.materials.get? name =
        some m ∧ m.content = .evidence id document :=
  ⟨by decide, (attested_sessions_keep_evidence_iff calm imageCollected
    [bareSession "0198a1b2-11", bareSession "77e0c3d4-22"] (by decide)).mpr (by decide +kernel)⟩

-- Identifiers that start with the time of their making are alike at the start when
-- the sessions began within hours of each other.
theorem session_evidence_is_replaced :
    ([bareSession "0198a1b2-11", bareSession "0198a1c9-22"].map SessionEvidence.sessionID).Nodup ∧
    "0198a1b2-11" ∈ (attachSessionEvidence calm imageCollected
      [bareSession "0198a1b2-11", bareSession "0198a1c9-22"]).attestedSessions ∧
    ¬ ∃ name m document, (attachSessionEvidence calm imageCollected
        [bareSession "0198a1b2-11", bareSession "0198a1c9-22"]).attestation.materials.get? name =
        some m ∧ m.content = .evidence "0198a1b2-11" document := by
  rw [own_iff_lastWriter calm imageCollected _ _ (by decide +kernel) (by decide)]
  decide +kernel

end Chainloop.Trace
