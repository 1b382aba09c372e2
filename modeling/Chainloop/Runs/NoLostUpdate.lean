import Chainloop.Runs.RemoteState

namespace Chainloop.Runs.RemoteState

open Go RowLock Text List Option Function

-- SHA-256 is taken to have no collisions. A digest is never the empty text.
structure CollisionFree (sha256Hex : String → String) : Prop where
  injective : Function.Injective sha256Hex
  ne_empty : ∀ text, sha256Hex text ≠ ""

variable {sha256Hex : String → String} {run : UUID} {s s' : System} {c : Nat}

theorem CollisionFree.digest_inj (h : CollisionFree sha256Hex)
    (heq : digest sha256Hex a = digest sha256Hex b) : a = b := by
  have htext := h.injective heq
  simp only [String.ext_iff, String.toList_append, append_cancel_right_eq,
    append_cancel_left_eq, String.toList_ofList] at htext
  have hdecode : Base64.decode (Base64.encode a) = Base64.decode (Base64.encode b) := by rw [htext]
  rw [Base64.decode_encode, Base64.decode_encode] at hdecode
  exact some.inj hdecode

def Stage.saves : Stage → Option (Bytes × String)
  | .saving _ state baseDigest => some (state, baseDigest)
  | .idle | .answered _ => none

def Stage.holds : Stage → Bool
  | .saving .compared _ _ | .saving .updated _ _ => true
  | .saving .begun _ _ | .idle | .answered _ => false

def Names (sha256Hex : String → String) (history : List Bytes) (version : Nat) (text : String) : Prop :=
  ∃ state, history[version]? = some state ∧ text = digest sha256Hex state

-- The row that the transaction of a client has found its base digest in, and holds.
def Holds (sha256Hex : String → String) (run : UUID) (db : Db Nat UUID WorkflowRun) (c : Nat)
    (baseDigest : String) : Prop :=
  db.owner run = some c ∧ ∃ row stored, db.committed run = some row ∧
    row.attestationState = some stored ∧ baseDigest = digest sha256Hex stored

structure ClientInv (sha256Hex : String → String) (run : UUID) (s : System) (c : Nat) : Prop where
  base : ∀ version, (s.clients c).base = some version →
    Names sha256Hex s.history version (s.clients c).updateCheckSum
  unread : (s.clients c).base = none → (s.clients c).updateCheckSum = ""
  answer : ∀ version text, (s.clients c).stage = .answered (.read version text) ∨
    (s.clients c).stage = .answered (.saved version text) → Names sha256Hex s.history version text
  fresh : ∀ state baseDigest, (s.clients c).stage.saves = some (state, baseDigest) →
    state ∈ s.encrypted ∧ state ∉ s.history ∧
      baseDigest = (s.clients c).updateCheckSum ∧ baseDigest ≠ ""
  free : (s.clients c).stage.holds = false → s.db.owner run ≠ some c
  compared : ∀ progress state baseDigest, (s.clients c).stage = .saving progress state baseDigest →
    progress ≠ .begun → Holds sha256Hex run s.db c baseDigest
  updated : ∀ state baseDigest, (s.clients c).stage = .saving .updated state baseDigest →
    ∃ row, s.db.pending run = some row ∧ row.attestationState = some state

structure Inv (sha256Hex : String → String) (run : UUID) (s : System) : Prop where
  stored : s.stored run = s.history.getLast?
  nodup : s.history.Nodup
  encrypted : s.history ⊆ s.encrypted
  client : ∀ c, ClientInv sha256Hex run s c
  -- two Saves under way have different states
  apart : ∀ c d state baseDigest baseDigest', (s.clients c).stage.saves = some (state, baseDigest) →
    (s.clients d).stage.saves = some (state, baseDigest') → c = d

theorem inv_start (rows : UUID → Option WorkflowRun) : Inv sha256Hex run (start run rows) where
  stored := by
    simp only [start, System.stored, Db.ofRows]
    cases (rows run).bind (·.attestationState) <;> rfl
  nodup := by
    simp only [start]
    cases (rows run).bind (·.attestationState) <;> simp
  encrypted _ h := h
  client c := by
    constructor <;> simp [start, Stage.saves, Db.ofRows]
  apart c d state baseDigest baseDigest' h := by simp [start, Stage.saves] at h

theorem Names.mono (h : Names sha256Hex history version text) :
    Names sha256Hex (history ++ more) version text := by
  obtain ⟨state, hstate, htext⟩ := h
  exact ⟨state, List.getElem?_append_left (List.getElem?_eq_some_iff.mp hstate).1 ▸ hstate, htext⟩

theorem Holds.frame (h : Holds sha256Hex run db c baseDigest) (hframe : Db.Frame c db db') :
    Holds sha256Hex run db' c baseDigest := by
  obtain ⟨howner, row, stored, hrow, hrest⟩ := h
  exact ⟨(hframe.owner run).mpr howner, row, stored, (hframe.committed run howner).trans hrow, hrest⟩

structure Moves (s s' : System) (c : Nat) : Prop where
  others : ∀ d, d ≠ c → s'.clients d = s.clients d
  frame : ∀ d, d ≠ c → Db.Frame d s.db s'.db
  encrypted : s.encrypted ⊆ s'.encrypted

theorem ClientInv.transfer (more : List Bytes) (h : ClientInv sha256Hex run s d)
    (hclient : s'.clients d = s.clients d) (hframe : Db.Frame d s.db s'.db)
    (hhistory : s'.history = s.history ++ more)
    (hfresh : ∀ state baseDigest, (s.clients d).stage.saves = some (state, baseDigest) →
      state ∈ s'.encrypted ∧ state ∉ more) :
    ClientInv sha256Hex run s' d := by
  constructor <;> rw [hclient]
  · rw [hhistory]
    exact fun version hbase => (h.base version hbase).mono
  · exact h.unread
  · rw [hhistory]
    exact fun version text hstage => (h.answer version text hstage).mono
  · intro state baseDigest hsaves
    obtain ⟨hin, hmore⟩ := hfresh state baseDigest hsaves
    obtain ⟨-, hnew, hbase⟩ := h.fresh state baseDigest hsaves
    exact ⟨hin, by simp [hhistory, hnew, hmore], hbase⟩
  · exact fun hholds howner => h.free hholds ((hframe.owner run).mp howner)
  · intro progress state baseDigest hstage hprogress
    exact (h.compared progress state baseDigest hstage hprogress).frame hframe
  · intro state baseDigest hstage
    obtain ⟨howner, -⟩ := h.compared _ state baseDigest hstage (by decide)
    obtain ⟨row, hrow, hstate⟩ := h.updated state baseDigest hstage
    exact ⟨row, (hframe.pending run howner).trans hrow, hstate⟩

-- A step that saves nothing keeps the invariant if the client that takes it does.
theorem Inv.of_client (h : Inv sha256Hex run s) (hmoves : Moves s s' c)
    (hhistory : s'.history = s.history) (hstored : s'.stored run = s.stored run)
    (hclient : ClientInv sha256Hex run s' c)
    (hsaves : ∀ state baseDigest, (s'.clients c).stage.saves = some (state, baseDigest) →
      (∃ baseDigest', (s.clients c).stage.saves = some (state, baseDigest')) ∨ state ∉ s.encrypted) :
    Inv sha256Hex run s' := by
  have hapart (d state baseDigest baseDigest') : d ≠ c →
      (s'.clients c).stage.saves = some (state, baseDigest) →
      (s'.clients d).stage.saves ≠ some (state, baseDigest') := by
    intro hne hc hd
    rw [hmoves.others d hne] at hd
    rcases hsaves state baseDigest hc with ⟨earlier, hbefore⟩ | hnew
    · exact hne (h.apart d c state baseDigest' earlier hd hbefore)
    · exact hnew ((h.client d).fresh state baseDigest' hd).1
  constructor
  · rw [hstored, hhistory]
    exact h.stored
  · rw [hhistory]
    exact h.nodup
  · rw [hhistory]
    exact fun state hstate => hmoves.encrypted (h.encrypted hstate)
  · intro d
    by_cases hd : d = c
    · subst d
      exact hclient
    · refine (h.client d).transfer [] (hmoves.others d hd) (hmoves.frame d hd)
        (by simpa using hhistory) fun state baseDigest hd' => ?_
      exact ⟨hmoves.encrypted ((h.client d).fresh state baseDigest hd').1, not_mem_nil⟩
  · intro d e state baseDigest baseDigest' hd he
    by_cases hdc : d = c <;> by_cases hec : e = c
    · rw [hdc, hec]
    · subst d
      exact absurd he (hapart e state baseDigest baseDigest' hec hd)
    · subst e
      exact absurd hd (hapart d state baseDigest' baseDigest hdc he)
    · rw [hmoves.others d hdc] at hd
      rw [hmoves.others e hec] at he
      exact h.apart d e state baseDigest baseDigest' hd he

@[simp] theorem System.set_clients_self (client : Client) : (s.set c client).clients c = client :=
  update_self ..

theorem System.set_clients_ne (client : Client) (hne : d ≠ c) :
    (s.set c client).clients d = s.clients d :=
  update_of_ne hne ..

theorem moves_set (s : System) (c : Nat) (client : Client) : Moves s (s.set c client) c where
  others _ hne := System.set_clients_ne client hne
  frame d _ := Db.Frame.refl d s.db
  encrypted _ h := h

theorem ClientInv.settle (h : ClientInv sha256Hex run s c) (stage : Stage) (more : List Bytes)
    (hhistory : s'.history = s.history ++ more)
    (hclient : s'.clients c = { s.clients c with stage := stage })
    (hsaves : stage.saves = none) (hfree : s'.db.owner run ≠ some c)
    (hanswer : ∀ version text, stage = .answered (.read version text) ∨
      stage = .answered (.saved version text) → Names sha256Hex s'.history version text) :
    ClientInv sha256Hex run s' c := by
  constructor <;> rw [hclient]
  · rw [hhistory]
    exact fun version hbase => (h.base version hbase).mono
  · exact h.unread
  · exact hanswer
  · simp [hsaves]
  · exact fun _ => hfree
  · rintro progress state baseDigest rfl
    cases hsaves
  · rintro state baseDigest rfl
    cases hsaves

theorem Inv.settle (h : Inv sha256Hex run s) (stage : Stage) (hsaves : stage.saves = none)
    (hbefore : (s.clients c).stage.holds = false)
    (hanswer : ∀ version text, stage = .answered (.read version text) ∨
      stage = .answered (.saved version text) → Names sha256Hex s.history version text) :
    Inv sha256Hex run (s.set c { s.clients c with stage := stage }) := by
  refine h.of_client (moves_set s c _) rfl rfl
    ((h.client c).settle stage [] (append_nil _).symm (System.set_clients_self _) hsaves ((h.client c).free hbefore) hanswer)
    fun state baseDigest hstage => ?_
  exact absurd hstage (by simp [hsaves])

theorem Inv.abort (h : Inv sha256Hex run s) (hframe : ∀ d, d ≠ c → Db.Frame d s.db db)
    (hcommitted : db.committed = s.db.committed) (e : SaveError) :
    Inv sha256Hex run (System.abort { s with db := db } c e) := by
  have hclient : (System.abort { s with db := db } c e).clients c =
      { s.clients c with stage := .answered (.failed e) } := by
    simp [System.abort, System.answer]
  refine h.of_client ⟨fun d hne => update_of_ne hne .., fun d hne =>
      (hframe d hne).trans (Db.rollback_frame _ hne), fun _ h => h⟩ rfl ?_
    ((h.client c).settle _ [] (append_nil _).symm hclient rfl Db.release_self (by simp)) fun state baseDigest hstage => ?_
  · simp [System.stored, System.abort, Db.rollback, hcommitted]
  · rw [hclient] at hstage
    cases hstage

theorem Inv.read (h : Inv sha256Hex run s) (hbefore : (s.clients c).stage.holds = false) :
    Inv sha256Hex run (s.read sha256Hex run c) := by
  unfold System.read
  split
  · exact h.settle _ rfl hbefore (by simp)
  · rename_i state hstored
    refine h.settle _ rfl hbefore fun version text hanswer => ?_
    simp only [Stage.answered.injEq, reduceCtorEq, or_false] at hanswer
    obtain ⟨rfl, rfl⟩ := hanswer
    rw [h.stored] at hstored
    exact ⟨state, by rw [← getLast?_eq_getElem?, hstored], rfl⟩

theorem ClientInv.advance (h : ClientInv sha256Hex run s c) (hhistory : s'.history = s.history)
    (hclient : s'.clients c = { s.clients c with stage := .saving progress state baseDigest })
    (hfresh : state ∈ s'.encrypted ∧ state ∉ s.history ∧
      baseDigest = (s.clients c).updateCheckSum ∧ baseDigest ≠ "")
    (hfree : progress = .begun → s'.db.owner run ≠ some c)
    (hcompared : progress ≠ .begun → Holds sha256Hex run s'.db c baseDigest)
    (hupdated : progress = .updated →
      ∃ row, s'.db.pending run = some row ∧ row.attestationState = some state) :
    ClientInv sha256Hex run s' c := by
  constructor <;> rw [hclient]
  · rw [hhistory]
    exact h.base
  · exact h.unread
  · simp
  · rintro state' baseDigest' ⟨⟩
    rw [hhistory]
    exact hfresh
  · intro hholds
    cases progress <;> simp [Stage.holds] at hholds
    exact hfree rfl
  · rintro progress' state' baseDigest' ⟨⟩ hprogress
    exact hcompared hprogress
  · rintro state' baseDigest' ⟨⟩
    exact hupdated rfl

section
variable (h : Inv sha256Hex run s)
include h

theorem Inv.save (hidle : (s.clients c).stage = .idle)
    (hchecksum : (s.clients c).updateCheckSum ≠ "") (hnew : state ∉ s.encrypted) :
    Inv sha256Hex run { s.set c { s.clients c with
        stage := .saving .begun state (s.clients c).updateCheckSum } with
      encrypted := state :: s.encrypted } := by
  have hfree := (h.client c).free (by rw [hidle]; rfl)
  refine h.of_client ⟨fun d hne => System.set_clients_ne _ hne, fun d _ => Db.Frame.refl d s.db,
    subset_cons_self _ _⟩ rfl rfl
    ((h.client c).advance rfl (System.set_clients_self _) ?_ (fun _ => hfree) (by simp) (by simp)) ?_
  · exact ⟨mem_cons_self, fun hmem => hnew (h.encrypted hmem), rfl, hchecksum⟩
  · intro state' baseDigest' hsaves
    simp only [System.set_clients_self, Stage.saves, some.injEq, Prod.mk.injEq] at hsaves
    exact .inr (hsaves.1 ▸ hnew)

theorem Inv.lock_read (hholds : (s.clients c).stage.holds = false)
    {db : Db Nat UUID WorkflowRun} (hlock : s.db.lock c run = some db) :
    db.read c run = s.db.committed run := by
  have howner := Db.lock_owner hlock
  have hpending := Db.lock_pending hlock
  have hfree := (h.client c).free hholds
  simp only [Db.read, howner, if_true, hpending, hfree, if_false]

theorem Inv.lock (hstage : (s.clients c).stage = .saving .begun state baseDigest)
    (hlock : s.db.lock c run = some db) (stored : Bytes) (hstored : s.stored run = some stored)
    (hbase : baseDigest = digest sha256Hex stored) :
    Inv sha256Hex run { s.set c { s.clients c with
      stage := .saving .compared state baseDigest } with db := db } := by
  obtain ⟨hencrypted, hnew, hchecksum, hne⟩ := (h.client c).fresh state baseDigest (by rw [hstage]; rfl)
  have hcommitted := Db.lock_committed hlock
  obtain ⟨row, hrow, hstate⟩ := bind_eq_some_iff.mp hstored
  refine h.of_client ⟨fun d hne => System.set_clients_ne _ hne, fun d hne => Db.lock_frame hlock hne,
    fun _ h => h⟩ rfl (by simp [System.stored, hcommitted])
    ((h.client c).advance rfl (System.set_clients_self _) ⟨hencrypted, hnew, hchecksum, hne⟩ (by simp) ?_
      (by simp)) ?_
  · exact fun _ => ⟨Db.lock_owner hlock, row, stored, (congrFun hcommitted run).trans hrow, hstate, hbase⟩
  · intro state' baseDigest' hsaves
    simp only [System.set_clients_self, Stage.saves, some.injEq, Prod.mk.injEq] at hsaves
    exact .inl ⟨baseDigest, by rw [hstage, ← hsaves.1]; rfl⟩

theorem Inv.lock_abort (hlock : s.db.lock c run = some db) (e : SaveError) :
    Inv sha256Hex run (System.abort { s with db := db } c e) :=
  h.abort (fun _ hne => Db.lock_frame hlock hne) (Db.lock_committed hlock) e

end

-- What the comparison comes to.
inductive Compared (sha256Hex : String → String) (run : UUID) (s : System) (c : Nat) (state : Bytes)
    (baseDigest : String) : System → Prop where
  | missing (db : Db Nat UUID WorkflowRun) (hlock : s.db.lock c run = some db)
      (hstored : s.stored run = none) :
      Compared sha256Hex run s c state baseDigest
        (System.abort { s with db := db } c (.notFound "attestation state"))
  | conflict (db : Db Nat UUID WorkflowRun) (hlock : s.db.lock c run = some db) (stored : Bytes)
      (hstored : s.stored run = some stored) (hne : baseDigest ≠ digest sha256Hex stored) :
      Compared sha256Hex run s c state baseDigest
        (System.abort { s with db := db } c (.conflict (digest sha256Hex stored) baseDigest))
  | same (db : Db Nat UUID WorkflowRun) (hlock : s.db.lock c run = some db) (stored : Bytes)
      (hstored : s.stored run = some stored) (heq : baseDigest = digest sha256Hex stored) :
      Compared sha256Hex run s c state baseDigest
        { s.set c { s.clients c with stage := .saving .compared state baseDigest } with db := db }

section
variable (h : Inv sha256Hex run s)
include h

theorem Inv.compared (hstage : (s.clients c).stage = .saving .begun state baseDigest)
    (hcompare : s.compare sha256Hex run c state baseDigest = some s') :
    Compared sha256Hex run s c state baseDigest s' := by
  obtain ⟨-, -, -, hne⟩ := (h.client c).fresh state baseDigest (by rw [hstage]; rfl)
  simp only [System.compare, hne, ne_eq] at hcompare
  obtain ⟨db, hlock, rfl⟩ := map_eq_some_iff.mp hcompare
  have hread : (db.read c run).bind (·.attestationState) = s.stored run := by
    rw [h.lock_read (by rw [hstage]; rfl) hlock]
    rfl
  simp only [hread]
  cases hstored : s.stored run with
  | none => exact .missing db hlock hstored
  | some stored =>
    by_cases hbase : baseDigest = digest sha256Hex stored
    · simp only [hbase, not_true_eq_false, if_false]
      exact .same db hlock stored hstored rfl
    · simp only [hbase, not_false_eq_true, if_true]
      exact .conflict db hlock stored hstored hbase

theorem Inv.update (hstage : (s.clients c).stage = .saving .compared state baseDigest)
    (hupdate : s.update run c state baseDigest = some s') : Inv sha256Hex run s' := by
  unfold System.update at hupdate
  split at hupdate
  · cases hupdate
    exact h.abort (fun d _ => .refl d s.db) rfl _
  · rename_i row hread
    obtain ⟨db, hwrite, rfl⟩ := map_eq_some_iff.mp hupdate
    have hcommitted := Db.write_committed hwrite
    obtain ⟨-, held, stored, hheld, hrest⟩ := (h.client c).compared _ state baseDigest hstage (by decide)
    refine h.of_client ⟨fun d hne => System.set_clients_ne _ hne, fun d hne => Db.write_frame hwrite hne,
      fun _ h => h⟩ rfl (by simp [System.stored, hcommitted])
      ((h.client c).advance rfl (System.set_clients_self _)
        ((h.client c).fresh state baseDigest (by rw [hstage]; rfl)) (by simp) ?_ ?_) ?_
    · exact fun _ => ⟨Db.write_owner hwrite, held, stored, (congrFun hcommitted run).trans hheld, hrest⟩
    · exact fun _ => ⟨_, Db.write_pending hwrite, rfl⟩
    · intro state' baseDigest' hsaves
      simp only [System.set_clients_self, Stage.saves, some.injEq, Prod.mk.injEq] at hsaves
      exact .inl ⟨baseDigest, by rw [hstage, ← hsaves.1]; rfl⟩

section
variable (hstage : (s.clients c).stage = .saving .updated state baseDigest)
include hstage

theorem Inv.commit_stored : (s.commit sha256Hex c state).stored run = some state := by
  obtain ⟨howner, -⟩ := (h.client c).compared _ state baseDigest hstage (by decide)
  obtain ⟨row, hrow, hstate⟩ := (h.client c).updated state baseDigest hstage
  simp [System.stored, System.commit, Db.commit, Db.read, howner, hrow, hstate]

theorem Inv.commit : Inv sha256Hex run (s.commit sha256Hex c state) := by
  have hsaves : (s.clients c).stage.saves = some (state, baseDigest) := by rw [hstage]; rfl
  obtain ⟨hencrypted, hnew, -, -⟩ := (h.client c).fresh state baseDigest hsaves
  have hclient : (s.commit sha256Hex c state).clients c = { s.clients c with
      stage := .answered (.saved s.history.length (digest sha256Hex state)) } := by
    simp [System.commit, System.answer]
  have hothers : ∀ d, d ≠ c → (s.commit sha256Hex c state).clients d = s.clients d :=
    fun d hne => System.set_clients_ne _ hne
  constructor
  · rw [h.commit_stored hstage]
    simp [System.commit]
  · refine nodup_append.mpr ⟨h.nodup, nodup_singleton state, ?_⟩
    intro a ha b hb
    obtain rfl := mem_singleton.mp hb
    exact fun hsame => hnew (hsame ▸ ha)
  · intro b hb
    rcases mem_append.mp hb with hb | hb
    · exact h.encrypted hb
    · obtain rfl := mem_singleton.mp hb
      exact hencrypted
  · intro d
    by_cases hd : d = c
    · subst d
      refine (h.client c).settle _ [state] rfl hclient rfl Db.release_self fun version text hanswer => ?_
      simp only [Stage.answered.injEq, reduceCtorEq, false_or] at hanswer
      obtain ⟨rfl, rfl⟩ := hanswer
      exact ⟨state, by simp [System.commit], rfl⟩
    · refine (h.client d).transfer [state] (hothers d hd) (Db.commit_frame _ hd) rfl
        fun state' baseDigest' hd' => ⟨((h.client d).fresh state' baseDigest' hd').1, ?_⟩
      intro hmem
      obtain rfl := mem_singleton.mp hmem
      exact hd (h.apart d c state' baseDigest' baseDigest hd' hsaves)
  · intro d e state' b b' hd he
    by_cases hdc : d = c
    · subst d
      rw [hclient] at hd
      cases hd
    · by_cases hec : e = c
      · subst e
        rw [hclient] at he
        cases he
      · rw [hothers d hdc] at hd
        rw [hothers e hec] at he
        exact h.apart d e state' b b' hd he

end

theorem Inv.deliver (hstage : (s.clients c).stage = .answered answer) :
    Inv sha256Hex run (s.set c ((s.clients c).deliver answer)) := by
  have hsettle := h.settle (c := c) .idle rfl (by rw [hstage]; rfl) (by simp)
  have hfree := (h.client c).free (by rw [hstage]; rfl)
  have hnew : ∀ version text, Names sha256Hex s.history version text →
      Inv sha256Hex run (s.set c ⟨text, some version, .idle⟩) := by
    intro version text hnames
    refine h.of_client (moves_set s c _) rfl rfl ?_ (by simp [Stage.saves])
    constructor <;> simp [Stage.saves, System.set, hfree, hnames]
  cases answer with
  | read version text => exact hnew version text ((h.client c).answer version text (.inl hstage))
  | saved version text =>
    simp only [Client.deliver]
    split
    · exact hnew version text ((h.client c).answer version text (.inr hstage))
    · exact hsettle
  | failed e => exact hsettle

theorem Inv.step (hstep : s.step sha256Hex run e = some s') : Inv sha256Hex run s' := by
  cases e with simp only [System.step] at hstep
  | read c =>
    split at hstep <;> cases hstep
    rename_i hstage
    exact h.read (by rw [hstage]; rfl)
  | save c state =>
    split at hstep
    · rename_i hstage
      simp only [ite_none_right_eq_some, some.injEq] at hstep
      obtain ⟨⟨hchecksum, hnew⟩, rfl⟩ := hstep
      exact h.save hstage hchecksum hnew
    · cases hstep
  | compare c =>
    split at hstep
    · rename_i state baseDigest hstage
      cases h.compared hstage hstep with
      | missing db hlock => exact h.lock_abort hlock _
      | conflict db hlock => exact h.lock_abort hlock _
      | same db hlock stored hstored heq => exact h.lock hstage hlock stored hstored heq
    · cases hstep
  | update c =>
    split at hstep
    · rename_i state baseDigest hstage
      exact h.update hstage hstep
    · cases hstep
  | commit c =>
    split at hstep <;> cases hstep
    rename_i state baseDigest hstage
    exact h.commit hstage
  | fail c e =>
    split at hstep <;> cases hstep
    exact h.abort (fun d _ => .refl d s.db) rfl _
  | deliver c =>
    split at hstep <;> cases hstep
    rename_i answer hstage
    exact h.deliver hstage
  | lose c =>
    split at hstep <;> cases hstep
    rename_i answer hstage
    exact h.settle .idle rfl (by rw [hstage]; rfl) (by simp)

end

theorem System.compare_stored (hstep : s.compare sha256Hex run c state baseDigest = some s') :
    s'.stored run = s.stored run ∧ s'.history = s.history := by
  unfold System.compare at hstep
  split at hstep
  · obtain ⟨db, hlock, rfl⟩ := map_eq_some_iff.mp hstep
    have hcommitted := Db.lock_committed hlock
    split
    · simp [System.stored, System.abort, System.answer, System.set, Db.rollback, hcommitted]
    · split <;> simp [System.stored, System.abort, System.answer, System.set, Db.rollback, hcommitted]
  · cases hstep
    exact ⟨rfl, rfl⟩

theorem System.update_stored (hstep : s.update run c state baseDigest = some s') :
    s'.stored run = s.stored run ∧ s'.history = s.history := by
  unfold System.update at hstep
  split at hstep
  · cases hstep
    exact ⟨rfl, rfl⟩
  · obtain ⟨db, hwrite, rfl⟩ := map_eq_some_iff.mp hstep
    exact ⟨by simp [System.stored, Db.write_committed hwrite], rfl⟩

theorem System.step_stored (hstep : s.step sha256Hex run e = some s') (he : ∀ c, e ≠ .commit c) :
    s'.stored run = s.stored run ∧ s'.history = s.history := by
  cases e with simp only [System.step] at hstep
  | read c =>
    split at hstep <;> cases hstep
    unfold System.read
    split <;> exact ⟨rfl, rfl⟩
  | save c state =>
    split at hstep
    · simp only [ite_none_right_eq_some, some.injEq] at hstep
      obtain ⟨-, rfl⟩ := hstep
      exact ⟨rfl, rfl⟩
    · cases hstep
  | compare c =>
    split at hstep
    · exact System.compare_stored hstep
    · cases hstep
  | update c =>
    split at hstep
    · exact System.update_stored hstep
    · cases hstep
  | commit c => exact absurd rfl (he c)
  | fail c err | deliver c | lose c =>
    split at hstep <;> cases hstep
    exact ⟨rfl, rfl⟩

-- A register whose value is only replaced by a writer that knows the latest one.
def put {α : Type} (history : List α) (base : Option Nat) (new : α) : Option (List α) :=
  if history ≠ [] ∧ base = some (history.length - 1) then some (history ++ [new]) else none

theorem Inv.base_latest (h : Inv sha256Hex run s) (hsha : CollisionFree sha256Hex)
    (hstage : (s.clients c).stage = .saving progress state baseDigest)
    (hprogress : progress ≠ .begun) :
    s.history ≠ [] ∧ (s.clients c).base = some (s.history.length - 1) := by
  obtain ⟨-, row, stored, hrow, hstate, hdigest⟩ :=
    (h.client c).compared progress state baseDigest hstage hprogress
  obtain ⟨-, -, hchecksum, hne⟩ := (h.client c).fresh state baseDigest (by rw [hstage]; rfl)
  have hlast : s.history.getLast? = some stored := by
    rw [← h.stored, System.stored, hrow]
    exact hstate
  rw [getLast?_eq_getElem?] at hlast
  refine ⟨?_, ?_⟩
  · rintro hnil
    simp [hnil] at hlast
  · cases hbase : (s.clients c).base with
    | none => exact absurd (hchecksum.trans ((h.client c).unread hbase)) hne
    | some version =>
      obtain ⟨known, hknown, htext⟩ := (h.client c).base version hbase
      obtain rfl : known = stored := hsha.digest_inj (by rw [← htext, ← hchecksum, hdigest])
      have hlt := (List.getElem?_eq_some_iff.mp hknown).1
      rw [(getElem?_inj hlt h.nodup).mp (hknown.trans hlast.symm)]

theorem Inv.commit_puts (h : Inv sha256Hex run s) (hsha : CollisionFree sha256Hex)
    (hstep : s.step sha256Hex run (.commit c) = some s') :
    ∃ state, put s.history (s.clients c).base state = some s'.history ∧
      s'.stored run = some state := by
  simp only [System.step] at hstep
  split at hstep <;> cases hstep
  rename_i state baseDigest hstage
  refine ⟨state, ?_, h.commit_stored hstage⟩
  rw [put, if_pos (h.base_latest hsha hstage (by decide))]
  rfl

-- A writer that knows an earlier state gets a conflict.
theorem Inv.overtaken (h : Inv sha256Hex run s) (hsha : CollisionFree sha256Hex)
    (hstep : s.step sha256Hex run (.compare c) = some s')
    (hbase : (s.clients c).base = some version) (hlater : version + 1 < s.history.length) :
    ∃ stored, s.stored run = some stored ∧ (s'.clients c).stage =
      .answered (.failed (.conflict (digest sha256Hex stored) (s.clients c).updateCheckSum)) := by
  simp only [System.step] at hstep
  split at hstep
  · rename_i state baseDigest hstage
    obtain ⟨-, -, hchecksum, -⟩ := (h.client c).fresh state baseDigest (by rw [hstage]; rfl)
    obtain ⟨known, hknown, htext⟩ := (h.client c).base version hbase
    have hstored := h.stored
    rw [getLast?_eq_getElem?] at hstored
    cases h.compared hstage hstep with
    | missing db hlock hnone =>
      rw [hnone, eq_comm, getElem?_eq_none_iff] at hstored
      omega
    | conflict db hlock stored hsome =>
      refine ⟨stored, hsome, ?_⟩
      simp [System.abort, System.answer, hchecksum]
    | same db hlock stored hsome hsame =>
      obtain rfl : known = stored := hsha.digest_inj (by rw [← htext, ← hchecksum, hsame])
      rw [hsome] at hstored
      have heq := (getElem?_inj (by omega) h.nodup).mp (hknown.trans hstored)
      omega
  · cases hstep

-- In every interleaving of reads and writes, each Save that commits replaces exactly the
-- state its client has last read or written, one whose base was overtaken gets a conflict,
-- and nothing but a commit changes what is stored.
structure NoLostUpdate (sha256Hex : String → String) (run : UUID) (s : System) (events : List Event) :
    Prop where
  chain : ∀ mid c next, Schedule.Occurs (System.step sha256Hex run) s events mid (.commit c) next →
    ∃ state, put mid.history (mid.clients c).base state = some next.history ∧
      mid.stored run = mid.history.getLast? ∧ next.stored run = some state
  conflict : ∀ mid c next version,
    Schedule.Occurs (System.step sha256Hex run) s events mid (.compare c) next →
    (mid.clients c).base = some version → version + 1 < mid.history.length →
    ∃ stored, mid.stored run = some stored ∧ (next.clients c).stage = .answered
      (.failed (.conflict (digest sha256Hex stored) (mid.clients c).updateCheckSum))
  quiet : ∀ mid e next, Schedule.Occurs (System.step sha256Hex run) s events mid e next →
    (∀ c, e ≠ .commit c) → next.stored run = mid.stored run ∧ next.history = mid.history

theorem remote_state_no_lost_update (sha256Hex : String → String) (hsha : CollisionFree sha256Hex)
    (run : UUID) (rows : UUID → Option WorkflowRun) (events : List Event) :
    NoLostUpdate sha256Hex run (start run rows) events := by
  have hinv {mid e next} : Schedule.Occurs (System.step sha256Hex run) (start run rows) events mid e next →
      Inv sha256Hex run mid ∧ mid.step sha256Hex run e = some next := by
    intro hoccurs
    refine ⟨hoccurs.keeps _ (inv_start rows) fun _ _ _ h hstep => h.step hstep, ?_⟩
    obtain ⟨before, after, -, -, hstep⟩ := hoccurs
    exact hstep
  constructor
  · intro mid c next hoccurs
    obtain ⟨h, hstep⟩ := hinv hoccurs
    obtain ⟨state, hput, hstored⟩ := h.commit_puts hsha hstep
    exact ⟨state, hput, h.stored, hstored⟩
  · intro mid c next version hoccurs hbase hlater
    obtain ⟨h, hstep⟩ := hinv hoccurs
    exact h.overtaken hsha hstep hbase hlater
  · intro mid e next hoccurs he
    exact System.step_stored (hinv hoccurs).2 he

def markedText (text : String) : String := "#" ++ text

theorem markedText_collisionFree : CollisionFree markedText where
  injective a b h := by simpa [markedText] using h
  ne_empty text := by simp [markedText]

def twoWriters : List Event :=
  [.read 0, .deliver 0, .read 1, .deliver 1, .save 0 [1], .save 1 [2],
    .compare 0, .update 0, .commit 0, .compare 1, .deliver 0, .deliver 1]

def sharedRun : UUID → Option WorkflowRun :=
  fun _ => some ⟨0, none, .initialized, "", some [0], ""⟩

theorem twoWriters_no_lost_update : CollisionFree markedText ∧
      ((Schedule.run (System.step markedText UUID.nil) (start UUID.nil sharedRun) twoWriters).map
        (·.history)) = some [[0], [1]] ∧
      NoLostUpdate markedText UUID.nil (start UUID.nil sharedRun) twoWriters := by
  refine ⟨markedText_collisionFree, by decide +kernel, ?_⟩
  exact remote_state_no_lost_update markedText markedText_collisionFree UUID.nil sharedRun twoWriters

end Chainloop.Runs.RemoteState
