import Chainloop.Steps.Schedule
import Chainloop.Backends.Table

namespace Chainloop.Backends

open Go Schedule List Option Map

variable {db db' : Table} {org other id : UUID} {flags : Flags} {name : String}
  {provider : Provider} {maxBytes : Option Int} {saved : Except GoError Unit} {default fallback : Bool}

namespace Table

theorem find_eq_some {row : CASBackend} : db.findByIDInOrg org id = some row ↔
      db.get? id = some row ∧ row.organizationID = org ∧ row.deleted = false := by
  rw [findByIDInOrg, filter_eq_some_iff, decide_eq_true_iff]

theorem find_mapValues (db : Table) (f : UUID → CASBackend → CASBackend)
    (horg : ∀ k row, (f k row).organizationID = row.organizationID)
    (hdeleted : ∀ k row, (f k row).deleted = row.deleted) (org k : UUID) :
    findByIDInOrg (db.mapValues f) org k = (db.findByIDInOrg org k).map (f k) := by
  ext row
  simp only [find_eq_some, get?_mapValues, map_eq_some_iff]
  constructor
  · rintro ⟨⟨was, hwas, rfl⟩, hrow⟩
    rw [horg, hdeleted] at hrow
    exact ⟨was, ⟨hwas, hrow⟩, rfl⟩
  · rintro ⟨was, ⟨hwas, hrow⟩, rfl⟩
    exact ⟨⟨was, hwas, rfl⟩, by rwa [horg, hdeleted]⟩

theorem find_other_org (h : db.findByIDInOrg org id = some row)
    (hne : other ≠ org) : db.findByIDInOrg other id = none := by
  rw [eq_none_iff_forall_ne_some]
  intro row' hrow'
  obtain ⟨hget, horg, -⟩ := find_eq_some.mp h
  obtain ⟨hget', horg', -⟩ := find_eq_some.mp hrow'
  cases hget.symm.trans hget'
  exact hne (horg'.symm.trans horg)

end Table

namespace Flags

def rewrite (flags : Flags) (org : UUID) (row : CASBackend) : CASBackend :=
  flags.setFallback (flags.setDefault (flags.clear org row))

section

variable {α : Type} (column : CASBackend → α)
  (hcolumn : ∀ row d f, column { row with default := d, fallback := f } = column row)

include hcolumn

theorem clear_keeps (flags : Flags) (org : UUID) (row : CASBackend) :
    column (flags.clear org row) = column row := by
  unfold clear
  split
  · exact hcolumn row _ _
  · rfl

theorem update_keeps (flags : Flags) (org id k : UUID) (row : CASBackend) :
    column (if k = id then flags.rewrite org row else flags.clear org row) = column row := by
  rw [← clear_keeps column hcolumn flags org row]
  split
  · simp only [rewrite, setFallback, setDefault]
    split <;> split <;> first | rfl | exact hcolumn (flags.clear org row) _ _
  · rfl

end

end Flags

namespace Table

theorem find_repoUpdate (h : db.repoUpdate org id flags = .ok db') (o k : UUID) :
    db'.findByIDInOrg o k = (db.findByIDInOrg o k).map fun row =>
      if k = id then flags.rewrite org row else flags.clear org row := by
  unfold repoUpdate at h
  split at h
  · cases h
    exact find_mapValues db _ (flags.update_keeps (·.organizationID) (fun _ _ _ => rfl) org id)
      (flags.update_keeps (·.deleted) (fun _ _ _ => rfl) org id) o k
  · cases h

theorem find_repoSoftDelete (h : db.repoSoftDelete id = .ok db') (o k : UUID) :
    db'.findByIDInOrg o k = if k = id then none else db.findByIDInOrg o k := by
  unfold repoSoftDelete at h
  split at h
  · cases h
    rw [findByIDInOrg, findByIDInOrg, get?_mapValues]
    split
    · rename_i hk
      cases db.get? k <;> simp
    · rename_i hk
      simp
  · cases h

theorem find_repoCreate
    (h : db.repoCreate id org name provider flags = .ok db') (o k : UUID) :
    ¬ flags.Both ∧ db.findByIDInOrg o id = none ∧
      db'.findByIDInOrg o k = if k = id then
        if o = org then
          some ⟨org, name, provider, flags.default.getD false, flags.fallback.getD false, false, false⟩
        else none
      else (db.findByIDInOrg o k).map (flags.clear org) := by
  rw [repoCreate, guard_eq_ok, guard_eq_ok] at h
  obtain ⟨hboth, hfree, hset⟩ := h
  cases hset
  have hnone : db.get? id = none := (get?_eq_none_iff ..).mpr fun hkey => hfree (.inl hkey)
  refine ⟨hboth, by rw [findByIDInOrg, hnone]; rfl, ?_⟩
  have hclear := find_mapValues db (fun _ row => flags.clear org row)
    (fun _ => flags.clear_keeps (·.organizationID) (fun _ _ _ => rfl) org)
    (fun _ => flags.clear_keeps (·.deleted) (fun _ _ _ => rfl) org) o k
  rw [findByIDInOrg, get?_set]
  split
  · by_cases ho : o = org
    · simp [ho, filter_some]
    · simp [ho, Ne.symm ho, filter_some]
  · exact hclear

theorem findOnly_eq_ok (h : db.findOnly org p = .ok found) :
    (∀ k row, db.findByIDInOrg org k = some row → p row = true → found = some k) ∧
      ∀ k, found = some k → ∃ row, db.findByIDInOrg org k = some row ∧ p row = true := by
  have hmem : ∀ e : UUID × CASBackend,
      e ∈ (db.entries.filter fun e => e.2.organizationID = org ∧ e.2.deleted = false ∧ p e.2) ↔
        db.findByIDInOrg org e.1 = some e.2 ∧ p e.2 = true := by
    intro e
    rw [mem_filter, decide_eq_true_iff, find_eq_some, get?_eq_some_iff]
    tauto
  unfold findOnly at h
  split at h
  · rename_i hnil
    cases h
    refine ⟨fun k row hrow hp => ?_, nofun⟩
    have := (hmem (k, row)).mpr ⟨hrow, hp⟩
    rw [hnil] at this
    cases this
  · rename_i e hone
    cases h
    refine ⟨fun k row hrow hp => ?_, ?_⟩
    · have := (hmem (k, row)).mpr ⟨hrow, hp⟩
      rw [hone, mem_singleton] at this
      cases this
      rfl
    · rintro k ⟨⟩
      exact ⟨e.2, (hmem e).mp (by rw [hone]; exact mem_singleton_self e)⟩
  · cases h

theorem firstCandidate_eq_ok (h : firstCandidate exclude finders = .ok found) :
    (∀ c, found = some c → exclude ≠ some c ∧ .ok (some c) ∈ finders) ∧
      (found = none → ∀ r ∈ finders, r = .ok none ∨ ∃ c, r = .ok (some c) ∧ exclude = some c) := by
  induction finders with
  | nil =>
    cases h
    exact ⟨nofun, nofun⟩
  | cons first rest ih =>
    -- A finder is passed over when it finds nothing, or only the excluded backend.
    by_cases hskip : first = .ok none ∨ ∃ c, first = .ok (some c) ∧ exclude = some c
    · have hrest : firstCandidate exclude rest = .ok found := by
        rcases hskip with rfl | ⟨c, rfl, hc⟩
        · exact h
        · rwa [firstCandidate, if_pos hc] at h
      obtain ⟨hsome, hnone⟩ := ih hrest
      exact ⟨fun c hc => ⟨(hsome c hc).1, mem_cons_of_mem _ (hsome c hc).2⟩,
        fun hf => forall_mem_cons.mpr ⟨hskip, hnone hf⟩⟩
    · match first with
      | .error e => cases h
      | .ok none => exact absurd (.inl rfl) hskip
      | .ok (some id) =>
        have hother : exclude ≠ some id := fun h => hskip (.inr ⟨id, rfl, h⟩)
        rw [firstCandidate, if_neg hother] at h
        cases h
        refine ⟨?_, nofun⟩
        rintro c ⟨⟩
        exact ⟨hother, mem_cons_self⟩

theorem findPromotionCandidate_eq_ok (h : db.findPromotionCandidate org exclude = .ok found) :
    (∀ c, found = some c → exclude ≠ some c ∧ ∃ row, db.findByIDInOrg org c = some row ∧
        (row.fallback = true ∨ row.managed = true ∨ row.provider = .inline)) ∧
      (found = none → ∀ k row, db.findByIDInOrg org k = some row →
        row.fallback = true ∨ row.provider = .inline → exclude = some k) := by
  obtain ⟨hsome, hnone⟩ := firstCandidate_eq_ok h
  constructor
  · intro c hc
    obtain ⟨hne, hmem⟩ := hsome c hc
    refine ⟨hne, ?_⟩
    simp only [mem_cons, not_mem_nil, or_false] at hmem
    rcases hmem with hf | hf | hf <;> obtain ⟨row, hrow, hp⟩ := (findOnly_eq_ok hf.symm).2 c rfl
    · exact ⟨row, hrow, .inl hp⟩
    · exact ⟨row, hrow, .inr (.inl hp)⟩
    · exact ⟨row, hrow, .inr (.inr (of_decide_eq_true hp))⟩
  · intro hf k row hrow hkind
    have hexcluded : ∀ p, db.findOnly org p = .ok none ∨ (∃ c, db.findOnly org p = .ok (some c) ∧ exclude = some c) →
        p row = true → exclude = some k := by
      rintro p (hp | ⟨c, hp, hc⟩) hprow
      · cases (findOnly_eq_ok hp).1 k row hrow hprow
      · rw [hc, (findOnly_eq_ok hp).1 k row hrow hprow]
    rcases hkind with hfallback | hinline
    · exact hexcluded (·.fallback) (hnone hf _ (by simp)) hfallback
    · exact hexcluded (·.provider = .inline) (hnone hf _ (by simp)) (by simp [hinline])

end Table

structure Roles (isDefault isFallback : UUID → Prop) : Prop where
  default : ∃ k, isDefault k
  oneDefault : ∀ k k', isDefault k → isDefault k' → k = k'
  oneFallback : ∀ k k', isFallback k → isFallback k' → k = k'
  exclusive : ∀ k, ¬ (isDefault k ∧ isFallback k)

section

variable {D F D' F' : UUID → Prop}

theorem Roles.crown {c : UUID} (hone : ∀ k k', F k → F k' → k = k') (hD : ∀ k, D' k ↔ k = c)
    (hF : ∀ k, F' k → F k ∧ k ≠ c) : Roles D' F' := by
  refine ⟨⟨c, (hD c).mpr rfl⟩, fun k k' hk hk' => ?_, fun k k' hk hk' => ?_, fun k hk => ?_⟩
  · exact ((hD k).mp hk).trans ((hD k').mp hk').symm
  · exact hone k k' (hF k hk).1 (hF k' hk').1
  · exact (hF k hk.2).2 ((hD k).mp hk.1)

theorem Roles.fallBack (h : Roles D F) (hid : ¬ D id) (hD : ∀ k, D' k ↔ D k)
    (hF : ∀ k, F' k ↔ k = id) : Roles D' F' := by
  obtain ⟨d, hd⟩ := h.default
  refine ⟨⟨d, (hD d).mpr hd⟩, fun k k' hk hk' => ?_, fun k k' hk hk' => ?_, fun k hk => ?_⟩
  · exact h.oneDefault k k' ((hD k).mp hk) ((hD k').mp hk')
  · exact ((hF k).mp hk).trans ((hF k').mp hk').symm
  · exact hid ((hF k).mp hk.2 ▸ (hD k).mp hk.1)

theorem Roles.fewer (h : Roles D F) (hD : ∀ k, D' k ↔ D k) (hF : ∀ k, F' k → F k) : Roles D' F' := by
  obtain ⟨d, hd⟩ := h.default
  refine ⟨⟨d, (hD d).mpr hd⟩, fun k k' hk hk' => ?_, fun k k' hk hk' => ?_, fun k hk => ?_⟩
  · exact h.oneDefault k k' ((hD k).mp hk) ((hD k').mp hk')
  · exact h.oneFallback k k' (hF k hk) (hF k' hk')
  · exact h.exclusive k ⟨(hD k).mp hk.1, hF k hk.2⟩

end

namespace Table

def Is (db : Table) (org : UUID) (p : CASBackend → Bool) (k : UUID) : Prop :=
  ∃ row, db.findByIDInOrg org k = some row ∧ p row = true

def HasRoles (db : Table) (org : UUID) : Prop := Roles (db.Is org (·.default)) (db.Is org (·.fallback))

-- The inline backend that came with the organisation is still there, and nobody has
-- provisioned a managed one.
structure Kinds (db : Table) (org : UUID) : Prop where
  inline : ∃ i, ∀ k, db.Is org (·.provider = .inline) k ↔ k = i
  unmanaged : ∀ k, ¬ db.Is org (·.managed) k

structure Kept (db : Table) (org : UUID) : Prop where
  roles : db.HasRoles org
  kinds : db.Kinds org

theorem Kinds.congr (h : db.Kinds org)
    (hinline : ∀ k, db'.Is org (·.provider = .inline) k ↔ db.Is org (·.provider = .inline) k)
    (hmanaged : ∀ k, db'.Is org (·.managed) k → db.Is org (·.managed) k) : db'.Kinds org := by
  obtain ⟨i, hi⟩ := h.inline
  exact ⟨⟨i, fun k => (hinline k).trans (hi k)⟩, fun k hk => h.unmanaged k (hmanaged k hk)⟩

theorem Kept.congr (h : db.Kept org)
    (hfind : ∀ k, db'.findByIDInOrg org k = db.findByIDInOrg org k) : db'.Kept org := by
  have his : ∀ p k, db'.Is org p k ↔ db.Is org p k := by
    intro p k
    rw [Is, Is, hfind]
  exact ⟨h.roles.fewer (his _) fun k hk => (his _ k).mp hk,
    h.kinds.congr (his _) fun k hk => (his _ k).mp hk⟩

theorem find_repoUpdate_other (h : db.repoUpdate other id flags = .ok db') (hne : org ≠ other)
    (hid : db.findByIDInOrg org id = none) (k : UUID) :
    db'.findByIDInOrg org k = db.findByIDInOrg org k := by
  rw [find_repoUpdate h]
  by_cases hk : k = id
  · rw [hk, hid]
    rfl
  · cases hrow : db.findByIDInOrg org k with
    | none => rfl
    | some row =>
      obtain ⟨-, horg, -⟩ := find_eq_some.mp hrow
      simp [hk, Flags.clear, horg, hne]

theorem promote_eq_ok (h : db.promoteNextAvailableBackend org exclude = .ok db') :
    (db.findPromotionCandidate org exclude = .ok none ∧ db' = db) ∨
      ∃ c, db.findPromotionCandidate org exclude = .ok (some c) ∧ db.repoUpdate .nil c ⟨some true, none⟩ = .ok db' := by
  obtain ⟨found, hfound, hrest⟩ := bind_eq_ok.mp h
  cases found with
  | none =>
    cases hrest
    exact .inl ⟨hfound, rfl⟩
  | some c => exact .inr ⟨c, hfound, hrest⟩

theorem find_promote_other
    (h : db.promoteNextAvailableBackend other exclude = .ok db') (hne : org ≠ other)
    (hnil : org ≠ .nil) (k : UUID) : db'.findByIDInOrg org k = db.findByIDInOrg org k := by
  rcases promote_eq_ok h with ⟨-, rfl⟩ | ⟨c, hc, hupdate⟩
  · rfl
  · obtain ⟨-, row, hrow, -⟩ := (findPromotionCandidate_eq_ok hc).1 c rfl
    exact find_repoUpdate_other hupdate hnil (find_other_org hrow hne) k

theorem flags_cases (hboth : ¬ flags.Both) (org : UUID) :
    (∀ row, row.organizationID = org → (flags.rewrite org row).default = true ∧
        (flags.rewrite org row).fallback = false ∧ (flags.clear org row).default = false ∧
        (flags.clear org row).fallback = row.fallback) ∨
      (flags.fallback = some true ∧ ∀ row, row.organizationID = org → (flags.rewrite org row).default = false ∧
        (flags.rewrite org row).fallback = true ∧ (flags.clear org row).default = row.default ∧
        (flags.clear org row).fallback = false) ∨
      (flags.fallback ≠ some true ∧ ∀ row, row.organizationID = org →
        (flags.rewrite org row).default = (row.default && flags.default ≠ some false) ∧
        (flags.rewrite org row).fallback = (row.fallback && flags.fallback ≠ some false) ∧
        flags.clear org row = row) := by
  obtain ⟨default, fallback⟩ := flags
  by_cases hd : default = some true
  · subst hd
    have hf : fallback ≠ some true := fun hf => hboth ⟨rfl, hf⟩
    refine .inl fun row horg => ?_
    match fallback with
    | none => simp [Flags.rewrite, Flags.setFallback, Flags.setDefault, Flags.clear, horg]
    | some false => simp [Flags.rewrite, Flags.setFallback, Flags.setDefault, Flags.clear, horg]
    | some true => exact absurd rfl hf
  · by_cases hf : fallback = some true
    · subst hf
      refine .inr (.inl ⟨rfl, fun row horg => ?_⟩)
      simp [Flags.rewrite, Flags.setFallback, Flags.clear, horg, hd]
    · refine .inr (.inr ⟨hf, fun row horg => ?_⟩)
      match default, fallback with
      | none, none | none, some false | some false, none | some false, some false =>
        simp [Flags.rewrite, Flags.setFallback, Flags.setDefault, Flags.clear]
      | some true, _ => exact absurd rfl hd
      | _, some true => exact absurd rfl hf

theorem is_iff (h : db.findByIDInOrg org id = some row)
    (p : CASBackend → Bool) : db.Is org p id ↔ p row = true := by
  simp [Is, h]

theorem not_is_false (db : Table) (org k : UUID) : ¬ db.Is org (fun _ => false) k := by
  simp [Is]

theorem is_of_map (h : db'.findByIDInOrg org k = (db.findByIDInOrg org k).map f)
    (hpq : ∀ row, row.organizationID = org → p (f row) = q row) :
    db'.Is org p k ↔ db.Is org q k := by
  rw [Is, h]
  constructor
  · rintro ⟨row', hrow', hp⟩
    obtain ⟨row, hrow, rfl⟩ := map_eq_some_iff.mp hrow'
    exact ⟨row, hrow, by rw [← hpq row (find_eq_some.mp hrow).2.1, hp]⟩
  · rintro ⟨row, hrow, hq⟩
    exact ⟨_, map_eq_some_iff.mpr ⟨row, hrow, rfl⟩, by rw [hpq row (find_eq_some.mp hrow).2.1, hq]⟩

theorem repoUpdate_cases {before : CASBackend}
    (hbefore : db.findByIDInOrg org id = some before) (hboth : ¬ flags.Both)
    (h : db.repoUpdate org id flags = .ok db') :
    ((flags.rewrite org before).default = true ∧ (∀ k, db'.Is org (·.default) k ↔ k = id) ∧
        ∀ k, db'.Is org (·.fallback) k ↔ db.Is org (·.fallback) k ∧ k ≠ id) ∨
      (flags.fallback = some true ∧ (flags.rewrite org before).default = false ∧
        (∀ k, db'.Is org (·.default) k ↔ db.Is org (·.default) k ∧ k ≠ id) ∧
        ∀ k, db'.Is org (·.fallback) k ↔ k = id) ∨
      (flags.fallback ≠ some true ∧
        (flags.rewrite org before).default = (before.default && flags.default ≠ some false) ∧
        (∀ k, db'.Is org (·.default) k ↔ db.Is org (·.default) k ∧ (k = id → flags.default ≠ some false)) ∧
        ∀ k, db'.Is org (·.fallback) k ↔ db.Is org (·.fallback) k ∧ (k = id → flags.fallback ≠ some false)) := by
  have hfind : db'.findByIDInOrg org id = some (flags.rewrite org before) := by
    rw [find_repoUpdate h, hbefore, map_some, if_pos rfl]
  have his {p q : CASBackend → Bool} {b : Bool} : p (flags.rewrite org before) = b →
      (∀ row, row.organizationID = org → p (flags.clear org row) = q row) →
      ∀ k, db'.Is org p k ↔ if k = id then b = true else db.Is org q k := by
    intro hp hpq k
    split_ifs with hk
    · rw [hk, is_iff hfind, hp]
    · exact is_of_map (find_repoUpdate h ..) fun row hrow => by rw [if_neg hk, hpq row hrow]
  have horg : before.organizationID = org := (find_eq_some.mp hbefore).2.1
  rcases flags_cases hboth org with hset | ⟨hf, hset⟩ | ⟨hf, hset⟩
  · refine .inl ⟨(hset before horg).1, fun k => ?_, fun k => ?_⟩
    · rw [his (q := fun _ => false) (hset before horg).1 fun row hrow => (hset row hrow).2.2.1]
      simp [not_is_false]
    · rw [his (hset before horg).2.1 fun row hrow => (hset row hrow).2.2.2]
      by_cases hk : k = id <;> simp [hk]
  · refine .inr (.inl ⟨hf, (hset before horg).1, fun k => ?_, fun k => ?_⟩)
    · rw [his (hset before horg).1 fun row hrow => (hset row hrow).2.2.1]
      by_cases hk : k = id <;> simp [hk]
    · rw [his (q := fun _ => false) (hset before horg).2.1 fun row hrow => (hset row hrow).2.2.2]
      simp [not_is_false]
  · refine .inr (.inr ⟨hf, (hset before horg).1, fun k => ?_, fun k => ?_⟩)
    · rw [his (hset before horg).1 fun row hrow => by rw [(hset row hrow).2.2]]
      by_cases hk : k = id <;> simp [hk, is_iff hbefore]
    · rw [his (hset before horg).2.1 fun row hrow => by rw [(hset row hrow).2.2]]
      by_cases hk : k = id <;> simp [hk, is_iff hbefore]

theorem repoUpdate_kinds (h : db.repoUpdate other id flags = .ok db')
    (p : CASBackend → Bool) (hp : ∀ row d f, p { row with default := d, fallback := f } = p row)
    (k : UUID) :
    db'.Is org p k ↔ db.Is org p k :=
  is_of_map (find_repoUpdate h ..) fun row _ => flags.update_keeps p hp other id k row

theorem Kinds.repoUpdate (hkinds : db.Kinds org)
    (h : db.repoUpdate other id flags = .ok db') : db'.Kinds org :=
  hkinds.congr (repoUpdate_kinds h _ fun _ _ _ => rfl) fun k hk => (repoUpdate_kinds h _ (fun _ _ _ => rfl) k).mp hk

theorem roles_promoted (hnil : org ≠ .nil) (hnone : ∀ k, ¬ db.Is org (·.default) k)
    (hone : ∀ k k', db.Is org (·.fallback) k → db.Is org (·.fallback) k' → k = k')
    (hc : db.findByIDInOrg org c = some row) (h : db.repoUpdate .nil c ⟨some true, none⟩ = .ok db') :
    db'.HasRoles org := by
  have hfind : db'.findByIDInOrg org c = some { row with default := true, fallback := false } := by
    have horg := (find_eq_some.mp hc).2.1
    simp [find_repoUpdate h, hc, Flags.rewrite, Flags.setFallback, Flags.setDefault, Flags.clear, horg, hnil]
  have hother (p k) : k ≠ c → (db'.Is org p k ↔ db.Is org p k) := by
    intro hk
    refine is_of_map (find_repoUpdate h ..) fun other hother => ?_
    simp [hk, Flags.clear, hother, hnil]
  refine Roles.crown (c := c) hone (fun k => ?_) (fun k hk => ?_)
  · by_cases hk : k = c
    · simp [hk, is_iff hfind]
    · simp [hk, hother _ k hk, hnone k]
  · by_cases hkc : k = c
    · rw [hkc, is_iff hfind] at hk
      cases hk
    · exact ⟨(hother _ k hkc).mp hk, hkc⟩

theorem update_eq_ok (h : db.update org id flags maxBytes saved = .ok db') :
    ∃ before updated, db.findByIDInOrg org id = some before ∧ ¬ flags.Both ∧
      db.repoUpdate org id flags = .ok updated ∧
      (¬ (before.default = true ∧ (flags.rewrite org before).default = false) ∧ db' = updated ∨
        before.default = true ∧ (flags.rewrite org before).default = false ∧
          updated.promoteNextAvailableBackend org (some id) = .ok db') := by
  unfold update at h
  split at h
  · cases h
  · rename_i before hbefore
    rw [guard_eq_ok, guard_eq_ok, guard_eq_ok, guard_eq_ok] at h
    obtain ⟨hboth, -, -, -, hrest⟩ := h
    obtain ⟨-, -, hrest⟩ := bind_eq_ok.mp hrest
    obtain ⟨updated, hupdated, hrest⟩ := bind_eq_ok.mp hrest
    have hafter : updated.findByIDInOrg org id = some (flags.rewrite org before) := by
      rw [find_repoUpdate hupdated, hbefore, map_some, if_pos rfl]
    refine ⟨before, updated, hbefore, hboth, hupdated, ?_⟩
    simp only [hafter, any_some, decide_eq_true_eq] at hrest
    split at hrest
    · rename_i hdemoted
      exact .inr ⟨hdemoted.1, hdemoted.2, (wrapErr_eq_ok ..).mp hrest⟩
    · rename_i hkept
      cases hrest
      exact .inl ⟨hkept, rfl⟩

theorem softDelete_eq_ok (h : db.softDelete org id = .ok db') :
    ∃ backend deleted, db.findByIDInOrg org id = some backend ∧ backend.provider ≠ .inline ∧
      db.repoSoftDelete id = .ok deleted ∧
      (backend.default = false ∧ db' = deleted ∨
        backend.default = true ∧ deleted.promoteNextAvailableBackend org none = .ok db') := by
  unfold softDelete at h
  split at h
  · cases h
  · rename_i backend hbackend
    rw [guard_eq_ok, guard_eq_ok] at h
    obtain ⟨hinline, -, hrest⟩ := h
    obtain ⟨deleted, hdeleted, hrest⟩ := bind_eq_ok.mp hrest
    refine ⟨backend, deleted, hbackend, hinline, hdeleted, ?_⟩
    split at hrest
    · rename_i hdefault
      exact .inr ⟨hdefault, (wrapErr_eq_ok ..).mp hrest⟩
    · rename_i hdefault
      cases hrest
      exact .inl ⟨Bool.not_eq_true _ ▸ hdefault, rfl⟩

theorem create_eq_ok {validateIsDNS1123 : String → Except GoError Unit}
    (h : db.create validateIsDNS1123 id org name provider default fallback maxBytes saved = .ok db') :
    provider ≠ .inline ∧ db.repoCreate id org name provider ⟨some default, some fallback⟩ = .ok db' := by
  rw [create, guard_eq_ok, guard_eq_ok, guard_eq_ok] at h
  obtain ⟨hinline, -, -, hrest⟩ := h
  obtain ⟨-, -, hrest⟩ := bind_eq_ok.mp hrest
  rw [guard_eq_ok] at hrest
  obtain ⟨-, -, hrest⟩ := bind_eq_ok.mp hrest.2
  exact ⟨hinline, mapError_eq_ok.mp hrest⟩

-- The operation takes the default flag from the inline backend while the organisation has no
-- other backend to promote.
def Strands (db : Table) (org : UUID) : Operation → Prop
  | .update other id flags _ _ => other = org ∧ db.Is org (·.provider = .inline) id ∧
      db.Is org (·.default) id ∧ (flags.default = some false ∨ flags.fallback = some true) ∧
      (flags.fallback = some true ∨ ∀ k, ¬ db.Is org (·.fallback) k)
  | .create .. | .softDelete .. => False

theorem is_repoCreate
    (h : db.repoCreate id org name provider ⟨some default, some fallback⟩ = .ok db')
    (p : CASBackend → Bool) (k : UUID) :
    db'.Is org p k ↔ if k = id then p ⟨org, name, provider, default, fallback, false, false⟩ = true
      else db.Is org (fun row =>
        p { row with default := row.default && !default, fallback := row.fallback && !fallback }) k := by
  have hfind := (find_repoCreate h org k).2.2
  split_ifs with hk
  · refine is_iff ?_ p
    rw [hfind, if_pos hk, if_pos rfl]
    rfl
  · refine is_of_map (by rw [hfind, if_neg hk]) fun row hrow => ?_
    simp [Flags.clear, hrow]

theorem Kept.create (hkept : db.Kept org) (hinline : provider ≠ .inline)
    (h : db.repoCreate id other name provider ⟨some default, some fallback⟩ = .ok db') : db'.Kept org := by
  obtain ⟨hboth, hfresh, -⟩ := find_repoCreate h org id
  by_cases horg : org = other
  · subst horg
    have hnew : ∀ p, ¬ db.Is org p id := by
      rintro p ⟨row, hrow, -⟩
      rw [hfresh] at hrow
      cases hrow
    have hD : ∀ k, db'.Is org (·.default) k ↔ if default then k = id else db.Is org (·.default) k := by
      intro k
      rw [is_repoCreate h]
      by_cases hk : k = id
      · cases default <;> simp [hk, hnew]
      · cases default <;> simp [hk, not_is_false]
    have hF (k) : db'.Is org (·.fallback) k ↔ if fallback then k = id else db.Is org (·.fallback) k := by
      rw [is_repoCreate h]
      by_cases hk : k = id
      · cases fallback <;> simp [hk, hnew]
      · cases fallback <;> simp [hk, not_is_false]
    refine ⟨?_, hkept.kinds.congr (fun k => ?_) (fun k hk => ?_)⟩
    · cases hd : default <;> cases hf : fallback <;> simp only [hd, hf, Bool.false_eq_true, if_true, if_false] at hD hF
      · exact hkept.roles.fewer hD fun k hk => (hF k).mp hk
      · exact hkept.roles.fallBack (hnew _) hD hF
      · refine Roles.crown hkept.roles.oneFallback hD fun k hk => ⟨(hF k).mp hk, ?_⟩
        rintro rfl
        exact hnew _ ((hF k).mp hk)
      · exact absurd ⟨congrArg some hd, congrArg some hf⟩ hboth
    · rw [is_repoCreate h]
      by_cases hk : k = id
      · simp [hk, hnew, hinline]
      · simp [hk]
    · rw [is_repoCreate h] at hk
      split at hk
      · cases hk
      · exact hk
  · refine hkept.congr fun k => ?_
    rw [(find_repoCreate h org k).2.2]
    split
    · rename_i hk
      rw [hk, hfresh]
    · cases hrow : db.findByIDInOrg org k with
      | none => rfl
      | some row => simp [Flags.clear, (find_eq_some.mp hrow).2.1, horg]

theorem Kept.softDelete (hnil : org ≠ .nil) (hkept : db.Kept org)
    (h : db.softDelete other id = .ok db') : db'.Kept org := by
  obtain ⟨backend, deleted, hbackend, hinline, hdeleted, hrest⟩ := softDelete_eq_ok h
  have hfind := find_repoSoftDelete hdeleted org
  by_cases horg : org = other
  · subst horg
    have his (p k) : deleted.Is org p k ↔ db.Is org p k ∧ k ≠ id := by
      by_cases hk : k = id <;> simp [Is, hfind, hk]
    have hkinds : deleted.Kinds org := by
      refine hkept.kinds.congr (fun k => ?_) (fun k hk => ((his _ k).mp hk).1)
      rw [his, and_iff_left_iff_imp]
      rintro hk rfl
      rw [is_iff hbackend, decide_eq_true_iff] at hk
      exact hinline hk
    rcases hrest with ⟨hdefault, rfl⟩ | ⟨hdefault, hpromote⟩
    · refine ⟨hkept.roles.fewer (fun k => ?_) (fun k hk => ((his _ k).mp hk).1), hkinds⟩
      rw [his, and_iff_left_iff_imp]
      rintro hk rfl
      rw [is_iff hbackend, hdefault] at hk
      cases hk
    · have hnone (k) : ¬ deleted.Is org (·.default) k := by
        intro hk
        obtain ⟨hold, hne⟩ := (his _ k).mp hk
        exact hne (hkept.roles.oneDefault k id hold ((is_iff hbackend _).mpr hdefault))
      rcases promote_eq_ok hpromote with ⟨hcandidate, -⟩ | ⟨c, hcandidate, hupdate⟩
      · -- The inline backend is always there to be promoted.
        obtain ⟨i, hi⟩ := hkinds.inline
        obtain ⟨row, hrow, hp⟩ := (hi i).mpr rfl
        cases (findPromotionCandidate_eq_ok hcandidate).2 rfl i row hrow (.inr (of_decide_eq_true hp))
      · obtain ⟨-, row, hrow, -⟩ := (findPromotionCandidate_eq_ok hcandidate).1 c rfl
        refine ⟨roles_promoted hnil hnone (fun k k' hk hk' => ?_) hrow hupdate, hkinds.repoUpdate hupdate⟩
        exact hkept.roles.oneFallback k k' ((his _ k).mp hk).1 ((his _ k').mp hk').1
  · have hsame (k) : deleted.findByIDInOrg org k = db.findByIDInOrg org k := by
      rw [hfind]
      split
      · rename_i hk
        rw [hk, find_other_org hbackend horg]
      · rfl
    rcases hrest with ⟨-, rfl⟩ | ⟨-, hpromote⟩
    · exact hkept.congr hsame
    · exact hkept.congr fun k => (find_promote_other hpromote horg hnil k).trans (hsame k)

theorem demoted_iff (hboth : ¬ flags.Both) {row : CASBackend}
    (horg : row.organizationID = org) (hdefault : row.default = true) :
    (flags.rewrite org row).default = false ↔ flags.default = some false ∨ flags.fallback = some true := by
  obtain ⟨d, f⟩ := flags
  match d, f with
  | some true, some true => exact absurd ⟨rfl, rfl⟩ hboth
  | none, none | none, some false | none, some true | some false, none | some false, some false
  | some false, some true | some true, none | some true, some false =>
    simp [Flags.rewrite, Flags.setFallback, Flags.setDefault, Flags.clear, horg, hdefault]

section

variable {db updated : Table} {org id : UUID} {flags : Flags} {before : CASBackend}

theorem roles_updated (hroles : db.HasRoles org) (hbefore : db.findByIDInOrg org id = some before)
    (hboth : ¬ flags.Both) (h : db.repoUpdate org id flags = .ok updated)
    (hstays : ¬ (before.default = true ∧ (flags.rewrite org before).default = false)) : updated.HasRoles org := by
  rcases repoUpdate_cases hbefore hboth h with ⟨-, hD, hF⟩ | ⟨-, hafter, hD, hF⟩ | ⟨-, hafter, hD, hF⟩
  · exact Roles.crown hroles.oneFallback hD fun k hk => (hF k).mp hk
  · have hid : ¬ db.Is org (·.default) id := by
      rw [is_iff hbefore]
      exact fun hdefault => hstays ⟨hdefault, hafter⟩
    refine hroles.fallBack hid (fun k => ?_) hF
    rw [hD, and_iff_left_iff_imp]
    rintro hk rfl
    exact hid hk
  · refine hroles.fewer (fun k => ?_) fun k hk => ((hF k).mp hk).1
    rw [hD, and_iff_left_iff_imp]
    rintro hk rfl hcleared
    rw [is_iff hbefore] at hk
    exact hstays ⟨hk, by rw [hafter, hcleared]; simp⟩

theorem demoted_roles (hroles : db.HasRoles org) (hbefore : db.findByIDInOrg org id = some before)
    (hboth : ¬ flags.Both) (h : db.repoUpdate org id flags = .ok updated)
    (hdefault : before.default = true) (hafter : (flags.rewrite org before).default = false) :
    (∀ k, ¬ updated.Is org (·.default) k) ∧
      (∀ k k', updated.Is org (·.fallback) k → updated.Is org (·.fallback) k' → k = k') ∧
      ∀ k, k ≠ id → (updated.Is org (·.fallback) k ↔ flags.fallback ≠ some true ∧ db.Is org (·.fallback) k) := by
  have hone : ∀ k, db.Is org (·.default) k → k = id :=
    fun k hk => hroles.oneDefault k id hk ((is_iff hbefore _).mpr hdefault)
  rcases repoUpdate_cases hbefore hboth h with ⟨hset, -, -⟩ | ⟨hf, -, hD, hF⟩ | ⟨hf, hset, hD, hF⟩
  · rw [hafter] at hset
    cases hset
  · refine ⟨fun k hk => ?_, fun k k' hk hk' => ?_, fun k hk => ?_⟩
    · exact ((hD k).mp hk).2 (hone k ((hD k).mp hk).1)
    · exact ((hF k).mp hk).trans ((hF k').mp hk').symm
    · simp [hF, hk, hf]
  · rw [hafter, hdefault, Bool.true_and] at hset
    refine ⟨fun k hk => ?_, fun k k' hk hk' => ?_, fun k hk => ?_⟩
    · obtain ⟨hold, hcleared⟩ := (hD k).mp hk
      exact of_decide_eq_false hset.symm (hcleared (hone k hold))
    · exact hroles.oneFallback k k' ((hF k).mp hk).1 ((hF k').mp hk').1
    · simp [hF, hk, hf]

end

theorem Kept.update (hnil : org ≠ .nil) (hkept : db.Kept org)
    (h : db.update other id flags maxBytes saved = .ok db') :
    ¬ db.Strands org (.update other id flags maxBytes saved) ∧ db'.Kept org ∨
      db.Strands org (.update other id flags maxBytes saved) ∧ ¬ db'.HasRoles org := by
  obtain ⟨before, updated, hbefore, hboth, hupdated, hrest⟩ := update_eq_ok h
  by_cases horg : org = other
  · subst horg
    have hrow : before.organizationID = org := (find_eq_some.mp hbefore).2.1
    have hkinds := hkept.kinds.repoUpdate hupdated
    have hinline : ∀ k, updated.Is org (·.provider = .inline) k ↔ db.Is org (·.provider = .inline) k :=
      repoUpdate_kinds hupdated _ fun _ _ _ => rfl
    obtain ⟨i, hi⟩ := hkinds.inline
    rcases hrest with ⟨hstays, rfl⟩ | ⟨hdefault, hafter, hpromote⟩
    · refine .inl ⟨?_, roles_updated hkept.roles hbefore hboth hupdated hstays, hkinds⟩
      rintro ⟨-, -, hdefault, hdemotes, -⟩
      rw [is_iff hbefore] at hdefault
      exact hstays ⟨hdefault, (demoted_iff hboth hrow hdefault).mpr hdemotes⟩
    · obtain ⟨hnone, hone, hfallback⟩ := demoted_roles hkept.roles hbefore hboth hupdated hdefault hafter
      rcases promote_eq_ok hpromote with ⟨hcandidate, rfl⟩ | ⟨c, hcandidate, hpromoted⟩
      · have hexcluded := (findPromotionCandidate_eq_ok hcandidate).2 rfl
        refine .inr ⟨⟨rfl, ?_, (is_iff hbefore _).mpr hdefault, (demoted_iff hboth hrow hdefault).mp hafter, ?_⟩, ?_⟩
        · obtain ⟨row, hfind, hp⟩ := (hi i).mpr rfl
          cases hexcluded i row hfind (.inr (of_decide_eq_true hp))
          exact (hinline id).mp ((hi id).mpr rfl)
        · refine or_iff_not_imp_left.mpr fun hf k hk => ?_
          have hne : k ≠ id := by
            rintro rfl
            exact hkept.roles.exclusive k ⟨(is_iff hbefore _).mpr hdefault, hk⟩
          obtain ⟨row, hfind, hp⟩ := (hfallback k hne).mpr ⟨hf, hk⟩
          exact hne (some.inj (hexcluded k row hfind (.inl hp))).symm
        · intro hroles
          obtain ⟨k, hk⟩ := hroles.default
          exact hnone k hk
      · obtain ⟨hexclude, row, hfind, hkind⟩ := (findPromotionCandidate_eq_ok hcandidate).1 c rfl
        have hne : c ≠ id := fun hc => hexclude (congrArg some hc.symm)
        refine .inl ⟨?_, roles_promoted hnil hnone hone hfind hpromoted, hkinds.repoUpdate hpromoted⟩
        rintro ⟨-, hid, -, -, hlone⟩
        rcases hkind with hp | hp | hp
        · obtain ⟨hf, hk⟩ := (hfallback c hne).mp ⟨row, hfind, hp⟩
          exact hlone.elim hf fun hnofallback => hnofallback c hk
        · exact hkinds.unmanaged c ⟨row, hfind, hp⟩
        · have hc := (hi c).mp ⟨row, hfind, decide_eq_true hp⟩
          exact hne (hc.trans ((hi id).mp ((hinline id).mpr hid)).symm)
  · refine .inl ⟨fun hstrands => horg hstrands.1.symm, ?_⟩
    have hsame := find_repoUpdate_other hupdated horg (find_other_org hbefore horg)
    rcases hrest with ⟨-, rfl⟩ | ⟨-, -, hpromote⟩
    · exact hkept.congr hsame
    · exact hkept.congr fun k => (find_promote_other hpromote horg hnil k).trans (hsame k)

section

variable {validateIsDNS1123 : String → Except GoError Unit}

theorem Kept.step {op : Operation} (hnil : org ≠ .nil) (hkept : db.Kept org)
    (h : db.step validateIsDNS1123 op = some db') :
    ¬ db.Strands org op ∧ db'.Kept org ∨ db.Strands org op ∧ ¬ db'.HasRoles org := by
  have happly := eq_ok_of_toOption h
  cases op with
  | create =>
    obtain ⟨hinline, hcreate⟩ := create_eq_ok happly
    exact .inl ⟨id, hkept.create hinline hcreate⟩
  | update => exact hkept.update hnil happly
  | softDelete => exact .inl ⟨id, hkept.softDelete hnil happly⟩

theorem kept_createInlineBackend {start : Table}
    (hnew : ∀ k row, db.get? k = some row → row.organizationID ≠ org)
    (h : db.createInlineBackend id org = .ok start) : start.Kept org := by
  have hnone : ∀ k, db.findByIDInOrg org k = none := by
    intro k
    rw [eq_none_iff_forall_ne_some]
    intro row hrow
    exact hnew k row (find_eq_some.mp hrow).1 (find_eq_some.mp hrow).2.1
  have hfind (k) : start.findByIDInOrg org k =
      if k = id then some ⟨org, "default-inline", .inline, true, false, false, false⟩ else none := by
    rw [(find_repoCreate h org k).2.2, hnone, if_pos rfl]
    rfl
  have his (p k) : start.Is org p k ↔
      k = id ∧ p ⟨org, "default-inline", .inline, true, false, false, false⟩ = true := by
    by_cases hk : k = id <;> simp [Is, hfind]
  refine ⟨Roles.crown (c := id) (F := fun _ => False) nofun (fun k => ?_) (fun k hk => ?_), ⟨id, fun k => ?_⟩, fun k hk => ?_⟩
  · simp [his]
  · simp [his] at hk
  · simp [his]
  · simp [his] at hk

theorem backend_roles_iff_never_stranded {db start : Table} {inlineID org : UUID} (hnil : org ≠ .nil)
    (hnew : ∀ k row, db.get? k = some row → row.organizationID ≠ org)
    (hstart : db.createInlineBackend inlineID org = .ok start) (ops : List Operation) :
    (∀ before after mid, ops = before ++ after → run (step validateIsDNS1123) start before = some mid →
        mid.HasRoles org) ↔
      ∀ mid op next, Occurs (step validateIsDNS1123) start ops mid op next → ¬ mid.Strands org op := by
  have hkept := kept_createInlineBackend hnew hstart
  constructor
  · intro hroles mid op next hoccurs hstrands
    -- Every state on the way has its roles, so that the step lemma applies to each of them.
    have hmid : ∀ before after, ops = before ++ op :: after →
        run (step validateIsDNS1123) start before = some mid → mid.Kept org := by
      rintro before after rfl hbefore
      refine run_keeps_along (fun db : Table => db.Kept org) hkept ?_ hbefore
      intro mid' op' next' hpast hmid'
      obtain ⟨past, rest, hops, hrun⟩ := (hpast.extend (op :: after)).reaches
      exact ((hmid'.step hnil hpast.step_eq).resolve_right fun h => h.2 (hroles past rest next' hops hrun)).2
    obtain ⟨past, rest, hops, hrun⟩ := hoccurs.reaches
    obtain ⟨before, after, hsplit, hbefore, hstep⟩ := hoccurs
    rcases (hmid before after hsplit hbefore).step hnil hstep with hkeeps | hloses
    · exact hkeeps.1 hstrands
    · exact hloses.2 (hroles past rest next hops hrun)
  · rintro hnever before after mid rfl hbefore
    refine (run_keeps_along (fun db : Table => db.Kept org) hkept ?_ hbefore).roles
    intro mid' op next hpast hmid'
    exact ((hmid'.step hnil hpast.step_eq).resolve_right fun h => hnever mid' op next (hpast.extend after) h.1).2

end

def inlineOnly : Table := (createInlineBackend .empty (.ofByte 1) (.ofByte 9)).toOption.getD .empty

def addFallback : Operation := .create (.ofByte 2) (.ofByte 9) "spare" .s3 false true none (.ok ())

def demoteInline : Operation := .update (.ofByte 9) (.ofByte 1) ⟨some false, none⟩ none (.ok ())

theorem fallback_takes_over :
    ((run (step fun _ => .ok ()) inlineOnly [addFallback, demoteInline]).map fun db =>
        db.entries.map fun e => (e.1, e.2.default, e.2.fallback)) =
        some [(.ofByte 1, false, false), (.ofByte 2, true, false)] ∧
      ((∀ before after mid, [addFallback, demoteInline] = before ++ after →
          run (step fun _ => .ok ()) inlineOnly before = some mid → mid.HasRoles (.ofByte 9)) ↔
        ∀ mid op next, Occurs (step fun _ => .ok ()) inlineOnly [addFallback, demoteInline] mid op next →
          ¬ mid.Strands (.ofByte 9) op) :=
  ⟨by decide +kernel, backend_roles_iff_never_stranded (by decide) (fun _ _ h => by cases h)
    (eq_ok_of_toOption (by decide +kernel : (createInlineBackend .empty (.ofByte 1) (.ofByte 9)).toOption =
      some inlineOnly)) _⟩

theorem no_default_backend_left :
    createInlineBackend .empty (.ofByte 1) (.ofByte 9) = .ok inlineOnly ∧
      ∃ db, run (step fun _ => .ok ()) inlineOnly [demoteInline] = some db ∧ ¬ db.HasRoles (.ofByte 9) := by
  refine ⟨eq_ok_of_toOption (by decide +kernel), ?_⟩
  have hrun : ((run (step fun _ => .ok ()) inlineOnly [demoteInline]).map fun db =>
      db.entries.map fun e => (e.1, e.2.default)) = some [(.ofByte 1, false)] := by decide +kernel
  obtain ⟨db, hdb, hentries⟩ := map_eq_some_iff.mp hrun
  refine ⟨db, hdb, fun hroles => ?_⟩
  obtain ⟨k, row, hrow, hdefault⟩ := hroles.default
  have hmem := (get?_eq_some_iff ..).mp (find_eq_some.mp hrow).1
  have hflag : (k, row.default) ∈ db.entries.map fun e => (e.1, e.2.default) :=
    mem_map.mpr ⟨(k, row), hmem, rfl⟩
  rw [hentries, mem_singleton] at hflag
  have hdemoted : row.default = false := (Prod.mk.inj hflag).2
  cases hdemoted.symm.trans hdefault

end Table

end Chainloop.Backends
