import StatusRelay.Registry
import StatusRelay.Proofs.Tables

/-!
# Who holds the watches

`Registry.Sound` says that a kind is held by somebody or not at all, and that of all watches ever
started exactly those run that a held kind points at. `acquire` and `release` keep it, and change
the holders of one kind by one UID. A watch runs on as long as its kind stays held.
-/
namespace StatusRelay.Registry

variable {r : Registry} {kind other : ResourceKind} {resource : ApiResource} {uid u : String}

/-- A UID holds a kind. -/
def Holds (r : Registry) (kind : ResourceKind) (uid : String) : Prop :=
  ∃ h, r.held.get? kind = some h ∧ uid ∈ h.uids

/-- The intake of a kind's watch. -/
def intake? (r : Registry) (kind : ResourceKind) : Option Ingest := do
  let h ← r.held.get? kind
  let w ← r.started[h.watch]?
  pure w.ingest

theorem lister?_eq (r : Registry) (kind : ResourceKind) :
    r.lister? kind = (r.intake? kind).map Ingest.cache := by
  unfold lister? intake?
  cases r.held.get? kind with
  | none => rfl
  | some h => cases hw : r.started[h.watch]? <;> simp [hw]

structure Sound (r : Registry) : Prop where
  held : ∀ kind h, r.held.get? kind = some h → h.uids.Nodup ∧ h.uids ≠ []
  watched : ∀ kind h, r.held.get? kind = some h →
    ∃ w, r.started[h.watch]? = some w ∧ w.kind = kind ∧ w.stopped = false
  running : ∀ (n : Nat) w, r.started[n]? = some w → w.stopped = false →
    ∃ h, r.held.get? w.kind = some h ∧ h.watch = n
  intakes : ∀ (n : Nat) w, r.started[n]? = some w → w.ingest.kind = w.kind

theorem sound_empty : ({} : Registry).Sound where
  held := by intro kind h hg; cases hg
  watched := by intro kind h hg; cases hg
  running := by intro n w hn; simp at hn
  intakes := by intro n w hn; simp at hn

theorem not_holds_empty (kind : ResourceKind) (uid : String) :
    ¬ ({} : Registry).Holds kind uid := by
  rintro ⟨h, hg, _⟩
  cases hg

theorem activeKinds_eq_nil_iff (r : Registry) :
    r.activeKinds = [] ↔ r.held.keys = [] := by
  rw [← List.length_eq_zero_iff, activeKinds, ResourceKind.sorted, List.length_mergeSort,
    List.length_eq_zero_iff]

theorem Sound.isActive_iff (h : r.Sound) (kind : ResourceKind) :
    r.isActive kind = true ↔ ∃ uid, r.Holds kind uid := by
  simp only [isActive, Table.contains_eq_isSome, Option.isSome_iff_exists]
  constructor
  · rintro ⟨held, hg⟩
    obtain ⟨uid, hu⟩ := List.exists_mem_of_ne_nil _ (h.held kind held hg).2
    exact ⟨uid, held, hg, hu⟩
  · rintro ⟨_, held, hg, _⟩
    exact ⟨held, hg⟩

/-- A kind has a running watch exactly while somebody holds it. -/
theorem Sound.isSome_intake?_iff (h : r.Sound) (kind : ResourceKind) :
    (r.intake? kind).isSome = true ↔ ∃ uid, r.Holds kind uid := by
  rw [← h.isActive_iff kind]
  cases hg : r.held.get? kind with
  | none => simp [intake?, isActive, hg]
  | some held =>
      obtain ⟨w, hw, _⟩ := h.watched kind held hg
      simp [intake?, isActive, hg, hw]

theorem Sound.kind_of_intake? (h : r.Sound) {i : Ingest} (hi : r.intake? kind = some i) :
    i.kind = kind := by
  cases hg : r.held.get? kind with
  | none => simp [intake?, hg] at hi
  | some held =>
      obtain ⟨w, hw, hk, _⟩ := h.watched kind held hg
      simp only [intake?, hg, hw, Option.bind_eq_bind, Option.bind_some, Option.pure_def,
        Option.some.injEq] at hi
      rw [← hi, h.intakes _ w hw, hk]

/-! ## Acquiring -/

theorem acquire_of_excluded (h : resource.resourceKind.excluded = true) :
    r.acquire resource uid = (false, r) := by
  rw [acquire, if_pos h]

/-- The holding of a kind that somebody holds already. -/
def Holding.joined (h : Holding) (uid : String) : Holding :=
  { h with uids := if h.uids.contains uid then h.uids else h.uids ++ [uid] }

theorem mem_joined (h : Holding) (uid u : String) :
    u ∈ (Holding.joined h uid).uids ↔ u ∈ h.uids ∨ u = uid := by
  unfold Holding.joined
  by_cases hc : uid ∈ h.uids
  · simp only [List.contains_iff_mem, hc, if_true]
    exact ⟨Or.inl, fun hu => hu.elim id fun he => he ▸ hc⟩
  · simp [hc]

theorem acquire_of_held (hx : resource.resourceKind.excluded = false) {h : Holding}
    (hg : r.held.get? resource.resourceKind = some h) :
    r.acquire resource uid =
      (false, { r with held := r.held.insert resource.resourceKind (Holding.joined h uid) }) := by
  simp only [acquire, hx, hg]
  rfl

theorem acquire_of_free (hx : resource.resourceKind.excluded = false)
    (hg : r.held.get? resource.resourceKind = none) :
    r.acquire resource uid = (true, { r with
      held := r.held.insert resource.resourceKind ⟨[uid], r.started.length⟩
      started := r.started ++ [.start resource] }) := by
  simp only [acquire, hx, hg]
  rfl

/-- The three ways in which an acquire ends. -/
theorem acquire_cases (r : Registry) (resource : ApiResource) :
    resource.resourceKind.excluded = true ∨ resource.resourceKind.excluded = false ∧
      ((∃ held, r.held.get? resource.resourceKind = some held) ∨
        r.held.get? resource.resourceKind = none) := by
  rw [← Option.isSome_iff_exists, ← Option.isNone_iff_eq_none]
  cases resource.resourceKind.excluded with
  | true => exact Or.inl rfl
  | false =>
      refine Or.inr ⟨rfl, ?_⟩
      cases r.held.get? resource.resourceKind with
      | some held => exact Or.inl rfl
      | none => exact Or.inr rfl

theorem holds_acquire (r : Registry) (resource : ApiResource) (uid : String)
    (kind : ResourceKind) (u : String) :
    (r.acquire resource uid).2.Holds kind u ↔ r.Holds kind u ∨
      kind = resource.resourceKind ∧ u = uid ∧ resource.resourceKind.excluded = false := by
  rcases acquire_cases r resource with hx | ⟨hx, ⟨held, hg⟩ | hg⟩
  · simp [acquire_of_excluded hx, hx]
  · rw [acquire_of_held hx hg]
    simp only [Holds, Table.get?_insert]
    by_cases hk : resource.resourceKind = kind
    · subst hk
      simp [mem_joined, hg, hx]
    · simp [hk, Ne.symm hk]
  · rw [acquire_of_free hx hg]
    simp only [Holds, Table.get?_insert]
    by_cases hk : resource.resourceKind = kind
    · subst hk
      simp [hg, hx]
    · simp [hk, Ne.symm hk]

/-- Where a kind is held already its watch runs on. -/
theorem intake?_acquire (h : r.Sound) (hk : (r.intake? kind).isSome = true) :
    (r.acquire resource uid).2.intake? kind = r.intake? kind := by
  rcases acquire_cases r resource with hx | ⟨hx, ⟨held, hg⟩ | hg⟩
  · rw [acquire_of_excluded hx]
  · rw [acquire_of_held hx hg]
    by_cases hr : resource.resourceKind = kind
    · subst hr
      simp [intake?, hg, Holding.joined]
    · simp [intake?, Table.get?_insert, hr]
  · rw [acquire_of_free hx hg]
    have hr : resource.resourceKind ≠ kind := by
      intro he
      subst he
      simp [intake?, hg] at hk
    cases hh : r.held.get? kind with
    | none => simp [intake?, Table.get?_insert, hr, hh]
    | some held =>
        obtain ⟨w, hw, _⟩ := h.watched kind held hh
        have hlt := (List.getElem?_eq_some_iff.mp hw).1
        simp [intake?, Table.get?_insert, hr, hh, List.getElem?_append_left hlt]

/-- A kind without a watch is held by nobody. -/
theorem Sound.held_eq_none (h : r.Sound) (hk : r.intake? kind = none) :
    r.held.get? kind = none := by
  cases hh : r.held.get? kind with
  | none => rfl
  | some held =>
      obtain ⟨w, hw, _⟩ := h.watched kind held hh
      simp [intake?, hh, hw] at hk

/-- A watch that was not there before has seen nothing. -/
theorem intake?_acquire_of_none (hk : r.intake? kind = none) (h : r.Sound) {i : Ingest}
    (hi : (r.acquire resource uid).2.intake? kind = some i) : i = { kind := kind } := by
  have hfree := h.held_eq_none hk
  rcases acquire_cases r resource with hx | ⟨hx, ⟨held, hg⟩ | hg⟩
  · rw [acquire_of_excluded hx, hk] at hi
    cases hi
  · rw [acquire_of_held hx hg] at hi
    have hr : resource.resourceKind ≠ kind := by
      intro he
      subst he
      rw [hfree] at hg
      cases hg
    simp [intake?, Table.get?_insert, hr, hfree] at hi
  · rw [acquire_of_free hx hg] at hi
    by_cases hr : resource.resourceKind = kind
    · subst hr
      simpa [intake?, Watch.start] using hi.symm
    · simp [intake?, Table.get?_insert, hr, hfree] at hi

/-- Who else holds a kind makes no difference to the watches. -/
theorem Sound.rehold (h : r.Sound) {held : Holding} (hg : r.held.get? kind = some held)
    {uids : List String} (hd : uids.Nodup) (hne : uids ≠ []) :
    ({ r with held := r.held.insert kind { held with uids := uids } } : Registry).Sound where
  held := by
    intro other g hk
    simp only [Table.get?_insert] at hk
    split at hk
    · cases hk
      exact ⟨hd, hne⟩
    · exact h.held other g hk
  watched := by
    intro other g hk
    simp only [Table.get?_insert] at hk
    split at hk
    · rename_i he
      cases hk
      exact he ▸ h.watched kind held hg
    · exact h.watched other g hk
  running := by
    intro n w hn hs
    obtain ⟨g, hk, hw⟩ := h.running n w hn hs
    simp only [Table.get?_insert]
    split
    · rename_i he
      rw [← he, hg] at hk
      cases hk
      exact ⟨_, rfl, hw⟩
    · exact ⟨g, hk, hw⟩
  intakes := h.intakes

/-- A UID more in a holding leaves the watches alone. -/
theorem Sound.join (h : r.Sound) {held : Holding} (hg : r.held.get? kind = some held)
    (uid : String) :
    ({ r with held := r.held.insert kind (Holding.joined held uid) } : Registry).Sound := by
  refine h.rehold hg ?_ (List.ne_nil_of_mem ((mem_joined held uid uid).mpr (Or.inr rfl)))
  split
  · exact (h.held kind held hg).1
  · rename_i hc
    rw [List.contains_iff_mem] at hc
    rw [← List.concat_eq_append]
    exact (h.held kind held hg).1.concat hc

theorem getElem?_append_singleton {watches : List Watch} {w v : Watch} {n : Nat}
    (h : (watches ++ [w])[n]? = some v) :
    watches[n]? = some v ∨ n = watches.length ∧ v = w := by
  by_cases hlt : n < watches.length
  · exact Or.inl ((List.getElem?_append_left hlt).symm.trans h)
  · obtain ⟨hle, hw⟩ := List.getElem?_eq_some_iff.mp h
    rw [List.length_append, List.length_singleton] at hle
    have he : n = watches.length := by omega
    subst he
    rw [List.getElem_concat_length rfl] at hw
    exact Or.inr ⟨rfl, hw.symm⟩

/-- The first UID of a kind comes with a watch. -/
theorem Sound.open (h : r.Sound) (hg : r.held.get? resource.resourceKind = none)
    (uid : String) :
    ({ r with
      held := r.held.insert resource.resourceKind ⟨[uid], r.started.length⟩
      started := r.started ++ [.start resource] } : Registry).Sound where
  held := by
    intro other g hk
    simp only [Table.get?_insert] at hk
    split at hk
    · cases hk; simp
    · exact h.held other g hk
  watched := by
    intro other g hk
    simp only [Table.get?_insert] at hk
    split at hk
    · rename_i he
      cases hk
      exact ⟨.start resource, by simp, he, rfl⟩
    · obtain ⟨w, hw, hrest⟩ := h.watched other g hk
      have hlt := (List.getElem?_eq_some_iff.mp hw).1
      exact ⟨w, (List.getElem?_append_left hlt).trans hw, hrest⟩
  running := by
    intro n w hn hs
    simp only [Table.get?_insert]
    rcases getElem?_append_singleton hn with hn | ⟨rfl, rfl⟩
    · obtain ⟨g, hk, hw⟩ := h.running n w hn hs
      refine ⟨g, ?_, hw⟩
      rw [if_neg, hk]
      intro he
      rw [← he, hg] at hk
      cases hk
    · exact ⟨_, if_pos rfl, rfl⟩
  intakes := by
    intro n w hn
    rcases getElem?_append_singleton hn with hn | ⟨rfl, rfl⟩
    · exact h.intakes n w hn
    · rfl

theorem Sound.acquire (h : r.Sound) (resource : ApiResource) (uid : String) :
    (r.acquire resource uid).2.Sound := by
  rcases acquire_cases r resource with hx | ⟨hx, ⟨held, hg⟩ | hg⟩
  · rw [acquire_of_excluded hx]
    exact h
  · rw [acquire_of_held hx hg]
    exact h.join hg uid
  · rw [acquire_of_free hx hg]
    exact h.open hg uid

/-! ## Releasing -/

theorem release_of_not_holds (h : ¬ r.Holds kind uid) : r.release kind uid = (false, r) := by
  unfold release
  cases hg : r.held.get? kind with
  | none => rfl
  | some held =>
      have hc : uid ∉ held.uids := fun hc => h ⟨held, hg, hc⟩
      simp [hc]

theorem release_of_last {held : Holding} (hg : r.held.get? kind = some held)
    (hu : held.uids = [uid]) :
    r.release kind uid =
      (true, ({ r with held := r.held.erase kind } : Registry).stopWatch held.watch) := by
  simp [release, hg, hu]

theorem release_of_others {held : Holding} (hg : r.held.get? kind = some held)
    (hu : uid ∈ held.uids) (hr : held.uids.erase uid ≠ []) :
    r.release kind uid = (false, { r with
      held := r.held.insert kind { held with uids := held.uids.erase uid } }) := by
  unfold release
  simp only [hg, List.contains_iff_mem, hu, if_true]

/-- The three ways in which a release ends. -/
theorem release_cases (r : Registry) (kind : ResourceKind) (uid : String) :
    ¬ r.Holds kind uid ∨ ∃ held, r.held.get? kind = some held ∧
      (held.uids = [uid] ∨ uid ∈ held.uids ∧ held.uids.erase uid ≠ []) := by
  by_cases h : r.Holds kind uid
  · obtain ⟨held, hg, hu⟩ := h
    refine Or.inr ⟨held, hg, ?_⟩
    by_cases he : held.uids.erase uid = []
    · exact Or.inl ((List.erase_eq_nil_iff.mp he).resolve_left (List.ne_nil_of_mem hu))
    · exact Or.inr ⟨hu, he⟩
  · exact Or.inl h

theorem holds_release (h : r.Sound) (kind : ResourceKind) (uid : String) (other : ResourceKind)
    (u : String) :
    (r.release kind uid).2.Holds other u ↔ r.Holds other u ∧ ¬ (other = kind ∧ u = uid) := by
  rcases release_cases r kind uid with hn | ⟨held, hg, hu | ⟨hu, hr⟩⟩
  · rw [release_of_not_holds hn]
    refine ⟨fun ho => ⟨ho, ?_⟩, And.left⟩
    rintro ⟨rfl, rfl⟩
    exact hn ho
  · rw [release_of_last hg hu]
    simp only [Holds, stopWatch, Table.get?_erase]
    by_cases hk : kind = other
    · subst hk
      simp [hg, hu]
    · simp [hk, Ne.symm hk]
  · rw [release_of_others hg hu hr]
    simp only [Holds, Table.get?_insert]
    by_cases hk : kind = other
    · subst hk
      simp [hg, (h.held kind held hg).1.mem_erase_iff, and_comm]
    · simp [hk, Ne.symm hk]

/-- Two kinds that are held have two watches. -/
theorem Sound.watch_ne (h : r.Sound) {held g : Holding} (hg : r.held.get? kind = some held)
    (hh : r.held.get? other = some g) (hne : other ≠ kind) : held.watch ≠ g.watch := by
  intro he
  obtain ⟨w, hw, hk, _⟩ := h.watched kind held hg
  obtain ⟨w', hw', hk', _⟩ := h.watched other g hh
  rw [he, hw'] at hw
  cases hw
  exact hne (hk'.symm.trans hk)

theorem intake?_stopWatch (h : r.Sound) {held : Holding} (hg : r.held.get? kind = some held)
    (hne : other ≠ kind) :
    (({ r with held := r.held.erase kind } : Registry).stopWatch held.watch).intake? other =
      r.intake? other := by
  simp only [intake?, stopWatch, Table.get?_erase, if_neg (Ne.symm hne)]
  cases hh : r.held.get? other with
  | none => rfl
  | some g => simp [List.getElem?_modify_ne _ _ (h.watch_ne hg hh hne)]

/-- Where somebody goes on holding a kind its watch runs on. -/
theorem intake?_release (h : r.Sound) (hk : ∃ u, (r.release kind uid).2.Holds other u) :
    (r.release kind uid).2.intake? other = r.intake? other := by
  rcases release_cases r kind uid with hn | ⟨held, hg, hu | ⟨hu, hr⟩⟩
  · rw [release_of_not_holds hn]
  · rw [release_of_last hg hu]
    refine intake?_stopWatch h hg ?_
    intro he
    subst he
    obtain ⟨u, hk⟩ := hk
    obtain ⟨⟨g, hg', hm⟩, hne⟩ := (holds_release h other uid other u).mp hk
    rw [hg] at hg'
    cases hg'
    rw [hu, List.mem_singleton] at hm
    exact hne ⟨rfl, hm⟩
  · rw [release_of_others hg hu hr]
    by_cases ho : kind = other
    · subst ho
      simp [intake?, hg]
    · simp [intake?, Table.get?_insert, ho]

theorem Sound.drop (h : r.Sound) {held : Holding} (hg : r.held.get? kind = some held) :
    (({ r with held := r.held.erase kind } : Registry).stopWatch held.watch).Sound where
  held := by
    intro other g hk
    simp only [stopWatch, Table.get?_erase] at hk
    split at hk
    · cases hk
    · exact h.held other g hk
  watched := by
    intro other g hk
    simp only [stopWatch, Table.get?_erase] at hk ⊢
    split at hk
    · cases hk
    · rename_i hne
      obtain ⟨w, hw, hrest⟩ := h.watched other g hk
      refine ⟨w, ?_, hrest⟩
      rw [List.getElem?_modify_ne, hw]
      intro he
      obtain ⟨w', hw', hk', _⟩ := h.watched kind held hg
      rw [he, hw] at hw'
      cases hw'
      exact hne (hk'.symm.trans hrest.1)
  running := by
    intro n w hn hs
    simp only [stopWatch, List.getElem?_modify, Option.map_eq_map, Option.map_eq_some_iff] at hn
    obtain ⟨v, hv, hw⟩ := hn
    split at hw
    · subst hw
      cases hs
    · rename_i hne
      subst hw
      obtain ⟨g, hk, hg'⟩ := h.running n v hv hs
      refine ⟨g, ?_, hg'⟩
      simp only [stopWatch, Table.get?_erase]
      rw [if_neg, hk]
      intro he
      rw [← he, hg] at hk
      cases hk
      exact hne hg'
  intakes := by
    intro n w hn
    simp only [stopWatch, List.getElem?_modify, Option.map_eq_map, Option.map_eq_some_iff] at hn
    obtain ⟨v, hv, hw⟩ := hn
    have hk := h.intakes n v hv
    split at hw
    · subst hw
      exact hk
    · subst hw
      exact hk

theorem Sound.release (h : r.Sound) (kind : ResourceKind) (uid : String) :
    (r.release kind uid).2.Sound := by
  rcases release_cases r kind uid with hn | ⟨held, hg, hu | ⟨hu, hr⟩⟩
  · rw [release_of_not_holds hn]
    exact h
  · rw [release_of_last hg hu]
    exact h.drop hg
  · rw [release_of_others hg hu hr]
    exact h.rehold hg ((h.held kind held hg).1.erase uid) hr

/-! ## Events -/

/-- A watch that takes in an event is the one that its kind holds. -/
theorem Sound.held_of_latest? (h : r.Sound) {n : Nat} {w : Watch} (hn : r.latest? kind = some n)
    (hw : r.watch? n = some w) (hs : w.stopped = false) :
    ∃ held, r.held.get? kind = some held ∧ held.watch = n ∧ r.intake? kind = some w.ingest := by
  have hk : w.kind = kind := by
    have hp := List.find?_some hn
    simp only [watch?] at hw
    simp only [hw, decide_eq_true_eq] at hp
    exact hp
  obtain ⟨held, hg, hh⟩ := h.running n w hw hs
  rw [hk] at hg
  refine ⟨held, hg, hh, ?_⟩
  simp only [watch?] at hw
  simp [intake?, hg, hh, hw]

theorem intake?_setIngest (h : r.Sound) {held : Holding} (hg : r.held.get? kind = some held)
    (i : Ingest) (other : ResourceKind) :
    (r.setIngest held.watch i).intake? other =
      if other = kind then some i else r.intake? other := by
  simp only [intake?, setIngest]
  by_cases ho : other = kind
  · subst ho
    obtain ⟨w, hw, _⟩ := h.watched other held hg
    simp [hg, hw]
  · rw [if_neg ho]
    cases hh : r.held.get? other with
    | none => rfl
    | some g => simp [List.getElem?_modify_ne _ _ (h.watch_ne hg hh ho)]

theorem of_intake?_setIngest (h : r.Sound) {held : Holding} (hg : r.held.get? kind = some held)
    {i j : Ingest} {other : ResourceKind}
    (hj : (r.setIngest held.watch i).intake? other = some j) :
    other = kind ∧ j = i ∨ other ≠ kind ∧ r.intake? other = some j := by
  rw [intake?_setIngest h hg] at hj
  split at hj
  · rename_i ho
    cases hj
    exact Or.inl ⟨ho, rfl⟩
  · rename_i ho
    exact Or.inr ⟨ho, hj⟩

theorem Sound.setIngest (h : r.Sound) {held : Holding} (hg : r.held.get? kind = some held)
    {i : Ingest} (hi : i.kind = kind) : (r.setIngest held.watch i).Sound where
  held := h.held
  watched := by
    intro other g hk
    obtain ⟨w, hw, hrest⟩ := h.watched other g hk
    simp only [Registry.setIngest, List.getElem?_modify, hw, Option.map_eq_map, Option.map_some]
    refine ⟨_, rfl, ?_⟩
    split <;> exact hrest
  running := by
    intro n w hn hs
    simp only [Registry.setIngest, List.getElem?_modify, Option.map_eq_map,
      Option.map_eq_some_iff] at hn
    obtain ⟨v, hv, hw⟩ := hn
    split at hw
    · subst hw
      exact h.running n v hv hs
    · subst hw
      exact h.running n v hv hs
  intakes := by
    intro n w hn
    simp only [Registry.setIngest, List.getElem?_modify, Option.map_eq_map,
      Option.map_eq_some_iff] at hn
    obtain ⟨v, hv, hw⟩ := hn
    split at hw
    · rename_i he
      subst hw
      obtain ⟨w, hw', hk, _⟩ := h.watched kind held hg
      rw [he, hv] at hw'
      cases hw'
      exact hi.trans hk.symm
    · subst hw
      exact h.intakes n v hv

end StatusRelay.Registry
