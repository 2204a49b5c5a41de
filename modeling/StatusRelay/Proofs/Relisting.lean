import StatusRelay.Ingest
import StatusRelay.Proofs.Tables

/-!
# What a watch reports

The objects of a kind have names, and either all of them have a namespace or none has. Then every
object has one place in a cache and every look-up finds what is filed at its own coordinates.
A watch sends single changes while no list is in progress, and the parts of a list only while one
is. Then every event reports all the coordinates where the cache changed, each with a key that says
whether there is an object now.
-/
namespace StatusRelay

theorem Table.mem_put {κ β : Type} [DecidableEq κ] {k : κ} {v : β} {e : κ × β}
    {entries : List (κ × β)} (h : e ∈ put k v entries) : e = (k, v) ∨ e ∈ entries := by
  induction entries with
  | nil => exact Or.inl (List.mem_singleton.mp h)
  | cons a rest ih =>
      by_cases ha : a.1 = k
      · rw [put, if_pos ha] at h
        exact (List.mem_cons.mp h).imp_right (List.mem_cons_of_mem _)
      · rw [put, if_neg ha] at h
        rcases List.mem_cons.mp h with rfl | h
        · exact Or.inr List.mem_cons_self
        · exact (ih h).imp_right (List.mem_cons_of_mem _)

/-! ## Coordinates and places -/

/-- Coordinates that an object of a kind can have. -/
def Coordinates.Fits (namespaced : Bool) (c : Coordinates) : Prop :=
  c.2 ≠ "" ∧ (c.1 ≠ "" ↔ namespaced = true)

/-- Where a cache files what is at some coordinates. -/
def Coordinates.place (c : Coordinates) : String × Option String :=
  (c.2, if c.1 = "" then none else some c.1)

theorem Coordinates.place_inj {c d : Coordinates} (h : c.place = d.place) : c = d := by
  obtain ⟨hname, hns⟩ := Prod.mk.inj h
  refine Prod.ext ?_ hname
  by_cases hc : c.1 = ""
  · by_cases hd : d.1 = ""
    · rw [hc, hd]
    · simp [hc, hd] at hns
  · by_cases hd : d.1 = ""
    · simp [hc, hd] at hns
    · simpa [hc, hd] using hns

/-- The object has a name, and a namespace exactly if its kind has namespaces. -/
structure Object.Scoped (namespaced : Bool) (o : Object) : Prop where
  name : ∃ name, name ≠ "" ∧ o.metadata.name = some name
  ns : if namespaced then ∃ ns, ns ≠ "" ∧ o.metadata.ns = some ns else o.metadata.ns = none

namespace Object.Scoped

variable {namespaced : Bool} {o : Object}

theorem place? (h : o.Scoped namespaced) : Ingest.place? o = some o.coordinates.place := by
  obtain ⟨⟨name, hne, hname⟩, hns⟩ := h
  have hn : o.name = name := by simp [Object.name, Metadata.anyName, hname]
  cases namespaced with
  | true =>
      obtain ⟨ns, hns, he⟩ := hns
      simp [Ingest.place?, coordinates, Coordinates.place, Object.ns, Metadata.nsOrEmpty, hname, hn,
        he, hns]
  | false =>
      simp only [Bool.false_eq_true, if_false] at hns
      simp [Ingest.place?, coordinates, Coordinates.place, Object.ns, Metadata.nsOrEmpty, hname, hn,
        hns]

theorem fits (h : o.Scoped namespaced) : o.coordinates.Fits namespaced := by
  obtain ⟨⟨name, hne, hname⟩, hns⟩ := h
  have hn : o.name = name := by simp [Object.name, Metadata.anyName, hname]
  refine ⟨by rw [coordinates, hn]; exact hne, ?_⟩
  cases namespaced with
  | true =>
      obtain ⟨ns, hns, he⟩ := hns
      simp [coordinates, Object.ns, Metadata.nsOrEmpty, he, hns]
  | false =>
      simp only [Bool.false_eq_true, if_false] at hns
      simp [coordinates, Object.ns, Metadata.nsOrEmpty, hns]

theorem ofObject (h : o.Scoped namespaced) (kind : ResourceKind) :
    ObjectKey.ofObject kind o = ⟨kind, o.ns, o.name, none⟩ := by
  obtain ⟨⟨name, _, hname⟩, _⟩ := h
  simp [ObjectKey.ofObject, Object.name, Object.ns, Metadata.anyName, Metadata.nsOrEmpty, hname]

end Object.Scoped

/-! ## Caches -/

namespace Cache

variable {namespaced : Bool} {cache : Cache} {o : Object} {c : Coordinates}

/-- Every object is of the right scope and filed at its place. -/
def Filed (namespaced : Bool) (cache : Cache) : Prop :=
  ∀ e ∈ cache.entries, e.2.Scoped namespaced ∧ e.1 = e.2.coordinates.place

theorem filed_empty (namespaced : Bool) : Filed namespaced {} := by
  intro e he
  cases he

theorem lookup?_empty (ns name : String) : lookup? {} ns name = none := by
  unfold lookup?
  split <;> rfl

/-- A look-up finds what is filed under the name, in the namespace or in none. -/
theorem mem_of_lookup? {ns name : String} (h : cache.lookup? ns name = some o) :
    ((name, some ns), o) ∈ cache.entries ∨ ((name, none), o) ∈ cache.entries := by
  unfold lookup? at h
  split at h
  · exact Or.inr (Table.mem_of_find?_eq_some h)
  · rcases Option.or_eq_some_iff.mp h with h | ⟨_, h⟩
    · exact Or.inl (Table.mem_of_find?_eq_some h)
    · exact Or.inr (Table.mem_of_find?_eq_some h)

theorem Filed.insert (h : cache.Filed namespaced) (ho : o.Scoped namespaced) :
    Filed namespaced (Table.insert cache o.coordinates.place o) := by
  intro e he
  rcases Table.mem_put he with rfl | he
  · exact ⟨ho, rfl⟩
  · exact h e he

theorem Filed.erase (h : cache.Filed namespaced) (place : String × Option String) :
    Filed namespaced (Table.erase cache place) :=
  fun e he => h e (List.mem_filter.mp he).1

theorem Filed.of_get? (h : cache.Filed namespaced) {place : String × Option String}
    (hg : cache.get? place = some o) : o.Scoped namespaced ∧ place = o.coordinates.place :=
  h (place, o) (Table.mem_of_find?_eq_some hg)

/-- A look-up never falls back to an object of another scope. -/
theorem Filed.lookup?_eq (h : cache.Filed namespaced) (hc : c.Fits namespaced) :
    cache.lookup? c.1 c.2 = cache.get? c.place := by
  by_cases hns : c.1 = ""
  · simp [lookup?, Coordinates.place, hns]
  · have hnone : cache.get? (c.2, none) = none := by
      cases hg : cache.get? (c.2, none) with
      | none => rfl
      | some o =>
          obtain ⟨ho, hp⟩ := h.of_get? hg
          have hn := (hc.2.mp hns)
          have hon : o.coordinates.1 ≠ "" := ho.fits.2.mpr hn
          simp [Coordinates.place, hon] at hp
    simp [lookup?, Coordinates.place, hns, hnone]

theorem Filed.of_lookup? (h : cache.Filed namespaced) (hc : c.Fits namespaced)
    (hl : cache.lookup? c.1 c.2 = some o) : o.Scoped namespaced ∧ o.coordinates = c := by
  rw [h.lookup?_eq hc] at hl
  obtain ⟨ho, hp⟩ := h.of_get? hl
  exact ⟨ho, (Coordinates.place_inj hp).symm⟩

theorem Filed.lookup?_insert (h : cache.Filed namespaced) (ho : o.Scoped namespaced)
    (hc : c.Fits namespaced) :
    Cache.lookup? (Table.insert cache o.coordinates.place o) c.1 c.2 =
      if o.coordinates = c then some o else cache.lookup? c.1 c.2 := by
  rw [(h.insert ho).lookup?_eq hc, h.lookup?_eq hc, Table.get?_insert]
  by_cases he : o.coordinates = c
  · rw [if_pos he, if_pos (congrArg Coordinates.place he)]
  · rw [if_neg he, if_neg fun hp => he (Coordinates.place_inj hp)]

theorem Filed.lookup?_erase (h : cache.Filed namespaced) (hc : c.Fits namespaced)
    (d : Coordinates) :
    Cache.lookup? (Table.erase cache d.place) c.1 c.2 =
      if d = c then none else cache.lookup? c.1 c.2 := by
  rw [(h.erase d.place).lookup?_eq hc, h.lookup?_eq hc, Table.get?_erase]
  by_cases he : d = c
  · rw [if_pos he, if_pos (congrArg Coordinates.place he)]
  · rw [if_neg he, if_neg fun hp => he (Coordinates.place_inj hp)]

theorem mem_coordinates_of_lookup? (h : cache.Filed namespaced) (hc : c.Fits namespaced)
    (hl : cache.lookup? c.1 c.2 = some o) :
    c ∈ (cache.values.map Object.coordinates).eraseDups := by
  rw [List.mem_eraseDups]
  refine List.mem_map.mpr ⟨o, ?_, (h.of_lookup? hc hl).2⟩
  rw [h.lookup?_eq hc] at hl
  exact List.mem_map_of_mem (f := Prod.snd) (Table.mem_of_find?_eq_some hl)

end Cache

/-! ## Events in order -/

namespace WatchEvent

/-- The object that an event carries. -/
def object? : WatchEvent → Option Object
  | .apply o | .delete o | .initApply o => some o
  | .init | .initDone => none

/-- The object that an event brings into a cache. -/
def stored? : WatchEvent → Option Object
  | .apply o | .initApply o => some o
  | .delete _ | .init | .initDone => none

theorem object?_of_stored? {e : WatchEvent} {o : Object} (h : e.stored? = some o) :
    e.object? = some o := by
  cases e <;> first | exact h | cases h

end WatchEvent

namespace Ingest

variable {namespaced : Bool} {i i' : Ingest} {o : Object} {c : Coordinates} {e : WatchEvent}
  {keys : List ObjectKey}

/-- What the cache has at some coordinates. -/
def at? (i : Ingest) (c : Coordinates) : Option Object := i.cache.lookup? c.1 c.2

/-- The live key of some coordinates. -/
def liveKey (kind : ResourceKind) (c : Coordinates) : ObjectKey := ⟨kind, c.1, c.2, none⟩

/-- Single changes come while no list is in progress, the parts of a list while one is. -/
def Expects (i : Ingest) : WatchEvent → Prop
  | .apply _ | .delete _ => i.relist = none
  | .init => True
  | .initApply _ | .initDone => i.relist.isSome = true

/-- What a list in progress has to remember: where something was cached, the list has named it or
still waits for it, and what the list has named is as it was or will be reported. -/
structure Relisting (namespaced : Bool) (i : Ingest) (r : Relist) : Prop where
  covered : ∀ c, c.Fits namespaced → (i.at? c).isSome = true →
    c ∈ r.previous ∨ (i.buffer.lookup? c.1 c.2).isSome = true
  reported : ∀ c o, c.Fits namespaced → i.buffer.lookup? c.1 c.2 = some o →
    i.at? c = some o ∨ liveKey i.kind c ∈ r.pending

structure Sound (namespaced : Bool) (i : Ingest) : Prop where
  cache : i.cache.Filed namespaced
  buffer : i.buffer.Filed namespaced
  relist : ∀ r, i.relist = some r → i.Relisting namespaced r

theorem sound_start (namespaced : Bool) (kind : ResourceKind) :
    ({ kind := kind } : Ingest).Sound namespaced where
  cache := Cache.filed_empty namespaced
  buffer := Cache.filed_empty namespaced
  relist := by intro r hr; cases hr

theorem Sound.of_at? (h : i.Sound namespaced) (hc : c.Fits namespaced) (ho : i.at? c = some o) :
    o.Scoped namespaced ∧ o.coordinates = c := h.cache.of_lookup? hc ho

/-- Where the cache changed from `i` to `i'` there is a key for it. -/
def Reports (namespaced : Bool) (i i' : Ingest) (keys : List ObjectKey) : Prop :=
  ∀ c, c.Fits namespaced → i'.at? c = i.at? c ∨ i'.keyFor (liveKey i.kind c) ∈ keys

theorem keyFor_of_some (h : i.at? c = some o) (kind : ResourceKind) :
    i.keyFor (liveKey kind c) = liveKey kind c := by
  unfold keyFor
  rw [show i.cache.lookup? (liveKey kind c).ns (liveKey kind c).name = some o from h]

theorem keyFor_of_none (h : i.at? c = none) (kind : ResourceKind) :
    i.keyFor (liveKey kind c) = (liveKey kind c).intoDeleted := by
  unfold keyFor
  rw [show i.cache.lookup? (liveKey kind c).ns (liveKey kind c).name = none from h]

/-- An object that comes with the version of the cached one is the cached one. -/
def Versioned (i : Ingest) (e : WatchEvent) : Prop :=
  ∀ o, e.stored? = some o → ∀ cached, i.at? o.coordinates = some cached →
    cached.resourceVersion = o.resourceVersion → cached = o

theorem at?_of_not_versionChanged (hv : i.versionChanged o = false)
    (hsame : ∀ cached, i.at? o.coordinates = some cached →
      cached.resourceVersion = o.resourceVersion → cached = o) :
    i.at? o.coordinates = some o := by
  unfold versionChanged at hv
  cases hl : i.cache.lookup? o.ns o.name with
  | none => simp [hl] at hv
  | some cached =>
      have hr : cached.resourceVersion = o.resourceVersion := by simpa [hl] using hv
      have hat : i.at? o.coordinates = some cached := hl
      rw [hat, hsame cached hat hr]

theorem keyOf_scoped (i : Ingest) (ho : o.Scoped namespaced) :
    i.keyOf o = i.keyFor (liveKey i.kind o.coordinates) := by
  rw [keyOf, ho.ofObject]
  rfl

theorem reports_applied (h : i.Sound namespaced) (ho : o.Scoped namespaced)
    (hsame : ∀ cached, i.at? o.coordinates = some cached →
      cached.resourceVersion = o.resourceVersion → cached = o) :
    i.Reports namespaced (i.applied o o.coordinates.place).1
      (i.applied o o.coordinates.place).2 := by
  intro c hc
  have hat : (i.applied o o.coordinates.place).1.at? c =
      if o.coordinates = c then some o else i.at? c := h.cache.lookup?_insert ho hc
  rw [hat]
  by_cases he : o.coordinates = c
  · subst he
    rw [if_pos rfl]
    cases hv : i.versionChanged o with
    | false => exact Or.inl (at?_of_not_versionChanged hv hsame).symm
    | true =>
        refine Or.inr ?_
        simp only [applied, hv, if_true, List.mem_singleton, keyOf_scoped _ ho]
  · exact Or.inl (if_neg he)

theorem reports_removed (h : i.Sound namespaced) (ho : o.Scoped namespaced) :
    i.Reports namespaced (i.removed o o.coordinates.place).1
      (i.removed o o.coordinates.place).2 := by
  intro c hc
  have hat : (i.removed o o.coordinates.place).1.at? c =
      if o.coordinates = c then none else i.at? c := h.cache.lookup?_erase hc _
  rw [hat]
  by_cases he : o.coordinates = c
  · subst he
    refine Or.inr ?_
    simp only [removed, List.mem_singleton, keyOf_scoped _ ho]
  · exact Or.inl (if_neg he)

theorem reports_listCompleted (h : i.Sound namespaced) {r : Relist} (hr : i.relist = some r) :
    i.Reports namespaced i.listCompleted.1 i.listCompleted.2 := by
  intro c hc
  have hat : i.listCompleted.1.at? c = i.buffer.lookup? c.1 c.2 := by
    simp only [listCompleted, hr]
    rfl
  have hrel := h.relist r hr
  cases hb : i.buffer.lookup? c.1 c.2 with
  | some o =>
      rcases hrel.reported c o hc hb with he | hp
      · exact Or.inl (by rw [hat, hb, he])
      · refine Or.inr ?_
        simp only [listCompleted, hr]
        exact List.mem_map_of_mem (List.mem_append.mpr (Or.inl hp))
  | none =>
      cases hi : i.at? c with
      | none => exact Or.inl (by rw [hat, hb])
      | some o =>
          rcases hrel.covered c hc (by rw [hi]; rfl) with hp | hs
          · refine Or.inr ?_
            simp only [listCompleted, hr]
            refine List.mem_map_of_mem (List.mem_append.mpr (Or.inr ?_))
            exact List.mem_map.mpr ⟨c, List.mem_mergeSort.mpr hp, rfl⟩
          · rw [hb] at hs
            cases hs

/-- The cache does not change while a list comes in. -/
theorem reports_nothing (hc : i'.cache = i.cache) : i.Reports namespaced i' [] :=
  fun c _ => Or.inl (by rw [at?, at?, hc])

theorem handle?_listed {r : Relist} (hr : i.relist = some r) (ho : o.Scoped namespaced) :
    i.handle? (.initApply o) = some ({ i with
      buffer := i.buffer.insert o.coordinates.place o
      relist := some ⟨r.previous.filter fun c => !decide (c = o.coordinates),
        if i.versionChanged o then r.pending ++ [liveKey i.kind o.coordinates]
        else r.pending⟩ }, []) := by
  simp only [handle?, ho.place?, Option.map_some, listed, hr, ho.ofObject]
  rfl

/-- What a watch reports of an event that it expects. -/
theorem reports_handle? (h : i.Sound namespaced) (hx : i.Expects e) (hv : i.Versioned e)
    (hs : ∀ o, e.object? = some o → o.Scoped namespaced) (he : i.handle? e = some (i', keys)) :
    i.Reports namespaced i' keys := by
  cases e with
  | apply o =>
      simp only [handle?, (hs o rfl).place?, Option.map_some, Option.some.injEq] at he
      have hr := reports_applied h (hs o rfl) (hv o rfl)
      rwa [he] at hr
  | delete o =>
      simp only [handle?, (hs o rfl).place?, Option.map_some, Option.some.injEq] at he
      have hr := reports_removed h (hs o rfl)
      rwa [he] at hr
  | init =>
      cases he
      exact reports_nothing rfl
  | initApply o =>
      obtain ⟨r, hr⟩ := Option.isSome_iff_exists.mp hx
      rw [handle?_listed hr (hs o rfl)] at he
      cases he
      exact reports_nothing rfl
  | initDone =>
      obtain ⟨r, hr⟩ := Option.isSome_iff_exists.mp hx
      simp only [handle?, Option.some.injEq] at he
      have hrep := reports_listCompleted h hr
      rwa [he] at hrep

theorem relisting_listStarted (h : i.Sound namespaced) :
    Relisting namespaced i.listStarted
      ⟨(i.cache.values.map Object.coordinates).eraseDups, []⟩ where
  covered := by
    intro c hc hsome
    obtain ⟨o, ho⟩ := Option.isSome_iff_exists.mp hsome
    exact Or.inl (Cache.mem_coordinates_of_lookup? h.cache hc ho)
  reported := by
    intro c o hc hb
    have hnone : i.listStarted.buffer.lookup? c.1 c.2 = none := Cache.lookup?_empty c.1 c.2
    rw [hnone] at hb
    cases hb

theorem relisting_listed (h : i.Sound namespaced) (ho : o.Scoped namespaced) {r : Relist}
    (hr : i.relist = some r)
    (hsame : ∀ cached, i.at? o.coordinates = some cached →
      cached.resourceVersion = o.resourceVersion → cached = o) {later : Option Relist} :
    Relisting namespaced
      { i with buffer := i.buffer.insert o.coordinates.place o, relist := later }
      ⟨r.previous.filter fun c => !decide (c = o.coordinates),
        if i.versionChanged o then r.pending ++ [liveKey i.kind o.coordinates]
        else r.pending⟩ where
  covered := by
    intro c hc hsome
    have hb := h.buffer.lookup?_insert ho hc
    simp only [hb]
    by_cases he : o.coordinates = c
    · rw [if_pos he]
      exact Or.inr rfl
    · rw [if_neg he]
      refine ((h.relist r hr).covered c hc hsome).imp_left fun hp => ?_
      exact List.mem_filter.mpr ⟨hp, by simp [Ne.symm he]⟩
  reported := by
    intro c o' hc hb
    have hl := h.buffer.lookup?_insert ho hc
    simp only [hl] at hb
    by_cases he : o.coordinates = c
    · subst he
      rw [if_pos rfl, Option.some.injEq] at hb
      subst hb
      cases hv : i.versionChanged o with
      | false => exact Or.inl (at?_of_not_versionChanged hv hsame)
      | true => exact Or.inr (List.mem_append.mpr (Or.inr (List.mem_singleton.mpr rfl)))
    · rw [if_neg he] at hb
      refine ((h.relist r hr).reported c o' hc hb).imp_right fun hp => ?_
      split
      · exact List.mem_append.mpr (Or.inl hp)
      · exact hp

theorem Sound.handle? (h : i.Sound namespaced) (hx : i.Expects e) (hv : i.Versioned e)
    (hs : ∀ o, e.object? = some o → o.Scoped namespaced) (he : i.handle? e = some (i', keys)) :
    i'.Sound namespaced := by
  cases e with
  | apply o =>
      have ho := hs o rfl
      simp only [Ingest.handle?, ho.place?, Option.map_some, Option.some.injEq] at he
      cases he
      refine ⟨h.cache.insert ho, h.buffer, ?_⟩
      intro r hr
      have hnone : i.relist = some r := hr
      rw [show i.relist = none from hx] at hnone
      cases hnone
  | delete o =>
      have ho := hs o rfl
      simp only [Ingest.handle?, ho.place?, Option.map_some, Option.some.injEq] at he
      cases he
      refine ⟨h.cache.erase _, h.buffer, ?_⟩
      intro r hr
      have hnone : i.relist = some r := hr
      rw [show i.relist = none from hx] at hnone
      cases hnone
  | init =>
      cases he
      refine ⟨h.cache, Cache.filed_empty namespaced, ?_⟩
      intro r hr
      cases hr
      exact relisting_listStarted h
  | initApply o =>
      have ho := hs o rfl
      obtain ⟨r, hr⟩ := Option.isSome_iff_exists.mp hx
      rw [handle?_listed hr ho] at he
      cases he
      refine ⟨h.cache, h.buffer.insert ho, ?_⟩
      intro r' hr'
      cases hr'
      exact relisting_listed h ho hr (hv o rfl)
  | initDone =>
      obtain ⟨r, hr⟩ := Option.isSome_iff_exists.mp hx
      simp only [Ingest.handle?, listCompleted, hr, Option.some.injEq] at he
      cases he
      refine ⟨h.buffer, Cache.filed_empty namespaced, ?_⟩
      intro r' hr'
      cases hr'

theorem kind_handle? (he : i.handle? e = some (i', keys)) : i'.kind = i.kind := by
  cases e with
  | apply o | delete o =>
      obtain ⟨place, _, hp⟩ := Option.map_eq_some_iff.mp he
      cases hp
      rfl
  | init =>
      cases he
      rfl
  | initApply o =>
      obtain ⟨place, _, hp⟩ := Option.map_eq_some_iff.mp he
      unfold listed at hp
      split at hp <;> cases hp <;> rfl
  | initDone =>
      simp only [handle?, listCompleted, Option.some.injEq] at he
      split at he <;> cases he <;> rfl

/-! ## What comes to be cached -/

/-- Every entry of the cache and of the list in progress has a property. -/
def Entries (p : (String × Option String) × Object → Prop) (i : Ingest) : Prop :=
  (∀ e ∈ i.cache.entries, p e) ∧ ∀ e ∈ i.buffer.entries, p e

theorem entries_start (p : (String × Option String) × Object → Prop) (kind : ResourceKind) :
    Entries p { kind := kind } :=
  ⟨fun _ he => absurd he List.not_mem_nil, fun _ he => absurd he List.not_mem_nil⟩

theorem entries_insert {p : (String × Option String) × Object → Prop} {cache : Cache}
    (h : ∀ e ∈ cache.entries, p e) {place : String × Option String} (ho : p (place, o)) :
    ∀ e ∈ (Table.insert cache place o).entries, p e := by
  intro e he
  rcases Table.mem_put he with rfl | he
  · exact ho
  · exact h e he

theorem Entries.handle? {p : (String × Option String) × Object → Prop} (h : Entries p i)
    (hp : ∀ o place, e.stored? = some o → place? o = some place → p (place, o))
    (he : i.handle? e = some (i', keys)) : Entries p i' := by
  cases e with
  | apply o =>
      obtain ⟨place, hplace, hi⟩ := Option.map_eq_some_iff.mp he
      cases hi
      exact ⟨entries_insert h.1 (hp o place rfl hplace), h.2⟩
  | delete o =>
      obtain ⟨place, _, hi⟩ := Option.map_eq_some_iff.mp he
      cases hi
      exact ⟨fun e he => h.1 e (List.mem_filter.mp he).1, h.2⟩
  | init =>
      cases he
      exact ⟨h.1, fun _ he => absurd he List.not_mem_nil⟩
  | initApply o =>
      obtain ⟨place, hplace, hi⟩ := Option.map_eq_some_iff.mp he
      unfold listed at hi
      split at hi <;> cases hi <;>
        exact ⟨h.1, entries_insert h.2 (hp o place rfl hplace)⟩
  | initDone =>
      simp only [Ingest.handle?, listCompleted, Option.some.injEq] at he
      split at he <;> cases he <;> exact ⟨h.2, fun _ he => absurd he List.not_mem_nil⟩

theorem Entries.of_lookup? {p : (String × Option String) × Object → Prop} (h : Entries p i)
    {ns name : String} (hl : i.cache.lookup? ns name = some o) :
    p ((name, some ns), o) ∨ p ((name, none), o) :=
  (Cache.mem_of_lookup? hl).imp (h.1 _) (h.1 _)

theorem eq_of_place {place : String × Option String} (h : place? o = some place) :
    o.name = place.1 ∧ o.ns = place.2.getD "" := by
  obtain ⟨name, hname, rfl⟩ := Option.map_eq_some_iff.mp h
  refine ⟨?_, rfl⟩
  rw [Object.name, Metadata.anyName, hname]
  rfl

/-- Everything cached or listed so far has a property. -/
def All (p : Object → Prop) (i : Ingest) : Prop :=
  (∀ e ∈ i.cache.entries, p e.2) ∧ ∀ e ∈ i.buffer.entries, p e.2

theorem all_start (p : Object → Prop) (kind : ResourceKind) : All p { kind := kind } :=
  entries_start (fun e => p e.2) kind

theorem All.handle? {p : Object → Prop} (h : All p i) (hp : ∀ o, e.stored? = some o → p o)
    (he : i.handle? e = some (i', keys)) : All p i' :=
  Entries.handle? (p := fun e => p e.2) h (fun o _ hs _ => hp o hs) he

theorem All.of_lookup? {p : Object → Prop} (h : All p i) {ns name : String}
    (hl : i.cache.lookup? ns name = some o) : p o :=
  (Entries.of_lookup? (p := fun e => p e.2) h hl).elim id id

theorem Sound.fits (h : i.Sound namespaced) : i.All fun o => o.coordinates.Fits namespaced :=
  ⟨fun e he => (h.cache e he).1.fits, fun e he => (h.buffer e he).1.fits⟩

/-! ## Where keys come from -/

/-- A list in progress names coordinates of some kind only. -/
def Names (p : Coordinates → Prop) (i : Ingest) : Prop :=
  ∀ r, i.relist = some r → (∀ c ∈ r.previous, p c) ∧
    ∀ k ∈ r.pending, ∃ c, p c ∧ k = liveKey i.kind c

theorem names_start (p : Coordinates → Prop) (kind : ResourceKind) : Names p { kind := kind } := by
  intro r hr
  cases hr

theorem Names.listStarted {p : Coordinates → Prop} (hall : i.All fun o => p o.coordinates) :
    i.listStarted.Names p := by
  rintro _ ⟨⟩
  refine ⟨?_, fun k hk => absurd hk List.not_mem_nil⟩
  intro c hc
  obtain ⟨o, ho, rfl⟩ := List.mem_map.mp (List.mem_eraseDups.mp hc)
  obtain ⟨f, hf, rfl⟩ := List.mem_map.mp ho
  exact hall.1 f hf

theorem Names.listed {p : Coordinates → Prop} (h : Names p i) (hx : i.Expects (.initApply o))
    (ho : o.Scoped namespaced) (hp : p o.coordinates)
    (he : i.handle? (.initApply o) = some (i', keys)) : Names p i' ∧ keys = [] := by
  obtain ⟨r, hr⟩ := Option.isSome_iff_exists.mp hx
  obtain ⟨hprevious, hpending⟩ := h r hr
  rw [handle?_listed hr ho] at he
  cases he
  refine ⟨?_, rfl⟩
  rintro _ ⟨⟩
  refine ⟨fun c hc => hprevious c (List.mem_filter.mp hc).1, ?_⟩
  intro k hk
  split at hk
  · rcases List.mem_append.mp hk with hk | hk
    · exact hpending k hk
    · exact ⟨o.coordinates, hp, List.mem_singleton.mp hk⟩
  · exact hpending k hk

theorem Names.listCompleted {p : Coordinates → Prop} (h : Names p i) (hx : i.Expects .initDone)
    (he : i.handle? .initDone = some (i', keys)) :
    Names p i' ∧ ∀ k ∈ keys, ∃ c, p c ∧ k = i'.keyFor (liveKey i.kind c) := by
  obtain ⟨r, hr⟩ := Option.isSome_iff_exists.mp hx
  obtain ⟨hprevious, hpending⟩ := h r hr
  simp only [Ingest.handle?, Ingest.listCompleted, hr, Option.some.injEq] at he
  cases he
  refine ⟨(fun r' hr' => by cases hr'), ?_⟩
  intro k hk
  obtain ⟨k', hk', rfl⟩ := List.mem_map.mp hk
  rcases List.mem_append.mp hk' with hk' | hk'
  · obtain ⟨c, hc, rfl⟩ := hpending k' hk'
    exact ⟨c, hc, rfl⟩
  · obtain ⟨c, hc, rfl⟩ := List.mem_map.mp hk'
    exact ⟨c, hprevious c (List.mem_mergeSort.mp hc), rfl⟩

/-- Keys are made for the coordinates of objects, and say whether there is an object now. -/
theorem Names.handle? {p : Coordinates → Prop} (h : Names p i)
    (hall : i.All fun o => p o.coordinates) (hx : i.Expects e)
    (hs : ∀ o, e.object? = some o → o.Scoped namespaced ∧ p o.coordinates)
    (he : i.handle? e = some (i', keys)) :
    Names p i' ∧ ∀ k ∈ keys, ∃ c, p c ∧ k = i'.keyFor (liveKey i.kind c) := by
  cases e with
  | apply o =>
      obtain ⟨ho, hp⟩ := hs o rfl
      simp only [Ingest.handle?, ho.place?, Option.map_some, Option.some.injEq] at he
      cases he
      refine ⟨h, ?_⟩
      intro k hk
      refine ⟨o.coordinates, hp, ?_⟩
      split at hk
      · rw [List.mem_singleton.mp hk]
        exact keyOf_scoped _ ho
      · cases hk
  | delete o =>
      obtain ⟨ho, hp⟩ := hs o rfl
      simp only [Ingest.handle?, ho.place?, Option.map_some, Option.some.injEq] at he
      cases he
      refine ⟨h, ?_⟩
      intro k hk
      rw [List.mem_singleton.mp hk]
      exact ⟨o.coordinates, hp, keyOf_scoped _ ho⟩
  | init =>
      cases he
      exact ⟨Names.listStarted hall, fun k hk => absurd hk List.not_mem_nil⟩
  | initApply o =>
      obtain ⟨ho, hp⟩ := hs o rfl
      obtain ⟨hnames, rfl⟩ := h.listed hx ho hp he
      exact ⟨hnames, fun k hk => absurd hk List.not_mem_nil⟩
  | initDone => exact h.listCompleted hx he

end Ingest
end StatusRelay
