import StatusRelay.Proofs.Relisting

/-!
# What a history of events queues

A history lists the events of one watch, the newest first. Its objects have names, and with or
without a namespace one place each; objects of both scopes may come together. Single changes come
outside lists and the parts of a list inside; a list that is started again is abandoned. Read
backwards, the history says what is cached: the last completed list with the later changes. And it
says which keys every event queues: a changed object's key, a deleted object's key, and at the end
of a list the keys of the objects that it brought changed and of those that it left out.

An object counts as changed against what a look-up finds for it, and a look-up in a namespace falls
back to the namesake without one.
-/
namespace StatusRelay

/-- An object with a name, and with a namespace that is not empty or with none. -/
structure Object.Placed (o : Object) : Prop where
  name : ∃ name, o.metadata.name = some name
  ns : o.metadata.ns ≠ some ""

namespace Object.Placed

variable {o : Object}

theorem place? (h : o.Placed) : Ingest.place? o = some o.coordinates.place := by
  obtain ⟨⟨name, hname⟩, hns⟩ := h
  have hn : o.name = name := by simp [Object.name, Metadata.anyName, hname]
  cases hm : o.metadata.ns with
  | none =>
      simp [Ingest.place?, coordinates, Coordinates.place, Object.ns, Metadata.nsOrEmpty, hname, hn,
        hm]
  | some ns =>
      have hne : ns ≠ "" := fun he => hns (by rw [hm, he])
      simp [Ingest.place?, coordinates, Coordinates.place, Object.ns, Metadata.nsOrEmpty, hname, hn,
        hm, hne]

theorem ofObject (h : o.Placed) (kind : ResourceKind) :
    ObjectKey.ofObject kind o = Ingest.liveKey kind o.coordinates := by
  obtain ⟨⟨name, hname⟩, _⟩ := h
  simp [ObjectKey.ofObject, Ingest.liveKey, Object.coordinates, Object.name, Object.ns,
    Metadata.anyName, Metadata.nsOrEmpty, hname]

end Object.Placed

def WatchEvent.Placed (e : WatchEvent) : Prop := ∀ o, e.object? = some o → o.Placed

abbrev History := List WatchEvent

namespace History

/-- A list is in progress. -/
def listing : History → Bool
  | .init :: _ => true
  | .initApply _ :: past => listing past
  | _ => false

/-- Single changes come outside lists, the parts of a list inside. -/
def Bracketed : History → Prop
  | [] => True
  | .apply _ :: past | .delete _ :: past => listing past = false ∧ Bracketed past
  | .init :: past => Bracketed past
  | .initApply _ :: past | .initDone :: past => listing past = true ∧ Bracketed past

/-- The last object that the list in progress brought for some coordinates. -/
def listed : History → Coordinates → Option Object
  | .initApply o :: past, c => if o.coordinates = c then some o else listed past c
  | _, _ => none

/-- The last completed list with the later changes. -/
def contents : History → Coordinates → Option Object
  | [], _ => none
  | .apply o :: past, c => if o.coordinates = c then some o else contents past c
  | .delete o :: past, c => if o.coordinates = c then none else contents past c
  | .init :: past, c | .initApply _ :: past, c => contents past c
  | .initDone :: past, c => listed past c

/-- Everything that the list in progress brought, in order. -/
def delivered : History → List Object
  | .initApply o :: past => delivered past ++ [o]
  | _ => []

/-- What a look-up finds: the object itself or else its namesake without a namespace. -/
def found (held : Coordinates → Option Object) (c : Coordinates) : Option Object :=
  (held c).or (held ("", c.2))

/-- Without such a namesake a look-up finds what is there. -/
theorem found_of_no_namesake {held : Coordinates → Option Object} {c : Coordinates}
    (h : c.1 = "" ∨ held ("", c.2) = none) : found held c = held c := by
  rcases h with h | h
  · have hc : c = ("", c.2) := Prod.ext h rfl
    rw [found, ← hc, Option.or_self]
  · rw [found, h, Option.or_none]

/-- Nothing is found for the object, or another version. -/
def differs (held : Coordinates → Option Object) (o : Object) : Bool :=
  match found held o.coordinates with
  | some cached => cached.resourceVersion ≠ o.resourceVersion
  | none => true

/-- The objects that the list in progress brought changed, in order. -/
def changed (past : History) : List Object := (delivered past).filter (differs (contents past))

/-- The key of some coordinates, with a snapshot if nothing is found there. -/
def stated (kind : ResourceKind) (held : Coordinates → Option Object) (c : Coordinates) :
    ObjectKey :=
  match found held c with
  | some _ => Ingest.liveKey kind c
  | none => (Ingest.liveKey kind c).intoDeleted

/-- The keys that an event queues. -/
def Queues (kind : ResourceKind) (past : History) (e : WatchEvent) (keys : List ObjectKey) : Prop :=
  match e with
  | .init | .initApply _ => keys = []
  | .apply o => keys = if differs (contents past) o then [Ingest.liveKey kind o.coordinates] else []
  | .delete o => keys = [stated kind (contents (.delete o :: past)) o.coordinates]
  | .initDone => ∃ gone : List Coordinates, gone.Nodup ∧
      (∀ c, c ∈ gone ↔ (contents past c).isSome = true ∧ listed past c = none) ∧
      keys = (changed past).map (fun o => Ingest.liveKey kind o.coordinates) ++
        gone.map (stated kind (contents (.initDone :: past)))

/-- The intake of a watch after some events, if none of them was refused. -/
def intake (kind : ResourceKind) : History → Option Ingest
  | [] => some { kind := kind }
  | e :: past => do
      let i ← intake kind past
      let (i, _) ← i.handle? e
      pure i

/-! ## Lists -/

variable {past : History} {o : Object} {c : Coordinates} {held : Coordinates → Option Object}
  {kind : ResourceKind} {i : Ingest} {e : WatchEvent}

theorem listed_of_not_listing (hb : Bracketed past) (h : listing past = false) :
    listed past = fun _ => none := by
  cases past with
  | nil => rfl
  | cons e past =>
      cases e with
      | apply o => rfl
      | delete o => rfl
      | init => rfl
      | initApply o =>
          have hin : listing past = true := hb.1
          rw [listing, hin] at h
          cases h
      | initDone => rfl

/-- What the list brought is listed. -/
theorem listed_of_delivered (h : o ∈ delivered past) :
    (listed past o.coordinates).isSome = true := by
  induction past with
  | nil => cases h
  | cons e past ih =>
      cases e with
      | initApply o' =>
          rw [listed]
          by_cases he : o'.coordinates = o.coordinates
          · rw [if_pos he]
            rfl
          · rw [if_neg he]
            rw [delivered] at h
            rcases List.mem_append.mp h with h | h
            · exact ih h
            · rw [List.mem_singleton] at h
              exact absurd (congrArg Object.coordinates h).symm he
      | apply _ => cases h
      | delete _ => cases h
      | init => cases h
      | initDone => cases h

/-- Some event of the history is about these coordinates. -/
def Names (past : History) (c : Coordinates) : Prop :=
  ∃ e ∈ past, ∃ o, e.object? = some o ∧ o.coordinates = c

theorem contents_of_not_names (h : ¬ Names past c) :
    contents past c = none ∧ listed past c = none := by
  induction past with
  | nil => exact ⟨rfl, rfl⟩
  | cons e past ih =>
      have hpast : ¬ Names past c := by
        rintro ⟨e', he', ho⟩
        exact h ⟨e', List.mem_cons_of_mem _ he', ho⟩
      have hne : ∀ o, e.object? = some o → o.coordinates ≠ c :=
        fun o ho he => h ⟨e, List.mem_cons_self, o, ho, he⟩
      obtain ⟨hcontents, hlisted⟩ := ih hpast
      cases e with
      | apply o => exact ⟨(if_neg (hne o rfl)).trans hcontents, rfl⟩
      | delete o => exact ⟨(if_neg (hne o rfl)).trans hcontents, rfl⟩
      | init => exact ⟨hcontents, rfl⟩
      | initApply o => exact ⟨hcontents, (if_neg (hne o rfl)).trans hlisted⟩
      | initDone => exact ⟨hlisted, rfl⟩

/-- All objects have a namespace, or none has. -/
def OneScope (past : History) : Prop :=
  (∀ c, Names past c → c.1 = "") ∨ ∀ c, Names past c → c.1 ≠ ""

theorem stated_of_isSome (h : (held c).isSome = true) (kind : ResourceKind) :
    stated kind held c = Ingest.liveKey kind c := by
  obtain ⟨o, ho⟩ := Option.isSome_iff_exists.mp h
  simp only [stated, found, ho, Option.some_or]

theorem changed_initApply (past : History) (o : Object) :
    changed (.initApply o :: past) =
      if differs (contents past) o then changed past ++ [o] else changed past := by
  unfold changed
  change (delivered past ++ [o]).filter (differs (contents past)) = _
  rw [List.filter_append]
  cases hd : differs (contents past) o <;> simp [hd]

end History

/-! ## Caches -/

namespace Cache

open History

variable {cache : Cache} {held : Coordinates → Option Object} {o : Object}

/-- The cache has what `held` says, every object at its own place. -/
structure Shows (cache : Cache) (held : Coordinates → Option Object) : Prop where
  distinct : cache.Distinct
  there : ∀ c : Coordinates, cache.get? c.place = held c
  own : ∀ place o, cache.get? place = some o → place = o.coordinates.place

theorem shows_empty : Shows {} fun _ => none where
  distinct := Table.distinct_empty
  there := fun _ => rfl
  own := by
    intro place o hg
    cases hg

namespace Shows

theorem insert (h : cache.Shows held) (o : Object) :
    Shows (Table.insert cache o.coordinates.place o)
      fun c => if o.coordinates = c then some o else held c where
  distinct := h.distinct.insert _ _
  there := by
    intro c
    rw [Table.get?_insert, h.there]
    by_cases he : o.coordinates = c
    · rw [if_pos he, if_pos (congrArg Coordinates.place he)]
    · rw [if_neg he, if_neg fun hp => he (Coordinates.place_inj hp)]
  own := by
    intro place o' hg
    rw [Table.get?_insert] at hg
    split at hg
    · rename_i hp
      rw [Option.some.injEq] at hg
      rw [← hp, hg]
    · exact h.own place o' hg

theorem erase (h : cache.Shows held) (d : Coordinates) :
    Shows (Table.erase cache d.place) fun c => if d = c then none else held c where
  distinct := h.distinct.erase _
  there := by
    intro c
    rw [Table.get?_erase, h.there]
    by_cases he : d = c
    · rw [if_pos he, if_pos (congrArg Coordinates.place he)]
    · rw [if_neg he, if_neg fun hp => he (Coordinates.place_inj hp)]
  own := by
    intro place o' hg
    rw [Table.get?_erase] at hg
    split at hg
    · cases hg
    · exact h.own place o' hg

theorem lookup? (h : cache.Shows held) (c : Coordinates) :
    cache.lookup? c.1 c.2 = found held c := by
  have hc := h.there c
  have hn : cache.get? (c.2, none) = held ("", c.2) := h.there ("", c.2)
  rw [found, ← hc, ← hn]
  unfold Cache.lookup? Coordinates.place
  by_cases hns : c.1 = ""
  · rw [if_pos hns, if_pos hns, Option.or_self]
  · rw [if_neg hns, if_neg hns]

theorem mem_coordinates_iff (h : cache.Shows held) (c : Coordinates) :
    c ∈ (cache.values.map Object.coordinates).eraseDups ↔ (held c).isSome = true := by
  rw [List.mem_eraseDups, List.mem_map, Option.isSome_iff_exists]
  refine exists_congr fun o => ?_
  rw [Table.mem_values_iff h.distinct, ← h.there]
  constructor
  · rintro ⟨⟨place, hg⟩, rfl⟩
    rw [← h.own place o hg]
    exact hg
  · intro hg
    exact ⟨⟨c.place, hg⟩, (Coordinates.place_inj (h.own c.place o hg)).symm⟩

end Shows
end Cache

theorem nodup_eraseDups {β : Type} [BEq β] [LawfulBEq β] (l : List β) : l.eraseDups.Nodup := by
  match l with
  | [] => exact List.nodup_nil
  | b :: rest =>
      rw [List.eraseDups_cons, List.nodup_cons, List.mem_eraseDups]
      refine ⟨by simp, ?_⟩
      have hlt : (rest.filter fun c => !c == b).length < (b :: rest).length :=
        Nat.lt_succ_of_le (List.length_filter_le _ _)
      exact nodup_eraseDups _
termination_by l.length
decreasing_by exact hlt

namespace History

variable {past : History} {o : Object} {c : Coordinates} {kind : ResourceKind} {i : Ingest}
  {e : WatchEvent}

/-! ## Following a history -/

/-- What is remembered of a list in progress: what it has not named yet and what it brought
changed. -/
structure Recalls (kind : ResourceKind) (past : History) (r : Relist) : Prop where
  distinct : r.previous.Nodup
  previous : ∀ c, c ∈ r.previous ↔ (contents past c).isSome = true ∧ listed past c = none
  pending : r.pending = (changed past).map fun o => Ingest.liveKey kind o.coordinates

/-- The intake is where the history has led. -/
structure Follows (kind : ResourceKind) (past : History) (i : Ingest) : Prop where
  same : i.kind = kind
  cache : i.cache.Shows (contents past)
  buffer : i.buffer.Shows (listed past)
  relist : i.relist.isSome = listing past
  recalls : ∀ r, i.relist = some r → Recalls kind past r

theorem follows_start (kind : ResourceKind) : Follows kind [] { kind := kind } where
  same := rfl
  cache := Cache.shows_empty
  buffer := Cache.shows_empty
  relist := rfl
  recalls := by
    intro r hr
    cases hr

namespace Follows

theorem versionChanged (h : Follows kind past i) (o : Object) :
    i.versionChanged o = differs (contents past) o := by
  have hl : i.cache.lookup? o.ns o.name = found (contents past) o.coordinates :=
    h.cache.lookup? o.coordinates
  rw [Ingest.versionChanged, hl]
  rfl

theorem keyFor (h : Follows kind past i) (c : Coordinates) :
    i.keyFor (Ingest.liveKey kind c) = stated kind (contents past) c := by
  have hl : i.cache.lookup? c.1 c.2 = found (contents past) c := h.cache.lookup? c
  unfold Ingest.keyFor stated
  change (match i.cache.lookup? c.1 c.2 with | some _ => _ | none => _) = _
  rw [hl]

theorem keyOf (h : Follows kind past i) (ho : o.Placed) :
    i.keyOf o = stated kind (contents past) o.coordinates := by
  rw [Ingest.keyOf, ho.ofObject, h.same, h.keyFor]

theorem relist_eq_none (h : Follows kind past i) (hl : listing past = false) :
    i.relist = none := by
  rw [← Option.not_isSome_iff_eq_none, h.relist, hl]
  exact Bool.false_ne_true

theorem exists_relist (h : Follows kind past i) (hl : listing past = true) :
    ∃ r, i.relist = some r ∧ Recalls kind past r := by
  obtain ⟨r, hr⟩ := Option.isSome_iff_exists.mp (h.relist.trans hl)
  exact ⟨r, hr, h.recalls r hr⟩

/-! ### One event -/

theorem applied (h : Follows kind past i) (hb : Bracketed past) (hl : listing past = false)
    (o : Object) : Follows kind (.apply o :: past) (i.applied o o.coordinates.place).1 where
  same := h.same
  cache := h.cache.insert o
  buffer := by
    have hnone := listed_of_not_listing hb hl
    change i.buffer.Shows fun _ => none
    rw [← hnone]
    exact h.buffer
  relist := by
    rw [listing]
    · exact h.relist.trans hl
    · simp
    · simp
  recalls := by
    intro r hr
    have hnone : i.relist = some r := hr
    rw [h.relist_eq_none hl] at hnone
    cases hnone

theorem removed (h : Follows kind past i) (hb : Bracketed past) (hl : listing past = false)
    (o : Object) : Follows kind (.delete o :: past) (i.removed o o.coordinates.place).1 where
  same := h.same
  cache := h.cache.erase o.coordinates
  buffer := by
    have hnone := listed_of_not_listing hb hl
    change i.buffer.Shows fun _ => none
    rw [← hnone]
    exact h.buffer
  relist := h.relist.trans hl
  recalls := by
    intro r hr
    have hnone : i.relist = some r := hr
    rw [h.relist_eq_none hl] at hnone
    cases hnone

theorem listStarted (h : Follows kind past i) : Follows kind (.init :: past) i.listStarted where
  same := h.same
  cache := h.cache
  buffer := Cache.shows_empty
  relist := rfl
  recalls := by
    intro r hr
    cases hr
    refine ⟨nodup_eraseDups _, fun c => ?_, rfl⟩
    rw [h.cache.mem_coordinates_iff]
    exact (and_iff_left rfl).symm

/-- The list names an object once more, or for the first time. -/
theorem recalls_listed {r : Relist} (h : Follows kind past i) (hr : Recalls kind past r)
    (o : Object) :
    Recalls kind (.initApply o :: past) ⟨r.previous.filter fun c => !decide (c = o.coordinates),
      if i.versionChanged o then r.pending ++ [Ingest.liveKey kind o.coordinates]
      else r.pending⟩ where
  distinct := hr.distinct.filter _
  previous := by
    intro c
    have hlisted : listed (.initApply o :: past) c = none ↔
        c ≠ o.coordinates ∧ listed past c = none := by
      rw [listed]
      by_cases he : o.coordinates = c
      · simp [he]
      · simp [he, Ne.symm he]
    rw [List.mem_filter, hr.previous, hlisted]
    simp only [Bool.not_eq_true', decide_eq_false_iff_not]
    change _ ↔ (contents past c).isSome = true ∧ _
    tauto
  pending := by
    rw [h.versionChanged, changed_initApply, hr.pending]
    split
    · rw [List.map_append]
      rfl
    · rfl

theorem handle?_initApply (h : Follows kind past i) (hl : listing past = true) (ho : o.Placed) :
    ∃ i', i.handle? (.initApply o) = some (i', []) ∧ Follows kind (.initApply o :: past) i' := by
  obtain ⟨r, hr, hrecalls⟩ := h.exists_relist hl
  have hrecalls' := h.recalls_listed hrecalls o
  refine ⟨{ i with
    buffer := i.buffer.insert o.coordinates.place o
    relist := some ⟨r.previous.filter fun c => !decide (c = o.coordinates),
      if i.versionChanged o then r.pending ++ [Ingest.liveKey kind o.coordinates]
      else r.pending⟩ }, ?_, h.same, h.cache, h.buffer.insert o, hl.symm, ?_⟩
  · simp only [Ingest.handle?, ho.place?, Option.map_some, Ingest.listed, hr, ho.ofObject, h.same]
  · intro r' hr'
    cases hr'
    exact hrecalls'

theorem listCompleted (h : Follows kind past i) :
    Follows kind (.initDone :: past) i.listCompleted.1 := by
  have hstate : i.listCompleted.1 =
      { i with cache := i.buffer, buffer := {}, relist := none, synced := true } := by
    unfold Ingest.listCompleted
    split <;> rfl
  rw [hstate]
  refine ⟨h.same, h.buffer, Cache.shows_empty, rfl, ?_⟩
  intro r hr
  cases hr

theorem queues_initDone (h : Follows kind past i) (hl : listing past = true) :
    Queues kind past .initDone i.listCompleted.2 := by
  obtain ⟨r, hr, hrecalls⟩ := h.exists_relist hl
  have hafter := h.listCompleted
  refine ⟨r.previous.mergeSort coordinatesLe, ?_, fun c => ?_, ?_⟩
  · exact (List.mergeSort_perm r.previous coordinatesLe).nodup_iff.mpr hrecalls.distinct
  · rw [List.mem_mergeSort]
    exact hrecalls.previous c
  · have hkeys : i.listCompleted.2 =
        (r.pending ++ (r.previous.mergeSort coordinatesLe).map (Ingest.liveKey kind)).map
          i.listCompleted.1.keyFor := by
      simp only [Ingest.listCompleted, hr, h.same]
      rfl
    rw [hkeys, List.map_append, hrecalls.pending, List.map_map, List.map_map]
    congr 1
    · refine List.map_congr_left fun o ho => ?_
      have hlisted := listed_of_delivered (List.mem_filter.mp ho).1
      exact (hafter.keyFor o.coordinates).trans (stated_of_isSome hlisted kind)
    · exact List.map_congr_left fun c _ => hafter.keyFor c

/-- An event that may come next is taken in, and queues what it should. -/
theorem step (h : Follows kind past i) (hb : Bracketed (e :: past)) (hp : e.Placed) :
    ∃ i' keys, i.handle? e = some (i', keys) ∧ Follows kind (e :: past) i' ∧
      Queues kind past e keys := by
  cases e with
  | apply o =>
      obtain ⟨hl, hb⟩ := hb
      have ho : o.Placed := hp o rfl
      have hafter := h.applied hb hl o
      refine ⟨_, _, by rw [Ingest.handle?, ho.place?]; rfl, hafter, ?_⟩
      have hthere : (contents (.apply o :: past) o.coordinates).isSome = true := by
        rw [contents, if_pos rfl]
        rfl
      have hkey := (hafter.keyOf ho).trans (stated_of_isSome hthere kind)
      rw [Queues, ← hkey, ← h.versionChanged]
      rfl
  | delete o =>
      obtain ⟨hl, hb⟩ := hb
      have ho : o.Placed := hp o rfl
      have hafter := h.removed hb hl o
      refine ⟨_, _, by rw [Ingest.handle?, ho.place?]; rfl, hafter, ?_⟩
      exact congrArg (fun k => [k]) (hafter.keyOf ho)
  | init => exact ⟨i.listStarted, [], rfl, h.listStarted, rfl⟩
  | initApply o =>
      obtain ⟨i', he, hafter⟩ := h.handle?_initApply hb.1 (hp o rfl)
      exact ⟨i', [], he, hafter, rfl⟩
  | initDone =>
      exact ⟨_, _, rfl, h.listCompleted, h.queues_initDone hb.1⟩

end Follows

theorem Bracketed.tail (h : Bracketed (e :: past)) : Bracketed past := by
  cases e with
  | init => exact h
  | _ => exact h.2

theorem intake_cons {i' : Ingest} {keys : List ObjectKey} (h : intake kind past = some i)
    (he : i.handle? e = some (i', keys)) : intake kind (e :: past) = some i' := by
  simp [intake, h, he]

/-- Every history is taken in whole. -/
theorem exists_intake (kind : ResourceKind) (hb : Bracketed past) (hp : ∀ e ∈ past, e.Placed) :
    ∃ i, intake kind past = some i ∧ Follows kind past i := by
  induction past with
  | nil => exact ⟨_, rfl, follows_start kind⟩
  | cons e past ih =>
      obtain ⟨i, hi, hfollows⟩ := ih hb.tail fun e' he' => hp e' (List.mem_cons_of_mem _ he')
      obtain ⟨i', keys, he, hfollows', _⟩ := hfollows.step hb (hp e List.mem_cons_self)
      exact ⟨i', intake_cons hi he, hfollows'⟩

/-- After every event the cache is the last completed list with the later changes, and the event
queues the keys of what it changed as a look-up sees it, and no others. Where all objects are of one
scope, a look-up for any of them sees what is cached. -/
theorem queues_changes (kind : ResourceKind) (past : History) (e : WatchEvent)
    (hb : Bracketed (e :: past)) (hp : ∀ e' ∈ e :: past, e'.Placed) :
    (∃ i i' keys, intake kind past = some i ∧ i.handle? e = some (i', keys) ∧
      i'.cache.Shows (contents (e :: past)) ∧ Queues kind past e keys) ∧
    (OneScope (e :: past) → ∀ c, Names (e :: past) c →
      found (contents past) c = contents past c ∧
        found (contents (e :: past)) c = contents (e :: past) c) := by
  constructor
  · obtain ⟨i, hi, hfollows⟩ :=
      exists_intake kind hb.tail fun e' he' => hp e' (List.mem_cons_of_mem _ he')
    obtain ⟨i', keys, he, hfollows', hq⟩ := hfollows.step hb (hp e List.mem_cons_self)
    exact ⟨i, i', keys, hi, he, hfollows'.cache, hq⟩
  · intro hs c hc
    rcases hs with hnone | hall
    · have hns : c.1 = "" := hnone c hc
      exact ⟨found_of_no_namesake (Or.inl hns), found_of_no_namesake (Or.inl hns)⟩
    · have hgone : ¬ Names (e :: past) ("", c.2) := fun hn => hall _ hn rfl
      have hbefore : ¬ Names past ("", c.2) := by
        rintro ⟨e', he', ho⟩
        exact hgone ⟨e', List.mem_cons_of_mem _ he', ho⟩
      exact ⟨found_of_no_namesake (Or.inr (contents_of_not_names hbefore).1),
        found_of_no_namesake (Or.inr (contents_of_not_names hgone).1)⟩

namespace TwoScopes

def widgets : ResourceKind := ⟨"example.com", "v1", "Widget"⟩

def widget (ns : Option String) (name : String) : Object where
  metadata := { name := some name, ns := ns, resourceVersion := some "1" }

theorem placed_widget {ns : Option String} (h : ns ≠ some "") (name : String) :
    (widget ns name).Placed := ⟨⟨name, rfl⟩, h⟩

/-- A list with `a`, and a second one with `b` that is about to end. -/
def relisted : History :=
  [.initApply (widget (some "n") "b"), .init, .initDone, .initApply (widget (some "n") "a"), .init]

theorem queues_changes_relisted :
    Bracketed (.initDone :: relisted) ∧ (∀ e ∈ .initDone :: relisted, e.Placed) ∧
      ∃ i i' keys, intake widgets relisted = some i ∧ i.handle? .initDone = some (i', keys) ∧
        Ingest.liveKey widgets ("n", "b") ∈ keys ∧
        (Ingest.liveKey widgets ("n", "a")).intoDeleted ∈ keys := by
  have hb : Bracketed (.initDone :: relisted) := ⟨rfl, rfl, rfl, rfl, trivial⟩
  have hp : ∀ e ∈ .initDone :: relisted, e.Placed := by
    intro e he o ho
    simp only [relisted, List.mem_cons, List.not_mem_nil, or_false] at he
    rcases he with rfl | rfl | rfl | rfl | rfl | rfl <;> cases ho
    · exact placed_widget (by decide) "b"
    · exact placed_widget (by decide) "a"
  obtain ⟨⟨i, i', keys, hi, he, _, gone, _, hgone, hkeys⟩, _⟩ :=
    queues_changes widgets relisted .initDone hb hp
  have ha : ("n", "a") ∈ gone := by
    rw [hgone]
    decide +kernel
  have hchanged : changed relisted = [widget (some "n") "b"] := rfl
  refine ⟨hb, hp, i, i', keys, hi, he, ?_, ?_⟩
  · rw [hkeys, hchanged]
    exact List.mem_append.mpr (Or.inl (List.mem_singleton.mpr rfl))
  · rw [hkeys]
    exact List.mem_append.mpr (Or.inr (List.mem_map.mpr ⟨("n", "a"), ha, rfl⟩))

/-- A list with an object without a namespace. -/
def unscoped : History := [.initDone, .initApply (widget none "x"), .init]

/-- An object that is new in its namespace queues nothing if its namesake without a namespace is
cached with the same version. -/
theorem nothing_queued_for_namesake :
    Bracketed (.apply (widget (some "n") "x") :: unscoped) ∧
      (∀ e ∈ .apply (widget (some "n") "x") :: unscoped, e.Placed) ∧
      (contents unscoped ("n", "x")).isSome = false ∧
      ∃ i i', intake widgets unscoped = some i ∧
        i.handle? (.apply (widget (some "n") "x")) = some (i', []) := by
  have hb : Bracketed (.apply (widget (some "n") "x") :: unscoped) := ⟨rfl, rfl, rfl, trivial⟩
  have hp : ∀ e ∈ .apply (widget (some "n") "x") :: unscoped, e.Placed := by
    intro e he o ho
    simp only [unscoped, List.mem_cons, List.not_mem_nil, or_false] at he
    rcases he with rfl | rfl | rfl | rfl <;> cases ho
    · exact placed_widget (by decide) "x"
    · exact placed_widget (by decide) "x"
  refine ⟨hb, hp, by decide +kernel, ?_⟩
  obtain ⟨i, hi, hfollows⟩ :=
    exists_intake widgets hb.tail fun e he => hp e (List.mem_cons_of_mem _ he)
  obtain ⟨i', keys, he, _, hq⟩ := hfollows.step hb (hp _ List.mem_cons_self)
  have hsame : differs (contents unscoped) (widget (some "n") "x") = false := by decide +kernel
  have hkeys : keys = [] := by
    rw [Queues, hsame] at hq
    exact hq
  exact ⟨i, i', hi, hkeys ▸ he⟩

end TwoScopes
end History
end StatusRelay
