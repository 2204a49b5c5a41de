import StatusRelay.Proofs.Occasions

/-!
# Outlines of objects

Of an object that is only cached, the intake and the registry read the outline: everything but its
labels, its spec and its status. So a function that keeps the outline of every object may be applied
to all of them before an event is taken in or after: caches, watches, registries and agents are
mapped by it, and every operation commutes with that. Only a worker that finds an object sees more.
-/
namespace StatusRelay

namespace Object

/-- What is left of an object without its labels, its spec and its status. -/
def outline (o : Object) : Object := { metadata := { o.metadata with labels := none } }

variable {o o' : Object}

theorem read_congr {α : Type} (read : Object → α) (hread : ∀ o, read o.outline = read o)
    (h : o.outline = o'.outline) : read o = read o' := by
  rw [← hread o, h, hread]

theorem uid_congr (h : o.outline = o'.outline) : o.uid = o'.uid := read_congr uid (fun _ => rfl) h

theorem coordinates_congr (h : o.outline = o'.outline) : o.coordinates = o'.coordinates :=
  read_congr coordinates (fun _ => rfl) h

theorem resourceVersion_congr (h : o.outline = o'.outline) :
    o.resourceVersion = o'.resourceVersion := read_congr resourceVersion (fun _ => rfl) h

theorem place?_congr (h : o.outline = o'.outline) : Ingest.place? o = Ingest.place? o' :=
  read_congr Ingest.place? (fun _ => rfl) h

theorem ofObject_congr (h : o.outline = o'.outline) (kind : ResourceKind) :
    ObjectKey.ofObject kind o = .ofObject kind o' :=
  read_congr (ObjectKey.ofObject kind) (fun _ => rfl) h

end Object

namespace Table

variable {κ β γ : Type} [DecidableEq κ]

omit [DecidableEq κ] in
def map (g : β → γ) (t : Table κ β) : Table κ γ := ⟨t.entries.map fun e => (e.1, g e.2)⟩

theorem find?_map (g : β → γ) (k : κ) (entries : List (κ × β)) :
    find? k (entries.map fun e => (e.1, g e.2)) = (find? k entries).map g := by
  induction entries with
  | nil => rfl
  | cons e rest ih =>
      by_cases he : e.1 = k
      · simp [find?, he]
      · simp [find?, he, ih]

theorem put_map (g : β → γ) (k : κ) (v : β) (entries : List (κ × β)) :
    put k (g v) (entries.map fun e => (e.1, g e.2)) =
      (put k v entries).map fun e => (e.1, g e.2) := by
  induction entries with
  | nil => rfl
  | cons e rest ih =>
      by_cases he : e.1 = k
      · simp [put, he]
      · simp [put, he, ih]

theorem get?_map (g : β → γ) (t : Table κ β) (k : κ) : (t.map g).get? k = (t.get? k).map g :=
  find?_map g k t.entries

theorem insert_map (g : β → γ) (t : Table κ β) (k : κ) (v : β) :
    (t.map g).insert k (g v) = (t.insert k v).map g := congrArg Table.mk (put_map g k v t.entries)

theorem erase_map (g : β → γ) (t : Table κ β) (k : κ) : (t.map g).erase k = (t.erase k).map g := by
  simp [erase, map, List.filter_map, Function.comp_def]

omit [DecidableEq κ] in
theorem values_map (g : β → γ) (t : Table κ β) : (t.map g).values = t.values.map g := by
  simp [values, map, Function.comp_def]

end Table

namespace WatchEvent

def map (g : Object → Object) : WatchEvent → WatchEvent
  | apply o => apply (g o)
  | delete o => delete (g o)
  | init => init
  | initApply o => initApply (g o)
  | initDone => initDone

end WatchEvent

namespace Ingest

def map (g : Object → Object) (i : Ingest) : Ingest :=
  { i with cache := i.cache.map g, buffer := i.buffer.map g }

variable (g : Object → Object)

theorem lookup?_map (cache : Cache) (ns name : String) :
    Cache.lookup? (cache.map g) ns name = (cache.lookup? ns name).map g := by
  unfold Cache.lookup?
  split
  · exact Table.get?_map g cache _
  · rw [Table.get?_map, Table.get?_map, Option.map_or]

theorem keyFor_map (i : Ingest) (k : ObjectKey) : (i.map g).keyFor k = i.keyFor k := by
  have hlookup : (i.map g).cache.lookup? k.ns k.name = (i.cache.lookup? k.ns k.name).map g :=
    lookup?_map g i.cache k.ns k.name
  unfold keyFor
  rw [hlookup]
  cases i.cache.lookup? k.ns k.name <;> rfl

variable {g} (hg : ∀ o, (g o).outline = o.outline)
include hg

theorem versionChanged_map (i : Ingest) (o : Object) :
    (i.map g).versionChanged (g o) = i.versionChanged o := by
  have hc := Prod.mk.inj (Object.coordinates_congr (hg o))
  have hlookup : (i.map g).cache.lookup? (g o).ns (g o).name =
      (i.cache.lookup? o.ns o.name).map g := by
    rw [hc.1, hc.2]
    exact lookup?_map g i.cache o.ns o.name
  unfold versionChanged
  rw [hlookup, Object.resourceVersion_congr (hg o)]
  cases i.cache.lookup? o.ns o.name with
  | none => rfl
  | some cached => simp only [Option.map_some, Object.resourceVersion_congr (hg cached)]

theorem applied_map (i : Ingest) (o : Object) (place : String × Option String) :
    (i.map g).applied (g o) place = ((i.applied o place).1.map g, (i.applied o place).2) := by
  have hcache : { i.map g with cache := (i.map g).cache.insert place (g o) } =
      ({ i with cache := i.cache.insert place o } : Ingest).map g := by
    simp only [map, Table.insert_map]
  unfold applied
  simp only [versionChanged_map hg, hcache, keyOf, keyFor_map]
  rw [Object.ofObject_congr (hg o)]
  rfl

theorem removed_map (i : Ingest) (o : Object) (place : String × Option String) :
    (i.map g).removed (g o) place = ((i.removed o place).1.map g, (i.removed o place).2) := by
  have hcache : { i.map g with cache := (i.map g).cache.erase place } =
      ({ i with cache := i.cache.erase place } : Ingest).map g := by
    simp only [map, Table.erase_map]
  unfold removed
  simp only [hcache, keyOf, keyFor_map]
  rw [Object.ofObject_congr (hg o)]
  rfl

theorem listStarted_map (i : Ingest) : (i.map g).listStarted = i.listStarted.map g := by
  have hsame : (i.cache.values.map g).map Object.coordinates =
      i.cache.values.map Object.coordinates := by
    rw [List.map_map]
    exact List.map_congr_left fun o _ => Object.coordinates_congr (hg o)
  simp only [listStarted, map, Table.values_map, hsame]
  rfl

theorem listed_map (i : Ingest) (o : Object) (place : String × Option String) :
    (i.map g).listed (g o) place = ((i.listed o place).1.map g, (i.listed o place).2) := by
  have hkey : (i.map g).keyOf (g o) = i.keyOf o := by
    rw [keyOf, keyFor_map, Object.ofObject_congr (hg o)]
    rfl
  unfold listed
  rw [versionChanged_map hg, hkey, Object.coordinates_congr (hg o),
    Object.ofObject_congr (hg o)]
  simp only [map, Table.insert_map]
  cases i.relist <;> rfl

omit hg in
theorem listCompleted_map (i : Ingest) :
    (i.map g).listCompleted = (i.listCompleted.1.map g, i.listCompleted.2) := by
  have hkeys : ∀ keys : List ObjectKey,
      keys.map ({ i with cache := i.buffer, buffer := {}, relist := none, synced := true }.map
        g).keyFor = keys.map { i with
          cache := i.buffer, buffer := {}, relist := none, synced := true }.keyFor :=
    fun keys => List.map_congr_left fun k _ => keyFor_map g _ k
  unfold listCompleted
  simp only [map]
  cases i.relist with
  | none => rfl
  | some r => exact Prod.ext rfl (hkeys _)

/-- An intake takes no notice of what is not in the outlines. -/
theorem handle?_map (i : Ingest) (e : WatchEvent) :
    (i.map g).handle? (e.map g) = (i.handle? e).map fun r => (r.1.map g, r.2) := by
  cases e with
  | apply o =>
      simp only [WatchEvent.map, handle?, Object.place?_congr (hg o), Option.map_map]
      exact Option.map_congr fun place _ => applied_map hg i o place
  | delete o =>
      simp only [WatchEvent.map, handle?, Object.place?_congr (hg o), Option.map_map]
      exact Option.map_congr fun place _ => removed_map hg i o place
  | init => exact congrArg (fun i => some (i, [])) (listStarted_map hg i)
  | initApply o =>
      simp only [WatchEvent.map, handle?, Object.place?_congr (hg o), Option.map_map]
      exact Option.map_congr fun place _ => listed_map hg i o place
  | initDone => exact congrArg some (listCompleted_map i)

end Ingest

variable (g : Object → Object)

def Watch.map (w : Watch) : Watch := { w with ingest := w.ingest.map g }

namespace Registry

def map (r : Registry) : Registry := { r with started := r.started.map (Watch.map g) }

/-- What keeps the outlines cannot be told from the outlines. -/
theorem map_outline_map (hg : ∀ o, (g o).outline = o.outline) (r : Registry) :
    (r.map g).map Object.outline = r.map Object.outline := by
  have hwatch : ∀ w : Watch, (w.map g).map Object.outline = w.map Object.outline := by
    intro w
    simp only [Watch.map, Ingest.map, Table.map, List.map_map, Function.comp_def, hg]
  simp only [map, List.map_map, Function.comp_def, hwatch]

theorem modify_map (change change' : Watch → Watch)
    (h : ∀ w : Watch, change' (w.map g) = (change w).map g) (started : List Watch) (n : Nat) :
    (started.map (Watch.map g)).modify n change' = (started.modify n change).map (Watch.map g) := by
  apply List.ext_getElem?
  intro m
  simp only [List.getElem?_modify, List.getElem?_map]
  cases started[m]? with
  | none => simp
  | some w =>
      by_cases hn : n = m
      · simp [hn, h]
      · simp [hn]

theorem stopWatch_map (r : Registry) (n : Nat) : (r.map g).stopWatch n = (r.stopWatch n).map g :=
  congrArg (Registry.mk r.held) (modify_map g Watch.stop Watch.stop (fun _ => rfl) r.started n)

theorem acquire_map (r : Registry) (resource : ApiResource) (uid : String) :
    (r.map g).acquire resource uid =
      ((r.acquire resource uid).1, (r.acquire resource uid).2.map g) := by
  unfold acquire
  split
  · rfl
  · simp only [map]
    cases r.held.get? resource.resourceKind with
    | some h => rfl
    | none => simp [Watch.map, Watch.start, Ingest.map, Table.map]

theorem release_map (r : Registry) (kind : ResourceKind) (uid : String) :
    (r.map g).release kind uid = ((r.release kind uid).1, (r.release kind uid).2.map g) := by
  have hheld : (r.map g).held = r.held := rfl
  unfold release
  rw [hheld]
  cases r.held.get? kind with
  | none => rfl
  | some h =>
      simp only
      split
      · cases h.uids.erase uid with
        | nil => exact Prod.ext rfl (stopWatch_map g { r with held := r.held.erase kind } h.watch)
        | cons _ _ => rfl
      · rfl

theorem lister?_map (r : Registry) (kind : ResourceKind) :
    (r.map g).lister? kind = (r.lister? kind).map (Table.map g) := by
  unfold lister?
  change (r.held.get? kind >>= _) = _
  cases r.held.get? kind with
  | none => rfl
  | some h =>
      change ((r.started.map (Watch.map g))[h.watch]? >>= _) = _
      rw [List.getElem?_map]
      cases hw : r.started[h.watch]? with
      | none => simp [hw]
      | some w => simp [hw]; rfl

theorem watch?_map (r : Registry) (n : Nat) : (r.map g).watch? n = (r.watch? n).map (Watch.map g) :=
  List.getElem?_map

theorem latest?_map (r : Registry) (kind : ResourceKind) :
    (r.map g).latest? kind = r.latest? kind := by
  unfold latest? map
  rw [List.length_map]
  congr 1
  funext n
  rw [List.getElem?_map]
  cases r.started[n]? <;> rfl

theorem setIngest_map (r : Registry) (n : Nat) (i : Ingest) :
    (r.map g).setIngest n (i.map g) = (r.setIngest n i).map g :=
  congrArg (Registry.mk r.held) (modify_map g (fun w => { w with ingest := i })
    (fun w => { w with ingest := i.map g }) (fun _ => rfl) r.started n)

end Registry

/-- What a look-up finds. -/
def Sighting.map : Sighting → Sighting
  | noWatch => noWatch
  | absent => absent
  | present o => present (g o)

namespace Agent

/-- The deployment records are left as they are. -/
def map (a : Agent) : Agent := { a with registry := a.registry.map g }

theorem find_work_map (a : Agent) (ns name : String) :
    (a.map g).find appliedWorkKind ns name = a.find appliedWorkKind ns name := by
  simp only [find, cacheOf?, if_pos, map]

theorem find_map (a : Agent) {kind : ResourceKind} (hk : kind ≠ appliedWorkKind)
    (ns name : String) : (a.map g).find kind ns name = (a.find kind ns name).map g := by
  simp only [find, cacheOf?, if_neg hk, map, Registry.lister?_map]
  cases a.registry.lister? kind with
  | none => rfl
  | some cache =>
      simp only [Option.map_some, Ingest.lookup?_map]
      cases cache.lookup? ns name <;> rfl

variable {g}

/-- Apart from look-ups, requests are answered alike. -/
theorem answerFrom_map (l : Lookups) (a : Agent) (r : Request)
    (hr : ∀ kind ns name, r ≠ .find kind ns name) :
    answerFrom l r (a.map g) = ((answerFrom l r a).1, (answerFrom l r a).2.map g) := by
  cases r with
  | find kind ns name => exact absurd rfl (hr kind ns name)
  | acquire resource uid =>
      simp only [answerFrom, answer, map, Registry.acquire_map]
  | release kind uid =>
      simp only [answerFrom, answer, map, Registry.release_map]
  | hub | resourceNamed | resourceOfKind | replaceSet | removeSet | ownerOf | enqueue => rfl

theorem settle_map (a : Agent) (key : ObjectKey) (result : Except AgentError Outcome) :
    (a.map g).settle key result = (a.settle key result).map g := by
  rw [settle_eq, settle_eq]
  split <;> rfl

theorem beginWrite?_map (a : Agent) (c : HubCall) :
    (a.map g).beginWrite? c = (a.beginWrite? c).map fun r => (r.1, r.2.map g) := by
  have hhub : (a.map g).hub = a.hub := rfl
  unfold beginWrite?
  rw [hhub]
  cases a.hub.delayOf c <;> rfl

theorem endWrite_map (a : Agent) (c : HubCall) (pending : PendingCall) :
    (a.map g).endWrite c pending = ((a.endWrite c pending).1, (a.endWrite c pending).2.map g) := by
  unfold endWrite
  split <;> rfl

theorem requestFrom_map (l : Lookups) (a : Agent) (key : ObjectKey) {rest : Reconcile}
    (hr : ∀ kind ns name, rest.request? ≠ some (.find kind ns name)) :
    (a.map g).requestFrom l key rest =
      ((a.requestFrom l key rest).1, (a.requestFrom l key rest).2.map g) := by
  cases rest with
  | done result => simp only [requestFrom, settle_map]
  | ask r next =>
      have hmap := answerFrom_map (g := g) l a r fun kind ns name he =>
        hr kind ns name (congrArg some he)
      cases r with
      | hub c =>
          simp only [requestFrom, beginWrite?_map]
          cases a.beginWrite? c <;> rfl
      | find kind ns name => exact absurd rfl (hr kind ns name)
      | resourceNamed | resourceOfKind | replaceSet | removeSet | ownerOf | acquire | release
      | enqueue => simp only [requestFrom, hmap]

theorem taken_map (a : Agent) (handout : Handout ObjectKey) :
    (a.map g).taken handout = a.taken handout := by
  cases handout <;> rfl

theorem deliverWork_map (a : Agent) (e : WatchEvent) :
    ((a.map g).deliverWork e).2 = (a.deliverWork e).2.map g := by
  have hfed : (a.map g).worksFed = a.worksFed := rfl
  have hworks : (a.map g).works = a.works := rfl
  unfold deliverWork
  rw [hfed, hworks]
  split
  · rfl
  · cases a.works.ingest.handle? e <;> rfl

theorem deliver_map (hg : ∀ o, (g o).outline = o.outline) (a : Agent) (kind : ResourceKind)
    (e : WatchEvent) :
    ((a.map g).deliver kind (e.map g)).2 = (a.deliver kind e).2.map g := by
  unfold deliver
  simp only [map, Registry.latest?_map, Registry.watch?_map]
  cases a.registry.latest? kind with
  | none => rfl
  | some n =>
      simp only
      cases a.registry.watch? n with
      | none => rfl
      | some w =>
          simp only [Option.map_some, Watch.map, Ingest.handle?_map hg]
          split
          · rfl
          · cases w.ingest.handle? e with
            | none => rfl
            | some r => simp only [Option.map_some, Registry.setIngest_map]

end Agent

end StatusRelay
