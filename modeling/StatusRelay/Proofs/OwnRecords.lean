import StatusRelay.Proofs.Convergence
import StatusRelay.Proofs.Separation

/-!
# A record for every object

Objects that differ in kind, namespace or name have records of their own: a worker with the key of
one leaves the record of the other alone, and once all is quiet the two that are tracked have two
records. Objects that differ in nothing but the group of their kind share one, and so may a key
whose object is gone and the namesake without a namespace.
-/
namespace StatusRelay

/-- The running watch of a kind has the object, and a deployment record lists it. -/
def Agent.Follows (a : Agent) (kind : ResourceKind) (o : Object) : Prop :=
  kind ≠ appliedWorkKind ∧ a.find kind o.ns o.name = .present o ∧ a.tracker.Lists o.uid

/-- Any two objects that are followed and differ in kind, namespace or name have two records, each
with the reference of its own object. -/
def Agent.RecordsApart (a : Agent) : Prop :=
  ∀ kind o kind' o', a.Follows kind o → a.Follows kind' o' → o.identity kind ≠ o'.identity kind' →
    ∃ record record', a.hub.records.get? (a.cluster, (o.identity kind).record) = some record ∧
      a.hub.records.get? (a.cluster, (o'.identity kind').record) = some record' ∧
      (o.identity kind).record ≠ (o'.identity kind').record ∧
      record.source.identity = o.identity kind ∧ record'.source.identity = o'.identity kind'

namespace Converged

variable {l : Lookups} {w : World l} {a : Agent} {kind : ResourceKind} {o : Object}

theorem own_record (h : Converged w a) (hf : a.Follows kind o) :
    ∃ record, a.hub.records.get? (a.cluster, (o.identity kind).record) = some record ∧
      record.source.identity = o.identity kind := by
  obtain ⟨record, hr, hd, -⟩ := h.mirrored kind o hf.1 hf.2.1 hf.2.2
  obtain ⟨r, -, hsource⟩ := hd.source
  refine ⟨record, hr, ?_⟩
  rw [hsource]
  rfl

theorem recordsApart (h : Converged w a) : a.RecordsApart := by
  intro kind o kind' o' hf hf' hdiffer
  obtain ⟨record, hr, hsource⟩ := h.own_record hf
  obtain ⟨record', hr', hsource'⟩ := h.own_record hf'
  refine ⟨record, record', hr, hr', ?_, hsource, hsource'⟩
  -- One record cannot carry both references.
  intro he
  rw [he, hr'] at hr
  cases hr
  exact hdiffer (hsource.symm.trans hsource')

end Converged

theorem tidy_run {l : Lookups} (w : World l) (cluster : String) (timeout : Duration)
    (limiter : Limiter ObjectKey) (manifestWorks : Table RecordKey ManifestWork)
    (moves : List Move)
    (hkinds : ∀ e r, w.has e → l.Serves e r → ∃ r', l.ofKind r.resourceKind = .ok r')
    (hm : Floor.Along (w.AllowsOwned (Managing manifestWorks cluster)) l
      (.start (.fresh cluster timeout limiter manifestWorks) 1) moves) :
    ∃ c log, (Floor.start (.fresh cluster timeout limiter manifestWorks) 1).run l moves = c.floor ∧
      Tidy w (Managing manifestWorks cluster) c log := by
  obtain ⟨c, hrun, htidy⟩ :=
    Crew.run_start (I := Tidy w (Managing manifestWorks cluster))
      (fun c log h => ⟨h.alone.keeps.sound.queue, h.alone.keeps.sound.registry⟩)
      (fun c log m c' notes h hm s => h.step hm s)
      moves (.fresh cluster timeout limiter manifestWorks) 1
      (Tidy.start w cluster timeout limiter manifestWorks hkinds) hm
  exact ⟨c, _, hrun, htidy⟩

/-- Objects that differ in kind, namespace or name have their own records, in every state of every
run of any number of workers, as far as hashes tell the names involved apart. What is found under
the name of an object carries its reference; and a worker with the live key or the deletion key of
an object in hand leaves every record that carries the reference of another one alone, unless that
one is the object's namesake without a namespace. Where tracked objects get their records, two of
them have two. -/
theorem records_separate (l : Lookups) (cluster : String) (timeout : Duration)
    (limiter : Limiter ObjectKey) (hub : Hub) (workers : Nat) (moves : List Move)
    (kind kind' : ResourceKind) (o o' : Object) (hfiled : hub.Filed cluster)
    (ho : Delivered moves kind o) (ho' : Delivered moves kind' o')
    (hdiffer : o.identity kind ≠ o'.identity kind')
    (hnamesake : o'.identity kind' ≠ { o.identity kind with ns := "" })
    (hhash : HashesApart (Involved hub cluster moves)) :
    let f := (Floor.start (.before cluster timeout limiter hub) workers).run l moves
    (o.identity kind).record ≠ (o'.identity kind').record ∧
      (∀ kind o record, Delivered moves kind o →
        f.agent.hub.records.get? (cluster, (o.identity kind).record) = some record →
        record.source.identity = o.identity kind) ∧
      (∀ id w key, f.workers[id]? = some w → w.key? = some key → o.HasKey kind key →
        f.agent.hub.Spares (f.move l (.turn id)).agent.hub cluster (o'.identity kind')) ∧
      ∀ (w : World l) (manifestWorks : Table RecordKey ManifestWork) (moves' : List Move),
        (∀ e r, w.has e → l.Serves e r → ∃ r', l.ofKind r.resourceKind = .ok r') →
        Floor.Along (w.AllowsOwned (Managing manifestWorks cluster)) l
          (.start (.fresh cluster timeout limiter manifestWorks) 1) moves' →
        let a := ((Floor.start (.fresh cluster timeout limiter manifestWorks) 1).run l moves').agent
        a.queue.Quiet → a.RecordsApart := by
  intro f
  obtain ⟨c, hrun, hcluster, horders⟩ :=
    Stock.orders_run l timeout limiter workers moves hfiled
  have hf : f = c.floor := hrun
  have hagent : f.agent = c.agent := congrArg Floor.agent hf
  have hown : Involved hub cluster moves (o.identity kind) := Or.inl ⟨kind, o, ho, rfl⟩
  have hother : Involved hub cluster moves (o'.identity kind') := Or.inl ⟨kind', o', ho', rfl⟩
  refine ⟨hhash.record_ne hown hother hdiffer, ?_, ?_, ?_⟩
  · intro kind o record ho hr
    rw [hagent, ← hcluster] at hr
    exact horders.source_eq hhash (Or.inl ⟨kind, o, ho, rfl⟩) hr
  · intro id w key hw hk hkey
    rw [hf] at hw
    obtain ⟨stage, hb⟩ := Crew.busy_of_key? hw hk
    obtain ⟨c', hmove, hstep⟩ := Crew.step_turn (l := l) horders.sound.queue id
    have hagent' : (f.move l (.turn id)).agent = c'.agent := by
      rw [hf, hmove]
      rfl
    rw [hagent, hagent', ← hcluster]
    refine horders.leaves hb hkey.faithful hstep ?_
    intro i hi
    exact Stock.record_ne_of_means hhash ho ho' hdiffer hnamesake hkey hi
  · intro w manifestWorks moves' hkinds hm a hquiet
    obtain ⟨c, log, hrun, htidy⟩ :=
      tidy_run w cluster timeout limiter manifestWorks moves' hkinds hm
    have ha : a = c.agent := congrArg Floor.agent hrun
    rw [ha] at hquiet ⊢
    exact (htidy.converged hquiet).recordsApart

namespace Namesakes

def resource (group kind : String) : ApiResource :=
  .of group "v1" kind (if kind = "Thing" then "things" else "gadgets")

/-- Every group has things and gadgets. -/
def lookups : Lookups :=
  ⟨fun group _ plural => .ok (resource group (if plural = "things" then "Thing" else "Gadget")),
    fun kind => .ok (resource kind.group kind.kind)⟩

def things (group : String) : ResourceKind := (resource group "Thing").resourceKind

def gadgets : ResourceKind := (resource "a.io" "Gadget").resourceKind

def entry (group plural ns uid : String) : AppliedResource := ⟨group, "v1", plural, ns, "x", uid⟩

/-- The deployment record, which lists these. -/
def work (entries : List AppliedResource) : Object where
  metadata := { name := some "a", resourceVersion := some "1" }
  spec := some (.obj [("manifestWorkName", .str "a")])
  statusMember := some (.obj [("appliedResources", .arr (entries.map AppliedResource.toJson))])

/-- Everything is called x. -/
def object (ns : Option String) (uid : String) : Object where
  metadata := { name := some "x", ns := ns, uid := some uid, resourceVersion := some "1" }

def hub : Hub where
  manifestWorks := Table.insert {} ("cluster1", "a")
    { metadata := { labels := some (.ofList [("managed-by.kubestellar.io", "x")]) } }

def limiter : Limiter ObjectKey := .exponential (.ofMillis 5) (.ofSeconds 1000) {}

def agent : Agent := .before "cluster1" (.ofSeconds 5) limiter hub

def turns (count : Nat) : List Move := List.replicate count (.turn 0)

/-! ### Objects that share a record -/

/-- A thing of one group is mirrored; one of another group, which no record lists, comes and goes. -/
def twoGroups : List Move :=
  [.work (.apply (work [entry "a.io" "things" "n" "u1", entry "b.io" "things" "m" "u2"]))] ++
  turns 17 ++ [.object (things "a.io") (.apply (object (some "n") "u1"))] ++ turns 8 ++
  [.object (things "b.io") (.apply (object (some "n") "u9")),
    .object (things "b.io") (.delete (object (some "n") "u9"))] ++ turns 6

/-- A thing in a namespace comes and goes, and one without a namespace, which is listed, comes. -/
def twoScopes : List Move :=
  [.work (.apply (work [entry "a.io" "things" "" "u1"]))] ++ turns 12 ++
  [.object (things "a.io") (.apply (object (some "n") "u9")),
    .object (things "a.io") (.delete (object (some "n") "u9")),
    .object (things "a.io") (.apply (object none "u1"))] ++ turns 6

theorem delivered_apply {moves : List Move} {kind : ResourceKind} {ns : Option String}
    {uid : String} (h : .object kind (.apply (object ns uid)) ∈ moves) :
    Delivered moves kind (object ns uid) := ⟨rfl, _, h, rfl⟩

/-- The deletion key of a thing of one group deletes the record that carries the reference of the
thing of the other group; and the live key of a thing in a namespace makes the record of the thing
without one. -/
theorem record_shared_by_namesakes :
    (Delivered twoGroups (things "a.io") (object (some "n") "u1") ∧
      Delivered twoGroups (things "b.io") (object (some "n") "u9") ∧
      ((Floor.start agent 1).run lookups twoGroups).workers.map Worker.key? =
        [some (ObjectKey.ofObject (things "b.io") (object (some "n") "u9")).intoDeleted] ∧
      (((Floor.start agent 1).run lookups twoGroups).agent.hub.records.get?
          ("cluster1", recordName "Thing" "n" "x")).map WorkStatus.source =
        some ⟨"a.io", "v1", "things", "Thing", "x", "n"⟩ ∧
      ((((Floor.start agent 1).run lookups twoGroups).move lookups (.turn 0)).agent.hub.records.get?
          ("cluster1", recordName "Thing" "n" "x")).isNone = true) ∧
    Delivered twoScopes (things "a.io") (object none "u1") ∧
      Delivered twoScopes (things "a.io") (object (some "n") "u9") ∧
      ((Floor.start agent 1).run lookups twoScopes).workers.map Worker.key? =
        [some (ObjectKey.ofObject (things "a.io") (object (some "n") "u9"))] ∧
      (((Floor.start agent 1).run lookups twoScopes).agent.hub.records.get?
          ("cluster1", recordName "Thing" "" "x")).isNone = true ∧
      ((((Floor.start agent 1).run lookups twoScopes).move lookups (.turn 0)).agent.hub.records.get?
          ("cluster1", recordName "Thing" "" "x")).map WorkStatus.source =
        some ⟨"a.io", "v1", "things", "Thing", "x", ""⟩ := by
  refine ⟨⟨delivered_apply ?_, delivered_apply ?_, by decide +kernel, by decide +kernel,
    by decide +kernel⟩, delivered_apply ?_, delivered_apply ?_, by decide +kernel,
    by decide +kernel, by decide +kernel⟩
  all_goals simp [twoGroups, twoScopes, turns]

/-! ### Objects that do not -/

/-- A thing and a gadget, both listed, come. The worker takes this many turns then. -/
def twoKinds (count : Nat) : List Move :=
  [.work (.apply (work [entry "a.io" "things" "n" "u1", entry "a.io" "gadgets" "n" "u2"]))] ++
  turns 17 ++ [.object (things "a.io") (.apply (object (some "n") "u1"))] ++
  [.object gadgets (.apply (object (some "n") "u2"))] ++ turns count

def world : World lookups where
  has e := e = entry "a.io" "things" "n" "u1" ∨ e = entry "a.io" "gadgets" "n" "u2"
  resolves := fun _ _ => ⟨_, rfl⟩
  alike := by
    rintro _ _ (rfl | rfl) (rfl | rfl) he
    · exact ⟨rfl, rfl, rfl⟩
    · exact absurd he (by decide)
    · exact absurd he (by decide)
    · exact ⟨rfl, rfl, rfl⟩
  namespaced _ := true
  site kind p := (kind = things "a.io" ∨ kind = gadgets) ∧ p = ("n", "x")
  fits := by
    rintro _ _ ⟨_, rfl⟩
    exact ⟨by decide, by decide⟩
  notWork := by
    rintro _ _ ⟨rfl | rfl, _⟩
    · decide
    · decide
  apart := by
    have hne : recordOf (things "a.io") ("n", "x") ≠ recordOf gadgets ("n", "x") :=
      Identity.record_ne (i := ⟨"Thing", "n", "x"⟩) (j := ⟨"Gadget", "n", "x"⟩) (by decide +kernel)
    rintro _ _ _ _ ⟨rfl | rfl, rfl⟩ ⟨rfl | rfl, rfl⟩ he
    · exact ⟨rfl, rfl⟩
    · exact absurd he hne
    · exact absurd he.symm hne
    · exact ⟨rfl, rfl⟩
  listed := by
    rintro _ _ (rfl | rfl) he
    · cases he
      exact ⟨Or.inl rfl, rfl⟩
    · cases he
      exact ⟨Or.inr rfl, rfl⟩

theorem owns_thing : world.Owns (things "a.io") (object (some "n") "u1") := by
  refine ⟨⟨Or.inl rfl, rfl⟩, ?_⟩
  rintro _ r (rfl | rfl) hu he
  · cases he
    exact ⟨rfl, rfl⟩
  · exact absurd hu (by decide)

theorem owns_gadget : world.Owns gadgets (object (some "n") "u2") := by
  refine ⟨⟨Or.inr rfl, rfl⟩, ?_⟩
  rintro _ r (rfl | rfl) hu he
  · exact absurd hu (by decide)
  · cases he
    exact ⟨rfl, rfl⟩

theorem scoped_object (uid : String) : (object (some "n") uid).Scoped true :=
  ⟨⟨"x", by decide, rfl⟩, "n", by decide, rfl⟩

/-- An object that comes to a watch that has nothing yet is allowed. -/
theorem allows_first {manages : String → Prop} {f : Floor} {kind : ResourceKind} {uid : String}
    (hi : f.agent.registry.intake? kind = some { kind := kind })
    (ho : world.Owns kind (object (some "n") uid)) :
    world.AllowsOwned manages f (.object kind (.apply (object (some "n") uid))) := by
  refine ⟨⟨?_, ?_⟩, fun _ he => by cases he⟩
  · intro i he
    rw [hi] at he
    cases he
    refine ⟨⟨rfl, ?_, ?_⟩, ?_⟩
    · rintro _ _ cached hat
      rw [Ingest.at?, Cache.lookup?_empty] at hat
      cases hat
    · rintro _ ⟨⟩
      exact scoped_object uid
    · rintro _ ⟨⟩
      exact ho
  · rintro _ _ ⟨⟩ i he _ _ _ c o _ hat
    rw [hi] at he
    cases he
    rw [Ingest.at?, Cache.lookup?_empty] at hat
    cases hat

theorem along_turns (manages : String → Prop) (f : Floor) (count : Nat) :
    Floor.Along (world.AllowsOwned manages) lookups f (turns count) := by
  refine Floor.along_of_forall fun m hm f => ?_
  rw [(List.mem_replicate.mp hm).2]
  exact ⟨⟨trivial, fun _ _ he => by cases he⟩, fun _ he => by cases he⟩

theorem allows_twoKinds (count : Nat) :
    Floor.Along (world.AllowsOwned (Managing hub.manifestWorks "cluster1")) lookups
      (.start agent 1) (twoKinds count) := by
  have hwork : world.AllowsOwned (Managing hub.manifestWorks "cluster1") (.start agent 1)
      (.work (.apply (work [entry "a.io" "things" "n" "u1",
        entry "a.io" "gadgets" "n" "u2"]))) := by
    refine ⟨⟨⟨⟨rfl, ?_, ?_⟩, ?_⟩, fun _ _ he => by cases he⟩, ?_⟩
    · rintro _ ⟨⟩ _ hat
      cases hat
    · rintro _ ⟨⟩
      exact ⟨⟨"a", by decide, rfl⟩, rfl⟩
    · rintro _ ⟨⟩ _ hw e he _
      cases hw
      rcases List.mem_cons.mp he with rfl | he
      · exact Or.inl rfl
      · exact Or.inr (List.mem_singleton.mp he)
    · rintro _ ⟨⟩ _ ⟨⟩ _ ⟨⟩ _
      exact ⟨_, rfl, by decide⟩
  simp only [twoKinds, Floor.along_append]
  refine ⟨⟨⟨⟨⟨hwork, trivial⟩, along_turns _ _ _⟩, ?_, trivial⟩, ?_, trivial⟩, along_turns _ _ _⟩
  · exact allows_first rfl owns_thing
  · exact allows_first rfl owns_gadget

theorem eq_of_delivered {count : Nat} {kind : ResourceKind} {o : Object}
    (h : Delivered (twoKinds count) kind o) :
    o.identity kind = ⟨"Thing", "n", "x"⟩ ∨ o.identity kind = ⟨"Gadget", "n", "x"⟩ := by
  obtain ⟨_, e, he, ho⟩ := h
  simp only [twoKinds, turns, List.mem_append, List.mem_cons, List.not_mem_nil, or_false,
    List.mem_replicate, reduceCtorEq, and_false, false_or, Move.object.injEq] at he
  rcases he with ⟨rfl, rfl⟩ | ⟨rfl, rfl⟩
  · cases ho
    exact Or.inl rfl
  · cases ho
    exact Or.inr rfl

theorem hashesApart_twoKinds (count : Nat) :
    HashesApart (Involved hub "cluster1" (twoKinds count)) := by
  have hinvolved : ∀ i, Involved hub "cluster1" (twoKinds count) i →
      i = ⟨"Thing", "n", "x"⟩ ∨ i = ⟨"Gadget", "n", "x"⟩ := by
    rintro i (⟨kind, o, ho, rfl⟩ | ⟨name, record, hr, _⟩)
    · exact eq_of_delivered ho
    · cases hr
  have hne : Identity.hash ⟨"Thing", "n", "x"⟩ ≠ Identity.hash ⟨"Gadget", "n", "x"⟩ := by
    decide +kernel
  intro i j hi hj he
  rcases hinvolved i hi with rfl | rfl
  · rcases hinvolved j hj with rfl | rfl
    · rfl
    · exact absurd he hne
  · rcases hinvolved j hj with rfl | rfl
    · exact absurd he.symm hne
    · rfl

/-- What the cache has at a place is followed if the deployment record lists it. -/
theorem follows_of_caches (a : Agent) (kind : ResourceKind) (uid : String)
    (hk : kind ≠ appliedWorkKind)
    (hc : ((a.cacheOf? kind).bind fun cache => cache.lookup? "n" "x").map
      (fun o => (o.ns, o.name, o.uid)) = some ("n", "x", uid))
    (hw : (a.tracker.works.get? "a").map (fun tracked => tracked.applied.contains uid) =
      some true) :
    ∃ o, a.Follows kind o ∧ o.identity kind = ⟨kind.kind, "n", "x"⟩ := by
  obtain ⟨o, ho, he⟩ := Option.map_eq_some_iff.mp hc
  obtain ⟨cache, hcache, hlookup⟩ := Option.bind_eq_some_iff.mp ho
  obtain ⟨hns, hname, huid⟩ : o.ns = "n" ∧ o.name = "x" ∧ o.uid = uid := by
    simpa only [Prod.mk.injEq] using he
  obtain ⟨tracked, hwork, hlists⟩ := Option.map_eq_some_iff.mp hw
  refine ⟨o, ⟨hk, ?_, "a", tracked, hwork, ?_⟩, ?_⟩
  · rw [Agent.find, hcache, hns, hname]
    simp only [hlookup]
  · rw [huid]
    exact hlists
  · rw [Object.identity, hns, hname]

/-- A worker has the key of a gadget in hand whose record is not there yet: the record of the thing
of the same name stays as it is, and in the end there are two. -/
theorem records_separate_thing_gadget :
    hub.Filed "cluster1" ∧ Delivered (twoKinds 14) gadgets (object (some "n") "u2") ∧
      Delivered (twoKinds 14) (things "a.io") (object (some "n") "u1") ∧
      HashesApart (Involved hub "cluster1" (twoKinds 14)) ∧
      (∃ record, ((Floor.start agent 1).run lookups (twoKinds 14)).agent.hub.records.get?
          ("cluster1", "thing-n-x-ccb1d6b44483ce09") = some record ∧
        (((Floor.start agent 1).run lookups (twoKinds 14)).move lookups
          (.turn 0)).agent.hub.records.get? ("cluster1", "thing-n-x-ccb1d6b44483ce09") =
            some record) ∧
      ∃ record record',
        ((Floor.start agent 1).run lookups (twoKinds 18)).agent.hub.records.get?
          ("cluster1", recordName "Thing" "n" "x") = some record ∧
        ((Floor.start agent 1).run lookups (twoKinds 18)).agent.hub.records.get?
          ("cluster1", recordName "Gadget" "n" "x") = some record' ∧
        recordName "Thing" "n" "x" ≠ recordName "Gadget" "n" "x" := by
  have hfiled : hub.Filed "cluster1" := by
    intro name record hr
    cases hr
  have hgadget : Delivered (twoKinds 14) gadgets (object (some "n") "u2") :=
    delivered_apply (by simp [twoKinds, turns])
  have hthing : Delivered (twoKinds 14) (things "a.io") (object (some "n") "u1") :=
    delivered_apply (by simp [twoKinds, turns])
  obtain ⟨_, _, hturn, hends⟩ := records_separate lookups "cluster1" (.ofSeconds 5) limiter hub 1
    (twoKinds 14) gadgets (things "a.io") (object (some "n") "u2") (object (some "n") "u1") hfiled
    hgadget hthing (by decide +kernel) (by decide +kernel) (hashesApart_twoKinds 14)
  refine ⟨hfiled, hgadget, hthing, hashesApart_twoKinds 14, ?_, ?_⟩
  · have hheld : ((Floor.start agent 1).run lookups (twoKinds 14)).workers[0]?.bind Worker.key? =
        some (.ofObject gadgets (object (some "n") "u2")) := by decide +kernel
    obtain ⟨worker, hw, hk⟩ := Option.bind_eq_some_iff.mp hheld
    have hrecord : (((Floor.start agent 1).run lookups (twoKinds 14)).agent.hub.records.get?
        ("cluster1", "thing-n-x-ccb1d6b44483ce09")).isSome = true := by decide +kernel
    obtain ⟨record, hr⟩ := Option.isSome_iff_exists.mp hrecord
    have hname : ((object (some "n") "u1").identity (things "a.io")).record =
        "thing-n-x-ccb1d6b44483ce09" := by decide +kernel
    have hkept := (hturn 0 worker _ hw hk (Or.inl rfl)).1
    rw [hname] at hkept
    exact ⟨record, hr, hkept.trans hr⟩
  · have hkinds : ∀ e r, world.has e → lookups.Serves e r →
        ∃ r', lookups.ofKind r.resourceKind = .ok r' := fun _ _ _ _ => ⟨_, rfl⟩
    have hquiet : ((Floor.start agent 1).run lookups (twoKinds 18)).agent.queue.Quiet := by
      unfold WorkQueue.Quiet
      decide +kernel
    obtain ⟨o, ho, hthing⟩ := follows_of_caches
      ((Floor.start agent 1).run lookups (twoKinds 18)).agent (things "a.io") "u1" (by decide)
      (by decide +kernel) (by decide +kernel)
    obtain ⟨o', ho', hgadget⟩ := follows_of_caches
      ((Floor.start agent 1).run lookups (twoKinds 18)).agent gadgets "u2" (by decide)
      (by decide +kernel) (by decide +kernel)
    have hdiffer : o.identity (things "a.io") ≠ o'.identity gadgets := by
      rw [hthing, hgadget]
      decide
    have hfresh : Agent.fresh "cluster1" (.ofSeconds 5) limiter hub.manifestWorks = agent := rfl
    have htwo := hends world hub.manifestWorks (twoKinds 18) hkinds
    rw [hfresh] at htwo
    obtain ⟨record, record', hr, hr', hne, _⟩ :=
      htwo (allows_twoKinds 18) hquiet _ _ _ _ ho ho' hdiffer
    have hcluster : ((Floor.start agent 1).run lookups (twoKinds 18)).agent.cluster =
        "cluster1" := by decide +kernel
    rw [hthing] at hr hne
    rw [hgadget] at hr' hne
    rw [hcluster] at hr hr'
    exact ⟨record, record', hr, hr', hne⟩

end Namesakes
end StatusRelay
