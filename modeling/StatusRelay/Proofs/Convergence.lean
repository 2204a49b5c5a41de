import StatusRelay.Proofs.Mirroring

/-!
# The whole agent with one worker

Whatever happened and in whatever order, once nothing is left to do every part agrees with every
other: the sets stored are what the deployment records list, a kind is held by the tracked UIDs that
resolve to it and watched while there are any, every cached object that is listed has a record with
its label and status, and the hub has no other record.
-/
namespace StatusRelay

open Stage Ingest Note

/-- Every part of the agent agrees with every other. -/
structure Converged {l : Lookups} (w : World l) (a : Agent) : Prop where
  sets : ∀ name, name ≠ "" → a.tracker.Reads a.works.ingest name
  holders : ∀ kind uid,
    a.registry.Holds kind uid ↔ kind.excluded = false ∧ a.tracker.Tracks l kind uid
  watches : ∀ kind, a.registry.Runs kind ↔ ∃ uid, a.registry.Holds kind uid
  mirrored : ∀ kind o, kind ≠ appliedWorkKind → a.find kind o.ns o.name = .present o →
    a.tracker.Lists o.uid → ∃ record, a.record? kind o.coordinates = some record ∧
      Describes l kind o.coordinates record ∧ Mirrors o record
  needed : ∀ key record, a.hub.records.get? key = some record →
    ∃ kind o, w.site kind o.coordinates ∧ key = (a.cluster, recordOf kind o.coordinates) ∧
      a.find kind o.ns o.name = .present o ∧ a.tracker.Lists o.uid

/-- What holds in every state of a run of one worker whose owners are managed. -/
structure Tidy {l : Lookups} (w : World l) (manages : String → Prop) (c : Crew)
    (log : List Note) : Prop where
  alone : Alone w c log
  files : Files w c
  serviceable : Serviceable w manages c
  sets : SetsTended l c
  objects : ObjectsTended w c

variable {l : Lookups} {w : World l} {c c' : Crew} {m : Move} {notes log : List Note}
  {manages : String → Prop}

theorem serviceable_start (w : World l) (cluster : String) (timeout : Duration)
    (limiter : Limiter ObjectKey) (manifestWorks : Table RecordKey ManifestWork)
    (hkinds : ∀ e r, w.has e → l.Serves e r → ∃ r', l.ofKind r.resourceKind = .ok r')
    (workers : Nat) :
    Serviceable w (Managing manifestWorks cluster)
      (.start (.fresh cluster timeout limiter manifestWorks) workers) where
  managed := Managed.start ..
  manages := by
    rintro name ⟨work, hg, hm⟩
    refine ⟨work, ?_, hm⟩
    simp only [Crew.start, Agent.fresh, Hub.getManifestWork, hg]
  resolves := hkinds

theorem Serviceable.step (h : Serviceable w manages c) (hm : w.AllowsOwned manages c.floor m)
    (s : Crew.Step l c m c' notes) : Serviceable w manages c' where
  managed := h.managed.step hm s
  manages := by
    intro name hname
    obtain ⟨work, hg, hmanaged⟩ := h.manages name hname
    refine ⟨work, ?_, hmanaged⟩
    cases s with
    | turn id hx t =>
        rw [Hub.getManifestWork, t.manifestWorks, t.cluster]
        exact hg
    | work | object | fire | mood | pass | still => exact hg
  resolves := h.resolves

namespace Tidy

theorem start (w : World l) (cluster : String) (timeout : Duration)
    (limiter : Limiter ObjectKey) (manifestWorks : Table RecordKey ManifestWork)
    (hkinds : ∀ e r, w.has e → l.Serves e r → ∃ r', l.ofKind r.resourceKind = .ok r') :
    Tidy w (Managing manifestWorks cluster)
      (.start (.fresh cluster timeout limiter manifestWorks) 1) [] where
  alone := Alone.start ..
  files := Files.start ..
  serviceable := serviceable_start w cluster timeout limiter manifestWorks hkinds 1
  sets := setsTended_start l cluster timeout limiter manifestWorks 1
  objects := objectsTended_start w cluster timeout limiter manifestWorks 1

theorem step (h : Tidy w manages c log) (hm : w.AllowsOwned manages c.floor m)
    (s : Crew.Step l c m c' notes) : Tidy w manages c' (log ++ notes) where
  alone := h.alone.step hm.1 s
  files := h.files.step h.alone.keeps h.alone.single s
  serviceable := h.serviceable.step hm s
  sets := h.sets.step h.alone.keeps h.alone.single hm.1.1 s
  objects := h.objects.step h.alone.keeps h.files h.serviceable h.alone.single hm.1.1 s

/-- With nothing in hand nothing is owed to the registry. -/
theorem owes (h : Tidy w manages c log) (hq : c.agent.queue.Quiet) :
    Owes w.toListing c.agent [] := by
  have hlt : 0 < c.hands.length := by
    rw [h.alone.single]
    exact Nat.one_pos
  obtain ⟨x, hx⟩ : ∃ x, c.hands[0]? = some x := ⟨_, List.getElem?_eq_getElem hlt⟩
  have howed : x.owed = [] := by
    cases x with
    | busy key stage p =>
        exact absurd ⟨p, hx⟩ (h.alone.keeps.sound.not_busy_of_quiet hq 0 key stage)
    | free | idle | gone => rfl
  have ho := (h.alone.owes 0 x hx).1
  rw [howed] at ho
  exact ho

theorem converged (h : Tidy w manages c log) (hq : c.agent.queue.Quiet) :
    Converged w c.agent where
  sets := fun name hname => (h.sets name hname).right_of_quiet h.alone.keeps.sound hq
  holders := (h.owes hq).holds_iff h.alone.keeps.binds.admits
  watches := h.alone.keeps.sound.registry.runs_iff
  mirrored := by
    intro kind o hk hf hl
    have ho := (Agent.find_present_iff hk o.coordinates o).mp hf
    obtain ⟨i, hi, hat⟩ := ho
    have hp : w.site kind o.coordinates :=
      ((h.alone.keeps.sees kind i hi).owns.of_lookup? hat).1
    obtain ⟨record, hr, hmirrors⟩ :=
      (h.objects kind o.coordinates o hp ⟨i, hi, hat⟩ hl).right_of_quiet h.alone.keeps.sound hq
    exact ⟨record, hr, h.files.own hp hr, hmirrors⟩
  needed := by
    intro key record hr
    obtain ⟨kind, p, hp, rfl, _⟩ := h.files.described key record hr
    have hrecords : c.agent.Records (recordOf kind p) := by
      rw [Agent.Records, hr]
      rfl
    obtain ⟨o, ho, hl⟩ := h.alone.tracked_of_records hq hp hrecords
    obtain ⟨_, rfl⟩ := h.alone.keeps.owns hp ho
    exact ⟨kind, o, hp, rfl, (Agent.find_present_iff (w.notWork kind _ hp) _ o).mpr ho, hl⟩

end Tidy

/-- After every run of one worker, with any events, failures of the hub and retries between its
steps, the agent has converged when all is quiet. -/
theorem converged_of_quiet (w : World l) (cluster : String) (timeout : Duration)
    (limiter : Limiter ObjectKey) (manifestWorks : Table RecordKey ManifestWork)
    (moves : List Move)
    (hkinds : ∀ e r, w.has e → l.Serves e r → ∃ r', l.ofKind r.resourceKind = .ok r')
    (hm : Floor.Along (w.AllowsOwned (Managing manifestWorks cluster)) l
      (.start (.fresh cluster timeout limiter manifestWorks) 1) moves) :
    let a := ((Floor.start (.fresh cluster timeout limiter manifestWorks) 1).run l moves).agent
    a.queue.Quiet → Converged w a := by
  intro a hquiet
  obtain ⟨c, hrun, htidy⟩ :=
    Crew.run_start (I := Tidy w (Managing manifestWorks cluster))
      (fun c log h => ⟨h.alone.keeps.sound.queue, h.alone.keeps.sound.registry⟩)
      (fun c log m c' notes h hm s => h.step hm s)
      moves (.fresh cluster timeout limiter manifestWorks) 1
      (Tidy.start w cluster timeout limiter manifestWorks hkinds) hm
  have ha : a = c.agent := congrArg Floor.agent hrun
  rw [ha] at hquiet ⊢
  exact htidy.converged hquiet

namespace Widgets

/-- The hub refuses to make the record; the widget's key is tried again when it does not. -/
def recovery : List Move :=
  [.work (.apply (work "a"))] ++ turns 0 10 ++ [.object resource.resourceKind (.apply widget)] ++
  [.mood true 0] ++ turns 0 8 ++ [.mood false 0, .pass 5000000,
    .fire ⟨liveKey resource.resourceKind ("default", "w"), ⟨5000000, 0⟩⟩] ++ turns 0 9

theorem ownedBy_work : OwnedBy (Managing managed.hub.manifestWorks "cluster1") (work "a") := by
  rintro _ ⟨⟩ _
  exact ⟨_, rfl, by decide⟩

/-- Moves that bring no event are allowed. -/
theorem along_eventless {manages : String → Prop} {f : Floor} {moves : List Move}
    (h : ∀ m ∈ moves, (∀ e, m ≠ .work e) ∧ ∀ kind e, m ≠ .object kind e) :
    Floor.Along (world.AllowsOwned manages) lookups f moves := by
  refine Floor.along_of_forall fun m hm f => ?_
  obtain ⟨hwork, hobject⟩ := h m hm
  refine ⟨⟨?_, fun kind e he => absurd he (hobject kind e)⟩, fun e he => absurd he (hwork e)⟩
  cases m with
  | work e => exact absurd rfl (hwork e)
  | object kind e => exact absurd rfl (hobject kind e)
  | turn | fire | mood | pass => trivial

theorem allows_recovery :
    Floor.Along (world.AllowsOwned (Managing managed.hub.manifestWorks "cluster1")) lookups
      (.start managed 1) recovery := by
  have hwork : world.AllowsOwned (Managing managed.hub.manifestWorks "cluster1")
      (.start managed 1) (.work (.apply (work "a"))) := by
    refine ⟨⟨allows_work (by decide) rfl rfl, fun _ _ he => by cases he⟩, ?_⟩
    rintro _ ⟨⟩ _ ⟨⟩
    exact ownedBy_work
  have hcomes : world.AllowsOwned (Managing managed.hub.manifestWorks "cluster1")
      ((Floor.start managed 1).run lookups ([.work (.apply (work "a"))] ++ turns 0 10))
      (.object resource.resourceKind (.apply widget)) := by
    have hempty : ((Floor.start managed 1).run lookups ([.work (.apply (work "a"))] ++
        turns 0 10)).agent.registry.intake? resource.resourceKind =
        some { kind := resource.resourceKind } := by
      rfl
    refine ⟨⟨allows_widget rfl fun i hi => ?_, ?_⟩, fun _ he => by cases he⟩
    · rw [hempty] at hi
      cases hi
      exact ⟨rfl, Or.inr rfl⟩
    · -- Nothing is cached yet, so nothing is replaced.
      rintro _ _ ⟨⟩ i hi _ _ _ c o _ hat
      rw [hempty] at hi
      cases hi
      rw [Ingest.at?, Cache.lookup?_empty] at hat
      cases hat
  simp only [recovery, Floor.along_append]
  refine ⟨⟨⟨⟨⟨⟨⟨hwork, trivial⟩, along_eventless ?_⟩, hcomes, trivial⟩, along_eventless ?_⟩,
    along_eventless ?_⟩, along_eventless ?_⟩, along_eventless ?_⟩
  all_goals simp [turns]

theorem converged_recovery :
    Floor.Along (world.AllowsOwned (Managing managed.hub.manifestWorks "cluster1")) lookups
      (.start managed 1) recovery ∧
      ((Floor.start managed 1).run lookups recovery).agent.queue.Quiet ∧
      Converged world ((Floor.start managed 1).run lookups recovery).agent := by
  have hquiet : ((Floor.start managed 1).run lookups recovery).agent.queue.Quiet := by
    unfold WorkQueue.Quiet
    decide +kernel
  refine ⟨allows_recovery, hquiet, ?_⟩
  refine converged_of_quiet world "cluster1" (.ofSeconds 5)
    (.exponential (.ofMillis 5) (.ofSeconds 1000) {}) managed.hub.manifestWorks recovery ?_
    allows_recovery hquiet
  intro _ r _ he
  cases he
  exact ⟨resource, rfl⟩

end Widgets
end StatusRelay
