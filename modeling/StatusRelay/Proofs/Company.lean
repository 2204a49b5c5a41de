import StatusRelay.Proofs.Deeds
import StatusRelay.Proofs.Hands

/-!
# A program in company

Others use the hub while a program runs: before any of its requests, and while a write of its own is
under way. Which deeds they do in which gap is given, so that all interleavings are covered. The
scene keeps the whole story of the hub, deeds and calls with their answers. What a program asks for,
and what each call may be answered, decide what the story can be; what it did to the hub is read off
the story.
-/
namespace StatusRelay

/-- What others do before a request, and while it is under way if it takes time. -/
structure Gap where
  before : List Deed := []
  during : List Deed := []
  deriving Repr, Inhabited

/-- Something that happened to the hub: a deed of others, or a call with its answer. -/
inductive Incident where
  | deed (d : Deed) (before : Hub)
  | call (c : HubCall) (before : Hub) (answer : Except AgentError c.Answer) (after : Hub)

namespace Incident

def after : Incident → Hub
  | .deed d before => before.deed d
  | .call _ _ _ after => after

def isDeed : Incident → Bool
  | .deed _ _ => true
  | .call _ _ _ _ => false

def isCallThat (p : HubCall → Bool) : Incident → Bool
  | .deed _ _ => false
  | .call c _ _ _ => p c

/-- Others changed the record under a key. -/
def Writes (key : RecordKey) : Incident → Prop
  | .deed d before => (before.deed d).records.get? key ≠ before.records.get? key
  | .call _ _ _ _ => False

/-- The record under a key that a call answered. -/
def shows? (key : RecordKey) : Incident → Option WorkStatus
  | .call (.getRecord ns name) _ (.ok record) _ => if (ns, name) = key then some record else none
  | .call (.create ns new) _ (.ok record) _ =>
      if (ns, new.metadata.name.getD "") = key then some record else none
  | .call (.patchLabels ns name _) _ (.ok record) _ =>
      if (ns, name) = key then some record else none
  | _ => none

end Incident

/-- How the hub is left by what happened to it. -/
def Hub.afterAll (h : Hub) (story : List Incident) : Hub := story.foldl (fun _ i => i.after) h

/-- A program under way: what others are still going to do, gap by gap, and what has happened. -/
structure Scene where
  agent : Agent
  gaps : List Gap := []
  story : List Incident := []

namespace Scene

abbrev hub (s : Scene) : Hub := s.agent.hub

/-- A program is about to run against a hub with a history. -/
def start (a : Agent) (history : List Deed) (gaps : List Gap) : Scene :=
  { agent := { a with hub := ({} : Hub).after history }, gaps := gaps }

def other (s : Scene) (d : Deed) : Scene :=
  { s with
    agent := { s.agent with hub := s.hub.deed d }
    story := s.story ++ [.deed d s.hub] }

def others (s : Scene) (deeds : List Deed) : Scene := deeds.foldl other s

/-- A call is answered. -/
def answered (s : Scene) (c : HubCall) (result : Except AgentError c.Answer × Agent) :
    Except AgentError c.Answer × Scene :=
  (result.1, { s with
    agent := result.2
    story := s.story ++ [.call c s.hub result.1 result.2.hub] })

def call (s : Scene) (c : HubCall) : Except AgentError c.Answer × Scene :=
  let gap := s.gaps.headD {}
  let s := ({ s with gaps := s.gaps.tail } : Scene).others gap.before
  match s.agent.beginWrite? c with
  | none => s.answered c (s.agent.perform c)
  | some (pending, agent) =>
      let s := ({ s with agent := agent } : Scene).others gap.during
      s.answered c (s.agent.endWrite c pending)

def answer (l : Lookups) : (r : Request) → Scene → r.Answer × Scene
  | .hub c, s => s.call c
  | r, s =>
      let (value, agent) := Agent.answerFrom l r s.agent
      (value, { s with agent := agent })

/-- Runs a program that may fail. -/
def attempt {α : Type} (s : Scene) (l : Lookups) (p : Attempt α) : Except AgentError α × Scene :=
  p.run.run (answer l) s

end Scene

/-! ## Running -/

theorem Program.run_bind {α β σ : Type} (answer : (r : Request) → σ → r.Answer × σ)
    (p : Program α) (f : α → Program β) (s : σ) :
    (p.bind f).run answer s = (f (p.run answer s).1).run answer (p.run answer s).2 := by
  induction p generalizing s with
  | done a => rfl
  | ask r next ih => exact ih _ _

namespace Scene

variable {α β : Type} {l : Lookups}

theorem attempt_bind (s : Scene) (p : Attempt α) (f : α → Attempt β) :
    s.attempt l (p >>= f) =
      match s.attempt l p with
      | (.ok a, s') => s'.attempt l (f a)
      | (.error e, s') => (.error e, s') := by
  have hrun : s.attempt l (p >>= f) =
      ((p.run.bind (ExceptT.bindCont f)).run (answer l) s) := rfl
  rw [hrun, Program.run_bind]
  change _ = match p.run.run (answer l) s with
    | (.ok a, s') => s'.attempt l (f a)
    | (.error e, s') => (.error e, s')
  cases p.run.run (answer l) s with
  | mk v s' => cases v <;> rfl

theorem attempt_pure (s : Scene) (a : α) : s.attempt l (pure a) = (.ok a, s) := rfl

theorem attempt_hub (s : Scene) (c : HubCall) : s.attempt l (Attempt.hub c) = s.call c := rfl

theorem attempt_hub? (s : Scene) (c : HubCall) :
    s.attempt l (Attempt.hub? c) =
      match s.call c with
      | (.ok v, s') => (.ok (some v), s')
      | (.error e, s') => (if e.isNotFound then .ok none else .error e, s') := by
  change ((fun
    | .ok v => Program.done (.ok (some v))
    | .error e => .done (if e.isNotFound then .ok none else .error e) :
      Except AgentError c.Answer → Program (Except AgentError (Option c.Answer)))
    (s.call c).1).run (answer l) (s.call c).2 = _
  cases s.call c with
  | mk v s' => cases v <;> rfl

theorem attempt_resourceOfKind (s : Scene) (kind : ResourceKind) :
    s.attempt l (Attempt.resourceOfKind kind) = (l.ofKind kind, s) := rfl

end Scene

/-! ## The story -/

/-- A story that takes the hub from one state to another. -/
inductive Hub.Linked : Hub → List Incident → Hub → Prop
  | nil (h : Hub) : Linked h [] h
  | deed {h h' : Hub} {rest : List Incident} (d : Deed) (hrest : Linked (h.deed d) rest h') :
      Linked h (.deed d h :: rest) h'
  | call {h h₁ h' : Hub} {rest : List Incident} {willing : Prop} {c : HubCall}
      {v : Except AgentError c.Answer} (hr : h.Replies willing c v h₁)
      (hrest : Linked h₁ rest h') : Linked h (.call c h v h₁ :: rest) h'

namespace Hub.Linked

variable {h h' h'' : Hub} {xs ys : List Incident} {key : RecordKey}

theorem append (h₁ : Linked h xs h') (h₂ : Linked h' ys h'') : Linked h (xs ++ ys) h'' := by
  induction h₁ with
  | nil => exact h₂
  | deed d _ ih => exact .deed d (ih h₂)
  | call hr _ ih => exact .call hr (ih h₂)

/-- A story may be cut anywhere. -/
theorem split (hl : Linked h (xs ++ ys) h') :
    Linked h xs (h.afterAll xs) ∧ Linked (h.afterAll xs) ys h' := by
  induction xs generalizing h with
  | nil => exact ⟨.nil h, hl⟩
  | cons i xs ih =>
      cases hl with
      | deed d hrest => exact ⟨.deed d (ih hrest).1, (ih hrest).2⟩
      | call hr hrest => exact ⟨.call hr (ih hrest).1, (ih hrest).2⟩

theorem before_eq {before after : Hub} {c : HubCall} {v : Except AgentError c.Answer}
    (hl : Linked h (.call c before v after :: xs) h') : h = before := by
  cases hl
  rfl

theorem later (hl : Linked h xs h') : h.Later h' := by
  induction hl with
  | nil h => exact .refl h
  | deed d _ ih => exact (later_deed _ d).trans ih
  | call hr _ ih => exact hr.touches.later.trans ih

theorem sound (hl : Linked h xs h') (hh : h.Sound) : h'.Sound := by
  induction hl with
  | nil => exact hh
  | deed d _ ih => exact ih (hh.deed d)
  | call hr _ ih => exact ih (hr.touches.sound hh)

/-- Once others have changed the record under a key, it is gone or has a later version. -/
theorem since_of_writes (hl : Linked h xs h') {i : Incident} (hi : i ∈ xs) (hw : i.Writes key) :
    ∀ record, h'.records.get? key = some record → record.Since h.version := by
  -- The story is cut at the deed; what follows it can only make the version later.
  obtain ⟨before, behind, rfl⟩ := List.append_of_mem hi
  obtain ⟨hbefore, hrest⟩ := hl.split
  cases hrest with
  | deed d hbehind =>
      have hdeed : h.Later ((h.afterAll before).deed d) := hbefore.later.trans (later_deed _ d)
      have hnew : ∀ record, ((h.afterAll before).deed d).records.get? key = some record →
          record.Since h.version := by
        rcases (later_deed (h.afterAll before) d).records key with he | hsince
        · exact absurd he hw
        · exact fun record hg => (hsince record hg).mono hbefore.later.version
      rcases hbehind.later.records key with he | hsince
      · rw [he]
        exact hnew
      · exact fun record hg => (hsince record hg).mono hdeed.version
  | call hr _ => cases hw

end Hub.Linked

/-- Deeds as a story. -/
def Hub.storyOf (h : Hub) : List Deed → List Incident
  | [] => []
  | d :: deeds => .deed d h :: (h.deed d).storyOf deeds

theorem Hub.linked_storyOf (h : Hub) (deeds : List Deed) :
    h.Linked (h.storyOf deeds) (h.after deeds) := by
  induction deeds generalizing h with
  | nil => exact .nil h
  | cons d deeds ih => exact .deed d (ih (h.deed d))

theorem Hub.storyOf_append (h : Hub) (xs ys : List Deed) :
    h.storyOf (xs ++ ys) = h.storyOf xs ++ (h.after xs).storyOf ys := by
  induction xs generalizing h with
  | nil => rfl
  | cons d xs ih => simp [storyOf, ih]

theorem Hub.isDeed_of_mem_storyOf {h : Hub} {deeds : List Deed} {i : Incident}
    (hi : i ∈ h.storyOf deeds) : i.isDeed = true := by
  induction deeds generalizing h with
  | nil => cases hi
  | cons d deeds ih =>
      rcases List.mem_cons.mp hi with rfl | hi
      · rfl
      · exact ih hi

/-! ## What a call does -/

namespace Scene

variable {s : Scene}

/-- Nobody else does anything, and the hub takes writes at once. -/
structure Calm (s : Scene) : Prop where
  gaps : ∀ gap ∈ s.gaps, gap = ⟨[.mood {}], [.mood {}]⟩
  mood : s.gaps = [] → s.hub.mood = {}

/-- A call was made: after some of the deeds of its gap the hub replied to it. -/
structure Called (s : Scene) (c : HubCall) (willing : Prop) (deeds : List Deed)
    (v : Except AgentError c.Answer) (s' : Scene) : Prop where
  mem : ∀ d ∈ deeds, d ∈ (s.gaps.headD {}).before ++ (s.gaps.headD {}).during
  replies : (s.hub.after deeds).Replies willing c v s'.hub
  story : s'.story =
    s.story ++ (s.hub.storyOf deeds ++ [.call c (s.hub.after deeds) v s'.hub])
  gaps : s'.gaps = s.gaps.tail
  calm : s.Calm → willing ∧ s'.Calm

theorem others_eq (s : Scene) (deeds : List Deed) :
    s.others deeds = { s with
      agent := { s.agent with hub := s.hub.after deeds }
      story := s.story ++ s.hub.storyOf deeds } := by
  induction deeds generalizing s with
  | nil => simp [others, Hub.storyOf]
  | cons d deeds ih =>
      change (s.other d).others deeds = _
      rw [ih]
      simp [other, Hub.storyOf]

theorem writeDelay_of_beginWrite? {a a' : Agent} {c : HubCall} {pending : PendingCall}
    (h : a.beginWrite? c = some (pending, a')) : c.isWrite = true ∧ a.hub.writeDelay ≠ 0 := by
  unfold Agent.beginWrite? Hub.delayOf at h
  cases hw : c.isWrite with
  | false => simp [hw] at h
  | true =>
      refine ⟨rfl, fun hd => ?_⟩
      simp [hw, hd] at h

theorem Calm.mood_before (h : s.Calm) : (s.hub.after (s.gaps.headD {}).before).mood = {} := by
  cases hg : s.gaps with
  | nil => exact h.mood hg
  | cons gap rest =>
      have hgap := h.gaps gap (hg ▸ List.mem_cons_self)
      rw [hgap]
      rfl

/-- A call is answered once the deeds of its gap have been done. -/
theorem called_answered {t : Scene} {c : HubCall} {result : Except AgentError c.Answer × Agent}
    {willing : Prop} {deeds : List Deed}
    (hmem : ∀ d ∈ deeds, d ∈ (s.gaps.headD {}).before ++ (s.gaps.headD {}).during)
    (hhub : t.hub = s.hub.after deeds) (hstory : t.story = s.story ++ s.hub.storyOf deeds)
    (hgaps : t.gaps = s.gaps.tail) (hr : t.hub.Replies willing c result.1 result.2.hub)
    (hcalm : s.Calm → willing ∧ result.2.hub.mood = {}) :
    s.Called c willing deeds (t.answered c result).1 (t.answered c result).2 where
  mem := hmem
  replies := hhub ▸ hr
  story := by simp [answered, hhub, hstory]
  gaps := hgaps
  calm := fun h => by
    refine ⟨(hcalm h).1, fun gap hg => h.gaps gap (List.mem_of_mem_tail ?_), fun _ => (hcalm h).2⟩
    rw [← hgaps]
    exact hg

theorem called (s : Scene) (c : HubCall) :
    ∃ willing deeds, s.Called c willing deeds (s.call c).1 (s.call c).2 := by
  unfold call
  simp only [others_eq]
  generalize hbefore : (s.gaps.headD {}).before = before
  generalize hduring : (s.gaps.headD {}).during = during
  have hmem : ∀ d ∈ before ++ during,
      d ∈ (s.gaps.headD {}).before ++ (s.gaps.headD {}).during := by
    rw [hbefore, hduring]
    exact fun d hd => hd
  have hcalm : s.Calm → (s.hub.after before).mood = {} := fun h => hbefore ▸ h.mood_before
  cases hb : Agent.beginWrite? { s.agent with hub := s.hub.after before } c with
  | none =>
      refine ⟨_, before, called_answered (fun d hd => hmem d (List.mem_append_left _ hd)) rfl rfl
        rfl (Hub.replies_perform _ c) fun h => ?_⟩
      exact ⟨congrArg Mood.failWrites (hcalm h), (Hub.mood_perform _ c).trans (hcalm h)⟩
  | some begun =>
      -- The write takes time: the deeds of the second half of the gap come before its effect, if it
      -- has one. In a calm scene no write takes time.
      obtain ⟨pending, agent⟩ := begun
      obtain ⟨hw, hdelay⟩ := writeDelay_of_beginWrite? hb
      obtain ⟨clock, -, rfl⟩ := Hand.clock_of_beginWrite? hb
      have hnot : ¬ s.Calm := fun h => hdelay (congrArg Mood.writeDelay (hcalm h))
      have hstory : s.story ++ s.hub.storyOf before ++ (s.hub.after before).storyOf during =
          s.story ++ s.hub.storyOf (before ++ during) := by
        simp [Hub.storyOf_append]
      cases he : pending.takesEffect with
      | true =>
          refine ⟨((s.hub.after before).after during).failWrites = false, before ++ during,
            called_answered hmem (Hub.after_append ..).symm hstory rfl ?_
              fun h => absurd h hnot⟩
          simp only [Agent.endWrite, he, if_true]
          exact Hub.replies_perform _ c
      | false =>
          refine ⟨False, before ++ during, called_answered hmem (Hub.after_append ..).symm hstory
            rfl ?_ fun h => absurd h hnot⟩
          simp only [Agent.endWrite, he, Bool.false_eq_true, if_false]
          exact .unwilling hw id rfl rfl (.refl _)

/-- A call was made, whatever else was done in its gap. -/
def Calls (s : Scene) (c : HubCall) (v : Except AgentError c.Answer) (s' : Scene) : Prop :=
  ∃ willing deeds, s.Called c willing deeds v s'

/-- After a call its answer decides how a program goes on. -/
theorem attempt_hub_bind {β : Type} (l : Lookups) (s : Scene) (c : HubCall)
    (f : c.Answer → Attempt β) :
    ∃ v s₁, s.Calls c v s₁ ∧ s.attempt l (Attempt.hub c >>= f) =
      match v with
      | .ok a => s₁.attempt l (f a)
      | .error e => (.error e, s₁) := by
  refine ⟨_, _, s.called c, ?_⟩
  rw [attempt_bind, attempt_hub]
  cases s.call c with
  | mk v s₁ => cases v <;> rfl

theorem attempt_hub?_bind {β : Type} (l : Lookups) (s : Scene) (c : HubCall)
    (f : Option c.Answer → Attempt β) :
    ∃ v s₁, s.Calls c v s₁ ∧ s.attempt l (Attempt.hub? c >>= f) =
      match v with
      | .ok a => s₁.attempt l (f (some a))
      | .error e => if e.isNotFound then s₁.attempt l (f none) else (.error e, s₁) := by
  refine ⟨_, _, s.called c, ?_⟩
  rw [attempt_bind, attempt_hub?]
  cases s.call c with
  | mk v s₁ =>
      cases v with
      | ok a => rfl
      | error e => cases he : e.isNotFound <;> simp [he]

theorem attempt_resourceOfKind_bind {β : Type} (l : Lookups) (s : Scene) (kind : ResourceKind)
    (f : ApiResource → Attempt β) :
    s.attempt l (Attempt.resourceOfKind kind >>= f) =
      match l.ofKind kind with
      | .ok resource => s.attempt l (f resource)
      | .error e => (.error e, s) := by
  rw [attempt_bind, attempt_resourceOfKind]
  cases l.ofKind kind <;> rfl

end Scene

/-! ## What happens in the course of a program -/

/-- A deed of others, or a call of a sort. -/
def Incident.Of (P : HubCall → Prop) : Incident → Prop
  | .deed _ _ => True
  | .call c _ _ _ => P c

/-- The story goes on with deeds of others and with calls of a sort. -/
structure Scene.Passes (P : HubCall → Prop) (s : Scene) (new : List Incident) (s' : Scene) :
    Prop where
  story : s'.story = s.story ++ new
  linked : s.hub.Linked new s'.hub
  of : ∀ i ∈ new, i.Of P

def Scene.Goes (P : HubCall → Prop) (s s' : Scene) : Prop := ∃ new, s.Passes P new s'

namespace Scene

variable {P : HubCall → Prop} {s s' s'' : Scene} {c : HubCall} {v : Except AgentError c.Answer}

theorem Goes.refl (s : Scene) : s.Goes P s :=
  ⟨[], (List.append_nil _).symm, .nil _, fun _ hi => by cases hi⟩

theorem Goes.trans (h₁ : s.Goes P s') (h₂ : s'.Goes P s'') : s.Goes P s'' := by
  obtain ⟨first, h₁⟩ := h₁
  obtain ⟨rest, h₂⟩ := h₂
  refine ⟨first ++ rest, ?_, h₁.linked.append h₂.linked, fun i hi => ?_⟩
  · rw [h₂.story, h₁.story, List.append_assoc]
  · rcases List.mem_append.mp hi with hi | hi
    · exact h₁.of i hi
    · exact h₂.of i hi

theorem Calls.goes (h : s.Calls c v s') (hc : P c) : s.Goes P s' := by
  obtain ⟨willing, deeds, h⟩ := h
  refine ⟨_, h.story, (s.hub.linked_storyOf deeds).append (.call h.replies (.nil _)),
    fun i hi => ?_⟩
  rcases List.mem_append.mp hi with hi | hi
  · have hd := Hub.isDeed_of_mem_storyOf hi
    cases i with
    | deed => trivial
    | call => cases hd
  · rw [List.mem_singleton.mp hi]
    exact hc

theorem Goes.sound (h : s.Goes P s') (hh : s.hub.Sound) : s'.hub.Sound :=
  h.elim fun _ h => h.linked.sound hh

end Scene

end StatusRelay
