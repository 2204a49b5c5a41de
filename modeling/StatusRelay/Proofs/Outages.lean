import StatusRelay.Proofs.Announcements
import StatusRelay.Proofs.Deployments
import StatusRelay.Proofs.Leaks

/-!
# Lookups that fail for a while

Reconciles run one after the other, and any lookup of an API resource may fail. A change whose
lookup fails is passed over for good: the tracker has taken it in already, so a record that is read
once more is no news, and the registry hears of the UID only when its tracking changes the next
time. So after lookups have come back and all records were read again, the kinds are held by the
UIDs tracked if and only if the registry was told last to count in those that the tracker listed
last.
-/
namespace StatusRelay

open Stage Note

variable {l l' : Lookups} {w : Listing l} {a a' : Agent} {id : WorkerId} {key : ObjectKey}
  {st st' : Stage} {notes : List Note} {name : String}

/-- Resources are found under their plural names as by `l`, or not at all. -/
def Lookups.Falters (l l' : Lookups) : Prop :=
  ∀ group version plural, l'.named group version plural = l.named group version plural ∨
    ∃ e, l'.named group version plural = .error e

theorem Lookups.falters_self (l : Lookups) : l.Falters l := fun _ _ _ => Or.inl rfl

theorem Lookups.Falters.found (h : l.Falters l') {group version plural : String} {r : ApiResource}
    (hr : l'.named group version plural = .ok r) : l.named group version plural = .ok r := by
  rcases h group version plural with he | ⟨e, he⟩
  · exact he.symm.trans hr
  · rw [he] at hr
    cases hr

/-- With lookups that falter an answer is what it would be, or a change is passed over. -/
theorem Answered.of_falters (h : l.Falters l') (ha : Answered l' a id key st st' a' notes) :
    Answered ⟨l.named, l'.ofKind⟩ a id key st st' a' notes ∨
      ∃ c changes, st = changing (c :: changes) ∧ st' = changing changes ∧ a' = a ∧ notes = [] := by
  cases ha with
  | leads hl =>
      cases hl with
      | served c changes r hr => exact Or.inl (.leads (.served c changes r (h.found hr)))
      | unserved c changes => exact Or.inr ⟨c, changes, rfl, rfl, rfl, rfl⟩
      | _ => exact Or.inl (.leads (by constructor <;> assumption))
  | _ => exact Or.inl (by constructor <;> assumption)

/-! ## Errands -/

/-- Something to do, and what lookups find in the course of it, request by request. -/
structure Errand where
  chore : Chore
  outlook : Nat → Lookups

/-- An agent in the course of its errands: the requests made for the present one, and what was said
and told so far. -/
structure Progress where
  agent : Agent
  requests : Nat := 0
  log : List Note := []

namespace Progress

def answer (outlook : Nat → Lookups) (key : ObjectKey) (r : Request) (p : Progress) :
    r.Answer × Progress :=
  let (value, agent) := Agent.answerFrom (outlook p.requests) r p.agent
  (value, ⟨agent, p.requests + 1, p.log ++ (Note.ofAnswer 0 key false r value).filter isNews⟩)

def errand (p : Progress) (e : Errand) : Progress :=
  match e.chore with
  | .reconcile key =>
      ((Reconciler.reconcile p.agent.cluster key).run.run (answer e.outlook key)
        { p with requests := 0 }).2
  | c => { p with agent := p.agent.chore (e.outlook 0) c }

def errands : Progress → List Errand → Progress := List.foldl errand

end Progress

theorem Note.filter_ofAnswer (id : WorkerId) (key : ObjectKey) (last : Bool) (r : Request)
    (v : r.Answer) :
    (ofAnswer id key last r v).filter isNews = (ofAnswer 0 key false r v).filter isNews := by
  cases r with
  | hub c =>
      cases c <;> cases v <;> simp only [ofAnswer] <;> (try split) <;> simp [isNews]
  | find => cases v <;> simp [ofAnswer, isNews]
  | _ => rfl

/-- With lookups that do not change errands are chores. -/
theorem Progress.agent_errand (p : Progress) (c : Chore) :
    (p.errand ⟨c, fun _ => l⟩).agent = p.agent.chore l c := by
  have hrun : ∀ (key : ObjectKey) (q : Reconcile) (p : Progress),
      (q.run (answer (fun _ => l) key) p).2.agent = (q.run (Agent.answerFrom l) p.agent).2 := by
    intro key q
    induction q with
    | done result => exact fun _ => rfl
    | ask r next ih => exact fun p => ih _ _
  cases c with
  | reconcile key => exact hrun key _ _
  | work | object | hub => rfl

/-- What every answer keeps, a reconcile keeps. -/
theorem Progress.run_reconcile {outlook : Nat → Lookups} {I : Agent → List Note → Stage → Prop}
    (hstep : ∀ n a log st st' a' notes, I a log st → Answered (outlook n) a 0 key st st' a' notes →
      I a' (log ++ notes.filter isNews) st')
    (p : Progress) (h : I p.agent p.log (first key)) :
    ∃ st' result, st'.result? = some result ∧
      I (p.errand ⟨.reconcile key, outlook⟩).agent (p.errand ⟨.reconcile key, outlook⟩).log st' := by
  have hanswer : ∀ p st st' r last, I p.agent p.log st →
      Answered (outlook p.requests) p.agent 0 key st st' (answer outlook key r p).2.agent
        (Note.ofAnswer 0 key last r (answer outlook key r p).1) →
      I (answer outlook key r p).2.agent (answer outlook key r p).2.log st' := by
    intro p st st' r last hI ha
    have hkept := hstep _ _ p.log _ _ _ _ hI ha
    rw [Note.filter_ofAnswer] at hkept
    exact hkept
  exact run_answers Progress.agent (fun p => outlook p.requests) (fun _ _ => rfl)
    (I := fun p st => I p.agent p.log st) hanswer _ { p with requests := 0 } (first key) rest_first h

/-! ## What is known after each errand -/

/-- Lookups of kinds do not matter to a listing. -/
def Listing.withKinds (w : Listing l) (ofKind : ResourceKind → Except AgentError ApiResource) :
    Listing ⟨l.named, ofKind⟩ := ⟨w.has, w.resolves, w.alike⟩

theorem Tallies.of_filter {log : List Note} (h : Tallies w a (log ++ notes)) :
    Tallies w a (log ++ notes.filter isNews) := by
  have hlatest : ∀ p : Note → Option Bool, (∀ n, n.isNews = false → p n = none) →
      latest p (notes.filter isNews) = latest p notes := by
    intro p hp
    rw [latest, latest, List.filterMap_filter]
    congr 1
    refine List.filterMap_congr fun n _ => ?_
    cases hn : n.isNews with
    | true => rfl
    | false => simp [hp n hn]
  have hsaid := fun uid => hlatest (said uid) fun n hn => by
    cases n <;> first | rfl | cases hn
  have htold := fun uid => hlatest (told uid) fun n hn => by
    cases n <;> first | rfl | cases hn
  constructor
  · intro uid
    rw [latest_append, hsaid, ← latest_append]
    exact h.lists uid
  · intro kind uid
    rw [latest_append, htold, ← latest_append]
    exact h.holds kind uid

/-- What holds of an agent between two errands. -/
structure Progress.Sound (w : Listing l) (p : Progress) : Prop where
  sound : (⟨p.agent, []⟩ : Crew).Sound
  binds : w.Binds ⟨p.agent, []⟩
  tallies : Tallies w p.agent p.log

namespace Progress.Sound

variable {p : Progress} {e : Errand}

theorem start (w : Listing l) (cluster : String) (timeout : Duration)
    (limiter : Limiter ObjectKey) (manifestWorks : Table RecordKey ManifestWork) :
    Progress.Sound w { agent := .fresh cluster timeout limiter manifestWorks } where
  sound := Crew.sound_nil (WorkQueue.sound_start limiter {}) Registry.sound_empty
    Tracker.sound_empty
  binds := Listing.binds_nil (w.admits_fresh cluster timeout limiter manifestWorks)
  tallies := Tallies.fresh w cluster timeout limiter manifestWorks

theorem reconcile (h : p.Sound w) (key : ObjectKey) {outlook : Nat → Lookups}
    (ho : ∀ n, l.Falters (outlook n)) : (p.errand ⟨.reconcile key, outlook⟩).Sound w := by
  let I : Agent → List Note → Stage → Prop := fun a log st =>
    (a.queue.Sound a.clock ∧ a.registry.Sound ∧ a.tracker.Sound) ∧ w.Admits a ∧ w.Fits st ∧
      Tallies w a log
  have hstart : I p.agent p.log (first key) :=
    ⟨⟨h.sound.queue, h.sound.registry, h.sound.tracker⟩, h.binds.admits, w.fits_first key,
      h.tallies⟩
  have hstep : ∀ n a log st st' a' notes, I a log st →
      Answered (outlook n) a 0 key st st' a' notes → I a' (log ++ notes.filter isNews) st' := by
    rintro n a log st st' a' notes ⟨⟨hq, hr, ht⟩, hw, hf, htal⟩ ha
    have hsound := ha.sound hq hr ht (w.clean_of_fits hf)
    rcases ha.of_falters (ho n) with ha | ⟨c, changes, rfl, rfl, rfl, rfl⟩
    · let w' := w.withKinds (outlook n).ofKind
      have hw' : w'.Admits a := ⟨hw.works, hw.stores⟩
      have hf' : w'.Fits st := hf
      have htal' : Tallies w' a log := ⟨htal.lists, htal.holds⟩
      obtain ⟨hw'', hf''⟩ := hw'.answered ht hf' ha
      have htal'' := htal'.announced hr (Listing.announces ht hf' ha)
      exact ⟨hsound, ⟨hw''.works, hw''.stores⟩, hf'',
        Tallies.of_filter ⟨htal''.lists, htal''.holds⟩⟩
    · refine ⟨hsound, hw, fun d hd => hf d (List.mem_cons_of_mem _ hd), ?_⟩
      rw [List.filter_nil, List.append_nil]
      exact htal
  obtain ⟨st', result, _, ⟨hq, hr, ht⟩, hw, _, htal⟩ := Progress.run_reconcile hstep p hstart
  exact ⟨Crew.sound_nil hq hr ht, Listing.binds_nil hw, htal⟩

theorem errand (h : p.Sound w) (ha : w.Allows e.chore) (ho : ∀ n, l.Falters (e.outlook n)) :
    (p.errand e).Sound w := by
  obtain ⟨c, outlook⟩ := e
  by_cases hnot : ∀ key, c ≠ .reconcile key
  · have hagent : (p.errand ⟨c, outlook⟩).agent = p.agent.chore l c := by
      cases c with
      | reconcile key => exact absurd rfl (hnot key)
      | work | object | hub => rfl
    have hlog : (p.errand ⟨c, outlook⟩).log = p.log := by
      cases c with
      | reconcile key => exact absurd rfl (hnot key)
      | work | object | hub => rfl
    rcases chore_event (l := l) h.sound.registry hnot with ⟨m, c', notes, hs, he, hm⟩ | ⟨hub, he⟩
    · have hsilent : Tallies w c'.agent (p.log ++ []) := by
        cases hs with
        | turn id hh => cases hh
        | work | object | fire | mood | pass | still => exact h.tallies.silent rfl rfl (by simp)
      have hsound := h.sound.step hs
      refine ⟨?_, ?_, ?_⟩
      · rw [hagent, he]
        exact Crew.sound_nil hsound.queue hsound.registry hsound.tracker
      · rw [hagent, he]
        exact Listing.binds_nil (h.binds.step h.sound (hm w ha) hs).admits
      · rw [hagent, hlog, he, ← List.append_nil p.log]
        exact hsilent
    · refine ⟨?_, ?_, ?_⟩
      · rw [hagent, he]
        exact Crew.sound_nil h.sound.queue h.sound.registry h.sound.tracker
      · rw [hagent, he]
        exact Listing.binds_nil ⟨h.binds.admits.works, h.binds.admits.stores⟩
      · rw [hagent, hlog, he]
        exact ⟨h.tallies.lists, h.tallies.holds⟩
  · obtain ⟨key, rfl⟩ := not_forall_not.mp hnot
    exact h.reconcile key ho

theorem errands (h : p.Sound w) (es : List Errand)
    (he : ∀ e ∈ es, w.Allows e.chore ∧ ∀ n, l.Falters (e.outlook n)) : (p.errands es).Sound w := by
  induction es generalizing p with
  | nil => exact h
  | cons e rest ih =>
      obtain ⟨ha, ho⟩ := he e List.mem_cons_self
      exact ih (h.errand ha ho) fun d hd => he d (List.mem_cons_of_mem _ hd)

end Progress.Sound

/-! ## Records that are read once more -/

/-- A record is there, and if it can be read and says something, what it says is stored. -/
def Agent.HasRead (a : Agent) (name : String) : Prop :=
  ∃ o, a.works.ingest.at? ("", name) = some o ∧ ∀ work, AppliedWork.ofObject o = .ok work →
    o.Ready work → a.tracker.works.get? o.name =
      storedAs work.manifestWork (AppliedSet.ofResources work.resources)

/-- The record of some name is reconciled while all lookups succeed. -/
def Errand.reread (l : Lookups) (name : String) : Errand :=
  ⟨.reconcile (Ingest.liveKey appliedWorkKind ("", name)), fun _ => l⟩

/-- To store what is stored changes nothing. -/
theorem Tracker.replace_same {t : Tracker} {work manifestWork : String} {applied : AppliedSet}
    (h : t.works.get? work = storedAs manifestWork applied) :
    (t.replace work manifestWork applied).1 = {} ∧ ∀ other,
      (t.replace work manifestWork applied).2.works.get? other = t.works.get? other := by
  have hset : (t.appliedSet? work).getD {} = applied := by
    rw [appliedSet?, h, storedAs]
    split
    · rename_i he
      exact ((AppliedSet.isEmpty_eq_true_iff applied).mp he).symm
    · rfl
  constructor
  · simp only [replace, hset, AppliedSet.difference, if_true, withdraw]
    rfl
  · intro other
    rw [works_replace]
    split
    · rename_i ho
      rw [← ho, h, storedAs]
    · rfl

/-- What a reconcile of a record that was read leaves as it was. -/
structure Unmoved (a₀ a : Agent) (log₀ log : List Note) : Prop where
  log : log = log₀
  intake : a.works = a₀.works
  sets : ∀ name, a.tracker.works.get? name = a₀.tracker.works.get? name

theorem Unmoved.hasRead {a₀ : Agent} {log₀ log : List Note} (h : Unmoved a₀ a log₀ log)
    (hr : a₀.HasRead name) : a.HasRead name := by
  obtain ⟨o, ho, hsets⟩ := hr
  refine ⟨o, by rw [h.intake]; exact ho, fun work hw hready => ?_⟩
  rw [h.sets]
  exact hsets work hw hready

/-- A stage that is at its end asks nothing any more. -/
theorem not_answered_of_result? {result : Except AgentError Outcome}
    (h : st.result? = some result) : ¬ Answered l a id key st st' a' notes := by
  intro ha
  cases ha with
  | leads hl => cases hl <;> cases h
  | _ => cases h

theorem Answered.of_first (ha : Answered l a id key (first key) st' a' notes)
    (hk : key.kind = appliedWorkKind) {o : Object}
    (hf : a.find key.kind key.ns key.name = .present o) :
    st' = opened o ∧ a' = a ∧ ∀ n ∈ notes, n.isNews = false := by
  unfold first at ha
  split at ha
  · exact absurd ha (not_answered_of_result? rfl)
  · cases ha with
    | leads hl =>
        cases hl with
        | present _ _ hne => exact absurd hk hne
        | presentWork o' hf' =>
            rw [hf] at hf'
            cases hf'
            exact ⟨rfl, rfl, by simp [isNews]⟩
        | gone _ hnot | workGone _ hnot => exact absurd hf (hnot o)
        | absent hnone | unwatched hnone =>
            rw [hf] at hnone
            cases hnone

theorem Answered.of_opened {o : Object} (ha : Answered l a id key (opened o) st' a' notes)
    (hsets : ∀ work, AppliedWork.ofObject o = .ok work → o.Ready work →
      a.tracker.works.get? o.name =
        storedAs work.manifestWork (AppliedSet.ofResources work.resources)) :
    st' = changing [] ∧ notes = [] ∧ a'.works = a.works ∧
      ∀ other, a'.tracker.works.get? other = a.tracker.works.get? other := by
  rcases opened_cases o with ⟨_, _, _, he⟩ | ⟨work, hw, ⟨_, he⟩ | ⟨hready, he⟩⟩
  · rw [he] at ha
    exact absurd ha (not_answered_of_result? rfl)
  · rw [he] at ha
    exact absurd ha (not_answered_of_result? rfl)
  · rw [he] at ha
    obtain ⟨hnone, hsame⟩ := Tracker.replace_same (hsets work hw hready)
    cases ha with
    | leads hl => cases hl
    | replaces =>
        rw [hnone]
        exact ⟨rfl, rfl, rfl, hsame⟩

theorem Progress.reread (p : Progress) (hr : p.agent.HasRead name) :
    Unmoved p.agent (p.errand (.reread l name)).agent p.log (p.errand (.reread l name)).log := by
  obtain ⟨o, ho, hsets⟩ := hr
  let key := Ingest.liveKey appliedWorkKind ("", name)
  let I : Agent → List Note → Stage → Prop := fun a log st =>
    Unmoved p.agent a p.log log ∧ (st = first key ∨ st = opened o ∨ st = changing [])
  have hstep : ∀ n a log st st' a' notes, I a log st →
      Answered ((fun _ : Nat => l) n) a 0 key st st' a' notes →
      I a' (log ++ notes.filter isNews) st' := by
    rintro n a log st st' a' notes ⟨hu, rfl | rfl | rfl⟩ ha
    · have hf : a.find key.kind key.ns key.name = .present o :=
        (Agent.find_work_iff a ("", name) o).mpr (by rw [hu.intake]; exact ho)
      obtain ⟨rfl, rfl, hn⟩ := ha.of_first rfl hf
      have hnone : notes.filter isNews = [] := List.filter_eq_nil_iff.mpr (by simpa using hn)
      rw [hnone, List.append_nil]
      exact ⟨hu, Or.inr (Or.inl rfl)⟩
    · obtain ⟨rfl, rfl, hworks, hsame⟩ := ha.of_opened fun work hw hready => by
        rw [hu.sets]
        exact hsets work hw hready
      refine ⟨⟨?_, hworks.trans hu.intake, fun other => (hsame other).trans (hu.sets other)⟩,
        Or.inr (Or.inr rfl)⟩
      rw [List.filter_nil, List.append_nil]
      exact hu.log
    · exact absurd ha (not_answered_of_result? rfl)
  obtain ⟨_, _, _, hu, _⟩ := Progress.run_reconcile hstep p
    ⟨⟨rfl, rfl, fun _ => rfl⟩, Or.inl rfl⟩
  exact hu

theorem opened_of_ready {o : Object} {work : AppliedWork} (hw : AppliedWork.ofObject o = .ok work)
    (hready : o.Ready work) :
    opened o = replacing o.name work.manifestWork (AppliedSet.ofResources work.resources) := by
  rw [Object.Ready] at hready
  simp [opened, hw, hready]

/-- A record that is opened is stored, if it says something. -/
theorem Answered.stored_of_opened {o : Object}
    (ha : Answered l a id key (opened o) st' a' notes) :
    (∀ work, AppliedWork.ofObject o = .ok work → o.Ready work → a'.tracker.works.get? o.name =
      storedAs work.manifestWork (AppliedSet.ofResources work.resources)) ∧
    st'.announces = true := by
  rcases opened_cases o with ⟨_, _, _, he⟩ | ⟨work, hw, ⟨_, he⟩ | ⟨_, he⟩⟩
  · rw [he] at ha
    exact absurd ha (not_answered_of_result? rfl)
  · rw [he] at ha
    exact absurd ha (not_answered_of_result? rfl)
  · rw [he] at ha
    cases ha with
    | leads hl => cases hl
    | replaces =>
        refine ⟨fun work' hw' _ => ?_, rfl⟩
        rw [hw] at hw'
        cases hw'
        rw [Tracker.works_replace, if_pos rfl]
        rfl

/-- While changes are announced the tracker stays as it is. -/
theorem Answered.announcing (ha : Answered l a id key st st' a' notes)
    (hs : st.announces = true) : st'.announces = true ∧ a'.tracker = a.tracker := by
  cases ha with
  | leads hl =>
      cases hl with
      | served | unserved => exact ⟨rfl, rfl⟩
      | _ => cases hs
  | acquires | releases | posts => exact ⟨rfl, rfl⟩
  | _ => cases hs

/-- A record that is there has been read once it was reconciled. -/
theorem Progress.hasRead_reconcile (p : Progress) (hname : name ≠ "") {o : Object}
    (ho : p.agent.works.ingest.at? ("", name) = some o) (outlook : Nat → Lookups) :
    (p.errand ⟨.reconcile (Ingest.liveKey appliedWorkKind ("", name)), outlook⟩).agent.HasRead
      name := by
  let key := Ingest.liveKey appliedWorkKind ("", name)
  have hfirst : first key = fresh := if_neg hname
  let I : Agent → List Note → Stage → Prop := fun a _ st =>
    a.works = p.agent.works ∧ (st = first key ∨ st = opened o ∨
      (∀ work, AppliedWork.ofObject o = .ok work → o.Ready work → a.tracker.works.get? o.name =
        storedAs work.manifestWork (AppliedSet.ofResources work.resources)) ∧
      st.announces = true)
  have hstep : ∀ n a log st st' a' notes, I a log st →
      Answered (outlook n) a 0 key st st' a' notes → I a' (log ++ notes.filter isNews) st' := by
    rintro n a log st st' a' notes ⟨hworks, hst⟩ ha
    refine ⟨ha.works.trans hworks, ?_⟩
    rcases hst with rfl | rfl | ⟨hsets, hannounces⟩
    · have hf : a.find key.kind key.ns key.name = .present o :=
        (Agent.find_work_iff a ("", name) o).mpr (by rw [hworks]; exact ho)
      exact Or.inr (Or.inl (ha.of_first rfl hf).1)
    · exact Or.inr (Or.inr ha.stored_of_opened)
    · obtain ⟨hannounces', ht⟩ := ha.announcing hannounces
      refine Or.inr (Or.inr ⟨fun work hw hready => ?_, hannounces'⟩)
      rw [ht]
      exact hsets work hw hready
  obtain ⟨st', result, hresult, hworks, hst⟩ := Progress.run_reconcile hstep p ⟨rfl, Or.inl rfl⟩
  refine ⟨o, by rw [hworks]; exact ho, fun work hw hready => ?_⟩
  rcases hst with rfl | rfl | ⟨hsets, _⟩
  · rw [hfirst] at hresult
    cases hresult
  · rw [opened_of_ready hw hready] at hresult
    cases hresult
  · exact hsets work hw hready

theorem Progress.rereads (p : Progress) (names : List String)
    (h : ∀ name ∈ names, p.agent.HasRead name) :
    (p.errands (names.map (.reread l))).log = p.log := by
  induction names generalizing p with
  | nil => rfl
  | cons name rest ih =>
      have hu := p.reread (l := l) (h name List.mem_cons_self)
      have hrest := ih (p.errand (.reread l name)) fun other ho =>
        hu.hasRead (h other (List.mem_cons_of_mem _ ho))
      exact hrest.trans hu.log

/-- After any reconciles one after the other in which lookups fail at any time, and once every
record was read again, saying what it said before, while lookups succeed: each kind that is not
excluded is held by its tracked UIDs if and only if, of every UID of such a kind, the registry was
told last to count it in exactly when the tracker listed it last. -/
theorem holders_exact_iff_nothing_missed (w : Listing l) (cluster : String) (timeout : Duration)
    (limiter : Limiter ObjectKey) (manifestWorks : Table RecordKey ManifestWork)
    (history : List Errand)
    (hh : ∀ e ∈ history, w.Allows e.chore ∧ ∀ n, l.Falters (e.outlook n)) (names : List String) :
    let start : Progress := { agent := .fresh cluster timeout limiter manifestWorks }
    let before := start.errands history
    let after := before.errands (names.map (.reread l))
    (∀ name ∈ names, before.agent.HasRead name) →
    ((∀ kind uid, kind.excluded = false →
      (after.agent.registry.Holds kind uid ↔ after.agent.tracker.Tracks l kind uid)) ↔
    ∀ e r, w.has e → l.Serves e r → r.resourceKind.excluded = false →
      (latest (told e.uid) before.log = some true ↔ latest (said e.uid) before.log = some true)) := by
  intro start before after hread
  have hbefore : before.Sound w :=
    (Progress.Sound.start w cluster timeout limiter manifestWorks).errands history hh
  have hafter : after.Sound w := by
    refine hbefore.errands _ ?_
    intro e he
    obtain ⟨name, _, rfl⟩ := List.mem_map.mp he
    exact ⟨trivial, fun _ => l.falters_self⟩
  rw [hafter.tallies.exact_iff hafter.binds.admits, before.rereads names hread]

namespace Widgets

/-- Lookups while nothing can be found. -/
def outage : Lookups :=
  ⟨fun group version plural => .error (.discovery (resourceText group version plural)),
    fun kind => .error (.discovery kind.text)⟩

/-- The record comes and is reconciled. -/
def coming (l : Lookups) : List Errand :=
  [⟨.work (.apply (work "a")), fun _ => l⟩,
    ⟨.reconcile (Ingest.liveKey appliedWorkKind ("", "a")), fun _ => l⟩]

/-- The record goes, and its deletion is reconciled. -/
def going (l : Lookups) : List Errand :=
  [⟨.work (.delete (work "a")), fun _ => l⟩,
    ⟨.reconcile (Ingest.liveKey appliedWorkKind ("", "a")).intoDeleted, fun _ => l⟩]

theorem falters_outage : lookups.Falters outage := fun _ _ _ => Or.inr ⟨_, rfl⟩

theorem allows_coming {l : Lookups} (hl : lookups.Falters l) :
    ∀ e ∈ coming l, listing.Allows e.chore ∧ ∀ n, lookups.Falters (e.outlook n) := by
  intro e he
  simp only [coming, List.mem_cons, List.not_mem_nil, or_false] at he
  rcases he with rfl | rfl
  · refine ⟨?_, fun _ => hl⟩
    intro o ho
    cases ho
    exact accepts_work "a"
  · exact ⟨trivial, fun _ => hl⟩

theorem allows_going {l : Lookups} (hl : lookups.Falters l) :
    ∀ e ∈ going l, listing.Allows e.chore ∧ ∀ n, lookups.Falters (e.outlook n) := by
  intro e he
  simp only [going, List.mem_cons, List.not_mem_nil, or_false] at he
  rcases he with rfl | rfl
  · refine ⟨?_, fun _ => hl⟩
    intro o ho
    cases ho
  · exact ⟨trivial, fun _ => hl⟩

def progress (history : List Errand) : Progress := Progress.errands { agent := agent } history

/-- The record comes during an outage, and goes and comes again after it. -/
def recovering : List Errand := coming outage ++ going lookups ++ coming lookups

theorem hasRead_of_stored {history : List Errand}
    (hat : (progress history).agent.works.ingest.at? ("", "a") = some (work "a"))
    (hstored : (progress history).agent.tracker.works.get? "a" = some ⟨"a", ⟨[entry]⟩⟩) :
    (progress history).agent.HasRead "a" := by
  refine ⟨work "a", hat, fun record hw _ => ?_⟩
  cases hw
  exact hstored

/-- What was missed is made up for by the next change of the UID's tracking. -/
theorem holders_exact_recovering :
    (∀ e ∈ recovering, listing.Allows e.chore ∧ ∀ n, lookups.Falters (e.outlook n)) ∧
      (progress recovering).agent.HasRead "a" ∧
      ∀ kind uid, kind.excluded = false →
        (((progress recovering).errands [.reread lookups "a"]).agent.registry.Holds kind uid ↔
          ((progress recovering).errands [.reread lookups "a"]).agent.tracker.Tracks lookups kind
            uid) := by
  have hallows : ∀ e ∈ recovering, listing.Allows e.chore ∧
      ∀ n, lookups.Falters (e.outlook n) := by
    intro e he
    rcases List.mem_append.mp he with he | he
    · rcases List.mem_append.mp he with he | he
      · exact allows_coming falters_outage e he
      · exact allows_going lookups.falters_self e he
    · exact allows_coming lookups.falters_self e he
  have hread : (progress recovering).agent.HasRead "a" :=
    hasRead_of_stored rfl (by decide +kernel)
  refine ⟨hallows, hread, ?_⟩
  refine (holders_exact_iff_nothing_missed listing "cluster1" (.ofSeconds 5)
    (.exponential (.ofMillis 5) (.ofSeconds 1000) {}) {} recovering hallows ["a"] ?_).mpr ?_
  · intro name hn
    cases List.mem_singleton.mp hn
    exact hread
  · rintro e r rfl _ _
    decide +kernel

/-- A widget whose lookup failed when its record came is not watched although it is tracked, and
one whose lookup failed when its record went is watched although it is not: reading the record once
more, which is the only one there is, changes nothing. -/
theorem missed_for_good :
    (∀ e ∈ coming outage, listing.Allows e.chore ∧ ∀ n, lookups.Falters (e.outlook n)) ∧
      (progress (coming outage)).agent.works.ingest.cache.keys = [("a", none)] ∧
      (progress (coming outage)).agent.HasRead "a" ∧
      resource.resourceKind.excluded = false ∧
      ((progress (coming outage)).errands [.reread lookups "a"]).agent.tracker.Tracks lookups
        resource.resourceKind "u" ∧
      ¬ ((progress (coming outage)).errands [.reread lookups "a"]).agent.registry.Holds
        resource.resourceKind "u" ∧
      (∀ e ∈ coming lookups ++ going outage, listing.Allows e.chore ∧
        ∀ n, lookups.Falters (e.outlook n)) ∧
      (progress (coming lookups ++ going outage)).agent.works.ingest.cache.keys = [] ∧
      (progress (coming lookups ++ going outage)).agent.tracker.works.entries = [] ∧
      (progress (coming lookups ++ going outage)).agent.registry.Holds resource.resourceKind
        "u" := by
  refine ⟨allows_coming falters_outage, by decide +kernel,
    hasRead_of_stored rfl (by decide +kernel), by decide +kernel, ?_, ?_, ?_, by decide +kernel,
    by decide +kernel, ?_⟩
  · exact ⟨entry, resource, ⟨"a", ⟨"a", ⟨[entry]⟩⟩, by decide +kernel, List.mem_singleton.mpr rfl⟩,
      rfl, rfl, rfl⟩
  · rintro ⟨held, hg, _⟩
    have hnone : ((progress (coming outage)).errands [.reread lookups "a"]).agent.registry.held.get?
        resource.resourceKind = none := by
      decide +kernel
    rw [hnone] at hg
    cases hg
  · intro e he
    rcases List.mem_append.mp he with he | he
    · exact allows_coming lookups.falters_self e he
    · exact allows_going falters_outage e he
  · exact ⟨⟨["u"], 0⟩, by decide +kernel, List.mem_singleton.mpr rfl⟩

end Widgets
end StatusRelay
