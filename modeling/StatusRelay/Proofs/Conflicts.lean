import StatusRelay.Proofs.FreshVersions

/-!
# Updates that come too late

Operations overlap at the hub in memory. An update of a status carries a record that was answered
before; when it takes effect it is made if nothing was written to the record since, and refused
otherwise. An operation that fails, or is given up, changes nothing at any of its steps but the
number of versions spent, and of these there are no more than operations.
-/
namespace StatusRelay

open HubEvent

/-! ## Versions spent -/

/-- The operation has not taken a version yet. -/
def Visit.isEarly (v : Visit) : Bool := v.phase.isEarly

namespace Traffic

variable {t t' : Traffic} {n k : Nat} {n? : Option Nat} {op : HubOp}

/-- Every version that was spent was taken by another operation, which is not early any more. -/
def Frugal (t : Traffic) : Prop :=
  t.hub.version + t.visits.countP Visit.isEarly ≤ t.visits.length

theorem early_set {visits : List Visit} {v w : Visit} (hn : visits[n]? = some v) :
    (visits.set n w).countP Visit.isEarly + v.isEarly.toNat =
      visits.countP Visit.isEarly + w.isEarly.toNat := by
  obtain ⟨hlt, rfl⟩ := List.getElem?_eq_some_iff.mp hn
  rw [List.countP_set hlt]
  cases hv : visits[n].isEarly with
  | false => cases w.isEarly <;> simp
  | true =>
      have hpos : 0 < visits.countP Visit.isEarly :=
        List.countP_pos_iff.mpr ⟨visits[n], List.getElem_mem hlt, hv⟩
      cases w.isEarly <;> simp <;> omega

/-- An operation takes its next step and, if that makes a version be spent, is early no more. -/
theorem frugal_set {visits : List Visit} {v w : Visit} (hn : visits[n]? = some v)
    {version version' : Nat} (hh : version + visits.countP Visit.isEarly ≤ visits.length)
    (hstep : version' + w.isEarly.toNat ≤ version + v.isEarly.toNat) :
    version' + (visits.set n w).countP Visit.isEarly ≤ (visits.set n w).length := by
  have hset := early_set (w := w) hn
  rw [List.length_set]
  omega

theorem Frugal.step (hh : t.Frugal) (hs : t.Step n? t') : t'.Frugal := by
  unfold Frugal at hh
  cases hs with
  | rests => exact hh
  | begins op =>
      have hone : List.countP Visit.isEarly [⟨op, op.begun⟩] ≤ 1 := List.countP_le_length
      change t.hub.version + (t.visits ++ [(⟨op, op.begun⟩ : Visit)]).countP Visit.isEarly ≤
        (t.visits ++ [(⟨op, op.begun⟩ : Visit)]).length
      rw [List.countP_append, List.length_append, List.length_singleton]
      omega
  | @tunes h' _ hv =>
      change h'.version + t.visits.countP Visit.isEarly ≤ t.visits.length
      rw [hv]
      exact hh
  | @turns n op phase phase' hn _ hearly _ _ =>
      refine frugal_set hn hh (Nat.add_le_add_left ?_ _)
      change phase'.isEarly.toNat ≤ phase.isEarly.toNat
      cases hp : phase'.isEarly with
      | false => exact Nat.zero_le _
      | true => exact Nat.le_of_eq (congrArg Bool.toNat (hearly hp).symm)
  | numbers hn => exact frugal_set hn hh (Nat.le_refl _)
  | effects hn _ _ he =>
      exact frugal_set hn hh (Nat.le_trans (Nat.le_of_eq he.version) (Nat.le_add_right _ _))

/-! ## Who succeeds and who fails -/

/-- A step of an operation changes nothing, unless by it the operation succeeds. -/
theorem Step.untouched_or_succeeded (hs : t.Step (some n) t') :
    t.hub.Untouched t'.hub ∨ t'.Succeeded n := by
  cases hs with
  | rests | turns => exact Or.inl (.refl _)
  | numbers => exact Or.inl ⟨rfl, rfl, rfl⟩
  | @effects _ version op phase result h' hn _ _ he =>
      cases result with
      | error error => exact Or.inl he.untouched
      | ok answer =>
          obtain ⟨hlt, -⟩ := List.getElem?_eq_some_iff.mp hn
          exact Or.inr ⟨op, answer, List.getElem?_set_self hlt⟩

theorem Succeeded.set (h : t.Succeeded n) {phase : op.Phase}
    (hk : t.visits[k]? = some ⟨op, phase⟩) (hopen : phase.isOpen = true) (w : Visit) :
    ∃ op answer, (t.visits.set k w)[n]? = some ⟨op, .ended (.ok answer)⟩ := by
  obtain ⟨op', answer, hn⟩ := h
  by_cases hkn : k = n
  · subst hkn
    cases hk.symm.trans hn
    cases hopen
  · exact ⟨op', answer, (List.getElem?_set_ne hkn).trans hn⟩

/-- An answer is final. -/
theorem Succeeded.step (h : t.Succeeded n) (hs : t.Step n? t') : t'.Succeeded n := by
  cases hs with
  | rests | tunes => exact h
  | begins op =>
      obtain ⟨op', answer, hn⟩ := h
      obtain ⟨hlt, -⟩ := List.getElem?_eq_some_iff.mp hn
      exact ⟨op', answer, (List.getElem?_append_left hlt).trans hn⟩
  | turns hk hopen => exact h.set hk hopen _
  | numbers hk => exact h.set hk rfl _
  | effects hk hopen => exact h.set hk hopen _

theorem Succeeded.run (h : t.Succeeded n) (moves : List TrafficMove) :
    (t.run moves).Succeeded n := by
  induction moves generalizing t with
  | nil => exact h
  | cons m moves ih => exact ih (h.step (t.step_move m))

theorem Failed.not_succeeded (h : t.Failed n) : ¬ t.Succeeded n := by
  rintro ⟨op, answer, hn⟩
  obtain ⟨op', hgiven | ⟨error, herror⟩⟩ := h
  · cases hn.symm.trans hgiven
  · cases hn.symm.trans herror

/-! ## Updates -/

theorem getElem?_setPhase (hlt : n < t.visits.length) (phase : op.Phase) :
    (t.setPhase n op phase).visits[n]? = some ⟨op, phase⟩ :=
  List.getElem?_set_self hlt

theorem getElem?_finish (hlt : n < t.visits.length) (version : Nat) :
    (t.finish n op version).visits[n]? = some ⟨op, .ended (t.hub.effect version op).1⟩ :=
  List.getElem?_set_self hlt

theorem succeeded_finish_iff (hlt : n < t.visits.length) (version : Nat) :
    (t.finish n op version).Succeeded n ↔ (t.hub.effect version op).1.isOk = true := by
  unfold Succeeded
  rw [getElem?_finish hlt]
  cases (t.hub.effect version op).1 with
  | error error =>
      refine iff_of_false ?_ Bool.false_ne_true
      rintro ⟨op', answer, h⟩
      cases h
  | ok answer => exact iff_of_true ⟨op, answer, rfl⟩ rfl

theorem failed_finish (hlt : n < t.visits.length) {version : Nat}
    (h : ¬ (t.finish n op version).Succeeded n) : (t.finish n op version).Failed n := by
  rw [succeeded_finish_iff hlt] at h
  cases hresult : (t.hub.effect version op).1 with
  | ok answer => exact absurd (by rw [hresult]; rfl) h
  | error error => exact ⟨op, Or.inr ⟨error, hresult ▸ getElem?_finish hlt version⟩⟩

end Traffic

theorem Hub.isOk_effect_updateStatus {h : Hub} {n : Nat} (ns : String) (update : WorkStatus) :
    (h.effect n (.call (.updateStatus ns update))).1.isOk = true ↔
      ∃ old, h.records.get? (ns, update.metadata.name.getD "") = some old ∧
        mayReplace update old = true := by
  rcases h.effect_updateStatus (n := n) ns update with ⟨error, he, hnone⟩ | ⟨old, hg, hm, he⟩
  · rw [he]
    refine iff_of_false Bool.false_ne_true ?_
    rintro ⟨old, hg, hm⟩
    exact Bool.false_ne_true ((hnone old hg).symm.trans hm)
  · rw [he]
    exact iff_of_true rfl ⟨old, hg, hm⟩

namespace Traffic

variable {t : Traffic} {n : Nat} {before since : List HubEvent} {e : HubEvent}
  {record : WorkStatus}

/-- An update made from a record that was answered may replace what stands there now exactly if
nothing was written to the record since. -/
theorem mayReplace_iff (ht : t.Told) (hh : t.Numbered) (hevents : t.events = before ++ e :: since)
    (hshown : e.shown? = some record) (status : Option Json) :
    (∃ old, t.hub.records.get? e.op.target = some old ∧
      Hub.mayReplace (record.setStatus status) old = true) ↔
      (t.hub.records.get? e.op.target).isSome = true ∧ ∀ w ∈ since, ¬ w.Writes e.op.target := by
  have hsplit : t.events = (before ++ [e]) ++ since := by simp [hevents]
  have hleft : standing e.op.target (before ++ [e]) = some record := by
    have hmem : e ∈ t.events := by simp [hevents]
    rw [← ht.left before e since hevents]
    exact (ht.shown e hmem record hshown).1
  rw [ht.standing, hsplit]
  rcases standing_append e.op.target (before ++ [e]) since with
    ⟨hnone, hsame⟩ | ⟨w, hw, hwrites, hlast⟩
  · rw [hsame, hleft]
    refine iff_of_true ⟨record, rfl, ?_⟩ ⟨rfl, hnone⟩
    cases hversion : record.metadata.resourceVersion <;>
      simp [Hub.mayReplace, WorkStatus.setStatus, hversion]
  · -- The last write since then gave another version than the record that was answered has.
    refine iff_of_false ?_ fun hnone => hnone.2 w hw hwrites
    rintro ⟨old, hold, hmay⟩
    obtain ⟨d, hd, hdwrites, hdleft⟩ := exists_of_standing hleft
    have hwleft : w.left = some old := hlast.symm.trans hold
    have hdwrites' : d.Writes d.op.target := hdwrites.target
    obtain ⟨m, -, hgives⟩ := hh.given d (by rw [hsplit]; exact List.mem_append_left _ hd)
      hdwrites' record hdleft
    obtain ⟨-, r, hr, hversion⟩ := hgives
    cases hr.symm.trans hdleft
    have hpairs := hsplit ▸ hh.versions_ne
    have hne := (List.pairwise_append.mp hpairs).2.2 d hd w hw hdwrites' hwrites.target
      record old hdleft hwleft
    rw [hversion] at hne
    simp [Hub.mayReplace, WorkStatus.setStatus, hversion, hne.symm] at hmay

theorem not_succeeded_setPhase {op : HubOp} (hlt : n < t.visits.length) {phase : op.Phase}
    (h : ∀ answer, phase ≠ .ended (.ok answer)) : ¬ (t.setPhase n op phase).Succeeded n := by
  rintro ⟨op', answer, hn⟩
  cases (getElem?_setPhase hlt phase).symm.trans hn
  exact h answer rfl

/-- The next step of an update makes it succeed exactly if the update has its version by then, so
that this step is its effect, and nothing was written to the record since it was answered. -/
theorem update_succeeds_iff (ht : t.Told) (hh : t.Numbered)
    (hevents : t.events = before ++ e :: since) (hshown : e.shown? = some record)
    {status : Option Json}
    {phase : (HubOp.call (.updateStatus e.op.target.1 (record.setStatus status))).Phase}
    (hn : t.visits[n]? = some ⟨_, phase⟩) (hopen : phase.isOpen = true) :
    (t.move (.advance n)).Succeeded n ↔
      (∃ version, phase = .numbered version) ∧
        (t.hub.records.get? e.op.target).isSome = true ∧ ∀ w ∈ since, ¬ w.Writes e.op.target := by
  have hmove : t.move (.advance n) = t.advance n _ phase := by simp only [move, hn]
  obtain ⟨hlt, -⟩ := List.getElem?_eq_some_iff.mp hn
  rw [hmove]
  cases phase with
  | waiting =>
      refine iff_of_false (not_succeeded_setPhase hlt fun answer => ?_) ?_
      · split <;> simp
      · rintro ⟨⟨version, hv⟩, -⟩
        cases hv
  | admitted =>
      refine iff_of_false (not_succeeded_setPhase (t := { t with hub := t.hub.bump }) hlt
        fun answer h => by cases h) ?_
      rintro ⟨⟨version, hv⟩, -⟩
      cases hv
  | numbered version =>
      have hplace : record.place = e.op.target := (ht.shown e (by simp [hevents]) record hshown).2
      have hname : (record.setStatus status).metadata.name.getD "" = e.op.target.2 :=
        congrArg Prod.snd hplace
      have hmay := mayReplace_iff ht hh hevents hshown status
      rw [and_iff_right ⟨version, rfl⟩, ← hmay, advance, succeeded_finish_iff hlt,
        Hub.isOk_effect_updateStatus, hname]
  | ended => cases hopen
  | givenUp => cases hopen

/-- An operation that waits while writes are made to fail is refused when it looks. -/
theorem failed_of_waiting {op : HubOp} (hn : t.visits[n]? = some ⟨op, .waiting⟩)
    (hf : t.hub.failWrites = true) : (t.move (.advance n)).Failed n := by
  obtain ⟨hlt, -⟩ := List.getElem?_eq_some_iff.mp hn
  have hmove : t.move (.advance n) =
      t.setPhase n op (.ended (.error (.unavailable "injected write failure"))) := by
    simp only [move, hn, advance, hf, if_true]
  rw [hmove]
  exact ⟨op, Or.inr ⟨_, getElem?_setPhase hlt _⟩⟩

/-- An operation that has its version is answered by its next step. -/
theorem succeeded_or_failed_of_numbered {op : HubOp} {version : Nat}
    (hn : t.visits[n]? = some ⟨op, .numbered version⟩) :
    (t.move (.advance n)).Succeeded n ∨ (t.move (.advance n)).Failed n := by
  obtain ⟨hlt, -⟩ := List.getElem?_eq_some_iff.mp hn
  have hmove : t.move (.advance n) = t.finish n op version := by simp only [move, hn, advance]
  rw [hmove]
  by_cases hs : (t.finish n op version).Succeeded n
  · exact Or.inl hs
  · exact Or.inr (failed_finish hlt hs)

theorem invariants_run (moves : List TrafficMove) :
    (({} : Traffic).run moves).Told ∧ (({} : Traffic).run moves).Numbered ∧
      (({} : Traffic).run moves).Frugal := by
  induction moves using List.reverseRecOn with
  | nil => exact ⟨told_start, numbered_start, Nat.le_refl 0⟩
  | append_singleton moves m ih =>
      obtain ⟨ht, hh, hf⟩ := ih
      rw [run_concat]
      have hs := (({} : Traffic).run moves).step_move m
      exact ⟨ht.step hs, hh.step hs, hf.step hs⟩

end Traffic

/-- Operations that overlap at the hub in memory, in whatever order their steps are taken. They
spend no more versions than they are, and no two writes give the same version. An update made from a
record that was answered is refused if writes are made to fail when it looks, and when it takes
effect succeeds exactly if the record is there and nothing was written to it since. An operation
that ends with an error or is given up changes no record and no count at any of its steps. -/
theorem late_updates_are_refused (moves : List TrafficMove) :
    let t := ({} : Traffic).run moves
    t.hub.version ≤ t.visits.length ∧
    (t.events.Pairwise fun e e' => e.Writes e.op.target → e'.Writes e'.op.target →
      ∀ record record', e.left = some record → e'.left = some record' →
        record.metadata.resourceVersion ≠ record'.metadata.resourceVersion) ∧
    (∀ before e since record status n
        (phase : (HubOp.call (.updateStatus e.op.target.1 (record.setStatus status))).Phase),
      t.events = before ++ e :: since → e.shown? = some record →
      t.visits[n]? = some ⟨_, phase⟩ → phase.isOpen = true →
      ((t.move (.advance n)).Succeeded n ↔ (∃ version, phase = .numbered version) ∧
        (t.hub.records.get? e.op.target).isSome = true ∧ ∀ w ∈ since, ¬ w.Writes e.op.target) ∧
      ((∃ version, phase = .numbered version) →
        (t.move (.advance n)).Succeeded n ∨ (t.move (.advance n)).Failed n) ∧
      (phase = .waiting → t.hub.failWrites = true → (t.move (.advance n)).Failed n)) ∧
    ∀ before m behind n, moves = before ++ m :: behind → m.visit? = some n → t.Failed n →
      (({} : Traffic).run before).hub.Untouched (({} : Traffic).run (before ++ [m])).hub := by
  intro t
  obtain ⟨ht, hh, hf⟩ := Traffic.invariants_run moves
  refine ⟨Nat.le_trans (Nat.le_add_right _ _) hf, hh.versions_ne,
    fun before e since record status n phase hevents hshown hn hopen => ⟨?_, ?_, ?_⟩,
    fun before m behind n hmoves hvisit hfailed => ?_⟩
  · exact Traffic.update_succeeds_iff ht hh hevents hshown hn hopen
  · rintro ⟨version, rfl⟩
    exact Traffic.succeeded_or_failed_of_numbered hn
  · rintro rfl hfail
    exact Traffic.failed_of_waiting hn hfail
  · -- Had the step changed something, the operation would have succeeded by it, and for good.
    have hstep := (({} : Traffic).run before).step_move m
    rw [hvisit] at hstep
    rw [Traffic.run_concat]
    rcases hstep.untouched_or_succeeded with hsame | hsucceeded
    · exact hsame
    · have hrun : t = ((({} : Traffic).run before).move m).run behind := by
        rw [← Traffic.run_concat]
        simp only [t, hmoves, Traffic.run, List.foldl_append, List.foldl_cons, List.foldl_nil]
      exact absurd (hrun ▸ hsucceeded.run behind) hfailed.not_succeeded

/-- A record is made and read, and labelled while an update made from it waits: the update is
refused, and one made from what the patch answered succeeds. -/
example :
    let made : WorkStatus := { metadata := { ns := some "c1", name := some "r" } }
    let update (version : String) : HubOp :=
      .call (.updateStatus "c1" ((made.setVersion version).setStatus (some (.bool true))))
    let patch : HubOp := .call (.patchLabels "c1" "r" (.ofList [("colour", "red")]))
    let t := ({} : Traffic).run
      [.enter (.call (.create "c1" made)), .advance 0, .advance 0, .advance 0,
        .enter (.call (.getRecord "c1" "r")), .advance 1, .enter (update "1"), .advance 2,
        .enter patch, .advance 3, .advance 3, .advance 3, .advance 2, .advance 2,
        .enter (update "2"), .advance 4, .advance 4, .advance 4]
    t.events.map (fun e => e.result.isOk) = [true, true, true, false, true] ∧
      t.hub.statusUpdates = 1 ∧ t.hub.version = 4 := by
  decide +kernel

end StatusRelay
