import StatusRelay.Limiter

/-!
# Limiters that make everybody wait

A limiter is patient if none of the waits it will ever choose is zero, whatever was tried and
forgotten before. An exponential limiter is, unless it starts or stops at nothing, and so is the
largest of several limiters of which one is. The limiter of the agent's queue is one of these.
-/
namespace StatusRelay

namespace Limiter

variable {κ : Type} [DecidableEq κ] {lim lim' lim'' : Limiter κ} {limiters : List (Limiter κ)}

/-- What a limiter becomes when items are tried and forgotten. -/
inductive After (lim : Limiter κ) : Limiter κ → Prop
  | start : After lim lim
  | tried (item : κ) (now : Nat) {lim' : Limiter κ} (h : After lim lim') :
      After lim (lim'.next item now).2
  | forgot (item : κ) {lim' : Limiter κ} (h : After lim lim') : After lim (lim'.forget item)

/-- No item is ever tried again at once. -/
def Patient (lim : Limiter κ) : Prop :=
  ∀ lim', lim.After lim' → ∀ item now, (lim'.next item now).1.isZero = false

theorem After.trans (h : lim.After lim') (h' : lim'.After lim'') : lim.After lim'' := by
  induction h' with
  | start => exact h
  | tried item now _ ih => exact ih.tried item now
  | forgot item _ ih => exact ih.forgot item

theorem Patient.after (hp : lim.Patient) (h : lim.After lim') : lim'.Patient :=
  fun _ h' => hp _ (h.trans h')

theorem isZero_eq_false_iff (d : Duration) : d.isZero = false ↔ 0 < d.nanos := by
  rw [Duration.isZero, Nat.pos_iff_ne_zero]
  exact beq_eq_false_iff_ne

theorem pos_delayFor {base max : Duration} (hbase : 0 < base.nanos) (hmax : 0 < max.nanos)
    (failures : Nat) : 0 < (delayFor base max failures).nanos := by
  unfold delayFor Duration.mul?
  split
  · rename_i d hd
    split at hd
    · cases hd
      rw [Duration.min_nanos]
      exact Nat.lt_min.mpr ⟨Nat.mul_pos hbase (Nat.pow_pos (by decide)), hmax⟩
    · cases hd
  · exact hmax

theorem patient_exponential {base max : Duration} (hbase : 0 < base.nanos) (hmax : 0 < max.nanos)
    (failures : Table κ Nat) : (exponential base max failures).Patient := by
  have hstays : ∀ lim' : Limiter κ, (exponential base max failures).After lim' →
      ∃ failures', lim' = exponential base max failures' := by
    intro lim' h
    induction h with
    | start => exact ⟨_, rfl⟩
    | tried item now _ ih =>
        obtain ⟨failures', rfl⟩ := ih
        exact ⟨_, rfl⟩
    | forgot item _ ih =>
        obtain ⟨failures', rfl⟩ := ih
        exact ⟨_, rfl⟩
  intro lim' h item now
  obtain ⟨failures', rfl⟩ := hstays lim' h
  exact (isZero_eq_false_iff _).mpr (pos_delayFor hbase hmax _)

theorem mem_nextAll (h : lim ∈ limiters) (item : κ) (now : Nat) :
    (lim.next item now).1 ∈ (nextAll item now limiters).1 ∧
      (lim.next item now).2 ∈ (nextAll item now limiters).2 := by
  induction limiters with
  | nil => cases h
  | cons l rest ih =>
      rw [nextAll]
      rcases List.mem_cons.mp h with rfl | h
      · exact ⟨List.mem_cons_self, List.mem_cons_self⟩
      · exact ⟨List.mem_cons_of_mem _ (ih h).1, List.mem_cons_of_mem _ (ih h).2⟩

theorem mem_forgetAll (h : lim ∈ limiters) (item : κ) :
    lim.forget item ∈ forgetAll item limiters := by
  induction limiters with
  | nil => cases h
  | cons l rest ih =>
      rw [forgetAll]
      rcases List.mem_cons.mp h with rfl | h
      · exact List.mem_cons_self
      · exact List.mem_cons_of_mem _ (ih h)

theorem le_longest {d : Duration} {ds : List Duration} (h : d ∈ ds) :
    d.nanos ≤ (longest ds).nanos := by
  induction ds with
  | nil => cases h
  | cons e rest ih =>
      rw [longest, Duration.max_nanos]
      rcases List.mem_cons.mp h with rfl | h
      · exact Nat.le_max_left _ _
      · exact Nat.le_trans (ih h) (Nat.le_max_right _ _)

/-- The longest of several waits is no shorter than that of a patient limiter among them. -/
theorem patient_largest (h : lim ∈ limiters) (hp : lim.Patient) : (largest limiters).Patient := by
  have hstays : ∀ all : Limiter κ, (largest limiters).After all →
      ∃ limiters' lim', all = largest limiters' ∧ lim' ∈ limiters' ∧ lim.After lim' := by
    intro all ha
    induction ha with
    | start => exact ⟨limiters, lim, rfl, h, .start⟩
    | tried item now _ ih =>
        obtain ⟨limiters', lim', rfl, hm, ha⟩ := ih
        exact ⟨_, _, rfl, (mem_nextAll hm item now).2, ha.tried item now⟩
    | forgot item _ ih =>
        obtain ⟨limiters', lim', rfl, hm, ha⟩ := ih
        exact ⟨_, _, rfl, mem_forgetAll hm item, ha.forgot item⟩
  intro all ha item now
  obtain ⟨limiters', lim', rfl, hm, ha⟩ := hstays all ha
  have hwait := (isZero_eq_false_iff _).mp (hp lim' ha item now)
  exact (isZero_eq_false_iff _).mpr
    (Nat.lt_of_lt_of_le hwait (le_longest (mem_nextAll hm item now).1))

theorem patient_standard : (standard : Limiter κ).Patient :=
  patient_largest List.mem_cons_self (patient_exponential (by decide) (by decide) {})

end Limiter
end StatusRelay
