import StatusRelay.Signal
import Mathlib.Data.List.Nodup
import Mathlib.Data.List.Perm.Basic
import Mathlib.Tactic.Tauto

/-!
# Who is registered with a signal

A ticket that is registered is in one of three lists: it waits, was chosen for a single wake-up, or
was released by a wake-up of everybody. What a step does is said for the three lists together
(`tickets`) and, for whoever still waits after it, by how many were chosen before. `wakeups` counts
what was made and not taken, and only a wake-up adds to it.
-/
namespace StatusRelay

namespace Signal

variable {s : Signal} {t u : Ticket}

/-- Everybody who is registered, woken or not. -/
def tickets (s : Signal) : List Ticket := s.waiting ++ s.chosen ++ s.released

theorem mem_tickets_iff (s : Signal) (t : Ticket) :
    t ∈ s.tickets ↔ t ∈ s.waiting ∨ s.isWoken t = true := by
  simp [tickets, isWoken]

/-- The signal without a caller. -/
def strike (s : Signal) (t : Ticket) : Signal :=
  { s with
    waiting := s.waiting.erase t
    chosen := s.chosen.erase t
    released := s.released.erase t }

theorem nodup_strike (h : s.tickets.Nodup) (t : Ticket) : (s.strike t).tickets.Nodup := by
  refine h.sublist ?_
  exact (List.erase_sublist.append List.erase_sublist).append List.erase_sublist

theorem mem_strike_iff (h : s.tickets.Nodup) (t u : Ticket) :
    u ∈ (s.strike t).tickets ↔ u ≠ t ∧ u ∈ s.tickets := by
  have hwaiting : s.waiting.Nodup := (List.nodup_append.mp (List.nodup_append.mp h).1).1
  have hchosen : s.chosen.Nodup := (List.nodup_append.mp (List.nodup_append.mp h).1).2.1
  have hreleased : s.released.Nodup := (List.nodup_append.mp h).2.1
  simp only [tickets, strike, List.mem_append, hwaiting.mem_erase_iff, hchosen.mem_erase_iff,
    hreleased.mem_erase_iff]
  tauto

theorem perm_notifyOne (s : Signal) : s.notifyOne.tickets.Perm s.tickets := by
  unfold notifyOne
  split
  · exact List.Perm.refl _
  · rename_i t rest hw
    have hmove : (rest ++ (s.chosen ++ [t])).Perm (t :: rest ++ s.chosen) := by
      rw [← List.append_assoc]
      exact List.perm_append_comm
    simp only [tickets, hw]
    exact hmove.append_right s.released

theorem perm_notifyAll (s : Signal) : s.notifyAll.tickets.Perm s.tickets := by
  simp only [tickets, notifyAll, List.nil_append]
  have hmove : (s.released ++ s.waiting).Perm (s.waiting ++ s.released) := List.perm_append_comm
  refine (hmove.append_left s.chosen).trans ?_
  rw [List.append_assoc, ← List.append_assoc, ← List.append_assoc]
  exact List.perm_append_comm.append_right s.released

theorem enroll_fst (s : Signal) (t : Ticket) : (s.enroll t).1 = s.permit := by
  unfold enroll
  cases hp : s.permit <;> rfl

theorem permit_enroll (s : Signal) (t : Ticket) : (s.enroll t).2.permit = false := by
  unfold enroll
  cases s.permit <;> simp

theorem perm_enroll (hp : s.permit = false) (t : Ticket) :
    (s.enroll t).2.tickets.Perm (t :: s.tickets) := by
  simp only [enroll, hp, tickets, Bool.false_eq_true, if_false, List.append_assoc,
    List.singleton_append]
  exact List.perm_middle

/-- Whoever still waits after a wake-up had somebody chosen before it. -/
theorem chosen_notifyOne (h : u ∈ s.notifyOne.waiting) :
    u ∈ s.waiting ∧ s.notifyOne.chosen.length = s.chosen.length + 1 := by
  unfold notifyOne at h ⊢
  split at h
  · rename_i hw
    rw [hw] at h
    cases h
  · rename_i t rest hw
    simp only [hw, List.length_append, List.length_singleton]
    exact ⟨List.mem_cons_of_mem _ h, trivial⟩

theorem not_mem_of_chosen (h : s.tickets.Nodup) (hc : t ∈ s.chosen) :
    t ∉ s.waiting ∧ t ∉ s.released := by
  obtain ⟨hfirst, _, hapart⟩ := List.nodup_append.mp h
  obtain ⟨_, _, hapart'⟩ := List.nodup_append.mp hfirst
  constructor
  · intro hw
    exact hapart' t hw t hc rfl
  · intro hr
    exact hapart t (List.mem_append.mpr (Or.inr hc)) t hr rfl

theorem not_waiting_of_isWoken (h : s.tickets.Nodup) (hw : s.isWoken t = true) :
    t ∉ s.waiting := by
  have hmem : t ∈ s.chosen ++ s.released := by simpa [isWoken] using hw
  rw [tickets, List.append_assoc] at h
  exact fun hm => (List.nodup_append.mp h).2.2 t hm t hmem rfl

theorem resume_eq (h : s.tickets.Nodup) (hw : s.isWoken t = true) : s.resume t = s.strike t := by
  rw [resume, strike, List.erase_of_not_mem (not_waiting_of_isWoken h hw)]

/-- A caller goes: if it was chosen it passes its wake-up on. -/
theorem leave_eq (h : s.tickets.Nodup) (t : Ticket) :
    s.leave t = if t ∈ s.chosen then (s.strike t).notifyOne else s.strike t := by
  unfold leave strike
  by_cases hc : t ∈ s.chosen
  · obtain ⟨hw, hr⟩ := not_mem_of_chosen h hc
    rw [if_pos (List.contains_iff_mem.mpr hc), if_pos hc, List.erase_of_not_mem hw,
      List.erase_of_not_mem hr]
  · rw [if_neg (fun hm => hc (List.contains_iff_mem.mp hm)), if_neg hc, List.erase_of_not_mem hc]

theorem nodup_leave (h : s.tickets.Nodup) (t : Ticket) : (s.leave t).tickets.Nodup := by
  rw [leave_eq h]
  split
  · exact (perm_notifyOne _).nodup_iff.mpr (nodup_strike h t)
  · exact nodup_strike h t

theorem mem_leave_iff (h : s.tickets.Nodup) (t u : Ticket) :
    u ∈ (s.leave t).tickets ↔ u ≠ t ∧ u ∈ s.tickets := by
  rw [leave_eq h]
  split
  · rw [(perm_notifyOne _).mem_iff, mem_strike_iff h]
  · exact mem_strike_iff h t u

/-- Whoever still waits after somebody left has as many chosen before it. -/
theorem chosen_leave (h : s.tickets.Nodup) (hu : u ∈ (s.leave t).waiting) :
    u ∈ s.waiting ∧ (s.leave t).chosen.length = s.chosen.length := by
  rw [leave_eq h] at hu ⊢
  split
  · rename_i hc
    rw [if_pos hc] at hu
    obtain ⟨hm, hlength⟩ := chosen_notifyOne hu
    have hlen : (s.strike t).chosen.length = s.chosen.length - 1 := List.length_erase_of_mem hc
    have hpos : 0 < s.chosen.length := List.length_pos_of_mem hc
    refine ⟨List.mem_of_mem_erase hm, ?_⟩
    omega
  · rename_i hc
    rw [if_neg hc] at hu
    exact ⟨List.mem_of_mem_erase hu, congrArg List.length (List.erase_of_not_mem hc)⟩

theorem isWoken_notifyOne (h : s.isWoken u = true) : s.notifyOne.isWoken u = true := by
  unfold notifyOne
  split
  · exact h
  · rw [isWoken, Bool.or_eq_true, List.contains_iff_mem] at h ⊢
    exact h.imp_left fun hc => List.mem_append.mpr (Or.inl hc)

theorem permit_notifyOne (h : s.permit = true) : s.notifyOne.permit = true := by
  unfold notifyOne
  split
  · rfl
  · exact h

/-- Whoever was woken before somebody left still is. -/
theorem isWoken_leave (h : s.tickets.Nodup) (hne : u ≠ t) (hw : s.isWoken u = true) :
    (s.leave t).isWoken u = true := by
  have hstrike : (s.strike t).isWoken u = true := by
    simp only [isWoken, strike, Bool.or_eq_true, List.contains_iff_mem] at hw ⊢
    exact hw.imp (List.mem_erase_of_ne hne).mpr (List.mem_erase_of_ne hne).mpr
  rw [leave_eq h]
  split
  · exact isWoken_notifyOne hstrike
  · exact hstrike

/-- Wake-ups that were made and not taken. -/
def wakeups (s : Signal) : Nat := s.chosen.length + s.released.length + s.permit.toNat

theorem wakeups_notifyOne (s : Signal) : s.notifyOne.wakeups ≤ s.wakeups + 1 := by
  unfold notifyOne wakeups
  split
  · simp only [Bool.toNat_true]
    omega
  · simp only [List.length_append, List.length_singleton]
    omega

theorem wakeups_enroll (s : Signal) (t : Ticket) :
    (s.enroll t).2.wakeups = s.chosen.length + s.released.length := by
  have hp := permit_enroll s t
  unfold wakeups
  rw [hp]
  unfold enroll
  split <;> rfl

theorem wakeups_strike (h : s.isWoken t = true) : (s.strike t).wakeups + 1 ≤ s.wakeups := by
  have hchosen := List.length_erase_le (a := t) (l := s.chosen)
  have hreleased := List.length_erase_le (a := t) (l := s.released)
  change (s.chosen.erase t).length + (s.released.erase t).length + s.permit.toNat + 1 ≤ _
  unfold wakeups
  rw [isWoken, Bool.or_eq_true, List.contains_iff_mem, List.contains_iff_mem] at h
  rcases h with hc | hr
  · have hlength := List.length_erase_of_mem hc
    have hpos := List.length_pos_of_mem hc
    omega
  · have hlength := List.length_erase_of_mem hr
    have hpos := List.length_pos_of_mem hr
    omega

theorem wakeups_leave (h : s.tickets.Nodup) (t : Ticket) : (s.leave t).wakeups ≤ s.wakeups := by
  rw [leave_eq h]
  split
  · rename_i hc
    have hwoken : s.isWoken t = true := by simp [isWoken, hc]
    exact Nat.le_trans (wakeups_notifyOne _) (wakeups_strike hwoken)
  · have hchosen := List.length_erase_le (a := t) (l := s.chosen)
    have hreleased := List.length_erase_le (a := t) (l := s.released)
    change (s.chosen.erase t).length + (s.released.erase t).length + s.permit.toNat ≤ _
    unfold wakeups
    omega

end Signal
end StatusRelay
