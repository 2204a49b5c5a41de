import StatusRelay.Table
import Mathlib.Data.List.Nodup
import Mathlib.Data.List.Basic
import Mathlib.Tactic.Tauto

/-!
# Tables whose keys are told apart

`insert` and `erase` never file a key twice. In a table that starts without repeated keys the list
of entries and `get?` therefore say the same, which is what searches through all entries need.
-/
namespace StatusRelay.Table

variable {κ β : Type} [DecidableEq κ]

/-- No key is filed twice. -/
def Distinct (t : Table κ β) : Prop := t.keys.Nodup

omit [DecidableEq κ] in
theorem distinct_empty : ({} : Table κ β).Distinct := List.nodup_nil

theorem mem_keys_put (k l : κ) (v : β) (entries : List (κ × β)) :
    l ∈ (put k v entries).map Prod.fst ↔ l = k ∨ l ∈ entries.map Prod.fst := by
  induction entries with
  | nil => simp [put]
  | cons e rest ih =>
      by_cases h : e.1 = k
      · subst h
        simp [put]
      · simp only [put, if_neg h, List.map_cons, List.mem_cons, ih]
        tauto

theorem Distinct.insert {t : Table κ β} (h : t.Distinct) (k : κ) (v : β) :
    (t.insert k v).Distinct := by
  obtain ⟨entries⟩ := t
  change (entries.map Prod.fst).Nodup at h
  change ((put k v entries).map Prod.fst).Nodup
  induction entries with
  | nil => simp [put]
  | cons e rest ih =>
      rw [List.map_cons, List.nodup_cons] at h
      by_cases hk : e.1 = k
      · simp only [put, if_pos hk, List.map_cons, List.nodup_cons]
        exact ⟨hk ▸ h.1, h.2⟩
      · simp only [put, if_neg hk, List.map_cons, List.nodup_cons, mem_keys_put, not_or]
        exact ⟨⟨hk, h.1⟩, ih h.2⟩

theorem Distinct.erase {t : Table κ β} (h : t.Distinct) (k : κ) : (t.erase k).Distinct :=
  List.Nodup.sublist (List.Sublist.map Prod.fst List.filter_sublist) h

theorem find?_eq_some_of_mem {k : κ} {v : β} {entries : List (κ × β)}
    (h : (entries.map Prod.fst).Nodup) (hm : (k, v) ∈ entries) : find? k entries = some v := by
  induction entries with
  | nil => simp at hm
  | cons e rest ih =>
      rw [List.map_cons, List.nodup_cons] at h
      rcases List.mem_cons.mp hm with rfl | hm
      · simp [find?]
      · have hne : e.1 ≠ k := fun he => h.1 (he ▸ List.mem_map_of_mem (f := Prod.fst) hm)
        rw [find?, if_neg hne]
        exact ih h.2 hm

theorem mem_of_find?_eq_some {k : κ} {v : β} {entries : List (κ × β)}
    (h : find? k entries = some v) : (k, v) ∈ entries := by
  induction entries with
  | nil => simp [find?] at h
  | cons e rest ih =>
      by_cases hk : e.1 = k
      · rw [find?, if_pos hk, Option.some.injEq] at h
        exact List.mem_cons.mpr (Or.inl (Prod.ext hk.symm h.symm))
      · rw [find?, if_neg hk] at h
        exact List.mem_cons_of_mem _ (ih h)

theorem mem_entries_iff {t : Table κ β} (h : t.Distinct) (k : κ) (v : β) :
    (k, v) ∈ t.entries ↔ t.get? k = some v :=
  ⟨find?_eq_some_of_mem h, mem_of_find?_eq_some⟩

theorem find?_eq_none_iff (k : κ) (entries : List (κ × β)) :
    find? k entries = none ↔ k ∉ entries.map Prod.fst := by
  induction entries with
  | nil => simp [find?]
  | cons e rest ih =>
      by_cases hk : e.1 = k
      · simp [find?, hk]
      · simp only [find?, if_neg hk, ih, List.map_cons, List.mem_cons, Ne.symm hk, false_or]

theorem mem_keys_iff (t : Table κ β) (k : κ) : k ∈ t.keys ↔ (t.get? k).isSome = true := by
  have hnone : t.get? k = none ↔ k ∉ t.keys := find?_eq_none_iff k t.entries
  rw [Option.isSome_iff_ne_none, Ne, hnone, not_not]

theorem mem_values_iff {t : Table κ β} (h : t.Distinct) (v : β) :
    v ∈ t.values ↔ ∃ k, t.get? k = some v := by
  constructor
  · intro hv
    obtain ⟨e, he, rfl⟩ := List.mem_map.mp hv
    exact ⟨e.1, (mem_entries_iff h e.1 e.2).mp he⟩
  · intro hv
    obtain ⟨k, hk⟩ := hv
    exact List.mem_map_of_mem (f := Prod.snd) ((mem_entries_iff h k v).mpr hk)

end StatusRelay.Table
