import StatusRelay.Proofs.TrackedSets
import Mathlib.Data.Finset.Dedup
import Mathlib.Data.Finset.SDiff
import Mathlib.Order.BooleanAlgebra.Basic

/-!
# Differences of applied sets

A set that is made from a list has the entries at the places where a UID, unless it is empty,
stands for the first time. The difference of two such sets is the plain comparison of their UIDs on
every path through `difference`: for equal sets and an empty side the comparison has nothing to
drop or to keep, and otherwise the halves pass through `ofResources` unchanged, since parts of a
set without repeated or empty UIDs are such sets. So the removed half taken from the old UIDs and
the added half put to them give the new ones, and the halves change places when the sets do.
-/
namespace StatusRelay.AppliedSet

variable {old new : AppliedSet} {l : List AppliedResource}

/-- The entry at a place of the list has a UID, and none before it has the same. -/
def ComesFirst (l : List AppliedResource) (r : AppliedResource) (place : Nat) : Prop :=
  r.uid ≠ "" ∧ ∀ earlier ∈ l.take place, earlier.uid ≠ r.uid

instance (l : List AppliedResource) (r : AppliedResource) (place : Nat) :
    Decidable (ComesFirst l r place) :=
  inferInstanceAs (Decidable (_ ∧ _))

/-- The entries that come first with their UID, in the order of the list. -/
def firsts (l : List AppliedResource) : List AppliedResource :=
  (l.zipIdx.filter fun e => decide (ComesFirst l e.1 e.2)).map Prod.fst

/-- The UIDs without their order. -/
def uidSet (s : AppliedSet) : Finset String := s.uids.toFinset

/-! ## Sets made from lists -/

theorem keepFirst_concat (seen : List String) (l : List AppliedResource) (r : AppliedResource) :
    keepFirst seen (l ++ [r]) = keepFirst seen l ++
      if r.uid = "" ∨ r.uid ∈ seen ∨ r.uid ∈ l.map AppliedResource.uid then [] else [r] := by
  induction l generalizing seen with
  | nil => by_cases h : r.uid = "" ∨ r.uid ∈ seen <;> simp [keepFirst, h]
  | cons a rest ih =>
      rw [List.cons_append, keepFirst, keepFirst]
      by_cases ha : a.uid = "" ∨ a.uid ∈ seen
      · -- An entry that was passed over is empty or seen, so it passes over nothing further.
        have hsame : (r.uid = "" ∨ r.uid ∈ seen ∨ r.uid ∈ rest.map AppliedResource.uid) ↔
            (r.uid = "" ∨ r.uid ∈ seen ∨ r.uid ∈ (a :: rest).map AppliedResource.uid) := by
          simp only [List.map_cons, List.mem_cons]
          constructor
          · tauto
          · rintro (h | h | h | h)
            · exact .inl h
            · exact .inr (.inl h)
            · rw [h]
              exact ha.elim .inl fun hs => .inr (.inl hs)
            · exact .inr (.inr h)
        simp only [if_pos ha, ih, hsame]
      · have hsame : (r.uid = "" ∨ r.uid ∈ a.uid :: seen ∨ r.uid ∈ rest.map AppliedResource.uid) ↔
            (r.uid = "" ∨ r.uid ∈ seen ∨ r.uid ∈ (a :: rest).map AppliedResource.uid) := by
          simp only [List.map_cons, List.mem_cons]
          tauto
        simp only [if_neg ha, ih, hsame, List.cons_append]

/-- What comes first in the old list does so with one more entry at its end. -/
theorem comesFirst_concat {r : AppliedResource} {place : Nat} (h : place ≤ l.length)
    (last : AppliedResource) : ComesFirst (l ++ [last]) r place ↔ ComesFirst l r place := by
  rw [ComesFirst, List.take_append_of_le_length h, ComesFirst]

theorem comesFirst_length_iff {r : AppliedResource} :
    ComesFirst l r l.length ↔ ¬ (r.uid = "" ∨ r.uid ∈ l.map AppliedResource.uid) := by
  rw [ComesFirst, List.take_length, not_or, List.mem_map]
  simp only [not_exists, not_and]

theorem firsts_concat (l : List AppliedResource) (r : AppliedResource) :
    firsts (l ++ [r]) = firsts l ++
      if r.uid = "" ∨ r.uid ∈ l.map AppliedResource.uid then [] else [r] := by
  have hold : (l.zipIdx.filter fun e => decide (ComesFirst (l ++ [r]) e.1 e.2)) =
      l.zipIdx.filter fun e => decide (ComesFirst l e.1 e.2) := by
    refine List.filter_congr fun e he => ?_
    simp only [comesFirst_concat (List.snd_lt_of_mem_zipIdx he).le]
  have hlast : ([r].zipIdx l.length).filter (fun e => decide (ComesFirst (l ++ [r]) e.1 e.2)) =
      if r.uid = "" ∨ r.uid ∈ l.map AppliedResource.uid then [] else [(r, l.length)] := by
    simp only [List.zipIdx_singleton, List.filter_singleton, comesFirst_concat le_rfl,
      comesFirst_length_iff]
    by_cases h : r.uid = "" ∨ r.uid ∈ l.map AppliedResource.uid <;> simp only [h] <;> rfl
  rw [firsts, List.zipIdx_append, List.filter_append, List.map_append, hold, Nat.zero_add, hlast,
    apply_ite (List.map Prod.fst), firsts, List.map_nil, List.map_singleton]

theorem entries_ofResources (l : List AppliedResource) : (ofResources l).entries = firsts l := by
  induction l using List.reverseRecOn with
  | nil => rfl
  | append_singleton l r ih =>
      change keepFirst [] l = firsts l at ih
      change keepFirst [] (l ++ [r]) = firsts (l ++ [r])
      simp only [keepFirst_concat, firsts_concat, ih, List.not_mem_nil, false_or]

/-! ## The comparison by UID -/

theorem difference_eq_plainDifference (hold : old.Clean) (hnew : new.Clean) :
    difference old new = plainDifference old new := by
  have hadded : (difference old new).added = (plainDifference old new).added :=
    congrArg AppliedSet.mk (added_difference hnew)
  have hremoved : (difference old new).removed = (plainDifference old new).removed :=
    congrArg AppliedSet.mk (removed_difference hold)
  calc difference old new
      = ⟨(difference old new).added, (difference old new).removed⟩ := rfl
    _ = plainDifference old new := by rw [hadded, hremoved]

theorem mem_uidSet {s : AppliedSet} {uid : String} :
    uid ∈ s.uidSet ↔ ∃ r ∈ s.entries, r.uid = uid := by
  simp [uidSet, uids]

theorem uidSet_filter (s other : AppliedSet) :
    uidSet ⟨s.entries.filter fun r => !other.contains r.uid⟩ = s.uidSet \ other.uidSet := by
  ext uid
  simp only [Finset.mem_sdiff, mem_uidSet, List.mem_filter, Bool.not_eq_true',
    Bool.eq_false_iff, ne_eq, contains_eq_true_iff]
  constructor
  · rintro ⟨r, ⟨hr, hother⟩, rfl⟩
    exact ⟨⟨r, hr, rfl⟩, hother⟩
  · rintro ⟨⟨r, hr, rfl⟩, hother⟩
    exact ⟨r, ⟨hr, hother⟩, rfl⟩

theorem uidSet_added (old new : AppliedSet) :
    (plainDifference old new).added.uidSet = new.uidSet \ old.uidSet :=
  uidSet_filter new old

theorem uidSet_removed (old new : AppliedSet) :
    (plainDifference old new).removed.uidSet = old.uidSet \ new.uidSet :=
  uidSet_filter old new

theorem disjoint_plainDifference (old new : AppliedSet) :
    Disjoint (plainDifference old new).added.uidSet (plainDifference old new).removed.uidSet := by
  rw [uidSet_added, uidSet_removed]
  exact disjoint_sdiff_sdiff

theorem plainDifference_rebuilds (old new : AppliedSet) :
    old.uidSet \ (plainDifference old new).removed.uidSet ∪
      (plainDifference old new).added.uidSet = new.uidSet := by
  rw [uidSet_added, uidSet_removed, Finset.sdiff_sdiff_self_left, Finset.inter_comm]
  exact sup_inf_sdiff new.uidSet old.uidSet

/-- The difference of two sets made from lists is the plain comparison by UID of what the lists
bring first; its halves have no UID in common, lead from the old UIDs to the new ones, and change
places when the sets do. -/
theorem differences_go_by_uid (before after : List AppliedResource) :
    (ofResources before).entries = firsts before ∧
      (ofResources after).entries = firsts after ∧
      difference (ofResources before) (ofResources after) =
        plainDifference (ofResources before) (ofResources after) ∧
      Disjoint (difference (ofResources before) (ofResources after)).added.uidSet
        (difference (ofResources before) (ofResources after)).removed.uidSet ∧
      (ofResources before).uidSet \
          (difference (ofResources before) (ofResources after)).removed.uidSet ∪
        (difference (ofResources before) (ofResources after)).added.uidSet =
          (ofResources after).uidSet ∧
      difference (ofResources after) (ofResources before) =
        ⟨(difference (ofResources before) (ofResources after)).removed,
          (difference (ofResources before) (ofResources after)).added⟩ := by
  have hplain := difference_eq_plainDifference (clean_ofResources before) (clean_ofResources after)
  refine ⟨entries_ofResources before, entries_ofResources after, hplain, ?_, ?_, ?_⟩
  · rw [hplain]
    exact disjoint_plainDifference _ _
  · rw [hplain]
    exact plainDifference_rebuilds _ _
  · exact difference_swap _ _

end StatusRelay.AppliedSet
