import StatusRelay.Proofs.Ownership
import Mathlib.Data.String.Basic

/-!
# Whose a shared object is

Several records may list one UID. The record that stored its set last is meant to own it. The index
of owners changes only when a record lists the UID anew, which then owns it, and when the owner
drops it, whereupon the least of the names that still list it does. So the owner is the record that
listed the UID anew last or, once that one has dropped it, the least name. A record that stores its
set again with the UID in it becomes the last writer without becoming the owner, and the least name
need not be the one that wrote last.
-/
namespace StatusRelay.Tracker

namespace Call

def isReplace : Call → Bool
  | replace _ _ _ => true
  | remove _ => false

end Call

/-! ## What calls say -/

/-- The set of a record after some calls: that of the last call about it. -/
def setAfter (calls : List Call) (work : String) : AppliedSet :=
  calls.foldl (fun set c => if c.record = work then c.set else set) {}

/-- After the calls the record lists the UID. -/
def ListsAfter (calls : List Call) (work uid : String) : Prop :=
  (setAfter calls work).contains uid = true

instance (calls : List Call) (work uid : String) : Decidable (ListsAfter calls work uid) :=
  inferInstanceAs (Decidable (_ = _))

/-- The call lists a UID that its record did not list before. -/
def Brings (earlier : List Call) (c : Call) (uid : String) : Prop :=
  ¬ ListsAfter earlier c.record uid ∧ c.set.contains uid = true

instance (earlier : List Call) (c : Call) (uid : String) : Decidable (Brings earlier c uid) :=
  inferInstanceAs (Decidable (_ ∧ _))

/-- The record that listed the UID anew last. -/
def newcomer? (uid : String) : List Call → List Call → Option String
  | _, [] => none
  | earlier, c :: rest =>
      (newcomer? uid (earlier ++ [c]) rest).or
        (if Brings earlier c uid then some c.record else none)

/-- Of the records that list the UID after the calls, the one that stored its set last. -/
def lastWriter? (calls : List Call) (uid : String) : Option String :=
  (calls.reverse.find? fun c => c.isReplace && decide (ListsAfter calls c.record uid)).map
    Call.record

/-- The record listed the UID anew last, or that one has dropped it and no name that lists it is
less. -/
def CameLast (calls : List Call) (uid work : String) : Prop :=
  newcomer? uid [] calls = some work ∨
    (∀ gone, newcomer? uid [] calls = some gone → ¬ ListsAfter calls gone uid) ∧
      ∀ other, ListsAfter calls other uid → work ≤ other

variable {t : Tracker} {calls earlier : List Call} {c : Call} {work uid : String}

theorem setAfter_concat (calls : List Call) (c : Call) (work : String) :
    setAfter (calls ++ [c]) work = if c.record = work then c.set else setAfter calls work := by
  simp [setAfter]

theorem listsAfter_concat_self :
    ListsAfter (calls ++ [c]) c.record uid ↔ c.set.contains uid = true := by
  rw [ListsAfter, setAfter_concat, if_pos rfl]

theorem listsAfter_concat_of_ne (h : c.record ≠ work) :
    ListsAfter (calls ++ [c]) work uid ↔ ListsAfter calls work uid := by
  rw [ListsAfter, setAfter_concat, if_neg h, ListsAfter]

theorem newcomer?_concat (uid : String) (earlier calls : List Call) (c : Call) :
    newcomer? uid earlier (calls ++ [c]) =
      if Brings (earlier ++ calls) c uid then some c.record else newcomer? uid earlier calls := by
  induction calls generalizing earlier with
  | nil => simp [newcomer?]
  | cons a rest ih =>
      rw [List.cons_append, newcomer?, ih, newcomer?, List.append_assoc, List.singleton_append]
      split <;> simp

theorem run_concat (t : Tracker) (calls : List Call) (c : Call) :
    t.run (calls ++ [c]) = (c.perform (t.run calls)).2 := by
  simp [run]

theorem sound_run (calls : List Call) : (run {} calls).Sound := by
  induction calls using List.reverseRecOn with
  | nil => exact sound_empty
  | append_singleton calls c ih =>
      rw [run_concat]
      exact c.sound ih

theorem setOf_run (calls : List Call) (work : String) :
    (run {} calls).setOf work = setAfter calls work := by
  induction calls using List.reverseRecOn with
  | nil => rfl
  | append_singleton calls c ih =>
      rw [run_concat, (c.reported (sound_run calls)).stored, setAfter_concat, ih]

/-- Only a record that has stored its set lists anything. -/
theorem exists_replace_of_lists (h : ListsAfter calls work uid) :
    ∃ c ∈ calls, c.isReplace = true ∧ c.record = work := by
  induction calls using List.reverseRecOn with
  | nil => cases h
  | append_singleton calls c ih =>
      by_cases hc : c.record = work
      · refine ⟨c, by simp, ?_, hc⟩
        subst hc
        rw [listsAfter_concat_self] at h
        cases c with
        | replace => rfl
        | remove => cases h
      · rw [listsAfter_concat_of_ne hc] at h
        obtain ⟨c', hmem, hc'⟩ := ih h
        exact ⟨c', List.mem_append_left _ hmem, hc'⟩

theorem lists_of_lastWriter? (h : lastWriter? calls uid = some work) :
    ListsAfter calls work uid := by
  obtain ⟨c, hc, rfl⟩ := Option.map_eq_some_iff.mp h
  have hfound := List.find?_some hc
  rw [Bool.and_eq_true, decide_eq_true_iff] at hfound
  exact hfound.2

theorem lastWriter?_eq_none (h : ∀ work, ¬ ListsAfter calls work uid) :
    lastWriter? calls uid = none := by
  cases hw : lastWriter? calls uid with
  | none => rfl
  | some work => exact (h work (lists_of_lastWriter? hw)).elim

theorem isSome_lastWriter? (h : ListsAfter calls work uid) :
    ∃ last, lastWriter? calls uid = some last := by
  obtain ⟨c, hmem, hreplace, rfl⟩ := exists_replace_of_lists h
  have hfound : (calls.reverse.find? fun c =>
      c.isReplace && decide (ListsAfter calls c.record uid)).isSome = true := by
    rw [List.find?_isSome]
    exact ⟨c, List.mem_reverse.mpr hmem, by simp [hreplace, h]⟩
  obtain ⟨found, hfound⟩ := Option.isSome_iff_exists.mp hfound
  exact ⟨found.record, by rw [lastWriter?, hfound, Option.map_some]⟩

/-! ## What one call does to the index -/

theorem leastText?_le {l : List String} {s : String} (h : leastText? l = some s) :
    ∀ other ∈ l, s ≤ other := by
  induction l generalizing s with
  | nil => simp
  | cons a rest ih =>
      simp only [leastText?] at h
      split at h
      case h_1 hnone =>
        rw [(leastText?_eq_none_iff rest).mp hnone]
        cases h
        simp
      case h_2 least hleast =>
        have hrest := ih hleast
        rw [List.forall_mem_cons]
        split at h
        case isTrue hlt =>
          cases h
          exact ⟨hlt.le, hrest⟩
        case isFalse hge =>
          cases h
          exact ⟨le_rfl, fun other ho => (not_lt.mp hge).trans (hrest other ho)⟩

theorem mem_uids_of_filter {s u : AppliedSet} {p : String → Bool}
    (h : s.entries = u.entries.filter fun e => p e.uid) :
    uid ∈ s.uids ↔ u.contains uid = true ∧ p uid = true := by
  rw [AppliedSet.uids, h, List.mem_map, AppliedSet.contains_eq_true_iff]
  constructor
  · rintro ⟨e, he, rfl⟩
    rw [List.mem_filter] at he
    exact ⟨⟨e, he.1, rfl⟩, he.2⟩
  · rintro ⟨⟨e, he, rfl⟩, hp⟩
    exact ⟨e, List.mem_filter.mpr ⟨he, hp⟩, rfl⟩

/-- Whose a UID is after a record's set was replaced: the record's if it lists the UID anew; the
least claimant's if the record owned it and drops it; otherwise whose it was. -/
theorem owners_replace_of_sound (h : t.Sound) {applied : AppliedSet} (hc : applied.Clean)
    (work manifestWork uid : String) :
    (t.replace work manifestWork applied).2.owners.get? uid =
      if (t.setOf work).contains uid = applied.contains uid then t.owners.get? uid
      else if applied.contains uid = true then some work
      else if t.owners.get? uid = some work then t.otherClaimant? uid work
      else t.owners.get? uid := by
  have hadded : uid ∈ (AppliedSet.difference (t.setOf work) applied).added.uids ↔
      applied.contains uid = true ∧ (!(t.setOf work).contains uid) = true :=
    mem_uids_of_filter (p := fun uid => !(t.setOf work).contains uid)
      (AppliedSet.added_difference hc)
  have hremoved : uid ∈ (AppliedSet.difference (t.setOf work) applied).removed.uids ↔
      (t.setOf work).contains uid = true ∧ (!applied.contains uid) = true :=
    mem_uids_of_filter (p := fun uid => !applied.contains uid)
      (AppliedSet.removed_difference (h.clean_setOf work))
  rw [owners_replace]
  simp only [hadded, hremoved]
  cases hold : (t.setOf work).contains uid with
  | false => cases applied.contains uid <;> simp
  | true =>
    cases applied.contains uid with
    | true => simp
    | false =>
      cases hclaim : t.otherClaimant? uid work with
      | some other => simp
      | none =>
        -- Nobody else lists the UID, so it was this record's.
        obtain ⟨e, he, hu⟩ := (AppliedSet.contains_eq_true_iff _ uid).mp hold
        obtain ⟨owner, hown⟩ := h.lists_owned uid (hu ▸ (stores_of_mem_setOf he).lists)
        obtain ⟨tracked, hg, hlist⟩ := h.owner_lists uid owner hown
        have howner : owner = work :=
          (otherClaimant?_eq_none_iff h uid work).mp hclaim owner tracked hg hlist
        simp [hown, howner]

theorem owners_perform (h : t.Sound) (c : Call) (uid : String) :
    (c.perform t).2.owners.get? uid =
      if (t.setOf c.record).contains uid = c.set.contains uid then t.owners.get? uid
      else if c.set.contains uid = true then some c.record
      else if t.owners.get? uid = some c.record then t.otherClaimant? uid c.record
      else t.owners.get? uid := by
  cases c with
  | replace work manifestWork resources =>
      exact owners_replace_of_sound h (AppliedSet.clean_ofResources resources) work manifestWork uid
  | remove work =>
      change (t.remove work).2.owners.get? uid = _
      cases hg : t.works.get? work with
      | none =>
          have hset : t.setOf work = {} := by simp [setOf, appliedSet?, hg]
          rw [remove_of_get?_eq_none hg, Call.record, Call.set, hset, if_pos rfl]
      | some tracked =>
          rw [remove_eq_replace hg ""]
          exact owners_replace_of_sound h .empty work "" uid

/-! ## The owner after all calls -/

theorem lists_run_iff (calls : List Call) (work uid : String) :
    (∃ tracked, (run {} calls).works.get? work = some tracked ∧
      tracked.applied.contains uid = true) ↔ ListsAfter calls work uid := by
  rw [ListsAfter, ← setOf_run]
  constructor
  · rintro ⟨tracked, hg, hc⟩
    rwa [setOf_eq_of_get? hg]
  · intro hc
    cases hg : (run {} calls).works.get? work with
    | none => simp [setOf, appliedSet?, hg] at hc
    | some tracked =>
      rw [setOf_eq_of_get? hg] at hc
      exact ⟨tracked, rfl, hc⟩

theorem otherClaimant?_run_le {except least : String}
    (h : (run {} calls).otherClaimant? uid except = some least) :
    least ≠ except ∧ ListsAfter calls least uid ∧
      ∀ other, other ≠ except → ListsAfter calls other uid → least ≤ other := by
  have hmem : ∀ other, other ∈ (run {} calls).otherClaimants uid except ↔
      other ≠ except ∧ ListsAfter calls other uid := by
    intro other
    rw [mem_otherClaimants (sound_run calls), lists_run_iff]
  have hleast := (hmem least).mp (mem_of_leastText? h)
  exact ⟨hleast.1, hleast.2, fun other hne hl => leastText?_le h other ((hmem other).mpr ⟨hne, hl⟩)⟩

theorem newcomer?_of_not_brings (h : ¬ Brings calls c uid) :
    newcomer? uid [] (calls ++ [c]) = newcomer? uid [] calls := by
  rw [newcomer?_concat, List.nil_append, if_neg h]

theorem lists_of_concat (h : ¬ Brings calls c uid) (hl : ListsAfter (calls ++ [c]) work uid) :
    ListsAfter calls work uid := by
  by_cases hc : c.record = work
  · subst hc
    by_contra hnot
    exact h ⟨hnot, listsAfter_concat_self.mp hl⟩
  · exact (listsAfter_concat_of_ne hc).mp hl

/-- Where nobody lists the UID anew, whoever came last still did, as the others only get fewer. -/
theorem CameLast.concat (h : CameLast calls uid work) (hc : ¬ Brings calls c uid) :
    CameLast (calls ++ [c]) uid work := by
  rw [CameLast, newcomer?_of_not_brings hc]
  refine h.imp_right fun hleast => ⟨fun gone hg hl => ?_, fun other hl => ?_⟩
  · exact hleast.1 gone hg (lists_of_concat hc hl)
  · exact hleast.2 other (lists_of_concat hc hl)

/-- The least claimant comes after an owner who drops the UID. -/
theorem CameLast.handed {least : String} (h : CameLast calls uid c.record)
    (hnew : ¬ c.set.contains uid = true)
    (hleast : ∀ other, other ≠ c.record → ListsAfter calls other uid → least ≤ other) :
    CameLast (calls ++ [c]) uid least := by
  have hc : ¬ Brings calls c uid := fun hb => hnew hb.2
  have hgone : ¬ ListsAfter (calls ++ [c]) c.record uid := mt listsAfter_concat_self.mp hnew
  rw [CameLast, newcomer?_of_not_brings hc]
  refine .inr ⟨fun gone hg hl => ?_, fun other hl => ?_⟩
  · rcases h with hcame | ⟨hnone, -⟩
    · rw [hcame, Option.some.injEq] at hg
      exact hgone (hg ▸ hl)
    · exact hnone gone hg (lists_of_concat hc hl)
  · have hne : other ≠ c.record := by
      rintro rfl
      exact hgone hl
    exact hleast other hne (lists_of_concat hc hl)

/-- The owner lists the UID and came last. -/
theorem owner_came_last {owner : String} (h : (run {} calls).owners.get? uid = some owner) :
    ListsAfter calls owner uid ∧ CameLast calls uid owner := by
  induction calls using List.reverseRecOn generalizing owner with
  | nil => cases h
  | append_singleton calls c ih =>
      rw [run_concat, owners_perform (sound_run calls), setOf_run] at h
      by_cases hb : Brings calls c uid
      · have hdiffer : ¬ (setAfter calls c.record).contains uid = c.set.contains uid :=
          fun he => hb.1 (he.trans hb.2)
        rw [if_neg hdiffer, if_pos hb.2, Option.some.injEq] at h
        subst h
        refine ⟨listsAfter_concat_self.mpr hb.2, .inl ?_⟩
        rw [newcomer?_concat, List.nil_append, if_pos hb]
      · split at h
        case isTrue hsame =>
          obtain ⟨hl, hcame⟩ := ih h
          refine ⟨?_, hcame.concat hb⟩
          by_cases hc : c.record = owner
          · subst hc
            exact listsAfter_concat_self.mpr (hsame.symm.trans hl)
          · exact (listsAfter_concat_of_ne hc).mpr hl
        case isFalse hdiffer =>
          have hnew : ¬ c.set.contains uid = true := by
            intro hnew
            refine hb ⟨fun hold => hdiffer ?_, hnew⟩
            rw [ListsAfter] at hold
            rw [hold, hnew]
          rw [if_neg hnew] at h
          split at h
          case isTrue hown =>
            obtain ⟨hne, hl, hleast⟩ := otherClaimant?_run_le h
            exact ⟨(listsAfter_concat_of_ne hne.symm).mpr hl, (ih hown).2.handed hnew hleast⟩
          case isFalse hnot =>
            obtain ⟨hl, hcame⟩ := ih h
            have hne : c.record ≠ owner := by
              rintro rfl
              exact hnot h
            exact ⟨(listsAfter_concat_of_ne hne).mpr hl, hcame.concat hb⟩

theorem CameLast.unique {other : String} (h : CameLast calls uid work)
    (ho : CameLast calls uid other) (hl : ListsAfter calls work uid)
    (hol : ListsAfter calls other uid) : work = other := by
  rcases h with hcame | ⟨hgone, hleast⟩
  · rcases ho with hcame' | ⟨hgone', -⟩
    · exact Option.some.inj (hcame.symm.trans hcame')
    · exact (hgone' work hcame hl).elim
  · rcases ho with hcame' | ⟨-, hleast'⟩
    · exact (hgone other hcame' hol).elim
    · exact le_antisymm (hleast other hol) (hleast' work hl)

theorem Sound.map_ownerOf? (h : t.Sound) (uid : String) :
    (t.ownerOf? uid).map TrackedOwner.appliedWork = t.owners.get? uid := by
  cases hown : t.owners.get? uid with
  | none => simp [ownerOf?, hown]
  | some work =>
    obtain ⟨tracked, hg, -⟩ := h.owner_lists uid work hown
    simp [ownerOf?, hown, hg]

/-- After any calls the last writer of a UID owns it exactly if it came last: it was the last to
list the UID anew, or that one has dropped it and the last writer has the least name of those that
list it. -/
theorem last_writer_owns_iff (calls : List Call) (uid : String) :
    ((run {} calls).ownerOf? uid).map TrackedOwner.appliedWork = lastWriter? calls uid ↔
      ∀ work, lastWriter? calls uid = some work → CameLast calls uid work := by
  rw [(sound_run calls).map_ownerOf?]
  constructor
  · intro howns work hlast
    exact (owner_came_last (howns.trans hlast)).2
  · intro hcame
    cases hown : (run {} calls).owners.get? uid with
    | none =>
      have hnone : ∀ work, ¬ ListsAfter calls work uid := by
        intro work hl
        obtain ⟨tracked, hg, hc⟩ := (lists_run_iff calls work uid).mpr hl
        obtain ⟨owner, hsome⟩ := (sound_run calls).lists_owned uid ⟨work, tracked, hg, hc⟩
        rw [hown] at hsome
        cases hsome
      rw [lastWriter?_eq_none hnone]
    | some owner =>
      obtain ⟨hl, hc⟩ := owner_came_last hown
      obtain ⟨last, hlast⟩ := isSome_lastWriter? hl
      rw [hlast, hc.unique (hcame last hlast) hl (lists_of_lastWriter? hlast)]

/-- Of two records the first stores its set again, and of three the last is forgotten: in both cases
the record that now wrote last is not the owner. -/
theorem last_writer_does_not_own :
    let shared : List AppliedResource := [⟨"", "v1", "pods", "n", "p", "u"⟩]
    let again : List Call :=
      [.replace "a" "m1" shared, .replace "b" "m2" shared, .replace "a" "m1" shared]
    let handed : List Call :=
      [.replace "a" "m1" shared, .replace "b" "m2" shared, .replace "c" "m3" shared, .remove "c"]
    lastWriter? again "u" = some "a" ∧ (run {} again).ownerOf? "u" = some ⟨"b", "m2"⟩ ∧
      lastWriter? handed "u" = some "b" ∧ (run {} handed).ownerOf? "u" = some ⟨"a", "m1"⟩ := by
  decide +kernel

end StatusRelay.Tracker
