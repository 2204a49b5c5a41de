import StatusRelay.Proofs.Traffic
import Mathlib.Data.List.Induction

/-!
# Versions when operations overlap

What stands under a key is what the last write to it left there. Every version is taken by one
operation only, which may spend it without storing anything, and may store with it only after
others have stored with later ones. So versions do not follow each other in order, but no two writes
give the same one. An update that carries the version of a record that was answered is therefore
made exactly if nothing was written to the record since, be it deleted and made anew.
-/
namespace StatusRelay

namespace HubEvent

/-- What the last write to a key left there. -/
def standing (key : RecordKey) (events : List HubEvent) : Option WorkStatus :=
  events.foldl (fun before e => if e.Writes key then e.left else before) none

/-- A record was stored with the version after `n`. -/
def Gives (n : Nat) (e : HubEvent) : Prop :=
  e.Writes e.op.target ∧ ∃ record, e.left = some record ∧
    record.metadata.resourceVersion = some (Hub.versionText (n + 1))

variable {key : RecordKey} {xs ys : List HubEvent} {e : HubEvent}

theorem standing_concat (key : RecordKey) (xs : List HubEvent) (e : HubEvent) :
    standing key (xs ++ [e]) = if e.Writes key then e.left else standing key xs :=
  List.foldl_append

theorem standing_append (key : RecordKey) (xs ys : List HubEvent) :
    (∀ e ∈ ys, ¬ e.Writes key) ∧ standing key (xs ++ ys) = standing key xs ∨
      ∃ e ∈ ys, e.Writes key ∧ standing key (xs ++ ys) = e.left := by
  induction ys using List.reverseRecOn with
  | nil => exact Or.inl ⟨fun e he => (List.not_mem_nil he).elim, by rw [List.append_nil]⟩
  | append_singleton ys e ih =>
      rw [← List.append_assoc, standing_concat]
      by_cases he : e.Writes key
      · rw [if_pos he]
        exact Or.inr ⟨e, by simp, he, rfl⟩
      · rw [if_neg he]
        rcases ih with ⟨hnone, hsame⟩ | ⟨d, hd, hw, hleft⟩
        · refine Or.inl ⟨fun d hd => ?_, hsame⟩
          rcases List.mem_append.mp hd with hd | hd
          · exact hnone d hd
          · exact List.mem_singleton.mp hd ▸ he
        · exact Or.inr ⟨d, List.mem_append_left _ hd, hw, hleft⟩

theorem exists_of_standing {record : WorkStatus} (h : standing key xs = some record) :
    ∃ e ∈ xs, e.Writes key ∧ e.left = some record := by
  rcases standing_append key [] xs with ⟨-, hnone⟩ | ⟨e, he, hw, hleft⟩
  · rw [List.nil_append, h] at hnone
    cases hnone
  · rw [List.nil_append, h] at hleft
    exact ⟨e, he, hw, hleft.symm⟩

theorem Writes.target (h : e.Writes key) : e.Writes e.op.target := ⟨h.1, h.2.1, rfl⟩

theorem Gives.inj {m n : Nat} (h : e.Gives m) (h' : e.Gives n) : m = n := by
  obtain ⟨-, record, hleft, hversion⟩ := h
  obtain ⟨-, record', hleft', hversion'⟩ := h'
  cases hleft.symm.trans hleft'
  exact Nat.succ_inj.mp (Hub.versionText_inj.mp (Option.some.inj (hversion.symm.trans hversion')))

end HubEvent

open HubEvent

/-! ## What an effect does -/

namespace Hub.Effects

variable {h h' : Hub} {n : Nat} {op : HubOp} {result : op.Result}

theorem version (he : h.Effects n op result h') : h'.version = h.version := by
  cases he with
  | reads | refused => rfl
  | erases _ _ hv _ | stores _ _ hv _ _ _ => exact hv

/-- Only a write that succeeds changes a record, the one that it is about. -/
theorem get? (he : h.Effects n op result h') (key : RecordKey) :
    h'.records.get? key =
      if HubEvent.Writes key ⟨op, result, h'.records.get? op.target⟩ then
        h'.records.get? op.target
      else h.records.get? key := by
  cases he with
  | reads hw _ => rw [if_neg fun hwrites => absurd hwrites.1 (by simp [hw])]
  | refused error => rw [if_neg fun hwrites => Bool.false_ne_true hwrites.2.1]
  | erases hw hr _ _ =>
      by_cases hkey : op.target = key
      · rw [if_pos ⟨hw, rfl, hkey⟩, hkey]
      · rw [if_neg fun hwrites => hkey hwrites.2.2, hr, Table.get?_erase, if_neg hkey]
  | stores ht hr _ _ _ _ =>
      by_cases hkey : op.target = key
      · rw [if_pos ⟨isWrite_of_takesVersion ht, rfl, hkey⟩, hkey]
      · rw [if_neg fun hwrites => hkey hwrites.2.2, hr, Table.get?_insert, if_neg hkey]

/-- A record that an operation leaves where it wrote has the version that the operation took. -/
theorem stored (he : h.Effects n op result h') {record : WorkStatus}
    (hw : HubEvent.Writes op.target ⟨op, result, h'.records.get? op.target⟩)
    (hg : h'.records.get? op.target = some record) :
    op.takesVersion = true ∧
      record.metadata.resourceVersion = some (versionText (n + 1)) := by
  cases he with
  | reads hr _ => exact absurd hw.1 (by simp [hr])
  | refused error => exact absurd hw.2.1 Bool.false_ne_true
  | erases _ hr _ _ => simp [hr] at hg
  | stores ht hr _ hversion _ _ =>
      rw [hr, Table.get?_insert_self] at hg
      exact ⟨ht, Option.some.inj hg ▸ hversion⟩

theorem shown (he : h.Effects n op result h') {record : WorkStatus}
    (hs : HubEvent.shown? ⟨op, result, h'.records.get? op.target⟩ = some record) :
    h'.records.get? op.target = some record := by
  cases he with
  | reads _ hshown => exact hshown record hs
  | refused error => cases hs
  | erases _ _ _ hshown => cases hshown.symm.trans hs
  | stores _ hr _ _ hshown _ =>
      rw [hr, Table.get?_insert_self, hshown record hs]

theorem placed (he : h.Effects n op result h')
    (hold : ∀ key record, h.records.get? key = some record → record.place = key)
    (key : RecordKey) (record : WorkStatus) (hg : h'.records.get? key = some record) :
    record.place = key := by
  cases he with
  | reads | refused => exact hold key record hg
  | erases _ hr _ _ =>
      rw [hr, Table.get?_erase] at hg
      split at hg
      · cases hg
      · exact hold key record hg
  | stores _ hr _ _ _ hplaced =>
      rw [hr, Table.get?_insert] at hg
      split at hg
      · rename_i hkey
        cases hg
        rw [← hkey]
        exact hplaced (hold op.target)
      · exact hold key record hg

theorem untouched {error : HubError} (he : h.Effects n op (.error error) h') : h.Untouched h' := by
  cases he with
  | refused => exact .refl h

end Hub.Effects

namespace Traffic

variable {t t' : Traffic} {n : Nat} {n? : Option Nat} {op : HubOp}

/-! ## What stands where -/

/-- The events tell what stands in the hub, and what stood there. -/
structure Told (t : Traffic) : Prop where
  standing : ∀ key, t.hub.records.get? key = standing key t.events
  placed : ∀ key record, t.hub.records.get? key = some record → record.place = key
  left : ∀ before e behind, t.events = before ++ e :: behind →
    e.left = HubEvent.standing e.op.target (before ++ [e])
  shown : ∀ e ∈ t.events, ∀ record, e.shown? = some record →
    e.left = some record ∧ record.place = e.op.target

theorem told_start : ({} : Traffic).Told where
  standing := fun _ => rfl
  placed := fun _ _ h => by cases h
  left := fun _ _ _ h => by simp at h
  shown := fun _ h => (List.not_mem_nil h).elim

/-- Where a list with a new last entry is cut. -/
theorem cut_concat {α : Type} {xs before behind : List α} {x y : α}
    (h : xs ++ [y] = before ++ x :: behind) :
    (before = xs ∧ x = y) ∨ ∃ rest, xs = before ++ x :: rest := by
  rcases List.eq_nil_or_concat behind with rfl | ⟨rest, z, rfl⟩
  · obtain ⟨rfl, hlast⟩ := List.append_inj' h rfl
    exact Or.inl ⟨rfl, (List.singleton_inj.mp hlast).symm⟩
  · have hends : xs ++ [y] = (before ++ x :: rest) ++ [z] := by simpa using h
    exact Or.inr ⟨rest, (List.append_inj' hends rfl).1⟩

theorem Told.step (ht : t.Told) (hs : t.Step n? t') : t'.Told := by
  cases hs with
  | rests | begins | turns | numbers => exact ⟨ht.standing, ht.placed, ht.left, ht.shown⟩
  | tunes hu _ =>
      exact ⟨fun key => hu.records ▸ ht.standing key,
        fun key record hg => ht.placed key record (hu.records ▸ hg), ht.left, ht.shown⟩
  | @effects n version op phase result h' hn hopen hversion he =>
      generalize hnew : (⟨op, result, h'.records.get? op.target⟩ : HubEvent) = new
      have hstanding : ∀ key, h'.records.get? key = HubEvent.standing key (t.events ++ [new]) := by
        intro key
        rw [standing_concat, ← ht.standing key, ← hnew]
        exact he.get? key
      have hplaced := he.placed ht.placed
      refine ⟨hstanding, hplaced, fun before e behind hcut => ?_, fun e hmem record hshown => ?_⟩
      · rcases cut_concat hcut with ⟨rfl, rfl⟩ | ⟨rest, hevents⟩
        · rw [← hstanding, ← hnew]
        · exact ht.left before e rest hevents
      · rcases List.mem_append.mp hmem with hmem | hmem
        · exact ht.shown e hmem record hshown
        · obtain rfl := List.mem_singleton.mp hmem
          subst hnew
          have hthere := he.shown hshown
          exact ⟨hthere, hplaced _ record hthere⟩

end Traffic

/-! ## Who has which version -/

/-- The version that an operation has taken and not stored with yet. -/
def Visit.number? (v : Visit) : Option Nat :=
  match v.phase with
  | .numbered version => some version
  | .waiting | .admitted | .ended _ | .givenUp => none

namespace Traffic

variable {t t' : Traffic} {n : Nat} {n? : Option Nat} {op : HubOp}

def number? (t : Traffic) (n : Nat) : Option Nat := t.visits[n]?.bind Visit.number?

/-- Every version was taken once, and is at most at one place: with an operation under way, or
given by a write. -/
structure Numbered (t : Traffic) : Prop where
  given : ∀ e ∈ t.events, e.Writes e.op.target → ∀ record, e.left = some record →
    ∃ m, m < t.hub.version ∧ e.Gives m
  pending : ∀ n m, t.number? n = some m → m < t.hub.version ∧ ∀ e ∈ t.events, ¬ e.Gives m
  apart : ∀ n n' m, t.number? n = some m → t.number? n' = some m → n = n'
  once : t.events.Pairwise fun e e' => ∀ m, e.Gives m → ¬ e'.Gives m

theorem numbered_start : ({} : Traffic).Numbered where
  given := fun _ h => (List.not_mem_nil h).elim
  pending := fun _ _ h => by cases h
  apart := fun _ _ _ h => by cases h
  once := .nil

theorem number?_set {visits : List Visit} {v w : Visit} (hn : visits[n]? = some v) (k : Nat) :
    (visits.set n w)[k]?.bind Visit.number? =
      if n = k then w.number? else visits[k]?.bind Visit.number? := by
  obtain ⟨hlt, -⟩ := List.getElem?_eq_some_iff.mp hn
  rw [List.getElem?_set]
  by_cases hk : n = k
  · rw [if_pos hk, if_pos hk, if_pos hlt]
    rfl
  · rw [if_neg hk, if_neg hk]

theorem number?_enter (t : Traffic) (op : HubOp) (k : Nat) :
    (t.visits ++ [⟨op, op.begun⟩])[k]?.bind Visit.number? = t.number? k := by
  have hbegun : Visit.number? ⟨op, op.begun⟩ = none := by
    cases op with
    | addRecord record => rfl
    | call c => cases hw : c.isWrite <;> simp [Visit.number?, HubOp.begun, hw]
  rw [number?, List.getElem?_append]
  split
  · rfl
  · rename_i hk
    rw [List.getElem?_eq_none (Nat.le_of_not_lt hk)]
    cases hlast : k - t.visits.length with
    | zero => exact hbegun
    | succ => rfl

/-- With other numbers gone or as they were, and no more events, nothing changes. -/
theorem Numbered.mono (hh : t.Numbered) (hevents : t'.events = t.events)
    (hversion : t.hub.version ≤ t'.hub.version)
    (hnumber : ∀ n m, t'.number? n = some m → t.number? n = some m) : t'.Numbered where
  given := fun e he hw record hleft => by
    obtain ⟨m, hm, hgives⟩ := hh.given e (hevents ▸ he) hw record hleft
    exact ⟨m, Nat.lt_of_lt_of_le hm hversion, hgives⟩
  pending := fun n m hn => by
    obtain ⟨hm, hnone⟩ := hh.pending n m (hnumber n m hn)
    exact ⟨Nat.lt_of_lt_of_le hm hversion, hevents ▸ hnone⟩
  apart := fun n n' m hn hn' => hh.apart n n' m (hnumber n m hn) (hnumber n' m hn')
  once := hevents ▸ hh.once

/-- An operation takes the next version. -/
theorem Numbered.numbers (hh : t.Numbered) (hn : t.visits[n]? = some ⟨op, .admitted⟩) :
    Numbered (({ t with hub := t.hub.bump } : Traffic).setPhase n op
      (.numbered t.hub.version)) := by
  generalize ht' : ({ t with hub := t.hub.bump } : Traffic).setPhase n op
    (.numbered t.hub.version) = t'
  have hversion : t'.hub.version = t.hub.version + 1 := by rw [← ht']; rfl
  have hevents : t'.events = t.events := by rw [← ht']; rfl
  have hnumber : ∀ k, t'.number? k = if n = k then some t.hub.version else t.number? k := by
    intro k
    rw [← ht']
    exact number?_set hn k
  have hnew : ∀ m, m < t.hub.version → t.hub.version ≠ m := fun m hm => Nat.ne_of_gt hm
  refine ⟨fun e he hw record hleft => ?_, fun k m hk => ?_, fun k k' m hk hk' => ?_,
    hevents ▸ hh.once⟩
  · obtain ⟨m, hm, hgives⟩ := hh.given e (hevents ▸ he) hw record hleft
    exact ⟨m, hversion ▸ Nat.lt_succ_of_lt hm, hgives⟩
  · rw [hnumber] at hk
    rw [hversion, hevents]
    split at hk
    · cases hk
      refine ⟨Nat.lt_succ_self _, fun e he hgives => ?_⟩
      obtain ⟨hw, record, hleft, -⟩ := id hgives
      obtain ⟨m, hm, hgives'⟩ := hh.given e he hw record hleft
      exact hnew m hm (hgives.inj hgives')
    · obtain ⟨hm, hnone⟩ := hh.pending k m hk
      exact ⟨Nat.lt_succ_of_lt hm, hnone⟩
  · rw [hnumber] at hk hk'
    split at hk <;> split at hk'
    · rename_i hl hl'
      exact hl.symm.trans hl'
    · cases hk
      exact absurd rfl (hnew _ (hh.pending k' _ hk').1)
    · cases hk'
      exact absurd rfl (hnew _ (hh.pending k _ hk).1)
    · exact hh.apart k k' m hk hk'

/-- An operation stores with the version that it has taken, if with any. -/
theorem Numbered.effects (hh : t.Numbered) {version : Nat} {phase : op.Phase} {result : op.Result}
    {h' : Hub} (hn : t.visits[n]? = some ⟨op, phase⟩)
    (hphase : phase = .numbered version ∨ op.takesVersion = false)
    (he : t.hub.Effects version op result h') :
    Numbered ⟨h', t.visits.set n ⟨op, .ended result⟩,
      t.events ++ [⟨op, result, h'.records.get? op.target⟩]⟩ := by
  generalize hnew : (⟨op, result, h'.records.get? op.target⟩ : HubEvent) = new
  have hnumber : ∀ k, number? ⟨h', t.visits.set n ⟨op, .ended result⟩, t.events ++ [new]⟩ k =
      if n = k then none else t.number? k := number?_set hn
  -- What the event gives, if it stores a record, is the version of the operation.
  have hstored : new.Writes new.op.target → ∀ record, new.left = some record →
      t.number? n = some version ∧ new.Gives version := by
    intro hw record hleft
    subst hnew
    obtain ⟨ht, hversion⟩ := he.stored hw hleft
    have hnumbered : phase = .numbered version := hphase.resolve_right (by simp [ht])
    refine ⟨?_, hw, record, hleft, hversion⟩
    rw [number?, hn, hnumbered]
    rfl
  have hgives : ∀ m, new.Gives m → t.number? n = some m := by
    intro m hm
    obtain ⟨hw, record, hleft, -⟩ := id hm
    obtain ⟨hnumbered, hversion⟩ := hstored hw record hleft
    rw [hnumbered, hversion.inj hm]
  refine ⟨fun e hmem hw record hleft => ?_, fun k m hk => ?_, fun k k' m hk hk' => ?_, ?_⟩
  · rw [he.version]
    rcases List.mem_append.mp hmem with hmem | hmem
    · exact hh.given e hmem hw record hleft
    · obtain rfl := List.mem_singleton.mp hmem
      obtain ⟨hnumbered, hversion⟩ := hstored hw record hleft
      exact ⟨version, (hh.pending n version hnumbered).1, hversion⟩
  · rw [hnumber] at hk
    split at hk
    · cases hk
    · rename_i hne
      obtain ⟨hm, hnone⟩ := hh.pending k m hk
      refine ⟨he.version.symm ▸ hm, fun e hmem hm => ?_⟩
      rcases List.mem_append.mp hmem with hmem | hmem
      · exact hnone e hmem hm
      · obtain rfl := List.mem_singleton.mp hmem
        exact hne (hh.apart n k m (hgives m hm) hk)
  · rw [hnumber] at hk hk'
    split at hk
    · cases hk
    · split at hk'
      · cases hk'
      · exact hh.apart k k' m hk hk'
  · refine List.pairwise_append.mpr ⟨hh.once, List.pairwise_singleton _ _, ?_⟩
    intro e hmem e' hmem' m hm hm'
    obtain rfl := List.mem_singleton.mp hmem'
    exact (hh.pending n m (hgives m hm')).2 e hmem hm

theorem Numbered.step (hh : t.Numbered) (hs : t.Step n? t') : t'.Numbered := by
  cases hs with
  | rests => exact hh
  | begins op =>
      exact hh.mono rfl (Nat.le_refl _) fun k m hk => (number?_enter t op k).symm.trans hk
  | tunes hu hv => exact hh.mono rfl (Nat.le_of_eq hv.symm) fun _ _ hk => hk
  | @turns n op phase phase' hn _ _ hnumber _ =>
      have hnone : Visit.number? ⟨op, phase'⟩ = none := by
        cases phase' with
        | numbered version => exact absurd rfl (hnumber version)
        | waiting | admitted | ended | givenUp => rfl
      refine hh.mono rfl (Nat.le_refl _) fun k m hk => ?_
      have hset := number?_set hn (w := ⟨op, phase'⟩) k
      rw [number?, setPhase, hset, hnone] at hk
      split at hk
      · cases hk
      · exact hk
  | numbers hn => exact hh.numbers hn
  | effects hn _ hphase he => exact hh.effects hn hphase he

/-- Two writes that leave records give them different versions. -/
theorem Numbered.versions_ne (hh : t.Numbered) :
    t.events.Pairwise fun e e' => e.Writes e.op.target → e'.Writes e'.op.target →
      ∀ record record', e.left = some record → e'.left = some record' →
        record.metadata.resourceVersion ≠ record'.metadata.resourceVersion := by
  refine hh.once.imp_of_mem fun {e e'} he he' honce hw hw' record record' hleft hleft' heq => ?_
  obtain ⟨m, -, hgives⟩ := hh.given e he hw record hleft
  obtain ⟨-, r, hr, hversion⟩ := id hgives
  cases hr.symm.trans hleft
  exact honce m hgives ⟨hw', record', hleft', heq.symm.trans hversion⟩

end Traffic
end StatusRelay
