import StatusRelay.Proofs.Doubling
import StatusRelay.Proofs.Patience
import Mathlib.Data.List.Induction

/-!
# What a limiter counts

A limiter may be put together from limiters for single items, by taking the longest wait of several
and of several of those again. Each of the limiters at the leaves sees every try of an item and
every time it is forgotten, though only the longest wait is used. So each of them counts the same:
the tries of the item since it was last forgotten, as far as 32 bits go. The wait of the whole is
read off that count and the leaves alone.
-/
namespace StatusRelay.Limiter

variable {κ : Type} [DecidableEq κ]

/-! ## What is asked of a limiter -/

inductive Call (κ : Type) where
  | next (item : κ) (now : Nat)
  | forget (item : κ)
  | requeues (item : κ)
  deriving DecidableEq, Repr

namespace Call

omit [DecidableEq κ] in
def item : Call κ → κ
  | .next item _ | .forget item | .requeues item => item

def tries (item : κ) : Call κ → Bool
  | .next i _ => decide (i = item)
  | .forget _ | .requeues _ => false

def forgets (item : κ) : Call κ → Bool
  | .forget i => decide (i = item)
  | .next _ _ | .requeues _ => false

theorem tries_eq_false {c : Call κ} {item : κ} (h : c.item ≠ item) : c.tries item = false := by
  cases c with
  | next i now => exact decide_eq_false h
  | forget | requeues => rfl

theorem forgets_eq_false {c : Call κ} {item : κ} (h : c.item ≠ item) : c.forgets item = false := by
  cases c with
  | forget i => exact decide_eq_false h
  | next | requeues => rfl

end Call

def call (lim : Limiter κ) : Call κ → Limiter κ
  | .next item now => (lim.next item now).2
  | .forget item => lim.forget item
  | .requeues _ => lim

/-- The limiter after calls, the first of them first. -/
def afterCalls (lim : Limiter κ) (calls : List (Call κ)) : Limiter κ := calls.foldl call lim

/-- The calls since an item was last forgotten, the last of them first. -/
def sinceForgotten (item : κ) (calls : List (Call κ)) : List (Call κ) :=
  calls.reverse.takeWhile fun c => !c.forgets item

/-- How often an item was tried since it was last forgotten. -/
def tries (item : κ) (calls : List (Call κ)) : Nat :=
  (sinceForgotten item calls).countP (Call.tries item)

theorem tries_concat (item : κ) (calls : List (Call κ)) (c : Call κ) :
    tries item (calls ++ [c]) =
      if c.forgets item then 0 else tries item calls + (if c.tries item then 1 else 0) := by
  unfold tries sinceForgotten
  rw [List.reverse_append, List.reverse_singleton, List.singleton_append, List.takeWhile_cons]
  cases c.forgets item with
  | true => rfl
  | false => exact List.countP_cons

theorem tries_concat_of_ne {item : κ} {c : Call κ} (h : c.item ≠ item) (calls : List (Call κ)) :
    tries item (calls ++ [c]) = tries item calls := by
  rw [tries_concat, Call.tries_eq_false h, Call.forgets_eq_false h]
  rfl

theorem tries_append_of_ne {item : κ} (calls : List (Call κ)) {others : List (Call κ)}
    (h : ∀ c ∈ others, c.item ≠ item) : tries item (calls ++ others) = tries item calls := by
  induction others using List.reverseRecOn with
  | nil => rw [List.append_nil]
  | append_singleton others c ih =>
      rw [← List.append_assoc, tries_concat_of_ne (h c (by simp))]
      exact ih fun d hd => h d (List.mem_append_left _ hd)

theorem tries_le_append {item : κ} (calls : List (Call κ)) {later : List (Call κ)}
    (h : ∀ c ∈ later, c.forgets item = false) : tries item calls ≤ tries item (calls ++ later) := by
  induction later using List.reverseRecOn with
  | nil => rw [List.append_nil]
  | append_singleton later c ih =>
      have hc : c.forgets item = false := h c (by simp)
      have hlater := ih fun d hd => h d (List.mem_append_left _ hd)
      rw [← List.append_assoc, tries_concat, hc]
      exact hlater.trans (Nat.le_add_right _ _)

/-! ## Limiters of limiters -/

theorem nextAll_eq (item : κ) (now : Nat) (limiters : List (Limiter κ)) :
    nextAll item now limiters =
      (limiters.map fun l => (l.next item now).1, limiters.map fun l => (l.next item now).2) := by
  induction limiters with
  | nil => rfl
  | cons l rest ih => rw [nextAll, ih]; rfl

theorem forgetAll_eq (item : κ) (limiters : List (Limiter κ)) :
    forgetAll item limiters = limiters.map (forget item) := by
  induction limiters with
  | nil => rfl
  | cons l rest ih => rw [forgetAll, ih]; rfl

/-- A limiter for single items. -/
structure Leaf where
  base : Duration
  max : Duration
  deriving DecidableEq, Repr

/-- The wait after `n` failures. -/
def Leaf.wait (n : Nat) (leaf : Leaf) : Nat :=
  min (leaf.base.nanos * 2 ^ min n 31) leaf.max.nanos

mutual

/-- The limiters for single items that a limiter is put together from. -/
def leaves : Limiter κ → List Leaf
  | .exponential base max _ => [⟨base, max⟩]
  | .bucket _ => []
  | .largest limiters => leavesAll limiters

def leavesAll : List (Limiter κ) → List Leaf
  | [] => []
  | l :: rest => leaves l ++ leavesAll rest

end

/-- A limiter put together from limiters for single items that have not counted anything yet. -/
inductive Fresh : Limiter κ → Prop
  | exponential (base : Duration) {max : Duration} (hmax : max.Fits) :
      Fresh (.exponential base max {})
  | largest {limiters : List (Limiter κ)} (hne : limiters ≠ []) (h : ∀ l ∈ limiters, Fresh l) :
      Fresh (.largest limiters)

/-- Every limiter for single items within has counted the same. -/
inductive Counts (count : κ → Nat) : Limiter κ → Prop
  | exponential (base : Duration) {max : Duration} {failures : Table κ Nat} (hmax : max.Fits)
      (h : ∀ item, failuresOf failures item = min (count item) countMax) :
      Counts count (.exponential base max failures)
  | largest {limiters : List (Limiter κ)} (hne : limiters ≠ [])
      (h : ∀ l ∈ limiters, Counts count l) :
      Counts count (.largest limiters)

variable {lim : Limiter κ} {count : κ → Nat}

theorem Fresh.counts (h : lim.Fresh) : lim.Counts fun _ => 0 := by
  induction h with
  | exponential base hmax => exact .exponential base hmax fun _ => rfl
  | largest hne _ ih => exact .largest hne ih

omit [DecidableEq κ] in
theorem mem_leavesAll {limiters : List (Limiter κ)} {leaf : Leaf} :
    leaf ∈ leavesAll limiters ↔ ∃ l ∈ limiters, leaf ∈ l.leaves := by
  induction limiters with
  | nil => simp [leavesAll]
  | cons l rest ih => simp [leavesAll, ih]

theorem call_largest (limiters : List (Limiter κ)) (c : Call κ) :
    (largest limiters).call c = .largest (limiters.map fun l => l.call c) := by
  cases c with
  | next item now => rw [call, next, nextAll_eq]; rfl
  | forget item => rw [call, forget, forgetAll_eq]; rfl
  | requeues item => exact congrArg largest (List.map_id limiters).symm

/-! ## Counting -/

theorem failuresOf_insert (failures : Table κ Nat) (i item : κ) (n : Nat) :
    failuresOf (failures.insert i n) item = if i = item then n else failuresOf failures item := by
  unfold failuresOf
  rw [Table.get?_insert]
  split <;> rfl

theorem failuresOf_erase (failures : Table κ Nat) (i item : κ) :
    failuresOf (failures.erase i) item = if i = item then 0 else failuresOf failures item := by
  unfold failuresOf
  rw [Table.get?_erase]
  split <;> rfl

/-- What a call makes of the counts. -/
def Call.counted (c : Call κ) (count : κ → Nat) (item : κ) : Nat :=
  if c.forgets item then 0 else count item + (if c.tries item then 1 else 0)

theorem Counts.call (h : lim.Counts count) (c : Call κ) :
    (lim.call c).Counts (c.counted count) := by
  induction h with
  | @exponential base max failures hmax h =>
      cases c with
      | next i now =>
          refine .exponential base hmax fun item => ?_
          rw [failuresOf_insert, h i, h item]
          by_cases hi : i = item
          · subst hi
            have hcount : (Call.next i now).counted count i = count i + 1 := by
              simp [Call.counted, Call.forgets, Call.tries]
            rw [if_pos rfl, hcount]
            omega
          · simp [Call.counted, Call.forgets, Call.tries, hi]
      | forget i =>
          refine .exponential base hmax fun item => ?_
          rw [failuresOf_erase, h item]
          by_cases hi : i = item <;> simp [Call.counted, Call.forgets, Call.tries, hi]
      | requeues i => exact .exponential base hmax h
  | largest hne _ ih =>
      rw [call_largest]
      refine .largest (by simpa using hne) fun l hl => ?_
      obtain ⟨l, hm, rfl⟩ := List.mem_map.mp hl
      exact ih l hm

theorem Counts.leaves_call (h : lim.Counts count) (c : Call κ) :
    (lim.call c).leaves = lim.leaves := by
  induction h with
  | exponential => cases c <;> rfl
  | @largest limiters _ _ ih =>
      rw [call_largest, leaves, leaves]
      clear * - ih
      induction limiters with
      | nil => rfl
      | cons l rest ihrest =>
          rw [List.map_cons, leavesAll, leavesAll, ih l List.mem_cons_self,
            ihrest fun l hl => ih l (List.mem_cons_of_mem _ hl)]

/-- After any calls each limiter within has counted the tries since the item was last forgotten. -/
theorem Fresh.counts_afterCalls (h : lim.Fresh) (calls : List (Call κ)) :
    (lim.afterCalls calls).Counts (fun item => tries item calls) ∧
      (lim.afterCalls calls).leaves = lim.leaves := by
  induction calls using List.reverseRecOn with
  | nil => exact ⟨h.counts, rfl⟩
  | append_singleton calls c ih =>
      obtain ⟨hcounts, hleaves⟩ := ih
      have hlast : lim.afterCalls (calls ++ [c]) = (lim.afterCalls calls).call c :=
        List.foldl_append
      have hcount : c.counted (fun item => tries item calls) =
          fun item => tries item (calls ++ [c]) :=
        funext fun item => (tries_concat item calls c).symm
      rw [hlast, ← hcount]
      exact ⟨hcounts.call c, (hcounts.leaves_call c).trans hleaves⟩

/-! ## What the counts decide -/

theorem exists_eq_longest {ds : List Duration} (h : ds ≠ []) :
    ∃ d ∈ ds, (longest ds).nanos = d.nanos := by
  induction ds with
  | nil => exact absurd rfl h
  | cons d rest ih =>
      rw [longest, Duration.max_nanos]
      by_cases hrest : rest = []
      · subst hrest
        exact ⟨d, List.mem_cons_self, Nat.max_zero _⟩
      · obtain ⟨e, he, hlongest⟩ := ih hrest
        rcases Nat.le_total (longest rest).nanos d.nanos with hle | hle
        · exact ⟨d, List.mem_cons_self, Nat.max_eq_left hle⟩
        · exact ⟨e, List.mem_cons_of_mem _ he, (Nat.max_eq_right hle).trans hlongest⟩

theorem requeuesAll_eq {item : κ} {n : Nat} {limiters : List (Limiter κ)} (hne : limiters ≠ [])
    (h : ∀ l ∈ limiters, l.requeues item = n) : requeuesAll item limiters = n := by
  induction limiters with
  | nil => exact absurd rfl hne
  | cons l rest ih =>
      rw [requeuesAll, h l List.mem_cons_self]
      by_cases hrest : rest = []
      · subst hrest
        exact Nat.max_zero n
      · rw [ih hrest fun l hl => h l (List.mem_cons_of_mem _ hl)]
        exact Nat.max_self n

theorem Counts.requeues (h : lim.Counts count) (item : κ) :
    lim.requeues item = min (count item) countMax := by
  induction h with
  | exponential base hmax h => exact h item
  | largest hne _ ih => exact requeuesAll_eq hne ih

/-- The counter stops far beyond the last doubling. -/
theorem wait_min_countMax (n : Nat) (leaf : Leaf) : leaf.wait (min n countMax) = leaf.wait n := by
  have hsame : min (min n countMax) 31 = min n 31 := by
    have : 31 ≤ countMax := by decide
    omega
  rw [Leaf.wait, Leaf.wait, hsame]

/-- The wait of the whole is the longest of those at the leaves. -/
theorem Counts.wait (h : lim.Counts count) (item : κ) (now : Nat) :
    (lim.leaves.map (Leaf.wait (count item))).max? = some (lim.next item now).1.nanos := by
  rw [List.max?_eq_some_iff]
  induction h with
  | @exponential base max failures hmax h =>
      have hwait : Leaf.wait (count item) ⟨base, max⟩ =
          (delayFor base max (failuresOf failures item)).nanos := by
        rw [h item, nanos_delayFor hmax, ← wait_min_countMax]
        rfl
      rw [leaves, List.map_singleton, hwait]
      exact ⟨List.mem_singleton_self _, fun n hn => (List.mem_singleton.mp hn).le⟩
  | @largest limiters hne _ ih =>
      have hnext : ((Limiter.largest limiters).next item now).1 =
          longest (limiters.map fun l => (l.next item now).1) := by
        rw [Limiter.next, nextAll_eq]
      rw [hnext]
      constructor
      · have hwaits : (limiters.map fun l => (l.next item now).1) ≠ [] := by simpa using hne
        obtain ⟨d, hd, hlongest⟩ := exists_eq_longest hwaits
        obtain ⟨l, hl, rfl⟩ := List.mem_map.mp hd
        obtain ⟨leaf, hleaf, hwait⟩ := List.mem_map.mp (ih l hl).1
        rw [hlongest, ← hwait]
        exact List.mem_map_of_mem (mem_leavesAll.mpr ⟨l, hl, hleaf⟩)
      · intro n hn
        obtain ⟨leaf, hleaf, rfl⟩ := List.mem_map.mp hn
        obtain ⟨l, hl, hleaf⟩ := mem_leavesAll.mp hleaf
        have hwait := (ih l hl).2 _ (List.mem_map_of_mem hleaf)
        exact hwait.trans (le_longest (List.mem_map_of_mem hl))

theorem Leaf.wait_mono (leaf : Leaf) {m n : Nat} (h : m ≤ n) : leaf.wait m ≤ leaf.wait n :=
  curve_mono leaf.base leaf.max (min_le_min_right 31 h)

theorem Counts.wait_mono {lim' : Limiter κ} {count' : κ → Nat} (h : lim.Counts count)
    (h' : lim'.Counts count') (hleaves : lim'.leaves = lim.leaves) {item : κ}
    (hcount : count item ≤ count' item) (now now' : Nat) :
    (lim.next item now).1.nanos ≤ (lim'.next item now').1.nanos := by
  obtain ⟨hmem, -⟩ := List.max?_eq_some_iff.mp (h.wait item now)
  obtain ⟨-, hle⟩ := List.max?_eq_some_iff.mp (h'.wait item now')
  obtain ⟨leaf, hleaf, hwait⟩ := List.mem_map.mp hmem
  rw [← hwait]
  exact (leaf.wait_mono hcount).trans (hle _ (List.mem_map_of_mem (hleaves ▸ hleaf)))

/-- The accounts of a limiter put together from limiters for single items. After any calls, the wait
for an item is the longest that the leaves have for the number of its tries since it was last
forgotten, and its failures are these tries, as far as 32 bits count them. Calls for other items
change neither, and until the item is forgotten its waits never become shorter. -/
theorem waits_and_counts_of_calls (h : lim.Fresh) (calls : List (Call κ)) :
    (∀ item now,
      (lim.leaves.map (Leaf.wait (tries item calls))).max? =
        some ((lim.afterCalls calls).next item now).1.nanos ∧
      (lim.afterCalls calls).requeues item = min (tries item calls) (2 ^ 32 - 1)) ∧
    (∀ item others now now', (∀ c ∈ others, c.item ≠ item) →
      ((lim.afterCalls (calls ++ others)).next item now').1 =
        ((lim.afterCalls calls).next item now).1 ∧
      (lim.afterCalls (calls ++ others)).requeues item =
        (lim.afterCalls calls).requeues item) ∧
    ∀ item later now now', (∀ c ∈ later, c.forgets item = false) →
      ((lim.afterCalls calls).next item now).1.nanos ≤
        ((lim.afterCalls (calls ++ later)).next item now').1.nanos := by
  obtain ⟨hcounts, hleaves⟩ := h.counts_afterCalls calls
  refine ⟨fun item now => ⟨?_, hcounts.requeues item⟩, fun item others now now' hothers => ?_,
    fun item later now now' hlater => ?_⟩
  · rw [← hleaves]
    exact hcounts.wait item now
  · obtain ⟨hcounts', hleaves'⟩ := h.counts_afterCalls (calls ++ others)
    have htries : tries item (calls ++ others) = tries item calls :=
      tries_append_of_ne calls hothers
    have hwait := hcounts.wait item now
    have hwait' := hcounts'.wait item now'
    rw [hleaves', htries, ← hleaves, hwait, Option.some.injEq] at hwait'
    refine ⟨congrArg Duration.mk hwait'.symm, ?_⟩
    rw [hcounts.requeues item, hcounts'.requeues item, htries]
  · obtain ⟨hcounts', hleaves'⟩ := h.counts_afterCalls (calls ++ later)
    exact hcounts.wait_mono hcounts' (hleaves'.trans hleaves.symm) (tries_le_append calls hlater)
      now now'

/-- Two limiters, one of them inside another limiter: after two failures of `a` the longer of the
waits is 200 ms, whatever was tried of `b`. -/
theorem waits_and_counts_of_two_failures :
    let lim : Limiter String := .largest [.exponential (.ofMillis 5) (.ofSeconds 1) {},
      .largest [.exponential (.ofMillis 50) (.ofSeconds 1) {}]]
    let calls : List (Call String) :=
      [.next "a" 0, .forget "a", .next "a" 0, .next "b" 0, .next "a" 0, .requeues "a"]
    lim.Fresh ∧ ((lim.afterCalls calls).next "a" 7).1.nanos = 200000000 ∧
      (lim.afterCalls calls).requeues "a" = 2 := by
  intro lim calls
  have hsecond : Duration.Fits (.ofSeconds 1) := by decide
  have hfresh : lim.Fresh := by
    refine .largest (by simp) fun l hl => ?_
    rcases List.mem_cons.mp hl with rfl | hl
    · exact .exponential _ hsecond
    · rw [List.mem_singleton.mp hl]
      refine .largest (by simp) fun l hl => ?_
      rw [List.mem_singleton.mp hl]
      exact .exponential _ hsecond
  obtain ⟨hwait, hcount⟩ := (waits_and_counts_of_calls hfresh calls).1 "a" 7
  have hlongest : (lim.leaves.map (Leaf.wait (tries "a" calls))).max? = some 200000000 := by decide
  exact ⟨hfresh, Option.some.inj (hwait.symm.trans hlongest), hcount⟩

end StatusRelay.Limiter
