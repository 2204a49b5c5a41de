import StatusRelay.Instant
import Mathlib

/-!
# Days and dates

Every day has one date and every date of the calendar is that of one day: the formulas that turn
the one into the other count the days from the first of January 1970 one by one, forwards and
backwards.

A year that starts in March has its leap day at its end. So the number of a day is the start of
that year and the days since, which depend on the month and the day only.
-/
namespace StatusRelay.Instant

structure Date where
  year : Int
  month : Nat
  day : Nat
  deriving DecidableEq, Repr

namespace Date

/-- The calendar has the date. -/
structure Valid (d : Date) : Prop where
  month_pos : 1 ≤ d.month
  month_le : d.month ≤ 12
  day_pos : 1 ≤ d.day
  day_le : d.day ≤ daysInMonth d.year d.month

/-- The date of the next day. -/
def next (d : Date) : Date :=
  if d.day < daysInMonth d.year d.month then { d with day := d.day + 1 }
  else if d.month < 12 then ⟨d.year, d.month + 1, 1⟩
  else ⟨d.year + 1, 1, 1⟩

/-- Which day a date is, counted day by day from the start of 1970. -/
inductive Counted : Date → Int → Prop
  | epoch : Counted ⟨1970, 1, 1⟩ 0
  | next {d : Date} {n : Int} : Counted d n → Counted d.next (n + 1)
  | back {d : Date} {n : Int} : d.Valid → Counted d.next (n + 1) → Counted d n

def number (d : Date) : Int := dayNumber d.year d.month d.day

def ofNumber (n : Int) : Date := ⟨(civil n).1, (civil n).2.1, (civil n).2.2⟩

/-! ## Years that start in March -/

/-- The days before the start of a year that starts in March. -/
def yearStart (y : Int) : Int := 365 * y + y / 4 - y / 100 + y / 400

theorem isLeapYear_iff (y : Int) :
    isLeapYear y = true ↔ y % 4 = 0 ∧ (y % 100 ≠ 0 ∨ y % 400 = 0) := by
  simp only [isLeapYear, Bool.and_eq_true, Bool.or_eq_true, beq_iff_eq, bne_iff_ne]
  rfl

theorem yearStart_succ (y : Int) :
    yearStart (y + 1) = yearStart y + 365 + (if isLeapYear (y + 1) then 1 else 0) := by
  unfold yearStart
  split
  · rename_i h
    have := (isLeapYear_iff _).mp h
    omega
  · rename_i h
    have := mt (isLeapYear_iff _).mpr h
    omega

theorem yearStart_mono {y z : Int} (h : y ≤ z) : yearStart y ≤ yearStart z := by
  unfold yearStart
  omega

def marchYear (d : Date) : Int := if d.month ≤ 2 then d.year - 1 else d.year

/-- The days of a year that starts in March before a month of it. -/
def monthStart (m : Nat) : Nat := (153 * ((m + 9) % 12) + 2) / 5

def marchDay (d : Date) : Nat := monthStart d.month + d.day - 1

theorem number_eq (d : Date) :
    d.number = yearStart d.marchYear + d.marchDay - 719468 := by
  have hera : ∀ y : Int, y.fdiv 400 * 146097 + ((y - y.fdiv 400 * 400) * 365 +
      (y - y.fdiv 400 * 400).fdiv 4 - (y - y.fdiv 400 * 400).fdiv 100) = yearStart y := by
    intro y
    rw [Int.fdiv_eq_ediv_of_nonneg y (by decide), Int.fdiv_eq_ediv_of_nonneg _ (by decide),
      Int.fdiv_eq_ediv_of_nonneg _ (by decide)]
    unfold yearStart
    omega
  rw [← hera]
  unfold number dayNumber marchYear marchDay monthStart
  dsimp only
  omega

/-! ## The next day -/

theorem daysInMonth_within (y : Int) (m : Nat) : 1 ≤ daysInMonth y m ∧ daysInMonth y m ≤ 31 := by
  unfold daysInMonth
  split
  · split <;> decide
  · decide
  · decide
  · decide
  · decide
  · decide

theorem Valid.next {d : Date} (h : d.Valid) : d.next.Valid := by
  unfold Date.next
  split
  · rename_i hday
    exact ⟨h.month_pos, h.month_le, Nat.le_add_left .., hday⟩
  · split
    · rename_i hmonth
      exact ⟨Nat.le_add_left .., hmonth, Nat.le_refl 1, (daysInMonth_within ..).1⟩
    · exact ⟨Nat.le_refl 1, Nat.le_add_left 1 11, Nat.le_refl 1, (daysInMonth_within ..).1⟩

/-- Every month ends where the next one starts, counted from March; only February is of its own. -/
theorem monthStart_add_daysInMonth (y : Int) {m : Nat} (hpos : 1 ≤ m) (hle : m ≤ 12)
    (hm : m ≠ 2) : monthStart m + daysInMonth y m = (153 * ((m + 9) % 12 + 1) + 2) / 5 := by
  interval_cases m
  · rfl
  · exact absurd rfl hm
  all_goals rfl

theorem daysInMonth_two (y : Int) :
    (daysInMonth y 2 : Int) = 28 + if isLeapYear y then 1 else 0 := by
  simp only [daysInMonth]
  split <;> rfl

theorem number_next {d : Date} (h : d.Valid) : d.next.number = d.number + 1 := by
  obtain ⟨y, m, k⟩ := d
  obtain ⟨hpos, hle, hday, hdays⟩ := h
  dsimp only at hpos hle hday hdays
  rw [number_eq, number_eq, Date.next]
  dsimp only
  by_cases hlt : k < daysInMonth y m
  · rw [if_pos hlt]
    simp only [marchYear, marchDay]
    omega
  have hk : k = daysInMonth y m := by omega
  rw [if_neg hlt]
  by_cases hlast : m < 12
  · rw [if_pos hlast]
    by_cases hm : m = 2
    · subst hm
      have hyear := yearStart_succ (y - 1)
      rw [Int.sub_add_cancel] at hyear
      have hfebruary : marchYear ⟨y, 2, k⟩ = y - 1 := rfl
      have hmarch : marchYear ⟨y, 2 + 1, 1⟩ = y := rfl
      have hdays := daysInMonth_two y
      rw [hfebruary, hmarch, hyear]
      simp only [marchDay, monthStart]
      omega
    · have hyear : (if m + 1 ≤ 2 then y - 1 else y) = if m ≤ 2 then y - 1 else y := by
        split <;> split <;> omega
      have hends := monthStart_add_daysInMonth y hpos hle hm
      have hnext : (m + 1 + 9) % 12 = (m + 9) % 12 + 1 := by omega
      have hstart : monthStart (m + 1) = monthStart m + daysInMonth y m := by
        rw [hends, monthStart, hnext]
      simp only [marchYear, marchDay, hyear]
      omega
  · have hm : m = 12 := by omega
    subst hm
    have hjanuary : marchYear ⟨y + 1, 1, 1⟩ = y := Int.add_sub_cancel y 1
    have hdecember : marchYear ⟨y, 12, k⟩ = y := rfl
    have hdays : daysInMonth y 12 = 31 := rfl
    rw [if_neg hlast, hjanuary, hdecember]
    simp only [marchDay, monthStart]
    omega

/-! ## One date for each day -/

theorem marchDay_lt {d : Date} (h : d.Valid) :
    yearStart d.marchYear + d.marchDay < yearStart (d.marchYear + 1) := by
  obtain ⟨y, m, k⟩ := d
  obtain ⟨hpos, hle, hday, hdays⟩ := h
  dsimp only at hpos hle hday hdays
  -- A February ends the year that started in March of the year before.
  by_cases hm : m = 2
  · subst hm
    have hfebruary : marchYear ⟨y, 2, k⟩ = y - 1 := rfl
    have hyear := yearStart_succ (y - 1)
    rw [Int.sub_add_cancel] at hyear
    have hlength := daysInMonth_two y
    rw [hfebruary, Int.sub_add_cancel, hyear]
    simp only [marchDay, monthStart]
    omega
  · have hyear := yearStart_succ (marchYear ⟨y, m, k⟩)
    have hends := monthStart_add_daysInMonth y hpos hle hm
    simp only [marchDay]
    omega

theorem marchDay_div {d : Date} (h : d.Valid) :
    (5 * d.marchDay + 2) / 153 = (d.month + 9) % 12 := by
  obtain ⟨y, m, k⟩ := d
  obtain ⟨hpos, hle, hday, hdays⟩ := h
  dsimp only at hpos hle hday hdays
  simp only [marchDay]
  by_cases hm : m = 2
  · subst hm
    have hlength := daysInMonth_two y
    simp only [monthStart]
    omega
  · have hends := monthStart_add_daysInMonth y hpos hle hm
    simp only [monthStart] at hends ⊢
    omega

/-- A date is known by its number. -/
theorem number_inj {d e : Date} (hd : d.Valid) (he : e.Valid) (h : d.number = e.number) :
    d = e := by
  rw [number_eq, number_eq] at h
  have hdlt := marchDay_lt hd
  have helt := marchDay_lt he
  have hyear : d.marchYear = e.marchYear := by
    rcases Int.lt_trichotomy d.marchYear e.marchYear with hlt | heq | hgt
    · have hle := yearStart_mono (Int.add_one_le_of_lt hlt)
      omega
    · exact heq
    · have hle := yearStart_mono (Int.add_one_le_of_lt hgt)
      omega
  have hday : d.marchDay = e.marchDay := by
    rw [hyear] at h
    omega
  have hmonths : (d.month + 9) % 12 = (e.month + 9) % 12 := by
    rw [← marchDay_div hd, ← marchDay_div he, hday]
  obtain ⟨y, m, k⟩ := d
  obtain ⟨z, n, l⟩ := e
  obtain ⟨hpos, hle, hk, -⟩ := hd
  obtain ⟨hpos', hle', hl, -⟩ := he
  dsimp only at hpos hle hk hpos' hle' hl hmonths
  obtain rfl : m = n := by omega
  have hkl : k = l := by
    simp only [marchDay] at hday
    omega
  have hyz : y = z := by
    simp only [marchYear] at hyear
    split at hyear <;> omega
  rw [hkl, hyz]

/-! ## The date of a day -/

/-- The date of a day of a year that starts in March. -/
def ofYearDay (y : Int) (d : Nat) : Date :=
  let m := (5 * d + 2) / 153
  let month := if m < 10 then m + 3 else m - 9
  ⟨if month ≤ 2 then y + 1 else y, month, d - (153 * m + 2) / 5 + 1⟩

/-- An era is split into centuries, spans of four years, years and days; the last century and the
last year of a span may be a day longer. -/
theorem exists_spans {n : Nat} (h : n < 146097) : ∃ c q s d,
    n = 36524 * c + 1461 * q + 365 * s + d ∧ c ≤ 3 ∧ q ≤ 24 ∧ s ≤ 3 ∧ d ≤ 365 ∧
      (d = 365 → s = 3 ∧ (q = 24 → c = 3)) := by
  refine ⟨min (n / 36524) 3, (n - 36524 * min (n / 36524) 3) / 1461,
    min ((n - 36524 * min (n / 36524) 3) % 1461 / 365) 3,
    (n - 36524 * min (n / 36524) 3) % 1461 -
      365 * min ((n - 36524 * min (n / 36524) 3) % 1461 / 365) 3, ?_⟩
  omega

theorem yearOfEra_eq {n c q s d : Nat} (h : n = 36524 * c + 1461 * q + 365 * s + d)
    (hc : c ≤ 3) (hq : q ≤ 24) (hs : s ≤ 3) (hd : d ≤ 365)
    (hlong : d = 365 → s = 3 ∧ (q = 24 → c = 3)) :
    (n - n / 1460 + n / 36524 - n / 146096) / 365 = 100 * c + 4 * q + s := by
  -- Only in the last day of an era do the last two divisions find another century and another era.
  by_cases hlast : n = 146096
  · subst hlast
    omega
  · have hcentury : n / 36524 = c := by omega
    have hera : n / 146096 = 0 := by omega
    have hspans : n / 1460 = 25 * c + q + (24 * c + q + 365 * s + d) / 1460 := by omega
    rw [hspans, hcentury, hera]
    omega

theorem yearStart_spans (era : Int) {c q s : Nat} (hc : c ≤ 3) (hq : q ≤ 24) (hs : s ≤ 3) :
    yearStart ((100 * c + 4 * q + s : Nat) + era * 400) =
      era * 146097 + 36524 * c + 1461 * q + 365 * s := by
  have hfours : (((100 * c + 4 * q + s : Nat) : Int) + era * 400) / 4 = 25 * c + q + era * 100 := by
    omega
  have hhundreds : (((100 * c + 4 * q + s : Nat) : Int) + era * 400) / 100 = c + era * 4 := by
    omega
  have heras : (((100 * c + 4 * q + s : Nat) : Int) + era * 400) / 400 = era := by
    omega
  rw [yearStart, hfours, hhundreds, heras]
  push_cast
  ring

theorem exists_yearDay (n : Int) : ∃ (y : Int) (d : Nat), n + 719468 = yearStart y + d ∧ d ≤ 365 ∧
    (d = 365 → isLeapYear (y + 1) = true) ∧ ofNumber n = ofYearDay y d := by
  obtain ⟨era, rest, hsum, hrest⟩ : ∃ (era : Int) (rest : Nat), n + 719468 = era * 146097 + rest ∧
      rest < 146097 := ⟨(n + 719468) / 146097, ((n + 719468) % 146097).toNat, by omega, by omega⟩
  have hera : Int.fdiv (n + 719468) 146097 = era := by
    rw [Int.fdiv_eq_ediv_of_nonneg _ (by decide)]
    omega
  have hofEra : (n + 719468 - era * 146097).toNat = rest := by omega
  obtain ⟨c, q, s, d, hspans, hc, hq, hs, hd, hlong⟩ := exists_spans hrest
  have hfours : (100 * c + 4 * q + s) / 4 = 25 * c + q := by omega
  have hhundreds : (100 * c + 4 * q + s) / 100 = c := by omega
  have hday : rest - (365 * (100 * c + 4 * q + s) + (25 * c + q) - c) = d := by omega
  refine ⟨(100 * c + 4 * q + s : Nat) + era * 400, d, ?_, hd, ?_, ?_⟩
  · rw [yearStart_spans era hc hq hs, hsum, hspans]
    push_cast
    ring
  · intro hfull
    rw [isLeapYear_iff]
    have := hlong hfull
    omega
  · have hyear := yearOfEra_eq hspans hc hq hs hd hlong
    simp only [ofNumber, civil, hera, hofEra, hyear, hfours, hhundreds, hday, ofYearDay]

/-- The date of a day of a year is in the calendar, and is that of no other day or year. -/
theorem ofYearDay_spec (y : Int) {d : Nat} (hd : d ≤ 365)
    (hleap : d = 365 → isLeapYear (y + 1) = true) :
    (ofYearDay y d).Valid ∧ (ofYearDay y d).marchYear = y ∧ (ofYearDay y d).marchDay = d := by
  obtain ⟨m, hm⟩ : ∃ m, m = (5 * d + 2) / 153 := ⟨_, rfl⟩
  obtain ⟨month, hmonth⟩ : ∃ month, month = if m < 10 then m + 3 else m - 9 := ⟨_, rfl⟩
  have hdate : ofYearDay y d =
      ⟨if month ≤ 2 then y + 1 else y, month, d - (153 * m + 2) / 5 + 1⟩ := by
    simp only [ofYearDay, ← hm, ← hmonth]
  have hcases : m < 10 ∧ month = m + 3 ∨ 10 ≤ m ∧ month = m - 9 := by
    split at hmonth <;> omega
  have hpos : 1 ≤ month := by omega
  have hle : month ≤ 12 := by omega
  have hback : (month + 9) % 12 = m := by omega
  rw [hdate]
  refine ⟨⟨hpos, hle, Nat.le_add_left .., ?_⟩, ?_, ?_⟩
  · by_cases hfebruary : month = 2
    · subst hfebruary
      have hlength := daysInMonth_two (y + 1)
      by_cases hfull : d = 365
      · rw [hleap hfull, if_pos rfl] at hlength
        simp only [if_pos (Nat.le_refl 2)]
        omega
      · simp only [if_pos (Nat.le_refl 2)]
        omega
    · have hends := monthStart_add_daysInMonth (if month ≤ 2 then y + 1 else y) hpos hle hfebruary
      rw [monthStart, hback] at hends
      dsimp only
      omega
  · simp only [marchYear]
    split <;> omega
  · simp only [marchDay, monthStart, hback]
    omega

/-- The date of a day is in the calendar and has the number of that day. -/
theorem ofNumber_spec (n : Int) : (ofNumber n).Valid ∧ (ofNumber n).number = n := by
  obtain ⟨y, d, hsum, hd, hleap, hdate⟩ := exists_yearDay n
  obtain ⟨hvalid, hyear, hday⟩ := ofYearDay_spec y hd hleap
  rw [hdate]
  refine ⟨hvalid, ?_⟩
  rw [number_eq, hyear, hday]
  omega

theorem ofNumber_number {d : Date} (h : d.Valid) : ofNumber d.number = d :=
  number_inj (ofNumber_spec _).1 h (ofNumber_spec _).2

theorem next_ofNumber (n : Int) : (ofNumber n).next = ofNumber (n + 1) := by
  obtain ⟨hvalid, hnumber⟩ := ofNumber_spec n
  have hnext := number_next hvalid
  rw [hnumber] at hnext
  rw [← hnext, ofNumber_number hvalid.next]

/-! ## Counting -/

theorem counted_ofNumber (n : Int) : Counted (ofNumber n) n := by
  induction n using Int.induction_on with
  | zero => exact .epoch
  | succ n ih =>
      rw [← next_ofNumber]
      exact .next ih
  | pred n ih =>
      refine .back (ofNumber_spec _).1 ?_
      rw [next_ofNumber, Int.sub_add_cancel]
      exact ih

/-- The day number of a date is the count of days up to it. -/
theorem counted_iff {d : Date} {n : Int} : Counted d n ↔ d.Valid ∧ d.number = n := by
  constructor
  · intro h
    induction h with
    | epoch => exact ⟨(ofNumber_spec 0).1, (ofNumber_spec 0).2⟩
    | next _ ih => exact ⟨ih.1.next, by rw [number_next ih.1, ih.2]⟩
    | back hvalid _ ih =>
        have hnext := number_next hvalid
        exact ⟨hvalid, by omega⟩
  · rintro ⟨hvalid, rfl⟩
    have h := counted_ofNumber d.number
    rwa [ofNumber_number hvalid] at h

/-! ## Years -/

/-- January starts 306 days after March of the year before. -/
theorem number_bounds {d : Date} (h : d.Valid) :
    yearStart (d.year - 1) + 306 ≤ d.number + 719468 ∧
      d.number + 719468 < yearStart d.year + 306 := by
  have hlt := marchDay_lt h
  rw [number_eq]
  obtain ⟨y, m, k⟩ := d
  obtain ⟨hpos, hle, hday, hdays⟩ := h
  dsimp only at hpos hle hday hdays
  by_cases hm : m ≤ 2
  · simp only [marchYear, if_pos hm, Int.sub_add_cancel] at hlt ⊢
    simp only [marchDay, monthStart] at hlt ⊢
    omega
  · have hends := monthStart_add_daysInMonth y hpos hle (by omega)
    have hyear := yearStart_succ (y - 1)
    rw [Int.sub_add_cancel] at hyear
    simp only [marchYear, if_neg hm, marchDay, monthStart] at hends ⊢
    omega

/-- A date of an earlier year has a smaller number. -/
theorem number_lt_of_year_lt {d e : Date} (hd : d.Valid) (he : e.Valid) (h : d.year < e.year) :
    d.number < e.number := by
  have hbefore := (number_bounds hd).2
  have hafter := (number_bounds he).1
  have hyears := yearStart_mono (show d.year ≤ e.year - 1 by omega)
  omega

end Date
end StatusRelay.Instant
