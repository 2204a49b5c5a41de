import StatusRelay.Proofs.Calendar
import StatusRelay.Proofs.Numerals

/-!
# Texts of instants

A text writes a stamp: a date, a time of day, a fraction and an offset from UTC. A stamp names an
instant, in which its date is counted day by day, its offset is taken off and its fraction is kept
to the nanosecond. The reader finds exactly the instants that a text names by way of a stamp, so
that the text written for an instant, which is that of its stamp in UTC, is read back as the
instant itself.
-/
namespace StatusRelay

namespace Instant

open Text

/-! ## The parts of a text -/

/-- A number of one or two digits, with blanks before it. -/
inductive FieldText : List Char → Nat → Prop
  | mk {blanks digits : List Char} {n : Nat} : (∀ c ∈ blanks, isBlank c = true) →
      IsNumber digits n → digits.length ≤ 2 → FieldText (blanks ++ digits) n

/-- A mark with blanks before it. -/
inductive MarkText (mark : Char) : List Char → Prop
  | mk {blanks : List Char} : (∀ c ∈ blanks, isBlank c = true) → MarkText mark (blanks ++ [mark])

/-- A year of up to four digits, or signed and of any number of digits, with blanks before it. -/
inductive YearText : List Char → Int → Prop
  | plain {blanks digits : List Char} {n : Nat} : (∀ c ∈ blanks, isBlank c = true) →
      IsNumber digits n → digits.length ≤ 4 → YearText (blanks ++ digits) n
  | after {blanks digits : List Char} {n : Nat} : (∀ c ∈ blanks, isBlank c = true) →
      IsNumber digits n → YearText (blanks ++ '+' :: digits) n
  | before {blanks digits : List Char} {n : Nat} : (∀ c ∈ blanks, isBlank c = true) →
      IsNumber digits n → YearText (blanks ++ '-' :: digits) (-(n : Int))

/-- A fraction of a second in whole nanoseconds; what is less than a nanosecond is dropped. -/
inductive FractionText : List Char → Nat → Prop
  | absent : FractionText [] 0
  | point {digits : List Char} {n : Nat} : IsNumber digits n →
      FractionText ('.' :: digits) (n * 10 ^ 9 / 10 ^ digits.length)

/-- Two digits of hours and two of minutes, perhaps with colons or blanks between them, as
seconds. -/
inductive ClockText : List Char → Nat → Prop
  | mk {h i m n : Char} {gap : List Char} {hours minutes : Nat} : IsNumber [h, i] hours →
      (∀ c ∈ gap, isColonOrBlank c = true) → IsNumber [m, n] minutes → minutes < 60 →
      ClockText (h :: i :: gap ++ [m, n]) (hours * 3600 + minutes * 60)

/-- An offset from UTC in seconds. -/
inductive OffsetText : List Char → Int → Prop
  | zulu {z : Char} : z = 'Z' ∨ z = 'z' → OffsetText [z] 0
  | utc {u t c : Char} : u.toLower = 'u' → t.toLower = 't' → c.toLower = 'c' →
      OffsetText [u, t, c] 0
  | east {clock : List Char} {n : Nat} : ClockText clock n → OffsetText ('+' :: clock) n
  | west {sign : Char} {clock : List Char} {n : Nat} : sign = '-' ∨ sign = '\u2212' →
      ClockText clock n → OffsetText (sign :: clock) (-(n : Int))

/-- A date, a time of day and an offset as they are written. -/
structure Stamp where
  year : Int
  month : Nat
  day : Nat
  hour : Nat
  minute : Nat
  second : Nat
  nanos : Nat
  offset : Int
  deriving DecidableEq, Repr

/-- The text writes the stamp. -/
inductive Stamp.WrittenAs (s : Stamp) : List Char → Prop
  | mk {year dash month dash' day hour colon minute colon' second fraction blanks offset
        blanks' : List Char} {separator : Char} :
      YearText year s.year → MarkText '-' dash → FieldText month s.month → MarkText '-' dash' →
      FieldText day s.day → separator = 't' ∨ separator = 'T' ∨ separator = ' ' →
      FieldText hour s.hour → MarkText ':' colon → FieldText minute s.minute →
      MarkText ':' colon' → FieldText second s.second → FractionText fraction s.nanos →
      (∀ c ∈ blanks, isBlank c = true) → OffsetText offset s.offset →
      (∀ c ∈ blanks', isBlank c = true) →
      s.WrittenAs (year ++ (dash ++ (month ++ (dash' ++ (day ++ separator :: (hour ++ (colon ++
        (minute ++ (colon' ++ (second ++ (fraction ++ (blanks ++ (offset ++ blanks')))))))))))))

/-- The seconds that there are, from the start of the first year to the end of the last. -/
def InRange (seconds : Int) : Prop :=
  dayNumber firstYear 1 1 * 86400 ≤ seconds ∧ seconds < (dayNumber lastYear 12 31 + 1) * 86400

/-- The stamp is of this instant. In a leap second the clock shows a second of 60; it is the second
before it, with a fraction that is longer by a whole second. -/
structure Stamp.IsOf (s : Stamp) (t : Instant) : Prop where
  year_ge : firstYear ≤ s.year
  year_le : s.year ≤ lastYear
  hour_le : s.hour ≤ 23
  minute_le : s.minute ≤ 59
  offset_lt : s.offset.natAbs < 86400
  day : ∃ n, Date.Counted ⟨s.year, s.month, s.day⟩ n ∧
    t.seconds + s.offset = n * 86400 + s.hour * 3600 + s.minute * 60 + min s.second 59
  second : s.second ≤ 59 ∧ t.nanos = s.nanos ∨ s.second = 60 ∧ t.nanos = s.nanos + 1000000000
  inRange : InRange t.seconds

/-- The text names the instant. -/
def Named (text : String) (t : Instant) : Prop := ∃ s : Stamp, s.WrittenAs text.toList ∧ s.IsOf t

/-! ## Reading the parts -/

section Readers

variable {cs rest : List Char} {n : Nat}

theorem readNumber?_sound {width : Nat} (h : readNumber? width cs = some (n, rest)) :
    ∃ digits, cs = digits ++ rest ∧ IsNumber digits n ∧ digits.length ≤ width := by
  unfold readNumber? at h
  have hprefix : (cs.take width).takeWhile isDigit <+: cs :=
    (List.takeWhile_prefix isDigit).trans (List.take_prefix width cs)
  have hlength : ((cs.take width).takeWhile isDigit).length ≤ width :=
    (List.takeWhile_prefix isDigit).length_le.trans (List.length_take_le width cs)
  have hdigits : ∀ c ∈ (cs.take width).takeWhile isDigit, isDigit c = true :=
    fun _ => List.mem_takeWhile_imp
  dsimp only at h
  split at h
  · cases h
  · rename_i hne
    simp only [Option.some.injEq, Prod.mk.injEq] at h
    obtain ⟨rfl, rfl⟩ := h
    exact ⟨_, (List.prefix_iff_eq_append.mp hprefix).symm,
      ⟨fun hnil => hne (List.isEmpty_iff.mpr hnil), hdigits, rfl⟩, hlength⟩

theorem readNumber?_complete {width : Nat} {digits : List Char} (hd : IsNumber digits n)
    (hw : digits.length ≤ width) (hrest : ∀ c ∈ rest.head?, isDigit c = false) :
    readNumber? width (digits ++ rest) = some (n, rest) := by
  have htake : (digits ++ rest).take width = digits ++ rest.take (width - digits.length) := by
    rw [List.take_append, List.take_of_length_le hw]
  have hstop : (rest.take (width - digits.length)).takeWhile isDigit = [] := by
    cases rest with
    | nil => simp
    | cons c rest =>
        cases width - digits.length with
        | zero => rfl
        | succ k => simp [hrest c rfl]
  have hrow : ((digits ++ rest).take width).takeWhile isDigit = digits := by
    rw [htake, List.takeWhile_append_of_pos hd.digits, hstop, List.append_nil]
  simp [readNumber?, hrow, hd.nonempty, hd.value]

theorem readField?_sound (h : readField? cs = some (n, rest)) :
    ∃ part, cs = part ++ rest ∧ FieldText part n := by
  obtain ⟨blanks, hcs, hblanks⟩ := exists_blanks cs
  obtain ⟨digits, htrim, hnumber, hlength⟩ := readNumber?_sound h
  refine ⟨blanks ++ digits, ?_, .mk hblanks hnumber hlength⟩
  rw [List.append_assoc, ← htrim]
  exact hcs

theorem FieldText.read {part : List Char} (h : FieldText part n)
    (hrest : ∀ c ∈ rest.head?, isDigit c = false) : readField? (part ++ rest) = some (n, rest) := by
  cases h with
  | mk hblanks hnumber hlength =>
      rw [readField?, List.append_assoc, trimStart_append hblanks,
        trimStart_of_head (hnumber.head rest)]
      exact readNumber?_complete hnumber hlength hrest

theorem readMark?_sound {mark : Char} (h : readMark? mark cs = some rest) :
    ∃ part, cs = part ++ rest ∧ MarkText mark part := by
  obtain ⟨blanks, hcs, hblanks⟩ := exists_blanks cs
  unfold readMark? at h
  split at h
  · rename_i c tail htrim
    split at h
    · rename_i hc
      cases h
      refine ⟨blanks ++ [mark], ?_, .mk hblanks⟩
      rw [List.append_assoc, List.singleton_append, ← hc, ← htrim]
      exact hcs
    · cases h
  · cases h

theorem MarkText.read {mark : Char} {part : List Char} (h : MarkText mark part)
    (hmark : isBlank mark = false) (rest : List Char) :
    readMark? mark (part ++ rest) = some rest := by
  cases h with
  | mk hblanks =>
      rw [readMark?, List.append_assoc, trimStart_append hblanks,
        trimStart_of_head (by simpa using hmark)]
      simp

theorem MarkText.head {mark : Char} {part : List Char} (h : MarkText mark part)
    (hmark : isDigit mark = false) (rest : List Char) :
    ∀ c ∈ (part ++ rest).head?, isDigit c = false := by
  cases h with
  | mk hblanks =>
      rw [List.append_assoc]
      exact head_append (fun c hc => isDigit_of_isBlank (hblanks c hc)) (by simpa using hmark)

theorem readYear?_sound {year : Int} (h : readYear? cs = some (year, rest)) :
    ∃ part, cs = part ++ rest ∧ YearText part year := by
  obtain ⟨blanks, hcs, hblanks⟩ := exists_blanks cs
  unfold readYear? at h
  split at h
  · rename_i tail htrim
    simp only [Option.map_eq_some_iff, Prod.mk.injEq, Prod.exists] at h
    obtain ⟨k, _, hread, rfl, rfl⟩ := h
    obtain ⟨digits, rfl, hnumber, -⟩ := readNumber?_sound hread
    refine ⟨blanks ++ '-' :: digits, ?_, .before hblanks hnumber⟩
    rw [List.append_assoc, List.cons_append, ← htrim]
    exact hcs
  · rename_i tail htrim
    simp only [Option.map_eq_some_iff, Prod.mk.injEq, Prod.exists] at h
    obtain ⟨k, _, hread, rfl, rfl⟩ := h
    obtain ⟨digits, rfl, hnumber, -⟩ := readNumber?_sound hread
    refine ⟨blanks ++ '+' :: digits, ?_, .after hblanks hnumber⟩
    rw [List.append_assoc, List.cons_append, ← htrim]
    exact hcs
  · simp only [Option.map_eq_some_iff, Prod.mk.injEq, Prod.exists] at h
    obtain ⟨k, _, hread, rfl, rfl⟩ := h
    obtain ⟨digits, htrim, hnumber, hlength⟩ := readNumber?_sound hread
    refine ⟨blanks ++ digits, ?_, .plain hblanks hnumber hlength⟩
    rw [List.append_assoc, ← htrim]
    exact hcs

theorem YearText.read {part : List Char} {year : Int} (h : YearText part year)
    (hrest : ∀ c ∈ rest.head?, isDigit c = false) :
    readYear? (part ++ rest) = some (year, rest) := by
  cases h with
  | plain hblanks hnumber hlength =>
      rw [readYear?, List.append_assoc, trimStart_append hblanks,
        trimStart_of_head (hnumber.head rest)]
      split
      · rename_i tail htail
        exact absurd (hnumber.first htail) (by decide)
      · rename_i tail htail
        exact absurd (hnumber.first htail) (by decide)
      · rw [readNumber?_complete hnumber hlength hrest]
        rfl
  | @after blanks digits _ hblanks hnumber | @before blanks digits _ hblanks hnumber =>
      have hlength : digits.length ≤ (digits ++ rest).length := by simp
      rw [readYear?, List.append_assoc, trimStart_append hblanks, List.cons_append,
        trimStart_of_head (by simp; decide)]
      simp only [readNumber?_complete hnumber hlength hrest, Option.map_some]

theorem readSeparator?_eq_some_iff : readSeparator? cs = some rest ↔
    ∃ c, cs = c :: rest ∧ (c = 't' ∨ c = 'T' ∨ c = ' ') := by
  cases cs with
  | nil => simp [readSeparator?]
  | cons c cs =>
      by_cases hc : c = 't' ∨ c = 'T' ∨ c = ' '
      · simp [readSeparator?, hc]
      · simp [readSeparator?, hc]

/-- Nine digits of a fraction are as many as there are nanoseconds for. -/
theorem nanos_eq {digits : List Char} (h : ∀ c ∈ digits, isDigit c = true) :
    digitsValue (digits.take 9) * Nat.pow 10 (9 - (digits.take 9).length) =
      digitsValue digits * 10 ^ 9 / 10 ^ digits.length := by
  rcases Nat.le_total digits.length 9 with hle | hge
  · rw [List.take_of_length_le hle, Nat.mul_div_assoc _ (pow_dvd_pow 10 hle),
      Nat.pow_div hle (by decide)]
    rfl
  · have hlength : (digits.take 9).length = 9 := List.length_take_of_le hge
    have hdropped : digitsValue (digits.drop 9) < 10 ^ (digits.drop 9).length :=
      digitsValue_lt fun c hc => h c (List.mem_of_mem_drop hc)
    have hvalue := digitsValue_append (digits.take 9) (digits.drop 9)
    have hsum : digits.length = (digits.drop 9).length + 9 := by
      rw [List.length_drop]
      omega
    rw [List.take_append_drop] at hvalue
    rw [hlength, hvalue, hsum, pow_add, Nat.mul_div_mul_right _ _ (by decide),
      Nat.mul_add_div (by positivity), Nat.div_eq_of_lt hdropped, Nat.add_zero]
    exact Nat.mul_one _

theorem readFraction?_sound (h : readFraction? cs = some (n, rest)) :
    ∃ part, cs = part ++ rest ∧ FractionText part n := by
  unfold readFraction? at h
  split at h
  · rename_i tail
    dsimp only at h
    split at h
    · cases h
    · rename_i hne
      have hdigits : ∀ c ∈ tail.takeWhile isDigit, isDigit c = true :=
        fun _ => List.mem_takeWhile_imp
      simp only [Option.some.injEq, Prod.mk.injEq, nanos_eq hdigits] at h
      obtain ⟨rfl, rfl⟩ := h
      refine ⟨'.' :: tail.takeWhile isDigit, ?_,
        .point ⟨fun hnil => hne (List.isEmpty_iff.mpr hnil), hdigits, rfl⟩⟩
      rw [List.cons_append, List.takeWhile_append_dropWhile]
  · cases h
    exact ⟨[], rfl, .absent⟩

theorem FractionText.head {part : List Char} (h : FractionText part n)
    (hrest : ∀ c ∈ rest.head?, isDigit c = false) :
    ∀ c ∈ (part ++ rest).head?, isDigit c = false := by
  cases h with
  | absent => exact hrest
  | point =>
      rintro c ⟨⟩
      rfl

theorem FractionText.read {part : List Char} (h : FractionText part n)
    (hrest : ∀ c ∈ rest.head?, isDigit c = false ∧ c ≠ '.') :
    readFraction? (part ++ rest) = some (n, rest) := by
  cases h with
  | absent =>
      unfold readFraction?
      split
      · rename_i tail hdot
        have hhead : '.' ∈ rest.head? := by
          rw [List.nil_append] at hdot
          rw [hdot]
          rfl
        exact absurd rfl (hrest '.' hhead).2
      · rfl
  | @point digits k hnumber =>
      have hstop : rest.takeWhile isDigit = [] ∧ rest.dropWhile isDigit = rest := by
        cases rest with
        | nil => exact ⟨rfl, rfl⟩
        | cons c rest => simp [(hrest c rfl).1]
      have htake : (digits ++ rest).takeWhile isDigit = digits := by
        rw [List.takeWhile_append_of_pos hnumber.digits, hstop.1, List.append_nil]
      have hdrop : (digits ++ rest).dropWhile isDigit = rest := by
        rw [List.dropWhile_append_of_pos hnumber.digits, hstop.2]
      simp only [List.cons_append, readFraction?, htake, hdrop, nanos_eq hnumber.digits,
        hnumber.value]
      simp [hnumber.nonempty]

theorem digitsValue_pair_lt_iff {c d : Char} (hc : isDigit c = true) (hd : isDigit d = true) :
    digitsValue [c, d] < 60 ↔ c < '6' := by
  have hpair : digitsValue [c, d] = 10 * digitValue c + digitValue d := by
    simp [digitsValue, Nat.mul_comm]
  have hlt := digitValue_lt hd
  have hsix : c < '6' ↔ c.toNat < 54 := Iff.rfl
  simp only [isDigit, Bool.and_eq_true, decide_eq_true_eq] at hc
  have hzero : 48 ≤ c.toNat := hc.1
  have hdigit : digitValue c = c.toNat - 48 := rfl
  rw [hpair, hsix]
  omega

theorem isNumber_pair {c d : Char} (hc : isDigit c = true) (hd : isDigit d = true) :
    IsNumber [c, d] (digitsValue [c, d]) :=
  ⟨List.cons_ne_nil c [d], by simp [hc, hd], rfl⟩

theorem readOffsetDigits?_sound (h : readOffsetDigits? cs = some (n, rest)) :
    ∃ part, cs = part ++ rest ∧ ClockText part n := by
  unfold readOffsetDigits? at h
  split at h
  · rename_i hour hour' tail
    split at h
    · rename_i hhours
      split at h
      · rename_i minute minute' tail' hgap
        split at h
        · rename_i hminutes
          simp only [Option.some.injEq, Prod.mk.injEq] at h
          obtain ⟨rfl, rfl⟩ := h
          simp only [Bool.and_eq_true, decide_eq_true_eq] at hhours hminutes
          obtain ⟨⟨hm, hm'⟩, hlt⟩ := hminutes
          refine ⟨hour :: hour' :: tail.takeWhile isColonOrBlank ++ [minute, minute'], ?_,
            .mk (isNumber_pair hhours.1 hhours.2) (fun _ => List.mem_takeWhile_imp)
              (isNumber_pair hm hm') ((digitsValue_pair_lt_iff hm hm').mpr hlt)⟩
          have htail := List.takeWhile_append_dropWhile (p := isColonOrBlank) (l := tail)
          rw [hgap] at htail
          simp [htail]
        · cases h
      · cases h
    · cases h
  · cases h

theorem ClockText.read {part : List Char} (h : ClockText part n) (rest : List Char) :
    readOffsetDigits? (part ++ rest) = some (n, rest) := by
  cases h with
  | @mk hour hour' minute minute' gap hours minutes hhours hgap hminutes hlt =>
      have hh := hhours.digits hour (by simp)
      have hh' := hhours.digits hour' (by simp)
      have hm := hminutes.digits minute (by simp)
      have hm' := hminutes.digits minute' (by simp)
      have hsix : minute < '6' := by
        rw [← digitsValue_pair_lt_iff hm hm', hminutes.value]
        exact hlt
      have hstop : isColonOrBlank minute = false := by
        have hcolon : minute ≠ ':' := by
          rintro rfl
          cases hm
        simp [isColonOrBlank, hcolon, isBlank_of_isDigit hm]
      have hdrop : (gap ++ minute :: minute' :: rest).dropWhile isColonOrBlank =
          minute :: minute' :: rest := by
        rw [List.dropWhile_append_of_pos hgap]
        simp [hstop]
      simp [readOffsetDigits?, hh, hh', hm, hm', hsix, hdrop, hhours.value, hminutes.value]

theorem readOffset?_sound {offset : Int} (h : readOffset? cs = some (offset, rest)) :
    ∃ part, cs = part ++ rest ∧ OffsetText part offset := by
  unfold readOffset? at h
  split at h
  · cases h
    exact ⟨['Z'], rfl, .zulu (Or.inl rfl)⟩
  · cases h
    exact ⟨['z'], rfl, .zulu (Or.inr rfl)⟩
  · simp only [Option.map_eq_some_iff, Prod.mk.injEq, Prod.exists] at h
    obtain ⟨k, _, hread, rfl, rfl⟩ := h
    obtain ⟨clock, rfl, hclock⟩ := readOffsetDigits?_sound hread
    exact ⟨'+' :: clock, rfl, .east hclock⟩
  · simp only [Option.map_eq_some_iff, Prod.mk.injEq, Prod.exists] at h
    obtain ⟨k, _, hread, rfl, rfl⟩ := h
    obtain ⟨clock, rfl, hclock⟩ := readOffsetDigits?_sound hread
    exact ⟨'-' :: clock, rfl, .west (Or.inl rfl) hclock⟩
  · simp only [Option.map_eq_some_iff, Prod.mk.injEq, Prod.exists] at h
    obtain ⟨k, _, hread, rfl, rfl⟩ := h
    obtain ⟨clock, rfl, hclock⟩ := readOffsetDigits?_sound hread
    exact ⟨'\u2212' :: clock, rfl, .west (Or.inr rfl) hclock⟩
  · rename_i u t c tail _ _ _ _ _
    split at h
    · rename_i hletters
      cases h
      exact ⟨[u, t, c], rfl, .utc hletters.1 hletters.2.1 hletters.2.2⟩
    · cases h
  · cases h

theorem eq_of_toLower_eq_u {c : Char} (h : c.toLower = 'u') : c = 'u' ∨ c = 'U' := by
  unfold Char.toLower at h
  split at h
  · have hval : c.val + 32 = 117 := congrArg Char.val h
    refine Or.inr (Char.ext ?_)
    rw [← UInt32.add_sub_cancel c.val 32, hval]
    rfl
  · exact Or.inl h

/-- Nothing in front of an offset belongs to it. -/
theorem OffsetText.head {part : List Char} {offset : Int} (h : OffsetText part offset)
    (rest : List Char) :
    ∀ c ∈ (part ++ rest).head?, isDigit c = false ∧ c ≠ '.' ∧ isBlank c = false := by
  cases h with
  | zulu hz => rcases hz with rfl | rfl <;> simp <;> decide
  | utc hu => rcases eq_of_toLower_eq_u hu with rfl | rfl <;> simp <;> decide
  | east => simp; decide
  | west hsign => rcases hsign with rfl | rfl <;> simp <;> decide

theorem OffsetText.read {part : List Char} {offset : Int} (h : OffsetText part offset)
    (rest : List Char) : readOffset? (part ++ rest) = some (offset, rest) := by
  cases h with
  | zulu hz =>
      rcases hz with rfl | rfl
      · rfl
      · rfl
  | @utc u t c hu ht hc =>
      rcases eq_of_toLower_eq_u hu with rfl | rfl
      · simp [readOffset?, ht, hc]
      · simp [readOffset?, ht, hc]
  | east hclock => simp [readOffset?, hclock.read rest]
  | west hsign hclock =>
      rcases hsign with rfl | rfl
      · simp [readOffset?, hclock.read rest]
      · simp [readOffset?, hclock.read rest]

end Readers

/-! ## Reading -/

theorem dayNumber_eq_number (year : Int) (month day : Nat) :
    dayNumber year month day = Date.number ⟨year, month, day⟩ := rfl

theorem Stamp.isOf_of_ofParts? {s : Stamp} {t : Instant}
    (h : ofParts? s.year s.month s.day s.hour s.minute s.second s.nanos s.offset = some t) :
    s.IsOf t := by
  unfold ofParts? at h
  split at h
  · rename_i hparts
    obtain ⟨hge, hle, hm, hm', hd, hd', hh, hmin, hsec, hoff⟩ := hparts
    dsimp only at h
    split at h
    · rename_i hrange
      cases h
      refine ⟨hge, hle, hh, hmin, hoff, ⟨_, Date.counted_iff.mpr ⟨⟨hm, hm', hd, hd'⟩, rfl⟩, ?_⟩,
        ?_, ?_⟩
      · rw [dayNumber_eq_number]
        push_cast
        ring
      · by_cases hleap : s.second = 60
        · exact Or.inr ⟨hleap, by simp [hleap]⟩
        · exact Or.inl ⟨by omega, by simp [hleap]⟩
      · unfold InRange
        dsimp only
        omega
    · cases h
  · cases h

theorem Stamp.IsOf.ofParts?_eq {s : Stamp} {t : Instant} (h : s.IsOf t) :
    ofParts? s.year s.month s.day s.hour s.minute s.second s.nanos s.offset = some t := by
  obtain ⟨hge, hle, hh, hmin, hoff, ⟨n, hday, hsum⟩, hsecond, hrange⟩ := h
  obtain ⟨⟨hm, hm', hd, hd'⟩, hnumber⟩ := Date.counted_iff.mp hday
  have hsec : s.second ≤ 60 := by omega
  have hseconds : dayNumber s.year s.month s.day * 86400 +
      ((s.hour * 3600 + s.minute * 60 + min s.second 59 : Nat) : Int) - s.offset = t.seconds := by
    rw [dayNumber_eq_number, hnumber]
    push_cast
    omega
  have hnanos : (if s.second = 60 then s.nanos + 1000000000 else s.nanos) = t.nanos := by
    rcases hsecond with ⟨hsecond, hnanos⟩ | ⟨hsecond, hnanos⟩
    · rw [if_neg (by omega), hnanos]
    · rw [if_pos hsecond, hnanos]
  have hrange' : dayNumber firstYear 1 1 * 86400 ≤ t.seconds ∧
      t.seconds ≤ dayNumber lastYear 12 31 * 86400 + 86399 := by
    unfold InRange at hrange
    omega
  unfold ofParts?
  rw [if_pos ⟨hge, hle, hm, hm', hd, hd', hh, hmin, hsec, hoff⟩]
  simp only [hseconds, hnanos, if_pos hrange']

theorem named_of_parse? {text : String} {t : Instant} (h : parse? text = some t) :
    Named text t := by
  obtain ⟨⟨year, cs₁⟩, hyear, h⟩ := Option.bind_eq_some_iff.mp h
  obtain ⟨cs₂, hdash, h⟩ := Option.bind_eq_some_iff.mp h
  obtain ⟨⟨month, cs₃⟩, hmonth, h⟩ := Option.bind_eq_some_iff.mp h
  obtain ⟨cs₄, hdash', h⟩ := Option.bind_eq_some_iff.mp h
  obtain ⟨⟨day, cs₅⟩, hday, h⟩ := Option.bind_eq_some_iff.mp h
  obtain ⟨cs₆, hseparator, h⟩ := Option.bind_eq_some_iff.mp h
  obtain ⟨⟨hour, cs₇⟩, hhour, h⟩ := Option.bind_eq_some_iff.mp h
  obtain ⟨cs₈, hcolon, h⟩ := Option.bind_eq_some_iff.mp h
  obtain ⟨⟨minute, cs₉⟩, hminute, h⟩ := Option.bind_eq_some_iff.mp h
  obtain ⟨cs₁₀, hcolon', h⟩ := Option.bind_eq_some_iff.mp h
  obtain ⟨⟨second, cs₁₁⟩, hsecond, h⟩ := Option.bind_eq_some_iff.mp h
  obtain ⟨⟨nanos, cs₁₂⟩, hfraction, h⟩ := Option.bind_eq_some_iff.mp h
  obtain ⟨⟨offset, cs₁₃⟩, hoffset, h⟩ := Option.bind_eq_some_iff.mp h
  dsimp only at h
  split at h
  · rename_i hend
    obtain ⟨yearPart, hsplit₁, hyear⟩ := readYear?_sound hyear
    obtain ⟨dash, hsplit₂, hdash⟩ := readMark?_sound hdash
    obtain ⟨monthPart, hsplit₃, hmonth⟩ := readField?_sound hmonth
    obtain ⟨dash', hsplit₄, hdash'⟩ := readMark?_sound hdash'
    obtain ⟨dayPart, hsplit₅, hday⟩ := readField?_sound hday
    obtain ⟨separator, hsplit₆, hseparator⟩ := readSeparator?_eq_some_iff.mp hseparator
    obtain ⟨hourPart, hsplit₇, hhour⟩ := readField?_sound hhour
    obtain ⟨colon, hsplit₈, hcolon⟩ := readMark?_sound hcolon
    obtain ⟨minutePart, hsplit₉, hminute⟩ := readField?_sound hminute
    obtain ⟨colon', hsplit₁₀, hcolon'⟩ := readMark?_sound hcolon'
    obtain ⟨secondPart, hsplit₁₁, hsecond⟩ := readField?_sound hsecond
    obtain ⟨fraction, hsplit₁₂, hfraction⟩ := readFraction?_sound hfraction
    obtain ⟨blanks, hsplit₁₃, hblanks⟩ := exists_blanks cs₁₂
    obtain ⟨offsetPart, hsplit₁₄, hoffset⟩ := readOffset?_sound hoffset
    obtain ⟨blanks', hsplit₁₅, hblanks'⟩ := exists_blanks cs₁₃
    rw [List.isEmpty_iff.mp hend, List.append_nil] at hsplit₁₅
    refine ⟨⟨year, month, day, hour, minute, second, nanos, offset⟩, ?_,
      Stamp.isOf_of_ofParts? h⟩
    rw [hsplit₁, hsplit₂, hsplit₃, hsplit₄, hsplit₅, hsplit₆, hsplit₇, hsplit₈, hsplit₉,
      hsplit₁₀, hsplit₁₁, hsplit₁₂, hsplit₁₃, hsplit₁₄, hsplit₁₅]
    exact .mk hyear hdash hmonth hdash' hday hseparator hhour hcolon hminute hcolon' hsecond
      hfraction hblanks hoffset hblanks'
  · cases h

theorem trimStart_blanks {blanks : List Char} (h : ∀ c ∈ blanks, isBlank c = true) :
    trimStart blanks = [] := by
  rw [← List.append_nil blanks, trimStart_append h]
  rfl

/-- A reader of digits stops before what follows the seconds and their fraction. -/
theorem OffsetText.head_blanks {offset blanks : List Char} {n : Int} (h : OffsetText offset n)
    (hblanks : ∀ c ∈ blanks, isBlank c = true) (rest : List Char) :
    ∀ c ∈ (blanks ++ (offset ++ rest)).head?, isDigit c = false ∧ c ≠ '.' := by
  refine head_append (fun c hc => ⟨isDigit_of_isBlank (hblanks c hc), ?_⟩) fun c hc =>
    ⟨(h.head rest c hc).1, (h.head rest c hc).2.1⟩
  rintro rfl
  cases hblanks '.' hc

theorem Named.parse?_eq {text : String} {t : Instant} (h : Named text t) :
    parse? text = some t := by
  obtain ⟨s, hwritten, hof⟩ := h
  generalize htext : text.toList = cs at hwritten
  cases hwritten with
  | @mk year dash month dash' day hour colon minute colon' second fraction blanks offset blanks'
      separator hyear hdash hmonth hdash' hday hseparator hhour hcolon hminute hcolon' hsecond
      hfraction hblanks hoffset hblanks' =>
    have htrim : trimStart (blanks ++ (offset ++ blanks')) = offset ++ blanks' := by
      rw [trimStart_append hblanks]
      exact trimStart_of_head fun c hc => (hoffset.head blanks' c hc).2.2
    -- A reader of digits takes all it can get, so each part has to end before it.
    have htail := hoffset.head_blanks hblanks blanks'
    have hstop : ∀ c ∈ (fraction ++ (blanks ++ (offset ++ blanks'))).head?, isDigit c = false :=
      hfraction.head fun c hc => (htail c hc).1
    have hsep : ∀ c ∈ (separator :: (hour ++ (colon ++ (minute ++ (colon' ++ (second ++
        (fraction ++ (blanks ++ (offset ++ blanks'))))))))).head?, isDigit c = false := by
      rintro c ⟨⟩
      rcases hseparator with rfl | rfl | rfl <;> rfl
    rw [parse?, htext]
    refine Option.bind_eq_some_iff.mpr ⟨_, hyear.read (hdash.head rfl _), ?_⟩
    refine Option.bind_eq_some_iff.mpr ⟨_, hdash.read rfl _, ?_⟩
    refine Option.bind_eq_some_iff.mpr ⟨_, hmonth.read (hdash'.head rfl _), ?_⟩
    refine Option.bind_eq_some_iff.mpr ⟨_, hdash'.read rfl _, ?_⟩
    refine Option.bind_eq_some_iff.mpr ⟨_, hday.read hsep, ?_⟩
    refine Option.bind_eq_some_iff.mpr
      ⟨_, readSeparator?_eq_some_iff.mpr ⟨_, rfl, hseparator⟩, ?_⟩
    refine Option.bind_eq_some_iff.mpr ⟨_, hhour.read (hcolon.head rfl _), ?_⟩
    refine Option.bind_eq_some_iff.mpr ⟨_, hcolon.read rfl _, ?_⟩
    refine Option.bind_eq_some_iff.mpr ⟨_, hminute.read (hcolon'.head rfl _), ?_⟩
    refine Option.bind_eq_some_iff.mpr ⟨_, hcolon'.read rfl _, ?_⟩
    refine Option.bind_eq_some_iff.mpr ⟨_, hsecond.read hstop, ?_⟩
    refine Option.bind_eq_some_iff.mpr ⟨_, hfraction.read htail, ?_⟩
    have hread := hoffset.read blanks'
    rw [← htrim] at hread
    refine Option.bind_eq_some_iff.mpr ⟨_, hread, ?_⟩
    dsimp only
    rw [trimStart_blanks hblanks', List.isEmpty_nil, if_pos rfl]
    exact hof.ofParts?_eq

theorem parse?_eq_some_iff (text : String) (t : Instant) :
    parse? text = some t ↔ Named text t := ⟨named_of_parse?, Named.parse?_eq⟩

/-! ## Writing -/

/-- What a text can name. A leap second ends a minute. -/
structure Valid (t : Instant) : Prop where
  inRange : InRange t.seconds
  nanos_lt : t.nanos < 2000000000
  leap : 1000000000 ≤ t.nanos → t.seconds % 60 = 59

theorem FractionText.lt {part : List Char} {n : Nat} (h : FractionText part n) :
    n < 1000000000 := by
  cases h with
  | absent => decide
  | point hnumber =>
      rw [Nat.div_lt_iff_lt_mul (by positivity), Nat.mul_comm 1000000000, ← hnumber.value]
      exact Nat.mul_lt_mul_of_pos_right (digitsValue_lt hnumber.digits) (by decide)

theorem OffsetText.emod {part : List Char} {offset : Int} (h : OffsetText part offset) :
    offset % 60 = 0 := by
  have hclock : ∀ {clock n}, ClockText clock n → n % 60 = 0 := by
    rintro _ _ ⟨⟩
    omega
  cases h with
  | zulu => rfl
  | utc => rfl
  | east h =>
      have := hclock h
      omega
  | west _ h =>
      have := hclock h
      omega

theorem Named.valid {text : String} {t : Instant} (h : Named text t) : t.Valid := by
  obtain ⟨s, hwritten, hof⟩ := h
  obtain ⟨n, -, hsum⟩ := hof.day
  have hsecond := hof.second
  generalize text.toList = cs at hwritten
  cases hwritten with
  | mk _ _ _ _ _ _ _ _ _ _ _ hfraction _ hoffset _ =>
      have hnanos := hfraction.lt
      have hminute := hoffset.emod
      exact ⟨hof.inRange, by omega, fun hleap => by omega⟩

theorem blank_nil : ∀ c ∈ ([] : List Char), isBlank c = true := by simp

theorem yearText_spec (year : Int) : YearText (yearText year) year := by
  unfold yearText
  split
  · rename_i h
    have hyear : ((year.toNat : Nat) : Int) = year := Int.toNat_of_nonneg h.1
    have hlength : (padded 4 year.toNat).length = 4 := length_padded (by decide) (by omega)
    have htext := YearText.plain blank_nil (isNumber_padded 4 year.toNat) hlength.le
    rwa [hyear] at htext
  · split
    · rename_i hneg
      have hyear : -((year.natAbs : Nat) : Int) = year := by omega
      have htext := YearText.before blank_nil (isNumber_padded 4 year.natAbs)
      rwa [hyear] at htext
    · have hyear : ((year.natAbs : Nat) : Int) = year := by omega
      have htext := YearText.after blank_nil (isNumber_padded 4 year.natAbs)
      rwa [hyear] at htext

theorem padded_spec {n : Nat} (h : n < 100) : FieldText (padded 2 n) n := by
  have hlength : (padded 2 n).length = 2 := length_padded (by decide) h
  have htext : FieldText ([] ++ padded 2 n) n :=
    .mk blank_nil (isNumber_padded 2 n) hlength.le
  exact htext

theorem mark_spec (mark : Char) : MarkText mark [mark] := MarkText.mk blank_nil

theorem fractionText_spec {n : Nat} (h : n < 1000000000) : FractionText (fractionText n) n := by
  have hpoint : ∀ {width k : Nat}, 0 < width → k < 10 ^ width → k * 10 ^ 9 / 10 ^ width = n →
      FractionText ('.' :: padded width k) n := by
    intro width k hpos hlt hvalue
    have htext := FractionText.point (isNumber_padded width k)
    rwa [length_padded hpos hlt, hvalue] at htext
  unfold fractionText
  split
  · rename_i hzero
    rw [hzero]
    exact .absent
  · split
    · exact hpoint (by decide) (by omega) (by omega)
    · split
      · exact hpoint (by decide) (by omega) (by omega)
      · exact hpoint (by decide) h (by omega)

/-- The date and the time of day in UTC at which a text shows an instant. -/
def utcStamp (t : Instant) : Stamp :=
  let date := Date.ofNumber (t.seconds / 86400)
  let ofDay := (t.seconds % 86400).toNat
  { year := date.year
    month := date.month
    day := date.day
    hour := ofDay / 3600
    minute := ofDay / 60 % 60
    second := ofDay % 60 + if 1000000000 ≤ t.nanos then 1 else 0
    nanos := if 1000000000 ≤ t.nanos then t.nanos - 1000000000 else t.nanos
    offset := 0 }

theorem utcStamp_isOf {t : Instant} (h : t.Valid) : (utcStamp t).IsOf t := by
  obtain ⟨hrange, hnanos, hleap⟩ := h
  obtain ⟨hvalid, hnumber⟩ := Date.ofNumber_spec (t.seconds / 86400)
  unfold InRange at hrange
  have hfirst : dayNumber firstYear 1 1 ≤ (Date.ofNumber (t.seconds / 86400)).number := by
    rw [hnumber]
    omega
  have hlast : (Date.ofNumber (t.seconds / 86400)).number ≤ dayNumber lastYear 12 31 := by
    rw [hnumber]
    omega
  refine ⟨?_, ?_, ?_, ?_, Nat.zero_lt_succ _, ?_, ?_, hrange⟩
  · by_contra hyear
    have hjanuary : Date.Valid ⟨firstYear, 1, 1⟩ := by constructor <;> decide
    have hlt := Date.number_lt_of_year_lt hvalid hjanuary (not_le.mp hyear)
    rw [dayNumber_eq_number] at hfirst
    omega
  · by_contra hyear
    have hdecember : Date.Valid ⟨lastYear, 12, 31⟩ := by constructor <;> decide
    have hlt := Date.number_lt_of_year_lt hdecember hvalid (not_le.mp hyear)
    rw [dayNumber_eq_number] at hlast
    omega
  · dsimp only [utcStamp]
    omega
  · dsimp only [utcStamp]
    omega
  · refine ⟨t.seconds / 86400, Date.counted_ofNumber _, ?_⟩
    dsimp only [utcStamp]
    split
    · rename_i hge
      have := hleap hge
      omega
    · omega
  · dsimp only [utcStamp]
    split
    · rename_i hge
      have := hleap hge
      omega
    · omega

theorem writtenAs_textWith (t : Instant) {fraction : Nat → List Char} {n : Nat}
    (hf : FractionText (fraction (utcStamp t).nanos) n) :
    ({ utcStamp t with nanos := n } : Stamp).WrittenAs (textWith fraction t).toList := by
  obtain ⟨hvalid, -⟩ := Date.ofNumber_spec (t.seconds / 86400)
  have hmonth : (utcStamp t).month < 100 := hvalid.month_le.trans_lt (by decide)
  have hday : (utcStamp t).day < 100 :=
    (hvalid.day_le.trans (Date.daysInMonth_within ..).2).trans_lt (by decide)
  have hhour : (utcStamp t).hour < 100 := by
    dsimp only [utcStamp]
    omega
  have hminute : (utcStamp t).minute < 100 := by
    dsimp only [utcStamp]
    omega
  have hsecond : (utcStamp t).second < 100 := by
    dsimp only [utcStamp]
    split <;> omega
  have hwritten := Stamp.WrittenAs.mk (s := { utcStamp t with nanos := n })
    (yearText_spec (utcStamp t).year) (mark_spec '-') (padded_spec hmonth) (mark_spec '-')
    (padded_spec hday) (Or.inr (Or.inl rfl)) (padded_spec hhour) (mark_spec ':')
    (padded_spec hminute) (mark_spec ':') (padded_spec hsecond) hf blank_nil
    (.zulu (Or.inl rfl)) blank_nil
  have hofDay : (t.seconds - t.seconds / 86400 * 86400).toNat = (t.seconds % 86400).toNat := by
    omega
  have htext : (textWith fraction t).toList = yearText (utcStamp t).year ++ (['-'] ++
      (padded 2 (utcStamp t).month ++ (['-'] ++ (padded 2 (utcStamp t).day ++ 'T' ::
        (padded 2 (utcStamp t).hour ++ ([':'] ++ (padded 2 (utcStamp t).minute ++ ([':'] ++
          (padded 2 (utcStamp t).second ++ (fraction (utcStamp t).nanos ++
            ([] ++ (['Z'] ++ [])))))))))))) := by
    have hfdiv := Int.fdiv_eq_ediv_of_nonneg t.seconds (by decide : (0 : Int) ≤ 86400)
    simp only [textWith, String.toList_ofList, hfdiv, hofDay]
    simp [utcStamp, Date.ofNumber]
  rw [htext]
  exact hwritten

theorem Valid.named_text {t : Instant} (h : t.Valid) : Named t.text t := by
  have hnanos : (utcStamp t).nanos < 1000000000 := by
    have := h.nanos_lt
    dsimp only [utcStamp]
    split <;> omega
  exact ⟨_, writtenAs_textWith t (fractionText_spec hnanos), utcStamp_isOf h⟩

/-- The instant without its fraction; a leap second stays one. -/
def toSecond (t : Instant) : Instant :=
  { t with nanos := if 1000000000 ≤ t.nanos then 1000000000 else 0 }

theorem Valid.toSecond {t : Instant} (h : t.Valid) : t.toSecond.Valid := by
  refine ⟨h.inRange, ?_, ?_⟩
  · dsimp only [Instant.toSecond]
    split <;> decide
  · intro hge
    refine h.leap ?_
    by_contra hlt
    simp [Instant.toSecond, hlt] at hge

theorem textToSecond_toSecond (t : Instant) : t.toSecond.textToSecond = t.textToSecond := by
  have hleap : 1000000000 ≤ t.toSecond.nanos ↔ 1000000000 ≤ t.nanos := by
    dsimp only [toSecond]
    split <;> omega
  simp only [textToSecond, textWith, hleap]
  rfl

theorem Valid.named_textToSecond {t : Instant} (h : t.Valid) :
    Named t.textToSecond t.toSecond := by
  have hnanos : (utcStamp t.toSecond).nanos = 0 := by
    dsimp only [utcStamp, Instant.toSecond]
    split <;> split <;> omega
  have hstamp : ({ utcStamp t.toSecond with nanos := 0 } : Stamp) = utcStamp t.toSecond := by
    rw [← hnanos]
  have hwritten : ({ utcStamp t.toSecond with nanos := 0 } : Stamp).WrittenAs
      t.toSecond.textToSecond.toList := writtenAs_textWith t.toSecond .absent
  rw [hstamp, textToSecond_toSecond] at hwritten
  exact ⟨_, hwritten, utcStamp_isOf h.toSecond⟩

/-- What is written for an instant that has been read reads back as that instant. -/
theorem parse?_text {text : String} {t : Instant} (h : parse? text = some t) :
    parse? t.text = some t := (named_of_parse? h).valid.named_text.parse?_eq

theorem parse?_textToSecond {text : String} {t : Instant} (h : parse? text = some t) :
    parse? t.textToSecond = some t.toSecond :=
  (named_of_parse? h).valid.named_textToSecond.parse?_eq

end Instant
end StatusRelay
