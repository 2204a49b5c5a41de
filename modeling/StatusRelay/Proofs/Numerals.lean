import StatusRelay.Text.Blank
import StatusRelay.Text.Digits
import Mathlib.Data.List.Induction
import Mathlib.Data.List.TakeWhile
import Mathlib.Data.Nat.Digits.Defs
import Mathlib.Tactic.Linarith

/-!
# Rows of digits and blanks around them

The number that a row of digits writes is the one with these decimal digits. It stays below the
power of ten that has so many places and is read back from its padded text. No digit is a blank, so
trimming stops where a number starts and ends, and leaves exactly what stands between the blanks.
-/
namespace StatusRelay.Text

/-- A row of digits that writes a number. -/
structure IsNumber (cs : List Char) (n : Nat) : Prop where
  nonempty : cs ≠ []
  digits : ∀ c ∈ cs, isDigit c = true
  value : digitsValue cs = n

theorem digitsValue_eq (cs : List Char) : digitsValue cs = Nat.ofDigitChars 10 cs 0 := by
  have hstep : (fun (n : Nat) c => n * 10 + digitValue c) =
      fun n c => 10 * n + (c.toNat - '0'.toNat) := by
    funext n c
    rw [Nat.mul_comm, digitValue]
  rw [digitsValue, Nat.ofDigitChars_eq_foldl, hstep]

theorem digitsValue_append (cs ds : List Char) :
    digitsValue (cs ++ ds) = 10 ^ ds.length * digitsValue cs + digitsValue ds := by
  simp only [digitsValue_eq]
  rw [Nat.ofDigitChars_append, Nat.ofDigitChars_eq_ofDigitChars_zero]

theorem digitsValue_concat (cs : List Char) (c : Char) :
    digitsValue (cs ++ [c]) = digitsValue cs * 10 + digitValue c := by
  rw [digitsValue, List.foldl_append, List.foldl_cons, List.foldl_nil, digitsValue]

/-- Decimal digits are listed from the last place to the first. -/
theorem digitsValue_eq_ofDigits (cs : List Char) :
    digitsValue cs = Nat.ofDigits 10 (cs.reverse.map digitValue) := by
  induction cs using List.reverseRecOn with
  | nil => rfl
  | append_singleton cs c ih =>
      rw [digitsValue_concat, ih, List.reverse_concat, List.map_cons, Nat.ofDigits_cons]
      omega

theorem digitValue_lt {c : Char} (h : isDigit c = true) : digitValue c < 10 := by
  simp only [isDigit, Bool.and_eq_true, decide_eq_true_eq] at h
  have hnine : c.toNat ≤ 57 := h.2
  have hzero : '0'.toNat = 48 := rfl
  rw [digitValue, hzero]
  omega

theorem digitsValue_lt {cs : List Char} (h : ∀ c ∈ cs, isDigit c = true) :
    digitsValue cs < 10 ^ cs.length := by
  induction cs with
  | nil => exact Nat.one_pos
  | cons c cs ih =>
      have hc := digitValue_lt (h c List.mem_cons_self)
      have hcs := ih fun d hd => h d (List.mem_cons_of_mem _ hd)
      have hsplit := digitsValue_append [c] cs
      have hone : digitsValue [c] = digitValue c := by simp [digitsValue]
      rw [List.singleton_append, hone] at hsplit
      rw [hsplit, List.length_cons, pow_succ]
      nlinarith [Nat.pow_pos (n := cs.length) (show 0 < 10 by decide)]

theorem isNumber_padded (width n : Nat) : IsNumber (padded width n) n := by
  refine ⟨?_, ?_, ?_⟩
  · have hpos : 0 < (Nat.toDigits 10 n).length := Nat.length_toDigits_pos
    intro hnil
    simp only [padded, List.append_eq_nil_iff] at hnil
    simp [hnil.2] at hpos
  · intro c hc
    rcases List.mem_append.mp hc with hzero | hdigit
    · rw [List.eq_of_mem_replicate hzero]
      rfl
    · exact Nat.isDigit_of_mem_toDigits (by decide) (by decide) hdigit
  · simp only [digitsValue_eq, padded, Nat.ofDigitChars_append, Nat.ofDigitChars_replicate_zero,
      Nat.mul_zero, Nat.ofDigitChars_ten_toDigits]

theorem length_padded {width n : Nat} (hpos : 0 < width) (h : n < 10 ^ width) :
    (padded width n).length = width := by
  have hle := (Nat.length_toDigits_le_iff (by decide : 1 < 10) hpos).mpr h
  simp only [padded, List.length_append, List.length_replicate]
  omega

theorem isBlank_of_isDigit {c : Char} (h : isDigit c = true) : isBlank c = false := by
  simp only [isDigit, Bool.and_eq_true, decide_eq_true_eq] at h
  have hzero : 48 ≤ c.toNat := h.1
  have hnine : c.toNat ≤ 57 := h.2
  simp [isBlank, inRanges, blankRanges]
  omega

theorem IsNumber.first {digits rest tail : List Char} {n : Nat} {c : Char} (hd : IsNumber digits n)
    (h : digits ++ rest = c :: tail) : isDigit c = true := by
  cases digits with
  | nil => exact absurd rfl hd.nonempty
  | cons d digits =>
      cases h
      exact hd.digits c List.mem_cons_self

theorem IsNumber.head {digits : List Char} {n : Nat} (hd : IsNumber digits n) (rest : List Char) :
    ∀ c ∈ (digits ++ rest).head?, isBlank c = false := by
  cases digits with
  | nil => exact absurd rfl hd.nonempty
  | cons d digits =>
      rintro c ⟨⟩
      exact isBlank_of_isDigit (hd.digits d List.mem_cons_self)

theorem isDigit_of_isBlank {c : Char} (h : isBlank c = true) : isDigit c = false := by
  by_contra hdigit
  rw [isBlank_of_isDigit (Bool.eq_true_of_not_eq_false hdigit)] at h
  cases h

theorem head_append {p : Char → Prop} {cs rest : List Char} (h : ∀ c ∈ cs, p c)
    (hrest : ∀ c ∈ rest.head?, p c) : ∀ c ∈ (cs ++ rest).head?, p c := by
  cases cs with
  | nil => exact hrest
  | cons b cs =>
      rintro c ⟨⟩
      exact h b List.mem_cons_self

theorem trimStart_append {blanks : List Char} (h : ∀ c ∈ blanks, isBlank c = true)
    (rest : List Char) : trimStart (blanks ++ rest) = trimStart rest :=
  List.dropWhile_append_of_pos h

theorem trimStart_of_head {cs : List Char} (h : ∀ c ∈ cs.head?, isBlank c = false) :
    trimStart cs = cs := by
  cases cs with
  | nil => rfl
  | cons c cs => simp [trimStart, h c rfl]

theorem exists_blanks (cs : List Char) :
    ∃ blanks, cs = blanks ++ trimStart cs ∧ ∀ c ∈ blanks, isBlank c = true :=
  ⟨cs.takeWhile isBlank, List.takeWhile_append_dropWhile.symm, fun _ => List.mem_takeWhile_imp⟩

theorem trimChars_between {front core back : List Char} (hfront : ∀ c ∈ front, isBlank c = true)
    (hne : core ≠ []) (hcore : ∀ c ∈ core, isBlank c = false)
    (hback : ∀ c ∈ back, isBlank c = true) : trimChars (front ++ (core ++ back)) = core := by
  have hstart : trimStart (core ++ back) = core ++ back := by
    obtain ⟨a, rest, rfl⟩ := List.exists_cons_of_ne_nil hne
    refine trimStart_of_head ?_
    rintro c ⟨⟩
    exact hcore a List.mem_cons_self
  have hend : trimStart core.reverse = core.reverse :=
    trimStart_of_head fun c hc => hcore c (List.mem_reverse.mp (List.mem_of_mem_head? hc))
  have hback' : ∀ c ∈ back.reverse, isBlank c = true := fun c hc => hback c (List.mem_reverse.mp hc)
  rw [trimChars, trimStart_append hfront, hstart, List.reverse_append, trimStart_append hback',
    hend, List.reverse_reverse]

theorem exists_between (cs : List Char) :
    ∃ front back, cs = front ++ (trimChars cs ++ back) ∧ (∀ c ∈ front, isBlank c = true) ∧
      ∀ c ∈ back, isBlank c = true := by
  obtain ⟨front, hfront, hblank⟩ := exists_blanks cs
  obtain ⟨back, hback, hblank'⟩ := exists_blanks (trimStart cs).reverse
  refine ⟨front, back.reverse, ?_, hblank, fun c hc => hblank' c (List.mem_reverse.mp hc)⟩
  rw [trimChars, ← List.reverse_append, ← hback, List.reverse_reverse]
  exact hfront

end StatusRelay.Text
