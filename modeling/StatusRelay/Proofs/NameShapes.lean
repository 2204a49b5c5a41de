import StatusRelay.Proofs.RecordNames
import Mathlib

/-!
# The shape of record names

A record is called `front-digits`, or `digits` alone where nothing is left of the readable part.
The digits are those of the hash and there are always sixteen of them, so a name tells which of
the two it is and what both parts are: names are equal exactly where hash and readable part are.

A step of the hash permutes the words of 64 bits, as the prime it multiplies by is odd. So texts
that differ in one byte are never given one hash: the states part at that byte and stay apart.
-/
namespace StatusRelay
namespace RecordName

/-! ## Digits -/

/-- How a number is written with at least `n` hexadecimal digits. -/
def padded (n value : Nat) : List Char :=
  List.replicate (n - (Nat.toDigits 16 value).length) '0' ++ Nat.toDigits 16 value

theorem hexDigit_eq {m : Nat} (h : m < 16) : Json.hexDigit m = m.digitChar := by
  have hfin : ∀ k : Fin 16, Json.hexDigit k = (k : Nat).digitChar := by decide
  exact hfin ⟨m, h⟩

theorem padded_succ (n : Nat) {value : Nat} (h : 0 < n) :
    padded (n + 1) value = padded n (value / 16) ++ [(value % 16).digitChar] := by
  rcases Nat.lt_or_ge value 16 with hlt | hge
  · have hone : Nat.toDigits 16 value = [value.digitChar] := Nat.toDigits_of_lt_base hlt
    have hzero : Nat.toDigits 16 (value / 16) = ['0'] := by
      rw [Nat.div_eq_of_lt hlt]
      rfl
    obtain ⟨m, rfl⟩ : ∃ m, n = m + 1 := ⟨n - 1, by omega⟩
    simp [padded, hone, hzero, Nat.mod_eq_of_lt hlt, ← List.replicate_succ']
  · have hsplit := Nat.toDigits_of_base_le (b := 16) (by decide) hge
    simp [padded, hsplit]

theorem hexDigits_eq_padded (n : Nat) {value : Nat} (h : value < 16 ^ (n + 1)) :
    hexDigits (n + 1) value = padded (n + 1) value := by
  have hlast : ∀ v, Json.hexDigit (v % 16) = (v % 16).digitChar :=
    fun v => hexDigit_eq (Nat.mod_lt v (by decide))
  induction n generalizing value with
  | zero =>
      have hlt : value < 16 := by simpa using h
      simp [padded, hexDigits, Nat.toDigits_of_lt_base hlt, Nat.mod_eq_of_lt hlt, hexDigit_eq hlt]
  | succ n ih =>
      have hrest : value / 16 < 16 ^ (n + 1) := by
        rw [Nat.pow_succ] at h
        exact Nat.div_lt_of_lt_mul (by omega)
      rw [hexDigits, ih hrest, hlast, padded_succ (n + 1) (Nat.succ_pos n)]

/-! ## Characters -/

/-- The small letters, the digits, the dash and the dot. -/
def InAlphabet (c : Char) : Prop := isNameChar c = true ∧ c.isUpper = false

instance (c : Char) : Decidable (InAlphabet c) := inferInstanceAs (Decidable (_ ∧ _))

theorem isNameChar_eq (c : Char) : isNameChar c = (c.isAlphanum || isFiller c) :=
  Bool.or_assoc _ _ _

theorem inAlphabet_hexDigits {n value : Nat} :
    ∀ c ∈ hexDigits n value, InAlphabet c ∧ c.isAlphanum = true := by
  have hdigit : ∀ k : Fin 16, InAlphabet (Json.hexDigit k) ∧ (Json.hexDigit k).isAlphanum := by
    decide
  induction n generalizing value with
  | zero => simp [hexDigits]
  | succ n ih =>
      intro c hc
      rw [hexDigits, List.mem_append, List.mem_singleton] at hc
      rcases hc with hc | rfl
      · exact ih c hc
      · exact hdigit ⟨value % 16, Nat.mod_lt _ (by decide)⟩

theorem isUpper_of_mem_lowered {c d : Char} (h : d ∈ lowered c) : d.isUpper = false := by
  unfold lowered at h
  split at h
  · rw [List.mem_singleton.mp h]
    decide
  · split at h
    · rw [List.mem_pair] at h
      rcases h with rfl | rfl <;> decide
    · rw [List.mem_singleton.mp h]
      exact Char.isUpper_toLower_eq_false c

theorem inAlphabet_sanitized {c : Char} (h : c.isUpper = false) : InAlphabet (sanitized c) := by
  unfold sanitized
  split
  case isTrue hname => exact ⟨hname, h⟩
  case isFalse => decide

theorem trimFiller_starts_dropWhile (cs : List Char) : trimFiller cs <+: cs.dropWhile isFiller :=
  List.rdropWhile_prefix isFiller _

theorem isInfix_trimFiller (cs : List Char) : trimFiller cs <:+: cs :=
  (trimFiller_starts_dropWhile cs).isInfix.trans (List.dropWhile_suffix isFiller).isInfix

/-- Trimmed text starts with neither dash nor dot. -/
theorem isFiller_head_trimFiller {cs rest : List Char} {c : Char} (h : trimFiller cs = c :: rest) :
    isFiller c = false := by
  obtain ⟨behind, hdrop⟩ := trimFiller_starts_dropWhile cs
  have hhead := List.head?_dropWhile_not isFiller cs
  rwa [← hdrop, h] at hhead

theorem inAlphabet_readable {kind ns name : String} :
    ∀ c ∈ readable kind ns name, InAlphabet c := by
  intro c hc
  have hmapped := List.mem_of_mem_take ((isInfix_trimFiller _).subset hc)
  obtain ⟨d, hd, rfl⟩ := List.mem_map.mp hmapped
  obtain ⟨e, -, hlow⟩ := List.mem_flatMap.mp hd
  exact inAlphabet_sanitized (isUpper_of_mem_lowered hlow)

theorem length_readable_le (kind ns name : String) :
    (readable kind ns name).length ≤ readableLength :=
  (isInfix_trimFiller _).length_le.trans (List.length_take_le _ _)

/-! ## The hash -/

/-- The prime is odd, so it has an inverse modulo `2 ^ 64`. -/
theorem mul_prime_inj {a b : UInt64} : a * 0x100000001b3 = b * 0x100000001b3 ↔ a = b := by
  have hinverse : (0x100000001b3 : UInt64) * 0xce965057aff6957b = 1 := by decide
  constructor
  · intro h
    have hundone := congrArg (· * (0xce965057aff6957b : UInt64)) h
    simpa only [UInt64.mul_assoc, hinverse, UInt64.mul_one] using hundone
  · exact congrArg (· * 0x100000001b3)

theorem fnvStep_left_inj {h h' : UInt64} {b : UInt8} : fnvStep h b = fnvStep h' b ↔ h = h' := by
  rw [fnvStep, fnvStep, mul_prime_inj, UInt64.xor_left_inj]

theorem fnvStep_right_inj {h : UInt64} {b b' : UInt8} : fnvStep h b = fnvStep h b' ↔ b = b' := by
  rw [fnvStep, fnvStep, mul_prime_inj, UInt64.xor_right_inj, UInt8.toUInt64_inj]

/-- Two states that are apart stay apart, whatever bytes follow. -/
theorem foldl_fnvStep_inj {h h' : UInt64} (bytes : List UInt8) :
    bytes.foldl fnvStep h = bytes.foldl fnvStep h' ↔ h = h' := by
  induction bytes generalizing h h' with
  | nil => rfl
  | cons b bytes ih => rw [List.foldl_cons, List.foldl_cons, ih, fnvStep_left_inj]

/-- The texts are as long as each other and differ in one place. -/
def DifferInOne (xs ys : List UInt8) : Prop :=
  xs.length = ys.length ∧ (xs.zip ys).countP (fun p => p.1 ≠ p.2) = 1

instance (xs ys : List UInt8) : Decidable (DifferInOne xs ys) :=
  inferInstanceAs (Decidable (_ ∧ _))

theorem eq_of_differ_nowhere {xs ys : List UInt8} (hlength : xs.length = ys.length)
    (h : (xs.zip ys).countP (fun p => p.1 ≠ p.2) = 0) : xs = ys := by
  induction xs generalizing ys with
  | nil => exact (List.length_eq_zero_iff.mp hlength.symm).symm
  | cons x xs ih =>
      obtain ⟨y, ys, rfl⟩ := List.exists_cons_of_length_eq_add_one hlength.symm
      rw [List.zip_cons_cons, List.countP_eq_zero, List.forall_mem_cons] at h
      have hxy : x = y := by simpa using h.1
      rw [hxy, ih (by simpa using hlength) (List.countP_eq_zero.mpr h.2)]

theorem DifferInOne.exists_split {xs ys : List UInt8} (h : DifferInOne xs ys) :
    ∃ before x y behind, x ≠ y ∧ xs = before ++ x :: behind ∧ ys = before ++ y :: behind := by
  obtain ⟨hlength, hone⟩ := h
  induction xs generalizing ys with
  | nil => simp at hone
  | cons x xs ih =>
      obtain ⟨y, ys, rfl⟩ := List.exists_cons_of_length_eq_add_one hlength.symm
      have hrest : xs.length = ys.length := by simpa using hlength
      rw [List.zip_cons_cons, List.countP_cons] at hone
      by_cases hxy : x = y
      · obtain ⟨before, a, b, behind, hne, rfl, rfl⟩ := ih hrest (by simpa [hxy] using hone)
        exact ⟨x :: before, a, b, behind, hne, rfl, by rw [hxy, List.cons_append]⟩
      · have hsame : xs = ys := eq_of_differ_nowhere hrest (by simpa [hxy] using hone)
        exact ⟨[], x, y, xs, hxy, rfl, by rw [hsame, List.nil_append]⟩

theorem DifferInOne.fnv1a_ne {xs ys : List UInt8} (h : DifferInOne xs ys) :
    fnv1a xs ≠ fnv1a ys := by
  obtain ⟨before, x, y, behind, hne, rfl, rfl⟩ := h.exists_split
  intro he
  simp only [fnv1a, List.foldl_append, List.foldl_cons] at he
  exact hne (fnvStep_right_inj.mp ((foldl_fnvStep_inj behind).mp he))

/-! ## Bytes -/

/-- The bytes of `[a-z0-9.-]`. -/
def IsNameByte (b : UInt8) : Prop :=
  (97 ≤ b ∧ b ≤ 122) ∨ (48 ≤ b ∧ b ≤ 57) ∨ b = 45 ∨ b = 46

instance (b : UInt8) : Decidable (IsNameByte b) := inferInstanceAs (Decidable (_ ∨ _))

theorem InAlphabet.val_le {c : Char} (h : InAlphabet c) : c.val ≤ 127 := by
  obtain ⟨hname, -⟩ := h
  simp only [isNameChar, isAsciiAlphanum, Char.isAlphanum, Char.isAlpha, Char.isUpper,
    Char.isLower, Char.isDigit, Bool.or_eq_true, Bool.and_eq_true, decide_eq_true_eq,
    beq_iff_eq] at hname
  rcases hname with (((hupper | hlower) | hdigit) | rfl) | rfl
  · exact UInt32.le_trans hupper.2 (by decide)
  · exact UInt32.le_trans hlower.2 (by decide)
  · exact UInt32.le_trans hdigit.2 (by decide)
  · decide
  · decide

theorem InAlphabet.isNameByte {c : Char} (h : InAlphabet c) : IsNameByte c.val.toUInt8 := by
  have hall : ∀ n : Fin 128, InAlphabet (Char.ofNat n) → IsNameByte (Char.ofNat n).val.toUInt8 := by
    decide
  have hlt : c.toNat < 128 := Nat.lt_succ_of_le (UInt32.le_iff_toNat_le.mp h.val_le)
  have hc := hall ⟨c.toNat, hlt⟩
  rw [Char.ofNat_toNat] at hc
  exact hc h

theorem utf8Encode_of_inAlphabet {cs : List Char} (h : ∀ c ∈ cs, InAlphabet c) :
    cs.utf8Encode = (cs.map fun c => c.val.toUInt8).toByteArray := by
  have hflat : cs.flatMap String.utf8EncodeChar = cs.flatMap fun c => [c.val.toUInt8] := by
    refine List.flatMap_congr fun c hc => ?_
    exact String.utf8EncodeChar_eq_singleton (Char.utf8Size_eq_one_iff.mpr (h c hc).val_le)
  rw [List.utf8Encode, hflat, List.map_eq_flatMap]

/-! ## Fronts -/

/-- What stands before the digits. -/
def dashed (front : List Char) : List Char := if front = [] then [] else front ++ ['-']

theorem dashed_inj {front front' : List Char} : dashed front = dashed front' ↔ front = front' := by
  refine ⟨fun h => ?_, congrArg dashed⟩
  unfold dashed at h
  split at h <;> split at h
  case isTrue.isTrue hnil hnil' => rw [hnil, hnil']
  case isTrue.isFalse => simp at h
  case isFalse.isTrue => simp at h
  case isFalse.isFalse => exact List.append_cancel_right h

theorem mem_dashed {front : List Char} {c : Char} (h : c ∈ dashed front) : c ∈ front ∨ c = '-' := by
  unfold dashed at h
  split at h
  case isTrue => simp at h
  case isFalse => simpa using h

theorem length_dashed_le (front : List Char) : (dashed front).length ≤ front.length + 1 := by
  unfold dashed
  split <;> simp

end RecordName

open RecordName

namespace Identity

/-- The text that is hashed. -/
def bytes (i : Identity) : List UInt8 := identityBytes i.kind i.ns i.name

/-- The readable part of the name. -/
def front (i : Identity) : List Char := readable i.kind i.ns i.name

/-- The hash as it is written. -/
def digits (i : Identity) : List Char := padded hashLength i.hash.toNat

/-- What every record is called: sixteen digits, behind a front and a dash if there is a front. -/
structure WellNamed (i : Identity) : Prop where
  short : i.record.toUTF8.size ≤ 253
  allowed : ∀ b ∈ i.record.toUTF8.data, IsNameByte b
  start : ∃ c rest, i.record.toList = c :: rest ∧ c.isAlphanum = true
  sixteen : i.digits.length = 16
  parts : i.record.toList = dashed i.front ++ i.digits

variable (i j : Identity)

theorem hashText_eq_digits : hashText i.kind i.ns i.name = i.digits := by
  have hlt : i.hash.toNat < 16 ^ (15 + 1) := toNat_lt_pow i.hash
  exact hexDigits_eq_padded 15 hlt

theorem length_digits : i.digits.length = 16 := by
  rw [← hashText_eq_digits, hashText, length_hexDigits, hashLength]

theorem mem_digits {c : Char} (h : c ∈ i.digits) : InAlphabet c ∧ c.isAlphanum = true := by
  rw [← hashText_eq_digits] at h
  exact inAlphabet_hexDigits c h

theorem toList_record : i.record.toList = dashed i.front ++ i.digits := by
  rw [record, recordName, String.toList_ofList, chars, hashText_eq_digits, front, dashed]
  cases readable i.kind i.ns i.name with
  | nil => rfl
  | cons c rest => simp

theorem inAlphabet_record : ∀ c ∈ i.record.toList, InAlphabet c := by
  intro c hc
  rw [toList_record, List.mem_append] at hc
  rcases hc with hc | hc
  · rcases mem_dashed hc with hfront | rfl
    · exact inAlphabet_readable c hfront
    · decide
  · exact (i.mem_digits hc).1

theorem toUTF8_record :
    i.record.toUTF8 = (i.record.toList.map fun c => c.val.toUInt8).toByteArray := by
  rw [← utf8Encode_of_inAlphabet i.inAlphabet_record, ← String.toByteArray_ofList,
    String.ofList_toList]
  rfl

theorem record_start : ∃ c rest, i.record.toList = c :: rest ∧ c.isAlphanum = true := by
  rw [toList_record]
  cases hfront : i.front with
  | nil =>
    obtain ⟨c, rest, hdigits⟩ := List.exists_cons_of_length_eq_add_one i.length_digits
    have hc : c ∈ i.digits := by simp [hdigits]
    exact ⟨c, rest, hdigits, (i.mem_digits hc).2⟩
  | cons c rest =>
    have hname : isNameChar c = true := by
      have hc : c ∈ i.front := by simp [hfront]
      exact (inAlphabet_readable c hc).1
    have hfiller : isFiller c = false := isFiller_head_trimFiller hfront
    have halphanum : c.isAlphanum = true := by
      rwa [isNameChar_eq, hfiller, Bool.or_false] at hname
    exact ⟨c, rest ++ '-' :: i.digits, by simp [dashed], halphanum⟩

theorem wellNamed : i.WellNamed where
  short := by
    have hfront : i.front.length ≤ 236 := length_readable_le i.kind i.ns i.name
    have hdashed := length_dashed_le i.front
    rw [toUTF8_record, List.size_toByteArray, List.length_map, toList_record, List.length_append,
      length_digits]
    omega
  allowed := by
    intro b hb
    rw [toUTF8_record, ← Array.mem_toList_iff, List.toList_data_toByteArray] at hb
    obtain ⟨c, hc, rfl⟩ := List.mem_map.mp hb
    exact (i.inAlphabet_record c hc).isNameByte
  start := i.record_start
  sixteen := i.length_digits
  parts := i.toList_record

theorem record_eq_iff : i.record = j.record ↔ i.hash = j.hash ∧ i.front = j.front := by
  rw [← String.toList_inj, toList_record, toList_record]
  constructor
  · intro h
    have hlength : i.digits.length = j.digits.length := by rw [length_digits, length_digits]
    obtain ⟨hfront, hdigits⟩ := List.append_inj' h hlength
    rw [← hashText_eq_digits, ← hashText_eq_digits] at hdigits
    exact ⟨hash_eq_of_hashText hdigits, dashed_inj.mp hfront⟩
  · rintro ⟨hhash, hfront⟩
    rw [digits, digits, hhash, hfront]

/-- Records are told apart by the two parts of their names, and so are two whose texts differ in one
byte. -/
theorem records_are_made_of_front_and_hash :
    i.WellNamed ∧
    (i.record = j.record ↔ i.hash = j.hash ∧ i.front = j.front) ∧
    (DifferInOne i.bytes j.bytes → i.record ≠ j.record) :=
  ⟨i.wellNamed, i.record_eq_iff j, fun h => record_ne h.fnv1a_ne⟩

theorem records_differ_in_last_letter :
    DifferInOne (Identity.mk "Thing" "" "a").bytes (Identity.mk "Thing" "" "b").bytes ∧
      (Identity.mk "Thing" "" "a").record ≠ (Identity.mk "Thing" "" "b").record := by
  have h : DifferInOne (Identity.mk "Thing" "" "a").bytes (Identity.mk "Thing" "" "b").bytes := by
    decide +kernel
  exact ⟨h, (records_are_made_of_front_and_hash _ _).2.2 h⟩

end Identity
end StatusRelay
