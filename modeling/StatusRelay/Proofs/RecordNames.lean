import StatusRelay.Object
import StatusRelay.Kind
import StatusRelay.RecordName
import StatusRelay.WorkStatus
import Mathlib.Data.List.Basic
import Mathlib.Tactic.NormNum

/-!
# Names that tell objects apart

The name of a record ends in the sixteen digits of a hash of kind, namespace and name, whatever
stands before them. So names are different where hashes are.
-/
namespace StatusRelay

/-- What the name of a record is made from. -/
structure Identity where
  kind : String
  ns : String
  name : String
  deriving DecidableEq, Repr

namespace Identity

def hash (i : Identity) : UInt64 :=
  RecordName.fnv1a (RecordName.identityBytes i.kind i.ns i.name)

def record (i : Identity) : String := recordName i.kind i.ns i.name

end Identity

/-- What a record for an object that the watch of a kind delivered is called after. -/
def Object.identity (o : Object) (kind : ResourceKind) : Identity := ⟨kind.kind, o.ns, o.name⟩

def SourceRef.identity (s : SourceRef) : Identity := ⟨s.kind, s.ns, s.name⟩

namespace RecordName

theorem hexDigit_injective (m n : Fin 16) (h : Json.hexDigit m = Json.hexDigit n) : m = n := by
  revert m n
  decide

/-- Numbers with the same digits are the same, if they have no more of them. -/
theorem hexDigits_injective (count : Nat) {v w : Nat} (hv : v < 16 ^ count)
    (hw : w < 16 ^ count) (h : hexDigits count v = hexDigits count w) : v = w := by
  induction count generalizing v w with
  | zero => omega
  | succ count ih =>
      have hsplit := List.append_inj' h rfl
      have hlast : Json.hexDigit (v % 16) = Json.hexDigit (w % 16) :=
        List.singleton_inj.mp hsplit.2
      have hdigit : v % 16 = w % 16 := by
        have hfin := hexDigit_injective ⟨v % 16, Nat.mod_lt _ (by omega)⟩
          ⟨w % 16, Nat.mod_lt _ (by omega)⟩ hlast
        exact congrArg Fin.val hfin
      have hpow : 16 ^ (count + 1) = 16 * 16 ^ count := by
        rw [Nat.pow_succ, Nat.mul_comm]
      have hrest : v / 16 = w / 16 := by
        apply ih
        · omega
        · omega
        · exact hsplit.1
      omega

/-- A hash has no more digits than are written. -/
theorem toNat_lt_pow (hash : UInt64) : hash.toNat < 16 ^ hashLength := by
  have hpow : 16 ^ hashLength = 2 ^ 64 := by
    rw [hashLength]
    norm_num
  rw [hpow]
  exact hash.toNat_lt

theorem hash_eq_of_hashText {i j : Identity}
    (h : hashText i.kind i.ns i.name = hashText j.kind j.ns j.name) : i.hash = j.hash := by
  rw [hashText, hashText] at h
  rw [Identity.hash, Identity.hash]
  generalize fnv1a (identityBytes i.kind i.ns i.name) = v at h ⊢
  generalize fnv1a (identityBytes j.kind j.ns j.name) = w at h ⊢
  exact UInt64.toNat_inj.mp (hexDigits_injective hashLength (toNat_lt_pow v) (toNat_lt_pow w) h)

/-- Every name ends in the hash. -/
theorem exists_chars_eq (kind ns name : String) :
    ∃ before, chars kind ns name = before ++ hashText kind ns name := by
  unfold chars
  generalize hashText kind ns name = text
  cases readable kind ns name with
  | nil => exact ⟨[], rfl⟩
  | cons c rest => exact ⟨c :: rest ++ ['-'], by simp⟩

end RecordName

theorem Identity.record_ne {i j : Identity} (h : i.hash ≠ j.hash) : i.record ≠ j.record := by
  intro he
  have hchars : RecordName.chars i.kind i.ns i.name = RecordName.chars j.kind j.ns j.name :=
    String.ofList_injective he
  obtain ⟨before, hi⟩ := RecordName.exists_chars_eq i.kind i.ns i.name
  obtain ⟨before', hj⟩ := RecordName.exists_chars_eq j.kind j.ns j.name
  rw [hi, hj] at hchars
  have hlength : (RecordName.hashText i.kind i.ns i.name).length =
      (RecordName.hashText j.kind j.ns j.name).length := by
    simp [RecordName.hashText]
  exact h (RecordName.hash_eq_of_hashText (List.append_inj' hchars hlength).2)

/-- No two of the identities have the same hash. -/
def HashesApart (known : Identity → Prop) : Prop :=
  ∀ i j, known i → known j → i.hash = j.hash → i = j

theorem HashesApart.record_ne {known : Identity → Prop} (h : HashesApart known) {i j : Identity}
    (hi : known i) (hj : known j) (hne : i ≠ j) : i.record ≠ j.record :=
  Identity.record_ne fun he => hne (h i j hi hj he)

end StatusRelay
