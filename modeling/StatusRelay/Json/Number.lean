import StatusRelay.Json.Basic
import StatusRelay.Text.Digits

/-!
# Numbers in JSON text

Reading: the digits of a number are gathered into a 64-bit word. A number without a point or an
exponent is a whole number if it fits a signed or an unsigned word; minus zero and everything else
is floating-point. Digits that no longer fit the word only move the point, and the word is then
scaled by one multiplication or division by a power of ten, so the last bit is decided by that one
rounding. A number too large for a float is refused.

Writing: the fewest digits that read back, the nearest of those, in positional notation from
`1e-5` up to below `1e16`, and always with a point or a signed exponent.
-/
namespace StatusRelay.Json

open Text (digitValue digitsValue)

/-- The largest value that the digit word holds. -/
def wordMax : Nat := Nat.pow 2 64 - 1

/-- Digits gathered so far: the word, whether a digit has been refused, and the digits that
followed. -/
structure Gathered where
  word : Nat := 0
  full : Bool := false
  skipped : Nat := 0
  taken : Nat := 0
  deriving Repr, DecidableEq

def Gathered.push (g : Gathered) (digit : Nat) : Gathered :=
  if g.full || decide (wordMax < g.word * 10 + digit) then
    { g with full := true, skipped := g.skipped + 1 }
  else { g with word := g.word * 10 + digit, taken := g.taken + 1 }

def Gathered.pushAll (g : Gathered) (digits : List Char) : Gathered :=
  digits.foldl (fun g c => g.push (digitValue c)) g

/-- A power of ten up to 308, correctly rounded. -/
def powerOfTen (n : Nat) : Float := Float.ofScientific 1 false n

/-- The word times a power of ten; scaling down past 308 places goes in steps of 308. -/
def scaleDown : Nat → Float → Nat → Float
  | 0, x, _ => x
  | fuel + 1, x, places =>
      if places ≤ 308 then x / powerOfTen places
      else if x == 0.0 then x
      else scaleDown fuel (x / powerOfTen 308) (places - 308)

/-- The float `word · 10 ^ exponent`, or nothing if it is too large. -/
def scaled? (word : Nat) (exponent : Int) : Option Float :=
  let x := (UInt64.ofNat word).toFloat
  if exponent < 0 then some (scaleDown (exponent.natAbs / 308 + 2) x exponent.natAbs)
  else if 308 < exponent then (if x == 0.0 then some x else none)
  else
    let y := x * powerOfTen exponent.toNat
    if y.isInf then none else some y

/-- A number split into its parts: sign, whole digits, fraction digits, exponent. -/
structure NumberText where
  negative : Bool
  whole : List Char
  fraction : Option (List Char)
  exponent : Option (Bool × List Char)
  deriving Repr, DecidableEq

/-- The exponent as a signed number, clamped to a signed 32-bit word. -/
def exponentValue? (negative : Bool) (digits : List Char) : Option Int :=
  let n := digitsValue digits
  if Nat.pow 2 31 - 1 < n then none else some (if negative then -(n : Int) else n)

def NumberText.toFloat? (t : NumberText) : Option Float :=
  let whole := ({} : Gathered).pushAll t.whole
  let both := match t.fraction with
    | none => whole
    | some digits => { whole with full := false, taken := 0, skipped := whole.skipped }.pushAll digits
  let places : Int := match t.fraction with
    | none => whole.skipped
    | some _ => whole.skipped - both.taken
  let signed (x : Float) : Float := if t.negative then -x else x
  match t.exponent with
  | none => (scaled? both.word places).map signed
  | some (negative, digits) =>
      match exponentValue? negative digits with
      | some e => (scaled? both.word (places + e)).map signed
      | none => if negative || both.word == 0 then some (signed 0.0) else none

/-- The value of a number's text. -/
def NumberText.value? (t : NumberText) : Option Json :=
  match t.fraction, t.exponent with
  | none, none =>
      let g := ({} : Gathered).pushAll t.whole
      if g.full then t.toFloat?.map .float
      else if t.negative then
        if g.word = 0 || decide (Nat.pow 2 63 < g.word) then t.toFloat?.map .float
        else some (.int (-(g.word : Int)))
      else some (.int g.word)
  | _, _ => t.toFloat?.map .float

/-! ## The fewest digits that read back -/

/-- A positive finite float as `mantissa · 2 ^ exponent`, and whether the float below is only half
as far away as the one above. -/
structure Binary where
  mantissa : Nat
  exponent : Int
  narrowBelow : Bool
  deriving Repr, DecidableEq

def Binary.ofBits (bits : Nat) : Binary :=
  let fraction : Nat := bits % Nat.pow 2 52
  let field : Nat := bits / Nat.pow 2 52 % Nat.pow 2 11
  if field = 0 then ⟨fraction, -1074, false⟩
  else ⟨fraction + Nat.pow 2 52, (field : Int) - 1075, fraction = 0 && decide (1 < field)⟩

/-- A positive rational. -/
structure Ratio where
  num : Nat
  den : Nat
  deriving Repr, DecidableEq

/-- The value `n · 2 ^ e / 10 ^ p`. -/
def Ratio.scaled (n : Nat) (e p : Int) : Ratio :=
  ⟨n * Nat.pow 2 e.toNat * Nat.pow 10 (-p).toNat, Nat.pow 2 (-e).toNat * Nat.pow 10 p.toNat⟩

/-- Decimal digits `value · 10 ^ place`. -/
structure Decimal where
  value : Nat
  place : Int
  deriving Repr, DecidableEq

def decimalDigits (n : Nat) : List Char := Nat.toDigits 10 n

/-- The candidate on the decimal grid `10 ^ place`: the nearest of the two grid points around the
value that read back as the float, if there is one. -/
def Binary.onGrid? (b : Binary) (place : Int) : Option Nat :=
  let middle := Ratio.scaled (4 * b.mantissa) (b.exponent - 2) place
  let low := Ratio.scaled (4 * b.mantissa - (if b.narrowBelow then 1 else 2)) (b.exponent - 2) place
  let high := Ratio.scaled (4 * b.mantissa + 2) (b.exponent - 2) place
  let inclusive := b.mantissa % 2 == 0
  let den := middle.den
  let readsBack (c : Nat) : Bool :=
    if inclusive then decide (low.num ≤ c * den) && decide (c * den ≤ high.num)
    else decide (low.num < c * den) && decide (c * den < high.num)
  let down := middle.num / den
  let up := down + 1
  match readsBack down && decide (0 < down), readsBack up with
  | false, false => none
  | true, false => some down
  | false, true => some up
  | true, true =>
      let below := middle.num - down * den
      let above := up * den - middle.num
      if below < above || (below == above && down % 2 == 0) then some down else some up

/-- One more than the place of the leading digit of `num / den`. -/
def leadingPlace (r : Ratio) : Int :=
  if r.den ≤ r.num then (decimalDigits (r.num / r.den)).length
  else
    let digits := (decimalDigits (r.den / r.num)).length
    if r.den ≤ r.num * Nat.pow 10 (digits - 1) then 1 - ((digits - 1 : Nat) : Int)
    else 1 - (digits : Int)

def Binary.search (b : Binary) (top : Int) : Nat → Nat → Decimal
  | 0, _ => ⟨b.mantissa, 0⟩
  | fuel + 1, digits =>
      let place := top - digits
      match b.onGrid? place with
      | some c => ⟨c, place⟩
      | none => b.search top fuel (digits + 1)

/-- The shortest decimal that reads back. -/
def Binary.shortest (b : Binary) : Decimal :=
  b.search (leadingPlace (Ratio.scaled b.mantissa b.exponent 0)) 18 1

/-- Drops zeros at the end of the digits. -/
def Decimal.trim : Nat → Decimal → Decimal
  | 0, d => d
  | fuel + 1, d =>
      if d.value != 0 && d.value % 10 == 0 then Decimal.trim fuel ⟨d.value / 10, d.place + 1⟩
      else d

def zeros (n : Nat) : List Char := List.replicate n '0'

def Decimal.render (d : Decimal) : String :=
  let d := d.trim 32
  let digits := decimalDigits d.value
  let point : Int := digits.length + d.place
  let text :=
    if 0 ≤ d.place && decide (point ≤ 16) then digits ++ zeros d.place.toNat ++ ['.', '0']
    else if 0 < point && decide (point ≤ 16) then
      digits.take point.toNat ++ ['.'] ++ digits.drop point.toNat
    else if -5 < point && decide (point ≤ 0) then ['0', '.'] ++ zeros (-point).toNat ++ digits
    else
      let exponent := (if 0 < point then ['+'] else []) ++ (toString (point - 1)).toList
      match digits with
      | [d] => d :: 'e' :: exponent
      | d :: rest => d :: '.' :: rest ++ 'e' :: exponent
      | [] => exponent
  String.ofList text

/-- The text of a float. JSON has no text for a value that is not finite; `null` stands for it. -/
def renderFloat (x : Float) : String :=
  let bits := x.toBits.toNat
  let sign := if bits / Nat.pow 2 63 = 1 then "-" else ""
  let magnitude := bits % Nat.pow 2 63
  if magnitude = 0 then sign ++ "0.0"
  else if 2047 * Nat.pow 2 52 ≤ magnitude then "null"
  else sign ++ (Binary.ofBits magnitude).shortest.render

end StatusRelay.Json
