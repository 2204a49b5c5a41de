import StatusRelay.Text.Digits

/-!
# Spans of time

A duration is a whole number of nanoseconds; its seconds fit a 64-bit word. Multiplication is
refused where the product would not fit.
-/
namespace StatusRelay

structure Duration where
  nanos : Nat
  deriving DecidableEq, Repr, Inhabited

namespace Duration

def nanosPerSecond : Nat := 1000000000

def nanosPerMilli : Nat := 1000000

/-- Durations stay below this many nanoseconds. -/
def limit : Nat := Nat.pow 2 64 * nanosPerSecond

def zero : Duration := ⟨0⟩

def ofMillis (ms : Nat) : Duration := ⟨ms * nanosPerMilli⟩

def ofSeconds (s : Nat) : Duration := ⟨s * nanosPerSecond⟩

/-- Whole seconds and the nanoseconds left over. -/
def seconds (d : Duration) : Nat := d.nanos / nanosPerSecond

def subsecNanos (d : Duration) : Nat := d.nanos % nanosPerSecond

def isZero (d : Duration) : Bool := d.nanos == 0

protected def min (a b : Duration) : Duration := if a.nanos ≤ b.nanos then a else b

protected def max (a b : Duration) : Duration := if a.nanos ≤ b.nanos then b else a

/-- The product, where it fits. -/
def mul? (d : Duration) (factor : Nat) : Option Duration :=
  if d.nanos * factor < limit then some ⟨d.nanos * factor⟩ else none

/-- Digits after the point: padded to the unit's width, without zeros at the end. -/
def fractionText (value width : Nat) : String :=
  let trimmed := ((Text.padded width value).reverse.dropWhile (· == '0')).reverse
  if trimmed.isEmpty then "" else "." ++ String.ofList trimmed

/-- The text in the largest unit that gives a whole part, such as `1.5s`, `20ms` or `120s`. -/
def text (d : Duration) : String :=
  if nanosPerSecond ≤ d.nanos then
    toString d.seconds ++ fractionText d.subsecNanos 9 ++ "s"
  else if nanosPerMilli ≤ d.nanos then
    toString (d.nanos / nanosPerMilli) ++ fractionText (d.nanos % nanosPerMilli) 6 ++ "ms"
  else if 1000 ≤ d.nanos then
    toString (d.nanos / 1000) ++ fractionText (d.nanos % 1000) 3 ++ "µs"
  else toString d.nanos ++ "ns"

theorem min_nanos (a b : Duration) : (Duration.min a b).nanos = min a.nanos b.nanos := by
  unfold Duration.min
  split <;> omega

theorem max_nanos (a b : Duration) : (Duration.max a b).nanos = max a.nanos b.nanos := by
  unfold Duration.max
  split <;> omega

end Duration
end StatusRelay
