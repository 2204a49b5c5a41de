import StatusRelay.Json.Render

/-!
# Names of status records

The record of an object is found by a name made from the object's kind, namespace and name alone.
A readable part, `kind-namespace-name` in the alphabet of DNS names and cut to fit 253 bytes, is
followed by a hash of the exact three texts, because the readable part alone does not tell the
end of a namespace from the start of a name.
-/
namespace StatusRelay
namespace RecordName

/-- The longest name in bytes. -/
def maxLength : Nat := 253

def hashLength : Nat := 16

/-- The bytes that are left for the readable part. -/
def readableLength : Nat := maxLength - hashLength - 1

/-- The small letter for a capital. Of the letters beyond ASCII only the Kelvin sign and the
dotted capital I have a small form that starts in ASCII; the others have one that stays beyond it,
and the readable part replaces every such letter by one dash. -/
def lowered (c : Char) : List Char :=
  if c = '\u212a' then ['k']
  else if c = '\u0130' then ['i', '\u0307']
  else [c.toLower]

def isAsciiAlphanum (c : Char) : Bool := c.isAlphanum

def isNameChar (c : Char) : Bool := isAsciiAlphanum c || c == '-' || c == '.'

def sanitized (c : Char) : Char := if isNameChar c then c else '-'

def isFiller (c : Char) : Bool := c == '-' || c == '.'

/-- Text without dashes and dots at both ends. -/
def trimFiller (cs : List Char) : List Char :=
  ((cs.dropWhile isFiller).reverse.dropWhile isFiller).reverse

def joined (kind ns name : String) : String :=
  if ns = "" then kind ++ "-" ++ name else kind ++ "-" ++ ns ++ "-" ++ name

/-- The readable part of the name. -/
def readable (kind ns name : String) : List Char :=
  trimFiller
    ((((joined kind ns name).toList.flatMap lowered).map sanitized).take readableLength)

/-! ## The hash -/

/-- One step of FNV-1a. -/
def fnvStep (hash : UInt64) (byte : UInt8) : UInt64 := (hash ^^^ byte.toUInt64) * 0x100000001b3

/-- FNV-1a over 64 bits. -/
def fnv1a (bytes : List UInt8) : UInt64 := bytes.foldl fnvStep 0xcbf29ce484222325

/-- The three texts with a NUL between them, as bytes. -/
def identityBytes (kind ns name : String) : List UInt8 :=
  kind.toUTF8.toList ++ 0 :: (ns.toUTF8.toList ++ 0 :: name.toUTF8.toList)

/-- The lowest `n` hexadecimal digits of a number, the highest of them first. -/
def hexDigits : Nat → Nat → List Char
  | 0, _ => []
  | n + 1, value => hexDigits n (value / 16) ++ [Json.hexDigit (value % 16)]

def hashText (kind ns name : String) : List Char :=
  hexDigits hashLength (fnv1a (identityBytes kind ns name)).toNat

def chars (kind ns name : String) : List Char :=
  match readable kind ns name with
  | [] => hashText kind ns name
  | c :: rest => c :: rest ++ '-' :: hashText kind ns name

@[simp] theorem length_hexDigits (n value : Nat) : (hexDigits n value).length = n := by
  induction n generalizing value with
  | zero => rfl
  | succ n ih => simp [hexDigits, ih]

end RecordName

/-- The name of the status record for an object. -/
def recordName (kind ns name : String) : String :=
  String.ofList (RecordName.chars kind ns name)

end StatusRelay
