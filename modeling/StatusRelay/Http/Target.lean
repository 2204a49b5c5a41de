/-!
# Request targets

A target is what a request asks for: a path and, after a question mark, a query. It is built from a
text in which names stand as they are, so a name may bring a question mark, which ends the path
early, or a number sign, from which on the text is dropped. A name with a character that may not
stand in a target makes it impossible to build.

Parameters are written the way forms are sent: an ampersand before each, letters, digits and four
marks as they are, a blank as a plus sign, and the bytes of everything else in hexadecimal.
-/
namespace StatusRelay.Http

structure Target where
  path : String
  /-- What follows the question mark, as written. -/
  query : String := ""
  deriving DecidableEq, Repr

namespace Target

/-- The longest text of a target, in bytes. -/
def longest : Nat := 65534

/-- Controls, blanks, angle brackets, backquotes and the delete character may not stand in a path. -/
def isPathChar (c : Char) : Bool :=
  decide (' ' < c) && c != '<' && c != '>' && c != '\x60' && c != '\x7f'

/-- In a query a backquote may stand, but no quotation mark. -/
def isQueryChar (c : Char) : Bool :=
  decide (' ' < c) && c != '<' && c != '>' && c != '"' && c != '\x7f'

/-- The target that a text stands for; nothing if it cannot be built. -/
def ofText? (text : String) : Option Target :=
  let cs := text.toList.takeWhile (· != '#')
  let path := cs.takeWhile (· != '?')
  let query := (cs.dropWhile (· != '?')).drop 1
  if decide (text.utf8ByteSize ≤ longest) && path.all isPathChar && query.all isQueryChar then
    some ⟨String.ofList path, String.ofList query⟩
  else none

/-! ## Parameters -/

def upperHexDigit (n : Nat) : Char :=
  if n < 10 then Char.ofNat ('0'.toNat + n) else Char.ofNat ('A'.toNat + (n - 10))

def hexByte (b : UInt8) : List Char :=
  ['%', upperHexDigit (b.toNat / 16), upperHexDigit (b.toNat % 16)]

/-- Characters that a parameter holds as they are. -/
def isPlain (c : Char) : Bool :=
  c.isAlphanum || c == '*' || c == '-' || c == '.' || c == '_'

def encodeChar (c : Char) : List Char :=
  if isPlain c then [c]
  else if c = ' ' then ['+']
  else (String.utf8EncodeChar c).flatMap hexByte

def encode (text : String) : String := String.ofList (text.toList.flatMap encodeChar)

/-- The text of a target with parameters. -/
def withParameters (path : String) (parameters : List (String × String)) : String :=
  path ++ "?" ++ String.join (parameters.map fun p => "&" ++ encode p.1 ++ "=" ++ encode p.2)

/-- Splits a parameter at its first equals sign. -/
def splitParameter (text : String) : String × String :=
  let cs := text.toList
  (String.ofList (cs.takeWhile (· != '=')), String.ofList ((cs.dropWhile (· != '=')).drop 1))

/-- The parameters of a query, as written. -/
def parameters (t : Target) : List (String × String) :=
  ((t.query.splitOn "&").filter (· ≠ "")).map splitParameter

end Target
end StatusRelay.Http
