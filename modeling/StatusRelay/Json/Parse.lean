import StatusRelay.Json.Number

/-!
# Reading JSON text

The grammar is the strict one: blanks are space, tab, line feed and carriage return, a string holds
no control character, a number has no leading zero, and nothing follows the document but blanks.
Members are kept as written.

`scan` checks the form alone. Half a surrogate pair, a number too large for a float and nesting
beyond 127 levels are no matter of form: they leave a fault in the document, and what lies too deep
is passed over without being kept. `parse` accepts a text only if the whole document is sound.
-/
namespace StatusRelay.Json

open Text (isDigit)

/-- Why a text is no document. -/
inductive SyntaxError where
  | endOfText
  | unexpected (found : Char)
  | badEscape
  | badNumber
  | trailing
  /-- The form is right, but some value stands for nothing. -/
  | unsound
  deriving DecidableEq, Repr

abbrev Reading (α : Type) := Except SyntaxError (α × List Char)

/-- Levels of nesting that a document may use. -/
def depthLimit : Nat := 127

def isGap (c : Char) : Bool := c == ' ' || c == '\n' || c == '\t' || c == '\r'

def skipGap (cs : List Char) : List Char := cs.dropWhile isGap

def unexpected : List Char → SyntaxError
  | [] => .endOfText
  | c :: _ => .unexpected c

/-- Reads a fixed word. -/
def readWord (value : Json) : List Char → List Char → Reading Json
  | [], cs => .ok (value, cs)
  | w :: ws, c :: cs => if w = c then readWord value ws cs else .error (.unexpected c)
  | _ :: _, [] => .error .endOfText

def hexValue? (c : Char) : Option Nat :=
  if '0' ≤ c ∧ c ≤ '9' then some (c.toNat - '0'.toNat)
  else if 'a' ≤ c ∧ c ≤ 'f' then some (c.toNat - 'a'.toNat + 10)
  else if 'A' ≤ c ∧ c ≤ 'F' then some (c.toNat - 'A'.toNat + 10)
  else none

/-- The code unit that four hexadecimal digits name. -/
def readUnit : List Char → Reading Nat
  | a :: b :: c :: d :: rest =>
      match hexValue? a, hexValue? b, hexValue? c, hexValue? d with
      | some a, some b, some c, some d => .ok (((a * 16 + b) * 16 + c) * 16 + d, rest)
      | _, _, _, _ => .error .badEscape
  | _ => .error .endOfText

/-- The character that a `\u` escape names; two escapes for one beyond the basic plane. Half a pair
names none. -/
def readCodePoint (cs : List Char) : Except SyntaxError (Option Char × List Char) := do
  let (unit, rest) ← readUnit cs
  if 0xDC00 ≤ unit ∧ unit ≤ 0xDFFF then .ok (none, rest)
  else if 0xD800 ≤ unit ∧ unit ≤ 0xDBFF then
    match rest with
    | '\\' :: 'u' :: pair =>
        let (second, after) ← readUnit pair
        if 0xDC00 ≤ second ∧ second ≤ 0xDFFF then
          .ok (some (Char.ofNat (0x10000 + (unit - 0xD800) * 0x400 + (second - 0xDC00))), after)
        else .ok (none, rest)
    | _ => .ok (none, rest)
  else .ok (some (Char.ofNat unit), rest)

def escapeValue? : Char → Option Char
  | '"' => some '"'
  | '\\' => some '\\'
  | '/' => some '/'
  | 'b' => some '\x08'
  | 'f' => some '\x0c'
  | 'n' => some '\n'
  | 'r' => some '\r'
  | 't' => some '\t'
  | _ => none

/-- Adds a character to what was read of a string, if both stand for something. -/
def addChar (c : Option Char) (acc : Option (List Char)) : Option (List Char) :=
  match c, acc with
  | some c, some cs => some (c :: cs)
  | _, _ => none

/-- The rest of a string after its opening quote; `acc` holds what was read, last first. A string
with half a surrogate pair is no text. -/
def readString : Nat → Option (List Char) → List Char → Reading (Option String)
  | 0, _, _ => .error .endOfText
  | _ + 1, _, [] => .error .endOfText
  | _ + 1, acc, '"' :: rest => .ok (acc.map fun cs => String.ofList cs.reverse, rest)
  | fuel + 1, acc, '\\' :: 'u' :: rest =>
      match readCodePoint rest with
      | .error e => .error e
      | .ok (c, rest) => readString fuel (addChar c acc) rest
  | fuel + 1, acc, '\\' :: c :: rest =>
      match escapeValue? c with
      | some v => readString fuel (addChar v acc) rest
      | none => .error .badEscape
  | fuel + 1, acc, c :: rest =>
      if c.toNat < 0x20 ∨ c = '\\' then .error (.unexpected c)
      else readString fuel (addChar c acc) rest

def readFraction (cs : List Char) : Reading (Option (List Char)) :=
  match cs with
  | '.' :: rest =>
      let digits := rest.takeWhile isDigit
      if digits.isEmpty then .error .badNumber else .ok (some digits, rest.dropWhile isDigit)
  | _ => .ok (none, cs)

def readExponentDigits (negative : Bool) (cs : List Char) : Reading (Option (Bool × List Char)) :=
  let digits := cs.takeWhile isDigit
  if digits.isEmpty then .error .badNumber
  else .ok (some (negative, digits), cs.dropWhile isDigit)

def readExponent (cs : List Char) : Reading (Option (Bool × List Char)) :=
  match cs with
  | e :: rest =>
      if e = 'e' ∨ e = 'E' then
        match rest with
        | '+' :: rest => readExponentDigits false rest
        | '-' :: rest => readExponentDigits true rest
        | _ => readExponentDigits false rest
      else .ok (none, cs)
  | [] => .ok (none, [])

def readWhole (cs : List Char) : Reading (List Char) :=
  match cs with
  | '0' :: rest =>
      match rest with
      | c :: _ => if isDigit c then .error .badNumber else .ok (['0'], rest)
      | [] => .ok (['0'], [])
  | _ =>
      let digits := cs.takeWhile isDigit
      if digits.isEmpty then .error (unexpected cs) else .ok (digits, cs.dropWhile isDigit)

def readMagnitude (negative : Bool) (cs : List Char) : Except SyntaxError (Json × List Char) := do
  let (whole, cs) ← readWhole cs
  let (fraction, cs) ← readFraction cs
  let (exponent, cs) ← readExponent cs
  let value := NumberText.value? ⟨negative, whole, fraction, exponent⟩
  .ok (value.getD (.faulty .outOfRange), cs)

def readNumber (cs : List Char) : Reading Json :=
  match cs with
  | '-' :: rest => readMagnitude true rest
  | _ => readMagnitude false cs

/-- A value without parts. -/
def readScalar (fuel : Nat) : List Char → Reading Json
  | [] => .error .endOfText
  | 'n' :: rest => readWord .null ['u', 'l', 'l'] rest
  | 't' :: rest => readWord (.bool true) ['r', 'u', 'e'] rest
  | 'f' :: rest => readWord (.bool false) ['a', 'l', 's', 'e'] rest
  | '"' :: rest =>
      match readString fuel (some []) rest with
      | .error e => .error e
      | .ok (s, rest) => .ok (s.elim (.faulty .halfPair) .str, rest)
  | rest => readNumber rest

/-- Reads a key and the colon after it. -/
def readKey (fuel : Nat) (cs : List Char) : Reading (Option String) :=
  match skipGap cs with
  | '"' :: rest =>
      match readString fuel (some []) rest with
      | .error e => .error e
      | .ok (key, rest) =>
          match skipGap rest with
          | ':' :: rest => .ok (key, rest)
          | rest => .error (unexpected rest)
  | rest => .error (unexpected rest)

/-! ## What is too deep -/

/-- What an open bracket holds. -/
inductive Bracket where
  | items
  | members
  deriving DecidableEq, Repr

/-- What may come next. -/
inductive Next where
  | value
  /-- A value, or the end of an array just opened. -/
  | item
  /-- A member, or the end of an object just opened. -/
  | firstMember
  | member
  /-- A comma or the closing bracket. -/
  | separator
  deriving DecidableEq, Repr

/-- Passes over values until every bracket is closed. -/
def passOver : Nat → List Bracket → Next → List Char → Except SyntaxError (List Char)
  | 0, _, _, _ => .error .endOfText
  | _ + 1, [], _, cs => .ok cs
  | fuel + 1, inner :: outer, next, cs =>
      match next, inner, skipGap cs with
      | .item, .items, ']' :: rest => passOver fuel outer .separator rest
      | .firstMember, .members, '\x7d' :: rest => passOver fuel outer .separator rest
      | .separator, .items, ']' :: rest => passOver fuel outer .separator rest
      | .separator, .members, '\x7d' :: rest => passOver fuel outer .separator rest
      | .separator, .items, ',' :: rest => passOver fuel (inner :: outer) .value rest
      | .separator, .members, ',' :: rest => passOver fuel (inner :: outer) .member rest
      | .separator, _, rest => .error (unexpected rest)
      | .firstMember, _, rest | .member, _, rest =>
          match readKey fuel rest with
          | .error e => .error e
          | .ok (_, rest) => passOver fuel (inner :: outer) .value rest
      | .value, _, '[' :: rest | .item, _, '[' :: rest =>
          passOver fuel (.items :: inner :: outer) .item rest
      | .value, _, '\x7b' :: rest | .item, _, '\x7b' :: rest =>
          passOver fuel (.members :: inner :: outer) .firstMember rest
      | .value, _, rest | .item, _, rest =>
          match readScalar fuel rest with
          | .error e => .error e
          | .ok (_, rest) => passOver fuel (inner :: outer) .separator rest

/-- Passes over an array or an object whose bracket has just been opened. -/
def passOverRest (fuel : Nat) (inner : Bracket) (next : Next) (cs : List Char) : Reading Json :=
  match passOver fuel [inner] next cs with
  | .error e => .error e
  | .ok rest => .ok (.faulty .tooDeep, rest)

/-! ## Documents -/

/-- An object whose members were read last first; one with a key that is no text is faulty. -/
def closeMembers : Option (List (String × Json)) → Json
  | some members => .obj members.reverse
  | none => .faulty .halfPair

def addMember (key : Option String) (value : Json) (acc : Option (List (String × Json))) :
    Option (List (String × Json)) :=
  match key, acc with
  | some key, some members => some ((key, value) :: members)
  | _, _ => none

mutual

/-- One value. Every call spends one unit of fuel, and `depth` levels may still be opened. Two units
for each character are enough, and they leave enough for the strings and for what is passed over. -/
def readValue : Nat → Nat → List Char → Reading Json
  | 0, _, _ => .error .endOfText
  | fuel + 1, depth, cs =>
      match skipGap cs with
      | '[' :: rest =>
          match depth with
          | 0 => passOverRest fuel .items .item rest
          | depth + 1 =>
              match skipGap rest with
              | ']' :: rest => .ok (.arr [], rest)
              | rest => readItems fuel depth [] rest
      | '\x7b' :: rest =>
          match depth with
          | 0 => passOverRest fuel .members .firstMember rest
          | depth + 1 =>
              match skipGap rest with
              | '\x7d' :: rest => .ok (.obj [], rest)
              | rest => readMembers fuel depth (some []) rest
      | rest => readScalar fuel rest

def readItems : Nat → Nat → List Json → List Char → Reading Json
  | 0, _, _, _ => .error .endOfText
  | fuel + 1, depth, acc, cs =>
      match readValue fuel depth cs with
      | .error e => .error e
      | .ok (item, rest) =>
          match skipGap rest with
          | ',' :: rest => readItems fuel depth (item :: acc) rest
          | ']' :: rest => .ok (.arr (item :: acc).reverse, rest)
          | rest => .error (unexpected rest)

def readMembers : Nat → Nat → Option (List (String × Json)) → List Char → Reading Json
  | 0, _, _, _ => .error .endOfText
  | fuel + 1, depth, acc, cs =>
      match readKey fuel cs with
      | .error e => .error e
      | .ok (key, rest) =>
          match readValue fuel depth rest with
          | .error e => .error e
          | .ok (value, rest) =>
              match skipGap rest with
              | ',' :: rest => readMembers fuel depth (addMember key value acc) rest
              | '\x7d' :: rest => .ok (closeMembers (addMember key value acc), rest)
              | rest => .error (unexpected rest)

end

/-- The document of a text of the right form, faults included. -/
def scan (text : String) : Except SyntaxError Json :=
  let cs := text.toList
  match readValue (2 * cs.length + 2) depthLimit cs with
  | .error e => .error e
  | .ok (value, rest) => if (skipGap rest).isEmpty then .ok value else .error .trailing

/-- The document that a text holds. -/
def parse (text : String) : Except SyntaxError Json :=
  match scan text with
  | .error e => .error e
  | .ok j => if j.isSound then .ok j else .error .unsound

end StatusRelay.Json
