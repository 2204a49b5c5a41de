import StatusRelay.Json.Basic

/-!
# Reading typed values out of documents

A record of fixed fields is read from an object, in which unknown members are ignored and a known
one may stand only once, or from an array that gives the fields in their order. Free-form objects
and objects whose members may be null are read through `asMembers` and `present?`; there a repeated
member counts by its last value, but every value has to be of the right type.

A fault in a part that is ignored does not matter. A part that is kept as it is has to be sound.
-/
namespace StatusRelay.Json

/-- Why a document is not the value that was asked for. -/
inductive DecodeError where
  | expected (what : String)
  | missing (field : String)
  | repeated (field : String)
  | excess
  | outOfRange
  | unsound
  deriving DecidableEq, Repr

def DecodeError.text : DecodeError → String
  | .expected what => "expected " ++ what
  | .missing field => "missing field " ++ field
  | .repeated field => "repeated field " ++ field
  | .excess => "too many fields"
  | .outOfRange => "number out of range"
  | .unsound => "a value that stands for nothing"

abbrev Decoded (α : Type) := Except DecodeError α

def asText : Json → Decoded String
  | .str s => .ok s
  | _ => .error (.expected "a string")

def asBool : Json → Decoded Bool
  | .bool b => .ok b
  | _ => .error (.expected "a boolean")

/-- A whole number between two bounds; a float is no whole number. -/
def asIntWithin (low high : Int) : Json → Decoded Int
  | .int n => if low ≤ n ∧ n ≤ high then .ok n else .error .outOfRange
  | _ => .error (.expected "a whole number")

def asInt64 : Json → Decoded Int := asIntWithin (-Int.pow 2 63) (Int.pow 2 63 - 1)

def asNatBelow (bound : Nat) (j : Json) : Decoded Nat :=
  (asIntWithin 0 ((bound : Int) - 1) j).map Int.toNat

def asItems : Json → Decoded (List Json)
  | .arr items => .ok items
  | _ => .error (.expected "an array")

def asListOf {α : Type} (item : Json → Decoded α) (j : Json) : Decoded (List α) := do
  (← asItems j).mapM item

/-- A document that is kept as it is, in its canonical form. -/
def asOpaque (j : Json) : Decoded Json := if j.isSound then .ok j.canonical else .error .unsound

/-- The name of a case without data: a text, or an object that gives the case nothing. -/
def asCase : Json → Decoded String
  | .str name => .ok name
  | .obj [(name, .null)] => .ok name
  | _ => .error (.expected "a case")

/-- The members of an object. -/
def asMembers : Json → Decoded (List (String × Json))
  | .obj members => .ok members
  | _ => .error (.expected "an object")

def countOf (key : String) (members : List (String × Json)) : Nat :=
  members.countP (fun m => m.1 == key)

/-- The members of an object, after checking that no field is given twice. -/
def checkedMembers (names : List String) (j : Json) : Decoded (List (String × Json)) := do
  let members ← asMembers j
  match names.find? (fun name => decide (1 < countOf name members)) with
  | some name => .error (.repeated name)
  | none => .ok members

/-- Members of other names than these have to be sound. -/
def checkOthers (names : List String) (members : List (String × Json)) : Decoded Unit :=
  if members.all fun m => names.contains m.1 || m.2.isSound then .ok () else .error .unsound

/-- The fields of a record. -/
def asRecord (names : List String) : Json → Decoded (List (String × Json))
  | .arr items => if names.length < items.length then .error .excess else .ok (names.zip items)
  | j => checkedMembers names j

/-- A field that has to be there. -/
def needed {α : Type} (name : String) (value : Json → Decoded α) (fields : List (String × Json)) :
    Decoded α :=
  match lastOf name fields with
  | some j => value j
  | none => .error (.missing name)

/-- A field with a value to fall back on when it is absent. -/
def withDefault {α : Type} (default : α) (name : String) (value : Json → Decoded α)
    (fields : List (String × Json)) : Decoded α :=
  match lastOf name fields with
  | some j => value j
  | none => .ok default

/-- A value for which null stands for nothing. -/
def asOptional {α : Type} (value : Json → Decoded α) : Json → Decoded (Option α)
  | .null => .ok none
  | j => (value j).map some

/-- A member for which null and absence are the same. If it is repeated, the last value counts and
the others are checked. -/
def present? {α : Type} (name : String) (value : Json → Decoded α)
    (members : List (String × Json)) : Decoded (Option α) :=
  members.foldlM (fun found m => if m.1 = name then asOptional value m.2 else .ok found) none

/-- A member for which null and absence both mean the fallback. -/
def presentOr {α : Type} (default : α) (name : String) (value : Json → Decoded α)
    (members : List (String × Json)) : Decoded α :=
  (present? name value members).map (·.getD default)

end StatusRelay.Json
