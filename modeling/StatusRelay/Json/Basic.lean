/-!
# JSON documents

Whole numbers and floating-point numbers are different values even when they are numerically
equal, and a member holding `null` is different from an absent member. A document read from text
keeps its members as written, repeated ones included. `canonical` sorts the members of every object
by key and keeps the last of several members of one key; opaque documents are stored in that form,
in which `==` does not depend on the order in which members were written.

A value can be written in the right form and still stand for nothing. It is kept as a fault, so that
a reader who has no use for it can pass over it; a document without faults is sound.
-/
namespace StatusRelay

/-- Why a value that is written in the right form stands for nothing. -/
inductive Json.Fault where
  /-- A string, or a key of an object, has half a surrogate pair. -/
  | halfPair
  /-- A number is too large for a float. -/
  | outOfRange
  /-- An array or an object is nested too deep. -/
  | tooDeep
  deriving DecidableEq, Repr

inductive Json where
  | null
  | bool (value : Bool)
  | int (value : Int)
  | float (value : Float)
  | str (value : String)
  | arr (items : List Json)
  | obj (members : List (String × Json))
  | faulty (fault : Json.Fault)
  deriving Inhabited, Repr

namespace Json

/-- Files a member in a list sorted by key, unless the key is there already. -/
def placeMember (key : String) (value : Json) : List (String × Json) → List (String × Json)
  | [] => [(key, value)]
  | m :: rest =>
      if key < m.1 then (key, value) :: m :: rest
      else if key = m.1 then m :: rest
      else m :: placeMember key value rest

mutual

def canonical : Json → Json
  | .arr items => .arr (canonicalItems items)
  | .obj members => .obj (canonicalMembers members)
  | .null => .null
  | .bool b => .bool b
  | .int n => .int n
  | .float x => .float x
  | .str s => .str s
  | .faulty fault => .faulty fault

def canonicalItems : List Json → List Json
  | [] => []
  | item :: rest => canonical item :: canonicalItems rest

def canonicalMembers : List (String × Json) → List (String × Json)
  | [] => []
  | (key, value) :: rest => placeMember key (canonical value) (canonicalMembers rest)

end

mutual

def same : Json → Json → Bool
  | .null, .null => true
  | .bool a, .bool b => a == b
  | .int a, .int b => a == b
  | .float a, .float b => a == b
  | .str a, .str b => a == b
  | .arr a, .arr b => sameItems a b
  | .obj a, .obj b => sameMembers a b
  | .faulty a, .faulty b => a == b
  | _, _ => false

def sameItems : List Json → List Json → Bool
  | [], [] => true
  | a :: as, b :: bs => same a b && sameItems as bs
  | _, _ => false

def sameMembers : List (String × Json) → List (String × Json) → Bool
  | [], [] => true
  | (k, a) :: as, (l, b) :: bs => k == l && same a b && sameMembers as bs
  | _, _ => false

end

instance : BEq Json := ⟨same⟩

mutual

/-- Whether every part of a document stands for something. -/
def isSound : Json → Bool
  | .null | .bool _ | .int _ | .float _ | .str _ => true
  | .arr items => areSoundItems items
  | .obj members => areSoundMembers members
  | .faulty _ => false

def areSoundItems : List Json → Bool
  | [] => true
  | item :: rest => isSound item && areSoundItems rest

def areSoundMembers : List (String × Json) → Bool
  | [] => true
  | (_, value) :: rest => isSound value && areSoundMembers rest

end

/-- The last member of a key, which is the one that counts when a key is repeated. -/
def lastOf (key : String) : List (String × Json) → Option Json
  | [] => none
  | m :: rest => (lastOf key rest).or (if m.1 = key then some m.2 else none)

/-- A member of an object; nothing else has members. -/
def member? (key : String) : Json → Option Json
  | .obj members => lastOf key members
  | _ => none

def ofTexts (texts : List String) : Json := .arr (texts.map .str)

/-- An object of the members that are present. -/
def ofPresent (members : List (String × Option Json)) : Json :=
  .obj (members.filterMap fun m => m.2.map (m.1, ·))

end Json
end StatusRelay
