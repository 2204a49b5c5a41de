import StatusRelay.Json.Decode

/-!
# Labels

A label set holds one text under each of its keys, sorted by key. Two keys start a management
mark: a deployment record that carries either is one of this system's own.
-/
namespace StatusRelay

structure Labels where
  entries : List (String × String) := []
  deriving DecidableEq, Repr, Inhabited

namespace Labels

def find? (key : String) : List (String × String) → Option String
  | [] => none
  | e :: rest => if e.1 = key then some e.2 else find? key rest

/-- Files a value at the place of its key in the order. -/
def place (key value : String) : List (String × String) → List (String × String)
  | [] => [(key, value)]
  | e :: rest =>
      if e.1 = key then (key, value) :: rest
      else if key < e.1 then (key, value) :: e :: rest
      else e :: place key value rest

def get? (l : Labels) (key : String) : Option String := find? key l.entries

def insert (l : Labels) (key value : String) : Labels := ⟨place key value l.entries⟩

/-- Adds every entry of `changes`, over what was there. -/
def merge (l changes : Labels) : Labels :=
  changes.entries.foldl (fun l e => l.insert e.1 e.2) l

def ofList (entries : List (String × String)) : Labels := merge {} ⟨entries⟩

/-- Whether some key starts with `start`. -/
def hasKeyStarting (l : Labels) (start : String) : Bool :=
  l.entries.any fun e => start.toList.isPrefixOf e.1.toList

theorem find?_place (key value other : String) (entries : List (String × String)) :
    find? other (place key value entries) =
      if key = other then some value else find? other entries := by
  induction entries with
  | nil => simp [place, find?]
  | cons e rest ih =>
      by_cases h : e.1 = key
      · subst h
        by_cases ho : e.1 = other <;> simp [place, find?, ho]
      · by_cases hlt : key < e.1
        · simp [place, find?, h, hlt]
        · by_cases ho : e.1 = other
          · subst ho
            simp [place, find?, h, hlt, Ne.symm h]
          · simp [place, find?, h, hlt, ho, ih]

theorem get?_insert (l : Labels) (key value other : String) :
    (l.insert key value).get? other = if key = other then some value else l.get? other :=
  find?_place key value other l.entries

@[simp] theorem get?_insert_self (l : Labels) (key value : String) :
    (l.insert key value).get? key = some value := by
  simp [get?_insert]

/-- The mark of records labelled before the transport layer had its own. -/
def managedByMark : String := "managed-by.kubestellar.io"

/-- The mark that the transport layer puts on the records it owns. -/
def transportMark : String := "transport.kubestellar.io"

/-- The label by which an object asks for a status record of its own. -/
def singletonKey : String := "managed-by.kubestellar.io/singletonstatus"

/-- Whether the labels mark a deployment record as managed. -/
def isManaged (l : Labels) : Bool :=
  l.hasKeyStarting managedByMark || l.hasKeyStarting transportMark

def toJson (l : Labels) : Json := .obj (l.entries.map fun e => (e.1, .str e.2))

def ofJson (j : Json) : Json.Decoded Labels := do
  let members ← Json.asMembers j
  let entries ← members.mapM fun m => do
    let value ← Json.asText m.2
    pure (m.1, value)
  pure (ofList entries)

end Labels
end StatusRelay
