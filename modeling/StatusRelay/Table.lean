/-!
# Finite tables

A table is a list of keyed values read through `get?`, the first value filed under a key.
`insert` overwrites a key where it stands and files a new key last, so the entries keep the order
in which their keys arrived; `erase` removes every entry of a key. All other facts about a table
that the later modules use are stated through `get?`, never through the list.
-/
namespace StatusRelay

structure Table (κ β : Type) where
  entries : List (κ × β) := []
  deriving DecidableEq, Repr

namespace Table

variable {κ β : Type} [DecidableEq κ]

instance : Inhabited (Table κ β) := ⟨{}⟩

def find? (k : κ) : List (κ × β) → Option β
  | [] => none
  | e :: rest => if e.1 = k then some e.2 else find? k rest

def put (k : κ) (v : β) : List (κ × β) → List (κ × β)
  | [] => [(k, v)]
  | e :: rest => if e.1 = k then (k, v) :: rest else e :: put k v rest

/-- The value filed under a key. -/
def get? (t : Table κ β) (k : κ) : Option β := find? k t.entries

def contains (t : Table κ β) (k : κ) : Bool := (t.get? k).isSome

def insert (t : Table κ β) (k : κ) (v : β) : Table κ β := ⟨put k v t.entries⟩

def erase (t : Table κ β) (k : κ) : Table κ β := ⟨t.entries.filter (fun e => !decide (e.1 = k))⟩

/-- Applies a change to the value under a key, if there is one. -/
def update (t : Table κ β) (k : κ) (f : β → β) : Table κ β :=
  match t.get? k with
  | none => t
  | some v => t.insert k (f v)

omit [DecidableEq κ] in
def keys (t : Table κ β) : List κ := t.entries.map Prod.fst

omit [DecidableEq κ] in
def values (t : Table κ β) : List β := t.entries.map Prod.snd

omit [DecidableEq κ] in
def size (t : Table κ β) : Nat := t.entries.length

def ofList (entries : List (κ × β)) : Table κ β :=
  entries.foldl (fun t e => t.insert e.1 e.2) {}

theorem find?_put (k l : κ) (v : β) (entries : List (κ × β)) :
    find? l (put k v entries) = if k = l then some v else find? l entries := by
  induction entries with
  | nil => simp [put, find?]
  | cons e rest ih =>
      by_cases h : e.1 = k
      · subst h
        by_cases hl : e.1 = l <;> simp [put, find?, hl]
      · by_cases hl : e.1 = l
        · subst hl
          simp [put, find?, h, Ne.symm h]
        · simp [put, find?, h, hl, ih]

theorem find?_filter (k l : κ) (entries : List (κ × β)) :
    find? l (entries.filter (fun e => !decide (e.1 = k))) =
      if k = l then none else find? l entries := by
  induction entries with
  | nil => simp [find?]
  | cons e rest ih =>
      by_cases h : e.1 = k
      · subst h
        by_cases hl : e.1 = l <;> simp_all [find?]
      · by_cases hl : e.1 = l
        · subst hl
          simp [find?, h, Ne.symm h]
        · simp [find?, h, hl, ih]

theorem get?_insert (t : Table κ β) (k l : κ) (v : β) :
    (t.insert k v).get? l = if k = l then some v else t.get? l :=
  find?_put k l v t.entries

@[simp] theorem get?_insert_self (t : Table κ β) (k : κ) (v : β) :
    (t.insert k v).get? k = some v := by
  simp [get?_insert]

theorem get?_erase (t : Table κ β) (k l : κ) :
    (t.erase k).get? l = if k = l then none else t.get? l :=
  find?_filter k l t.entries

@[simp] theorem get?_erase_self (t : Table κ β) (k : κ) : (t.erase k).get? k = none := by
  simp [get?_erase]

@[simp] theorem contains_eq_isSome (t : Table κ β) (k : κ) :
    t.contains k = (t.get? k).isSome := rfl

end Table
end StatusRelay
