set_option autoImplicit false
set_option relaxedAutoImplicit false

/-!
Finite maps as lists of entries in increasing order of their keys. Equal maps are equal lists, and
walking the list walks the keys in order.
-/

namespace ConceptSync

/-- Entries of a finite map. Every operation below keeps them in increasing order of keys. -/
abbrev Table (κ α : Type) := List (κ × α)

namespace Table

variable {κ α : Type} [DecidableEq κ] [LT κ] [DecidableLT κ]

def get? : Table κ α → κ → Option α
  | [], _ => none
  | (k, a) :: rest, key => if k = key then some a else get? rest key

def contains (t : Table κ α) (key : κ) : Bool := (t.get? key).isSome

/-- Set the value of a key, replacing the one it had. -/
def insert : Table κ α → κ → α → Table κ α
  | [], key, value => [(key, value)]
  | (k, a) :: rest, key, value =>
    if k = key then (key, value) :: rest
    else if key < k then (key, value) :: (k, a) :: rest
    else (k, a) :: insert rest key value

def erase : Table κ α → κ → Table κ α
  | [], _ => []
  | (k, a) :: rest, key => if k = key then rest else (k, a) :: erase rest key

/-- A table from entries in any order, later ones replacing earlier ones of the same key. -/
def ofList (entries : List (κ × α)) : Table κ α :=
  entries.foldl (fun t e => t.insert e.1 e.2) []

/-- All entries of both tables, those of the second winning. -/
def update (t : Table κ α) (other : Table κ α) : Table κ α :=
  other.foldl (fun t e => t.insert e.1 e.2) t

def keys (t : Table κ α) : List κ := t.map Prod.fst

def values (t : Table κ α) : List α := t.map Prod.snd

theorem get?_insert (t : Table κ α) (key : κ) (value : α) (other : κ) :
    (t.insert key value).get? other = if key = other then some value else t.get? other := by
  induction t with
  | nil => rfl
  | cons e rest ih =>
    obtain ⟨k, a⟩ := e
    simp only [insert]
    split
    · next h => subst h; simp only [get?]; split <;> simp_all
    · next h =>
      split
      · simp only [get?]
      · simp only [get?, ih]
        split
        · next h' => subst h'; simp [Ne.symm h]
        · rfl

@[simp] theorem get?_insert_self (t : Table κ α) (key : κ) (value : α) :
    (t.insert key value).get? key = some value := by
  simp [get?_insert]

end Table

end ConceptSync
