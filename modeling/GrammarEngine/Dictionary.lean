namespace GrammarEngine

/-!
# Dictionaries in order of insertion

A dictionary maps names to values and remembers the order in which the names came in.

* `get?`, `contains`, `keys` — what it holds;
* `insert` — a new name goes to the end, an old one keeps its place and gets the new value;
* `erase` — without a name; coming in again, it goes to the end.
-/

/-- Names and their values, in the order in which the names came in. -/
structure Dictionary (α : Type) where
  entries : List (String × α)

namespace Dictionary

variable {α : Type}

/-- The dictionary without names. -/
def empty : Dictionary α := ⟨[]⟩

instance : Inhabited (Dictionary α) := ⟨empty⟩

/-- The value of a name. -/
def get? (d : Dictionary α) (key : String) : Option α := d.entries.lookup key

/-- Is the name in the dictionary? -/
def contains (d : Dictionary α) (key : String) : Bool := (d.get? key).isSome

/-- The names in order. -/
def keys (d : Dictionary α) : List String := d.entries.map (·.1)

/-- The number of names. -/
def size (d : Dictionary α) : Nat := d.entries.length

/-- Insert into a list of entries: in place of the old one, or at the end. -/
def insertEntry (key : String) (value : α) : List (String × α) → List (String × α)
  | [] => [(key, value)]
  | (k, v) :: rest =>
    if k = key then (key, value) :: rest else (k, v) :: insertEntry key value rest

/-- Give a name a value. -/
def insert (d : Dictionary α) (key : String) (value : α) : Dictionary α :=
  ⟨insertEntry key value d.entries⟩

/-- Forget a name. -/
def erase (d : Dictionary α) (key : String) : Dictionary α :=
  ⟨d.entries.filter fun entry => entry.1 ≠ key⟩

/-- The dictionary of a list of entries, inserted one after the other. -/
def ofList (entries : List (String × α)) : Dictionary α :=
  entries.foldl (fun d entry => d.insert entry.1 entry.2) empty

@[simp] theorem get?_empty (key : String) : (empty : Dictionary α).get? key = none := rfl

theorem lookup_insertEntry (key : String) (value : α) (es : List (String × α)) (key' : String) :
    (insertEntry key value es).lookup key' =
      if key' = key then some value else es.lookup key' := by
  induction es with
  | nil => by_cases h : key' = key <;> simp [insertEntry, h]
  | cons entry es ih =>
    obtain ⟨k, v⟩ := entry
    by_cases hk : k = key
    · by_cases h : key' = key
      · simp [insertEntry, hk, h]
      · have hb : (key' == key) = false := by simpa using h
        simp [insertEntry, hk, List.lookup_cons, h, hb]
    · by_cases h : key' = k
      · have hkey : ¬ k = key := hk
        simp [insertEntry, hkey, h]
      · have hb : (key' == k) = false := by simpa using h
        simp [insertEntry, hk, List.lookup_cons, hb, ih]

@[simp] theorem get?_insert (d : Dictionary α) (key : String) (value : α) (key' : String) :
    (d.insert key value).get? key' = if key' = key then some value else d.get? key' :=
  lookup_insertEntry key value d.entries key'

end Dictionary

end GrammarEngine
