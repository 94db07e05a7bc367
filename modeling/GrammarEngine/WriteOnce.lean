import GrammarEngine.Error

namespace GrammarEngine.WriteOnce

/-!
# Cells that are written once

Some things are not known from the beginning and must not change once they are known: the payload
of a token, the rule that an implicit symbol stands for. Such a cell is empty or has a value, and
what it is for names it in errors.

* `read` — the value, which is an error while there is none;
* `write` — give an empty cell its value; a second time it is an error.
-/

variable {α : Type}

/-- Read a cell. -/
def read (what : String) : (cell : Option α) → Except Error α
  | some value => .ok value
  | none => .error (.configuration (.unassigned what))

/-- Write a cell. -/
def write (what : String) (cell : Option α) (value : α) : Except Error (Option α) :=
  match cell with
  | none => .ok (some value)
  | some _ => .error (.configuration (.assignedTwice what))

@[simp] theorem read_some (what : String) (value : α) : read what (some value) = .ok value := rfl

@[simp] theorem write_none (what : String) (value : α) :
    write what none value = .ok (some value) := rfl

/-- What was written is read back. -/
theorem read_of_write {what : String} {cell cell' : Option α} {value : α}
    (h : write what cell value = .ok cell') : read what cell' = .ok value := by
  cases cell with
  | none => cases h; rfl
  | some old => cases h

end GrammarEngine.WriteOnce
