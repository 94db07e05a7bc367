import GrammarEngine.Token.Basic

namespace GrammarEngine.Token

open GrammarEngine

/-!
# Typed access to the children of a token

A listener is handed a raw token and digs into it. Each step says what it expects to find, and is
a `Mismatch` if it finds something else. Which steps there are depends on the form of the token;
a step that the token does not have is an error too, of another sort.

* `narrow` — the token itself, as one of a class;
* `item`, `childAt` — a child of a sequence by its index;
* `repetitions`, `allOf` — the children of a token that repeats;
* `only` — the child of a token that wraps at most one other;
* `size`, `isPresent` — how many children there are, and whether there are any.
-/

variable {α : Type}

/-- The token, if it belongs to a class. -/
def narrow (t : Token α) (expected : TokenClass) : Except Error (Token α) :=
  if expected.admits t.sort then .ok t
  else .error (.mismatch (.wrongToken t.name t.sort expected))

/-- The child that stands at an index, if it belongs to a class. -/
def expect (t : Token α) (index : Int) (expected : TokenClass) (found : Token α) :
    Except Error (Token α) :=
  if expected.admits found.sort then .ok found
  else .error (.mismatch (.wrongChild t.name index found.sort expected))

/-- The child at an index, if there is one and it belongs to a class. -/
def child (t : Token α) (index : Int) (expected : TokenClass) : Except Error (Token α) :=
  if index < 0 then .error (.mismatch (.noChild t.name t.children.length index))
  else match t.children[index.toNat]? with
    | none => .error (.mismatch (.noChild t.name t.children.length index))
    | some found => t.expect index expected found

/-- Does the token belong to a class? -/
def isOf (t : Token α) (cls : TokenClass) : Bool := cls.admits t.sort

/-- The child of a sequence at an index, whatever it is. -/
def item (t : Token α) (index : Int) : Except Error (Token α) :=
  if t.isOf .indexed then t.child index .any else .error .wrongType

/-- The child of a sequence at an index, of a class. -/
def childAt (t : Token α) (index : Int) (expected : TokenClass) : Except Error (Token α) :=
  if t.isOf .indexed then t.child index expected else .error .noAttribute

/-- The number of children of a sequence or of a token that repeats. -/
def size (t : Token α) : Except Error Nat :=
  if t.isOf .indexed || t.isOf .repeated then .ok t.children.length else .error .wrongType

/-- What a token that repeats has repeated. -/
def repetitions (t : Token α) : Except Error (List (Token α)) :=
  if t.isOf .repeated then .ok t.children else .error .noAttribute

/-- What a token that repeats has repeated, all of it of a class. -/
def allOf (t : Token α) (expected : TokenClass) : Except Error (List (Token α)) :=
  if t.isOf .repeated then
    t.children.zipIdx.mapM fun (found, index) => t.expect index expected found
  else .error .noAttribute

/-- What a token that wraps at most one other has in it, of a class. -/
def only (t : Token α) (expected : TokenClass) : Except Error (Token α) :=
  if t.isOf .single then t.child 0 expected else .error .noAttribute

/-- Has an optional or a repeated part matched at all? -/
def isPresent (t : Token α) : Except Error Bool :=
  if t.isOf (.only .star) || t.isOf (.only .option) then .ok !t.children.isEmpty
  else .error .noAttribute

/-- A child that is found is one of the children, and of the class that was asked for. -/
theorem child_eq_ok {t found : Token α} {index : Int} {expected : TokenClass}
    (h : t.child index expected = .ok found) :
    t.children[index.toNat]? = some found ∧ found.isOf expected = true := by
  unfold child at h
  split at h
  · cases h
  · split at h
    · cases h
    · rename_i c hc
      unfold expect at h
      split at h
      · rename_i hs
        cases h
        exact ⟨hc, hs⟩
      · cases h

end GrammarEngine.Token
