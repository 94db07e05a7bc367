import GrammarEngine.Token.Basic

namespace GrammarEngine

/-!
# Places in a tree

A place is the way down from the root of a tree: which child to take at each level. Payloads are
assigned at a place, so that the whole tree has them afterwards.

* `Token.subtree?` — the tree at a place;
* `Token.graft` — the tree with another one at a place;
* `Token.leafPlaces` — the places of the tips, from left to right.
-/

/-- The way down from the root of a tree. -/
abbrev Place := List Nat

namespace Token

variable {α : Type}

/-- The tree at a place. -/
def subtree? (t : Token α) : Place → Option (Token α)
  | [] => some t
  | index :: rest =>
    match t.children[index]? with
    | some child => child.subtree? rest
    | none => none

/-- The tree with another one at a place. Where there is no such place nothing changes. -/
def graft (t : Token α) (place : Place) (new : Token α) : Token α :=
  match place, t with
  | [], _ => new
  | index :: rest, .node header children payload =>
    .node header (children.modify index fun child => child.graft rest new) payload
  | _ :: _, .sentinel which => .sentinel which

mutual

/-- The places of the tips of the tree, from left to right. -/
def leafPlaces : Token α → List Place
  | .node _ (child :: rest) _ => leafPlacesFrom 0 (child :: rest)
  | _ => [[]]

/-- The places of the tips of some trees, which are the children from a number on. -/
def leafPlacesFrom (index : Nat) : List (Token α) → List Place
  | [] => []
  | t :: rest => (leafPlaces t).map (index :: ·) ++ leafPlacesFrom (index + 1) rest

end

/-- A tree that is put at the root replaces all of it. -/
@[simp] theorem graft_nil (t new : Token α) : t.graft [] new = new := by
  cases t <;> rfl

end Token

end GrammarEngine
