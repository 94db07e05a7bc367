namespace GrammarEngine

/-!
# Places in a text

Parts of a text by index, and where a position stands on the page.

* `placeOf` — the place that an index names; one below zero counts from the end;
* `charAt?` — the character at an index;
* `excerpt` — the part between two indices;
* `locate` — the line and the column of a position, both counted from one.
-/

/-- The place in a text of the given length that an index names: never before its start. -/
def placeOf (length : Nat) (index : Int) : Nat :=
  if index < 0 then (index + length).toNat else index.toNat

/-- The character that an index names, if there is one. -/
def charAt? (text : Array Char) (index : Int) : Option Char :=
  if index + text.size < 0 then none else text[placeOf text.size index]?

/-- The part of a text between two indices, cut off where the text ends. -/
def excerpt (text : Array Char) (first last : Int) : String :=
  String.ofList (text.extract (placeOf text.size first) (placeOf text.size last)).toList

/-- The line and the column of a position. A position beyond the text is the one at its end. The
    line is one more than the number of line feeds before the position; the column counts from
    the last of them. -/
def locate (text : Array Char) (position : Int) : Int × Int :=
  let position := min position text.size
  let stop := placeOf text.size position
  let before := text.toList.take stop
  let onLine := (before.reverse.takeWhile (· ≠ '\n')).length
  (before.count '\n' + 1, position - (before.length - onLine : Int) + 1)

example : locate "ab\n\ncd".toList.toArray 5 = (3, 2) := by decide
example : locate "ab\n\ncd".toList.toArray 2 = (1, 3) := by decide
example : locate "ab\n\ncd".toList.toArray 9 = (3, 3) := by decide

example : charAt? "abc".toList.toArray (-1) = some 'c' := by decide
example : charAt? "abc".toList.toArray (-4) = none := by decide

/-! ### Ordinary indices -/

@[simp] theorem placeOf_natCast (length n : Nat) : placeOf length n = n := by
  rw [placeOf, if_neg (by omega), Int.toNat_natCast]

@[simp] theorem charAt?_natCast (text : Array Char) (n : Nat) :
    charAt? text n = text[n]? := by
  rw [charAt?, if_neg (by omega), placeOf_natCast]

/-- Within a text the excerpt is what lies between the two positions. -/
theorem toList_excerpt (text : Array Char) (first last : Nat) :
    (excerpt text first last).toList = (text.toList.take last).drop first := by
  simp [excerpt, List.extract_eq_take_drop, List.drop_take]

end GrammarEngine
