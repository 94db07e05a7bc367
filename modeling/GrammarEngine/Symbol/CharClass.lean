import GrammarEngine.WordVector

namespace GrammarEngine

/-!
# Character classes

A character class is a list of ranges of code points, both ends included. The order of the ranges
matters: a character counts as a member of the first range that holds it.

* `CharClass.find?` — the index of the first range with a code point;
* `Bounds`, `CharClass.ofBounds` — the lower and the upper bounds of a class, and the class that
  they make, checked;
* `CharClass.of` — a class from single characters and pairs;
* `CharClass.complement` — every code point but the given ones, in as few ranges as possible;
* `CharClass.excluding` — the class of all characters but the given ones, checked too.
-/

/-- The greatest code point. -/
def maxCodePoint : Nat := 0x10ffff

/-- A range of code points, both ends included. -/
structure CodeRange where
  low : Nat
  high : Nat
  deriving DecidableEq, Repr

/-- Is the code point in the range? -/
def CodeRange.contains (r : CodeRange) (code : Nat) : Bool := r.low ≤ code && code ≤ r.high

/-- A range holds what lies between its ends. -/
@[simp] theorem CodeRange.contains_iff (r : CodeRange) (code : Nat) :
    r.contains code = true ↔ r.low ≤ code ∧ code ≤ r.high := by
  simp [CodeRange.contains]

/-- The range is the right way round and within the code points. -/
def CodeRange.IsProper (r : CodeRange) : Prop := r.low ≤ r.high ∧ r.high ≤ maxCodePoint

/-- A list of ranges, in the order in which they are tried. -/
abbrev CharClass := List CodeRange

namespace CharClass

/-- The index of the first range that holds a code point. -/
def find? (ranges : CharClass) (code : Nat) : Option Nat :=
  ranges.findIdx? (·.contains code)

/-- The ends of the ranges decide which one is found. -/
theorem find?_eq (ranges : CharClass) (code : Nat) :
    ranges.find? code = ranges.findIdx? fun range => range.low ≤ code ∧ code ≤ range.high := by
  rw [find?]
  congr
  funext range
  rw [CodeRange.contains, Bool.decide_and]

/-- A class that has a code point has it in one of its ranges. -/
theorem isSome_find? (ranges : CharClass) (code : Nat) :
    (ranges.find? code).isSome = ranges.any (·.contains code) := by
  rw [find?, List.findIdx?_isSome]

theorem any_of_find? {ranges : CharClass} {code index : Nat}
    (h : ranges.find? code = some index) : ranges.any (·.contains code) = true := by
  rw [← ranges.isSome_find? code, h]
  rfl

/-- The class of all characters. -/
def all : CharClass := [⟨0, maxCodePoint⟩]

/-! ### Checked classes -/

/-- The ranges between bounds that belong together. Each has to be the right way round and within
    the code points. -/
def pairUp : List Nat → List Nat → Except Error CharClass
  | low :: lows, high :: highs =>
    if low > high ∨ high > maxCodePoint then .error (.value (.badRange low high))
    else return ⟨low, high⟩ :: (← pairUp lows highs)
  | _, _ => .ok []

/-- The class with the given lower and upper bounds, of which there must be equally many. -/
def ofBounds (lower upper : WordVector) : Except Error CharClass :=
  if lower.size ≠ upper.size then .error (.value (.boundsDiffer lower.size upper.size))
  else pairUp lower.toList upper.toList

theorem pairUp_of_isProper {ranges : CharClass} (h : ∀ r ∈ ranges, r.IsProper) :
    pairUp (ranges.map (·.low)) (ranges.map (·.high)) = .ok ranges := by
  induction ranges with
  | nil => rfl
  | cons r ranges ih =>
    obtain ⟨⟨hordered, hinside⟩, hranges⟩ := List.forall_mem_cons.mp h
    have hfits : ¬ (r.low > r.high ∨ r.high > maxCodePoint) := by omega
    rw [List.map_cons, List.map_cons, pairUp, if_neg hfits, ih hranges]
    rfl

/-- The bounds of proper ranges pass the checks. -/
theorem ofBounds_of_isProper {lower upper : WordVector} {ranges : CharClass}
    (hlower : lower.toList = ranges.map (·.low)) (hupper : upper.toList = ranges.map (·.high))
    (h : ∀ r ∈ ranges, r.IsProper) : ofBounds lower upper = .ok ranges := by
  have hsize : lower.size = upper.size := by
    rw [← WordVector.length_toList, ← WordVector.length_toList, hlower, hupper, List.length_map,
      List.length_map]
  rw [ofBounds, if_neg fun h => h hsize, hlower, hupper]
  exact pairUp_of_isProper h

/-- A single character, or all from one to another. The texts have to be one character long. -/
inductive Item
  | single (text : String)
  | span (low high : String)
  deriving DecidableEq, Repr

/-- The range that an item stands for. -/
def Item.range : Item → Except Error CodeRange
  | .single text => do
    let code ← codePointOf text
    return ⟨code, code⟩
  | .span low high => do
    let low ← codePointOf low
    return ⟨low, ← codePointOf high⟩

/-- The class of some items, in their order. -/
def of (items : List Item) : Except Error CharClass := do
  let ranges ← items.mapM Item.range
  pairUp (ranges.map (·.low)) (ranges.map (·.high))

/-! ### Complements -/

/-- Put a number into an increasing list, unless it is there. -/
def insertSorted (n : Nat) : List Nat → List Nat
  | [] => [n]
  | m :: rest =>
    if n < m then n :: m :: rest
    else if n = m then m :: rest
    else m :: insertSorted n rest

/-- The numbers of a list in increasing order, each once. -/
def sortedSet (ns : List Nat) : List Nat := ns.foldr insertSorted []

/-- The code points from `start` on that are not in an increasing list. -/
def gapsFrom (start : Nat) : List Nat → CharClass
  | [] => if start ≤ maxCodePoint then [⟨start, maxCodePoint⟩] else []
  | code :: rest =>
    if start < code then ⟨start, code - 1⟩ :: gapsFrom (code + 1) rest
    else gapsFrom (code + 1) rest

/-- The class of all characters but those with the given code points. -/
def complement (codes : List Nat) : CharClass := gapsFrom 0 (sortedSet codes)

/-- The class of all characters but those with the given code points, made from its bounds and
    checked like any other class. -/
def excludingCodes (codes : List Nat) : Except Error CharClass := do
  let ranges := complement codes
  let lower ← WordVector.ofInts (ranges.map fun r => (r.low : Int))
  let upper ← WordVector.ofInts (ranges.map fun r => (r.high : Int))
  ofBounds lower upper

/-- The class of all characters but the given ones. The texts have to be one character long. -/
def excluding (texts : List String) : Except Error CharClass := do
  excludingCodes (← texts.mapM codePointOf)

example : complement [0x22, 0x5c, 0x22] = [⟨0, 0x21⟩, ⟨0x23, 0x5b⟩, ⟨0x5d, maxCodePoint⟩] := by
  decide

@[simp] theorem mem_insertSorted (n m : Nat) (ns : List Nat) :
    m ∈ insertSorted n ns ↔ m = n ∨ m ∈ ns := by
  induction ns with
  | nil => simp [insertSorted]
  | cons k ns ih =>
    unfold insertSorted
    split
    · simp
    · split
      · rename_i h
        subst h
        simp
      · simp only [List.mem_cons, ih]
        exact or_left_comm

/-- Sorting keeps exactly the numbers of the list. -/
@[simp] theorem mem_sortedSet (m : Nat) (ns : List Nat) : m ∈ sortedSet ns ↔ m ∈ ns := by
  unfold sortedSet
  induction ns with
  | nil => simp
  | cons n ns ih => simp [ih]

end CharClass

/-! ### Bounds -/

/-- The bounds of some ranges, the lower ones and the upper ones. -/
structure Bounds where
  lower : WordVector
  upper : WordVector
  deriving DecidableEq, Repr

namespace Bounds

/-- There are no ranges yet. -/
def empty : Bounds := ⟨.empty, .empty⟩

/-- Add a range at the end. -/
def push (b : Bounds) (r : CodeRange) : Except Error Bounds := do
  return ⟨← b.lower.push r.low, ← b.upper.push r.high⟩

/-- The class that the bounds make, checked. -/
def toClass (b : Bounds) : Except Error CharClass := CharClass.ofBounds b.lower b.upper

/-- The bounds are those of the ranges, which are proper. -/
structure Hold (b : Bounds) (ranges : CharClass) : Prop where
  lower_eq : b.lower.toList = ranges.map (·.low)
  upper_eq : b.upper.toList = ranges.map (·.high)
  proper : ∀ r ∈ ranges, r.IsProper

theorem empty_hold : empty.Hold [] := ⟨rfl, rfl, by simp⟩

/-- A proper range can be added. -/
theorem Hold.push {b : Bounds} {ranges : CharClass} {r : CodeRange} (h : b.Hold ranges)
    (hr : r.IsProper) : ∃ b', b.push r = .ok b' ∧ b'.Hold (ranges ++ [r]) := by
  -- A code point takes 21 bits, and a word has 64.
  have hword : maxCodePoint < UInt64.size := by decide
  obtain ⟨hordered, hinside⟩ := hr
  obtain ⟨lower, hlower, hlows⟩ := b.lower.push_of_lt (n := r.low) (by omega)
  obtain ⟨upper, hupper, hhighs⟩ := b.upper.push_of_lt (n := r.high) (by omega)
  refine ⟨⟨lower, upper⟩, ?_, ?_, ?_, ?_⟩
  · rw [Bounds.push, hlower, hupper]
    rfl
  · rw [hlows, h.lower_eq, List.map_append]
    rfl
  · rw [hhighs, h.upper_eq, List.map_append]
    rfl
  · exact List.forall_mem_append.mpr ⟨h.proper, List.forall_mem_singleton.mpr ⟨hordered, hinside⟩⟩

theorem Hold.toClass {b : Bounds} {ranges : CharClass} (h : b.Hold ranges) :
    b.toClass = .ok ranges :=
  CharClass.ofBounds_of_isProper h.lower_eq h.upper_eq h.proper

end Bounds

end GrammarEngine
