import GrammarEngine.Proofs.Notation.Writing

namespace GrammarEngine.Notation

/-!
# Literals, piece by piece

The pieces that quoted literals and classes are written in, with what each of them stands for.

* `Spelling` — a character, as itself or escaped;
* `quotedText` — characters between quotes; `plainly` — with no more escapes than are needed;
* `ClassItem`, `ClassText` — a class, part by part, whether its ranges are the right way round or
  not;
* `SpellsClass.exists_text` — where they are, this is how classes are written.
-/

/-! ### Characters -/

/-- How a character can be written: not with one that is reserved, but for the backslash. -/
theorem SpellsChar.head {reserved : List Char} {c : Char} {s : List Char}
    (h : SpellsChar reserved c s) :
    ∃ first s', s = first :: s' ∧ (first ∈ reserved → first = '\\') := by
  cases h with
  | raw free => exact ⟨_, [], rfl, fun hmem => absurd hmem free⟩
  | escaped mem => exact ⟨_, _, rfl, fun _ => rfl⟩
  | octal length_eq => exact ⟨_, _, rfl, fun _ => rfl⟩

/-- A way of writing a character where some characters cannot stand for themselves. -/
inductive Spelling (reserved : List Char)
  | raw (c : Char) (free : c ∉ reserved)
  | escaped (c : Char) (mem : c ∈ escapable)
  | octal (digits : List (Fin 8)) (length_eq : digits.length = 4)

namespace Spelling

variable {reserved : List Char}

/-- The character that is written. -/
def char : Spelling reserved → Char
  | .raw c _ => c
  | .escaped c _ => letter c
  | .octal digits _ => Char.ofNat (octalNumber digits)

/-- The text that it is written as. -/
def chars : Spelling reserved → List Char
  | .raw c _ => [c]
  | .escaped c _ => ['\\', c]
  | .octal digits _ => '\\' :: 'u' :: octalChars digits

theorem spells (s : Spelling reserved) : SpellsChar reserved s.char s.chars := by
  cases s with
  | raw c free => exact .raw free
  | escaped c mem => exact .escaped mem
  | octal digits length_eq => exact .octal length_eq

theorem exists_of_spells {c : Char} {cs : List Char} (h : SpellsChar reserved c cs) :
    ∃ s : Spelling reserved, s.char = c ∧ s.chars = cs := by
  cases h with
  | raw free => exact ⟨.raw c free, rfl, rfl⟩
  | escaped mem => exact ⟨.escaped _ mem, rfl, rfl⟩
  | octal length_eq => exact ⟨.octal _ length_eq, rfl, rfl⟩

/-- Four octal digits are the code point of the character that they stand for. -/
theorem toNat_char_octal {digits : List (Fin 8)} (length_eq : digits.length = 4) :
    (octal digits length_eq : Spelling reserved).char.toNat = octalNumber digits := by
  rw [char, Char.ofNat, dif_pos (isValidChar_octalNumber length_eq)]
  rfl

theorem head (s : Spelling reserved) :
    ∃ first rest, s.chars = first :: rest ∧ (first ∈ reserved → first = '\\') :=
  s.spells.head

end Spelling

/-! ### Between quotes -/

/-- Some characters between quotes. -/
def quotedText (items : List (Spelling quotedReserved)) : List Char :=
  '"' :: (items.flatMap Spelling.chars ++ ['"'])

theorem spellsChars (items : List (Spelling quotedReserved)) :
    SpellsChars (items.map Spelling.char) (items.flatMap Spelling.chars) := by
  induction items with
  | nil => exact .nil
  | cons item items ih => exact .cons item.spells ih

/-- What some characters between quotes are: one is a single character, and others are a text. -/
def quotedLiteral : List Char → Literal
  | [c] => .single c
  | cs => .several cs

/-- However they are written, they are read as that. -/
theorem spells_quotedText {items : List (Spelling quotedReserved)} (hne : items ≠ []) :
    Spells (quotedLiteral (items.map Spelling.char)) (quotedText items) := by
  rcases items with _ | ⟨item, _ | ⟨item', items⟩⟩
  · exact absurd rfl hne
  · have hsingle := Spells.single item.spells
    rwa [← List.append_nil item.chars] at hsingle
  · exact .several (spellsChars (item :: item' :: items)) (by simp)

theorem mem_quotedReserved {c : Char} : c ∈ quotedReserved ↔ c = '"' ∨ c = '\\' := by
  simp [quotedReserved]

/-- The spelling that escapes a character only where that is needed. -/
def plainly (c : Char) : Spelling quotedReserved :=
  if h : c ∈ quotedReserved then
    .escaped c (by rcases mem_quotedReserved.mp h with rfl | rfl <;> decide)
  else .raw c h

@[simp] theorem char_plainly (c : Char) : (plainly c).char = c := by
  unfold plainly
  split
  · rename_i h
    rcases mem_quotedReserved.mp h with rfl | rfl <;> rfl
  · rfl

theorem chars_plainly (c : Char) :
    (plainly c).chars = if c = '"' ∨ c = '\\' then ['\\', c] else [c] := by
  simp only [← mem_quotedReserved, plainly]
  split <;> rfl

/-! ### Classes -/

/-- An item of a class: a single character, or all from one to another. -/
inductive ClassItem
  | lone (c : Spelling classReserved)
  | span (low high : Spelling classReserved)

namespace ClassItem

/-- The range of an item. It is backwards if the first character is behind the other one. -/
def range : ClassItem → CodeRange
  | .lone c => ⟨c.char.toNat, c.char.toNat⟩
  | .span low high => ⟨low.char.toNat, high.char.toNat⟩

def chars : ClassItem → List Char
  | .lone c => c.chars
  | .span low high => low.chars ++ '-' :: high.chars

/-- An item begins like a character. -/
theorem head (item : ClassItem) :
    ∃ first rest, item.chars = first :: rest ∧ (first ∈ classReserved → first = '\\') := by
  cases item with
  | lone c => exact c.head
  | span low high =>
    obtain ⟨first, rest, hchars, hfirst⟩ := low.head
    exact ⟨first, rest ++ '-' :: high.chars, by rw [chars, hchars, List.cons_append], hfirst⟩

end ClassItem

/-- What is between the brackets of a class. First there can be all up to some character, then
    come the items, and then there can be some character and all behind it. -/
structure ClassText where
  upTo : Option (Spelling classReserved)
  items : List ClassItem
  onward : Option (Spelling classReserved)

namespace ClassText

/-- The ranges but for the first one, if that has no lower end. -/
def later (c : ClassText) : CharClass :=
  c.items.map ClassItem.range ++ c.onward.toList.map fun s => ⟨s.char.toNat, maxCodePoint⟩

/-- The ranges of the class: one for each part, in their order. -/
def ranges (c : ClassText) : CharClass :=
  c.upTo.toList.map (fun s => ⟨0, s.char.toNat⟩) ++ c.later

def laterChars (c : ClassText) : List Char :=
  c.items.flatMap ClassItem.chars ++ c.onward.toList.flatMap fun s => s.chars ++ ['-']

/-- The text between the brackets. -/
def chars (c : ClassText) : List Char :=
  c.upTo.toList.flatMap (fun s => '-' :: s.chars) ++ c.laterChars

/-- Is no item backwards? -/
def isOrdered (c : ClassText) : Bool :=
  c.items.all fun item => item.range.low ≤ item.range.high

/-- The text in its brackets. -/
def text (c : ClassText) : List Char := '[' :: (c.chars ++ [']'])

end ClassText

/-- Ranges that are the right way round are written as the parts of a class. -/
theorem SpellsRanges.exists_text {ranges : CharClass} {s : List Char} (h : SpellsRanges ranges s)
    (upTo : Option (Spelling classReserved)) :
    ∃ c : ClassText, c.upTo = upTo ∧ c.isOrdered = true ∧ c.later = ranges ∧ c.laterChars = s := by
  induction h with
  | nil => exact ⟨⟨upTo, [], none⟩, rfl, rfl, rfl, rfl⟩
  | onward char =>
    obtain ⟨s, rfl, rfl⟩ := Spelling.exists_of_spells char
    exact ⟨⟨upTo, [], some s⟩, rfl, rfl, rfl, by simp [ClassText.laterChars]⟩
  | @cons range ranges s s' first later ih =>
    obtain ⟨⟨upTo, items, onward⟩, rfl, hordered, rfl, rfl⟩ := ih
    obtain ⟨item, hitem, rfl, rfl⟩ : ∃ item : ClassItem, item.range.low ≤ item.range.high ∧
        item.range = range ∧ item.chars = s := by
      cases first with
      | span lower upper ordered =>
        obtain ⟨low, rfl, rfl⟩ := Spelling.exists_of_spells lower
        obtain ⟨high, rfl, rfl⟩ := Spelling.exists_of_spells upper
        exact ⟨.span low high, ordered, rfl, rfl⟩
      | lone char =>
        obtain ⟨c, rfl, rfl⟩ := Spelling.exists_of_spells char
        exact ⟨.lone c, Nat.le_refl _, rfl, rfl⟩
    refine ⟨⟨upTo, item :: items, onward⟩, rfl, ?_, rfl, by simp [ClassText.laterChars]⟩
    rw [ClassText.isOrdered, List.all_cons, decide_eq_true hitem]
    exact hordered

/-- Classes whose ranges are the right way round are those that are meant. -/
theorem SpellsClass.exists_text {ranges : CharClass} {s : List Char} (h : SpellsClass ranges s) :
    ∃ c : ClassText, c.isOrdered = true ∧ c.ranges = ranges ∧ c.chars = s := by
  cases h with
  | ranges all =>
    obtain ⟨c, hupTo, hordered, rfl, rfl⟩ := all.exists_text none
    exact ⟨c, hordered, by simp [ClassText.ranges, hupTo], by simp [ClassText.chars, hupTo]⟩
  | upTo char later =>
    obtain ⟨first, rfl, rfl⟩ := Spelling.exists_of_spells char
    obtain ⟨c, hupTo, hordered, rfl, rfl⟩ := later.exists_text (some first)
    exact ⟨c, hordered, by simp [ClassText.ranges, hupTo], by simp [ClassText.chars, hupTo]⟩

end GrammarEngine.Notation
