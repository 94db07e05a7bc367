import GrammarEngine.Stream.Source
import GrammarEngine.Text.Excerpt

namespace GrammarEngine

/-!
# Character streams

A stream is a cursor over a text that moves backwards as well as forwards, because matching
backtracks all the time. Risky work is put between `save` and one of `discard` (it went well) and
`revert` (it did not). Running off either end is an `Exhausted`.

* `Stream` — the buffer, the source behind it, the position, the furthest position that was ever
  looked at, and the stack of saved positions;
* `StreamM` — operations on a stream, which keep the changes made before they fail;
* `ensure` — read until the buffer has a given length;
* `peek`, `next`, `hasNext`, `substring`, `advance`, `regress` — the cursor;
* `save`, `revert`, `discard`, `rewind`, `reset` — the saved positions;
* `location`, `context`, `render` — reports about a position.
-/

/-- A cursor over a text. -/
structure Stream where
  /-- The characters read so far. -/
  buffer : Array Char
  source : Source
  /-- Below zero it counts from the end of what was read so far. -/
  position : Int
  furthest : Nat
  /-- The saved positions, the last one first. -/
  saved : List Nat
  deriving Repr

/-- An operation on a stream. -/
abbrev StreamM := EStateM Error Stream

namespace Stream

/-- A stream over a text in memory. -/
def ofString (text : String) : Stream :=
  { buffer := text.toList.toArray, source := .memory, position := 0, furthest := 0, saved := [] }

/-- A stream over a file, of which nothing is read yet. -/
def ofFile (file : FileSource) : Stream :=
  { buffer := #[], source := .file file, position := 0, furthest := 0, saved := [] }

/-- The number of saved positions. -/
def depth (s : Stream) : Nat := s.saved.length

/-- A bound on the length of the text, read or not. -/
def extent (s : Stream) : Nat := s.buffer.size + s.source.unread

/-- A bound on the number of characters from the position on. -/
def remaining (s : Stream) : Nat := (s.extent - s.position : Int).toNat

/-! ### Reading -/

/-- Read more of the source into the buffer: as much as the buffer already holds, and no less
    than a chunk. Says whether there was any more. -/
def fill : StreamM Bool := fun s =>
  match s.source with
  | .memory => .ok false s
  | .file file =>
    if file.closed then .ok false s
    else match file.read (max file.chunk s.buffer.size) with
      | (.error e, file) => .error e { s with source := .file file }
      | (.ok [], file) => .ok false { s with source := .file file }
      | (.ok chars, file) =>
        .ok true { s with source := .file file, buffer := s.buffer ++ chars }

/-- Fill the buffer up to a length, in at most so many steps. -/
def fillUpTo (length : Nat) : (steps : Nat) → StreamM Bool
  | 0 => return length ≤ (← get).buffer.size
  | steps + 1 => do
    if length ≤ (← get).buffer.size then return true
    if ← fill then fillUpTo length steps else return false

/-- Read until the buffer has a given length. Says whether the text is that long. Every step but
    the last one reads a character, so their number is bounded by what is unread. -/
def ensure (length : Int) : StreamM Bool := do
  let s ← get
  if length ≤ s.buffer.size then return true
  fillUpTo length.toNat (s.source.unread + 1)

/-- Read no further. -/
def close : StreamM Unit :=
  modify fun s => match s.source with
    | .memory => s
    | .file file => { s with source := .file { file with closed := true } }

/-! ### The cursor -/

/-- The character at the position, which counts as looked at from now on. -/
def peek : StreamM Char := do
  modify fun s => { s with furthest := max s.furthest s.position.toNat }
  let position := (← get).position
  let _ ← ensure (position + 1)
  match charAt? (← get).buffer position with
  | some c => return c
  | none =>
    if position < 0 then throw (.index (.outside .text position))
    else throw (.exhausted (.noCharacter position))

/-- The character at the position, which is then left behind. -/
def next : StreamM Char := do
  let c ← peek
  modify fun s => { s with position := s.position + 1 }
  return c

/-- Is there a character at the position? It does not count as looked at. -/
def hasNext : StreamM Bool := do
  ensure ((← get).position + 1)

/-- The last `count` characters before the position. -/
def substring (count : Int) : StreamM String := do
  let s ← get
  if count < 0 ∨ s.position < count then throw (.exhausted (.lookBack count s.position))
  return excerpt s.buffer (s.position - count) s.position

/-- Move forwards. -/
def advance (count : Int) : StreamM Unit := do
  if count < 0 then throw (.value .negativeAdvance)
  let position := (← get).position
  if ← ensure (position + count) then
    modify fun s => { s with position := s.position + count }
  else throw (.exhausted (.advance count position))

/-- Move backwards. -/
def regress (count : Int) : StreamM Unit := do
  if count < 0 then throw (.value .negativeRegress)
  let s ← get
  if s.position < count then throw (.exhausted (.regress count s.position))
  set { s with position := s.position - count }

/-! ### Saved positions -/

/-- Can the position be saved? It is kept as an unsigned machine word, and a place in a text always
    fits into one. -/
def isSavable (s : Stream) : Bool :=
  0 ≤ s.position && (s.position < UInt64.size || s.position ≤ s.extent)

/-- Save the position. -/
def save : StreamM Unit := do
  let s ← get
  if s.isSavable then set { s with saved := s.position.toNat :: s.saved } else throw .overflow

/-- Go back to the last saved position, which is then forgotten. -/
def revert : StreamM Unit := do
  let s ← get
  match s.saved with
  | position :: saved => set { s with position := position, saved }
  | [] => throw (.index .popEmpty)

/-- Forget the last saved position. -/
def discard : StreamM Unit := do
  let s ← get
  match s.saved with
  | _ :: saved => set { s with saved }
  | [] => throw (.index .popEmpty)

/-- The stream at a position, with all saved positions forgotten but the first `depth`. -/
def rewind (s : Stream) (position : Int) (depth : Nat) : Stream :=
  { s with position, saved := s.saved.drop (s.depth - depth) }

/-- Go to a position, and forget all saved ones but the first `depth`. A negative depth says how
    many of the last ones to forget. -/
def reset (position depth : Int) : StreamM Unit :=
  modify fun s => s.rewind position (placeOf s.depth depth)

/-- What was saved last is forgotten first: what lay under the saved positions comes back. -/
@[simp] theorem saved_rewind (s : Stream) (position : Int) (above saved : List Nat)
    (h : s.saved = above ++ saved) : (s.rewind position saved.length).saved = saved := by
  simp [rewind, depth, h]

@[simp] theorem position_rewind (s : Stream) (position : Int) (depth : Nat) :
    (s.rewind position depth).position = position := rfl

/-! ### Reports -/

/-- The line and the column of a position, or of the current one. -/
def location (position : Option Int) : StreamM (Int × Int) := do
  let position := position.getD (← get).position
  let _ ← ensure position
  return locate (← get).buffer position

/-- A short excerpt around a position, or around the current one, with the character at that
    position in braces. -/
def context (position : Option Int) (width : Int) : StreamM String := do
  let position := position.getD (← get).position
  let _ ← ensure (position + width + 1)
  let buffer := (← get).buffer
  return excerpt buffer (max 0 (position - width)) position
    ++ "\x7b" ++ excerpt buffer position (position + 1)
    ++ "\x7d" ++ excerpt buffer (position + 1) (position + 1 + width)

/-- The number of characters shown on each side in an excerpt if nothing else is asked for. -/
def contextWidth : Int := 16

/-- The written form of a stream: its sort and the excerpt around its position. -/
def render : StreamM String := do
  let label := match (← get).source with
    | .memory => "StringCharStream"
    | .file _ => "FileCharStream"
  return label ++ "(" ++ quoted (← context none contextWidth) ++ ")"

end Stream

end GrammarEngine
