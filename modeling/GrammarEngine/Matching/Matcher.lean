import GrammarEngine.Matching.State
import GrammarEngine.Symbol.Basic
import GrammarEngine.Token.Basic

namespace GrammarEngine

/-!
# Matching

Matching is recursive descent with backtracking. The one rule is that a symbol that fails leaves
the stream where it found it. Two things go through every match beside the stream:

* the **skip** symbol, matched and thrown away between the parts of sequences and repetitions;
  inside a symbol with a lexical name nothing is skipped;
* the **guard**, the set of matches in progress. A symbol that is asked to match where it is in
  progress already fails at once instead of recursing for ever.

Definitions, from the inside out:

* `skipBefore`, `spanToken`, `coverToken` — what several shapes have in common;
* `matchMembers`, `matchAlternatives`, `matchRounds`, `matchLiteral` — the loops of the shapes;
* `matchSequence` … `matchText` — one function for each shape;
* `guarded` — the guard around a symbol, where running out of input becomes a failed match;
* `matchStep` — a symbol, given how to match the symbols it is made of;
* `matchWithin` — a symbol, with so many matches nested at most.
-/

/-- How a symbol is asked to match: by its reference and that of the skip symbol. `none` is a
    failed match. -/
abbrev Ask (α : Type) := (ref skip : Ref) → MatchM (Option (Token α))

open MatchM

variable {α : Type}

/-! ### Parts of the shapes -/

/-- Skip text in front of a part, unless it is the first one. Whether anything was there to skip
    makes no difference. -/
def skipBefore (ask : Ask α) (skip : Ref) (found : List (Token α)) : MatchM Unit := do
  if !found.isEmpty then
    let _ ← ask skip .zeroLength

/-- The token from `start` to `stop`, where the stream goes back to. What was skipped after
    `stop` is given back that way. -/
def spanToken (kind : Kind) (name : Name) (start stop : Int) (children : List (Token α)) :
    MatchM (Token α) := do
  let here ← position
  onStream (Stream.regress (here - stop))
  let substring ← onStream (Stream.substring (stop - start))
  return .node { kind, name, substring, start, ordinal := 0 } children none

/-- A token that covers what another one covers. -/
def coverToken (kind : Kind) (name : Name) (covered : Token α) (ordinal : Nat)
    (children : List (Token α)) : Token α :=
  .node { kind, name, substring := covered.substring, start := covered.start, ordinal }
    children none

/-! ### Sequences -/

/-- Match the members of a sequence. `stop` is where the last member that covers any text ended,
    and `found` are the tokens so far, the last one first. -/
def matchMembers (ask : Ask α) (skip : Ref) (stop : Int) (found : List (Token α)) :
    List Ref → MatchM (Option (Int × List (Token α)))
  | [] => return some (stop, found)
  | member :: rest => do
    skipBefore ask skip found
    match ← ask member skip with
    | none => return none
    | some token =>
      let stop ← if token.isEmpty then pure stop else position
      matchMembers ask skip stop (token :: found) rest

/-- All members in order. -/
def matchSequence (ask : Ask α) (name : Name) (skip : Ref) (members : List Ref) :
    MatchM (Option (Token α)) := do
  let start ← position
  onStream Stream.save
  match ← matchMembers ask skip start [] members with
  | none =>
    onStream Stream.revert
    return none
  | some (stop, found) =>
    onStream Stream.discard
    return some (← spanToken .sequence name start stop found.reverse)

/-! ### Choices -/

/-- Find the first alternative that matches, counting from `ordinal`. One that is in progress at
    this position would fail at once and is not even asked. -/
def matchAlternatives (g : Graph) (ask : Ask α) (skip : Ref) (start : Int) (ordinal : Nat) :
    List Ref → MatchM (Option (Nat × Token α))
  | [] => return none
  | member :: rest => do
    if ← isInProgress ((g.symbol member).name, start) then
      matchAlternatives g ask skip start (ordinal + 1) rest
    else
      match ← ask member skip with
      | some token => return some (ordinal, token)
      | none => matchAlternatives g ask skip start (ordinal + 1) rest

/-- The first alternative that matches. -/
def matchJunction (g : Graph) (ask : Ask α) (name : Name) (skip : Ref) (members : List Ref) :
    MatchM (Option (Token α)) := do
  let start ← position
  match ← matchAlternatives g ask skip start 0 members with
  | none => return none
  | some (ordinal, token) => return some (coverToken .junction name token ordinal [token])

/-! ### Repetitions -/

/-- Match the inner symbol again and again, `rounds` times at most. One repetition that covers no
    text counts; a second one in a row is dropped and ends the loop. `stop` is where the last
    repetition that covers any text ended, and `found` are the tokens so far, the last one
    first. -/
def matchRounds (ask : Ask α) (skip inner : Ref) :
    (rounds : Nat) → (stop : Int) → (afterEmpty : Bool) → (found : List (Token α)) →
      MatchM (Int × List (Token α))
  | 0, stop, _, found => return (stop, found)
  | rounds + 1, stop, afterEmpty, found => do
    skipBefore ask skip found
    match ← ask inner skip with
    | none => return (stop, found)
    | some token =>
      if !token.isEmpty then
        matchRounds ask skip inner rounds (← position) false (token :: found)
      else if afterEmpty then return (stop, found)
      else matchRounds ask skip inner rounds stop true (token :: found)

/-- One or more repetitions. Each one that covers text takes a character of what remains, no two
    others follow each other, and one more round ends the loop: that bounds the rounds. -/
def matchMultiple (ask : Ask α) (name : Name) (skip inner : Ref) : MatchM (Option (Token α)) := do
  let start ← position
  let rounds := 2 * (← get).stream.remaining + 2
  let (stop, found) ← matchRounds ask skip inner rounds start false []
  if found.isEmpty then return none
  return some (← spanToken .multiple name start stop found.reverse)

/-- None or one. This never fails. -/
def matchOption (ask : Ask α) (name : Name) (skip inner : Ref) : MatchM (Option (Token α)) := do
  match ← ask inner skip with
  | none => return some (.leaf .option name "" (← position) 0)
  | some token => return some (coverToken .option name token 0 [token])

/-- None or more. This never fails, and the repetitions are right under its token. -/
def matchStar (ask : Ask α) (name : Name) (skip repetition : Ref) :
    MatchM (Option (Token α)) := do
  match ← ask repetition skip with
  | none => return some (.leaf .star name "" (← position) 0)
  | some token => return some (coverToken .star name token 0 token.children)

/-! ### Characters and texts -/

/-- One character of a class. -/
def matchSwitch (name : Name) (ranges : CharClass) : MatchM (Option (Token α)) := do
  let start ← position
  let c ← onStream Stream.peek
  match ranges.find? c.toNat with
  | none => return none
  | some ordinal =>
    onStream (Stream.advance 1)
    return some (.leaf .switch name (← onStream (Stream.substring 1)) start ordinal)

/-- One particular character. -/
def matchCharacter (name : Name) (literal : Char) : MatchM (Option (Token α)) := do
  let start ← position
  if (← onStream Stream.peek) ≠ literal then return none
  onStream (Stream.advance 1)
  return some (.leaf .character name (.singleton literal) start 0)

/-- Read on while the characters are the expected ones. -/
def matchLiteral : List Char → StreamM Bool
  | [] => return true
  | expected :: rest => do
    if (← Stream.next) ≠ expected then return false
    matchLiteral rest

/-- An exact text. If the input ends within it, the position saved here stays saved: it is
    dropped where running out of input becomes a failed match. -/
def matchText (name : Name) (literal : String) : MatchM (Option (Token α)) := do
  let start ← position
  onStream Stream.save
  if ← onStream (matchLiteral literal.toList) then
    onStream Stream.discard
    return some (.leaf .text name literal start 0)
  else
    onStream Stream.revert
    return none

/-- A character that nothing is equal to. The input is looked at all the same. -/
def matchOddCharacter : MatchM (Option (Token α)) := do
  let _ ← onStream Stream.peek
  return none

/-- Read on while the characters have the expected code points. -/
def matchCodes : List Nat → StreamM Bool
  | [] => return true
  | expected :: rest => do
    if (← Stream.next).toNat ≠ expected then return false
    matchCodes rest

/-- A text that no input has as a whole: what comes before its first code point that is no
    character can be there. -/
def matchOddText (codes : List Nat) : MatchM (Option (Token α)) := do
  onStream Stream.save
  let _ ← onStream (matchCodes codes)
  onStream Stream.revert
  return none

/-! ### Any symbol -/

/-- Match a symbol under its guard: fail at once where it is in progress already, and turn running
    out of input into a failed match, with the stream as it was. -/
def guarded (name : Name) (body : MatchM (Option (Token α))) : MatchM (Option (Token α)) :=
  fun s =>
    let start := s.stream.position
    let depth := s.stream.depth
    let key := (name, start)
    if key ∈ s.guard then .ok none (s.report (.inProgress name start))
    else match body (s.enter key) with
      | .ok (some token) s =>
        .ok (some token) ((s.leave key).report (.matched name start token.substring))
      | .ok none s => .ok none ((s.leave key).report (.unmatched name start))
      | .error (.exhausted _) s =>
        let s := { s with stream := s.stream.rewind start depth }
        .ok none ((s.leave key).report (.unmatched name start))
      | .error e s => .error e (s.leave key)

/-- Match a symbol, given how to match the symbols it is made of. The zero-length symbol matches
    without further ado, an implicit one is what it refers to, and what is no symbol cannot
    match. -/
def matchStep (g : Graph) (ask : Ask α) : Ask α := fun ref skip =>
  let symbol := g.symbol ref
  let name := symbol.name
  let skip' := if name.isLexical then .zeroLength else skip
  match symbol.shape with
  | .zeroLength => return some (.sentinel .empty)
  | .implicit none => throw (.configuration (.neverDefined name))
  | .implicit (some target) => ask target skip
  | .sequence members => guarded name (matchSequence ask name skip' members)
  | .junction members => guarded name (matchJunction g ask name skip' members)
  | .multiple inner => guarded name (matchMultiple ask name skip' inner)
  | .option inner => guarded name (matchOption ask name skip' inner)
  | .star repetition => guarded name (matchStar ask name skip' repetition)
  | .switch ranges => guarded name (matchSwitch name ranges)
  | .anyCharacter => guarded name (matchSwitch name CharClass.all)
  | .text literal => guarded name (matchText name literal)
  | .character literal => guarded name (matchCharacter name literal)
  | .oddCharacter _ => guarded name matchOddCharacter
  | .oddText codes => guarded name (matchOddText codes)
  | .foreign => throw .noAttribute

/-- Match a symbol with at most `limit` matches nested in each other. -/
def matchWithin (g : Graph) : (limit : Nat) → Ask α
  | 0 => fun _ _ => throw .nestedTooDeeply
  | limit + 1 => matchStep g (matchWithin g limit)

/-- Match a symbol with nothing skipped inside it, which is how skip symbols are matched. -/
def consumeWithin (g : Graph) (limit : Nat) (ref : Ref) : MatchM (Option (Token α)) :=
  matchWithin g limit ref .zeroLength

/-- The limit on nested matches that parsing works with. -/
def nestingLimit : Nat := 480

end GrammarEngine
