import GrammarEngine.Symbol.RuleSet

namespace GrammarEngine.Notation

/-!
# The rules of the notation

The grammar of grammar texts, made by hand: there is nothing to parse its own description with
yet.

* `Maker` — a plan of a symbol, with one way of planning for each shape;
* `makeRules` — the plan of all rules, in the order of the description;
* `ruleSet` — the result.
-/

/-- How to make a symbol once its name is known. The parts of a rule are made without a name. -/
abbrev Maker := Option String → StateM Graph Ref

namespace Maker

/-- A symbol that is there already; it keeps its name. -/
def known (ref : Ref) : Maker := fun _ => return ref

/-- All parts in order. -/
def inOrder (parts : List Maker) : Maker := fun name => do
  Graph.add name (.sequence (← parts.mapM (· none)))

/-- The first part that matches. -/
def firstOf (parts : List Maker) : Maker := fun name => do
  Graph.add name (.junction (← parts.mapM (· none)))

/-- One or more. -/
def some (inner : Maker) : Maker := fun name => do
  Graph.add name (.multiple (← inner none))

/-- None or one. -/
def optional (inner : Maker) : Maker := fun name => do
  Graph.add name (.option (← inner none))

/-- None or more. -/
def many (inner : Maker) : Maker := fun name => do
  Graph.addStar name (← inner none)

/-- One character of some ranges. -/
def oneOf (ranges : CharClass) : Maker := fun name => Graph.add name (.switch ranges)

/-- One character, but none of these. -/
def noneOf (cs : List Char) : Maker := oneOf (CharClass.complement (cs.map Char.toNat))

/-- This character. -/
def char (c : Char) : Maker := fun name => Graph.add name (.character c)

/-- This text. -/
def text (literal : String) : Maker := fun name => Graph.add name (.text literal)

end Maker

/-- The range of characters from one to another. -/
def span (low high : Char) : CodeRange := ⟨low.toNat, high.toNat⟩

/-- The range of a single character. -/
def lone (c : Char) : CodeRange := span c c

open Maker in
/-- Make the symbols of the notation. -/
def makeRules : StateM Graph (Dictionary Ref) := do
  let rule (name : String) (maker : Maker) : StateM Graph Ref := maker name
  -- Names and digits.
  let ID ← rule "ID" (inOrder [
    oneOf [span 'a' 'z', span 'A' 'Z'],
    many (oneOf [span 'a' 'z', span 'A' 'Z', span '0' '9', lone '_'])])
  let DIGIT ← rule "DIGIT" (oneOf [span '0' '9'])
  -- Characters inside literals.
  let escape ← rule "escape" (inOrder [char '\\', firstOf [
    oneOf (['t', 'n', 'r', '"', '\'', '-', '\\', ']'].map lone),
    inOrder [char 'u', known DIGIT, known DIGIT, known DIGIT, known DIGIT]]])
  let plain ← rule "char" (firstOf [known escape, noneOf ['"', '\\']])
  let rangeChar ← rule "range_char" (firstOf [known escape, noneOf ['-', '\\', ']']])
  -- Literals.
  let switch ← rule "switch" (firstOf [
    text "[-]",
    inOrder [
      char '[',
      optional (inOrder [char '-', known rangeChar]),
      many (firstOf [
        inOrder [known rangeChar, char '-', known rangeChar],
        inOrder [known rangeChar, char '-'],
        known rangeChar]),
      char ']']])
  let character ← rule "character" (inOrder [char '"', known plain, char '"'])
  let string ← rule "text" (inOrder [char '"', some (known plain), char '"'])
  let LITERAL ← rule "LITERAL" (firstOf [known switch, known character, known string])
  -- Expressions. Parentheses need the symbol at the top of them, which is made last.
  let symbolLater ← Graph.add "symbol" (.implicit none)
  let atom ← rule "atom" (firstOf [
    inOrder [char '(', known symbolLater, char ')'], known ID, known LITERAL])
  let multiple ← rule "multiple" (inOrder [known atom, char '+'])
  let option ← rule "option" (inOrder [known atom, char '?'])
  let star ← rule "star" (inOrder [known atom, char '*'])
  let factor ← rule "factor" (firstOf [known multiple, known option, known star, known atom])
  let sequence ← rule "sequence" (some (known factor))
  let junction ← rule "junction" (inOrder [
    known sequence, some (inOrder [char '|', known sequence])])
  let symbol ← rule "symbol" (firstOf [known junction, known sequence])
  modify fun g => (g.resolve symbolLater symbol).toOption.getD g
  -- Rules.
  let definition ← rule "rule" (inOrder [known ID, char ':', known symbol, char ';'])
  let start ← rule "start" (some (known definition))
  -- White space and comments.
  let skip ← rule "skip" (some (firstOf [
    some (oneOf [span '\x00' ' ']),
    inOrder [
      text "/*",
      many (firstOf [noneOf ['*'], inOrder [some (char '*'), noneOf ['*', '/']]]),
      some (char '*'),
      char '/'],
    inOrder [text "//", many (noneOf ['\n'])]]))
  return .ofList [
    ("ID", ID), ("DIGIT", DIGIT), ("escape", escape), ("char", plain), ("range_char", rangeChar),
    ("switch", switch), ("character", character), ("text", string), ("LITERAL", LITERAL),
    ("atom", atom), ("multiple", multiple), ("option", option), ("star", star),
    ("factor", factor), ("sequence", sequence), ("junction", junction), ("symbol", symbol),
    ("rule", definition), ("start", start), ("skip", skip)]

/-- The rules of the notation. -/
def ruleSet : RuleSet :=
  let (rules, graph) := makeRules.run Graph.empty
  { graph, rules }

/-- Every rule goes by its own name. -/
theorem name_of_mem_rules :
    ∀ entry ∈ ruleSet.rules.entries, (ruleSet.graph.symbol entry.2).name = .given entry.1 := by
  decide +kernel

end GrammarEngine.Notation
