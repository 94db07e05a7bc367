import GrammarEngine.Grammar.Basic
import GrammarEngine.Notation.Rules
import GrammarEngine.Token.Access

namespace GrammarEngine.Notation

/-!
# From the tree of a grammar text to its rules

The listeners of the notation. They turn the tree of a grammar text into symbols, from the tips
up, and collect the rules on the way.

* `Value` — what a part of a grammar text is turned into;
* `Draft` — the rules so far, and stand-ins for those that are used but not defined yet;
* one listener for each rule that has a meaning of its own: `escape`, `char`, `switch`,
  `character`, `text`, `atom`, `multiple`, `option`, `star`, `sequence`, `junction`, `rule`,
  `start`; `listeners` has them all.

The listeners work with any grammar that has rules of these names. Where such a grammar makes a
tree of another form they find values that they did not make themselves. A value that cannot be
used is an error, but a symbol can be made of parts that are no symbols: those do no harm until
they are looked at.
-/

/-- What a part of a grammar text is turned into. -/
inductive Value
  | nothing
  | text (s : String)
  /-- Half of a surrogate pair. It is no character, but a class can have it for a bound. -/
  | surrogate (code : Nat)
  | symbol (ref : Ref)
  | list (values : List Value)
  | rules (rules : Dictionary Ref)

instance : PayloadType Value := ⟨.nothing, .list⟩

/-- What is known while a grammar text is walked. -/
structure Draft where
  graph : Graph
  /-- The rules defined so far. -/
  rules : Dictionary Ref
  /-- Stand-ins for rules that have been used but not yet defined. -/
  pending : Dictionary Ref

namespace Draft

/-- Nothing is known yet. -/
def empty : Draft := { graph := .empty, rules := .empty, pending := .empty }

/-- Make a nameless symbol. -/
def addPart (d : Draft) (shape : Shape) : Value × Draft :=
  let (ref, graph) := (Graph.add none shape).run d.graph
  (.symbol ref, { d with graph })

/-- The symbol that a name refers to: the rule if it is defined, else its stand-in, which is made
    when it is first needed. -/
def reference (d : Draft) (name : String) : Ref × Draft :=
  match d.rules.get? name with
  | some ref => (ref, d)
  | none =>
    match d.pending.get? name with
    | some ref => (ref, d)
    | none =>
      let (ref, graph) := (Graph.add (some name) (.implicit none)).run d.graph
      (ref, { d with graph, pending := d.pending.insert name ref })

/-- Define a rule, and fill in the references that were made to it before. -/
def define (d : Draft) (name : String) (body : Ref) : Except Error (Ref × Draft) := do
  let (ref, graph) := (Graph.renamed body name).run d.graph
  let d := { d with graph, rules := d.rules.insert name ref }
  match d.pending.get? name with
  | none => return (ref, d)
  | some standIn =>
    let graph ← d.graph.resolve standIn ref
    return (ref, { d with graph, pending := d.pending.erase name })

end Draft

/-- A listener that only looks at the token and the draft. -/
abbrev Step := Token Value → Draft → Except Error (Value × Draft)

namespace Value

/-- A value as a part of a symbol. -/
def asPart : Value → Ref
  | .symbol ref => ref
  | _ => .foreign

/-- The code points of a text. -/
def codes : Value → Except Error (List Nat)
  | .text s => .ok (s.toList.map Char.toNat)
  | .surrogate code => .ok [code]
  | _ => .error .wrongType

/-- A value as the code point of a single character. -/
def codePoint (value : Value) : Except Error Nat := do
  match ← value.codes with
  | [code] => return code
  | _ => throw .wrongType

mutual

/-- How a value is written. -/
def written (g : Graph) : Value → Written
  | .nothing => .nothing
  | .text s => .text s
  | .surrogate code => .word (String.ofList (['\''] ++ escapeCode code ++ ['\'']))
  | .symbol ref => .word (g.symbol ref).render
  | .list values => .row .square (writtenAll g values)
  | .rules table => .row .curly <| table.entries.map fun (name, ref) =>
    .word (quoted name ++ ": " ++ (g.symbol ref).render)

/-- How some values are written. -/
def writtenAll (g : Graph) : List Value → List Written
  | [] => []
  | value :: rest => written g value :: writtenAll g rest

end

/-- The number of elements of a value that has any. -/
def size : Value → Except Error Nat
  | .text s => .ok s.length
  | .surrogate _ => .ok 1
  | .list values => .ok values.length
  | .rules table => .ok table.size
  | .nothing | .symbol _ => .error .wrongType

/-- A value as the literal of a character symbol: whatever has one element, be it a text or
    not. -/
def asCharacter (g : Graph) (value : Value) : Except Error Shape := do
  let written := value.written g
  match value, ← value.size with
  | .text s, _ => Shape.characterOf s
  | _, 1 => return .oddCharacter written
  | _, _ => throw (.value (.notOneCharacter written.render))

end Value

/-- The shape for the text of some code points, all of which may be characters or not. -/
def textShape (codes : List Nat) : Shape :=
  if codes.all Nat.isValidChar then .text (String.ofList (codes.map Char.ofNat))
  else .oddText codes

/-! ### Characters -/

/-- What the letter after a backslash stands for. -/
def escapedLetter : String → String
  | "t" => "\t"
  | "n" => "\n"
  | "r" => "\r"
  | letter => letter

/-- Is the character an octal digit? -/
def isOctal (c : Char) : Bool := '0' ≤ c && c ≤ '7'

/-- The number that octal digits spell. -/
def octalValue (digits : List Char) : Nat :=
  digits.foldl (fun n c => n * 8 + (c.toNat - '0'.toNat)) 0

/-- An escape stands for one character. A number beyond the code points is one error, and a number
    beyond the machine integers of 32 bits another. -/
def escape : Step := fun t d => do
  let which ← t.childAt 1 (.only .junction)
  if which.ordinal = 0 then
    return (.text (escapedLetter (← which.only .any).substring), d)
  let digits := (← which.only (.only .sequence)).substring.toList.drop 1
  if digits.any (!isOctal ·) then throw (.parse (t.error "Malformed escape value"))
  if digits.isEmpty then throw (.value (.notOctal ""))
  let code := octalValue digits
  if code.isValidChar then return (.text (.singleton (Char.ofNat code)), d)
  else if code ≤ maxCodePoint then return (.surrogate code, d)
  else if code ≤ Int32.maxValue.toInt then throw (.value .noSuchCodePoint)
  else throw .overflow

/-- A character is an escape or stands for itself. -/
def char : Step := fun t d => do
  if t.ordinal = 0 then return (← (← t.only .any).payload, d)
  else return (.text t.substring, d)

/-! ### Literals -/

/-- The range of code points that an item of a class stands for. -/
def itemRange (item : Token Value) : Except Error CodeRange := do
  let bound (index : Int) : Except Error Nat := do
    (← (← (← item.only (.only .sequence)).item index).payload).codePoint
  match item.ordinal with
  | 0 =>
    let low ← bound 0
    let high ← bound 2
    if low > high then throw (.parse (item.error "Character range is backwards"))
    return ⟨low, high⟩
  | 1 => return ⟨← bound 0, maxCodePoint⟩
  | _ =>
    let code ← (← (← item.only .any).payload).codePoint
    return ⟨code, code⟩

/-- A class has a range for its first part, which has no lower bound, if there is one, and one
    for each item. The bounds are collected part by part, and checked in the end. -/
def switch : Step := fun t d => do
  if t.ordinal = 0 then return d.addPart .anyCharacter
  let body ← t.only (.only .sequence)
  let upTo ← body.childAt 1 (.only .option)
  let first ← if ← upTo.isPresent then
      let high ← (← (← (← upTo.only (.only .sequence)).item 1).payload).codePoint
      Bounds.empty.push ⟨0, high⟩
    else pure Bounds.empty
  let items ← (← body.childAt 2 (.only .star)).allOf (.only .junction)
  let bounds ← items.foldlM (fun bounds item => do bounds.push (← itemRange item)) first
  return d.addPart (.switch (← bounds.toClass))

/-- A single character between quotes. -/
def character : Step := fun t d => do
  let literal ← (← t.item 1).payload
  return d.addPart (← literal.asCharacter d.graph)

/-- Several characters between quotes. -/
def text : Step := fun t d => do
  let chars ← (← t.childAt 1 (.only .multiple)).repetitions
  let codes ← (← chars.mapM Token.payload).mapM Value.codes
  return d.addPart (textShape codes.flatten)

/-! ### Expressions -/

/-- An atom is what is between its parentheses, a reference, or a literal. -/
def atom : Step := fun t d => do
  match t.ordinal with
  | 0 => return (← (← (← t.only (.only .sequence)).item 1).payload, d)
  | 1 =>
    let (ref, d) := d.reference (← t.only .any).substring
    return (.symbol ref, d)
  | _ => return (← (← t.only .any).payload, d)

/-- One or more. -/
def multiple : Step := fun t d => do
  return d.addPart (.multiple (← (← t.item 0).payload).asPart)

/-- None or one. -/
def option : Step := fun t d => do
  return d.addPart (.option (← (← t.item 0).payload).asPart)

/-- None or more. -/
def star : Step := fun t d => do
  let inner := (← (← t.item 0).payload).asPart
  let (ref, graph) := (Graph.addStar none inner).run d.graph
  return (.symbol ref, { d with graph })

/-- A sequence of one part is that part. -/
def sequence : Step := fun t d => do
  match ← (← t.repetitions).mapM Token.payload with
  | [member] => return (member, d)
  | values => return d.addPart (← Shape.sequenceOf (values.map Value.asPart))

/-- A choice between two or more. -/
def junction : Step := fun t d => do
  let first ← (← t.item 0).payload
  let alternatives ← (← t.childAt 1 (.only .multiple)).allOf (.only .sequence)
  let rest ← alternatives.mapM fun alternative => do (← alternative.item 1).payload
  return d.addPart (← Shape.junctionOf ((first :: rest).map Value.asPart))

/-! ### Rules -/

/-- A rule is a copy of its body under its name. No name may be defined twice, and a body that is
    another rule is refused. -/
def rule : Step := fun t d => do
  let name := (← t.item 0).substring
  let body ← (← t.item 2).payload
  if d.rules.contains name then
    let message := "Rule '" ++ name ++ "' is defined more than once"
    throw (.parse (t.error message))
  match body with
  | .symbol ref =>
    if !(d.graph.symbol ref).name.isAnonymous then
      throw (.parse (t.error "Delegation to another named symbol is forbidden"))
    let (ref, d) ← d.define name ref
    return (.symbol ref, d)
  | _ => throw .noAttribute

/-- At the end every name that was used has to be defined. -/
def start : Step := fun _ d => do
  let missing := d.pending.keys
  if !missing.isEmpty then
    throw (.configuration (.undefinedRules (missing.mergeSort fun a b => decide (a ≤ b))))
  return (.rules d.rules, d)

/-- The listeners by the rules that they belong to. -/
def listeners : Dictionary (Listener Draft Value) := .ofList <| List.map
  (fun entry => (entry.1, Listener.ofStep entry.2)) [
    ("escape", escape), ("char", char), ("range_char", char), ("switch", switch),
    ("character", character), ("text", text), ("atom", atom), ("multiple", multiple),
    ("option", option), ("star", star), ("sequence", sequence), ("junction", junction),
    ("rule", rule), ("start", start)]

end GrammarEngine.Notation
