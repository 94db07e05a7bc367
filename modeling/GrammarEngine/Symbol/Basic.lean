import GrammarEngine.Name
import GrammarEngine.Symbol.CharClass
import GrammarEngine.Text.Written
import GrammarEngine.WriteOnce

namespace GrammarEngine

/-!
# Symbols

A grammar is a graph of symbols: a rule is made of other symbols, and through forward references
it can lead back to itself.

* `Ref` — a reference to a symbol: the zero-length symbol, or a node of a graph by its number; or
  to something that is no symbol but stands where one belongs;
* `Shape` — what a symbol is made of;
* `Symbol` — a name and a shape;
* `Graph` — the symbols that have been made so far; a symbol is told apart from every other one
  by its `Ref`, whatever its name.
-/

/-- A reference to a symbol. -/
inductive Ref
  /-- The symbol that matches the empty text. -/
  | zeroLength
  /-- A node of a graph. -/
  | node (index : Nat)
  /-- Something that is no symbol. It does no harm until it is looked at. -/
  | foreign
  deriving DecidableEq, Repr, Inhabited

/-- What a symbol is made of. -/
inductive Shape
  /-- All members in order, with skipped text between them. -/
  | sequence (members : List Ref)
  /-- Ordered choice: the first member that matches. -/
  | junction (members : List Ref)
  /-- One or more, with skipped text between them. -/
  | multiple (inner : Ref)
  /-- None or one. -/
  | option (inner : Ref)
  /-- None or more. The repetitions are the work of a nameless symbol, a `multiple`. -/
  | star (repetition : Ref)
  /-- One character of a class. -/
  | switch (ranges : CharClass)
  /-- Any one character. -/
  | anyCharacter
  /-- Exactly this text. -/
  | text (literal : String)
  /-- Exactly this character. -/
  | character (literal : Char)
  /-- A stand-in for a rule that is used before it is defined. The reference to the rule is
      filled in once. -/
  | implicit (reference : Option Ref)
  /-- The empty text. -/
  | zeroLength
  /-- A character whose literal is one value, but no character: nothing is equal to it. -/
  | oddCharacter (literal : Written)
  /-- A text, given by code points, with one among them that is no character: it never matches as
      a whole. -/
  | oddText (codes : List Nat)
  /-- Something that is no symbol. -/
  | foreign
  deriving DecidableEq, Repr

/-- The form of a symbol with this shape. -/
def Shape.kind : Shape → SymbolKind
  | .sequence _ => .plain .sequence
  | .junction _ => .plain .junction
  | .multiple _ => .plain .multiple
  | .option _ => .plain .option
  | .star _ => .plain .star
  | .switch _ => .plain .switch
  | .anyCharacter => .anyCharacter
  | .text _ | .oddText _ => .plain .text
  | .character _ | .oddCharacter _ => .plain .character
  | .implicit _ => .implicit
  | .zeroLength => .zeroLength
  | .foreign => .foreign

/-- A symbol: the name of the rule it belongs to, or a generated one, and its shape. -/
structure Symbol where
  name : Name
  shape : Shape
  deriving DecidableEq, Repr

namespace Symbol

/-- The symbol that matches the empty text. -/
def zeroLength : Symbol := ⟨.given "_zero", .zeroLength⟩

instance : Inhabited Symbol := ⟨zeroLength⟩

/-- The form of the symbol. -/
def kind (symbol : Symbol) : SymbolKind := symbol.shape.kind

/-- The written form of a symbol: its form and its name. -/
def render (symbol : Symbol) : String :=
  symbol.kind.label ++ "(" ++ quoted symbol.name.text ++ ")"

end Symbol

/-- The symbols that have been made so far. -/
structure Graph where
  nodes : Array Symbol
  deriving DecidableEq, Repr

namespace Graph

/-- The graph without symbols. -/
def empty : Graph := ⟨#[]⟩

instance : Inhabited Graph := ⟨empty⟩

/-- The symbol that a reference stands for. A reference to a node that was never made stands for
    the zero-length symbol. What is no symbol goes by a name that no node has. -/
def symbol (g : Graph) : Ref → Symbol
  | .zeroLength => .zeroLength
  | .foreign => ⟨.generated g.nodes.size, .foreign⟩
  | .node index => g.nodes.getD index .zeroLength

@[simp] theorem symbol_zeroLength (g : Graph) : g.symbol .zeroLength = .zeroLength := rfl

/-! ### Making symbols -/

/-- A name for a new node: the given one, or the one generated from the node's number. -/
def nameFor (g : Graph) : Option String → Name
  | some text => .given text
  | none => .generated g.nodes.size

/-- Make a symbol. -/
def add (name : Option String) (shape : Shape) : StateM Graph Ref := fun g =>
  (.node g.nodes.size, ⟨g.nodes.push ⟨g.nameFor name, shape⟩⟩)

/-- Make a symbol for none or more of another one, and the nameless one for its repetitions. -/
def addStar (name : Option String) (inner : Ref) : StateM Graph Ref := do
  let repetition ← add none (.multiple inner)
  add name (.star repetition)

/-- Make a copy of a symbol under another name. The two are apart from then on: a reference that
    is filled in later goes to one of them only. -/
def renamed (ref : Ref) (name : String) : StateM Graph Ref := do
  let symbol := (← get).symbol ref
  add (some name) symbol.shape

/-- Fill in the reference of an implicit symbol. -/
def resolve (g : Graph) (ref target : Ref) : Except Error Graph :=
  match ref with
  | .zeroLength | .foreign => .error .noAttribute
  | .node index =>
    let symbol := g.symbol ref
    match symbol.shape with
    | .implicit reference => do
      let reference ← WriteOnce.write "implicit symbol reference" reference target
      return ⟨g.nodes.setIfInBounds index { symbol with shape := .implicit reference }⟩
    | _ => .error .noAttribute

/-- A new symbol is found under its reference. -/
theorem symbol_add (name : Option String) (shape : Shape) (g : Graph) :
    ((add name shape).run g).2.symbol ((add name shape).run g).1 = ⟨g.nameFor name, shape⟩ := by
  simp [add, symbol, StateT.run]

/-- Making a symbol leaves the others as they are. -/
theorem symbol_add_of_lt (name : Option String) (shape : Shape) (g : Graph) {index : Nat}
    (h : index < g.nodes.size) :
    ((add name shape).run g).2.symbol (.node index) = g.symbol (.node index) := by
  have hlt : index < g.nodes.size + 1 := Nat.lt_succ_of_lt h
  simp [add, symbol, StateT.run, Array.getD_eq_getD_getElem?, Array.getElem?_push,
    Nat.ne_of_lt h]

end Graph

/-! ### Checked shapes -/

namespace Shape

/-- A sequence has at least one member. -/
def sequenceOf : List Ref → Except Error Shape
  | [] => .error (.value .emptySequence)
  | members => .ok (.sequence members)

/-- A junction has at least one member. -/
def junctionOf : List Ref → Except Error Shape
  | [] => .error (.value .emptyJunction)
  | members => .ok (.junction members)

/-- A character symbol is for a text of one character. -/
def characterOf (literal : String) : Except Error Shape :=
  match literal.toList with
  | [c] => .ok (.character c)
  | _ => .error (.value (.notOneCharacter (quoted literal)))

end Shape

end GrammarEngine
