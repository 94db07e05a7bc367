import GrammarEngine.Notation.Compiler

namespace GrammarEngine.Notation

/-!
# What a grammar text says

A grammar text without its spelling: no positions, no gaps, no parentheses. What the rules of a
text come to is a matter of this alone.

* `Literal`, `Expr` — the literals and the expressions;
* `Expr.build` — the symbols for an expression, made in a draft;
* `RuleText` — a rule, with the text that it is refused with if it has to be;
* `RuleText.build`, `buildRules`, `buildGrammar` — the symbols for a rule, for some rules, and for
  a whole grammar.

The literals of a text may be faulty, and an expression is over any type of literals: over
`Except ParseError Literal` it is what was read, over `Literal` it is what was meant.
-/

/-! ### Expressions -/

/-- What a literal says. -/
inductive Literal
  /-- Any character. -/
  | any
  /-- A character of a class. -/
  | oneOf (ranges : CharClass)
  /-- This character. -/
  | single (c : Char)
  /-- This text. -/
  | several (cs : List Char)
  deriving DecidableEq, Repr

/-- The shape of the symbol for a literal. -/
def Literal.shape : Literal → Shape
  | .any => .anyCharacter
  | .oneOf ranges => .switch ranges
  | .single c => .character c
  | .several cs => .text (String.ofList cs)

/-- How often an expression may come. -/
inductive Count
  | oneOrMore
  | optional
  | noneOrMore
  deriving DecidableEq, Repr

/-- An expression of a grammar text, over a type of literals. -/
inductive Expr (L : Type)
  | reference (name : String)
  | literal (value : L)
  | repeated (count : Count) (inner : Expr L)
  | sequence (members : List (Expr L))
  | choice (members : List (Expr L))
  deriving Repr

namespace Expr

variable {L M : Type}

/-- Is the expression just the name of a rule? -/
def isReference : Expr L → Bool
  | .reference _ => true
  | _ => false

/-- Some expressions in sequence. A single one stands for itself. -/
def inSequence : List (Expr L) → Expr L
  | [e] => e
  | es => .sequence es

mutual

/-- The expression with other literals. -/
def map (f : L → M) : Expr L → Expr M
  | .reference name => .reference name
  | .literal value => .literal (f value)
  | .repeated count inner => .repeated count (map f inner)
  | .sequence members => .sequence (mapAll f members)
  | .choice members => .choice (mapAll f members)

/-- Some expressions with other literals. -/
def mapAll (f : L → M) : List (Expr L) → List (Expr M)
  | [] => []
  | e :: es => map f e :: mapAll f es

end

mutual

/-- The names that an expression refers to. -/
def names : Expr L → List String
  | .reference name => [name]
  | .literal _ => []
  | .repeated _ inner => names inner
  | .sequence members | .choice members => namesAll members

/-- The names that some expressions refer to. -/
def namesAll : List (Expr L) → List String
  | [] => []
  | e :: es => names e ++ namesAll es

end

theorem names_inSequence (es : List (Expr L)) : (inSequence es).names = namesAll es := by
  unfold inSequence
  split
  · simp [namesAll]
  · rw [names]

end Expr

/-! ### Building -/

namespace Draft

/-- Make a nameless symbol. -/
def add (d : Draft) (shape : Shape) : Ref × Draft :=
  let (ref, graph) := (Graph.add none shape).run d.graph
  (ref, { d with graph })

/-- Make a symbol for so many of another one. -/
def addRepeated (d : Draft) (inner : Ref) : Count → Ref × Draft
  | .oneOrMore => d.add (.multiple inner)
  | .optional => d.add (.option inner)
  | .noneOrMore =>
    let (ref, graph) := (Graph.addStar none inner).run d.graph
    (ref, { d with graph })

/-- Defining a rule, with the copy of its body written out. -/
theorem define_eq (d : Draft) (name : String) (body : Ref) :
    d.define name body =
      let ref : Ref := .node d.graph.nodes.size
      let graph : Graph := ⟨d.graph.nodes.push ⟨.given name, (d.graph.symbol body).shape⟩⟩
      match d.pending.get? name with
      | none => .ok (ref, { graph, rules := d.rules.insert name ref, pending := d.pending })
      | some standIn => (graph.resolve standIn ref).map fun graph =>
        (ref, { graph, rules := d.rules.insert name ref, pending := d.pending.erase name }) := by
  show (match d.pending.get? name with | none => _ | some standIn => _) = _
  cases d.pending.get? name with
  | none => rfl
  | some standIn => rfl

end Draft

mutual

/-- Make the symbols for an expression. -/
def Expr.build : Expr (Except ParseError Literal) → Draft → Except Error (Ref × Draft)
  | .reference name, d => .ok (d.reference name)
  | .literal (.ok value), d => .ok (d.add value.shape)
  | .literal (.error e), _ => .error (.parse e)
  | .repeated count inner, d => do
    let (ref, d) ← inner.build d
    return d.addRepeated ref count
  | .sequence members, d => do
    let (refs, d) ← Expr.buildAll members d
    return d.add (.sequence refs)
  | .choice members, d => do
    let (refs, d) ← Expr.buildAll members d
    return d.add (.junction refs)

/-- Make the symbols for some expressions, one after the other. -/
def Expr.buildAll : List (Expr (Except ParseError Literal)) → Draft →
    Except Error (List Ref × Draft)
  | [], d => .ok ([], d)
  | e :: es, d => do
    let (ref, d) ← e.build d
    let (refs, d) ← Expr.buildAll es d
    return (ref :: refs, d)

end

/-! ### Rules -/

/-- The letters that a name can begin with. -/
def isLetter (c : Char) : Bool := 'a' ≤ c && c ≤ 'z' || 'A' ≤ c && c ≤ 'Z'

/-- The characters that a name can go on with. -/
def isWordChar (c : Char) : Bool := isLetter c || '0' ≤ c && c ≤ '9' || c == '_'

/-- Is the text a name that a rule can have? -/
def isID (s : String) : Bool :=
  match s.toList with
  | [] => false
  | first :: rest => isLetter first && rest.all isWordChar

theorem isLetter_iff (c : Char) : isLetter c = true ↔
    97 ≤ c.toNat ∧ c.toNat ≤ 122 ∨ 65 ≤ c.toNat ∧ c.toNat ≤ 90 := by
  simp only [isLetter, Bool.or_eq_true, Bool.and_eq_true, decide_eq_true_eq, Char.le_def,
    UInt32.le_iff_toNat_le]
  rfl

theorem isWordChar_iff (c : Char) : isWordChar c = true ↔
    97 ≤ c.toNat ∧ c.toNat ≤ 122 ∨ 65 ≤ c.toNat ∧ c.toNat ≤ 90 ∨
      48 ≤ c.toNat ∧ c.toNat ≤ 57 ∨ c.toNat = 95 := by
  have hline : c = '_' ↔ c.toNat = 95 :=
    ⟨fun h => h ▸ rfl, fun h => by rw [← Char.ofNat_toNat c, h]⟩
  simp only [isWordChar, Bool.or_eq_true, isLetter_iff, Bool.and_eq_true, decide_eq_true_eq,
    Char.le_def, UInt32.le_iff_toNat_le, beq_iff_eq, hline, or_assoc]
  rfl

/-- A rule as a grammar text gives it. -/
structure RuleText where
  name : String
  body : Expr (Except ParseError Literal)
  /-- The text of the whole rule. -/
  source : String
  /-- Where that text starts. -/
  start : Int

namespace RuleText

/-- The rule, and all that it refers to, has a name that a rule can have. -/
structure IsNamed (r : RuleText) : Prop where
  name : isID r.name = true
  body : ∀ name ∈ r.body.names, isID name = true

/-- The error that refuses a rule. -/
def refusal (r : RuleText) (message : String) : Error :=
  .parse { complaint := .custom (message ++ " (in '" ++ r.source ++ "')"), isSemantic := true,
           position := r.start, location := none }

/-- Make the symbols for a rule and define it. -/
def build (r : RuleText) (d : Draft) : Except Error (Ref × Draft) := do
  let (ref, d) ← r.body.build d
  if d.rules.contains r.name then
    throw (r.refusal ("Rule '" ++ r.name ++ "' is defined more than once"))
  if !(d.graph.symbol ref).name.isAnonymous then
    throw (r.refusal "Delegation to another named symbol is forbidden")
  d.define r.name ref

end RuleText

/-- Make the symbols for some rules, one after the other. -/
def buildRules : List RuleText → Draft → Except Error Draft
  | [], d => .ok d
  | r :: rs, d => do
    let (_, d) ← r.build d
    buildRules rs d

/-- All names that were used have to be defined. -/
def Draft.finish (d : Draft) : Except Error RuleSet :=
  if d.pending.keys.isEmpty then .ok { graph := d.graph, rules := d.rules }
  else .error (.configuration
    (.undefinedRules (d.pending.keys.mergeSort fun a b => decide (a ≤ b))))

/-- The rules of a whole grammar text. -/
def buildGrammar (rules : List RuleText) : Except Error RuleSet := do
  (← buildRules rules .empty).finish

end GrammarEngine.Notation
