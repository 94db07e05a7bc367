import GrammarEngine.Grammar.Builder
import GrammarEngine.Notation.Compiler
import GrammarEngine.Notation.Source

namespace GrammarEngine.Notation

/-!
# Compiling grammar texts

* `grammar` — the grammar of grammar texts;
* `compileWith`, `compile` — the rules of a grammar text, by some grammar of the notation or by
  this one;
* `bootstrap` — a grammar of the notation out of other rules, with the same listeners;
* `builderFor` — a builder for the rules of a grammar text.
-/

/-- The grammar of grammar texts. -/
def grammar : Grammar Draft Value where
  ruleSet := ruleSet
  listeners := listeners
  start := "start"
  skip := "skip"
  hasStart := by decide +kernel
  hasSkip := by decide +kernel

/-- The rules of a grammar text, read with a grammar of the notation. -/
def compileWith (g : Grammar Draft Value) (limit : Nat) (text : String) :
    Outcome Draft RuleSet :=
  let outcome := g.parse limit text .empty
  outcome.bind fun
    | .rules rules => .ok { graph := outcome.state.graph, rules }
    | _ => .error .wrongType

/-- The rules of a grammar text. -/
def compile (limit : Nat) (text : String) : Outcome Draft RuleSet :=
  compileWith grammar limit text

/-- Give each of some rules its listener. A rule must have the form that the rule of its name has
    in the notation. -/
def attach (b : Builder Draft Value) :
    List (String × Listener Draft Value) → Except Error (Builder Draft Value)
  | [] => .ok b
  | (name, listener) :: rest => do
    let expected := (grammar.ruleSet.get? name).map fun ref =>
      SymbolClass.only (grammar.ruleSet.graph.symbol ref).kind
    attach (← b.listen name expected listener) rest

/-- A grammar of the notation out of some rules, with the listeners of the notation. -/
def bootstrap (rules : RuleSet) : Except Error (Grammar Draft Value) := do
  let b : Builder Draft Value := .ofRules rules
  let b ← b.declareStart grammar.start
  let b ← b.declareSkip grammar.skip
  (← attach b grammar.listeners.entries).build

/-- A builder for the rules of a grammar text. -/
def builderFor {σ α : Type} (limit : Nat) (text : String) : Except Error (Builder σ α) := do
  return .ofRules (← (compile limit text).result)

end GrammarEngine.Notation
