import GrammarEngine.Dictionary
import GrammarEngine.Symbol.Basic

namespace GrammarEngine

/-!
# Rule sets

Named symbols of a graph.

* `RuleSet` — the graph and the rules in order;
* `RuleSet.isRule` — is a symbol the very one that the rules have under its name?
-/

/-- The rules of a grammar: a graph, and the symbols in it that are rules, by their names. -/
structure RuleSet where
  graph : Graph
  rules : Dictionary Ref

namespace RuleSet

instance : Inhabited RuleSet := ⟨⟨default, default⟩⟩

/-- The symbol of a rule. -/
def get? (rs : RuleSet) (name : String) : Option Ref := rs.rules.get? name

/-- Is a symbol, or what it refers to if it is an implicit one, the rule of its name? -/
def isRule (rs : RuleSet) (ref : Ref) : Bool :=
  let symbol := rs.graph.symbol ref
  let target := match symbol.shape with
    | .implicit reference => reference
    | _ => some ref
  target.isSome && rs.get? symbol.name.text == target

end RuleSet

end GrammarEngine
