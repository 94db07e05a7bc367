import GrammarEngine.Text.LetterCase

namespace GrammarEngine

/-!
# Names

Every symbol has a name: the one that it was given, or one that was generated because it is only
a nameless part of a rule.

* `Name` — the two sorts of names;
* `Name.text` — how a name is written; a generated one is a lone underscore everywhere;
* `Name.isAnonymous` — generated, or given with an underscore in front;
* `Name.isLexical` — all upper case: nothing is skipped inside a symbol of such a name.
-/

/-- The name of a symbol. A generated name is equal only to itself: its serial number tells it
    from every other one, and is never shown. -/
inductive Name
  | given (text : String)
  | generated (serial : Nat)
  deriving DecidableEq, Repr, Inhabited

namespace Name

/-- How the name is written in messages, traces and trees. -/
def text : Name → String
  | .given s => s
  | .generated _ => "_"

/-- Does the name say that the symbol is only a part of a rule? -/
def isAnonymous : Name → Bool
  | .given s => s.toList.head? == some '_'
  | .generated _ => true

/-- Does the name say that nothing may be skipped inside the symbol? -/
def isLexical : Name → Bool
  | .given s => isAllUpper s
  | .generated _ => false

@[simp] theorem text_given (s : String) : (given s).text = s := rfl

@[simp] theorem isAnonymous_generated (n : Nat) : (generated n).isAnonymous = true := rfl

@[simp] theorem isLexical_generated (n : Nat) : (generated n).isLexical = false := rfl

end Name

end GrammarEngine
