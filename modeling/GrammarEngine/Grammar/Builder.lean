import GrammarEngine.Grammar.Basic

namespace GrammarEngine

/-!
# Builders

A builder collects what a grammar needs beside its rules: which rule is the start, which one is
skipped, and the listeners. Start and skip can be declared once each, and a rule can have one
listener. Every step gives a new builder or an error.

* `declareStart`, `declareSkip` — the two special rules;
* `checkListener` — may a rule get a listener, and is it of the kind that the listener expects?
* `register` — give a rule its listener; `listen` does both;
* `build` — the grammar.
-/

/-- What is known of a grammar while it is put together. -/
structure Builder (σ α : Type) where
  ruleSet : RuleSet
  startName : Option String
  skipName : Option String
  listeners : Dictionary (Listener σ α)

namespace Builder

variable {σ α : Type}

/-- A builder for some rules. -/
def ofRules (ruleSet : RuleSet) : Builder σ α :=
  { ruleSet, startName := none, skipName := none, listeners := .empty }

/-- The symbol of a rule. -/
def rule (b : Builder σ α) (name : String) : Except Error Ref :=
  match b.ruleSet.get? name with
  | some ref => .ok ref
  | none => .error (.configuration (.noRule name))

/-- Declare the start rule. -/
def declareStart (b : Builder σ α) (name : String) : Except Error (Builder σ α) := do
  let _ ← b.rule name
  match b.startName with
  | some first => throw (.configuration (.startTwice first))
  | none => return { b with startName := some name }

/-- Declare the skip rule. -/
def declareSkip (b : Builder σ α) (name : String) : Except Error (Builder σ α) := do
  let _ ← b.rule name
  match b.skipName with
  | some first => throw (.configuration (.skipTwice first))
  | none => return { b with skipName := some name }

/-- May a rule get a listener? It has to exist, to be of the given kind if there is one, and to
    have no listener yet. -/
def checkListener (b : Builder σ α) (name : String) (expected : Option SymbolClass) :
    Except Error Unit := do
  let ref ← b.rule name
  let found := (b.ruleSet.graph.symbol ref).kind
  if let some expected := expected then
    if !expected.includes found then
      throw (.configuration (.wrongRuleKind name found expected))
  if b.listeners.contains name then throw (.configuration (.listenerTwice name))

/-- Give a rule its listener, unless it has got one. -/
def register (b : Builder σ α) (name : String) (listener : Listener σ α) :
    Except Error (Builder σ α) :=
  if b.listeners.contains name then .error (.configuration (.listenerTwice name))
  else .ok { b with listeners := b.listeners.insert name listener }

/-- Check that a rule may get a listener, and give it. -/
def listen (b : Builder σ α) (name : String) (expected : Option SymbolClass)
    (listener : Listener σ α) : Except Error (Builder σ α) := do
  b.checkListener name expected
  b.register name listener

/-- The grammar, once start and skip are declared. -/
def build (b : Builder σ α) : Except Error (Grammar σ α) :=
  match b.startName, b.skipName with
  | none, _ => .error (.configuration .noStart)
  | some _, none => .error (.configuration .noSkip)
  | some start, some skip => Grammar.make b.ruleSet b.listeners start skip

end Builder

end GrammarEngine
