import GrammarEngine.Grammar.Builder

namespace GrammarEngine

/-!
# Working with a builder

A grammar is put together by a series of calls. Asking for a listener hands out a decorator, which
gives the rule its listener when it is applied, at any time later and as often as it is applied.
Grammars that were built stay with whoever has them while the builder goes on. Dictionaries of
listeners are shared: whoever knows where one is sees what becomes of it.

* `Builder.Call` — the calls of a builder and of what it handed out;
* `Session` — a builder at work, with all that it handed out;
* `Session.step` — one call;
* `Session.after`, `Session.successes` — many calls, and those among them that did not fail.
-/

/-- A call of a builder, or of a decorator that it handed out. -/
inductive Builder.Call (σ α : Type)
  | start (name : String)
  | skip (name : String)
  /-- Ask for a decorator for a rule, which may have to be of some kind. -/
  | listener (name : String) (expected : Option SymbolClass)
  /-- Apply a decorator, by the number under which it was handed out. -/
  | apply (decorator : Nat) (listener : Listener σ α)
  | build

/-- A grammar that was built, with the place where its listeners are. -/
structure Built where
  ruleSet : RuleSet
  listenersAt : Nat
  start : String
  skip : String
  hasStart : (ruleSet.get? start).isSome
  hasSkip : (ruleSet.get? skip).isSome

/-- A builder at work. -/
structure Session (σ α : Type) where
  ruleSet : RuleSet
  startName : Option String
  skipName : Option String
  /-- The place where the listeners of the builder are. -/
  listenersAt : Nat
  /-- The rules of the decorators that were handed out. -/
  decorators : List String
  grammars : List Built
  /-- All dictionaries of listeners, by their places. -/
  dictionaries : List (Dictionary (Listener σ α))

namespace Session

variable {σ α : Type}

/-- A new builder for some rules. -/
def ofRules (ruleSet : RuleSet) : Session σ α :=
  { ruleSet, startName := none, skipName := none, listenersAt := 0, decorators := [],
    grammars := [], dictionaries := [.empty] }

/-- The dictionary at a place. -/
def dictionary (s : Session σ α) (place : Nat) : Dictionary (Listener σ α) :=
  s.dictionaries.getD place .empty

/-- The builder as it is now. -/
def builder (s : Session σ α) : Builder σ α :=
  { ruleSet := s.ruleSet, startName := s.startName, skipName := s.skipName,
    listeners := s.dictionary s.listenersAt }

/-- A grammar that was built, as it is now. -/
def read (s : Session σ α) (built : Built) : Grammar σ α :=
  { ruleSet := built.ruleSet, listeners := s.dictionary built.listenersAt, start := built.start,
    skip := built.skip, hasStart := built.hasStart, hasSkip := built.hasSkip }

/-! ### One call -/

/-- The builder becomes another one. Its listeners stay where they are. -/
def put (s : Session σ α) (b : Builder σ α) : Session σ α :=
  { s with
    startName := b.startName
    skipName := b.skipName
    dictionaries := s.dictionaries.set s.listenersAt b.listeners }

/-- Hand out a grammar, with its listeners in a place of their own. -/
def deliver (s : Session σ α) (g : Grammar σ α) : Session σ α :=
  { s with
    dictionaries := s.dictionaries ++ [g.listeners]
    grammars := s.grammars ++ [{
      ruleSet := g.ruleSet, listenersAt := s.dictionaries.length, start := g.start, skip := g.skip,
      hasStart := g.hasStart, hasSkip := g.hasSkip }] }

/-- Go on with what a call came to, if it did not fail. -/
def settle {β : Type} (s : Session σ α) (go : β → Session σ α) :
    Except Error β → Except Error Unit × Session σ α
  | .ok b => (.ok (), go b)
  | .error e => (.error e, s)

/-- One call: what comes of it, and how it leaves the builder. -/
def step (s : Session σ α) : Builder.Call σ α → Except Error Unit × Session σ α
  | .start name => s.settle s.put (s.builder.declareStart name)
  | .skip name => s.settle s.put (s.builder.declareSkip name)
  | .listener name expected =>
    s.settle (fun _ => { s with decorators := s.decorators ++ [name] })
      (s.builder.checkListener name expected)
  | .apply decorator listener =>
    match s.decorators[decorator]? with
    | none => (.error (.index (.outOfRange .list)), s)
    | some name => s.settle s.put (s.builder.register name listener)
  | .build => s.settle s.deliver s.builder.build

/-! ### Many calls -/

/-- The builder after some calls. -/
def after (s : Session σ α) (calls : List (Builder.Call σ α)) : Session σ α :=
  calls.foldl (fun s call => (s.step call).2) s

/-- Those of some calls that did not fail. -/
def successes (s : Session σ α) : List (Builder.Call σ α) → List (Builder.Call σ α)
  | [] => []
  | call :: calls =>
    let later := (s.step call).2.successes calls
    if (s.step call).1.isOk then call :: later else later

end Session

end GrammarEngine
