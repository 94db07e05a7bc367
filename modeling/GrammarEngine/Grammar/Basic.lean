import GrammarEngine.Matching.Matcher
import GrammarEngine.Symbol.RuleSet
import GrammarEngine.Token.Walk

namespace GrammarEngine

/-!
# Grammars

A grammar is a set of named rules with two special ones, the *start* rule, which has to match the
whole input, and the *skip* rule, which is matched and thrown away between the pieces of
everything else, and with the listeners that compute payloads.

* `Grammar.make` — a grammar, if its start and skip rules exist;
* `Grammar.matchInput` — match a stream from its beginning to its end;
* `Grammar.run` — match a stream and walk the tree;
* `Grammar.parseTree`, `parse`, `parseOrNone`, `parseFile` — the same for a text or a file.

A match or a listener that runs into the nesting limit is an error in the input, with one
exception: the last time that something is skipped, after the start rule.
-/

/-- A finished grammar, with listeners that share a state from `σ` and compute payloads from
    `α`. -/
structure Grammar (σ α : Type) where
  ruleSet : RuleSet
  listeners : Dictionary (Listener σ α)
  start : String
  skip : String
  hasStart : (ruleSet.get? start).isSome
  hasSkip : (ruleSet.get? skip).isSome

/-- What came of a parse: the tree with its payloads or an error, the state that the listeners
    left, and what was reported, the last event first. -/
structure Outcome (σ α : Type) where
  result : Except Error α
  state : σ
  events : List Event

namespace Outcome

variable {σ α β : Type}

/-- Go on with the result. -/
def bind (o : Outcome σ α) (f : α → Except Error β) : Outcome σ β :=
  { o with result := o.result.bind f }

end Outcome

namespace Grammar

variable {σ α : Type}

/-- A grammar whose start and skip rules are among its rules. -/
def make (ruleSet : RuleSet) (listeners : Dictionary (Listener σ α)) (start skip : String) :
    Except Error (Grammar σ α) :=
  if hasStart : (ruleSet.get? start).isSome then
    if hasSkip : (ruleSet.get? skip).isSome then
      .ok { ruleSet, listeners, start, skip, hasStart, hasSkip }
    else .error (.configuration (.noRule skip))
  else .error (.configuration (.noRule start))

/-- The symbol of the start rule. -/
def startRule (g : Grammar σ α) : Ref := (g.ruleSet.get? g.start).get g.hasStart

/-- The symbol of the skip rule. -/
def skipRule (g : Grammar σ α) : Ref := (g.ruleSet.get? g.skip).get g.hasSkip

/-- The listener for the tokens of a name. Tokens of generated names have none. -/
def listenerFor (g : Grammar σ α) : Name → Option (Listener σ α)
  | .given text => g.listeners.get? text
  | .generated _ => none

/-- The event of having put the grammar together. -/
def builtEvent (g : Grammar σ α) : Event :=
  .built g.ruleSet.rules.size g.listeners.size g.start g.skip

/-- The written form of a grammar. -/
def render (g : Grammar σ α) : String :=
  "Grammar(start=" ++ quoted g.start ++ ", skip=" ++ quoted g.skip ++ ", "
    ++ toString g.ruleSet.rules.size ++ " rules)"

/-! ### Errors in the input -/

/-- Refuse the input at a position, which is reported. -/
def refuse {β : Type} (complaint : (context : String) → Complaint) (position : Int) :
    MatchM β := do
  let context ← MatchM.onStream (Stream.context (some position) Stream.contextWidth)
  let complaint := complaint context
  modify fun s => s.report (.parseFailed position complaint.message)
  let location ← MatchM.onStream (Stream.location (some position))
  throw (.parse { complaint, isSemantic := false, position, location := some location })

/-- Give an error in the input its line and column, if it has none. -/
def locateError {β : Type} (e : ParseError) : MatchM β := do
  match e.location with
  | some _ => throw (.parse e)
  | none =>
    let location ← MatchM.onStream (Stream.location (some e.position))
    throw (.parse { e with location := some location })

/-- Take the nesting limit for an error in the input, at the furthest position looked at. -/
def limited {β : Type} (body : MatchM β) : MatchM β := fun s =>
  match body s with
  | .error .nestedTooDeeply s => refuse .nestedTooDeeply s.stream.furthest s
  | result => result

/-- What an error in the walk of a tree comes to. -/
def failWalk {β : Type} (root : Token α) : Error → MatchM β
  | .nestedTooDeeply => refuse .nestedTooDeeply root.start
  | .parse e => locateError e
  | e => throw e

/-! ### Parsing -/

/-- Match a stream: skip, match the start rule, skip again, and nothing may be left over. -/
def matchInput (g : Grammar σ α) (limit : Nat) : MatchM (Token α) := do
  let root? ← limited do
    let _ ← consumeWithin (α := α) g.ruleSet.graph limit g.skipRule
    matchWithin g.ruleSet.graph limit g.startRule g.skipRule
  match root? with
  | none => refuse .unexpectedInput (← get).stream.furthest
  | some root =>
    let _ ← consumeWithin (α := α) g.ruleSet.graph limit g.skipRule
    if ← MatchM.onStream Stream.hasNext then
      let stream := (← get).stream
      refuse .unexpectedTrailing (max stream.position stream.furthest)
    return root

/-- Match a stream and compute the payloads. -/
def run [PayloadType α] (g : Grammar σ α) (limit : Nat) (stream : Stream) (state : σ) :
    Outcome σ (Token α) :=
  match g.matchInput limit (.ofStream stream) with
  | .error e s => { result := .error e, state, events := s.events }
  | .ok root s =>
    match root.walk g.listenerFor state with
    | .ok _ visit => { result := .ok visit.token, state := visit.state, events := s.events }
    | .error e visit =>
      match (failWalk root e : MatchM Empty) s with
      | .ok absurd _ => absurd.elim
      | .error e s => { result := .error e, state := visit.state, events := s.events }

variable [PayloadType α]

/-- Parse a text: the whole tree, with its payloads. -/
def parseTree (g : Grammar σ α) (limit : Nat) (input : String) (state : σ) :
    Outcome σ (Token α) :=
  g.run limit (.ofString input) state

/-- Parse a text: the payload of the start rule. -/
def parse (g : Grammar σ α) (limit : Nat) (input : String) (state : σ) : Outcome σ α :=
  (g.parseTree limit input state).bind Token.payload

/-- Parse a text; an error in the input is no result. Other errors stay errors: they are not
    about the input. -/
def parseOrNone (g : Grammar σ α) (limit : Nat) (input : String) (state : σ) :
    Outcome σ (Option α) :=
  let outcome := g.parse limit input state
  match outcome.result with
  | .ok value => { outcome with result := .ok (some value) }
  | .error (.parse e) =>
    { outcome with result := .ok none, events := .dismissed e.render :: outcome.events }
  | .error e => { outcome with result := .error e }

/-- Parse a file, which is read as far as it is needed. -/
def parseFile (g : Grammar σ α) (limit : Nat) (bytes : Option (List UInt8)) (encoding : String)
    (state : σ) : Outcome σ α :=
  match FileSource.open? bytes encoding FileSource.defaultChunk with
  | .ok file => (g.run limit (.ofFile file) state).bind Token.payload
  | .error e => { result := .error e, state, events := [] }

end Grammar

end GrammarEngine
