import GrammarEngine.Token.Basic

namespace GrammarEngine

/-!
# Walking a tree

Listeners compute the payloads. They are kept by the names of rules; after a match the tree is
walked from the tips up, and each token whose name has a listener is handed to it.

* `Visit` — the token at hand, with all below it done, and the state that listeners share;
* `Listener` — computes the payload of the token at hand; it may change the state, and it may
  assign payloads itself;
* `Token.walk` — the walk: children before parents, from left to right. A token without a listener
  gets its default payload, and the walk ends at the first error.
-/

/-- What a listener works on: the token at hand and the shared state. -/
structure Visit (σ α : Type) where
  token : Token α
  state : σ

/-- Computes the payload of the token at hand. -/
abbrev Listener (σ α : Type) := EStateM Error (Visit σ α) α

/-- A listener that only looks at the token and the state. -/
def Listener.ofStep {σ α : Type} (step : Token α → σ → Except Error (α × σ)) : Listener σ α :=
  fun visit => match step visit.token visit.state with
    | .ok (value, state) => .ok value { visit with state }
    | .error e => .error e visit

/-- Give an error in the input the position of the token at hand, if it has none. -/
def Error.anchor (position : Int) : Error → Error
  | .parse e => .parse (e.anchor position)
  | e => e

namespace Token

variable {σ α : Type} [PayloadType α]

/-- Compute the payload of the token at hand: by its listener, if its name has one. -/
def evaluate (listeners : Name → Option (Listener σ α)) : Listener σ α := fun visit =>
  match listeners visit.token.name with
  | some listener =>
    match listener visit with
    | .ok value visit' => .ok value visit'
    | .error e visit' => .error (e.anchor visit.token.start) visit'
  | none =>
    match visit.token.defaultPayload with
    | .ok value => .ok value visit
    | .error e => .error e visit

/-- Assign a computed payload to the token at hand. -/
def store (value : α) : Listener σ α := fun visit =>
  match visit.token.assign value with
  | .ok token => .ok value { visit with token }
  | .error e => .error e visit

mutual

/-- Walk a tree. The result has the payload of its root; the tree itself, with the payloads that
    were assigned, and the state are there also when the walk fails. -/
def walk (listeners : Name → Option (Listener σ α)) :
    Token α → σ → EStateM.Result Error (Visit σ α) α
  | .sentinel which, state => .ok PayloadType.none ⟨.sentinel which, state⟩
  | .node header children payload, state =>
    match walkAll listeners children state with
    | .ok () (children, state) =>
      match evaluate listeners ⟨.node header children payload, state⟩ with
      | .ok value visit => store value visit
      | .error e visit => .error e visit
    | .error e (children, state) => .error e ⟨.node header children payload, state⟩

/-- Walk some trees, one after the other. -/
def walkAll (listeners : Name → Option (Listener σ α)) :
    List (Token α) → σ → EStateM.Result Error (List (Token α) × σ) Unit
  | [], state => .ok () ([], state)
  | t :: rest, state =>
    match walk listeners t state with
    | .ok _ ⟨t, state⟩ =>
      match walkAll listeners rest state with
      | .ok () (rest, state) => .ok () (t :: rest, state)
      | .error e (rest, state) => .error e (t :: rest, state)
    | .error e ⟨t, state⟩ => .error e (t :: rest, state)

end

end Token

end GrammarEngine
