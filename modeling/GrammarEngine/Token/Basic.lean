import GrammarEngine.WriteOnce

namespace GrammarEngine

/-!
# Tokens

Every successful match produces a token, so a parse produces a tree of them. A token knows the
form and the name of the symbol that made it, the text it covers and where that starts; after the
match each token can be given a payload, once.

* `Header` — what a token is, apart from its children and its payload;
* `Token` — the tree, over a type of payloads;
* `PayloadType` — what payloads must offer: one for nothing, and one for a list of others;
* `Token.defaultPayload` — the payload of a token that nothing else was computed for.
-/

/-- What a token is, apart from its children and its payload. -/
structure Header where
  kind : Kind
  name : Name
  /-- The text that the token covers. -/
  substring : String
  /-- Where that text starts. It is -1 for a choice or an option that took the empty text of the
      zero-length symbol. -/
  start : Int
  /-- Which alternative, or which range of a character class, matched. -/
  ordinal : Nat
  deriving DecidableEq, Repr

/-- Tokens that no symbol made: they stand for a failed match and for the empty text. -/
inductive Sentinel
  | nothing
  | empty
  deriving DecidableEq, Repr

/-- The written form of a sentinel. -/
def Sentinel.label : Sentinel → String
  | .nothing => "NOTHING"
  | .empty => "EMPTY"

/-- A parse tree with payloads from `α`. -/
inductive Token (α : Type)
  | sentinel (which : Sentinel)
  | node (header : Header) (children : List (Token α)) (payload : Option α)

/-- What payloads must offer: one that stands for nothing, and one for a list of payloads. -/
class PayloadType (α : Type) where
  none : α
  ofList : List α → α

namespace Token

variable {α : Type}

instance : Inhabited (Token α) := ⟨.sentinel .empty⟩

/-- A token without a payload. -/
def leaf (kind : Kind) (name : Name) (substring : String) (start : Int) (ordinal : Nat) :
    Token α :=
  .node { kind, name, substring, start, ordinal } [] none

/-! ### Reading a token -/

/-- What the token is found to be. -/
def sort : Token α → TokenSort
  | .sentinel _ => .sentinel
  | .node header _ _ => .node header.kind

/-- The name of the rule that produced the token. -/
def name : Token α → Name
  | .sentinel _ => .given ""
  | .node header _ _ => header.name

/-- The text that the token covers. -/
def substring : Token α → String
  | .sentinel _ => ""
  | .node header _ _ => header.substring

/-- Where the text of the token starts. -/
def start : Token α → Int
  | .sentinel _ => -1
  | .node header _ _ => header.start

/-- Where the text of the token ends. -/
def stop (t : Token α) : Int := t.start + t.substring.length

/-- Which alternative, or which range of a character class, matched. -/
def ordinal : Token α → Nat
  | .sentinel _ => 0
  | .node header _ _ => header.ordinal

/-- The tokens right under the token. -/
def children : Token α → List (Token α)
  | .sentinel _ => []
  | .node _ children _ => children

/-- Does the token cover no text? -/
def isEmpty (t : Token α) : Bool := t.substring.isEmpty

/-- Was the token made by a symbol? -/
def isNode : Token α → Bool
  | .sentinel _ => false
  | .node .. => true

/-! ### Payloads -/

/-- The payload, which must have been assigned. That of a sentinel is always nothing. -/
def payload [PayloadType α] : Token α → Except Error α
  | .sentinel _ => .ok PayloadType.none
  | .node _ _ payload => WriteOnce.read "token payload" payload

/-- The only error of a payload is that there is none. -/
theorem eq_of_payload_error [PayloadType α] {t : Token α} {e : Error} (h : t.payload = .error e) :
    e = .configuration (.unassigned "token payload") := by
  cases t with
  | sentinel which => cases h
  | node header children payload =>
    cases payload <;> cases h
    rfl

/-- Assign the payload, which must not have been done before. A sentinel takes none. -/
def assign (value : α) : Token α → Except Error (Token α)
  | .sentinel _ => .error .noAttribute
  | .node header children payload => do
    return .node header children (← WriteOnce.write "token payload" payload value)

/-- The payload of a token that nothing else was computed for: the list of its children's
    payloads if it can have many, that of its child if it can have one, and nothing for a
    literal. -/
def defaultPayload [PayloadType α] : Token α → Except Error α
  | .sentinel _ => .ok PayloadType.none
  | .node header children _ =>
    match header.kind with
    | .sequence | .multiple | .star => return PayloadType.ofList (← children.mapM payload)
    | .junction | .option =>
      match children with
      | [] => .ok PayloadType.none
      | child :: _ => child.payload
    | .switch | .character | .text => .ok PayloadType.none

/-- An error about this token, for a listener to raise. -/
def error (t : Token α) (message : String) : ParseError :=
  { complaint := .custom (message ++ " (in '" ++ t.substring ++ "')"), isSemantic := true,
    position := t.start, location := none }

/-! ### The tree -/

mutual

/-- The tokens at the tips of the tree, from left to right. -/
def leaves : Token α → List (Token α)
  | .node _ (child :: rest) _ => leavesOf (child :: rest)
  | t => [t]

/-- The tokens at the tips of some trees. -/
def leavesOf : List (Token α) → List (Token α)
  | [] => []
  | t :: rest => leaves t ++ leavesOf rest

end

/-- The written form of a token by itself. -/
def render (t : Token α) : String :=
  match t with
  | .sentinel which => which.label
  | .node header _ _ =>
    header.kind.tokenLabel ++ "(" ++ quoted header.name.text ++ ", " ++ quoted header.substring
      ++ ", " ++ toString header.start ++ ")"

@[simp] theorem name_node (h : Header) (cs : List (Token α)) (p : Option α) :
    (Token.node h cs p).name = h.name := rfl

@[simp] theorem substring_node (h : Header) (cs : List (Token α)) (p : Option α) :
    (Token.node h cs p).substring = h.substring := rfl

@[simp] theorem start_node (h : Header) (cs : List (Token α)) (p : Option α) :
    (Token.node h cs p).start = h.start := rfl

@[simp] theorem children_node (h : Header) (cs : List (Token α)) (p : Option α) :
    (Token.node h cs p).children = cs := rfl

end Token

end GrammarEngine
