import GrammarEngine.Kind
import GrammarEngine.Name
import GrammarEngine.Text.Quoted

namespace GrammarEngine

/-!
# Errors

Everything that can go wrong, by cause. There are two broad families, and it matters which one an
error belongs to:

* `Misconfiguration` — the grammar is wrong: a start rule that names nothing, a listener given
  twice, a reference that was never defined;
* `ParseError` — the input is wrong: it does not match, or a listener refuses it. Such an error
  has a position.

Beside them stand the errors of a single operation: `Exhausted` (a stream has no such character),
`BadValue`, `BadIndex`, `Mismatch` (a token is not of the kind that was asked for), and the ones
without details. `Error` is their sum, and `Error.message` their wording.
-/

/-! ### Streams, values and indices -/

/-- There is no such place in a stream. -/
inductive Exhausted
  | noCharacter (position : Int)
  | lookBack (count position : Int)
  | advance (count position : Int)
  | regress (count position : Int)
  deriving DecidableEq, Repr

/-- The wording of an `Exhausted`. -/
def Exhausted.message : Exhausted → String
  | .noCharacter position => "no character at " ++ toString position
  | .lookBack count position =>
    "cannot look back " ++ toString count ++ " from " ++ toString position
  | .advance count position => "cannot advance " ++ toString count ++ " from " ++ toString position
  | .regress count position => "cannot regress " ++ toString count ++ " from " ++ toString position

/-- An argument is outside of what an operation is defined for. -/
inductive BadValue
  | negativeAdvance
  | negativeRegress
  | chunkSize
  /-- A name has a null character in it. -/
  | nullCharacter
  | emptySequence
  | emptyJunction
  | boundsDiffer (lower upper : Nat)
  | badRange (low high : Nat)
  /-- A literal, as it is written, that is not a single character. -/
  | notOneCharacter (written : String)
  | notOctal (digits : String)
  | noSuchCodePoint
  deriving DecidableEq, Repr

/-- The wording of a `BadValue`. -/
def BadValue.message : BadValue → String
  | .negativeAdvance => "advance() takes a non-negative count"
  | .negativeRegress => "regress() takes a non-negative count"
  | .chunkSize => "buffer_size must be positive"
  | .nullCharacter => "embedded null character"
  | .emptySequence => "A sequence needs at least one member"
  | .emptyJunction => "A junction needs at least one member"
  | .boundsDiffer lower upper =>
    "Switch bounds differ in length: " ++ toString lower ++ " vs " ++ toString upper
  | .badRange low high => "Bad switch range " ++ toString low ++ "-" ++ toString high
  | .notOneCharacter written => "Character needs exactly one character, not " ++ written
  | .notOctal digits => "invalid literal for int() with base 8: " ++ quoted digits
  | .noSuchCodePoint => "chr() arg not in range(0x110000)"

/-- What an index is for. -/
inductive Indexed
  | array
  | text
  | list
  | tuple
  deriving DecidableEq, Repr

/-- The written name of what an index is for. -/
def Indexed.label : Indexed → String
  | .array => "array"
  | .text => "string"
  | .list => "list"
  | .tuple => "tuple"

/-- There is no such element. -/
inductive BadIndex
  | popEmpty
  | topEmpty
  | outOfRange (indexed : Indexed)
  /-- The index is no machine integer. -/
  | tooWide
  deriving DecidableEq, Repr

/-- What is wrong with an index that names no element. -/
def BadIndex.outside (indexed : Indexed) (index : Int) : BadIndex :=
  if Int64.minValue.toInt ≤ index ∧ index ≤ Int64.maxValue.toInt then .outOfRange indexed
  else .tooWide

/-- The wording of a `BadIndex`. -/
def BadIndex.message : BadIndex → String
  | .popEmpty => "pop from empty IntVector"
  | .topEmpty => "top of empty IntVector"
  | .outOfRange indexed => indexed.label ++ " index out of range"
  | .tooWide => "cannot fit 'int' into an index-sized integer"

/-! ### Wrong grammars -/

/-- The grammar, or the way it is put together, is wrong. -/
inductive Misconfiguration
  /-- No rule has this name. -/
  | noRule (name : String)
  /-- These names are referred to by a grammar text that defines no such rules. -/
  | undefinedRules (names : List String)
  /-- A cell that is written once was written again. -/
  | assignedTwice (what : String)
  | startTwice (first : String)
  | skipTwice (first : String)
  | listenerTwice (rule : String)
  /-- A cell was read before it was written. -/
  | unassigned (what : String)
  /-- An implicit symbol without a reference was asked to match. -/
  | neverDefined (name : Name)
  /-- A rule is not of the kind that a listener expects. -/
  | wrongRuleKind (rule : String) (found : SymbolKind) (expected : SymbolClass)
  | noStart
  | noSkip
  | custom (message : String)
  deriving DecidableEq, Repr

/-- The wording of a `Misconfiguration`. -/
def Misconfiguration.message : Misconfiguration → String
  | .noRule name => "No rule named '" ++ name ++ "'"
  | .undefinedRules names => "Undefined rules: " ++ ", ".intercalate names
  | .assignedTwice what => what ++ " has already been assigned"
  | .startTwice first => "Start rule already defined as '" ++ first ++ "'"
  | .skipTwice first => "Skip rule already defined as '" ++ first ++ "'"
  | .listenerTwice rule => "Rule '" ++ rule ++ "' already has a listener"
  | .unassigned what => what ++ " has not been assigned"
  | .neverDefined name => "'" ++ name.text ++ "' was referenced but never defined"
  | .wrongRuleKind rule found expected =>
    "Rule '" ++ rule ++ "' is a " ++ found.label ++ ", not a " ++ expected.label
  | .noStart => "No start rule was declared"
  | .noSkip => "No skip rule was declared"
  | .custom message => message

/-! ### Wrong input -/

/-- What is wrong with an input. -/
inductive Complaint
  /-- The start rule does not match; the context shows where matching got. -/
  | unexpectedInput (context : String)
  /-- The start rule matches and something is left over. -/
  | unexpectedTrailing (context : String)
  /-- Matching, or a listener, ran into the nesting limit. -/
  | nestedTooDeeply (context : String)
  /-- A listener refuses what it was given, for its own reason. -/
  | custom (message : String)
  deriving DecidableEq, Repr

/-- The wording of a `Complaint`. -/
def Complaint.message : Complaint → String
  | .unexpectedInput context => "Unexpected input: " ++ context
  | .unexpectedTrailing context => "Unexpected trailing input: " ++ context
  | .nestedTooDeeply context => "Input nested too deeply: " ++ context
  | .custom message => message

/-- An error in the input: what is wrong, whether it is one of meaning (the text has the right
    form), and where. The location is the line and the column, once they are known. -/
structure ParseError where
  complaint : Complaint
  isSemantic : Bool
  position : Int
  location : Option (Int × Int)
  deriving DecidableEq, Repr

namespace ParseError

/-- The error with its location in front, if it has one. -/
def render (e : ParseError) : String :=
  match e.location with
  | none => e.complaint.message
  | some (line, column) =>
    toString line ++ ":" ++ toString column ++ ": " ++ e.complaint.message

/-- An error that says nothing about where it is gets the position of the token at hand.
    Position 0 without a location counts as nothing. -/
def anchor (e : ParseError) (position : Int) : ParseError :=
  if e.position = 0 ∧ e.location = none then { e with position } else e

@[simp] theorem anchor_complaint (e : ParseError) (p : Int) :
    (e.anchor p).complaint = e.complaint := by
  unfold anchor; split <;> rfl

end ParseError

/-! ### Tokens of the wrong kind -/

/-- What a token is found to be. The two sentinels are of no form. -/
inductive TokenSort
  | node (kind : Kind)
  | sentinel
  deriving DecidableEq, Repr

/-- The written name of a token's sort. -/
def TokenSort.label : TokenSort → String
  | .node kind => kind.tokenLabel
  | .sentinel => TokenClass.sentinel.label

/-- A sort belongs to a class if its form does; a sentinel is a token, and a sentinel. -/
def TokenClass.admits : TokenClass → TokenSort → Bool
  | cls, .node kind => cls.includes kind
  | cls, .sentinel => cls == .any || cls == .sentinel

/-- A token, or a child of it, is not what was asked for. -/
inductive Mismatch
  | wrongToken (name : Name) (found : TokenSort) (expected : TokenClass)
  | noChild (name : Name) (count : Nat) (index : Int)
  | wrongChild (name : Name) (index : Int) (found : TokenSort) (expected : TokenClass)
  deriving DecidableEq, Repr

/-- The wording of a `Mismatch`. -/
def Mismatch.message : Mismatch → String
  | .wrongToken name found expected =>
    "expected " ++ expected.label ++ " but found " ++ found.label ++ " for '" ++ name.text ++ "'"
  | .noChild name count index =>
    "'" ++ name.text ++ "' has " ++ toString count ++ " children, no child " ++ toString index
  | .wrongChild name index found expected =>
    "expected " ++ expected.label ++ " at child " ++ toString index ++ " of '" ++ name.text ++
      "' but found " ++ found.label

/-! ### The sum -/

/-- Any error. -/
inductive Error
  | exhausted (e : Exhausted)
  | value (e : BadValue)
  | index (e : BadIndex)
  | configuration (e : Misconfiguration)
  | parse (e : ParseError)
  | mismatch (e : Mismatch)
  /-- A number does not fit into a machine word. -/
  | overflow
  /-- A value is not of the type that an operation works on. -/
  | wrongType
  /-- A value has no such property. -/
  | noAttribute
  /-- The nesting limit is reached. -/
  | nestedTooDeeply
  /-- The bytes of a file spell no text. -/
  | malformedBytes
  | noSuchFile
  | unknownEncoding
  deriving DecidableEq, Repr

/-- The wording of an error, where there is one. -/
def Error.message? : Error → Option String
  | .exhausted e => some e.message
  | .value e => some e.message
  | .index e => some e.message
  | .configuration e => some e.message
  | .parse e => some e.complaint.message
  | .mismatch e => some e.message
  | _ => none

/-! ### Families -/

/-- The families of errors that are raised on purpose, and the general ones they fall under. -/
inductive ErrorClass
  | configuration
  | grammar
  | index
  | key
  | parse
  | semantic
  | type
  | value
  | undefinedRule
  | reassignment
  | unassigned
  | ruleType
  | tokenMismatch
  deriving DecidableEq, Repr

/-- The written name of a family. -/
def ErrorClass.label : ErrorClass → String
  | .configuration => "ConfigurationError"
  | .grammar => "GrammarError"
  | .index => "IndexError"
  | .key => "KeyError"
  | .parse => "ParseError"
  | .semantic => "SemanticError"
  | .type => "TypeError"
  | .value => "ValueError"
  | .undefinedRule => "UndefinedRuleError"
  | .reassignment => "ReassignmentError"
  | .unassigned => "UnassignedError"
  | .ruleType => "RuleTypeError"
  | .tokenMismatch => "TokenMismatchError"

/-- The families of errors that are raised on purpose. -/
def ErrorClass.engine : List ErrorClass :=
  [.grammar, .configuration, .undefinedRule, .reassignment, .unassigned, .ruleType, .parse,
    .semantic, .tokenMismatch]

/-- The families right above one. -/
def ErrorClass.parents : ErrorClass → List ErrorClass
  | .configuration | .parse => [.grammar]
  | .undefinedRule => [.configuration, .key]
  | .reassignment | .unassigned => [.configuration]
  | .ruleType => [.configuration, .type]
  | .semantic => [.parse]
  | .tokenMismatch => [.grammar, .type]
  | .grammar | .index | .key | .type | .value => []

/-- Is every error of the first family one of the second? No chain of families is longer than
    three. -/
def ErrorClass.isA (cls family : ErrorClass) : Bool :=
  let parents := cls.parents
  cls == family || parents.contains family
    || parents.any fun parent => parent.parents.contains family
      || parent.parents.any fun grand => grand.parents.contains family

/-- The family of a misconfiguration. -/
def Misconfiguration.errorClass : Misconfiguration → ErrorClass
  | .noRule _ | .undefinedRules _ => .undefinedRule
  | .assignedTwice _ | .startTwice _ | .skipTwice _ | .listenerTwice _ => .reassignment
  | .unassigned _ | .neverDefined _ => .unassigned
  | .wrongRuleKind .. => .ruleType
  | .noStart | .noSkip | .custom _ => .configuration

/-- The names that an error about undefined rules lists. -/
def Misconfiguration.names : Misconfiguration → List String
  | .noRule name => [name]
  | .undefinedRules names => names
  | _ => []

/-- The family of a parse error. -/
def ParseError.errorClass (e : ParseError) : ErrorClass :=
  if e.isSemantic then .semantic else .parse

example : ∀ cls ∈ ErrorClass.engine, cls.isA .grammar := by decide

example : ErrorClass.isA .semantic .grammar ∧ ¬ ErrorClass.isA .parse .semantic := by decide

end GrammarEngine
