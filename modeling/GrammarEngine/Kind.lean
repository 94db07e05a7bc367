namespace GrammarEngine

/-!
# Kinds of symbols and tokens

* `Kind` — the eight forms that a symbol can have and still make a token of its own;
* `SymbolKind` — all forms of symbols, and `SymbolClass`, what a rule can be asked to be;
* `TokenClass` — what a token can be asked to be.

`label` is the written name of each, `includes` says which kinds a class takes in, and `all` lists
them, so that one can be found by its name.
-/

/-- The form of a token, which is that of the symbol that made it. -/
inductive Kind
  | sequence
  | junction
  | multiple
  | option
  | star
  | switch
  | character
  | text
  deriving DecidableEq, Repr

/-- The written name of a form. -/
def Kind.label : Kind → String
  | .sequence => "Sequence"
  | .junction => "Junction"
  | .multiple => "Multiple"
  | .option => "Option"
  | .star => "Star"
  | .switch => "Switch"
  | .character => "Character"
  | .text => "Text"

/-- All forms. -/
def Kind.all : List Kind :=
  [.sequence, .junction, .multiple, .option, .star, .switch, .character, .text]

/-- No form is left out. -/
theorem Kind.mem_all (kind : Kind) : kind ∈ Kind.all := by
  cases kind <;> decide

/-! ### Symbols -/

/-- The form of a symbol, or of something else that stands where a symbol belongs. -/
inductive SymbolKind
  | plain (kind : Kind)
  | anyCharacter
  | implicit
  | zeroLength
  | foreign
  deriving DecidableEq, Repr

/-- The written name of a form of symbols. -/
def SymbolKind.label : SymbolKind → String
  | .plain kind => kind.label
  | .anyCharacter => "AnyCharacter"
  | .implicit => "ImplicitSymbol"
  | .zeroLength => "ZeroLengthSymbol"
  | .foreign => "object"

/-- What a rule can be asked to be: any symbol at all, or one of a form. -/
inductive SymbolClass
  | any
  | only (kind : SymbolKind)
  deriving DecidableEq, Repr

/-- The written name of a class of symbols. -/
def SymbolClass.label : SymbolClass → String
  | .any => "Symbol"
  | .only kind => kind.label

/-- All classes of symbols. -/
def SymbolClass.all : List SymbolClass :=
  .any :: (Kind.all.map (SymbolClass.only ∘ .plain) ++
    [.only .anyCharacter, .only .implicit, .only .zeroLength])

/-- The class of all characters is a character class too; otherwise the forms are apart. -/
def SymbolClass.includes : SymbolClass → SymbolKind → Bool
  | .any, _ => true
  | .only (.plain .switch), .anyCharacter => true
  | .only expected, found => expected == found

/-! ### Tokens -/

/-- What a token can be asked to be: any token, one whose children are counted off, one that
    repeats, one that wraps at most one other, one of a form, or one that no symbol made. -/
inductive TokenClass
  | any
  | indexed
  | repeated
  | single
  | only (kind : Kind)
  | sentinel
  deriving DecidableEq, Repr

/-- The written name of the tokens of a form. -/
def Kind.tokenLabel (kind : Kind) : String := kind.label ++ "Token"

/-- The written name of a class of tokens. -/
def TokenClass.label : TokenClass → String
  | .any => "Token"
  | .indexed => "IndexedAccess"
  | .repeated => "RepeatedAccess"
  | .single => "SingleAccess"
  | .only kind => kind.tokenLabel
  | .sentinel => "_Sentinel"

/-- All classes of tokens. -/
def TokenClass.all : List TokenClass :=
  [.any, .indexed, .repeated, .single, .sentinel] ++ Kind.all.map .only

/-- A class of tokens by its written name. -/
def TokenClass.named? (label : String) : Option TokenClass :=
  TokenClass.all.find? (·.label == label)

/-- Which forms belong to a class of tokens. -/
def TokenClass.includes : TokenClass → Kind → Bool
  | .any, _ => true
  | .indexed, kind => kind == .sequence
  | .repeated, kind => kind == .multiple || kind == .star
  | .single, kind => kind == .junction || kind == .option
  | .only expected, found => expected == found
  | .sentinel, _ => false

example :
    TokenClass.all.map (fun cls => TokenClass.named? cls.label) = TokenClass.all.map some := by
  decide

@[simp] theorem TokenClass.includes_only_self (kind : Kind) :
    (TokenClass.only kind).includes kind = true := by
  simp [TokenClass.includes]

end GrammarEngine
