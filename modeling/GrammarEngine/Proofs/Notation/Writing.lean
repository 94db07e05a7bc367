import GrammarEngine.Proofs.Notation.Listening

namespace GrammarEngine.Notation

/-!
# How grammars are written

All the ways in which a grammar can be put into a text: the spellings of its literals, where
parentheses go, and what there can be between two tokens.

* `octalChars`, `octalNumber` — octal digits, and the number that they are;
* `SpellsChar`, `Spells` — the spellings of characters and of literals;
* `Lexeme` — the tokens of a grammar text;
* `WritesAtom`, `WritesFactor`, `WritesSequence`, `WritesSymbol` — an expression in tokens, by
  precedence, with parentheses where they are needed and wherever else;
* `Rule`, `WritesRules`, `IsWellFormed` — the rules of a grammar;
* `IsGap`, `IsLastGap`, `Follows` — white space and comments, and tokens with those between them.
-/

/-! ### Octal digits -/

/-- Octal digits as characters. -/
def octalChars (digits : List (Fin 8)) : List Char := digits.map fun d : Fin 8 => Nat.digitChar d

/-- The number that octal digits are in base eight, where the last one counts for least. -/
def octalNumber (digits : List (Fin 8)) : Nat := Nat.ofDigits 8 (digits.reverse.map Fin.val)

@[simp] theorem length_octalChars (digits : List (Fin 8)) :
    (octalChars digits).length = digits.length :=
  List.length_map ..

theorem isOctal_octalChars (digits : List (Fin 8)) : (octalChars digits).all isOctal = true := by
  have hdigit : ∀ d : Fin 8, isOctal (Nat.digitChar d) = true := by decide
  simp [octalChars, hdigit]

/-- The digits that the notation takes for octal are the characters of octal digits. -/
theorem exists_octalChars {cs : List Char} (h : cs.all isOctal = true) :
    ∃ digits, octalChars digits = cs := by
  induction cs with
  | nil => exact ⟨[], rfl⟩
  | cons c cs ih =>
    rw [List.all_cons, Bool.and_eq_true] at h
    obtain ⟨digits, rfl⟩ := ih h.2
    have hc := (isOctal_iff c).mp h.1
    have hchar : Nat.digitChar (c.toNat - 48) = c := by
      apply Char.toNat_inj.mp
      rw [Nat.toNat_digitChar_of_lt_ten (by omega)]
      omega
    exact ⟨⟨c.toNat - 48, by omega⟩ :: digits, by rw [octalChars, List.map_cons, hchar]; rfl⟩

/-- The digits of a number are read as that number. -/
theorem octalValue_octalChars (digits : List (Fin 8)) :
    octalValue (octalChars digits) = octalNumber digits := by
  have hdigit : ∀ d : Fin 8, (Nat.digitChar d).toNat - '0'.toNat = d := by decide
  rw [octalValue_eq, octalNumber, octalChars, ← List.map_reverse, List.map_map]
  exact congrArg _ (List.map_congr_left fun d _ => hdigit d)

/-- Four octal digits are the number of a character. -/
theorem isValidChar_octalNumber {digits : List (Fin 8)} (h : digits.length = 4) :
    (octalNumber digits).isValidChar := by
  have hlt := octalValue_lt ((length_octalChars digits).trans h) (isOctal_octalChars digits)
  rw [octalValue_octalChars] at hlt
  exact .inl (by omega)

/-! ### Literals -/

/-- The characters that can follow a backslash and nothing else. -/
def escapable : List Char := ['t', 'n', 'r', '"', '\'', '-', '\\', ']']

/-- The character is written so where some characters cannot stand for themselves. -/
inductive SpellsChar (reserved : List Char) : Char → List Char → Prop
  | raw {c : Char} (free : c ∉ reserved) : SpellsChar reserved c [c]
  | escaped {c : Char} (mem : c ∈ escapable) : SpellsChar reserved (letter c) ['\\', c]
  | octal {digits : List (Fin 8)} (length_eq : digits.length = 4) :
      SpellsChar reserved (Char.ofNat (octalNumber digits)) ('\\' :: 'u' :: octalChars digits)

/-- What cannot stand for itself between quotes. -/
def quotedReserved : List Char := ['"', '\\']

/-- What cannot stand for itself in a class. -/
def classReserved : List Char := ['-', '\\', ']']

/-- The characters are written so between quotes. -/
inductive SpellsChars : List Char → List Char → Prop
  | nil : SpellsChars [] []
  | cons {c : Char} {cs s s' : List Char} (first : SpellsChar quotedReserved c s)
      (later : SpellsChars cs s') : SpellsChars (c :: cs) (s ++ s')

/-- The range is written so in a class: from one character to another, or as a single one. -/
inductive SpellsRange : CodeRange → List Char → Prop
  | span {low high : Char} {s s' : List Char} (lower : SpellsChar classReserved low s)
      (upper : SpellsChar classReserved high s') (ordered : low.toNat ≤ high.toNat) :
      SpellsRange ⟨low.toNat, high.toNat⟩ (s ++ '-' :: s')
  | lone {c : Char} {s : List Char} (char : SpellsChar classReserved c s) :
      SpellsRange ⟨c.toNat, c.toNat⟩ s

/-- The ranges are written so in a class. The last one may have no upper end: a character behind
    its minus sign would be one. -/
inductive SpellsRanges : CharClass → List Char → Prop
  | nil : SpellsRanges [] []
  | onward {c : Char} {s : List Char} (char : SpellsChar classReserved c s) :
      SpellsRanges [⟨c.toNat, maxCodePoint⟩] (s ++ ['-'])
  | cons {range : CodeRange} {ranges : CharClass} {s s' : List Char}
      (first : SpellsRange range s) (later : SpellsRanges ranges s') :
      SpellsRanges (range :: ranges) (s ++ s')

/-- The class is written so between its brackets. The first range may have no lower end. -/
inductive SpellsClass : CharClass → List Char → Prop
  | ranges {ranges : CharClass} {s : List Char} (all : SpellsRanges ranges s) :
      SpellsClass ranges s
  | upTo {c : Char} {ranges : CharClass} {s s' : List Char}
      (char : SpellsChar classReserved c s) (later : SpellsRanges ranges s') :
      SpellsClass (⟨0, c.toNat⟩ :: ranges) ('-' :: (s ++ s'))

/-- The literal is written so. -/
inductive Spells : Literal → List Char → Prop
  | any : Spells .any ['[', '-', ']']
  | oneOf {ranges : CharClass} {s : List Char} (all : SpellsClass ranges s) :
      Spells (.oneOf ranges) ('[' :: (s ++ [']']))
  | single {c : Char} {s : List Char} (char : SpellsChar quotedReserved c s) :
      Spells (.single c) ('"' :: (s ++ ['"']))
  | several {cs s : List Char} (chars : SpellsChars cs s) (two_le : 2 ≤ cs.length) :
      Spells (.several cs) ('"' :: (s ++ ['"']))

/-! ### Tokens -/

/-- The tokens that are always the same. -/
inductive Mark
  | opening
  | closing
  | bar
  | plus
  | question
  | star
  | colon
  | semicolon
  deriving DecidableEq, Repr

/-- The character of a mark. -/
def Mark.char : Mark → Char
  | .opening => '('
  | .closing => ')'
  | .bar => '|'
  | .plus => '+'
  | .question => '?'
  | .star => '*'
  | .colon => ':'
  | .semicolon => ';'

/-- The mark behind what may come more or less than once. -/
def Count.mark : Count → Mark
  | .oneOrMore => .plus
  | .optional => .question
  | .noneOrMore => .star

/-- A token of a grammar text. -/
inductive Lexeme
  | id (name : String) (valid : isID name = true)
  | literal (value : Literal) (spelling : List Char) (valid : Spells value spelling)
  | mark (m : Mark)

namespace Lexeme

/-- The text of a token. -/
def chars : Lexeme → List Char
  | .id name _ => name.toList
  | .literal _ spelling _ => spelling
  | .mark m => [m.char]

/-- Is the token a name? -/
def isID : Lexeme → Bool
  | .id _ _ => true
  | _ => false

/-- Can an expression begin with the token? -/
def opens : Lexeme → Bool
  | .mark m => m = .opening
  | _ => true

end Lexeme

/-! ### Expressions -/

mutual

/-- The expression is written so where an atom is needed. -/
inductive WritesAtom : Expr Literal → List Lexeme → Prop
  | reference {name : String} (valid : isID name = true) :
      WritesAtom (.reference name) [.id name valid]
  | literal {value : Literal} {spelling : List Char} (valid : Spells value spelling) :
      WritesAtom (.literal value) [.literal value spelling valid]
  | group {e : Expr Literal} {ls : List Lexeme} (inner : WritesSymbol e ls) :
      WritesAtom e (.mark .opening :: (ls ++ [.mark .closing]))

/-- The expression is written so within a sequence. -/
inductive WritesFactor : Expr Literal → List Lexeme → Prop
  | once {e : Expr Literal} {ls : List Lexeme} (atom : WritesAtom e ls) : WritesFactor e ls
  | repeated {count : Count} {e : Expr Literal} {ls : List Lexeme} (atom : WritesAtom e ls) :
      WritesFactor (.repeated count e) (ls ++ [.mark count.mark])

/-- The expressions are written so one after the other. -/
inductive WritesFactors : List (Expr Literal) → List Lexeme → Prop
  | nil : WritesFactors [] []
  | cons {e : Expr Literal} {es : List (Expr Literal)} {ls ls' : List Lexeme}
      (first : WritesFactor e ls) (later : WritesFactors es ls') :
      WritesFactors (e :: es) (ls ++ ls')

/-- The expression is written so as an alternative of a choice. -/
inductive WritesSequence : Expr Literal → List Lexeme → Prop
  | intro {e : Expr Literal} {es : List (Expr Literal)} {ls ls' : List Lexeme}
      (first : WritesFactor e ls) (later : WritesFactors es ls') :
      WritesSequence (.inSequence (e :: es)) (ls ++ ls')

/-- The alternatives are written so, each one behind a bar. -/
inductive WritesAlternatives : List (Expr Literal) → List Lexeme → Prop
  | nil : WritesAlternatives [] []
  | cons {e : Expr Literal} {es : List (Expr Literal)} {ls ls' : List Lexeme}
      (first : WritesSequence e ls) (later : WritesAlternatives es ls') :
      WritesAlternatives (e :: es) (.mark .bar :: (ls ++ ls'))

/-- The expression is written so as a body or between parentheses. -/
inductive WritesSymbol : Expr Literal → List Lexeme → Prop
  | only {e : Expr Literal} {ls : List Lexeme} (sequence : WritesSequence e ls) :
      WritesSymbol e ls
  | choice {e e' : Expr Literal} {es : List (Expr Literal)} {ls ls' ls'' : List Lexeme}
      (first : WritesSequence e ls) (second : WritesSequence e' ls')
      (later : WritesAlternatives es ls'') :
      WritesSymbol (.choice (e :: e' :: es)) (ls ++ .mark .bar :: (ls' ++ ls''))

end

/-! ### Rules -/

/-- A rule of a grammar. -/
structure Rule where
  name : String
  body : Expr Literal

/-- The rules are written so. -/
inductive WritesRules : List Rule → List Lexeme → Prop
  | nil : WritesRules [] []
  | cons {r : Rule} {rules : List Rule} {ls ls' : List Lexeme} (valid : isID r.name = true)
      (body : WritesSymbol r.body ls) (later : WritesRules rules ls') :
      WritesRules (r :: rules)
        (.id r.name valid :: .mark .colon :: (ls ++ .mark .semicolon :: ls'))

/-- The rules are those of a grammar: there is one, no two go by the same name, all names stand
    for rules, and none is just another one. -/
structure IsWellFormed (rules : List Rule) : Prop where
  nonempty : rules ≠ []
  distinct : (rules.map Rule.name).Nodup
  closed : ∀ r ∈ rules, ∀ name ∈ r.body.names, name ∈ rules.map Rule.name
  proper : ∀ r ∈ rules, r.body.isReference = false

/-! ### Gaps -/

/-- What can stand between two tokens: white space and comments. -/
inductive IsGap : List Char → Prop
  | nil : IsGap []
  | white {c : Char} {gap : List Char} (blank : c ≤ ' ') (later : IsGap gap) : IsGap (c :: gap)
  /-- A comment ends with the first asterisk that a slash follows. -/
  | comment {body gap : List Char} (closed : ¬ ['*', '/'] <:+: body ++ ['*'])
      (later : IsGap gap) : IsGap ('/' :: '*' :: (body ++ '*' :: '/' :: gap))
  | line {body gap : List Char} (closed : '\n' ∉ body) (later : IsGap gap) :
      IsGap ('/' :: '/' :: (body ++ '\n' :: gap))

/-- What can stand behind the last token: the end of the text can end a comment, too. -/
inductive IsLastGap : List Char → Prop
  | gap {gap : List Char} (blank : IsGap gap) : IsLastGap gap
  | line {gap body : List Char} (blank : IsGap gap) (closed : '\n' ∉ body) :
      IsLastGap (gap ++ '/' :: '/' :: body)

/-- The tokens are in the text with gaps between them, behind one that may be a name. Two names
    are not next to each other. -/
inductive Follows : (afterID : Bool) → List Lexeme → List Char → Prop
  | last {afterID : Bool} {gap : List Char} (blank : IsLastGap gap) : Follows afterID [] gap
  | next {afterID : Bool} {l : Lexeme} {ls : List Lexeme} {gap rest : List Char}
      (blank : IsGap gap) (apart : afterID = true → l.isID = true → gap ≠ [])
      (later : Follows l.isID ls rest) :
      Follows afterID (l :: ls) (gap ++ (l.chars ++ rest))

/-- The text is one of a grammar with these rules. -/
def IsTextOf (text : List Char) (rules : List Rule) : Prop :=
  ∃ ls, WritesRules rules ls ∧ Follows false ls text

/-! ### Where tokens begin -/

/-- The text begins with the first of the tokens, and the others follow. -/
def Begins : List Lexeme → List Char → Prop
  | [], s => s = []
  | l :: ls, s => ∃ rest, s = l.chars ++ rest ∧ Follows l.isID ls rest

end GrammarEngine.Notation
