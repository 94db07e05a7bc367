import GrammarEngine.Proofs.Notation.Writing

namespace GrammarEngine.Notation

/-!
# What the notation accepts

The texts that are matched, whether or not they make sense: an escape may have digits that are not
octal, a range may be backwards, and names may stand for nothing.

* `IsCharText`, `IsLiteralText` — the characters of literals, and literals;
* `Piece` — the tokens of a text;
* `Derives` — the grammar of the notation, over tokens;
* `Alternates` — a text in which gaps and tokens take turns;
* `Laid` — tokens with gaps between them, from the first token to the last one.
-/

/-! ### Literals -/

/-- A character of a literal: a plain one, or one that is escaped. -/
inductive IsCharText (reserved : List Char) : List Char → Prop
  | plain {c : Char} (free : c ∉ reserved) : IsCharText reserved [c]
  | escaped {c : Char} (mem : c ∈ escapable) : IsCharText reserved ['\\', c]
  | digits {digits : List Char} (length_eq : digits.length = 4)
      (all : digits.all Char.isDigit = true) : IsCharText reserved ('\\' :: 'u' :: digits)

/-- Characters between quotes, one or more. -/
inductive IsQuotedText : List Char → Prop
  | one {s : List Char} (char : IsCharText quotedReserved s) : IsQuotedText s
  | more {s s' : List Char} (first : IsCharText quotedReserved s) (later : IsQuotedText s') :
      IsQuotedText (s ++ s')

/-- Items of a class: from one character to another, or a single one. The last item may have no
    upper end. -/
inductive IsItemsText : List Char → Prop
  | nil : IsItemsText []
  | span {s s' s'' : List Char} (low : IsCharText classReserved s)
      (high : IsCharText classReserved s') (later : IsItemsText s'') :
      IsItemsText (s ++ '-' :: s' ++ s'')
  | onward {s : List Char} (low : IsCharText classReserved s) : IsItemsText (s ++ ['-'])
  | lone {s s' : List Char} (char : IsCharText classReserved s) (later : IsItemsText s') :
      IsItemsText (s ++ s')

/-- Where there is an item, there is a character at its beginning. -/
theorem IsItemsText.nil_or_char {s : List Char} (h : IsItemsText s) :
    s = [] ∨ ∃ s' rest, IsCharText classReserved s' ∧ s = s' ++ rest := by
  cases h with
  | nil => exact .inl rfl
  | span low high later => exact .inr ⟨_, _, low, List.append_assoc ..⟩
  | onward low => exact .inr ⟨_, _, low, rfl⟩
  | lone char later => exact .inr ⟨_, _, char, rfl⟩

/-- A literal: a class, or characters between quotes. The first item of a class may have no lower
    end. -/
inductive IsLiteralText : List Char → Prop
  | any : IsLiteralText ['[', '-', ']']
  | items {s : List Char} (all : IsItemsText s) : IsLiteralText ('[' :: (s ++ [']']))
  | upTo {s s' : List Char} (high : IsCharText classReserved s) (later : IsItemsText s') :
      IsLiteralText ('[' :: '-' :: (s ++ s' ++ [']']))
  | quoted {s : List Char} (chars : IsQuotedText s) : IsLiteralText ('"' :: (s ++ ['"']))

/-! ### Literals of grammars -/

theorem isDigit_octalChars (digits : List (Fin 8)) :
    (octalChars digits).all Char.isDigit = true := by
  have hdigit : ∀ d : Fin 8, (Nat.digitChar d).isDigit = true := by decide
  simp [octalChars, hdigit]

theorem SpellsChar.isCharText {reserved : List Char} {c : Char} {s : List Char}
    (h : SpellsChar reserved c s) : IsCharText reserved s := by
  cases h with
  | raw free => exact .plain free
  | escaped mem => exact .escaped mem
  | @octal digits length_eq =>
    exact .digits ((length_octalChars digits).trans length_eq) (isDigit_octalChars digits)

theorem SpellsChars.isQuotedText {cs s : List Char} (h : SpellsChars cs s) (hne : cs ≠ []) :
    IsQuotedText s := by
  induction h with
  | nil => exact absurd rfl hne
  | @cons c cs s s' first later ih =>
    cases later with
    | nil =>
      rw [List.append_nil]
      exact .one first.isCharText
    | cons first' later' => exact .more first.isCharText (ih (by simp))

theorem SpellsRanges.isItemsText {ranges : CharClass} {s : List Char} (h : SpellsRanges ranges s) :
    IsItemsText s := by
  induction h with
  | nil => exact .nil
  | onward char => exact .onward char.isCharText
  | cons first later ih =>
    cases first with
    | span lower upper ordered => exact .span lower.isCharText upper.isCharText ih
    | lone char => exact .lone char.isCharText ih

/-- Whatever a literal of a grammar is, it is written as a literal. -/
theorem Spells.isLiteralText {v : Literal} {s : List Char} (h : Spells v s) : IsLiteralText s := by
  cases h with
  | any => exact .any
  | oneOf all =>
    cases all with
    | ranges all => exact .items all.isItemsText
    | upTo char later => exact .upTo char.isCharText later.isItemsText
  | single char => exact .quoted (.one char.isCharText)
  | several chars two_le =>
    exact .quoted (chars.isQuotedText (List.ne_nil_of_length_pos (by omega)))

/-! ### Tokens -/

/-- A token of a text that is matched. -/
inductive Piece
  | id (name : String) (valid : isID name = true)
  | literal (spelling : List Char) (valid : IsLiteralText spelling)
  | mark (m : Mark)

namespace Piece

/-- The text of a token, in characters. -/
def chars : Piece → List Char
  | .id name _ => name.toList
  | .literal spelling _ => spelling
  | .mark m => [m.char]

/-- The text of a token. -/
def text (piece : Piece) : String := String.ofList piece.chars

/-- Is the token a name? -/
def isID : Piece → Bool
  | .id _ _ => true
  | _ => false

/-- Where a token of a grammar text is, there is a token. -/
theorem chars_ne_nil (piece : Piece) : piece.chars ≠ [] := by
  cases piece with
  | id name valid =>
    intro hnil
    rw [Notation.isID, show name.toList = [] from hnil] at valid
    cases valid
  | literal spelling valid => cases valid <;> simp [chars]
  | mark m => simp [chars]

end Piece

/-- A token of a grammar, as one of a text. -/
def Lexeme.piece : Lexeme → Piece
  | .id name valid => .id name valid
  | .literal _ spelling valid => .literal spelling valid.isLiteralText
  | .mark m => .mark m

/-! ### The grammar of the notation -/

/-- What tokens can be together. -/
inductive Phrase
  | start
  | rule
  | symbol
  | sequence
  | factor
  | atom

/-- The tokens are derived from the phrase, by the rules
    `start: rule+; rule: ID ":" symbol ";"; symbol: sequence ("|" sequence)*; sequence: factor+;`
    `factor: atom | atom "+" | atom "?" | atom "*"; atom: "(" symbol ")" | ID | LITERAL;`. -/
inductive Derives : Phrase → List Piece → Prop
  | start {pss : List (List Piece)} (nonempty : pss ≠ [])
      (rules : ∀ ps ∈ pss, Derives .rule ps) : Derives .start pss.flatten
  | rule {name : String} {ps : List Piece} (valid : isID name = true)
      (body : Derives .symbol ps) :
      Derives .rule (.id name valid :: .mark .colon :: (ps ++ [.mark .semicolon]))
  | symbol {ps : List Piece} {pss : List (List Piece)} (first : Derives .sequence ps)
      (later : ∀ ps' ∈ pss, Derives .sequence ps') :
      Derives .symbol (ps ++ (pss.map (.mark .bar :: ·)).flatten)
  | sequence {pss : List (List Piece)} (nonempty : pss ≠ [])
      (factors : ∀ ps ∈ pss, Derives .factor ps) : Derives .sequence pss.flatten
  | once {ps : List Piece} (atom : Derives .atom ps) : Derives .factor ps
  | repeated {ps : List Piece} (count : Count) (atom : Derives .atom ps) :
      Derives .factor (ps ++ [.mark count.mark])
  | group {ps : List Piece} (inner : Derives .symbol ps) :
      Derives .atom (.mark .opening :: (ps ++ [.mark .closing]))
  | id {name : String} (valid : isID name = true) : Derives .atom [.id name valid]
  | literal {s : List Char} (valid : IsLiteralText s) : Derives .atom [.literal s valid]

/-! ### Tokens in a text -/

/-- Gaps and tokens take turns in the text, behind a token that may be a name. Two names are not
    next to each other. -/
inductive Alternates : (afterID : Bool) → List Piece → List Char → Prop
  | last {afterID : Bool} {gap : List Char} (blank : IsLastGap gap) : Alternates afterID [] gap
  | next {afterID : Bool} {piece : Piece} {ps : List Piece} {gap rest : List Char}
      (blank : IsGap gap) (apart : afterID = true → piece.isID = true → gap ≠ [])
      (later : Alternates piece.isID ps rest) :
      Alternates afterID (piece :: ps) (gap ++ (piece.chars ++ rest))

/-- The text goes from the first token to the last one, each of which may be a name. -/
inductive Laid : (beginsID : Bool) → List Piece → List Char → (endsID : Bool) → Prop
  | one (piece : Piece) : Laid piece.isID [piece] piece.chars piece.isID
  | join {b b' e e' : Bool} {ps ps' : List Piece} {s gap s' : List Char} (first : Laid b ps s e)
      (blank : IsGap gap) (apart : e = true → b' = true → gap ≠ []) (later : Laid b' ps' s' e') :
      Laid b (ps ++ ps') (s ++ (gap ++ s')) e'

namespace Laid

variable {b e : Bool} {ps : List Piece} {s : List Char}

theorem ne_nil (h : Laid b ps s e) : s ≠ [] := by
  induction h with
  | one piece => exact piece.chars_ne_nil
  | join _ _ _ _ ih _ => simp [ih]

/-- A text that begins with a name begins with a letter. -/
theorem head (h : Laid b ps s e) (hb : b = true) : ∃ c s', s = c :: s' ∧ isWordChar c = true := by
  induction h with
  | one piece =>
    cases piece with
    | id name valid =>
      rw [isID] at valid
      cases hname : name.toList with
      | nil => rw [hname] at valid; cases valid
      | cons c cs =>
        rw [hname, Bool.and_eq_true] at valid
        exact ⟨c, cs, hname, by rw [isWordChar, valid.1, Bool.true_or, Bool.true_or]⟩
    | literal => cases hb
    | mark => cases hb
  | join _ _ _ _ ih _ =>
    obtain ⟨c, s', rfl, hc⟩ := ih hb
    exact ⟨c, _, rfl, hc⟩

/-- Tokens that are laid out, and others behind them. -/
theorem alternates (h : Laid b ps s e) {afterID : Bool} {gap rest : List Char} {ps' : List Piece}
    (hgap : IsGap gap) (hapart : afterID = true → b = true → gap ≠ [])
    (hrest : Alternates e ps' rest) : Alternates afterID (ps ++ ps') (gap ++ (s ++ rest)) := by
  induction h generalizing afterID gap rest ps' with
  | one piece => exact .next hgap hapart hrest
  | join _ blank apart _ ih ih' =>
    have hboth := ih hgap hapart (ih' blank apart hrest)
    simpa using hboth

end Laid

end GrammarEngine.Notation
