import GrammarEngine.Notation.Source
import GrammarEngine.Proofs.Notation.Gaps
import GrammarEngine.Proofs.Notation.Joining
import GrammarEngine.Proofs.Notation.Layout
import GrammarEngine.Proofs.Notation.Meaning

namespace GrammarEngine.Notation

/-!
# The notation, as it describes itself

The rules of the notation as a grammar of its own: the symbols that were made by hand mean these
rules, and the description of the notation is a text of them.

* `description` — the rules;
* `ruleSet_means` — the symbols of the notation mean them;
* `lines`, `isTextOf_lines` — the description in parts, each a text of its rule;
* `isTextOf_source` — the description is a text of all of them.
-/

/-! ### The rules -/

/-- The rules of the notation. -/
def description : List Rule := [
  -- Names and digits.
  ⟨"ID", .sequence [.literal (.oneOf [span 'a' 'z', span 'A' 'Z']),
    .repeated .noneOrMore
      (.literal (.oneOf [span 'a' 'z', span 'A' 'Z', span '0' '9', lone '_']))]⟩,
  ⟨"DIGIT", .literal (.oneOf [span '0' '9'])⟩,
  -- Characters inside literals.
  ⟨"escape", .sequence [.literal (.single '\\'), .choice [
    .literal (.oneOf [lone 't', lone 'n', lone 'r', lone '"', lone '\'', lone '-', lone '\\',
      lone ']']),
    .sequence [.literal (.single 'u'), .reference "DIGIT", .reference "DIGIT",
      .reference "DIGIT", .reference "DIGIT"]]]⟩,
  ⟨"char", .choice [.reference "escape",
    .literal (.oneOf [⟨0, '!'.toNat⟩, span '#' '[', ⟨']'.toNat, maxCodePoint⟩])]⟩,
  ⟨"range_char", .choice [.reference "escape",
    .literal (.oneOf [⟨0, ','.toNat⟩, span '.' '[', ⟨'^'.toNat, maxCodePoint⟩])]⟩,
  -- Literals.
  ⟨"switch", .choice [.literal (.several ['[', '-', ']']), .sequence [.literal (.single '['),
    .repeated .optional (.sequence [.literal (.single '-'), .reference "range_char"]),
    .repeated .noneOrMore (.choice [
      .sequence [.reference "range_char", .literal (.single '-'), .reference "range_char"],
      .sequence [.reference "range_char", .literal (.single '-')],
      .reference "range_char"]),
    .literal (.single ']')]]⟩,
  ⟨"character", .sequence [.literal (.single '"'), .reference "char", .literal (.single '"')]⟩,
  ⟨"text", .sequence [.literal (.single '"'), .repeated .oneOrMore (.reference "char"),
    .literal (.single '"')]⟩,
  ⟨"LITERAL", .choice [.reference "switch", .reference "character", .reference "text"]⟩,
  -- Expressions.
  ⟨"atom", .choice [
    .sequence [.literal (.single '('), .reference "symbol", .literal (.single ')')],
    .reference "ID", .reference "LITERAL"]⟩,
  ⟨"multiple", .sequence [.reference "atom", .literal (.single '+')]⟩,
  ⟨"option", .sequence [.reference "atom", .literal (.single '?')]⟩,
  ⟨"star", .sequence [.reference "atom", .literal (.single '*')]⟩,
  ⟨"factor", .choice [.reference "multiple", .reference "option", .reference "star",
    .reference "atom"]⟩,
  ⟨"sequence", .repeated .oneOrMore (.reference "factor")⟩,
  ⟨"junction", .sequence [.reference "sequence", .repeated .oneOrMore
    (.sequence [.literal (.single '|'), .reference "sequence"])]⟩,
  ⟨"symbol", .choice [.reference "junction", .reference "sequence"]⟩,
  -- Rules.
  ⟨"rule", .sequence [.reference "ID", .literal (.single ':'), .reference "symbol",
    .literal (.single ';')]⟩,
  ⟨"start", .repeated .oneOrMore (.reference "rule")⟩,
  -- White space and comments.
  ⟨"skip", .repeated .oneOrMore (.choice [
    .repeated .oneOrMore (.literal (.oneOf [span '\x00' ' '])),
    .sequence [.literal (.several ['/', '*']), .repeated .noneOrMore (.choice [
        .literal (.oneOf [⟨0, ')'.toNat⟩, ⟨'+'.toNat, maxCodePoint⟩]),
        .sequence [.repeated .oneOrMore (.literal (.single '*')),
          .literal (.oneOf [⟨0, ')'.toNat⟩, span '+' '.', ⟨'0'.toNat, maxCodePoint⟩])]]),
      .repeated .oneOrMore (.literal (.single '*')), .literal (.single '/')],
    .sequence [.literal (.several ['/', '/']),
      .repeated .noneOrMore (.literal (.oneOf [⟨0, '\t'.toNat⟩, ⟨'\x0b'.toNat, maxCodePoint⟩]))]])⟩]

/-- The description is that of a grammar. -/
theorem isWellFormed_description : IsWellFormed description where
  nonempty := by decide
  distinct := by decide +kernel
  closed := by decide +kernel
  proper := by decide

/-! ### The symbols -/

/-- The symbols that are rules. -/
def ruleTable : List (String × Ref) := [("ID", Sym.ID), ("DIGIT", Sym.DIGIT),
  ("escape", Sym.escape), ("char", Sym.char), ("range_char", Sym.rangeChar),
  ("switch", Sym.switch), ("character", Sym.character), ("text", Sym.text),
  ("LITERAL", Sym.LITERAL), ("atom", Sym.atom), ("multiple", Sym.multiple),
  ("option", Sym.option), ("star", Sym.star), ("factor", Sym.factor),
  ("sequence", Sym.sequence), ("junction", Sym.junction), ("symbol", Sym.symbol),
  ("rule", Sym.rule), ("start", Sym.start), ("skip", Sym.skip)]

theorem entries_eq : ruleSet.rules.entries = ruleTable := by decide +kernel

theorem get?_eq (name : String) : ruleSet.get? name = ruleTable.lookup name := by
  rw [RuleSet.get?, Dictionary.get?, entries_eq]

theorem hasPart (index : Nat) {shape : Shape}
    (h : layout[index]? = some ⟨.generated index, shape⟩) :
    ruleSet.HasPart (.node index) shape :=
  ⟨index, rfl, symbol_node h⟩

/-- A rule that is used once it is there. -/
theorem uses {name : String} {ref : Ref} (h : ruleTable.lookup name = some ref) :
    IsSymbolFor ruleSet.HasPart ruleSet.HasNamed ref (.reference name) [] :=
  .reference ⟨ref, (get?_eq name).trans h, .inl rfl⟩

/-- A literal in an expression. -/
theorem isLiteral (index : Nat) {value : Literal}
    (h : layout[index]? = some ⟨.generated index, value.shape⟩) :
    IsSymbolFor ruleSet.HasPart ruleSet.HasNamed (.node index) (.literal value) [.node index] :=
  .part (hasPart index h) (.literal value)

theorem hasRule {rule : Rule} {parts : List Ref} (index : Nat) {shape : Shape}
    (hrule : ruleTable.lookup rule.name = some (.node index))
    (hsymbol : layout[index]? = some ⟨.given rule.name, shape⟩) (hguarded : shape.isGuarded = true)
    (hshape : IsShapeFor ruleSet.HasPart ruleSet.HasNamed shape rule.body parts) :
    ruleSet.HasRule rule parts :=
  ⟨.node index, shape, (get?_eq _).trans hrule, symbol_node hsymbol, hguarded, hshape⟩

/-- The symbols of the notation mean its rules. The symbol `symbol` is used by a stand-in where it
    is not there yet. -/
theorem ruleSet_means : ruleSet.Means description := by
  have hlater : IsSymbolFor ruleSet.HasPart ruleSet.HasNamed (.node 39) (.reference "symbol") [] :=
    .reference ⟨Sym.symbol, get?_eq _, .inr (symbol_node rfl)⟩
  exact ⟨by decide +kernel, _,
    -- Names and digits.
    .cons (hasRule 4 rfl rfl rfl (.sequence (.cons (isLiteral 0 rfl) (.cons
      (.part (hasPart 3 rfl) (.noneOrMore (hasPart 2 rfl) (isLiteral 1 rfl))) .nil)))) <|
    .cons (hasRule 5 rfl rfl rfl (.literal (.oneOf [span '0' '9']))) <|
    -- Characters inside literals.
    .cons (hasRule 11 rfl rfl rfl (.sequence (.cons (isLiteral 6 rfl) (.cons
      (.part (hasPart 10 rfl) (.choice (.cons (isLiteral 7 rfl) (.cons
        (.part (hasPart 9 rfl) (.sequence (.cons (isLiteral 8 rfl) (.cons (uses rfl)
          (.cons (uses rfl) (.cons (uses rfl) (.cons (uses rfl) .nil)))))))
        .nil)))) .nil)))) <|
    .cons (hasRule 13 rfl rfl rfl
      (.choice (.cons (uses rfl) (.cons (isLiteral 12 rfl) .nil)))) <|
    .cons (hasRule 15 rfl rfl rfl
      (.choice (.cons (uses rfl) (.cons (isLiteral 14 rfl) .nil)))) <|
    -- Literals.
    .cons (hasRule 30 rfl rfl rfl (.choice (.cons (isLiteral 16 rfl) (.cons
      (.part (hasPart 29 rfl) (.sequence (.cons (isLiteral 17 rfl) (.cons
        (.part (hasPart 20 rfl) (.optional (.part (hasPart 19 rfl)
          (.sequence (.cons (isLiteral 18 rfl) (.cons (uses rfl) .nil))))))
        (.cons (.part (hasPart 27 rfl) (.noneOrMore (hasPart 26 rfl) (.part (hasPart 25 rfl)
          (.choice (.cons
            (.part (hasPart 22 rfl) (.sequence
              (.cons (uses rfl) (.cons (isLiteral 21 rfl) (.cons (uses rfl) .nil)))))
            (.cons
              (.part (hasPart 24 rfl)
                (.sequence (.cons (uses rfl) (.cons (isLiteral 23 rfl) .nil))))
              (.cons (uses rfl) .nil)))))))
        (.cons (isLiteral 28 rfl) .nil)))))) .nil)))) <|
    .cons (hasRule 33 rfl rfl rfl (.sequence
      (.cons (isLiteral 31 rfl) (.cons (uses rfl) (.cons (isLiteral 32 rfl) .nil))))) <|
    .cons (hasRule 37 rfl rfl rfl (.sequence (.cons (isLiteral 34 rfl) (.cons
      (.part (hasPart 35 rfl) (.oneOrMore (uses rfl))) (.cons (isLiteral 36 rfl) .nil))))) <|
    .cons (hasRule 38 rfl rfl rfl
      (.choice (.cons (uses rfl) (.cons (uses rfl) (.cons (uses rfl) .nil))))) <|
    -- Expressions.
    .cons (hasRule 43 rfl rfl rfl (.choice (.cons
      (.part (hasPart 42 rfl) (.sequence
        (.cons (isLiteral 40 rfl) (.cons hlater (.cons (isLiteral 41 rfl) .nil)))))
      (.cons (uses rfl) (.cons (uses rfl) .nil))))) <|
    .cons (hasRule 45 rfl rfl rfl
      (.sequence (.cons (uses rfl) (.cons (isLiteral 44 rfl) .nil)))) <|
    .cons (hasRule 47 rfl rfl rfl
      (.sequence (.cons (uses rfl) (.cons (isLiteral 46 rfl) .nil)))) <|
    .cons (hasRule 49 rfl rfl rfl
      (.sequence (.cons (uses rfl) (.cons (isLiteral 48 rfl) .nil)))) <|
    .cons (hasRule 50 rfl rfl rfl (.choice
      (.cons (uses rfl) (.cons (uses rfl) (.cons (uses rfl) (.cons (uses rfl) .nil)))))) <|
    .cons (hasRule 51 rfl rfl rfl (.oneOrMore (uses rfl))) <|
    .cons (hasRule 55 rfl rfl rfl (.sequence (.cons (uses rfl) (.cons
      (.part (hasPart 54 rfl) (.oneOrMore (.part (hasPart 53 rfl)
        (.sequence (.cons (isLiteral 52 rfl) (.cons (uses rfl) .nil)))))) .nil)))) <|
    .cons (hasRule 56 rfl rfl rfl (.choice (.cons (uses rfl) (.cons (uses rfl) .nil)))) <|
    -- Rules.
    .cons (hasRule 59 rfl rfl rfl (.sequence (.cons (uses rfl)
      (.cons (isLiteral 57 rfl) (.cons (uses rfl) (.cons (isLiteral 58 rfl) .nil)))))) <|
    .cons (hasRule 60 rfl rfl rfl (.oneOrMore (uses rfl))) <|
    -- White space and comments.
    .cons (hasRule 82 rfl rfl rfl (.oneOrMore (.part (hasPart 81 rfl) (.choice (.cons
      (.part (hasPart 62 rfl) (.oneOrMore (isLiteral 61 rfl)))
      (.cons
        (.part (hasPart 75 rfl) (.sequence (.cons (isLiteral 63 rfl) (.cons
          (.part (hasPart 71 rfl) (.noneOrMore (hasPart 70 rfl) (.part (hasPart 69 rfl)
            (.choice (.cons (isLiteral 64 rfl) (.cons
              (.part (hasPart 68 rfl) (.sequence (.cons
                (.part (hasPart 66 rfl) (.oneOrMore (isLiteral 65 rfl)))
                (.cons (isLiteral 67 rfl) .nil)))) .nil))))))
          (.cons (.part (hasPart 73 rfl) (.oneOrMore (isLiteral 72 rfl)))
            (.cons (isLiteral 74 rfl) .nil))))))
        (.cons (.part (hasPart 80 rfl) (.sequence (.cons (isLiteral 76 rfl) (.cons
          (.part (hasPart 79 rfl) (.noneOrMore (hasPart 78 rfl) (isLiteral 77 rfl))) .nil))))
        .nil))))))) <|
    .nil, by decide +kernel⟩

/-! ### The text -/

theorem SpellsChar.plain {reserved : List Char} (c : Char) (free : c ∉ reserved) :
    SpellsChar reserved c [c] :=
  .raw free

/-- A character that is spelled with a backslash and a letter. -/
theorem SpellsChar.slash {reserved : List Char} (c : Char) {d : Char}
    (h : c ∈ escapable ∧ letter c = d) : SpellsChar reserved d ['\\', c] :=
  h.2 ▸ .escaped h.1

/-- A character that is spelled with its number. -/
theorem SpellsChar.number {reserved : List Char} (digits : List (Fin 8)) {d : Char}
    (h : digits.length = 4 ∧ Char.ofNat (octalNumber digits) = d) :
    SpellsChar reserved d ('\\' :: 'u' :: octalChars digits) :=
  h.2 ▸ .octal h.1

/-- A range between two characters that stand for themselves. -/
theorem SpellsRange.plain (low high : Char)
    (h : low ∉ classReserved ∧ high ∉ classReserved ∧ low.toNat ≤ high.toNat) :
    SpellsRange (Notation.span low high) [low, '-', high] :=
  .span (.raw h.1) (.raw h.2.1) h.2.2

/-- A range between two characters in any spelling. -/
theorem SpellsRange.spelled {low high : Char} {s s' : List Char}
    (lower : SpellsChar classReserved low s) (upper : SpellsChar classReserved high s')
    (ordered : low.toNat ≤ high.toNat) :
    SpellsRange (Notation.span low high) (s ++ '-' :: s') :=
  .span lower upper ordered

theorem SpellsRange.single {c : Char} {s : List Char} (char : SpellsChar classReserved c s) :
    SpellsRange (Notation.lone c) s :=
  .lone char

/-- A single character between quotes. -/
theorem WritesFactor.quoted {c : Char} {s : List Char} (char : SpellsChar quotedReserved c s) :
    WritesFactor (.literal (.single c)) [.literal (.single c) _ (.single char)] :=
  .once (.literal _)

/-- A single character between quotes, where an atom is needed. -/
theorem WritesAtom.quoted {c : Char} {s : List Char} (char : SpellsChar quotedReserved c s) :
    WritesAtom (.literal (.single c)) [.literal (.single c) _ (.single char)] :=
  .literal _

/-- A class. -/
theorem WritesAtom.class {ranges : CharClass} {s : List Char} (all : SpellsClass ranges s) :
    WritesAtom (.literal (.oneOf ranges)) [.literal (.oneOf ranges) _ (.oneOf all)] :=
  .literal _

/-- A name. -/
theorem WritesFactor.name {name : String} (valid : isID name = true) :
    WritesFactor (.reference name) [.id name valid] :=
  .once (.reference valid)

/-- A single item in sequence. -/
theorem WritesSequence.one {e : Expr Literal} {ls : List Lexeme} (h : WritesFactor e ls) :
    WritesSequence e (ls ++ []) :=
  .intro h .nil

/-- Several items in sequence. -/
theorem WritesSequence.several {e e' : Expr Literal} {es : List (Expr Literal)}
    {ls ls' ls'' : List Lexeme} (first : WritesFactor e ls) (second : WritesFactor e' ls')
    (later : WritesFactors es ls'') :
    WritesSequence (.sequence (e :: e' :: es)) (ls ++ (ls' ++ ls'')) :=
  .intro first (.cons second later)

/-- The description, rule by rule. -/
def lines : List String := [
  r#"
// The notation, in the notation.
ID: [a-zA-Z] [a-zA-Z0-9_]*;"#,
  r#"DIGIT: [0-9];"#,
  r#"
// \u takes four octal digits.
escape: "\\" ([tnr"'\-\\\]] | "u" DIGIT DIGIT DIGIT DIGIT);"#,
  r#"char: escape | [-!#-[\]-];"#,
  r#"range_char: escape | [-,.-[^-];"#,
  r#"
switch: "[-]" | "[" ("-" range_char)? (range_char "-" range_char | range_char "-" | range_char)* "]";"#,
  r#"character: "\"" char "\"";"#,
  r#"text: "\"" char+ "\"";"#,
  r#"LITERAL: switch | character | text;"#,
  r#"
atom: "(" symbol ")" | ID | LITERAL;"#,
  r#"multiple: atom "+";"#,
  r#"option: atom "?";"#,
  r#"star: atom "*";"#,
  r#"factor: multiple | option | star | atom;"#,
  r#"sequence: factor+;"#,
  r#"junction: sequence ("|" sequence)+;"#,
  r#"symbol: junction | sequence;"#,
  r#"
rule: ID ":" symbol ";";"#,
  r#"start: rule+;"#,
  r#"
/* Whitespace is anything at or below a space. */
skip: ([\u0000-\u0040]+ | "/*" ([-)+-] | "*"+ [-)+-.0-])* "*"+ "/" | "//" [-\u0011\u0013-]*)+;"#]

set_option maxRecDepth 8000 in
-- The characters of the literals are put in their place, since to decode them takes long.
theorem source_eq : source.toList = ("\n".intercalate lines).toList ++ ['\n'] := by
  rw [source, String.toList_intercalate, lines]
  simp only [List.map_cons, List.map_nil]
  repeat rw [String.toList_ofList]
  decide +kernel

/-- A text of a single rule. -/
theorem isTextOf_rule {rule : Rule} {ls : List Lexeme} {chars : List Char}
    (hbody : WritesSymbol rule.body ls) (hvalid : isID rule.name = true)
    (hfollows : follows false (.id rule.name hvalid :: .mark .colon :: (ls ++ [.mark .semicolon]))
      chars = true) : IsTextOf (String.ofList chars).toList [rule] := by
  rw [String.toList_ofList]
  exact ⟨_, .cons hvalid hbody .nil, follows_sound hfollows⟩

set_option maxRecDepth 2000 in
/-- Each part of the description is a text of its rule. -/
theorem isTextOf_lines :
    List.Forall₂ (fun line rule => IsTextOf line.toList [rule]) lines description := by
  refine .cons ?_ <| .cons ?_ <| .cons ?_ <| .cons ?_ <| .cons ?_ <| .cons ?_ <| .cons ?_ <|
    .cons ?_ <| .cons ?_ <| .cons ?_ <| .cons ?_ <| .cons ?_ <| .cons ?_ <| .cons ?_ <|
    .cons ?_ <| .cons ?_ <| .cons ?_ <| .cons ?_ <| .cons ?_ <| .cons ?_ .nil
  -- Names and digits.
  · exact isTextOf_rule
      (.only (.several
        (.once (.class (.ranges (.cons (.plain 'a' 'z' (by decide))
          (.cons (.plain 'A' 'Z' (by decide)) .nil)))))
        (.repeated (.class (.ranges (.cons (.plain 'a' 'z' (by decide))
          (.cons (.plain 'A' 'Z' (by decide)) (.cons (.plain '0' '9' (by decide))
          (.cons (.single (.plain '_' (by decide))) .nil)))))))
        .nil))
      (by decide) (by decide +kernel)
  · exact isTextOf_rule
      (.only (.one
        (.once (.class (.ranges (.cons (.plain '0' '9' (by decide)) .nil))))))
      (by decide) (by decide +kernel)
  -- Characters inside literals.
  · exact isTextOf_rule
      (.only (.several (.quoted (.slash '\\' (by decide)))
        (.once (.group (.choice
          (.one (.once (.class (.ranges (.cons (.single (.plain 't' (by decide)))
            (.cons (.single (.plain 'n' (by decide))) (.cons (.single (.plain 'r' (by decide)))
            (.cons (.single (.plain '"' (by decide))) (.cons (.single (.plain '\'' (by decide)))
            (.cons (.single (.slash '-' (by decide))) (.cons (.single (.slash '\\' (by decide)))
            (.cons (.single (.slash ']' (by decide))) .nil))))))))))))
          (.several (.quoted (.plain 'u' (by decide))) (.name (by decide))
          (.cons (.name (by decide)) (.cons (.name (by decide)) (.cons (.name (by decide)) .nil))))
          .nil)))
        .nil))
      (by decide) (by decide +kernel)
  · exact isTextOf_rule
      (.choice (.one (.name (by decide)))
        (.one (.once (.class (.upTo (.plain '!' (by decide))
          (.cons (.plain '#' '[' (by decide)) (.onward (.slash ']' (by decide))))))))
        .nil)
      (by decide) (by decide +kernel)
  · exact isTextOf_rule
      (.choice (.one (.name (by decide)))
        (.one (.once (.class (.upTo (.plain ',' (by decide))
          (.cons (.plain '.' '[' (by decide)) (.onward (.plain '^' (by decide))))))))
        .nil)
      (by decide) (by decide +kernel)
  -- Literals.
  · exact isTextOf_rule
      (.choice
        (.one (.once (.literal (.several (.cons (.plain '[' (by decide))
          (.cons (.plain '-' (by decide)) (.cons (.plain ']' (by decide)) .nil))) (by decide)))))
        (.several (.quoted (.plain '[' (by decide)))
          (.repeated (.group (.only
            (.several (.quoted (.plain '-' (by decide))) (.name (by decide)) .nil))))
          (.cons (.repeated (.group (.choice
              (.several (.name (by decide)) (.quoted (.plain '-' (by decide)))
                (.cons (.name (by decide)) .nil))
              (.several (.name (by decide)) (.quoted (.plain '-' (by decide))) .nil)
              (.cons (.one (.name (by decide))) .nil))))
            (.cons (.quoted (.plain ']' (by decide))) .nil)))
        .nil)
      (by decide) (by decide +kernel)
  · exact isTextOf_rule
      (.only (.several (.quoted (.slash '"' (by decide))) (.name (by decide))
        (.cons (.quoted (.slash '"' (by decide))) .nil)))
      (by decide) (by decide +kernel)
  · exact isTextOf_rule
      (.only (.several (.quoted (.slash '"' (by decide))) (.repeated (.reference (by decide)))
        (.cons (.quoted (.slash '"' (by decide))) .nil)))
      (by decide) (by decide +kernel)
  · exact isTextOf_rule
      (.choice (.one (.name (by decide))) (.one (.name (by decide)))
          (.cons (.one (.name (by decide))) .nil))
      (by decide) (by decide +kernel)
  -- Expressions.
  · exact isTextOf_rule
      (.choice
        (.several (.quoted (.plain '(' (by decide))) (.name (by decide))
          (.cons (.quoted (.plain ')' (by decide))) .nil))
        (.one (.name (by decide))) (.cons (.one (.name (by decide))) .nil))
      (by decide) (by decide +kernel)
  · exact isTextOf_rule
      (.only (.several (.name (by decide)) (.quoted (.plain '+' (by decide))) .nil))
      (by decide) (by decide +kernel)
  · exact isTextOf_rule
      (.only (.several (.name (by decide)) (.quoted (.plain '?' (by decide))) .nil))
      (by decide) (by decide +kernel)
  · exact isTextOf_rule
      (.only (.several (.name (by decide)) (.quoted (.plain '*' (by decide))) .nil))
      (by decide) (by decide +kernel)
  · exact isTextOf_rule
      (.choice (.one (.name (by decide))) (.one (.name (by decide)))
        (.cons (.one (.name (by decide))) (.cons (.one (.name (by decide))) .nil)))
      (by decide) (by decide +kernel)
  · exact isTextOf_rule
      (.only (.one (.repeated (.reference (by decide)))))
      (by decide) (by decide +kernel)
  · exact isTextOf_rule
      (.only (.several (.name (by decide))
        (.repeated (.group (.only
          (.several (.quoted (.plain '|' (by decide))) (.name (by decide)) .nil))))
        .nil))
      (by decide) (by decide +kernel)
  · exact isTextOf_rule
      (.choice (.one (.name (by decide))) (.one (.name (by decide))) .nil)
      (by decide) (by decide +kernel)
  -- Rules.
  · exact isTextOf_rule
      (.only (.several (.name (by decide)) (.quoted (.plain ':' (by decide)))
        (.cons (.name (by decide)) (.cons (.quoted (.plain ';' (by decide))) .nil))))
      (by decide) (by decide +kernel)
  · exact isTextOf_rule
      (.only (.one (.repeated (.reference (by decide)))))
      (by decide) (by decide +kernel)
  -- White space and comments.
  · exact isTextOf_rule
      (.only (.one (.repeated (.group (.choice
        (.one (.repeated (.class (.ranges (.cons
          (.spelled (.number [0, 0, 0, 0] (by decide))
            (.number [0, 0, 4, 0] (by decide)) (by decide)) .nil)))))
        (.several
          (.once (.literal (.several (.cons (.plain '/' (by decide))
            (.cons (.plain '*' (by decide)) .nil)) (by decide))))
          (.repeated (.group (.choice
            (.one (.once (.class
              (.upTo (.plain ')' (by decide)) (.onward (.plain '+' (by decide)))))))
            (.several (.repeated (.quoted (.plain '*' (by decide))))
              (.once (.class (.upTo (.plain ')' (by decide)) (.cons (.plain '+' '.' (by decide))
                (.onward (.plain '0' (by decide)))))))
              .nil)
            .nil)))
          (.cons (.repeated (.quoted (.plain '*' (by decide))))
            (.cons (.quoted (.plain '/' (by decide))) .nil)))
        (.cons (.several
          (.once (.literal (.several (.cons (.plain '/' (by decide))
            (.cons (.plain '/' (by decide)) .nil)) (by decide))))
          (.repeated (.class (.upTo (.number [0, 0, 1, 1] (by decide))
            (.onward (.number [0, 0, 1, 3] (by decide))))))
          .nil) .nil))))))
      (by decide) (by decide +kernel)

/-- The description is a text of the rules of the notation. -/
theorem isTextOf_source : IsTextOf source.toList description := by
  rw [source_eq, ← List.append_nil description]
  exact (IsTextOf.joined isTextOf_lines).append isTextOf_nil

end GrammarEngine.Notation
