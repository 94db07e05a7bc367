namespace GrammarEngine.Notation

/-!
# The notation

Grammars are written in a notation of their own:

* a rule is `name: body;`, and rule names start with a letter;
* `a b` is a sequence, `a | b` an ordered choice, `a+`, `a?` and `a*` are one or more, optional,
  and none or more, and parentheses group;
* `"x"` is a single character, `"xyz"` an exact text;
* `[a-z0-9_]` is a character class of ranges and single characters; `[-c]` is everything up to
  `c`, `[c-]` is `c` and everything after it, and `[-]` is any character at all;
* a backslash escapes `t`, `n`, `r`, the two quotes, the minus sign, itself and the closing
  bracket; `u` and four octal digits after it give any other code point;
* comments are those of C, of either kind.

Rules whose names are all upper case are lexical: nothing is skipped inside them. A rule can use
one that is defined later, but it cannot just be another rule.

`source` is the notation described in the notation.
-/

/-- The rules of the notation, in the notation. -/
def source : String := r#"
// The notation, in the notation.
ID: [a-zA-Z] [a-zA-Z0-9_]*;
DIGIT: [0-9];

// \u takes four octal digits.
escape: "\\" ([tnr"'\-\\\]] | "u" DIGIT DIGIT DIGIT DIGIT);
char: escape | [-!#-[\]-];
range_char: escape | [-,.-[^-];

switch: "[-]" | "[" ("-" range_char)? (range_char "-" range_char | range_char "-" | range_char)* "]";
character: "\"" char "\"";
text: "\"" char+ "\"";
LITERAL: switch | character | text;

atom: "(" symbol ")" | ID | LITERAL;
multiple: atom "+";
option: atom "?";
star: atom "*";
factor: multiple | option | star | atom;
sequence: factor+;
junction: sequence ("|" sequence)+;
symbol: junction | sequence;

rule: ID ":" symbol ";";
start: rule+;

/* Whitespace is anything at or below a space. */
skip: ([\u0000-\u0040]+ | "/*" ([-)+-] | "*"+ [-)+-.0-])* "*"+ "/" | "//" [-\u0011\u0013-]*)+;
"#

end GrammarEngine.Notation
