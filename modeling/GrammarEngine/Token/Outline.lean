import GrammarEngine.Token.Basic

namespace GrammarEngine.Token

open GrammarEngine

/-!
# Outlines

The tree as lines of text: a line for each token, parents before children, two spaces deeper for
each level.

* `outlineLine` — the line of one token;
* `outline` — the lines of a tree, with or without the tokens that cover no text;
* `format` — the same as one text.
-/

variable {α : Type}

/-- The written name of the token's form. -/
def formLabel (t : Token α) : String :=
  match t.sort with
  | .node kind => kind.label
  | .sentinel => TokenSort.sentinel.label

/-- The line for one token: its name, its form, the text it covers if nothing is below it, and
    where it starts and ends. -/
def outlineLine (indent : Nat) (t : Token α) : String :=
  let text := if t.children.isEmpty then ":" ++ quoted t.substring else ""
  "".pushn ' ' indent ++ t.name.text ++ " " ++ t.formLabel ++ text
    ++ " [" ++ toString t.start ++ ", " ++ toString t.stop ++ ")"

mutual

/-- The lines of a tree that starts at an indentation. With `ignoreEmpty` a token that covers no
    text has no line, and what is below it is not looked at. -/
def outlineFrom (ignoreEmpty : Bool) (indent : Nat) : Token α → List String
  | .sentinel which =>
    if ignoreEmpty then [] else [outlineLine indent (.sentinel (α := α) which)]
  | .node header children payload =>
    if ignoreEmpty && header.substring.isEmpty then []
    else outlineLine indent (.node header children payload)
      :: outlineAll ignoreEmpty (indent + 2) children

/-- The lines of some trees. -/
def outlineAll (ignoreEmpty : Bool) (indent : Nat) : List (Token α) → List String
  | [] => []
  | t :: rest => outlineFrom ignoreEmpty indent t ++ outlineAll ignoreEmpty indent rest

end

/-- The lines of a tree. -/
def outline (t : Token α) (ignoreEmpty : Bool) : List String := t.outlineFrom ignoreEmpty 0

/-- The lines of a tree as one text. -/
def format (t : Token α) (ignoreEmpty : Bool) : String :=
  "\n".intercalate (t.outline ignoreEmpty)

end GrammarEngine.Token
