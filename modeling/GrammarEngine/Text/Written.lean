import GrammarEngine.Text.Quoted

namespace GrammarEngine

/-!
# Written values

How values are written inside messages: words as they are, texts in quotes, and rows of values
between brackets.

* `Written` — a value, as far as its writing goes;
* `Written.render` — the text.
-/

/-- What a row of values stands between. -/
inductive Brackets
  | square
  | round
  | curly
  deriving DecidableEq, Repr

/-- A value, as far as its writing goes. -/
inductive Written
  /-- Something that is written as it is. -/
  | word (text : String)
  /-- A text, which is quoted. -/
  | text (text : String)
  /-- Several values between brackets. -/
  | row (brackets : Brackets) (items : List Written)
  deriving Repr, Inhabited

namespace Written

/-- The value that stands for nothing. -/
def nothing : Written := .word "None"

mutual

/-- Are two written values the same? -/
def decEq : (a b : Written) → Decidable (a = b)
  | .word s, .word t => decidable_of_iff (s = t) (by simp)
  | .text s, .text t => decidable_of_iff (s = t) (by simp)
  | .row s as, .row t bs =>
    have := decEqAll as bs
    decidable_of_iff (s = t ∧ as = bs) (by simp)
  | .word _, .text _ | .word _, .row .. | .text _, .word _ | .text _, .row ..
  | .row .., .word _ | .row .., .text _ => .isFalse (by simp)

/-- Are two rows of values the same? -/
def decEqAll : (as bs : List Written) → Decidable (as = bs)
  | [], [] => .isTrue rfl
  | a :: as, b :: bs =>
    have := decEq a b
    have := decEqAll as bs
    decidable_of_iff (a = b ∧ as = bs) (by simp)
  | [], _ :: _ | _ :: _, [] => .isFalse (by simp)

end

instance : DecidableEq Written := decEq

/-- Put a text between brackets. A comma marks a round row of one value. -/
def enclose (brackets : Brackets) (items : List String) : String :=
  let inside := ", ".intercalate items
  match brackets with
  | .square => "[" ++ inside ++ "]"
  | .round => "(" ++ inside ++ (if items.length = 1 then ",)" else ")")
  | .curly => "\x7b" ++ inside ++ "\x7d"

mutual

/-- The text of a value. -/
def render : Written → String
  | .word s => s
  | .text s => quoted s
  | .row brackets items => enclose brackets (renderAll items)

/-- The texts of some values. -/
def renderAll : List Written → List String
  | [] => []
  | item :: rest => render item :: renderAll rest

end

example : render (.row .square [.text "it's", .row .round [nothing]]) = "[\"it's\", (None,)]" := by
  decide

end Written

end GrammarEngine
