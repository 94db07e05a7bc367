import GrammarEngine.Text.Printable

namespace GrammarEngine

/-!
# Quoted text

The written form of a text inside messages, traces and tree dumps.

* `quoteMark` — a text is put between apostrophes, or between double quotes when it holds an
  apostrophe and no double quote;
* `escapeChar` — the backslash, the mark in use, line feed, carriage return and tab are escaped
  by a backslash; any other unprintable character is written by its code point in hexadecimal;
* `quoted` — the whole.
-/

/-- The digit for a value below sixteen, in lower case. -/
def hexDigit (n : Nat) : Char :=
  Char.ofNat (if n < 10 then 0x30 + n else 0x57 + n)

/-- A number in hexadecimal with exactly `width` digits; the highest ones are dropped if it needs
    more. -/
def hexDigits (n : Nat) : (width : Nat) → List Char
  | 0 => []
  | width + 1 => hexDigits (n / 16) width ++ [hexDigit (n % 16)]

@[simp] theorem length_hexDigits (n width : Nat) : (hexDigits n width).length = width := by
  induction width generalizing n with
  | zero => rfl
  | succ width ih => simp [hexDigits, ih]

/-- The mark that a text is quoted with. -/
def quoteMark (cs : List Char) : Char :=
  if '\'' ∈ cs ∧ '"' ∉ cs then '"' else '\''

/-- A code point written out: two, four or eight hexadecimal digits, as it needs. -/
def escapeCode (code : Nat) : List Char :=
  if code < 0x100 then '\\' :: 'x' :: hexDigits code 2
  else if code < 0x10000 then '\\' :: 'u' :: hexDigits code 4
  else '\\' :: 'U' :: hexDigits code 8

/-- One character inside a text quoted with `mark`. -/
def escapeChar (mark c : Char) : List Char :=
  if c = '\\' ∨ c = mark then ['\\', c]
  else if c = '\n' then ['\\', 'n']
  else if c = '\r' then ['\\', 'r']
  else if c = '\t' then ['\\', 't']
  else if isPrintable c then [c]
  else escapeCode c.toNat

/-- A text in quotes, on one line and in printable characters only. -/
def quoted (text : String) : String :=
  let cs := text.toList
  let mark := quoteMark cs
  String.ofList (mark :: cs.flatMap (escapeChar mark) ++ [mark])

example : quoted "it's" = "\"it's\"" := by decide
example : quoted "a\n\x00\\" = "'a\\n\\x00\\\\'" := by decide

end GrammarEngine
