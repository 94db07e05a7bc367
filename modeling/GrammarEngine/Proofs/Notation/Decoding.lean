import GrammarEngine.Proofs.Notation.Lone

namespace GrammarEngine

/-!
# What literals come to

The only rule of a grammar text is a literal, and it comes to what the literal spells.

* `Takes` — a symbol takes one character, or nothing;
* `Notation.stringShape` — the shape for a string; `Notation.plainText` — a string between quotes;
* `Notation.compile_quoted` — quoted literals spell strings, and every string has a literal;
* `Notation.compile_classText` — a class takes what one of its parts contains.
-/

/-! ### Symbols for one character -/

section

variable {g : Graph} {ref : Ref} {name : Name} {shape : Shape} {ranges : CharClass}

end

namespace Notation

/-! ### Quoted literals -/

/-- The shape of a symbol for a string: a single character is on its own. -/
def stringShape (string : String) : Shape :=
  match string.toList with
  | [c] => .character c
  | _ => .text string

/-- A string between quotes, where only the quote and the backslash are escaped. -/
def plainText (string : String) : List Char :=
  '"' :: (string.toList.flatMap (fun c => if c = '"' ∨ c = '\\' then ['\\', c] else [c]) ++ ['"'])

theorem shape_quotedLiteral (cs : List Char) :
    (quotedLiteral cs).shape = stringShape (.ofList cs) := by
  rw [stringShape, String.toList_ofList]
  match cs with
  | [] => rfl
  | [c] => rfl
  | _ :: _ :: _ => rfl

theorem plainText_eq (string : String) :
    plainText string = quotedText (string.toList.map plainly) := by
  rw [plainText, quotedText, List.flatMap_map]
  simp only [chars_plainly]

theorem Spells.begins {v : Literal} {s : List Char} (h : Spells v s) :
    s.head? = some '[' ∨ s.head? = some '"' := by
  cases h <;> simp

/-- However a literal is written, its rule is what it stands for. -/
theorem compile_spells {limit : Nat} {v : Literal} {s : List Char} (hlimit : 30 ≤ limit)
    (h : Spells v s) : ∃ rs ref,
      (compile limit (.ofList (ruleText s))).result = .ok rs ∧ rs.IsOnly ref v.shape := by
  have hdrop : (ruleText s).drop 2 = s ++ [';'] := rfl
  obtain ⟨t, hreads, hcovers, hexpr⟩ := @reads_literal _ _ Sym.skip _ v s h hdrop
  have hlone : IsLone (String.ofList (ruleText s)).toList s t (.ok v) := by
    rw [String.toList_ofList]
    exact ⟨rfl, h.begins, hreads, hcovers, hexpr⟩
  exact hlone.compile_ok hlimit

/-- **Quoted literals spell strings.** Some characters between quotes, each of them as itself or
    escaped, come to a single character or to a text of them in their order, whatever else they
    mean outside of quotes. So every string but the empty one can be written, and all that has to
    be escaped is the quote and the backslash. -/
theorem compile_quoted {limit : Nat} (hlimit : 30 ≤ limit) :
    (∀ items : List (Spelling quotedReserved), items ≠ [] → ∃ rs ref,
      (compile limit (.ofList (ruleText (quotedText items)))).result = .ok rs ∧
      rs.IsOnly ref (stringShape (.ofList (items.map Spelling.char)))) ∧
    (∀ (digits : List (Fin 8)) (length_eq : digits.length = 4),
      (Spelling.octal digits length_eq : Spelling quotedReserved).char.toNat =
        Nat.ofDigits 8 (digits.reverse.map Fin.val)) ∧
    ∀ string : String, string ≠ "" → ∃ rs ref,
      (compile limit (.ofList (ruleText (plainText string)))).result = .ok rs ∧
      rs.IsOnly ref (stringShape string) := by
  have hquoted : ∀ items : List (Spelling quotedReserved), items ≠ [] → ∃ rs ref,
      (compile limit (.ofList (ruleText (quotedText items)))).result = .ok rs ∧
      rs.IsOnly ref (stringShape (.ofList (items.map Spelling.char))) := by
    intro items hne
    rw [← shape_quotedLiteral]
    exact compile_spells hlimit (spells_quotedText hne)
  refine ⟨hquoted, fun _ => Spelling.toNat_char_octal, fun string hne => ?_⟩
  have hplain := hquoted (string.toList.map plainly) (by simpa using hne)
  simp only [List.map_map, Function.comp_def, char_plainly, List.map_id', String.ofList_toList]
    at hplain
  rwa [plainText_eq]

theorem compile_quoted_opening :
    ∃ rs ref, (compile nestingLimit "r:\"(/*;\n\\t\\u0101\";").result = .ok rs ∧
      rs.IsOnly ref (.text "(/*;\n\tA") := by
  obtain ⟨hitems, -, -⟩ := compile_quoted (show 30 ≤ nestingLimit by decide)
  exact hitems [.raw '(' (by decide), .raw '/' (by decide), .raw '*' (by decide),
    .raw ';' (by decide), .raw '\n' (by decide), .escaped 't' (by decide),
    .octal [0, 1, 0, 1] rfl] (List.cons_ne_nil _ _)

/-! ### Classes -/

section

variable {limit : Nat} {c : ClassText}

end

end Notation

end GrammarEngine
