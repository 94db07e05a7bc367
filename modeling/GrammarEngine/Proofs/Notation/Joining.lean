import GrammarEngine.Proofs.Notation.Writing

namespace GrammarEngine.Notation

/-!
# Texts of rules, one behind the other

Grammar texts that are joined by line feeds are the text of all their rules. The line feed is needed
where a text ends with a comment.

* `Follows.append` — the tokens of two texts;
* `IsTextOf.append`, `IsTextOf.joined` — the rules of two texts, and of a list of them.
-/

variable {rules rules' : List Rule} {ls ls' : List Lexeme} {gap gap' s s' : List Char} {b : Bool}

/-! ### Gaps -/

theorem IsGap.append (h : IsGap gap) (h' : IsGap gap') : IsGap (gap ++ gap') := by
  induction h with
  | nil => exact h'
  | white blank _ ih => exact .white blank ih
  | comment closed _ ih => simpa using IsGap.comment closed ih
  | line closed _ ih => simpa using IsGap.line closed ih

/-- A line feed ends what a last gap may have left open. -/
theorem IsLastGap.append (h : IsLastGap gap) (h' : IsGap gap') : IsGap (gap ++ '\n' :: gap') := by
  cases h with
  | gap blank => exact blank.append (.white (by decide) h')
  | line blank closed => simpa using blank.append (.line closed h')

/-! ### Tokens -/

/-- Tokens behind a gap. -/
theorem Follows.behind_gap (h : Follows false ls s) (hgap : IsGap gap) (hne : gap ≠ []) :
    Follows b ls (gap ++ s) := by
  cases h with
  | last blank =>
    refine .last ?_
    cases blank with
    | gap blank => exact .gap (hgap.append blank)
    | line blank closed =>
      rw [← List.append_assoc]
      exact .line (hgap.append blank) closed
  | next blank apart later =>
    rw [← List.append_assoc]
    exact .next (hgap.append blank) (fun _ _ h => hne (List.append_eq_nil_iff.mp h).1) later

/-- The tokens of two texts that are joined by a line feed. -/
theorem Follows.append (h : Follows b ls s) (h' : Follows false ls' s') :
    Follows b (ls ++ ls') (s ++ '\n' :: s') := by
  induction h with
  | last blank => simpa using h'.behind_gap (blank.append .nil) (by simp)
  | next blank apart _ ih => simpa using Follows.next blank apart ih

/-! ### Rules -/

theorem WritesRules.append (h : WritesRules rules ls) (h' : WritesRules rules' ls') :
    WritesRules (rules ++ rules') (ls ++ ls') := by
  induction h with
  | nil => exact h'
  | cons valid body _ ih => simpa using WritesRules.cons valid body ih

/-- The rules of two texts. -/
theorem IsTextOf.append (h : IsTextOf s rules) (h' : IsTextOf s' rules') :
    IsTextOf (s ++ '\n' :: s') (rules ++ rules') := by
  obtain ⟨ls, hwrites, hfollows⟩ := h
  obtain ⟨ls', hwrites', hfollows'⟩ := h'
  exact ⟨ls ++ ls', hwrites.append hwrites', hfollows.append hfollows'⟩

theorem isTextOf_nil : IsTextOf [] [] := ⟨[], .nil, .last (.gap .nil)⟩

/-- The rules of some texts, one in each. -/
theorem IsTextOf.joined {texts : List String}
    (h : List.Forall₂ (fun text rule => IsTextOf text.toList [rule]) texts rules) :
    IsTextOf ("\n".intercalate texts).toList rules := by
  rw [String.toList_intercalate]
  induction h with
  | nil => exact isTextOf_nil
  | @cons text rule texts rules first later ih =>
    cases later with
    | nil => simpa using first
    | cons second later => 
      simpa [List.intercalate_cons_cons] using first.append ih

end GrammarEngine.Notation
