import GrammarEngine.Proofs.Notation.Description
import GrammarEngine.Proofs.Notation.Understanding

namespace GrammarEngine.Notation

/-!
# No grammar text does any harm

Whatever a grammar text is, its rules can be relied on, or there is a reason to refuse it.

* `mixedText` — an example, with references of all sorts, escapes and a class of all its parts;
* `compile_complete` — what is accepted is complete;
* `compile_safe` — what is not accepted is refused.
-/

open MatchM

variable {limit : Nat} {text : String}

/-! ### An example -/

/-- Two rules, the first of which uses the second before it is there, and itself. -/
def mixed : List Rule :=
  [⟨"a", .sequence [.reference "b", .literal (.single '\n'), .repeated .optional (.reference "a")]⟩,
    ⟨"b", .literal (.oneOf [⟨0, 'c'.toNat⟩, lone '-', span 'x' 'z', ⟨'A'.toNat, maxCodePoint⟩])⟩]

/-- The two rules in writing. -/
def mixedText : String := "a: b \"\\n\" a?; b: [-c\\-x-z\\u0101-];"

theorem isWellFormed_mixed : IsWellFormed mixed where
  nonempty := by decide
  distinct := by decide
  closed := by decide
  proper := by decide

theorem isTextOf_mixed : IsTextOf mixedText.toList mixed :=
  ⟨_, .cons (by decide)
    (.only (.several (.name (by decide)) (.quoted (.slash 'n' (by decide)))
      (.cons (.repeated (.reference (by decide))) .nil))) <|
    .cons (by decide)
    -- The class: up to a character, one that is escaped, a span, and from a character on.
    (.only (.one (.once (.class (.upTo (.plain 'c' (by decide))
      (.cons (.single (.slash '-' (by decide))) (.cons (.plain 'x' 'z' (by decide))
        (.onward (.number [0, 1, 0, 1] (by decide)))))))))) .nil,
    follows_sound (by decide +kernel)⟩

/-- The text comes to rules, both of which it names. -/
theorem mixed_compiles : ∃ rs a b, (compile nestingLimit mixedText).result = .ok rs ∧
    rs.get? "a" = some a ∧ rs.get? "b" = some b := by
  obtain ⟨rs, -, ⟨-, placed, hrules, -⟩, hroom⟩ :=
    compile_of_isTextOf isWellFormed_mixed isTextOf_mixed
  -- There is a symbol for each of the two rules.
  obtain _ | ⟨⟨a, -, ha, -⟩, _ | ⟨⟨b, -, hb, -⟩, -⟩⟩ := hrules
  exact ⟨rs, a, b, hroom nestingLimit (by decide), ha, hb⟩

/-! ### What is accepted -/

/-- Whatever grammar is accepted is complete: its rules are those of the text in their order, under
    their own names, all that is reached from them belongs, and every circle goes through a
    stand-in. So matching a rule, with a rule or nothing skipped, never comes to anything
    undefined, and never goes round in circles: an error is only that it is nested too deeply, and
    from some limit on it is not. -/
theorem compile_complete {α : Type} {rs : RuleSet} (h : (compile limit text).result = .ok rs) :
    rs.IsComplete ∧
    (∃ root s', grammar.matchInput limit (.ofStream (.ofString text)) = .ok root s' ∧
      rs.rules.keys = root.children.map ruleName) ∧
    ∀ name ref skip, rs.get? name = some ref →
      (skip = .zeroLength ∨ ∃ name', rs.get? name' = some skip) →
      ∀ (chars : List Char) (p : Nat) (s : MatchState), s.stream.Reads chars p →
        (∀ limit' e s', matchWithin (α := α) rs.graph limit' ref skip s = .error e s' →
          e = .nestedTooDeeply) ∧
        ∃ bound, ∀ limit', bound ≤ limit' → ∀ s',
          matchWithin (α := α) rs.graph limit' ref skip s ≠ .error .nestedTooDeeply s' := by
  obtain ⟨root, s', hmatch, hcomplete, hkeys⟩ := of_compile_ok h
  refine ⟨hcomplete, ⟨root, s', hmatch, hkeys⟩, ?_⟩
  intro name ref skip hrule hskip chars p s hs
  have hs : Stands chars s.guard p s := ⟨hs, rfl⟩
  refine ⟨fun limit' e s' herror => ?_, hcomplete.matchWithin_bounded hrule hskip hs⟩
  have hends := hcomplete.matchWithin_ends (α := α) hrule hskip hs limit'
  rw [Ends, herror] at hends
  exact hends.1

theorem compile_complete_mixed :
    ∃ rs a b, (compile nestingLimit mixedText).result = .ok rs ∧
      rs.get? "a" = some a ∧ rs.get? "b" = some b ∧ rs.IsComplete ∧
      (∀ limit e s', matchWithin (α := Unit) rs.graph limit a b
        (.ofStream (.ofString "-z\n-")) = .error e s' → e = .nestedTooDeeply) ∧
      ∃ bound, ∀ limit, bound ≤ limit → ∀ s', matchWithin (α := Unit) rs.graph limit a b
        (.ofStream (.ofString "-z\n-")) ≠ .error .nestedTooDeeply s' := by
  obtain ⟨rs, a, b, hresult, ha, hb⟩ := mixed_compiles
  obtain ⟨hcomplete, -, hmatches⟩ := compile_complete (α := Unit) hresult
  obtain ⟨herrors, hbounded⟩ :=
    hmatches "a" a b ha (.inr ⟨"b", hb⟩) _ 0 (.ofStream (.ofString "-z\n-"))
      (Stream.reads_ofString _)
  exact ⟨rs, a, b, hresult, ha, hb, hcomplete, herrors, hbounded⟩

/-! ### What is refused -/

/-- Whatever a grammar text is, it is accepted, or refused with an error in the input, or some names
    in it are not defined. The listeners of the notation find what they look for in every tree that
    the notation makes of any part of any text: walking it comes to rules, or it is refused, or some
    names are not defined. -/
theorem compile_safe (hlimit : 9 ≤ limit) (text : String) :
    ((∃ found, (compile limit text).result = .ok found) ∨
      (∃ cause, (compile limit text).result = .error (.parse cause)) ∨
      ∃ names, (compile limit text).result = .error (.configuration (.undefinedRules names))) ∧
    ∀ (chars : List Char) skip root, Parsed chars skip Sym.start root →
      (∃ value visit found, root.walk grammar.listenerFor .empty = .ok value visit ∧
        visit.token.payload = .ok (.rules found)) ∨
      (∃ cause visit, root.walk grammar.listenerFor .empty = .error (.parse cause) visit) ∨
      ∃ names visit, root.walk grammar.listenerFor .empty =
        .error (.configuration (.undefinedRules names)) visit :=
  ⟨compile_ends hlimit text, fun _ _ _ => walk_of_parsed⟩

theorem compile_safe_mixed :
    9 ≤ nestingLimit ∧
    ((∃ found, (compile nestingLimit mixedText).result = .ok found) ∨
      (∃ cause, (compile nestingLimit mixedText).result = .error (.parse cause)) ∨
      ∃ names, (compile nestingLimit mixedText).result =
        .error (.configuration (.undefinedRules names))) ∧
    ∃ root, Parsed mixedText.toList Sym.skip Sym.start root ∧
      ((∃ value visit found, root.walk grammar.listenerFor .empty = .ok value visit ∧
        visit.token.payload = .ok (.rules found)) ∨
      (∃ cause visit, root.walk grammar.listenerFor .empty = .error (.parse cause) visit) ∨
      ∃ names visit, root.walk grammar.listenerFor .empty =
        .error (.configuration (.undefinedRules names)) visit) := by
  have hlimit : 9 ≤ nestingLimit := by decide
  obtain ⟨rs, -, -, hresult, -⟩ := mixed_compiles
  obtain ⟨root, s', hmatch, -⟩ := of_compile_ok hresult
  have hroot := parsed_of_matchInput hmatch
  obtain ⟨hends, hwalks⟩ := compile_safe hlimit mixedText
  exact ⟨hlimit, hends, root, hroot, hwalks _ _ root hroot⟩

end GrammarEngine.Notation
