import GrammarEngine.Proofs.Notation.Meaning
import GrammarEngine.Proofs.Notation.Outcome
import GrammarEngine.Proofs.Verdicts

namespace GrammarEngine.Notation

/-!
# Well-formed grammar texts are understood

* `delivers_of_yields` — a symbol of the notation is matched as the rules say, if there is room;
* `decided_of_reads` — what comes of a text that can be read;
* `compile_agrees`, `compile_or_tooDeep` — compiling under another nesting limit;
* `compile_of_isTextOf` — a text of a well-formed grammar comes to its rules, if there is room;
* `compile_understands` — every well-formed grammar, in any rendering, comes to its rules.
-/

open MatchM

variable {limit limit' : Nat} {text : String}

/-- A symbol of the notation is matched as the rules say, if there is room enough. -/
theorem delivers_of_yields {text : List Char} {index p reach : Nat} {skip : Ref}
    {answer : Answer Value} (hindex : index < layout.length)
    (hskip : skip = Sym.skip ∨ skip = .zeroLength)
    (hroom : Answers (α := Value) ruleSet.graph text [] (matchWithin ruleSet.graph limit)
      (.node index) skip p)
    (hp : p ≤ text.length)
    (h : Yields ruleSet.graph text (.node index) skip [] p answer reach) :
    Delivers text [] p answer reach (matchWithin ruleSet.graph limit (.node index) skip) := by
  intro s hs
  have hmem : ∀ index < layout.length, Ref.node index ∈ allSymbols := fun index hindex =>
    mem_allSymbols.mpr ⟨index, _, rfl, List.getElem?_eq_getElem hindex⟩
  have hskip : skip ∈ allSymbols ∨ skip = .zeroLength := by
    refine hskip.imp_left ?_
    rintro rfl
    exact hmem 82 (by decide)
  have hends := matchWithin_defined (α := Value) isSolid.closed isAcyclic isDefined
    (hmem index hindex) hskip hs limit
  rcases (hends.and (hroom s hs)).elim with
    ⟨token?, s', hrun, ⟨answer', reach', hyields, rfl, hlands⟩, -⟩ | ⟨e, s', -, ⟨rfl, -⟩, hne⟩
  · obtain ⟨rfl, rfl⟩ := h.unique hp hyields
    exact ⟨s', hrun, hlands⟩
  · exact absurd rfl hne

/-- A grammar text that can be read is accepted, if there is room enough. -/
theorem accepted_of_reads {p q r : Nat} {t : Token Value} (hlimit : 9 ≤ limit)
    (hroom : Answers (α := Value) ruleSet.graph text.toList [] (matchWithin ruleSet.graph limit)
      Sym.start Sym.skip p)
    (hskip : Skips ruleSet.graph text.toList Value Sym.skip 0 p)
    (hreads : Reads text.toList Sym.start Sym.skip p (some (t, q)))
    (hskip' : Skips ruleSet.graph text.toList Value Sym.skip q r)
    (hend : text.toList.drop r = []) :
    (Verdict.accepted t).IsOf text (grammar.matchInput limit (.beginning text)) := by
  obtain ⟨answer, reach, hyields, rfl⟩ := hskip [] past_nil
  have hp := hyields.advances.landing_between.2 (Nat.zero_le _)
  obtain ⟨reach', hyields'⟩ := hreads [] clear_nil
  have hq := hyields'.advances.2.1 hp
  obtain ⟨answer', reach'', hyields'', rfl⟩ := hskip' [] past_nil
  have hall : ¬ landing q answer' < text.toList.length :=
    Nat.not_lt.mpr (List.drop_eq_nil_iff.mp hend)
  have hfirst : Delivers text.toList [] 0 answer reach
      (matchWithin ruleSet.graph limit Sym.skip .zeroLength) :=
    delivers_of_yields (by decide) (.inr rfl) (skip_answers hlimit) (Nat.zero_le _) hyields
  have hstart : Delivers text.toList [] (landing 0 answer) (some (t, q)) reach'
      (matchWithin ruleSet.graph limit Sym.start Sym.skip) :=
    delivers_of_yields (by decide) (.inl rfl) hroom hp hyields'
  have hlast : Delivers text.toList [] q answer' reach''
      (matchWithin ruleSet.graph limit Sym.skip .zeroLength) :=
    delivers_of_yields (by decide) (.inr rfl) (skip_answers hlimit) hq hyields''
  rw [← skipRule_eq] at hfirst hlast
  rw [← startRule_eq, ← skipRule_eq] at hstart
  have hcomes : grammar.Comes text (fun ref skip p answer reach =>
      Delivers text.toList [] p answer reach (matchWithin ruleSet.graph limit ref skip)) _ :=
    .matches hfirst hstart hlast
  rw [Verdict.atEnd, if_neg hall] at hcomes
  exact hcomes.isOf

/-- With a higher nesting limit a grammar text comes to the same, unless it is nested too deeply. -/
theorem compile_agrees (hlimit : limit ≤ limit') (text : String) :
    (compile limit text).result = (compile limit' text).result ∨
      ∃ e, (compile limit text).result = .error e ∧ e.IsTooDeep := by
  unfold compile compileWith Grammar.parse Grammar.parseTree Grammar.run
  rcases Grammar.matchInput_agrees grammar hlimit (s := .beginning text) rfl with
    heq | ⟨e, s', herror, he⟩
  · rw [heq]
    exact .inl rfl
  · rw [herror]
    exact .inr ⟨e, rfl, he⟩

theorem WritesRules.valid {rules : List Rule} {ls : List Lexeme} (h : WritesRules rules ls) :
    ∀ rule ∈ rules, isID rule.name = true := by
  induction h with
  | nil => simp
  | cons valid body later ih => exact List.forall_mem_cons.mpr ⟨valid, ih⟩

/-- A text of a well-formed grammar comes to its rules, if there is room for its parentheses. -/
theorem compile_of_isTextOf {rules : List Rule} (hrules : IsWellFormed rules)
    (htext : IsTextOf text.toList rules) :
    ∃ rs : RuleSet, rs.IsComplete ∧ rs.Means rules ∧
      ∀ limit, 30 + 20 * text.toList.count '(' ≤ limit → (compile limit text).result = .ok rs := by
  obtain ⟨p, q, r, t, rts, hskip, hreads, -, hskip', hend, hroot, hsaid⟩ :=
    reads_start hrules.nonempty htext
  obtain ⟨ls, hwrites, -⟩ := htext
  obtain ⟨rs, hbuild, hcomplete, hmeans⟩ := buildGrammar_rules hsaid hrules hwrites.valid
  refine ⟨rs, hcomplete, hmeans, fun limit hlimit => ?_⟩
  obtain ⟨s, hmatch, -⟩ := accepted_of_reads (Nat.le_trans (by omega) hlimit)
    (start_answers hlimit) hskip hreads hskip' hend
  rw [compile, compileWith_eq rfl hmatch hroot, hbuild]
  rfl

/-- What a text comes to with room enough it comes to, or it is nested too deeply. -/
theorem compile_or_tooDeep {rs : RuleSet} {bound : Nat}
    (h : ∀ limit, bound ≤ limit → (compile limit text).result = .ok rs) (limit : Nat) :
    (compile limit text).result = .ok rs ∨
      ∃ e, (compile limit text).result = .error e ∧ e.IsTooDeep := by
  refine (compile_agrees (Nat.le_max_left limit bound) text).imp_left fun heq => ?_
  rw [heq]
  exact h _ (Nat.le_max_right _ _)

/-- Every well-formed grammar is understood, however it is written: the text comes to the rules of
    the grammar in their order, each with the shape of its body, and to nothing else. Nesting
    apart: the deepest that can be needed grows with the parentheses of the text. -/
theorem compile_understands {rules : List Rule} (hrules : IsWellFormed rules)
    (htext : IsTextOf text.toList rules) :
    ∃ rs : RuleSet, rs.IsComplete ∧ rs.Means rules ∧
      (∀ limit, 30 + 20 * text.toList.count '(' ≤ limit →
        (compile limit text).result = .ok rs) ∧
      ∀ limit, (compile limit text).result = .ok rs ∨
        ∃ e, (compile limit text).result = .error e ∧ e.IsTooDeep := by
  obtain ⟨rs, hcomplete, hmeans, hroom⟩ := compile_of_isTextOf hrules htext
  exact ⟨rs, hcomplete, hmeans, hroom, compile_or_tooDeep hroom⟩

/-! ### An example -/

/-- Two rules, the first of which uses the second before it is there. -/
def pair : List Rule :=
  [⟨"a", .sequence [.repeated .optional (.reference "b"), .literal (.single 'x')]⟩,
    ⟨"b", .literal .any⟩]

/-- The two rules, with a comment between them. -/
def pairText : String := "a: b?\"x\"; /* then */ b:[-];"

theorem isWellFormed_pair : IsWellFormed pair where
  nonempty := by decide
  distinct := by decide
  closed := by decide
  proper := by decide

theorem isTextOf_pair : IsTextOf pairText.toList pair := by
  have hx : Spells (.single 'x') ['"', 'x', '"'] := .single (.raw (by decide))
  have ha : isID "a" = true := by decide
  have hb : isID "b" = true := by decide
  have hfirst : WritesSymbol
      (.sequence [.repeated .optional (.reference "b"), .literal (.single 'x')]) _ :=
    .only (.intro (.repeated (.reference hb)) (.cons (.once (.literal hx)) .nil))
  have hsecond : WritesSymbol (.literal .any) _ := .only (.intro (.once (.literal .any)) .nil)
  refine ⟨_, .cons ha hfirst (.cons hb hsecond .nil), ?_⟩
  have hspace : ∀ {gap : List Char}, IsGap gap → IsGap (' ' :: gap) := .white (by decide)
  have hthen : ¬ ['*', '/'] <:+: " then ".toList ++ ['*'] := by decide
  have hcomment : IsGap " /* then */ ".toList :=
    hspace (.comment hthen (hspace .nil))
  exact .next .nil nofun (.next .nil nofun (.next (hspace .nil) nofun (.next .nil nofun
    (.next .nil nofun (.next .nil nofun (.next hcomment nofun (.next .nil nofun (.next .nil nofun
      (.next .nil nofun (.last (.gap .nil)))))))))))

theorem compile_understands_pair :
    ∃ rs : RuleSet, (compile nestingLimit pairText).result = .ok rs ∧ rs.Means pair := by
  obtain ⟨rs, -, hmeans, hroom, -⟩ := compile_understands isWellFormed_pair isTextOf_pair
  exact ⟨rs, hroom nestingLimit (by decide), hmeans⟩

end GrammarEngine.Notation
