import GrammarEngine.Proofs.Notation.Gaps
import GrammarEngine.Proofs.Sites
import GrammarEngine.Proofs.Soundness

namespace GrammarEngine.Notation

/-!
# What was skipped is a gap

What the notation skips in front of a token is white space and comments, and nothing else.

* `Placed`, `Placed.isTight`, `Placed.covers` — a symbol of the notation made a tree somewhere;
* `comment_fails` — a comment that does not end is none;
* `isGap_of_skipsFrom`, `isLastGap_of_skipsFrom` — what was skipped in front of a token, and at the
  end of the text.
-/

variable {text : List Char} {skip ref : Ref} {p q r : Nat} {t : Token Value} {index : Nat}

/-- A symbol of the notation made the tree between two places. -/
abbrev Placed (text : List Char) (skip ref : Ref) (p : Nat) (t : Token Value) (q : Nat) : Prop :=
  MadeFrom rank ruleSet.graph text skip ref p t q

theorem Placed.spans (h : Placed text skip (.node index) p t q) (hindex : index < layout.length) :
    t.Spans text p q := by
  obtain ⟨hp, guard, reach, -, hyields⟩ := h
  have hmem : Ref.node index ∈ allSymbols :=
    mem_allSymbols.mpr ⟨index, _, rfl, List.getElem?_eq_getElem hindex⟩
  exact (hyields.roundTrip isSolid hmem hp _ rfl).1

/-- A tree over some text covers it. -/
theorem Placed.covers (h : Placed text skip (.node index) p t q) (hindex : index < layout.length)
    (hlt : p < q) : t.isEmpty = false := by
  cases hempty : t.isEmpty with
  | false => rfl
  | true =>
    have heq := (h.spans hindex).isEmpty_iff.mp hempty
    omega

theorem isTight (text : List Char) (hindex : index < layout.length) :
    IsTight rank ruleSet.graph text Value (.node index) :=
  fun _ _ _ h hempty => ((Placed.spans h hindex).isEmpty_iff.mp hempty).symm

/-- The text begins with some characters, and goes on behind them. -/
theorem lt_of_drop {c : Char} (h : text.drop p = c :: text.drop q) (hq : q ≤ text.length) :
    p < q := by
  have hlength := congrArg List.length h
  rw [List.length_cons, List.length_drop, List.length_drop] at hlength
  omega

/-- The characters of a run. -/
theorem spelled_of_run {inner : Ref} {kind : Char → Prop} {ts : List (Token Value)}
    (hone : ∀ p t q, Placed text .zeroLength inner p t q →
      ∃ c, text.drop p = c :: text.drop q ∧ kind c)
    (h : RunFrom rank ruleSet.graph text inner p ts q) :
    ∃ cs, text.drop p = cs ++ text.drop q ∧ ∀ c ∈ cs, kind c := by
  induction h with
  | nil => exact ⟨[], rfl, by simp⟩
  | cons first _ ih =>
    obtain ⟨c, hdrop, hc⟩ := hone _ _ _ first
    obtain ⟨cs, hdrop', hcs⟩ := ih
    exact ⟨c :: cs, by rw [hdrop, hdrop', List.cons_append], List.forall_mem_cons.mpr ⟨hc, hcs⟩⟩

/-- The parts of a sequence in which nothing is skipped. -/
theorem chain_of_members {indices : List Nat} {ts : List (Token Value)}
    (h : MembersFrom ruleSet.graph text .zeroLength p p (indices.map Ref.node) ts q)
    (hindices : ∀ index ∈ indices, index < layout.length) :
    ChainFrom rank ruleSet.graph text (indices.map Ref.node) p ts q := by
  refine h.chain fun m hm => ?_
  obtain ⟨index, hindex, rfl⟩ := List.mem_map.mp hm
  exact isTight text (hindices index hindex)

theorem exists_answer (hindex : index < layout.length) (hp : p ≤ text.length) (guard : Guard) :
    ∃ (answer : Answer Value) (reach : Nat),
      Yields ruleSet.graph text (.node index) .zeroLength guard p answer reach := by
  have hmem : Ref.node index ∈ allSymbols :=
    mem_allSymbols.mpr ⟨index, _, rfl, List.getElem?_eq_getElem hindex⟩
  refine Yields.exists_answer (Graph.IsClosed.insert_zeroLength isSolid.closed)
    (Graph.IsAcyclic.insert_zeroLength isAcyclic) ?_
    (Finset.mem_insert_of_mem hmem) (Finset.mem_insert_self _ _) hp guard
  intro ref href
  rcases Finset.mem_insert.mp href with rfl | href
  · exact ⟨nofun, nofun⟩
  · exact isDefined ref href

/-! ### Comments -/

/-- Some asterisks, at least one. -/
theorem stars_of_placed (h : Placed text .zeroLength (.node 73) p t q) :
    ∃ cs, text.drop p = (cs ++ ['*']) ++ text.drop q := by
  have hone : ∀ p t q, Placed text .zeroLength (.node 72) p t q →
      ∃ c, text.drop p = c :: text.drop q ∧ c = '*' := fun p t q h =>
    ⟨'*', (h.character isRanked (symbol_node rfl)).1, rfl⟩
  have hcovers : ∀ p t q, Placed text .zeroLength (.node 72) p t q → t.isEmpty = false :=
    fun p t q h => Placed.covers h (by decide)
      (lt_of_drop (h.character isRanked (symbol_node rfl)).1 h.le.2)
  obtain ⟨start, u, us, r, rfl, hfirst, hrest⟩ := h.multiple isRanked (symbol_node rfl) rfl
  obtain ⟨cs, hdrop, hcs⟩ := spelled_of_run hone ((hrest (hcovers _ _ _ hfirst)).run hcovers)
  have hall : '*' :: cs = cs ++ ['*'] := by
    rw [List.eq_replicate_of_mem hcs, ← List.replicate_succ, List.replicate_succ']
  refine ⟨cs, ?_⟩
  rw [(hfirst.character isRanked (symbol_node rfl)).1, hdrop, ← hall, List.cons_append]

theorem drop_suffix_drop (h : p ≤ q) : text.drop q <:+ text.drop p := by
  obtain ⟨n, rfl⟩ := Nat.exists_eq_add_of_le h
  rw [← List.drop_drop]
  exact List.drop_suffix _ _

/-- A comment ends. -/
theorem closed_of_placed (h : Placed text .zeroLength (.node 75) p t q) {s : List Char}
    (hdrop : text.drop p = '/' :: '*' :: s) : ['*', '/'] <:+: s := by
  obtain ⟨start, u, us, r₁, rfl, hopening, hrest⟩ := h.sequence isRanked (symbol_node rfl) rfl
  obtain ⟨hdrop₁, _, rfl⟩ := hopening.literal isRanked (symbol_node rfl)
  have hs : text.drop r₁ = s := by
    rw [hdrop] at hdrop₁
    exact (List.cons_inj_right _).mp ((List.cons_inj_right _).mp hdrop₁.symm)
  have hchain : ChainFrom rank ruleSet.graph text ([71, 73, 74].map Ref.node) r₁ us q :=
    chain_of_members (hrest (by simp [Token.isEmpty, Token.leaf])) (by decide)
  obtain _ | ⟨hbody, _ | ⟨hstars, _ | ⟨hslash, _⟩⟩⟩ := hchain
  obtain ⟨cs, hstars⟩ := stars_of_placed hstars
  rw [(hslash.character isRanked (symbol_node rfl)).1] at hstars
  have hinfix : ∀ rest, ['*', '/'] <:+: cs ++ ['*'] ++ '/' :: rest := fun rest =>
    ⟨cs, rest, by simp⟩
  rw [← hs]
  exact (hstars ▸ hinfix _).trans (drop_suffix_drop hbody.le.1).isInfix

/-- A comment that does not end is none. -/
theorem comment_fails {s : List Char} (hdrop : text.drop p = '/' :: '*' :: s)
    (hopen : ¬ ['*', '/'] <:+: s) : Reads text (.node 75) .zeroLength p none := by
  have hlt : p < text.length := lt_length_of_drop (by rw [hdrop]; simp)
  intro guard hguard
  obtain ⟨answer, reach, hyields⟩ :=
    @exists_answer text p 75 (by decide) (Nat.le_of_lt hlt) guard
  cases answer with
  | none => exact ⟨reach, hyields⟩
  | some found =>
    have hplaced : Placed text .zeroLength (.node 75) p found.1 found.2 :=
      ⟨Nat.le_of_lt hlt, guard, reach, hguard, hyields⟩
    exact absurd (closed_of_placed hplaced hdrop) hopen

/-! ### Gaps -/

/-- Nothing is skipped where a slash does not begin a comment. -/
theorem slash_fails {rest : List Char} (hdrop : text.drop p = '/' :: rest)
    (hstuck : IsStuck ('/' :: rest)) (hline : rest.head? ≠ some '/') :
    Reads text (.node 81) .zeroLength p none := by
  have hwhite : Reads text (.node 62) .zeroLength p none :=
    white_fails (by rw [hdrop]; exact hstuck.notWhite)
  have hcomment : Reads text (.node 75) .zeroLength p none := by
    by_cases hstar : rest.head? = some '*'
    · have hrest := exists_tail hstar
      rw [hrest] at hdrop hstuck
      exact comment_fails hdrop (hstuck.notComment _ rfl)
    · refine .sequence_fails isRanked (symbol_node rfl) rfl (.literal_fails (symbol_node rfl) ?_)
      rw [hdrop]
      rintro ⟨rest', hrest'⟩
      cases hrest'
      exact hstar rfl
  have hlines : Reads text (.node 80) .zeroLength p none := by
    refine .sequence_fails isRanked (symbol_node rfl) rfl (.literal_fails (symbol_node rfl) ?_)
    rw [hdrop]
    rintro ⟨rest', hrest'⟩
    cases hrest'
    exact hline rfl
  exact .junction_fails isRanked (symbol_node rfl) rfl
    (.failed hwhite (.failed hcomment (.failed hlines .nil)))

/-- What is skipped is a gap, or all that is left of the text. -/
theorem gap_of_skipsFrom (h : SkipsFrom ruleSet.graph text Value Sym.skip p q) :
    (∃ gap, IsGap gap ∧ text.drop p = gap ++ text.drop q) ∨
      IsLastGap (text.drop p) ∧ text.drop q = [] := by
  obtain ⟨gap, hgap, heq, hstuck⟩ := behindGap_spec (text.drop p).length (text.drop p)
  have hstuck := hstuck (Nat.le_refl _)
  generalize behindGap (text.drop p).length (text.drop p) = rest at heq hstuck
  -- Either skipping ends behind the gap, or a comment goes on to the end of the text.
  suffices hskips : Skips ruleSet.graph text Value Sym.skip p (p + gap.length) ∨
      IsLastGap (gap ++ rest) by
    rcases hskips with hskips | hlast
    · have hq := h.unique hskips
      rw [← hq, drop_of_drop heq]
      exact .inl ⟨gap, hgap, heq⟩
    · have hq := h.unique (skips_lastGap hlast heq)
      rw [← heq] at hlast
      refine .inr ⟨hlast, ?_⟩
      rw [← hq]
      exact drop_of_drop (by rw [heq, List.append_nil])
  by_cases hhead : rest.head? = some '/'
  · have hrest := exists_tail hhead
    by_cases hline : rest.tail.head? = some '/'
    · have hbody := exists_tail hline
      rw [hbody] at hrest
      exact .inr (hrest ▸ .line hgap (hstuck.notLine _ hrest))
    · rw [hrest] at heq hstuck
      have hfails := slash_fails (drop_of_drop heq) hstuck hline
      obtain ⟨ts, hrun, hempty⟩ := run_gap hgap hstuck.notWhite heq (.stops hfails)
      exact .inl (skips_of_run hrun fun hts => by rw [(hempty hts).1]; rfl)
  · refine .inl (skips_gap hgap (fun c hc => ⟨hstuck.notWhite c hc, ?_⟩) heq)
    rintro rfl
    exact hhead hc

/-- What is skipped in front of something is a gap. -/
theorem isGap_of_skipsFrom (h : SkipsFrom ruleSet.graph text Value Sym.skip p q)
    (hne : text.drop q ≠ []) : ∃ gap, IsGap gap ∧ text.drop p = gap ++ text.drop q :=
  (gap_of_skipsFrom h).resolve_right fun hlast => hne hlast.2

/-- What is skipped at the end of the text is a last gap. -/
theorem isLastGap_of_skipsFrom (h : SkipsFrom ruleSet.graph text Value Sym.skip p q)
    (hend : text.drop q = []) : IsLastGap (text.drop p) := by
  rcases gap_of_skipsFrom h with ⟨gap, hgap, heq⟩ | ⟨hlast, -⟩
  · rw [heq, hend, List.append_nil]
    exact .gap hgap
  · exact hlast

end GrammarEngine.Notation
