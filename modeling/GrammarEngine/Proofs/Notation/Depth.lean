import GrammarEngine.Proofs.Nesting
import GrammarEngine.Proofs.Notation.Layout

namespace GrammarEngine.Notation

/-!
# How deeply grammar texts are nested

Parentheses are the only way in which expressions get inside expressions, so a grammar text is
nested as deeply as its parentheses allow for, and what is skipped is never nested deeply.

* `height` — how deeply a symbol is nested without parentheses;
* `need` — with them: so much more for each one that is still to come;
* `fitsWithin_need` — that is enough;
* `skip_answers` — nine levels are enough for white space and comments.
-/

/-- How deeply each symbol of the notation is nested without parentheses. -/
def heights : List Nat := [
  -- Names and digits, and characters inside literals.
  1, 1, 10, 11, 12, 1, 1, 1, 1, 10, 11, 12, 1, 13, 1, 13,
  -- Literals.
  1, 1, 1, 14, 15, 1, 14, 1, 14, 15, 16, 17, 1, 18, 19, 1, 1, 14, 1, 14, 1, 15, 20,
  -- Expressions.
  29, 1, 1, 10, 21, 1, 22, 1, 22, 1, 22, 23, 24, 1, 25, 26, 27, 28,
  -- Rules.
  1, 1, 29, 30,
  -- White space and comments.
  1, 2, 1, 1, 1, 2, 1, 3, 4, 5, 6, 1, 2, 1, 7, 1, 1, 2, 3, 4, 8, 9]

/-- How deeply a symbol is nested without parentheses. -/
def height : Ref → Nat
  | .node index => heights.getD index 1
  | .zeroLength | .foreign => 1

/-- Is the symbol for white space or comments? -/
def isBlank : Ref → Bool
  | .node index => 61 ≤ index
  | .zeroLength | .foreign => true

/-- How deeply a symbol is nested at most: each opening parenthesis may bring it so much further
    down. -/
def need (text : List Char) (ref : Ref) (p : Nat) : Nat :=
  height ref + if isBlank ref then 0 else 20 * (text.drop p).count '('

theorem layout_height : ∀ entry ∈ layout.zipIdx, ∀ r ∈ entry.1.shape.refs,
    (entry.2 = 42 ∧ r = .node 39 ∨ height r < height (.node entry.2)) ∧
      isBlank r = isBlank (.node entry.2) := by
  decide +kernel

/-- The symbols that a symbol is made of are not as high. The symbol in parentheses is the
    exception. -/
theorem height_of_mem_refs {index : Nat} {symbol : Symbol} {r : Ref}
    (h : layout[index]? = some symbol) (hr : r ∈ symbol.shape.refs) :
    (index = 42 ∧ r = .node 39 ∨ height r < height (.node index)) ∧
      isBlank r = isBlank (.node index) :=
  layout_height (symbol, index) (List.mk_mem_zipIdx_iff_getElem?.mpr h) r hr

theorem layout_room : ∀ entry ∈ layout.zipIdx,
    entry.1.shape.kind = .plain .sequence ∨ entry.1.shape.kind = .plain .multiple →
      (if isBlank (.node entry.2) then 1 else height Sym.skip) < height (.node entry.2) := by
  decide +kernel

/-- What has something skipped inside is higher than what is skipped. -/
theorem room_of_kind {index : Nat} {symbol : Symbol} (h : layout[index]? = some symbol)
    (hkind : symbol.shape.kind = .plain .sequence ∨ symbol.shape.kind = .plain .multiple) :
    (if isBlank (.node index) then 1 else height Sym.skip) < height (.node index) :=
  layout_room (symbol, index) (List.mk_mem_zipIdx_iff_getElem?.mpr h) hkind

variable {α : Type} {text : List Char} {guard : Guard} {ref skip : Ref} {p q limit : Nat}

theorem need_mono (h : p ≤ q) : need text ref q ≤ need text ref p := by
  have hcount : (text.drop q).count '(' ≤ (text.drop p).count '(' := by
    obtain ⟨n, rfl⟩ := Nat.exists_eq_add_of_le h
    rw [← List.drop_drop]
    exact (List.drop_sublist _ _).count_le _
  unfold need
  split <;> omega

theorem need_blank (h : isBlank ref = true) : need text ref p = height ref := by
  rw [need, if_pos h, Nat.add_zero]

/-- An opening parenthesis that is left behind is one less that is still to come. -/
theorem count_of_yields {token : Token α} {r reach : Nat}
    (h : Yields ruleSet.graph text (.node 40) skip guard p (some (token, r)) reach) :
    (text.drop r).count '(' + 1 = (text.drop p).count '(' := by
  have hsymbol : ruleSet.graph.symbol (.node 40) = ⟨.generated 40, .character '('⟩ :=
    symbol_node rfl
  cases h with
  | zeroLength shape => simp [hsymbol] at shape
  | implicit shape rule => simp [hsymbol] at shape
  | enter guarded fresh body =>
    rw [hsymbol] at body
    cases body with
    | leaf read =>
      simp only [readLeaf, Option.some.injEq, Prod.mk.injEq] at read
      have hread := read.1
      unfold readCharacter at hread
      split at hread
      · rename_i hchar
        cases hread
        obtain ⟨hlt, hget⟩ := List.getElem?_eq_some_iff.mp hchar
        rw [List.drop_eq_getElem_cons hlt, hget, List.count_cons_self]
      · cases hread

/-- What is asked for within the notation: a symbol of it, with white space and comments skipped
    or with nothing skipped, and with nothing skipped inside white space and comments. -/
structure Asked (ref skip : Ref) : Prop where
  symbol : ref ∈ allSymbols ∨ ref = .zeroLength
  skipped : skip = .zeroLength ∨ skip = Sym.skip ∧ isBlank ref = false

/-- Inside a symbol the same is skipped or nothing. -/
theorem Asked.inside {r : Ref} (h : Asked ref skip) (name : Name) (hr : r ∈ allSymbols)
    (hblank : isBlank r = isBlank ref) : Asked r (skipInside name skip) := by
  refine ⟨.inl hr, ?_⟩
  unfold skipInside
  split
  · exact .inl rfl
  · rw [hblank]
    exact h.skipped

/-- Skipping takes no more room than there is in what has something skipped inside. -/
theorem Asked.skips {symbol : Symbol} {index : Nat} (h : Asked (.node index) skip)
    (hindex : layout[index]? = some symbol)
    (hkind : symbol.shape.kind = .plain .sequence ∨ symbol.shape.kind = .plain .multiple)
    (hneed : need text (.node index) p ≤ limit + 1) (q : Nat) :
    Asked (skipInside symbol.name skip) .zeroLength ∧
      need text (skipInside symbol.name skip) q ≤ limit := by
  have hroom := room_of_kind hindex hkind
  have hheight : height (.node index) ≤ need text (.node index) p := Nat.le_add_right _ _
  have hzero : Asked .zeroLength .zeroLength ∧ need text .zeroLength q ≤ limit := by
    refine ⟨⟨.inr rfl, .inl rfl⟩, ?_⟩
    have hone : 1 ≤ if isBlank (.node index) then 1 else height Sym.skip := by split <;> decide
    rw [need_blank rfl]
    show 1 ≤ limit
    omega
  unfold skipInside
  split
  · exact hzero
  · rcases h.skipped with rfl | ⟨rfl, hblank⟩
    · exact hzero
    · rw [if_neg (by rw [hblank]; decide)] at hroom
      refine ⟨⟨.inl (mem_allSymbols.mpr ⟨82, _, rfl, rfl⟩), .inl rfl⟩, ?_⟩
      rw [need_blank rfl]
      omega

/-- What a symbol of the notation is made of is asked for inside it. -/
theorem Asked.part {symbol : Symbol} {index : Nat} {r : Ref} (h : Asked (.node index) skip)
    (hindex : layout[index]? = some symbol) (hr : r ∈ symbol.shape.refs) :
    Asked r (skipInside symbol.name skip) :=
  h.inside symbol.name
    ((layout_regular (symbol, index) (List.mk_mem_zipIdx_iff_getElem?.mpr hindex)).closed r hr)
    (height_of_mem_refs hindex hr).2

/-- What a symbol is made of needs less than the symbol. The symbol in parentheses is the
    exception. -/
theorem need_part {symbol : Symbol} {index : Nat} {r : Ref}
    (hindex : layout[index]? = some symbol) (hr : r ∈ symbol.shape.refs)
    (hneed : need text (.node index) p ≤ limit + 1) (hq : p ≤ q) :
    index = 42 ∧ r = .node 39 ∨ need text r q ≤ limit := by
  obtain ⟨hheight, hblank⟩ := height_of_mem_refs hindex hr
  refine hheight.imp id fun hheight => Nat.le_trans (need_mono hq) ?_
  unfold need at hneed ⊢
  rw [hblank]
  omega

theorem need_pos (h : Asked ref skip) : 0 < need text ref p := by
  have hpos : 0 < height ref := by
    rcases h.symbol with href | rfl
    · obtain ⟨index, symbol, rfl, -, hpos⟩ := forall_allSymbols
        (P := fun entry => 0 < height (.node entry.2)) (by decide +kernel) href
      exact hpos
    · decide
  exact Nat.lt_of_lt_of_le hpos (Nat.le_add_right _ _)

/-- That what is asked for fits into a limit if the limit is what it needs. -/
def NeedSuffices (α : Type) (text : List Char) (limit : Nat) : Prop :=
  ∀ {ref skip : Ref} {p : Nat}, Asked ref skip → need text ref p ≤ limit →
    FitsWithin α ruleSet.graph text limit ref skip p

/-- The parenthesis that is open makes room for the symbol inside. -/
theorem NeedSuffices.group (ih : NeedSuffices α text limit) (hgroup : ref = .node 42)
    (hasked : Asked ref skip) (hneed : need text ref p ≤ limit + 1) :
    FitsWithin α ruleSet.graph text (limit + 1) ref skip p := by
  subst hgroup
  have hindex : layout[42]? = some ⟨.generated 42, .sequence [.node 40, .node 39, .node 41]⟩ := rfl
  rw [FitsWithin, symbol_node hindex]
  have hopening : .node 40 ∈ [Ref.node 40, .node 39, .node 41] := by simp
  have hsymbol : .node 39 ∈ [Ref.node 40, .node 39, .node 41] := by simp
  have hclosing : .node 41 ∈ [Ref.node 40, .node 39, .node 41] := by simp
  rintro first rest ⟨⟩
  refine ⟨ih (hasked.part hindex hopening)
    ((need_part hindex hopening hneed (Nat.le_refl p)).resolve_left (by simp)), ?_⟩
  intro guard token r reach hyields q hq
  obtain ⟨hskipped, hroom⟩ := hasked.skips hindex (.inl rfl) hneed q
  refine ⟨ih hskipped hroom, ?_⟩
  rw [List.forall_mem_cons, List.forall_mem_singleton]
  have hpq := Nat.le_trans hyields.advances.1 hq
  refine ⟨ih (hasked.part hindex hsymbol) ?_, ih (hasked.part hindex hclosing)
    ((need_part hindex hclosing hneed hpq).resolve_left (by simp))⟩
  have hcount := count_of_yields hyields
  have hafter : need text (.node 39) r = 29 + 20 * (text.drop r).count '(' := rfl
  have hbefore : need text (.node 42) p = 10 + 20 * (text.drop p).count '(' := rfl
  refine Nat.le_trans (need_mono hq) ?_
  omega

/-- But for the symbol in parentheses, each symbol is higher than what it is made of. -/
theorem NeedSuffices.plain (ih : NeedSuffices α text limit) (href : ref ∈ allSymbols)
    (hgroup : ref ≠ .node 42) (hasked : Asked ref skip) (hneed : need text ref p ≤ limit + 1) :
    FitsWithin α ruleSet.graph text (limit + 1) ref skip p := by
  -- The symbol stays a variable in the goal: by its index the whole layout would be unfolded.
  obtain ⟨index, symbol, heq, hindex⟩ := mem_allSymbols.mp href
  have hsymbol : ruleSet.graph.symbol ref = symbol := heq ▸ symbol_node hindex
  have hparts : ∀ r ∈ symbol.shape.refs, ∀ q, p ≤ q →
      FitsWithin α ruleSet.graph text limit r (skipInside symbol.name skip) q := by
    subst heq
    exact fun r hr q hq => ih (hasked.part hindex hr)
      ((need_part hindex hr hneed hq).resolve_left fun h => hgroup (congrArg Ref.node h.1))
  refine .of_parts hsymbol hparts (fun hkind q => ?_) fun target htarget => ?_
  · subst heq
    obtain ⟨hskipped, hroom⟩ := hasked.skips hindex hkind hneed q
    exact ih hskipped hroom
  · obtain rfl : index = 39 := layout_implicit hindex (htarget ▸ rfl)
    cases hindex
    cases htarget
    have hname : (Name.given "symbol").isLexical = false := isLexical_phrase _ (by decide)
    have htarget := hparts (.node 56) (List.mem_singleton_self _) p (Nat.le_refl p)
    rw [skipInside, hname] at htarget
    exact htarget

/-- The matches inside a symbol of the notation fit into what the symbol needs. -/
theorem fitsWithin_need : NeedSuffices α text limit := by
  induction limit with
  | zero =>
    intro ref skip p hasked hneed
    exact absurd (need_pos hasked) (Nat.not_lt.mpr hneed)
  | succ limit ih =>
    intro ref skip p hasked hneed
    rcases hasked.symbol with href | rfl
    · by_cases hgroup : ref = .node 42
      · exact ih.group hgroup hasked hneed
      · exact ih.plain href hgroup hasked hneed
    · exact .zeroLength

/-- Under a limit that has room for all parentheses, a grammar text is not nested too deeply. -/
theorem start_answers (hlimit : 30 + 20 * text.count '(' ≤ limit) :
    Answers (α := α) ruleSet.graph text guard (matchWithin ruleSet.graph limit) Sym.start Sym.skip
      p := by
  refine matchWithin_answers_of_fits (fitsWithin_need
    ⟨.inl (mem_allSymbols.mpr ⟨60, _, rfl, rfl⟩), .inr ⟨rfl, rfl⟩⟩ ?_)
  exact Nat.le_trans (need_mono (Nat.zero_le p)) hlimit

/-- Under nine levels, white space and comments are not nested too deeply. -/
theorem skip_answers (hlimit : 9 ≤ limit) :
    Answers (α := α) ruleSet.graph text guard (matchWithin ruleSet.graph limit) Sym.skip
      .zeroLength p := by
  refine matchWithin_answers_of_fits (fitsWithin_need
    ⟨.inl (mem_allSymbols.mpr ⟨82, _, rfl, rfl⟩), .inl rfl⟩ ?_)
  rw [need_blank rfl]
  exact hlimit

end GrammarEngine.Notation
