import GrammarEngine.Proofs.Notation.Between

namespace GrammarEngine.Notation

/-!
# Grammar texts without parentheses

Within names and literals nothing is looked for but characters, so parentheses there do not bring
a match any further down. The other symbols are only asked for between the tokens of the text. Where
none of those places has a parenthesis, the depth does not depend on the text.

* `IsSeamed` — places in a text that tokens and gaps lead from one to the other;
* `leads_of_isSeamed` — expressions and rules lead from one to the other, too;
* `fitsWithin_token`, `answersAt_of_isSeamed` — no match needs more room than its symbol is high;
* `start_answers_of_isSeamed` — thirty levels are enough for the whole text.
-/

variable {α : Type} {text : List Char} {seam : Nat → Prop} {guard : Guard} {p q limit index : Nat}
  {t : Token Value} {ts : List (Token Value)} {symbol : Symbol} {ref : Ref}

/-! ### Tokens -/

/-- The symbols that tokens of a grammar text are matched with. -/
def tokens : List Nat := [4, 38, 40, 41, 44, 46, 48, 52, 57, 58]

/-- The symbols that are made of tokens, with gaps between them. -/
def composites : List Nat := [39, 42, 43, 45, 47, 49, 50, 51, 53, 54, 55, 56, 59, 60]

theorem height_pos (h : layout[index]? = some symbol) : 1 ≤ height (.node index) := by
  have hall : ∀ entry ∈ layout.zipIdx, 1 ≤ height (.node entry.2) := by decide +kernel
  exact hall (symbol, index) (List.mk_mem_zipIdx_iff_getElem?.mpr h)

theorem layout_token : ∀ entry ∈ layout.zipIdx, entry.2 < 39 → ∀ r ∈ entry.1.shape.refs,
    ∃ index < 39, r = .node index ∧ height r < height (.node entry.2) := by
  decide +kernel

/-- Where nothing is skipped inside, a symbol up to the literals needs as much room as it is
    high. -/
theorem fitsWithin_token {skip : Ref} (hindex : layout[index]? = some symbol) (hlt : index < 39)
    (hinside : skipInside symbol.name skip = .zeroLength) (hlimit : height (.node index) ≤ limit) :
    FitsWithin α ruleSet.graph text limit (.node index) skip p := by
  induction limit generalizing index symbol skip p with
  | zero =>
    have hpos := height_pos hindex
    omega
  | succ limit ih =>
    have hmem := List.mk_mem_zipIdx_iff_getElem?.mpr hindex
    have hsymbol : ruleSet.graph.symbol (.node index) = symbol := symbol_node hindex
    -- By its index in the goal the whole layout would be unfolded.
    generalize Ref.node index = ref at hsymbol ⊢
    refine .of_parts hsymbol (fun r hr q hq => ?_) (fun hkind q => ?_) fun target htarget => ?_
    · obtain ⟨index', hlt', rfl, hheight⟩ := layout_token (symbol, index) hmem hlt r hr
      have hheight : height (.node index') < height (.node index) := hheight
      rw [hinside]
      exact ih (List.getElem?_eq_getElem (Nat.lt_trans hlt' (by decide))) hlt'
        (skipInside_zeroLength _) (by omega)
    -- The symbol that takes nothing needs a level, too.
    · have hroom := room_of_kind hindex hkind
      have hone : 1 ≤ if isBlank (.node index) then 1 else height Sym.skip := by split <;> decide
      obtain ⟨limit, rfl⟩ := Nat.exists_eq_add_one_of_ne_zero (show limit ≠ 0 by omega)
      rw [hinside]
      exact .zeroLength
    · have hspecial := layout_implicit hindex (htarget ▸ rfl)
      omega

/-- No token needs more room than its symbol is high. -/
theorem token_answers (hindex : index ∈ tokens) (hlimit : height (.node index) ≤ limit) :
    Answers (α := α) ruleSet.graph text guard (matchWithin ruleSet.graph limit) (.node index)
      Sym.skip p := by
  refine matchWithin_answers_of_fits ?_
  have hcharacter : ∀ {name : Name} {c : Char}, layout[index]? = some ⟨name, .character c⟩ →
      FitsWithin α ruleSet.graph text limit (.node index) Sym.skip p := by
    intro name c hsymbol
    have hpos := height_pos hsymbol
    obtain ⟨limit, rfl⟩ := Nat.exists_eq_add_one_of_ne_zero (show limit ≠ 0 by omega)
    rw [FitsWithin, symbol_node hsymbol]
    trivial
  simp only [tokens, List.mem_cons, List.not_mem_nil, or_false] at hindex
  rcases hindex with rfl | rfl | rfl | rfl | rfl | rfl | rfl | rfl | rfl | rfl
  · exact fitsWithin_token rfl (by decide) (if_pos isLexical_ID) hlimit
  · exact fitsWithin_token rfl (by decide) (if_pos isLexical_LITERAL) hlimit
  all_goals exact hcharacter rfl

/-! ### What is made of tokens -/

/-- What can be seen of each symbol that is made of tokens. -/
structure IsComposite (entry : Symbol × Nat) : Prop where
  spaced : skipInside entry.1.name Sym.skip = Sym.skip
  parts : entry.1.shape.refs ≠ []
  present : entry.1.shape.kind ≠ .plain .option ∧ entry.1.shape.kind ≠ .plain .star
  closed : ∀ r ∈ entry.1.shape.refs, ∃ index ∈ tokens ++ composites, r = .node index

theorem layout_composite : ∀ entry ∈ layout.zipIdx, entry.2 ∈ composites → IsComposite entry := by
  have hall : ∀ entry ∈ layout.zipIdx, entry.2 ∈ composites →
      skipInside entry.1.name Sym.skip = Sym.skip ∧ entry.1.shape.refs ≠ [] ∧
      (entry.1.shape.kind ≠ .plain .option ∧ entry.1.shape.kind ≠ .plain .star) ∧
      ∀ r ∈ entry.1.shape.refs, ∃ index ∈ tokens ++ composites, r = .node index := by
    decide +kernel
  intro entry hentry hcomposite
  obtain ⟨hspaced, hparts, hpresent, hclosed⟩ := hall entry hentry hcomposite
  exact ⟨hspaced, hparts, hpresent, hclosed⟩

theorem exists_composite (h : index ∈ composites) :
    ∃ symbol, layout[index]? = some symbol ∧ IsComposite (symbol, index) := by
  have hlt : index < layout.length := by
    have hall : ∀ index ∈ composites, index < layout.length := by decide
    exact hall index h
  have hsymbol := List.getElem?_eq_getElem hlt
  exact ⟨_, hsymbol, layout_composite _ (List.mk_mem_zipIdx_iff_getElem?.mpr hsymbol) h⟩

theorem lt_length_of_mem (h : index ∈ tokens ++ composites) : index < layout.length := by
  have hall : ∀ index ∈ tokens ++ composites, index < layout.length := by decide
  exact hall index h

/-! ### From place to place -/

/-- A symbol leads from one of the places to another one, and over some text. -/
def Leads (text : List Char) (seam : Nat → Prop) (ref : Ref) : Prop :=
  ∀ p t q, seam p → Placed text Sym.skip ref p t q → seam q ∧ t.isEmpty = false

/-- Places in a text that tokens and gaps lead from one to the other. There is no opening
    parenthesis at any of them. -/
structure IsSeamed (text : List Char) (seam : Nat → Prop) : Prop where
  le_length : ∀ p, seam p → p ≤ text.length
  gaps : ∀ p q, seam p → SkipsFrom ruleSet.graph text Value Sym.skip p q → seam q
  leads : ∀ index ∈ tokens, Leads text seam (.node index)
  closed : ∀ p, seam p → (text.drop p).head? ≠ some '('

/-- There are no parentheses to lead anywhere. -/
theorem IsSeamed.not_opening (h : IsSeamed text seam) (hp : seam p) :
    ¬ Placed text Sym.skip (.node 40) p t q := by
  intro hopening
  obtain ⟨hdrop, -⟩ := hopening.character isRanked (symbol_node rfl)
  exact h.closed p hp (by rw [hdrop, List.head?_cons])

theorem IsSeamed.members (h : IsSeamed text seam) {members : List Ref}
    (hmembers : ∀ member ∈ members, Leads text seam member) (hp : seam p)
    (hfrom : MembersFrom ruleSet.graph text Sym.skip p p members ts q) : seam q := by
  induction members generalizing p ts with
  | nil =>
    obtain ⟨-, rfl⟩ := hfrom.nil
    exact hp
  | cons member members ih =>
    rw [List.forall_mem_cons] at hmembers
    obtain ⟨p', t, r, ts', -, hskips, hplaced, hlater⟩ := hfrom.cons rank
    obtain ⟨hr, hcovers⟩ := hmembers.1 p' t r (h.gaps p p' hp hskips) hplaced
    rw [hcovers] at hlater
    exact ih hmembers.2 hr hlater

theorem IsSeamed.rounds (h : IsSeamed text seam) {inner : Ref} (hinner : Leads text seam inner)
    (hp : seam p) (hfrom : RoundsFrom ruleSet.graph text Sym.skip inner p ts q) : seam q := by
  induction ts generalizing p with
  | nil =>
    rcases hfrom.cases rank with ⟨-, rfl⟩ | ⟨_, _, _, _, heq, -⟩
    · exact hp
    · cases heq
  | cons t ts ih =>
    rcases hfrom.cases rank with ⟨heq, -⟩ | ⟨p', t', r, ts', heq, hskips, hplaced, hlater⟩
    · cases heq
    · cases heq
      obtain ⟨hr, hcovers⟩ := hinner p' t r (h.gaps p p' hp hskips) hplaced
      exact ih hr (hlater hcovers)

/-- What covers text at its beginning covers text. -/
theorem Placed.covers_of_first {u : Token Value} {r : Nat} {skip : Ref}
    (h : Placed text skip (.node index) p t q) (hindex : index < layout.length)
    (hfirst : Placed text Sym.skip ref p u r) (hcovers : u.isEmpty = false) (hle : r ≤ q) :
    t.isEmpty = false := by
  obtain ⟨-, _, _, -, hyields⟩ := hfirst
  exact h.covers hindex (Nat.lt_of_lt_of_le (hyields.advances.2.2 hcovers) hle)

/-- Tokens, expressions and rules lead from one of the places to another one. -/
theorem leads_of_isSeamed (h : IsSeamed text seam) (hindex : index ∈ tokens ++ composites) :
    Leads text seam (.node index) := by
  induction hn : height (.node index) using Nat.strong_induction_on generalizing index with
  | _ n ih =>
  rcases List.mem_append.mp hindex with htoken | hcomposite
  · exact h.leads index htoken
  obtain ⟨⟨name, shape⟩, hsymbol, hregular⟩ := exists_composite hcomposite
  intro p t q hp hplaced
  by_cases hgroup : index = 42
  · subst hgroup
    cases hsymbol
    obtain ⟨_, _, _, _, -, hopening, -⟩ := hplaced.sequence isRanked (symbol_node rfl) rfl
    exact absurd hopening (h.not_opening hp)
  have hparts : ∀ r ∈ shape.refs, Leads text seam r := by
    intro r hr
    obtain ⟨index', hindex', rfl⟩ := hregular.closed r hr
    have hheight : height (.node index') < height (.node index) :=
      (height_of_mem_refs hsymbol hr).1.resolve_left fun h => hgroup h.1
    exact ih _ (hn ▸ hheight) hindex' rfl
  have hspaced : skipInside name Sym.skip = Sym.skip := hregular.spaced
  have hlength := lt_length_of_mem hindex
  cases shape with
  | implicit target? =>
    obtain rfl := layout_implicit hsymbol rfl
    cases hsymbol
    have hname : (ruleSet.graph.symbol (.node 56)).name = .given "symbol" := by
      rw [symbol_node rfl]
    exact hparts _ (List.mem_singleton_self _) p t q hp (hplaced.implicit (symbol_node rfl) hname)
  | sequence members =>
    cases members with
    | nil => exact absurd rfl hregular.parts
    | cons first rest =>
      obtain ⟨start, u, us, r, -, hfirst, hrest⟩ :=
        hplaced.sequence isRanked (symbol_node hsymbol) hspaced
      obtain ⟨hr, hcovers⟩ := hparts first List.mem_cons_self p u r hp hfirst
      have hrest := hrest hcovers
      exact ⟨h.members (fun member hmem => hparts member (List.mem_cons_of_mem _ hmem)) hr hrest,
        hplaced.covers_of_first hlength hfirst hcovers (hrest.le (Nat.le_refl r))⟩
  | junction members =>
    obtain ⟨ordinal, member, u, rfl, hmember, hmade, -⟩ :=
      hplaced.junction isRanked (symbol_node hsymbol) hspaced
    obtain ⟨hq, hcovers⟩ := hparts member (List.mem_of_getElem? hmember) p u q hp hmade
    exact ⟨hq, hplaced.covers_of_first hlength hmade hcovers (Nat.le_refl q)⟩
  | multiple inner =>
    obtain ⟨start, u, us, r, -, hfirst, hrest⟩ :=
      hplaced.multiple isRanked (symbol_node hsymbol) hspaced
    have hinner := hparts inner (List.mem_singleton_self inner)
    obtain ⟨hr, hcovers⟩ := hinner p u r hp hfirst
    have hrest := hrest hcovers
    exact ⟨h.rounds hinner hr hrest, hplaced.covers_of_first hlength hfirst hcovers hrest.le⟩
  | option inner => exact absurd rfl hregular.present.1
  | star inner => exact absurd rfl hregular.present.2
  | _ => exact absurd rfl hregular.parts

/-! ### How deep -/

/-- With room enough inside, a symbol is answered at each of the places, if nobody is in its
    way. -/
structure AnswersAt (text : List Char) (seam : Nat → Prop) (limit : Nat) (ref : Ref) : Prop where
  answers : ∀ guard p, seam p → Clear rank guard p (rank (ruleSet.graph.symbol ref).name + 1) →
    Answers (α := Value) ruleSet.graph text guard (matchWithin ruleSet.graph limit) ref Sym.skip p

/-- Behind one of the places, skipping settles. -/
theorem IsSeamed.skip_settles (h : IsSeamed text seam) (hlimit : 9 ≤ limit) {bound : Nat}
    (hclear : Clear rank guard p bound) :
    Settles (α := Value) ruleSet.graph text guard (matchWithin ruleSet.graph limit)
      (fun q => seam q ∧ p < q) Sym.skip .zeroLength := by
  rintro q ⟨hq, hlt⟩
  refine ⟨skip_answers hlimit, fun answer reach hyields => ⟨?_, ?_⟩⟩
  · exact h.gaps q _ hq ⟨h.le_length q hq, answer, guard, reach, hclear.past hlt, hyields, rfl⟩
  · exact Nat.lt_of_lt_of_le hlt hyields.advances.landing_between.1

/-- Behind one of the places, what leads to another one settles. -/
theorem IsSeamed.settles (h : IsSeamed text seam) {bound : Nat} (hleads : Leads text seam ref)
    (hanswers : AnswersAt text seam limit ref) (hclear : Clear rank guard p bound) :
    Settles (α := Value) ruleSet.graph text guard (matchWithin ruleSet.graph limit)
      (fun q => seam q ∧ p < q) ref Sym.skip := by
  rintro q ⟨hq, hlt⟩
  have hclear' : Clear rank guard q (rank (ruleSet.graph.symbol ref).name + 1) :=
    (hclear.past hlt).clear
  refine ⟨hanswers.answers guard q hq hclear', fun answer reach hyields => ⟨?_, ?_⟩⟩
  · cases answer with
    | none => exact hq
    | some found =>
      exact (hleads q found.1 found.2 hq ⟨h.le_length q hq, guard, reach, hclear', hyields⟩).1
  · exact Nat.lt_of_lt_of_le hlt hyields.advances.landing_between.1

/-- Behind the first part of a sequence or a repetition nobody is in the way. -/
theorem IsSeamed.settlesBehind (h : IsSeamed text seam) {first : Ref} {rest : List Ref}
    (hlimit : 9 ≤ limit) (hp : seam p)
    (hclear : Clear rank guard p (rank (ruleSet.graph.symbol first).name + 1))
    (hfirst : AnswersAt text seam limit first) (hleads : Leads text seam first)
    (hrest : ∀ member ∈ rest, AnswersAt text seam limit member ∧ Leads text seam member) :
    SettlesBehind (α := Value) ruleSet.graph text guard (matchWithin ruleSet.graph limit) Sym.skip p
      first rest where
  leads := hfirst.answers guard p hp hclear
  follow token r reach hyields := by
    obtain ⟨hr, hcovers⟩ := hleads p token r hp ⟨h.le_length p hp, guard, reach, hclear, hyields⟩
    exact ⟨_, ⟨hr, hyields.advances.2.2 hcovers⟩, h.skip_settles hlimit hclear,
      fun member hmember =>
        h.settles (hrest member hmember).2 (hrest member hmember).1 hclear⟩

/-- In front of parentheses there is one at none of the places. -/
theorem IsSeamed.settlesBehind_opening (h : IsSeamed text seam) {rest : List Ref} (hp : seam p)
    (hclear : Clear rank guard p (rank (ruleSet.graph.symbol (.node 40)).name + 1))
    (hfirst : AnswersAt text seam limit (.node 40)) :
    SettlesBehind (α := Value) ruleSet.graph text guard (matchWithin ruleSet.graph limit) Sym.skip p
      (.node 40) rest where
  leads := hfirst.answers guard p hp hclear
  follow _ _ reach hyields :=
    absurd ⟨h.le_length p hp, guard, reach, hclear, hyields⟩ (h.not_opening hp)

/-- Nobody is in the way of what a symbol can begin with. -/
theorem clear_leading {r : Ref} (hsymbol : layout[index]? = some symbol)
    (hclear : Clear rank guard p (rank symbol.name + 1)) (hr : r ∈ symbol.shape.leading) :
    Clear rank ((symbol.name, (p : Int)) :: guard) p (rank (ruleSet.graph.symbol r).name + 1) := by
  have hlt := isRanked (.node index) r (by rw [symbol_node hsymbol]; exact hr)
  rw [symbol_node hsymbol] at hlt
  exact hclear.enter.mono hlt

/-- Where something is skipped inside, there are nine levels for it. -/
theorem nine_le_of_kind (hcomposite : index ∈ composites) (hsymbol : layout[index]? = some symbol)
    (hkind : symbol.shape.kind = .plain .sequence ∨ symbol.shape.kind = .plain .multiple)
    (hlimit : height (.node index) ≤ limit + 1) : 9 ≤ limit := by
  have hroom := room_of_kind hsymbol hkind
  have hblank : isBlank (.node index) = false := by
    have hall : ∀ index ∈ composites, isBlank (.node index) = false := by decide
    exact hall index hcomposite
  have hskip : height Sym.skip = 9 := rfl
  rw [hblank] at hroom
  simp only [Bool.false_eq_true, if_false, hskip] at hroom
  omega

/-- One level above its parts, a symbol is answered. -/
theorem IsSeamed.answersAt_succ (h : IsSeamed text seam) (hcomposite : index ∈ composites)
    (hlimit : height (.node index) ≤ limit + 1)
    (hparts : ∀ index' ∈ tokens ++ composites, height (.node index') ≤ limit →
      AnswersAt text seam limit (.node index')) :
    AnswersAt text seam (limit + 1) (.node index) := by
  obtain ⟨⟨name, shape⟩, hsymbol, hregular⟩ := exists_composite hcomposite
  have hnode := symbol_node hsymbol
  refine ⟨fun guard p hp hclear => ?_⟩
  rw [hnode] at hclear
  have hrefs : ∀ r ∈ shape.refs, Leads text seam r ∧
      (index = 42 ∧ r = .node 39 ∨ AnswersAt text seam limit r) := by
    intro r hr
    obtain ⟨index', hindex', rfl⟩ := hregular.closed r hr
    refine ⟨leads_of_isSeamed h hindex', (height_of_mem_refs hsymbol hr).1.imp_right ?_⟩
    exact fun hheight => hparts index' hindex' (by omega)
  have hspaced : skipInside name Sym.skip = Sym.skip := hregular.spaced
  refine matchWithin_answers_of_inside ?_
  simp only [AnswersInside, hnode, hspaced]
  clear hnode
  cases shape with
  | implicit target? =>
    obtain rfl := layout_implicit hsymbol rfl
    cases hsymbol
    have hname : (ruleSet.graph.symbol (.node 56)).name = .given "symbol" := by
      rw [symbol_node rfl]
    have htarget := (hrefs (.node 56) (List.mem_singleton_self _)).2.resolve_left (by decide)
    exact htarget.answers guard p hp (by rwa [hname])
  | sequence members =>
    rintro first rest rfl
    have hclear' := clear_leading hsymbol hclear List.mem_cons_self
    by_cases hgroup : index = 42
    · subst hgroup
      cases hsymbol
      exact h.settlesBehind_opening hp hclear'
        ((hrefs (.node 40) List.mem_cons_self).2.resolve_left (by decide))
    · have hanswers := fun r hr => (hrefs r hr).2.resolve_left fun h => hgroup h.1
      exact h.settlesBehind (nine_le_of_kind hcomposite hsymbol (.inl rfl) hlimit) hp hclear'
        (hanswers first List.mem_cons_self) (hrefs first List.mem_cons_self).1
        fun member hmember =>
          ⟨hanswers member (List.mem_cons_of_mem _ hmember),
            (hrefs member (List.mem_cons_of_mem _ hmember)).1⟩
  | junction members =>
    intro member hmember
    have hanswers := (hrefs member hmember).2.resolve_left fun h => by
      rw [h.1] at hsymbol
      cases hsymbol
    exact hanswers.answers _ p hp (clear_leading hsymbol hclear hmember)
  | multiple inner =>
    have hmem : inner ∈ (Shape.multiple inner).refs := List.mem_singleton_self inner
    have hanswers := (hrefs inner hmem).2.resolve_left fun h => by
      rw [h.1] at hsymbol
      cases hsymbol
    have hleads := (hrefs inner hmem).1
    exact h.settlesBehind (nine_le_of_kind hcomposite hsymbol (.inr rfl) hlimit) hp
      (clear_leading hsymbol hclear hmem) hanswers hleads
      (List.forall_mem_singleton.mpr ⟨hanswers, hleads⟩)
  | option inner => exact absurd rfl hregular.present.1
  | star inner => exact absurd rfl hregular.present.2
  | _ => exact absurd rfl hregular.parts

/-- Tokens are answered everywhere. -/
theorem token_answersAt (htoken : index ∈ tokens) (hlimit : height (.node index) ≤ limit) :
    AnswersAt text seam limit (.node index) :=
  ⟨fun _ _ _ _ => token_answers htoken hlimit⟩

/-- At the places, no match needs more room than its symbol is high. -/
theorem answersAt_of_isSeamed (h : IsSeamed text seam) (hindex : index ∈ tokens ++ composites)
    (hlimit : height (.node index) ≤ limit) : AnswersAt text seam limit (.node index) := by
  induction limit generalizing index with
  | zero =>
    have hpos := height_pos (List.getElem?_eq_getElem (lt_length_of_mem hindex))
    omega
  | succ limit ih =>
    rcases List.mem_append.mp hindex with htoken | hcomposite
    · exact token_answersAt htoken hlimit
    · exact h.answersAt_succ hcomposite hlimit fun index' hindex' hlimit' => ih hindex' hlimit'

/-- Thirty levels are enough for a text without parentheses between its tokens. -/
theorem start_answers_of_isSeamed (h : IsSeamed text seam) (hlimit : 30 ≤ limit) (hp : seam p) :
    Answers (α := Value) ruleSet.graph text [] (matchWithin ruleSet.graph limit) Sym.start Sym.skip
      p := by
  have hindex : 60 ∈ tokens ++ composites := by decide
  have hheight : height (.node 60) ≤ limit := hlimit
  exact (answersAt_of_isSeamed h hindex hheight).answers [] p hp clear_nil

end GrammarEngine.Notation
