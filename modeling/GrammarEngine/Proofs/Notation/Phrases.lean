import GrammarEngine.Proofs.Notation.Literals

namespace GrammarEngine.Notation

/-!
# Reading expressions and rules

However a grammar is written, it is read as what it is. The notation tries its alternatives in
order and never takes one back, so that at each place all that is tried before has to fail: what
comes next in the text rules it out.

* `Follows.skips`, `Begins.head_ne` — from one token to the next;
* `ReadsAs`, `RoundsAs` — reading something at a place, and as often as it comes;
* `reads_symbol` — expressions, by induction on how they are written;
* `reads_start` — whole grammars.
-/

variable {text rest : List Char} {skip ref : Ref} {p q r : Nat} {b : Bool} {c : Char}
  {l : Lexeme} {ls ks : List Lexeme} {m : Mark} {name : Name}

/-! ### From one token to the next -/

namespace Lexeme

/-- The token can begin with the character. -/
def CanBegin (c : Char) : Lexeme → Prop
  | .id _ _ => isLetter c = true
  | .literal _ _ _ => c = '[' ∨ c = '"'
  | .mark m => c = m.char

theorem chars_eq (l : Lexeme) : ∃ c cs, l.chars = c :: cs ∧ l.CanBegin c := by
  cases l with
  | id name valid =>
    unfold Notation.isID at valid
    split at valid
    · cases valid
    · rename_i first cs hlist
      rw [Bool.and_eq_true] at valid
      exact ⟨first, cs, hlist, valid.1⟩
  | literal value spelling valid =>
    cases valid with
    | any => exact ⟨_, _, rfl, .inl rfl⟩
    | oneOf all => exact ⟨_, _, rfl, .inl rfl⟩
    | single char => exact ⟨_, _, rfl, .inr rfl⟩
    | several chars two_le => exact ⟨_, _, rfl, .inr rfl⟩
  | mark m => exact ⟨_, _, rfl, rfl⟩

theorem not_isLetter_mark (m : Mark) : ¬ isLetter m.char = true := by cases m <;> decide

theorem CanBegin.visible (h : l.CanBegin c) : ¬ c ≤ ' ' ∧ c ≠ '/' := by
  cases l with
  | id name valid =>
    have hc : isLetter c = true := h
    have hspace : ' '.val.toNat = 32 := rfl
    rw [isLetter_iff, Char.toNat] at hc
    rw [Char.le_def, UInt32.le_iff_toNat_le]
    refine ⟨by omega, ?_⟩
    rintro rfl
    revert hc
    decide
  | literal value spelling valid => rcases h with rfl | rfl <;> decide
  | mark m =>
    cases h
    cases m <;> decide

theorem CanBegin.eq_mark (h : l.CanBegin m.char) : l = .mark m := by
  cases l with
  | id name valid => exact absurd h (not_isLetter_mark m)
  | literal value spelling valid => cases m <;> rcases h with h | h <;> cases h
  | mark m' => cases m <;> cases m' <;> first | rfl | cases h

/-- Only names begin with what could be in a name. -/
theorem CanBegin.isID (h : l.CanBegin c) (hc : isWordChar c = true) : l.isID = true := by
  cases l with
  | id name valid => rfl
  | literal value spelling valid => rcases h with rfl | rfl <;> cases hc
  | mark m =>
    cases h
    cases m <;> cases hc

end Lexeme

theorem Begins.visible (h : Begins ls rest) : Visible rest := by
  intro c hc
  cases ls with
  | nil =>
    cases h
    cases hc
  | cons l ls =>
    obtain ⟨rest', rfl, -⟩ := h
    obtain ⟨c', cs, heq, hbegin⟩ := l.chars_eq
    rw [heq] at hc
    cases hc
    exact hbegin.visible

/-- Where a mark is not next, its character is not. -/
theorem Begins.head_ne (h : Begins ls rest) (hne : ls.head? ≠ some (.mark m)) :
    rest.head? ≠ some m.char := by
  intro hhead
  cases ls with
  | nil =>
    cases h
    cases hhead
  | cons l ls =>
    obtain ⟨rest', rfl, -⟩ := h
    obtain ⟨c, cs, heq, hbegin⟩ := l.chars_eq
    rw [heq] at hhead
    cases hhead
    exact hne (congrArg some hbegin.eq_mark)

/-- What is between two tokens is skipped. -/
theorem Follows.skips (h : Follows b ls (text.drop q)) :
    ∃ r, Skips ruleSet.graph text Value Sym.skip q r ∧ Begins ls (text.drop r) := by
  generalize hdrop : text.drop q = s at h
  cases h with
  | @last _ gap blank =>
    exact ⟨_, skips_lastGap blank hdrop, drop_of_drop (by rw [hdrop, List.append_nil])⟩
  | @next _ l ls gap rest blank apart later =>
    have hbegins : Begins (l :: ls) (l.chars ++ rest) := ⟨rest, rfl, later⟩
    exact ⟨_, skips_gap blank hbegins.visible hdrop, by rw [drop_of_drop hdrop]; exact hbegins⟩

theorem IsGap.head {gap : List Char} (h : IsGap gap) : ∀ c ∈ gap.head?, c ≤ ' ' ∨ c = '/' := by
  cases h with
  | nil => simp
  | white blank later => simpa using .inl blank
  | comment closed later => simp
  | line closed later => simp

/-- A name is not followed by what could be in it. -/
theorem Follows.not_wordChar (h : Follows true ls rest) :
    ∀ c ∈ rest.head?, ¬ isWordChar c = true := by
  have hblank : ∀ c, c ≤ ' ' ∨ c = '/' → ¬ isWordChar c = true := by
    rintro c (hc | rfl)
    · rw [Char.le_def, UInt32.le_iff_toNat_le] at hc
      have hspace : ' '.val.toNat = 32 := rfl
      rw [isWordChar_iff, Char.toNat]
      omega
    · decide
  intro c hc
  cases h with
  | last blank =>
    refine hblank c ?_
    cases blank with
    | gap blank => exact blank.head c hc
    | @line gap body blank closed =>
      cases gap with
      | nil =>
        cases hc
        exact .inr rfl
      | cons first gap => exact blank.head c hc
  | @next _ l ls gap rest blank apart later =>
    cases gap with
    | nil =>
      obtain ⟨c', cs, heq, hbegin⟩ := l.chars_eq
      rw [List.nil_append, heq] at hc
      cases hc
      exact fun hword => apart rfl (hbegin.isID hword) rfl
    | cons first gap => exact hblank c (blank.head c hc)

/-! ### Marks -/

theorem mark_fails (hsymbol : ruleSet.graph.symbol ref = ⟨name, .character m.char⟩)
    (h : Begins ls (text.drop q)) (hne : ls.head? ≠ some (.mark m)) :
    Reads text ref skip q none :=
  .character_fails hsymbol (h.head_ne hne)

theorem reads_mark (ref skip : Ref)
    (hsymbol : ruleSet.graph.symbol ref = ⟨name, .character m.char⟩)
    (h : Begins (.mark m :: ls) (text.drop q)) :
    Reads text ref skip q (some (.leaf .character name (.singleton m.char) q 0, q + 1)) ∧
      Follows false ls (text.drop (q + 1)) := by
  obtain ⟨rest, hdrop, hfollows⟩ := h
  have hrest : text.drop (q + 1) = rest := drop_of_drop (s := [m.char]) hdrop
  exact ⟨.character hsymbol hdrop, by rw [hrest]; exact hfollows⟩

/-! ### Reading something -/

section ReadsAs

variable {β : Type} {is : Token Value → β → Prop} {x : β} {xs : List β} {ks' : List Lexeme}

/-- A symbol reads something, and the tokens follow behind it. -/
def ReadsAs (text : List Char) (is : Token Value → β → Prop) (ref : Ref) (q : Nat) (x : β)
    (ks : List Lexeme) : Prop :=
  ∃ t r b, Reads text ref Sym.skip q (some (t, r)) ∧ t.isEmpty = false ∧ is t x ∧
    Follows b ks (text.drop r)

/-- The rounds of a repetition behind the first one read some things, and the tokens follow behind
    them. -/
def RoundsAs (text : List Char) (is : Token Value → β → Prop) (ref : Ref) (q : Nat) (xs : List β)
    (ks : List Lexeme) : Prop :=
  ∃ ts r b, RoundsGive ruleSet.graph text Sym.skip ref q (r, ts) ∧ q ≤ r ∧
    List.Forall₂ is ts xs ∧ Follows b ks (text.drop r)

theorem RoundsAs.stops (h : Follows b ks (text.drop q))
    (hfails : ∀ r, Begins ks (text.drop r) → Reads text ref Sym.skip r none) :
    RoundsAs text is ref q [] ks := by
  obtain ⟨r, hskip, hbegins⟩ := h.skips
  exact ⟨[], q, b, .stops hskip (hfails r hbegins), Nat.le_refl q, .nil, h⟩

theorem RoundsAs.goes (h : Follows b ls (text.drop q))
    (hfirst : ∀ r, Begins ls (text.drop r) → ReadsAs text is ref r x ks')
    (hlater : ∀ b r, Follows b ks' (text.drop r) → RoundsAs text is ref r xs ks) :
    RoundsAs text is ref q (x :: xs) ks := by
  obtain ⟨q', hskip, hbegins⟩ := h.skips
  obtain ⟨t, r, b', hreads, hcovers, hx, hfollows⟩ := hfirst q' hbegins
  obtain ⟨ts, r', b'', hrounds, hle, hxs, hfollows'⟩ := hlater b' r hfollows
  have hlt := hreads.lt hcovers
  exact ⟨t :: ts, r', b'', .goes hskip hreads hcovers hrounds, by have := hskip.le; omega,
    .cons hx hxs, hfollows'⟩

/-- All rounds of a repetition. -/
theorem ReadsAs.multiple {inner : Ref} {is' : Token Value → List β → Prop}
    (h : ReadsAs text is inner q x ks')
    (hlater : ∀ b r, Follows b ks' (text.drop r) → RoundsAs text is inner r xs ks)
    (hsymbol : ruleSet.graph.symbol ref = ⟨name, .multiple inner⟩)
    (hinside : skipInside name Sym.skip = Sym.skip) (hne : text.drop q ≠ [])
    (his : ∀ substring start ts, List.Forall₂ is ts (x :: xs) →
      is' (.node ⟨.multiple, name, substring, start, 0⟩ ts none) (x :: xs)) :
    ReadsAs text is' ref q (x :: xs) ks := by
  obtain ⟨t, r, b, hreads, hcovers, hx, hfollows⟩ := h
  obtain ⟨ts, r', b', hrounds, hle, hxs, hfollows'⟩ := hlater b r hfollows
  have hlt := hreads.lt hcovers
  exact ⟨_, r', b', .multiple isRanked hsymbol hinside hreads hcovers hrounds,
    isEmpty_spanning hne (by omega), his _ _ _ (.cons hx hxs), hfollows'⟩

end ReadsAs

/-! ### Atoms -/

/-- The tree says the expression, as it was meant. -/
abbrev IsWritten (t : Token Value) (e : Expr Literal) : Prop := IsExpr t (e.map .ok)

variable {e e' : Expr Literal} {es : List (Expr Literal)}

theorem group_fails (h : Begins ls (text.drop q)) (hne : ls.head? ≠ some (.mark .opening)) :
    Reads text (.node 42) Sym.skip q none :=
  .sequence_fails isRanked (symbol_node rfl) rfl
    (mark_fails (m := .opening) (symbol_node rfl) h hne)

/-- Within what is made of tokens there can be gaps. -/
theorem skipInside_phrase : ∀ key ∈ ["atom", "multiple", "option", "star", "factor", "sequence",
    "junction", "symbol", "rule", "start"], skipInside (.given key) Sym.skip = Sym.skip :=
  fun key hkey => by
    rw [skipInside, isLexical_phrase key hkey]
    rfl

theorem skipInside_atom : skipInside (.given "atom") Sym.skip = Sym.skip :=
  skipInside_phrase _ (by decide)

/-- No atom begins with a mark other than a parenthesis. -/
theorem atom_fails (h : Begins ls (text.drop q)) (hls : ls.head? = some (.mark m))
    (hm : m ≠ .opening) : Reads text Sym.atom Sym.skip q none := by
  have hgroup : Reads text (.node 42) Sym.skip q none := by
    refine group_fails h ?_
    rw [hls]
    rintro ⟨⟩
    exact hm rfl
  obtain ⟨later, rfl⟩ := List.head?_eq_some_iff.mp hls
  obtain ⟨rest, hdrop, -⟩ := h
  have hhead : (text.drop q).head? = some m.char := by
    rw [hdrop]
    rfl
  have hID : Reads text Sym.ID Sym.skip q none := by
    refine ID_fails fun c hc => ?_
    rw [hhead] at hc
    cases hc
    exact Lexeme.not_isLetter_mark m
  have hliteral : Reads text Sym.LITERAL Sym.skip q none := by
    refine LITERAL_fails ?_ ?_ <;> rw [hhead] <;> cases m <;> decide
  exact .junction_fails isRanked (symbol_node rfl) skipInside_atom
    (.failed hgroup (.failed hID (.failed hliteral .nil)))

theorem reads_referenceAtom {name : String} {valid : isID name = true}
    (h : Begins (.id name valid :: ks) (text.drop q)) :
    ReadsAs text IsWritten Sym.atom q (.reference name) ks := by
  have hgroup : Reads text (.node 42) Sym.skip q none := group_fails h nofun
  obtain ⟨rest, hdrop, hfollows⟩ := h
  obtain ⟨t, hreads, hcovers, hquiet, hname⟩ := reads_ID _ valid hfollows.not_wordChar hdrop
  have hatom : Reads text Sym.atom Sym.skip q _ :=
    .junction isRanked (symbol_node rfl) skipInside_atom (.failed hgroup (.matched hreads))
  refine ⟨_, _, true, hatom, hcovers, ?_, ?_⟩
  · rw [IsWritten, Expr.map, ← hname]
    exact isExpr_reference hquiet
  · have hrest : text.drop (q + name.toList.length) = rest := drop_of_drop hdrop
    rw [← String.length_toList, hrest]
    exact hfollows

theorem reads_literalAtom {value : Literal} {spelling : List Char}
    {valid : Spells value spelling}
    (h : Begins (.literal value spelling valid :: ks) (text.drop q)) :
    ReadsAs text IsWritten Sym.atom q (.literal value) ks := by
  have hgroup : Reads text (.node 42) Sym.skip q none := group_fails h nofun
  obtain ⟨rest, hdrop, hfollows⟩ := h
  have hID : Reads text Sym.ID Sym.skip q none := by
    refine ID_fails fun c hc => ?_
    obtain ⟨c', cs, heq, hbegin⟩ := (Lexeme.literal value spelling valid).chars_eq
    rw [hdrop, heq] at hc
    cases hc
    rcases hbegin with rfl | rfl <;> decide
  obtain ⟨t, hreads, hcovers, hexpr⟩ := reads_literal valid hdrop
  have hatom : Reads text Sym.atom Sym.skip q _ :=
    .junction isRanked (symbol_node rfl) skipInside_atom
      (.failed hgroup (.failed hID (.matched hreads)))
  have hrest : text.drop (q + spelling.length) = rest := drop_of_drop hdrop
  exact ⟨_, _, false, hatom, hcovers, isExpr_literal hexpr, by rw [hrest]; exact hfollows⟩

/-- Parentheses, with something inside. -/
theorem reads_groupAtom
    (h : ∀ q, Begins (ls ++ .mark .closing :: ks) (text.drop q) →
      ReadsAs text IsWritten Sym.symbol q e (.mark .closing :: ks))
    (hbegins : Begins (.mark .opening :: (ls ++ .mark .closing :: ks)) (text.drop q)) :
    ReadsAs text IsWritten Sym.atom q e ks := by
  obtain ⟨hopening, hfollows⟩ :=
    reads_mark (.node 40) Sym.skip (symbol_node rfl) hbegins
  obtain ⟨q₁, hskip₁, hbegins₁⟩ := hfollows.skips
  obtain ⟨t, r, b, hreads, hcovers, hexpr, hfollows₁⟩ := h q₁ hbegins₁
  have hname : (ruleSet.graph.symbol Sym.symbol).name = .given "symbol" := by
    rw [symbol_node rfl]
  have hsymbol : Reads text (.node 39) Sym.skip q₁ _ :=
    .implicit (symbol_node rfl) hname hreads
  obtain ⟨q₂, hskip₂, hbegins₂⟩ := hfollows₁.skips
  obtain ⟨hclosing, hfollows₂⟩ :=
    reads_mark (.node 41) Sym.skip (symbol_node rfl) hbegins₂
  have hgroup : Reads text (.node 42) Sym.skip q _ :=
    .sequence isRanked (symbol_node rfl) rfl hopening (isEmpty_singleton ..)
      (.covers hskip₁ hsymbol hcovers
        (.covers hskip₂ hclosing (isEmpty_singleton ..) (.nil _ _)))
  have hatom : Reads text Sym.atom Sym.skip q _ :=
    .junction isRanked (symbol_node rfl) skipInside_atom (.matched hgroup)
  obtain ⟨rest, hdrop, -⟩ := hbegins
  have hlt : q < q₂ + 1 := by
    have := hskip₁.le
    have := hreads.le
    have := hskip₂.le
    omega
  refine ⟨_, _, false, hatom, ?_, isExpr_group (quiet_leaf rfl) hexpr (quiet_leaf rfl), hfollows₂⟩
  rw [isEmpty_over]
  exact isEmpty_spanning (by simp [hdrop, Lexeme.chars]) hlt

/-! ### Factors -/

section Fails

variable {β : Type} {is : Token Value → β → Prop} {x : β}

theorem repeated_fails {mark : Ref} {serial : Nat}
    (hsymbol : ruleSet.graph.symbol ref = ⟨name, .sequence [Sym.atom, mark]⟩)
    (hinside : skipInside name Sym.skip = Sym.skip)
    (hmark : ruleSet.graph.symbol mark = ⟨.generated serial, .character m.char⟩)
    (h : ReadsAs text is Sym.atom q x ks) (hne : ks.head? ≠ some (.mark m)) :
    Reads text ref Sym.skip q none := by
  obtain ⟨t, r, b, hreads, hcovers, -, hfollows⟩ := h
  obtain ⟨r', hskip, hbegins⟩ := hfollows.skips
  exact .sequence_laterFails isRanked hsymbol hinside hreads hcovers
    (.fails hskip (mark_fails hmark hbegins hne))

theorem skipInside_multiple : skipInside (.given "multiple") Sym.skip = Sym.skip :=
  skipInside_phrase _ (by decide)

theorem skipInside_option : skipInside (.given "option") Sym.skip = Sym.skip :=
  skipInside_phrase _ (by decide)

theorem skipInside_star : skipInside (.given "star") Sym.skip = Sym.skip :=
  skipInside_phrase _ (by decide)

theorem skipInside_factor : skipInside (.given "factor") Sym.skip = Sym.skip :=
  skipInside_phrase _ (by decide)

theorem multiple_fails (h : ReadsAs text is Sym.atom q x ks)
    (hne : ks.head? ≠ some (.mark .plus)) : Reads text Sym.multiple Sym.skip q none :=
  repeated_fails (symbol_node rfl) skipInside_multiple (symbol_node rfl) h hne

theorem option_fails (h : ReadsAs text is Sym.atom q x ks)
    (hne : ks.head? ≠ some (.mark .question)) : Reads text Sym.option Sym.skip q none :=
  repeated_fails (symbol_node rfl) skipInside_option (symbol_node rfl) h hne

theorem star_fails (h : ReadsAs text is Sym.atom q x ks)
    (hne : ks.head? ≠ some (.mark .star)) : Reads text Sym.star Sym.skip q none :=
  repeated_fails (symbol_node rfl) skipInside_star (symbol_node rfl) h hne

end Fails

theorem reads_repeated (ref : Ref) {mark : Ref} {serial : Nat} {count : Count} {step : Step}
    (hsymbol : ruleSet.graph.symbol ref = ⟨name, .sequence [Sym.atom, mark]⟩)
    (hinside : skipInside name Sym.skip = Sym.skip)
    (hmark : ruleSet.graph.symbol mark = ⟨.generated serial, .character count.mark.char⟩)
    (hstep : ∀ t d, step t d = do
      let inner ← (← t.item 0).payload
      return (.symbol (d.addRepeated inner.asPart count).1,
        (d.addRepeated inner.asPart count).2))
    (hname : heard name = some (.ofStep step)) (hne : text.drop q ≠ [])
    (h : ReadsAs text IsWritten Sym.atom q e (.mark count.mark :: ks)) :
    ReadsAs text IsWritten ref q (.repeated count e) ks := by
  obtain ⟨t, r, b, hreads, hcovers, hexpr, hfollows⟩ := h
  obtain ⟨r', hskip, hbegins⟩ := hfollows.skips
  obtain ⟨hreads', hfollows'⟩ := reads_mark mark Sym.skip hmark hbegins
  have hlt : q < r' + 1 := by
    have := hreads.le
    have := hskip.le
    omega
  exact ⟨_, _, false, .sequence isRanked hsymbol hinside hreads hcovers
    (.covers hskip hreads' (isEmpty_singleton ..) (.nil _ _)), isEmpty_spanning hne hlt,
    isExpr_repeated count hstep hname hexpr (quiet_leaf rfl), hfollows'⟩

/-- An atom with no repetition behind it. -/
theorem reads_onceFactor {e : Expr (Except ParseError Literal)}
    (h : ReadsAs text IsExpr Sym.atom q e ks)
    (hks : ∀ count : Count, ks.head? ≠ some (.mark count.mark)) :
    ReadsAs text IsExpr Sym.factor q e ks := by
  have hmultiple := multiple_fails h (hks .oneOrMore)
  have hoption := option_fails h (hks .optional)
  have hstar := star_fails h (hks .noneOrMore)
  obtain ⟨t, r, b, hreads, hcovers, hexpr, hfollows⟩ := h
  exact ⟨_, r, b, .junction isRanked (symbol_node rfl) skipInside_factor
    (.failed hmultiple (.failed hoption (.failed hstar (.matched hreads)))), hcovers,
    isExpr_over hexpr rfl, hfollows⟩

/-- An atom with a repetition behind it. -/
theorem reads_repeatedFactor {count : Count} (hne : text.drop q ≠ [])
    (h : ReadsAs text IsWritten Sym.atom q e (.mark count.mark :: ks)) :
    ReadsAs text IsWritten Sym.factor q (.repeated count e) ks := by
  cases count with
  | oneOrMore =>
    obtain ⟨t, r, b, hreads, hcovers, hexpr, hfollows⟩ := reads_repeated Sym.multiple
      (symbol_node rfl) skipInside_multiple (symbol_node rfl) multiple_eq rfl hne h
    exact ⟨_, r, b, .junction isRanked (symbol_node rfl) skipInside_factor (.matched hreads),
      hcovers, isExpr_over hexpr rfl, hfollows⟩
  | optional =>
    have hmultiple := multiple_fails h nofun
    obtain ⟨t, r, b, hreads, hcovers, hexpr, hfollows⟩ := reads_repeated Sym.option
      (symbol_node rfl) skipInside_option (symbol_node rfl) option_eq rfl hne h
    exact ⟨_, r, b, .junction isRanked (symbol_node rfl) skipInside_factor
      (.failed hmultiple (.matched hreads)), hcovers, isExpr_over hexpr rfl, hfollows⟩
  | noneOrMore =>
    have hmultiple := multiple_fails h nofun
    have hoption := option_fails h nofun
    obtain ⟨t, r, b, hreads, hcovers, hexpr, hfollows⟩ := reads_repeated Sym.star
      (symbol_node rfl) skipInside_star (symbol_node rfl) star_eq rfl hne h
    exact ⟨_, r, b, .junction isRanked (symbol_node rfl) skipInside_factor
      (.failed hmultiple (.failed hoption (.matched hreads))), hcovers, isExpr_over hexpr rfl,
      hfollows⟩

theorem factor_fails (h : Begins ls (text.drop q)) (hls : ls.head? = some (.mark m))
    (hm : m ≠ .opening) : Reads text Sym.factor Sym.skip q none := by
  have hatom := atom_fails h hls hm
  exact .junction_fails isRanked (symbol_node rfl) skipInside_factor
    (.failed (.sequence_fails isRanked (symbol_node rfl) skipInside_multiple hatom)
      (.failed (.sequence_fails isRanked (symbol_node rfl) skipInside_option hatom)
        (.failed (.sequence_fails isRanked (symbol_node rfl) skipInside_star hatom)
          (.failed hatom .nil))))

/-! ### What comes next -/

/-- The next token is one of these marks. -/
def NextIn (marks : List Mark) (ks : List Lexeme) : Prop :=
  ∃ m ∈ marks, ks.head? = some (.mark m)

/-- What ends a sequence. -/
def sequenceEnds : List Mark := [.bar, .closing, .semicolon]

/-- What ends an expression. -/
def symbolEnds : List Mark := [.closing, .semicolon]

theorem NextIn.mono {marks marks' : List Mark} (h : NextIn marks ks) (hsubset : marks ⊆ marks') :
    NextIn marks' ks :=
  h.imp fun _ h => ⟨hsubset h.1, h.2⟩

theorem NextIn.not_mark {marks : List Mark} (h : NextIn marks ks) (hm : m ∉ marks) :
    ks.head? ≠ some (.mark m) := by
  obtain ⟨m', hm', hhead⟩ := h
  rw [hhead]
  rintro ⟨⟩
  exact hm hm'

theorem WritesAtom.opens (h : WritesAtom e ls) : ∃ l ls', ls = l :: ls' ∧ l.opens = true := by
  cases h <;> exact ⟨_, _, rfl, rfl⟩

theorem WritesFactor.opens (h : WritesFactor e ls) : ∃ l ls', ls = l :: ls' ∧ l.opens = true := by
  cases h with
  | once atom => exact atom.opens
  | repeated atom =>
    obtain ⟨l, ls', rfl, hopens⟩ := atom.opens
    exact ⟨l, _, rfl, hopens⟩

theorem WritesSequence.opens (h : WritesSequence e ls) :
    ∃ l ls', ls = l :: ls' ∧ l.opens = true := by
  obtain ⟨first, later⟩ := h
  obtain ⟨l, ls', rfl, hopens⟩ := first.opens
  exact ⟨l, _, rfl, hopens⟩

/-- Behind a factor within a sequence there is no repetition. -/
theorem WritesFactors.no_repetition (h : WritesFactors es ls) (hks : NextIn sequenceEnds ks)
    (count : Count) : (ls ++ ks).head? ≠ some (.mark count.mark) := by
  cases h with
  | nil => exact hks.not_mark (by cases count <;> decide)
  | cons first later =>
    obtain ⟨l, ls', rfl, hopens⟩ := first.opens
    rintro ⟨⟩
    cases count <;> cases hopens

theorem WritesAlternatives.next (h : WritesAlternatives es ls) (hks : NextIn symbolEnds ks) :
    NextIn sequenceEnds (ls ++ ks) := by
  cases h with
  | nil => exact hks.mono (by decide)
  | cons first later => exact ⟨.bar, by decide, rfl⟩

/-! ### Sequences and choices -/

/-- Wherever the tokens are, with such others behind them, a symbol reads the expression. -/
def ReadsWhole (text : List Char) (ref : Ref) (ends : List Lexeme → Prop) (e : Expr Literal)
    (ls : List Lexeme) : Prop :=
  ∀ q ks, Begins (ls ++ ks) (text.drop q) → ends ks → ReadsAs text IsWritten ref q e ks

/-- Wherever the tokens are, with such others behind them, rounds of a repetition read some
    things. -/
def RoundsWhole {β : Type} (text : List Char) (is : Token Value → β → Prop) (ref : Ref)
    (ends : List Lexeme → Prop) (xs : List β) (ls : List Lexeme) : Prop :=
  ∀ b q ks, Follows b (ls ++ ks) (text.drop q) → ends ks → RoundsAs text is ref q xs ks

/-- No repetition is next. -/
def NoRepetition (ks : List Lexeme) : Prop := ∀ count : Count, ks.head? ≠ some (.mark count.mark)

theorem ReadsWhole.group (h : ReadsWhole text Sym.symbol (NextIn symbolEnds) e ls) :
    ReadsWhole text Sym.atom (fun _ => True) e (.mark .opening :: (ls ++ [.mark .closing])) := by
  intro q ks hbegins _
  rw [List.cons_append, List.append_assoc] at hbegins
  exact reads_groupAtom (fun q hbegins => h q _ hbegins ⟨.closing, by decide, rfl⟩) hbegins

theorem Begins.ne_nil (h : Begins (l :: ls) rest) : rest ≠ [] := by
  obtain ⟨rest', rfl, -⟩ := h
  obtain ⟨c, cs, heq, -⟩ := l.chars_eq
  rw [heq]
  exact List.cons_ne_nil _ _

theorem ReadsWhole.repeated {count : Count} (hatom : WritesAtom e ls)
    (h : ReadsWhole text Sym.atom (fun _ => True) e ls) :
    ReadsWhole text Sym.factor NoRepetition (.repeated count e) (ls ++ [.mark count.mark]) := by
  intro q ks hbegins _
  have hne : text.drop q ≠ [] := by
    obtain ⟨l, ls', rfl, -⟩ := hatom.opens
    exact hbegins.ne_nil
  rw [List.append_assoc] at hbegins
  exact reads_repeatedFactor hne (h q _ hbegins trivial)

theorem RoundsWhole.noFactors :
    RoundsWhole text IsWritten Sym.factor (NextIn sequenceEnds) [] [] := by
  intro b q ks hfollows hks
  obtain ⟨m, hm, hhead⟩ := hks
  refine .stops hfollows fun r hbegins => factor_fails hbegins hhead ?_
  rintro rfl
  revert hm
  decide

theorem RoundsWhole.factors {ls' : List Lexeme} (hlater : WritesFactors es ls')
    (h : ReadsWhole text Sym.factor NoRepetition e ls)
    (h' : RoundsWhole text IsWritten Sym.factor (NextIn sequenceEnds) es ls') :
    RoundsWhole text IsWritten Sym.factor (NextIn sequenceEnds) (e :: es) (ls ++ ls') := by
  intro b q ks hfollows hks
  rw [List.append_assoc] at hfollows
  exact .goes hfollows (fun r hbegins => h r _ hbegins (hlater.no_repetition hks))
    fun b r hfollows => h' b r ks hfollows hks

theorem mapAll_eq (f : Literal → Except ParseError Literal) (es : List (Expr Literal)) :
    Expr.mapAll f es = es.map (Expr.map f) := by
  induction es with
  | nil => rfl
  | cons e es ih => rw [Expr.mapAll, ih, List.map_cons]

theorem map_inSequence (f : Literal → Except ParseError Literal) (es : List (Expr Literal)) :
    (Expr.inSequence es).map f = .inSequence (es.map (Expr.map f)) := by
  match es with
  | [] => rfl
  | [e] => rfl
  | e₁ :: e₂ :: es => exact congrArg Expr.sequence (mapAll_eq f _)

theorem skipInside_sequence : skipInside (.given "sequence") Sym.skip = Sym.skip :=
  skipInside_phrase _ (by decide)

theorem ReadsWhole.sequence {ls' : List Lexeme} (hfirst : WritesFactor e ls)
    (hlater : WritesFactors es ls') (h : ReadsWhole text Sym.factor NoRepetition e ls)
    (h' : RoundsWhole text IsWritten Sym.factor (NextIn sequenceEnds) es ls') :
    ReadsWhole text Sym.sequence (NextIn sequenceEnds) (.inSequence (e :: es)) (ls ++ ls') := by
  intro q ks hbegins hks
  have hne : text.drop q ≠ [] := by
    obtain ⟨l, ls, rfl, -⟩ := hfirst.opens
    exact hbegins.ne_nil
  rw [List.append_assoc] at hbegins
  have hall : ReadsAs text (fun t es => IsWritten t (.inSequence es)) Sym.sequence q (e :: es) ks :=
    (h q _ hbegins (hlater.no_repetition hks)).multiple
      (fun b r hfollows => h' b r ks hfollows hks) (symbol_node rfl) skipInside_sequence hne
      fun substring start ts hts => by
        rw [IsWritten, map_inSequence]
        refine isExpr_sequence (List.forall₂_map_right_iff.mpr hts) ?_
        rintro rfl
        cases hts
  exact hall

/-- The tree says the expression, behind a bar. -/
abbrev IsWrittenAlternative (t : Token Value) (e : Expr Literal) : Prop :=
  IsAlternative t (e.map .ok)

theorem reads_alternative (h : ReadsWhole text Sym.sequence (NextIn sequenceEnds) e ls)
    (hks : NextIn sequenceEnds ks) (hbegins : Begins (.mark .bar :: (ls ++ ks)) (text.drop q)) :
    ReadsAs text IsWrittenAlternative (.node 53) q e ks := by
  obtain ⟨hbar, hfollows⟩ :=
    reads_mark (.node 52) Sym.skip (symbol_node rfl) hbegins
  obtain ⟨q', hskip, hbegins'⟩ := hfollows.skips
  obtain ⟨t, r, b, hreads, hcovers, hexpr, hfollows'⟩ := h q' ks hbegins' hks
  have hlt : q < r := by
    have := hskip.le
    have := hreads.le
    omega
  have halternative : Reads text (.node 53) Sym.skip q _ :=
    .sequence isRanked (symbol_node rfl) rfl hbar (isEmpty_singleton ..)
      (.covers hskip hreads hcovers (.nil _ _))
  exact ⟨_, r, b, halternative, isEmpty_spanning hbegins.ne_nil hlt,
    isAlternative (quiet_leaf rfl) hexpr, hfollows'⟩

theorem alternative_fails (h : Begins ks (text.drop q)) (hks : ks.head? ≠ some (.mark .bar)) :
    Reads text (.node 53) Sym.skip q none :=
  .sequence_fails isRanked (symbol_node rfl) rfl (mark_fails (m := .bar) (symbol_node rfl) h hks)

theorem RoundsWhole.noAlternatives :
    RoundsWhole text IsWrittenAlternative (.node 53) (NextIn symbolEnds) [] [] := by
  intro b q ks hfollows hks
  exact .stops hfollows fun r hbegins => alternative_fails hbegins (hks.not_mark (by decide))

theorem RoundsWhole.alternatives {ls' : List Lexeme} (hlater : WritesAlternatives es ls')
    (h : ReadsWhole text Sym.sequence (NextIn sequenceEnds) e ls)
    (h' : RoundsWhole text IsWrittenAlternative (.node 53) (NextIn symbolEnds) es ls') :
    RoundsWhole text IsWrittenAlternative (.node 53) (NextIn symbolEnds) (e :: es)
      (.mark .bar :: (ls ++ ls')) := by
  intro b q ks hfollows hks
  rw [List.cons_append, List.append_assoc] at hfollows
  exact .goes hfollows (fun r hbegins => reads_alternative h (hlater.next hks) hbegins)
    fun b r hfollows => h' b r ks hfollows hks

theorem skipInside_junction : skipInside (.given "junction") Sym.skip = Sym.skip :=
  skipInside_phrase _ (by decide)

theorem skipInside_symbol : skipInside (.given "symbol") Sym.skip = Sym.skip :=
  skipInside_phrase _ (by decide)

/-- A sequence with no bar behind it is no choice. -/
theorem reads_onlySequence {e : Expr (Except ParseError Literal)}
    (h : ReadsAs text IsExpr Sym.sequence q e ks) (hks : NextIn symbolEnds ks) :
    ReadsAs text IsExpr Sym.symbol q e ks := by
  obtain ⟨t, r, b, hreads, hcovers, hexpr, hfollows⟩ := h
  obtain ⟨r', hskip, hbegins'⟩ := hfollows.skips
  have halternatives : Reads text (.node 54) Sym.skip r' none :=
    .multiple_fails isRanked (symbol_node rfl) rfl
      (alternative_fails hbegins' (hks.not_mark (by decide)))
  have hjunction : Reads text Sym.junction Sym.skip q none :=
    .sequence_laterFails isRanked (symbol_node rfl) skipInside_junction hreads hcovers
      (.fails hskip halternatives)
  exact ⟨_, r, b, .junction isRanked (symbol_node rfl) skipInside_symbol
    (.failed hjunction (.matched hreads)), hcovers, isExpr_over hexpr rfl, hfollows⟩

/-- The tree is of several alternatives. -/
def AreAlternatives (t : Token Value) (es : List (Expr Literal)) : Prop :=
  ∃ substring start ts, t = .node ⟨.multiple, .generated 54, substring, start, 0⟩ ts none ∧
    List.Forall₂ IsWrittenAlternative ts es

theorem ReadsWhole.choice {ls' ls'' : List Lexeme} (hfirst : WritesSequence e ls)
    (hlater : WritesAlternatives es ls'')
    (h : ReadsWhole text Sym.sequence (NextIn sequenceEnds) e ls)
    (h' : ReadsWhole text Sym.sequence (NextIn sequenceEnds) e' ls')
    (h'' : RoundsWhole text IsWrittenAlternative (.node 53) (NextIn symbolEnds) es ls'') :
    ReadsWhole text Sym.symbol (NextIn symbolEnds) (.choice (e :: e' :: es))
      (ls ++ .mark .bar :: (ls' ++ ls'')) := by
  intro q ks hbegins hks
  have hne : text.drop q ≠ [] := by
    obtain ⟨l, ls, rfl, -⟩ := hfirst.opens
    exact hbegins.ne_nil
  rw [List.append_assoc, List.cons_append, List.append_assoc] at hbegins
  obtain ⟨t, r, b, hreads, hcovers, hexpr, hfollows⟩ := h q _ hbegins ⟨.bar, by decide, rfl⟩
  obtain ⟨r', hskip, hbegins'⟩ := hfollows.skips
  have halternatives : ReadsAs text AreAlternatives (.node 54) r' (e' :: es) ks :=
    (reads_alternative h' (hlater.next hks) hbegins').multiple
      (fun b r hfollows => h'' b r ks hfollows hks) (symbol_node rfl) rfl hbegins'.ne_nil
      fun substring start ts hts => ⟨substring, start, ts, rfl, hts⟩
  obtain ⟨_, r'', b', hreads', hcovers', ⟨substring, start, ts, rfl, hts⟩, hfollows'⟩ :=
    halternatives
  have hjunction : Reads text Sym.junction Sym.skip q _ :=
    .sequence isRanked (symbol_node rfl) skipInside_junction hreads hcovers
      (.covers hskip hreads' hcovers' (.nil _ _))
  have hlt : q < r'' := by
    have := hreads.lt hcovers
    have := hskip.le
    have := hreads'.le
    omega
  refine ⟨_, r'', b', .junction isRanked (symbol_node rfl) skipInside_symbol (.matched hjunction),
    ?_, isExpr_over ?_ rfl, hfollows'⟩
  · rw [isEmpty_over]
    exact isEmpty_spanning hne hlt
  · show IsExpr _ (.choice (Expr.mapAll .ok (e :: e' :: es)))
    rw [mapAll_eq]
    exact isExpr_junction hexpr (List.forall₂_map_right_iff.mpr hts)

/-- However an expression is written, it is read as what it is. -/
theorem reads_symbol (h : WritesSymbol e ls) :
    ReadsWhole text Sym.symbol (NextIn symbolEnds) e ls := by
  refine @WritesSymbol.rec
    (fun e ls _ => ReadsWhole text Sym.atom (fun _ => True) e ls)
    (fun e ls _ => ReadsWhole text Sym.factor NoRepetition e ls)
    (fun es ls _ => RoundsWhole text IsWritten Sym.factor (NextIn sequenceEnds) es ls)
    (fun e ls _ => ReadsWhole text Sym.sequence (NextIn sequenceEnds) e ls)
    (fun es ls _ => RoundsWhole text IsWrittenAlternative (.node 53) (NextIn symbolEnds) es ls)
    (fun e ls _ => ReadsWhole text Sym.symbol (NextIn symbolEnds) e ls)
    ?reference ?literal ?group ?once ?repeated ?noFactors ?factors ?sequence ?noAlternatives
    ?alternatives ?only ?choice _ _ h
  case reference => exact fun _ q ks hbegins _ => reads_referenceAtom hbegins
  case literal => exact fun _ q ks hbegins _ => reads_literalAtom hbegins
  case group => exact fun _ h => h.group
  case once =>
    exact fun _ h q ks hbegins hks => reads_onceFactor (h q ks hbegins trivial) hks
  case repeated => exact fun hatom h => h.repeated hatom
  case noFactors => exact .noFactors
  case factors => exact fun _ hlater h h' => .factors hlater h h'
  case sequence => exact fun hfirst hlater h h' => .sequence hfirst hlater h h'
  case noAlternatives => exact .noAlternatives
  case alternatives => exact fun _ hlater h h' => .alternatives hlater h h'
  case only =>
    exact fun _ h q ks hbegins hks => reads_onlySequence (h q ks hbegins (hks.mono (by decide))) hks
  case choice => exact fun hfirst _ hlater h h' h'' => .choice hfirst hlater h h' h''

/-! ### Rules -/

/-- The rule of a text is as it was meant. -/
def RuleText.Says (rt : RuleText) (rule : Rule) : Prop :=
  rt.name = rule.name ∧ rt.body = rule.body.map .ok

/-- The tree says the rule, as it was meant. -/
def IsWrittenRule (t : Token Value) (rule : Rule) : Prop := ∃ rt, IsRule t rt ∧ rt.Says rule

theorem exists_ruleTexts {ts : List (Token Value)} {rules : List Rule}
    (h : List.Forall₂ IsWrittenRule ts rules) :
    ∃ rts, List.Forall₂ IsRule ts rts ∧ List.Forall₂ RuleText.Says rts rules := by
  induction h with
  | nil => exact ⟨[], .nil, .nil⟩
  | cons hfirst _ ih =>
    obtain ⟨rt, hrt, hsaid⟩ := hfirst
    obtain ⟨rts, hrts, hall⟩ := ih
    exact ⟨rt :: rts, .cons hrt hrts, .cons hsaid hall⟩

theorem skipInside_rule : skipInside (.given "rule") Sym.skip = Sym.skip :=
  skipInside_phrase _ (by decide)

theorem skipInside_start : skipInside (.given "start") Sym.skip = Sym.skip :=
  skipInside_phrase _ (by decide)

/-- The tree says a rule of the name. -/
def IsRuleOf (name : String) (t : Token Value) (e : Expr (Except ParseError Literal)) : Prop :=
  ∃ source start, IsRule t { name, body := e, source, start }

/-- A rule, given where its parts are. -/
theorem reads_ruleOf {name : String} {e : Expr (Except ParseError Literal)} {q₁ q₂ : Nat}
    {rest' : List Char} (hname : isID name = true) (hrest : ∀ c ∈ rest.head?, ¬ isWordChar c = true)
    (hdrop : text.drop q = name.toList ++ rest)
    (hskip₁ : Skips ruleSet.graph text Value Sym.skip (q + name.length) q₁)
    (hcolon : text.drop q₁ = ':' :: rest')
    (hskip₂ : Skips ruleSet.graph text Value Sym.skip (q₁ + 1) q₂)
    (hbody : ReadsAs text IsExpr Sym.symbol q₂ e (.mark .semicolon :: ks)) :
    ReadsAs text (IsRuleOf name) Sym.rule q e ks := by
  obtain ⟨id, hID, hcovers, hquiet, rfl⟩ := reads_ID Sym.skip hname hrest hdrop
  have hq₁ : q₁ < text.length := lt_length_of_drop (by simp [hcolon])
  have hcolon : Reads text (.node 57) Sym.skip q₁ _ := .character (symbol_node rfl) hcolon
  obtain ⟨body, r, b, hbody, hcovers', hexpr, hfollows⟩ := hbody
  obtain ⟨q₃, hskip₃, hbegins⟩ := hfollows.skips
  obtain ⟨hsemicolon, hfollows'⟩ :=
    reads_mark (.node 58) Sym.skip (symbol_node rfl) hbegins
  have hID_le := hID.le
  have hle₁ := hskip₁.le
  have hlt : q < q₃ + 1 := by
    have := hskip₂.le
    have := hbody.le
    have := hskip₃.le
    omega
  have hne : text.drop q ≠ [] := fun heq => by
    have hlength := List.drop_eq_nil_iff.mp heq
    omega
  have hrule : Reads text Sym.rule Sym.skip q _ :=
    .sequence isRanked (symbol_node rfl) skipInside_rule hID hcovers
      (.covers hskip₁ hcolon (isEmpty_singleton ..) (.covers hskip₂ hbody hcovers'
        (.covers hskip₃ hsemicolon (isEmpty_singleton ..) (.nil _ _))))
  exact ⟨_, _, false, hrule, isEmpty_spanning hne hlt,
    ⟨_, _, isRule hquiet (quiet_leaf rfl) hexpr (quiet_leaf rfl)⟩, hfollows'⟩

theorem reads_rule {rule : Rule} {valid : isID rule.name = true} (h : WritesSymbol rule.body ls)
    (hbegins : Begins (.id rule.name valid :: .mark .colon :: (ls ++ .mark .semicolon :: ks))
      (text.drop q)) :
    ReadsAs text IsWrittenRule Sym.rule q rule ks := by
  obtain ⟨rest, hdrop, hfollows⟩ := hbegins
  have hrest : text.drop (q + rule.name.toList.length) = rest := drop_of_drop hdrop
  have hword := hfollows.not_wordChar
  rw [← hrest, String.length_toList] at hfollows
  obtain ⟨q₁, hskip₁, hcolon⟩ := hfollows.skips
  obtain ⟨-, hfollows₁⟩ := reads_mark (.node 57) Sym.skip (symbol_node rfl) hcolon
  obtain ⟨q₂, hskip₂, hbegins₂⟩ := hfollows₁.skips
  obtain ⟨rest', hcolon, -⟩ := hcolon
  have hbody := reads_symbol h q₂ _ hbegins₂ ⟨.semicolon, by decide, rfl⟩
  obtain ⟨t, r, b, hreads, hcovers, ⟨source, start, hsaid⟩, hfollows₂⟩ :=
    reads_ruleOf valid hword hdrop hskip₁ hcolon hskip₂ hbody
  exact ⟨t, r, b, hreads, hcovers, ⟨_, hsaid, rfl, rfl⟩, hfollows₂⟩

/-- There is no rule at the end of a text. -/
theorem rule_fails (h : Begins [] (text.drop q)) : Reads text Sym.rule Sym.skip q none := by
  have hnil : text.drop q = [] := h
  exact .sequence_fails isRanked (symbol_node rfl) skipInside_rule (ID_fails (by simp [hnil]))

theorem rounds_rules {rules : List Rule} (h : WritesRules rules ls)
    (hfollows : Follows b ls (text.drop q)) : RoundsAs text IsWrittenRule Sym.rule q rules [] := by
  induction h generalizing b q with
  | nil => exact .stops hfollows fun r => rule_fails
  | cons valid body later ih =>
    exact .goes hfollows (fun r => reads_rule body) fun b r hfollows => ih hfollows

/-- However a grammar is written, it is read as what it is: all of the text, but for what can be
    skipped. -/
theorem reads_start {rules : List Rule} (hne : rules ≠ []) (h : IsTextOf text rules) :
    ∃ p q r t rts, Skips ruleSet.graph text Value Sym.skip 0 p ∧
      Reads text Sym.start Sym.skip p (some (t, q)) ∧ t.isEmpty = false ∧
      Skips ruleSet.graph text Value Sym.skip q r ∧ text.drop r = [] ∧
      IsGrammar t rts ∧ List.Forall₂ RuleText.Says rts rules := by
  obtain ⟨ls, hwrites, hfollows⟩ := h
  rw [← List.drop_zero (l := text)] at hfollows
  obtain ⟨p, hskip, hbegins⟩ := hfollows.skips
  cases hwrites with
  | nil => exact absurd rfl hne
  | @cons rule rules ls ls' valid body later =>
    have hstart : ReadsAs text (fun t rules => ∃ rts, IsGrammar t rts ∧
        List.Forall₂ RuleText.Says rts rules) Sym.start p (rule :: rules) [] := by
      refine (reads_rule body hbegins).multiple (fun b r => rounds_rules later) (symbol_node rfl)
        skipInside_start hbegins.ne_nil fun substring start ts hts => ?_
      obtain ⟨rts, hrts, hsaid⟩ := exists_ruleTexts hts
      exact ⟨rts, isGrammar hrts, hsaid⟩
    obtain ⟨t, q, b, hreads, hcovers, ⟨rts, hgrammar, hsaid⟩, hend⟩ := hstart
    obtain ⟨r, hskip', hnil⟩ := hend.skips
    exact ⟨p, q, r, t, rts, hskip, hreads, hcovers, hskip', hnil, hgrammar, hsaid⟩

end GrammarEngine.Notation
