import GrammarEngine.Proofs.Landing

namespace GrammarEngine

/-!
# Matching characters and texts

The shapes that read characters do what `readLeaf` says, or they run out of text where it says
that they fail. None of them asks for another symbol.

* `matchCodes_goes` — reading on while the code points are the expected ones;
* `shapeBody_delivers` — each of these shapes gives the answer that `readLeaf` says.
-/

open MatchM

variable {α : Type} {text : List Char} {guard : Guard} {p : Nat}

/-! ### Reading on -/

/-- Characters are the expected ones just if their code points are. -/
theorem matchLiteral_eq (chars : List Char) :
    matchLiteral chars = matchCodes (chars.map Char.toNat) := by
  induction chars with
  | nil => rfl
  | cons c chars ih =>
    have hne : ∀ d : Char, d ≠ c ↔ d.toNat ≠ c.toNat := fun d =>
      not_congr ⟨fun h => h ▸ rfl, fun h => Char.toNat_inj.mp h⟩
    simp only [matchLiteral, matchCodes, List.map_cons, ih, hne]

/-- The code points stand in the text at the position, or one of them does not and the stream
    stays where it looked last. -/
theorem matchCodes_goes {s : Stream} (h : s.Reads text p) (codes : List Nat) :
    ∃ s' q, Stream.Goes text s s' q (lookAhead p codes (text.drop p)) ∧
      ((codes <+: (text.drop p).map Char.toNat ∧ q = p + codes.length ∧
          matchCodes codes s = .ok true s') ∨
        (¬ codes <+: (text.drop p).map Char.toNat ∧
          (matchCodes codes s = .ok false s' ∨
            ∃ cause, matchCodes codes s = .error (.exhausted cause) s'))) := by
  induction codes generalizing s p with
  | nil => exact ⟨s, p, .refl h, .inl ⟨List.nil_prefix, rfl, rfl⟩⟩
  | cons code codes ih =>
    obtain ⟨s₁, hnext⟩ := Stream.next_goes h
    cases hchar : text[p]? with
    | none =>
      rw [hchar] at hnext
      obtain ⟨hrun, hgoes⟩ := hnext
      have hend : text.drop p = [] := List.drop_eq_nil_iff.mpr (List.getElem?_eq_none_iff.mp hchar)
      rw [hend]
      exact ⟨s₁, p, hgoes, .inr ⟨by simp, .inr ⟨_, Step.bind_error hrun _⟩⟩⟩
    | some c =>
      rw [hchar] at hnext
      obtain ⟨hrun, hgoes⟩ := hnext
      obtain ⟨hlt, rfl⟩ := List.getElem?_eq_some_iff.mp hchar
      -- The text from here on begins with this character.
      have hdrop : text.drop p = text[p] :: text.drop (p + 1) := List.drop_eq_getElem_cons hlt
      by_cases hcode : text[p].toNat = code
      · obtain ⟨s₂, q, hgoes₂, hcases⟩ := ih hgoes.reads
        have hreach : lookAhead p (code :: codes) (text.drop p) =
            max p (lookAhead (p + 1) codes (text.drop (p + 1))) := by
          rw [hdrop, lookAhead, if_pos hcode]
        have hrest : matchCodes (code :: codes) s = matchCodes codes s₁ := by
          rw [matchCodes, Step.bind_ok hrun]
          simp [hcode]
        have hstarts : code :: codes <+: (text.drop p).map Char.toNat ↔
            codes <+: (text.drop (p + 1)).map Char.toNat := by
          rw [hdrop, List.map_cons, hcode, List.cons_prefix_cons]
          simp
        refine ⟨s₂, q, by rw [hreach]; exact hgoes.trans hgoes₂, ?_⟩
        rw [hrest, hstarts, List.length_cons]
        rcases hcases with ⟨hcodes, hq, hok⟩ | hfails
        · exact .inl ⟨hcodes, by omega, hok⟩
        · exact .inr hfails
      · have hreach : lookAhead p (code :: codes) (text.drop p) = p := by
          rw [hdrop, lookAhead, if_neg hcode]
        refine ⟨s₁, p + 1, by rw [hreach]; exact hgoes, .inr ⟨?_, .inl ?_⟩⟩
        · rw [hdrop, List.map_cons, List.cons_prefix_cons]
          exact fun h => hcode h.1.symm
        · rw [matchCodes, Step.bind_ok hrun]
          simp [hcode]

/-! ### The shapes -/

theorem matchSwitch_delivers (name : Name) (ranges : CharClass) :
    DeliversInside (α := α) text guard p (readClass text name ranges p) p
      (matchSwitch name ranges) := by
  intro s hs
  obtain ⟨s₁, hgoes, hloaded, hpeek⟩ := Stream.peek_goes hs.reads
  unfold matchSwitch
  refine .bind (position_ends s) ?_
  rintro _ _ ⟨rfl, rfl⟩
  rw [hs.reads.position]
  cases hchar : text[p]? with
  | none =>
    rw [hchar] at hpeek
    rw [readClass_of_none hchar]
    exact .bind_error (onStream_error hpeek) ⟨⟨_, rfl⟩, p, ⟨rfl, rfl⟩, hgoes.strays, rfl⟩
  | some c =>
    rw [hchar] at hpeek
    rw [readClass_of_some hchar]
    obtain ⟨hlt, -⟩ := List.getElem?_eq_some_iff.mp hchar
    refine .bind_ok (onStream_ok hpeek) ?_
    cases hfind : ranges.find? c.toNat with
    | none => exact .of_ok rfl ⟨none, p, ⟨rfl, rfl⟩, rfl, ⟨hgoes, rfl⟩⟩
    | some ordinal =>
      obtain ⟨s₂, hadvance, hgoes₂⟩ := Stream.advance_goes hgoes.reads hlt
      -- The character is in the buffer, for the stream has moved past it.
      have hmoved : p + 1 ≤ s₂.buffer.size ∨ p + 1 = p := by
        have hmoved := hgoes₂.moved
        rw [hgoes.reads.position] at hmoved
        omega
      have hsubstring := Stream.substring_eq hgoes₂.reads (Nat.le_succ p) hmoved
      rw [slice_succ hchar, show ((p + 1 : Nat) - p : Int) = 1 by omega] at hsubstring
      refine .bind_ok (onStream_ok hadvance) (.bind_ok (onStream_ok hsubstring) (.of_ok rfl ?_))
      refine ⟨_, p, ⟨rfl, rfl⟩, ?_, ⟨?_, rfl⟩⟩
      · simp
      · simpa [landing] using hgoes.trans hgoes₂

theorem matchCharacter_delivers (name : Name) (literal : Char) :
    DeliversInside (α := α) text guard p (readCharacter text name literal p) p
      (matchCharacter name literal) := by
  intro s hs
  obtain ⟨s₁, hgoes, hloaded, hpeek⟩ := Stream.peek_goes hs.reads
  unfold matchCharacter readCharacter
  refine .bind (position_ends s) ?_
  rintro _ _ ⟨rfl, rfl⟩
  rw [hs.reads.position]
  cases hchar : text[p]? with
  | none =>
    rw [hchar] at hpeek
    exact .bind_error (onStream_error hpeek) ⟨⟨_, rfl⟩, p, ⟨rfl, rfl⟩, hgoes.strays, rfl⟩
  | some c =>
    rw [hchar] at hpeek
    obtain ⟨hlt, -⟩ := List.getElem?_eq_some_iff.mp hchar
    refine .bind_ok (onStream_ok hpeek) ?_
    by_cases hc : c = literal
    · obtain ⟨s₂, hadvance, hgoes₂⟩ := Stream.advance_goes hgoes.reads hlt
      simp only [hc, ne_eq, not_true_eq_false, if_false, if_true]
      refine .bind_ok (onStream_ok hadvance) (.of_ok rfl ⟨_, p, ⟨rfl, rfl⟩, rfl, ⟨?_, rfl⟩⟩)
      simpa [landing] using hgoes.trans hgoes₂
    · simp only [Option.some.injEq, hc, ne_eq, not_false_eq_true, if_false, if_true]
      exact .of_ok rfl ⟨none, p, ⟨rfl, rfl⟩, rfl, ⟨hgoes, rfl⟩⟩

theorem matchText_delivers (name : Name) (literal : String) :
    DeliversInside (α := α) text guard p (readText text name literal p)
      (lookAhead p (literal.toList.map Char.toNat) (text.drop p)) (matchText name literal) := by
  intro s hs
  unfold matchText readText
  refine .bind (position_ends s) ?_
  rintro _ _ ⟨rfl, rfl⟩
  refine .bind_ok (saving_run hs) ?_
  obtain ⟨s₁, q, hgoes, hcases⟩ := matchCodes_goes hs.saving.reads (literal.toList.map Char.toNat)
  have hlands : Lands text (s.saving p) { s with stream := s₁ } q _ := ⟨hgoes, rfl⟩
  -- Comparing code points is as good as comparing characters.
  have hinj : ∀ c d : Char, c.toNat = d.toNat → c = d := fun _ _ => Char.toNat_inj.mp
  rw [List.prefix_map_iff_of_injective hinj, List.length_map, String.length_toList,
    ← matchLiteral_eq] at hcases
  rcases hcases with ⟨hstarts, rfl, hok⟩ | ⟨hstarts, hfalse | ⟨cause, herror⟩⟩
  · obtain ⟨s₂, hdiscard, hlands₂⟩ := discard_lands hlands
    refine .bind_ok (onStream_ok hok) (.bind_ok hdiscard ?_)
    rw [if_pos hstarts, hs.reads.position]
    exact .of_ok rfl ⟨_, _, ⟨rfl, rfl⟩, rfl, hlands₂⟩
  · obtain ⟨s₂, hrevert, hlands₂⟩ := revert_lands hs hlands
    refine .bind_ok (onStream_ok hfalse) (.bind_ok hrevert ?_)
    rw [if_neg hstarts]
    exact .of_ok rfl ⟨_, _, ⟨rfl, rfl⟩, rfl, hlands₂⟩
  · rw [if_neg hstarts]
    refine .bind_error (onStream_error herror) ⟨⟨cause, rfl⟩, _, ⟨rfl, rfl⟩, ?_, rfl⟩
    -- The position that was saved is still there, for the guard to drop.
    exact ⟨hgoes.reads.spells, hgoes.loaded, hgoes.furthest, [p], hgoes.saved⟩

theorem matchOddCharacter_delivers :
    DeliversInside (α := α) text guard p none p matchOddCharacter := by
  intro s hs
  obtain ⟨s₁, hgoes, -, hpeek⟩ := Stream.peek_goes hs.reads
  unfold matchOddCharacter
  cases hchar : text[p]? with
  | none =>
    rw [hchar] at hpeek
    exact .bind_error (onStream_error hpeek) ⟨⟨_, rfl⟩, p, ⟨rfl, rfl⟩, hgoes.strays, rfl⟩
  | some c =>
    rw [hchar] at hpeek
    exact .bind_ok (onStream_ok hpeek) (.of_ok rfl ⟨none, p, ⟨rfl, rfl⟩, rfl, ⟨hgoes, rfl⟩⟩)

theorem matchOddText_delivers (codes : List Nat) :
    DeliversInside (α := α) text guard p none (lookAhead p codes (text.drop p))
      (matchOddText codes) := by
  intro s hs
  unfold matchOddText
  refine .bind_ok (saving_run hs) ?_
  obtain ⟨s₁, q, hgoes, hcases⟩ := matchCodes_goes hs.saving.reads codes
  have hlands : Lands text (s.saving p) { s with stream := s₁ } q _ := ⟨hgoes, rfl⟩
  obtain ⟨s₂, hrevert, hlands₂⟩ := revert_lands hs hlands
  rcases hcases with ⟨-, -, htrue⟩ | ⟨-, hfalse | ⟨cause, herror⟩⟩
  · refine .bind_ok (onStream_ok htrue) (.bind_ok hrevert ?_)
    exact .of_ok rfl ⟨none, _, ⟨rfl, rfl⟩, rfl, hlands₂⟩
  · refine .bind_ok (onStream_ok hfalse) (.bind_ok hrevert ?_)
    exact .of_ok rfl ⟨none, _, ⟨rfl, rfl⟩, rfl, hlands₂⟩
  · refine .bind_error (onStream_error herror) ⟨⟨cause, rfl⟩, _, ⟨rfl, rfl⟩, ?_, rfl⟩
    exact ⟨hgoes.reads.spells, hgoes.loaded, hgoes.furthest, [p], hgoes.saved⟩

/-- The shapes that read characters do what `readLeaf` says. -/
theorem shapeBody_delivers {g : Graph} {ask : Ask α} {name : Name} {skip : Ref} {shape : Shape}
    {answer : Answer α} {reach : Nat} (h : readLeaf text name p shape = some (answer, reach)) :
    DeliversInside text guard p answer reach (shapeBody g ask name skip shape) := by
  cases shape <;> simp only [readLeaf, Option.some.injEq, Prod.mk.injEq, reduceCtorEq] at h
  case switch ranges =>
    rw [← h.1, ← h.2]
    exact matchSwitch_delivers name ranges
  case anyCharacter =>
    rw [← h.1, ← h.2]
    exact matchSwitch_delivers name CharClass.all
  case character literal =>
    rw [← h.1, ← h.2]
    exact matchCharacter_delivers name literal
  case text literal =>
    rw [← h.1, ← h.2]
    exact matchText_delivers name literal
  case oddCharacter =>
    rw [← h.1, ← h.2]
    exact matchOddCharacter_delivers
  case oddText codes =>
    rw [← h.1, ← h.2]
    exact matchOddText_delivers codes

end GrammarEngine
