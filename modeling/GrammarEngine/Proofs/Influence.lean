import GrammarEngine.Proofs.RoundTrip
import GrammarEngine.Proofs.Verdicts

namespace GrammarEngine

/-!
# What can influence a match

A match depends on the characters that it looks at, and on nothing behind the furthest of them. So
where a text is refused, every text that begins with the same characters, up to the place of the
error, is refused there too.

* `Within` — a match ends right behind the furthest place it looked at, or before it;
* `Yields.within`, `Yields.of_agreesUpTo` — one case for each rule;
* `Decides.of_agreesUpTo` — the same for a whole text;
* `Grammar.RaisedInWalk` — an error that comes of a listener;
* `parse_hopeless` — nothing behind the place of an error had any influence.
-/

/-- The texts are the same up to a position, which is part of it. -/
def AgreesUpTo (reach : Nat) (text text' : List Char) : Prop := ∀ i ≤ reach, text'[i]? = text[i]?

theorem AgreesUpTo.mono {reach reach' : Nat} {text text' : List Char}
    (h : AgreesUpTo reach' text text') (hle : reach ≤ reach') : AgreesUpTo reach text text' :=
  fun i hi => h i (Nat.le_trans hi hle)

theorem AgreesUpTo.of_take_eq {reach : Nat} {text text' : List Char}
    (h : text'.take (reach + 1) = text.take (reach + 1)) : AgreesUpTo reach text text' := by
  intro i hi
  rw [← List.getElem?_take_of_lt (Nat.lt_succ_of_le hi), h,
    List.getElem?_take_of_lt (Nat.lt_succ_of_le hi)]

/-- A match from `p` to `stop` looked as far as `reach`, within the text. -/
structure Within (text : List Char) (p stop reach : Nat) : Prop where
  stop_le : stop ≤ max p (reach + 1)
  reach_le : p ≤ text.length → reach ≤ text.length

namespace Within

variable {text : List Char} {p q stop reach reach' : Nat}

theorem refl (text : List Char) (p : Nat) : Within text p p 0 :=
  ⟨Nat.le_max_left _ _, fun _ => Nat.zero_le _⟩

theorem trans (h : Within text p q reach) (h' : Within text q stop reach')
    (hq : p ≤ text.length → q ≤ text.length) : Within text p stop (max reach reach') where
  stop_le := by
    have := h.stop_le
    have := h'.stop_le
    omega
  reach_le hp := Nat.max_le.mpr ⟨h.reach_le hp, h'.reach_le (hq hp)⟩

/-- A match that failed, or that stays where the last text ended, looked as far. -/
theorem of_le (h : Within text p q reach) (hstop : stop ≤ p) : Within text p stop reach :=
  ⟨Nat.le_trans hstop (Nat.le_max_left _ _), h.reach_le⟩

end Within

variable {α : Type} {g : Graph} {text text' : List Char}

/-! ### Characters and texts -/

theorem lookAhead_le (codes : List Nat) {p : Nat} {rest : List Char} (hp : p ≤ text.length)
    (hrest : rest = text.drop p) : lookAhead p codes rest ≤ text.length := by
  induction codes generalizing p rest with
  | nil => exact Nat.zero_le _
  | cons code codes ih =>
    cases rest with
    | nil => exact hp
    | cons c rest =>
      rw [lookAhead]
      split
      · have hlt : p < text.length := by
          have := congrArg List.length hrest
          simp only [List.length_cons, List.length_drop] at this
          omega
        have htail : rest = text.drop (p + 1) := by
          rw [← List.tail_drop, ← hrest, List.tail_cons]
        exact Nat.max_le.mpr ⟨hp, ih hlt htail⟩
      · exact hp

/-- A text that stands somewhere was looked at up to its end. -/
theorem le_lookAhead_of_prefix (literal : List Char) {p : Nat} {rest : List Char}
    (h : literal <+: rest) (hne : literal ≠ []) :
    p + literal.length ≤ lookAhead p (literal.map Char.toNat) rest + 1 := by
  induction literal generalizing p rest with
  | nil => exact absurd rfl hne
  | cons c literal ih =>
    obtain ⟨later, rfl⟩ := h
    simp only [List.map_cons, List.cons_append, lookAhead, if_true, List.length_cons]
    cases literal with
    | nil => simp [lookAhead]
    | cons c' literal =>
      have := ih (p := p + 1) (List.prefix_append _ later) (by simp)
      omega

theorem readLeaf_within {shape : Shape} {name : Name} {p reach : Nat} {answer : Answer α}
    (h : readLeaf text name p shape = some (answer, reach)) :
    Within text p (landing p answer) reach := by
  have hclass : ∀ ranges, Within text p (landing p (readClass (α := α) text name ranges p)) p := by
    intro ranges
    refine ⟨?_, id⟩
    cases hread : readClass (α := α) text name ranges p with
    | none => exact Nat.le_max_left _ _
    | some found =>
      obtain ⟨_, _, -, -, -, hstop⟩ := eq_of_readClass hread
      exact hstop ▸ Nat.le_max_right _ _
  cases shape <;> simp only [readLeaf, Option.some.injEq, Prod.mk.injEq, reduceCtorEq] at h
  case switch ranges => obtain ⟨rfl, rfl⟩ := h; exact hclass ranges
  case anyCharacter => obtain ⟨rfl, rfl⟩ := h; exact hclass _
  case character literal =>
    obtain ⟨rfl, rfl⟩ := h
    refine ⟨?_, id⟩
    rw [readCharacter]
    split
    · exact Nat.le_max_right _ _
    · exact Nat.le_max_left _ _
  case text literal =>
    obtain ⟨rfl, rfl⟩ := h
    refine ⟨?_, fun hp => lookAhead_le _ hp rfl⟩
    rw [readText]
    split
    · rename_i hstarts
      by_cases hne : literal.toList = []
      · rw [landing, ← String.length_toList, hne]
        exact Nat.le_max_left _ _
      · have := le_lookAhead_of_prefix literal.toList (p := p) hstarts hne
        rw [String.length_toList] at this
        exact Nat.le_trans this (Nat.le_max_right _ _)
    · exact Nat.le_max_left _ _
  case oddCharacter => obtain ⟨rfl, rfl⟩ := h; exact ⟨Nat.le_max_left _ _, id⟩
  case oddText =>
    obtain ⟨rfl, rfl⟩ := h
    exact ⟨Nat.le_max_left _ _, fun hp => lookAhead_le _ hp rfl⟩

/-! ### How far a match looks -/

mutual

theorem Yields.within {ref skip : Ref} {guard : Guard} {p reach : Nat} {answer : Answer α}
    (h : Yields g text ref skip guard p answer reach) :
    Within text p (landing p answer) reach := by
  match h with
  | .zeroLength shape => exact .refl text p
  | .implicit shape rule => exact rule.within
  | .inProgress guarded mem => exact .refl text p
  | .enter guarded fresh body => exact body.within

theorem ShapeYields.within {shape : Shape} {name : Name} {skip : Ref} {guard : Guard}
    {p reach : Nat} {answer : Answer α}
    (h : ShapeYields g text shape name skip guard p answer reach) :
    Within text p (landing p answer) reach := by
  match h with
  | .leaf read => exact readLeaf_within read
  | .sequence all => exact all.within (Nat.le_refl p)
  | .sequenceFails one => exact one.within (Nat.le_refl p)
  | .junction first => exact first.within
  | .junctionFails failed => exact failed.within
  | .multiple rounds found => exact rounds.within (Nat.le_refl p)
  | .multipleFails rounds => exact ⟨Nat.le_max_left _ _, (rounds.within (Nat.le_refl p)).reach_le⟩
  | .option present => exact present.within
  | .star present => exact present.within
  | .optionAbsent absent => exact absent.within
  | .starAbsent absent => exact absent.within

theorem SkipYields.within {skip : Ref} {guard : Guard} {first : Bool} {p q reach : Nat}
    (h : SkipYields (α := α) g text skip guard first p q reach) : Within text p q reach := by
  match h with
  | .first => exact .refl text p
  | .between skipped => exact skipped.within

theorem MembersYield.within {skip : Ref} {guard : Guard} {first : Bool} {p stop reach : Nat}
    {members : List Ref} {result : Option (Nat × List (Token α))}
    (h : MembersYield g text skip guard first p stop members result reach) (hstop : stop ≤ p) :
    Within text p ((result.map Prod.fst).getD p) reach := by
  match h with
  | .nil => exact (Within.refl text p).of_le hstop
  | .fails skipped failed => exact (skipped.within.trans failed.within skipped.le.2).of_le (Nat.le_refl p)
  | .cons skipped matched later =>
    have hp := skipped.le
    have hq := matched.advances
    refine skipped.within.trans (matched.within.trans (later.within ?_) hq.2.1) hp.2
    have := hq.1
    split <;> omega
  | .laterFails skipped matched later =>
    have hp := skipped.le
    have hq := matched.advances
    refine (skipped.within.trans (matched.within.trans (later.within ?_) hq.2.1) hp.2).of_le
      (Nat.le_refl p)
    have := hq.1
    split <;> omega

theorem AlternativesYield.within {skip : Ref} {guard : Guard} {p ordinal reach : Nat}
    {members : List Ref} {answer : Option (Nat × Token α × Nat)}
    (h : AlternativesYield g text skip guard p ordinal members answer reach) :
    Within text p (landing p (answer.map Prod.snd)) reach := by
  match h with
  | .nil => exact .refl text p
  | .inProgress mem later => exact later.within
  | .matched fresh matched => exact matched.within
  | .failed fresh failed later => exact failed.within.trans later.within id

theorem RoundsYield.within {skip inner : Ref} {guard : Guard} {first afterEmpty : Bool}
    {p stop reach : Nat} {result : Nat × List (Token α)}
    (h : RoundsYield g text skip guard inner first p stop afterEmpty result reach)
    (hstop : stop ≤ p) : Within text p result.1 reach := by
  match h with
  | .fails skipped failed => exact (skipped.within.trans failed.within skipped.le.2).of_le hstop
  | .secondEmpty skipped matched empty =>
    exact (skipped.within.trans matched.within skipped.le.2).of_le hstop
  | .empty skipped matched empty later =>
    have hp := skipped.le
    have hq := matched.advances
    refine skipped.within.trans (matched.within.trans (later.within ?_) hq.2.1) hp.2
    exact Nat.le_trans hstop (Nat.le_trans hp.1 hq.1)
  | .covers skipped matched covers later =>
    have hq := matched.advances
    exact skipped.within.trans (matched.within.trans (later.within (Nat.le_refl _)) hq.2.1)
      skipped.le.2

end

/-! ### Texts that begin alike -/

theorem AgreesUpTo.slice_eq {p stop reach : Nat} (h : AgreesUpTo reach text text')
    (hstop : stop ≤ max p (reach + 1)) : slice text' p stop = slice text p stop := by
  rw [slice, slice]
  congr 1
  apply List.ext_getElem?
  intro i
  rw [List.getElem?_drop, List.getElem?_drop]
  by_cases hlt : p + i < stop
  · rw [List.getElem?_take_of_lt hlt, List.getElem?_take_of_lt hlt]
    exact h _ (by omega)
  · rw [List.getElem?_take_eq_none (by omega), List.getElem?_take_eq_none (by omega)]

theorem le_lookAhead (code : Nat) (codes : List Nat) (p : Nat) (rest : List Char) :
    p ≤ lookAhead p (code :: codes) rest := by
  cases rest with
  | nil => exact Nat.le_refl p
  | cons c rest =>
    rw [lookAhead]
    split
    · exact Nat.le_max_left _ _
    · exact Nat.le_refl p

theorem lookAhead_eq (codes : List Nat) {p : Nat}
    (h : AgreesUpTo (lookAhead p codes (text.drop p)) text text') :
    lookAhead p codes (text'.drop p) = lookAhead p codes (text.drop p) := by
  induction codes generalizing p with
  | nil => rfl
  | cons code codes ih =>
    have hp := h p (le_lookAhead code codes p _)
    cases hchar : text[p]? with
    | none =>
      rw [hchar] at hp
      rw [List.drop_eq_nil_iff.mpr (List.getElem?_eq_none_iff.mp hchar),
        List.drop_eq_nil_iff.mpr (List.getElem?_eq_none_iff.mp hp)]
    | some c =>
      rw [hchar] at hp
      obtain ⟨hlt, rfl⟩ := List.getElem?_eq_some_iff.mp hchar
      obtain ⟨hlt', hc⟩ := List.getElem?_eq_some_iff.mp hp
      rw [List.drop_eq_getElem_cons hlt] at h ⊢
      rw [List.drop_eq_getElem_cons hlt', hc]
      simp only [lookAhead] at h ⊢
      split
      · rename_i hcode
        rw [if_pos hcode] at h
        rw [ih (h.mono (Nat.le_max_right _ _))]
      · rfl

theorem prefix_of_agreesUpTo (literal : List Char) {p : Nat}
    (h : AgreesUpTo (lookAhead p (literal.map Char.toNat) (text.drop p)) text text') :
    literal <+: text'.drop p ↔ literal <+: text.drop p := by
  induction literal generalizing p with
  | nil => simp
  | cons c literal ih =>
    have hp := h p (le_lookAhead c.toNat (literal.map Char.toNat) p _)
    cases hchar : text[p]? with
    | none =>
      rw [hchar] at hp
      rw [List.drop_eq_nil_iff.mpr (List.getElem?_eq_none_iff.mp hchar),
        List.drop_eq_nil_iff.mpr (List.getElem?_eq_none_iff.mp hp)]
    | some c' =>
      rw [hchar] at hp
      obtain ⟨hlt, rfl⟩ := List.getElem?_eq_some_iff.mp hchar
      obtain ⟨hlt', hc⟩ := List.getElem?_eq_some_iff.mp hp
      rw [List.drop_eq_getElem_cons hlt] at h ⊢
      rw [List.drop_eq_getElem_cons hlt', hc, List.cons_prefix_cons, List.cons_prefix_cons]
      refine and_congr_right fun heq => ih (h.mono ?_)
      simp only [List.map_cons, lookAhead, heq, if_true]
      exact Nat.le_max_right _ _

theorem readLeaf_of_agreesUpTo {shape : Shape} {name : Name} {p reach : Nat} {answer : Answer α}
    (h : readLeaf text name p shape = some (answer, reach)) (hagree : AgreesUpTo reach text text') :
    readLeaf text' name p shape = some (answer, reach) := by
  cases shape <;> simp only [readLeaf, Option.some.injEq, Prod.mk.injEq, reduceCtorEq] at h ⊢
  case switch ranges | anyCharacter =>
    obtain ⟨rfl, rfl⟩ := h
    exact ⟨by rw [readClass, readClass, hagree p (Nat.le_refl p)], rfl⟩
  case character literal =>
    obtain ⟨rfl, rfl⟩ := h
    exact ⟨by rw [readCharacter, readCharacter, hagree p (Nat.le_refl p)], rfl⟩
  case text literal =>
    obtain ⟨rfl, rfl⟩ := h
    refine ⟨?_, lookAhead_eq _ hagree⟩
    simp only [readText, prefix_of_agreesUpTo _ hagree]
  case oddCharacter => exact h
  case oddText =>
    obtain ⟨rfl, rfl⟩ := h
    exact ⟨rfl, lookAhead_eq _ hagree⟩

theorem AgreesUpTo.spanning_eq {p stop reach : Nat} (h : AgreesUpTo reach text text')
    (hwithin : Within text p stop reach) (kind : Kind) (name : Name) (tokens : List (Token α)) :
    Token.spanning kind name text' p stop tokens = Token.spanning kind name text p stop tokens := by
  rw [Token.spanning, Token.spanning, h.slice_eq hwithin.stop_le]

mutual

theorem Yields.of_agreesUpTo {ref skip : Ref} {guard : Guard} {p reach : Nat} {answer : Answer α}
    (h : Yields g text ref skip guard p answer reach) (hagree : AgreesUpTo reach text text') :
    Yields g text' ref skip guard p answer reach := by
  match h with
  | .zeroLength shape => exact .zeroLength shape
  | .implicit shape rule => exact .implicit shape (rule.of_agreesUpTo hagree)
  | .inProgress guarded mem => exact .inProgress guarded mem
  | .enter guarded fresh body => exact .enter guarded fresh (body.of_agreesUpTo hagree)

theorem ShapeYields.of_agreesUpTo {shape : Shape} {name : Name} {skip : Ref} {guard : Guard}
    {p reach : Nat} {answer : Answer α}
    (h : ShapeYields g text shape name skip guard p answer reach)
    (hagree : AgreesUpTo reach text text') :
    ShapeYields g text' shape name skip guard p answer reach := by
  match h with
  | .leaf read => exact .leaf (readLeaf_of_agreesUpTo read hagree)
  | .sequence all =>
    have hwithin := all.within (Nat.le_refl p)
    simp only [Option.map_some, Option.getD_some] at hwithin
    rw [← hagree.spanning_eq hwithin]
    exact .sequence (all.of_agreesUpTo hagree)
  | .sequenceFails one => exact .sequenceFails (one.of_agreesUpTo hagree)
  | .junction first => exact .junction (first.of_agreesUpTo hagree)
  | .junctionFails failed => exact .junctionFails (failed.of_agreesUpTo hagree)
  | .multiple rounds found =>
    rw [← hagree.spanning_eq (rounds.within (Nat.le_refl p))]
    exact .multiple (rounds.of_agreesUpTo hagree) found
  | .multipleFails rounds => exact .multipleFails (rounds.of_agreesUpTo hagree)
  | .option present => exact .option (present.of_agreesUpTo hagree)
  | .star present => exact .star (present.of_agreesUpTo hagree)
  | .optionAbsent absent => exact .optionAbsent (absent.of_agreesUpTo hagree)
  | .starAbsent absent => exact .starAbsent (absent.of_agreesUpTo hagree)

theorem SkipYields.of_agreesUpTo {skip : Ref} {guard : Guard} {first : Bool} {p q reach : Nat}
    (h : SkipYields (α := α) g text skip guard first p q reach)
    (hagree : AgreesUpTo reach text text') :
    SkipYields (α := α) g text' skip guard first p q reach := by
  match h with
  | .first => exact .first
  | .between skipped => exact .between (skipped.of_agreesUpTo hagree)

theorem MembersYield.of_agreesUpTo {skip : Ref} {guard : Guard} {first : Bool}
    {p stop reach : Nat} {members : List Ref} {result : Option (Nat × List (Token α))}
    (h : MembersYield g text skip guard first p stop members result reach)
    (hagree : AgreesUpTo reach text text') :
    MembersYield g text' skip guard first p stop members result reach := by
  match h with
  | .nil => exact .nil
  | .fails skipped failed =>
    exact .fails (skipped.of_agreesUpTo (hagree.mono (by omega)))
      (failed.of_agreesUpTo (hagree.mono (by omega)))
  | .cons skipped matched later =>
    exact .cons (skipped.of_agreesUpTo (hagree.mono (by omega)))
      (matched.of_agreesUpTo (hagree.mono (by omega)))
      (later.of_agreesUpTo (hagree.mono (by omega)))
  | .laterFails skipped matched later =>
    exact .laterFails (skipped.of_agreesUpTo (hagree.mono (by omega)))
      (matched.of_agreesUpTo (hagree.mono (by omega)))
      (later.of_agreesUpTo (hagree.mono (by omega)))

theorem AlternativesYield.of_agreesUpTo {skip : Ref} {guard : Guard} {p ordinal reach : Nat}
    {members : List Ref} {answer : Option (Nat × Token α × Nat)}
    (h : AlternativesYield g text skip guard p ordinal members answer reach)
    (hagree : AgreesUpTo reach text text') :
    AlternativesYield g text' skip guard p ordinal members answer reach := by
  match h with
  | .nil => exact .nil
  | .inProgress mem later => exact .inProgress mem (later.of_agreesUpTo hagree)
  | .matched fresh matched => exact .matched fresh (matched.of_agreesUpTo hagree)
  | .failed fresh failed later =>
    exact .failed fresh (failed.of_agreesUpTo (hagree.mono (by omega)))
      (later.of_agreesUpTo (hagree.mono (by omega)))

theorem RoundsYield.of_agreesUpTo {skip inner : Ref} {guard : Guard} {first afterEmpty : Bool}
    {p stop reach : Nat} {result : Nat × List (Token α)}
    (h : RoundsYield g text skip guard inner first p stop afterEmpty result reach)
    (hagree : AgreesUpTo reach text text') :
    RoundsYield g text' skip guard inner first p stop afterEmpty result reach := by
  match h with
  | .fails skipped failed =>
    exact .fails (skipped.of_agreesUpTo (hagree.mono (by omega)))
      (failed.of_agreesUpTo (hagree.mono (by omega)))
  | .secondEmpty skipped matched empty =>
    exact .secondEmpty (skipped.of_agreesUpTo (hagree.mono (by omega)))
      (matched.of_agreesUpTo (hagree.mono (by omega))) empty
  | .empty skipped matched empty later =>
    exact .empty (skipped.of_agreesUpTo (hagree.mono (by omega)))
      (matched.of_agreesUpTo (hagree.mono (by omega))) empty
      (later.of_agreesUpTo (hagree.mono (by omega)))
  | .covers skipped matched covers later =>
    exact .covers (skipped.of_agreesUpTo (hagree.mono (by omega)))
      (matched.of_agreesUpTo (hagree.mono (by omega))) covers
      (later.of_agreesUpTo (hagree.mono (by omega)))

end

/-! ### Verdicts -/

theorem Verdict.atEnd_eq_refused {text : String} {root : Token α} {stop furthest position : Nat}
    {complaint : String → Complaint}
    (h : atEnd text root stop furthest = .refused complaint position) :
    stop < text.toList.length ∧ complaint = .unexpectedTrailing ∧ position = max stop furthest := by
  unfold atEnd at h
  split at h
  · rename_i hlt
    cases h
    exact ⟨hlt, rfl, rfl⟩
  · cases h

namespace Grammar

variable {σ : Type} {gr : Grammar σ α} {text text' : String} {complaint : String → Complaint}
  {position : Nat}

/-- A text is refused for one of two reasons. -/
theorem Decides.kind (h : gr.Decides text (.refused complaint position)) :
    complaint = .unexpectedInput ∨ complaint = .unexpectedTrailing := by
  generalize hverdict : Verdict.refused (α := α) complaint position = verdict at h
  cases h with
  | fails => cases hverdict; exact .inl rfl
  | «matches» => exact .inr (Verdict.atEnd_eq_refused hverdict.symm).2.1

/-- A text is refused somewhere within it, or at its end. -/
theorem Decides.position_le (h : gr.Decides text (.refused complaint position)) :
    position ≤ text.toList.length := by
  have hzero : 0 ≤ text.toList.length := Nat.zero_le _
  generalize hverdict : Verdict.refused (α := α) complaint position = verdict at h
  cases h with
  | fails skipped failed =>
    cases hverdict
    have hp := skipped.advances.landing_between.2
    exact (skipped.within.trans failed.within hp).reach_le hzero
  | «matches» skipped matched skipped' =>
    obtain ⟨hlt, -, rfl⟩ := Verdict.atEnd_eq_refused hverdict.symm
    have hp := skipped.advances.landing_between.2
    have hq := matched.advances.2.1
    have hall := (skipped.within.trans matched.within hp).trans skipped'.within fun h => hq (hp h)
    exact Nat.max_le.mpr ⟨Nat.le_of_lt hlt, hall.reach_le hzero⟩

/-- A text that begins with the same characters, that of the error included, is refused at the same
    place for the same reason. -/
theorem Decides.of_agreesUpTo (h : gr.Decides text (.refused complaint position))
    (hlt : position < text.toList.length)
    (hagree : AgreesUpTo position text.toList text'.toList) :
    gr.Decides text' (.refused complaint position) := by
  generalize hverdict : Verdict.refused (α := α) complaint position = verdict at h
  cases h with
  | fails skipped failed =>
    cases hverdict
    exact .fails (skipped.of_agreesUpTo (hagree.mono (by omega)))
      (failed.of_agreesUpTo (hagree.mono (by omega)))
  | @«matches» answer answer' root q reach reach' reach'' skipped matched skipped' =>
    obtain ⟨hmore, rfl, rfl⟩ := Verdict.atEnd_eq_refused hverdict.symm
    have hmore' : landing q answer' < text'.toList.length := by
      have hchar := hagree (landing q answer') (Nat.le_max_left _ _)
      rw [List.getElem?_eq_getElem hmore] at hchar
      exact (List.getElem?_eq_some_iff.mp hchar).1
    have hcomes : gr.Decides text' _ := .matches
      (skipped.of_agreesUpTo (hagree.mono (by omega)))
      (matched.of_agreesUpTo (hagree.mono (by omega)))
      (skipped'.of_agreesUpTo (hagree.mono (by omega)))
    rw [← hverdict]
    rwa [Verdict.atEnd, if_pos hmore'] at hcomes

end Grammar

/-! ### Messages -/

/-- Texts that differ at some place begin differently, whatever comes behind. -/
theorem append_ne_append {a b : String} (i : Nat) (ha : i < a.toList.length)
    (hb : i < b.toList.length) (h : a.toList[i]? ≠ b.toList[i]?) (x y : String) :
    a ++ x ≠ b ++ y := by
  intro heq
  have hchar := congrArg (fun s : String => s.toList[i]?) heq
  simp only [String.toList_append] at hchar
  rw [List.getElem?_append_left ha, List.getElem?_append_left hb] at hchar
  exact h hchar

/-- The message tells for which of the two reasons a text is refused. -/
theorem eq_of_message {complaint complaint' : String → Complaint} {context context' : String}
    (hkind : complaint = .unexpectedInput ∨ complaint = .unexpectedTrailing)
    (hkind' : complaint' = .unexpectedInput ∨ complaint' = .unexpectedTrailing)
    (h : (complaint context).message = (complaint' context').message) : complaint = complaint' := by
  have hne := append_ne_append (a := "Unexpected input: ") (b := "Unexpected trailing input: ") 11
    (by decide) (by decide) (by decide)
  rcases hkind with rfl | rfl <;> rcases hkind' with rfl | rfl
  · rfl
  · exact absurd h (hne context context')
  · exact absurd h.symm (hne context' context)
  · rfl

theorem message_ne_nestedTooDeeply {complaint : String → Complaint} {context context' : String}
    (hkind : complaint = .unexpectedInput ∨ complaint = .unexpectedTrailing) :
    (Complaint.nestedTooDeeply context').message ≠ (complaint context).message := by
  rcases hkind with rfl | rfl
  all_goals exact append_ne_append 0 (by decide) (by decide) (by decide) _ _

/-! ### Where a text became hopeless -/

/-- The parse is refused for this reason, at this position and location. -/
def RefusedAt {β : Type} (complaint : String → Complaint) (position : Int) (location : Int × Int)
    (result : Except Error β) : Prop :=
  ∃ e context, result = .error (.parse e) ∧ e.complaint = complaint context ∧
    e.position = position ∧ e.location = some location

namespace Grammar

variable {σ : Type} [PayloadType α] {gr : Grammar σ α} {text : String} {limit : Nat}
  {complaint : String → Complaint} {position : Nat}

/-- A text that the rules refuse is refused, with nesting apart. -/
theorem parse_of_decides (h : gr.Decides text (.refused complaint position)) (state : σ) :
    (∀ limit, RefusedAt complaint position (whereabouts text.toList position)
        (gr.parse limit text state).result ∨
      ∃ e, (gr.parse limit text state).result = .error e ∧ e.IsTooDeep) ∧
    ∃ enough, ∀ limit, enough ≤ limit →
      RefusedAt complaint position (whereabouts text.toList position)
        (gr.parse limit text state).result := by
  -- A parse that comes to the verdict gives the error.
  have hrefused : ∀ limit, (gr.parseTree limit text state).result =
      .error (.parse (refusal text.toList.toArray complaint position)) →
        RefusedAt complaint position (whereabouts text.toList position)
          (gr.parse limit text state).result := by
    intro limit hresult
    refine ⟨_, _, parse_of_parseTree_error hresult, rfl, rfl, ?_⟩
    rw [refusal, locate_natCast]
  refine ⟨fun limit => ?_, ?_⟩
  · rcases h.parseTree_or limit state with ⟨hresult, -⟩ | ⟨e, hresult, hdeep⟩
    · exact .inl (hrefused limit hresult)
    · exact .inr ⟨e, parse_of_parseTree_error hresult, hdeep⟩
  · obtain ⟨enough, henough⟩ := Filter.eventually_atTop.mp h.eventually
    exact ⟨enough, fun limit hlimit =>
      hrefused limit (parseTree_of_isOf (henough limit hlimit) state).1⟩

/-- The text was matched, and the error comes of the walk of its tree: a listener refused what it was
    given, and all that was added is the location, if there was none. -/
def RaisedInWalk (gr : Grammar σ α) (limit : Nat) (text : String) (state : σ) (e : ParseError) :
    Prop :=
  ∃ root s cause visit, gr.matchInput limit (.beginning text) = .ok root s ∧
    root.walk gr.listenerFor state = .error (.parse cause) visit ∧
    e = { cause with
      location := some (cause.location.getD (locate text.toList.toArray cause.position)) }

/-- An error in the input is none of the payload, so there was no tree. -/
theorem parseTree_of_parse_error {e : ParseError} {state : σ}
    (h : (gr.parse limit text state).result = .error (.parse e)) :
    (gr.parseTree limit text state).result = .error (.parse e) := by
  simp only [parse, Outcome.bind] at h
  cases htree : (gr.parseTree limit text state).result with
  | error e' =>
    rw [htree] at h
    cases h
    rfl
  | ok t =>
    rw [htree] at h
    cases Token.eq_of_payload_error h

/-- Where a text was matched, an error in the input comes of the walk, unless that went too deep. -/
theorem raisedInWalk_of_settle {root : Token α} {s : MatchState} {e : ParseError} {state : σ}
    (hmatch : gr.matchInput limit (.beginning text) = .ok root s)
    (h : (gr.settle text state (.accepted root)).1 = .error (.parse e))
    (hdeep : ¬ (Error.parse e).IsTooDeep) : gr.RaisedInWalk limit text state e := by
  simp only [settle] at h
  cases hwalk : root.walk gr.listenerFor state with
  | ok value visit =>
    rw [hwalk] at h
    cases h
  | error e' visit =>
    rw [hwalk] at h
    cases e' with
    | parse cause =>
      cases h
      exact ⟨root, s, cause, visit, hmatch, hwalk, rfl⟩
    | nestedTooDeeply =>
      cases h
      exact absurd ⟨_, rfl⟩ hdeep
    | _ => cases h

/-- A parse that is refused is refused by the rules, or the error comes of the walk. -/
theorem decides_of_parse {e : ParseError} {context : String} {state : σ}
    (hkind : complaint = .unexpectedInput ∨ complaint = .unexpectedTrailing)
    (h : (gr.parse limit text state).result = .error (.parse e))
    (hmessage : e.complaint.message = (complaint context).message) :
    gr.RaisedInWalk limit text state e ∨
      ∃ position : Nat, gr.Decides text (.refused complaint position) ∧
        e = refusal text.toList.toArray complaint position := by
  have hdeep : ¬ (Error.parse e).IsTooDeep := by
    rintro ⟨context', he⟩
    rw [he] at hmessage
    exact message_ne_nestedTooDeeply hkind hmessage
  have hresult := parseTree_of_parse_error h
  -- The matching came to a verdict, or it was lost on the way.
  rcases matchInput_obeys gr limit text with ⟨verdict, hdecides, hof⟩ | ⟨e', s, hrun, hlost⟩
  · rw [(parseTree_of_isOf hof state).1] at hresult
    cases verdict with
    | refused complaint' position =>
      cases hresult
      obtain rfl := eq_of_message hdecides.kind hkind hmessage
      exact .inr ⟨position, hdecides, rfl⟩
    | accepted root =>
      obtain ⟨s, hmatch, -⟩ := hof
      exact .inl (raisedInWalk_of_settle hmatch hresult hdeep)
  · rw [(parseTree_of_error hrun state).1] at hresult
    cases hresult
    rcases hlost with hfatal | hdeep'
    · cases hfatal
    · exact absurd hdeep' hdeep

/-- The position of an error is where the input became hopeless. Where a text is refused, for input
    or trailing input that is not expected, the position is within the text or at its end, and the
    location is that of the position. If the position is within the text, every text that begins
    with the same characters, the one at that position included, is refused in the same way at the
    same place: no character behind it had any influence. An error with such a message can also be
    one of a listener, where the text was matched and the tree is walked: it is what the listener
    made it. -/
theorem parse_hopeless {e : ParseError} {context : String} {state : σ}
    (hkind : complaint = .unexpectedInput ∨ complaint = .unexpectedTrailing)
    (h : (gr.parse limit text state).result = .error (.parse e))
    (hmessage : e.complaint.message = (complaint context).message) :
    gr.RaisedInWalk limit text state e ∨
      ∃ position : Nat, e.position = position ∧ position ≤ text.toList.length ∧
        e.location = some (whereabouts text.toList position) ∧
        (position < text.toList.length → ∀ text' : String,
          text'.toList.take (position + 1) = text.toList.take (position + 1) → ∀ state' : σ,
          (∀ limit', RefusedAt complaint position (whereabouts text.toList position)
              (gr.parse limit' text' state').result ∨
            ∃ e', (gr.parse limit' text' state').result = .error e' ∧ e'.IsTooDeep) ∧
          ∃ enough, ∀ limit', enough ≤ limit' →
            RefusedAt complaint position (whereabouts text.toList position)
              (gr.parse limit' text' state').result) := by
  refine (decides_of_parse hkind h hmessage).imp_right ?_
  rintro ⟨position, hdecides, rfl⟩
  refine ⟨position, rfl, hdecides.position_le, ?_, fun hlt text' htake state' => ?_⟩
  · rw [refusal, locate_natCast]
  · have hplace : whereabouts text.toList position = whereabouts text'.toList position := by
      refine whereabouts_of_take_eq ?_
      have := congrArg (List.take position) htake
      simpa [List.take_take] using this.symm
    rw [hplace]
    exact parse_of_decides (hdecides.of_agreesUpTo hlt (.of_take_eq htake)) state'

/-- A list is over where a mark stands that is neither an item nor a blank, whatever comes behind
    it. -/
theorem parse_hopeless_lists :
    (∃ e, (lists.parse 50 "x? x" ()).result = .error (.parse e) ∧ e.position = 1) ∧
      ∃ enough, ∀ limit, enough ≤ limit →
        RefusedAt .unexpectedTrailing 1 (1, 2) (lists.parse limit "x?xx" ()).result := by
  have hparses : (parseError? (lists.parse 50 "x? x" ()).result).any (fun e =>
      e.complaint = .unexpectedTrailing "x\x7b?\x7d x" ∧ e.position = 1) = true := by
    decide +kernel
  have hrefused : ((lists.matchInput 50).run' (.beginning "x? x")).isSome = false := by
    decide +kernel
  obtain ⟨e, hresult, hfound⟩ := of_parseError? hparses
  obtain ⟨hcomplaint, hposition⟩ := of_decide_eq_true hfound
  refine ⟨⟨e, hresult, hposition⟩, ?_⟩
  rcases parse_hopeless (.inr rfl) hresult (congrArg Complaint.message hcomplaint) with
    ⟨root, s, cause, visit, hmatch, -⟩ | ⟨position, hp, -, -, hall⟩
  · rw [Step.run'_of_ok hmatch] at hrefused
    cases hrefused
  · obtain rfl : position = 1 := by omega
    exact (hall (by decide) "x?xx" (by decide) ()).2

/-- Lines, where the listener parses a list of its own and lets the error out. -/
def relaying : Grammar Unit Unit where
  ruleSet := ⟨⟨#[⟨.given "line", .text "\na"⟩, ⟨.given "blank", .character ' '⟩]⟩,
    ⟨[("line", .node 0), ("blank", .node 1)]⟩⟩
  listeners := ⟨[("line", .ofStep fun _ state => do
    return (← (lists.parse 50 "x? x" ()).result, state))]⟩
  start := "line"
  skip := "blank"
  hasStart := by decide
  hasSkip := by decide

/-- An error that a listener lets out of another parse says where that text became hopeless. Here it
    is at a position which is on another line of the text at hand, and with one character more the
    text at hand is refused at another position. -/
theorem parse_relayed_misplaced :
    (∃ e, (relaying.parse 50 "\na" ()).result = .error (.parse e) ∧
      e.complaint.message = "Unexpected trailing input: x\x7b?\x7d x" ∧ e.position = 1 ∧
      e.location ≠ some (whereabouts "\na".toList 1)) ∧
    ∃ e, (relaying.parse 50 "\nab" ()).result = .error (.parse e) ∧ e.position = 2 := by
  have hline : (parseError? (relaying.parse 50 "\na" ()).result).any (fun e =>
      e.complaint.message = "Unexpected trailing input: x\x7b?\x7d x" ∧ e.position = 1 ∧
        e.location ≠ some (whereabouts "\na".toList 1)) = true := by
    decide +kernel
  have hmore : (parseError? (relaying.parse 50 "\nab" ()).result).any (fun e =>
      e.position = 2) = true := by
    decide +kernel
  obtain ⟨e, hresult, he⟩ := of_parseError? hline
  obtain ⟨e', hresult', he'⟩ := of_parseError? hmore
  exact ⟨⟨e, hresult, of_decide_eq_true he⟩, e', hresult', of_decide_eq_true he'⟩

end Grammar

end GrammarEngine
