import GrammarEngine.Proofs.Landing

namespace GrammarEngine

/-!
# Limits on matching

A limit makes no difference to a match that does not come up against it.

* `Ask.AgreesUnless` — two ways of matching symbols agree, unless the first one ends with a certain
  error;
* `matchStep_agrees` — then so do the symbols that are made of them;
* `matchWithin_agrees` — matching with a higher limit on nested matches;
* `matchWithRoom` — matching with a limit on the matches in progress as well.
-/

open MatchM

variable {α : Type} {g : Graph} {e : Error} {ask ask' : Ask α} {name : Name} {skip : Ref}

/-- Whatever symbol is asked for, the two agree unless the first one ends with the error. -/
def Ask.AgreesUnless (e : Error) (ask ask' : Ask α) : Prop :=
  ∀ ref skip, GrammarEngine.AgreesUnless e (ask ref skip) (ask' ref skip)

/-! ### The loops -/

theorem skipBefore_agrees (h : ask.AgreesUnless e ask') (found : List (Token α)) :
    AgreesUnless e (skipBefore ask skip found) (skipBefore ask' skip found) := by
  unfold skipBefore
  split
  · exact .bind (h skip .zeroLength) fun _ => .refl _
  · exact .refl _

theorem matchMembers_agrees (h : ask.AgreesUnless e ask') (members : List Ref) (stop : Int)
    (found : List (Token α)) :
    AgreesUnless e (matchMembers ask skip stop found members)
      (matchMembers ask' skip stop found members) := by
  induction members generalizing stop found with
  | nil => exact .refl _
  | cons member members ih =>
    unfold matchMembers
    refine .bind (skipBefore_agrees h found) fun _ => .bind (h member skip) fun token? => ?_
    cases token? with
    | none => exact .refl _
    | some token =>
      cases hempty : token.isEmpty
      all_goals
        simp only [hempty, if_true, Bool.false_eq_true, if_false]
        exact .bind (.refl _) fun stop => ih stop (token :: found)

theorem matchAlternatives_agrees (h : ask.AgreesUnless e ask') (members : List Ref) (start : Int)
    (ordinal : Nat) :
    AgreesUnless e (matchAlternatives g ask skip start ordinal members)
      (matchAlternatives g ask' skip start ordinal members) := by
  induction members generalizing ordinal with
  | nil => exact .refl _
  | cons member members ih =>
    unfold matchAlternatives
    refine .bind (.refl _) fun inProgress => ?_
    cases inProgress with
    | true => exact ih (ordinal + 1)
    | false =>
      refine .bind (h member skip) fun token? => ?_
      cases token? with
      | none => exact ih (ordinal + 1)
      | some token => exact .refl _

theorem matchRounds_agrees (h : ask.AgreesUnless e ask') (inner : Ref) (rounds : Nat) (stop : Int)
    (afterEmpty : Bool) (found : List (Token α)) :
    AgreesUnless e (matchRounds ask skip inner rounds stop afterEmpty found)
      (matchRounds ask' skip inner rounds stop afterEmpty found) := by
  induction rounds generalizing stop afterEmpty found with
  | zero => exact .refl _
  | succ rounds ih =>
    unfold matchRounds
    refine .bind (skipBefore_agrees h found) fun _ => .bind (h inner skip) fun token? => ?_
    cases token? with
    | none => exact .refl _
    | some token =>
      simp only
      split
      · exact .bind (.refl _) fun stop => ih stop false (token :: found)
      · split
        · exact .refl _
        · exact ih stop true (token :: found)

/-! ### Symbols -/

theorem shapeBody_agrees (h : ask.AgreesUnless e ask') (shape : Shape) :
    AgreesUnless e (shapeBody g ask name skip shape) (shapeBody g ask' name skip shape) := by
  cases shape with
  | sequence members =>
    refine .bind (.refl _) fun start => .bind (.refl _) fun _ =>
      .bind (matchMembers_agrees h members start []) fun result? => ?_
    exact .refl _
  | junction members =>
    refine .bind (.refl _) fun start =>
      .bind (matchAlternatives_agrees h members start 0) fun result? => ?_
    exact .refl _
  | multiple inner =>
    refine .bind (.refl _) fun start => .bind (.refl _) fun s =>
      .bind (matchRounds_agrees h inner _ start false []) fun result => ?_
    exact .refl _
  | option inner => exact .bind (h inner skip) fun token? => .refl _
  | star repetition => exact .bind (h repetition skip) fun token? => .refl _
  | _ => exact .refl _

/-- The guard lets through every error but running out of text. -/
theorem guarded_agrees {body body' : MatchM (Option (Token α))} (he : ∀ cause, e ≠ .exhausted cause)
    (h : AgreesUnless e body body') : AgreesUnless e (guarded name body) (guarded name body') := by
  intro s
  unfold guarded
  simp only
  split
  · exact .inl rfl
  -- An error that is no end of text goes through the guard unchanged.
  · rcases h (s.enter (name, s.stream.position)) with heq | ⟨s', herror⟩
    · rw [heq]
      exact .inl rfl
    · rw [herror]
      cases e with
      | exhausted cause => exact absurd rfl (he cause)
      | _ => exact .inr ⟨_, rfl⟩

theorem matchStep_agrees (he : ∀ cause, e ≠ .exhausted cause) (h : ask.AgreesUnless e ask') :
    (matchStep g ask).AgreesUnless e (matchStep g ask') := by
  intro ref skip
  rcases (g.symbol ref).shape.guarded_or with
    hguarded | hundefined | ⟨target, himplicit⟩ | hzero | hforeign
  · rw [matchStep_guarded skip hguarded, matchStep_guarded skip hguarded]
    exact guarded_agrees he (shapeBody_agrees h _)
  · rw [matchStep_undefined hundefined, matchStep_undefined hundefined]
    exact .refl _
  · rw [matchStep_implicit himplicit, matchStep_implicit himplicit]
    exact h target skip
  · rw [matchStep_zeroLength hzero, matchStep_zeroLength hzero]
    exact .refl _
  · rw [matchStep_foreign hforeign, matchStep_foreign hforeign]
    exact .refl _

/-! ### Limits -/

/-- With a higher limit on nested matches, a match that is not nested too deeply is the same. -/
theorem matchWithin_agrees (g : Graph) {limit limit' : Nat} (hlimit : limit ≤ limit') :
    (matchWithin (α := α) g limit).AgreesUnless .nestedTooDeeply (matchWithin g limit') := by
  induction limit generalizing limit' with
  | zero => exact fun ref skip => .throw _
  | succ limit ih =>
    -- The higher limit is not zero either.
    obtain ⟨limit', rfl⟩ := Nat.exists_eq_succ_of_ne_zero (Nat.ne_zero_of_lt hlimit)
    exact matchStep_agrees (by simp) (ih (Nat.le_of_succ_le_succ hlimit))

/-- Match a symbol with room for so many matches in progress at a time: one more overflows. -/
def withRoom (g : Graph) (room : Nat) (ask : Ask α) : Ask α := fun ref skip s =>
  if (g.symbol ref).shape.isGuarded = true ∧ room ≤ s.guard.length ∧
      ((g.symbol ref).name, s.stream.position) ∉ s.guard then
    .error .overflow s
  else ask ref skip s

/-- Match a symbol with at most `limit` matches nested in each other, and with room for so many
    matches in progress at a time. -/
def matchWithRoom (g : Graph) (room : Nat) : (limit : Nat) → Ask α
  | 0 => fun _ _ => throw .nestedTooDeeply
  | limit + 1 => withRoom g room (matchStep g (matchWithRoom g room limit))

/-- Where there is room enough, the room makes no difference. -/
theorem matchWithRoom_agrees (g : Graph) (room limit : Nat) :
    (matchWithRoom (α := α) g room limit).AgreesUnless .overflow (matchWithin g limit) := by
  induction limit with
  | zero => exact fun ref skip => .refl _
  | succ limit ih =>
    intro ref skip s
    unfold matchWithRoom withRoom
    split
    · exact .inr ⟨s, rfl⟩
    · exact matchStep_agrees (by simp) ih ref skip s

end GrammarEngine
