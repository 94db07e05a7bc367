import Mathlib.Order.Filter.AtTopBot.Basic
import GrammarEngine.Proofs.Obedience

namespace GrammarEngine

/-!
# What the rules say is found

A derivation by the rules is finite, so from some limit on the match does not get nested too deeply
to follow it.

* `SkipDelivers`, `MembersDeliver`, `AlternativesDeliver`, `RoundsDeliver` — skipping and the loops
  give one particular answer;
* `Yields.delivered` — from some limit on, a symbol gives the answer that the rules say.
-/

open MatchM Filter

variable {α : Type} {g : Graph} {text : List Char}

/-! ### From some limit on -/

theorem eventually_succ {P : Nat → Prop} (h : ∀ᶠ limit in atTop, P (limit + 1)) :
    ∀ᶠ limit in atTop, P limit := by
  obtain ⟨bound, hbound⟩ := eventually_atTop.mp h
  refine eventually_atTop.mpr ⟨bound + 1, fun limit hlimit => ?_⟩
  -- From the bound on there is a limit before.
  obtain ⟨limit, rfl⟩ := Nat.exists_eq_succ_of_ne_zero (by omega : limit ≠ 0)
  exact hbound limit (by omega)

section Deliver

variable (text : List Char) (guard : Guard) (first : Bool) (p stop : Nat) (reach : Nat)
  (ask : Ask α) (skip : Ref)

/-- Skipping comes to `q`. -/
def SkipDelivers (q : Nat) : Prop :=
  ∀ found s, found.isEmpty = first → Stands text guard p s →
    ∃ s', skipBefore ask skip found s = .ok () s' ∧ Lands text s s' q reach

/-- The members of a sequence give the result. -/
def MembersDeliver (members : List Ref) (result : Option (Nat × List (Token α))) : Prop :=
  stop ≤ p → ∀ found s, found.isEmpty = first → Stands text guard p s →
    ∃ s' q, matchMembers ask skip stop found members s =
        .ok (result.map fun r => ((r.1 : Int), r.2.reverse ++ found)) s' ∧
      (∀ r, result = some r → r.1 ≤ q) ∧ Lands text s s' q reach

/-- The alternatives give the result. -/
def AlternativesDeliver (g : Graph) (ordinal : Nat) (members : List Ref)
    (result : Option (Nat × Token α × Nat)) : Prop :=
  ∀ s, Stands text guard p s →
    ∃ s', matchAlternatives g ask skip p ordinal members s =
        .ok (result.map fun r => (r.1, r.2.1)) s' ∧
      Lands text s s' (landing p (result.map Prod.snd)) reach

/-- The rounds of a repetition, as soon as there are enough, give the result. -/
def RoundsDeliver (inner : Ref) (afterEmpty : Bool) (result : Nat × List (Token α)) : Prop :=
  stop ≤ p → ∀ rounds found s, EnoughRounds text p afterEmpty rounds → found.isEmpty = first →
    Stands text guard p s →
    ∃ s' q, matchRounds ask skip inner rounds stop afterEmpty found s =
        .ok ((result.1 : Int), result.2.reverse ++ found) s' ∧
      result.1 ≤ q ∧ (first = true → afterEmpty = false → result.2 = [] → q = p) ∧
      Lands text s s' q reach

end Deliver

section Loops

variable {guard : Guard} {first : Bool} {p q r stop reach₁ reach₂ reach₃ : Nat} {ask : Ask α}
  {skip member inner : Ref} {rest : List Ref} {token : Token α}

theorem SkipDelivers.atFirst : SkipDelivers text guard true p 0 ask skip p := by
  intro found s hfound hs
  obtain rfl := List.isEmpty_iff.mp hfound
  exact ⟨s, rfl, .refl hs⟩

theorem SkipDelivers.between {answer : Answer α}
    (hskip : Delivers text guard p answer reach₁ (ask skip .zeroLength)) :
    SkipDelivers text guard false p reach₁ ask skip (landing p answer) := by
  intro found s hfound hs
  obtain ⟨s', hrun, hlands⟩ := hskip s hs
  refine ⟨s', ?_, hlands⟩
  rw [skipBefore, hfound]
  exact Step.bind_ok hrun _

theorem MembersDeliver.nil :
    MembersDeliver text guard first p stop 0 ask skip [] (some (stop, [])) := by
  intro hstop found s hfound hs
  refine ⟨s, p, rfl, ?_, .refl hs⟩
  rintro _ ⟨⟩
  exact hstop

theorem MembersDeliver.fails (hskip : SkipDelivers text guard first p reach₁ ask skip q)
    (hfailed : Delivers text guard q none reach₂ (ask member skip)) :
    MembersDeliver text guard first p stop (max reach₁ reach₂) ask skip (member :: rest) none := by
  intro hstop found s hfound hs
  obtain ⟨s₁, hrun₁, hlands₁⟩ := hskip found s hfound hs
  obtain ⟨s₂, hrun₂, hlands₂⟩ := hfailed s₁ (hlands₁.stands hs)
  refine ⟨s₂, q, ?_, by simp, hlands₁.trans hlands₂⟩
  rw [matchMembers, Step.bind_ok hrun₁]
  exact Step.bind_ok hrun₂ _

/-- A member that matches, and then what comes of the others. -/
theorem MembersDeliver.matched {result : Option (Nat × List (Token α))}
    (hskip : SkipDelivers text guard first p reach₁ ask skip q)
    (hmatched : Delivers text guard q (some (token, r)) reach₂ (ask member skip))
    (hr : p ≤ r)
    (hlater : MembersDeliver text guard false r (if token.isEmpty then stop else r) reach₃ ask
      skip rest result) :
    MembersDeliver text guard first p stop (max reach₁ (max reach₂ reach₃)) ask skip
      (member :: rest) (result.map fun found => (found.1, token :: found.2)) := by
  intro hstop found s hfound hs
  obtain ⟨s₁, hrun₁, hlands₁⟩ := hskip found s hfound hs
  obtain ⟨s₂, hrun₂, hlands₂⟩ := hmatched s₁ (hlands₁.stands hs)
  have hlands : Lands text s s₂ r (max reach₁ reach₂) := hlands₁.trans hlands₂
  have hposition : s₂.stream.position = r := hlands₂.stream.reads.position
  -- An empty member leaves the end of the sequence where it was.
  have hnext : (if token.isEmpty then stop else r) ≤ r := by
    split <;> omega
  obtain ⟨s₃, q', hrun₃, hle, hlands₃⟩ := hlater hnext (token :: found) s₂ rfl (hlands.stands hs)
  refine ⟨s₃, q', ?_, ?_, hlands₁.trans (hlands₂.trans hlands₃)⟩
  · refine (matchMembers_matched hrun₁ hrun₂ hposition).trans (hrun₃.trans ?_)
    cases result <;> simp
  · cases result with
    | none => simp
    | some found' =>
      rintro _ ⟨⟩
      exact hle found' rfl

theorem AlternativesDeliver.inProgress {ordinal : Nat} {answer : Option (Nat × Token α × Nat)}
    (hmem : ((g.symbol member).name, (p : Int)) ∈ guard)
    (hlater : AlternativesDeliver text guard p reach₁ ask skip g (ordinal + 1) rest answer) :
    AlternativesDeliver text guard p reach₁ ask skip g ordinal (member :: rest) answer := by
  intro s hs
  obtain ⟨s', hrun, hlands⟩ := hlater s hs
  refine ⟨s', ?_, hlands⟩
  rw [matchAlternatives, isInProgress_bind, hs.guard_eq]
  simpa only [hmem, decide_true, if_true] using hrun

theorem AlternativesDeliver.matched {ordinal : Nat}
    (hfresh : ((g.symbol member).name, (p : Int)) ∉ guard)
    (hmatched : Delivers text guard p (some (token, stop)) reach₁ (ask member skip)) :
    AlternativesDeliver text guard p reach₁ ask skip g ordinal (member :: rest)
      (some (ordinal, token, stop)) := by
  intro s hs
  obtain ⟨s', hrun, hlands⟩ := hmatched s hs
  refine ⟨s', ?_, hlands⟩
  rw [matchAlternatives, isInProgress_bind, hs.guard_eq]
  simp only [hfresh, decide_false, Bool.false_eq_true, if_false]
  exact Step.bind_ok hrun _

theorem AlternativesDeliver.failed {ordinal : Nat} {answer : Option (Nat × Token α × Nat)}
    (hfresh : ((g.symbol member).name, (p : Int)) ∉ guard)
    (hfailed : Delivers text guard p none reach₁ (ask member skip))
    (hlater : AlternativesDeliver text guard p reach₂ ask skip g (ordinal + 1) rest answer) :
    AlternativesDeliver text guard p (max reach₁ reach₂) ask skip g ordinal (member :: rest)
      answer := by
  intro s hs
  obtain ⟨s₁, hrun₁, hlands₁⟩ := hfailed s hs
  obtain ⟨s₂, hrun₂, hlands₂⟩ := hlater s₁ (hlands₁.stands hs)
  refine ⟨s₂, ?_, hlands₁.trans hlands₂⟩
  rw [matchAlternatives, isInProgress_bind, hs.guard_eq]
  simp only [hfresh, decide_false, Bool.false_eq_true, if_false]
  exact (Step.bind_ok hrun₁ _).trans hrun₂

theorem RoundsDeliver.fails {afterEmpty : Bool}
    (hskip : SkipDelivers text guard first p reach₁ ask skip q) (hq : p ≤ q)
    (hfirst : first = true → q = p)
    (hfailed : Delivers text guard q none reach₂ (ask inner skip)) :
    RoundsDeliver text guard first p stop (max reach₁ reach₂) ask skip inner afterEmpty
      (stop, []) := by
  intro hstop rounds found s hrounds hfound hs
  obtain ⟨rounds, rfl⟩ := Nat.exists_eq_succ_of_ne_zero (Nat.pos_iff_ne_zero.mp hrounds.pos)
  obtain ⟨s₁, hrun₁, hlands₁⟩ := hskip found s hfound hs
  obtain ⟨s₂, hrun₂, hlands₂⟩ := hfailed s₁ (hlands₁.stands hs)
  exact ⟨s₂, q, matchRounds_fails hrun₁ hrun₂, Nat.le_trans hstop hq, fun h _ _ => hfirst h,
    hlands₁.trans hlands₂⟩

theorem RoundsDeliver.secondEmpty (hskip : SkipDelivers text guard first p reach₁ ask skip q)
    (hmatched : Delivers text guard q (some (token, r)) reach₂ (ask inner skip)) (hr : p ≤ r)
    (hempty : token.isEmpty = true) :
    RoundsDeliver text guard first p stop (max reach₁ reach₂) ask skip inner true (stop, []) := by
  intro hstop rounds found s hrounds hfound hs
  obtain ⟨rounds, rfl⟩ := Nat.exists_eq_succ_of_ne_zero (Nat.pos_iff_ne_zero.mp hrounds.pos)
  obtain ⟨s₁, hrun₁, hlands₁⟩ := hskip found s hfound hs
  obtain ⟨s₂, hrun₂, hlands₂⟩ := hmatched s₁ (hlands₁.stands hs)
  refine ⟨s₂, r, ?_, Nat.le_trans hstop hr, by simp, hlands₁.trans hlands₂⟩
  exact matchRounds_secondEmpty hrun₁ hrun₂ hempty

theorem RoundsDeliver.empty {result : Nat × List (Token α)}
    (hskip : SkipDelivers text guard first p reach₁ ask skip q)
    (hmatched : Delivers text guard q (some (token, r)) reach₂ (ask inner skip)) (hr : p ≤ r)
    (hempty : token.isEmpty = true)
    (hlater : RoundsDeliver text guard false r stop reach₃ ask skip inner true result) :
    RoundsDeliver text guard first p stop (max reach₁ (max reach₂ reach₃)) ask skip inner false
      (result.1, token :: result.2) := by
  intro hstop rounds found s hrounds hfound hs
  obtain ⟨rounds, rfl⟩ := Nat.exists_eq_succ_of_ne_zero (Nat.pos_iff_ne_zero.mp hrounds.pos)
  obtain ⟨s₁, hrun₁, hlands₁⟩ := hskip found s hfound hs
  obtain ⟨s₂, hrun₂, hlands₂⟩ := hmatched s₁ (hlands₁.stands hs)
  have hlands : Lands text s s₂ r (max reach₁ reach₂) := hlands₁.trans hlands₂
  obtain ⟨s₃, q', hrun₃, hle, -, hlands₃⟩ := hlater (Nat.le_trans hstop hr) rounds (token :: found)
    s₂ (hrounds.empty hr) rfl (hlands.stands hs)
  refine ⟨s₃, q', ?_, hle, by simp, hlands₁.trans (hlands₂.trans hlands₃)⟩
  rw [matchRounds_empty hrun₁ hrun₂ hempty, hrun₃]
  simp

theorem RoundsDeliver.covers {afterEmpty : Bool} {result : Nat × List (Token α)}
    (hskip : SkipDelivers text guard first p reach₁ ask skip q)
    (hmatched : Delivers text guard q (some (token, r)) reach₂ (ask inner skip)) (hr : p < r)
    (hcovers : token.isEmpty = false)
    (hlater : RoundsDeliver text guard false r r reach₃ ask skip inner false result) :
    RoundsDeliver text guard first p stop (max reach₁ (max reach₂ reach₃)) ask skip inner afterEmpty
      (result.1, token :: result.2) := by
  intro hstop rounds found s hrounds hfound hs
  obtain ⟨rounds, rfl⟩ := Nat.exists_eq_succ_of_ne_zero (Nat.pos_iff_ne_zero.mp hrounds.pos)
  obtain ⟨s₁, hrun₁, hlands₁⟩ := hskip found s hfound hs
  obtain ⟨s₂, hrun₂, hlands₂⟩ := hmatched s₁ (hlands₁.stands hs)
  have hlands : Lands text s s₂ r (max reach₁ reach₂) := hlands₁.trans hlands₂
  have hposition : s₂.stream.position = r := hlands₂.stream.reads.position
  obtain ⟨s₃, q', hrun₃, hle, -, hlands₃⟩ := hlater (Nat.le_refl r) rounds (token :: found) s₂
    (hrounds.covers hr hlands.stream.reads.le_length) rfl (hlands.stands hs)
  refine ⟨s₃, q', ?_, hle, by simp, hlands₁.trans (hlands₂.trans hlands₃)⟩
  refine (matchRounds_covers hrun₁ hrun₂ hposition hcovers).trans (hrun₃.trans ?_)
  simp

end Loops

/-! ### The shapes -/

section Shapes

variable {guard : Guard} {p stop reach : Nat} {ask : Ask α} {name : Name} {skip : Ref}

theorem matchSequence_delivers {members : List Ref} {result : Option (Nat × List (Token α))}
    (hstop : ∀ found, result = some found → p ≤ found.1)
    (h : MembersDeliver text guard true p p reach ask skip members result) :
    Delivers text guard p
      (result.map fun found => (.spanning .sequence name text p found.1 found.2, found.1)) reach
      (matchSequence ask name skip members) := by
  intro s hs
  obtain ⟨s₁, q, hrun, hle, hlands⟩ := h (Nat.le_refl p) [] _ rfl hs.saving
  cases result with
  | none => exact matchSequence_none hs hrun hlands
  | some found =>
    obtain ⟨s₂, hrun₂, hlands₂⟩ := matchSequence_some hs (hstop _ rfl) (hle _ rfl) hrun hlands
    rw [List.append_nil, List.reverse_reverse] at hrun₂
    exact ⟨s₂, hrun₂, hlands₂⟩

theorem matchJunction_delivers {members : List Ref} {answer : Option (Nat × Token α × Nat)}
    (h : AlternativesDeliver text guard p reach ask skip g 0 members answer) :
    Delivers text guard p
      (answer.map fun found =>
        (.node ⟨.junction, name, found.2.1.substring, found.2.1.start, found.1⟩ [found.2.1] none,
          found.2.2))
      reach (matchJunction g ask name skip members) := by
  intro s hs
  obtain ⟨s', hrun, hlands⟩ := h s hs
  refine ⟨s', ?_, ?_⟩
  · rw [matchJunction, position_bind, hs.reads.position, Step.bind_ok hrun]
    cases answer <;> rfl
  · cases answer <;> exact hlands

theorem matchMultiple_delivers {inner : Ref} {result : Nat × List (Token α)}
    (hstop : p ≤ result.1)
    (h : RoundsDeliver text guard true p p reach ask skip inner false result) :
    Delivers text guard p
      (if result.2 = [] then none
        else some (.spanning .multiple name text p result.1 result.2, result.1)) reach
      (matchMultiple ask name skip inner) := by
  intro s hs
  obtain ⟨stop, tokens⟩ := result
  obtain ⟨s₁, q, hrun, hle, hfirst, hlands⟩ := h (Nat.le_refl p) (2 * s.stream.remaining + 2) [] s
    (enoughRounds_remaining hs) rfl hs
  rw [List.append_nil] at hrun
  by_cases htokens : tokens = []
  · subst htokens
    -- Nothing was skipped in front of the first repetition.
    obtain rfl := hfirst rfl rfl rfl
    exact ⟨s₁, matchMultiple_none hs hrun, hlands⟩
  · have hreverse : tokens.reverse ≠ [] := by simpa using htokens
    obtain ⟨s₂, hrun₂, hlands₂⟩ := matchMultiple_some hs hreverse hstop hle hrun hlands
    rw [List.reverse_reverse] at hrun₂
    rw [if_neg htokens]
    exact ⟨s₂, hrun₂, hlands₂⟩

theorem matchOption_delivers {inner : Ref} {answer : Answer α}
    (h : Delivers text guard p answer reach (ask inner skip)) :
    Delivers text guard p
      (some (answer.elim (.leaf .option name "" p 0, p) fun found =>
        (.node ⟨.option, name, found.1.substring, found.1.start, 0⟩ [found.1] none, found.2)))
      reach (matchOption ask name skip inner) := by
  intro s hs
  obtain ⟨s', hrun, hlands⟩ := h s hs
  refine ⟨s', ?_, ?_⟩
  · rw [matchOption, Step.bind_ok hrun]
    cases answer with
    | none => simp [hlands.stream.reads.position, landing]
    | some found => rfl
  · cases answer <;> exact hlands

theorem matchStar_delivers {repetition : Ref} {answer : Answer α}
    (h : Delivers text guard p answer reach (ask repetition skip)) :
    Delivers text guard p
      (some (answer.elim (.leaf .star name "" p 0, p) fun found =>
        (.node ⟨.star, name, found.1.substring, found.1.start, 0⟩ found.1.children none,
          found.2)))
      reach (matchStar ask name skip repetition) := by
  intro s hs
  obtain ⟨s', hrun, hlands⟩ := h s hs
  refine ⟨s', ?_, ?_⟩
  · rw [matchStar, Step.bind_ok hrun]
    cases answer with
    | none => simp [hlands.stream.reads.position, landing]
    | some found => rfl
  · cases answer <;> exact hlands

end Shapes

/-! ### Derivations -/

mutual

theorem Yields.delivered {ref skip : Ref} {guard : Guard} {p reach : Nat} {answer : Answer α}
    (h : Yields g text ref skip guard p answer reach) :
    ∀ᶠ limit in atTop, Delivers text guard p answer reach (matchWithin g limit ref skip) := by
  match h with
  | .zeroLength shape =>
    refine eventually_succ (.of_forall fun limit s hs => ⟨s, ?_, .refl hs⟩)
    rw [matchWithin, matchStep_zeroLength shape]
    rfl
  | .implicit shape rule =>
    refine eventually_succ (rule.delivered.mono fun limit h => ?_)
    rw [matchWithin, matchStep_implicit shape]
    exact h
  | .inProgress guarded mem =>
    refine eventually_succ (.of_forall fun limit s hs => ?_)
    rw [matchWithin, matchStep_guarded skip guarded]
    exact guarded_inProgress hs mem
  | .enter guarded fresh body =>
    refine eventually_succ ((body.delivered guarded).mono fun limit h => ?_)
    rw [matchWithin, matchStep_guarded skip guarded]
    exact h.guarded fresh

theorem ShapeYields.delivered {shape : Shape} {name : Name} {skip : Ref} {guard : Guard}
    {p reach : Nat} {answer : Answer α}
    (h : ShapeYields g text shape name skip guard p answer reach)
    (hguarded : shape.isGuarded = true) :
    ∀ᶠ limit in atTop, DeliversInside text guard p answer reach
      (shapeBody g (matchWithin g limit) name skip shape) := by
  match h with
  | .leaf read => exact .of_forall fun limit => shapeBody_delivers read
  | .sequence all =>
    have hstop := (all.stop_le _ rfl (Nat.le_refl p)).1
    refine all.delivered.mono fun limit h => (matchSequence_delivers ?_ h).inside
    rintro _ ⟨⟩
    exact hstop
  | .sequenceFails one =>
    have hstop : ∀ found, none (α := Nat × List (Token α)) = some found → p ≤ found.1 := by simp
    exact one.delivered.mono fun limit h => (matchSequence_delivers hstop h).inside
  | .junction first =>
    exact first.delivered.mono fun limit h => (matchJunction_delivers h).inside
  | .junctionFails failed =>
    exact failed.delivered.mono fun limit h => (matchJunction_delivers h).inside
  | .multiple rounds found =>
    have hstop := (rounds.stop_le (Nat.le_refl p)).1
    refine rounds.delivered.mono fun limit h => Delivers.inside ?_
    have hmultiple : Delivers text _ p _ reach (matchMultiple (matchWithin g limit) name skip _) :=
      matchMultiple_delivers hstop h
    rwa [if_neg found] at hmultiple
  | .multipleFails rounds =>
    have hstop := (rounds.stop_le (Nat.le_refl p)).1
    exact rounds.delivered.mono fun limit h => (matchMultiple_delivers hstop h).inside
  | .option present =>
    exact present.delivered.mono fun limit h => (matchOption_delivers h).inside
  | .optionAbsent absent =>
    exact absent.delivered.mono fun limit h => (matchOption_delivers h).inside
  | .star present =>
    exact present.delivered.mono fun limit h => (matchStar_delivers h).inside
  | .starAbsent absent =>
    exact absent.delivered.mono fun limit h => (matchStar_delivers h).inside

theorem SkipYields.delivered {skip : Ref} {guard : Guard} {first : Bool} {p q reach : Nat}
    (h : SkipYields (α := α) g text skip guard first p q reach) :
    ∀ᶠ limit in atTop,
      SkipDelivers text guard first p reach (matchWithin (α := α) g limit) skip q := by
  match h with
  | .first => exact .of_forall fun limit => .atFirst
  | .between skipped => exact skipped.delivered.mono fun limit h => .between h

theorem MembersYield.delivered {skip : Ref} {guard : Guard} {first : Bool} {p stop reach : Nat}
    {members : List Ref} {result : Option (Nat × List (Token α))}
    (h : MembersYield g text skip guard first p stop members result reach) :
    ∀ᶠ limit in atTop,
      MembersDeliver text guard first p stop reach (matchWithin g limit) skip members result := by
  match h with
  | .nil => exact .of_forall fun limit => .nil
  | .fails skipped failed =>
    filter_upwards [skipped.delivered, failed.delivered] with limit hskip hfailed
    exact .fails hskip hfailed
  | .cons skipped matched later =>
    have hr := Nat.le_trans skipped.le.1 matched.advances.1
    filter_upwards [skipped.delivered, matched.delivered, later.delivered]
      with limit hskip hmatched hlater
    exact .matched hskip hmatched hr hlater
  | .laterFails skipped matched later =>
    have hr := Nat.le_trans skipped.le.1 matched.advances.1
    filter_upwards [skipped.delivered, matched.delivered, later.delivered]
      with limit hskip hmatched hlater
    exact .matched hskip hmatched hr hlater

theorem AlternativesYield.delivered {skip : Ref} {guard : Guard} {p ordinal reach : Nat}
    {members : List Ref} {answer : Option (Nat × Token α × Nat)}
    (h : AlternativesYield g text skip guard p ordinal members answer reach) :
    ∀ᶠ limit in atTop,
      AlternativesDeliver text guard p reach (matchWithin g limit) skip g ordinal members
        answer := by
  match h with
  | .nil => exact .of_forall fun limit s hs => ⟨s, rfl, .refl hs⟩
  | .inProgress mem later => exact later.delivered.mono fun limit h => .inProgress mem h
  | .matched fresh matched => exact matched.delivered.mono fun limit h => .matched fresh h
  | .failed fresh failed later =>
    filter_upwards [failed.delivered, later.delivered] with limit hfailed hlater
    exact .failed fresh hfailed hlater

theorem RoundsYield.delivered {skip inner : Ref} {guard : Guard} {first afterEmpty : Bool}
    {p stop reach : Nat} {result : Nat × List (Token α)}
    (h : RoundsYield g text skip guard inner first p stop afterEmpty result reach) :
    ∀ᶠ limit in atTop,
      RoundsDeliver text guard first p stop reach (matchWithin g limit) skip inner afterEmpty
        result := by
  match h with
  | .fails skipped failed =>
    have hq := skipped.le.1
    have hfirst := skipped.eq_of_first
    filter_upwards [skipped.delivered, failed.delivered] with limit hskip hfailed
    exact .fails hskip hq hfirst hfailed
  | .secondEmpty skipped matched empty =>
    have hr := Nat.le_trans skipped.le.1 matched.advances.1
    filter_upwards [skipped.delivered, matched.delivered] with limit hskip hmatched
    exact .secondEmpty hskip hmatched hr empty
  | .empty skipped matched empty later =>
    have hr := Nat.le_trans skipped.le.1 matched.advances.1
    filter_upwards [skipped.delivered, matched.delivered, later.delivered]
      with limit hskip hmatched hlater
    exact .empty hskip hmatched hr empty hlater
  | .covers skipped matched covers later =>
    have hr := Nat.lt_of_le_of_lt skipped.le.1 (matched.advances.2.2 covers)
    filter_upwards [skipped.delivered, matched.delivered, later.delivered]
      with limit hskip hmatched hlater
    exact .covers hskip hmatched hr covers hlater

end

end GrammarEngine
