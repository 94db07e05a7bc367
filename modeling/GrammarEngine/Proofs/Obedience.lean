import GrammarEngine.Proofs.Characters

namespace GrammarEngine

/-!
# Matching goes by the rules

If the symbols that are asked for go by the rules, then so does the symbol that they are parts of.
What a match finds is therefore what the rules say, under any limit.

* `Obeys` — asked for a symbol, the answer is the one of the rules;
* `EnoughRounds` — a repetition has rounds left for all that it can still match;
* `shapeBody_obeys`, `matchStep_obeys` — one step: a shape, and a symbol with its guard;
* `matchWithin_obeysIn`, `matchWithin_obeys` — a whole match, in a part of a graph and in all of it.
-/

open MatchM

variable {α β : Type} {g : Graph} {text : List Char}

/-- Asked for symbols of a part of the graph while these matches are in progress, at a position
    from `low` on, `ask` answers by the rules. -/
def Obeys (g : Graph) (text : List Char) (part : Ref → Prop) (fatal : Error → Prop)
    (guard : Guard) (low : Nat) (ask : Ask α) : Prop :=
  ∀ ref skip, part ref → part skip → ∀ p s, low ≤ p → Stands text guard p s →
    Ends (ask ref skip) s (Answered (Yields g text ref skip guard p) text p s)
      (Failed fatal guard)

/-! ### The loops -/

section Loops

variable {part : Ref → Prop} {fatal : Error → Prop} {guard : Guard} {low : Nat} {ask : Ask α}
  {skip : Ref} {s : MatchState} {p : Nat}

theorem skipBefore_obeys (hask : Obeys g text part fatal guard low ask)
    (hzero : part .zeroLength) (hskip : part skip) (hs : Stands text guard p s) (hp : low ≤ p)
    (found : List (Token α)) :
    Ends (skipBefore ask skip found) s
      (fun _ s' => ∃ q reach, SkipYields (α := α) g text skip guard found.isEmpty p q reach ∧
        p ≤ q ∧ Lands text s s' q reach)
      (Failed fatal guard) := by
  unfold skipBefore
  cases found with
  | nil => exact .of_ok rfl ⟨p, 0, .first, Nat.le_refl p, .refl hs⟩
  | cons token found =>
    refine .bind (hask skip .zeroLength hskip hzero p s hp hs) ?_
    rintro token? s' ⟨answer, reach, hyields, -, hlands⟩
    exact .of_ok rfl ⟨_, _, .between hyields, hyields.advances.landing_between.1, hlands⟩

theorem matchMembers_obeys (hask : Obeys g text part fatal guard low ask)
    (hzero : part .zeroLength) (hskip : part skip) (members : List Ref)
    (hmembers : ∀ member ∈ members, part member) {stop : Nat} (hs : Stands text guard p s)
    (hp : low ≤ p) (hstop : stop ≤ p) (found : List (Token α)) :
    Ends (matchMembers ask skip stop found members) s
      (fun result? s' => ∃ result q reach,
        MembersYield g text skip guard found.isEmpty p stop members result reach ∧
        result? = result.map (fun r => ((r.1 : Int), r.2.reverse ++ found)) ∧
        p ≤ q ∧ (∀ r, result = some r → r.1 ≤ q) ∧ Lands text s s' q reach)
      (Failed fatal guard) := by
  induction members generalizing s p stop found with
  | nil =>
    refine .of_ok rfl ⟨some (stop, []), p, 0, .nil, rfl, Nat.le_refl p, ?_, .refl hs⟩
    rintro r ⟨⟩
    exact hstop
  | cons member members ih =>
    unfold matchMembers
    refine .bind (skipBefore_obeys hask hzero hskip hs hp found) ?_
    rintro - s₁ ⟨q, reach₁, hskipped, hpq, hlands₁⟩
    have hmember : part member := hmembers member (List.mem_cons_self ..)
    refine .bind (hask member skip hmember hskip q s₁ (by omega) (hlands₁.stands hs)) ?_
    rintro token? s₂ ⟨answer, reach₂, hyields, rfl, hlands₂⟩
    have hlands := hlands₁.trans hlands₂
    cases answer with
    | none =>
      exact .of_ok rfl ⟨none, q, _, .fails hskipped hyields, rfl, hpq, by simp, hlands⟩
    | some found' =>
      obtain ⟨token, r⟩ := found'
      obtain ⟨hqr, -, -⟩ := hyields.advances
      have hposition : s₂.stream.position = r := hlands₂.stream.reads.position
      have hlands : Lands text s s₂ r (max reach₁ reach₂) := hlands
      -- An empty member leaves the end of the sequence where it was.
      have hnext : (if token.isEmpty then stop else r) ≤ r := by
        split <;> omega
      have hrest := ih (fun m hm => hmembers m (List.mem_cons_of_mem _ hm)) (hlands.stands hs)
        (Nat.le_trans hp (Nat.le_trans hpq hqr)) hnext (token :: found)
      refine .congr ?_ (hrest.mono ?_ fun _ _ h => h)
      · cases hempty : token.isEmpty <;> simp [hempty, hposition]
      · rintro _ s₃ ⟨result, q', reach₃, hlater, rfl, hq', hle, hlands₃⟩
        have hall := hlands₁.trans (hlands₂.trans hlands₃)
        cases result with
        | none => exact ⟨none, q', _, .laterFails hskipped hyields hlater, rfl, by omega, hle, hall⟩
        | some found' =>
          refine ⟨some (found'.1, token :: found'.2), q', _, .cons hskipped hyields hlater, ?_,
            by omega, ?_, hall⟩
          · simp
          · rintro _ ⟨⟩
            exact hle found' rfl

theorem matchAlternatives_obeys (hask : Obeys g text part fatal guard low ask)
    (hskip : part skip) (members : List Ref) (hmembers : ∀ member ∈ members, part member)
    (hs : Stands text guard p s) (hp : low ≤ p) (ordinal : Nat) :
    Ends (matchAlternatives g ask skip p ordinal members) s
      (fun result? s' => ∃ result reach,
        AlternativesYield g text skip guard p ordinal members result reach ∧
        result? = result.map (fun r => (r.1, r.2.1)) ∧
        Lands text s s' (landing p (result.map Prod.snd)) reach)
      (Failed fatal guard) := by
  induction members generalizing s ordinal with
  | nil => exact .of_ok rfl ⟨none, 0, .nil, rfl, .refl hs⟩
  | cons member members ih =>
    have hrest : ∀ m ∈ members, part m := fun m hm => hmembers m (List.mem_cons_of_mem _ hm)
    unfold matchAlternatives
    refine .bind (isInProgress_ends _ s) ?_
    rintro _ _ ⟨rfl, rfl⟩
    rw [hs.guard_eq]
    by_cases hmem : ((g.symbol member).name, (p : Int)) ∈ guard
    · simp only [hmem, decide_true, if_true]
      refine (ih hrest hs (ordinal + 1)).mono ?_ fun _ _ h => h
      rintro _ s' ⟨result, reach, hlater, rfl, hlands⟩
      exact ⟨result, reach, .inProgress hmem hlater, rfl, hlands⟩
    · simp only [hmem, decide_false, Bool.false_eq_true, if_false]
      have hmember : part member := hmembers member (List.mem_cons_self ..)
      refine .bind (hask member skip hmember hskip p s hp hs) ?_
      rintro token? s₁ ⟨answer, reach, hyields, rfl, hlands⟩
      cases answer with
      | some found =>
        exact .of_ok rfl ⟨some (ordinal, found), reach, .matched hmem hyields, rfl, hlands⟩
      | none =>
        refine (ih hrest (hlands.stands hs) (ordinal + 1)).mono ?_ fun _ _ h => h
        rintro _ s' ⟨result, reach', hlater, rfl, hlands'⟩
        exact ⟨result, _, .failed hmem hyields hlater, rfl, hlands.trans hlands'⟩

/-- So many rounds are enough from a position on: each one that covers text takes a character, no
    two others follow each other, and one more ends the loop. -/
def EnoughRounds (text : List Char) (p : Nat) (afterEmpty : Bool) (rounds : Nat) : Prop :=
  2 * (text.length - p) + (if afterEmpty then 1 else 2) ≤ rounds

namespace EnoughRounds

variable {r rounds : Nat} {afterEmpty : Bool}

theorem pos (h : EnoughRounds text p afterEmpty rounds) : 0 < rounds := by
  unfold EnoughRounds at h
  split at h <;> omega

theorem covers (h : EnoughRounds text p afterEmpty (rounds + 1)) (hr : p < r)
    (hlen : r ≤ text.length) : EnoughRounds text r false rounds := by
  unfold EnoughRounds at h ⊢
  simp only [Bool.false_eq_true, if_false]
  split at h <;> omega

theorem empty (h : EnoughRounds text p false (rounds + 1)) (hr : p ≤ r) :
    EnoughRounds text r true rounds := by
  unfold EnoughRounds at h ⊢
  simp only [if_true, Bool.false_eq_true, if_false] at h ⊢
  omega

end EnoughRounds

theorem matchRounds_obeys {inner : Ref} (hask : Obeys g text part fatal guard low ask)
    (hzero : part .zeroLength) (hskip : part skip) (hinner : part inner) {rounds : Nat}
    {afterEmpty : Bool} (hrounds : EnoughRounds text p afterEmpty rounds) {stop : Nat}
    (hs : Stands text guard p s) (hp : low ≤ p) (hstop : stop ≤ p) (found : List (Token α)) :
    Ends (matchRounds ask skip inner rounds stop afterEmpty found) s
      (fun result s' => ∃ stop' tokens q reach,
        RoundsYield g text skip guard inner found.isEmpty p stop afterEmpty (stop', tokens) reach ∧
        result = ((stop' : Int), tokens.reverse ++ found) ∧ p ≤ q ∧ stop' ≤ q ∧
        (found = [] → afterEmpty = false → tokens = [] → q = p) ∧ Lands text s s' q reach)
      (Failed fatal guard) := by
  induction rounds generalizing s p stop afterEmpty found with
  -- There is a round left: the loop ends before its bound does.
  | zero => exact absurd hrounds.pos (Nat.lt_irrefl 0)
  | succ rounds ih =>
    unfold matchRounds
    refine .bind (skipBefore_obeys hask hzero hskip hs hp found) ?_
    rintro - s₁ ⟨q, reach₁, hskipped, hpq, hlands₁⟩
    refine .bind (hask inner skip hinner hskip q s₁ (by omega) (hlands₁.stands hs)) ?_
    rintro token? s₂ ⟨answer, reach₂, hyields, rfl, hlands₂⟩
    have hlands := hlands₁.trans hlands₂
    cases answer with
    | none =>
      exact .of_ok rfl ⟨stop, [], q, _, .fails hskipped hyields, rfl, hpq, by omega,
        fun hfound _ _ => hskipped.eq_of_first (by rw [hfound]; rfl), hlands⟩
    | some found' =>
      obtain ⟨token, r⟩ := found'
      obtain ⟨hqr, -, hcovers⟩ := hyields.advances
      have hlands : Lands text s s₂ r (max reach₁ reach₂) := hlands
      have hr := (hlands.stands hs).reads.le_length
      have hposition : s₂.stream.position = r := hlands.stream.reads.position
      cases hempty : token.isEmpty with
      | false =>
        have henough : EnoughRounds text r false rounds :=
          hrounds.covers (Nat.lt_of_le_of_lt hpq (hcovers hempty)) hr
        simp only [Option.map_some, hempty, Bool.not_false, if_true]
        refine .bind (position_ends s₂) ?_
        rintro _ _ ⟨rfl, rfl⟩
        rw [hposition]
        refine (ih henough (hlands.stands hs) (by omega) (Nat.le_refl r) (token :: found)).mono ?_
          fun _ _ h => h
        rintro _ s₃ ⟨stop', tokens, q', reach₃, hlater, rfl, hq', hle, -, hlands₃⟩
        exact ⟨stop', token :: tokens, q', _, .covers hskipped hyields hempty hlater, by simp,
          by omega, hle, by simp, hlands₁.trans (hlands₂.trans hlands₃)⟩
      | true =>
        simp only [Option.map_some, hempty, Bool.not_true, Bool.false_eq_true, if_false]
        cases afterEmpty with
        | true =>
          exact .of_ok rfl ⟨stop, [], r, _, .secondEmpty hskipped hyields hempty, rfl, by omega,
            by omega, by simp, hlands⟩
        | false =>
          have henough : EnoughRounds text r true rounds := hrounds.empty (Nat.le_trans hpq hqr)
          have hstop' : stop ≤ r := by omega
          simp only [Bool.false_eq_true, if_false]
          refine (ih henough (hlands.stands hs) (by omega) hstop' (token :: found)).mono ?_
            fun _ _ h => h
          rintro _ s₃ ⟨stop', tokens, q', reach₃, hlater, rfl, hq', hle, -, hlands₃⟩
          exact ⟨stop', token :: tokens, q', _, .empty hskipped hyields hempty hlater, by simp,
            by omega, hle, by simp, hlands₁.trans (hlands₂.trans hlands₃)⟩

end Loops

/-! ### The shapes -/

section Shapes

variable {guard : Guard} {ask : Ask α} {name : Name} {skip : Ref} {s s' : MatchState}
  {p stop q reach : Nat}

theorem matchSequence_none {members : List Ref} (hs : Stands text guard p s)
    (hrun : matchMembers ask skip p [] members (s.saving p) = .ok none s')
    (hlands : Lands text (s.saving p) s' q reach) :
    ∃ s'', matchSequence ask name skip members s = .ok none s'' ∧ Lands text s s'' p reach := by
  obtain ⟨s₂, hrevert, hlands₂⟩ := revert_lands hs hlands
  refine ⟨s₂, ?_, hlands₂⟩
  rw [matchSequence, position_bind, Step.bind_ok (saving_run hs), hs.reads.position,
    Step.bind_ok hrun]
  exact Step.bind_ok hrevert _

theorem matchSequence_some {members : List Ref} {found : List (Token α)}
    (hs : Stands text guard p s) (hp : p ≤ stop) (hstop : stop ≤ q)
    (hrun : matchMembers ask skip p [] members (s.saving p) = .ok (some ((stop : Int), found)) s')
    (hlands : Lands text (s.saving p) s' q reach) :
    ∃ s'', matchSequence ask name skip members s =
        .ok (some (.spanning .sequence name text p stop found.reverse)) s'' ∧
      Lands text s s'' stop reach := by
  obtain ⟨s₂, hdiscard, hlands₂⟩ := discard_lands hlands
  obtain ⟨s₃, hspan, hlands₃⟩ :=
    spanToken_lands (hlands₂.stands hs) (hlands₂.moved hs) hp hstop .sequence name found.reverse
  have hall := hlands₂.trans hlands₃
  rw [Nat.max_zero] at hall
  refine ⟨s₃, ?_, hall⟩
  rw [matchSequence, position_bind, Step.bind_ok (saving_run hs), hs.reads.position,
    Step.bind_ok hrun]
  exact (Step.bind_ok hdiscard _).trans (Step.bind_ok hspan _)

/-- The rounds that a repetition allows for are enough. -/
theorem enoughRounds_remaining (hs : Stands text guard p s) :
    EnoughRounds text p false (2 * s.stream.remaining + 2) := by
  have hextent := hs.reads.spells.length_le_extent
  have hposition := hs.reads.position
  unfold EnoughRounds Stream.remaining
  simp only [Bool.false_eq_true, if_false]
  omega

theorem matchMultiple_none {inner : Ref} (hs : Stands text guard p s)
    (hrun : matchRounds (α := α) ask skip inner (2 * s.stream.remaining + 2) p false [] s =
      .ok ((stop : Int), []) s') :
    matchMultiple ask name skip inner s = .ok none s' := by
  rw [matchMultiple, position_bind, Step.get_bind, hs.reads.position, Step.bind_ok hrun]
  rfl

theorem matchMultiple_some {inner : Ref} {found : List (Token α)} (hs : Stands text guard p s)
    (hfound : found ≠ []) (hp : p ≤ stop) (hstop : stop ≤ q)
    (hrun : matchRounds ask skip inner (2 * s.stream.remaining + 2) p false [] s =
      .ok ((stop : Int), found) s')
    (hlands : Lands text s s' q reach) :
    ∃ s'', matchMultiple ask name skip inner s =
        .ok (some (.spanning .multiple name text p stop found.reverse)) s'' ∧
      Lands text s s'' stop reach := by
  obtain ⟨s₂, hspan, hlands₂⟩ :=
    spanToken_lands (hlands.stands hs) (hlands.moved hs) hp hstop .multiple name found.reverse
  have hall := hlands.trans hlands₂
  rw [Nat.max_zero] at hall
  refine ⟨s₂, ?_, hall⟩
  have hnil : found.isEmpty = false := by simpa using hfound
  rw [matchMultiple, position_bind, Step.get_bind, hs.reads.position, Step.bind_ok hrun]
  simp only [hnil, Bool.false_eq_true, if_false]
  rw [Step.bind_ok hspan]
  rfl

variable {part : Ref → Prop} {fatal : Error → Prop}

theorem matchSequence_obeys (hask : Obeys g text part fatal guard p ask)
    (hzero : part .zeroLength) (hskip : part skip) (members : List Ref)
    (hmembers : ∀ member ∈ members, part member) (hs : Stands text guard p s) :
    Ends (matchSequence ask name skip members) s
      (Answered (ShapeYields g text (.sequence members) name skip guard p) text p s)
      (Failed fatal guard) := by
  have hall := matchMembers_obeys hask hzero hskip members hmembers hs.saving (Nat.le_refl p)
    (Nat.le_refl p) []
  rcases hall.elim with
    ⟨_, s₁, hrun, result, q, reach, hrule, rfl, hpq, hle, hlands⟩ | ⟨e, s₁, hrun, hfailed⟩
  · cases result with
    | none =>
      obtain ⟨s₂, hrun₂, hlands₂⟩ := matchSequence_none hs hrun hlands
      exact .of_ok hrun₂ ⟨none, reach, .sequenceFails hrule, rfl, hlands₂⟩
    | some result =>
      obtain ⟨stop, tokens⟩ := result
      obtain ⟨hstop, -⟩ := hrule.stop_le _ rfl (Nat.le_refl p)
      obtain ⟨s₂, hrun₂, hlands₂⟩ := matchSequence_some hs hstop (hle _ rfl) hrun hlands
      rw [List.append_nil, List.reverse_reverse] at hrun₂
      exact .of_ok hrun₂ ⟨some _, reach, .sequence hrule, rfl, hlands₂⟩
  · have herror : matchSequence ask name skip members s = .error e s₁ := by
      rw [matchSequence, position_bind, Step.bind_ok (saving_run hs), hs.reads.position]
      exact Step.bind_error hrun _
    exact .of_error herror hfailed

theorem matchJunction_obeys (hask : Obeys g text part fatal guard p ask) (hskip : part skip)
    (members : List Ref) (hmembers : ∀ member ∈ members, part member)
    (hs : Stands text guard p s) :
    Ends (matchJunction g ask name skip members) s
      (Answered (ShapeYields g text (.junction members) name skip guard p) text p s)
      (Failed fatal guard) := by
  simp only [matchJunction, coverToken_eq]
  refine .bind (position_ends s) ?_
  rintro _ _ ⟨rfl, rfl⟩
  rw [hs.reads.position]
  refine .bind (matchAlternatives_obeys hask hskip members hmembers hs (Nat.le_refl p) 0) ?_
  rintro _ s₁ ⟨result, reach, hrule, rfl, hlands⟩
  cases result with
  | none => exact .of_ok rfl ⟨none, reach, .junctionFails hrule, rfl, hlands⟩
  | some found => exact .of_ok rfl ⟨some _, reach, .junction hrule, rfl, hlands⟩

theorem matchMultiple_obeys (hask : Obeys g text part fatal guard p ask)
    (hzero : part .zeroLength) (hskip : part skip) {inner : Ref} (hinner : part inner)
    (hs : Stands text guard p s) :
    Ends (matchMultiple ask name skip inner) s
      (Answered (ShapeYields g text (.multiple inner) name skip guard p) text p s)
      (Failed fatal guard) := by
  have hall := matchRounds_obeys hask hzero hskip hinner (enoughRounds_remaining hs) hs
    (Nat.le_refl p) (Nat.le_refl p) []
  rcases hall.elim with
    ⟨_, s₁, hrun, stop, tokens, q, reach, hrule, rfl, hpq, hle, hfirst, hlands⟩ |
    ⟨e, s₁, hrun, hfailed⟩
  · rw [List.append_nil] at hrun
    by_cases htokens : tokens = []
    -- Without a repetition nothing was skipped, so the position is still the first one.
    · subst htokens
      obtain rfl := hfirst rfl rfl rfl
      exact .of_ok (matchMultiple_none hs hrun) ⟨none, reach, .multipleFails hrule, rfl, hlands⟩
    · obtain ⟨hstop, -⟩ := hrule.stop_le (Nat.le_refl p)
      have hreverse : tokens.reverse ≠ [] := by simpa using htokens
      obtain ⟨s₂, hrun₂, hlands₂⟩ := matchMultiple_some hs hreverse hstop hle hrun hlands
      rw [List.reverse_reverse] at hrun₂
      exact .of_ok hrun₂ ⟨some _, reach, .multiple hrule htokens, rfl, hlands₂⟩
  · have herror : matchMultiple ask name skip inner s = .error e s₁ := by
      rw [matchMultiple, position_bind, Step.get_bind, hs.reads.position]
      exact Step.bind_error hrun _
    exact .of_error herror hfailed

theorem matchOption_obeys (hask : Obeys g text part fatal guard p ask) (hskip : part skip)
    {inner : Ref} (hinner : part inner) (hs : Stands text guard p s) :
    Ends (matchOption ask name skip inner) s
      (Answered (ShapeYields g text (.option inner) name skip guard p) text p s)
      (Failed fatal guard) := by
  simp only [matchOption, coverToken_eq]
  refine .bind (hask inner skip hinner hskip p s (Nat.le_refl p) hs) ?_
  rintro _ s₁ ⟨answer, reach, hrule, rfl, hlands⟩
  cases answer with
  | none =>
    refine .bind (position_ends s₁) ?_
    rintro _ _ ⟨rfl, rfl⟩
    rw [hlands.stream.reads.position]
    exact .of_ok rfl ⟨some _, reach, .optionAbsent hrule, rfl, hlands⟩
  | some found => exact .of_ok rfl ⟨some _, reach, .option hrule, rfl, hlands⟩

theorem matchStar_obeys (hask : Obeys g text part fatal guard p ask) (hskip : part skip)
    {repetition : Ref} (hrepetition : part repetition) (hs : Stands text guard p s) :
    Ends (matchStar ask name skip repetition) s
      (Answered (ShapeYields g text (.star repetition) name skip guard p) text p s)
      (Failed fatal guard) := by
  simp only [matchStar, coverToken_eq]
  refine .bind (hask repetition skip hrepetition hskip p s (Nat.le_refl p) hs) ?_
  rintro _ s₁ ⟨answer, reach, hrule, rfl, hlands⟩
  cases answer with
  | none =>
    refine .bind (position_ends s₁) ?_
    rintro _ _ ⟨rfl, rfl⟩
    rw [hlands.stream.reads.position]
    exact .of_ok rfl ⟨some _, reach, .starAbsent hrule, rfl, hlands⟩
  | some found => exact .of_ok rfl ⟨some _, reach, .star hrule, rfl, hlands⟩

/-- What the guard is around does what the shape does by the rules, given that the symbols that
    the shape is made of match by the rules. -/
theorem shapeBody_obeys {shape : Shape} (hask : Obeys g text part fatal guard p ask)
    (hzero : part .zeroLength) (hskip : part skip) (hrefs : ∀ ref ∈ shape.refs, part ref)
    (hguarded : shape.isGuarded = true) (hs : Stands text guard p s) :
    Ends (shapeBody g ask name skip shape) s
      (Answered (ShapeYields g text shape name skip guard p) text p s)
      fun e s' => Failed fatal guard e s' ∨
        RanOut (ShapeYields (α := α) g text shape name skip guard p) text s e s' := by
  -- The shapes that read characters ask for no other symbol.
  have hleaf : ∀ answer reach, readLeaf (α := α) text name p shape = some (answer, reach) →
      Ends (shapeBody g ask name skip shape) s
        (Answered (ShapeYields g text shape name skip guard p) text p s)
        fun e s' => Failed fatal guard e s' ∨
          RanOut (ShapeYields (α := α) g text shape name skip guard p) text s e s' := by
    intro answer reach hread
    refine (shapeBody_delivers hread s hs).mono ?_ ?_
    · rintro token? s' ⟨_, _, ⟨rfl, rfl⟩, hend⟩
      exact ⟨_, _, .leaf hread, hend⟩
    · rintro e s' ⟨hcause, _, ⟨rfl, rfl⟩, hend⟩
      exact .inr ⟨hcause, _, .leaf hread, hend⟩
  cases shape with
  | sequence members =>
    exact (matchSequence_obeys hask hzero hskip members hrefs hs).mono (fun _ _ h => h)
      fun _ _ => .inl
  | junction members =>
    exact (matchJunction_obeys hask hskip members hrefs hs).mono (fun _ _ h => h) fun _ _ => .inl
  | multiple inner =>
    have hinner : part inner := hrefs inner (List.mem_singleton_self inner)
    exact (matchMultiple_obeys hask hzero hskip hinner hs).mono (fun _ _ h => h) fun _ _ => .inl
  | option inner =>
    have hinner : part inner := hrefs inner (List.mem_singleton_self inner)
    exact (matchOption_obeys hask hskip hinner hs).mono (fun _ _ h => h) fun _ _ => .inl
  | star repetition =>
    have hrepetition : part repetition := hrefs repetition (List.mem_singleton_self repetition)
    exact (matchStar_obeys hask hskip hrepetition hs).mono (fun _ _ h => h) fun _ _ => .inl
  | switch | anyCharacter | text | character | oddCharacter | oddText => exact hleaf _ _ rfl
  | implicit | zeroLength | foreign => cases hguarded

end Shapes

/-! ### Any symbol -/

section Symbols

variable {part : Ref → Prop} {fatal : Error → Prop} {guard : Guard} {ask : Ask α}
  {ref skip : Ref} {s : MatchState} {p : Nat}

theorem part_skipInside (hzero : part .zeroLength) (hskip : part skip) (name : Name) :
    part (skipInside name skip) := by
  unfold skipInside
  split
  · exact hzero
  · exact hskip

/-- One symbol, given that the symbols inside it match by the rules: those right inside a guarded
    one with one more match in progress, and what an implicit one refers to with no other. -/
theorem matchStep_obeys (hfatal : ∀ cause, ¬ fatal (.exhausted cause))
    (hundefined : (g.symbol ref).shape = .implicit none →
      fatal (.configuration (.neverDefined (g.symbol ref).name)))
    (hforeign : (g.symbol ref).shape = .foreign → fatal .noAttribute)
    (hinside : (g.symbol ref).shape.isGuarded = true →
      ((g.symbol ref).name, (p : Int)) ∉ guard →
      Obeys g text part fatal (((g.symbol ref).name, (p : Int)) :: guard) p ask)
    (himplicit : ∀ target, (g.symbol ref).shape = .implicit (some target) →
      Ends (ask target skip) s (Answered (Yields g text target skip guard p) text p s)
        (Failed fatal guard))
    (hzero : part .zeroLength) (hskip : part skip)
    (hrefs : ∀ r ∈ (g.symbol ref).shape.refs, part r) (hs : Stands text guard p s) :
    Ends (matchStep g ask ref skip) s (Answered (Yields g text ref skip guard p) text p s)
      (Failed fatal guard) := by
  rcases (g.symbol ref).shape.guarded_or with
    hguarded | hshape | ⟨target, hshape⟩ | hshape | hshape
  · rw [matchStep_guarded skip hguarded]
    by_cases hmem : ((g.symbol ref).name, (p : Int)) ∈ guard
    · obtain ⟨s', hrun, hlands⟩ := guarded_inProgress hs hmem
      exact .of_ok hrun ⟨none, 0, .inProgress hguarded hmem, rfl, hlands⟩
    · refine (guarded_answers hs hmem hfatal fun s hs => shapeBody_obeys
        (hinside hguarded hmem) hzero (part_skipInside hzero hskip _) hrefs hguarded hs).mono ?_
        fun _ _ h => h
      intro token? s' h
      exact h.mono fun answer reach hbody => .enter hguarded hmem hbody
  · rw [matchStep_undefined hshape]
    exact .of_error rfl ⟨hundefined hshape, hs.guard_eq⟩
  · rw [matchStep_implicit hshape]
    refine (himplicit target hshape).mono ?_ fun _ _ h => h
    intro token? s' h
    exact h.mono fun answer reach hrule => .implicit hshape hrule
  · rw [matchStep_zeroLength hshape]
    exact .of_ok rfl ⟨_, 0, .zeroLength hshape, rfl, .refl hs⟩
  · rw [matchStep_foreign hshape]
    exact .of_error rfl ⟨hforeign hshape, hs.guard_eq⟩

/-- The errors that a match in a part of the graph can end with: it came to an implicit symbol
    without a rule, or to something that is no symbol, or it is nested too deeply, where that can
    be. -/
inductive IsFatal (g : Graph) (part : Ref → Prop) (deep : Prop) : Error → Prop
  | neverDefined {ref : Ref} (mem : part ref) (shape : (g.symbol ref).shape = .implicit none) :
      IsFatal g part deep (.configuration (.neverDefined (g.symbol ref).name))
  | noAttribute {ref : Ref} (mem : part ref) (shape : (g.symbol ref).shape = .foreign) :
      IsFatal g part deep .noAttribute
  | nestedTooDeeply (limited : deep) : IsFatal g part deep .nestedTooDeeply

theorem IsFatal.ne_exhausted {deep : Prop} (cause : Exhausted) :
    ¬ IsFatal g part deep (.exhausted cause) := nofun

/-- Whatever the limit is, a match that ends well answers by the rules, and nothing matters but a
    part of the graph that the symbol and all that is referred to from there belong to. -/
theorem matchWithin_obeysIn (hclosed : ∀ ref, part ref → ∀ r ∈ (g.symbol ref).shape.refs, part r)
    (hzero : part .zeroLength) (limit : Nat) (guard : Guard) :
    Obeys g text part (IsFatal g part True) guard 0 (matchWithin (α := α) g limit) := by
  induction limit generalizing guard with
  | zero =>
    intro ref skip _ _ p s _ hs
    exact .of_error rfl ⟨.nestedTooDeeply trivial, hs.guard_eq⟩
  | succ limit ih =>
    intro ref skip href hskip p s _ hs
    refine matchStep_obeys IsFatal.ne_exhausted (.neverDefined href) (.noAttribute href) ?_ ?_
      hzero hskip (hclosed ref href) hs
    · intro _ _ ref' skip' href' hskip' q s' _ hs'
      exact ih _ ref' skip' href' hskip' q s' (Nat.zero_le q) hs'
    · intro target hshape
      have htarget : part target := hclosed ref href target (Graph.target_mem_refs hshape)
      exact ih guard target skip htarget hskip p s (Nat.zero_le p) hs

/-- The same for a graph as a whole. -/
theorem matchWithin_obeys (g : Graph) (text : List Char) (limit : Nat) (guard : Guard) :
    Obeys g text (fun _ => True) (IsFatal g (fun _ => True) True) guard 0
      (matchWithin (α := α) g limit) :=
  matchWithin_obeysIn (fun _ _ _ _ => trivial) trivial limit guard

end Symbols

end GrammarEngine
