import GrammarEngine.Proofs.Cursors
import GrammarEngine.Proofs.RoundTrip
import GrammarEngine.Proofs.Verdicts

namespace GrammarEngine

/-!
# Matches in step

Two matches over the same text, one in memory and one from a file, go the same way: at every step
both streams stand where one cursor does, and what is answered and reported is the same. Only the
rounds that a repetition allows for can differ, and both are enough.

* `Twin`, `InStep` — two states that differ in what was read only, and steps that keep them so;
* `matchRounds_enough` — rounds beyond those that are enough make no difference;
* `shapeBody_inStep`, `guarded_inStep`, `matchWithin_inStep` — one symbol after the other;
* `Grammar.matchInput_inStep`, `Grammar.parseFile_eq` — whole inputs.
-/

open MatchM

variable {α β γ : Type} {text : List Char}

/-! ### Twins -/

/-- Both streams stand where the cursor does, with the same matches in progress and the same events
    so far. -/
structure Twin (text : List Char) (c : Cursor) (s₁ s₂ : MatchState) : Prop where
  first : s₁.stream.At text c
  second : s₂.stream.At text c
  guard_eq : s₁.guard = s₂.guard
  events_eq : s₁.events = s₂.events

/-- Both runs end in the same way, in twins that got no less far. -/
def SameEnd (text : List Char) (top : Nat) :
    (run₁ run₂ : EStateM.Result Error MatchState β) → Prop
  | .ok b₁ s₁, .ok b₂ s₂ => b₁ = b₂ ∧ ∃ c, top ≤ c.top ∧ Twin text c s₁ s₂
  | .error e₁ s₁, .error e₂ s₂ => e₁ = e₂ ∧ ∃ c, top ≤ c.top ∧ Twin text c s₁ s₂
  | _, _ => False

/-- From twins the two steps end in the same way. -/
def InStep (text : List Char) (x y : MatchM β) : Prop :=
  ∀ s₁ s₂ c, Twin text c s₁ s₂ → SameEnd text c.top (x s₁) (y s₂)

theorem SameEnd.cases {top : Nat} {run₁ run₂ : EStateM.Result Error MatchState β}
    (h : SameEnd text top run₁ run₂) :
    (∃ b s₁ s₂ c, run₁ = .ok b s₁ ∧ run₂ = .ok b s₂ ∧ top ≤ c.top ∧ Twin text c s₁ s₂) ∨
      ∃ e s₁ s₂ c, run₁ = .error e s₁ ∧ run₂ = .error e s₂ ∧ top ≤ c.top ∧ Twin text c s₁ s₂ := by
  unfold SameEnd at h
  split at h
  · obtain ⟨rfl, c, htop, htwin⟩ := h
    exact .inl ⟨_, _, _, c, rfl, rfl, htop, htwin⟩
  · obtain ⟨rfl, c, htop, htwin⟩ := h
    exact .inr ⟨_, _, _, c, rfl, rfl, htop, htwin⟩
  · exact h.elim

theorem SameEnd.mono {top top' : Nat} {run₁ run₂ : EStateM.Result Error MatchState β}
    (h : SameEnd text top run₁ run₂) (hle : top' ≤ top) : SameEnd text top' run₁ run₂ := by
  rcases h.cases with ⟨b, s₁, s₂, c, rfl, rfl, htop, htwin⟩ | ⟨e, s₁, s₂, c, rfl, rfl, htop, htwin⟩
  · exact ⟨rfl, c, Nat.le_trans hle htop, htwin⟩
  · exact ⟨rfl, c, Nat.le_trans hle htop, htwin⟩

namespace Twin

variable {c : Cursor} {s₁ s₂ : MatchState}

theorem position_eq (h : Twin text c s₁ s₂) : s₁.stream.position = s₂.stream.position :=
  h.first.position_eq.trans h.second.position_eq.symm

theorem depth_eq (h : Twin text c s₁ s₂) : s₁.stream.depth = s₂.stream.depth := by
  rw [Stream.depth, Stream.depth, h.first.saved_eq, h.second.saved_eq]

theorem report (h : Twin text c s₁ s₂) (event : Event) :
    Twin text c (s₁.report event) (s₂.report event) :=
  ⟨h.first, h.second, h.guard_eq, congrArg (event :: ·) h.events_eq⟩

theorem enter (h : Twin text c s₁ s₂) (key : Name × Int) :
    Twin text c (s₁.enter key) (s₂.enter key) :=
  ⟨h.first, h.second, congrArg (key :: ·) h.guard_eq, h.events_eq⟩

theorem leave (h : Twin text c s₁ s₂) (key : Name × Int) :
    Twin text c (s₁.leave key) (s₂.leave key) :=
  ⟨h.first, h.second, congrArg (List.erase · key) h.guard_eq, h.events_eq⟩

/-- The second twin stands somewhere in the text. -/
theorem stands (h : Twin text c s₁ s₂) : Stands text s₂.guard c.position s₂ := ⟨h.second.reads, rfl⟩

theorem symm (h : Twin text c s₁ s₂) : Twin text c s₂ s₁ :=
  ⟨h.second, h.first, h.guard_eq.symm, h.events_eq.symm⟩

end Twin

namespace InStep

variable {x y : MatchM β} {f f' : β → MatchM γ}

theorem pure (b : β) : InStep text (Pure.pure b) (Pure.pure b) :=
  fun _ _ c htwin => ⟨rfl, c, Nat.le_refl _, htwin⟩

theorem throw (e : Error) : InStep (β := β) text (MonadExcept.throw e) (MonadExcept.throw e) :=
  fun _ _ c htwin => ⟨rfl, c, Nat.le_refl _, htwin⟩

theorem bind (h : InStep text x y) (h' : ∀ b, InStep text (f b) (f' b)) :
    InStep text (x >>= f) (y >>= f') := by
  intro s₁ s₂ c htwin
  rcases (h s₁ s₂ c htwin).cases with
    ⟨b, s₁', s₂', c', hrun₁, hrun₂, htop, htwin'⟩ | ⟨e, s₁', s₂', c', hrun₁, hrun₂, htop, htwin'⟩
  · rw [Step.bind_ok hrun₁, Step.bind_ok hrun₂]
    exact (h' b s₁' s₂' c' htwin').mono htop
  · rw [Step.bind_error hrun₁, Step.bind_error hrun₂]
    exact ⟨rfl, c', htop, htwin'⟩

theorem ite {p : Prop} [Decidable p] {x' y' : MatchM β} (h : InStep text x y)
    (h' : InStep text x' y') : InStep text (if p then x else x') (if p then y else y') := by
  split
  · exact h
  · exact h'

theorem position : InStep text MatchM.position MatchM.position :=
  fun _ _ c htwin => ⟨htwin.position_eq, c, Nat.le_refl _, htwin⟩

theorem isInProgress (key : Name × Int) :
    InStep text (MatchM.isInProgress key) (MatchM.isInProgress key) :=
  fun _ _ c htwin => ⟨by rw [htwin.guard_eq], c, Nat.le_refl _, htwin⟩

theorem report (event : Event) :
    InStep text (modify fun s => s.report event) (modify fun s => s.report event) :=
  fun _ _ c htwin => ⟨rfl, c, Nat.le_refl _, htwin.report event⟩

/-- An operation that is one of a cursor. -/
theorem onStream {op : StreamM β} (h : ∃ spec, Stream.Refines text op spec) :
    InStep text (MatchM.onStream op) (MatchM.onStream op) := by
  intro s₁ s₂ c htwin
  obtain ⟨spec, hrefines⟩ := h
  have htracks₁ := hrefines s₁.stream c htwin.first
  have htracks₂ := hrefines s₂.stream c htwin.second
  cases hspec : spec c with
  | ok b c' =>
    rw [hspec] at htracks₁ htracks₂
    obtain ⟨htop, stream₁, hrun₁, hat₁⟩ := htracks₁
    obtain ⟨-, stream₂, hrun₂, hat₂⟩ := htracks₂
    rw [onStream_ok hrun₁, onStream_ok hrun₂]
    exact ⟨rfl, c', htop, hat₁, hat₂, htwin.guard_eq, htwin.events_eq⟩
  | error e c' =>
    rw [hspec] at htracks₁ htracks₂
    obtain ⟨htop, stream₁, hrun₁, hat₁⟩ := htracks₁
    obtain ⟨-, stream₂, hrun₂, hat₂⟩ := htracks₂
    rw [onStream_error hrun₁, onStream_error hrun₂]
    exact ⟨rfl, c', htop, hat₁, hat₂, htwin.guard_eq, htwin.events_eq⟩

theorem peek : InStep text (MatchM.onStream Stream.peek) (MatchM.onStream Stream.peek) :=
  .onStream ⟨_, Stream.peek_refines⟩

theorem advance (count : Int) :
    InStep text (MatchM.onStream (Stream.advance count)) (MatchM.onStream (Stream.advance count)) :=
  .onStream ⟨_, Stream.advance_refines count⟩

theorem substring (count : Int) : InStep text (MatchM.onStream (Stream.substring count))
    (MatchM.onStream (Stream.substring count)) :=
  .onStream ⟨_, Stream.substring_refines count⟩

theorem save : InStep text (MatchM.onStream Stream.save) (MatchM.onStream Stream.save) :=
  .onStream ⟨_, Stream.save_refines⟩

theorem revert : InStep text (MatchM.onStream Stream.revert) (MatchM.onStream Stream.revert) :=
  .onStream ⟨_, Stream.revert_refines⟩

theorem discard : InStep text (MatchM.onStream Stream.discard) (MatchM.onStream Stream.discard) :=
  .onStream ⟨_, Stream.discard_refines⟩

end InStep

/-! ### Texts and characters -/

theorem matchLiteral_refines (cs : List Char) :
    ∃ spec, Stream.Refines text (matchLiteral cs) spec := by
  induction cs with
  | nil => exact ⟨_, .pure true⟩
  | cons c cs ih =>
    obtain ⟨spec, hspec⟩ := ih
    refine ⟨Cursor.next text >>= fun c' => if c' ≠ c then pure false else spec,
      Stream.next_refines.bind fun c' => ?_⟩
    by_cases heq : c' ≠ c
    · rw [if_pos heq, if_pos heq]
      exact .pure false
    · rw [if_neg heq, if_neg heq]
      exact hspec

theorem matchCodes_refines (codes : List Nat) :
    ∃ spec, Stream.Refines text (matchCodes codes) spec := by
  induction codes with
  | nil => exact ⟨_, .pure true⟩
  | cons code codes ih =>
    obtain ⟨spec, hspec⟩ := ih
    refine ⟨Cursor.next text >>= fun c => if c.toNat ≠ code then pure false else spec,
      Stream.next_refines.bind fun c => ?_⟩
    by_cases heq : c.toNat ≠ code
    · rw [if_pos heq, if_pos heq]
      exact .pure false
    · rw [if_neg heq, if_neg heq]
      exact hspec

theorem matchSwitch_inStep (name : Name) (ranges : CharClass) :
    InStep text (matchSwitch (α := α) name ranges) (matchSwitch name ranges) := by
  refine .bind .position fun start => .bind .peek fun c => ?_
  cases ranges.find? c.toNat with
  | none => exact .pure _
  | some ordinal => exact .bind (.advance 1) fun _ => .bind (.substring 1) fun _ => .pure _

theorem spanToken_inStep (kind : Kind) (name : Name) (start stop : Int)
    (children : List (Token α)) :
    InStep text (spanToken kind name start stop children)
      (spanToken kind name start stop children) :=
  .bind .position fun _ => .bind (.onStream ⟨_, Stream.regress_refines _⟩) fun _ =>
    .bind (.substring _) fun _ => .pure _

/-! ### The loops -/

section Loops

variable {g : Graph} {ask : Ask α} {skip : Ref}

/-- Whatever symbol is asked for, twins stay twins. -/
def Ask.InStep (text : List Char) (ask : Ask α) : Prop :=
  ∀ ref skip, GrammarEngine.InStep text (ask ref skip) (ask ref skip)

theorem skipBefore_inStep (hask : ask.InStep text) (found : List (Token α)) :
    InStep text (skipBefore ask skip found) (skipBefore ask skip found) := by
  unfold skipBefore
  split
  · exact .bind (hask skip .zeroLength) fun _ => .pure _
  · exact .pure _

theorem matchMembers_inStep (hask : ask.InStep text) (members : List Ref) (stop : Int)
    (found : List (Token α)) :
    InStep text (matchMembers ask skip stop found members)
      (matchMembers ask skip stop found members) := by
  induction members generalizing stop found with
  | nil => exact .pure _
  | cons member members ih =>
    unfold matchMembers
    refine .bind (skipBefore_inStep hask found) fun _ => .bind (hask member skip) fun token? => ?_
    cases token? with
    | none => exact .pure _
    | some token =>
      cases hempty : token.isEmpty
      all_goals simp only [hempty, if_true, Bool.false_eq_true, if_false]
      · exact .bind .position fun stop => ih stop (token :: found)
      · exact .bind (.pure _) fun stop => ih stop (token :: found)

theorem matchAlternatives_inStep (hask : ask.InStep text) (members : List Ref) (start : Int)
    (ordinal : Nat) :
    InStep text (matchAlternatives g ask skip start ordinal members)
      (matchAlternatives g ask skip start ordinal members) := by
  induction members generalizing ordinal with
  | nil => exact .pure _
  | cons member members ih =>
    unfold matchAlternatives
    refine .bind (.isInProgress _) fun inProgress => ?_
    cases inProgress with
    | true => exact ih (ordinal + 1)
    | false =>
      refine .bind (hask member skip) fun token? => ?_
      cases token? with
      | none => exact ih (ordinal + 1)
      | some token => exact .pure _

theorem matchRounds_inStep (hask : ask.InStep text) (inner : Ref) (rounds : Nat) (stop : Int)
    (afterEmpty : Bool) (found : List (Token α)) :
    InStep text (matchRounds ask skip inner rounds stop afterEmpty found)
      (matchRounds ask skip inner rounds stop afterEmpty found) := by
  induction rounds generalizing stop afterEmpty found with
  | zero => exact .pure _
  | succ rounds ih =>
    unfold matchRounds
    refine .bind (skipBefore_inStep hask found) fun _ => .bind (hask inner skip) fun token? => ?_
    cases token? with
    | none => exact .pure _
    | some token =>
      exact .ite (.bind .position fun stop => ih stop false (token :: found))
        (.ite (.pure _) (ih stop true (token :: found)))

/-- Rounds beyond those that are enough make no difference. -/
theorem matchRounds_enough {fatal : Error → Prop} {guard : Guard}
    (hask : Obeys g text (fun _ => True) fatal guard 0 ask) (skip inner : Ref)
    {rounds rounds' : Nat}
    {afterEmpty : Bool} {p : Nat} {s : MatchState} (hs : Stands text guard p s)
    (h : EnoughRounds text p afterEmpty rounds) (h' : EnoughRounds text p afterEmpty rounds')
    (stop : Int) (found : List (Token α)) :
    matchRounds ask skip inner rounds stop afterEmpty found s =
      matchRounds ask skip inner rounds' stop afterEmpty found s := by
  induction rounds generalizing rounds' afterEmpty p s stop found with
  | zero => exact absurd h.pos (Nat.lt_irrefl 0)
  | succ rounds ih =>
    obtain ⟨rounds', rfl⟩ := Nat.exists_eq_succ_of_ne_zero (Nat.ne_of_gt h'.pos)
    unfold matchRounds
    refine Step.bind_congr fun _ s₁ hskip => Step.bind_congr fun token? s₂ hrun => ?_
    obtain ⟨q, reach₁, -, hpq, hlands₁⟩ :=
      (skipBefore_obeys hask trivial trivial hs (Nat.zero_le p) found).good_of_ok hskip
    obtain ⟨answer, reach₂, hyields, rfl, hlands₂⟩ :=
      (hask inner skip trivial trivial q s₁ (Nat.zero_le q) (hlands₁.stands hs)).good_of_ok hrun
    cases answer with
    | none => rfl
    | some found' =>
      obtain ⟨token, r⟩ := found'
      obtain ⟨hqr, -, hcovers⟩ := hyields.advances
      have hs₂ : Stands text guard r s₂ := hlands₂.stands (hlands₁.stands hs)
      have hr := hs₂.reads.le_length
      cases hempty : token.isEmpty with
      | false =>
        have hlt : p < r := Nat.lt_of_le_of_lt hpq (hcovers hempty)
        simp only [Option.map_some, hempty, Bool.not_false, if_true, position_bind]
        exact ih hs₂ (h.covers hlt hr) (h'.covers hlt hr) _ _
      | true =>
        simp only [Option.map_some, hempty, Bool.not_true, Bool.false_eq_true, if_false]
        cases afterEmpty with
        | true => rfl
        | false => exact ih hs₂ (h.empty (by omega)) (h'.empty (by omega)) _ _

end Loops

/-! ### The shapes -/

section Shapes

variable {g : Graph} {ask : Ask α} {name : Name} {skip : Ref}

/-- The rounds of a repetition are enough for both of the twins. -/
theorem matchMultiple_inStep {fatal : Error → Prop} (hask : ask.InStep text)
    (hobeys : ∀ guard, Obeys g text (fun _ => True) fatal guard 0 ask) (inner : Ref) :
    InStep text (matchMultiple ask name skip inner) (matchMultiple ask name skip inner) := by
  intro s₁ s₂ c htwin
  have hstands₁ : Stands text s₁.guard c.position s₁ := htwin.symm.stands
  let finish (start : Int) (result : Int × List (Token α)) : MatchM (Option (Token α)) := do
    if result.2.isEmpty then return none
    return some (← spanToken .multiple name start result.1 result.2.reverse)
  have hrun : ∀ s : MatchState, matchMultiple ask name skip inner s =
      (matchRounds ask skip inner (2 * s.stream.remaining + 2) s.stream.position false [] >>=
        finish s.stream.position) s := fun s => rfl
  -- The first twin could as well go as many rounds as the second one.
  have henough : EnoughRounds text c.position false (2 * s₂.stream.remaining + 2) :=
    enoughRounds_remaining htwin.stands
  have hrounds := matchRounds_enough (hobeys _) skip inner hstands₁
    (enoughRounds_remaining hstands₁) henough s₂.stream.position []
  have hinStep : InStep text
      (matchRounds ask skip inner (2 * s₂.stream.remaining + 2) s₂.stream.position false [] >>=
        finish s₂.stream.position)
      (matchRounds ask skip inner (2 * s₂.stream.remaining + 2) s₂.stream.position false [] >>=
        finish s₂.stream.position) :=
    .bind (matchRounds_inStep hask inner _ _ false []) fun found =>
      .ite (.pure _) (.bind (spanToken_inStep _ _ _ _ _) fun _ => .pure _)
  rw [hrun s₁, hrun s₂, htwin.position_eq, Step.bind_eq hrounds]
  exact hinStep s₁ s₂ c htwin

theorem shapeBody_inStep {fatal : Error → Prop} (hask : ask.InStep text)
    (hobeys : ∀ guard, Obeys g text (fun _ => True) fatal guard 0 ask) (shape : Shape) :
    InStep text (shapeBody g ask name skip shape) (shapeBody g ask name skip shape) := by
  cases shape with
  | sequence members =>
    refine .bind .position fun start => .bind .save fun _ =>
      .bind (matchMembers_inStep hask members start []) fun result? => ?_
    cases result? with
    | none => exact .bind .revert fun _ => .pure _
    | some result => exact .bind .discard fun _ => .bind (spanToken_inStep _ _ _ _ _) fun _ => .pure _
  | junction members =>
    refine .bind .position fun start =>
      .bind (matchAlternatives_inStep hask members start 0) fun result? => ?_
    cases result? <;> exact .pure _
  | multiple inner => exact matchMultiple_inStep hask hobeys inner
  | option inner =>
    refine .bind (hask inner skip) fun token? => ?_
    cases token? with
    | none => exact .bind .position fun _ => .pure _
    | some token => exact .pure _
  | star repetition =>
    refine .bind (hask repetition skip) fun token? => ?_
    cases token? with
    | none => exact .bind .position fun _ => .pure _
    | some token => exact .pure _
  | switch ranges => exact matchSwitch_inStep name ranges
  | anyCharacter => exact matchSwitch_inStep name CharClass.all
  | text literal =>
    refine .bind .position fun start => .bind .save fun _ =>
      .bind (.onStream (matchLiteral_refines _)) fun found => ?_
    cases found with
    | true => exact .bind .discard fun _ => .pure _
    | false => exact .bind .revert fun _ => .pure _
  | character literal =>
    exact .bind .position fun start => .bind .peek fun c =>
      .ite (.pure _) (.bind (.advance 1) fun _ => .pure _)
  | oddCharacter => exact .bind .peek fun _ => .pure _
  | oddText codes =>
    exact .bind .save fun _ => .bind (.onStream (matchCodes_refines codes)) fun _ =>
      .bind .revert fun _ => .pure _
  | implicit | zeroLength | foreign => exact .pure _

theorem guarded_inStep {body : MatchM (Option (Token α))} (hbody : InStep text body body) :
    InStep text (guarded name body) (guarded name body) := by
  intro s₁ s₂ c htwin
  unfold guarded
  simp only [htwin.position_eq, htwin.guard_eq, htwin.depth_eq]
  split
  · exact ⟨rfl, c, Nat.le_refl _, htwin.report _⟩
  · rcases (hbody _ _ c (htwin.enter (name, s₂.stream.position))).cases with
      ⟨token?, s₁', s₂', c', hrun₁, hrun₂, htop, htwin'⟩ |
      ⟨e, s₁', s₂', c', hrun₁, hrun₂, htop, htwin'⟩
    · rw [hrun₁, hrun₂]
      cases token? with
      | none => exact ⟨rfl, c', htop, (htwin'.leave _).report _⟩
      | some token => exact ⟨rfl, c', htop, (htwin'.leave _).report _⟩
    · rw [hrun₁, hrun₂]
      cases e with
      | exhausted cause =>
        -- Both streams are put back to where the match began.
        have hle := Nat.le_trans htwin.second.position_le htop
        have hback : Twin text _ { s₁' with stream := s₁'.stream.rewind s₂.stream.position s₂.stream.depth }
            { s₂' with stream := s₂'.stream.rewind s₂.stream.position s₂.stream.depth } :=
          ⟨Stream.rewind_at htwin'.first htwin.second.position_eq hle _,
            Stream.rewind_at htwin'.second htwin.second.position_eq hle _, htwin'.guard_eq,
            htwin'.events_eq⟩
        refine ⟨rfl, _, ?_, (hback.leave _).report _⟩
        exact htop
      | _ => exact ⟨rfl, c', htop, htwin'.leave _⟩

end Shapes

/-- However deep the nesting may be, twins stay twins. -/
theorem matchWithin_inStep (g : Graph) (text : List Char) (limit : Nat) :
    (matchWithin (α := α) g limit).InStep text := by
  induction limit with
  | zero => exact fun ref skip => .throw _
  | succ limit ih =>
    intro ref skip
    rw [matchWithin]
    rcases (g.symbol ref).shape.guarded_or with
      hguarded | hundefined | ⟨target, himplicit⟩ | hzero | hforeign
    · rw [matchStep_guarded skip hguarded]
      exact guarded_inStep (shapeBody_inStep ih (matchWithin_obeys g text limit) _)
    · rw [matchStep_undefined hundefined]
      exact .throw _
    · rw [matchStep_implicit himplicit]
      exact ih target skip
    · rw [matchStep_zeroLength hzero]
      exact .pure _
    · rw [matchStep_foreign hforeign]
      exact .throw _

/-! ### Whole inputs -/

namespace Grammar

variable {σ : Type} {gr : Grammar σ α}

theorem refuse_inStep (complaint : String → Complaint) (position : Nat) :
    InStep (β := β) text (refuse complaint position) (refuse complaint position) :=
  .bind (.onStream ⟨_, Stream.context_refines (some position) 16⟩) fun _ =>
    .bind (.report _) fun _ =>
      .bind (.onStream ⟨_, Stream.location_refines (some position)⟩) fun _ => .throw _

theorem limited_inStep {body : MatchM β} (h : InStep text body body) :
    InStep text (limited body) (limited body) := by
  intro s₁ s₂ c htwin
  unfold limited
  rcases (h s₁ s₂ c htwin).cases with
    ⟨b, s₁', s₂', c', hrun₁, hrun₂, htop, htwin'⟩ | ⟨e, s₁', s₂', c', hrun₁, hrun₂, htop, htwin'⟩
  · rw [hrun₁, hrun₂]
    exact ⟨rfl, c', htop, htwin'⟩
  · rw [hrun₁, hrun₂]
    cases e with
    | nestedTooDeeply =>
      simp only [htwin'.first.furthest_eq, htwin'.second.furthest_eq]
      exact (refuse_inStep _ _ s₁' s₂' c' htwin').mono htop
    | _ => exact ⟨rfl, c', htop, htwin'⟩

theorem finish_inStep (root : Token α) : InStep text (finish root) (finish root) := by
  refine .bind (.onStream ⟨_, Stream.hasNext_refines⟩) fun more => ?_
  cases more with
  | false => exact .pure _
  | true =>
    intro s₁ s₂ c htwin
    have hmax : ∀ s : MatchState, s.stream.At text c →
        max s.stream.position (s.stream.furthest : Int) = (max c.position c.furthest : Nat) := by
      intro s hat
      rw [hat.position_eq, hat.furthest_eq]
      omega
    simp only [if_true, Step.get_bind, hmax s₁ htwin.first, hmax s₂ htwin.second]
    exact InStep.bind (refuse_inStep _ _) (fun _ => .pure root) s₁ s₂ c htwin

/-- Matching from a file goes as matching the text in memory does. -/
theorem matchInput_inStep (gr : Grammar σ α) (limit : Nat) (text : List Char) :
    InStep text (gr.matchInput limit) (gr.matchInput limit) := by
  have hask := matchWithin_inStep (α := α) gr.ruleSet.graph text limit
  rw [matchInput_eq]
  refine .bind (limited_inStep (.bind (hask _ _) fun _ => hask _ _)) fun root? => ?_
  cases root? with
  | none =>
    intro s₁ s₂ c htwin
    simp only [matchEnd, Step.get_bind, htwin.first.furthest_eq, htwin.second.furthest_eq]
    exact refuse_inStep _ _ s₁ s₂ c htwin
  | some root => exact .bind (hask _ _) fun _ => finish_inStep root

variable {text : String} {file : FileSource}

/-- Where the text in memory is matched, the file was read to its end. -/
theorem isWhole_of_matchInput {limit : Nat} {root : Token α} {s₁ s₂ : MatchState} {c : Cursor}
    (hrun : gr.matchInput limit (.beginning text) = .ok root s₂)
    (htwin : Twin text.toList c s₁ s₂) :
    s₁.stream.IsWhole text.toList ∧ s₂.stream.IsWhole text.toList := by
  obtain ⟨s, hok, hreads, hmemory, -⟩ := isOf_accepted hrun
  cases hrun.symm.trans hok
  refine ⟨⟨htwin.first.spells, htwin.first.spells.isPrefix.eq_of_length ?_⟩,
    hreads.isWhole hmemory⟩
  -- The cursor is at the end of the text, and the file was read up to the cursor.
  have hposition := hreads.position
  have hend := htwin.second.position_eq
  have htop := htwin.first.top_le
  have hle := htwin.first.position_le
  have hsize := htwin.first.spells.size_le
  rw [Array.length_toList]
  omega

variable [PayloadType α]

/-- Parsing a file comes to what parsing its text does, wherever the chunks end: the same result,
    the same state and the same events. -/
theorem run_ofFile (gr : Grammar σ α) (limit : Nat) (h : file.Spells text.toList) (state : σ) :
    gr.run limit (.ofFile file) state = gr.parseTree limit text state := by
  have htwin : Twin text.toList .beginning (.ofStream (.ofFile file)) (.beginning text) :=
    ⟨.ofFile h, .ofString text, rfl, rfl⟩
  rcases (matchInput_inStep gr limit text.toList _ _ _ htwin).cases with
    ⟨root, s₁, s₂, c, hrun₁, hrun₂, -, htwin'⟩ | ⟨e, s₁, s₂, c, hrun₁, hrun₂, -, htwin'⟩
  · obtain ⟨hwhole₁, hwhole₂⟩ := isWhole_of_matchInput hrun₂ htwin'
    simp only [parseTree, run, hrun₁, hrun₂]
    cases root.walk gr.listenerFor state with
    | ok value visit => simp only [htwin'.events_eq]
    | error e visit =>
      obtain ⟨s₁', hfail₁, hevents₁⟩ := failWalk_whole (β := Empty) hwhole₁ root e
      obtain ⟨s₂', hfail₂, hevents₂⟩ := failWalk_whole (β := Empty) hwhole₂ root e
      simp only [hfail₁, hfail₂, hevents₁, hevents₂, htwin'.events_eq]
  · simp only [parseTree, run, hrun₁, hrun₂, htwin'.events_eq]

/-- A file that is read as far as needed cannot be told from its text in memory. Whatever is done
    with a stream, within the bounds of what a stream is for, shows the same after every step; and
    whatever the grammar, parsing the file comes to the same payload or error, state and events,
    wherever the chunks end. -/
theorem parseFile_eq :
    (∀ (file : FileSource) (text : String), file.Spells text.toList → ∀ ops : List StreamOp,
      Stream.Admits ops [0] (.ofString text) →
        Stream.trace ops (.ofFile file) = Stream.trace ops (.ofString text)) ∧
    ∀ (gr : Grammar σ α) (limit : Nat) (text : String) (state : σ),
      (∀ file : FileSource, file.Spells text.toList →
        gr.run limit (.ofFile file) state = gr.run limit (.ofString text) state) ∧
      ∀ (bytes : List UInt8) (codec : String) (encoding : Encoding) (file : FileSource),
        FileSource.open? (some bytes) codec FileSource.defaultChunk = .ok file →
        Encoding.named? codec = some encoding →
        encoding.decode .between bytes = some (text.toList, .between) →
          gr.parseFile limit (some bytes) codec state = gr.parse limit text state := by
  refine ⟨fun file text h ops hadmits => Stream.trace_eq h ops hadmits,
    fun gr limit text state => ⟨fun file h => run_ofFile gr limit h state, ?_⟩⟩
  intro bytes codec encoding file hopen hcodec hdecode
  have hspells := FileSource.spells_of_open? hopen hcodec (by decide) hdecode
  simp only [parseFile, hopen, run_ofFile gr limit hspells, parse]

theorem parseFile_eq_lists :
    (∃ file, FileSource.open? (some [120, 32, 120]) "utf-8" 1 = .ok file ∧
      Stream.trace [.advance 2, .save, .reset 0 1, .revert, .context none 1] (.ofFile file) =
        Stream.trace [.advance 2, .save, .reset 0 1, .revert, .context none 1]
          (.ofString "x x")) ∧
    lists.parseFile 50 (some [120, 32, 120]) "utf-8" () = lists.parse 50 "x x" () := by
  have hcodec : Encoding.named? "utf-8" = some .utf8 := by decide +kernel
  have hdecode : Encoding.utf8.decode .between [120, 32, 120] =
      some ("x x".toList, .between) := by decide +kernel
  have hopens : ∀ chunk : Int, 0 < chunk →
      ∃ file, FileSource.open? (some [120, 32, 120]) "utf-8" chunk = .ok file := by
    intro chunk hchunk
    unfold FileSource.open?
    rw [if_neg (Int.not_le.mpr hchunk), if_neg (by decide), hcodec]
    exact ⟨_, rfl⟩
  obtain ⟨htrace, hparse⟩ := parseFile_eq (σ := Unit) (α := Unit)
  constructor
  · obtain ⟨file, hopen⟩ := hopens 1 (by decide)
    refine ⟨file, hopen, htrace file "x x"
      (FileSource.spells_of_open? hopen hcodec (by decide) hdecode) _ ?_⟩
    -- The stream was at the beginning before it went to position 2.
    refine ⟨trivial, trivial, ⟨by simp, by decide⟩, trivial, ⟨nofun, by decide⟩, trivial⟩
  · obtain ⟨file, hopen⟩ := hopens FileSource.defaultChunk (by decide)
    exact (hparse lists 50 "x x" ()).2 _ _ _ file hopen hcodec hdecode

end Grammar

end GrammarEngine
