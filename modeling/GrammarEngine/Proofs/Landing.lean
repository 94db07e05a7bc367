import GrammarEngine.Proofs.Rules

namespace GrammarEngine

/-!
# What matching does to its state

* `Stands` — where a match is about to begin;
* `Lands` — where it left off, with everything but the position as it was;
* `Answered`, `Failed`, `RanOut` — how a match ends: with what a rule says, with an error that goes
  all the way out, or at the end of the text;
* `guarded_answers` — the guard turns running out of text into a failed match;
* `Delivers`, `DeliversInside` — the step gives one particular answer;
* `shapeBody` — what the guard is around;
* `Shape.guarded_or`, `matchStep_guarded`, … — what one symbol comes to.
-/

open MatchM

variable {α β : Type} {text : List Char}

/-! ### Steps of a match -/

namespace MatchM

@[simp] theorem position_bind (f : Int → MatchM β) (s : MatchState) :
    (position >>= f) s = f s.stream.position s := rfl

@[simp] theorem isInProgress_bind (key : Name × Int) (f : Bool → MatchM β) (s : MatchState) :
    (isInProgress key >>= f) s = f (decide (key ∈ s.guard)) s := rfl

theorem position_ends (s : MatchState) {bad : Error → MatchState → Prop} :
    Ends position s (fun here s' => here = s.stream.position ∧ s = s') bad :=
  .of_ok rfl ⟨rfl, rfl⟩

theorem isInProgress_ends (key : Name × Int) (s : MatchState)
    {bad : Error → MatchState → Prop} :
    Ends (isInProgress key) s (fun b s' => b = decide (key ∈ s.guard) ∧ s = s') bad :=
  .of_ok rfl ⟨rfl, rfl⟩

theorem onStream_ok {op : StreamM β} {b : β} {s : MatchState} {stream : Stream}
    (h : op s.stream = .ok b stream) : onStream op s = .ok b { s with stream } := by
  rw [onStream, h]

theorem onStream_error {op : StreamM β} {e : Error} {s : MatchState} {stream : Stream}
    (h : op s.stream = .error e stream) : onStream op s = .error e { s with stream } := by
  rw [onStream, h]

end MatchM

/-! ### What matching does to the state -/

/-- The stream stands at a position of the text, and these matches are in progress. -/
structure Stands (text : List Char) (guard : Guard) (p : Nat) (s : MatchState) : Prop where
  reads : s.stream.Reads text p
  guard_eq : s.guard = guard

/-- From `s` a match came to position `q`. The furthest place it looked at is `reach`; the saved
    positions and the matches in progress are the same as before. -/
structure Lands (text : List Char) (s s' : MatchState) (q reach : Nat) : Prop where
  stream : Stream.Goes text s.stream s'.stream q reach
  guard_eq : s'.guard = s.guard

/-- The state that stands at a position of a text in memory, with nothing saved. -/
def MatchState.reading (text : List Char) (guard : Guard) (p : Nat) : MatchState :=
  { stream := { Stream.ofString (.ofList text) with position := p }, guard, events := [] }

theorem Stands.reading {guard : Guard} {p : Nat} (hp : p ≤ text.length) :
    Stands text guard p (.reading text guard p) :=
  ⟨⟨rfl, hp, by simp [MatchState.reading, Stream.Spells, Stream.ofString]⟩, rfl⟩

namespace Lands

variable {s s' s'' : MatchState} {guard : Guard} {p q r reach reach' : Nat}

theorem refl (h : Stands text guard p s) : Lands text s s p 0 := ⟨.refl h.reads, rfl⟩

theorem trans (h : Lands text s s' q reach) (h' : Lands text s' s'' r reach') :
    Lands text s s'' r (max reach reach') :=
  ⟨h.stream.trans h'.stream, h'.guard_eq.trans h.guard_eq⟩

theorem moved (h : Lands text s s' q reach) (hs : Stands text guard p s) :
    q ≤ s'.stream.buffer.size ∨ q = p := by
  have hmoved := h.stream.moved
  rw [hs.reads.position] at hmoved
  omega

theorem stands (h : Lands text s s' q reach) (hs : Stands text guard p s) :
    Stands text guard q s' :=
  ⟨h.stream.reads, h.guard_eq.trans hs.guard_eq⟩

end Lands

/-- The step ended well, with what a rule says. -/
def Answered (rule : Answer α → (reach : Nat) → Prop) (text : List Char) (p : Nat)
    (s : MatchState) (token? : Option (Token α)) (s' : MatchState) : Prop :=
  ∃ answer reach, rule answer reach ∧ token? = answer.map Prod.fst ∧
    Lands text s s' (landing p answer) reach

/-- The step ended badly, with an error of some sort; these matches are in progress still. -/
def Failed (fatal : Error → Prop) (guard : Guard) (e : Error) (s' : MatchState) : Prop :=
  fatal e ∧ s'.guard = guard

/-- The step ran out of text on the way, where a rule says that it fails. -/
def RanOut (rule : Answer α → (reach : Nat) → Prop) (text : List Char) (s : MatchState)
    (e : Error) (s' : MatchState) : Prop :=
  (∃ cause, e = .exhausted cause) ∧
    ∃ reach, rule none reach ∧ Stream.Strays text s.stream s'.stream reach ∧ s'.guard = s.guard

section Guarded

variable {rule rule' : Answer α → (reach : Nat) → Prop} {fatal : Error → Prop} {guard : Guard}
  {p : Nat} {s : MatchState} {body : MatchM (Option (Token α))}

theorem Answered.mono {token? : Option (Token α)} {s' : MatchState}
    (h : Answered rule text p s token? s') (hrule : ∀ answer reach, rule answer reach →
      rule' answer reach) : Answered rule' text p s token? s' := by
  obtain ⟨answer, reach, hanswer, htoken, hlands⟩ := h
  exact ⟨answer, reach, hrule answer reach hanswer, htoken, hlands⟩

/-- A symbol that is in progress fails at once. -/
theorem guarded_inProgress {name : Name} (hs : Stands text guard p s)
    (hmem : (name, (p : Int)) ∈ guard) :
    ∃ s', guarded name body s = .ok none s' ∧ Lands text s s' p 0 := by
  refine ⟨s.report (.inProgress name p), ?_, ⟨.refl hs.reads, rfl⟩⟩
  simp [guarded, hs.reads.position, hs.guard_eq, hmem]

/-- Where the symbol is not in progress, the guard lets through what its body says, and running
    out of text is a failure. -/
theorem guarded_answers {name : Name} (hs : Stands text guard p s)
    (hfresh : (name, (p : Int)) ∉ guard) (hfatal : ∀ cause, ¬ fatal (.exhausted cause))
    (hbody : ∀ s, Stands text ((name, (p : Int)) :: guard) p s →
      Ends body s (Answered rule text p s) fun e s' =>
        Failed fatal ((name, (p : Int)) :: guard) e s' ∨ RanOut rule text s e s') :
    Ends (guarded name body) s (Answered rule text p s) (Failed fatal guard) := by
  have hinside : Stands text ((name, (p : Int)) :: guard) p (s.enter (name, (p : Int))) :=
    ⟨hs.reads, by rw [MatchState.enter, hs.guard_eq]⟩
  have hbody := hbody _ hinside
  -- The key that was put in front is the one that is taken away.
  have hleave : ∀ s' : MatchState, s'.guard = (name, (p : Int)) :: guard →
      (s'.leave (name, (p : Int))).guard = guard := by
    intro s' hguard
    rw [MatchState.leave, hguard, List.erase_cons_head]
  unfold Ends guarded
  simp only [hs.reads.position, hs.guard_eq, hfresh, if_false]
  unfold Ends at hbody
  cases hrun : body (s.enter (name, (p : Int))) with
  | ok token? s' =>
    rw [hrun] at hbody
    obtain ⟨answer, reach, hrule, htoken, hlands⟩ := hbody
    have hguard : (s'.leave (name, (p : Int))).guard = s.guard := by
      rw [hleave s' (hlands.guard_eq.trans hinside.guard_eq), hs.guard_eq]
    cases token? with
    | none => exact ⟨answer, reach, hrule, htoken, ⟨hlands.stream, hguard⟩⟩
    | some token => exact ⟨answer, reach, hrule, htoken, ⟨hlands.stream, hguard⟩⟩
  | error e s' =>
    rw [hrun] at hbody
    rcases hbody with ⟨he, hguard⟩ | ⟨⟨cause, rfl⟩, reach, hrule, hstrays, hguard⟩
    · cases e with
      | exhausted cause => exact absurd he (hfatal cause)
      | _ => exact ⟨he, hleave s' hguard⟩
    · have hgoes : Stream.Goes text s.stream
          (s'.stream.rewind (s.enter (name, (p : Int))).stream.position s.stream.depth) p reach :=
        hstrays.rewind hs.reads
      have hguard' : (s'.leave (name, (p : Int))).guard = s.guard := by
        rw [hleave s' (hguard.trans hinside.guard_eq), hs.guard_eq]
      refine ⟨none, reach, hrule, rfl, ⟨?_, hguard'⟩⟩
      rw [MatchState.stream_enter, hs.reads.position] at hgoes
      exact hgoes

end Guarded

/-! ### Runs of the loops -/

section Loops

variable {ask : Ask α} {skip member inner : Ref} {rest : List Ref} {found : List (Token α)}
  {token : Token α} {s s₁ s₂ : MatchState} {stop r rounds : Nat} {afterEmpty : Bool}

theorem matchMembers_matched (hskip : skipBefore ask skip found s = .ok () s₁)
    (hmember : ask member skip s₁ = .ok (some token) s₂) (hposition : s₂.stream.position = r) :
    matchMembers ask skip stop found (member :: rest) s =
      matchMembers ask skip ((if token.isEmpty then stop else r : Nat) : Int) (token :: found) rest
        s₂ := by
  rw [matchMembers, Step.bind_ok hskip, Step.bind_ok hmember]
  cases hempty : token.isEmpty <;> simp [hempty, hposition]

theorem matchRounds_fails (hskip : skipBefore ask skip found s = .ok () s₁)
    (hinner : ask inner skip s₁ = .ok none s₂) :
    matchRounds ask skip inner (rounds + 1) stop afterEmpty found s =
      .ok ((stop : Int), found) s₂ := by
  rw [matchRounds, Step.bind_ok hskip]
  exact Step.bind_ok hinner _

theorem matchRounds_covers (hskip : skipBefore ask skip found s = .ok () s₁)
    (hinner : ask inner skip s₁ = .ok (some token) s₂) (hposition : s₂.stream.position = r)
    (hcovers : token.isEmpty = false) :
    matchRounds ask skip inner (rounds + 1) stop afterEmpty found s =
      matchRounds ask skip inner rounds r false (token :: found) s₂ := by
  rw [matchRounds, Step.bind_ok hskip, Step.bind_ok hinner]
  simp [hcovers, hposition]

theorem matchRounds_empty (hskip : skipBefore ask skip found s = .ok () s₁)
    (hinner : ask inner skip s₁ = .ok (some token) s₂) (hempty : token.isEmpty = true) :
    matchRounds ask skip inner (rounds + 1) stop false found s =
      matchRounds ask skip inner rounds stop true (token :: found) s₂ := by
  rw [matchRounds, Step.bind_ok hskip, Step.bind_ok hinner]
  simp [hempty]

theorem matchRounds_secondEmpty (hskip : skipBefore ask skip found s = .ok () s₁)
    (hinner : ask inner skip s₁ = .ok (some token) s₂) (hempty : token.isEmpty = true) :
    matchRounds ask skip inner (rounds + 1) stop true found s =
      .ok ((stop : Int), found) s₂ := by
  rw [matchRounds, Step.bind_ok hskip, Step.bind_ok hinner]
  simp [hempty]

end Loops

/-! ### Particular answers -/

/-- The rule that says one particular answer. -/
structure Exactly (answer : Answer α) (reach : Nat) (found : Answer α) (reach' : Nat) : Prop where
  answer_eq : found = answer
  reach_eq : reach' = reach

/-- Taken at the position, the step gives the answer. -/
def Delivers (text : List Char) (guard : Guard) (p : Nat) (answer : Answer α) (reach : Nat)
    (x : MatchM (Option (Token α))) : Prop :=
  ∀ s, Stands text guard p s →
    ∃ s', x s = .ok (answer.map Prod.fst) s' ∧ Lands text s s' (landing p answer) reach

/-- Taken at the position, the step gives the answer, or it runs out of text where the answer is a
    failure. -/
def DeliversInside (text : List Char) (guard : Guard) (p : Nat) (answer : Answer α) (reach : Nat)
    (x : MatchM (Option (Token α))) : Prop :=
  ∀ s, Stands text guard p s →
    Ends x s (Answered (Exactly answer reach) text p s) (RanOut (Exactly answer reach) text s)

theorem Delivers.inside {guard : Guard} {p reach : Nat} {answer : Answer α}
    {x : MatchM (Option (Token α))} (h : Delivers text guard p answer reach x) :
    DeliversInside text guard p answer reach x := by
  intro s hs
  obtain ⟨s', hrun, hlands⟩ := h s hs
  exact .of_ok hrun ⟨answer, reach, ⟨rfl, rfl⟩, rfl, hlands⟩

theorem DeliversInside.guarded {guard : Guard} {name : Name} {p reach : Nat} {answer : Answer α}
    {body : MatchM (Option (Token α))} (hfresh : (name, (p : Int)) ∉ guard)
    (h : DeliversInside text ((name, (p : Int)) :: guard) p answer reach body) :
    Delivers text guard p answer reach (guarded name body) := by
  intro s hs
  -- No error is fatal here, so the guard turns all of them into a failed match.
  have hbody : ∀ s, Stands text ((name, (p : Int)) :: guard) p s →
      Ends body s (Answered (Exactly answer reach) text p s) fun e s' =>
        Failed (fun _ => False) ((name, (p : Int)) :: guard) e s' ∨
          RanOut (Exactly answer reach) text s e s' := by
    intro s hs
    exact (h s hs).mono (fun _ _ h => h) fun _ _ => .inr
  have hends := guarded_answers hs hfresh (fun _ => id) hbody
  rcases hends.elim with ⟨_, s', hrun, _, _, ⟨rfl, rfl⟩, rfl, hlands⟩ | ⟨e, s', -, hfalse, -⟩
  · exact ⟨s', hrun, hlands⟩
  · exact hfalse.elim

/-! ### Shapes in general -/

/-- The state with a position saved. -/
def MatchState.saving (s : MatchState) (p : Nat) : MatchState :=
  { s with stream := { s.stream with saved := p :: s.stream.saved } }

theorem Stands.saving {guard : Guard} {p : Nat} {s : MatchState} (hs : Stands text guard p s) :
    Stands text guard p (s.saving p) :=
  ⟨⟨hs.reads.position, hs.reads.le_length, hs.reads.spells⟩, hs.guard_eq⟩

theorem saving_run {guard : Guard} {p : Nat} {s : MatchState} (hs : Stands text guard p s) :
    onStream Stream.save s = .ok () (s.saving p) := onStream_ok (Stream.save_eq hs.reads)

/-- The saved position is dropped. -/
theorem discard_lands {s s' : MatchState} {p q reach : Nat}
    (h : Lands text (s.saving p) s' q reach) :
    ∃ s'', onStream Stream.discard s' = .ok () s'' ∧ Lands text s s'' q reach :=
  ⟨_, onStream_ok (Stream.discard_eq h.stream.saved), ⟨⟨⟨h.stream.reads.position,
    h.stream.reads.le_length, h.stream.reads.spells⟩, h.stream.loaded, h.stream.moved,
    h.stream.furthest, rfl⟩, h.guard_eq⟩⟩

/-- The stream goes back to the saved position. -/
theorem revert_lands {guard : Guard} {s s' : MatchState} {p q reach : Nat}
    (hs : Stands text guard p s) (h : Lands text (s.saving p) s' q reach) :
    ∃ s'', onStream Stream.revert s' = .ok () s'' ∧ Lands text s s'' p reach :=
  ⟨_, onStream_ok (Stream.revert_eq h.stream.saved), ⟨⟨⟨rfl,
    hs.reads.le_length, h.stream.reads.spells⟩, h.stream.loaded, .inr hs.reads.position.symm,
    h.stream.furthest, rfl⟩, h.guard_eq⟩⟩

/-- The token from one position to another one, where the stream goes back to. -/
theorem spanToken_lands {guard : Guard} {s : MatchState} {p stop q : Nat}
    (hs : Stands text guard q s) (hmoved : q ≤ s.stream.buffer.size ∨ q = p) (hp : p ≤ stop)
    (hstop : stop ≤ q) (kind : Kind) (name : Name) (tokens : List (Token α)) :
    ∃ s', spanToken kind name p stop tokens s =
        .ok (.spanning kind name text p stop tokens) s' ∧ Lands text s s' stop 0 := by
  obtain ⟨s₁, hregress, hgoes⟩ := Stream.regress_goes hs.reads hstop (by omega)
  -- Going back leaves the buffer as it is.
  have hmoved' : stop ≤ s₁.buffer.size ∨ stop = p := by
    have hloaded := hgoes.loaded
    omega
  have hsubstring := Stream.substring_eq hgoes.reads hp hmoved'
  refine ⟨{ s with stream := s₁ }, ?_, ⟨hgoes, rfl⟩⟩
  have hposition : position s = .ok (q : Int) s := by rw [position, hs.reads.position]
  rw [spanToken, Step.bind_ok hposition, Step.bind_ok (onStream_ok hregress),
    Step.bind_ok (onStream_ok hsubstring)]
  rfl

/-- What the guard is around, for the shapes that are guarded. -/
def shapeBody (g : Graph) (ask : Ask α) (name : Name) (skip : Ref) :
    Shape → MatchM (Option (Token α))
  | .sequence members => matchSequence ask name skip members
  | .junction members => matchJunction g ask name skip members
  | .multiple inner => matchMultiple ask name skip inner
  | .option inner => matchOption ask name skip inner
  | .star repetition => matchStar ask name skip repetition
  | .switch ranges => matchSwitch name ranges
  | .anyCharacter => matchSwitch name CharClass.all
  | .text literal => matchText name literal
  | .character literal => matchCharacter name literal
  | .oddCharacter _ => matchOddCharacter
  | .oddText codes => matchOddText codes
  | .implicit _ | .zeroLength | .foreign => pure none

/-- The shapes without a guard are the implicit ones, the zero-length one, and what is no
    symbol. -/
theorem Shape.guarded_or (shape : Shape) :
    shape.isGuarded = true ∨ shape = .implicit none ∨ (∃ target, shape = .implicit (some target)) ∨
      shape = .zeroLength ∨ shape = .foreign := by
  cases shape with
  | implicit target? => cases target? <;> simp
  | _ => simp [isGuarded]

section Step

variable {g : Graph} {ask : Ask α} {ref target : Ref} {skip : Ref}

theorem matchStep_guarded (skip : Ref) (h : (g.symbol ref).shape.isGuarded = true) :
    matchStep g ask ref skip = guarded (g.symbol ref).name
      (shapeBody g ask (g.symbol ref).name (skipInside (g.symbol ref).name skip)
        (g.symbol ref).shape) := by
  cases hshape : (g.symbol ref).shape with
  | implicit | zeroLength | foreign =>
    rw [hshape] at h
    cases h
  | _ => simp only [matchStep, hshape, shapeBody, skipInside]

theorem matchStep_implicit (h : (g.symbol ref).shape = .implicit (some target)) :
    matchStep g ask ref skip = ask target skip := by
  simp only [matchStep, h]

theorem matchStep_undefined (h : (g.symbol ref).shape = .implicit none) :
    matchStep g ask ref skip = throw (.configuration (.neverDefined (g.symbol ref).name)) := by
  simp only [matchStep, h]

theorem matchStep_zeroLength (h : (g.symbol ref).shape = .zeroLength) :
    matchStep g ask ref skip = pure (some (.sentinel .empty)) := by
  simp only [matchStep, h]

theorem matchStep_foreign (h : (g.symbol ref).shape = .foreign) :
    matchStep g ask ref skip = throw .noAttribute := by
  simp only [matchStep, h]

end Step

end GrammarEngine
