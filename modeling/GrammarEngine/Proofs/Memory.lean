import GrammarEngine.Grammar.Basic
import GrammarEngine.Proofs.Demands
import GrammarEngine.Proofs.Landing

namespace GrammarEngine

/-!
# Texts in memory

A text in memory can be reported about at any time, also after a match that failed half-way: there
is nothing left to read that could go wrong.

* `Keeps` — a step that keeps a property of the state, however it ends;
* `Stream.InMemory` — the stream is over a text in memory, and all operations keep it so;
* `matchWithin_inMemory` — so does a match;
* `Grammar.refuse_inMemory`, `Grammar.locateError_inMemory` — refusing the input is an error in the
  input, and nothing else.
-/

/-- What is known of the end of a step in two ways is known together. -/
theorem Ends.and {σ β : Type} {x : EStateM Error σ β} {s : σ} {good good' : β → σ → Prop}
    {bad bad' : Error → σ → Prop} (h : Ends x s good bad) (h' : Ends x s good' bad') :
    Ends x s (fun b s' => good b s' ∧ good' b s') fun e s' => bad e s' ∧ bad' e s' := by
  rcases h.elim with ⟨b, s', hrun, hb⟩ | ⟨e, s', hrun, he⟩
  · rw [Ends, hrun] at h'
    exact .of_ok hrun ⟨hb, h'⟩
  · rw [Ends, hrun] at h'
    exact .of_error hrun ⟨he, h'⟩

section Keeps

variable {σ β γ : Type} {P : σ → Prop} {x : EStateM Error σ β} {f : β → EStateM Error σ γ}

/-- Started where the property holds, the step ends where it holds. -/
def Keeps (P : σ → Prop) (x : EStateM Error σ β) : Prop :=
  ∀ s, P s → Ends x s (fun _ s' => P s') fun _ s' => P s'

namespace Keeps

theorem pure (b : β) : Keeps P (Pure.pure b : EStateM Error σ β) := fun _ hs => .of_ok rfl hs

theorem throw (e : Error) : Keeps P (MonadExcept.throw e : EStateM Error σ β) :=
  fun _ hs => .of_error rfl hs

theorem bind (hx : Keeps P x) (hf : ∀ b, Keeps P (f b)) : Keeps P (x >>= f) :=
  fun s hs => .bind (hx s hs) fun b s' hs' => hf b s' hs'

theorem ite {c : Prop} [Decidable c] {y : EStateM Error σ β} (hx : Keeps P x) (hy : Keeps P y) :
    Keeps P (if c then x else y) := by
  split
  · exact hx
  · exact hy

end Keeps

end Keeps

/-! ### Streams -/

namespace Stream

/-- The stream is over a text in memory. -/
def InMemory (s : Stream) : Prop := s.source = .memory

theorem fill_inMemory {s : Stream} (hs : s.InMemory) : fill s = .ok false s := by
  rw [fill, hs]

theorem fillUpTo_inMemory {s : Stream} (hs : s.InMemory) (length steps : Nat) :
    fillUpTo length steps s = .ok (decide (length ≤ s.buffer.size)) s := by
  cases steps with
  | zero => rfl
  | succ steps =>
    by_cases hle : length ≤ s.buffer.size
    · simp [fillUpTo, hle]
    · simp [fillUpTo, hle, Step.bind_ok (fill_inMemory hs)]

/-- Asking for more of a text in memory changes nothing. -/
theorem ensure_inMemory {s : Stream} (hs : s.InMemory) (length : Int) :
    ∃ enough, ensure length s = .ok enough s := by
  by_cases hle : length ≤ s.buffer.size
  · exact ⟨true, by simp [ensure, hle]⟩
  · refine ⟨decide (length.toNat ≤ s.buffer.size), ?_⟩
    rw [ensure, Step.get_bind, if_neg hle]
    exact fillUpTo_inMemory hs _ _

theorem hasNext_inMemory {s : Stream} (hs : s.InMemory) : ∃ more, hasNext s = .ok more s :=
  ensure_inMemory hs (s.position + 1)

theorem location_inMemory {s : Stream} (hs : s.InMemory) (position : Int) :
    ∃ found, location (some position) s = .ok found s := by
  obtain ⟨enough, hensure⟩ := ensure_inMemory hs position
  exact ⟨_, by rw [location, Step.get_bind]; exact Step.bind_ok hensure _⟩

theorem context_inMemory {s : Stream} (hs : s.InMemory) (position width : Int) :
    ∃ found, context (some position) width s = .ok found s := by
  obtain ⟨enough, hensure⟩ := ensure_inMemory hs (position + width + 1)
  exact ⟨_, by rw [context, Step.get_bind]; exact Step.bind_ok hensure _⟩

/-- What leaves the text alone keeps it in memory. -/
theorem Leaves.inMemory {β : Type} {x : StreamM β} {s : Stream} (h : Leaves s x s)
    (hs : s.InMemory) : Ends x s (fun _ s' => s'.InMemory) fun _ s' => s'.InMemory :=
  h.mono (fun _ _ hsame => hsame.source_eq.trans hs) fun _ _ hsame => hsame.source_eq.trans hs

theorem peek_keeps : Keeps InMemory peek := by
  intro s hs
  obtain ⟨enough, hensure⟩ := ensure_inMemory hs (s.position + 1)
  exact (peek_leaves hensure).inMemory hs

theorem next_keeps : Keeps InMemory next :=
  peek_keeps.bind fun _ _ hs => .of_ok rfl hs

theorem advance_keeps (count : Int) : Keeps InMemory (advance count) := by
  intro s hs
  obtain ⟨enough, hensure⟩ := ensure_inMemory hs (s.position + count)
  by_cases hneg : count < 0
  · exact (advance_leaves_of_neg s hneg).inMemory hs
  · exact (advance_leaves hneg hensure).inMemory hs

theorem regress_keeps (count : Int) : Keeps InMemory (regress count) :=
  fun s hs => (regress_leaves s count).inMemory hs

theorem substring_keeps (count : Int) : Keeps InMemory (substring count) :=
  fun s hs => (substring_leaves s count).inMemory hs

theorem save_keeps : Keeps InMemory save := fun s hs => (save_leaves s).inMemory hs

theorem revert_keeps : Keeps InMemory revert := fun s hs => (revert_leaves s).inMemory hs

theorem discard_keeps : Keeps InMemory discard := fun s hs => (discard_leaves s).inMemory hs

end Stream

/-! ### Matching -/

open MatchM

variable {α β : Type} {g : Graph} {ask : Ask α} {name : Name} {skip : Ref}

namespace MatchState

/-- The match is over a text in memory. -/
def InMemory (s : MatchState) : Prop := s.stream.InMemory

end MatchState

open MatchState

theorem onStream_keeps {op : StreamM β} (h : Keeps Stream.InMemory op) :
    Keeps InMemory (onStream op) := by
  intro s hs
  rcases (h s.stream hs).elim with ⟨b, stream, hrun, hstream⟩ | ⟨e, stream, hrun, hstream⟩
  · exact .of_ok (onStream_ok hrun) hstream
  · exact .of_error (onStream_error hrun) hstream

theorem position_keeps : Keeps InMemory position := fun _ hs => .of_ok rfl hs

theorem isInProgress_keeps (key : Name × Int) : Keeps InMemory (isInProgress key) :=
  fun _ hs => .of_ok rfl hs

/-- Whatever symbol is asked for, the text stays in memory. -/
def Ask.Keeps (ask : Ask α) : Prop := ∀ ref skip, GrammarEngine.Keeps InMemory (ask ref skip)

theorem skipBefore_keeps (hask : ask.Keeps) (found : List (Token α)) :
    Keeps InMemory (skipBefore ask skip found) := by
  unfold skipBefore
  split
  · exact .bind (hask skip .zeroLength) fun _ => .pure _
  · exact .pure _

theorem matchMembers_keeps (hask : ask.Keeps) (members : List Ref) (stop : Int)
    (found : List (Token α)) : Keeps InMemory (matchMembers ask skip stop found members) := by
  induction members generalizing stop found with
  | nil => exact .pure _
  | cons member members ih =>
    unfold matchMembers
    refine .bind (skipBefore_keeps hask found) fun _ => .bind (hask member skip) fun token? => ?_
    cases token? with
    | none => exact .pure _
    | some token =>
      cases hempty : token.isEmpty
      all_goals simp only [hempty, if_true, Bool.false_eq_true, if_false]
      · exact .bind position_keeps fun stop => ih stop (token :: found)
      · exact .bind (.pure _) fun stop => ih stop (token :: found)

theorem matchAlternatives_keeps (hask : ask.Keeps) (members : List Ref) (start : Int)
    (ordinal : Nat) : Keeps InMemory (matchAlternatives g ask skip start ordinal members) := by
  induction members generalizing ordinal with
  | nil => exact .pure _
  | cons member members ih =>
    unfold matchAlternatives
    refine .bind (isInProgress_keeps _) fun inProgress => ?_
    cases inProgress with
    | true => exact ih (ordinal + 1)
    | false =>
      refine .bind (hask member skip) fun token? => ?_
      cases token? with
      | none => exact ih (ordinal + 1)
      | some token => exact .pure _

theorem matchRounds_keeps (hask : ask.Keeps) (inner : Ref) (rounds : Nat) (stop : Int)
    (afterEmpty : Bool) (found : List (Token α)) :
    Keeps InMemory (matchRounds ask skip inner rounds stop afterEmpty found) := by
  induction rounds generalizing stop afterEmpty found with
  | zero => exact .pure _
  | succ rounds ih =>
    unfold matchRounds
    refine .bind (skipBefore_keeps hask found) fun _ => .bind (hask inner skip) fun token? => ?_
    cases token? with
    | none => exact .pure _
    | some token =>
      simp only
      split
      · exact .bind position_keeps fun stop => ih stop false (token :: found)
      · split
        · exact .pure _
        · exact ih stop true (token :: found)

theorem matchLiteral_keeps (cs : List Char) : Keeps Stream.InMemory (matchLiteral cs) := by
  induction cs with
  | nil => exact .pure _
  | cons c cs ih =>
    unfold matchLiteral
    exact .bind Stream.next_keeps fun c' => .ite (.pure _) ih

theorem matchCodes_keeps (codes : List Nat) : Keeps Stream.InMemory (matchCodes codes) := by
  induction codes with
  | nil => exact .pure _
  | cons code codes ih =>
    unfold matchCodes
    exact .bind Stream.next_keeps fun c => .ite (.pure _) ih

theorem spanToken_keeps (kind : Kind) (start stop : Int) (children : List (Token α)) :
    Keeps InMemory (spanToken kind name start stop children) :=
  .bind position_keeps fun _ => .bind (onStream_keeps (Stream.regress_keeps _)) fun _ =>
    .bind (onStream_keeps (Stream.substring_keeps _)) fun _ => .pure _

theorem matchSwitch_keeps (ranges : CharClass) :
    Keeps InMemory (matchSwitch (α := α) name ranges) := by
  refine .bind position_keeps fun start => .bind (onStream_keeps Stream.peek_keeps) fun c => ?_
  cases ranges.find? c.toNat with
  | none => exact .pure _
  | some ordinal =>
    exact .bind (onStream_keeps (Stream.advance_keeps 1)) fun _ =>
      .bind (onStream_keeps (Stream.substring_keeps 1)) fun _ => .pure _

theorem shapeBody_keeps (hask : ask.Keeps) (shape : Shape) :
    Keeps InMemory (shapeBody g ask name skip shape) := by
  cases shape with
  | sequence members =>
    refine .bind position_keeps fun start => .bind (onStream_keeps Stream.save_keeps) fun _ =>
      .bind (matchMembers_keeps hask members start []) fun result? => ?_
    cases result? with
    | none => exact .bind (onStream_keeps Stream.revert_keeps) fun _ => .pure _
    | some result =>
      exact .bind (onStream_keeps Stream.discard_keeps) fun _ =>
        .bind (spanToken_keeps _ _ _ _) fun _ => .pure _
  | junction members =>
    refine .bind position_keeps fun start =>
      .bind (matchAlternatives_keeps hask members start 0) fun result? => ?_
    cases result? <;> exact .pure _
  | multiple inner =>
    refine .bind position_keeps fun start => .bind (fun _ hs => .of_ok rfl hs) fun s =>
      .bind (matchRounds_keeps hask inner _ start false []) fun result => ?_
    simp only
    split
    · exact .pure _
    · exact .bind (spanToken_keeps _ _ _ _) fun _ => .pure _
  | option inner =>
    refine .bind (hask inner skip) fun token? => ?_
    cases token? with
    | none => exact .bind position_keeps fun _ => .pure _
    | some token => exact .pure _
  | star repetition =>
    refine .bind (hask repetition skip) fun token? => ?_
    cases token? with
    | none => exact .bind position_keeps fun _ => .pure _
    | some token => exact .pure _
  | switch ranges => exact matchSwitch_keeps ranges
  | anyCharacter => exact matchSwitch_keeps CharClass.all
  | text literal =>
    refine .bind position_keeps fun start => .bind (onStream_keeps Stream.save_keeps) fun _ =>
      .bind (onStream_keeps (matchLiteral_keeps _)) fun found => ?_
    cases found with
    | true => exact .bind (onStream_keeps Stream.discard_keeps) fun _ => .pure _
    | false => exact .bind (onStream_keeps Stream.revert_keeps) fun _ => .pure _
  | character literal =>
    exact .bind position_keeps fun start => .bind (onStream_keeps Stream.peek_keeps) fun c =>
      .ite (.pure _) (.bind (onStream_keeps (Stream.advance_keeps 1)) fun _ => .pure _)
  | oddCharacter => exact .bind (onStream_keeps Stream.peek_keeps) fun _ => .pure _
  | oddText codes =>
    exact .bind (onStream_keeps Stream.save_keeps) fun _ =>
      .bind (onStream_keeps (matchCodes_keeps codes)) fun _ =>
        .bind (onStream_keeps Stream.revert_keeps) fun _ => .pure _
  | implicit | zeroLength | foreign => exact .pure _

theorem guarded_keeps {body : MatchM (Option (Token α))} (hbody : Keeps InMemory body) :
    Keeps InMemory (guarded name body) := by
  intro s hs
  unfold Ends guarded
  simp only
  by_cases hmem : (name, s.stream.position) ∈ s.guard
  · simp only [hmem, if_true]
    exact hs
  · simp only [hmem, if_false]
    rcases (hbody (s.enter (name, s.stream.position)) hs).elim with
      ⟨token?, s', hrun, hs'⟩ | ⟨e, s', hrun, hs'⟩
    · rw [hrun]
      cases token? <;> exact hs'
    · rw [hrun]
      cases e <;> exact hs'

theorem matchStep_keeps (hask : ask.Keeps) : (matchStep g ask).Keeps := by
  intro ref skip
  rcases (g.symbol ref).shape.guarded_or with
    hguarded | hundefined | ⟨target, himplicit⟩ | hzero | hforeign
  · rw [matchStep_guarded skip hguarded]
    exact guarded_keeps (shapeBody_keeps hask _)
  · rw [matchStep_undefined hundefined]
    exact .throw _
  · rw [matchStep_implicit himplicit]
    exact hask target skip
  · rw [matchStep_zeroLength hzero]
    exact .pure _
  · rw [matchStep_foreign hforeign]
    exact .throw _

/-- However a match ends, the text stays in memory. -/
theorem matchWithin_inMemory (g : Graph) (limit : Nat) : (matchWithin (α := α) g limit).Keeps := by
  induction limit with
  | zero => exact fun ref skip => .throw _
  | succ limit ih => exact matchStep_keeps ih

/-! ### Refusing the input -/

namespace Grammar

/-- Refusing the input is an error in the input at that position, with a location. -/
theorem refuse_inMemory {s : MatchState} (hs : s.InMemory) (complaint : String → Complaint)
    (position : Int) :
    ∃ context location s', (refuse complaint position : MatchM β) s =
      .error (.parse ⟨complaint context, false, position, some location⟩) s' := by
  obtain ⟨context, hcontext⟩ := Stream.context_inMemory hs position Stream.contextWidth
  obtain ⟨location, hlocation⟩ := Stream.location_inMemory hs position
  refine ⟨context, location, s.report (.parseFailed position (complaint context).message), ?_⟩
  rw [refuse, Step.bind_ok (onStream_ok hcontext), Step.modify_bind]
  exact Step.bind_ok (s := s.report (.parseFailed position (complaint context).message))
    (onStream_ok hlocation) _

/-- Giving an error in the input its location leaves it an error in the input. -/
theorem locateError_inMemory {s : MatchState} (hs : s.InMemory) (e : ParseError) :
    ∃ location s', (locateError e : MatchM β) s =
      .error (.parse { e with location := some location }) s' := by
  obtain ⟨complaint, isSemantic, position, location?⟩ := e
  cases location? with
  | some location => exact ⟨location, s, rfl⟩
  | none =>
    obtain ⟨location, hlocation⟩ := Stream.location_inMemory hs position
    exact ⟨location, s, Step.bind_ok (onStream_ok hlocation) _⟩

end Grammar

end GrammarEngine
