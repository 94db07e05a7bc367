import GrammarEngine.Proofs.RoundTrip
import GrammarEngine.Proofs.Twins

namespace GrammarEngine

/-!
# Coming up against the nesting limit

A parse can come up against the nesting limit in four phases. In three of them that is an error in
the input, about a position. The fourth one, what is skipped behind the start rule, is not looked
after: there the parse ends with the bare error.

* `IsShallow` — a step that does not come up against the nesting limit;
* `Grammar.Overflows` — a parse comes up against the nesting limit in a phase;
* `Grammar.matchInput_tooDeep_iff`, `run_tooDeep_iff` — where the bare error comes from;
* `Grammar.parse_overflow` — what each phase comes to.
-/

/-- Wherever the step is started, it does not come up against the nesting limit. -/
def IsShallow {σ β : Type} (x : EStateM Error σ β) : Prop :=
  ∀ s s', x s ≠ .error .nestedTooDeeply s'

namespace IsShallow

variable {σ β γ : Type} {x : EStateM Error σ β} {f : β → EStateM Error σ γ}

theorem pure (b : β) : IsShallow (Pure.pure b : EStateM Error σ β) := fun _ _ => nofun

theorem get : IsShallow (MonadState.get : EStateM Error σ σ) := fun _ _ => nofun

theorem modify (g : σ → σ) : IsShallow (modify g : EStateM Error σ PUnit) := fun _ _ => nofun

theorem throw {e : Error} (he : e ≠ .nestedTooDeeply) :
    IsShallow (MonadExcept.throw e : EStateM Error σ β) := by
  intro s s' h
  injection h with h
  exact he h

theorem bind (hx : IsShallow x) (hf : ∀ b, IsShallow (f b)) : IsShallow (x >>= f) := by
  intro s s' h
  cases hrun : x s with
  | ok b s₁ => exact hf b s₁ s' ((Step.bind_ok hrun f).symm.trans h)
  | error e s₁ =>
    rw [Step.bind_error hrun] at h
    injection h with he hs
    subst he hs
    exact hx s s₁ hrun

theorem ite {c : Prop} [Decidable c] {y : EStateM Error σ β} (hx : IsShallow x)
    (hy : IsShallow y) : IsShallow (if c then x else y) := by
  split
  · exact hx
  · exact hy

theorem onStream {op : StreamM β} (h : IsShallow op) : IsShallow (MatchM.onStream op) := by
  intro s s' hrun
  rw [MatchM.onStream] at hrun
  split at hrun
  · cases hrun
  · rename_i e stream herror
    injection hrun with he
    exact h s.stream stream (he ▸ herror)

end IsShallow

/-! ### Streams -/

namespace FileSource

variable {file : FileSource} {count : Nat} {e : Error}

theorem nextBlock_error (h : (file.nextBlock count).1 = .error e) : e = .malformedBytes := by
  unfold nextBlock at h
  simp only at h
  split at h
  · cases h
    rfl
  · split at h
    · cases h
      rfl
    · cases h

theorem readOn_error {taken : List Char} {blocks : Nat}
    (h : (readOn count taken file blocks).1 = .error e) : e = .malformedBytes := by
  induction blocks generalizing count taken file with
  | zero => cases h
  | succ blocks ih =>
    unfold readOn at h
    simp only at h
    split at h
    · cases h
    · split at h
      · rename_i e' file' hblock
        cases h
        exact nextBlock_error (congrArg Prod.fst hblock)
      · cases h
      · exact ih h

theorem read_ne_tooDeep (file : FileSource) (count : Nat) :
    (file.read count).1 ≠ .error .nestedTooDeeply := by
  intro h
  unfold read at h
  split at h
  · cases h
  · cases readOn_error h

theorem open?_ne_tooDeep (bytes : Option (List UInt8)) (codec : String) (chunk : Int) :
    open? bytes codec chunk ≠ .error .nestedTooDeeply := by
  unfold open?
  split
  · nofun
  · split
    · nofun
    · split <;> nofun

end FileSource

namespace Stream

theorem fill_isShallow : IsShallow fill := by
  intro s s' h
  unfold fill at h
  split at h
  · cases h
  · rename_i file _
    split at h
    · cases h
    · split at h
      · rename_i e file' hread
        injection h with he
        exact file.read_ne_tooDeep _ (congrArg Prod.fst (he ▸ hread))
      · cases h
      · cases h

theorem fillUpTo_isShallow (length steps : Nat) : IsShallow (fillUpTo length steps) := by
  induction steps with
  | zero => exact .bind .get fun s => .pure _
  | succ steps ih =>
    refine .bind .get fun s => .ite (.pure true) (.bind fill_isShallow fun more => ?_)
    cases more with
    | true => exact ih
    | false => exact .pure false

theorem ensure_isShallow (length : Int) : IsShallow (ensure length) :=
  .bind .get fun _ => .ite (.pure true) (fillUpTo_isShallow _ _)

theorem hasNext_isShallow : IsShallow hasNext :=
  .bind .get fun _ => ensure_isShallow _

theorem location_isShallow (position? : Option Int) : IsShallow (location position?) :=
  .bind .get fun _ => .bind (ensure_isShallow _) fun _ => .bind .get fun _ => .pure _

theorem context_isShallow (position? : Option Int) (width : Int) :
    IsShallow (context position? width) :=
  .bind .get fun _ => .bind (ensure_isShallow _) fun _ => .bind .get fun _ => .pure _

end Stream

namespace Grammar

variable {σ α β : Type} {gr : Grammar σ α} {limit : Nat} {stream : Stream} {text : String}
  {state : σ}

/-! ### Refusals -/

theorem refuse_isShallow (complaint : String → Complaint) (position : Int) :
    IsShallow (refuse (β := β) complaint position) :=
  .bind (.onStream (Stream.context_isShallow _ _)) fun _ => .bind (.modify _) fun _ =>
    .bind (.onStream (Stream.location_isShallow _)) fun _ => .throw nofun

/-- What is taken for an error in the input does not come out as it is. -/
theorem limited_isShallow (body : MatchM β) : IsShallow (limited body) := by
  intro s s' h
  unfold limited at h
  split at h
  · exact refuse_isShallow _ _ _ s' h
  · rename_i hnot
    exact hnot s' h

theorem finish_isShallow (root : Token α) : IsShallow (finish root) := by
  refine .bind (.onStream Stream.hasNext_isShallow) fun more => ?_
  cases more with
  | true => exact .bind .get fun s => .bind (refuse_isShallow _ _) fun _ => .pure root
  | false => exact .pure root

theorem failWalk_isShallow (root : Token α) (e : Error) :
    IsShallow (failWalk root e : MatchM β) := by
  cases e with
  | nestedTooDeeply => exact refuse_isShallow _ _
  | parse e =>
    show IsShallow (locateError e)
    unfold locateError
    cases e.location with
    | some location => exact .throw nofun
    | none => exact .bind (.onStream (Stream.location_isShallow _)) fun _ => .throw nofun
  | _ => exact .throw nofun

/-! ### The phases of a parse -/

/-- What a parse does, one after the other. -/
inductive Phase
  | leadingSkip
  | startRule
  | trailingSkip
  | walk
  deriving DecidableEq, Repr

variable [PayloadType α]

/-- A parse of a stream comes up against the nesting limit in a phase. The position is the furthest
    one that was looked at, or the one where the tree starts that is walked. -/
inductive Overflows (gr : Grammar σ α) (limit : Nat) (stream : Stream) (state : σ) :
    Phase → Int → Prop
  | leadingSkip {s : MatchState}
      (exceeded : matchWithin (α := α) gr.ruleSet.graph limit gr.skipRule .zeroLength
        (.ofStream stream) = .error .nestedTooDeeply s) :
      Overflows gr limit stream state .leadingSkip s.stream.furthest
  | startRule {skipped : Option (Token α)} {s s' : MatchState}
      (skip : matchWithin gr.ruleSet.graph limit gr.skipRule .zeroLength (.ofStream stream) =
        .ok skipped s)
      (exceeded : matchWithin (α := α) gr.ruleSet.graph limit gr.startRule gr.skipRule s =
        .error .nestedTooDeeply s') :
      Overflows gr limit stream state .startRule s'.stream.furthest
  | trailingSkip {root : Token α} {s s' : MatchState}
      (start : gr.matchStart limit (.ofStream stream) = .ok (some root) s)
      (exceeded : matchWithin (α := α) gr.ruleSet.graph limit gr.skipRule .zeroLength s =
        .error .nestedTooDeeply s') :
      Overflows gr limit stream state .trailingSkip s'.stream.furthest
  | walk {root : Token α} {s : MatchState} {visit : Visit σ α}
      (whole : gr.matchInput limit (.ofStream stream) = .ok root s)
      (exceeded : root.walk gr.listenerFor state = .error .nestedTooDeeply visit) :
      Overflows gr limit stream state .walk root.start

/-! ### Where the bare error comes from -/

omit [PayloadType α] in
/-- Matching ends with the bare error where the skip behind the start rule comes up against the
    limit, and nowhere else. -/
theorem matchInput_tooDeep_iff {s s' : MatchState} :
    gr.matchInput limit s = .error .nestedTooDeeply s' ↔
      ∃ root s₁, gr.matchStart limit s = .ok (some root) s₁ ∧
        matchWithin (α := α) gr.ruleSet.graph limit gr.skipRule .zeroLength s₁ =
          .error .nestedTooDeeply s' := by
  constructor
  · intro h
    rw [matchInput_eq] at h
    cases hstart : limited (gr.matchStart limit) s with
    | error e s₁ =>
      rw [Step.bind_error hstart] at h
      cases h
      exact absurd hstart (limited_isShallow _ s _)
    | ok root? s₁ =>
      rw [Step.bind_ok hstart] at h
      -- What refuses the input never ends with the bare error, and so only the skip is left.
      cases root? with
      | none => exact absurd h (IsShallow.bind .get (fun _ => refuse_isShallow _ _) s₁ s')
      | some root =>
        refine ⟨root, s₁, of_limited_ok hstart, ?_⟩
        cases hskip : matchWithin (α := α) gr.ruleSet.graph limit gr.skipRule .zeroLength s₁ with
        | ok skipped s₂ =>
          rw [matchEnd, Step.bind_ok hskip] at h
          exact absurd h (finish_isShallow root s₂ s')
        | error e s₂ =>
          rw [matchEnd, Step.bind_error hskip] at h
          cases h
          rfl
  · rintro ⟨root, s₁, hstart, hskip⟩
    rw [matchInput_of_matchStart hstart, matchEnd]
    exact Step.bind_error hskip _

/-- So does a parse, whatever it reads from. -/
theorem run_tooDeep_iff :
    (gr.run limit stream state).result = .error .nestedTooDeeply ↔
      ∃ position, gr.Overflows limit stream state .trailingSkip position := by
  constructor
  · intro h
    unfold run at h
    split at h
    · rename_i e s hmatch
      cases h
      obtain ⟨root, s₁, hstart, hskip⟩ := matchInput_tooDeep_iff.mp hmatch
      exact ⟨_, .trailingSkip hstart hskip⟩
    · split at h
      · cases h
      · split at h
        · rename_i impossible _ _
          exact impossible.elim
        · rename_i hfail
          cases h
          exact absurd hfail (failWalk_isShallow _ _ _ _)
  · rintro ⟨position, hover⟩
    cases hover with
    | trailingSkip hstart hskip =>
      have hmatch := matchInput_tooDeep_iff.mpr ⟨_, _, hstart, hskip⟩
      simp only [run, hmatch]

/-- No payload is nested too deeply. -/
theorem bind_payload_tooDeep_iff {outcome : Outcome σ (Token α)} :
    (outcome.bind Token.payload).result = .error .nestedTooDeeply ↔
      outcome.result = .error .nestedTooDeeply := by
  obtain ⟨result, state, events⟩ := outcome
  cases result with
  | error e => simp [Outcome.bind, Except.bind]
  | ok root =>
    have hpayload : root.payload ≠ .error .nestedTooDeeply := by
      intro h
      cases Token.eq_of_payload_error h
    simpa [Outcome.bind, Except.bind] using hpayload

/-- No result is made of an error in the input, and of no other error. -/
theorem parseOrNone_tooDeep_iff :
    (gr.parseOrNone limit text state).result = .error .nestedTooDeeply ↔
      (gr.parse limit text state).result = .error .nestedTooDeeply := by
  unfold parseOrNone
  generalize gr.parse limit text state = outcome
  obtain ⟨result, state, events⟩ := outcome
  cases result with
  | ok value => exact ⟨nofun, nofun⟩
  | error e => cases e <;> simp

/-! ### What the other phases come to -/

omit [PayloadType α] in
/-- A text in memory stays there, however matching its beginning ends. -/
theorem isWhole_of_matchStart {e : Error} {s : MatchState}
    (h : gr.matchStart limit (.beginning text) = .error e s) : s.stream.IsWhole text.toList := by
  have hask := matchWithin_inStep (α := α) gr.ruleSet.graph text.toList limit
  have hstep : InStep text.toList (gr.matchStart limit) (gr.matchStart limit) :=
    .bind (hask _ _) fun _ => hask _ _
  have hkeeps : Keeps MatchState.InMemory (gr.matchStart limit) :=
    .bind (matchWithin_inMemory _ _ _ _) fun _ => matchWithin_inMemory _ _ _ _
  have hmemory := hkeeps (.beginning text) rfl
  rw [Ends, h] at hmemory
  have htwin : Twin text.toList .beginning (.beginning text) (.beginning text) :=
    ⟨.ofString text, .ofString text, rfl, rfl⟩
  rcases (hstep _ _ _ htwin).cases with
    ⟨b, s₁, s₂, c, hrun, -, -, -⟩ | ⟨e', s₁, s₂, c, hrun, -, -, htwin'⟩
  · rw [h] at hrun
    cases hrun
  · rw [h] at hrun
    cases hrun
    have hspells := htwin'.first.spells
    have hsource : s.stream.source = .memory := hmemory
    rw [Stream.Spells, hsource] at hspells
    exact hspells ▸ .of_inMemory hmemory

omit [PayloadType α] in
/-- In the first two phases the input is refused at the furthest position. -/
theorem matchInput_of_overflow {s : MatchState}
    (h : gr.matchStart limit (.beginning text) = .error .nestedTooDeeply s) :
    ∃ s', gr.matchInput limit (.beginning text) =
      .error (.parse (refusal text.toList.toArray .nestedTooDeeply s.stream.furthest)) s' := by
  obtain ⟨stream, hrefuse, -⟩ := refuse_whole (β := Option (Token α)) (isWhole_of_matchStart h)
    .nestedTooDeeply s.stream.furthest
  have hlimited : limited (gr.matchStart limit) (.beginning text) =
      refuse .nestedTooDeeply s.stream.furthest s := by
    rw [limited, h]
  rw [matchInput_eq]
  exact ⟨_, Step.bind_error (hlimited.trans hrefuse) _⟩

/-- Coming up against the limit is an error in the input, except behind the start rule. -/
theorem parseTree_of_overflows {phase : Phase} {position : Int}
    (h : gr.Overflows limit (.ofString text) state phase position)
    (hphase : phase ≠ .trailingSkip) : (gr.parseTree limit text state).result =
      .error (.parse (refusal text.toList.toArray .nestedTooDeeply position)) := by
  cases h with
  | leadingSkip exceeded =>
    have hstart : gr.matchStart limit (.beginning text) = .error .nestedTooDeeply _ :=
      Step.bind_error exceeded _
    obtain ⟨s', hmatch⟩ := matchInput_of_overflow hstart
    exact (parseTree_of_error hmatch state).1
  | startRule skip exceeded =>
    have hstart : gr.matchStart limit (.beginning text) = .error .nestedTooDeeply _ :=
      (Step.bind_ok skip _).trans exceeded
    obtain ⟨s', hmatch⟩ := matchInput_of_overflow hstart
    exact (parseTree_of_error hmatch state).1
  | trailingSkip => exact absurd rfl hphase
  | walk whole exceeded =>
    rw [(parseTree_of_isOf (isOf_accepted whole) state).1]
    simp only [settle, exceeded, Error.placed]

/-- Coming up against the nesting limit in the skip at the beginning, in the start rule or in the
    walk is an error in the input, which says so, and for `parseOrNone` no result. The bare error
    ends a parse, of a text or of a file, exactly where the skip behind the start rule comes up
    against the limit. -/
theorem parse_overflow (gr : Grammar σ α) (limit : Nat) (state : σ) :
    (∀ text phase position, gr.Overflows limit (.ofString text) state phase position →
      phase ≠ .trailingSkip →
        (gr.parseTree limit text state).result =
          .error (.parse (refusal text.toList.toArray .nestedTooDeeply position)) ∧
        (gr.parse limit text state).result =
          .error (.parse (refusal text.toList.toArray .nestedTooDeeply position)) ∧
        (gr.parseOrNone limit text state).result = .ok none) ∧
    (∀ text,
      let bare := ∃ position, gr.Overflows limit (.ofString text) state .trailingSkip position
      ((gr.parseTree limit text state).result = .error .nestedTooDeeply ↔ bare) ∧
        ((gr.parse limit text state).result = .error .nestedTooDeeply ↔ bare) ∧
        ((gr.parseOrNone limit text state).result = .error .nestedTooDeeply ↔ bare)) ∧
    ∀ bytes codec, (gr.parseFile limit bytes codec state).result = .error .nestedTooDeeply ↔
      ∃ file, FileSource.open? bytes codec FileSource.defaultChunk = .ok file ∧
        ∃ position, gr.Overflows limit (.ofFile file) state .trailingSkip position := by
  refine ⟨fun text phase position hover hphase => ?_, fun text => ?_, fun bytes codec => ?_⟩
  · have htree := parseTree_of_overflows hover hphase
    have hparse := parse_of_parseTree_error htree
    refine ⟨htree, hparse, ?_⟩
    simp only [parseOrNone, hparse]
  · have htree : (gr.parseTree limit text state).result = .error .nestedTooDeeply ↔
        ∃ position, gr.Overflows limit (.ofString text) state .trailingSkip position :=
      run_tooDeep_iff
    have hparse := bind_payload_tooDeep_iff.trans htree
    exact ⟨htree, hparse, parseOrNone_tooDeep_iff.trans hparse⟩
  · unfold parseFile
    cases hopen : FileSource.open? bytes codec FileSource.defaultChunk with
    | error e =>
      constructor
      · intro (h : Except.error e = .error .nestedTooDeeply)
        exact absurd (hopen.trans (congrArg _ (Except.error.inj h)))
          (FileSource.open?_ne_tooDeep bytes codec _)
      · rintro ⟨file, hfile, -⟩
        cases hfile
    | ok file =>
      refine (bind_payload_tooDeep_iff.trans run_tooDeep_iff).trans ?_
      constructor
      · exact fun h => ⟨file, rfl, h⟩
      · rintro ⟨file', hfile, h⟩
        cases hfile
        exact h

/-- Is the result the bare error of the nesting limit? -/
def isTooDeep {β : Type} : Except Error β → Bool
  | .error .nestedTooDeeply => true
  | _ => false

theorem of_isTooDeep {β : Type} {r : Except Error β} (h : isTooDeep r = true) :
    r = .error .nestedTooDeeply := by
  unfold isTooDeep at h
  split at h
  · rfl
  · cases h

/-- Letters with other ones around them, which are skipped by recursion: one and then the rest. -/
def skippedInside : Grammar Unit Unit where
  ruleSet := ⟨⟨#[⟨.given "letter", .character 'a'⟩, ⟨.generated 0, .character 'x'⟩,
      ⟨.generated 1, .sequence [.node 1, .node 4]⟩, ⟨.given "skip", .junction [.node 2, .node 1]⟩,
      ⟨.given "skip", .implicit (some (.node 3))⟩]⟩,
    ⟨[("letter", .node 0), ("skip", .node 3)]⟩⟩
  listeners := ⟨[]⟩
  start := "letter"
  skip := "skip"
  hasStart := by decide
  hasSkip := by decide

/-- What is skipped is an error in the input if it is nested too deeply in front of the letter, and
    no error in the input behind it. -/
theorem parse_overflow_skippedInside :
    (∃ e, (skippedInside.parse 4 "xxa" ()).result = .error (.parse e) ∧ e.position = 0 ∧
      (skippedInside.parseOrNone 4 "xxa" ()).result = .ok none) ∧
    (skippedInside.parse 4 "axx" ()).result = .error .nestedTooDeeply ∧
    (skippedInside.parseOrNone 4 "axx" ()).result = .error .nestedTooDeeply := by
  have hfront : (parseError? (skippedInside.parse 4 "xxa" ()).result).any (fun e =>
      e.position = 0) = true := by
    decide +kernel
  have hbehind : (skippedInside.parse 4 "axx" ()).result = .error .nestedTooDeeply :=
    of_isTooDeep (by decide +kernel)
  obtain ⟨e, hresult, he⟩ := of_parseError? hfront
  exact ⟨⟨e, hresult, of_decide_eq_true he, by simp only [parseOrNone, hresult]⟩, hbehind,
    parseOrNone_tooDeep_iff.mpr hbehind⟩

end Grammar

end GrammarEngine
