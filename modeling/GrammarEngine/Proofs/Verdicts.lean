import GrammarEngine.Proofs.Completeness
import GrammarEngine.Proofs.Correctness
import GrammarEngine.Proofs.Limits
import GrammarEngine.Proofs.Reporting

namespace GrammarEngine

/-!
# What comes of a text

A text is matched in three steps: something is skipped, the start rule is matched, and something is
skipped again. What the rules say about these steps settles what comes of the text: a tree, or a
place where it is refused.

* `Verdict`, `Grammar.Comes` — what comes of a text, from how the symbols answer;
* `Grammar.Decides` — what comes of it by the rules;
* `Decides.unique` — there is one verdict;
* `Between` — where the stream is between two steps;
* `Comes.isOf`, `Decides.isOf` — matching comes to the verdict, if there is room enough;
* `matchInput_obeys` — matching comes to nothing else, but for errors that go all the way out;
* `matchInput_agrees`, `Decides.isOf_or` — nesting limits.
-/

open Filter MatchM MatchState

/-- What comes of a text: a tree, or a place where it is refused. -/
inductive Verdict (α : Type)
  | accepted (root : Token α)
  | refused (complaint : String → Complaint) (position : Nat)

/-- The error says that something is nested too deeply. -/
def Error.IsTooDeep : Error → Prop
  | .nestedTooDeeply => True
  | .parse e => ∃ context, e.complaint = .nestedTooDeeply context
  | _ => False

/-- The error in the input that a result is, if it is one. -/
def parseError? {β : Type} : Except Error β → Option ParseError
  | .error (.parse e) => some e
  | _ => none

theorem of_parseError? {β : Type} {r : Except Error β} {check : ParseError → Bool}
    (h : (parseError? r).any check = true) : ∃ e, r = .error (.parse e) ∧ check e = true := by
  unfold parseError? at h
  split at h
  · exact ⟨_, rfl, h⟩
  · cases h

variable {σ α : Type} {gr : Grammar σ α} {limit limit' : Nat} {text : String}

/-- The state at the beginning of a text in memory. -/
abbrev MatchState.beginning (text : String) : MatchState := .ofStream (.ofString text)

theorem Stands.beginning (text : String) : Stands text.toList [] 0 (.beginning text) :=
  ⟨Stream.reads_ofString text, rfl⟩

/-- A stream over a text in memory has read all of it. -/
theorem Stream.Reads.isWhole {s : Stream} {text : List Char} {p : Nat} (h : s.Reads text p)
    (hs : s.InMemory) : s.IsWhole text := by
  have hspells := h.spells
  have hsource : s.source = .memory := hs
  rw [Stream.Spells, hsource] at hspells
  exact ⟨h.spells, hspells⟩

namespace Verdict

/-- The verdict where the start rule matches and all that follows is skipped up to `stop`. -/
def atEnd (text : String) (root : Token α) (stop furthest : Nat) : Verdict α :=
  if stop < text.toList.length then .refused .unexpectedTrailing (max stop furthest)
  else .accepted root

/-- The run ends with the verdict, and leaves no saved position and no match in progress. -/
def IsOf (text : String) (x : EStateM.Result Error MatchState (Token α)) : Verdict α → Prop
  | .accepted root => ∃ s, x = .ok root s ∧ s.stream.Reads text.toList text.toList.length ∧
      s.InMemory ∧ s.stream.saved = [] ∧ s.guard = []
  | .refused complaint position => ∃ s,
      x = .error (.parse (refusal text.toList.toArray complaint position)) s ∧
        s.stream.saved = [] ∧ s.guard = []

end Verdict

/-! ### Between two steps -/

/-- Between two steps the stream stands somewhere in a text in memory, no position is saved and no
    match is in progress. -/
structure Between (text : String) (p furthest : Nat) (s : MatchState) : Prop where
  stands : Stands text.toList [] p s
  inMemory : s.InMemory
  furthest_eq : s.stream.furthest = furthest
  saved_eq : s.stream.saved = []

namespace Between

variable {s s' : MatchState} {p q furthest reach : Nat}

theorem beginning (text : String) : Between text 0 0 (.beginning text) :=
  ⟨.beginning text, rfl, rfl, rfl⟩

theorem lands (h : Between text p furthest s) (hlands : Lands text.toList s s' q reach)
    (hs' : s'.InMemory) : Between text q (max furthest reach) s' where
  stands := hlands.stands h.stands
  inMemory := hs'
  furthest_eq := by rw [hlands.stream.furthest, h.furthest_eq]
  saved_eq := by rw [hlands.stream.saved, h.saved_eq]

theorem isWhole (h : Between text p furthest s) : s.stream.IsWhole text.toList :=
  h.stands.reads.isWhole h.inMemory

end Between

theorem Delivers.between {x : MatchM (Option (Token α))} {p reach furthest : Nat}
    {answer : Answer α} {s : MatchState} (h : Delivers text.toList [] p answer reach x)
    (hkeeps : Keeps InMemory x) (hs : Between text p furthest s) :
    ∃ s', x s = .ok (answer.map Prod.fst) s' ∧
      Between text (landing p answer) (max furthest reach) s' := by
  obtain ⟨s', hrun, hlands⟩ := h s hs.stands
  have hends := hkeeps s hs.inMemory
  rw [Ends, hrun] at hends
  exact ⟨s', hrun, hs.lands hlands hends⟩

namespace Grammar

/-! ### The steps of a match -/

/-- Skip what stands at the beginning and match the start rule. -/
def matchStart (gr : Grammar σ α) (limit : Nat) : MatchM (Option (Token α)) := do
  let _ ← matchWithin (α := α) gr.ruleSet.graph limit gr.skipRule .zeroLength
  matchWithin gr.ruleSet.graph limit gr.startRule gr.skipRule

/-- Nothing may be left over. -/
def finish (root : Token α) : MatchM (Token α) := do
  if ← onStream Stream.hasNext then
    let stream := (← get).stream
    refuse .unexpectedTrailing (max stream.position stream.furthest)
  return root

/-- Go on behind the start rule. -/
def matchEnd (gr : Grammar σ α) (limit : Nat) : Option (Token α) → MatchM (Token α)
  | none => do refuse .unexpectedInput (← get).stream.furthest
  | some root => do
    let _ ← matchWithin (α := α) gr.ruleSet.graph limit gr.skipRule .zeroLength
    finish root

theorem matchInput_eq (gr : Grammar σ α) (limit : Nat) :
    gr.matchInput limit = limited (gr.matchStart limit) >>= gr.matchEnd limit := by
  unfold matchInput matchStart consumeWithin
  congr

theorem limited_of_ok {β : Type} {body : MatchM β} {s s' : MatchState} {b : β}
    (h : body s = .ok b s') : limited body s = .ok b s' := by
  rw [limited, h]

theorem matchInput_of_matchStart {s s' : MatchState} {root? : Option (Token α)}
    (h : gr.matchStart limit s = .ok root? s') :
    gr.matchInput limit s = gr.matchEnd limit root? s' := by
  rw [matchInput_eq]
  exact Step.bind_ok (limited_of_ok h) _

/-- Where the start rule does not match, the text is refused at the furthest position. -/
theorem matchEnd_none {s : MatchState} {p furthest : Nat} (hs : Between text p furthest s) :
    (Verdict.refused .unexpectedInput furthest).IsOf text (gr.matchEnd limit none s) := by
  obtain ⟨stream, hrefuse, hloads⟩ :=
    refuse_whole (β := Token α) hs.isWhole .unexpectedInput s.stream.furthest
  rw [hs.furthest_eq] at hrefuse
  rw [matchEnd, Step.get_bind, hs.furthest_eq]
  exact ⟨_, hrefuse, hloads.saved.trans hs.saved_eq, hs.stands.guard_eq⟩

theorem finish_isOf {s : MatchState} {p furthest : Nat} (hs : Between text p furthest s)
    (root : Token α) : (Verdict.atEnd text root p furthest).IsOf text (finish root s) := by
  obtain ⟨more, hnext⟩ := Stream.hasNext_inMemory hs.inMemory
  obtain ⟨_, hgoes, -⟩ := Stream.hasNext_goes hs.stands.reads
  rw [hnext] at hgoes
  obtain ⟨rfl, -⟩ := EStateM.Result.ok.inj hgoes
  have hfinish := Step.bind_ok (γ := Token α) (onStream_ok hnext)
  rw [Verdict.atEnd]
  split
  · rename_i hlt
    have hmax : max s.stream.position (s.stream.furthest : Int) = (max p furthest : Nat) := by
      rw [hs.stands.reads.position, hs.furthest_eq]
      omega
    obtain ⟨stream, hrefuse, hloads⟩ := refuse_whole (β := PUnit) hs.isWhole .unexpectedTrailing
      (max p furthest : Nat)
    rw [← hmax] at hrefuse
    rw [finish, hfinish, decide_eq_true hlt, Verdict.IsOf, ← hmax]
    exact ⟨_, Step.bind_error hrefuse _, hloads.saved.trans hs.saved_eq, hs.stands.guard_eq⟩
  · rename_i hge
    have hp : p = text.toList.length := Nat.le_antisymm hs.stands.reads.le_length (by omega)
    subst hp
    refine ⟨s, ?_, hs.stands.reads, hs.inMemory, hs.saved_eq, hs.stands.guard_eq⟩
    rw [finish, hfinish, decide_eq_false hge]
    rfl

/-! ### Verdicts -/

/-- What comes of a text, where `yields` tells how a symbol answers that is asked for with a skip
    symbol at a position, and how far it looks. -/
inductive Comes (gr : Grammar σ α) (text : String)
    (yields : (ref skip : Ref) → (p : Nat) → Answer α → (reach : Nat) → Prop) : Verdict α → Prop
  /-- The start rule does not match: the text is refused where matching looked furthest. -/
  | fails {answer : Answer α} {reach reach' : Nat}
      (skipped : yields gr.skipRule .zeroLength 0 answer reach)
      (failed : yields gr.startRule gr.skipRule (landing 0 answer) none reach') :
      Comes gr text yields (.refused .unexpectedInput (max reach reach'))
  /-- The start rule matches. What is left over is refused. -/
  | matches {answer answer' : Answer α} {root : Token α} {q reach reach' reach'' : Nat}
      (skipped : yields gr.skipRule .zeroLength 0 answer reach)
      (matched : yields gr.startRule gr.skipRule (landing 0 answer) (some (root, q)) reach')
      (skipped' : yields gr.skipRule .zeroLength q answer' reach'') :
      Comes gr text yields
        (.atEnd text root (landing q answer') (max (max reach reach') reach''))

/-- What comes of a text by the rules. -/
def Decides (gr : Grammar σ α) (text : String) : Verdict α → Prop :=
  gr.Comes text fun ref skip => Yields gr.ruleSet.graph text.toList ref skip []

variable {verdict verdict' : Verdict α}

theorem Comes.mono {yields yields' : (ref skip : Ref) → (p : Nat) → Answer α → (reach : Nat) → Prop}
    (h : gr.Comes text yields verdict)
    (himp : ∀ {ref skip p answer reach}, yields ref skip p answer reach →
      yields' ref skip p answer reach) : gr.Comes text yields' verdict := by
  cases h with
  | fails skipped failed => exact .fails (himp skipped) (himp failed)
  | «matches» skipped matched skipped' => exact .matches (himp skipped) (himp matched) (himp skipped')

/-- By the rules there is one verdict. -/
theorem Decides.unique (h : gr.Decides text verdict) (h' : gr.Decides text verdict') :
    verdict = verdict' := by
  have hstay : ∀ {answer : Answer α} {ref skip p reach},
      Yields gr.ruleSet.graph text.toList ref skip [] p answer reach → p ≤ text.toList.length →
        landing p answer ≤ text.toList.length := fun h => h.advances.landing_between.2
  cases h with
  | fails skipped failed =>
    have hp := hstay skipped (Nat.zero_le _)
    cases h' with
    | fails skipped₂ failed₂ =>
      obtain ⟨rfl, rfl⟩ := skipped.unique (Nat.zero_le _) skipped₂
      obtain ⟨-, rfl⟩ := failed.unique hp failed₂
      rfl
    | «matches» skipped₂ matched₂ =>
      obtain ⟨rfl, -⟩ := skipped.unique (Nat.zero_le _) skipped₂
      cases (failed.unique hp matched₂).1
  | «matches» skipped matched skipped' =>
    have hp := hstay skipped (Nat.zero_le _)
    cases h' with
    | fails skipped₂ failed₂ =>
      obtain ⟨rfl, -⟩ := skipped.unique (Nat.zero_le _) skipped₂
      cases (matched.unique hp failed₂).1
    | «matches» skipped₂ matched₂ skipped₂' =>
      obtain ⟨rfl, rfl⟩ := skipped.unique (Nat.zero_le _) skipped₂
      obtain ⟨hfound, rfl⟩ := matched.unique hp matched₂
      cases hfound
      obtain ⟨rfl, rfl⟩ := skipped'.unique (hstay matched hp) skipped₂'
      rfl

/-- With nesting enough for its steps, matching comes to the verdict. -/
theorem Comes.isOf
    (h : gr.Comes text (fun ref skip p answer reach =>
      Delivers text.toList [] p answer reach (matchWithin gr.ruleSet.graph limit ref skip)) verdict) :
    verdict.IsOf text (gr.matchInput limit (.beginning text)) := by
  have hkeeps := matchWithin_inMemory (α := α) gr.ruleSet.graph limit
  cases h with
  | fails skipped failed =>
    obtain ⟨s₁, hrun₁, hs₁⟩ := skipped.between (hkeeps _ _) (.beginning text)
    obtain ⟨s₂, hrun₂, hs₂⟩ := failed.between (hkeeps _ _) hs₁
    rw [matchInput_of_matchStart ((Step.bind_ok hrun₁ _).trans hrun₂), Option.map_none]
    rw [Nat.zero_max] at hs₂
    exact matchEnd_none hs₂
  | «matches» skipped matched skipped' =>
    obtain ⟨s₁, hrun₁, hs₁⟩ := skipped.between (hkeeps _ _) (.beginning text)
    obtain ⟨s₂, hrun₂, hs₂⟩ := matched.between (hkeeps _ _) hs₁
    obtain ⟨s₃, hrun₃, hs₃⟩ := skipped'.between (hkeeps _ _) hs₂
    rw [matchInput_of_matchStart ((Step.bind_ok hrun₁ _).trans hrun₂), Option.map_some, matchEnd,
      Step.bind_ok hrun₃]
    rw [Nat.zero_max] at hs₃
    exact finish_isOf hs₃ _

/-! ### What matching comes to -/

/-- A match between two steps answers by the rules, or ends with an error that goes all the way
    out. -/
theorem matchWithin_between (gr : Grammar σ α) (limit : Nat) {s : MatchState} {p furthest : Nat} (hs : Between text p furthest s)
    (ref skip : Ref) :
    (∃ (answer : Answer α) (reach : Nat) (s' : MatchState),
      Yields gr.ruleSet.graph text.toList ref skip [] p answer reach ∧
        matchWithin gr.ruleSet.graph limit ref skip s = .ok (answer.map Prod.fst) s' ∧
        Between text (landing p answer) (max furthest reach) s') ∨
      ∃ e s', matchWithin (α := α) gr.ruleSet.graph limit ref skip s = .error e s' ∧
        IsFatal gr.ruleSet.graph (fun _ => True) True e ∧ s'.InMemory := by
  have hends := (matchWithin_obeys (α := α) gr.ruleSet.graph text.toList limit [] ref skip trivial
    trivial p s (Nat.zero_le p) hs.stands).and (matchWithin_inMemory _ _ _ _ s hs.inMemory)
  rcases hends.elim with
    ⟨token?, s', hrun, ⟨answer, reach, hyields, rfl, hlands⟩, hs'⟩ | ⟨e, s', hrun, ⟨he, -⟩, hs'⟩
  · exact .inl ⟨answer, reach, s', hyields, hrun, hs.lands hlands hs'⟩
  · exact .inr ⟨e, s', hrun, he, hs'⟩

/-- Errors that go all the way out, of which the nesting limit becomes one in the input. -/
def IsLost (gr : Grammar σ α) (e : Error) : Prop :=
  IsFatal gr.ruleSet.graph (fun _ => True) False e ∨ e.IsTooDeep

theorem isLost_of_isFatal {e : Error} (h : IsFatal gr.ruleSet.graph (fun _ => True) True e) :
    gr.IsLost e := by
  cases h with
  | neverDefined mem shape => exact .inl (.neverDefined mem shape)
  | noAttribute mem shape => exact .inl (.noAttribute mem shape)
  | nestedTooDeeply => exact .inr trivial

/-- In the first steps the nesting limit is an error in the input. -/
theorem matchInput_of_tooDeep {s s' : MatchState}
    (h : gr.matchStart limit s = .error .nestedTooDeeply s') (hs' : s'.InMemory) :
    ∃ e s'', gr.matchInput limit s = .error e s'' ∧ e.IsTooDeep := by
  obtain ⟨stream, hrefuse, -⟩ := refuse_whole (β := Option (Token α)) (.of_inMemory hs')
    .nestedTooDeeply s'.stream.furthest
  have hlimited : limited (gr.matchStart limit) s =
      refuse .nestedTooDeeply s'.stream.furthest s' := by
    rw [limited, h]
  rw [matchInput_eq]
  exact ⟨.parse _, _, Step.bind_error (hlimited.trans hrefuse) _, _, rfl⟩

/-- Any other error goes all the way out. -/
theorem matchInput_of_error {s s' : MatchState} {e : Error}
    (h : gr.matchStart limit s = .error e s') (he : e ≠ .nestedTooDeeply) :
    gr.matchInput limit s = .error e s' := by
  rw [matchInput_eq]
  refine Step.bind_error ?_ _
  rw [limited, h]
  cases e with
  | nestedTooDeeply => exact absurd rfl he
  | _ => rfl

theorem matchInput_isLost {s s' : MatchState} {e : Error}
    (h : gr.matchStart limit s = .error e s')
    (he : IsFatal gr.ruleSet.graph (fun _ => True) True e) (hs' : s'.InMemory) :
    ∃ e s', gr.matchInput limit s = .error e s' ∧ gr.IsLost e := by
  by_cases hdeep : e = .nestedTooDeeply
  · subst hdeep
    obtain ⟨e, s'', hrun, hdeep⟩ := matchInput_of_tooDeep h hs'
    exact ⟨e, s'', hrun, .inr hdeep⟩
  · exact ⟨e, s', matchInput_of_error h hdeep, isLost_of_isFatal he⟩

/-- Whatever the limit is, matching comes to what the rules say, or ends with an error that goes
    all the way out. -/
theorem matchInput_obeys (gr : Grammar σ α) (limit : Nat) (text : String) :
    (∃ verdict, gr.Decides text verdict ∧
      verdict.IsOf text (gr.matchInput limit (.beginning text))) ∨
    ∃ e s, gr.matchInput limit (.beginning text) = .error e s ∧ gr.IsLost e := by
  rcases matchWithin_between gr limit (.beginning text) gr.skipRule .zeroLength
    with ⟨answer, reach, s₁, hskip, hrun₁, hs₁⟩ | ⟨e, s₁, hrun₁, he, hs₁⟩
  · rcases matchWithin_between gr limit hs₁ gr.startRule gr.skipRule
      with ⟨root?, reach', s₂, hstart, hrun₂, hs₂⟩ | ⟨e, s₂, hrun₂, he, hs₂⟩
    · rw [matchInput_of_matchStart ((Step.bind_ok hrun₁ _).trans hrun₂)]
      rw [Nat.zero_max] at hs₂
      cases root? with
      | none => exact .inl ⟨_, .fails hskip hstart, matchEnd_none hs₂⟩
      | some found =>
        obtain ⟨root, q⟩ := found
        rcases matchWithin_between gr limit hs₂ gr.skipRule .zeroLength
          with ⟨answer', reach'', s₃, hskip', hrun₃, hs₃⟩ | ⟨e, s₃, hrun₃, he, -⟩
        · refine .inl ⟨_, .matches hskip hstart hskip', ?_⟩
          rw [Option.map_some, matchEnd, Step.bind_ok hrun₃]
          exact finish_isOf hs₃ root
        · exact .inr ⟨e, s₃, Step.bind_error hrun₃ _, isLost_of_isFatal he⟩
    · exact .inr (matchInput_isLost ((Step.bind_ok hrun₁ _).trans hrun₂) he hs₂)
  · exact .inr (matchInput_isLost (Step.bind_error hrun₁ _) he hs₁)

/-- Where matching comes to a tree, it comes to the verdict that accepts it. -/
theorem isOf_accepted {root : Token α} {s : MatchState}
    (h : gr.matchInput limit (.beginning text) = .ok root s) :
    (Verdict.accepted root).IsOf text (gr.matchInput limit (.beginning text)) := by
  rcases matchInput_obeys gr limit text with ⟨verdict, -, hof⟩ | ⟨e, s', herror, -⟩
  · rw [h] at hof ⊢
    cases verdict with
    | refused complaint position =>
      obtain ⟨s', herror, -⟩ := hof
      cases herror
    | accepted root' =>
      obtain ⟨s', hok, hrest⟩ := hof
      cases hok
      exact ⟨s, rfl, hrest⟩
  · rw [h] at herror
    cases herror

/-! ### Nesting limits -/

/-- With a higher nesting limit, matching is the same, unless it is nested too deeply. -/
theorem matchInput_agrees (gr : Grammar σ α) (hlimit : limit ≤ limit') {s : MatchState} (hs : s.InMemory) :
    gr.matchInput limit s = gr.matchInput limit' s ∨
      ∃ e s', gr.matchInput limit s = .error e s' ∧ e.IsTooDeep := by
  have hask := matchWithin_agrees (α := α) gr.ruleSet.graph hlimit
  have hstart : AgreesUnless .nestedTooDeeply (gr.matchStart limit) (gr.matchStart limit') :=
    .bind (hask gr.skipRule .zeroLength) fun _ => hask gr.startRule gr.skipRule
  have hkeeps : Keeps InMemory (gr.matchStart limit) :=
    .bind (matchWithin_inMemory _ _ _ _) fun _ => matchWithin_inMemory _ _ _ _
  cases hrun : gr.matchStart limit s with
  | ok root? s₁ =>
    have hrun' : gr.matchStart limit' s = .ok root? s₁ := by
      rcases hstart s with heq | ⟨s₂, hdeep⟩
      · exact heq.symm.trans hrun
      · rw [hrun] at hdeep
        cases hdeep
    rw [matchInput_of_matchStart hrun, matchInput_of_matchStart hrun']
    cases root? with
    | none => exact .inl rfl
    | some root =>
      have hend := AgreesUnless.bind (hask gr.skipRule .zeroLength) fun _ => .refl (finish root)
      exact (hend s₁).imp id fun ⟨s₂, hdeep⟩ => ⟨_, s₂, hdeep, trivial⟩
  | error e s₁ =>
    by_cases hdeep : e = .nestedTooDeeply
    · subst hdeep
      have hends := hkeeps s hs
      rw [Ends, hrun] at hends
      exact .inr (matchInput_of_tooDeep hrun hends)
    · rcases hstart s with heq | ⟨s₂, hdeep'⟩
      · rw [matchInput_of_error hrun hdeep,
          matchInput_of_error (heq.symm.trans hrun) hdeep]
        exact .inl rfl
      · rw [hrun] at hdeep'
        cases hdeep'
        exact absurd rfl hdeep

/-- With nesting enough, matching comes to the verdict. -/
theorem Decides.eventually (h : gr.Decides text verdict) :
    ∀ᶠ limit in atTop, verdict.IsOf text (gr.matchInput limit (.beginning text)) := by
  cases h with
  | fails skipped failed =>
    filter_upwards [skipped.delivered, failed.delivered] with limit hskip hfailed
    exact Comes.isOf (.fails hskip hfailed)
  | «matches» skipped matched skipped' =>
    filter_upwards [skipped.delivered, matched.delivered, skipped'.delivered]
      with limit hskip hmatched hskip'
    exact Comes.isOf (.matches hskip hmatched hskip')

/-- With less nesting, matching comes to the verdict too, or it is nested too deeply. -/
theorem Decides.isOf_or (h : gr.Decides text verdict) (limit : Nat) :
    verdict.IsOf text (gr.matchInput limit (.beginning text)) ∨
      ∃ e s, gr.matchInput limit (.beginning text) = .error e s ∧ e.IsTooDeep := by
  obtain ⟨enough, henough⟩ := eventually_atTop.mp h.eventually
  refine (matchInput_agrees gr (Nat.le_max_left limit enough)
    (s := .beginning text) rfl).imp_left fun heq => ?_
  rw [heq]
  exact henough _ (Nat.le_max_right _ _)

/-! ### The payloads -/

section Payloads

variable [PayloadType α] {state : σ}

/-- What a verdict comes to, once the tree is walked: the result, and the state that the listeners
    left. -/
def settle (gr : Grammar σ α) (text : String) (state : σ) :
    Verdict α → Except Error (Token α) × σ
  | .refused complaint position =>
    (.error (.parse (refusal text.toList.toArray complaint position)), state)
  | .accepted root =>
    match root.walk gr.listenerFor state with
    | .ok _ visit => (.ok visit.token, visit.state)
    | .error e visit => (.error (e.placed text.toList.toArray root.start), visit.state)

/-- A parse comes to what the verdict does. -/
theorem parseTree_of_isOf (h : verdict.IsOf text (gr.matchInput limit (.beginning text)))
    (state : σ) : (gr.parseTree limit text state).result = (gr.settle text state verdict).1 ∧
      (gr.parseTree limit text state).state = (gr.settle text state verdict).2 := by
  cases verdict with
  | refused complaint position =>
    obtain ⟨s, hrun, -⟩ := h
    simp only [parseTree, run, hrun, settle]
    exact ⟨trivial, trivial⟩
  | accepted root =>
    obtain ⟨s, hrun, hreads, hmemory, -⟩ := h
    simp only [parseTree, run, hrun, settle]
    cases hwalk : root.walk gr.listenerFor state with
    | ok value visit => exact ⟨rfl, rfl⟩
    | error e visit =>
      obtain ⟨s', hfail, -⟩ := failWalk_whole (β := Empty) (hreads.isWhole hmemory) root e
      simp only [hfail]
      exact ⟨trivial, trivial⟩

/-- An error in the matching is the result of the parse. -/
theorem parseTree_of_error {e : Error} {s : MatchState}
    (h : gr.matchInput limit (.beginning text) = .error e s) (state : σ) :
    (gr.parseTree limit text state).result = .error e ∧
      (gr.parseTree limit text state).state = state := by
  simp only [parseTree, run, h]
  exact ⟨trivial, trivial⟩

/-- By the rules a parse comes to this, or it is nested too deeply. -/
theorem Decides.parseTree_or (h : gr.Decides text verdict) (limit : Nat) (state : σ) :
    ((gr.parseTree limit text state).result = (gr.settle text state verdict).1 ∧
        (gr.parseTree limit text state).state = (gr.settle text state verdict).2) ∨
      ∃ e, (gr.parseTree limit text state).result = .error e ∧ e.IsTooDeep := by
  rcases h.isOf_or limit with hof | ⟨e, s, hrun, hdeep⟩
  · exact .inl (parseTree_of_isOf hof state)
  · exact .inr ⟨e, (parseTree_of_error hrun state).1, hdeep⟩

/-- Without a tree there is no payload. -/
theorem parse_of_parseTree_error {e : Error}
    (h : (gr.parseTree limit text state).result = .error e) :
    (gr.parse limit text state).result = .error e := by
  simp only [parse, Outcome.bind]
  rw [h]
  rfl

end Payloads

end Grammar

end GrammarEngine
