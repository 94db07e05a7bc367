import GrammarEngine.Proofs.Memory
import GrammarEngine.Proofs.Notation.Complete
import GrammarEngine.Proofs.Notation.Depth
import GrammarEngine.Proofs.Notation.Reading

namespace GrammarEngine

/-!
# What compiling a grammar text comes to

A grammar text has a complete grammar, or it is refused with an error in the input, or it refers to
rules that it does not define. Nothing else can happen, whatever the text is.

* `Grammar.matchInput_ends` — matching an input in memory with a defined grammar;
* `Notation.compileWith_eq` — the rules of a grammar text, by what its tree says;
* `Notation.of_compile_ok` — what is accepted is complete;
* `Notation.compile_ends` — what is not accepted is refused.
-/

open MatchM

/-! ### Matching an input -/

namespace Grammar

variable {σ α β : Type} {gr : Grammar σ α} {limit : Nat} {text : List Char} {part : Finset Ref}

/-- An error in the input. -/
def Refused (e : Error) (_ : MatchState) : Prop := ∃ cause, e = .parse cause

theorem refuse_ends {s : MatchState} (hs : s.InMemory) (complaint : String → Complaint)
    (position : Int) (good : β → MatchState → Prop) :
    Ends (refuse complaint position) s good Refused := by
  obtain ⟨context, location, s', hrun⟩ := refuse_inMemory (β := β) hs complaint position
  exact .of_error hrun ⟨_, rfl⟩

/-- Where nesting is all that can go wrong, the nesting limit is an error in the input. -/
theorem limited_ends {body : MatchM β} {s : MatchState} {good : β → MatchState → Prop}
    (h : Ends body s good fun e s' => e = .nestedTooDeeply ∧ s'.InMemory) :
    Ends (limited body) s good Refused := by
  rcases h.elim with ⟨b, s', hrun, hb⟩ | ⟨_, s', hrun, rfl, hs'⟩
  · refine .of_ok ?_ hb
    rw [limited, hrun]
  · obtain ⟨context, location, s'', hrefuse⟩ :=
      refuse_inMemory (β := β) hs' .nestedTooDeeply s'.stream.furthest
    rw [Ends, limited, hrun]
    simp only [hrefuse]
    exact ⟨_, rfl⟩

/-- Matching a text in memory comes to a tree or is an error in the input, if all symbols are
    defined and there is room enough for what is skipped. -/
theorem matchInput_ends (gr : Grammar σ α) (limit : Nat)
    (hclosed : gr.ruleSet.graph.IsClosed part) (hacyclic : gr.ruleSet.graph.IsAcyclic part)
    (hdefined : ∀ r ∈ part, (gr.ruleSet.graph.symbol r).shape ≠ .implicit none ∧
      (gr.ruleSet.graph.symbol r).shape ≠ .foreign)
    (hstart : gr.startRule ∈ part) (hskip : gr.skipRule ∈ part)
    (hroom : ∀ p, Answers (α := α) gr.ruleSet.graph text []
      (matchWithin gr.ruleSet.graph limit) gr.skipRule .zeroLength p)
    {s : MatchState} (hs : Stands text [] 0 s) (hmemory : s.InMemory) :
    Ends (gr.matchInput limit) s (fun _ s' => s'.InMemory) Refused := by
  -- Both kinds of matches end with the text in memory, at some place.
  have hskips : ∀ p s, Stands text [] p s → s.InMemory →
      Ends (consumeWithin (α := α) gr.ruleSet.graph limit gr.skipRule) s
        (fun _ s' => (∃ q, Stands text [] q s') ∧ s'.InMemory) fun _ _ => False := by
    intro p s hs hmemory
    have hends := matchWithin_defined (α := α) hclosed hacyclic hdefined hskip (.inr rfl) hs limit
    refine ((hends.and (hroom p s hs)).and (matchWithin_inMemory _ _ _ _ s hmemory)).mono ?_ ?_
    · rintro token? s' ⟨⟨⟨answer, reach, -, -, hlands⟩, -⟩, hmemory'⟩
      exact ⟨⟨_, hlands.stands hs⟩, hmemory'⟩
    · rintro e s' ⟨⟨⟨rfl, -⟩, hne⟩, -⟩
      exact hne rfl
  have hmatches : ∀ p s, Stands text [] p s → s.InMemory →
      Ends (matchWithin (α := α) gr.ruleSet.graph limit gr.startRule gr.skipRule) s
        (fun _ s' => (∃ q, Stands text [] q s') ∧ s'.InMemory)
        fun e s' => e = .nestedTooDeeply ∧ s'.InMemory := by
    intro p s hs hmemory
    have hends := matchWithin_defined (α := α) hclosed hacyclic hdefined hstart (.inl hskip) hs
      limit
    refine (hends.and (matchWithin_inMemory _ _ _ _ s hmemory)).mono ?_ ?_
    · rintro token? s' ⟨⟨answer, reach, -, -, hlands⟩, hmemory'⟩
      exact ⟨⟨_, hlands.stands hs⟩, hmemory'⟩
    · rintro e s' ⟨⟨rfl, -⟩, hmemory'⟩
      exact ⟨rfl, hmemory'⟩
  have hroot : Ends (limited do
      let _ ← consumeWithin (α := α) gr.ruleSet.graph limit gr.skipRule
      matchWithin (α := α) gr.ruleSet.graph limit gr.startRule gr.skipRule) s
      (fun _ s' => (∃ q, Stands text [] q s') ∧ s'.InMemory) Refused := by
    refine limited_ends (.bind ((hskips 0 s hs hmemory).mono (fun _ _ h => h)
      fun _ _ => False.elim) ?_)
    rintro - s₁ ⟨⟨p, hs₁⟩, hmemory₁⟩
    exact hmatches p s₁ hs₁ hmemory₁
  refine .bind hroot ?_
  rintro root? s₂ ⟨⟨q, hs₂⟩, hmemory₂⟩
  cases root? with
  | none => exact .bind_ok rfl (refuse_ends hmemory₂ _ _ _)
  | some root =>
    refine .bind ((hskips q s₂ hs₂ hmemory₂).mono (fun _ _ h => h) fun _ _ => False.elim) ?_
    rintro - s₃ ⟨-, hmemory₃⟩
    obtain ⟨more, hnext⟩ := Stream.hasNext_inMemory hmemory₃
    refine .bind_ok (onStream_ok hnext) ?_
    cases more with
    | false => exact .of_ok rfl hmemory₃
    | true => exact .bind_ok rfl (.bind (refuse_ends hmemory₃ _ _ _) fun _ _ h => h)

/-- What an error in the walk of a tree comes to. -/
def settled (root : Token α) (s : MatchState) (e : Error) : Error :=
  match (failWalk root e : MatchM Empty) s with
  | .ok absurd _ => absurd.elim
  | .error e _ => e

section Run

variable [PayloadType α] {root t : Token α} {s' : MatchState} {state state' : σ} {stream : Stream}

/-- A tree that was walked to the end is the result. -/
theorem run_ok (hmatch : gr.matchInput limit (.ofStream stream) = .ok root s')
    (hwalk : root.walked gr.listenerFor state = .ok (t, state')) :
    (gr.run limit stream state).result = .ok t ∧ (gr.run limit stream state).state = state' := by
  obtain ⟨value, hwalk⟩ := Token.walk_of_walked_ok hwalk
  simp only [run, hmatch, hwalk]
  exact ⟨trivial, trivial⟩

/-- Where the walk of the tree ends, its error is settled. -/
theorem run_error {e : Error} (hmatch : gr.matchInput limit (.ofStream stream) = .ok root s')
    (hwalk : root.walked gr.listenerFor state = .error e) :
    (gr.run limit stream state).result = .error (settled root s' e) := by
  obtain ⟨visit, hwalk⟩ := Token.walk_of_walked_error hwalk
  cases hfail : (failWalk root e : MatchM Empty) s' with
  | ok absurd _ => exact absurd.elim
  | error e' s'' => simp only [run, hmatch, hwalk, settled, hfail]

end Run

end Grammar

namespace Notation

/-! ### Compiling -/

variable {limit : Nat} {text : String} {root : Token Value} {s s' : MatchState}

/-- The tree that is made of a grammar text is one of the start rule. -/
theorem parsed_of_matchInput
    (h : grammar.matchInput limit (.ofStream (.ofString text)) = .ok root s') :
    Parsed text.toList Sym.skip Sym.start root := by
  have hs : Stands text.toList [] 0 (.ofStream (.ofString text)) :=
    ⟨Stream.reads_ofString text, rfl⟩
  obtain ⟨p, stop, _, reach, _, hskipped, hrule, -⟩ := Grammar.of_matchInput_ok hs h
  rw [startRule_eq, skipRule_eq] at hrule
  exact ⟨[], p, stop, reach, (hskipped.le).2 (Nat.zero_le _), hrule⟩

/-- Matching a grammar text comes to a tree of the start rule, or the text is refused. -/
theorem matchInput_ends (hlimit : 9 ≤ limit) (text : String) :
    Ends (grammar.matchInput limit) (.ofStream (.ofString text))
      (fun root s' => Parsed text.toList Sym.skip Sym.start root ∧ s'.InMemory)
      Grammar.Refused := by
  have hs : Stands text.toList [] 0 (.ofStream (.ofString text)) :=
    ⟨Stream.reads_ofString text, rfl⟩
  have hstart : grammar.startRule ∈ allSymbols := by
    rw [startRule_eq]
    exact mem_allSymbols.mpr ⟨60, _, rfl, rfl⟩
  have hskip : grammar.skipRule ∈ allSymbols := by
    rw [skipRule_eq]
    exact mem_allSymbols.mpr ⟨82, _, rfl, rfl⟩
  have hends := Grammar.matchInput_ends grammar limit isSolid.closed isAcyclic isDefined hstart
    hskip (fun p => by rw [skipRule_eq]; exact skip_answers hlimit) hs rfl
  rcases hends.elim with ⟨root, s', hrun, hmemory⟩ | ⟨e, s', hrun, he⟩
  · exact .of_ok hrun ⟨parsed_of_matchInput hrun, hmemory⟩
  · exact .of_error hrun he

/-- Walking a tree is building the rules that it says. -/
theorem IsGrammar.walked {rules : List RuleText} (h : IsGrammar root rules) :
    (∃ found t d, buildGrammar rules = .ok found ∧ root.walked heard .empty = .ok (t, d) ∧
      t.payload = .ok (.rules found.rules) ∧ d.graph = found.graph) ∨
    ∃ e, buildGrammar rules = .error e ∧ root.walked heard .empty = .error e := by
  have hwalk := h .empty
  unfold buildGrammar
  cases hbuild : buildRules rules .empty with
  | error e =>
    simp only [hbuild, bind, Except.bind] at hwalk
    exact .inr ⟨e, rfl, hwalk⟩
  | ok d =>
    cases hfinish : d.finish with
    | error e =>
      simp only [hbuild, hfinish, bind, Except.bind] at hwalk
      exact .inr ⟨e, hfinish, hwalk⟩
    | ok found =>
      simp only [hbuild, hfinish, bind, Except.bind, pure, Except.pure] at hwalk
      obtain ⟨t, hwalk, -, hpayload⟩ := hwalk
      refine .inl ⟨found, t, d, hfinish, hwalk, hpayload, ?_⟩
      unfold Draft.finish at hfinish
      split at hfinish <;> cases hfinish
      rfl

/-- The rules of a grammar text are those that its tree says, whatever grammar made the tree, as
    long as the listeners are those of the notation. -/
theorem compileWith_eq {g : Grammar Draft Value} {rules : List RuleText}
    (hheard : g.listenerFor = heard)
    (hmatch : g.matchInput limit (.ofStream (.ofString text)) = .ok root s')
    (hroot : IsGrammar root rules) :
    (compileWith g limit text).result =
      (buildGrammar rules).mapError (Grammar.settled root s') := by
  unfold compileWith Grammar.parse Grammar.parseTree
  rcases hroot.walked with ⟨found, t, d, hbuild, hwalk, hpayload, hgraph⟩ | ⟨e, hbuild, hwalk⟩
  · rw [← hheard] at hwalk
    obtain ⟨hresult, hstate⟩ := Grammar.run_ok hmatch hwalk
    simp only [Outcome.bind, hresult, hstate, hpayload, hgraph, hbuild, Except.bind]
    rfl
  · rw [← hheard] at hwalk
    simp only [Outcome.bind, Grammar.run_error hmatch hwalk, hbuild]
    rfl

/-- What a grammar text comes to, if matching it comes to a tree. -/
theorem compile_of_matchInput
    (hmatch : grammar.matchInput limit (.ofStream (.ofString text)) = .ok root s')
    (hmemory : s'.InMemory) :
    (∃ found, (compile limit text).result = .ok found ∧ found.IsComplete ∧
      found.rules.keys = root.children.map ruleName) ∨
    (∃ cause, (compile limit text).result = .error (.parse cause)) ∨
    ∃ names, (compile limit text).result = .error (.configuration (.undefinedRules names)) := by
  obtain ⟨rules, hroot, hnames, hnamed⟩ := made_start (parsed_of_matchInput hmatch)
  have hresult := compileWith_eq rfl hmatch hroot
  unfold compile
  rcases buildGrammar_complete hnamed with
    ⟨found, hbuild, hcomplete, hkeys⟩ | ⟨cause, hbuild⟩ | ⟨names, hbuild⟩
  · rw [hbuild] at hresult
    exact .inl ⟨found, hresult, hcomplete, hkeys.trans hnames⟩
  · obtain ⟨location, s'', hlocate⟩ := Grammar.locateError_inMemory (β := Empty) hmemory cause
    have hsettled : Grammar.settled root s' (.parse cause) =
        .parse { cause with location := some location } := by
      simp only [Grammar.settled, Grammar.failWalk, hlocate]
    rw [hbuild, Except.mapError, hsettled] at hresult
    exact .inr (.inl ⟨_, hresult⟩)
  · rw [hbuild] at hresult
    exact .inr (.inr ⟨names, hresult⟩)

/-- A grammar text that is accepted has a tree, and the rules that the tree says. -/
theorem of_compile_ok {rs : RuleSet} (h : (compile limit text).result = .ok rs) :
    ∃ root s', grammar.matchInput limit (.ofStream (.ofString text)) = .ok root s' ∧
      rs.IsComplete ∧ rs.rules.keys = root.children.map ruleName := by
  cases hmatch : grammar.matchInput limit (.ofStream (.ofString text)) with
  | error e s' =>
    unfold compile compileWith Grammar.parse Grammar.parseTree Grammar.run at h
    rw [hmatch] at h
    cases h
  | ok root s' =>
    obtain ⟨rules, hroot, hnames, hnamed⟩ := made_start (parsed_of_matchInput hmatch)
    have hresult := compileWith_eq rfl hmatch hroot
    rw [← compile, h] at hresult
    rcases buildGrammar_complete hnamed with
      ⟨found, hbuild, hcomplete, hkeys⟩ | ⟨cause, hbuild⟩ | ⟨names, hbuild⟩
    all_goals
      rw [hbuild] at hresult
      cases hresult
    exact ⟨root, s', rfl, hcomplete, hkeys.trans hnames⟩

/-- What walking a tree of the start rule comes to. -/
theorem walk_of_parsed {chars : List Char} {skip : Ref}
    (hroot : Parsed chars skip Sym.start root) :
    (∃ value visit found, root.walk grammar.listenerFor .empty = .ok value visit ∧
      visit.token.payload = .ok (.rules found)) ∨
    (∃ cause visit, root.walk grammar.listenerFor .empty = .error (.parse cause) visit) ∨
    ∃ names visit, root.walk grammar.listenerFor .empty =
      .error (.configuration (.undefinedRules names)) visit := by
  obtain ⟨rules, hgrammar, -, hnamed⟩ := made_start hroot
  rcases hgrammar.walked with ⟨found, t, d, hbuild, hwalk, hpayload, -⟩ | ⟨e, hbuild, hwalk⟩
  · obtain ⟨value, hwalk⟩ := Token.walk_of_walked_ok hwalk
    exact .inl ⟨value, _, found.rules, hwalk, hpayload⟩
  · obtain ⟨visit, hwalk⟩ := Token.walk_of_walked_error hwalk
    rcases buildGrammar_complete hnamed with
      ⟨found, hbuild', -⟩ | ⟨cause, hbuild'⟩ | ⟨names, hbuild'⟩
    all_goals
      rw [hbuild] at hbuild'
      cases hbuild'
    · exact .inr (.inl ⟨cause, visit, hwalk⟩)
    · exact .inr (.inr ⟨names, visit, hwalk⟩)

/-- Whatever a grammar text is, it is accepted, or refused with an error in the input, or some names
    in it are not defined. -/
theorem compile_ends (hlimit : 9 ≤ limit) (text : String) :
    (∃ found, (compile limit text).result = .ok found) ∨
      (∃ cause, (compile limit text).result = .error (.parse cause)) ∨
      ∃ names, (compile limit text).result = .error (.configuration (.undefinedRules names)) := by
  rcases (matchInput_ends hlimit text).elim with
    ⟨root, s', hmatch, -, hmemory⟩ | ⟨e, s', hmatch, cause, rfl⟩
  · rcases compile_of_matchInput hmatch hmemory with
      ⟨found, hresult, -⟩ | hrefused | hundefined
    · exact .inl ⟨found, hresult⟩
    · exact .inr (.inl hrefused)
    · exact .inr (.inr hundefined)
  · refine .inr (.inl ⟨cause, ?_⟩)
    unfold compile compileWith Grammar.parse Grammar.parseTree Grammar.run
    rw [hmatch]
    rfl

end Notation

end GrammarEngine
