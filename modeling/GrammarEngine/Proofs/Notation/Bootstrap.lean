import GrammarEngine.Proofs.Notation.Blindness
import GrammarEngine.Proofs.Notation.Description
import GrammarEngine.Proofs.Notation.Pairing
import GrammarEngine.Proofs.Notation.Understanding

namespace GrammarEngine

/-!
# The notation, made from its own description

The description of the notation is compiled, and the rules get the listeners of the notation. The
grammar that comes of this is as good as the one made by hand: it compiles every text to the same
rules, or refuses it with the same error.

* `attach_eq`, `bootstrap_eq` — giving listeners to rules of the forms that they ask for;
* `compileWith_agrees` — compiling with two grammars whose parses agree;
* `bootstrap_faithful` — the grammar out of the description compiles as the one made by hand.
-/

theorem Shape.Mirrors.kind_eq {together : Ref → Ref → Prop} {shape shape' : Shape}
    (h : shape.Mirrors together shape') : shape.kind = shape'.kind := by
  cases h <;> rfl

namespace Notation

/-! ### The grammar out of the description -/

/-- Each of the rules has the form that it has in the notation. -/
def HasForms (rs : RuleSet) (names : List String) : Prop :=
  ∀ name ∈ names, ∃ ref ref', grammar.ruleSet.get? name = some ref ∧ rs.get? name = some ref' ∧
    (grammar.ruleSet.graph.symbol ref).kind = (rs.graph.symbol ref').kind

theorem includes_self (kind : SymbolKind) : (SymbolClass.only kind).includes kind = true := by
  cases kind with
  | plain kind => cases kind <;> rfl
  | _ => rfl

/-- A rule of the right form gets its listener. -/
theorem listen_eq {b : Builder Draft Value} {name : String} {listener : Listener Draft Value}
    {ref ref' : Ref} (href : grammar.ruleSet.get? name = some ref)
    (href' : b.ruleSet.get? name = some ref')
    (hkind : (grammar.ruleSet.graph.symbol ref).kind = (b.ruleSet.graph.symbol ref').kind)
    (hnone : b.listeners.get? name = none) :
    b.listen name ((grammar.ruleSet.get? name).map fun ref =>
        SymbolClass.only (grammar.ruleSet.graph.symbol ref).kind) listener =
      .ok { b with listeners := b.listeners.insert name listener } := by
  have hcontains : b.listeners.contains name = false := by
    rw [Dictionary.contains, hnone]
    rfl
  rw [href, Option.map_some, hkind]
  simp only [Builder.listen, Builder.checkListener, Builder.rule, href', includes_self,
    hcontains, Builder.register, bind, Except.bind, Bool.not_true, Bool.false_eq_true, if_false]
  rfl

/-- Listeners are attached one after the other to rules of the right forms. -/
theorem attach_eq {entries : List (String × Listener Draft Value)} {b : Builder Draft Value}
    (hforms : HasForms b.ruleSet (entries.map Prod.fst))
    (hnew : (b.listeners.keys ++ entries.map Prod.fst).Nodup) :
    attach b entries = .ok { b with listeners := ⟨b.listeners.entries ++ entries⟩ } := by
  induction entries generalizing b with
  | nil =>
    rw [List.append_nil]
    rfl
  | cons entry entries ih =>
    obtain ⟨name, listener⟩ := entry
    obtain ⟨ref, ref', href, href', hkind⟩ := hforms name List.mem_cons_self
    have hnone : b.listeners.get? name = none := by
      rw [Dictionary.get?_eq_none]
      intro hmem
      exact (List.nodup_append.mp hnew).2.2 name hmem name List.mem_cons_self rfl
    have hlater := @ih { b with listeners := b.listeners.insert name listener }
      (fun name hname => hforms name (List.mem_cons_of_mem _ hname))
      (by rw [Dictionary.keys_insert hnone, List.append_assoc]; exact hnew)
    rw [Dictionary.entries_insert hnone, List.append_assoc] at hlater
    rw [attach, listen_eq href href' hkind hnone]
    exact hlater

theorem get?_of_means {rs : RuleSet} {rules : List Rule} {name : String} (h : rs.Means rules)
    (hname : name ∈ rules.map Rule.name) : ∃ ref, rs.get? name = some ref := by
  rw [← h.1] at hname
  refine Option.ne_none_iff_exists'.mp fun hnone => ?_
  exact Dictionary.get?_eq_none.mp hnone hname

theorem ruleSet_eq : grammar.ruleSet = ruleSet := by rw [grammar]

theorem listeners_eq : grammar.listeners = listeners := by rw [grammar]

theorem start_eq : grammar.start = "start" := by rw [grammar]

theorem skip_eq : grammar.skip = "skip" := by rw [grammar]

theorem grammar_means : grammar.ruleSet.Means description := ruleSet_eq ▸ ruleSet_means

/-- The rules that have listeners. -/
theorem keys_listeners : listeners.entries.map Prod.fst = ["escape", "char", "range_char", "switch",
    "character", "text", "atom", "multiple", "option", "star", "sequence", "junction", "rule",
    "start"] := by
  rw [listeners_entries]
  rfl

/-- Rules that mean the description have the forms of the notation. -/
theorem hasForms_of_means {rs : RuleSet} (h : rs.Means description) :
    HasForms rs (listeners.entries.map Prod.fst) := by
  obtain ⟨pair, hmirrors, hpair⟩ := grammar_means.mirrors h (.refl _)
  have hmem : ∀ name ∈ listeners.entries.map Prod.fst, name ∈ description.map Rule.name := by
    rw [keys_listeners]
    decide +kernel
  intro name hname
  obtain ⟨ref, href⟩ := get?_of_means grammar_means (hmem name hname)
  obtain ⟨ref', href'⟩ := get?_of_means h (hmem name hname)
  exact ⟨ref, ref', href, href', (hmirrors.shape (hpair name ref ref' href href')).kind_eq⟩

set_option maxRecDepth 8000 in
theorem count_source : source.toList.count '(' = 7 := by
  rw [source, String.toList_ofList]
  decide +kernel

/-- The notation out of rules that mean its description. -/
theorem bootstrap_eq {rs : RuleSet} (h : rs.Means description) :
    ∃ g, bootstrap rs = .ok g ∧ g.ruleSet = rs ∧ g.listeners = listeners ∧
      g.start = "start" ∧ g.skip = "skip" := by
  obtain ⟨start, hstart⟩ := @get?_of_means rs _ "start" h (by decide +kernel)
  obtain ⟨skip, hskip⟩ := @get?_of_means rs _ "skip" h (by decide +kernel)
  have hhasStart : (rs.get? "start").isSome := by rw [hstart]; rfl
  have hhasSkip : (rs.get? "skip").isSome := by rw [hskip]; rfl
  have hnodup : (listeners.entries.map Prod.fst).Nodup := by
    rw [keys_listeners]
    decide +kernel
  have hattach : attach ⟨rs, some "start", some "skip", .empty⟩ listeners.entries =
      .ok ⟨rs, some "start", some "skip", listeners⟩ :=
    attach_eq (hasForms_of_means h) hnodup
  have hfirst : (⟨rs, none, none, .empty⟩ : Builder Draft Value).declareStart "start" =
      .ok ⟨rs, some "start", none, .empty⟩ := by
    simp only [Builder.declareStart, Builder.rule, hstart, bind, Except.bind]
    rfl
  have hsecond : (⟨rs, some "start", none, .empty⟩ : Builder Draft Value).declareSkip "skip" =
      .ok ⟨rs, some "start", some "skip", .empty⟩ := by
    simp only [Builder.declareSkip, Builder.rule, hskip, bind, Except.bind]
    rfl
  have hlast : (⟨rs, some "start", some "skip", listeners⟩ : Builder Draft Value).build =
      .ok ⟨rs, listeners, "start", "skip", hhasStart, hhasSkip⟩ := by
    simp only [Builder.build, Grammar.make, hstart, hskip, Option.isSome_some, dite_true]
  refine ⟨⟨rs, listeners, "start", "skip", hhasStart, hhasSkip⟩, ?_, rfl, rfl, rfl, rfl⟩
  simp only [bootstrap, start_eq, skip_eq, listeners_eq, Builder.ofRules, bind, Except.bind, hfirst,
    hsecond, hattach, hlast]

/-! ### Compiling with it -/

variable {g g' : Grammar Draft Value} {limit limit' : Nat} {text : String}

/-- What the payload of a tree comes to as rules. -/
def rulesOf (state : Draft) (t : Token Value) : Except Error RuleSet :=
  t.payload >>= fun
    | .rules rules => .ok { graph := state.graph, rules }
    | _ => .error .wrongType

theorem compileWith_result (g : Grammar Draft Value) (limit : Nat) (text : String) :
    (compileWith g limit text).result =
      (g.parseTree limit text .empty).result >>= rulesOf (g.parseTree limit text .empty).state := by
  unfold compileWith Grammar.parse Outcome.bind
  cases (g.parseTree limit text .empty).result <;> rfl

/-- Compiling with two grammars comes to the same if their parses agree. -/
theorem compileWith_agrees
    (h : (g.parseTree limit text .empty).Agrees Token.masked (g'.parseTree limit' text .empty)) :
    (compileWith g limit text).result.mapError Error.masked =
      (compileWith g' limit' text).result.mapError Error.masked := by
  rw [compileWith_result, compileWith_result, ← h.state]
  exact h.bind_result fun t t' ht => by rw [rulesOf, rulesOf, Token.payload_of_masked ht]

theorem eq_of_mapError {r r' : Except Error RuleSet}
    (h : r.mapError Error.masked = r'.mapError Error.masked)
    (hends : (∃ found, r' = .ok found) ∨ (∃ cause, r' = .error (.parse cause)) ∨
      ∃ names, r' = .error (.configuration (.undefinedRules names))) : r = r' := by
  rcases hends with ⟨found, rfl⟩ | ⟨cause, rfl⟩ | ⟨names, rfl⟩
  · cases r with
    | ok found' => exact congrArg Except.ok (Except.ok.inj h)
    | error e => cases h
  · cases r with
    | ok found' => cases h
    | error e =>
      have he : e.masked = .parse cause := Except.error.inj h
      cases e with
      | parse cause' => exact congrArg Except.error he
      | configuration e => cases e <;> cases he
      | _ => cases he
  · cases r with
    | ok found' => cases h
    | error e =>
      have he : e.masked = .configuration (.undefinedRules names) := Except.error.inj h
      cases e with
      | configuration e =>
        cases e with
        | undefinedRules names' => exact congrArg Except.error he
        | _ => cases he
      | _ => cases he

/-- A grammar whose parses mirror those of the notation compiles every text to the same, unless one
    of the two is nested too deeply; and from some limit on neither is. -/
theorem compileWith_mirrored (hsound : g.ruleSet.IsSound) {pair : Ref → Ref → Prop}
    (hm : g.Mirror grammar pair) (text : String) :
    (∀ limit limit', (compileWith g limit text).result = (compile limit' text).result ∨
      (∃ e, (compileWith g limit text).result = .error e ∧ e.IsTooDeep) ∨
      ∃ e, (compile limit' text).result = .error e ∧ e.IsTooDeep) ∧
    ∃ enough, ∀ limit, enough ≤ limit → ∀ limit', enough ≤ limit' →
      (compileWith g limit text).result = (compile limit' text).result := by
  have hblind : AreBlind g.listenerFor := Grammar.areBlind fun name listener hlistener => by
    rw [← hm.listeners, listeners_eq] at hlistener
    exact isBlind_listeners _ (Dictionary.mem_entries_of_get? hlistener)
  obtain ⟨hall, enough, henough⟩ := g.parseTree_mirrored hsound hm hblind text .empty
  have hfailed : ∀ (g : Grammar Draft Value) (limit : Nat),
      (∃ e, (g.parseTree limit text .empty).result = .error e ∧ e.IsTooDeep) →
      ∃ e, (compileWith g limit text).result = .error e ∧ e.IsTooDeep := by
    rintro g limit ⟨e, he, hdeep⟩
    refine ⟨e, ?_, hdeep⟩
    rw [compileWith_result, he]
    rfl
  constructor
  · intro limit limit'
    rcases hall limit limit' with hagrees | hdeep | hdeep
    · -- With room enough the error is one of those without the number of a nameless symbol.
      rcases compile_agrees (Nat.le_max_left limit' 9) text with heq | hdeep
      · refine .inl (eq_of_mapError (compileWith_agrees hagrees) ?_)
        have hends := compile_ends (Nat.le_max_right limit' 9) text
        rwa [← heq] at hends
      · exact .inr (.inr hdeep)
    · exact .inr (.inl (hfailed _ _ hdeep))
    · exact .inr (.inr (hfailed _ _ hdeep))
  · refine ⟨max enough 9, fun limit hlimit limit' hlimit' => ?_⟩
    have hagrees := henough limit (le_of_max_le_left hlimit) limit' (le_of_max_le_left hlimit')
    exact eq_of_mapError (compileWith_agrees hagrees) (compile_ends (le_of_max_le_right hlimit') text)

/-- The rules that the description comes to, with the listeners of the notation, are a grammar that
    compiles every text as the notation does: to the same rules, or to the same error, nesting
    apart. So the description comes to the same rules with it, and nothing changes from there on. -/
theorem bootstrap_faithful :
    ∃ rs g, (∀ limit, nestingLimit ≤ limit → (compile limit source).result = .ok rs) ∧
      bootstrap rs = .ok g ∧
      (∀ text,
        (∀ limit limit', (compileWith g limit text).result = (compile limit' text).result ∨
          (∃ e, (compileWith g limit text).result = .error e ∧ e.IsTooDeep) ∨
          ∃ e, (compile limit' text).result = .error e ∧ e.IsTooDeep) ∧
        ∃ enough, ∀ limit, enough ≤ limit → ∀ limit', enough ≤ limit' →
          (compileWith g limit text).result = (compile limit' text).result) ∧
      (∀ limit, (compileWith g limit source).result = .ok rs ∨
        ∃ e, (compileWith g limit source).result = .error e ∧ e.IsTooDeep) ∧
      ∃ enough, ∀ limit, enough ≤ limit → (compileWith g limit source).result = .ok rs := by
  obtain ⟨rs, hcomplete, hmeans, hroom⟩ :=
    compile_of_isTextOf isWellFormed_description isTextOf_source
  obtain ⟨g, hbootstrap, rfl, hlisteners, hstart, hskip⟩ := bootstrap_eq hmeans
  obtain ⟨pair, hm⟩ := Grammar.mirror_of_means hmeans grammar_means (.refl _)
    (start_eq.trans hstart.symm) (skip_eq.trans hskip.symm) (listeners_eq.trans hlisteners.symm)
  have hcompile : ∀ limit, nestingLimit ≤ limit → (compile limit source).result = .ok g.ruleSet := by
    intro limit hlimit
    refine hroom limit (Nat.le_trans ?_ hlimit)
    rw [count_source]
    decide
  have hmirrored := compileWith_mirrored hcomplete.isSound hm
  refine ⟨g.ruleSet, g, hcompile, hbootstrap, hmirrored, fun limit => ?_, ?_⟩
  · rcases (hmirrored source).1 limit nestingLimit with heq | hdeep | ⟨e, he, -⟩
    · exact .inl (heq.trans (hcompile _ (Nat.le_refl _)))
    · exact .inr hdeep
    · rw [hcompile _ (Nat.le_refl _)] at he
      cases he
  · obtain ⟨enough, henough⟩ := (hmirrored source).2
    refine ⟨max enough nestingLimit, fun limit hlimit => ?_⟩
    rw [henough limit (le_of_max_le_left hlimit) limit (le_of_max_le_left hlimit),
      hcompile limit (le_of_max_le_right hlimit)]

theorem bootstrap_faithful_pair :
    ∃ rs g found, (compile nestingLimit source).result = .ok rs ∧ bootstrap rs = .ok g ∧
      found.Means pair ∧ ∃ limit, (compileWith g limit pairText).result = .ok found := by
  obtain ⟨found, -, hmeans, hroom⟩ := compile_of_isTextOf isWellFormed_pair isTextOf_pair
  obtain ⟨rs, g, hcompile, hbootstrap, hsame, -⟩ := bootstrap_faithful
  obtain ⟨-, enough, henough⟩ := hsame pairText
  refine ⟨rs, g, found, hcompile nestingLimit (Nat.le_refl _), hbootstrap, hmeans,
    max enough nestingLimit, ?_⟩
  have hlimit : 30 + 20 * pairText.toList.count '(' ≤ nestingLimit := by decide
  rw [henough _ (Nat.le_max_left _ _) _ (Nat.le_max_left _ _)]
  exact hroom _ (Nat.le_trans hlimit (Nat.le_max_right _ _))

end Notation

end GrammarEngine
