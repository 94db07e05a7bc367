import GrammarEngine.Grammar.Session

namespace GrammarEngine

/-!
# What a builder does, call by call

Whatever is declared first stays: the start rule, the skip rule, and the listener of each rule. A call
that fails changes nothing, and a grammar that was built is out of the builder's reach.

* `Session.Refuses` — why a call fails;
* `Session.Does` — what a call that does not fail changes;
* `Session.Sound`, `Session.Obeys` — one call does what it should, or is refused;
* `Session.FirstWins` — what a builder has declared is what came first;
* `Session.firstWriteWins` — any number of calls, in any order.
-/

variable {σ α : Type}

namespace Builder.Call

/-- The start rule that the call declares. -/
def start? : Builder.Call σ α → Option String
  | .start name => some name
  | _ => none

/-- The skip rule that the call declares. -/
def skip? : Builder.Call σ α → Option String
  | .skip name => some name
  | _ => none

/-- The listener that the call gives to a rule, where the decorators are for these rules. -/
def listener? (decorators : List String) (rule : String) :
    Builder.Call σ α → Option (Listener σ α)
  | .apply decorator given => if decorators[decorator]? = some rule then some given else none
  | _ => none

end Builder.Call

namespace Session

/-! ### What a call does -/

/-- The call can be made: a decorator can be applied once it was handed out. -/
def Offers (s : Session σ α) : Builder.Call σ α → Prop
  | .apply decorator _ => decorator < s.decorators.length
  | _ => True

/-- Why a call fails. -/
inductive Refuses (s : Session σ α) : Builder.Call σ α → Misconfiguration → Prop
  | noStartRule {name : String} (unknown : s.ruleSet.get? name = none) :
      Refuses s (.start name) (.noRule name)
  | startTwice {name first : String} (known : (s.ruleSet.get? name).isSome)
      (declared : s.startName = some first) : Refuses s (.start name) (.startTwice first)
  | noSkipRule {name : String} (unknown : s.ruleSet.get? name = none) :
      Refuses s (.skip name) (.noRule name)
  | skipTwice {name first : String} (known : (s.ruleSet.get? name).isSome)
      (declared : s.skipName = some first) : Refuses s (.skip name) (.skipTwice first)
  | noListenerRule {name : String} {expected : Option SymbolClass}
      (unknown : s.ruleSet.get? name = none) : Refuses s (.listener name expected) (.noRule name)
  | wrongKind {name : String} {ref : Ref} {expected : SymbolClass}
      (known : s.ruleSet.get? name = some ref)
      (wrong : expected.includes (s.ruleSet.graph.symbol ref).kind = false) :
      Refuses s (.listener name (some expected))
        (.wrongRuleKind name (s.ruleSet.graph.symbol ref).kind expected)
  | listenerTwice {name : String} {ref : Ref} {expected : Option SymbolClass}
      (known : s.ruleSet.get? name = some ref)
      (right : ∀ cls ∈ expected, cls.includes (s.ruleSet.graph.symbol ref).kind = true)
      (taken : s.builder.listeners.contains name = true) :
      Refuses s (.listener name expected) (.listenerTwice name)
  | appliedTwice {decorator : Nat} {name : String} {listener : Listener σ α}
      (handed : s.decorators[decorator]? = some name)
      (taken : s.builder.listeners.contains name = true) :
      Refuses s (.apply decorator listener) (.listenerTwice name)
  | noStart (undeclared : s.startName = none) : Refuses s .build .noStart
  | noSkip (declared : s.startName.isSome) (undeclared : s.skipName = none) :
      Refuses s .build .noSkip

/-- What a call that does not fail changes. -/
inductive Does (s : Session σ α) : Builder.Call σ α → Session σ α → Prop
  | start {name : String} (known : (s.ruleSet.get? name).isSome) (first : s.startName = none) :
      Does s (.start name) { s with startName := some name }
  | skip {name : String} (known : (s.ruleSet.get? name).isSome) (first : s.skipName = none) :
      Does s (.skip name) { s with skipName := some name }
  | listener {name : String} {ref : Ref} {expected : Option SymbolClass}
      (known : s.ruleSet.get? name = some ref)
      (right : ∀ cls ∈ expected, cls.includes (s.ruleSet.graph.symbol ref).kind = true)
      (first : s.builder.listeners.contains name = false) :
      Does s (.listener name expected) { s with decorators := s.decorators ++ [name] }
  | apply {decorator : Nat} {name : String} {listener : Listener σ α}
      (handed : s.decorators[decorator]? = some name)
      (first : s.builder.listeners.contains name = false) :
      Does s (.apply decorator listener) { s with
        dictionaries :=
          s.dictionaries.set s.listenersAt (s.builder.listeners.insert name listener) }
  | build {g : Grammar σ α} (rules : g.ruleSet = s.ruleSet)
      (listeners : g.listeners = s.builder.listeners) (start : s.startName = some g.start)
      (skip : s.skipName = some g.skip) : Does s .build (s.deliver g)

/-- What holds of a builder at work all the time. -/
structure Sound (rs : RuleSet) (s : Session σ α) : Prop where
  rules : s.ruleSet = rs
  start : ∀ name ∈ s.startName, (rs.get? name).isSome
  skip : ∀ name ∈ s.skipName, (rs.get? name).isSome
  decorators : ∀ name ∈ s.decorators, (rs.get? name).isSome
  listeners : ∀ name, s.builder.listeners.contains name = true → (rs.get? name).isSome
  /-- The listeners of the builder are in a place, -/
  here : s.listenersAt < s.dictionaries.length
  /-- and those of each grammar in another one. -/
  apart : ∀ built ∈ s.grammars,
    built.listenersAt < s.dictionaries.length ∧ built.listenersAt ≠ s.listenersAt

variable {rs : RuleSet} {s s' : Session σ α} {call : Builder.Call σ α}
  {done : List (Builder.Call σ α)}

/-- Putting back listeners that did not change changes nothing. -/
theorem Sound.put_eq (h : s.Sound rs) {startName skipName : Option String} :
    s.put { s.builder with startName, skipName } = { s with startName, skipName } := by
  have hset : s.dictionaries.set s.listenersAt (s.dictionary s.listenersAt) = s.dictionaries := by
    rw [dictionary, List.getD_eq_getElem?_getD, List.getElem?_eq_getElem h.here, Option.getD_some,
      List.set_getElem_self]
  simp only [put, builder, hset]

/-- The call does what it should, or it is refused and changes nothing. -/
def Obeys (s : Session σ α) (call : Builder.Call σ α) : Prop :=
  (∃ s', s.step call = (.ok (), s') ∧ s.Does call s') ∨
    ∃ e, s.step call = (.error e, s) ∧
      (s.Offers call → ∃ cause, e = .configuration cause ∧ s.Refuses call cause)

/-- A call that is refused for a cause. -/
theorem obeys_of_refuses {cause : Misconfiguration}
    (hstep : s.step call = (.error (.configuration cause), s)) (h : s.Refuses call cause) :
    s.Obeys call :=
  .inr ⟨_, hstep, fun _ => ⟨cause, rfl, h⟩⟩

theorem start_obeys (h : s.Sound rs) (name : String) : s.Obeys (.start name) := by
  cases hrule : s.ruleSet.get? name with
  | none =>
    have hdeclare : s.builder.declareStart name = .error (.configuration (.noRule name)) := by
      simp only [Builder.declareStart, Builder.rule, builder, hrule]
      rfl
    exact obeys_of_refuses (by rw [step, hdeclare]; rfl) (.noStartRule hrule)
  | some ref =>
    have hknown : (s.ruleSet.get? name).isSome := by rw [hrule]; rfl
    cases hstart : s.startName with
    | some first =>
      have hdeclare : s.builder.declareStart name = .error (.configuration (.startTwice first)) := by
        simp only [Builder.declareStart, Builder.rule, builder, hrule, hstart]
        rfl
      exact obeys_of_refuses (by rw [step, hdeclare]; rfl) (.startTwice hknown hstart)
    | none =>
      have hdeclare : s.builder.declareStart name =
          .ok { s.builder with startName := some name } := by
        simp only [Builder.declareStart, Builder.rule, builder, hrule, hstart]
        rfl
      refine .inl ⟨_, ?_, .start hknown hstart⟩
      rw [step, hdeclare, settle]
      exact congrArg (Prod.mk _) h.put_eq

theorem skip_obeys (h : s.Sound rs) (name : String) : s.Obeys (.skip name) := by
  cases hrule : s.ruleSet.get? name with
  | none =>
    have hdeclare : s.builder.declareSkip name = .error (.configuration (.noRule name)) := by
      simp only [Builder.declareSkip, Builder.rule, builder, hrule]
      rfl
    exact obeys_of_refuses (by rw [step, hdeclare]; rfl) (.noSkipRule hrule)
  | some ref =>
    have hknown : (s.ruleSet.get? name).isSome := by rw [hrule]; rfl
    cases hskip : s.skipName with
    | some first =>
      have hdeclare : s.builder.declareSkip name = .error (.configuration (.skipTwice first)) := by
        simp only [Builder.declareSkip, Builder.rule, builder, hrule, hskip]
        rfl
      exact obeys_of_refuses (by rw [step, hdeclare]; rfl) (.skipTwice hknown hskip)
    | none =>
      have hdeclare : s.builder.declareSkip name = .ok { s.builder with skipName := some name } := by
        simp only [Builder.declareSkip, Builder.rule, builder, hrule, hskip]
        rfl
      refine .inl ⟨_, ?_, .skip hknown hskip⟩
      rw [step, hdeclare, settle]
      exact congrArg (Prod.mk _) h.put_eq

/-- A rule of the right kind may get a listener, unless it has one. -/
theorem checkListener_of_right {name : String} {ref : Ref} {expected : Option SymbolClass}
    (hrule : s.ruleSet.get? name = some ref)
    (hkind : ∀ cls ∈ expected, cls.includes (s.ruleSet.graph.symbol ref).kind = true) :
    s.builder.checkListener name expected =
      if s.builder.listeners.contains name then .error (.configuration (.listenerTwice name))
      else .ok () := by
  cases expected with
  | none =>
    simp only [Builder.checkListener, Builder.rule, builder, hrule]
    rfl
  | some cls =>
    simp only [Builder.checkListener, Builder.rule, builder, hrule, bind, Except.bind,
      hkind cls rfl, Bool.not_true, Bool.false_eq_true, if_false]
    rfl

theorem checkListener_of_wrong {name : String} {ref : Ref} {expected : SymbolClass}
    (hrule : s.ruleSet.get? name = some ref)
    (hkind : expected.includes (s.ruleSet.graph.symbol ref).kind = false) :
    s.builder.checkListener name (some expected) = .error (.configuration
      (.wrongRuleKind name (s.ruleSet.graph.symbol ref).kind expected)) := by
  simp only [Builder.checkListener, Builder.rule, builder, hrule, bind, Except.bind, hkind,
    Bool.not_false, if_true]
  rfl

theorem listener_obeys (s : Session σ α) (name : String) (expected : Option SymbolClass) :
    s.Obeys (.listener name expected) := by
  cases hrule : s.ruleSet.get? name with
  | none =>
    have hcheck : s.builder.checkListener name expected = .error (.configuration (.noRule name)) := by
      simp only [Builder.checkListener, Builder.rule, builder, hrule]
      rfl
    exact obeys_of_refuses (by rw [step, hcheck]; rfl) (.noListenerRule hrule)
  | some ref =>
    by_cases hkind : ∀ cls ∈ expected, cls.includes (s.ruleSet.graph.symbol ref).kind = true
    · have hcheck := checkListener_of_right hrule hkind
      cases htaken : s.builder.listeners.contains name with
      | true =>
        rw [htaken, if_pos rfl] at hcheck
        exact obeys_of_refuses (by rw [step, hcheck]; rfl) (.listenerTwice hrule hkind htaken)
      | false =>
        rw [htaken, if_neg Bool.false_ne_true] at hcheck
        exact .inl ⟨_, by rw [step, hcheck]; rfl, .listener hrule hkind htaken⟩
    · obtain ⟨cls, hcls⟩ := Classical.not_forall.mp hkind
      obtain ⟨rfl, hwrong⟩ := Classical.not_imp.mp hcls
      rw [Bool.not_eq_true] at hwrong
      exact obeys_of_refuses (by rw [step, checkListener_of_wrong hrule hwrong]; rfl)
        (.wrongKind hrule hwrong)

theorem apply_obeys (s : Session σ α) (decorator : Nat) (listener : Listener σ α) :
    s.Obeys (.apply decorator listener) := by
  cases hname : s.decorators[decorator]? with
  | none =>
    refine .inr ⟨_, by rw [step, hname], fun hoffers => ?_⟩
    exact absurd hoffers (Nat.not_lt.mpr (List.getElem?_eq_none_iff.mp hname))
  | some name =>
    cases htaken : s.builder.listeners.contains name with
    | true =>
      have hregister : s.builder.register name listener =
          .error (.configuration (.listenerTwice name)) := if_pos htaken
      exact obeys_of_refuses (by simp only [step, hname, hregister, settle])
        (.appliedTwice hname htaken)
    | false =>
      have hregister : s.builder.register name listener =
          .ok { s.builder with listeners := s.builder.listeners.insert name listener } :=
        if_neg (Bool.eq_false_iff.mp htaken)
      refine .inl ⟨_, ?_, .apply hname htaken⟩
      simp only [step, hname, hregister, settle]
      rfl

theorem build_obeys (h : s.Sound rs) : s.Obeys .build := by
  cases hstart : s.startName with
  | none =>
    have hbuild : s.builder.build = .error (.configuration .noStart) := by
      simp only [Builder.build, builder, hstart]
    exact obeys_of_refuses (by rw [step, hbuild]; rfl) (.noStart hstart)
  | some start =>
    cases hskip : s.skipName with
    | none =>
      have hbuild : s.builder.build = .error (.configuration .noSkip) := by
        simp only [Builder.build, builder, hstart, hskip]
      exact obeys_of_refuses (by rw [step, hbuild]; rfl) (.noSkip (by rw [hstart]; rfl) hskip)
    | some skip =>
      -- Both rules exist, because they did when they were declared.
      have hhasStart : (s.ruleSet.get? start).isSome := h.rules ▸ h.start start hstart
      have hhasSkip : (s.ruleSet.get? skip).isSome := h.rules ▸ h.skip skip hskip
      have hbuild : s.builder.build =
          .ok ⟨s.ruleSet, s.builder.listeners, start, skip, hhasStart, hhasSkip⟩ := by
        simp only [Builder.build, builder, hstart, hskip, Grammar.make, hhasStart, hhasSkip,
          dite_true]
      exact .inl ⟨_, by rw [step, hbuild]; rfl, .build rfl rfl hstart hskip⟩

theorem Sound.obeys (h : s.Sound rs) (call : Builder.Call σ α) : s.Obeys call := by
  cases call with
  | start name => exact start_obeys h name
  | skip name => exact skip_obeys h name
  | listener name expected => exact listener_obeys s name expected
  | apply decorator listener => exact apply_obeys s decorator listener
  | build => exact build_obeys h

/-! ### What stays -/

theorem dictionary_set_self (h : s.listenersAt < s.dictionaries.length)
    (d : Dictionary (Listener σ α)) :
    ({ s with dictionaries := s.dictionaries.set s.listenersAt d } : Session σ α).dictionary
      s.listenersAt = d := by
  rw [dictionary, List.getD_eq_getElem?_getD, List.getElem?_set_self h, Option.getD_some]

theorem dictionary_set_ne {place : Nat} (h : place ≠ s.listenersAt)
    (d : Dictionary (Listener σ α)) :
    ({ s with dictionaries := s.dictionaries.set s.listenersAt d } : Session σ α).dictionary place =
      s.dictionary place := by
  rw [dictionary, dictionary, List.getD_eq_getElem?_getD, List.getD_eq_getElem?_getD,
    List.getElem?_set_ne h.symm]

/-- Handing out a grammar changes nothing in other places. -/
theorem dictionary_deliver {place : Nat} (h : place < s.dictionaries.length) (g : Grammar σ α) :
    (s.deliver g).dictionary place = s.dictionary place := by
  rw [dictionary, dictionary, List.getD_eq_getElem?_getD, List.getD_eq_getElem?_getD, deliver,
    List.getElem?_append_left h]

/-- What was declared, and what was handed out, is still there as it was. -/
structure Keeps (s s' : Session σ α) : Prop where
  rules : s'.ruleSet = s.ruleSet
  start : ∀ name ∈ s.startName, s'.startName = some name
  skip : ∀ name ∈ s.skipName, s'.skipName = some name
  listeners : ∀ rule, ∀ listener ∈ s.builder.listeners.get? rule,
    s'.builder.listeners.get? rule = some listener
  decorators : s.decorators <+: s'.decorators
  grammars : ∀ built ∈ s.grammars, built ∈ s'.grammars ∧ s'.read built = s.read built

theorem Keeps.refl (s : Session σ α) : s.Keeps s :=
  ⟨rfl, fun _ h => h, fun _ h => h, fun _ _ h => h, List.prefix_refl _, fun _ h => ⟨h, rfl⟩⟩

theorem Keeps.trans {s'' : Session σ α} (h : s.Keeps s') (h' : s'.Keeps s'') : s.Keeps s'' where
  rules := h'.rules.trans h.rules
  start name hname := h'.start name (h.start name hname)
  skip name hname := h'.skip name (h.skip name hname)
  listeners rule listener hrule := h'.listeners rule listener (h.listeners rule listener hrule)
  decorators := h.decorators.trans h'.decorators
  grammars built hbuilt :=
    have ⟨hmem, hread⟩ := h.grammars built hbuilt
    have ⟨hmem', hread'⟩ := h'.grammars built hmem
    ⟨hmem', hread'.trans hread⟩

/-- Where a dictionary has nothing under a name, nothing is lost by giving it something. -/
theorem get?_of_contains_false {d : Dictionary (Listener σ α)} {name rule : String}
    {listener given : Listener σ α} (h : d.contains name = false)
    (hrule : d.get? rule = some listener) : (d.insert name given).get? rule = some listener := by
  rw [Dictionary.get?_insert, if_neg ?_, hrule]
  rintro rfl
  rw [Dictionary.contains, hrule] at h
  cases h

theorem Does.keeps (h : s.Sound rs) (hdoes : s.Does call s') : s.Keeps s' := by
  cases hdoes with
  | start known first =>
    refine { Keeps.refl s with start := fun name hname => ?_ }
    rw [first] at hname
    cases hname
  | skip known first =>
    refine { Keeps.refl s with skip := fun name hname => ?_ }
    rw [first] at hname
    cases hname
  | listener => exact { Keeps.refl s with decorators := List.prefix_append _ _ }
  | apply handed first =>
    refine { Keeps.refl s with
      listeners := fun rule listener hrule => ?_
      grammars := fun built hbuilt => ⟨hbuilt, ?_⟩ }
    · rw [builder, dictionary_set_self h.here]
      exact get?_of_contains_false first hrule
    · simp only [read, dictionary_set_ne (h.apart built hbuilt).2]
  | build =>
    refine { Keeps.refl s with
      listeners := fun rule listener hrule => ?_
      grammars := fun built hbuilt => ⟨List.mem_append_left _ hbuilt, ?_⟩ }
    · exact (congrArg (·.get? rule) (dictionary_deliver h.here _)).trans hrule
    · simp only [read, dictionary_deliver (h.apart built hbuilt).1]

theorem Does.sound (h : s.Sound rs) (hdoes : s.Does call s') : s'.Sound rs := by
  cases hdoes with
  | start known first =>
    refine { h with start := fun name hname => ?_ }
    cases hname
    exact h.rules ▸ known
  | skip known first =>
    refine { h with skip := fun name hname => ?_ }
    cases hname
    exact h.rules ▸ known
  | listener known =>
    refine { h with decorators := fun name hname => ?_ }
    rcases List.mem_append.mp hname with hname | hname
    · exact h.decorators name hname
    · cases List.mem_singleton.mp hname
      rw [← h.rules, known]
      rfl
  | @apply decorator name listener handed first =>
    refine { h with
      listeners := fun rule hrule => ?_
      here := ?_
      apart := fun built hbuilt => ?_ }
    · rw [builder, dictionary_set_self h.here, Dictionary.contains, Dictionary.get?_insert] at hrule
      split at hrule
      · rename_i heq
        exact heq ▸ h.decorators name (List.mem_of_getElem? handed)
      · exact h.listeners rule hrule
    · rw [List.length_set]
      exact h.here
    · rw [List.length_set]
      exact h.apart built hbuilt
  | @build g =>
    have hlength : (s.deliver g).dictionaries.length = s.dictionaries.length + 1 := List.length_append
    refine { h with
      listeners := fun rule hrule => ?_
      here := ?_
      apart := fun built hbuilt => ?_ }
    · refine h.listeners rule ?_
      rw [Dictionary.contains] at hrule ⊢
      exact (congrArg (fun d => (d.get? rule).isSome) (dictionary_deliver h.here g)).symm.trans hrule
    · rw [hlength]
      exact Nat.lt_succ_of_lt h.here
    · rw [hlength]
      rcases List.mem_append.mp hbuilt with hbuilt | hbuilt
      · exact ⟨Nat.lt_succ_of_lt (h.apart built hbuilt).1, (h.apart built hbuilt).2⟩
      · cases List.mem_singleton.mp hbuilt
        exact ⟨Nat.lt_succ_self _, Nat.ne_of_gt h.here⟩

/-- One call keeps a builder sound, and keeps what was declared and handed out. -/
theorem Sound.step (h : s.Sound rs) (call : Builder.Call σ α) :
    (s.step call).2.Sound rs ∧ s.Keeps (s.step call).2 := by
  rcases h.obeys call with ⟨s', hstep, hdoes⟩ | ⟨e, hstep, -⟩
  · rw [hstep]
    exact ⟨hdoes.sound h, hdoes.keeps h⟩
  · rw [hstep]
    exact ⟨h, .refl s⟩

/-- So do many calls. -/
theorem Sound.after (h : s.Sound rs) (calls : List (Builder.Call σ α)) :
    (s.after calls).Sound rs ∧ s.Keeps (s.after calls) := by
  induction calls generalizing s with
  | nil => exact ⟨h, .refl s⟩
  | cons call calls ih =>
    obtain ⟨hsound, hkeeps⟩ := h.step call
    obtain ⟨hsound', hkeeps'⟩ := ih hsound
    exact ⟨hsound', hkeeps.trans hkeeps'⟩

theorem sound_ofRules (rs : RuleSet) : (ofRules (σ := σ) (α := α) rs).Sound rs where
  rules := rfl
  start := nofun
  skip := nofun
  decorators := nofun
  listeners := nofun
  here := Nat.zero_lt_one
  apart := nofun

/-! ### What came first -/

/-- What the builder has declared is what came first among the calls that did not fail, and every
    listener is one of a rule. -/
structure FirstWins (rs : RuleSet) (done : List (Builder.Call σ α)) (s : Session σ α) : Prop where
  rules : s.ruleSet = rs
  start : s.startName = done.findSome? Builder.Call.start?
  skip : s.skipName = done.findSome? Builder.Call.skip?
  listeners : ∀ rule, s.builder.listeners.get? rule =
    done.findSome? (Builder.Call.listener? s.decorators rule)
  known : ∀ rule, s.builder.listeners.contains rule = true → (rs.get? rule).isSome

/-- The decorators that were applied had been handed out. -/
def Handed (done : List (Builder.Call σ α)) (s : Session σ α) : Prop :=
  ∀ call ∈ done, s.Offers call

theorem findSome?_concat {β γ : Type} (f : β → Option γ) (bs : List β) (b : β) :
    (bs ++ [b]).findSome? f = (bs.findSome? f).or (f b) := by
  rw [List.findSome?_append, List.findSome?_cons, List.findSome?_nil]
  cases f b <;> rfl

/-- Decorators that are handed out later make no difference to those that were applied. -/
theorem Handed.listener?_eq (h : Handed done s) (hkeeps : s.Keeps s') (rule : String) :
    done.findSome? (Builder.Call.listener? s'.decorators rule) =
      done.findSome? (Builder.Call.listener? s.decorators rule) := by
  obtain ⟨later, hlater⟩ := hkeeps.decorators
  have hsame : ∀ call ∈ done, Builder.Call.listener? s'.decorators rule call =
      Builder.Call.listener? s.decorators rule call := by
    intro call hcall
    cases call with
    | apply decorator listener =>
      have hlt : decorator < s.decorators.length := h _ hcall
      rw [Builder.Call.listener?, Builder.Call.listener?, ← hlater, List.getElem?_append_left hlt]
    | _ => rfl
  clear h
  induction done with
  | nil => rfl
  | cons call calls ih =>
    rw [List.forall_mem_cons] at hsame
    rw [List.findSome?_cons, List.findSome?_cons, hsame.1, ih hsame.2]

theorem Handed.concat (h : Handed done s) (hkeeps : s.Keeps s') (hoffers : s.Offers call) :
    Handed (done ++ [call]) s' := by
  have hlater : ∀ call : Builder.Call σ α, s.Offers call → s'.Offers call := by
    intro call hcall
    cases call with
    | apply decorator listener => exact Nat.lt_of_lt_of_le hcall hkeeps.decorators.length_le
    | _ => trivial
  intro call' hcall'
  rcases List.mem_append.mp hcall' with hmem | hmem
  · exact hlater _ (h call' hmem)
  · cases List.mem_singleton.mp hmem
    exact hlater _ hoffers

theorem Does.offers (h : s.Does call s') : s.Offers call := by
  cases h with
  | apply handed => exact (List.getElem?_eq_some_iff.mp handed).1
  | _ => trivial

/-- A call that does not fail is recorded behind the earlier ones. -/
theorem FirstWins.does (h : s.FirstWins rs done) (hhanded : Handed done s) (hs : s.Sound rs)
    (hdoes : s.Does call s') : s'.FirstWins rs (done ++ [call]) := by
  have hs' := hdoes.sound hs
  have hlisteners := fun rule => (h.listeners rule).trans
    (hhanded.listener?_eq (hdoes.keeps hs) rule).symm
  refine ⟨hs'.rules, ?start, ?skip, fun rule => ?listeners, hs'.listeners⟩
  case start =>
    rw [findSome?_concat, ← h.start]
    cases hdoes with
    | start known first => rw [first]; rfl
    | _ => exact (Option.or_none).symm
  case skip =>
    rw [findSome?_concat, ← h.skip]
    cases hdoes with
    | skip known first => rw [first]; rfl
    | _ => exact (Option.or_none).symm
  case listeners =>
    rw [findSome?_concat, ← hlisteners rule]
    cases hdoes with
    | @apply decorator name listener handed first =>
      rw [builder, dictionary_set_self hs.here, Dictionary.get?_insert, Builder.Call.listener?, handed]
      by_cases heq : rule = name
      · subst heq
        rw [Dictionary.contains, Option.isSome_eq_false_iff, Option.isNone_iff_eq_none] at first
        rw [first, if_pos rfl, if_pos rfl]
        rfl
      · rw [if_neg heq, if_neg (fun hsome => heq (Option.some.inj hsome).symm), Option.or_none]
    | build =>
      exact (congrArg (·.get? rule) (dictionary_deliver hs.here _)).trans (Option.or_none).symm
    | _ => exact (Option.or_none).symm

/-- Whatever calls are made, what the builder has declared is what came first. -/
theorem FirstWins.after (h : s.FirstWins rs done) (hhanded : Handed done s) (hs : s.Sound rs)
    (calls : List (Builder.Call σ α)) :
    (s.after calls).FirstWins rs (done ++ s.successes calls) := by
  induction calls generalizing s done with
  | nil =>
    rw [successes, List.append_nil]
    exact h
  | cons call calls ih =>
    rw [successes]
    rcases hs.obeys call with ⟨s', hstep, hdoes⟩ | ⟨e, hstep, -⟩
    · have hlater := ih (h.does hhanded hs hdoes)
        (hhanded.concat (hdoes.keeps hs) hdoes.offers) (hdoes.sound hs)
      rw [List.append_assoc] at hlater
      simp only [Session.after, List.foldl_cons, hstep, Except.isOk, Except.toBool, if_true]
      exact hlater
    · simp only [Session.after, List.foldl_cons, hstep, Except.isOk, Except.toBool,
        Bool.false_eq_true, if_false]
      exact ih h hhanded hs

theorem firstWins_ofRules (rs : RuleSet) :
    (ofRules (σ := σ) (α := α) rs).FirstWins rs [] :=
  ⟨rfl, rfl, rfl, fun _ => rfl, nofun⟩

/-! ### What a builder refuses -/

/-- What is refused is not done. -/
theorem Refuses.not_does {cause : Misconfiguration} (h : s.Refuses call cause)
    (hdoes : s.Does call s') : False := by
  cases h with
  | noStartRule unknown | noSkipRule unknown =>
    cases hdoes with
    | _ known =>
      rw [unknown] at known
      cases known
  | noListenerRule unknown =>
    cases hdoes with
    | listener known =>
      rw [unknown] at known
      cases known
  | startTwice known declared | skipTwice known declared =>
    cases hdoes with
    | _ known first =>
      rw [declared] at first
      cases first
  | wrongKind known wrong =>
    cases hdoes with
    | listener known' right =>
      cases known.symm.trans known'
      rw [right _ rfl] at wrong
      cases wrong
  | listenerTwice known right taken =>
    cases hdoes with
    | listener known' right' first =>
      rw [taken] at first
      cases first
  | appliedTwice handed taken =>
    cases hdoes with
    | apply handed' first =>
      cases handed.symm.trans handed'
      rw [taken] at first
      cases first
  | noStart undeclared =>
    cases hdoes with
    | build _ _ start =>
      rw [undeclared] at start
      cases start
  | noSkip declared undeclared =>
    cases hdoes with
    | build _ _ _ skip =>
      rw [undeclared] at skip
      cases skip

/-- There is one cause for which a call is refused. -/
theorem Refuses.unique {cause cause' : Misconfiguration} (h : s.Refuses call cause)
    (h' : s.Refuses call cause') : cause = cause' := by
  cases h <;> cases h' <;> simp_all

/-- What is refused is an error for its cause. -/
theorem Refuses.step_eq {cause : Misconfiguration} (h : s.Refuses call cause) (hs : s.Sound rs)
    (hoffers : s.Offers call) : (s.step call).1 = .error (.configuration cause) := by
  rcases hs.obeys call with ⟨s', -, hdoes⟩ | ⟨e, hstep, hcause⟩
  · exact (h.not_does hdoes).elim
  · obtain ⟨cause', rfl, h'⟩ := hcause hoffers
    rw [hstep, h.unique h']

theorem Sound.build_ok (h : s.Sound rs) (hok : (s.step .build).1 = .ok ()) :
    s.Does .build (s.step .build).2 := by
  rcases h.obeys .build with ⟨s', hstep, hdoes⟩ | ⟨e, hstep, -⟩
  · rw [hstep]
    exact hdoes
  · rw [hstep] at hok
    cases hok

/-- A grammar can be built once the start and the skip rule are declared. -/
theorem Sound.build_ok_iff (h : s.Sound rs) :
    (s.step .build).1 = .ok () ↔ s.startName.isSome ∧ s.skipName.isSome := by
  constructor
  · intro hok
    have hdoes := h.build_ok hok
    generalize (s.step .build).2 = s' at hdoes
    cases hdoes with
    | build _ _ start skip => exact ⟨by rw [start]; rfl, by rw [skip]; rfl⟩
  · rintro ⟨hstart, hskip⟩
    rcases h.obeys .build with ⟨s', hstep, -⟩ | ⟨e, -, hcause⟩
    · rw [hstep]
    · obtain ⟨cause, -, hrefuses⟩ := hcause trivial
      cases hrefuses with
      | noStart undeclared =>
        rw [undeclared] at hstart
        cases hstart
      | noSkip _ undeclared =>
        rw [undeclared] at hskip
        cases hskip

/-- A builder is a machine in which the first write wins. Whatever calls were made of it, what it has
    declared is what came first among those that did not fail; a call fails for one of some causes,
    and then changes nothing; a grammar can be built once the start and the skip rule are declared,
    and has the listeners of that time; and whatever is called later, all that was declared and all
    that was handed out stays as it is. -/
theorem firstWriteWins (rs : RuleSet) (calls : List (Builder.Call σ α)) :
    let s := (ofRules rs).after calls
    s.FirstWins rs ((ofRules rs).successes calls) ∧
    (∀ call e, (s.step call).1 = .error e → (s.step call).2 = s) ∧
    (∀ call, s.Offers call → ∀ e, (s.step call).1 = .error e ↔
      ∃ cause, e = .configuration cause ∧ s.Refuses call cause) ∧
    ((s.step .build).1 = .ok () ↔ s.startName.isSome ∧ s.skipName.isSome) ∧
    ((s.step .build).1 = .ok () → ∃ built, (s.step .build).2.grammars = s.grammars ++ [built] ∧
      built.ruleSet = rs ∧ s.startName = some built.start ∧ s.skipName = some built.skip ∧
      ((s.step .build).2.read built).listeners = s.builder.listeners) ∧
    ∀ later, s.Keeps (s.after later) := by
  intro s
  have hs : s.Sound rs := ((sound_ofRules rs).after calls).1
  refine ⟨?first, ?unchanged, ?refused, hs.build_ok_iff, ?built, fun later => (hs.after later).2⟩
  case first =>
    exact (firstWins_ofRules rs).after nofun (sound_ofRules rs) calls
  case unchanged =>
    intro call e he
    rcases hs.obeys call with ⟨s', hstep, -⟩ | ⟨e', hstep, -⟩
    · rw [hstep] at he
      cases he
    · rw [hstep]
  case refused =>
    intro call hoffers e
    constructor
    · intro he
      rcases hs.obeys call with ⟨s', hstep, -⟩ | ⟨e', hstep, hcause⟩
      · rw [hstep] at he
        cases he
      · rw [hstep] at he
        cases he
        exact hcause hoffers
    · rintro ⟨cause, rfl, hrefuses⟩
      exact hrefuses.step_eq hs hoffers
  case built =>
    intro hok
    have hdoes := hs.build_ok hok
    generalize (s.step .build).2 = s' at hdoes ⊢
    cases hdoes with
    | @build g rules listeners start skip =>
      refine ⟨_, rfl, rules.trans hs.rules, start, skip, ?_⟩
      rw [← listeners, read, deliver, dictionary, List.getD_eq_getElem?_getD,
        List.getElem?_concat_length, Option.getD_some]

/-- One rule, for a letter. -/
def letter : RuleSet := ⟨⟨#[⟨.given "a", .character 'a'⟩]⟩, ⟨[("a", .node 0)]⟩⟩

/-- A listener that always gives the same payload. -/
def always (n : Nat) : Listener Unit Nat := .ofStep fun _ state => .ok (n, state)

/-- Two decorators are asked for before the first of them is applied, and a grammar is built. -/
def twoDecorators : List (Builder.Call Unit Nat) :=
  [.listener "a" (some (.only (.plain .character))), .listener "a" none, .start "a", .start "b",
    .skip "a", .apply 0 (always 1), .build]

/-- The second decorator comes too late, and nothing that was handed out changes. -/
theorem firstWriteWins_twoDecorators :
    let s := (ofRules letter).after twoDecorators
    s.builder.listeners.get? "a" = some (always 1) ∧ s.startName = some "a" ∧
      (s.step (.apply 1 (always 2))).1 = .error (.configuration (.listenerTwice "a")) ∧
      s.grammars.length = 1 ∧ s.Keeps (s.after [.apply 1 (always 2), .start "a", .build]) := by
  obtain ⟨hfirst, -, hrefuses, -, -, hkeeps⟩ := firstWriteWins letter twoDecorators
  refine ⟨hfirst.listeners "a", hfirst.start, ?_, rfl, hkeeps _⟩
  exact (hrefuses (.apply 1 (always 2)) (Nat.lt_succ_self 1) _).mpr ⟨_, rfl, .appliedTwice rfl rfl⟩

end Session

end GrammarEngine
