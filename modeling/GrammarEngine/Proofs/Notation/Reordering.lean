import GrammarEngine.Proofs.Notation.Bootstrap
import GrammarEngine.Proofs.Notation.Recovering

namespace GrammarEngine

/-!
# The order of the rules

It does not matter in which order the rules of a grammar text are defined. The definitions can be put
in any other one, and what comes of it has the same names and parses every text to the same.

* `Grammar.ParsesAlike` — two grammars that parse every text to the same, nesting apart;
* `Grammar.make_parsesAlike` — grammars of the same rules in another order;
* `Notation.compile_reordered` — grammar texts with their definitions in another order.
-/

/-! ### Parsing alike -/

section

variable {σ α : Type} [PayloadType α]

/-- Results that agree on trees agree on payloads. -/
theorem Outcome.Agrees.payload {o o' : Outcome σ (Token α)} (h : o.Agrees Token.masked o') :
    (o.bind Token.payload).Agrees id (o'.bind Token.payload) := by
  refine ⟨?_, h.state⟩
  rw [Except.map_id, id, id]
  exact h.bind_result fun _ _ => Token.payload_of_masked

namespace Grammar

/-- The two parses of a text come to trees that are alike and to the same payload, or to the same
    error, and they leave the same state. -/
structure SameParse (gr gr' : Grammar σ α) (text : String) (state : σ) (limit limit' : Nat) :
    Prop where
  tree : (gr.parseTree limit text state).Agrees Token.masked (gr'.parseTree limit' text state)
  payload : (gr.parse limit text state).Agrees id (gr'.parse limit' text state)

/-- Every text is parsed to the same, unless it is nested too deeply for one of the two; and from
    some limit on it is not. -/
structure ParsesAlike (gr gr' : Grammar σ α) : Prop where
  unlessTooDeep : ∀ text state limit limit', gr.SameParse gr' text state limit limit' ∨
    (∃ e, (gr.parseTree limit text state).result = .error e ∧ e.IsTooDeep) ∨
    ∃ e, (gr'.parseTree limit' text state).result = .error e ∧ e.IsTooDeep
  eventually : ∀ text state, ∃ enough, ∀ limit, enough ≤ limit → ∀ limit', enough ≤ limit' →
    gr.SameParse gr' text state limit limit'

variable {gr gr' : Grammar σ α} {pair : Ref → Ref → Prop}

/-- A grammar and its mirror image parse alike. -/
theorem Mirror.parsesAlike (hm : gr.Mirror gr' pair) (hsound : gr.ruleSet.IsSound)
    (hblind : AreBlind gr.listenerFor) : gr.ParsesAlike gr' where
  unlessTooDeep text state limit limit' :=
    ((parseTree_mirrored hsound hm hblind text state).1 limit limit').imp_left
      fun h => ⟨h, h.payload⟩
  eventually text state := by
    obtain ⟨-, enough, henough⟩ := parseTree_mirrored hsound hm hblind text state
    exact ⟨enough, fun limit hlimit limit' hlimit' =>
      have h := henough limit hlimit limit' hlimit'
      ⟨h, h.payload⟩⟩

/-! ### Grammars of the same rules -/

section Make

open Notation

variable {rs rs' : RuleSet} {rules rules' : List Rule}

/-- The rules that there are are those that were meant. -/
theorem isSome_get?_iff (h : rs.Means rules) (name : String) :
    (rs.get? name).isSome = true ↔ name ∈ rules.map Rule.name := by
  rw [← h.1, Option.isSome_iff_ne_none, RuleSet.get?, ne_eq, Dictionary.get?_eq_none,
    Classical.not_not]

/-- Grammars of the same rules, whatever their order is, can start and skip with the same ones, and
    with the same listeners they parse alike. -/
theorem make_parsesAlike (hcomplete : rs.IsComplete) (h : rs.Means rules) (h' : rs'.Means rules')
    (hperm : rules'.Perm rules) (listeners : Dictionary (Listener σ α)) (start skip : String)
    (hblind : ∀ name listener, listeners.get? name = some listener → listener.IsBlind) :
    (∃ e, make rs listeners start skip = .error e ∧ make rs' listeners start skip = .error e) ∨
      ∃ gr gr', make rs listeners start skip = .ok gr ∧ make rs' listeners start skip = .ok gr' ∧
        gr.ParsesAlike gr' := by
  -- The checks of start and skip only ask which rules there are.
  have hsame : ∀ name, (rs'.get? name).isSome = true ↔ (rs.get? name).isSome = true := fun name => by
    rw [isSome_get?_iff h, isSome_get?_iff h', (hperm.map Rule.name).mem_iff]
  unfold make
  by_cases hstart : (rs.get? start).isSome = true
  · by_cases hskip : (rs.get? skip).isSome = true
    · have hstart' := (hsame start).mpr hstart
      have hskip' := (hsame skip).mpr hskip
      refine .inr ⟨⟨rs, listeners, start, skip, hstart, hskip⟩,
        ⟨rs', listeners, start, skip, hstart', hskip'⟩, ?_, ?_, ?_⟩
      · rw [dif_pos hstart, dif_pos hskip]
      · rw [dif_pos hstart', dif_pos hskip']
      · have hmirror : ∃ pair, Mirror (⟨rs, listeners, start, skip, hstart, hskip⟩ : Grammar σ α)
            ⟨rs', listeners, start, skip, hstart', hskip'⟩ pair :=
          mirror_of_means h h' hperm rfl rfl rfl
        obtain ⟨pair, hm⟩ := hmirror
        exact hm.parsesAlike hcomplete.isSound (areBlind hblind)
    · refine .inl ⟨_, by rw [dif_pos hstart, dif_neg hskip], ?_⟩
      rw [dif_pos ((hsame start).mpr hstart), dif_neg (mt (hsame skip).mp hskip)]
  · exact .inl ⟨_, by rw [dif_neg hstart], by rw [dif_neg (mt (hsame start).mp hstart)]⟩

end Make

end Grammar

end

/-! ### Grammar texts -/

namespace Notation

variable {limit : Nat} {source : String} {texts : List String} {rs : RuleSet}
  {rules rules' : List Rule}

theorem IsWellFormed.perm (h : IsWellFormed rules) (hperm : rules'.Perm rules) :
    IsWellFormed rules' where
  nonempty hnil := h.nonempty (List.nil_perm.mp (hnil ▸ hperm))
  distinct := ((hperm.map Rule.name).nodup_iff).mpr h.distinct
  closed r hr name hname :=
    (hperm.map Rule.name).mem_iff.mpr (h.closed r (hperm.mem_iff.mp hr) name hname)
  proper r hr := h.proper r (hperm.mem_iff.mp hr)

/-- Whatever text compiles, its definitions can be put in any other order, each with its own text
    and with line feeds between them. That text compiles, too, if there is room for its parentheses,
    and to rules of the same names. With the same start, skip and listeners both make a grammar or
    are refused with the same error, and the two grammars parse every text alike. -/
theorem compile_reordered (h : (compile limit source).result = .ok rs)
    (hperm : texts.Perm (definitions limit source)) :
    ∃ rs' : RuleSet,
      (∀ limit', 30 + 20 * ("\n".intercalate texts).toList.count '(' ≤ limit' →
        (compile limit' ("\n".intercalate texts)).result = .ok rs') ∧
      (∀ limit', (compile limit' ("\n".intercalate texts)).result = .ok rs' ∨
        ∃ e, (compile limit' ("\n".intercalate texts)).result = .error e ∧ e.IsTooDeep) ∧
      rs'.rules.keys.Perm rs.rules.keys ∧
      ∀ {σ α : Type} [PayloadType α] (listeners : Dictionary (Listener σ α)) (start skip : String),
        (∀ name listener, listeners.get? name = some listener → listener.IsBlind) →
        (∃ e, Grammar.make rs listeners start skip = .error e ∧
          Grammar.make rs' listeners start skip = .error e) ∨
        ∃ gr gr', Grammar.make rs listeners start skip = .ok gr ∧
          Grammar.make rs' listeners start skip = .ok gr' ∧ gr.ParsesAlike gr' := by
  obtain ⟨rules, hrules, -, hdefinitions, hcomplete, hmeans⟩ := isTextOf_of_compile h
  -- The rules are put in the order of the texts, and are still those of a grammar.
  obtain ⟨rules', htexts, hperm'⟩ := List.perm_comp_forall₂ hperm hdefinitions
  obtain ⟨rs', -, hmeans', hroom⟩ :=
    compile_of_isTextOf (hrules.perm hperm') (IsTextOf.joined htexts)
  refine ⟨rs', hroom, compile_or_tooDeep hroom, ?_, fun listeners start skip hblind =>
    Grammar.make_parsesAlike hcomplete hmeans hmeans' hperm' listeners start skip hblind⟩
  rw [hmeans.1, hmeans'.1]
  exact hperm'.map Rule.name

/-- The definitions of `pairText`, the other way round. -/
def pairReversed : List String := ["b:[-];", "a: b?\"x\";"]

theorem definitions_pairText : definitions nestingLimit pairText = pairReversed.reverse := by
  decide +kernel

/-- With the two rules the other way round, the first one is used after it is there. -/
theorem compile_reordered_pair :
    ∃ (rs rs' : RuleSet) (gr gr' : Grammar Unit Value),
      (compile nestingLimit pairText).result = .ok rs ∧
      (compile nestingLimit "b:[-];\na: b?\"x\";").result = .ok rs' ∧
      Grammar.make rs .empty "a" "b" = .ok gr ∧ Grammar.make rs' .empty "a" "b" = .ok gr' ∧
      gr.ParsesAlike gr' := by
  obtain ⟨rs, -, hmeans, hroom⟩ := compile_of_isTextOf isWellFormed_pair isTextOf_pair
  have hcompile := hroom nestingLimit (by decide)
  have hperm : pairReversed.Perm (definitions nestingLimit pairText) :=
    definitions_pairText ▸ pairReversed.reverse_perm.symm
  obtain ⟨rs', hroom', -, -, hmakes⟩ := compile_reordered hcompile hperm
  have hnames : ∀ name ∈ ["a", "b"], (rs.get? name).isSome = true := fun name hname =>
    (Grammar.isSome_get?_iff hmeans name).mpr hname
  have hblind : ∀ name listener, (Dictionary.empty : Dictionary (Listener Unit Value)).get? name =
      some listener → listener.IsBlind := nofun
  rcases hmakes .empty "a" "b" hblind with
    ⟨e, herror, -⟩ | ⟨gr, gr', hmake, hmake', halike⟩
  · rw [Grammar.make, dif_pos (hnames "a" (by simp)), dif_pos (hnames "b" (by simp))] at herror
    cases herror
  · exact ⟨rs, rs', gr, gr', hcompile, hroom' nestingLimit (by decide +kernel), hmake, hmake',
      halike⟩

end Notation

end GrammarEngine
