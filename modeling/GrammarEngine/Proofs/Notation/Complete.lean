import GrammarEngine.Proofs.Nesting
import GrammarEngine.Proofs.Notation.Drafts

namespace GrammarEngine

/-!
# Complete grammars

What comes of a grammar text is a closed grammar: whatever is reached from its rules is a part of a
rule, a rule, or a stand-in for a rule, and matching a rule never comes to something undefined.

* `RuleSet.Belongs` — what a symbol can be in a closed grammar;
* `RuleSet.IsComplete` — all that is reached from the rules belongs;
* `RuleSet.IsComplete.matchWithin_ends`, `matchWithin_bounded` — matching rules of such a grammar;
* `Notation.buildGrammar_complete` — the rules of a grammar text are complete.
-/

/-- The second symbol is one that the first one is made of. -/
def Graph.Uses (g : Graph) (ref part : Ref) : Prop := part ∈ (g.symbol ref).shape.refs

/-- The second symbol is one that the first one is made of, and the first one is no stand-in. -/
def Graph.UsesDirectly (g : Graph) (ref part : Ref) : Prop :=
  (g.symbol ref).shape.kind ≠ .implicit ∧ g.Uses ref part

namespace RuleSet

/-- A symbol is a nameless part of a rule, the very rule of its name, or a stand-in that refers to
    the very rule of its name. -/
inductive Belongs (rs : RuleSet) (ref : Ref) : Prop
  | part (anonymous : (rs.graph.symbol ref).name.isAnonymous = true)
      (plain : (rs.graph.symbol ref).shape.isGuarded = true)
  | rule {name : String} (named : (rs.graph.symbol ref).name = .given name)
      (plain : (rs.graph.symbol ref).shape.isGuarded = true) (defined : rs.get? name = some ref)
  | standIn {name : String} {target : Ref} (named : (rs.graph.symbol ref).name = .given name)
      (resolved : (rs.graph.symbol ref).shape = .implicit (some target))
      (defined : rs.get? name = some target)

/-- What belongs is a symbol, and one that can be matched. -/
theorem Belongs.solid {rs : RuleSet} {ref : Ref} (h : rs.Belongs ref) :
    (rs.graph.symbol ref).shape ≠ .zeroLength ∧ (rs.graph.symbol ref).shape ≠ .implicit none ∧
      (rs.graph.symbol ref).shape ≠ .foreign := by
  have hplain : ∀ shape : Shape, shape.isGuarded = true →
      shape ≠ .zeroLength ∧ shape ≠ .implicit none ∧ shape ≠ .foreign := by
    intro shape hshape
    refine ⟨?_, ?_, ?_⟩ <;> rintro rfl <;> cases hshape
  cases h with
  | part _ plain => exact hplain _ plain
  | rule _ plain _ => exact hplain _ plain
  | standIn _ resolved _ =>
    rw [resolved]
    exact ⟨nofun, nofun, nofun⟩

/-- The rules of a grammar with nothing missing. -/
structure IsComplete (rs : RuleSet) : Prop where
  nodup : rs.rules.keys.Nodup
  /-- Every rule goes by its own name, and is no stand-in. -/
  rule : ∀ entry ∈ rs.rules.entries, Notation.isID entry.1 = true ∧
    (rs.graph.symbol entry.2).name = .given entry.1 ∧
    (rs.graph.symbol entry.2).shape.kind ≠ .implicit
  reached : ∀ name root ref, rs.get? name = some root →
    Relation.ReflTransGen rs.graph.Uses root ref → rs.Belongs ref
  /-- Every circle of symbols goes through a stand-in. -/
  acyclic : ∀ ref, ¬ Relation.TransGen rs.graph.UsesDirectly ref ref

namespace IsComplete

variable {rs : RuleSet} {name : String} {ref target : Ref}

theorem kind_ne (h : rs.IsComplete) (hrule : rs.get? name = some ref) :
    (rs.graph.symbol ref).shape.kind ≠ .implicit :=
  (h.rule (name, ref) (Dictionary.mem_entries_of_get? hrule)).2.2

/-- A rule is no stand-in, so no stand-in leads to another one. -/
theorem not_leadsTo (h : rs.IsComplete) (hrule : rs.get? name = some ref) :
    ¬ rs.graph.LeadsTo ref target := by
  intro hleads
  refine h.kind_ne hrule ?_
  rw [hleads]
  rfl

open Classical in
/-- The symbols that are reached from the rules. -/
noncomputable def symbols (rs : RuleSet) : Finset Ref :=
  ((Finset.range rs.graph.nodes.size).image .node).filter fun ref =>
    ∃ name root, rs.get? name = some root ∧ Relation.ReflTransGen rs.graph.Uses root ref

open Classical in
theorem mem_symbols (h : rs.IsComplete) :
    ref ∈ symbols rs ↔
      ∃ name root, rs.get? name = some root ∧ Relation.ReflTransGen rs.graph.Uses root ref := by
  rw [symbols, Finset.mem_filter, and_iff_right_of_imp]
  -- A symbol that belongs is a node of the graph.
  rintro ⟨name, root, hrule, hreached⟩
  obtain ⟨hzero, -, hforeign⟩ := (h.reached name root ref hrule hreached).solid
  cases ref with
  | zeroLength => exact absurd rfl hzero
  | foreign => exact absurd rfl hforeign
  | node index =>
    refine Finset.mem_image.mpr ⟨index, Finset.mem_range.mpr ?_, rfl⟩
    refine Nat.lt_of_not_le fun hle => hzero ?_
    rw [Graph.symbol, Array.getD_eq_getD_getElem?, Array.getElem?_eq_none hle]
    rfl

theorem mem_symbols_of_rule (h : rs.IsComplete) (hrule : rs.get? name = some ref) :
    ref ∈ symbols rs :=
  h.mem_symbols.mpr ⟨name, ref, hrule, .refl⟩

theorem isClosed (h : rs.IsComplete) : rs.graph.IsClosed (symbols rs) := by
  intro ref href r hr
  obtain ⟨name, root, hrule, hreached⟩ := h.mem_symbols.mp href
  exact h.mem_symbols.mpr ⟨name, root, hrule, hreached.tail hr⟩

theorem isAcyclic (h : rs.IsComplete) : rs.graph.IsAcyclic (symbols rs) := by
  intro ref href hchain
  obtain ⟨name, root, hrule, hreached⟩ := h.mem_symbols.mp href
  obtain ⟨target, hleads, hrest⟩ := Relation.TransGen.head'_iff.mp hchain
  -- What the stand-in refers to is a rule, and the chain ends there.
  have htarget : ∃ name, rs.get? name = some target := by
    have hbelongs := h.reached name root ref hrule hreached
    unfold Graph.LeadsTo at hleads
    cases hbelongs with
    | part _ plain => rw [hleads] at plain; cases plain
    | rule _ plain _ => rw [hleads] at plain; cases plain
    | standIn _ resolved defined =>
      rw [hleads] at resolved
      cases resolved
      exact ⟨_, defined⟩
  obtain ⟨name', hrule'⟩ := htarget
  rcases Relation.ReflTransGen.cases_head hrest with rfl | ⟨next, hnext, -⟩
  · exact h.not_leadsTo hrule' hleads
  · exact h.not_leadsTo hrule' hnext

theorem defined (h : rs.IsComplete) : ∀ ref ∈ symbols rs,
    (rs.graph.symbol ref).shape ≠ .implicit none ∧ (rs.graph.symbol ref).shape ≠ .foreign := by
  intro ref href
  obtain ⟨name, root, hrule, hreached⟩ := h.mem_symbols.mp href
  exact (h.reached name root ref hrule hreached).solid.2

section Matching

variable {α : Type} {text : List Char} {guard : Guard} {p : Nat} {skip : Ref} {s : MatchState}

/-- Matching a rule of a complete grammar ends with an answer, or is nested too deeply. -/
theorem matchWithin_ends (h : rs.IsComplete) (hrule : rs.get? name = some ref)
    (hskip : skip = .zeroLength ∨ ∃ name, rs.get? name = some skip)
    (hs : Stands text guard p s) (limit : Nat) :
    Ends (matchWithin rs.graph limit ref skip) s
      (Answered (Yields (α := α) rs.graph text ref skip guard p) text p s)
      (Failed (fun e => e = .nestedTooDeeply) guard) := by
  refine matchWithin_defined h.isClosed h.isAcyclic h.defined (h.mem_symbols_of_rule hrule) ?_ hs
    limit
  rcases hskip with rfl | ⟨name, hskip⟩
  · exact .inr rfl
  · exact .inl (h.mem_symbols_of_rule hskip)

/-- From some limit on, it is not nested too deeply either. -/
theorem matchWithin_bounded (h : rs.IsComplete) (hrule : rs.get? name = some ref)
    (hskip : skip = .zeroLength ∨ ∃ name, rs.get? name = some skip)
    (hs : Stands text guard p s) :
    ∃ bound, ∀ limit, bound ≤ limit → ∀ s',
      matchWithin (α := α) rs.graph limit ref skip s ≠ .error .nestedTooDeeply s' := by
  refine ⟨_, fun limit hlimit s' => not_nestedTooDeeply h.isClosed.insert_zeroLength
    h.isAcyclic.insert_zeroLength
    (mem_insert_zeroLength (.inl (h.mem_symbols_of_rule hrule)))
    (mem_insert_zeroLength ?_) hs hlimit s'⟩
  rcases hskip with rfl | ⟨name, hskip⟩
  · exact .inr rfl
  · exact .inl (h.mem_symbols_of_rule hskip)

end Matching

end IsComplete

end RuleSet

namespace Notation

/-! ### Grammar texts -/

section

variable {d : Draft} {i : Nat} {symbol : Symbol}

theorem Bears.belongs {rules pending : Dictionary Ref} {graph : Graph} {index : Nat}
    (h : Bears rules pending index symbol) (hpending : ∀ name, pending.get? name = none)
    (hindex : graph.nodes[index]? = some symbol) :
    RuleSet.Belongs { graph, rules } (.node index) := by
  have hsymbol := Graph.symbol_of_getElem? hindex
  cases h with
  | part plain => exact .part (by rw [hsymbol]; rfl) (by rw [hsymbol]; exact plain)
  | rule id plain defined => exact .rule (by rw [hsymbol]) (by rw [hsymbol]; exact plain) defined
  | resolved id defined => exact .standIn (by rw [hsymbol]) (by rw [hsymbol]) defined
  | standIn id waiting => rw [hpending] at waiting; cases waiting

theorem kind_ne_implicit {shape : Shape} (h : shape.isGuarded = true) :
    shape.kind ≠ .implicit := by
  cases shape <;> simp_all [Shape.isGuarded, Shape.kind]

/-- What a symbol of a sound draft is made of are symbols of it. -/
theorem Draft.Sound.has_of_mem_refs (h : d.Sound) (hi : d.graph.nodes[i]? = some symbol) {r : Ref}
    (hr : r ∈ symbol.shape.refs) : d.Has r := by
  have hearlier : symbol.shape.isGuarded = true → d.Has r := by
    intro hguarded
    obtain ⟨j, hj, rfl⟩ := h.earlier i symbol hi hguarded r hr
    exact ⟨j, Nat.lt_trans hj (Array.getElem?_eq_some_iff.mp hi).1, rfl⟩
  cases h.bears i symbol hi with
  | part plain => exact hearlier plain
  | rule id plain defined => exact hearlier plain
  | resolved id defined =>
    obtain rfl := List.mem_singleton.mp hr
    exact h.has_of_rule defined
  | standIn id waiting => cases hr

/-- But for stand-ins, what a symbol of a sound draft is made of comes before it. -/
theorem Draft.Sound.lt_of_usesDirectly (h : d.Sound) {ref r : Ref}
    (huses : d.graph.UsesDirectly ref r) : ∃ i j, ref = .node i ∧ r = .node j ∧ j < i := by
  obtain ⟨hkind, hr⟩ := huses
  unfold Graph.Uses at hr
  cases ref with
  | zeroLength => cases hr
  | foreign => cases hr
  | node i =>
    cases hi : d.graph.nodes[i]? with
    | none =>
      rw [Graph.symbol, Array.getD_eq_getD_getElem?, hi] at hr
      cases hr
    | some symbol =>
      rw [Graph.symbol_of_getElem? hi] at hkind hr
      have hplain : symbol.shape.isGuarded = true := by
        cases h.bears i symbol hi with
        | part plain => exact plain
        | rule _ plain _ => exact plain
        | resolved => exact absurd rfl hkind
        | standIn => exact absurd rfl hkind
      obtain ⟨j, hj, rfl⟩ := h.earlier i symbol hi hplain r hr
      exact ⟨i, j, rfl, rfl, hj⟩

/-- A sound draft in which nothing is pending is complete. -/
theorem Draft.Sound.isComplete (h : d.Sound) (hpending : ∀ name, d.pending.get? name = none) :
    RuleSet.IsComplete { graph := d.graph, rules := d.rules } := by
  refine ⟨h.nodup, ?_, ?_, ?_⟩
  · rintro ⟨name, ref⟩ hmem
    obtain ⟨i, shape, rfl, hi, hplain⟩ :=
      h.rule name ref (Dictionary.get?_of_mem_entries h.nodup hmem)
    have hsymbol := Graph.symbol_of_getElem? hi
    refine ⟨?_, by rw [hsymbol], ?_⟩
    · cases h.bears i _ hi with
      | rule id _ _ => exact id
      | resolved => cases hplain
      | standIn => cases hplain
    · rw [hsymbol]
      exact kind_ne_implicit hplain
  · intro name root ref hrule hreached
    suffices hhas : d.Has ref by
      obtain ⟨i, hi, rfl⟩ := hhas
      have hnode := Array.getElem?_eq_getElem hi
      exact (h.bears i _ hnode).belongs hpending hnode
    induction hreached with
    | refl => exact h.has_of_rule hrule
    | tail _ huses ih =>
      obtain ⟨i, hi, rfl⟩ := ih
      have hnode := Array.getElem?_eq_getElem hi
      rw [Graph.Uses, Graph.symbol_of_getElem? hnode] at huses
      exact h.has_of_mem_refs hnode huses
  -- Without stand-ins the way goes back to earlier and earlier symbols.
  · have hchain : ∀ ref ref', Relation.TransGen d.graph.UsesDirectly ref ref' →
        ∃ i j, ref = .node i ∧ ref' = .node j ∧ j < i := by
      intro ref ref' hchain
      induction hchain with
      | single huses => exact h.lt_of_usesDirectly huses
      | tail _ huses ih =>
        obtain ⟨i, j, rfl, rfl, hlt⟩ := ih
        obtain ⟨_, k, heq, rfl, hlt'⟩ := h.lt_of_usesDirectly huses
        cases heq
        exact ⟨i, k, rfl, rfl, Nat.lt_trans hlt' hlt⟩
    intro ref hcircle
    obtain ⟨i, j, rfl, heq, hlt⟩ := hchain ref ref hcircle
    cases heq
    exact Nat.lt_irrefl i hlt

end

/-- A grammar text comes to a complete grammar with the rules that it gives, in this order, or it is
    refused, or some names in it are not defined. -/
theorem buildGrammar_complete {rules : List RuleText} (hnamed : ∀ r ∈ rules, r.IsNamed) :
    (∃ found, buildGrammar rules = .ok found ∧ found.IsComplete ∧
      found.rules.keys = rules.map RuleText.name) ∨
    (∃ cause, buildGrammar rules = .error (.parse cause)) ∨
    ∃ names, buildGrammar rules = .error (.configuration (.undefinedRules names)) := by
  rcases (buildRules_sound rules Draft.sound_empty hnamed).elim with
    ⟨d, hbuild, hsound, hkeys⟩ | ⟨cause, hbuild⟩
  · rw [buildGrammar, hbuild]
    show (∃ found, d.finish = .ok found ∧ _) ∨ (∃ cause, d.finish = _) ∨ ∃ names, d.finish = _
    by_cases hmissing : d.pending.keys.isEmpty
    · have hpending : ∀ name, d.pending.get? name = none := by
        intro name
        rw [Dictionary.get?_eq_none, List.isEmpty_iff.mp hmissing]
        exact List.not_mem_nil
      exact .inl ⟨_, by rw [Draft.finish, if_pos hmissing], hsound.isComplete hpending, hkeys⟩
    · exact .inr (.inr ⟨_, by rw [Draft.finish, if_neg hmissing]⟩)
  · rw [buildGrammar, hbuild]
    exact .inr (.inl ⟨cause, rfl⟩)

end Notation

end GrammarEngine
