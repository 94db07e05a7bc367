import GrammarEngine.Proofs.Mirrors
import GrammarEngine.Proofs.Notation.Meaning

namespace GrammarEngine

/-!
# Symbols for the same rules

Two sets of rules that mean the same mirror each other, in whatever order the rules were defined:
the symbols of a rule go in pairs, and so do the nameless parts of the two, one after the other.

* `IsSymbolFor.pairs` — symbols for one expression;
* `RuleSet.Means.mirrors` — symbols for the same rules;
* `Grammar.mirror_of_means` — grammars with these rules.
-/

open Notation

namespace Notation

/-! ### Symbols for one expression -/

variable {part part' : Ref → Shape → Prop} {rule rule' : Ref → String → Prop}

/-- The parts go in pairs of one shape, if what they are made of goes together. -/
def PartsMirror (part part' : Ref → Shape → Prop) (together : Ref → Ref → Prop)
    (pairs : List (Ref × Ref)) : Prop :=
  ∀ x ∈ pairs, ∃ shape shape', part x.1 shape ∧ part' x.2 shape' ∧ shape.Mirrors together shape'

/-- All that goes by one name goes together, and so do these pairs. -/
structure Joins (rule rule' : Ref → String → Prop) (together : Ref → Ref → Prop)
    (pairs : List (Ref × Ref)) : Prop where
  named : ∀ name ref ref', rule ref name → rule' ref' name → together ref ref'
  paired : ∀ x ∈ pairs, together x.1 x.2

theorem Joins.left {together : Ref → Ref → Prop} {pairs pairs' : List (Ref × Ref)}
    (h : Joins rule rule' together (pairs ++ pairs')) : Joins rule rule' together pairs :=
  ⟨h.named, fun x hx => h.paired x (List.mem_append_left _ hx)⟩

theorem Joins.right {together : Ref → Ref → Prop} {pairs pairs' : List (Ref × Ref)}
    (h : Joins rule rule' together (pairs ++ pairs')) : Joins rule rule' together pairs' :=
  ⟨h.named, fun x hx => h.paired x (List.mem_append_right _ hx)⟩

theorem Joins.tail {together : Ref → Ref → Prop} {x : Ref × Ref} {pairs : List (Ref × Ref)}
    (h : Joins rule rule' together (x :: pairs)) : Joins rule rule' together pairs :=
  ⟨h.named, fun y hy => h.paired y (List.mem_cons_of_mem _ hy)⟩

theorem PartsMirror.append {together : Ref → Ref → Prop} {pairs pairs' : List (Ref × Ref)}
    (h : PartsMirror part part' together pairs) (h' : PartsMirror part part' together pairs') :
    PartsMirror part part' together (pairs ++ pairs') :=
  List.forall_mem_append.mpr ⟨h, h'⟩

theorem Literal.isLeaf_shape (value : Literal) : value.shape.isLeaf = true := by
  cases value <;> rfl

/-- Two shapes for one expression are made of equally many parts, and mirror each other with these
    in pairs. -/
theorem IsShapeFor.pairs {shape : Shape} {e : Expr Literal} {parts : List Ref}
    (h : IsShapeFor part rule shape e parts) : ∀ {shape' : Shape} {parts' : List Ref},
    IsShapeFor part' rule' shape' e parts' → parts.length = parts'.length ∧
      ∀ {together : Ref → Ref → Prop}, Joins rule rule' together (parts.zip parts') →
        shape.Mirrors together shape' ∧ PartsMirror part part' together (parts.zip parts') := by
  refine @IsShapeFor.rec part rule
    (fun shape e parts _ => ∀ {shape' : Shape} {parts' : List Ref},
      IsShapeFor part' rule' shape' e parts' → parts.length = parts'.length ∧
        ∀ {together : Ref → Ref → Prop}, Joins rule rule' together (parts.zip parts') →
          shape.Mirrors together shape' ∧ PartsMirror part part' together (parts.zip parts'))
    (fun ref e parts _ => ∀ {ref' : Ref} {parts' : List Ref},
      IsSymbolFor part' rule' ref' e parts' → parts.length = parts'.length ∧
        ∀ {together : Ref → Ref → Prop}, Joins rule rule' together (parts.zip parts') →
          together ref ref' ∧ PartsMirror part part' together (parts.zip parts'))
    (fun refs es parts _ => ∀ {refs' : List Ref} {parts' : List Ref},
      AreSymbolsFor part' rule' refs' es parts' → parts.length = parts'.length ∧
        ∀ {together : Ref → Ref → Prop}, Joins rule rule' together (parts.zip parts') →
          List.Forall₂ together refs refs' ∧
            PartsMirror part part' together (parts.zip parts'))
    ?literal ?oneOrMore ?optional ?noneOrMore ?sequence ?choice ?reference ?part ?nil ?cons _ _ _ h
  case literal =>
    intro value shape' parts' h'
    cases h' with
    | literal => exact ⟨rfl, fun _ => ⟨.leaf value.isLeaf_shape, by simp [PartsMirror]⟩⟩
  case oneOrMore =>
    intro ref e parts _ ih shape' parts' h'
    cases h' with
    | oneOrMore inner =>
      obtain ⟨hlength, hinner⟩ := ih inner
      exact ⟨hlength, fun hjoins => (hinner hjoins).imp_left .multiple⟩
  case optional =>
    intro ref e parts _ ih shape' parts' h'
    cases h' with
    | optional inner =>
      obtain ⟨hlength, hinner⟩ := ih inner
      exact ⟨hlength, fun hjoins => (hinner hjoins).imp_left .option⟩
  case noneOrMore =>
    intro ref inner e parts hrounds _ ih shape' parts' h'
    cases h' with
    | noneOrMore rounds symbol =>
      obtain ⟨hlength, hinner⟩ := ih symbol
      refine ⟨congrArg (· + 1) hlength, fun {together} hjoins => ?_⟩
      obtain ⟨hone, hparts⟩ := hinner hjoins.tail
      exact ⟨.star (hjoins.paired _ (List.mem_cons_self ..)),
        List.forall_mem_cons.mpr ⟨⟨_, _, hrounds, rounds, .multiple hone⟩, hparts⟩⟩
  case sequence =>
    intro refs es parts _ ih shape' parts' h'
    cases h' with
    | sequence members =>
      obtain ⟨hlength, hall⟩ := ih members
      exact ⟨hlength, fun hjoins => (hall hjoins).imp_left .sequence⟩
  case choice =>
    intro refs es parts _ ih shape' parts' h'
    cases h' with
    | choice members =>
      obtain ⟨hlength, hall⟩ := ih members
      exact ⟨hlength, fun hjoins => (hall hjoins).imp_left .junction⟩
  case reference =>
    intro ref name hrule ref' parts' h'
    cases h' with
    | reference hrule' =>
      exact ⟨rfl, fun hjoins => ⟨hjoins.named _ _ _ hrule hrule', by simp [PartsMirror]⟩⟩
    | part _ shapeFor => cases shapeFor
  case part =>
    intro ref shape e parts hpart hshape ih ref' parts' h'
    cases h' with
    | reference _ => cases hshape
    | part hpart' hshape' =>
      obtain ⟨hlength, hall⟩ := ih hshape'
      refine ⟨congrArg (· + 1) hlength, fun {together} hjoins => ?_⟩
      obtain ⟨hmirrors, hparts⟩ := hall hjoins.tail
      exact ⟨hjoins.paired _ (List.mem_cons_self ..),
        List.forall_mem_cons.mpr ⟨⟨_, _, hpart, hpart', hmirrors⟩, hparts⟩⟩
  case nil =>
    intro refs' parts' h'
    cases h'
    exact ⟨rfl, fun _ => ⟨.nil, by simp [PartsMirror]⟩⟩
  case cons =>
    intro ref refs e es parts laterParts _ _ ihFirst ihLater refs' parts' h'
    cases h' with
    | cons first later =>
      obtain ⟨hlength, hfirst⟩ := ihFirst first
      obtain ⟨hlength', hlater⟩ := ihLater later
      refine ⟨by rw [List.length_append, List.length_append, hlength, hlength'],
        fun {together} hjoins => ?_⟩
      rw [List.zip_append hlength] at hjoins ⊢
      obtain ⟨hone, hparts⟩ := hfirst hjoins.left
      obtain ⟨hall, hparts'⟩ := hlater hjoins.right
      exact ⟨.cons hone hall, hparts.append hparts'⟩

end Notation

/-! ### Symbols for the same rules -/

namespace RuleSet

variable {rs rs' : RuleSet} {rules rules' : List Rule} {name : String} {ref : Ref}

theorem Means.exists_rule (h : rs.Means rules) (href : rs.get? name = some ref) :
    ∃ rule ∈ rules, rule.name = name := by
  have hkey : name ∈ rs.rules.keys := by
    by_contra hnot
    rw [← Dictionary.get?_eq_none] at hnot
    rw [RuleSet.get?, hnot] at href
    cases href
  rw [h.1, List.mem_map] at hkey
  exact hkey

/-- The order of the rules is of no account for their parts. -/
theorem Means.placed_of_perm (h : rs.Means rules') (hperm : rules'.Perm rules) :
    ∃ placed, List.Forall₂ rs.HasRule rules placed ∧ placed.flatten.Nodup := by
  obtain ⟨-, placed', hplaced, hnodup⟩ := h
  obtain ⟨placed, hplaced, hperm'⟩ :=
    List.perm_comp_forall₂ hperm.symm hplaced
  exact ⟨placed, hplaced, (hperm'.flatten.nodup_iff).mpr hnodup⟩

/-- A rule with its parts in two sets of rules. -/
structure Placement where
  rule : Rule
  parts : List Ref
  parts' : List Ref

/-- The parts of a rule in pairs. -/
def Placement.pairs (e : Placement) : List (Ref × Ref) := e.parts.zip e.parts'

/-- The parts are those of the rule in both sets of rules. -/
structure Placement.IsIn (e : Placement) (rs rs' : RuleSet) : Prop where
  hasRule : rs.HasRule e.rule e.parts
  hasRule' : rs'.HasRule e.rule e.parts'

theorem exists_placements {placed placed' : List (List Ref)}
    (h : List.Forall₂ rs.HasRule rules placed) (h' : List.Forall₂ rs'.HasRule rules placed') :
    ∃ entries : List Placement, (∀ e ∈ entries, e.IsIn rs rs') ∧
      entries.map Placement.rule = rules ∧ entries.map Placement.parts = placed ∧
      entries.map Placement.parts' = placed' := by
  induction h generalizing placed' with
  | nil =>
    cases h'
    exact ⟨[], by simp, rfl, rfl, rfl⟩
  | @cons rule parts rules placed hrule _ ih =>
    obtain _ | ⟨hrule', hrules'⟩ := h'
    obtain ⟨entries, hentries, rfl, rfl, rfl⟩ := ih hrules'
    exact ⟨⟨rule, parts, _⟩ :: entries,
      List.forall_mem_cons.mpr ⟨⟨hrule, hrule'⟩, hentries⟩, rfl, rfl, rfl⟩

/-- The shapes of a rule in two sets of rules. -/
theorem Placement.IsIn.shapes {e : Placement} (h : e.IsIn rs rs') :
    ∃ u u' shape shape', rs.get? e.rule.name = some u ∧ rs'.get? e.rule.name = some u' ∧
      rs.graph.symbol u = ⟨.given e.rule.name, shape⟩ ∧
      rs'.graph.symbol u' = ⟨.given e.rule.name, shape'⟩ ∧ shape.isGuarded = true ∧
      e.parts.length = e.parts'.length ∧
      ∀ {together : Ref → Ref → Prop}, Joins rs.HasNamed rs'.HasNamed together e.pairs →
        shape.Mirrors together shape' ∧
          PartsMirror rs.HasPart rs'.HasPart together e.pairs := by
  obtain ⟨u, shape, hu, hsymbol, hguarded, hshape⟩ := h.hasRule
  obtain ⟨u', shape', hu', hsymbol', -, hshape'⟩ := h.hasRule'
  obtain ⟨hlength, hpairs⟩ := hshape.pairs hshape'
  exact ⟨u, u', shape, shape', hu, hu', hsymbol, hsymbol', hguarded, hlength, hpairs⟩

/-- The parts of some rules in pairs. -/
def pairsOf (entries : List Placement) : List (Ref × Ref) := entries.flatMap Placement.pairs

theorem map_pairsOf {entries : List Placement} (h : ∀ e ∈ entries, e.IsIn rs rs') :
    (pairsOf entries).map Prod.fst = (entries.map Placement.parts).flatten ∧
      (pairsOf entries).map Prod.snd = (entries.map Placement.parts').flatten := by
  induction entries with
  | nil => exact ⟨rfl, rfl⟩
  | cons e entries ih =>
    rw [List.forall_mem_cons] at h
    obtain ⟨_, _, _, _, -, -, -, -, -, hlength, -⟩ := h.1.shapes
    obtain ⟨hfst, hsnd⟩ := ih h.2
    simp only [pairsOf] at hfst hsnd
    simp only [pairsOf, List.flatMap_cons, List.map_append, List.map_cons, List.flatten_cons,
      hfst, hsnd, Placement.pairs, List.map_fst_zip (Nat.le_of_eq hlength),
      List.map_snd_zip (Nat.le_of_eq hlength.symm)]
    exact ⟨trivial, trivial⟩

/-- Symbols of two sets of rules that are the same rule, or the same part of a rule. -/
def Pair (rs rs' : RuleSet) (entries : List Placement) (u u' : Ref) : Prop :=
  (u, u') ∈ pairsOf entries ∨ ∃ name, rs.get? name = some u ∧ rs'.get? name = some u'

section Pair

variable {entries : List Placement} {u u' : Ref}

/-- All rules of a set of rules are placed. -/
structure Covers (entries : List Placement) (rs rs' : RuleSet) : Prop where
  isIn : ∀ e ∈ entries, e.IsIn rs rs'
  all : ∀ name ref, rs.get? name = some ref → ∃ e ∈ entries, e.rule.name = name
  all' : ∀ name ref, rs'.get? name = some ref → ∃ e ∈ entries, e.rule.name = name
  nodup : ((pairsOf entries).map Prod.fst).Nodup
  nodup' : ((pairsOf entries).map Prod.snd).Nodup

theorem Covers.symbol (h : Covers entries rs rs') (href : rs.get? name = some ref) :
    (rs.graph.symbol ref).name = .given name := by
  obtain ⟨e, he, rfl⟩ := h.all name ref href
  obtain ⟨u, _, shape, _, hu, -, hsymbol, -⟩ := (h.isIn e he).shapes
  rw [hu, Option.some.injEq] at href
  rw [← href, hsymbol]

theorem Covers.symbol' (h : Covers entries rs rs') (href : rs'.get? name = some ref) :
    (rs'.graph.symbol ref).name = .given name := by
  obtain ⟨e, he, rfl⟩ := h.all' name ref href
  obtain ⟨_, u', _, shape', -, hu', -, hsymbol', -⟩ := (h.isIn e he).shapes
  rw [hu', Option.some.injEq] at href
  rw [← href, hsymbol']

theorem standsFor_of_hasNamed {target : Ref} (hname : (rs.graph.symbol target).name = .given name)
    (h : ref = target ∨ rs.graph.symbol ref = ⟨.given name, .implicit (some target)⟩) :
    rs.graph.StandsFor ref target :=
  h.imp_right fun h => by rw [h, hname]

/-- All that goes by one name leads to a pair, and so do the parts of a rule. -/
theorem Covers.joins (h : Covers entries rs rs') {e : Placement} (he : e ∈ entries) :
    Joins rs.HasNamed rs'.HasNamed (Together rs.graph rs'.graph (Pair rs rs' entries)) e.pairs where
  named := by
    rintro name ref ref' ⟨target, htarget, hstands⟩ ⟨target', htarget', hstands'⟩
    exact ⟨target, target', standsFor_of_hasNamed (h.symbol htarget) hstands,
      standsFor_of_hasNamed (h.symbol' htarget') hstands', .inr ⟨name, htarget, htarget'⟩⟩
  paired x hx :=
    ⟨x.1, x.2, .inl rfl, .inl rfl, .inl (List.mem_flatMap.mpr ⟨e, he, hx⟩)⟩

/-- What a pair is: a rule, or a nameless part of one. -/
theorem Covers.pair_cases (h : Covers entries rs rs') (hpair : Pair rs rs' entries u u') :
    ∃ name name' shape shape', rs.graph.symbol u = ⟨name, shape⟩ ∧
      rs'.graph.symbol u' = ⟨name', shape'⟩ ∧ shape.isGuarded = true ∧
      shape.Mirrors (Together rs.graph rs'.graph (Pair rs rs' entries)) shape' ∧
      ((∃ key, name = .given key ∧ name' = .given key ∧ rs.get? key = some u ∧
          rs'.get? key = some u') ∨
        ∃ i i', name = .generated i ∧ name' = .generated i' ∧ u = .node i ∧ u' = .node i' ∧
          (u, u') ∈ pairsOf entries) := by
  rcases hpair with hmem | ⟨key, hu, hu'⟩
  · obtain ⟨e, he, hx⟩ := List.mem_flatMap.mp hmem
    obtain ⟨_, _, _, _, -, -, -, -, -, -, hpairs⟩ := (h.isIn e he).shapes
    obtain ⟨-, hparts⟩ := hpairs (h.joins he)
    obtain ⟨shape, shape', ⟨i, hi, hsymbol⟩, ⟨i', hi', hsymbol'⟩, hmirrors⟩ := hparts _ hx
    exact ⟨_, _, shape, shape', hsymbol, hsymbol', hmirrors.isGuarded.1, hmirrors,
      .inr ⟨i, i', rfl, rfl, hi, hi', hmem⟩⟩
  · obtain ⟨e, he, rfl⟩ := h.all key u hu
    obtain ⟨v, v', shape, shape', hv, hv', hsymbol, hsymbol', hguarded, -, hpairs⟩ :=
      (h.isIn e he).shapes
    obtain rfl : v = u := Option.some.inj (hv.symm.trans hu)
    obtain rfl : v' = u' := Option.some.inj (hv'.symm.trans hu')
    exact ⟨_, _, shape, shape', hsymbol, hsymbol', hguarded, (hpairs (h.joins he)).1,
      .inl ⟨_, rfl, rfl, hv, hv'⟩⟩

theorem Covers.mirrors (h : Covers entries rs rs') :
    Mirrors rs.graph rs'.graph (Pair rs rs' entries) where
  guarded hpair := by
    obtain ⟨_, _, shape, _, hsymbol, -, hguarded, -⟩ := h.pair_cases hpair
    rw [hsymbol]
    exact hguarded
  shape hpair := by
    obtain ⟨_, _, shape, shape', hsymbol, hsymbol', -, hmirrors, -⟩ := h.pair_cases hpair
    rw [hsymbol, hsymbol']
    exact hmirrors
  name hpair := by
    obtain ⟨_, _, _, _, hsymbol, hsymbol', -, -, hnames⟩ := h.pair_cases hpair
    rw [hsymbol, hsymbol']
    rcases hnames with ⟨key, rfl, rfl, -⟩ | ⟨i, i', rfl, rfl, -⟩ <;> rfl
  names hpair hpair₂ := by
    obtain ⟨_, _, _, _, hsymbol, hsymbol', -, -, hnames⟩ := h.pair_cases hpair
    obtain ⟨_, _, _, _, hsymbol₂, hsymbol₂', -, -, hnames₂⟩ := h.pair_cases hpair₂
    rw [hsymbol, hsymbol', hsymbol₂, hsymbol₂']
    rcases hnames with ⟨key, rfl, rfl, -⟩ | ⟨i, i', rfl, rfl, rfl, rfl, hmem⟩
    · rcases hnames₂ with ⟨key₂, rfl, rfl, -⟩ | ⟨j, j', rfl, rfl, -⟩
      · exact Iff.rfl
      · exact ⟨nofun, nofun⟩
    · rcases hnames₂ with ⟨key₂, rfl, rfl, -⟩ | ⟨j, j', rfl, rfl, rfl, rfl, hmem₂⟩
      · exact ⟨nofun, nofun⟩
      · -- No symbol is twice among the parts, on either side.
        constructor
        · intro heq
          have hsame := List.inj_on_of_nodup_map h.nodup hmem hmem₂
            (congrArg Ref.node (Name.generated.inj heq))
          exact congrArg Name.generated (Ref.node.inj (congrArg Prod.snd hsame))
        · intro heq
          have hsame := List.inj_on_of_nodup_map h.nodup' hmem hmem₂
            (congrArg Ref.node (Name.generated.inj heq))
          exact congrArg Name.generated (Ref.node.inj (congrArg Prod.fst hsame))

end Pair

/-- Sets of rules that mean the same mirror each other, whatever the order of the rules is. -/
theorem Means.mirrors (h : rs.Means rules) (h' : rs'.Means rules') (hperm : rules'.Perm rules) :
    ∃ pair, Mirrors rs.graph rs'.graph pair ∧
      ∀ name u u', rs.get? name = some u → rs'.get? name = some u' → pair u u' := by
  obtain ⟨placed, hplaced, hnodup⟩ := h.placed_of_perm (.refl _)
  obtain ⟨placed', hplaced', hnodup'⟩ := h'.placed_of_perm hperm
  obtain ⟨entries, hisIn, hrules, rfl, rfl⟩ := exists_placements hplaced hplaced'
  obtain ⟨hfst, hsnd⟩ := map_pairsOf hisIn
  have hentry : ∀ name, (∃ rule ∈ rules, rule.name = name) →
      ∃ e ∈ entries, e.rule.name = name := by
    rintro name ⟨rule, hrule, rfl⟩
    rw [← hrules, List.mem_map] at hrule
    obtain ⟨e, he, rfl⟩ := hrule
    exact ⟨e, he, rfl⟩
  have hcovers : Covers entries rs rs' := by
    refine ⟨hisIn, fun name ref href => hentry name (h.exists_rule href), ?_, by rwa [hfst],
      by rwa [hsnd]⟩
    intro name ref href
    obtain ⟨rule, hrule, hname⟩ := h'.exists_rule href
    exact hentry name ⟨rule, hperm.mem_iff.mp hrule, hname⟩
  exact ⟨Pair rs rs' entries, hcovers.mirrors, fun name u u' hu hu' => .inr ⟨name, hu, hu'⟩⟩

end RuleSet

namespace Grammar

variable {σ α : Type} {gr gr' : Grammar σ α} {rules rules' : List Rule}

/-- Grammars whose rules mean the same mirror each other, if they start and skip with the same rules
    and have the same listeners. -/
theorem mirror_of_means (h : gr.ruleSet.Means rules) (h' : gr'.ruleSet.Means rules')
    (hperm : rules'.Perm rules) (hstart : gr'.start = gr.start) (hskip : gr'.skip = gr.skip)
    (hlisteners : gr'.listeners = gr.listeners) : ∃ pair, gr.Mirror gr' pair := by
  obtain ⟨pair, hmirrors, hrules⟩ := h.mirrors h' hperm
  refine ⟨pair, hmirrors, ?_, ?_, hlisteners⟩
  · refine hrules gr.start _ _ (Option.some_get _).symm ?_
    rw [← hstart]
    exact (Option.some_get _).symm
  · refine hrules gr.skip _ _ (Option.some_get _).symm ?_
    rw [← hskip]
    exact (Option.some_get _).symm

end Grammar

end GrammarEngine
