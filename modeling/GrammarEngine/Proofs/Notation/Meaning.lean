import GrammarEngine.Proofs.Notation.Complete
import GrammarEngine.Proofs.Notation.Phrases

namespace GrammarEngine

/-!
# What the symbols of a grammar say

The symbols that are made for a grammar are as the grammar says: each rule is a symbol of the shape
of its body, the parts of a body are nameless symbols, and where a rule is used there is its symbol
or a stand-in that refers to it. No symbol is a part of two rules, or twice a part of one.

* `IsShapeFor`, `IsSymbolFor` — symbols for expressions, with all their nameless parts;
* `RuleSet.HasRule`, `RuleSet.Means` — a rule for one that was meant, and all rules of a grammar;
* `Expr.build_symbols`, `buildRules_rules` — building makes the symbols;
* `buildGrammar_rules` — the rules of a well-formed grammar are what was meant.
-/

namespace Notation

/-! ### Symbols for expressions -/

section

variable (part : Ref → Shape → Prop) (rule : Ref → String → Prop)

mutual

/-- The shape is one for the expression, and these symbols are its parts. -/
inductive IsShapeFor : Shape → Expr Literal → List Ref → Prop
  | literal (value : Literal) : IsShapeFor value.shape (.literal value) []
  | oneOrMore {ref : Ref} {e : Expr Literal} {parts : List Ref} (inner : IsSymbolFor ref e parts) :
      IsShapeFor (.multiple ref) (.repeated .oneOrMore e) parts
  | optional {ref : Ref} {e : Expr Literal} {parts : List Ref} (inner : IsSymbolFor ref e parts) :
      IsShapeFor (.option ref) (.repeated .optional e) parts
  | noneOrMore {ref ref' : Ref} {e : Expr Literal} {parts : List Ref}
      (rounds : part ref (.multiple ref')) (inner : IsSymbolFor ref' e parts) :
      IsShapeFor (.star ref) (.repeated .noneOrMore e) (ref :: parts)
  | sequence {refs : List Ref} {es : List (Expr Literal)} {parts : List Ref}
      (members : AreSymbolsFor refs es parts) : IsShapeFor (.sequence refs) (.sequence es) parts
  | choice {refs : List Ref} {es : List (Expr Literal)} {parts : List Ref}
      (members : AreSymbolsFor refs es parts) : IsShapeFor (.junction refs) (.choice es) parts

/-- The symbol is one for the expression. Its parts are it and the parts of its shape, unless it is
    a rule. -/
inductive IsSymbolFor : Ref → Expr Literal → List Ref → Prop
  | reference {ref : Ref} {name : String} (isRule : rule ref name) :
      IsSymbolFor ref (.reference name) []
  | part {ref : Ref} {shape : Shape} {e : Expr Literal} {parts : List Ref}
      (isPart : part ref shape) (shapeFor : IsShapeFor shape e parts) :
      IsSymbolFor ref e (ref :: parts)

/-- The symbols are ones for the expressions, in order. -/
inductive AreSymbolsFor : List Ref → List (Expr Literal) → List Ref → Prop
  | nil : AreSymbolsFor [] [] []
  | cons {ref : Ref} {refs : List Ref} {e : Expr Literal} {es : List (Expr Literal)}
      {parts parts' : List Ref} (first : IsSymbolFor ref e parts)
      (later : AreSymbolsFor refs es parts') :
      AreSymbolsFor (ref :: refs) (e :: es) (parts ++ parts')

end

end

section Mono

variable {part part' : Ref → Shape → Prop} {rule rule' : Ref → String → Prop} {ref : Ref}
  {refs parts : List Ref} {shape : Shape} {e : Expr Literal} {es : List (Expr Literal)}

theorem IsShapeFor.mono (hpart : ∀ ref shape, part ref shape → part' ref shape)
    (hrule : ∀ ref name, rule ref name → rule' ref name) (h : IsShapeFor part rule shape e parts) :
    IsShapeFor part' rule' shape e parts := by
  refine @IsShapeFor.rec part rule
    (fun shape e parts _ => IsShapeFor part' rule' shape e parts)
    (fun ref e parts _ => IsSymbolFor part' rule' ref e parts)
    (fun refs es parts _ => AreSymbolsFor part' rule' refs es parts)
    ?literal ?oneOrMore ?optional ?noneOrMore ?sequence ?choice ?reference ?part ?nil ?cons _ _ _ h
  case literal => exact fun value => .literal value
  case oneOrMore => exact fun _ h => .oneOrMore h
  case optional => exact fun _ h => .optional h
  case noneOrMore => exact fun hrounds _ h => .noneOrMore (hpart _ _ hrounds) h
  case sequence => exact fun _ h => .sequence h
  case choice => exact fun _ h => .choice h
  case reference => exact fun h => .reference (hrule _ _ h)
  case part => exact fun hp _ h => .part (hpart _ _ hp) h
  case nil => exact .nil
  case cons => exact fun _ _ h h' => .cons h h'

theorem IsSymbolFor.mono (hpart : ∀ ref shape, part ref shape → part' ref shape)
    (hrule : ∀ ref name, rule ref name → rule' ref name) (h : IsSymbolFor part rule ref e parts) :
    IsSymbolFor part' rule' ref e parts := by
  cases h with
  | reference isRule => exact .reference (hrule _ _ isRule)
  | part isPart shapeFor => exact .part (hpart _ _ isPart) (shapeFor.mono hpart hrule)

end Mono

/-! ### Symbols in drafts -/

namespace Draft

/-- The symbol is a nameless part of this shape. -/
def HasPart (d : Draft) (ref : Ref) (shape : Shape) : Prop :=
  ∃ i : Nat, ref = .node i ∧ d.graph.nodes[i]? = some ⟨.generated i, shape⟩

/-- The symbol goes by the name: it is the rule or a stand-in for it. -/
def HasNamed (d : Draft) (ref : Ref) (name : String) : Prop :=
  ∃ i shape, ref = .node i ∧ d.graph.nodes[i]? = some ⟨.given name, shape⟩

/-- The symbols were made after the first draft, and are in the second one. No symbol is there
    twice. -/
structure Fresh (d d' : Draft) (parts : List Ref) : Prop where
  nodup : parts.Nodup
  between : ∀ r ∈ parts, ∃ i, r = .node i ∧ d.graph.nodes.size ≤ i ∧ i < d'.graph.nodes.size

variable {d d' d'' : Draft} {ref : Ref} {name : String} {names names' : List String}
  {parts parts' : List Ref} {shape : Shape} {e : Expr Literal}

theorem Fresh.nil (d d' : Draft) : d.Fresh d' [] := ⟨List.nodup_nil, by simp⟩

theorem Fresh.append (h : d.Fresh d' parts) (h' : d'.Fresh d'' parts')
    (hle : d.graph.nodes.size ≤ d'.graph.nodes.size)
    (hle' : d'.graph.nodes.size ≤ d''.graph.nodes.size) : d.Fresh d'' (parts ++ parts') where
  nodup := by
    refine List.nodup_append.mpr ⟨h.nodup, h'.nodup, ?_⟩
    rintro r hr _ hr' rfl
    obtain ⟨i, rfl, -, hlt⟩ := h.between r hr
    obtain ⟨j, heq, hge, -⟩ := h'.between _ hr'
    cases heq
    omega
  between := by
    rw [List.forall_mem_append]
    constructor
    · intro r hr
      obtain ⟨i, rfl, hge, hlt⟩ := h.between r hr
      exact ⟨i, rfl, hge, by omega⟩
    · intro r hr
      obtain ⟨i, rfl, hge, hlt⟩ := h'.between r hr
      exact ⟨i, rfl, by omega, hlt⟩

/-- One more symbol. -/
theorem Fresh.cons (h : d.Fresh d' parts) (hle : d.graph.nodes.size ≤ d'.graph.nodes.size)
    (hlt : d'.graph.nodes.size < d''.graph.nodes.size) :
    d.Fresh d'' (.node d'.graph.nodes.size :: parts) where
  nodup := by
    refine List.nodup_cons.mpr ⟨fun hmem => ?_, h.nodup⟩
    obtain ⟨i, heq, -, hlt'⟩ := h.between _ hmem
    cases heq
    omega
  between := by
    refine List.forall_mem_cons.mpr ⟨⟨_, rfl, hle, hlt⟩, fun r hr => ?_⟩
    obtain ⟨i, rfl, hge, hlt'⟩ := h.between r hr
    exact ⟨i, rfl, hge, by omega⟩

/-- All symbols are as they were, but for stand-ins that may have been filled in. -/
structure Keeps (d d' : Draft) : Prop where
  part : ∀ ref shape, d.HasPart ref shape → d'.HasPart ref shape
  named : ∀ ref name, d.HasNamed ref name → d'.HasNamed ref name

theorem Grows.keeps (h : d.Grows d') : d.Keeps d' := by
  constructor
  · rintro _ shape ⟨i, rfl, hi⟩
    exact ⟨i, rfl, h.node i _ hi⟩
  · rintro _ name ⟨i, shape, rfl, hi⟩
    exact ⟨i, shape, rfl, h.node i _ hi⟩

theorem Grows.size_le (h : d.Grows d') : d.graph.nodes.size ≤ d'.graph.nodes.size := by
  by_contra hlt
  rw [Nat.not_le] at hlt
  have hnode := h.node _ _ (Array.getElem?_eq_getElem hlt)
  exact absurd (Array.getElem?_eq_some_iff.mp hnode).1 (Nat.lt_irrefl _)

theorem Defines.keeps (h : d.Defines name shape d') : d.Keeps d' := by
  constructor
  · rintro _ shape' ⟨i, rfl, hi⟩
    exact ⟨i, rfl, by rw [h.old i _ hi, fillIn_eq_self (by simp)]⟩
  · rintro _ name' ⟨i, shape', rfl, hi⟩
    have hfilled := h.old i _ hi
    unfold fillIn at hfilled
    split at hfilled
    · rename_i heq
      cases heq
      exact ⟨i, _, rfl, hfilled⟩
    · exact ⟨i, shape', rfl, hfilled⟩

/-- The symbol is one for the expression in a draft, with these parts. -/
abbrev Draws (d : Draft) (ref : Ref) (e : Expr Literal) (parts : List Ref) : Prop :=
  IsSymbolFor d.HasPart d.HasNamed ref e parts

theorem Draws.has (h : d.Draws ref e parts) : d.Has ref := by
  cases h with
  | reference isRule =>
    obtain ⟨i, shape, rfl, hi⟩ := isRule
    exact ⟨i, (Array.getElem?_eq_some_iff.mp hi).1, rfl⟩
  | part isPart shapeFor =>
    obtain ⟨i, rfl, hi⟩ := isPart
    exact ⟨i, (Array.getElem?_eq_some_iff.mp hi).1, rfl⟩

/-- What is made for an expression that is not just a name is nameless. -/
theorem Draws.nameless (h : d.Draws ref e parts) (hproper : e.isReference = false) :
    ∃ i shape parts', ref = .node i ∧ parts = ref :: parts' ∧
      d.graph.nodes[i]? = some ⟨.generated i, shape⟩ ∧
      IsShapeFor d.HasPart d.HasNamed shape e parts' := by
  cases h with
  | reference isRule => cases hproper
  | part isPart shapeFor =>
    obtain ⟨i, rfl, hi⟩ := isPart
    exact ⟨i, _, _, rfl, rfl, hi, shapeFor⟩

theorem Draws.keep (h : d.Draws ref e parts) (hkeeps : d.Keeps d') : d'.Draws ref e parts :=
  h.mono hkeeps.part hkeeps.named

/-- What making symbols comes to, with these names used. -/
structure Makes (d : Draft) (names : List String) (parts : List Ref) (d' : Draft) : Prop where
  sound : d'.Sound
  grows : d.Grows d'
  pending : ∀ name, d'.pending.get? name ≠ none → d.pending.get? name ≠ none ∨ name ∈ names
  fresh : d.Fresh d' parts

theorem Makes.refl (h : d.Sound) : d.Makes names [] d :=
  ⟨h, .refl d, fun _ => .inl, .nil d d⟩

theorem Makes.trans (h : d.Makes names parts d') (h' : d'.Makes names' parts' d'') :
    d.Makes (names ++ names') (parts ++ parts') d'' := by
  refine ⟨h'.sound, h.grows.trans h'.grows, fun name hname => ?_,
    h.fresh.append h'.fresh h.grows.size_le h'.grows.size_le⟩
  rcases h'.pending name hname with hname | hname
  · exact (h.pending name hname).imp_right (List.mem_append_left names')
  · exact .inr (List.mem_append_right names hname)

theorem Sound.reference_makes (h : d.Sound) (hname : isID name = true) :
    d.Makes [name] [] (d.reference name).2 ∧
      (d.reference name).2.HasNamed (d.reference name).1 name := by
  obtain ⟨hsound, hgrows, -⟩ := h.reference hname
  suffices hmakes : (∀ name', (d.reference name).2.pending.get? name' ≠ none →
      d.pending.get? name' ≠ none ∨ name' ∈ [name]) ∧
      (d.reference name).2.HasNamed (d.reference name).1 name from
    ⟨⟨hsound, hgrows, hmakes.1, .nil _ _⟩, hmakes.2⟩
  cases hrule : d.rules.get? name with
  | some ref =>
    rw [reference_rule hrule]
    obtain ⟨i, shape, rfl, hi, -⟩ := h.rule name ref hrule
    exact ⟨fun _ => .inl, i, shape, rfl, hi⟩
  | none =>
    cases hpending : d.pending.get? name with
    | some ref =>
      rw [reference_standIn hrule hpending]
      obtain ⟨-, i, rfl, hi⟩ := h.standIn name ref hpending
      exact ⟨fun _ => .inl, i, _, rfl, hi⟩
    | none =>
      rw [reference_new hrule hpending]
      refine ⟨fun name' hname' => ?_, _, _, rfl, getElem?_push_eq_some.mpr (.inr ⟨rfl, rfl⟩)⟩
      by_cases heq : name' = name
      · exact .inr (by simp [heq])
      · rw [Dictionary.get?_insert, if_neg heq] at hname'
        exact .inl hname'

/-- One more nameless symbol, made of symbols that there are. -/
theorem Makes.addPart (h : d.Makes names parts d') (shape : Shape)
    (hplain : shape.isGuarded = true) (hrefs : ∀ r ∈ shape.refs, d'.Has r) :
    d.Makes names ((d'.add shape).1 :: parts) (d'.add shape).2 ∧ d'.Grows (d'.add shape).2 ∧
      (d'.add shape).2.HasPart (d'.add shape).1 shape := by
  obtain ⟨hsound, hgrows, -⟩ := h.sound.add shape hplain hrefs
  have hsize : d'.graph.nodes.size < (d'.add shape).2.graph.nodes.size := by simp [add_eq]
  exact ⟨⟨hsound, h.grows.trans hgrows, h.pending, h.fresh.cons h.grows.size_le hsize⟩, hgrows,
    d'.graph.nodes.size, rfl, getElem?_push_eq_some.mpr (.inr ⟨rfl, rfl⟩)⟩

/-- A nameless symbol for an expression, made of symbols that there are. -/
theorem Makes.add (h : d.Makes names parts d')
    (hshape : IsShapeFor d'.HasPart d'.HasNamed shape e parts)
    (hplain : shape.isGuarded = true) (hrefs : ∀ r ∈ shape.refs, d'.Has r) :
    d.Makes names ((d'.add shape).1 :: parts) (d'.add shape).2 ∧
      (d'.add shape).2.Draws (d'.add shape).1 e ((d'.add shape).1 :: parts) := by
  obtain ⟨hmakes, hgrows, hpart⟩ := h.addPart shape hplain hrefs
  exact ⟨hmakes, .part hpart (hshape.mono hgrows.keeps.part hgrows.keeps.named)⟩

theorem Makes.addRepeated (h : d.Makes names parts d') (href : d'.Draws ref e parts)
    (count : Count) :
    ∃ parts', d.Makes names parts' (d'.addRepeated ref count).2 ∧
      (d'.addRepeated ref count).2.Draws (d'.addRepeated ref count).1 (.repeated count e)
        parts' := by
  have hhas : ∀ r ∈ [ref], d'.Has r := List.forall_mem_singleton.mpr href.has
  cases count with
  | oneOrMore => exact ⟨_, h.add (.oneOrMore href) rfl hhas⟩
  | optional => exact ⟨_, h.add (.optional href) rfl hhas⟩
  | noneOrMore =>
    -- The repetitions come first, and then the symbol that they are the work of.
    obtain ⟨hrounds, hgrows, hpart⟩ := h.addPart (.multiple ref) rfl hhas
    obtain ⟨i, hi, hnode⟩ := id hpart
    refine ⟨_, hrounds.add (.noneOrMore hpart (href.keep hgrows.keeps)) rfl
      (List.forall_mem_singleton.mpr ?_)⟩
    exact ⟨i, (Array.getElem?_eq_some_iff.mp hnode).1, hi⟩

theorem has_of_all {refs : List Ref} {es : List (Expr Literal)}
    (h : AreSymbolsFor d.HasPart d.HasNamed refs es parts) : ∀ r ∈ refs, d.Has r := by
  induction refs generalizing es parts with
  | nil => simp
  | cons ref refs ih =>
    cases h with
    | cons first later =>
      have hfirst : d.Draws ref _ _ := first
      exact List.forall_mem_cons.mpr ⟨hfirst.has, ih later⟩

end Draft

/-! ### Building -/

mutual

/-- Making the symbols for an expression. -/
theorem Expr.build_symbols (e : Expr Literal) {d : Draft} (h : d.Sound)
    (hnamed : ∀ name ∈ e.names, isID name = true) :
    ∃ ref d' parts, (e.map .ok).build d = .ok (ref, d') ∧ d.Makes e.names parts d' ∧
      d'.Draws ref e parts := by
  match e with
  | .reference name =>
    obtain ⟨hmakes, href⟩ := h.reference_makes (hnamed name (List.mem_singleton_self name))
    exact ⟨_, _, _, rfl, hmakes, .reference href⟩
  | .literal value =>
    have hmakes : d.Makes [] [] d := .refl h
    exact ⟨_, _, _, rfl, hmakes.add (.literal value) (by cases value <;> rfl)
      (by cases value <;> simp [Literal.shape, Shape.refs])⟩
  | .repeated count inner =>
    obtain ⟨ref, d', parts, hbuild, hmakes, href⟩ := inner.build_symbols h hnamed
    obtain ⟨parts', hrepeated⟩ := hmakes.addRepeated href count
    refine ⟨_, _, parts', ?_, hrepeated⟩
    rw [Expr.map, Expr.build, hbuild]
    rfl
  | .sequence members =>
    obtain ⟨refs, d', parts, hbuild, hmakes, hrefs⟩ := Expr.buildAll_symbols members h hnamed
    refine ⟨_, _, _, ?_, hmakes.add (.sequence hrefs) rfl (Draft.has_of_all hrefs)⟩
    rw [Expr.map, Expr.build, hbuild]
    rfl
  | .choice members =>
    obtain ⟨refs, d', parts, hbuild, hmakes, hrefs⟩ := Expr.buildAll_symbols members h hnamed
    refine ⟨_, _, _, ?_, hmakes.add (.choice hrefs) rfl (Draft.has_of_all hrefs)⟩
    rw [Expr.map, Expr.build, hbuild]
    rfl

/-- Making the symbols for some expressions. -/
theorem Expr.buildAll_symbols (es : List (Expr Literal)) {d : Draft} (h : d.Sound)
    (hnamed : ∀ name ∈ Expr.namesAll es, isID name = true) :
    ∃ refs d' parts, Expr.buildAll (Expr.mapAll .ok es) d = .ok (refs, d') ∧
      d.Makes (Expr.namesAll es) parts d' ∧ AreSymbolsFor d'.HasPart d'.HasNamed refs es parts := by
  match es with
  | [] => exact ⟨[], d, [], rfl, .refl h, .nil⟩
  | e :: es =>
    rw [Expr.namesAll, List.forall_mem_append] at hnamed
    obtain ⟨ref, d', parts, hbuild, hmakes, href⟩ := e.build_symbols h hnamed.1
    obtain ⟨refs, d'', parts', hbuildAll, hmakes', hrefs⟩ :=
      Expr.buildAll_symbols es hmakes.sound hnamed.2
    refine ⟨ref :: refs, d'', _, ?_, hmakes.trans hmakes',
      .cons (href.keep hmakes'.grows.keeps) hrefs⟩
    rw [Expr.mapAll, Expr.buildAll, hbuild]
    simp only [bind, Except.bind, hbuildAll]
    rfl

end

/-! ### Rules -/

namespace Draft

variable {d d' : Draft} {name : String} {shape : Shape} {rule : Rule} {rules done : List Rule}
  {parts : List Ref} {placed : List (List Ref)}

/-- The rule is in the draft as it was meant, with these parts. -/
def HasRule (d : Draft) (rule : Rule) (parts : List Ref) : Prop :=
  ∃ i shape, d.rules.get? rule.name = some (.node i) ∧
    d.graph.nodes[i]? = some ⟨.given rule.name, shape⟩ ∧ shape.isGuarded = true ∧
    IsShapeFor d.HasPart d.HasNamed shape rule.body parts

theorem HasRule.grow (h : d.HasRule rule parts) (hgrows : d.Grows d') : d'.HasRule rule parts := by
  obtain ⟨i, shape, hrule, hi, hplain, hshape⟩ := h
  exact ⟨i, shape, by rw [hgrows.rules, hrule], hgrows.node i _ hi, hplain,
    hshape.mono hgrows.keeps.part hgrows.keeps.named⟩

theorem HasRule.define (h : d.HasRule rule parts) (hdefines : d.Defines name shape d')
    (hne : rule.name ≠ name) : d'.HasRule rule parts := by
  obtain ⟨i, shape, hrule, hi, hplain, hshape⟩ := h
  refine ⟨i, shape, ?_, ?_, hplain, hshape.mono hdefines.keeps.part hdefines.keeps.named⟩
  · rw [hdefines.rules, Dictionary.get?_insert, if_neg hne, hrule]
  · rw [hdefines.old i _ hi, fillIn_eq_self (by rintro ⟨⟩; cases hplain)]

/-- What holds of a draft once some rules have been made, with the parts of each. -/
structure Holds (d : Draft) (done : List Rule) (placed : List (List Ref)) : Prop where
  sound : d.Sound
  keys : d.rules.keys = done.map Rule.name
  rules : List.Forall₂ d.HasRule done placed
  apart : empty.Fresh d placed.flatten
  pending : ∀ name, d.pending.get? name ≠ none → ∃ rule ∈ done, name ∈ rule.body.names

theorem holds_empty : empty.Holds [] [] where
  sound := sound_empty
  keys := rfl
  rules := .nil
  apart := .nil _ _
  pending := by simp [empty]

theorem Holds.get?_eq_none (h : d.Holds done placed) (hname : name ∉ done.map Rule.name) :
    d.rules.get? name = none := by
  rw [Dictionary.get?_eq_none, h.keys]
  exact hname

end Draft

/-- Making a rule as it was meant. -/
theorem RuleText.build_rule {r : RuleText} {rule : Rule} (hsaid : r.Says rule) {d : Draft}
    {done : List Rule} {placed : List (List Ref)} (h : d.Holds done placed)
    (hname : isID rule.name = true) (hnames : ∀ name ∈ rule.body.names, isID name = true)
    (hnew : rule.name ∉ done.map Rule.name) (hproper : rule.body.isReference = false) :
    ∃ ref d' parts, r.build d = .ok (ref, d') ∧ d'.Holds (done ++ [rule]) (placed ++ [parts]) := by
  obtain ⟨hrname, hbody⟩ := hsaid
  obtain ⟨ref, d', parts', hbuild, hmakes, href⟩ := rule.body.build_symbols h.sound hnames
  obtain ⟨i, shape, parts, rfl, rfl, hi, hshape⟩ := href.nameless hproper
  have hplain := hmakes.sound.plain hi rfl
  obtain ⟨d'', hdefine, hdefines⟩ := hmakes.sound.define rule.name hi
  have hnone : d'.rules.get? rule.name = none := by
    rw [hmakes.grows.rules]
    exact h.get?_eq_none hnew
  have hsound : d''.Sound :=
    hdefines.sound hmakes.sound hname hnone hplain fun ref href => by
      obtain ⟨j, hj, rfl⟩ := hmakes.sound.earlier i _ hi hplain ref href
      exact ⟨j, Nat.lt_trans hj (Array.getElem?_eq_some_iff.mp hi).1, rfl⟩
  refine ⟨.node d'.graph.nodes.size, d'', parts, ?build, hsound, ?keys, ?rules, ?apart, ?pending⟩
  case build =>
    have hcontains : d'.rules.contains rule.name = false := by
      rw [Dictionary.contains, hnone]
      rfl
    have hanonymous : (d'.graph.symbol (.node i)).name.isAnonymous = true := by
      rw [Graph.symbol_of_getElem? hi]
      rfl
    simp only [RuleText.build, hbody, hrname, hbuild, bind, Except.bind, hcontains, hanonymous,
      hdefine, Bool.false_eq_true, if_false, Bool.not_true]
  case keys =>
    rw [hdefines.rules, Dictionary.keys_insert hnone, hmakes.grows.rules, h.keys, List.map_append]
    rfl
  case rules =>
    have hold : ∀ old ∈ done, old.name ≠ rule.name := fun old hold heq =>
      hnew (heq ▸ List.mem_map_of_mem hold)
    refine List.rel_append ?_ (.cons ⟨_, shape, ?_, hdefines.new, hplain,
      hshape.mono hdefines.keeps.part hdefines.keeps.named⟩ .nil)
    · exact ((List.forall₂_and_left _ _).mpr ⟨hold, h.rules⟩).imp fun old parts hrule =>
        (hrule.2.grow hmakes.grows).define hdefines hrule.1
    · rw [hdefines.rules, Dictionary.get?_insert, if_pos rfl]
  case apart =>
    -- The symbol of the body is copied, so that only what is under it is a part of the rule.
    have hparts : d.Fresh d'' parts := by
      refine ⟨(List.nodup_cons.mp hmakes.fresh.nodup).2, fun r hr => ?_⟩
      obtain ⟨j, rfl, hge, hlt⟩ := hmakes.fresh.between r (List.mem_cons_of_mem _ hr)
      exact ⟨j, rfl, hge, by rw [hdefines.size_eq]; omega⟩
    have hle := hmakes.grows.size_le
    rw [List.flatten_append, List.flatten_singleton]
    exact h.apart.append hparts (Nat.zero_le _) (by rw [hdefines.size_eq]; omega)
  case pending =>
    intro name hpending
    rw [hdefines.pending] at hpending
    split at hpending
    · exact absurd rfl hpending
    · rcases hmakes.pending name hpending with hpending | hused
      · obtain ⟨old, hold, hused⟩ := h.pending name hpending
        exact ⟨old, List.mem_append_left _ hold, hused⟩
      · exact ⟨rule, by simp, hused⟩

theorem buildRules_rules {rts : List RuleText} {rules : List Rule}
    (hsaid : List.Forall₂ RuleText.Says rts rules) {d : Draft} {done : List Rule}
    {placed : List (List Ref)} (h : d.Holds done placed)
    (hnames : ∀ rule ∈ rules, isID rule.name = true)
    (hbodies : ∀ rule ∈ rules, ∀ name ∈ rule.body.names, isID name = true)
    (hdistinct : ((done ++ rules).map Rule.name).Nodup)
    (hproper : ∀ rule ∈ rules, rule.body.isReference = false) :
    ∃ d' placed', buildRules rts d = .ok d' ∧ d'.Holds (done ++ rules) placed' := by
  induction hsaid generalizing d done placed with
  | nil => exact ⟨d, placed, rfl, by rwa [List.append_nil]⟩
  | @cons rt rule rts rules hfirst _ ih =>
    rw [List.forall_mem_cons] at hnames hbodies hproper
    rw [List.append_cons] at hdistinct ⊢
    have hnew : rule.name ∉ done.map Rule.name := by
      rw [List.map_append, List.map_append] at hdistinct
      intro hmem
      have hdisjoint := (List.nodup_append.mp (List.nodup_append.mp hdistinct).1).2.2
      exact hdisjoint _ hmem _ (List.mem_singleton_self _) rfl
    obtain ⟨ref, d', parts, hbuild, hholds⟩ :=
      rt.build_rule hfirst h hnames.1 hbodies.1 hnew hproper.1
    obtain ⟨d'', placed', hrest, hholds'⟩ := ih hholds hnames.2 hbodies.2 hdistinct hproper.2
    refine ⟨d'', placed', ?_, hholds'⟩
    rw [buildRules, hbuild]
    exact hrest

end Notation

/-! ### What comes out -/

namespace RuleSet

open Notation

/-- The symbol is a nameless part of this shape. -/
def HasPart (rs : RuleSet) (ref : Ref) (shape : Shape) : Prop :=
  ∃ i, ref = .node i ∧ rs.graph.symbol ref = ⟨.generated i, shape⟩

/-- The symbol stands for the rule of the name: it is the rule, or refers to it under its name. -/
def HasNamed (rs : RuleSet) (ref : Ref) (name : String) : Prop :=
  ∃ target, rs.get? name = some target ∧
    (ref = target ∨ rs.graph.symbol ref = ⟨.given name, .implicit (some target)⟩)

/-- The rule is there as it was meant, with these parts. -/
def HasRule (rs : RuleSet) (rule : Rule) (parts : List Ref) : Prop :=
  ∃ ref shape, rs.get? rule.name = some ref ∧ rs.graph.symbol ref = ⟨.given rule.name, shape⟩ ∧
    shape.isGuarded = true ∧ IsShapeFor rs.HasPart rs.HasNamed shape rule.body parts

/-- The rules are those of a grammar, in their order, and as they were meant. No symbol is a part of
    two of them, or twice a part of one. -/
def Means (rs : RuleSet) (rules : List Rule) : Prop :=
  rs.rules.keys = rules.map Rule.name ∧
    ∃ placed, List.Forall₂ rs.HasRule rules placed ∧ placed.flatten.Nodup

end RuleSet

namespace Notation

variable {rules : List Rule} {d : Draft}

/-- Once nothing is pending, a rule of a draft is there as it was meant. -/
theorem Draft.HasRule.finish {rule : Rule} {parts : List Ref} (h : d.HasRule rule parts)
    (hsound : d.Sound) (hpending : ∀ name, d.pending.get? name = none) :
    RuleSet.HasRule { graph := d.graph, rules := d.rules } rule parts := by
  obtain ⟨i, shape, hrule, hi, hplain, hshape⟩ := h
  refine ⟨.node i, shape, hrule, Graph.symbol_of_getElem? hi, hplain, hshape.mono ?_ ?_⟩
  · rintro _ shape ⟨j, rfl, hj⟩
    exact ⟨j, rfl, Graph.symbol_of_getElem? hj⟩
  · rintro _ name ⟨j, shape, rfl, hj⟩
    cases hsound.bears j _ hj with
    | rule id plain defined => exact ⟨_, defined, .inl rfl⟩
    | resolved id defined => exact ⟨_, defined, .inr (Graph.symbol_of_getElem? hj)⟩
    | standIn id waiting => rw [hpending] at waiting; cases waiting

/-- The rules of a well-formed grammar come out as they were meant. -/
theorem buildGrammar_rules {rts : List RuleText} (hsaid : List.Forall₂ RuleText.Says rts rules)
    (hrules : IsWellFormed rules) (hnames : ∀ rule ∈ rules, isID rule.name = true) :
    ∃ rs, buildGrammar rts = .ok rs ∧ rs.IsComplete ∧ rs.Means rules := by
  have hbodies : ∀ rule ∈ rules, ∀ name ∈ rule.body.names, isID name = true := by
    intro rule hrule name hname
    obtain ⟨rule', hrule', rfl⟩ := List.mem_map.mp (hrules.closed rule hrule name hname)
    exact hnames rule' hrule'
  obtain ⟨d, placed, hbuild, hholds⟩ := buildRules_rules hsaid Draft.holds_empty hnames hbodies
    hrules.distinct hrules.proper
  -- What is pending is used, and so it is defined.
  have hpending : ∀ name, d.pending.get? name = none := by
    intro name
    by_contra hname
    obtain ⟨rule, hrule, hused⟩ := hholds.pending name hname
    obtain ⟨ref, hstandIn⟩ := Option.ne_none_iff_exists'.mp hname
    have hnone := (hholds.sound.standIn name ref hstandIn).1
    rw [Dictionary.get?_eq_none, hholds.keys] at hnone
    exact hnone (hrules.closed rule hrule name hused)
  have hkeys : d.pending.keys.isEmpty = true := by
    rw [List.isEmpty_iff, List.eq_nil_iff_forall_not_mem]
    exact fun name => Dictionary.get?_eq_none.mp (hpending name)
  refine ⟨{ graph := d.graph, rules := d.rules }, ?_, hholds.sound.isComplete hpending,
    hholds.keys, placed, ?_, hholds.apart.nodup⟩
  · rw [buildGrammar, hbuild]
    exact if_pos hkeys
  · exact hholds.rules.imp fun rule parts hrule => hrule.finish hholds.sound hpending

end Notation

end GrammarEngine
