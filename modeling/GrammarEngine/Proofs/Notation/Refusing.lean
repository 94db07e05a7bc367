import GrammarEngine.Proofs.Notation.Faults
import GrammarEngine.Proofs.Notation.Recovering

namespace GrammarEngine

/-!
# What grammars are refused for

Rules that were read are built one after the other until there is a mistake, and the first mistake
is what they are refused with. If there is none, some names may have been used that are not defined.

* `Heeds` — something fails with the mistake, or comes to what it should if there is none;
* `Expr.build_heeds`, `RuleText.build_heeds`, `buildRules_heeds` — so do expressions, rules, and
  some rules one after the other;
* `Draft.Holds.mem_pending` — the names that are pending are those used and not defined;
* `Completes` — the result where there is no mistake;
* `buildGrammar_mistake`, `buildGrammar_completes` — what comes of the rules of a grammar text.
-/

/-! ### Names that come once -/

namespace Dictionary

variable {α : Type} {d : Dictionary α} {key : String} {value : α}

theorem nodup_insert (h : d.keys.Nodup) (hnone : d.get? key = none) :
    (d.insert key value).keys.Nodup := by
  rw [keys_insert hnone]
  refine List.nodup_append.mpr ⟨h, List.nodup_singleton key, ?_⟩
  rintro name hname _ hkey rfl
  rw [List.mem_singleton] at hkey
  exact get?_eq_none.mp hnone (hkey ▸ hname)

theorem contains_eq_decide (d : Dictionary α) (key : String) :
    d.contains key = decide (key ∈ d.keys) := by
  by_cases hmem : key ∈ d.keys
  · rw [contains, decide_eq_true hmem, Option.isSome_iff_ne_none]
    exact fun hnone => get?_eq_none.mp hnone hmem
  · rw [contains, decide_eq_false hmem, get?_eq_none.mpr hmem]
    rfl

theorem nodup_erase (h : d.keys.Nodup) (key : String) : (d.erase key).keys.Nodup :=
  h.sublist (List.filter_sublist.map Prod.fst)

end Dictionary

namespace Notation

namespace Draft

variable {d d' : Draft} {ref : Ref} {name : String}

/-- No name is pending twice. -/
def PendsOnce (d : Draft) : Prop := d.pending.keys.Nodup

theorem PendsOnce.reference (h : d.PendsOnce) (name : String) : (d.reference name).2.PendsOnce := by
  cases hrule : d.rules.get? name with
  | some ref => rwa [reference_rule hrule]
  | none =>
    cases hpending : d.pending.get? name with
    | some ref => rwa [reference_standIn hrule hpending]
    | none =>
      rw [reference_new hrule hpending]
      exact Dictionary.nodup_insert h hpending

theorem PendsOnce.addRepeated (h : d.PendsOnce) (inner : Ref) (count : Count) :
    (d.addRepeated inner count).2.PendsOnce := by
  cases count <;> exact h

theorem PendsOnce.define {body : Ref} (h : d.PendsOnce)
    (hdefine : d.define name body = .ok (ref, d')) : d'.PendsOnce := by
  rw [define_eq] at hdefine
  cases hpending : d.pending.get? name with
  | none =>
    rw [hpending] at hdefine
    cases hdefine
    exact h
  | some standIn =>
    simp only [hpending] at hdefine
    cases hresolve : Graph.resolve ⟨d.graph.nodes.push ⟨.given name, (d.graph.symbol body).shape⟩⟩
        standIn (.node d.graph.nodes.size) with
    | error e =>
      rw [hresolve] at hdefine
      cases hdefine
    | ok graph =>
      rw [hresolve] at hdefine
      cases hdefine
      exact Dictionary.nodup_erase h name

end Draft

/-! ### Building -/

/-- Something fails with the mistake, or comes to what it should if there is none. -/
def Heeds {β : Type} (mistake : Option ParseError) (x : Except Error β) (good : β → Prop) : Prop :=
  match mistake with
  | some e => x = .error (.parse e)
  | none => ∃ b, x = .ok b ∧ good b

namespace Heeds

variable {β γ : Type} {mistake mistake' : Option ParseError} {x : Except Error β}
  {f : β → Except Error γ} {good : β → Prop} {good' : γ → Prop}

theorem ok {b : β} (h : good b) : Heeds none (.ok b) good := ⟨b, rfl, h⟩

theorem imp {good₁ : β → Prop} (h : Heeds mistake x good) (h' : ∀ b, good b → good₁ b) :
    Heeds mistake x good₁ := by
  cases mistake with
  | some e => exact h
  | none =>
    obtain ⟨b, hx, hgood⟩ := h
    exact ⟨b, hx, h' b hgood⟩

/-- One after the other: the first mistake counts. -/
theorem bind (h : Heeds mistake x good) (h' : ∀ b, good b → Heeds mistake' (f b) good') :
    Heeds (mistake.or mistake') (x >>= f) good' := by
  cases mistake with
  | some e =>
    have hx : x = .error (.parse e) := h
    rw [hx]
    exact rfl
  | none =>
    obtain ⟨b, rfl, hgood⟩ := h
    exact h' b hgood

/-- What is made of it makes no more mistakes. -/
theorem map {k : β → γ} (h : Heeds mistake x good) (h' : ∀ b, good b → good' (k b)) :
    Heeds mistake (x >>= fun b => .ok (k b)) good' := by
  have hbind : Heeds (mistake.or none) (x >>= fun b => .ok (k b)) good' :=
    h.bind fun b hgood => .ok (h' b hgood)
  rwa [Option.or_none] at hbind

end Heeds

mutual

/-- What comes of making the symbols for an expression. -/
theorem Expr.build_heeds (e : Expr (Except ParseError Literal)) {d : Draft} (h : d.PendsOnce) :
    Heeds e.mistake (e.build d) fun found => found.2.PendsOnce := by
  match e with
  | .reference name => exact .ok (h.reference name)
  | .literal (.ok value) => exact .ok h
  | .literal (.error _) => exact rfl
  | .repeated count inner =>
    exact (inner.build_heeds h).map fun found hfound => hfound.addRepeated found.1 count
  | .sequence members => exact (Expr.buildAll_heeds members h).map fun _ hfound => hfound
  | .choice members => exact (Expr.buildAll_heeds members h).map fun _ hfound => hfound

theorem Expr.buildAll_heeds (es : List (Expr (Except ParseError Literal))) {d : Draft}
    (h : d.PendsOnce) :
    Heeds (Expr.mistakeAmong es) (Expr.buildAll es d) fun found => found.2.PendsOnce := by
  match es with
  | [] => exact .ok h
  | e :: es =>
    exact (e.build_heeds h).bind fun _ hfirst =>
      (Expr.buildAll_heeds es hfirst).map fun _ hrest => hrest

end

section

variable {r : RuleText} {rts : List RuleText} {rules done : List Rule} {d d' : Draft}
  {placed : List (List Ref)}

/-- Only the symbol of a reference goes by a name of its own. -/
theorem Draft.Draws.isAnonymous {ref : Ref} {e : Expr Literal} {parts : List Ref}
    (h : d.Draws ref e parts) (hnames : ∀ name ∈ e.names, isID name = true) :
    (d.graph.symbol ref).name.isAnonymous = !e.isReference := by
  cases h with
  | @reference ref name isRule =>
    obtain ⟨i, shape, rfl, hi⟩ := isRule
    rw [Graph.symbol_of_getElem? hi]
    exact isAnonymous_of_isID (hnames name (List.mem_singleton_self name))
  | part isPart shapeFor =>
    obtain ⟨i, rfl, hi⟩ := isPart
    have hproper : e.isReference = false := by
      cases shapeFor <;> rfl
    rw [Graph.symbol_of_getElem? hi, hproper]
    rfl

theorem Expr.isReference_map {L M : Type} (f : L → M) (e : Expr L) :
    (e.map f).isReference = e.isReference := by
  cases e <;> rfl

/-- Once its body is built, a rule is defined unless there is something against it. -/
theorem RuleText.build_eq {ref : Ref} (h : r.body.build d = .ok (ref, d')) :
    r.build d =
      if d'.rules.contains r.name then
        .error (.parse (r.objection ("Rule '" ++ r.name ++ "' is defined more than once")))
      else if !(d'.graph.symbol ref).name.isAnonymous then
        .error (.parse (r.objection "Delegation to another named symbol is forbidden"))
      else d'.define r.name ref := by
  simp only [RuleText.build, h, bind, Except.bind]
  split
  · rfl
  · split <;> rfl

/-- What comes of a rule whose body is in order, where some rules have been built before it. -/
theorem RuleText.build_meant {v : Expr Literal} {ref : Ref} (hnamed : r.IsNamed)
    (h : d.Holds done placed) (hmistake : r.body.mistake = none) (hv : IsValid r.body v)
    (hbuild : r.body.build d = .ok (ref, d')) (honce : d'.PendsOnce) :
    Heeds (r.mistake (done.map Rule.name)) (r.build d) fun found =>
      ∃ rule parts, r.Says rule ∧ found.2.Holds (done ++ [rule]) (placed ++ [parts]) ∧
        found.2.PendsOnce := by
  have hnames : ∀ name ∈ v.names, isID name = true := by
    intro name hname
    exact hnamed.body name (by rwa [hv, Expr.names_map])
  obtain ⟨ref', d₁, parts, hbuild', hmakes, hdraws⟩ := v.build_symbols h.sound hnames
  -- What was built for the body is what is made for its meaning.
  obtain ⟨rfl, rfl⟩ : ref' = ref ∧ d₁ = d' := by
    rw [← hv, hbuild] at hbuild'
    cases hbuild'
    exact ⟨rfl, rfl⟩
  rw [RuleText.mistake, hmistake, Option.none_or]
  have hcontains : d₁.rules.contains r.name = decide (r.name ∈ done.map Rule.name) := by
    rw [Dictionary.contains_eq_decide, hmakes.grows.rules, h.keys]
  have hanonymous : (d₁.graph.symbol ref').name.isAnonymous = !r.body.isReference := by
    rw [hdraws.isAnonymous hnames, hv, Expr.isReference_map]
  have hdefine := RuleText.build_eq hbuild
  rw [hcontains, hanonymous, Bool.not_not] at hdefine
  by_cases hdefined : r.name ∈ done.map Rule.name
  · rw [if_pos hdefined, hdefine, decide_eq_true hdefined]
    exact rfl
  · rw [if_neg hdefined]
    rw [decide_eq_false hdefined] at hdefine
    cases hreference : r.body.isReference with
    | true =>
      rw [hreference] at hdefine
      exact hdefine
    | false =>
      have hproper : v.isReference = false := by
        rwa [hv, Expr.isReference_map] at hreference
      have hsays : r.Says ⟨r.name, v⟩ := ⟨rfl, hv⟩
      obtain ⟨ref'', d'', parts', hrule, hholds⟩ :=
        r.build_rule hsays h hnamed.name hnames hdefined hproper
      rw [hreference, hrule] at hdefine
      exact ⟨_, hrule, _, parts', hsays, hholds, honce.define hdefine.symm⟩

/-- What comes of a rule, where some rules have been built before it. -/
theorem RuleText.build_heeds (hnamed : r.IsNamed) (h : d.Holds done placed) (honce : d.PendsOnce) :
    Heeds (r.mistake (done.map Rule.name)) (r.build d) fun found =>
      ∃ rule parts, r.Says rule ∧ found.2.Holds (done ++ [rule]) (placed ++ [parts]) ∧
        found.2.PendsOnce := by
  have hbody := r.body.build_heeds honce
  cases hmistake : r.body.mistake with
  | some e =>
    rw [hmistake] at hbody
    have herror : r.body.build d = .error (.parse e) := hbody
    rw [RuleText.mistake, hmistake, Option.some_or, RuleText.build, herror]
    exact rfl
  | none =>
    rw [hmistake] at hbody
    obtain ⟨⟨ref, d'⟩, hbuild, honce'⟩ := hbody
    obtain ⟨v, hv⟩ := r.body.exists_of_build hbuild
    exact RuleText.build_meant hnamed h hmistake hv hbuild honce'

/-- What comes of some rules, where others have been built before them. -/
theorem buildRules_heeds (hnamed : ∀ r ∈ rts, r.IsNamed) (h : d.Holds done placed)
    (honce : d.PendsOnce) :
    Heeds (mistakeIn (done.map Rule.name) rts) (buildRules rts d) fun d' =>
      ∃ rules placed', List.Forall₂ RuleText.Says rts rules ∧ d'.Holds (done ++ rules) placed' ∧
        d'.PendsOnce := by
  induction rts generalizing d done placed with
  | nil => exact .ok ⟨[], placed, .nil, by rwa [List.append_nil], honce⟩
  | cons r rts ih =>
    rw [List.forall_mem_cons] at hnamed
    refine (r.build_heeds hnamed.1 h honce).bind ?_
    rintro ⟨ref, d₁⟩ ⟨rule, parts, hrule, hholds, honce₁⟩
    have hrest := ih hnamed.2 hholds honce₁
    rw [List.map_append, List.map_singleton, ← hrule.1] at hrest
    refine hrest.imp ?_
    rintro d' ⟨rules, placed', hrules, hholds', honce'⟩
    rw [← List.append_cons] at hholds'
    exact ⟨rule :: rules, placed', .cons hrule hrules, hholds', honce'⟩

/-! ### Names that are not defined -/

/-- What is pending in the end is what was used and not defined. -/
theorem Draft.Holds.mem_pending (h : d.Holds rules placed) (name : String) :
    name ∈ d.pending.keys ↔
      (∃ rule ∈ rules, name ∈ rule.body.names) ∧ name ∉ rules.map Rule.name := by
  have hkeys : name ∈ d.pending.keys ↔ d.pending.get? name ≠ none := by
    rw [Ne, Dictionary.get?_eq_none, not_not]
  rw [hkeys]
  constructor
  · intro hpending
    refine ⟨h.pending name hpending, ?_⟩
    obtain ⟨ref, hstandIn⟩ := Option.ne_none_iff_exists'.mp hpending
    rw [← h.keys, ← Dictionary.get?_eq_none]
    exact (h.sound.standIn name ref hstandIn).1
  · rintro ⟨⟨rule, hrule, hused⟩, hundefined⟩
    have hall : ∀ rule ∈ rules, ∃ parts, d.HasRule rule parts :=
      forall_right h.rules.flip fun parts _ hhas => ⟨parts, hhas⟩
    obtain ⟨parts, _, _, -, -, -, hshape⟩ := hall rule hrule
    -- The symbol that stands for the name is no rule, and has not been filled in.
    obtain ⟨_, j, shape, rfl, hj⟩ := hshape.exists_rule name hused
    have hnone := h.get?_eq_none hundefined
    cases h.sound.bears j _ hj with
    | rule id plain defined => rw [hnone] at defined; cases defined
    | resolved id defined => rw [hnone] at defined; cases defined
    | standIn id waiting => rw [waiting]; exact Option.some_ne_none _

/-- The result is good if all names that are used are defined. If not, it says which are not
    defined, each of them once, in order. -/
structure Completes {β : Type} (used defined : List String) (result : Except Error β) : Prop where
  ok_iff : (∃ b, result = .ok b) ↔ ∀ name ∈ used, name ∈ defined
  undefined : ¬ (∀ name ∈ used, name ∈ defined) →
    ∃ names, result = .error (.configuration (.undefinedRules names)) ∧ names.Pairwise (· < ·) ∧
      ∀ name, name ∈ names ↔ name ∈ used ∧ name ∉ defined

/-- The names that are pending in the end are reported. -/
theorem Draft.PendsOnce.finish (h : d.PendsOnce) {used defined : List String}
    (hpending : ∀ name, name ∈ d.pending.keys ↔ name ∈ used ∧ name ∉ defined) :
    Completes used defined d.finish := by
  have hempty : d.pending.keys = [] ↔ ∀ name ∈ used, name ∈ defined := by
    simp only [List.eq_nil_iff_forall_not_mem, hpending, not_and, not_not]
  unfold Draft.finish
  by_cases hall : ∀ name ∈ used, name ∈ defined
  · rw [if_pos (List.isEmpty_iff.mpr (hempty.mpr hall))]
    exact ⟨⟨fun _ => hall, fun _ => ⟨_, rfl⟩⟩, fun hnot => absurd hall hnot⟩
  · rw [if_neg fun hnone => hall (hempty.mp (List.isEmpty_iff.mp hnone))]
    refine ⟨⟨fun hok => (nomatch hok), fun hnot => absurd hnot hall⟩, fun _ => ⟨_, rfl, ?_, ?_⟩⟩
    -- No name is pending twice, so that sorting comes to a strict order.
    · have hsorted := @List.pairwise_mergeSort _ (fun a b : String => decide (a ≤ b))
        (fun a b c hab hbc => decide_eq_true (String.le_trans (of_decide_eq_true hab)
          (of_decide_eq_true hbc)))
        (fun a b => by
          rw [Bool.or_eq_true, decide_eq_true_eq, decide_eq_true_eq]
          exact String.le_total a b) d.pending.keys
      have honce := (List.mergeSort_perm d.pending.keys fun a b => decide (a ≤ b)).nodup_iff.mpr h
      exact (hsorted.and honce).imp fun hle =>
        String.not_le.mp fun hge => hle.2 (String.le_antisymm (of_decide_eq_true hle.1) hge)
    · exact fun name => List.mem_mergeSort.trans (hpending name)

/-- Rules that mean something are called and refer to what they say. -/
theorem names_of_says (h : List.Forall₂ RuleText.Says rts rules) :
    rts.map RuleText.name = rules.map Rule.name ∧
      ∀ name, name ∈ (rts.flatMap fun r => r.body.names) ↔
        ∃ rule ∈ rules, name ∈ rule.body.names := by
  induction h with
  | nil => exact ⟨rfl, by simp⟩
  | cons first _ ih =>
    obtain ⟨hname, hbody⟩ := first
    obtain ⟨hnames, hused⟩ := ih
    refine ⟨by rw [List.map_cons, List.map_cons, hname, hnames], fun name => ?_⟩
    rw [List.flatMap_cons, List.mem_append, hused, hbody, Expr.names_map, List.exists_mem_cons_iff]

/-! ### Grammars -/

/-- Rules in which there is a mistake are refused with the first one. -/
theorem buildGrammar_mistake (hnamed : ∀ r ∈ rts, r.IsNamed) {e : ParseError}
    (h : mistakeIn [] rts = some e) : buildGrammar rts = .error (.parse e) := by
  have hbuild := buildRules_heeds hnamed Draft.holds_empty List.nodup_nil
  rw [List.map_nil, h] at hbuild
  have herror : buildRules rts .empty = .error (.parse e) := hbuild
  rw [buildGrammar, herror]
  rfl

/-- Rules in which there is no mistake are good if all names in them are defined. -/
theorem buildGrammar_completes (hnamed : ∀ r ∈ rts, r.IsNamed) (h : mistakeIn [] rts = none) :
    Completes (rts.flatMap fun r => r.body.names) (rts.map RuleText.name) (buildGrammar rts) := by
  have hbuild := buildRules_heeds hnamed Draft.holds_empty List.nodup_nil
  rw [List.map_nil, h] at hbuild
  obtain ⟨d, hbuild, rules, placed, hrules, hholds, honce⟩ := hbuild
  obtain ⟨hnames, hused⟩ := names_of_says hrules
  have hfinish : buildGrammar rts = d.finish := by
    rw [buildGrammar, hbuild]
    rfl
  rw [hfinish]
  refine honce.finish fun name => ?_
  rw [hholds.mem_pending, hused, hnames]
  rfl

end

end Notation

end GrammarEngine
