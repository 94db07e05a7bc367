import Mathlib.Logic.Relation
import GrammarEngine.Proofs.Notation.Abstract
import GrammarEngine.Proofs.Rules

namespace GrammarEngine

/-!
# Drafts

While a grammar text is walked, rules are used before they are defined, stand-ins are shared and
filled in later, and a rule is a renamed copy of its body. What holds of a draft all the time:

* `Bears` — the name of a symbol says what it is: a nameless part, a rule, or a stand-in;
* `Draft.Sound` — all symbols bear their names, and but for stand-ins they are made of earlier ones;
* `Expr.build_sound`, `RuleText.build_sound`, `buildRules_sound` — building keeps a draft sound, and
  the only errors on the way are those that refuse the text;
* `IsComplete`, `Draft.Sound.finish` — what comes out in the end.
-/

/-! ### Dictionaries -/

namespace Dictionary

variable {α : Type} {d : Dictionary α} {key : String} {value : α}

theorem get?_erase (d : Dictionary α) (key key' : String) :
    (d.erase key).get? key' = if key' = key then none else d.get? key' := by
  obtain ⟨es⟩ := d
  unfold erase get?
  induction es with
  | nil => simp
  | cons entry es ih =>
    obtain ⟨k, v⟩ := entry
    by_cases hk : k = key
    · by_cases h : key' = key
      · simpa [hk, h] using ih
      · have hb : (key' == key) = false := by simpa using h
        simpa [hk, h, List.lookup_cons, hb] using ih
    · by_cases h : key' = k
      · have hkey : ¬ k = key := hk
        simp [h, hkey]
      · have hb : (key' == k) = false := by simpa using h
        simpa [hk, List.lookup_cons, hb] using ih

theorem get?_eq_none : d.get? key = none ↔ key ∉ d.keys := by
  simp [get?, keys, List.lookup_eq_none_iff]
  exact ⟨fun h v hmem => h key v hmem rfl, fun h k v hmem heq => h v (heq ▸ hmem)⟩

/-- A new name goes to the end. -/
theorem entries_insert (h : d.get? key = none) :
    (d.insert key value).entries = d.entries ++ [(key, value)] := by
  rw [get?_eq_none] at h
  obtain ⟨es⟩ := d
  unfold insert keys at *
  induction es with
  | nil => rfl
  | cons entry es ih =>
    obtain ⟨k, v⟩ := entry
    rw [List.map_cons, List.mem_cons, not_or] at h
    simp only [insertEntry, if_neg (Ne.symm h.1)] at ih ⊢
    rw [ih h.2, List.cons_append]

theorem keys_insert (h : d.get? key = none) : (d.insert key value).keys = d.keys ++ [key] := by
  rw [keys, entries_insert h, List.map_append]
  rfl

/-- What is found under a name is an entry. -/
theorem mem_entries_of_get? (h : d.get? key = some value) : (key, value) ∈ d.entries := by
  obtain ⟨es⟩ := d
  unfold get? at h
  induction es with
  | nil => cases h
  | cons entry es ih =>
    obtain ⟨k, v⟩ := entry
    rw [List.lookup_cons] at h
    by_cases hk : key = k
    · subst hk
      simp only [BEq.rfl] at h
      cases h
      exact List.mem_cons_self ..
    · have hb : (key == k) = false := by simpa using hk
      rw [hb] at h
      exact List.mem_cons_of_mem _ (ih h)

/-- Where no name comes twice, an entry is what is found under its name. -/
theorem get?_of_mem_entries (hnodup : d.keys.Nodup) (h : (key, value) ∈ d.entries) :
    d.get? key = some value := by
  obtain ⟨es⟩ := d
  unfold keys at hnodup
  unfold get?
  induction es with
  | nil => cases h
  | cons entry es ih =>
    obtain ⟨k, v⟩ := entry
    rw [List.map_cons, List.nodup_cons] at hnodup
    rcases List.mem_cons.mp h with heq | hmem
    · cases heq
      simp
    · have hk : key ≠ k := fun heq => hnodup.1 (heq ▸ List.mem_map.mpr ⟨_, hmem, rfl⟩)
      have hb : (key == k) = false := by simpa using hk
      rw [List.lookup_cons, hb]
      exact ih hnodup.2 hmem

end Dictionary

/-- A symbol that is found among the nodes is the one of its reference. -/
theorem Graph.symbol_of_getElem? {g : Graph} {index : Nat} {symbol : Symbol}
    (h : g.nodes[index]? = some symbol) : g.symbol (.node index) = symbol := by
  rw [Graph.symbol, Array.getD_eq_getD_getElem?, h, Option.getD_some]

/-- An implicit symbol that is still open gets its reference. -/
theorem Graph.resolve_open {g : Graph} {index : Nat} {name : Name} (target : Ref)
    (h : g.nodes[index]? = some ⟨name, .implicit none⟩) :
    g.resolve (.node index) target =
      .ok ⟨g.nodes.setIfInBounds index ⟨name, .implicit (some target)⟩⟩ := by
  simp only [resolve, symbol_of_getElem? h]
  rfl

theorem getElem?_push_eq_some {β : Type} {xs : Array β} {a b : β} {i : Nat} :
    (xs.push a)[i]? = some b ↔ xs[i]? = some b ∨ i = xs.size ∧ a = b := by
  rw [Array.getElem?_push]
  by_cases hi : i = xs.size
  · subst hi
    simp
  · simp [hi]

namespace Notation

/-! ### Sound drafts -/

/-- A name that a rule can have begins with a letter, and so with no underscore. -/
theorem isAnonymous_of_isID {name : String} (h : isID name = true) :
    (Name.given name).isAnonymous = false := by
  show (name.toList.head? == some '_') = false
  unfold isID at h
  split at h
  · cases h
  · rename_i first rest hlist
    rw [Bool.and_eq_true] at h
    rw [hlist, List.head?_cons]
    refine beq_eq_false_iff_ne.mpr fun heq => ?_
    cases heq
    exact absurd h.1 (by decide)

/-- The name of a symbol says what it is: a nameless part of a rule, a rule, or a stand-in for a
    rule that is defined or still pending. -/
inductive Bears (rules pending : Dictionary Ref) (index : Nat) : Symbol → Prop
  | part {serial : Nat} {shape : Shape} (plain : shape.isGuarded = true) :
      Bears rules pending index ⟨.generated serial, shape⟩
  | rule {name : String} {shape : Shape} (id : isID name = true) (plain : shape.isGuarded = true)
      (defined : rules.get? name = some (.node index)) :
      Bears rules pending index ⟨.given name, shape⟩
  | resolved {name : String} {target : Ref} (id : isID name = true)
      (defined : rules.get? name = some target) :
      Bears rules pending index ⟨.given name, .implicit (some target)⟩
  | standIn {name : String} (id : isID name = true)
      (waiting : pending.get? name = some (.node index)) :
      Bears rules pending index ⟨.given name, .implicit none⟩

namespace Draft

/-- The reference is to a symbol that has been made. -/
def Has (d : Draft) (ref : Ref) : Prop := ∃ i < d.graph.nodes.size, ref = .node i

/-- What holds of a draft at any time. -/
structure Sound (d : Draft) : Prop where
  bears : ∀ (i : Nat) (symbol : Symbol), d.graph.nodes[i]? = some symbol → Bears d.rules d.pending i symbol
  /-- But for stand-ins, symbols are made of earlier ones. -/
  earlier : ∀ (i : Nat) (symbol : Symbol), d.graph.nodes[i]? = some symbol → symbol.shape.isGuarded = true →
    ∀ r ∈ symbol.shape.refs, ∃ j < i, r = .node j
  rule : ∀ name ref, d.rules.get? name = some ref → ∃ (i : Nat) (shape : Shape), ref = .node i ∧
    d.graph.nodes[i]? = some ⟨.given name, shape⟩ ∧ shape.isGuarded = true
  standIn : ∀ name ref, d.pending.get? name = some ref → d.rules.get? name = none ∧
    ∃ i : Nat, ref = .node i ∧ d.graph.nodes[i]? = some ⟨.given name, .implicit none⟩
  nodup : d.rules.keys.Nodup

/-- More symbols were made, and no rule was defined. -/
structure Grows (d d' : Draft) : Prop where
  node : ∀ (i : Nat) (symbol : Symbol), d.graph.nodes[i]? = some symbol → d'.graph.nodes[i]? = some symbol
  rules : d'.rules = d.rules

variable {d d' d'' : Draft} {ref : Ref} {name : String} {shape : Shape}

theorem sound_empty : empty.Sound where
  bears := by simp [empty, Graph.empty]
  earlier := by simp [empty, Graph.empty]
  rule := by simp [empty]
  standIn := by simp [empty]
  nodup := List.nodup_nil

theorem Grows.refl (d : Draft) : d.Grows d := ⟨fun _ _ h => h, rfl⟩

theorem Grows.trans (h : d.Grows d') (h' : d'.Grows d'') : d.Grows d'' :=
  ⟨fun i symbol hi => h'.node i symbol (h.node i symbol hi), h'.rules.trans h.rules⟩

theorem Grows.has (h : d.Grows d') (href : d.Has ref) : d'.Has ref := by
  obtain ⟨i, hi, rfl⟩ := href
  have hnode := h.node i _ (Array.getElem?_eq_getElem hi)
  exact ⟨i, (Array.getElem?_eq_some_iff.mp hnode).1, rfl⟩

theorem Sound.has_of_rule (h : d.Sound) (hrule : d.rules.get? name = some ref) : d.Has ref := by
  obtain ⟨i, shape, rfl, hi, -⟩ := h.rule name ref hrule
  exact ⟨i, (Array.getElem?_eq_some_iff.mp hi).1, rfl⟩

theorem Sound.has_of_standIn (h : d.Sound) (hstandIn : d.pending.get? name = some ref) :
    d.Has ref := by
  obtain ⟨-, i, rfl, hi⟩ := h.standIn name ref hstandIn
  exact ⟨i, (Array.getElem?_eq_some_iff.mp hi).1, rfl⟩

/-- A symbol without a name is made of symbols, and is no stand-in. -/
theorem Sound.plain (h : d.Sound) {i : Nat} {symbol : Symbol}
    (hi : d.graph.nodes[i]? = some symbol) (hname : symbol.name.isAnonymous = true) :
    symbol.shape.isGuarded = true := by
  cases h.bears i symbol hi with
  | part plain => exact plain
  | rule _ plain _ => exact plain
  | resolved id _ => rw [isAnonymous_of_isID id] at hname; cases hname
  | standIn id _ => rw [isAnonymous_of_isID id] at hname; cases hname

/-! ### Making symbols -/

theorem add_eq (d : Draft) (shape : Shape) :
    d.add shape = (.node d.graph.nodes.size,
      { d with graph := ⟨d.graph.nodes.push ⟨.generated d.graph.nodes.size, shape⟩⟩ }) := rfl

/-- A draft after a step: sound, with all that it had before, and with something new. -/
structure Gives (d : Draft) (ref : Ref) (d' : Draft) : Prop where
  sound : d'.Sound
  grows : d.Grows d'
  has : d'.Has ref

theorem Sound.add (h : d.Sound) (shape : Shape) (hplain : shape.isGuarded = true)
    (hrefs : ∀ r ∈ shape.refs, d.Has r) : d.Gives (d.add shape).1 (d.add shape).2 := by
  rw [add_eq]
  have hgrows : d.Grows { d with graph :=
      ⟨d.graph.nodes.push ⟨.generated d.graph.nodes.size, shape⟩⟩ } :=
    ⟨fun i symbol hi => getElem?_push_eq_some.mpr (.inl hi), rfl⟩
  refine ⟨⟨?bears, ?earlier, ?rule, ?standIn, h.nodup⟩, hgrows, ⟨_, by simp, rfl⟩⟩
  case bears =>
    intro i symbol hi
    rcases getElem?_push_eq_some.mp hi with hi | ⟨rfl, rfl⟩
    · exact h.bears i symbol hi
    · exact .part hplain
  case earlier =>
    intro i symbol hi hguarded r hr
    rcases getElem?_push_eq_some.mp hi with hi | ⟨rfl, rfl⟩
    · exact h.earlier i symbol hi hguarded r hr
    · exact hrefs r hr
  case rule =>
    intro name ref hrule
    obtain ⟨i, shape, rfl, hi, hguarded⟩ := h.rule name ref hrule
    exact ⟨i, shape, rfl, hgrows.node i _ hi, hguarded⟩
  case standIn =>
    intro name ref hstandIn
    obtain ⟨hrule, i, rfl, hi⟩ := h.standIn name ref hstandIn
    exact ⟨hrule, i, rfl, hgrows.node i _ hi⟩

theorem Sound.addRepeated (h : d.Sound) (href : d.Has ref) (count : Count) :
    d.Gives (d.addRepeated ref count).1 (d.addRepeated ref count).2 := by
  cases count with
  | oneOrMore => exact h.add _ rfl (by simpa [Shape.refs] using href)
  | optional => exact h.add _ rfl (by simpa [Shape.refs] using href)
  | noneOrMore =>
    -- The repetitions come first, and then the symbol that they are the work of.
    obtain ⟨hsound, hgrows, hhas⟩ := h.add (.multiple ref) rfl (by simpa [Shape.refs])
    have hstar := hsound.add (.star (d.add (.multiple ref)).1) rfl
      (by simpa [Shape.refs] using hhas)
    exact ⟨hstar.sound, hgrows.trans hstar.grows, hstar.has⟩

theorem reference_rule (h : d.rules.get? name = some ref) : d.reference name = (ref, d) := by
  rw [reference, h]

theorem reference_standIn (hrule : d.rules.get? name = none)
    (h : d.pending.get? name = some ref) : d.reference name = (ref, d) := by
  rw [reference, hrule, h]

theorem reference_new (hrule : d.rules.get? name = none) (hpending : d.pending.get? name = none) :
    d.reference name = (.node d.graph.nodes.size,
      { graph := ⟨d.graph.nodes.push ⟨.given name, .implicit none⟩⟩, rules := d.rules,
        pending := d.pending.insert name (.node d.graph.nodes.size) }) := by
  rw [reference, hrule, hpending]
  rfl

theorem Sound.reference (h : d.Sound) (hname : isID name = true) :
    d.Gives (d.reference name).1 (d.reference name).2 := by
  cases hrule : d.rules.get? name with
  | some ref =>
    rw [reference_rule hrule]
    exact ⟨h, .refl d, h.has_of_rule hrule⟩
  | none =>
    cases hpending : d.pending.get? name with
    | some ref =>
      rw [reference_standIn hrule hpending]
      exact ⟨h, .refl d, h.has_of_standIn hpending⟩
    | none =>
      rw [reference_new hrule hpending]
      refine ⟨⟨?bears, ?earlier, ?rule, ?standIn, h.nodup⟩,
        ⟨fun i symbol hi => getElem?_push_eq_some.mpr (.inl hi), rfl⟩, ⟨_, by simp, rfl⟩⟩
      case bears =>
        intro i symbol hi
        rcases getElem?_push_eq_some.mp hi with hi | ⟨rfl, rfl⟩
        · cases h.bears i symbol hi with
          | part plain => exact .part plain
          | rule id plain defined => exact .rule id plain defined
          | resolved id defined => exact .resolved id defined
          | @standIn name' id waiting =>
            -- The other stand-ins are for other names.
            have hne : name' ≠ name := fun heq => by rw [heq, hpending] at waiting; cases waiting
            exact .standIn id (by rw [Dictionary.get?_insert, if_neg hne, waiting])
        · exact .standIn hname (by rw [Dictionary.get?_insert, if_pos rfl])
      case earlier =>
        intro i symbol hi hguarded r hr
        rcases getElem?_push_eq_some.mp hi with hi | ⟨rfl, rfl⟩
        · exact h.earlier i symbol hi hguarded r hr
        · cases hguarded
      case rule =>
        intro name' ref hrule'
        obtain ⟨i, shape, rfl, hi, hguarded⟩ := h.rule name' ref hrule'
        exact ⟨i, shape, rfl, getElem?_push_eq_some.mpr (.inl hi), hguarded⟩
      case standIn =>
        intro name' ref hstandIn
        rw [Dictionary.get?_insert] at hstandIn
        split at hstandIn
        · rename_i heq
          subst heq
          cases hstandIn
          exact ⟨hrule, _, rfl, getElem?_push_eq_some.mpr (.inr ⟨rfl, rfl⟩)⟩
        · obtain ⟨hrule', i, rfl, hi⟩ := h.standIn name' ref hstandIn
          exact ⟨hrule', i, rfl, getElem?_push_eq_some.mpr (.inl hi)⟩

/-! ### Defining rules -/

/-- A symbol after a rule was defined: a stand-in for it has got its reference. -/
def fillIn (name : String) (target : Ref) (symbol : Symbol) : Symbol :=
  if symbol = ⟨.given name, .implicit none⟩ then ⟨.given name, .implicit (some target)⟩ else symbol

/-- What the definition of a rule comes to. -/
structure Defines (d : Draft) (name : String) (shape : Shape) (d' : Draft) : Prop where
  old : ∀ (i : Nat) (symbol : Symbol), d.graph.nodes[i]? = some symbol →
    d'.graph.nodes[i]? = some (fillIn name (.node d.graph.nodes.size) symbol)
  new : d'.graph.nodes[d.graph.nodes.size]? = some ⟨.given name, shape⟩
  size_eq : d'.graph.nodes.size = d.graph.nodes.size + 1
  rules : d'.rules = d.rules.insert name (.node d.graph.nodes.size)
  pending : ∀ name', d'.pending.get? name' = if name' = name then none else d.pending.get? name'

theorem fillIn_eq_self {target : Ref} {symbol : Symbol}
    (h : symbol ≠ ⟨.given name, .implicit none⟩) : fillIn name target symbol = symbol := if_neg h

/-- Defining a rule never fails in a sound draft: a stand-in that is pending is still open. -/
theorem Sound.define (h : d.Sound) (name : String) {i : Nat} {symbol : Symbol}
    (hbody : d.graph.nodes[i]? = some symbol) :
    ∃ d', d.define name (.node i) = .ok (.node d.graph.nodes.size, d') ∧
      d.Defines name symbol.shape d' := by
  rw [define_eq, Graph.symbol_of_getElem? hbody]
  cases hpending : d.pending.get? name with
  | none =>
    refine ⟨_, rfl, ⟨?_, by simp, by simp, rfl, ?_⟩⟩
    · intro j old hj
      -- A node that stands for the name would be pending.
      have hne : old ≠ ⟨.given name, .implicit none⟩ := by
        rintro rfl
        cases h.bears j _ hj with
        | rule _ plain _ => cases plain
        | standIn _ waiting => rw [hpending] at waiting; cases waiting
      rw [fillIn_eq_self hne]
      exact getElem?_push_eq_some.mpr (.inl hj)
    · intro name'
      by_cases hname : name' = name
      · rw [if_pos hname, hname, hpending]
      · rw [if_neg hname]
  | some standIn =>
    obtain ⟨-, k, rfl, hk⟩ := h.standIn name standIn hpending
    have hlt : k < d.graph.nodes.size := (Array.getElem?_eq_some_iff.mp hk).1
    have hpush : (d.graph.nodes.push ⟨.given name, symbol.shape⟩)[k]? =
        some ⟨.given name, .implicit none⟩ := getElem?_push_eq_some.mpr (.inl hk)
    have hresolve := Graph.resolve_open (g := ⟨d.graph.nodes.push ⟨.given name, symbol.shape⟩⟩)
      (.node d.graph.nodes.size) hpush
    refine ⟨_, congrArg (Except.map _) hresolve, ⟨?_, ?_, by simp, rfl, fun name' => Dictionary.get?_erase ..⟩⟩
    · intro j old hj
      have hjlt : j < d.graph.nodes.size := (Array.getElem?_eq_some_iff.mp hj).1
      by_cases hjk : j = k
      · subst hjk
        rw [hk] at hj
        cases hj
        simp [fillIn, Nat.lt_succ_of_lt hjlt]
      · -- Only one node stands for the name.
        have hne : old ≠ ⟨.given name, .implicit none⟩ := by
          rintro rfl
          cases h.bears j _ hj with
          | rule _ plain _ => cases plain
          | standIn _ waiting =>
            rw [hpending] at waiting
            cases waiting
            exact hjk rfl
        rw [fillIn_eq_self hne]
        simp only [Array.getElem?_setIfInBounds, if_neg (Ne.symm hjk)]
        exact getElem?_push_eq_some.mpr (.inl hj)
    · simp only [Array.getElem?_setIfInBounds, if_neg (Nat.ne_of_lt hlt)]
      exact getElem?_push_eq_some.mpr (.inr ⟨rfl, rfl⟩)

/-- A node after the definition of a rule is the new one or an old one. -/
theorem Defines.cases (h : d.Defines name shape d') {i : Nat} {symbol : Symbol}
    (hi : d'.graph.nodes[i]? = some symbol) :
    i = d.graph.nodes.size ∧ symbol = ⟨.given name, shape⟩ ∨
      ∃ old, d.graph.nodes[i]? = some old ∧
        symbol = fillIn name (.node d.graph.nodes.size) old := by
  have hlt := (Array.getElem?_eq_some_iff.mp hi).1
  rw [h.size_eq] at hlt
  rcases Nat.lt_succ_iff_lt_or_eq.mp hlt with hlt | rfl
  · have hold := h.old i _ (Array.getElem?_eq_getElem hlt)
    rw [hi] at hold
    exact .inr ⟨_, Array.getElem?_eq_getElem hlt, Option.some.inj hold⟩
  · have hnew := h.new
    rw [hi] at hnew
    exact .inl ⟨rfl, Option.some.inj hnew⟩

/-- Filling in leaves all symbols but stand-ins as they are. -/
theorem fillIn_of_guarded (target : Ref) {symbol : Symbol}
    (h : (fillIn name target symbol).shape.isGuarded = true) :
    fillIn name target symbol = symbol := by
  refine fillIn_eq_self ?_
  rintro rfl
  simp [fillIn, Shape.isGuarded] at h

theorem Defines.sound (h : d.Sound) (hdefines : d.Defines name shape d') (hname : isID name = true)
    (hnew : d.rules.get? name = none) (hplain : shape.isGuarded = true)
    (hrefs : ∀ r ∈ shape.refs, ∃ j < d.graph.nodes.size, r = .node j) : d'.Sound := by
  have hrules : ∀ name' ref, d.rules.get? name' = some ref → d'.rules.get? name' = some ref := by
    intro name' ref hrule
    have hne : name' ≠ name := fun heq => by rw [heq, hnew] at hrule; cases hrule
    rw [hdefines.rules, Dictionary.get?_insert, if_neg hne, hrule]
  have hnamed : d'.rules.get? name = some (.node d.graph.nodes.size) := by
    rw [hdefines.rules, Dictionary.get?_insert, if_pos rfl]
  refine ⟨?bears, ?earlier, ?rule, ?standIn, ?nodup⟩
  case bears =>
    intro i symbol hi
    rcases hdefines.cases hi with ⟨rfl, rfl⟩ | ⟨old, hold, rfl⟩
    · exact .rule hname hplain hnamed
    · cases h.bears i old hold with
      | part plain =>
        rw [fillIn_eq_self (by simp)]
        exact .part plain
      | rule id plain defined =>
        rw [fillIn_eq_self (by rintro ⟨⟩; cases plain)]
        exact .rule id plain (hrules _ _ defined)
      | resolved id defined =>
        rw [fillIn_eq_self (by simp)]
        exact .resolved id (hrules _ _ defined)
      | @standIn name' id waiting =>
        by_cases heq : name' = name
        · subst heq
          rw [fillIn, if_pos rfl]
          exact .resolved id hnamed
        · rw [fillIn_eq_self (by simpa using heq)]
          exact .standIn id (by rw [hdefines.pending, if_neg heq, waiting])
  case earlier =>
    intro i symbol hi hguarded r hr
    rcases hdefines.cases hi with ⟨rfl, rfl⟩ | ⟨old, hold, rfl⟩
    · exact hrefs r hr
    · have heq := fillIn_of_guarded _ hguarded
      rw [heq] at hguarded hr
      exact h.earlier i old hold hguarded r hr
  case rule =>
    intro name' ref hrule
    rw [hdefines.rules, Dictionary.get?_insert] at hrule
    split at hrule
    · rename_i heq
      subst heq
      cases hrule
      exact ⟨_, shape, rfl, hdefines.new, hplain⟩
    · obtain ⟨i, shape', rfl, hi, hguarded⟩ := h.rule name' ref hrule
      refine ⟨i, shape', rfl, ?_, hguarded⟩
      rw [hdefines.old i _ hi, fillIn_eq_self (by rintro ⟨⟩; cases hguarded)]
  case standIn =>
    intro name' ref hstandIn
    rw [hdefines.pending] at hstandIn
    split at hstandIn
    · cases hstandIn
    · rename_i hne
      obtain ⟨hrule, i, rfl, hi⟩ := h.standIn name' ref hstandIn
      refine ⟨by rw [hdefines.rules, Dictionary.get?_insert, if_neg hne, hrule], i, rfl, ?_⟩
      rw [hdefines.old i _ hi, fillIn_eq_self (by simpa using hne)]
  case nodup =>
    rw [hdefines.rules, Dictionary.keys_insert hnew]
    refine List.nodup_append.mpr ⟨h.nodup, List.pairwise_singleton _ name, ?_⟩
    rintro a ha _ hb rfl
    rw [List.mem_singleton] at hb
    exact Dictionary.get?_eq_none.mp hnew (hb ▸ ha)

end Draft

/-! ### Building -/

/-- A step that has a good result or refuses the text. -/
def Builds {β : Type} (x : Except Error β) (good : β → Prop) : Prop :=
  match x with
  | .ok b => good b
  | .error e => ∃ cause, e = .parse cause

namespace Builds

variable {β γ : Type} {x : Except Error β} {good good' : β → Prop}

theorem elim (h : Builds x good) :
    (∃ b, x = .ok b ∧ good b) ∨ ∃ cause, x = .error (.parse cause) := by
  unfold Builds at h
  split at h
  · exact .inl ⟨_, rfl, h⟩
  · obtain ⟨cause, rfl⟩ := h
    exact .inr ⟨cause, rfl⟩

theorem mono (h : Builds x good) (himp : ∀ b, good b → good' b) : Builds x good' := by
  rcases h.elim with ⟨b, rfl, hb⟩ | ⟨cause, rfl⟩
  · exact himp b hb
  · exact ⟨cause, rfl⟩

theorem bind {f : β → Except Error γ} {good' : γ → Prop} (h : Builds x good)
    (hf : ∀ b, good b → Builds (f b) good') : Builds (x >>= f) good' := by
  rcases h.elim with ⟨b, rfl, hb⟩ | ⟨cause, rfl⟩
  · exact hf b hb
  · exact ⟨cause, rfl⟩

end Builds

mutual

/-- The symbols for an expression. -/
theorem Expr.build_sound (e : Expr (Except ParseError Literal)) {d : Draft} (h : d.Sound)
    (hnamed : ∀ name ∈ e.names, isID name = true) :
    Builds (e.build d) fun found => d.Gives found.1 found.2 := by
  match e with
  | .reference name =>
    rw [Expr.build]
    exact h.reference (hnamed name (List.mem_singleton_self name))
  | .literal (.ok value) =>
    rw [Expr.build]
    exact h.add _ (by cases value <;> rfl) (by cases value <;> simp [Literal.shape, Shape.refs])
  | .literal (.error cause) =>
    rw [Expr.build]
    exact ⟨cause, rfl⟩
  | .repeated count inner =>
    rw [Expr.build]
    refine (inner.build_sound h hnamed).bind fun found hfound => ?_
    have hcount := hfound.sound.addRepeated hfound.has count
    exact ⟨hcount.sound, hfound.grows.trans hcount.grows, hcount.has⟩
  | .sequence members =>
    rw [Expr.build]
    refine (Expr.buildAll_sound members h hnamed).bind fun found hfound => ?_
    have hadd := hfound.1.add (.sequence found.1) rfl hfound.2.2
    exact ⟨hadd.sound, hfound.2.1.trans hadd.grows, hadd.has⟩
  | .choice members =>
    rw [Expr.build]
    refine (Expr.buildAll_sound members h hnamed).bind fun found hfound => ?_
    have hadd := hfound.1.add (.junction found.1) rfl hfound.2.2
    exact ⟨hadd.sound, hfound.2.1.trans hadd.grows, hadd.has⟩

/-- The symbols for some expressions. -/
theorem Expr.buildAll_sound (es : List (Expr (Except ParseError Literal))) {d : Draft}
    (h : d.Sound) (hnamed : ∀ name ∈ Expr.namesAll es, isID name = true) :
    Builds (Expr.buildAll es d) fun found =>
      found.2.Sound ∧ d.Grows found.2 ∧ ∀ r ∈ found.1, found.2.Has r := by
  match es with
  | [] => exact ⟨h, .refl d, by simp⟩
  | e :: es =>
    rw [Expr.namesAll, List.forall_mem_append] at hnamed
    rw [Expr.buildAll]
    refine (e.build_sound h hnamed.1).bind fun first hfirst => ?_
    refine (Expr.buildAll_sound es hfirst.sound hnamed.2).bind fun rest hrest => ?_
    obtain ⟨hsound, hgrows, hhas⟩ := hrest
    exact ⟨hsound, hfirst.grows.trans hgrows,
      List.forall_mem_cons.mpr ⟨hgrows.has hfirst.has, hhas⟩⟩

end

/-- The symbols for a rule, which is put behind the other rules. -/
theorem RuleText.build_sound (r : RuleText) {d : Draft} (h : d.Sound) (hnamed : r.IsNamed) :
    Builds (r.build d) fun found =>
      found.2.Sound ∧ found.2.rules.keys = d.rules.keys ++ [r.name] := by
  unfold build
  refine (r.body.build_sound h hnamed.body).bind fun found hfound => ?_
  obtain ⟨ref, d'⟩ := found
  obtain ⟨hsound, hgrows, i, hi, rfl⟩ := hfound
  simp only
  split
  · exact ⟨_, rfl⟩
  · rename_i hcontains
    split
    · exact ⟨_, rfl⟩
    · rename_i hanonymous
      have hbody : d'.graph.nodes[i]? = some d'.graph.nodes[i] := Array.getElem?_eq_getElem hi
      rw [Graph.symbol_of_getElem? hbody, Bool.not_eq_true', Bool.not_eq_false] at hanonymous
      have hnew : d'.rules.get? r.name = none := by
        simpa [Dictionary.contains] using hcontains
      have hplain := hsound.plain hbody hanonymous
      obtain ⟨d'', hdefine, hdefines⟩ := hsound.define r.name hbody
      simp only [hdefine]
      refine ⟨hdefines.sound hsound hnamed.name hnew hplain fun ref href => ?_, ?_⟩
      · obtain ⟨j, hj, rfl⟩ := hsound.earlier i _ hbody hplain ref href
        exact ⟨j, Nat.lt_trans hj hi, rfl⟩
      · rw [hdefines.rules, Dictionary.keys_insert hnew, hgrows.rules]

/-- The symbols for some rules. -/
theorem buildRules_sound (rs : List RuleText) {d : Draft} (h : d.Sound)
    (hnamed : ∀ r ∈ rs, r.IsNamed) :
    Builds (buildRules rs d) fun d' =>
      d'.Sound ∧ d'.rules.keys = d.rules.keys ++ rs.map RuleText.name := by
  induction rs generalizing d with
  | nil => exact ⟨h, by simp⟩
  | cons r rs ih =>
    rw [List.forall_mem_cons] at hnamed
    rw [buildRules]
    refine (r.build_sound h hnamed.1).bind fun found hfound => ?_
    refine (ih hfound.1 hnamed.2).mono fun d' hd' => ⟨hd'.1, ?_⟩
    rw [hd'.2, hfound.2, List.map_cons, List.append_assoc, List.singleton_append]

end Notation

end GrammarEngine
