import GrammarEngine.Proofs.RoundTrip
import Mathlib.Data.List.Forall2

namespace GrammarEngine

/-!
# Trees that symbols make

What the tree of a symbol looks like, read off the shape of the symbol: one lemma for each shape,
which gives the token and leaves its children to the symbols that the shape is made of. That is
all that the listeners of a grammar can go by.

* `Made` — a symbol made a tree somewhere in a text;
* `Made.sequence`, `Made.junction`, `Made.multiple`, `Made.option`, `Made.star`,
  `Made.switch`, `Made.character`, `Made.literal` — the tree by the shape of the symbol;
* `Made.implicit` — the tree of an implicit symbol is one of the symbol it refers to;
* `Made.spelt` — where nothing is skipped, a tree has the text of its leaves.
-/

variable {α : Type} {g : Graph} {text : List Char} {skip ref : Ref} {name : Name} {t : Token α}

/-- The symbol made the tree somewhere in the text, with the skip symbol in force around it. -/
def Made (g : Graph) (text : List Char) (skip ref : Ref) (t : Token α) : Prop :=
  ∃ guard p stop reach, p ≤ text.length ∧ Yields g text ref skip guard p (some (t, stop)) reach

/-- A token with one child that covers the same text, under an ordinal. -/
def Token.over (kind : Kind) (name : Name) (ordinal : Nat) (t : Token α) : Token α :=
  .node ⟨kind, name, t.substring, t.start, ordinal⟩ [t] none

/-! ### The loops -/

/-- The members of a sequence made its children. -/
theorem MembersYield.made {guard : Guard} {first : Bool} {p stop stop' reach : Nat}
    {members : List Ref} {tokens : List (Token α)}
    (h : MembersYield g text skip guard first p stop members (some (stop', tokens)) reach)
    (hp : p ≤ text.length) : List.Forall₂ (Made g text skip) members tokens := by
  induction members generalizing first p stop tokens reach with
  | nil =>
    cases h
    exact .nil
  | cons member members ih =>
    cases h with
    | cons skipped matched later =>
      have hq := skipped.le.2 hp
      have hr := matched.advances.2.1 hq
      exact .cons ⟨guard, _, _, _, hq, matched⟩ (ih later hr)

/-- One of the alternatives made the token of a choice. -/
theorem AlternativesYield.made {guard : Guard} {p ordinal found stop reach : Nat}
    {members : List Ref} {token : Token α}
    (h : AlternativesYield g text skip guard p ordinal members (some (found, token, stop)) reach)
    (hp : p ≤ text.length) :
    ∃ index member, found = ordinal + index ∧ members[index]? = some member ∧
      Made g text skip member token := by
  induction members generalizing ordinal reach with
  | nil => cases h
  | cons member members ih =>
    have hlater : ∀ reach', AlternativesYield g text skip guard p (ordinal + 1) members
        (some (found, token, stop)) reach' →
        ∃ index m, found = ordinal + index ∧ (member :: members)[index]? = some m ∧
          Made g text skip m token := by
      intro reach' later
      obtain ⟨index, m, hfound, hm, hmade⟩ := ih later
      refine ⟨index + 1, m, by omega, ?_, hmade⟩
      rw [List.getElem?_cons_succ]
      exact hm
    cases h with
    | inProgress mem later => exact hlater _ later
    | matched fresh matched =>
      exact ⟨0, member, rfl, rfl, guard, p, stop, _, hp, matched⟩
    | failed fresh failed later => exact hlater _ later

/-- The inner symbol of a repetition made all its children. -/
theorem RoundsYield.made {guard : Guard} {inner : Ref} {first afterEmpty : Bool}
    {p stop reach : Nat} {result : Nat × List (Token α)}
    (h : RoundsYield g text skip guard inner first p stop afterEmpty result reach)
    (hp : p ≤ text.length) : ∀ token ∈ result.2, Made g text skip inner token := by
  match h with
  | .fails .. => simp
  | .secondEmpty .. => simp
  | .empty skipped matched isEmpty later =>
    have hq := skipped.le.2 hp
    have hr := matched.advances.2.1 hq
    exact List.forall_mem_cons.mpr ⟨⟨guard, _, _, _, hq, matched⟩, later.made hr⟩
  | .covers skipped matched covered later =>
    have hq := skipped.le.2 hp
    have hr := matched.advances.2.1 hq
    exact List.forall_mem_cons.mpr ⟨⟨guard, _, _, _, hq, matched⟩, later.made hr⟩

/-! ### Symbols -/

namespace Made

/-- The tree of an implicit symbol is one of the symbol that it refers to. -/
theorem implicit {target : Ref} (h : Made g text skip ref t)
    (hsymbol : g.symbol ref = ⟨name, .implicit (some target)⟩) : Made g text skip target t := by
  obtain ⟨guard, p, stop, reach, hp, hrule⟩ := h
  cases hrule with
  | zeroLength shape => simp [hsymbol] at shape
  | implicit shape rule =>
    simp only [hsymbol, Shape.implicit.injEq, Option.some.injEq] at shape
    subst shape
    exact ⟨guard, p, stop, reach, hp, rule⟩
  | enter guarded => simp [hsymbol, Shape.isGuarded] at guarded

/-- The tree of another symbol is one of its shape. -/
theorem body {shape : Shape} (h : Made g text skip ref t) (hsymbol : g.symbol ref = ⟨name, shape⟩)
    (hguarded : shape.isGuarded = true) :
    ∃ guard p stop reach, p ≤ text.length ∧
      ShapeYields g text shape name (skipInside name skip) guard p (some (t, stop)) reach := by
  obtain ⟨guard, p, stop, reach, hp, hrule⟩ := h
  cases hrule with
  | zeroLength shape =>
    rw [hsymbol] at shape
    obtain rfl := shape
    cases hguarded
  | implicit shape =>
    rw [hsymbol] at shape
    obtain rfl := shape
    cases hguarded
  | enter guarded fresh body =>
    rw [hsymbol] at body
    exact ⟨_, p, stop, reach, hp, body⟩

/-- A sequence has a child for each member. -/
theorem sequence {members : List Ref} (h : Made g text skip ref t)
    (hsymbol : g.symbol ref = ⟨name, .sequence members⟩) :
    ∃ substring start children,
      t = .node { kind := .sequence, name, substring, start, ordinal := 0 } children none ∧
        List.Forall₂ (Made g text (skipInside name skip)) members children := by
  obtain ⟨guard, p, stop, reach, hp, hshape⟩ := h.body hsymbol rfl
  cases hshape with
  | leaf read => cases read
  | sequence all => exact ⟨_, _, _, rfl, all.made hp⟩

/-- A choice has one child, and the ordinal says which alternative made it. -/
theorem junction {members : List Ref} (h : Made g text skip ref t)
    (hsymbol : g.symbol ref = ⟨name, .junction members⟩) :
    ∃ ordinal member child, t = .over .junction name ordinal child ∧
      members[ordinal]? = some member ∧ Made g text (skipInside name skip) member child := by
  obtain ⟨guard, p, stop, reach, hp, hshape⟩ := h.body hsymbol rfl
  cases hshape with
  | leaf read => cases read
  | junction first =>
    obtain ⟨index, member, rfl, hmember, hmade⟩ := first.made hp
    rw [Nat.zero_add]
    exact ⟨index, member, _, rfl, hmember, hmade⟩

/-- A repetition has at least one child. -/
theorem multiple {inner : Ref} (h : Made g text skip ref t)
    (hsymbol : g.symbol ref = ⟨name, .multiple inner⟩) :
    ∃ substring start children,
      t = .node { kind := .multiple, name, substring, start, ordinal := 0 } children none ∧
        children ≠ [] ∧ ∀ child ∈ children, Made g text (skipInside name skip) inner child := by
  obtain ⟨guard, p, stop, reach, hp, hshape⟩ := h.body hsymbol rfl
  cases hshape with
  | leaf read => cases read
  | multiple rounds found => exact ⟨_, _, _, rfl, found, rounds.made hp⟩

/-- An option has a child or none. -/
theorem option {inner : Ref} (h : Made g text skip ref t)
    (hsymbol : g.symbol ref = ⟨name, .option inner⟩) :
    (∃ start, t = .leaf .option name "" start 0) ∨
      ∃ child, t = .over .option name 0 child ∧ Made g text (skipInside name skip) inner child := by
  obtain ⟨guard, p, stop, reach, hp, hshape⟩ := h.body hsymbol rfl
  cases hshape with
  | leaf read => cases read
  | option present => exact .inr ⟨_, rfl, _, p, stop, _, hp, present⟩
  | optionAbsent absent => exact .inl ⟨_, rfl⟩

/-- A repetition that may be empty has some children or none. -/
theorem star {repetition inner : Ref} {serial : Nat} (h : Made g text skip ref t)
    (hsymbol : g.symbol ref = ⟨name, .star repetition⟩)
    (hrepetition : g.symbol repetition = ⟨.generated serial, .multiple inner⟩) :
    (∃ start, t = .leaf .star name "" start 0) ∨
      ∃ substring start children,
        t = .node { kind := .star, name, substring, start, ordinal := 0 } children none ∧
          children ≠ [] ∧ ∀ child ∈ children, Made g text (skipInside name skip) inner child := by
  obtain ⟨guard, p, stop, reach, hp, hshape⟩ := h.body hsymbol rfl
  cases hshape with
  | leaf read => cases read
  | star present =>
    obtain ⟨_, _, children, rfl, hne, hchildren⟩ :=
      multiple ⟨_, p, stop, _, hp, present⟩ hrepetition
    exact .inr ⟨_, _, children, rfl, hne, hchildren⟩
  | starAbsent absent => exact .inl ⟨_, rfl⟩

/-- A character of a class, and which of its ranges the character is in. -/
theorem switch {ranges : CharClass} (h : Made g text skip ref t)
    (hsymbol : g.symbol ref = ⟨name, .switch ranges⟩) :
    ∃ c start ordinal, ranges.find? c.toNat = some ordinal ∧
      t = .leaf .switch name (.singleton c) start ordinal := by
  obtain ⟨guard, p, stop, reach, hp, hshape⟩ := h.body hsymbol rfl
  cases hshape with
  | leaf read =>
    simp only [readLeaf, Option.some.injEq, Prod.mk.injEq] at read
    obtain ⟨c, ordinal, -, hfind, htoken, -⟩ := eq_of_readClass read.1
    exact ⟨c, p, ordinal, hfind, htoken⟩

/-- A particular character. -/
theorem character {literal : Char} (h : Made g text skip ref t)
    (hsymbol : g.symbol ref = ⟨name, .character literal⟩) :
    ∃ start, t = .leaf .character name (.singleton literal) start 0 := by
  obtain ⟨guard, p, stop, reach, hp, hshape⟩ := h.body hsymbol rfl
  cases hshape with
  | leaf read =>
    simp only [readLeaf, Option.some.injEq, Prod.mk.injEq] at read
    have hread := read.1
    unfold readCharacter at hread
    split at hread
    · cases hread
      exact ⟨p, rfl⟩
    · cases hread

/-- A particular text. -/
theorem literal {literal : String} (h : Made g text skip ref t)
    (hsymbol : g.symbol ref = ⟨name, .text literal⟩) :
    ∃ start, t = .leaf .text name literal start 0 := by
  obtain ⟨guard, p, stop, reach, hp, hshape⟩ := h.body hsymbol rfl
  cases hshape with
  | leaf read =>
    simp only [readLeaf, Option.some.injEq, Prod.mk.injEq] at read
    have hread := read.1
    unfold readText at hread
    split at hread
    · cases hread
      exact ⟨p, rfl⟩
    · cases hread

/-- Where nothing is skipped, a tree has the text of its leaves. -/
theorem spelt {part : Finset Ref} (h : Made g text skip ref t) (hsolid : g.IsSolid part)
    (href : ref ∈ part) (hskip : skipInside t.name skip = .zeroLength) :
    t.substring = .join (t.leaves.map Token.substring) := by
  obtain ⟨guard, p, stop, reach, hp, hrule⟩ := h
  obtain ⟨hspans, htrip⟩ := hrule.roundTrip hsolid href hp _ rfl
  have hwoven := (htrip skip t .self).woven hspans
  rw [hskip] at hwoven
  rw [hspans.substring_eq, hwoven.spells_of_zeroLength, Token.join_tips]

end Made

end GrammarEngine
