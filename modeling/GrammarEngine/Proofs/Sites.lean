import GrammarEngine.Proofs.Correctness
import GrammarEngine.Proofs.Parsing

namespace GrammarEngine

/-!
# Where trees are made

Where a symbol made a tree, with nobody in its way, the symbols that it is made of made the parts of
the tree, with nobody in their way either, from one place to the next. And whatever a symbol gives
at such a place, that is the tree.

* `MadeFrom`, `FailsFrom`, `SkipsFrom` — a symbol made a tree between two places, or failed at one;
  skipping led from one to the other;
* `MadeFrom.sequence`, `MadeFrom.junction` and the like — the parts, by the shape of the symbol;
* `MembersFrom`, `RoundsFrom` — what is left of a sequence or a repetition behind its first part;
* `ChainFrom`, `RunFrom` — the parts where nothing is skipped between them.
-/

section Defs

variable {α : Type} (rank : Name → Nat) (g : Graph) (text : List Char)

/-- The symbol made the tree between two places, with nobody in its way. -/
def MadeFrom (skip ref : Ref) (p : Nat) (t : Token α) (q : Nat) : Prop :=
  p ≤ text.length ∧ ∃ guard reach, Clear rank guard p (rank (g.symbol ref).name + 1) ∧
    Yields g text ref skip guard p (some (t, q)) reach

/-- The symbol failed at the place, with nobody in its way. -/
def FailsFrom (α : Type) (skip ref : Ref) (p : Nat) : Prop :=
  p ≤ text.length ∧ ∃ guard reach, Clear rank guard p (rank (g.symbol ref).name + 1) ∧
    Yields (α := α) g text ref skip guard p none reach

/-- Skipping led from one place to another, with nobody in the way. -/
def SkipsFrom (α : Type) (skip : Ref) (p q : Nat) : Prop :=
  p ≤ text.length ∧ ∃ (answer : Answer α) (guard : Guard) (reach : Nat), Past guard p ∧
    Yields g text skip .zeroLength guard p answer reach ∧ landing p answer = q

/-- What is left of a sequence made these trees, from a place where the last one that covers text
    ended at `stop`. -/
def MembersFrom (skip : Ref) (p stop : Nat) (members : List Ref) (ts : List (Token α)) (q : Nat) :
    Prop :=
  p ≤ text.length ∧ ∃ guard reach, Past guard p ∧
    MembersYield g text skip guard false p stop members (some (q, ts)) reach

/-- What is left of a repetition made these trees, behind one that covers text. -/
def RoundsFrom (skip inner : Ref) (p : Nat) (ts : List (Token α)) (q : Nat) : Prop :=
  p ≤ text.length ∧ ∃ guard reach, Past guard p ∧
    RoundsYield g text skip guard inner false p p false (q, ts) reach

/-- The symbols made the trees, each one where the one before ended. -/
inductive ChainFrom : List Ref → Nat → List (Token α) → Nat → Prop
  | nil {p : Nat} : ChainFrom [] p [] p
  | cons {ref : Ref} {refs : List Ref} {p q r : Nat} {t : Token α} {ts : List (Token α)}
      (first : MadeFrom rank g text .zeroLength ref p t q) (later : ChainFrom refs q ts r) :
      ChainFrom (ref :: refs) p (t :: ts) r

/-- The symbol made the trees, each one where the one before ended. -/
inductive RunFrom (inner : Ref) : Nat → List (Token α) → Nat → Prop
  | nil {p : Nat} : RunFrom inner p [] p
  | cons {p q r : Nat} {t : Token α} {ts : List (Token α)}
      (first : MadeFrom rank g text .zeroLength inner p t q) (later : RunFrom inner q ts r) :
      RunFrom inner p (t :: ts) r

end Defs

variable {α : Type} {rank : Name → Nat} {g : Graph} {text : List Char} {skip inside ref inner : Ref}
  {name : Name} {p q r stop : Nat} {t : Token α} {ts : List (Token α)} {answer : Answer α}
  {members : List Ref}

/-! ### Places -/

theorem MadeFrom.le (h : MadeFrom rank g text skip ref p t q) : p ≤ q ∧ q ≤ text.length := by
  obtain ⟨hp, guard, reach, -, hyields⟩ := h
  exact ⟨hyields.advances.1, hyields.advances.2.1 hp⟩

/-- What a symbol gives where it made a tree is that tree. -/
theorem MadeFrom.unique (h : MadeFrom rank g text skip ref p t q)
    (hgives : Gives rank g text ref skip p answer) : answer = some (t, q) := by
  obtain ⟨hp, guard, reach, hclear, hyields⟩ := h
  obtain ⟨reach', hyields'⟩ := hgives guard hclear
  exact (hyields'.unique hp hyields).1

/-- A symbol that failed gives nothing else. -/
theorem FailsFrom.unique (h : FailsFrom rank g text α skip ref p)
    (hgives : Gives (α := α) rank g text ref skip p answer) : answer = none := by
  obtain ⟨hp, guard, reach, hclear, hyields⟩ := h
  obtain ⟨reach', hyields'⟩ := hgives guard hclear
  exact (hyields'.unique hp hyields).1

theorem SkipsFrom.le (h : SkipsFrom g text α skip p q) : p ≤ q ∧ q ≤ text.length := by
  obtain ⟨hp, answer, guard, reach, -, hyields, rfl⟩ := h
  obtain ⟨hle, hlength⟩ := hyields.advances.landing_between
  exact ⟨hle, hlength hp⟩

theorem SkipsFrom.unique (h : SkipsFrom g text α skip p q) (hskips : Skips g text α skip p r) :
    r = q := by
  obtain ⟨hp, answer, guard, reach, hpast, hyields, rfl⟩ := h
  obtain ⟨answer', reach', hyields', rfl⟩ := hskips guard hpast
  rw [(hyields'.unique hp hyields).1]

theorem SkipsFrom.zeroLength (h : SkipsFrom g text α .zeroLength p q) : q = p :=
  (h.unique (.zeroLength p)).symm

theorem skipsFrom_of_skipYields {guard : Guard} {reach : Nat} (hp : p ≤ text.length)
    (hpast : Past guard p) (h : SkipYields (α := α) g text skip guard false p q reach) :
    SkipsFrom g text α skip p q := by
  cases h with
  | between skipped => exact ⟨hp, _, guard, _, hpast, skipped, rfl⟩

/-! ### What is left of a sequence or a repetition -/

theorem MembersFrom.nil (h : MembersFrom g text skip p stop [] ts q) : ts = [] ∧ q = stop := by
  obtain ⟨hp, guard, reach, -, hmembers⟩ := h
  cases hmembers
  exact ⟨rfl, rfl⟩

theorem MembersFrom.cons {member : Ref} (rank : Name → Nat)
    (h : MembersFrom g text skip p stop (member :: members) ts q) :
    ∃ p' t r ts', ts = t :: ts' ∧ SkipsFrom g text α skip p p' ∧
      MadeFrom rank g text skip member p' t r ∧
      MembersFrom g text skip r (if t.isEmpty then stop else r) members ts' q := by
  obtain ⟨hp, guard, reach, hpast, hmembers⟩ := h
  cases hmembers with
  | cons skipped matched later =>
    have hskips := skipsFrom_of_skipYields hp hpast skipped
    obtain ⟨hle, hp'⟩ := hskips.le
    have hpast' := hpast.mono hle
    exact ⟨_, _, _, _, rfl, hskips, ⟨hp', guard, _, hpast'.clear, matched⟩,
      matched.advances.2.1 hp', guard, _, hpast'.mono matched.advances.1, later⟩

theorem RoundsFrom.cases (rank : Name → Nat) (h : RoundsFrom g text skip inner p ts q) :
    ts = [] ∧ q = p ∨ ∃ p' t r ts', ts = t :: ts' ∧ SkipsFrom g text α skip p p' ∧
      MadeFrom rank g text skip inner p' t r ∧
      (t.isEmpty = false → RoundsFrom g text skip inner r ts' q) := by
  obtain ⟨hp, guard, reach, hpast, hrounds⟩ := h
  cases hrounds with
  | fails skipped failed => exact .inl ⟨rfl, rfl⟩
  | empty skipped matched empty later =>
    have hskips := skipsFrom_of_skipYields hp hpast skipped
    obtain ⟨hle, hp'⟩ := hskips.le
    refine .inr ⟨_, _, _, _, rfl, hskips, ⟨hp', guard, _, (hpast.mono hle).clear, matched⟩, ?_⟩
    rw [empty]
    nofun
  | covers skipped matched covers later =>
    have hskips := skipsFrom_of_skipYields hp hpast skipped
    obtain ⟨hle, hp'⟩ := hskips.le
    have hpast' := hpast.mono hle
    exact .inr ⟨_, _, _, _, rfl, hskips, ⟨hp', guard, _, hpast'.clear, matched⟩, fun _ =>
      ⟨matched.advances.2.1 hp', guard, _, hpast'.mono matched.advances.1, later⟩⟩

/-- What is left of a sequence ends no earlier than what came before. -/
theorem MembersFrom.le (h : MembersFrom g text skip p stop members ts q) (hstop : stop ≤ p) :
    stop ≤ q := by
  induction members generalizing p stop ts with
  | nil => exact h.nil.2.ge
  | cons member members ih =>
    obtain ⟨p', t, r, ts', -, hskips, hmade, hlater⟩ := h.cons fun _ => 0
    have hr : stop ≤ r := Nat.le_trans hstop (Nat.le_trans hskips.le.1 hmade.le.1)
    split at hlater
    · exact ih hlater hr
    · exact Nat.le_trans hr (ih hlater (Nat.le_refl r))

theorem RoundsFrom.le (h : RoundsFrom g text skip inner p ts q) : p ≤ q := by
  obtain ⟨hp, guard, reach, -, hrounds⟩ := h
  exact (hrounds.stop_le (Nat.le_refl p)).1

/-- One of the alternatives made the token of a choice, and those before it failed. -/
theorem AlternativesYield.madeFrom {guard : Guard} {ordinal found reach : Nat}
    (h : AlternativesYield g text skip guard p ordinal members (some (found, t, q)) reach)
    (hp : p ≤ text.length)
    (hclear : ∀ r ∈ members, Clear rank guard p (rank (g.symbol r).name + 1)) :
    ∃ index member, found = ordinal + index ∧ members[index]? = some member ∧
      MadeFrom rank g text skip member p t q ∧
      ∀ i < index, ∀ m, members[i]? = some m → FailsFrom rank g text α skip m p := by
  induction members generalizing ordinal reach with
  | nil => cases h
  | cons member members ih =>
    rw [List.forall_mem_cons] at hclear
    cases h with
    | inProgress mem later => exact absurd mem (hclear.1.not_mem (Nat.lt_succ_self _))
    | matched fresh matched =>
      exact ⟨0, member, rfl, rfl, ⟨hp, guard, _, hclear.1, matched⟩, by omega⟩
    | failed fresh failed later =>
      obtain ⟨index, m, hfound, hm, hmade, hfails⟩ := ih later hclear.2
      refine ⟨index + 1, m, by omega, by rwa [List.getElem?_cons_succ], hmade, fun i hi m' hm' => ?_⟩
      cases i with
      | zero =>
        cases hm'
        exact ⟨hp, guard, _, hclear.1, failed⟩
      | succ i =>
        rw [List.getElem?_cons_succ] at hm'
        exact hfails i (by omega) m' hm'

/-! ### Symbols -/

theorem drop_of_getElem? {c : Char} (h : text[p]? = some c) :
    text.drop p = c :: text.drop (p + 1) := by
  obtain ⟨hlt, rfl⟩ := List.getElem?_eq_some_iff.mp h
  exact List.drop_eq_getElem_cons hlt

namespace MadeFrom

/-- The tree of an implicit symbol is one of the symbol that it refers to. -/
theorem implicit {target : Ref} (h : MadeFrom rank g text skip ref p t q)
    (hsymbol : g.symbol ref = ⟨name, .implicit (some target)⟩)
    (hname : (g.symbol target).name = name) : MadeFrom rank g text skip target p t q := by
  obtain ⟨hp, guard, reach, hclear, hrule⟩ := h
  rw [hsymbol] at hclear
  rw [← hname] at hclear
  cases hrule with
  | zeroLength shape => simp [hsymbol] at shape
  | implicit shape rule =>
    simp only [hsymbol, Shape.implicit.injEq, Option.some.injEq] at shape
    subst shape
    exact ⟨hp, guard, reach, hclear, rule⟩
  | enter guarded => simp [hsymbol, Shape.isGuarded] at guarded

/-- The tree of another symbol is one of its shape, and nobody is in the way of what the shape asks
    for. -/
theorem body {shape : Shape} (hranked : g.IsRanked rank) (h : MadeFrom rank g text skip ref p t q)
    (hsymbol : g.symbol ref = ⟨name, shape⟩) (hguarded : shape.isGuarded = true)
    (hinside : skipInside name skip = inside) :
    p ≤ text.length ∧ ∃ guard reach, Clear rank guard p (rank name) ∧
      (∀ r ∈ shape.leading, Clear rank guard p (rank (g.symbol r).name + 1)) ∧
      ShapeYields g text shape name inside guard p (some (t, q)) reach := by
  subst hinside
  obtain ⟨hp, guard, reach, hclear, hrule⟩ := h
  rw [hsymbol] at hclear
  cases hrule with
  | zeroLength shape =>
    rw [hsymbol] at shape
    obtain rfl := shape
    cases hguarded
  | implicit shape =>
    rw [hsymbol] at shape
    obtain rfl := shape
    cases hguarded
  | enter guarded fresh body =>
    rw [hsymbol] at body
    refine ⟨hp, _, reach, hclear.enter, fun r hr => hclear.enter.mono ?_, body⟩
    have hlt := hranked ref r (by rw [hsymbol]; exact hr)
    rwa [hsymbol] at hlt

/-- A character of a class. -/
theorem switch {ranges : CharClass} (hranked : g.IsRanked rank)
    (h : MadeFrom rank g text skip ref p t q) (hsymbol : g.symbol ref = ⟨name, .switch ranges⟩) :
    ∃ c start ordinal, text.drop p = c :: text.drop q ∧
      ranges.any (·.contains c.toNat) = true ∧
      t = .leaf .switch name (.singleton c) start ordinal := by
  obtain ⟨hp, guard, reach, -, -, hshape⟩ := h.body hranked hsymbol rfl rfl
  cases hshape with
  | leaf read =>
    simp only [readLeaf, Option.some.injEq, Prod.mk.injEq] at read
    obtain ⟨c, ordinal, hchar, hfind, htoken, rfl⟩ := eq_of_readClass read.1
    exact ⟨c, p, ordinal, drop_of_getElem? hchar, CharClass.any_of_find? hfind, htoken⟩

/-- A particular character. -/
theorem character {c : Char} (hranked : g.IsRanked rank)
    (h : MadeFrom rank g text skip ref p t q) (hsymbol : g.symbol ref = ⟨name, .character c⟩) :
    text.drop p = c :: text.drop q ∧ ∃ start, t = .leaf .character name (.singleton c) start 0 := by
  obtain ⟨hp, guard, reach, -, -, hshape⟩ := h.body hranked hsymbol rfl rfl
  cases hshape with
  | leaf read =>
    simp only [readLeaf, Option.some.injEq, Prod.mk.injEq] at read
    have hread := read.1
    unfold readCharacter at hread
    split at hread
    · rename_i hchar
      cases hread
      exact ⟨drop_of_getElem? hchar, p, rfl⟩
    · cases hread

/-- A particular text. -/
theorem literal {literal : String} (hranked : g.IsRanked rank)
    (h : MadeFrom rank g text skip ref p t q) (hsymbol : g.symbol ref = ⟨name, .text literal⟩) :
    text.drop p = literal.toList ++ text.drop q ∧ ∃ start, t = .leaf .text name literal start 0 := by
  obtain ⟨hp, guard, reach, -, -, hshape⟩ := h.body hranked hsymbol rfl rfl
  cases hshape with
  | leaf read =>
    simp only [readLeaf, Option.some.injEq, Prod.mk.injEq] at read
    have hread := read.1
    unfold readText at hread
    split at hread
    · rename_i hstarts
      obtain ⟨rest, hrest⟩ := hstarts
      cases hread
      rw [← String.length_toList, drop_of_drop hrest.symm]
      exact ⟨hrest.symm, p, rfl⟩
    · cases hread

/-- One of the alternatives made the child of a choice, and those before it failed. -/
theorem junction (hranked : g.IsRanked rank) (h : MadeFrom rank g text skip ref p t q)
    (hsymbol : g.symbol ref = ⟨name, .junction members⟩) (hinside : skipInside name skip = inside) :
    ∃ ordinal member u, t = .over .junction name ordinal u ∧ members[ordinal]? = some member ∧
      MadeFrom rank g text inside member p u q ∧
      ∀ i < ordinal, ∀ m, members[i]? = some m → FailsFrom rank g text α inside m p := by
  obtain ⟨hp, guard, reach, -, hleading, hshape⟩ := h.body hranked hsymbol rfl hinside
  cases hshape with
  | leaf read => cases read
  | junction first =>
    obtain ⟨index, member, rfl, hmember, hmade, hfails⟩ := first.madeFrom hp hleading
    rw [Nat.zero_add]
    exact ⟨index, member, _, rfl, hmember, hmade, hfails⟩

/-- An option covers what is in it, or nothing. -/
theorem option (hranked : g.IsRanked rank) (h : MadeFrom rank g text skip ref p t q)
    (hsymbol : g.symbol ref = ⟨name, .option inner⟩) (hinside : skipInside name skip = inside) :
    (∃ start, t = .leaf .option name "" start 0) ∧ q = p ∨
      ∃ u, t = .over .option name 0 u ∧ MadeFrom rank g text inside inner p u q := by
  obtain ⟨hp, guard, reach, -, hleading, hshape⟩ := h.body hranked hsymbol rfl hinside
  cases hshape with
  | leaf read => cases read
  | option present =>
    exact .inr ⟨_, rfl, hp, guard, _, hleading _ (List.mem_singleton_self _), present⟩
  | optionAbsent absent => exact .inl ⟨⟨_, rfl⟩, rfl⟩

/-- A sequence is made by its members. -/
theorem sequence {first : Ref} {rest : List Ref} (hranked : g.IsRanked rank)
    (h : MadeFrom rank g text skip ref p t q)
    (hsymbol : g.symbol ref = ⟨name, .sequence (first :: rest)⟩)
    (hinside : skipInside name skip = inside) :
    ∃ start u us r, t = .node ⟨.sequence, name, slice text p q, start, 0⟩ (u :: us) none ∧
      MadeFrom rank g text inside first p u r ∧
      (u.isEmpty = false → MembersFrom g text inside r r rest us q) := by
  obtain ⟨hp, guard, reach, hclear, hleading, hshape⟩ := h.body hranked hsymbol rfl hinside
  cases hshape with
  | leaf read => cases read
  | sequence all =>
    cases all with
    | cons skipped matched later =>
      cases skipped with
      | first =>
        refine ⟨_, _, _, _, rfl, ⟨hp, guard, _, hleading _ List.mem_cons_self, matched⟩,
          fun hcovers => ?_⟩
        rw [hcovers] at later
        exact ⟨matched.advances.2.1 hp, guard, _, hclear.past (matched.advances.2.2 hcovers), later⟩

/-- A repetition is made by its rounds, of which there is at least one. -/
theorem multiple (hranked : g.IsRanked rank) (h : MadeFrom rank g text skip ref p t q)
    (hsymbol : g.symbol ref = ⟨name, .multiple inner⟩) (hinside : skipInside name skip = inside) :
    ∃ start u us r, t = .node ⟨.multiple, name, slice text p q, start, 0⟩ (u :: us) none ∧
      MadeFrom rank g text inside inner p u r ∧
      (u.isEmpty = false → RoundsFrom g text inside inner r us q) := by
  obtain ⟨hp, guard, reach, hclear, hleading, hshape⟩ := h.body hranked hsymbol rfl hinside
  have hinner := hleading _ (List.mem_singleton_self _)
  cases hshape with
  | leaf read => cases read
  | multiple rounds found =>
    cases rounds with
    | fails => exact absurd rfl found
    | empty skipped matched empty later =>
      cases skipped with
      | first =>
        refine ⟨_, _, _, _, rfl, ⟨hp, guard, _, hinner, matched⟩, ?_⟩
        rw [empty]
        nofun
    | covers skipped matched covers later =>
      cases skipped with
      | first =>
        exact ⟨_, _, _, _, rfl, ⟨hp, guard, _, hinner, matched⟩, fun hcovers =>
          ⟨matched.advances.2.1 hp, guard, _, hclear.past (matched.advances.2.2 hcovers), later⟩⟩

/-- A repetition that may be empty covers some rounds, or nothing. -/
theorem star {repetition : Ref} (hranked : g.IsRanked rank) (h : MadeFrom rank g text skip ref p t q)
    (hsymbol : g.symbol ref = ⟨name, .star repetition⟩) (hinside : skipInside name skip = inside) :
    (∃ start, t = .leaf .star name "" start 0) ∧ q = p ∨
      ∃ u, t = .node ⟨.star, name, u.substring, u.start, 0⟩ u.children none ∧
        MadeFrom rank g text inside repetition p u q := by
  obtain ⟨hp, guard, reach, -, hleading, hshape⟩ := h.body hranked hsymbol rfl hinside
  cases hshape with
  | leaf read => cases read
  | star present =>
    exact .inr ⟨_, rfl, hp, guard, _, hleading _ (List.mem_singleton_self _), present⟩
  | starAbsent absent => exact .inl ⟨⟨_, rfl⟩, rfl⟩

end MadeFrom

/-! ### Where nothing is skipped -/

/-- A tree that covers no text leaves off where it began. -/
def IsTight (rank : Name → Nat) (g : Graph) (text : List Char) (α : Type) (ref : Ref) : Prop :=
  ∀ p (t : Token α) q, MadeFrom rank g text .zeroLength ref p t q → t.isEmpty = true → q = p

theorem MembersFrom.chain (htight : ∀ m ∈ members, IsTight rank g text α m)
    (h : MembersFrom g text .zeroLength p p members ts q) : ChainFrom rank g text members p ts q := by
  induction members generalizing p ts with
  | nil =>
    obtain ⟨rfl, rfl⟩ := h.nil
    exact .nil
  | cons member members ih =>
    obtain ⟨p', t, r, ts', rfl, hskips, hmade, hlater⟩ := h.cons rank
    obtain rfl := hskips.zeroLength
    rw [List.forall_mem_cons] at htight
    refine .cons hmade (ih htight.2 ?_)
    split at hlater
    · rename_i hempty
      rwa [htight.1 _ _ _ hmade hempty] at hlater ⊢
    · exact hlater

theorem RoundsFrom.run (hcovers : ∀ p (t : Token α) q,
      MadeFrom rank g text .zeroLength inner p t q → t.isEmpty = false)
    (h : RoundsFrom g text .zeroLength inner p ts q) : RunFrom rank g text inner p ts q := by
  induction ts generalizing p with
  | nil =>
    rcases h.cases rank with ⟨-, rfl⟩ | ⟨_, _, _, _, heq, -⟩
    · exact .nil
    · cases heq
  | cons t ts ih =>
    rcases h.cases rank with ⟨heq, -⟩ | ⟨p', t, r, ts', heq, hskips, hmade, hlater⟩
    · cases heq
    · cases heq
      obtain rfl := hskips.zeroLength
      exact .cons hmade (ih (hlater (hcovers _ _ _ hmade)))

end GrammarEngine
