import GrammarEngine.Proofs.Trees

namespace GrammarEngine

/-!
# Matching without left recursion

Where a symbol never asks for itself at the place where it stands, the matches in progress are in
nobody's way. Then what a symbol gives at a position is a matter of the text from there on, and
is put together from what the symbols give that it is made of: one lemma for each shape and each
outcome.

* `Graph.IsRanked` — no symbol asks for one of its rank or higher at the place where it stands;
* `Clear`, `Past` — matches in progress that are in nobody's way;
* `Gives` — what a symbol gives whenever nobody is in the way;
* `Skips`, `MembersGive`, `AlternativesGive`, `RoundsGive` — the same for the loops.
-/

/-- The symbols that a shape asks for at the place where it stands. -/
def Shape.leading : Shape → List Ref
  | .sequence members => members.take 1
  | .junction members => members
  | .multiple inner | .option inner | .star inner => [inner]
  | _ => []

/-- What a symbol asks for at the place where it stands is of a lower rank. -/
def Graph.IsRanked (g : Graph) (rank : Name → Nat) : Prop :=
  ∀ ref, ∀ r ∈ (g.symbol ref).shape.leading,
    rank (g.symbol r).name < rank (g.symbol ref).name

section Clear

/-- No match in progress is in the way of a symbol below the bound at a position. -/
def Clear (rank : Name → Nat) (guard : Guard) (p bound : Nat) : Prop :=
  ∀ entry ∈ guard, entry.2 < (p : Int) ∨ entry.2 = (p : Int) ∧ bound ≤ rank entry.1

/-- All matches in progress began before a position. -/
def Past (guard : Guard) (p : Nat) : Prop := ∀ entry ∈ guard, entry.2 < (p : Int)

variable {rank : Name → Nat} {guard : Guard} {p q bound bound' : Nat} {name : Name}

theorem clear_nil : Clear rank [] p bound := by simp [Clear]

theorem past_nil : Past [] p := by simp [Past]

theorem Clear.mono (h : Clear rank guard p bound) (hbound : bound' ≤ bound) :
    Clear rank guard p bound' :=
  fun entry hentry => (h entry hentry).imp id fun h => ⟨h.1, Nat.le_trans hbound h.2⟩

theorem Clear.not_mem (h : Clear rank guard p bound) (hname : rank name < bound) :
    (name, (p : Int)) ∉ guard := by
  intro hmem
  rcases h _ hmem with hlt | ⟨-, hle⟩
  · exact absurd hlt (Int.lt_irrefl _)
  · exact absurd (Nat.lt_of_lt_of_le hname hle) (Nat.lt_irrefl _)

/-- Nobody below a symbol is in the way of the symbols that it is made of. -/
theorem Clear.enter (h : Clear rank guard p (rank name + 1)) :
    Clear rank ((name, (p : Int)) :: guard) p (rank name) :=
  List.forall_mem_cons.mpr ⟨.inr ⟨rfl, Nat.le_refl _⟩, h.mono (Nat.le_succ _)⟩

/-- Behind a position, all that began there is past. -/
theorem Clear.past (h : Clear rank guard p bound) (hpq : p < q) : Past guard q := by
  intro entry hentry
  rcases h entry hentry with hlt | ⟨heq, -⟩ <;> omega

theorem Past.clear (h : Past guard p) : Clear rank guard p bound :=
  fun entry hentry => .inl (h entry hentry)

theorem Past.mono (h : Past guard p) (hpq : p ≤ q) : Past guard q :=
  fun entry hentry => Int.lt_of_lt_of_le (h entry hentry) (Int.ofNat_le.mpr hpq)

end Clear

section Defs

variable {α : Type} (rank : Name → Nat) (g : Graph) (text : List Char)

/-- What a symbol gives at a position whenever nobody is in the way. -/
def Gives (ref skip : Ref) (p : Nat) (answer : Answer α) : Prop :=
  ∀ guard, Clear rank guard p (rank (g.symbol ref).name + 1) →
    ∃ reach, Yields g text ref skip guard p answer reach

/-- Skipping from one position ends at another one. -/
def Skips (α : Type) (skip : Ref) (p q : Nat) : Prop :=
  ∀ guard, Past guard p → ∃ (answer : Answer α) (reach : Nat),
    Yields g text skip .zeroLength guard p answer reach ∧ landing p answer = q

/-- What the members of a sequence give behind the first one. -/
def MembersGive (skip : Ref) (p stop : Nat) (members : List Ref)
    (result : Option (Nat × List (Token α))) : Prop :=
  ∀ guard, Past guard p → ∃ reach,
    MembersYield g text skip guard false p stop members result reach

/-- What some alternatives give whenever nobody is in their way. -/
def AlternativesGive (skip : Ref) (p ordinal : Nat) (members : List Ref)
    (answer : Option (Nat × Token α × Nat)) : Prop :=
  ∀ guard, (∀ member ∈ members, Clear rank guard p (rank (g.symbol member).name + 1)) →
    ∃ reach, AlternativesYield g text skip guard p ordinal members answer reach

/-- What the rounds of a repetition give behind the first one, where all cover text. -/
def RoundsGive (skip inner : Ref) (p : Nat) (result : Nat × List (Token α)) : Prop :=
  ∀ guard, Past guard p → ∃ reach,
    RoundsYield g text skip guard inner false p p false result reach

end Defs

variable {α : Type} {rank : Name → Nat} {g : Graph} {text : List Char} {ref skip inside : Ref}
  {name : Name} {p q r stop : Nat} {t : Token α} {ts : List (Token α)} {answer : Answer α}

/-! ### Skipping and the loops -/

theorem Skips.zeroLength (p : Nat) : Skips g text α .zeroLength p p :=
  fun _ _ => ⟨some (.sentinel .empty, p), 0, .zeroLength rfl, rfl⟩

theorem Gives.skips (h : Gives rank g text skip .zeroLength p answer) :
    Skips g text α skip p (landing p answer) := by
  intro guard hguard
  obtain ⟨reach, hyields⟩ := h guard hguard.clear
  exact ⟨answer, reach, hyields, rfl⟩

/-- Skipping between two parts. -/
theorem Skips.between (h : Skips g text α skip p q) {guard : Guard} (hguard : Past guard p) :
    p ≤ q ∧ ∃ reach, SkipYields (α := α) g text skip guard false p q reach := by
  obtain ⟨answer, reach, hyields, rfl⟩ := h guard hguard
  exact ⟨hyields.advances.landing_between.1, reach, .between hyields⟩

namespace MembersGive

variable {member : Ref} {rest : List Ref}

theorem nil (p stop : Nat) : MembersGive (α := α) g text skip p stop [] (some (stop, [])) :=
  fun _ _ => ⟨0, .nil⟩

theorem fails (hskip : Skips g text α skip p q)
    (h : Gives (α := α) rank g text member skip q none) :
    MembersGive (α := α) g text skip p stop (member :: rest) none := by
  intro guard hguard
  obtain ⟨hpq, reach₁, hskipped⟩ := hskip.between hguard
  obtain ⟨reach₂, hyields⟩ := h guard (hguard.mono hpq).clear
  exact ⟨_, .fails hskipped hyields⟩

theorem cons {stop' : Nat} (hskip : Skips g text α skip p q)
    (h : Gives rank g text member skip q (some (t, r)))
    (hlater : MembersGive g text skip r (if t.isEmpty then stop else r) rest
      (some (stop', ts))) :
    MembersGive g text skip p stop (member :: rest) (some (stop', t :: ts)) := by
  intro guard hguard
  obtain ⟨hpq, reach₁, hskipped⟩ := hskip.between hguard
  obtain ⟨reach₂, hyields⟩ := h guard (hguard.mono hpq).clear
  obtain ⟨reach₃, hrest⟩ := hlater guard (hguard.mono (Nat.le_trans hpq hyields.advances.1))
  exact ⟨_, .cons hskipped hyields hrest⟩

theorem covers {stop' : Nat} (hskip : Skips g text α skip p q)
    (h : Gives rank g text member skip q (some (t, r))) (hcovers : t.isEmpty = false)
    (hlater : MembersGive g text skip r r rest (some (stop', ts))) :
    MembersGive g text skip p stop (member :: rest) (some (stop', t :: ts)) :=
  .cons hskip h (by rw [hcovers]; exact hlater)

/-- Where nothing is skipped, a member that covers no text stays where it is. -/
theorem next {stop' : Nat} (h : Gives rank g text member .zeroLength p (some (t, r)))
    (hempty : t.isEmpty = true → r = p)
    (hlater : MembersGive g text .zeroLength r r rest (some (stop', ts))) :
    MembersGive g text .zeroLength p p (member :: rest) (some (stop', t :: ts)) := by
  refine .cons (.zeroLength p) h ?_
  split
  · rename_i ht
    rw [← hempty ht]
    exact hlater
  · exact hlater

theorem laterFails (hskip : Skips g text α skip p q)
    (h : Gives rank g text member skip q (some (t, r))) (hcovers : t.isEmpty = false)
    (hlater : MembersGive (α := α) g text skip r r rest none) :
    MembersGive (α := α) g text skip p stop (member :: rest) none := by
  intro guard hguard
  obtain ⟨hpq, reach₁, hskipped⟩ := hskip.between hguard
  obtain ⟨reach₂, hyields⟩ := h guard (hguard.mono hpq).clear
  obtain ⟨reach₃, hrest⟩ := hlater guard (hguard.mono (Nat.le_trans hpq hyields.advances.1))
  exact ⟨_, .laterFails hskipped hyields (by rw [hcovers]; exact hrest)⟩

end MembersGive

namespace AlternativesGive

variable {ordinal : Nat} {member : Ref} {rest : List Ref}

theorem nil : AlternativesGive (α := α) rank g text skip p ordinal [] none :=
  fun _ _ => ⟨0, .nil⟩

theorem matched (h : Gives rank g text member skip p (some (t, stop))) :
    AlternativesGive rank g text skip p ordinal (member :: rest) (some (ordinal, t, stop)) := by
  intro guard hguard
  have hmember := hguard member (List.mem_cons_self ..)
  obtain ⟨reach, hyields⟩ := h guard hmember
  exact ⟨reach, .matched (hmember.not_mem (Nat.lt_succ_self _)) hyields⟩

theorem failed {answer : Option (Nat × Token α × Nat)}
    (h : Gives (α := α) rank g text member skip p none)
    (hlater : AlternativesGive rank g text skip p (ordinal + 1) rest answer) :
    AlternativesGive rank g text skip p ordinal (member :: rest) answer := by
  intro guard hguard
  rw [List.forall_mem_cons] at hguard
  obtain ⟨reach₁, hyields⟩ := h guard hguard.1
  obtain ⟨reach₂, hrest⟩ := hlater guard hguard.2
  exact ⟨_, .failed (hguard.1.not_mem (Nat.lt_succ_self _)) hyields hrest⟩

end AlternativesGive

namespace RoundsGive

variable {inner : Ref}

theorem stops (hskip : Skips g text α skip p q)
    (h : Gives (α := α) rank g text inner skip q none) :
    RoundsGive (α := α) g text skip inner p (p, []) := by
  intro guard hguard
  obtain ⟨hpq, reach₁, hskipped⟩ := hskip.between hguard
  obtain ⟨reach₂, hyields⟩ := h guard (hguard.mono hpq).clear
  exact ⟨_, .fails hskipped hyields⟩

theorem goes (hskip : Skips g text α skip p q)
    (h : Gives rank g text inner skip q (some (t, r))) (hcovers : t.isEmpty = false)
    (hlater : RoundsGive g text skip inner r (stop, ts)) :
    RoundsGive g text skip inner p (stop, t :: ts) := by
  intro guard hguard
  obtain ⟨hpq, reach₁, hskipped⟩ := hskip.between hguard
  obtain ⟨reach₂, hyields⟩ := h guard (hguard.mono hpq).clear
  obtain ⟨reach₃, hrest⟩ := hlater guard (hguard.mono (Nat.le_trans hpq hyields.advances.1))
  exact ⟨_, .covers hskipped hyields hcovers hrest⟩

end RoundsGive

/-! ### Symbols -/

namespace Gives

section Shapes

variable {shape : Shape}

/-- A symbol gives what its shape gives. -/
theorem of_shape (hsymbol : g.symbol ref = ⟨name, shape⟩) (hguarded : shape.isGuarded = true)
    (h : ∀ guard, Clear rank guard p (rank name) → ∃ reach,
      ShapeYields g text shape name (skipInside name skip) guard p answer reach) :
    Gives rank g text ref skip p answer := by
  intro guard hguard
  rw [hsymbol] at hguard
  obtain ⟨reach, hbody⟩ := h _ hguard.enter
  refine ⟨reach, .enter (by rw [hsymbol]; exact hguarded) ?_ ?_⟩
  · rw [hsymbol]
    exact hguard.not_mem (Nat.lt_succ_self _)
  · rw [hsymbol]
    exact hbody

/-- A symbol gives what its shape gives, and nobody is in the way of what it asks for. -/
theorem of_leading (hranked : g.IsRanked rank) (hsymbol : g.symbol ref = ⟨name, shape⟩)
    (hinside : skipInside name skip = inside) (hguarded : shape.isGuarded = true)
    (h : ∀ guard, Clear rank guard p (rank name) →
      (∀ r ∈ shape.leading, Clear rank guard p (rank (g.symbol r).name + 1)) → ∃ reach,
        ShapeYields g text shape name inside guard p answer reach) :
    Gives rank g text ref skip p answer := by
  subst hinside
  refine of_shape hsymbol hguarded fun guard hguard => h guard hguard fun r hr => ?_
  have hlt := hranked ref r (by rw [hsymbol]; exact hr)
  rw [hsymbol] at hlt
  exact hguard.mono hlt

theorem leaf (hsymbol : g.symbol ref = ⟨name, shape⟩) (hguarded : shape.isGuarded = true)
    (hread : ∃ reach, readLeaf text name p shape = some (answer, reach)) :
    Gives rank g text ref skip p answer :=
  of_shape hsymbol hguarded fun _ _ => hread.imp fun _ => .leaf

/-- A stand-in gives what the rule gives that it stands for, if they go by the same name. -/
theorem implicit {target : Ref} (hsymbol : g.symbol ref = ⟨name, .implicit (some target)⟩)
    (hname : (g.symbol target).name = name) (h : Gives rank g text target skip p answer) :
    Gives rank g text ref skip p answer := by
  intro guard hguard
  rw [hsymbol] at hguard
  obtain ⟨reach, hyields⟩ := h guard (by rw [hname]; exact hguard)
  exact ⟨reach, .implicit (by rw [hsymbol]) hyields⟩

end Shapes

section Sequence

variable {first : Ref} {rest : List Ref}

theorem sequence (hranked : g.IsRanked rank)
    (hsymbol : g.symbol ref = ⟨name, .sequence (first :: rest)⟩)
    (hinside : skipInside name skip = inside)
    (h : Gives rank g text first inside p (some (t, q)))
    (hcovers : t.isEmpty = false)
    (hrest : MembersGive g text inside q q rest (some (stop, ts))) :
    Gives rank g text ref skip p
      (some (.spanning .sequence name text p stop (t :: ts), stop)) := by
  refine of_leading hranked hsymbol hinside rfl fun guard hguard hleading => ?_
  obtain ⟨reach₁, hyields⟩ := h guard (hleading first (List.mem_cons_self ..))
  obtain ⟨reach₂, hlater⟩ := hrest guard (hguard.past (hyields.advances.2.2 hcovers))
  exact ⟨_, .sequence (.cons .first hyields (by rw [hcovers]; exact hlater))⟩

theorem sequence_fails (hranked : g.IsRanked rank)
    (hsymbol : g.symbol ref = ⟨name, .sequence (first :: rest)⟩)
    (hinside : skipInside name skip = inside)
    (h : Gives (α := α) rank g text first inside p none) :
    Gives (α := α) rank g text ref skip p none := by
  refine of_leading hranked hsymbol hinside rfl fun guard _ hleading => ?_
  obtain ⟨reach, hyields⟩ := h guard (hleading first (List.mem_cons_self ..))
  exact ⟨_, .sequenceFails (.fails .first hyields)⟩

theorem sequence_laterFails (hranked : g.IsRanked rank)
    (hsymbol : g.symbol ref = ⟨name, .sequence (first :: rest)⟩)
    (hinside : skipInside name skip = inside)
    (h : Gives rank g text first inside p (some (t, q)))
    (hcovers : t.isEmpty = false)
    (hrest : MembersGive (α := α) g text inside q q rest none) :
    Gives (α := α) rank g text ref skip p none := by
  refine of_leading hranked hsymbol hinside rfl fun guard hguard hleading => ?_
  obtain ⟨reach₁, hyields⟩ := h guard (hleading first (List.mem_cons_self ..))
  obtain ⟨reach₂, hlater⟩ := hrest guard (hguard.past (hyields.advances.2.2 hcovers))
  exact ⟨_, .sequenceFails (.laterFails .first hyields (by rw [hcovers]; exact hlater))⟩

end Sequence

section Junction

variable {members : List Ref}

theorem junction {ordinal : Nat} (hranked : g.IsRanked rank)
    (hsymbol : g.symbol ref = ⟨name, .junction members⟩)
    (hinside : skipInside name skip = inside)
    (h : AlternativesGive rank g text inside p 0 members
      (some (ordinal, t, stop))) :
    Gives rank g text ref skip p (some (.over .junction name ordinal t, stop)) := by
  refine of_leading hranked hsymbol hinside rfl fun guard _ hleading => ?_
  obtain ⟨reach, hfirst⟩ := h guard hleading
  exact ⟨reach, .junction hfirst⟩

theorem junction_fails (hranked : g.IsRanked rank)
    (hsymbol : g.symbol ref = ⟨name, .junction members⟩)
    (hinside : skipInside name skip = inside)
    (h : AlternativesGive (α := α) rank g text inside p 0 members none) :
    Gives (α := α) rank g text ref skip p none := by
  refine of_leading hranked hsymbol hinside rfl fun guard _ hleading => ?_
  obtain ⟨reach, hfailed⟩ := h guard hleading
  exact ⟨reach, .junctionFails hfailed⟩

end Junction

section Repetitions

variable {inner : Ref}

theorem multiple (hranked : g.IsRanked rank)
    (hsymbol : g.symbol ref = ⟨name, .multiple inner⟩)
    (hinside : skipInside name skip = inside)
    (h : Gives rank g text inner inside p (some (t, q)))
    (hcovers : t.isEmpty = false)
    (hrounds : RoundsGive g text inside inner q (stop, ts)) :
    Gives rank g text ref skip p
      (some (.spanning .multiple name text p stop (t :: ts), stop)) := by
  refine of_leading hranked hsymbol hinside rfl fun guard hguard hleading => ?_
  obtain ⟨reach₁, hyields⟩ := h guard (hleading inner (List.mem_cons_self ..))
  obtain ⟨reach₂, hlater⟩ := hrounds guard (hguard.past (hyields.advances.2.2 hcovers))
  exact ⟨_, .multiple (.covers .first hyields hcovers hlater) (List.cons_ne_nil _ _)⟩

theorem multiple_fails (hranked : g.IsRanked rank)
    (hsymbol : g.symbol ref = ⟨name, .multiple inner⟩)
    (hinside : skipInside name skip = inside)
    (h : Gives (α := α) rank g text inner inside p none) :
    Gives (α := α) rank g text ref skip p none := by
  refine of_leading hranked hsymbol hinside rfl fun guard _ hleading => ?_
  obtain ⟨reach, hyields⟩ := h guard (hleading inner (List.mem_cons_self ..))
  exact ⟨_, .multipleFails (.fails .first hyields)⟩

theorem option (hranked : g.IsRanked rank) (hsymbol : g.symbol ref = ⟨name, .option inner⟩)
    (hinside : skipInside name skip = inside)
    (h : Gives rank g text inner inside p (some (t, stop))) :
    Gives rank g text ref skip p (some (.over .option name 0 t, stop)) := by
  refine of_leading hranked hsymbol hinside rfl fun guard _ hleading => ?_
  obtain ⟨reach, hyields⟩ := h guard (hleading inner (List.mem_cons_self ..))
  exact ⟨reach, .option hyields⟩

theorem option_absent (hranked : g.IsRanked rank)
    (hsymbol : g.symbol ref = ⟨name, .option inner⟩)
    (hinside : skipInside name skip = inside)
    (h : Gives (α := α) rank g text inner inside p none) :
    Gives (α := α) rank g text ref skip p (some (.leaf .option name "" p 0, p)) := by
  refine of_leading hranked hsymbol hinside rfl fun guard _ hleading => ?_
  obtain ⟨reach, hyields⟩ := h guard (hleading inner (List.mem_cons_self ..))
  exact ⟨reach, .optionAbsent hyields⟩

theorem star (hranked : g.IsRanked rank) (hsymbol : g.symbol ref = ⟨name, .star inner⟩)
    (hinside : skipInside name skip = inside)
    (h : Gives rank g text inner inside p (some (t, stop))) :
    Gives rank g text ref skip p
      (some (.node ⟨.star, name, t.substring, t.start, 0⟩ t.children none, stop)) := by
  refine of_leading hranked hsymbol hinside rfl fun guard _ hleading => ?_
  obtain ⟨reach, hyields⟩ := h guard (hleading inner (List.mem_cons_self ..))
  exact ⟨reach, .star hyields⟩

theorem star_absent (hranked : g.IsRanked rank)
    (hsymbol : g.symbol ref = ⟨name, .star inner⟩)
    (hinside : skipInside name skip = inside)
    (h : Gives (α := α) rank g text inner inside p none) :
    Gives (α := α) rank g text ref skip p (some (.leaf .star name "" p 0, p)) := by
  refine of_leading hranked hsymbol hinside rfl fun guard _ hleading => ?_
  obtain ⟨reach, hyields⟩ := h guard (hleading inner (List.mem_cons_self ..))
  exact ⟨reach, .starAbsent hyields⟩

end Repetitions

/-! ### Characters -/

section Characters

variable {rest : List Char}

theorem getElem?_of_drop {s : List Char} (h : text.drop p = s) : text[p]? = s.head? := by
  rw [← h, List.head?_drop]

theorem character {c : Char} (hsymbol : g.symbol ref = ⟨name, .character c⟩)
    (h : text.drop p = c :: rest) :
    Gives (α := α) rank g text ref skip p
      (some (.leaf .character name (.singleton c) p 0, p + 1)) :=
  leaf hsymbol rfl ⟨p, by
    rw [readLeaf, readCharacter, getElem?_of_drop h, List.head?_cons, if_pos rfl]⟩

theorem character_fails {c : Char} (hsymbol : g.symbol ref = ⟨name, .character c⟩)
    (h : (text.drop p).head? ≠ some c) : Gives (α := α) rank g text ref skip p none :=
  leaf hsymbol rfl ⟨p, by rw [readLeaf, readCharacter, getElem?_of_drop rfl, if_neg h]⟩

theorem switch {ranges : CharClass} {c : Char} {ordinal : Nat}
    (hsymbol : g.symbol ref = ⟨name, .switch ranges⟩) (h : text.drop p = c :: rest)
    (hfind : ranges.find? c.toNat = some ordinal) :
    Gives (α := α) rank g text ref skip p
      (some (.leaf .switch name (.singleton c) p ordinal, p + 1)) :=
  leaf hsymbol rfl ⟨p, by
    rw [readLeaf, readClass_of_some (getElem?_of_drop h), hfind, Option.map_some]⟩

theorem switch_fails {ranges : CharClass} (hsymbol : g.symbol ref = ⟨name, .switch ranges⟩)
    (h : ∀ c ∈ (text.drop p).head?, ranges.find? c.toNat = none) :
    Gives (α := α) rank g text ref skip p none := by
  refine leaf hsymbol rfl ⟨p, ?_⟩
  rw [readLeaf]
  cases hhead : (text.drop p).head? with
  | none => rw [readClass_of_none ((getElem?_of_drop rfl).trans hhead)]
  | some c =>
    rw [readClass_of_some ((getElem?_of_drop rfl).trans hhead), h c hhead, Option.map_none]

theorem literal {word : String} (hsymbol : g.symbol ref = ⟨name, .text word⟩)
    (h : text.drop p = word.toList ++ rest) :
    Gives (α := α) rank g text ref skip p
      (some (.leaf .text name word p 0, p + word.length)) :=
  leaf hsymbol rfl ⟨_, by rw [readLeaf, readText, if_pos ⟨rest, h.symm⟩]⟩

theorem literal_fails {word : String} (hsymbol : g.symbol ref = ⟨name, .text word⟩)
    (h : ¬ word.toList <+: text.drop p) : Gives (α := α) rank g text ref skip p none :=
  leaf hsymbol rfl ⟨_, by rw [readLeaf, readText, if_neg h]⟩

end Characters

/-- What a symbol gives is a tree of the symbol. -/
theorem made (h : Gives rank g text ref skip p (some (t, q))) (hp : p ≤ text.length) :
    Made g text skip ref t := by
  obtain ⟨reach, hyields⟩ := h [] clear_nil
  exact ⟨[], p, q, reach, hp, hyields⟩

theorem le (h : Gives rank g text ref skip p (some (t, q))) : p ≤ q := by
  obtain ⟨reach, hyields⟩ := h [] clear_nil
  exact hyields.advances.1

theorem lt (h : Gives rank g text ref skip p (some (t, q))) (hcovers : t.isEmpty = false) :
    p < q := by
  obtain ⟨reach, hyields⟩ := h [] clear_nil
  exact hyields.advances.2.2 hcovers

end Gives

theorem Skips.le (h : Skips g text α skip p q) : p ≤ q := by
  obtain ⟨answer, reach, hyields, rfl⟩ := h [] past_nil
  exact hyields.advances.landing_between.1

/-! ### Repetitions without gaps -/

/-- What the rounds of a repetition give where nothing is skipped and all cover text. -/
def RunGives (rank : Name → Nat) (g : Graph) (text : List Char) (inner : Ref) (p : Nat)
    (result : Nat × List (Token α)) : Prop :=
  ∀ first guard, Clear rank guard p (rank (g.symbol inner).name + 1) →
    ∃ reach, RoundsYield g text .zeroLength guard inner first p p false result reach

namespace RunGives

variable {inner : Ref}

theorem skipped (first : Bool) (guard : Guard) (p : Nat) :
    ∃ reach, SkipYields (α := α) g text .zeroLength guard first p p reach := by
  cases first with
  | true => exact ⟨0, .first⟩
  | false =>
    have hskipped : SkipYields (α := α) g text .zeroLength guard false p
        (landing p (some (Token.sentinel .empty, p) : Answer α)) 0 := .between (.zeroLength rfl)
    exact ⟨0, hskipped⟩

theorem stops (h : Gives (α := α) rank g text inner .zeroLength p none) :
    RunGives (α := α) rank g text inner p (p, []) := by
  intro first guard hguard
  obtain ⟨reach₁, hskipped⟩ : ∃ reach,
      SkipYields (α := α) g text .zeroLength guard first p p reach := skipped first guard p
  obtain ⟨reach₂, hyields⟩ := h guard hguard
  exact ⟨_, .fails hskipped hyields⟩

theorem goes (h : Gives rank g text inner .zeroLength p (some (t, r)))
    (hcovers : t.isEmpty = false) (hlater : RunGives rank g text inner r (stop, ts)) :
    RunGives rank g text inner p (stop, t :: ts) := by
  intro first guard hguard
  obtain ⟨reach₁, hskipped⟩ : ∃ reach,
      SkipYields (α := α) g text .zeroLength guard first p p reach := skipped first guard p
  obtain ⟨reach₂, hyields⟩ := h guard hguard
  have hpast := hguard.past (hyields.advances.2.2 hcovers)
  obtain ⟨reach₃, hrest⟩ := hlater false guard hpast.clear
  exact ⟨_, .covers hskipped hyields hcovers hrest⟩

/-- One or more repetitions. -/
theorem multiple (h : RunGives rank g text inner p (stop, ts)) (hranked : g.IsRanked rank)
    (hsymbol : g.symbol ref = ⟨name, .multiple inner⟩) (hts : ts ≠ []) :
    Gives rank g text ref .zeroLength p
      (some (.spanning .multiple name text p stop ts, stop)) := by
  refine .of_leading hranked hsymbol (skipInside_zeroLength name) rfl fun guard _ hleading => ?_
  obtain ⟨reach, hrounds⟩ := h true guard (hleading inner (List.mem_cons_self ..))
  exact ⟨reach, .multiple hrounds hts⟩

theorem multiple_fails (h : RunGives (α := α) rank g text inner p (stop, []))
    (hranked : g.IsRanked rank) (hsymbol : g.symbol ref = ⟨name, .multiple inner⟩) :
    Gives (α := α) rank g text ref .zeroLength p none := by
  refine .of_leading hranked hsymbol (skipInside_zeroLength name) rfl fun guard _ hleading => ?_
  obtain ⟨reach, hrounds⟩ := h true guard (hleading inner (List.mem_cons_self ..))
  exact ⟨reach, .multipleFails hrounds⟩

/-- None or more repetitions. -/
theorem star {repetition : Ref} {name' : Name} (h : RunGives rank g text inner p (stop, ts))
    (hranked : g.IsRanked rank) (hsymbol : g.symbol ref = ⟨name, .star repetition⟩)
    (hrepetition : g.symbol repetition = ⟨name', .multiple inner⟩) (hts : ts = [] → stop = p) :
    Gives rank g text ref .zeroLength p (some (.spanning .star name text p stop ts, stop)) := by
  cases ts with
  | nil =>
    obtain rfl := hts rfl
    have hfails := h.multiple_fails hranked hrepetition
    have hstar := Gives.star_absent hranked hsymbol (skipInside_zeroLength name) hfails
    have hslice : slice text stop stop = "" := slice_eq_empty (Nat.le_refl stop)
    rwa [Token.leaf, ← hslice] at hstar
  | cons t ts =>
    have hgives := h.multiple hranked hrepetition (List.cons_ne_nil t ts)
    exact .star hranked hsymbol (skipInside_zeroLength name) hgives

end RunGives

/-! ### Runs of characters -/

/-- What follows some characters in a text. -/
theorem drop_of_drop {s rest : List Char} (h : text.drop p = s ++ rest) :
    text.drop (p + s.length) = rest := by
  rw [← List.drop_drop, h, List.drop_left]

theorem lt_length_of_drop (h : text.drop p ≠ []) : p < text.length := by simpa using h

/-- The characters that begin at a position are a slice of the text. -/
theorem slice_of_drop {s rest : List Char} (h : text.drop p = s ++ rest) :
    slice text p (p + s.length) = String.ofList s := by
  rw [slice, List.drop_take, Nat.add_sub_cancel_left, h, List.take_left]

@[simp] theorem isEmpty_singleton (kind : Kind) (c : Char) (start : Int) (ordinal : Nat) :
    (Token.leaf (α := α) kind name (.singleton c) start ordinal).isEmpty = false := by
  simp [Token.isEmpty, Token.leaf]

@[simp] theorem isEmpty_over (kind : Kind) (name : Name) (ordinal : Nat) (t : Token α) :
    (Token.over kind name ordinal t).isEmpty = t.isEmpty := rfl

/-- A token over some characters covers text. -/
theorem isEmpty_spanning {kind : Kind} (h : text.drop p ≠ []) (hstop : p < stop) :
    (Token.spanning (α := α) kind name text p stop ts).isEmpty = false := by
  have hlt := lt_length_of_drop h
  have hslice : (Token.spanning (α := α) kind name text p stop ts).substring =
      slice text p stop := rfl
  have hlength : 0 < ((text.take stop).drop p).length := by
    rw [List.length_drop, List.length_take]
    omega
  simpa [Token.isEmpty, hslice, slice] using List.ne_nil_of_length_pos hlength

/-- A token that covers no text, although there is some, stops where it begins. -/
theorem Gives.stop_eq {kind : Kind}
    (h : Gives rank g text ref skip p (some (.spanning kind name text p stop ts, stop)))
    (hne : text.drop p ≠ [])
    (hempty : (Token.spanning kind name text p stop ts).isEmpty = true) : stop = p := by
  rcases Nat.eq_or_lt_of_le h.le with heq | hlt
  · exact heq.symm
  · rw [isEmpty_spanning hne hlt] at hempty
    cases hempty

/-- A symbol reads one character if it is of some kind, and nothing else. -/
structure ReadsOne (α : Type) (rank : Name → Nat) (g : Graph) (text : List Char) (ref : Ref)
    (kind : Char → Prop) : Prop where
  gives : ∀ (p : Nat) (c : Char) (rest : List Char), text.drop p = c :: rest → kind c →
    ∃ t : Token α, Gives rank g text ref .zeroLength p (some (t, p + 1)) ∧ t.isEmpty = false
  fails : ∀ p, (∀ c ∈ (text.drop p).head?, ¬ kind c) →
    Gives (α := α) rank g text ref .zeroLength p none

theorem readsOne_character {c : Char} (hsymbol : g.symbol ref = ⟨name, .character c⟩) :
    ReadsOne α rank g text ref (· = c) where
  gives p c' rest h hc := by
    subst hc
    exact ⟨_, .character hsymbol h, isEmpty_singleton ..⟩
  fails p h := .character_fails hsymbol fun hhead => h c hhead rfl

theorem readsOne_switch {ranges : CharClass} (hsymbol : g.symbol ref = ⟨name, .switch ranges⟩) :
    ReadsOne α rank g text ref fun c => ranges.any (·.contains c.toNat) = true where
  gives p c rest h hc := by
    rw [← CharClass.isSome_find?, Option.isSome_iff_exists] at hc
    obtain ⟨ordinal, hfind⟩ := hc
    exact ⟨_, .switch hsymbol h hfind, isEmpty_singleton ..⟩
  fails p h := .switch_fails hsymbol fun c hc => by
    rw [← Option.isNone_iff_eq_none, ← Option.not_isSome, Bool.not_eq_true',
      ← Bool.not_eq_true, CharClass.isSome_find?]
    exact h c hc

namespace ReadsOne

variable {inner : Ref} {kind : Char → Prop} {cs rest : List Char}

theorem run (h : ReadsOne α rank g text inner kind) (hcs : ∀ c ∈ cs, kind c)
    (hrest : ∀ c ∈ rest.head?, ¬ kind c) (hdrop : text.drop p = cs ++ rest) :
    ∃ ts : List (Token α), RunGives rank g text inner p (p + cs.length, ts) ∧
      ts.length = cs.length := by
  induction cs generalizing p with
  | nil => exact ⟨[], .stops (h.fails p (by rw [hdrop]; exact hrest)), rfl⟩
  | cons c cs ih =>
    rw [List.forall_mem_cons] at hcs
    obtain ⟨t, hgives, hcovers⟩ := h.gives p c _ hdrop hcs.1
    have hlater : text.drop (p + 1) = cs ++ rest := drop_of_drop (s := [c]) hdrop
    obtain ⟨ts, hrun, hlength⟩ := ih hcs.2 hlater
    rw [Nat.add_assoc, Nat.add_comm 1] at hrun
    exact ⟨t :: ts, .goes hgives hcovers hrun, congrArg Nat.succ hlength⟩

/-- One or more characters of a kind. -/
theorem multiple (h : ReadsOne α rank g text inner kind) (hranked : g.IsRanked rank)
    (hsymbol : g.symbol ref = ⟨name, .multiple inner⟩) (hcs : ∀ c ∈ cs, kind c)
    (hne : cs ≠ []) (hrest : ∀ c ∈ rest.head?, ¬ kind c) (hdrop : text.drop p = cs ++ rest) :
    ∃ t : Token α, Gives rank g text ref .zeroLength p (some (t, p + cs.length)) ∧
      t.isEmpty = false := by
  obtain ⟨ts, hrun, hlength⟩ := h.run hcs hrest hdrop
  have hts : ts ≠ [] := by
    rintro rfl
    exact hne (List.length_eq_zero_iff.mp hlength.symm)
  have hpos := List.length_pos_of_ne_nil hne
  exact ⟨_, hrun.multiple hranked hsymbol hts,
    isEmpty_spanning (by simp [hdrop, hne]) (Nat.lt_add_of_pos_right hpos)⟩

theorem multiple_fails (h : ReadsOne α rank g text inner kind) (hranked : g.IsRanked rank)
    (hsymbol : g.symbol ref = ⟨name, .multiple inner⟩)
    (hrest : ∀ c ∈ (text.drop p).head?, ¬ kind c) :
    Gives (α := α) rank g text ref .zeroLength p none :=
  (RunGives.stops (h.fails p hrest)).multiple_fails hranked hsymbol

/-- None or more characters of a kind. -/
theorem star {repetition : Ref} {name' : Name} (h : ReadsOne α rank g text inner kind)
    (hranked : g.IsRanked rank) (hsymbol : g.symbol ref = ⟨name, .star repetition⟩)
    (hrepetition : g.symbol repetition = ⟨name', .multiple inner⟩) (hcs : ∀ c ∈ cs, kind c)
    (hrest : ∀ c ∈ rest.head?, ¬ kind c) (hdrop : text.drop p = cs ++ rest) :
    ∃ t : Token α, Gives rank g text ref .zeroLength p (some (t, p + cs.length)) := by
  obtain ⟨ts, hrun, hlength⟩ := h.run hcs hrest hdrop
  refine ⟨_, hrun.star hranked hsymbol hrepetition ?_⟩
  rintro rfl
  rw [← hlength]
  rfl

end ReadsOne

end GrammarEngine
