import GrammarEngine.Proofs.Likeness
import GrammarEngine.Proofs.Soundness

namespace GrammarEngine

/-!
# Grammars that mirror each other

Two graphs of symbols match in the same way if their symbols go in pairs: the symbols of a pair have
the same shape, and what they are made of goes in pairs again. It makes no difference where a
stand-in is used for a symbol, nor how nameless symbols are numbered, as long as no two of them go by
one number.

* `Graph.StandsFor`, `Shape.Mirrors`, `Mirrors` — symbols in pairs;
* `Yields.mirrored` — a symbol answers as its partner does;
* `Grammar.Decides.mirrored`, `Grammar.parseTree_mirrored` — the same for whole texts.
-/

variable {σ α β : Type}

/-- The reference is to the symbol, or to a stand-in for it that goes by its name. -/
def Graph.StandsFor (g : Graph) (ref rule : Ref) : Prop :=
  ref = rule ∨ g.symbol ref = ⟨(g.symbol rule).name, .implicit (some rule)⟩

/-- Does the shape match a piece of text by itself? -/
def Shape.isLeaf : Shape → Bool
  | .switch _ | .anyCharacter | .text _ | .character _ | .oddCharacter _ | .oddText _ => true
  | _ => false

/-- The shapes are the same, but for the symbols that they are made of, which go together. -/
inductive Shape.Mirrors (together : Ref → Ref → Prop) : Shape → Shape → Prop
  | sequence {members members' : List Ref} (all : List.Forall₂ together members members') :
      Mirrors together (.sequence members) (.sequence members')
  | junction {members members' : List Ref} (all : List.Forall₂ together members members') :
      Mirrors together (.junction members) (.junction members')
  | multiple {inner inner' : Ref} (one : together inner inner') :
      Mirrors together (.multiple inner) (.multiple inner')
  | option {inner inner' : Ref} (one : together inner inner') :
      Mirrors together (.option inner) (.option inner')
  | star {inner inner' : Ref} (one : together inner inner') :
      Mirrors together (.star inner) (.star inner')
  | leaf {shape : Shape} (alone : shape.isLeaf = true) : Mirrors together shape shape

section Defs

variable (g g' : Graph) (pair : Ref → Ref → Prop)

/-- The references lead to the symbols of a pair. -/
def Together (ref ref' : Ref) : Prop :=
  ∃ rule rule', g.StandsFor ref rule ∧ g'.StandsFor ref' rule' ∧ pair rule rule'

/-- The references can be asked for one in the place of the other: they lead to a pair, or to
    nothing at all. -/
def Exchange (ref ref' : Ref) : Prop :=
  Together g g' pair ref ref' ∨ ref = .zeroLength ∧ ref' = .zeroLength

/-- Symbols of two graphs in pairs: in a pair both are of one shape and both have the same name, or
    none; and two pairs share a name on one side if they do on the other. -/
structure Mirrors : Prop where
  guarded : ∀ {u u'}, pair u u' → (g.symbol u).shape.isGuarded = true
  shape : ∀ {u u'}, pair u u' →
    (g.symbol u).shape.Mirrors (Together g g' pair) (g'.symbol u').shape
  name : ∀ {u u'}, pair u u' → (g.symbol u).name.masked = (g'.symbol u').name.masked
  names : ∀ {u u' v v'}, pair u u' → pair v v' →
    ((g.symbol u).name = (g.symbol v).name ↔ (g'.symbol u').name = (g'.symbol v').name)

/-- The same matches are in progress, of the symbols of some pairs. -/
def GuardsMirror : (guard guard' : Guard) → Prop :=
  List.Forall₂ fun entry entry' => entry.2 = entry'.2 ∧
    ∃ u u', pair u u' ∧ entry.1 = (g.symbol u).name ∧ entry'.1 = (g'.symbol u').name

end Defs

/-- The answers are the same, but for the numbers of nameless symbols. -/
abbrev AnswersAlike : (answer answer' : Answer α) → Prop :=
  Option.Rel fun found found' => found.1.masked = found'.1.masked ∧ found.2 = found'.2

/-- The stretches end at the same place, in tokens that are the same but for those numbers. -/
abbrev StretchesAlike : (result result' : Option (Nat × List (Token α))) → Prop :=
  Option.Rel fun found found' =>
    found.2.map Token.masked = found'.2.map Token.masked ∧ found.1 = found'.1

theorem AnswersAlike.of_some {token : Token α} {stop : Nat} {answer : Answer α}
    (h : AnswersAlike (some (token, stop)) answer) :
    ∃ token', answer = some (token', stop) ∧ token.masked = token'.masked := by
  cases h with
  | @some _ found h =>
    obtain ⟨token', stop'⟩ := found
    obtain ⟨htoken, rfl⟩ := h
    exact ⟨token', rfl, htoken⟩

theorem StretchesAlike.of_some {tokens : List (Token α)} {stop : Nat}
    {result : Option (Nat × List (Token α))} (h : StretchesAlike (some (stop, tokens)) result) :
    ∃ tokens', result = some (stop, tokens') ∧
      tokens.map Token.masked = tokens'.map Token.masked := by
  cases h with
  | @some _ found h =>
    obtain ⟨stop', tokens'⟩ := found
    obtain ⟨htokens, rfl⟩ := h
    exact ⟨tokens', rfl, htokens⟩

theorem AnswersAlike.landing_eq {answer answer' : Answer α} (h : AnswersAlike answer answer')
    (p : Nat) : landing p answer = landing p answer' := by
  cases h with
  | none => rfl
  | some h => exact h.2

theorem Shape.Mirrors.isGuarded {together : Ref → Ref → Prop} {shape shape' : Shape}
    (h : shape.Mirrors together shape') :
    shape.isGuarded = true ∧ shape'.isGuarded = true := by
  cases h with
  | leaf alone => cases shape <;> first | exact ⟨rfl, rfl⟩ | cases alone
  | _ => exact ⟨rfl, rfl⟩

theorem Shape.Mirrors.mono {together together' : Ref → Ref → Prop} {shape shape' : Shape}
    (h : shape.Mirrors together shape') (hmono : ∀ r r', together r r' → together' r r') :
    shape.Mirrors together' shape' := by
  cases h with
  | sequence all => exact .sequence (all.imp hmono)
  | junction all => exact .junction (all.imp hmono)
  | multiple one => exact .multiple (hmono _ _ one)
  | option one => exact .option (hmono _ _ one)
  | star one => exact .star (hmono _ _ one)
  | leaf alone => exact .leaf alone

/-! ### Stand-ins -/

section StandIns

variable {g : Graph} {text : List Char} {ref rule skip : Ref} {guard : Guard} {p reach : Nat}
  {answer : Answer α}

theorem Graph.StandsFor.name_eq (h : g.StandsFor ref rule) :
    (g.symbol ref).name = (g.symbol rule).name := by
  rcases h with rfl | h
  · rfl
  · rw [h]

/-- A symbol that is guarded stands for itself only. -/
theorem Graph.StandsFor.eq_of_guarded (h : g.StandsFor ref rule)
    (hguarded : (g.symbol ref).shape.isGuarded = true) : ref = rule := by
  rcases h with rfl | h
  · rfl
  · rw [h] at hguarded
    cases hguarded

/-- A stand-in answers as what it stands for. -/
theorem Graph.StandsFor.yields (h : g.StandsFor ref rule)
    (hrule : Yields g text rule skip guard p answer reach) :
    Yields g text ref skip guard p answer reach := by
  rcases h with rfl | h
  · exact hrule
  · exact .implicit (by rw [h]) hrule

end StandIns

section Guards

variable {g g' : Graph} {pair : Ref → Ref → Prop} {guard guard' : Guard} {u u' ref ref' : Ref}

/-- A symbol is in progress at a position if its partner is. -/
theorem Mirrors.mem_iff (hm : Mirrors g g' pair) (hguard : GuardsMirror g g' pair guard guard')
    (hpair : pair u u') (q : Int) :
    ((g.symbol u).name, q) ∈ guard ↔ ((g'.symbol u').name, q) ∈ guard' := by
  induction hguard with
  | nil => simp
  | @cons entry entry' guard guard' hentry _ ih =>
    obtain ⟨name, q'⟩ := entry
    obtain ⟨name', q''⟩ := entry'
    obtain ⟨hposition, v, v', hpair', hname, hname'⟩ := hentry
    obtain rfl : q' = q'' := hposition
    obtain rfl : name = (g.symbol v).name := hname
    obtain rfl : name' = (g'.symbol v').name := hname'
    simp only [List.mem_cons, Prod.mk.injEq, hm.names hpair hpair', ih]

theorem GuardsMirror.enter (hguard : GuardsMirror g g' pair guard guard') (hpair : pair u u')
    (q : Int) :
    GuardsMirror g g' pair (((g.symbol u).name, q) :: guard) (((g'.symbol u').name, q) :: guard') :=
  .cons ⟨rfl, u, u', hpair, rfl, rfl⟩ hguard

/-- Of two references that go together, both are in progress or none. -/
theorem Mirrors.together_mem_iff (hm : Mirrors g g' pair)
    (hguard : GuardsMirror g g' pair guard guard') (h : Together g g' pair ref ref') (q : Int) :
    ((g.symbol ref).name, q) ∈ guard ↔ ((g'.symbol ref').name, q) ∈ guard' := by
  obtain ⟨u, u', hstands, hstands', hpair⟩ := h
  rw [hstands.name_eq, hstands'.name_eq]
  exact hm.mem_iff hguard hpair q

/-- Inside two symbols of one name, skipping is exchanged as well. -/
theorem Exchange.inside {name name' : Name} {skip skip' : Ref}
    (h : Exchange g g' pair skip skip') (hname : name.masked = name'.masked) :
    Exchange g g' pair (skipInside name skip) (skipInside name' skip') := by
  unfold skipInside
  rw [Name.isLexical_of_masked hname]
  split
  · exact .inr ⟨rfl, rfl⟩
  · exact h

end Guards

/-! ### Matching -/

/-- What comes of a leaf, but for the number of its symbol, does not depend on that. -/
theorem readLeaf_alike {text : List Char} {name name' : Name} {p reach : Nat} {shape : Shape}
    {answer : Answer α} (h : readLeaf text name p shape = some (answer, reach))
    (hname : name.masked = name'.masked) :
    ∃ answer', readLeaf text name' p shape = some (answer', reach) ∧
      AnswersAlike answer answer' := by
  have hclass : ∀ ranges, AnswersAlike (readClass (α := α) text name ranges p)
      (readClass text name' ranges p) := by
    intro ranges
    cases hchar : text[p]? with
    | none =>
      rw [readClass_of_none hchar, readClass_of_none hchar]
      exact .none
    | some c =>
      rw [readClass_of_some hchar, readClass_of_some hchar]
      cases ranges.find? c.toNat with
      | none => exact .none
      | some ordinal => exact .some ⟨Token.masked_leaf _ _ _ _ hname, rfl⟩
  cases shape <;> simp only [readLeaf, Option.some.injEq, Prod.mk.injEq, reduceCtorEq] at h ⊢
  all_goals
    obtain ⟨rfl, rfl⟩ := h
    refine ⟨_, ⟨rfl, rfl⟩, ?_⟩
  case switch ranges => exact hclass ranges
  case anyCharacter => exact hclass _
  case text literal =>
    unfold readText
    split
    · exact .some ⟨Token.masked_leaf _ _ _ _ hname, rfl⟩
    · exact .none
  case character literal =>
    unfold readCharacter
    split
    · exact .some ⟨Token.masked_leaf _ _ _ _ hname, rfl⟩
    · exact .none
  case oddCharacter => exact .none
  case oddText => exact .none

section Matching

variable {g g' : Graph} {pair : Ref → Ref → Prop} {text : List Char}

theorem readLeaf_isLeaf {name : Name} {p : Nat} {shape : Shape} {found : Answer α × Nat}
    (h : readLeaf text name p shape = some found) : shape.isLeaf = true := by
  cases shape <;> first | rfl | cases h

theorem Shape.Mirrors.eq_of_isLeaf {together : Ref → Ref → Prop} {shape shape' : Shape}
    (h : shape.Mirrors together shape') (hleaf : shape.isLeaf = true) : shape' = shape := by
  cases h with
  | leaf alone => rfl
  | _ => cases hleaf

mutual

/-- A symbol answers as its partner does. -/
theorem Yields.mirrored (hm : Mirrors g g' pair) {ref skip ref' skip' : Ref}
    {guard guard' : Guard} {p reach : Nat} {answer : Answer α}
    (h : Yields g text ref skip guard p answer reach) (href : Exchange g g' pair ref ref')
    (hskip : Exchange g g' pair skip skip') (hguard : GuardsMirror g g' pair guard guard') :
    ∃ answer', Yields g' text ref' skip' guard' p answer' reach ∧ AnswersAlike answer answer' := by
  match h with
  | .zeroLength shape =>
    rcases href with ⟨u, u', hstands, -, hpair⟩ | ⟨rfl, rfl⟩
    · have hguarded := hm.guarded hpair
      rcases hstands with rfl | hstands
      · rw [shape] at hguarded
        cases hguarded
      · rw [hstands] at shape
        cases shape
    · exact ⟨_, .zeroLength rfl, .some ⟨rfl, rfl⟩⟩
  | .implicit shape rule =>
    rcases href with ⟨u, u', hstands, hstands', hpair⟩ | ⟨rfl, rfl⟩
    · rcases hstands with rfl | hstands
      · have hguarded := hm.guarded hpair
        rw [shape] at hguarded
        cases hguarded
      · simp only [hstands, Shape.implicit.injEq, Option.some.injEq] at shape
        exact rule.mirrored hm (.inl ⟨u, u', .inl shape.symm, hstands', hpair⟩) hskip hguard
    · cases shape
  | .inProgress guarded mem =>
    rcases href with ⟨u, u', hstands, hstands', hpair⟩ | ⟨rfl, rfl⟩
    · obtain rfl := hstands.eq_of_guarded guarded
      exact ⟨none, hstands'.yields (.inProgress (hm.shape hpair).isGuarded.2
        ((hm.mem_iff hguard hpair _).mp mem)), .none⟩
    · cases guarded
  | .enter guarded fresh body =>
    rcases href with ⟨u, u', hstands, hstands', hpair⟩ | ⟨rfl, rfl⟩
    · obtain rfl := hstands.eq_of_guarded guarded
      obtain ⟨answer', hbody, halike⟩ := body.mirrored hm (hm.shape hpair) (hm.name hpair)
        (hskip.inside (hm.name hpair)) (hguard.enter hpair p)
      exact ⟨answer', hstands'.yields (.enter (hm.shape hpair).isGuarded.2
        (fun hmem => fresh ((hm.mem_iff hguard hpair _).mpr hmem)) hbody), halike⟩
    · cases guarded

theorem ShapeYields.mirrored (hm : Mirrors g g' pair) {shape shape' : Shape} {name name' : Name}
    {skip skip' : Ref} {guard guard' : Guard} {p reach : Nat} {answer : Answer α}
    (h : ShapeYields g text shape name skip guard p answer reach)
    (hshape : shape.Mirrors (Together g g' pair) shape') (hname : name.masked = name'.masked)
    (hskip : Exchange g g' pair skip skip') (hguard : GuardsMirror g g' pair guard guard') :
    ∃ answer', ShapeYields g' text shape' name' skip' guard' p answer' reach ∧
      AnswersAlike answer answer' := by
  match h with
  | .leaf read =>
    obtain ⟨answer', hread, halike⟩ := readLeaf_alike read hname
    rw [hshape.eq_of_isLeaf (readLeaf_isLeaf read)]
    exact ⟨answer', .leaf hread, halike⟩
  | .sequence all =>
    cases hshape with
    | leaf alone => cases alone
    | sequence hmembers =>
      obtain ⟨_, hall, halike⟩ := all.mirrored hm hmembers hskip hguard
      obtain ⟨tokens', rfl, htokens⟩ := halike.of_some
      exact ⟨_, .sequence hall, .some ⟨Token.masked_spanning _ _ _ _ hname htokens, rfl⟩⟩
  | .sequenceFails one =>
    cases hshape with
    | leaf alone => cases alone
    | sequence hmembers =>
      obtain ⟨_, hone, ⟨⟩⟩ := one.mirrored hm hmembers hskip hguard
      exact ⟨none, .sequenceFails hone, .none⟩
  | .junction first =>
    cases hshape with
    | leaf alone => cases alone
    | junction hmembers =>
      obtain ⟨_, hfirst, ⟨hordinal, htoken, hstop⟩⟩ := first.mirrored hm hmembers hskip hguard
      rename_i found
      obtain ⟨ordinal', token', stop'⟩ := found
      obtain rfl := hordinal
      obtain rfl := hstop
      exact ⟨_, .junction hfirst,
        .some ⟨Token.masked_cover _ _ hname htoken (by simp only [List.map_cons, htoken]), rfl⟩⟩
  | .junctionFails failed =>
    cases hshape with
    | leaf alone => cases alone
    | junction hmembers =>
      obtain ⟨_, hfailed, ⟨⟩⟩ := failed.mirrored hm hmembers hskip hguard
      exact ⟨none, .junctionFails hfailed, .none⟩
  | .multiple rounds found =>
    cases hshape with
    | leaf alone => cases alone
    | multiple hinner =>
      obtain ⟨tokens', hrounds, htokens⟩ := rounds.mirrored hm (.inl hinner) hskip hguard
      refine ⟨_, .multiple hrounds ?_, .some ⟨Token.masked_spanning _ _ _ _ hname htokens, rfl⟩⟩
      rintro rfl
      exact found (List.map_eq_nil_iff.mp htokens)
  | .multipleFails rounds =>
    cases hshape with
    | leaf alone => cases alone
    | multiple hinner =>
      obtain ⟨tokens', hrounds, htokens⟩ := rounds.mirrored hm (.inl hinner) hskip hguard
      obtain rfl := List.map_eq_nil_iff.mp htokens.symm
      exact ⟨none, .multipleFails hrounds, .none⟩
  | .option present =>
    cases hshape with
    | leaf alone => cases alone
    | option hinner =>
      obtain ⟨_, hpresent, halike⟩ := present.mirrored hm (.inl hinner) hskip hguard
      obtain ⟨token', rfl, htoken⟩ := halike.of_some
      exact ⟨_, .option hpresent,
        .some ⟨Token.masked_cover _ _ hname htoken (by simp only [List.map_cons, htoken]), rfl⟩⟩
  | .optionAbsent absent =>
    cases hshape with
    | leaf alone => cases alone
    | option hinner =>
      obtain ⟨_, habsent, ⟨⟩⟩ := absent.mirrored hm (.inl hinner) hskip hguard
      exact ⟨_, .optionAbsent habsent, .some ⟨Token.masked_leaf _ _ _ _ hname, rfl⟩⟩
  | .star present =>
    cases hshape with
    | leaf alone => cases alone
    | star hinner =>
      obtain ⟨_, hpresent, halike⟩ := present.mirrored hm (.inl hinner) hskip hguard
      obtain ⟨token', rfl, htoken⟩ := halike.of_some
      exact ⟨_, .star hpresent, .some ⟨Token.masked_cover _ _ hname htoken
        (Token.reads_of_masked htoken).2.2.2.2, rfl⟩⟩
  | .starAbsent absent =>
    cases hshape with
    | leaf alone => cases alone
    | star hinner =>
      obtain ⟨_, habsent, ⟨⟩⟩ := absent.mirrored hm (.inl hinner) hskip hguard
      exact ⟨_, .starAbsent habsent, .some ⟨Token.masked_leaf _ _ _ _ hname, rfl⟩⟩

theorem SkipYields.mirrored (hm : Mirrors g g' pair) {skip skip' : Ref} {guard guard' : Guard}
    {first : Bool} {p q reach : Nat}
    (h : SkipYields (α := α) g text skip guard first p q reach)
    (hskip : Exchange g g' pair skip skip') (hguard : GuardsMirror g g' pair guard guard') :
    SkipYields (α := α) g' text skip' guard' first p q reach := by
  match h with
  | .first => exact .first
  | .between skipped =>
    obtain ⟨answer', hskipped, halike⟩ := skipped.mirrored hm hskip (.inr ⟨rfl, rfl⟩) hguard
    rw [halike.landing_eq]
    exact .between hskipped

theorem MembersYield.mirrored (hm : Mirrors g g' pair) {skip skip' : Ref} {guard guard' : Guard}
    {first : Bool} {p stop reach : Nat} {members members' : List Ref}
    {result : Option (Nat × List (Token α))}
    (h : MembersYield g text skip guard first p stop members result reach)
    (hmembers : List.Forall₂ (Together g g' pair) members members')
    (hskip : Exchange g g' pair skip skip') (hguard : GuardsMirror g g' pair guard guard') :
    ∃ result', MembersYield g' text skip' guard' first p stop members' result' reach ∧
      StretchesAlike result result' := by
  match h with
  | .nil =>
    cases hmembers
    exact ⟨_, .nil, .some ⟨rfl, rfl⟩⟩
  | .fails skipped failed =>
    obtain _ | ⟨hmember, hrest⟩ := hmembers
    obtain ⟨_, hfailed, ⟨⟩⟩ := failed.mirrored hm (.inl hmember) hskip hguard
    exact ⟨none, .fails (skipped.mirrored hm hskip hguard) hfailed, .none⟩
  | .cons skipped matched later =>
    obtain _ | ⟨hmember, hrest⟩ := hmembers
    obtain ⟨_, hmatched, halike⟩ := matched.mirrored hm (.inl hmember) hskip hguard
    obtain ⟨token', rfl, htoken⟩ := halike.of_some
    obtain ⟨_, hlater, halike⟩ := later.mirrored hm hrest hskip hguard
    obtain ⟨tokens', rfl, htokens⟩ := halike.of_some
    rw [Token.isEmpty_of_masked htoken] at hlater
    refine ⟨_, .cons (skipped.mirrored hm hskip hguard) hmatched hlater, .some ⟨?_, rfl⟩⟩
    rw [List.map_cons, List.map_cons, htoken, htokens]
  | .laterFails skipped matched later =>
    obtain _ | ⟨hmember, hrest⟩ := hmembers
    obtain ⟨_, hmatched, halike⟩ := matched.mirrored hm (.inl hmember) hskip hguard
    obtain ⟨token', rfl, htoken⟩ := halike.of_some
    obtain ⟨_, hlater, ⟨⟩⟩ := later.mirrored hm hrest hskip hguard
    rw [Token.isEmpty_of_masked htoken] at hlater
    exact ⟨none, .laterFails (skipped.mirrored hm hskip hguard) hmatched hlater, .none⟩

theorem AlternativesYield.mirrored (hm : Mirrors g g' pair) {skip skip' : Ref}
    {guard guard' : Guard} {p ordinal reach : Nat} {members members' : List Ref}
    {answer : Option (Nat × Token α × Nat)}
    (h : AlternativesYield g text skip guard p ordinal members answer reach)
    (hmembers : List.Forall₂ (Together g g' pair) members members')
    (hskip : Exchange g g' pair skip skip') (hguard : GuardsMirror g g' pair guard guard') :
    ∃ answer', AlternativesYield g' text skip' guard' p ordinal members' answer' reach ∧
      Option.Rel (fun found found' => found.1 = found'.1 ∧
        found.2.1.masked = found'.2.1.masked ∧ found.2.2 = found'.2.2) answer answer' := by
  match h with
  | .nil =>
    cases hmembers
    exact ⟨none, .nil, .none⟩
  | .inProgress mem later =>
    obtain _ | ⟨hmember, hrest⟩ := hmembers
    obtain ⟨answer', hlater, halike⟩ := later.mirrored hm hrest hskip hguard
    exact ⟨answer', .inProgress ((hm.together_mem_iff hguard hmember _).mp mem) hlater, halike⟩
  | .matched fresh matched =>
    obtain _ | ⟨hmember, hrest⟩ := hmembers
    obtain ⟨_, hmatched, halike⟩ := matched.mirrored hm (.inl hmember) hskip hguard
    obtain ⟨token', rfl, htoken⟩ := halike.of_some
    exact ⟨_, .matched (fun hmem => fresh ((hm.together_mem_iff hguard hmember _).mpr hmem))
      hmatched, .some ⟨rfl, htoken, rfl⟩⟩
  | .failed fresh failed later =>
    obtain _ | ⟨hmember, hrest⟩ := hmembers
    obtain ⟨_, hfailed, ⟨⟩⟩ := failed.mirrored hm (.inl hmember) hskip hguard
    obtain ⟨answer', hlater, halike⟩ := later.mirrored hm hrest hskip hguard
    exact ⟨answer', .failed (fun hmem => fresh ((hm.together_mem_iff hguard hmember _).mpr hmem))
      hfailed hlater, halike⟩

theorem RoundsYield.mirrored (hm : Mirrors g g' pair) {skip skip' inner inner' : Ref}
    {guard guard' : Guard} {first afterEmpty : Bool} {p stop reach : Nat}
    {result : Nat × List (Token α)}
    (h : RoundsYield g text skip guard inner first p stop afterEmpty result reach)
    (hinner : Exchange g g' pair inner inner')
    (hskip : Exchange g g' pair skip skip') (hguard : GuardsMirror g g' pair guard guard') :
    ∃ tokens', RoundsYield g' text skip' guard' inner' first p stop afterEmpty
      (result.1, tokens') reach ∧ result.2.map Token.masked = tokens'.map Token.masked := by
  match h with
  | .fails skipped failed =>
    obtain ⟨_, hfailed, ⟨⟩⟩ := failed.mirrored hm hinner hskip hguard
    exact ⟨[], .fails (skipped.mirrored hm hskip hguard) hfailed, rfl⟩
  | .secondEmpty skipped matched empty =>
    obtain ⟨_, hmatched, halike⟩ := matched.mirrored hm hinner hskip hguard
    obtain ⟨token', rfl, htoken⟩ := halike.of_some
    rw [Token.isEmpty_of_masked htoken] at empty
    exact ⟨[], .secondEmpty (skipped.mirrored hm hskip hguard) hmatched empty, rfl⟩
  | .empty skipped matched empty later =>
    obtain ⟨_, hmatched, halike⟩ := matched.mirrored hm hinner hskip hguard
    obtain ⟨token', rfl, htoken⟩ := halike.of_some
    rw [Token.isEmpty_of_masked htoken] at empty
    obtain ⟨tokens', hlater, htokens⟩ := later.mirrored hm hinner hskip hguard
    refine ⟨_, .empty (skipped.mirrored hm hskip hguard) hmatched empty hlater, ?_⟩
    rw [List.map_cons, List.map_cons, htoken, htokens]
  | .covers skipped matched covers later =>
    obtain ⟨_, hmatched, halike⟩ := matched.mirrored hm hinner hskip hguard
    obtain ⟨token', rfl, htoken⟩ := halike.of_some
    rw [Token.isEmpty_of_masked htoken] at covers
    obtain ⟨tokens', hlater, htokens⟩ := later.mirrored hm hinner hskip hguard
    refine ⟨_, .covers (skipped.mirrored hm hskip hguard) hmatched covers hlater, ?_⟩
    rw [List.map_cons, List.map_cons, htoken, htokens]

end

end Matching

/-! ### Whole texts -/

namespace Grammar

/-- Two grammars with the same listeners, whose rules mirror each other, with start and skip rules
    that go together. -/
structure Mirror (gr gr' : Grammar σ α) (pair : Ref → Ref → Prop) : Prop where
  mirrors : Mirrors gr.ruleSet.graph gr'.ruleSet.graph pair
  start : pair gr.startRule gr'.startRule
  skip : pair gr.skipRule gr'.skipRule
  listeners : gr'.listeners = gr.listeners

variable {gr gr' : Grammar σ α} {pair : Ref → Ref → Prop} {text : String}
  {verdict : Verdict α}

/-- What comes of a text with a grammar comes of it with its mirror image. -/
theorem Decides.mirrored (h : gr.Decides text verdict) (hm : gr.Mirror gr' pair) :
    ∃ verdict', gr'.Decides text verdict' ∧ verdict.masked = verdict'.masked := by
  have hzero : Exchange gr.ruleSet.graph gr'.ruleSet.graph pair .zeroLength .zeroLength :=
    .inr ⟨rfl, rfl⟩
  have hstart : Exchange gr.ruleSet.graph gr'.ruleSet.graph pair gr.startRule gr'.startRule :=
    .inl ⟨_, _, .inl rfl, .inl rfl, hm.start⟩
  have hskip : Exchange gr.ruleSet.graph gr'.ruleSet.graph pair gr.skipRule gr'.skipRule :=
    .inl ⟨_, _, .inl rfl, .inl rfl, hm.skip⟩
  cases h with
  | fails skipped failed =>
    obtain ⟨_, hskipped, halike⟩ := skipped.mirrored hm.mirrors hskip hzero .nil
    obtain ⟨_, hfailed, ⟨⟩⟩ := failed.mirrored hm.mirrors hstart hskip .nil
    rw [halike.landing_eq] at hfailed
    exact ⟨_, .fails hskipped hfailed, rfl⟩
  | «matches» skipped matched skipped' =>
    obtain ⟨_, hskipped, halike⟩ := skipped.mirrored hm.mirrors hskip hzero .nil
    obtain ⟨_, hmatched, halike'⟩ := matched.mirrored hm.mirrors hstart hskip .nil
    obtain ⟨root', rfl, hroot⟩ := halike'.of_some
    obtain ⟨_, hskipped', halike'⟩ := skipped'.mirrored hm.mirrors hskip hzero .nil
    rw [halike.landing_eq] at hmatched
    refine ⟨_, .matches hskipped hmatched hskipped', ?_⟩
    rw [← halike'.landing_eq, Verdict.atEnd, Verdict.atEnd]
    split
    · rfl
    · exact congrArg Verdict.accepted hroot

section Payloads

variable [PayloadType α] {limit limit' : Nat} {verdict' : Verdict α}

theorem Mirror.agrees (hm : gr.Mirror gr' pair) (hblind : AreBlind gr.listenerFor)
    (h : verdict.IsOf text (gr.matchInput limit (.beginning text)))
    (h' : verdict'.IsOf text (gr'.matchInput limit' (.beginning text)))
    (hmasked : verdict.masked = verdict'.masked) (state : σ) :
    (gr.parseTree limit text state).Agrees Token.masked (gr'.parseTree limit' text state) := by
  have hlisteners : gr'.listenerFor = gr.listenerFor := by
    funext name
    cases name with
    | given text => exact congrArg (·.get? text) hm.listeners
    | generated serial => rfl
  obtain ⟨hresult, hstate⟩ := settle_agrees hlisteners hblind hmasked text state
  obtain ⟨heq, hstate₁⟩ := parseTree_of_isOf h state
  obtain ⟨heq', hstate₂⟩ := parseTree_of_isOf h' state
  exact ⟨by rw [heq, heq', hresult], by rw [hstate₁, hstate₂, hstate]⟩

/-- A parse comes to what one with the mirror image comes to, whatever the nesting limits are,
    unless one of the two is nested too deeply; and from some limit on neither is. -/
theorem parseTree_mirrored (hsound : gr.ruleSet.IsSound) (hm : gr.Mirror gr' pair)
    (hblind : AreBlind gr.listenerFor) (text : String) (state : σ) :
    (∀ limit limit',
      (gr.parseTree limit text state).Agrees Token.masked (gr'.parseTree limit' text state) ∨
        (∃ e, (gr.parseTree limit text state).result = .error e ∧ e.IsTooDeep) ∨
        ∃ e, (gr'.parseTree limit' text state).result = .error e ∧ e.IsTooDeep) ∧
    ∃ enough, ∀ limit, enough ≤ limit → ∀ limit', enough ≤ limit' →
      (gr.parseTree limit text state).Agrees Token.masked (gr'.parseTree limit' text state) := by
  obtain ⟨verdict, hdecides⟩ := exists_decides hsound text
  obtain ⟨verdict', hdecides', hmasked⟩ := hdecides.mirrored hm
  constructor
  · intro limit limit'
    rcases hdecides.isOf_or limit with hof | ⟨e, s, hrun, hdeep⟩
    · rcases hdecides'.isOf_or limit' with hof' | ⟨e, s, hrun, hdeep⟩
      · exact .inl (hm.agrees hblind hof hof' hmasked state)
      · exact .inr (.inr ⟨e, (parseTree_of_error hrun state).1, hdeep⟩)
    · exact .inr (.inl ⟨e, (parseTree_of_error hrun state).1, hdeep⟩)
  · obtain ⟨enough, henough⟩ := Filter.eventually_atTop.mp
      (hdecides.eventually.and hdecides'.eventually)
    exact ⟨enough, fun limit hlimit limit' hlimit' =>
      hm.agrees hblind (henough limit hlimit).1 (henough limit' hlimit').2 hmasked state⟩

end Payloads

end Grammar

end GrammarEngine
