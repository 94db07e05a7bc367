import GrammarEngine.Proofs.Mirrors
import GrammarEngine.Proofs.Renaming

namespace GrammarEngine

/-!
# A star is an option of a repetition

With an option in the place of each star, of the repetition that is the work of the star, every
match goes the same way. Only the tokens are different: the token of the repetition is below that of
the option, where a star has the repetitions right below it.

* `Graph.unstarred` — the graph with options in the place of its stars;
* `Collapses` — the token that a symbol makes, and what it makes if the token of each such option is
  collapsed to that of a star;
* `Collapses.unique` — there is one way to collapse a token;
* `Tallies` — two steps end in the same state, with values that belong together;
* `matchMembers_tallies` … `guarded_tallies` — one part of a match after the other;
* `matchWithin_unstarred` — whole matches.
-/

open MatchM

variable {α β β' γ γ' : Type} {g : Graph}

/-! ### Options in the place of stars -/

/-- The shape, or that of an option if it is that of a star. -/
def Shape.unstarred : Shape → Shape
  | .star repetition => .option repetition
  | shape => shape

def Symbol.unstarred (symbol : Symbol) : Symbol := { symbol with shape := symbol.shape.unstarred }

/-- The graph with an option in the place of each star. What it is an option of is the repetition of
    the star, and the names of both stay as they are. -/
def Graph.unstarred (g : Graph) : Graph := ⟨g.nodes.map Symbol.unstarred⟩

@[simp] theorem Graph.symbol_unstarred (g : Graph) (ref : Ref) :
    g.unstarred.symbol ref = (g.symbol ref).unstarred := by
  cases ref with
  | zeroLength => rfl
  | foreign => simp [symbol, unstarred, Symbol.unstarred, Shape.unstarred]
  | node index =>
    simp only [symbol, unstarred, Array.getD_eq_getD_getElem?, Array.getElem?_map]
    cases g.nodes[index]? with
    | none => rfl
    | some symbol => rfl

@[simp] theorem Symbol.name_unstarred (symbol : Symbol) : symbol.unstarred.name = symbol.name := rfl

@[simp] theorem Symbol.shape_unstarred (symbol : Symbol) :
    symbol.unstarred.shape = symbol.shape.unstarred := rfl

@[simp] theorem Shape.isGuarded_unstarred (shape : Shape) :
    shape.unstarred.isGuarded = shape.isGuarded := by
  cases shape <;> rfl

theorem Graph.add_unstarred (name : Option String) (shape : Shape) (g : Graph) :
    (add name shape.unstarred).run g.unstarred =
      (((add name shape).run g).1, ((add name shape).run g).2.unstarred) := by
  cases name <;> simp [add, unstarred, nameFor, Symbol.unstarred, StateT.run]

/-- Where a star is made, the graph gets an option of a repetition, of the same names. -/
theorem Graph.addStar_unstarred (name : Option String) (inner : Ref) (g : Graph) :
    (add none (.multiple inner) >>= fun repetition => add name (.option repetition)).run
        g.unstarred =
      (((addStar name inner).run g).1, ((addStar name inner).run g).2.unstarred) := by
  have hrepetition : (add none (.multiple inner)).run g.unstarred = _ :=
    add_unstarred none (.multiple inner) g
  show (add name (.option ((add none (.multiple inner)).run g.unstarred).1)).run
    ((add none (.multiple inner)).run g.unstarred).2 = _
  rw [hrepetition]
  exact add_unstarred name (.star _) _

/-! ### Tokens -/

mutual

/-- The symbol makes a token. With the token of each option that stands for a star collapsed, it is
    another one. -/
inductive Collapses (g : Graph) : Ref → Token α → Token α → Prop
  | zeroLength {ref : Ref} (shape : (g.symbol ref).shape = .zeroLength) :
      Collapses g ref (.sentinel .empty) (.sentinel .empty)
  | implicit {ref target : Ref} {t t' : Token α}
      (shape : (g.symbol ref).shape = .implicit (some target)) (rule : Collapses g target t t') :
      Collapses g ref t t'
  | made {ref : Ref} {t t' : Token α} (guarded : (g.symbol ref).shape.isGuarded = true)
      (body : ShapeCollapses g (g.symbol ref).shape t t') : Collapses g ref t t'

/-- The same for a symbol of some shape. Below the token of an option that stands for a star is that
    of the repetition, and what is below that one is below the token of the star. -/
inductive ShapeCollapses (g : Graph) : Shape → Token α → Token α → Prop
  | leaf {shape : Shape} {t : Token α} (alone : shape.isLeaf = true) : ShapeCollapses g shape t t
  | sequence {members : List Ref} {header : Header} {tokens tokens' : List (Token α)}
      (each : EachCollapses g members tokens tokens') :
      ShapeCollapses g (.sequence members) (.node header tokens none) (.node header tokens' none)
  | junction {members : List Ref} {header : Header} {member : Ref} {t t' : Token α}
      (mem : members[header.ordinal]? = some member) (chosen : Collapses g member t t') :
      ShapeCollapses g (.junction members) (.node header [t] none) (.node header [t'] none)
  | multiple {inner : Ref} {header : Header} {tokens tokens' : List (Token α)}
      (kind : header.kind = .multiple)
      (each : EachCollapses g (List.replicate tokens.length inner) tokens tokens') :
      ShapeCollapses g (.multiple inner) (.node header tokens none) (.node header tokens' none)
  | option {inner : Ref} {header : Header} {t t' : Token α} (present : Collapses g inner t t') :
      ShapeCollapses g (.option inner) (.node header [t] none) (.node header [t'] none)
  | optionAbsent {inner : Ref} {header : Header} :
      ShapeCollapses g (.option inner) (.node header [] none) (.node header [] none)
  | star {repetition : Ref} {name : Name} {substring : String} {start : Int} {t t' : Token α}
      (present : Collapses g repetition t t') :
      ShapeCollapses g (.star repetition) (.node ⟨.option, name, substring, start, 0⟩ [t] none)
        (.node ⟨.star, name, substring, start, 0⟩ t'.children none)
  | starAbsent {repetition : Ref} {name : Name} {substring : String} {start : Int} :
      ShapeCollapses g (.star repetition) (.node ⟨.option, name, substring, start, 0⟩ [] none)
        (.node ⟨.star, name, substring, start, 0⟩ [] none)

/-- The same for symbols that make one token each. -/
inductive EachCollapses (g : Graph) : List Ref → List (Token α) → List (Token α) → Prop
  | nil : EachCollapses g [] [] []
  | cons {ref : Ref} {refs : List Ref} {t t' : Token α} {tokens tokens' : List (Token α)}
      (head : Collapses g ref t t') (tail : EachCollapses g refs tokens tokens') :
      EachCollapses g (ref :: refs) (t :: tokens) (t' :: tokens')

end

mutual

/-- There is one way to collapse a token. -/
theorem Collapses.unique {ref : Ref} {t t' t'' : Token α} (h : Collapses g ref t t')
    (h' : Collapses g ref t t'') : t' = t'' := by
  match h with
  | .zeroLength shape =>
    cases h' with
    | zeroLength _ => rfl
    | implicit shape' _ => rw [shape] at shape'; cases shape'
    | made guarded _ => rw [shape] at guarded; cases guarded
  | .implicit shape rule =>
    cases h' with
    | zeroLength shape' => rw [shape] at shape'; cases shape'
    | implicit shape' rule' =>
      rw [shape] at shape'
      cases shape'
      exact rule.unique rule'
    | made guarded _ => rw [shape] at guarded; cases guarded
  | .made guarded body =>
    cases h' with
    | zeroLength shape => rw [shape] at guarded; cases guarded
    | implicit shape _ => rw [shape] at guarded; cases guarded
    | made _ body' => exact body.unique body'

theorem ShapeCollapses.unique {shape : Shape} {t t' t'' : Token α}
    (h : ShapeCollapses g shape t t') (h' : ShapeCollapses g shape t t'') : t' = t'' := by
  match h with
  | .leaf alone => cases h' <;> first | rfl | cases alone
  | .sequence each =>
    cases h' with
    | leaf alone => cases alone
    | sequence each' => rw [each.unique each']
  | .junction mem chosen =>
    cases h' with
    | leaf alone => cases alone
    | junction mem' chosen' =>
      obtain rfl := Option.some.inj (mem.symm.trans mem')
      rw [chosen.unique chosen']
  | .multiple _ each =>
    cases h' with
    | leaf alone => cases alone
    | multiple _ each' => rw [each.unique each']
  | .option present =>
    cases h' with
    | leaf alone => cases alone
    | option present' => rw [present.unique present']
  | .optionAbsent =>
    cases h' with
    | leaf alone => cases alone
    | optionAbsent => rfl
  | .star present =>
    cases h' with
    | leaf alone => cases alone
    | star present' => rw [present.unique present']
  | .starAbsent =>
    cases h' with
    | leaf alone => cases alone
    | starAbsent => rfl

theorem EachCollapses.unique {refs : List Ref} {tokens tokens' tokens'' : List (Token α)}
    (h : EachCollapses g refs tokens tokens') (h' : EachCollapses g refs tokens tokens'') :
    tokens' = tokens'' := by
  match h with
  | .nil =>
    cases h'
    rfl
  | .cons head tail =>
    cases h' with
    | cons head' tail' => rw [head.unique head', tail.unique tail']

end

/-- A guarded symbol makes what its shape makes. -/
theorem Collapses.body {ref : Ref} {shape : Shape} {t t' : Token α} (h : Collapses g ref t t')
    (hshape : (g.symbol ref).shape = shape) (hguarded : shape.isGuarded = true) :
    ShapeCollapses g shape t t' := by
  subst hshape
  cases h with
  | zeroLength shape => rw [shape] at hguarded; cases hguarded
  | implicit shape _ => rw [shape] at hguarded; cases hguarded
  | made _ body => exact body

section Tokens

variable {ref : Ref} {refs : List Ref} {t t' : Token α} {tokens tokens' : List (Token α)}

/-- The tokens cover the same text, from the same position on. -/
theorem ShapeCollapses.covers_eq {shape : Shape} (h : ShapeCollapses g shape t t') :
    t.substring = t'.substring ∧ t.start = t'.start := by
  cases h <;> exact ⟨rfl, rfl⟩

theorem Collapses.covers_eq {ref : Ref} {t t' : Token α} (h : Collapses g ref t t') :
    t.substring = t'.substring ∧ t.start = t'.start := by
  match h with
  | .zeroLength _ => exact ⟨rfl, rfl⟩
  | .implicit _ rule => exact rule.covers_eq
  | .made _ body => exact body.covers_eq

theorem Collapses.isEmpty_eq (h : Collapses g ref t t') : t.isEmpty = t'.isEmpty := by
  rw [Token.isEmpty, Token.isEmpty, h.covers_eq.1]

theorem EachCollapses.isEmpty_eq (h : EachCollapses g refs tokens tokens') :
    tokens.isEmpty = tokens'.isEmpty := by
  cases h <;> rfl

theorem EachCollapses.concat {refs : List Ref} {tokens tokens' : List (Token α)}
    (h : EachCollapses g refs tokens tokens') (hlast : Collapses g ref t t') :
    EachCollapses g (refs ++ [ref]) (tokens ++ [t]) (tokens' ++ [t']) := by
  match h with
  | .nil => exact .cons hlast .nil
  | .cons head tail => exact .cons head (tail.concat hlast)

end Tokens

/-! ### Two steps that tally -/

/-- Started in the same state, both steps end well in the same state, with values that belong
    together, or badly with the same error in the same state. -/
def Tallies (rel : β → γ → Prop) (x : MatchM β) (y : MatchM γ) : Prop :=
  ∀ s, EndBoth (fun b s' c t => rel b c ∧ s' = t) (fun e s' e' t => e = e' ∧ s' = t) (x s) (y s)

namespace Tallies

variable {rel rel' : β → γ → Prop} {x : MatchM β} {y : MatchM γ}

theorem refl (x : MatchM β) : Tallies Eq x x := by
  intro s
  cases x s <;> exact ⟨rfl, rfl⟩

theorem pure {b : β} {c : γ} (h : rel b c) : Tallies rel (Pure.pure b) (Pure.pure c) :=
  fun _ => ⟨h, rfl⟩

theorem throw (e : Error) :
    Tallies rel (MonadExcept.throw e : MatchM β) (MonadExcept.throw e) := fun _ => ⟨rfl, rfl⟩

theorem mono (h : Tallies rel x y) (hrel : ∀ b c, rel b c → rel' b c) : Tallies rel' x y :=
  fun s => (h s).mono (fun b _ c _ hgood => ⟨hrel b c hgood.1, hgood.2⟩) fun _ _ _ _ hbad => hbad

/-- Two matches whose tokens belong together in one way and thus in another one. -/
theorem imp {x y : MatchM (Option β)} {good good' : β → β → Prop}
    (h : Tallies (Option.Rel good) x y) (hgood : ∀ b c, good b c → good' b c) :
    Tallies (Option.Rel good') x y := by
  refine h.mono ?_
  rintro _ _ (hbc | _)
  · exact .some (hgood _ _ hbc)
  · exact .none

theorem bind {next : β' → γ' → Prop} {F : β → MatchM β'} {F' : γ → MatchM γ'}
    (h : Tallies rel x y) (hF : ∀ b c, rel b c → Tallies next (F b) (F' c)) :
    Tallies next (x >>= F) (y >>= F') := by
  intro s
  refine EndBoth.bind (h s) ?_
  rintro b s' c _ ⟨hrel, rfl⟩
  exact hF b c hrel s'

/-- The first steps are the same. -/
theorem bind_eq {next : β' → γ' → Prop} {F : β → MatchM β'} {F' : β → MatchM γ'}
    (hF : ∀ b, Tallies next (F b) (F' b)) : Tallies next (x >>= F) (x >>= F') := by
  refine .bind (.refl x) ?_
  rintro b _ rfl
  exact hF b

theorem ite {p : Prop} [Decidable p] {x' : MatchM β} {y' : MatchM γ} (h : Tallies rel x y)
    (h' : Tallies rel x' y') : Tallies rel (if p then x else x') (if p then y else y') := by
  split
  · exact h
  · exact h'

end Tallies

/-- Asked for the same symbol, the second one answers with the token of the first one,
    collapsed. -/
def Ask.Tallies (g : Graph) (ask ask' : Ask α) : Prop :=
  ∀ ref skip, GrammarEngine.Tallies (Option.Rel (Collapses g ref)) (ask ref skip) (ask' ref skip)

/-! ### The loops -/

section Loops

variable {ask ask' : Ask α} {skip : Ref} {found found' : List (Token α)}

theorem skipBefore_tallies (hask : ask.Tallies g ask') (h : found.isEmpty = found'.isEmpty) :
    Tallies (fun _ _ => True) (skipBefore ask skip found) (skipBefore ask' skip found') := by
  unfold skipBefore
  rw [h]
  exact .ite (.bind (hask skip .zeroLength) fun _ _ _ => .pure trivial) (.pure trivial)

theorem matchMembers_tallies (hask : ask.Tallies g ask') (members : List Ref) (stop : Int)
    {done : List Ref} (h : EachCollapses g done found.reverse found'.reverse) :
    Tallies (Option.Rel fun result result' => result.1 = result'.1 ∧
        EachCollapses g (done ++ members) result.2.reverse result'.2.reverse)
      (matchMembers ask skip stop found members) (matchMembers ask' skip stop found' members) := by
  induction members generalizing stop done found found' with
  | nil =>
    rw [List.append_nil]
    exact .pure (.some ⟨rfl, h⟩)
  | cons member members ih =>
    have hempty : found.isEmpty = found'.isEmpty := by simpa using h.isEmpty_eq
    unfold matchMembers
    refine .bind (skipBefore_tallies hask hempty) fun _ _ _ =>
      .bind (hask member skip) fun token? token?' htoken => ?_
    cases htoken with
    | none => exact .pure .none
    | @some token token' htoken =>
      have hmore : EachCollapses g (done ++ [member]) (token :: found).reverse
          (token' :: found').reverse := by
        rw [List.reverse_cons, List.reverse_cons]
        exact h.concat htoken
      simp only [htoken.isEmpty_eq]
      rw [List.append_cons]
      exact .ite (.bind_eq fun stop => ih stop hmore) (.bind_eq fun stop => ih stop hmore)

theorem matchAlternatives_tallies (hask : ask.Tallies g ask') (members : List Ref) (start : Int)
    (done : List Ref) :
    Tallies (Option.Rel fun result result' => result.1 = result'.1 ∧
        ∃ member, (done ++ members)[result.1]? = some member ∧
          Collapses g member result.2 result'.2)
      (matchAlternatives g.unstarred ask skip start done.length members)
      (matchAlternatives g ask' skip start done.length members) := by
  induction members generalizing done with
  | nil => exact .pure .none
  | cons member members ih =>
    unfold matchAlternatives
    rw [Graph.symbol_unstarred, Symbol.name_unstarred]
    have hlater := ih (done ++ [member])
    rw [← List.append_cons, List.length_append, List.length_singleton] at hlater
    refine .bind_eq fun inProgress => .ite hlater (.bind (hask member skip) ?_)
    rintro _ _ (htoken | _)
    · exact .pure (.some ⟨rfl, member, by simp, htoken⟩)
    · exact hlater

theorem matchRounds_tallies (hask : ask.Tallies g ask') (inner : Ref) (rounds : Nat) (stop : Int)
    (afterEmpty : Bool)
    (h : EachCollapses g (List.replicate found.length inner) found.reverse found'.reverse) :
    Tallies (fun result result' => result.1 = result'.1 ∧
        EachCollapses g (List.replicate result.2.length inner) result.2.reverse
          result'.2.reverse)
      (matchRounds ask skip inner rounds stop afterEmpty found)
      (matchRounds ask' skip inner rounds stop afterEmpty found') := by
  induction rounds generalizing stop afterEmpty found found' with
  | zero => exact .pure ⟨rfl, h⟩
  | succ rounds ih =>
    have hempty : found.isEmpty = found'.isEmpty := by simpa using h.isEmpty_eq
    unfold matchRounds
    refine .bind (skipBefore_tallies hask hempty) fun _ _ _ => .bind (hask inner skip) ?_
    rintro _ _ (@⟨token, token', htoken⟩ | _)
    · have hmore : EachCollapses g (List.replicate (token :: found).length inner)
          (token :: found).reverse (token' :: found').reverse := by
        rw [List.length_cons, List.replicate_succ', List.reverse_cons, List.reverse_cons]
        exact h.concat htoken
      simp only [htoken.isEmpty_eq]
      exact .ite (.bind_eq fun stop => ih stop false hmore)
        (.ite (.pure ⟨rfl, h⟩) (ih stop true hmore))
    · exact .pure ⟨rfl, h⟩

end Loops

/-! ### The shapes -/

section Shapes

variable {ask ask' : Ask α} {name : Name} {skip : Ref}

theorem spanToken_tallies (kind : Kind) (start stop : Int) (children children' : List (Token α)) :
    Tallies (fun t t' => ∃ header : Header, header.kind = kind ∧
        t = .node header children none ∧ t' = .node header children' none)
      (spanToken kind name start stop children) (spanToken kind name start stop children') :=
  .bind_eq fun _ => .bind_eq fun _ => .bind_eq fun _ => .pure ⟨_, rfl, rfl, rfl⟩

theorem matchSequence_tallies (hask : ask.Tallies g ask') (members : List Ref) :
    Tallies (Option.Rel (ShapeCollapses g (.sequence members)))
      (matchSequence ask name skip members) (matchSequence ask' name skip members) := by
  refine .bind_eq fun start => .bind_eq fun _ =>
    .bind (matchMembers_tallies hask members start .nil) ?_
  rintro _ _ (@⟨⟨stop, found⟩, ⟨_, found'⟩, rfl, heach⟩ | _)
  · refine .bind_eq fun _ => .bind (spanToken_tallies _ _ _ _ _) ?_
    rintro _ _ ⟨header, -, rfl, rfl⟩
    exact .pure (.some (.sequence heach))
  · exact .bind_eq fun _ => .pure .none

theorem matchJunction_tallies (hask : ask.Tallies g ask') (members : List Ref) :
    Tallies (Option.Rel (ShapeCollapses g (.junction members)))
      (matchJunction g.unstarred ask name skip members)
      (matchJunction g ask' name skip members) := by
  refine .bind_eq fun start => .bind (matchAlternatives_tallies hask members start []) ?_
  rintro _ _ (@⟨⟨ordinal, t⟩, ⟨_, t'⟩, rfl, member, hmember, htoken⟩ | _)
  · refine .pure (.some ?_)
    rw [coverToken, coverToken, htoken.covers_eq.1, htoken.covers_eq.2]
    exact .junction hmember htoken
  · exact .pure .none

theorem matchMultiple_tallies (hask : ask.Tallies g ask') (inner : Ref) :
    Tallies (Option.Rel (ShapeCollapses g (.multiple inner)))
      (matchMultiple ask name skip inner) (matchMultiple ask' name skip inner) := by
  refine .bind_eq fun start => .bind_eq fun s =>
    .bind (matchRounds_tallies hask inner _ start false .nil) ?_
  rintro ⟨stop, found⟩ ⟨_, found'⟩ ⟨rfl, heach⟩
  have hempty : found.isEmpty = found'.isEmpty := by simpa using heach.isEmpty_eq
  simp only [hempty]
  refine .ite (.pure .none) (.bind (spanToken_tallies _ _ _ _ _) ?_)
  rintro _ _ ⟨header, hkind, rfl, rfl⟩
  rw [← List.length_reverse] at heach
  exact .pure (.some (.multiple hkind heach))

theorem matchOption_tallies (hask : ask.Tallies g ask') (inner : Ref) :
    Tallies (Option.Rel (ShapeCollapses g (.option inner)))
      (matchOption ask name skip inner) (matchOption ask' name skip inner) := by
  refine .bind (hask inner skip) ?_
  rintro _ _ (htoken | _)
  · refine .pure (.some ?_)
    rw [coverToken, coverToken, htoken.covers_eq.1, htoken.covers_eq.2]
    exact .option htoken
  · exact .bind_eq fun _ => .pure (.some .optionAbsent)

/-- An option on one side, and a star on the other. -/
theorem matchOption_matchStar_tallies (hask : ask.Tallies g ask') (repetition : Ref) :
    Tallies (Option.Rel (ShapeCollapses g (.star repetition)))
      (matchOption ask name skip repetition) (matchStar ask' name skip repetition) := by
  refine .bind (hask repetition skip) ?_
  rintro _ _ (htoken | _)
  · refine .pure (.some ?_)
    rw [coverToken, coverToken, htoken.covers_eq.1, htoken.covers_eq.2]
    exact .star htoken
  · exact .bind_eq fun _ => .pure (.some .starAbsent)

theorem shapeBody_tallies (hask : ask.Tallies g ask') (shape : Shape) :
    Tallies (Option.Rel (ShapeCollapses g shape))
      (shapeBody g.unstarred ask name skip shape.unstarred) (shapeBody g ask' name skip shape) := by
  -- What a leaf matches is up to itself alone.
  have hleaf : ∀ shape : Shape, shape.isLeaf = true → ∀ x : MatchM (Option (Token α)),
      Tallies (Option.Rel (ShapeCollapses g shape)) x x := by
    intro shape hshape x
    refine (Tallies.refl x).mono ?_
    rintro token? _ rfl
    cases token? with
    | none => exact .none
    | some token => exact .some (.leaf hshape)
  cases shape with
  | sequence members => exact matchSequence_tallies hask members
  | junction members => exact matchJunction_tallies hask members
  | multiple inner => exact matchMultiple_tallies hask inner
  | option inner => exact matchOption_tallies hask inner
  | star repetition => exact matchOption_matchStar_tallies hask repetition
  | switch | anyCharacter | text | character | oddCharacter | oddText => exact hleaf _ rfl _
  | implicit | zeroLength | foreign => exact .pure .none

end Shapes

/-! ### Any symbol -/

theorem guarded_tallies {name : Name} {rel : Token α → Token α → Prop}
    {body body' : MatchM (Option (Token α))}
    (hrel : ∀ t t', rel t t' → t.substring = t'.substring)
    (h : Tallies (Option.Rel rel) body body') :
    Tallies (Option.Rel rel) (guarded name body) (guarded name body') := by
  intro s
  rw [guarded_eq, guarded_eq]
  by_cases hmem : (name, s.stream.position) ∈ s.guard
  · rw [if_pos hmem, if_pos hmem]
    exact ⟨.none, rfl⟩
  · rw [if_neg hmem, if_neg hmem]
    rcases (h (s.enter (name, s.stream.position))).elim with
      ⟨_, t, _, _, hrun, hrun', htoken, rfl⟩ | ⟨e, t, _, _, hrun, hrun', rfl, rfl⟩
    · rw [hrun, hrun']
      cases htoken with
      | none => exact ⟨.none, rfl⟩
      | some htoken =>
        refine ⟨.some htoken, ?_⟩
        rw [hrel _ _ htoken]
    · -- Running out of text is a failure, and any other error goes through.
      rw [hrun, hrun']
      cases e with
      | exhausted cause => exact ⟨.none, rfl⟩
      | _ => exact ⟨rfl, rfl⟩

/-- However deep the nesting may be, a match goes the same way in both graphs. -/
theorem matchWithin_tallies (g : Graph) (limit : Nat) :
    (matchWithin (α := α) g.unstarred limit).Tallies g (matchWithin g limit) := by
  induction limit with
  | zero => exact fun _ _ => .throw _
  | succ limit ih =>
    intro ref skip
    have hshape : ∀ shape, (g.symbol ref).shape = shape →
        (g.unstarred.symbol ref).shape = shape.unstarred := by
      rintro _ rfl
      simp
    have hname : (g.unstarred.symbol ref).name = (g.symbol ref).name := by simp
    rw [matchWithin, matchWithin]
    rcases (g.symbol ref).shape.guarded_or with
      hguarded | hundefined | ⟨target, himplicit⟩ | hzero | hforeign
    · have hguarded' : (g.unstarred.symbol ref).shape.isGuarded = true := by simpa using hguarded
      rw [matchStep_guarded skip hguarded', matchStep_guarded skip hguarded, hshape _ rfl, hname]
      exact .imp (guarded_tallies (fun _ _ h => ShapeCollapses.covers_eq h |>.1)
        (shapeBody_tallies ih (g.symbol ref).shape)) fun _ _ => .made hguarded
    · rw [matchStep_undefined hundefined, matchStep_undefined (hshape _ hundefined), hname]
      exact .throw _
    · rw [matchStep_implicit himplicit, matchStep_implicit (hshape _ himplicit)]
      exact (ih target skip).imp fun _ _ => .implicit himplicit
    · rw [matchStep_zeroLength hzero, matchStep_zeroLength (hshape _ hzero)]
      exact .pure (.some (.zeroLength hzero))
    · rw [matchStep_foreign hforeign, matchStep_foreign (hshape _ hforeign)]
      exact .throw _

/-- The token of an option, and that of the star it stands for: there is nothing below either, or
    the repetitions are below the one, and below what is below the other. -/
inductive StarCollapses (g : Graph) (inner : Ref) : Token α → Token α → Prop
  | absent {name : Name} {substring : String} {start : Int} :
      StarCollapses g inner (.node ⟨.option, name, substring, start, 0⟩ [] none)
        (.node ⟨.star, name, substring, start, 0⟩ [] none)
  | present {name : Name} {substring : String} {start : Int} {header : Header}
      {tokens tokens' : List (Token α)} (kind : header.kind = .multiple)
      (each : EachCollapses g (List.replicate tokens.length inner) tokens tokens') :
      StarCollapses g inner
        (.node ⟨.option, name, substring, start, 0⟩ [.node header tokens none] none)
        (.node ⟨.star, name, substring, start, 0⟩ tokens' none)

theorem Collapses.of_star {ref repetition inner : Ref} {t t' : Token α}
    (h : Collapses g ref t t') (hstar : (g.symbol ref).shape = .star repetition)
    (hrepetition : (g.symbol repetition).shape = .multiple inner) :
    StarCollapses g inner t t' := by
  cases h.body hstar rfl with
  | leaf alone => cases alone
  | starAbsent => exact .absent
  | star present =>
    cases present.body hrepetition rfl with
    | leaf alone => cases alone
    | multiple kind each => exact .present kind each

/-- **A star is an option of a repetition.** With options in the place of its stars, a graph matches
    as before, whatever the limit is: with an error in both cases or in none, and the states are the
    same afterwards. What was matched is the same token, but for the collapsing. There is one way to
    do that, and it takes out the token between an option and its repetitions. -/
theorem matchWithin_unstarred (g : Graph) (limit : Nat) (ref skip : Ref) (s : MatchState) :
    EndBoth
      (fun token? t token?' t' => Option.Rel (Collapses (α := α) g ref) token? token?' ∧ t = t')
      (fun e t e' t' => e = e' ∧ t = t')
      (matchWithin g.unstarred limit ref skip s) (matchWithin g limit ref skip s) ∧
    (∀ t t' t'' : Token α, Collapses g ref t t' → Collapses g ref t t'' → t' = t'') ∧
    ∀ repetition inner, (g.symbol ref).shape = .star repetition →
      (g.symbol repetition).shape = .multiple inner →
      ∀ t t' : Token α, Collapses g ref t t' → StarCollapses g inner t t' :=
  ⟨matchWithin_tallies g limit ref skip s, fun _ _ _ => Collapses.unique,
    fun _ _ hstar hrepetition _ _ h => h.of_star hstar hrepetition⟩

/-- Two blanks: below the option there is the repetition, and below that the blanks. -/
theorem matchWithin_unstarred_blanks :
    ∃ t t' : Token Unit, StarCollapses leftRecursive (.node 6) t t' ∧
      ∃ s', matchWithin leftRecursive.unstarred 3 (.node 4) .zeroLength
            (.ofStream (.ofString "  ")) = .ok (some t) s' ∧
          matchWithin leftRecursive 3 (.node 4) .zeroLength (.ofStream (.ofString "  ")) =
            .ok (some t') s' ∧
          t.children.map Token.sort = [.node .multiple] ∧
          t'.children.map Token.sort = [.node .character, .node .character] := by
  obtain ⟨hends, -, hstar⟩ := matchWithin_unstarred (α := Unit) leftRecursive 3 (.node 4)
    .zeroLength (.ofStream (.ofString "  "))
  have hmatches : ((matchWithin (α := Unit) leftRecursive.unstarred 3 (.node 4) .zeroLength).run'
      (.ofStream (.ofString "  "))).map (Option.map fun t => t.children.map Token.sort) =
        some (some [.node .multiple]) := by
    decide +kernel
  have hmatches' : ((matchWithin (α := Unit) leftRecursive 3 (.node 4) .zeroLength).run'
      (.ofStream (.ofString "  "))).map (Option.map fun t => t.children.map Token.sort) =
        some (some [.node .character, .node .character]) := by
    decide +kernel
  obtain ⟨_, hrun, hsorts⟩ := Option.map_eq_some_iff.mp hmatches
  obtain ⟨t, rfl, hbelow⟩ := Option.map_eq_some_iff.mp hsorts
  obtain ⟨_, hrun', hsorts'⟩ := Option.map_eq_some_iff.mp hmatches'
  obtain ⟨t', rfl, hbelow'⟩ := Option.map_eq_some_iff.mp hsorts'
  obtain ⟨s', hrun⟩ := Step.of_run'_some hrun
  obtain ⟨s'', hrun'⟩ := Step.of_run'_some hrun'
  rw [hrun, hrun'] at hends
  obtain ⟨⟨htoken⟩, rfl⟩ := hends
  exact ⟨t, t', hstar _ _ rfl rfl t t' htoken, s', hrun, hrun', hbelow, hbelow'⟩

end GrammarEngine
