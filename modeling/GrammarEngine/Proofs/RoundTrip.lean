import GrammarEngine.Grammar.Basic
import GrammarEngine.Proofs.Correctness
import GrammarEngine.Proofs.Walking

namespace GrammarEngine

/-!
# The tree spells the text

* `Graph.IsSolid` — the parts of a graph that this is about;
* `Fits` — the token of a shape, and the trees under it, are as they should be;
* `Yields.roundTrip` — what the rules say that a symbol matches is a tree as it should be;
* `Grammar.of_matchInput_ok`, `Grammar.of_parseTree_ok` — what a parse that succeeds has done;
* `TreeOver`, `tree_roundTrip` — the text can be read off the tree that was matched.
-/

variable {α : Type} {g : Graph} {part : Finset Ref} {text : List Char}

/-- A closed part of a graph in which nothing is the zero-length symbol. -/
structure Graph.IsSolid (g : Graph) (part : Finset Ref) : Prop where
  closed : g.IsClosed part
  solid : ∀ ref ∈ part, (g.symbol ref).shape ≠ .zeroLength

/-! ### Single tokens -/

theorem slice_literal {literal : String} {p : Nat} (h : literal.toList <+: text.drop p) :
    slice text p (p + literal.length) = literal := by
  obtain ⟨rest, hrest⟩ := h
  apply String.toList_inj.mp
  have htake : (text.take (p + literal.length)).drop p = (text.drop p).take literal.length := by
    rw [List.drop_take]
    congr 1
    omega
  rw [slice, String.toList_ofList, htake, ← hrest, ← String.length_toList,
    List.take_left]

theorem readLeaf_spans {shape : Shape} {name : Name} {p stop reach : Nat} {token : Token α}
    (h : readLeaf text name p shape = some (some (token, stop), reach)) (hp : p ≤ text.length) :
    token.Spans text p stop ∧ token.name = name ∧ token.children = [] := by
  obtain ⟨hle, hlength, -⟩ := readLeaf_advances h
  have hlength := hlength hp
  have hclass : ∀ ranges, readClass text name ranges p = some (token, stop) →
      token.Spans text p stop ∧ token.name = name ∧ token.children = [] := by
    intro ranges hclass
    obtain ⟨_, _, hchar, -, rfl, rfl⟩ := eq_of_readClass hclass
    exact ⟨⟨rfl, (slice_succ hchar).symm, hle, hlength⟩, rfl, rfl⟩
  cases shape <;> simp only [readLeaf, Option.some.injEq, Prod.mk.injEq, reduceCtorEq] at h
  case switch ranges => exact hclass ranges h.1
  case anyCharacter => exact hclass _ h.1
  case character literal =>
    have hread := h.1
    unfold readCharacter at hread
    split at hread
    · rename_i hchar
      cases hread
      exact ⟨⟨rfl, (slice_succ hchar).symm, hle, hlength⟩, rfl, rfl⟩
    · cases hread
  case text literal =>
    have hread := h.1
    unfold readText at hread
    split at hread
    · rename_i hstarts
      cases hread
      exact ⟨⟨rfl, (slice_literal hstarts).symm, hle, hlength⟩, rfl, rfl⟩
    · cases hread
  all_goals exact absurd h.1 (by simp)

/-- A token of a shape, which is for the text between two positions: it is as it should be, and so
    are the trees under it. -/
structure Fits (g : Graph) (text : List Char) (skip : Ref) (name : Name) (t : Token α)
    (p stop : Nat) : Prop where
  spans : t.Spans text p stop
  name_eq : t.name = name
  faithful : Faithful g text skip t
  children : ∀ child ∈ t.children, RoundTrip g text skip child

theorem readLeaf_fits {skip : Ref} {shape : Shape} {name : Name} {p stop reach : Nat}
    {token : Token α} (h : readLeaf text name p shape = some (some (token, stop), reach))
    (hp : p ≤ text.length) : Fits g text skip name token p stop := by
  obtain ⟨hspans, hname, hchildren⟩ := readLeaf_spans h hp
  exact ⟨hspans, hname, .of_leaf hspans hchildren, by simp [hchildren]⟩

/-- A token that covers what another one covers, and has it for its only child. -/
theorem over_fits {skip : Ref} {kind : Kind} {name : Name} {p stop ordinal : Nat}
    {token : Token α} (hspans : token.Spans text p stop) (htrip : RoundTrip g text skip token) :
    Fits g text skip name
      (.node ⟨kind, name, token.substring, token.start, ordinal⟩ [token] none) p stop := by
  have hspans' : Token.Spans text
      (.node ⟨kind, name, token.substring, token.start, ordinal⟩ [token] none) p stop :=
    ⟨hspans.start_eq, hspans.substring_eq, hspans.le, hspans.le_length⟩
  refine ⟨hspans', rfl, .of_row hspans' (.single hspans (htrip.woven hspans)), ?_⟩
  intro child hchild
  obtain rfl := List.mem_singleton.mp hchild
  exact htrip

/-- A token that covers what another one covers, and has its children. -/
theorem over_children_fits {skip : Ref} {kind : Kind} {name : Name} {p stop ordinal : Nat}
    {token : Token α} (hspans : token.Spans text p stop) (htrip : RoundTrip g text skip token) :
    Fits g text skip name
      (.node ⟨kind, name, token.substring, token.start, ordinal⟩ token.children none) p stop := by
  have hspans' : Token.Spans text
      (.node ⟨kind, name, token.substring, token.start, ordinal⟩ token.children none) p stop :=
    ⟨hspans.start_eq, hspans.substring_eq, hspans.le, hspans.le_length⟩
  refine ⟨hspans', rfl, ?_, fun child hchild => (htrip.child hchild).of_skipInside⟩
  by_cases hchildren : token.children = []
  · exact .of_leaf hspans' hchildren
  · have hfaithful := (htrip skip token .self).of_skipInside
    exact .of_row hspans' (hfaithful.row hspans hchildren)

/-- The token of a shape that took no text. -/
theorem leaf_empty_fits {skip : Ref} {kind : Kind} {name : Name} {p : Nat}
    (hp : p ≤ text.length) :
    Fits g text skip name (Token.leaf (α := α) kind name "" p 0) p p := by
  have hspans : (Token.leaf (α := α) kind name "" p 0).Spans text p p :=
    ⟨rfl, (slice_eq_empty (Nat.le_refl p)).symm, Nat.le_refl p, hp⟩
  exact ⟨hspans, rfl, .of_leaf hspans rfl, by simp [Token.leaf]⟩

/-- The token over some trees. -/
theorem spanning_fits {skip : Ref} {kind : Kind} {name : Name} {p stop : Nat}
    {tokens : List (Token α)} (hrow : Row g text skip p tokens stop) (hstop : stop ≤ text.length)
    (htrips : ∀ t ∈ tokens, RoundTrip g text skip t) :
    Fits g text skip name (.spanning kind name text p stop tokens) p stop := by
  have hspans : (Token.spanning kind name text p stop tokens).Spans text p stop :=
    ⟨rfl, rfl, hrow.woven.le, hstop⟩
  exact ⟨hspans, rfl, .of_row hspans hrow, htrips⟩

/-! ### Derivations -/

mutual

/-- What the rules say that a symbol matches is for the text up to where the match ends, and it is
    a tree as it should be. -/
theorem Yields.roundTrip {ref skip : Ref} {guard : Guard} {p reach : Nat} {answer : Answer α}
    (h : Yields g text ref skip guard p answer reach) (hsolid : g.IsSolid part) (href : ref ∈ part)
    (hp : p ≤ text.length) :
    ∀ found, answer = some found →
      found.1.Spans text p found.2 ∧ RoundTrip g text skip found.1 := by
  intro found hfound
  match h with
  | .zeroLength shape => exact absurd shape (hsolid.solid ref href)
  | .implicit shape rule =>
    rename_i target
    have htarget : target ∈ part := hsolid.closed ref href target (Graph.target_mem_refs shape)
    exact rule.roundTrip hsolid htarget hp found hfound
  | .inProgress guarded mem => cases hfound
  | .enter guarded fresh body =>
    obtain ⟨hspans, hname, hfaithful, hchildren⟩ :=
      body.fits hsolid (hsolid.closed ref href) hp found hfound
    rw [← hname] at hfaithful hchildren
    exact ⟨hspans, .of_children hfaithful hchildren⟩

theorem ShapeYields.fits {shape : Shape} {name : Name} {skip : Ref} {guard : Guard}
    {p reach : Nat} {answer : Answer α}
    (h : ShapeYields g text shape name skip guard p answer reach) (hsolid : g.IsSolid part)
    (hrefs : ∀ r ∈ shape.refs, r ∈ part) (hp : p ≤ text.length) :
    ∀ found, answer = some found → Fits g text skip name found.1 p found.2 := by
  intro found hfound
  match h with
  | .leaf read =>
    rw [hfound] at read
    exact readLeaf_fits read hp
  | .sequence all =>
    cases hfound
    obtain ⟨hrow, htrips⟩ := all.row hsolid hrefs hp .nil _ rfl
    have hstop := (all.stop_le _ rfl (Nat.le_refl p)).2 hp
    exact spanning_fits hrow hstop htrips
  | .junction first =>
    cases hfound
    obtain ⟨hspans, htrip⟩ := first.roundTrip hsolid hrefs hp _ rfl
    exact over_fits hspans htrip
  | .multiple rounds nonempty =>
    cases hfound
    obtain ⟨hrow, htrips⟩ := rounds.row hsolid (hrefs _ (List.mem_singleton_self _)) hp .nil
    have hstop := (rounds.stop_le (Nat.le_refl p)).2 hp
    exact spanning_fits hrow hstop htrips
  | .option present =>
    cases hfound
    obtain ⟨hspans, htrip⟩ :=
      present.roundTrip hsolid (hrefs _ (List.mem_singleton_self _)) hp _ rfl
    exact over_fits hspans htrip
  | .star present =>
    cases hfound
    obtain ⟨hspans, htrip⟩ :=
      present.roundTrip hsolid (hrefs _ (List.mem_singleton_self _)) hp _ rfl
    exact over_children_fits hspans htrip
  | .optionAbsent absent =>
    cases hfound
    exact leaf_empty_fits hp
  | .starAbsent absent =>
    cases hfound
    exact leaf_empty_fits hp
  | .sequenceFails _ | .junctionFails _ | .multipleFails _ => cases hfound

theorem MembersYield.row {skip : Ref} {guard : Guard} {first : Bool} {p stop reach : Nat}
    {members : List Ref} {result : Option (Nat × List (Token α))}
    (h : MembersYield g text skip guard first p stop members result reach)
    (hsolid : g.IsSolid part) (hmembers : ∀ member ∈ members, member ∈ part)
    (hp : p ≤ text.length) (hskip : SkipRun α g text skip stop p) :
    ∀ found, result = some found →
      Row g text skip stop found.2 found.1 ∧ ∀ t ∈ found.2, RoundTrip g text skip t := by
  intro found hfound
  match h with
  | .nil =>
    cases hfound
    exact ⟨.nil, by simp⟩
  | .fails skipped failed => cases hfound
  | .cons skipped matched later =>
    cases hfound
    rename_i member q r _ _ _ stop' rest token tokens
    have hq := skipped.le.2 hp
    have hr := matched.advances.2.1 hq
    have hmember : member ∈ part := hmembers member (List.mem_cons_self ..)
    obtain ⟨hspans, htrip⟩ := matched.roundTrip hsolid hmember hq _ rfl
    -- What was skipped after an empty tree is part of the gap in front of this one.
    have hgap := hskip.trans (.of_skipYields skipped)
    obtain ⟨hrow, htrips⟩ := later.row hsolid
      (fun m hm => hmembers m (List.mem_cons_of_mem _ hm)) hr (hgap.after hspans) _ rfl
    exact ⟨hrow.cons hgap hspans (htrip.woven hspans), List.forall_mem_cons.mpr ⟨htrip, htrips⟩⟩
  | .laterFails skipped matched later => cases hfound

theorem AlternativesYield.roundTrip {skip : Ref} {guard : Guard} {p ordinal reach : Nat}
    {members : List Ref} {answer : Option (Nat × Token α × Nat)}
    (h : AlternativesYield g text skip guard p ordinal members answer reach)
    (hsolid : g.IsSolid part) (hmembers : ∀ member ∈ members, member ∈ part)
    (hp : p ≤ text.length) :
    ∀ found, answer = some found →
      found.2.1.Spans text p found.2.2 ∧ RoundTrip g text skip found.2.1 := by
  intro found hfound
  match h with
  | .nil => cases hfound
  | .inProgress mem later =>
    exact later.roundTrip hsolid (fun m hm => hmembers m (List.mem_cons_of_mem _ hm)) hp found
      hfound
  | .matched fresh matched =>
    cases hfound
    rename_i member _ _ _
    have hmember : member ∈ part := hmembers member (List.mem_cons_self ..)
    exact matched.roundTrip hsolid hmember hp _ rfl
  | .failed fresh failed later =>
    exact later.roundTrip hsolid (fun m hm => hmembers m (List.mem_cons_of_mem _ hm)) hp found
      hfound

theorem RoundsYield.row {skip inner : Ref} {guard : Guard} {first afterEmpty : Bool}
    {p stop reach : Nat} {result : Nat × List (Token α)}
    (h : RoundsYield g text skip guard inner first p stop afterEmpty result reach)
    (hsolid : g.IsSolid part) (hinner : inner ∈ part) (hp : p ≤ text.length)
    (hskip : SkipRun α g text skip stop p) :
    Row g text skip stop result.2 result.1 ∧ ∀ t ∈ result.2, RoundTrip g text skip t := by
  match h with
  | .fails skipped failed => exact ⟨.nil, by simp⟩
  | .secondEmpty skipped matched empty => exact ⟨.nil, by simp⟩
  | .empty skipped matched empty later =>
    have hq := skipped.le.2 hp
    have hr := matched.advances.2.1 hq
    obtain ⟨hspans, htrip⟩ := matched.roundTrip hsolid hinner hq _ rfl
    have hgap := hskip.trans (.of_skipYields skipped)
    have hafter := hgap.after hspans
    rw [if_pos empty] at hafter
    obtain ⟨hrow, htrips⟩ := later.row hsolid hinner hr hafter
    refine ⟨.cons hgap hspans (htrip.woven hspans) ?_, List.forall_mem_cons.mpr ⟨htrip, htrips⟩⟩
    rw [if_pos empty]
    exact hrow
  | .covers skipped matched covers later =>
    have hq := skipped.le.2 hp
    have hr := matched.advances.2.1 hq
    obtain ⟨hspans, htrip⟩ := matched.roundTrip hsolid hinner hq _ rfl
    have hgap := hskip.trans (.of_skipYields skipped)
    obtain ⟨hrow, htrips⟩ := later.row hsolid hinner hr .nil
    -- After a tree that covers text nothing was skipped yet.
    refine ⟨.cons hgap hspans (htrip.woven hspans) ?_, List.forall_mem_cons.mpr ⟨htrip, htrips⟩⟩
    rw [if_neg (by simp [covers])]
    exact hrow

end

/-! ### Parsing -/

namespace Grammar

open MatchM

variable {σ : Type} {gr : Grammar σ α} {limit : Nat}

/-- Refusing the input is an error. -/
theorem refuse_ne_ok {β : Type} {complaint : String → Complaint} {position : Int}
    {s s' : MatchState} {b : β} : refuse complaint position s ≠ .ok b s' := by
  intro h
  obtain ⟨context, s₁, -, h⟩ := Step.of_bind_ok h
  obtain ⟨-, s₂, -, h⟩ := Step.of_bind_ok h
  obtain ⟨location, s₃, -, h⟩ := Step.of_bind_ok h
  cases h

theorem of_limited_ok {β : Type} {body : MatchM β} {s s' : MatchState} {b : β}
    (h : limited body s = .ok b s') : body s = .ok b s' := by
  unfold limited at h
  split at h
  · exact absurd h refuse_ne_ok
  · exact h

/-- Skipping at the beginning of the input and at its end. -/
theorem consumeWithin_skips {guard : Guard} {p : Nat} {s s' : MatchState} {ref : Ref}
    {token? : Option (Token α)} (hs : Stands text guard p s)
    (h : consumeWithin g limit ref s = .ok token? s') :
    ∃ q reach, SkipYields (α := α) g text ref guard false p q reach ∧ Stands text guard q s' := by
  have hends := matchWithin_obeys (α := α) g text limit guard ref .zeroLength trivial trivial p s
    (Nat.zero_le p) hs
  unfold consumeWithin at h
  rw [Ends, h] at hends
  obtain ⟨answer, reach, hrule, -, hlands⟩ := hends
  exact ⟨landing p answer, reach, .between hrule, hlands.stands hs⟩

/-- What is matched from the beginning to the end of a text: skipped text, the start rule, and
    skipped text again. -/
theorem of_matchInput_ok {root : Token α} {s s' : MatchState} (hs : Stands text [] 0 s)
    (h : gr.matchInput limit s = .ok root s') :
    ∃ p stop reach₁ reach₂ reach₃,
      SkipYields (α := α) gr.ruleSet.graph text gr.skipRule [] false 0 p reach₁ ∧
      Yields gr.ruleSet.graph text gr.startRule gr.skipRule [] p (some (root, stop)) reach₂ ∧
      SkipYields (α := α) gr.ruleSet.graph text gr.skipRule [] false stop text.length reach₃ := by
  obtain ⟨root?, s₂, hroot, h⟩ := Step.of_bind_ok h
  obtain ⟨_, s₁, hskip, hmatch⟩ := Step.of_bind_ok (of_limited_ok hroot)
  obtain ⟨p, reach₁, hskipped, hs₁⟩ := consumeWithin_skips hs hskip
  have hends := matchWithin_obeys (α := α) gr.ruleSet.graph text limit [] gr.startRule gr.skipRule
    trivial trivial p s₁ (Nat.zero_le p) hs₁
  rw [Ends, hmatch] at hends
  obtain ⟨answer, reach₂, hrule, rfl, hlands⟩ := hends
  cases answer with
  | none =>
    obtain ⟨s₃, -, -, h⟩ := Step.of_bind_ok h
    exact absurd h refuse_ne_ok
  | some found =>
    obtain ⟨token, stop⟩ := found
    obtain ⟨_, s₃, hskip', h⟩ := Step.of_bind_ok h
    obtain ⟨q, reach₃, hskipped', hs₃⟩ := consumeWithin_skips (hlands.stands hs₁) hskip'
    obtain ⟨s₄, hnext, -⟩ := Stream.hasNext_goes hs₃.reads
    obtain ⟨more, s₅, hmore, h⟩ := Step.of_bind_ok h
    rw [onStream_ok hnext, EStateM.Result.ok.injEq] at hmore
    obtain ⟨rfl, rfl⟩ := hmore
    have hq := hs₃.reads.le_length
    by_cases hlt : q < text.length
    · simp only [hlt, decide_true, if_true] at h
      obtain ⟨_, s₆, -, h⟩ := Step.of_bind_ok h
      obtain ⟨_, s₇, hrefuse, -⟩ := Step.of_bind_ok h
      exact absurd hrefuse refuse_ne_ok
    -- Nothing is left over, so the last skipping came to the end of the text.
    · have hend : q = text.length := by omega
      subst hend
      simp only [Nat.lt_irrefl, decide_false, Bool.false_eq_true, if_false] at h
      cases h
      exact ⟨p, stop, reach₁, reach₂, reach₃, hskipped, hrule, hskipped'⟩

/-- A parse that gives a tree has matched the input, and walked the tree that was matched. -/
theorem of_parseTree_ok [PayloadType α] {input : String} {state : σ} {tree : Token α}
    (h : (gr.parseTree limit input state).result = .ok tree) :
    ∃ root s' value visit,
      gr.matchInput limit (.ofStream (.ofString input)) = .ok root s' ∧
      root.walk gr.listenerFor state = .ok value visit ∧ visit.token = tree := by
  unfold parseTree run at h
  cases hmatch : gr.matchInput limit (.ofStream (.ofString input)) with
  | error e s' =>
    rw [hmatch] at h
    cases h
  | ok root s' =>
    simp only [hmatch] at h
    cases hwalk : root.walk gr.listenerFor state with
    | ok value visit =>
      simp only [hwalk] at h
      cases h
      exact ⟨root, s', value, visit, rfl, hwalk, rfl⟩
    | error e visit =>
      simp only [hwalk] at h
      split at h
      · rename_i impossible _ _
        exact impossible.elim
      · cases h

end Grammar

/-! ### Round trips -/

/-- A tree is for the text between two positions. All its tokens are as they should be: each is the
    text of the leaves under it, with skipped text in front of them and nothing after them, and
    nothing is skipped under lexical tokens. -/
structure TreeOver (g : Graph) (text : List Char) (skip : Ref) (t : Token α) (p stop : Nat) :
    Prop where
  spans : t.Spans text p stop
  roundTrip : RoundTrip g text skip t
  spelt : ∀ skip' t', Under skip t skip' t' →
    ∃ gaps : List (Nat × Nat), gaps.length = t'.tips.length ∧
      (∀ gap ∈ gaps, SkipRun α g text (skipInside t'.name skip') gap.1 gap.2) ∧
      t'.substring =
        .join (gaps.zipWith (fun gap leaf => slice text gap.1 gap.2 ++ leaf.substring) t'.tips)
  lexical : ∀ skip' t', Under skip t skip' t' → t'.name.isLexical = true →
    ∀ skip'' t'', Under skip' t' skip'' t'' → t''.substring = .join (t''.leaves.map Token.substring)

theorem RoundTrip.treeOver {skip : Ref} {t : Token α} {p stop : Nat}
    (h : RoundTrip g text skip t) (hspans : t.Spans text p stop) :
    TreeOver g text skip t p stop := by
  refine ⟨hspans, h, ?_, ?_⟩
  · intro skip' t' hunder
    obtain ⟨a, b, hspans', hwoven⟩ := (h skip' t' hunder).span
    obtain ⟨gaps, hlength, hgaps, hspell⟩ := hwoven.spells
    exact ⟨gaps, hlength, hgaps, hspans'.substring_eq.trans hspell⟩
  · intro skip' t' hunder hlexical skip'' t'' hunder'
    obtain ⟨a, b, hspans', hwoven⟩ := (h skip'' t'' (hunder.trans hunder')).span
    rw [hunder'.skipInside_of_lexical hlexical] at hwoven
    rw [hspans'.substring_eq, hwoven.spells_of_zeroLength, Token.join_tips]

/-- **Round trip.** What a symbol matches is a tree over the text from where it was matched to where
    the stream is then. A text that is parsed is skipped text, the text of the tree, and skipped
    text again; and where listeners assign payloads only, the tree that is given back is the one
    that was matched. -/
theorem tree_roundTrip (part : Finset Ref) :
    (∀ (g : Graph) (text : List Char) (limit : Nat) (ref skip : Ref) (s s' : MatchState) (p : Nat)
        (t : Token α),
      g.IsSolid part → ref ∈ part → s.stream.Reads text p →
      matchWithin g limit ref skip s = .ok (some t) s' →
      ∃ stop : Nat, s'.stream.position = stop ∧ TreeOver g text skip t p stop) ∧
    ∀ (σ : Type) [PayloadType α] (gr : Grammar σ α) (limit : Nat) (input : String) (state : σ)
        (tree : Token α),
      gr.ruleSet.graph.IsSolid part → gr.startRule ∈ part →
      (gr.parseTree limit input state).result = .ok tree →
      ∃ root s' p stop reach₁ reach₂,
        gr.matchInput limit (.ofStream (.ofString input)) = .ok root s' ∧
        SkipYields (α := α) gr.ruleSet.graph input.toList gr.skipRule [] false 0 p reach₁ ∧
        TreeOver gr.ruleSet.graph input.toList gr.skipRule root p stop ∧
        SkipYields (α := α) gr.ruleSet.graph input.toList gr.skipRule [] false stop input.length
          reach₂ ∧
        input = slice input.toList 0 p ++ root.substring ++
          slice input.toList stop input.length ∧
        (KeepsTrees gr.listenerFor →
          tree.bare = root.bare ∧
            TreeOver gr.ruleSet.graph input.toList gr.skipRule tree p stop) := by
  constructor
  · intro g text limit ref skip s s' p t hsolid href hs hrun
    have hends := matchWithin_obeys (α := α) g text limit s.guard ref skip trivial trivial p s
      (Nat.zero_le p) ⟨hs, rfl⟩
    rw [Ends, hrun] at hends
    obtain ⟨answer, reach, hrule, htoken, hlands⟩ := hends
    cases answer with
    | none => cases htoken
    | some found =>
      obtain ⟨token, stop⟩ := found
      cases htoken
      obtain ⟨hspans, htrip⟩ := hrule.roundTrip hsolid href hs.le_length _ rfl
      exact ⟨stop, hlands.stream.reads.position, htrip.treeOver hspans⟩
  · intro σ _ gr limit input state tree hsolid hstart hparse
    obtain ⟨root, s', value, visit, hmatch, hwalk, rfl⟩ := Grammar.of_parseTree_ok hparse
    have hs : Stands input.toList [] 0 (.ofStream (.ofString input)) :=
      ⟨Stream.reads_ofString input, rfl⟩
    obtain ⟨p, stop, reach₁, reach₂, reach₃, hskipped, hrule, hskipped'⟩ :=
      Grammar.of_matchInput_ok hs hmatch
    have hp := hskipped.le.2 (Nat.zero_le _)
    obtain ⟨hspans, htrip⟩ := hrule.roundTrip hsolid hstart hp _ rfl
    rw [String.length_toList] at hskipped'
    refine ⟨root, s', p, stop, reach₁, reach₃, hmatch, hskipped, htrip.treeOver hspans, hskipped',
      ?_, fun hkeeps => ?_⟩
    · have hstop : stop ≤ input.toList.length := hspans.le_length
      have hlength : stop ≤ input.length := hskipped'.le.1
      rw [hspans.substring_eq, slice_append (Nat.zero_le p) hspans.le hp,
        slice_append (Nat.zero_le stop) hlength hstop, slice_all]
    · have hbare := Token.walk_bare hkeeps root hwalk
      refine ⟨hbare, RoundTrip.treeOver ?_ ?_⟩
      -- Payloads make no difference to either.
      · rw [← roundTrip_bare, hbare]
        exact roundTrip_bare.mpr htrip
      · rw [← Token.spans_bare, hbare]
        exact Token.spans_bare.mpr hspans

/-- Payloads that say nothing. -/
instance : PayloadType Unit := ⟨(), fun _ => ()⟩

/-- Lists with blanks around them and between the items. -/
def lists : Grammar Unit Unit where
  ruleSet := ⟨leftRecursive, ⟨[("list", .node 0), ("blanks", .node 4)]⟩⟩
  listeners := ⟨[]⟩
  start := "list"
  skip := "blanks"
  hasStart := by decide
  hasSkip := by decide

theorem tree_roundTrip_lists :
    (∃ t s' stop,
      matchWithin (α := Unit) leftRecursive 50 (.node 0) (.node 4) (.ofStream (.ofString "x x")) =
          .ok (some t) s' ∧
        s'.stream.position = (stop : Nat) ∧
        TreeOver leftRecursive "x x".toList (.node 4) t 0 stop) ∧
    ∃ tree p stop, (lists.parseTree 50 " x " ()).result = .ok tree ∧
      TreeOver leftRecursive " x ".toList (.node 4) tree p stop := by
  have hsolid : leftRecursive.IsSolid listSymbols := ⟨leftRecursive_isClosed, by decide⟩
  have hstart : .node 0 ∈ listSymbols := by decide
  obtain ⟨hmatching, hparsing⟩ := tree_roundTrip (α := Unit) listSymbols
  constructor
  · have hmatches : ((matchWithin (α := Unit) leftRecursive 50 (.node 0) (.node 4)).run'
        (.ofStream (.ofString "x x"))).map Option.isSome = some true := by
      decide +kernel
    obtain ⟨token?, hrun, hsome⟩ := Option.map_eq_some_iff.mp hmatches
    obtain ⟨t, rfl⟩ := Option.isSome_iff_exists.mp hsome
    obtain ⟨s', hrun⟩ := Step.of_run'_some hrun
    have hs : (MatchState.ofStream (.ofString "x x")).stream.Reads "x x".toList 0 :=
      Stream.reads_ofString "x x"
    obtain ⟨stop, hposition, htree⟩ := hmatching _ _ _ _ _ _ s' 0 t hsolid hstart hs hrun
    exact ⟨t, s', stop, hrun, hposition, htree⟩
  · have hparses : (lists.parseTree 50 " x " ()).result.isOk = true := by decide +kernel
    cases hparse : (lists.parseTree 50 " x " ()).result with
    | error e =>
      rw [hparse] at hparses
      cases hparses
    | ok tree =>
      have hkeeps : KeepsTrees lists.listenerFor := by
        intro name listener hlistener
        cases name <;> cases hlistener
      obtain ⟨root, s', p, stop, _, _, -, -, -, -, -, htree⟩ :=
        hparsing Unit lists 50 " x " () tree hsolid hstart hparse
      exact ⟨tree, p, stop, rfl, (htree hkeeps).2⟩

end GrammarEngine
