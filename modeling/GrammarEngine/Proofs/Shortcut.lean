import GrammarEngine.Proofs.Comparing
import GrammarEngine.Proofs.Correctness
import GrammarEngine.Proofs.Memory
import GrammarEngine.Proofs.Notation.Complete

namespace GrammarEngine

/-!
# Alternatives in progress

A junction passes over a member whose name is in progress at the junction's position. It would fail
at once, and is not even asked. A matcher that asks all members comes to the same, as long as names
tell symbols apart: the zero-length symbol matches whatever is in progress, so no other symbol may
have its name.

* `askAlternatives`, `plainStep`, `plainWithin` — matching without the shortcut;
* `Graph.GoesByName` — an implicit symbol has the name of what it refers to, and a zero-length one
  has its name for itself;
* `Yields.of_inProgress` — by the rules, a symbol fails if its name is in progress;
* `plainStep_obeys`, `plainWithin_obeys` — without the shortcut, a match goes by the same rules;
* `plainWithin_agrees` — with and without it, a match comes to the same;
* `copied_differs` — unless a copy of the zero-length symbol shares its name with another symbol.
-/

open MatchM

variable {α : Type} {g : Graph} {part : Finset Ref} {text : List Char}

/-! ### Without the shortcut -/

/-- Find the first alternative that matches, counting from `ordinal`. Each one is asked. -/
def askAlternatives (ask : Ask α) (skip : Ref) (ordinal : Nat) :
    List Ref → MatchM (Option (Nat × Token α))
  | [] => return none
  | member :: rest => do
    match ← ask member skip with
    | some token => return some (ordinal, token)
    | none => askAlternatives ask skip (ordinal + 1) rest

/-- The first alternative that matches, where each one is asked. -/
def plainJunction (ask : Ask α) (name : Name) (skip : Ref) (members : List Ref) :
    MatchM (Option (Token α)) := do
  match ← askAlternatives ask skip 0 members with
  | none => return none
  | some (ordinal, token) => return some (coverToken .junction name token ordinal [token])

/-- Match a symbol, given how to match the symbols it is made of. Junctions ask all of them. -/
def plainStep (g : Graph) (ask : Ask α) : Ask α := fun ref skip =>
  let name := (g.symbol ref).name
  match (g.symbol ref).shape with
  | .junction members => guarded name (plainJunction ask name (skipInside name skip) members)
  | _ => matchStep g ask ref skip

/-- Match a symbol without the shortcut, with at most `limit` matches nested in each other. -/
def plainWithin (g : Graph) : (limit : Nat) → Ask α
  | 0 => fun _ _ => throw .nestedTooDeeply
  | limit + 1 => plainStep g (plainWithin g limit)

theorem plainStep_junction {ask : Ask α} {ref : Ref} {members : List Ref} (skip : Ref)
    (h : (g.symbol ref).shape = .junction members) :
    plainStep g ask ref skip = guarded (g.symbol ref).name
      (plainJunction ask (g.symbol ref).name (skipInside (g.symbol ref).name skip) members) := by
  simp only [plainStep, h]

theorem plainStep_of_ne {ask : Ask α} {ref : Ref} (skip : Ref)
    (h : ∀ members, (g.symbol ref).shape ≠ .junction members) :
    plainStep g ask ref skip = matchStep g ask ref skip := by
  unfold plainStep
  split
  · rename_i members hshape
    exact absurd hshape (h members)
  · rfl

section Memory

variable {ask : Ask α} {name : Name} {skip : Ref}

theorem askAlternatives_keeps (hask : ask.Keeps) (members : List Ref) (ordinal : Nat) :
    Keeps MatchState.InMemory (askAlternatives ask skip ordinal members) := by
  induction members generalizing ordinal with
  | nil => exact .pure _
  | cons member members ih =>
    unfold askAlternatives
    refine .bind (hask member skip) fun token? => ?_
    cases token? with
    | none => exact ih (ordinal + 1)
    | some token => exact .pure _

theorem plainJunction_keeps (hask : ask.Keeps) (members : List Ref) :
    Keeps MatchState.InMemory (plainJunction ask name skip members) := by
  refine .bind (askAlternatives_keeps hask members 0) fun result? => ?_
  cases result? <;> exact .pure _

/-- Without the shortcut, too, a text in memory stays there. -/
theorem plainWithin_inMemory (g : Graph) (limit : Nat) : (plainWithin (α := α) g limit).Keeps := by
  induction limit with
  | zero => exact fun ref skip => .throw _
  | succ limit ih =>
    intro ref skip
    rw [plainWithin]
    by_cases hjunction : ∃ members, (g.symbol ref).shape = .junction members
    · obtain ⟨members, hshape⟩ := hjunction
      rw [plainStep_junction skip hshape]
      exact guarded_keeps (plainJunction_keeps ih members)
    · rw [plainStep_of_ne skip fun members hshape => hjunction ⟨members, hshape⟩]
      exact matchStep_keeps ih ref skip

end Memory

/-! ### Names -/

/-- In a part of a graph, names are enough to tell what is in progress: each implicit symbol refers
    to one of its own name, and no guarded symbol has the name of a zero-length one. -/
structure Graph.GoesByName (g : Graph) (part : Finset Ref) : Prop where
  closed : g.IsClosed part
  zeroLength_mem : .zeroLength ∈ part
  ne_foreign : ∀ ref ∈ part, (g.symbol ref).shape ≠ .foreign
  resolved : ∀ ref ∈ part, ∀ reference, (g.symbol ref).shape = .implicit reference →
    ∃ target, reference = some target ∧ (g.symbol target).name = (g.symbol ref).name
  apart : ∀ zero ∈ part, (g.symbol zero).shape = .zeroLength →
    ∀ ref ∈ part, (g.symbol ref).shape.isGuarded = true →
      (g.symbol ref).name ≠ (g.symbol zero).name

theorem Graph.GoesByName.target_mem {ref target : Ref} (hg : g.GoesByName part) (href : ref ∈ part)
    (hshape : (g.symbol ref).shape = .implicit (some target)) : target ∈ part :=
  hg.closed ref href target (Graph.target_mem_refs hshape)

/-- The rules that a grammar text comes to go by name, but for a symbol that goes by the name of the
    zero-length one. -/
theorem RuleSet.IsComplete.goesByName {rs : RuleSet} (h : rs.IsComplete)
    (hzero : ∀ ref ∈ symbols rs, (rs.graph.symbol ref).name ≠ Symbol.zeroLength.name) :
    rs.graph.GoesByName (insert .zeroLength (symbols rs)) where
  closed := h.isClosed.insert_zeroLength
  zeroLength_mem := Finset.mem_insert_self ..
  ne_foreign := by
    intro ref href
    rcases Finset.mem_insert.mp href with rfl | href
    · exact nofun
    · exact (h.defined ref href).2
  resolved := by
    intro ref href reference hshape
    rcases Finset.mem_insert.mp href with rfl | href
    · cases hshape
    obtain ⟨name, root, hrule, hreached⟩ := h.mem_symbols.mp href
    cases h.reached name root ref hrule hreached with
    | part _ plain | rule _ plain _ =>
      rw [hshape] at plain
      cases plain
    | standIn named resolved defined =>
      rw [hshape, Shape.implicit.injEq] at resolved
      have htarget := h.rule _ (Dictionary.mem_entries_of_get? defined)
      exact ⟨_, resolved, htarget.2.1.trans named.symm⟩
  apart := by
    intro zero hmem hshape ref href hguarded
    -- The zero-length symbol is no part of a rule.
    obtain rfl : zero = .zeroLength := by
      rcases Finset.mem_insert.mp hmem with hmem | hmem
      · exact hmem
      · obtain ⟨name, root, hrule, hreached⟩ := h.mem_symbols.mp hmem
        exact absurd hshape (h.reached name root zero hrule hreached).solid.1
    rcases Finset.mem_insert.mp href with rfl | href
    · cases hguarded
    · exact hzero ref href

/-- No match in progress goes by the name of a zero-length symbol. -/
def Guard.LeavesOut (guard : Guard) (g : Graph) (part : Finset Ref) : Prop :=
  ∀ zero ∈ part, (g.symbol zero).shape = .zeroLength → ∀ key ∈ guard,
    key.1 ≠ (g.symbol zero).name

/-- One more match in progress is that of a guarded symbol. -/
theorem Guard.LeavesOut.enter {guard : Guard} {ref : Ref} (h : guard.LeavesOut g part)
    (hg : g.GoesByName part) (href : ref ∈ part) (hguarded : (g.symbol ref).shape.isGuarded = true)
    (p : Int) : Guard.LeavesOut (((g.symbol ref).name, p) :: guard) g part :=
  fun zero hzero hshape =>
    List.forall_mem_cons.mpr ⟨hg.apart zero hzero hshape ref href hguarded, h zero hzero hshape⟩

/-- By the rules, a symbol whose name is in progress fails, and nothing is looked at. It need not be
    guarded itself: what an implicit symbol refers to has the same name. -/
theorem Yields.of_inProgress {ref skip : Ref} {guard : Guard} {p reach : Nat} {answer : Answer α}
    (h : Yields g text ref skip guard p answer reach) (hg : g.GoesByName part)
    (hguard : guard.LeavesOut g part) (href : ref ∈ part)
    (hmem : ((g.symbol ref).name, (p : Int)) ∈ guard) : answer = none ∧ reach = 0 := by
  match h, hmem with
  | .zeroLength shape, hmem => exact absurd rfl (hguard ref href shape _ hmem)
  | .implicit shape rule, hmem =>
    obtain ⟨_, ⟨⟩, hname⟩ := hg.resolved ref href _ shape
    exact rule.of_inProgress hg hguard (hg.target_mem href shape) (hname ▸ hmem)
  | .inProgress guarded _, _ => exact ⟨rfl, rfl⟩
  | .enter guarded fresh body, hmem => exact absurd hmem fresh

/-! ### The same rules -/

section Steps

variable {fatal : Error → Prop} {guard : Guard} {low p : Nat} {ask : Ask α} {ref skip : Ref}
  {s : MatchState}

/-- Where the rules pass over an alternative, it is asked and fails. -/
theorem askAlternatives_obeys (hg : g.GoesByName part) (hguard : guard.LeavesOut g part)
    (hask : Obeys g text (· ∈ part) fatal guard low ask) (hskip : skip ∈ part)
    (members : List Ref) (hmembers : ∀ member ∈ members, member ∈ part)
    (hs : Stands text guard p s) (hp : low ≤ p) (ordinal : Nat) :
    Ends (askAlternatives ask skip ordinal members) s
      (fun result? s' => ∃ result reach,
        AlternativesYield g text skip guard p ordinal members result reach ∧
        result? = result.map (fun r => (r.1, r.2.1)) ∧
        Lands text s s' (landing p (result.map Prod.snd)) reach)
      (Failed fatal guard) := by
  induction members generalizing s ordinal with
  | nil => exact .of_ok rfl ⟨none, 0, .nil, rfl, .refl hs⟩
  | cons member members ih =>
    obtain ⟨hmember, hrest⟩ := List.forall_mem_cons.mp hmembers
    unfold askAlternatives
    refine .bind (hask member skip hmember hskip p s hp hs) ?_
    rintro token? s₁ ⟨answer, reach, hyields, rfl, hlands⟩
    by_cases hmem : ((g.symbol member).name, (p : Int)) ∈ guard
    · obtain ⟨rfl, rfl⟩ := hyields.of_inProgress hg hguard hmember hmem
      refine (ih hrest (hlands.stands hs) (ordinal + 1)).mono ?_ fun _ _ h => h
      rintro _ s' ⟨result, reach', hlater, rfl, hlands'⟩
      have hall := hlands.trans hlands'
      rw [Nat.zero_max] at hall
      exact ⟨result, reach', .inProgress hmem hlater, rfl, hall⟩
    · cases answer with
      | some found =>
        exact .of_ok rfl ⟨some (ordinal, found), reach, .matched hmem hyields, rfl, hlands⟩
      | none =>
        refine (ih hrest (hlands.stands hs) (ordinal + 1)).mono ?_ fun _ _ h => h
        rintro _ s' ⟨result, reach', hlater, rfl, hlands'⟩
        exact ⟨result, _, .failed hmem hyields hlater, rfl, hlands.trans hlands'⟩

theorem plainJunction_obeys {name : Name} (hg : g.GoesByName part)
    (hguard : guard.LeavesOut g part) (hask : Obeys g text (· ∈ part) fatal guard p ask)
    (hskip : skip ∈ part) (members : List Ref) (hmembers : ∀ member ∈ members, member ∈ part)
    (hs : Stands text guard p s) :
    Ends (plainJunction ask name skip members) s
      (Answered (ShapeYields g text (.junction members) name skip guard p) text p s)
      (Failed fatal guard) := by
  unfold plainJunction
  refine .bind (askAlternatives_obeys hg hguard hask hskip members hmembers hs (Nat.le_refl p) 0) ?_
  rintro _ s₁ ⟨result, reach, hrule, rfl, hlands⟩
  cases result with
  | none => exact .of_ok rfl ⟨none, reach, .junctionFails hrule, rfl, hlands⟩
  | some found => exact .of_ok rfl ⟨some _, reach, .junction hrule, rfl, hlands⟩

/-- One symbol, given that the symbols inside it match by the rules. -/
theorem plainStep_obeys {deep : Prop} (hg : g.GoesByName part) (hguard : guard.LeavesOut g part)
    (href : ref ∈ part) (hskip : skip ∈ part)
    (hinside : (g.symbol ref).shape.isGuarded = true →
      ((g.symbol ref).name, (p : Int)) ∉ guard →
      Obeys g text (· ∈ part) (IsFatal g (· ∈ part) deep)
        (((g.symbol ref).name, (p : Int)) :: guard) p ask)
    (himplicit : ∀ target, (g.symbol ref).shape = .implicit (some target) →
      Ends (ask target skip) s (Answered (Yields g text target skip guard p) text p s)
        (Failed (IsFatal g (· ∈ part) deep) guard))
    (hs : Stands text guard p s) :
    Ends (plainStep g ask ref skip) s (Answered (Yields g text ref skip guard p) text p s)
      (Failed (IsFatal g (· ∈ part) deep) guard) := by
  by_cases hjunction : ∃ members, (g.symbol ref).shape = .junction members
  · obtain ⟨members, hshape⟩ := hjunction
    have hguarded : (g.symbol ref).shape.isGuarded = true := by
      rw [hshape]
      rfl
    have hmembers : ∀ member ∈ members, member ∈ part := by
      have hclosed := hg.closed ref href
      rwa [hshape] at hclosed
    rw [plainStep_junction skip hshape]
    by_cases hmem : ((g.symbol ref).name, (p : Int)) ∈ guard
    · obtain ⟨s', hrun, hlands⟩ := guarded_inProgress hs hmem
      exact .of_ok hrun ⟨none, 0, .inProgress hguarded hmem, rfl, hlands⟩
    · have hskip' : skipInside (g.symbol ref).name skip ∈ part :=
        part_skipInside hg.zeroLength_mem hskip (g.symbol ref).name
      refine (guarded_answers hs hmem IsFatal.ne_exhausted fun s hs =>
        (plainJunction_obeys hg (hguard.enter hg href hguarded p) (hinside hguarded hmem) hskip'
          members hmembers hs).mono (fun _ _ h => h) fun _ _ => .inl).mono ?_ fun _ _ h => h
      intro token? s' h
      exact h.mono fun answer reach hbody => .enter hguarded hmem (hshape ▸ hbody)
  · -- Any other symbol is matched as with the shortcut.
    rw [plainStep_of_ne skip fun members hshape => hjunction ⟨members, hshape⟩]
    exact matchStep_obeys IsFatal.ne_exhausted (.neverDefined href) (.noAttribute href) hinside
      himplicit hg.zeroLength_mem hskip (hg.closed ref href) hs

end Steps

section Runs

variable {outer inner : Guard} {low p limit : Nat} {ref skip : Ref} {s : MatchState}

/-- Without the shortcut, a match that ends well answers by the rules as well, and it gets nested
    too deeply only under a limit that is not enough. -/
theorem plainWithin_obeys (hg : g.GoesByName part) {deep : Prop}
    (hguard : Guard.LeavesOut (inner ++ outer) g part) (href : ref ∈ part) (hskip : skip ∈ part)
    (hlow : low ≤ p) (hs : Stands text (inner ++ outer) p s)
    (hlimit : ¬ deep → Suffices g part text low inner ref limit) :
    Ends (plainWithin g limit ref skip) s
      (Answered (Yields (α := α) g text ref skip (inner ++ outer) p) text p s)
      (Failed (IsFatal g (· ∈ part) deep) (inner ++ outer)) := by
  induction limit generalizing inner p ref skip s with
  | zero =>
    -- No limit is enough at zero, so being nested too deeply is allowed.
    have hdeep : deep := Classical.byContradiction fun hdeep => (hlimit hdeep).not_zero
    exact .of_error rfl ⟨.nestedTooDeeply hdeep, hs.guard_eq⟩
  | succ limit ih =>
    rw [plainWithin]
    refine plainStep_obeys hg hguard href hskip ?_ ?_ hs
    · intro hguarded hmem ref' skip' href' hskip' q s' hq hs'
      have hfresh : ((g.symbol ref).name, (p : Int)) ∉ inner :=
        fun h => hmem (List.mem_append_left outer h)
      exact ih (hguard.enter hg href hguarded p) href' hskip' (Nat.le_trans hlow hq) hs'
        fun hdeep => (hlimit hdeep).enter href hguarded hlow hs.reads.le_length hfresh
    · intro target hshape
      exact ih hguard (hg.target_mem href hshape) hskip hlow hs
        fun hdeep => (hlimit hdeep).pass href hshape

/-- All symbols of the part are defined, so all that can go wrong is the nesting. -/
theorem Graph.GoesByName.eq_nestedTooDeeply (hg : g.GoesByName part) {deep : Prop} {e : Error}
    (h : IsFatal g (· ∈ part) deep e) : deep ∧ e = .nestedTooDeeply := by
  cases h with
  | neverDefined mem shape =>
    obtain ⟨target, htarget, -⟩ := hg.resolved _ mem _ shape
    cases htarget
  | noAttribute mem shape => exact absurd shape (hg.ne_foreign _ mem)
  | nestedTooDeeply limited => exact ⟨limited, rfl⟩

end Runs

/-! ### With and without the shortcut -/

/-- Both states are over the text, and they are the same but for what was reported on the way and
    for how much was read ahead. -/
structure MatchState.Abreast (text : List Char) (s t : MatchState) : Prop where
  spells : s.stream.Spells text ∧ t.stream.Spells text
  position : s.stream.position = t.stream.position
  furthest : s.stream.furthest = t.stream.furthest
  saved : s.stream.saved = t.stream.saved
  guard : s.guard = t.guard

/-- Nothing is read ahead of a text in memory, so there the streams are the same. -/
theorem MatchState.Abreast.stream_eq {s t : MatchState} (h : s.Abreast text t) (hs : s.InMemory)
    (ht : t.InMemory) : s.stream = t.stream := by
  obtain ⟨⟨hspells, hspells'⟩, hposition, hfurthest, hsaved, -⟩ := h
  obtain ⟨⟨buffer, source, position, furthest, saved⟩, guard, events⟩ := s
  obtain ⟨⟨buffer', source', position', furthest', saved'⟩, guard', events'⟩ := t
  obtain rfl : source = .memory := hs
  obtain rfl : source' = .memory := ht
  have hbuffer : buffer = buffer' := Array.toList_inj.mp (hspells.trans hspells'.symm)
  simp only [Stream.mk.injEq]
  exact ⟨hbuffer, trivial, hposition, hfurthest, hsaved⟩

/-- Both runs end well, with the same value and abreast of each other. -/
def EndAbreast {β : Type} (text : List Char) :
    (run run' : EStateM.Result Error MatchState β) → Prop :=
  EndBoth (fun b s c t => b = c ∧ s.Abreast text t) fun _ _ _ _ => False

section Comparison

variable {ref skip : Ref} {s : MatchState} {p limit limit' : Nat}

/-- Two runs that answer by the rules give the same answer. -/
theorem EndAbreast.of_answered {guard : Guard} {x y : MatchM (Option (Token α))}
    {bad bad' : Error → MatchState → Prop} (hp : p ≤ text.length)
    (hx : Ends x s (Answered (Yields g text ref skip guard p) text p s) bad)
    (hy : Ends y s (Answered (Yields g text ref skip guard p) text p s) bad') :
    (∃ e s', x s = .error e s' ∧ bad e s') ∨ (∃ e s', y s = .error e s' ∧ bad' e s') ∨
      EndAbreast text (x s) (y s) := by
  rcases hx.elim with ⟨_, s', hrun, answer, reach, hrule, rfl, hlands⟩ | herror
  · rcases hy.elim with ⟨_, s'', hrun', answer', reach', hrule', rfl, hlands'⟩ | herror
    · obtain ⟨rfl, rfl⟩ := hrule.unique hp hrule'
      refine .inr (.inr (.of_ok hrun hrun' ⟨rfl, ?_, ?_, ?_, ?_, ?_⟩))
      · exact ⟨hlands.stream.reads.spells, hlands'.stream.reads.spells⟩
      · rw [hlands.stream.reads.position, hlands'.stream.reads.position]
      · rw [hlands.stream.furthest, hlands'.stream.furthest]
      · rw [hlands.stream.saved, hlands'.stream.saved]
      · rw [hlands.guard_eq, hlands'.guard_eq]
    · exact .inr (.inl herror)
  · exact .inl herror

section Agreement

variable (hg : g.GoesByName part) (href : ref ∈ part) (hskip : skip ∈ part)
  (hs : s.stream.Reads text p) (hguard : s.guard.LeavesOut g part)

include hg href hskip hs hguard

/-- With and without the shortcut, a match ends alike, or one of the limits was not enough. -/
theorem matchWithin_abreast (limit limit' : Nat) :
    (∃ s', matchWithin (α := α) g limit ref skip s = .error .nestedTooDeeply s') ∨
      (∃ s', plainWithin (α := α) g limit' ref skip s = .error .nestedTooDeeply s') ∨
      EndAbreast text (matchWithin (α := α) g limit ref skip s)
        (plainWithin g limit' ref skip s) := by
  have hstands : Stands text ([] ++ s.guard) p s := ⟨hs, rfl⟩
  have hguard' : Guard.LeavesOut ([] ++ s.guard) g part := hguard
  have hshort := matchWithin_obeysIn (α := α) hg.closed hg.zeroLength_mem limit s.guard ref skip
    href hskip p s (Nat.zero_le p) hstands
  have hplain : Ends (plainWithin (α := α) g limit' ref skip) s
      (Answered (Yields g text ref skip s.guard p) text p s)
      (Failed (IsFatal g (· ∈ part) True) s.guard) :=
    plainWithin_obeys hg hguard' href hskip (Nat.le_refl p) hstands fun h => absurd trivial h
  rcases EndAbreast.of_answered hs.le_length hshort hplain with
    ⟨e, s', hrun, hfatal, -⟩ | ⟨e, s', hrun, hfatal, -⟩ | hsame
  · obtain ⟨-, rfl⟩ := hg.eq_nestedTooDeeply hfatal
    exact .inl ⟨s', hrun⟩
  · obtain ⟨-, rfl⟩ := hg.eq_nestedTooDeeply hfatal
    exact .inr (.inl ⟨s', hrun⟩)
  · exact .inr (.inr hsame)

/-- The limit that is enough for a match is enough without the shortcut as well. -/
theorem plainWithin_ne_nestedTooDeeply (hacyclic : g.IsAcyclic part)
    (hlimit : g.nestingBound part text.length ≤ limit) (s' : MatchState) :
    plainWithin (α := α) g limit ref skip s ≠ .error .nestedTooDeeply s' := by
  intro herror
  have hstands : Stands text ([] ++ s.guard) p s := ⟨hs, rfl⟩
  have hguard' : Guard.LeavesOut ([] ++ s.guard) g part := hguard
  have hsuffices : Suffices g part text p [] ref limit :=
    .of_nestingBound hacyclic hs.le_length hlimit
  have hplain : Ends (plainWithin (α := α) g limit ref skip) s
      (Answered (Yields g text ref skip s.guard p) text p s)
      (Failed (IsFatal g (· ∈ part) False) s.guard) :=
    plainWithin_obeys hg hguard' href hskip (Nat.le_refl p) hstands fun _ => hsuffices
  rw [Ends, herror] at hplain
  exact (hg.eq_nestedTooDeeply hplain.1).1

end Agreement

/-- **The shortcut makes no difference.** In a part of a graph that goes by name, and while no match
    in progress has the name of a zero-length symbol, matching with the shortcut and without it ends
    with the same token, ordinals included, or fails in both cases, and with the same position,
    furthest place, saved positions and matches in progress. The limits do not matter as long as
    neither match is nested too deeply; without circles of implicit symbols, neither is from a limit
    on that depends on the part and the length of the text only. If the text is in memory, then all
    that is different afterwards is what was reported. -/
theorem plainWithin_agrees (hg : g.GoesByName part) (href : ref ∈ part) (hskip : skip ∈ part)
    (hs : s.stream.Reads text p) (hguard : s.guard.LeavesOut g part) :
    (∀ limit limit',
      (∃ s', matchWithin (α := α) g limit ref skip s = .error .nestedTooDeeply s') ∨
      (∃ s', plainWithin (α := α) g limit' ref skip s = .error .nestedTooDeeply s') ∨
      EndAbreast text (matchWithin (α := α) g limit ref skip s)
        (plainWithin g limit' ref skip s)) ∧
    (g.IsAcyclic part → ∀ limit limit', g.nestingBound part text.length ≤ limit →
      g.nestingBound part text.length ≤ limit' →
      EndAbreast text (matchWithin (α := α) g limit ref skip s)
        (plainWithin g limit' ref skip s)) ∧
    (s.InMemory → ∀ limit limit' (token? token?' : Option (Token α)) s' t',
      matchWithin g limit ref skip s = .ok token? s' →
      plainWithin g limit' ref skip s = .ok token?' t' →
      s'.stream = t'.stream ∧ s'.guard = t'.guard) := by
  refine ⟨matchWithin_abreast hg href hskip hs hguard, ?_, ?_⟩
  · intro hacyclic limit limit' hlimit hlimit'
    rcases matchWithin_abreast (α := α) hg href hskip hs hguard limit limit' with
      ⟨s', herror⟩ | ⟨s', herror⟩ | hsame
    · exact absurd herror
        (not_nestedTooDeeply hg.closed hacyclic href hskip ⟨hs, rfl⟩ hlimit s')
    · exact absurd herror
        (plainWithin_ne_nestedTooDeeply hg href hskip hs hguard hacyclic hlimit' s')
    · exact hsame
  · intro hmemory limit limit' token? token?' s' t' hrun hplain
    have hends := matchWithin_abreast (α := α) hg href hskip hs hguard limit limit'
    rw [hrun, hplain] at hends
    rcases hends with ⟨_, ⟨⟩⟩ | ⟨_, ⟨⟩⟩ | ⟨-, habreast⟩
    have hs' := matchWithin_inMemory (α := α) g limit ref skip s hmemory
    have ht' := plainWithin_inMemory (α := α) g limit' ref skip s hmemory
    rw [Ends, hrun] at hs'
    rw [Ends, hplain] at ht'
    exact ⟨habreast.stream_eq hs' ht', habreast.guard⟩

/-- A list is a list again, or an item. -/
def circularList : Graph where
  nodes := #[⟨.given "list", .junction [.node 1, .node 2]⟩,
    ⟨.given "list", .implicit (some (.node 0))⟩, ⟨.given "item", .character 'x'⟩]

def circularSymbols : Finset Ref := {.zeroLength, .node 0, .node 1, .node 2}

theorem circularList_goesByName : circularList.GoesByName circularSymbols where
  closed := by
    unfold Graph.IsClosed
    decide
  zeroLength_mem := by decide
  ne_foreign := by decide
  resolved := by
    intro ref href reference hshape
    simp only [circularSymbols, Finset.mem_insert, Finset.mem_singleton] at href
    rcases href with rfl | rfl | rfl | rfl <;> cases hshape
    exact ⟨.node 0, rfl, rfl⟩
  apart := by decide

theorem circularList_isAcyclic {part : Finset Ref} : circularList.IsAcyclic part := by
  refine Graph.isAcyclic_of_rank (fun ref => if ref = .node 1 then 1 else 0) ?_
  intro ref target hleads
  unfold Graph.LeadsTo at hleads
  match ref with
  | .node 1 =>
    cases hleads
    decide
  | .zeroLength | .foreign | .node 0 | .node 2 => cases hleads
  | .node (index + 3) => simp [circularList, Graph.symbol, Symbol.zeroLength] at hleads

/-- The list that is in progress is passed over with the shortcut, and asked in vain without it. -/
theorem plainWithin_agrees_circularList :
    ∃ t s' s'', matchWithin circularList 12 (.node 0) .zeroLength (.ofStream (.ofString "x")) =
        .ok (some t) s' ∧
      plainWithin circularList 12 (.node 0) .zeroLength (.ofStream (.ofString "x")) =
        .ok (some (t : Token Unit)) s'' ∧
      s'.stream = s''.stream ∧ s'.guard = s''.guard := by
  have hs : (MatchState.ofStream (.ofString "x")).stream.Reads "x".toList 0 :=
    Stream.reads_ofString "x"
  have href : .node 0 ∈ circularSymbols := by decide
  have hbound : circularList.nestingBound circularSymbols "x".toList.length ≤ 12 := by decide
  obtain ⟨-, hagree, hmemory⟩ := plainWithin_agrees (α := Unit) circularList_goesByName href
    circularList_goesByName.zeroLength_mem hs fun _ _ _ _ h => nomatch h
  have hmatches : ((matchWithin (α := Unit) circularList 12 (.node 0) .zeroLength).run'
      (.ofStream (.ofString "x"))).map Option.isSome = some true := by
    decide +kernel
  obtain ⟨token?, hrun, hsome⟩ := Option.map_eq_some_iff.mp hmatches
  obtain ⟨t, rfl⟩ := Option.isSome_iff_exists.mp hsome
  obtain ⟨s', hrun⟩ := Step.of_run'_some hrun
  rcases (hagree circularList_isAcyclic 12 12 hbound hbound).elim with
    ⟨_, _, _, s'', hrun', hplain, rfl, -⟩ | ⟨_, _, _, _, _, _, h⟩
  · rw [hrun, EStateM.Result.ok.injEq] at hrun'
    obtain ⟨rfl, rfl⟩ := hrun'
    exact ⟨t, s', s'', hrun, hplain, hmemory rfl 12 12 _ _ _ _ hrun hplain⟩
  · exact h.elim

/-- A choice with one alternative, which has the same name and is a copy of the zero-length
    symbol. -/
def copied : Graph where
  nodes := #[⟨.given "x", .zeroLength⟩, ⟨.given "x", .junction [.node 0]⟩]

/-- **Copies of the zero-length symbol.** There are no implicit symbols to be resolved here, and
    nothing but the zero-length symbol has its name; but a copy of it has the name of what it is an
    alternative of. With the shortcut nothing matches, and without it the copy does. -/
theorem copied_differs :
    ((Graph.renamed .zeroLength "x" >>= fun ref => Graph.add (some "x") (.junction [ref])).run
      .empty).2 = copied ∧
    (∀ ref reference, (copied.symbol ref).shape ≠ .implicit reference) ∧
    (∀ ref, (copied.symbol ref).name = Symbol.zeroLength.name →
      copied.symbol ref = .zeroLength) ∧
    ∀ limit,
      (matchWithin (α := Unit) copied (limit + 2) (.node 1) .zeroLength).run'
          (.ofStream (.ofString "a")) = some none ∧
        (plainWithin copied (limit + 2) (.node 1) .zeroLength).run' (.ofStream (.ofString "a")) =
          some (some (coverToken (α := Unit) .junction (.given "x") (.sentinel .empty) 0
            [.sentinel .empty])) := by
  refine ⟨rfl, ?_, ?_, fun limit => ⟨rfl, rfl⟩⟩
  · intro ref reference hshape
    cases ref with
    | zeroLength | foreign => cases hshape
    | node index =>
      rcases index with _ | _ | index
      · cases hshape
      · cases hshape
      · simp [copied, Graph.symbol, Symbol.zeroLength] at hshape
  · intro ref hname
    cases ref with
    | zeroLength => rfl
    | foreign => cases hname
    | node index =>
      rcases index with _ | _ | index
      · simp [copied, Graph.symbol, Symbol.zeroLength] at hname
      · simp [copied, Graph.symbol, Symbol.zeroLength] at hname
      · simp [copied, Graph.symbol]

end Comparison

end GrammarEngine
