import GrammarEngine.Proofs.Soundness

namespace GrammarEngine

/-!
# Walking in order

A walk goes through the tokens of a tree, each behind those under it. Each gets its payload when
its turn comes, from its listener or else from its children, and the state goes from one listener
to the next. If a listener raises an error, that is where the walk stands still.

* `AssignsNothing` — listeners that leave it to the walk to assign payloads;
* `Kind.collect` — the payload of a token that has no listener;
* `Turn` — what a token comes to when those under it are done;
* `HandsOver` — some tokens were gone through, one after the other;
* `BreaksOff` — the same up to a listener that raises an error;
* `Token.walk_inOrder` — a walk does one or the other.
-/

namespace Token

variable {α : Type}

/-- A token that a symbol made and that has no payload. -/
def IsPending : Token α → Prop
  | .sentinel _ => False
  | .node _ _ payload => payload = none

mutual

/-- In a tree without payloads every token waits for its own. -/
theorem pending_of_bare (t : Token α) (h : t.bare = t) :
    ∀ u ∈ t.postorder, u.isNode → u.IsPending := by
  match t with
  | .sentinel which =>
    intro u hu hnode
    rw [postorder, List.mem_singleton] at hu
    subst hu
    cases hnode
  | .node header children payload =>
    rw [bare, node.injEq] at h
    obtain ⟨-, hchildren, hpayload⟩ := h
    intro u hu hnode
    rw [postorder, List.mem_append, List.mem_singleton] at hu
    rcases hu with hu | rfl
    · exact pendingOf_bare children hchildren u hu hnode
    · exact hpayload.symm

theorem pendingOf_bare (ts : List (Token α)) (h : bareAll ts = ts) :
    ∀ u ∈ postorderOf ts, u.isNode → u.IsPending := by
  match ts with
  | [] => simp [postorderOf]
  | t :: rest =>
    rw [bareAll, List.cons.injEq] at h
    intro u hu hnode
    rw [postorderOf, List.mem_append] at hu
    rcases hu with hu | hu
    · exact pending_of_bare t h.1 u hu hnode
    · exact pendingOf_bare rest h.2 u hu hnode

end

end Token

/-- What a token makes of the payloads of its children: the list of them if it can have many, the
    only one if it can have one, and nothing if it is a literal. -/
def Kind.collect {α : Type} [PayloadType α] (kind : Kind) (values : List α) : α :=
  match kind with
  | .sequence | .multiple | .star => PayloadType.ofList values
  | .junction | .option => values.headD PayloadType.none
  | .switch | .character | .text => PayloadType.none

section Walk

variable {σ α : Type} {listeners : Name → Option (Listener σ α)}

/-- Listeners look at the tokens that they are handed, and leave the payloads to the walk. -/
def AssignsNothing (listeners : Name → Option (Listener σ α)) : Prop :=
  ∀ name listener, listeners name = some listener → ∀ visit,
    (∀ value visit', listener visit = .ok value visit' → visit'.token = visit.token) ∧
      ∀ e visit', listener visit = .error e visit' → visit'.token = visit.token

variable [PayloadType α]

/-- What a token comes to when its children are done: its payload, and the state after it. -/
inductive Turn (listeners : Name → Option (Listener σ α)) (header : Header)
    (children : List (Token α)) : σ → α → σ → Prop
  | heard {listener : Listener σ α} {state state' : σ} {value : α}
      (named : listeners header.name = some listener)
      (run : listener ⟨.node header children none, state⟩ =
        .ok value ⟨.node header children none, state'⟩) :
      Turn listeners header children state value state'
  | unheard {state : σ} {values : List α} (unnamed : listeners header.name = none)
      (payloads : children.map Token.payload = values.map .ok) :
      Turn listeners header children state (header.kind.collect values) state

/-- Tokens that a walk went through, with the payloads that they have then, and the state before
    the first of them and after the last. Sentinels are passed over. -/
inductive HandsOver (listeners : Name → Option (Listener σ α)) : σ → List (Token α) → σ → Prop
  | nil (state : σ) : HandsOver listeners state [] state
  | sentinel (which : Sentinel) {state state' : σ} {rest : List (Token α)}
      (later : HandsOver listeners state rest state') :
      HandsOver listeners state (.sentinel which :: rest) state'
  | node {header : Header} {children rest : List (Token α)} {state state' state'' : σ} {value : α}
      (below : ∀ t ∈ children, t.IsAssigned)
      (turn : Turn listeners header children state value state')
      (later : HandsOver listeners state' rest state'') :
      HandsOver listeners state (.node header children (some value) :: rest) state''

/-- Tokens that a walk went through up to one whose listener raised an error. Those before it have
    their payloads, and neither it nor those after it have one. -/
inductive BreaksOff (listeners : Name → Option (Listener σ α)) :
    σ → List (Token α) → Error → σ → Prop
  | raised {header : Header} {children before after : List (Token α)} {state between state' : σ}
      {listener : Listener σ α} {e : Error} (handed : HandsOver listeners state before between)
      (below : ∀ t ∈ children, t.IsAssigned) (named : listeners header.name = some listener)
      (run : listener ⟨.node header children none, between⟩ =
        .error e ⟨.node header children none, state'⟩)
      (pending : ∀ t ∈ after, t.isNode → t.IsPending) :
      BreaksOff listeners state (before ++ .node header children none :: after)
        (e.anchor header.start) state'

theorem HandsOver.append {state between state' : σ} {ts us : List (Token α)}
    (h : HandsOver listeners state ts between) (h' : HandsOver listeners between us state') :
    HandsOver listeners state (ts ++ us) state' := by
  induction h with
  | nil state => exact h'
  | sentinel which later ih => exact .sentinel which (ih h')
  | node below turn later ih => exact .node below turn (ih h')

/-- What comes after the token with the error may be more. -/
theorem BreaksOff.append {state state' : σ} {ts us : List (Token α)} {e : Error}
    (h : BreaksOff listeners state ts e state') (hus : ∀ t ∈ us, t.isNode → t.IsPending) :
    BreaksOff listeners state (ts ++ us) e state' := by
  obtain ⟨handed, below, named, run, pending⟩ := h
  rw [List.append_assoc, List.cons_append]
  exact .raised handed below named run (List.forall_mem_append.mpr ⟨pending, hus⟩)

/-- What comes before may be more, if it is gone through. -/
theorem BreaksOff.prepend {state between state' : σ} {ts us : List (Token α)} {e : Error}
    (hts : HandsOver listeners state ts between) (h : BreaksOff listeners between us e state') :
    BreaksOff listeners state (ts ++ us) e state' := by
  obtain ⟨handed, below, named, run, pending⟩ := h
  rw [← List.append_assoc]
  exact .raised (hts.append handed) below named run pending

open Token

/-- The default payload is what the form of the token makes of those of its children. -/
theorem Token.defaultPayload_eq_collect (header : Header) {children : List (Token α)}
    {values : List α} (h : children.map Token.payload = values.map .ok) (payload : Option α) :
    (Token.node header children payload).defaultPayload = .ok (header.kind.collect values) := by
  have hmany : (do return PayloadType.ofList (← children.mapM Token.payload)) =
      (Except.ok (PayloadType.ofList values) : Except Error α) := by
    rw [mapM_eq_ok h]
    rfl
  rw [defaultPayload.eq_def]
  cases hkind : header.kind <;> simp only [hkind, Kind.collect]
  case sequence | multiple | star => exact hmany
  case junction | option =>
    cases children with
    | nil =>
      rw [List.map_nil, eq_comm, List.map_eq_nil_iff] at h
      rw [h, List.headD_nil]
    | cons child rest =>
      cases values with
      | nil => cases h
      | cons value values => exact (List.cons.inj h).1

/-- What becomes of a token whose children are done: it comes to a payload, or its listener raises
    an error. -/
theorem Token.evaluate_cases (hlisteners : AssignsNothing listeners) (header : Header)
    {children : List (Token α)} (hbelow : ∀ t ∈ children, t.IsAssigned) (state : σ) :
    (∃ value state', evaluate listeners ⟨.node header children none, state⟩ =
        .ok value ⟨.node header children none, state'⟩ ∧
      Turn listeners header children state value state') ∨
    ∃ listener e state', listeners header.name = some listener ∧
      listener ⟨.node header children none, state⟩ = .error e ⟨.node header children none, state'⟩ ∧
      evaluate listeners ⟨.node header children none, state⟩ =
        .error (e.anchor header.start) ⟨.node header children none, state'⟩ := by
  cases hlistener : listeners header.name with
  | none =>
    obtain ⟨values, hvalues⟩ := payloads_of_assigned hbelow
    refine .inl ⟨header.kind.collect values, state, ?_, .unheard hlistener hvalues⟩
    simp only [evaluate, name_node, hlistener, defaultPayload_eq_collect header hvalues]
  | some listener =>
    obtain ⟨hok, herror⟩ :=
      hlisteners header.name listener hlistener ⟨.node header children none, state⟩
    cases hrun : listener ⟨.node header children none, state⟩ with
    | ok value visit =>
      obtain ⟨token, state'⟩ := visit
      obtain rfl : token = _ := hok value _ hrun
      refine .inl ⟨value, state', ?_, .heard hlistener hrun⟩
      simp only [evaluate, name_node, hlistener, hrun]
    | error e visit =>
      obtain ⟨token, state'⟩ := visit
      obtain rfl : token = _ := herror e _ hrun
      refine .inr ⟨listener, e, state', rfl, hrun, ?_⟩
      simp only [evaluate, name_node, hlistener, hrun, start_node]

mutual

/-- A walk goes through all tokens of the tree, or breaks off. -/
theorem Token.walk_cases (hlisteners : AssignsNothing listeners) (t : Token α) (state : σ)
    (ht : t.bare = t) :
    (∃ value tree state', t.walk listeners state = .ok value ⟨tree, state'⟩ ∧ tree.bare = t ∧
      tree.IsAssigned ∧ tree.payload = .ok value ∧
      HandsOver listeners state tree.postorder state') ∨
    ∃ e tree state', t.walk listeners state = .error e ⟨tree, state'⟩ ∧ tree.bare = t ∧
      BreaksOff listeners state tree.postorder e state' := by
  match t with
  | .sentinel which =>
    exact .inl ⟨_, _, state, rfl, rfl, .sentinel which, rfl, .sentinel which (.nil state)⟩
  | .node header children payload =>
    rw [bare, node.injEq] at ht
    obtain ⟨-, hchildren, rfl⟩ := ht
    rcases walkAll_cases hlisteners children state hchildren with
      ⟨children', between, hwalk, hbare, hbelow, hhanded⟩ |
      ⟨e, children', state', hwalk, hbare, hoff⟩
    · have htree : ∀ value,
          (Token.node header children' value).bare = .node header children none := by
        intro value
        rw [bare, hbare]
      rcases evaluate_cases hlisteners header hbelow between with
        ⟨value, state', hevaluate, hturn⟩ | ⟨listener, e, state', hnamed, hrun, hevaluate⟩
      · refine .inl ⟨value, .node header children' (some value), state', ?_, htree _,
          .node value hbelow, rfl, hhanded.append (.node hbelow hturn (.nil state'))⟩
        simp only [walk, hwalk, hevaluate]
        rfl
      · refine .inr ⟨_, .node header children' none, state', ?_, htree _,
          .raised hhanded hbelow hnamed hrun (by simp)⟩
        simp only [walk, hwalk, hevaluate]
    · refine .inr ⟨e, .node header children' none, state', ?_, ?_,
        hoff.append (List.forall_mem_singleton.mpr fun _ => rfl)⟩
      · simp only [walk, hwalk]
      · rw [bare, hbare]

theorem Token.walkAll_cases (hlisteners : AssignsNothing listeners) (ts : List (Token α))
    (state : σ) (hts : bareAll ts = ts) :
    (∃ ts' state', walkAll listeners ts state = .ok () (ts', state') ∧ bareAll ts' = ts ∧
      (∀ t ∈ ts', t.IsAssigned) ∧ HandsOver listeners state (postorderOf ts') state') ∨
    ∃ e ts' state', walkAll listeners ts state = .error e (ts', state') ∧ bareAll ts' = ts ∧
      BreaksOff listeners state (postorderOf ts') e state' := by
  match ts with
  | [] => exact .inl ⟨[], state, rfl, rfl, by simp, .nil state⟩
  | t :: rest =>
    rw [bareAll, List.cons.injEq] at hts
    rcases walk_cases hlisteners t state hts.1 with
      ⟨value, t', between, hwalk, hbare, ht', -, hhanded⟩ | ⟨e, t', state', hwalk, hbare, hoff⟩
    · rcases walkAll_cases hlisteners rest between hts.2 with
        ⟨rest', state', hwalks, hbares, hrest', hhandeds⟩ | ⟨e, rest', state', hwalks, hbares, hoff⟩
      · refine .inl ⟨t' :: rest', state', ?_, ?_, List.forall_mem_cons.mpr ⟨ht', hrest'⟩,
          hhanded.append hhandeds⟩
        · simp only [walkAll, hwalk, hwalks]
        · rw [bareAll, hbare, hbares]
      · refine .inr ⟨e, t' :: rest', state', ?_, ?_, hoff.prepend hhanded⟩
        · simp only [walkAll, hwalk, hwalks]
        · rw [bareAll, hbare, hbares]
    · refine .inr ⟨e, t' :: rest, state', ?_, ?_, hoff.append (pendingOf_bare rest hts.2)⟩
      · simp only [walkAll, hwalk]
      · rw [bareAll, hbare, hts.2]

end

/-- **The walk goes in order.** A tree as it is matched has no payloads. Walking it goes through its
    tokens, each behind those under it and from left to right, and leaves the tree as it is but for
    the payloads. When the turn of a token comes, all those under it have theirs; if it has a
    listener, that is called then and at no other time, and the state is handed on to the next.
    If all goes well, every token has its payload in the end. If a listener raises an error, the
    tokens before are the ones that have a payload, and the state is that which the listener
    left. -/
theorem Token.walk_inOrder :
    (∀ (g : Graph) (text : List Char) (limit : Nat) (ref skip : Ref) (s s' : MatchState) (p : Nat)
        (t : Token α),
      s.stream.Reads text p → matchWithin g limit ref skip s = .ok (some t) s' → t.bare = t) ∧
    ∀ (σ : Type) (listeners : Name → Option (Listener σ α)) (t : Token α) (state : σ),
      AssignsNothing listeners → t.bare = t →
      (∃ value tree state', t.walk listeners state = .ok value ⟨tree, state'⟩ ∧ tree.bare = t ∧
        tree.payload = .ok value ∧ HandsOver listeners state tree.postorder state') ∨
      ∃ e tree state', t.walk listeners state = .error e ⟨tree, state'⟩ ∧ tree.bare = t ∧
        BreaksOff listeners state tree.postorder e state' := by
  constructor
  · intro g text limit ref skip s s' p t hs hrun
    have hends := matchWithin_obeys (α := α) g text limit s.guard ref skip trivial trivial p s
      (Nat.zero_le p) ⟨hs, rfl⟩
    rw [Ends, hrun] at hends
    obtain ⟨answer, reach, hrule, htoken, -⟩ := hends
    cases answer with
    | none => cases htoken
    | some found =>
      cases htoken
      exact hrule.bare_eq _ rfl
  · intro σ listeners t state hlisteners ht
    rcases walk_cases hlisteners t state ht with
      ⟨value, tree, state', hwalk, hbare, -, hpayload, hhanded⟩ | hoff
    · exact .inl ⟨value, tree, state', hwalk, hbare, hpayload, hhanded⟩
    · exact .inr hoff

/-- A listener that counts the tokens that it is called for, and accepts no second one. -/
def impatient (name : Name) : Option (Listener Nat Unit) :=
  if name = .given "blank" then
    some fun visit =>
      if visit.state = 0 then .ok () { visit with state := 1 }
      else .error (.parse (visit.token.error "too many")) { visit with state := visit.state + 1 }
  else none

theorem impatient_assignsNothing : AssignsNothing impatient := by
  intro name listener hlistener visit
  unfold impatient at hlistener
  split at hlistener
  · cases hlistener
    constructor
    · intro value visit' hrun
      dsimp only at hrun
      split at hrun <;> cases hrun
      rfl
    · intro e visit' hrun
      dsimp only at hrun
      split at hrun <;> cases hrun
      rfl
  · cases hlistener

theorem Token.walk_inOrder_impatient :
    ∃ t s' e tree, matchWithin leftRecursive 50 (.node 4) .zeroLength (.ofStream (.ofString "   ")) =
        .ok (some t) s' ∧ t.walk impatient 0 = .error e ⟨tree, 2⟩ ∧ tree.bare = t ∧
      BreaksOff impatient 0 tree.postorder e 2 := by
  obtain ⟨hmatching, hwalking⟩ := walk_inOrder (α := Unit)
  have hmatches : ((matchWithin (α := Unit) leftRecursive 50 (.node 4) .zeroLength).run'
      (.ofStream (.ofString "   "))).map (fun token? => token?.map fun t =>
        match t.walk impatient 0 with
        | .ok _ _ => none
        | .error _ visit => some visit.state) = some (some (some 2)) := by
    decide +kernel
  obtain ⟨token?, hrun, hwalks⟩ := Option.map_eq_some_iff.mp hmatches
  obtain ⟨t, rfl, hwalk⟩ := Option.map_eq_some_iff.mp hwalks
  obtain ⟨s', hrun⟩ := Step.of_run'_some hrun
  have ht := hmatching _ _ _ _ _ _ s' 0 t (Stream.reads_ofString "   ") hrun
  rcases hwalking Nat impatient t 0 impatient_assignsNothing ht with
    ⟨value, tree, state', hok, -⟩ | ⟨e, tree, state', herror, hbare, hoff⟩
  · rw [hok] at hwalk
    cases hwalk
  · rw [herror] at hwalk
    cases hwalk
    exact ⟨t, s', e, tree, hrun, herror, hbare, hoff⟩

end Walk

end GrammarEngine
