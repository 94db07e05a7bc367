import GrammarEngine.Proofs.Notation.Outcome
import GrammarEngine.Proofs.RoundTrip
import GrammarEngine.Proofs.Verdicts

namespace GrammarEngine

/-!
# Sound grammars

A grammar is sound if all that its rules use is there, and no chain of stand-ins goes round in
circles. Every text comes to a tree or is refused then, and nothing goes wrong on the way: matching
leaves no position saved and no match in progress, and the tree takes a payload for each token.

* `RuleSet.IsSound` — what is asked of the rules; `RuleSet.IsComplete.isSound` — compiled rules
  have it;
* `Yields.bare_eq` — a match makes tokens without payloads;
* `Token.IsAssigned`, `Token.walk_silent` — a walk without listeners gives each token its payload;
* `parseTree_sound` — what a parse comes to.
-/

/-! ### Sound rules -/

/-- All that the rules use is there, and no chain of implicit symbols leads back to itself. -/
structure RuleSet.IsSound (rs : RuleSet) : Prop where
  resolved : ∀ name root ref, rs.get? name = some root →
    Relation.ReflTransGen rs.graph.Uses root ref →
      (rs.graph.symbol ref).shape ≠ .implicit none ∧ (rs.graph.symbol ref).shape ≠ .foreign
  acyclic : ∀ name root ref, rs.get? name = some root →
    Relation.ReflTransGen rs.graph.Uses root ref → ¬ Relation.TransGen rs.graph.LeadsTo ref ref

/-- The rules that compiling comes to are sound. -/
theorem RuleSet.IsComplete.isSound {rs : RuleSet} (h : rs.IsComplete) : rs.IsSound where
  resolved name root ref hrule hreached := (h.reached name root ref hrule hreached).solid.2
  acyclic name root ref hrule hreached :=
    h.isAcyclic ref (h.mem_symbols.mpr ⟨name, root, hrule, hreached⟩)

/-- It is enough that the symbols that are reached are within a part of the graph that is sound. -/
theorem RuleSet.isSound_of_part {rs : RuleSet} {part : Finset Ref}
    (hclosed : rs.graph.IsClosed part) (hacyclic : rs.graph.IsAcyclic part)
    (hdefined : ∀ ref ∈ part, (rs.graph.symbol ref).shape ≠ .implicit none ∧
      (rs.graph.symbol ref).shape ≠ .foreign)
    (hrules : ∀ name root, rs.get? name = some root → root ∈ part) : rs.IsSound := by
  have hmem : ∀ name root ref, rs.get? name = some root →
      Relation.ReflTransGen rs.graph.Uses root ref → ref ∈ part := by
    intro name root ref hrule hreached
    induction hreached with
    | refl => exact hrules name root hrule
    | tail _ huses ih => exact hclosed _ ih _ huses
  exact ⟨fun name root ref hrule hreached => hdefined ref (hmem name root ref hrule hreached),
    fun name root ref hrule hreached => hacyclic ref (hmem name root ref hrule hreached)⟩

namespace RuleSet.IsSound

variable {rs : RuleSet}

/-- The symbols that the rules and the symbols of the graph refer to. -/
def mentioned (rs : RuleSet) : Finset Ref :=
  (rs.rules.entries.map Prod.snd ++ rs.graph.nodes.toList.flatMap fun s => s.shape.refs).toFinset

theorem mem_mentioned {name : String} {root ref : Ref} (hrule : rs.get? name = some root)
    (h : Relation.ReflTransGen rs.graph.Uses root ref) : ref ∈ mentioned rs := by
  rw [mentioned, List.mem_toFinset, List.mem_append]
  rcases Relation.ReflTransGen.cases_tail h with rfl | ⟨user, -, huses⟩
  · exact .inl (List.mem_map.mpr ⟨_, Dictionary.mem_entries_of_get? hrule, rfl⟩)
  · right
    cases user with
    | zeroLength => cases huses
    | foreign => cases huses
    | node index =>
      cases hnode : rs.graph.nodes[index]? with
      | none =>
        have hzero : rs.graph.symbol (.node index) = .zeroLength := by
          rw [Graph.symbol, Array.getD_eq_getD_getElem?, hnode, Option.getD_none]
        unfold Graph.Uses at huses
        rw [hzero] at huses
        cases huses
      | some symbol =>
        unfold Graph.Uses at huses
        rw [Graph.symbol_of_getElem? hnode] at huses
        obtain ⟨hlt, hsymbol⟩ := Array.getElem?_eq_some_iff.mp hnode
        exact List.mem_flatMap.mpr ⟨symbol, hsymbol ▸ Array.getElem_mem_toList hlt, huses⟩

open Classical in
/-- What is reached from the rules is a closed part of the graph, where all is as it should be. -/
theorem exists_part (h : rs.IsSound) :
    ∃ part : Finset Ref, rs.graph.IsClosed part ∧ rs.graph.IsAcyclic part ∧
      (∀ ref ∈ part, (rs.graph.symbol ref).shape ≠ .implicit none ∧
        (rs.graph.symbol ref).shape ≠ .foreign) ∧
      ∀ name ref, rs.get? name = some ref → ref ∈ part := by
  let reached (ref : Ref) : Prop :=
    ∃ name root, rs.get? name = some root ∧ Relation.ReflTransGen rs.graph.Uses root ref
  have hmem : ∀ ref, ref ∈ (mentioned rs).filter reached ↔ reached ref := by
    intro ref
    rw [Finset.mem_filter, and_iff_right_of_imp]
    rintro ⟨name, root, hrule, hreached⟩
    exact mem_mentioned hrule hreached
  refine ⟨(mentioned rs).filter reached, ?_, ?_, ?_, ?_⟩
  · intro ref href r hr
    obtain ⟨name, root, hrule, hreached⟩ := (hmem ref).mp href
    exact (hmem r).mpr ⟨name, root, hrule, hreached.tail hr⟩
  · intro ref href
    obtain ⟨name, root, hrule, hreached⟩ := (hmem ref).mp href
    exact h.acyclic name root ref hrule hreached
  · intro ref href
    obtain ⟨name, root, hrule, hreached⟩ := (hmem ref).mp href
    exact h.resolved name root ref hrule hreached
  · exact fun name ref hrule => (hmem ref).mpr ⟨name, ref, hrule, .refl⟩

end RuleSet.IsSound

/-! ### Tokens as they are made -/

section Bare

variable {α : Type} {g : Graph} {text : List Char}

open Token

theorem readLeaf_bare {shape : Shape} {name : Name} {p reach : Nat} {token : Token α} {stop : Nat}
    (h : readLeaf text name p shape = some (some (token, stop), reach)) : token.bare = token := by
  cases shape <;> simp only [readLeaf, Option.some.injEq, Prod.mk.injEq, reduceCtorEq] at h
  case switch ranges | anyCharacter =>
    obtain ⟨_, _, -, -, rfl, -⟩ := eq_of_readClass h.1
    rfl
  case character literal =>
    obtain ⟨h, -⟩ := h
    unfold readCharacter at h
    split at h <;> cases h
    rfl
  case text literal =>
    obtain ⟨h, -⟩ := h
    unfold readText at h
    split at h <;> cases h
    rfl
  all_goals simp at h

theorem bare_node_none {header : Header} {children : List (Token α)}
    (h : ∀ t ∈ children, t.bare = t) :
    (Token.node header children none).bare = .node header children none := by
  rw [bare, bareAll_eq_map, List.map_congr_left h, List.map_id']

theorem children_of_bare {t : Token α} (h : t.bare = t) : ∀ t' ∈ t.children, t'.bare = t' := by
  intro t' ht'
  have hchildren := congrArg Token.children h
  rw [children_bare] at hchildren
  exact List.map_inj_left.mp (hchildren.trans t.children.map_id'.symm) t' ht'

mutual

/-- A match makes tokens that have no payload yet. -/
theorem Yields.bare_eq {ref skip : Ref} {guard : Guard} {p reach : Nat} {answer : Answer α}
    (h : Yields g text ref skip guard p answer reach) :
    ∀ found, answer = some found → found.1.bare = found.1 := by
  rintro found hfound
  match h with
  | .zeroLength shape => cases hfound; rfl
  | .implicit shape rule => exact rule.bare_eq found hfound
  | .inProgress guarded mem => cases hfound
  | .enter guarded fresh body => exact body.bare_eq found hfound

theorem ShapeYields.bare_eq {shape : Shape} {name : Name} {skip : Ref} {guard : Guard}
    {p reach : Nat} {answer : Answer α}
    (h : ShapeYields g text shape name skip guard p answer reach) :
    ∀ found, answer = some found → found.1.bare = found.1 := by
  rintro found hfound
  match h with
  | .leaf read =>
    subst hfound
    exact readLeaf_bare read
  | .sequence all => cases hfound; exact bare_node_none (all.bare_eq _ rfl)
  | .junction first =>
    cases hfound
    exact bare_node_none (List.forall_mem_singleton.mpr (first.bare_eq _ rfl))
  | .multiple rounds found => cases hfound; exact bare_node_none rounds.bare_eq
  | .option present =>
    cases hfound
    exact bare_node_none (List.forall_mem_singleton.mpr (present.bare_eq _ rfl))
  | .star present => cases hfound; exact bare_node_none (children_of_bare (present.bare_eq _ rfl))
  | .optionAbsent absent | .starAbsent absent => cases hfound; rfl
  | .sequenceFails _ | .junctionFails _ | .multipleFails _ => cases hfound

theorem MembersYield.bare_eq {skip : Ref} {guard : Guard} {first : Bool} {p stop reach : Nat}
    {members : List Ref} {result : Option (Nat × List (Token α))}
    (h : MembersYield g text skip guard first p stop members result reach) :
    ∀ found, result = some found → ∀ t ∈ found.2, t.bare = t := by
  rintro found hfound
  match h with
  | .nil => cases hfound; simp
  | .cons skipped matched later =>
    cases hfound
    exact List.forall_mem_cons.mpr ⟨matched.bare_eq _ rfl, later.bare_eq _ rfl⟩
  | .fails _ _ | .laterFails _ _ _ => cases hfound

theorem AlternativesYield.bare_eq {skip : Ref} {guard : Guard} {p ordinal reach : Nat}
    {members : List Ref} {answer : Option (Nat × Token α × Nat)}
    (h : AlternativesYield g text skip guard p ordinal members answer reach) :
    ∀ found, answer = some found → found.2.1.bare = found.2.1 := by
  rintro found hfound
  match h with
  | .nil => cases hfound
  | .inProgress mem later => exact later.bare_eq found hfound
  | .matched fresh matched => cases hfound; exact matched.bare_eq _ rfl
  | .failed fresh failed later => exact later.bare_eq found hfound

theorem RoundsYield.bare_eq {skip inner : Ref} {guard : Guard} {first afterEmpty : Bool}
    {p stop reach : Nat} {result : Nat × List (Token α)}
    (h : RoundsYield g text skip guard inner first p stop afterEmpty result reach) :
    ∀ t ∈ result.2, t.bare = t := by
  match h with
  | .fails _ _ | .secondEmpty _ _ _ => simp
  | .empty skipped matched empty later =>
    exact List.forall_mem_cons.mpr ⟨matched.bare_eq _ rfl, later.bare_eq⟩
  | .covers skipped matched covers later =>
    exact List.forall_mem_cons.mpr ⟨matched.bare_eq _ rfl, later.bare_eq⟩

end

end Bare

/-! ### Walking without listeners -/

/-- Every token of the tree has a payload, the sentinels apart. -/
inductive Token.IsAssigned {α : Type} : Token α → Prop
  | sentinel (which : Sentinel) : IsAssigned (.sentinel which)
  | node {header : Header} {children : List (Token α)} (payload : α)
      (all : ∀ t ∈ children, IsAssigned t) : IsAssigned (.node header children (some payload))

section Walk

variable {σ α : Type} [PayloadType α] {listeners : Name → Option (Listener σ α)}

open Token

theorem Token.IsAssigned.payload_eq {t : Token α} (h : t.IsAssigned) :
    ∃ value, t.payload = .ok value := by
  cases h with
  | sentinel which => exact ⟨_, rfl⟩
  | node payload all => exact ⟨payload, rfl⟩

theorem Token.payloads_of_assigned {ts : List (Token α)} (h : ∀ t ∈ ts, t.IsAssigned) :
    ∃ values : List α, ts.map Token.payload = values.map Except.ok := by
  induction ts with
  | nil => exact ⟨[], rfl⟩
  | cons t ts ih =>
    obtain ⟨ht, hrest⟩ := List.forall_mem_cons.mp h
    obtain ⟨value, hvalue⟩ := ht.payload_eq
    obtain ⟨values, hvalues⟩ := ih hrest
    exact ⟨value :: values, by rw [List.map_cons, List.map_cons, hvalue, hvalues]⟩

/-- Where the children have payloads, there is one for the token. -/
theorem Token.defaultPayload_of_children (header : Header) {children : List (Token α)}
    (h : ∀ t ∈ children, t.IsAssigned) (payload : Option α) :
    ∃ value, (Token.node header children payload).defaultPayload = .ok value := by
  have hmany : ∃ value, (do return PayloadType.ofList (← children.mapM Token.payload)) =
      (Except.ok value : Except Error α) := by
    obtain ⟨values, hvalues⟩ := payloads_of_assigned h
    refine ⟨PayloadType.ofList values, ?_⟩
    rw [mapM_eq_ok hvalues]
    rfl
  rw [defaultPayload.eq_def]
  cases hkind : header.kind <;> simp only [hkind]
  case sequence | multiple | star => exact hmany
  case junction | option =>
    cases children with
    | nil => exact ⟨_, rfl⟩
    | cons child children => exact (h child List.mem_cons_self).payload_eq
  all_goals exact ⟨_, rfl⟩

mutual

/-- Without listeners a walk gives each token its payload, and changes nothing else. -/
theorem Token.walk_silent (hsilent : ∀ name, listeners name = none) (t : Token α) (state : σ)
    (ht : t.bare = t) :
    ∃ value t', t.walk listeners state = .ok value ⟨t', state⟩ ∧ t'.bare = t ∧ t'.IsAssigned := by
  match t with
  | .sentinel which => exact ⟨_, _, rfl, rfl, .sentinel which⟩
  | .node header children payload =>
    rw [bare, node.injEq, bareAll_eq_map] at ht
    obtain ⟨-, hchildren, rfl⟩ := ht
    obtain ⟨children', hwalk, hbare, hassigned⟩ := walkAll_silent hsilent children state hchildren
    obtain ⟨value, hdefault⟩ := defaultPayload_of_children header hassigned none
    refine ⟨value, .node header children' (some value), ?_, ?_, .node value hassigned⟩
    · simp only [walk, hwalk, evaluate, hsilent, hdefault]
      rfl
    · rw [bare, bareAll_eq_map, hbare]

theorem Token.walkAll_silent (hsilent : ∀ name, listeners name = none) (ts : List (Token α))
    (state : σ) (hts : ts.map bare = ts) :
    ∃ ts', walkAll listeners ts state = .ok () (ts', state) ∧ ts'.map bare = ts ∧
      ∀ t ∈ ts', t.IsAssigned := by
  match ts with
  | [] => exact ⟨[], rfl, rfl, by simp⟩
  | t :: rest =>
    rw [List.map_cons, List.cons.injEq] at hts
    obtain ⟨value, t', hwalk, hbare, hassigned⟩ := walk_silent hsilent t state hts.1
    obtain ⟨rest', hwalks, hbares, hassigneds⟩ := walkAll_silent hsilent rest state hts.2
    refine ⟨t' :: rest', ?_, ?_, List.forall_mem_cons.mpr ⟨hassigned, hassigneds⟩⟩
    · simp only [walkAll, hwalk, hwalks]
    · rw [List.map_cons, hbare, hbares]

end

end Walk

/-! ### What a parse comes to -/

namespace Grammar

variable {σ α : Type} {gr : Grammar σ α}

/-- The tree that the rules decide for has no payloads yet. -/
theorem Decides.bare_eq {text : String} {root : Token α} (h : gr.Decides text (.accepted root)) :
    root.bare = root := by
  generalize hverdict : Verdict.accepted root = verdict at h
  cases h with
  | fails => cases hverdict
  | «matches» skipped matched skipped' =>
    unfold Verdict.atEnd at hverdict
    split at hverdict
    · cases hverdict
    · cases hverdict
      exact matched.bare_eq _ rfl

/-- The rules of a sound grammar decide what comes of every text. -/
theorem exists_decides (h : gr.ruleSet.IsSound) (text : String) :
    ∃ verdict, gr.Decides text verdict := by
  obtain ⟨part, hclosed, hacyclic, hdefined, hrules⟩ := h.exists_part
  have hskip : gr.skipRule ∈ insert Ref.zeroLength part := mem_insert_zeroLength
    (.inl (hrules gr.skip gr.skipRule (Option.some_get _).symm))
  have hstart : gr.startRule ∈ insert Ref.zeroLength part := mem_insert_zeroLength
    (.inl (hrules gr.start gr.startRule (Option.some_get _).symm))
  have hzero : Ref.zeroLength ∈ insert Ref.zeroLength part := mem_insert_zeroLength (.inr rfl)
  have hall : ∀ ref ∈ insert Ref.zeroLength part,
      (gr.ruleSet.graph.symbol ref).shape ≠ .implicit none ∧
        (gr.ruleSet.graph.symbol ref).shape ≠ .foreign := by
    intro ref href
    rcases Finset.mem_insert.mp href with rfl | href
    · exact ⟨nofun, nofun⟩
    · exact hdefined ref href
  have hanswer : ∀ ref ∈ insert Ref.zeroLength part, ∀ skip ∈ insert Ref.zeroLength part,
      ∀ p ≤ text.toList.length, ∃ answer reach,
        Yields (α := α) gr.ruleSet.graph text.toList ref skip [] p answer reach :=
    fun ref href skip hskip p hp => Yields.exists_answer hclosed.insert_zeroLength
      hacyclic.insert_zeroLength hall href hskip hp []
  obtain ⟨answer, reach, hskipped⟩ := hanswer _ hskip _ hzero 0 (Nat.zero_le _)
  have hp := hskipped.advances.landing_between.2 (Nat.zero_le _)
  obtain ⟨root?, reach', hmatched⟩ := hanswer _ hstart _ hskip _ hp
  cases root? with
  | none => exact ⟨_, .fails hskipped hmatched⟩
  | some found =>
    obtain ⟨root, q⟩ := found
    obtain ⟨answer', reach'', hskipped'⟩ := hanswer _ hskip _ hzero q (hmatched.advances.2.1 hp)
    exact ⟨_, .matches hskipped hmatched hskipped'⟩

variable [PayloadType α]

/-- The parse ends with a tree that has all its payloads, or the text is refused. In both cases the
    match left no position saved and no match in progress. -/
def EndsSoundly (gr : Grammar σ α) (limit : Nat) (text : String) (state : σ) : Prop :=
  (∃ root tree s, gr.matchInput limit (.beginning text) = .ok root s ∧
    s.stream.saved = [] ∧ s.guard = [] ∧
    (gr.parseTree limit text state).result = .ok tree ∧ tree.bare = root ∧ tree.IsAssigned) ∨
  ∃ e s, gr.matchInput limit (.beginning text) = .error (.parse e) s ∧
    s.stream.saved = [] ∧ s.guard = [] ∧
    (gr.parseTree limit text state).result = .error (.parse e)

theorem endsSoundly_of_isOf {limit : Nat} {text : String} {verdict : Verdict α}
    (hsilent : ∀ name, gr.listenerFor name = none) (hdecides : gr.Decides text verdict)
    (h : verdict.IsOf text (gr.matchInput limit (.beginning text))) (state : σ) :
    gr.EndsSoundly limit text state := by
  have hresult := (parseTree_of_isOf h state).1
  cases verdict with
  | refused complaint position =>
    obtain ⟨s, hrun, hsaved, hguard⟩ := h
    exact .inr ⟨_, s, hrun, hsaved, hguard, hresult⟩
  | accepted root =>
    obtain ⟨s, hrun, -, -, hsaved, hguard⟩ := h
    obtain ⟨value, tree, hwalk, hbare, hassigned⟩ :=
      Token.walk_silent hsilent root state hdecides.bare_eq
    rw [settle, hwalk] at hresult
    exact .inl ⟨root, tree, s, hrun, hsaved, hguard, hresult, hbare, hassigned⟩

/-- Every parse with a sound grammar and no listeners ends in a tree or with the text refused, and
    what compiling comes to is sound. The tree has a payload for every token, each assigned once;
    in both cases the match left no position saved and no match in progress. No other error comes
    out, so none came up on the way: no step outran the text, was given a negative count or
    dropped a saved position that is not there, and no payload was missing or assigned twice.
    Nesting apart: for every text there is a limit that is enough. -/
theorem parseTree_sound :
    (∀ gr : Grammar σ α, gr.ruleSet.IsSound → (∀ name, gr.listenerFor name = none) →
      ∀ (text : String) (state : σ),
        (∀ limit, gr.EndsSoundly limit text state ∨
          ∃ e, (gr.parseTree limit text state).result = .error e ∧ e.IsTooDeep) ∧
        ∃ enough, ∀ limit, enough ≤ limit → gr.EndsSoundly limit text state) ∧
    ∀ (limit : Nat) (source : String) (rs : RuleSet),
      (Notation.compile limit source).result = .ok rs → rs.IsSound := by
  constructor
  · intro gr hsound hsilent text state
    obtain ⟨verdict, hdecides⟩ := exists_decides hsound text
    constructor
    · intro limit
      rcases hdecides.isOf_or limit with hof | ⟨e, s, hrun, hdeep⟩
      · exact .inl (endsSoundly_of_isOf hsilent hdecides hof state)
      · exact .inr ⟨e, (parseTree_of_error hrun state).1, hdeep⟩
    · obtain ⟨enough, henough⟩ := Filter.eventually_atTop.mp hdecides.eventually
      exact ⟨enough, fun limit hlimit =>
        endsSoundly_of_isOf hsilent hdecides (henough limit hlimit) state⟩
  · intro limit source rs hcompile
    obtain ⟨-, -, -, hcomplete, -⟩ := Notation.of_compile_ok hcompile
    exact hcomplete.isSound

theorem parseTree_sound_lists :
    lists.EndsSoundly 50 " x " () ∧ ∃ limit, lists.EndsSoundly limit "x?" () := by
  have hsound : lists.ruleSet.IsSound := by
    refine RuleSet.isSound_of_part leftRecursive_isClosed leftRecursive_isAcyclic (by decide) ?_
    intro name root hrule
    have hentry := Dictionary.mem_entries_of_get? hrule
    have hroots : ∀ entry ∈ lists.ruleSet.rules.entries, entry.2 ∈ listSymbols := by decide
    exact hroots _ hentry
  have hsilent : ∀ name, lists.listenerFor name = none := by rintro (_ | _) <;> rfl
  have hall := (parseTree_sound (σ := Unit) (α := Unit)).1 lists hsound hsilent
  constructor
  · refine ((hall " x " ()).1 50).resolve_right ?_
    rintro ⟨e, hresult, -⟩
    have hparses : (lists.parseTree 50 " x " ()).result.isOk = true := by decide +kernel
    rw [hresult] at hparses
    cases hparses
  · obtain ⟨enough, henough⟩ := (hall "x?" ()).2
    exact ⟨enough, henough enough (Nat.le_refl _)⟩

end Grammar

end GrammarEngine
