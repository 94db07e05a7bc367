import GrammarEngine.Proofs.RoundTrip
import GrammarEngine.Proofs.Verdicts
import GrammarEngine.Token.Place

namespace GrammarEngine

/-!
# Where errors of listeners are reported

A listener makes an error about a token of the tree. On its way out the error passes the token whose
listener it was, and then it gets its line and column.

* `Token.Lies`, `Yields.lies` — where tokens start: within the text, or nowhere, if they took the
  empty text of the zero-length symbol;
* `Token.IsIn` — a token of a tree, whatever payloads there are by now;
* `Token.Reaches` — the walk of a tree comes to a token; `Reaches.walk_error` — an error that its
  listener raises ends the walk;
* `Grammar.IsAnchored` — a parse ends with an error that is reported at its token;
* `Grammar.parse_anchored` — when that is so.
-/

variable {σ α : Type}

/-! ### Where tokens start -/

/-- All tokens of a tree start within a text of some length, or they start nowhere. -/
inductive Token.Lies (length : Nat) : Token α → Prop
  | sentinel (which : Sentinel) : Lies length (.sentinel which)
  | node {header : Header} {children : List (Token α)} {payload : Option α}
      (start : header.start = -1 ∨ 0 ≤ header.start ∧ header.start ≤ length)
      (all : ∀ t ∈ children, Lies length t) : Lies length (.node header children payload)

namespace Token.Lies

variable {length p : Nat} {t : Token α}

theorem start (h : t.Lies length) : t.start = -1 ∨ 0 ≤ t.start ∧ t.start ≤ length := by
  cases h with
  | sentinel which => exact .inl rfl
  | node start all => exact start

theorem children (h : t.Lies length) : ∀ child ∈ t.children, child.Lies length := by
  cases h with
  | sentinel which => exact fun _ hmem => nomatch hmem
  | node start all => exact all

theorem leaf (hp : p ≤ length) (kind : Kind) (name : Name) (substring : String) (ordinal : Nat) :
    (Token.leaf (α := α) kind name substring p ordinal).Lies length :=
  .node (.inr ⟨Int.natCast_nonneg p, Int.ofNat_le.mpr hp⟩) nofun

theorem spanning {text : List Char} {ts : List (Token α)} (hp : p ≤ length)
    (hts : ∀ t ∈ ts, t.Lies length) (kind : Kind) (name : Name) (stop : Nat) :
    (Token.spanning kind name text p stop ts).Lies length :=
  .node (.inr ⟨Int.natCast_nonneg p, Int.ofNat_le.mpr hp⟩) hts

/-- A token that covers what another one covers starts where that does. -/
theorem cover {ts : List (Token α)} (h : t.Lies length) (hts : ∀ t ∈ ts, t.Lies length)
    (kind : Kind) (name : Name) (ordinal : Nat) :
    Token.Lies length (.node ⟨kind, name, t.substring, t.start, ordinal⟩ ts none) :=
  .node h.start hts

theorem subtree {place : Place} {sub : Token α} (h : t.Lies length)
    (hsub : t.subtree? place = some sub) : sub.Lies length := by
  induction place generalizing t with
  | nil =>
    cases hsub
    exact h
  | cons index place ih =>
    rw [subtree?] at hsub
    cases hchild : t.children[index]? with
    | none =>
      rw [hchild] at hsub
      cases hsub
    | some child =>
      rw [hchild] at hsub
      exact ih (h.children child (List.mem_of_getElem? hchild)) hsub

end Token.Lies

section Rules

variable {g : Graph} {text : List Char}

open Token

theorem readLeaf_lies {shape : Shape} {name : Name} {p reach : Nat} {token : Token α} {stop : Nat}
    (h : readLeaf text name p shape = some (some (token, stop), reach)) (hp : p ≤ text.length) :
    token.Lies text.length := by
  cases shape <;> simp only [readLeaf, Option.some.injEq, Prod.mk.injEq, reduceCtorEq] at h
  case switch ranges | anyCharacter =>
    obtain ⟨_, _, -, -, rfl, -⟩ := eq_of_readClass h.1
    exact .leaf hp ..
  case character literal =>
    obtain ⟨h, -⟩ := h
    unfold readCharacter at h
    split at h <;> cases h
    exact .leaf hp ..
  case text literal =>
    obtain ⟨h, -⟩ := h
    unfold readText at h
    split at h <;> cases h
    exact .leaf hp ..
  all_goals simp at h

mutual

/-- The tokens that a match makes start within the text, or nowhere. -/
theorem Yields.lies {ref skip : Ref} {guard : Guard} {p reach : Nat} {answer : Answer α}
    (h : Yields g text ref skip guard p answer reach) (hp : p ≤ text.length) :
    ∀ found, answer = some found → found.1.Lies text.length := by
  rintro found hfound
  match h with
  | .zeroLength shape => cases hfound; exact .sentinel _
  | .implicit shape rule => exact rule.lies hp found hfound
  | .inProgress guarded mem => cases hfound
  | .enter guarded fresh body => exact body.lies hp found hfound

theorem ShapeYields.lies {shape : Shape} {name : Name} {skip : Ref} {guard : Guard}
    {p reach : Nat} {answer : Answer α}
    (h : ShapeYields g text shape name skip guard p answer reach) (hp : p ≤ text.length) :
    ∀ found, answer = some found → found.1.Lies text.length := by
  rintro found hfound
  match h with
  | .leaf read => subst hfound; exact readLeaf_lies read hp
  | .sequence all => cases hfound; exact .spanning hp (all.lies hp _ rfl) ..
  | .junction first =>
    cases hfound
    have htoken := first.lies hp _ rfl
    exact htoken.cover (List.forall_mem_singleton.mpr htoken) ..
  | .multiple rounds found => cases hfound; exact .spanning hp (rounds.lies hp) ..
  | .option present =>
    cases hfound
    have htoken := present.lies hp _ rfl
    exact htoken.cover (List.forall_mem_singleton.mpr htoken) ..
  | .star present =>
    cases hfound
    have htoken := present.lies hp _ rfl
    exact htoken.cover htoken.children ..
  | .optionAbsent absent | .starAbsent absent => cases hfound; exact .leaf hp ..
  | .sequenceFails _ | .junctionFails _ | .multipleFails _ => cases hfound

theorem MembersYield.lies {skip : Ref} {guard : Guard} {first : Bool} {p stop reach : Nat}
    {members : List Ref} {result : Option (Nat × List (Token α))}
    (h : MembersYield g text skip guard first p stop members result reach)
    (hp : p ≤ text.length) : ∀ found, result = some found → ∀ t ∈ found.2, t.Lies text.length := by
  rintro found hfound
  match h with
  | .nil => cases hfound; simp
  | .cons skipped matched later =>
    cases hfound
    have hq := skipped.le.2 hp
    exact List.forall_mem_cons.mpr
      ⟨matched.lies hq _ rfl, later.lies (matched.advances.2.1 hq) _ rfl⟩
  | .fails _ _ | .laterFails _ _ _ => cases hfound

theorem AlternativesYield.lies {skip : Ref} {guard : Guard} {p ordinal reach : Nat}
    {members : List Ref} {answer : Option (Nat × Token α × Nat)}
    (h : AlternativesYield g text skip guard p ordinal members answer reach)
    (hp : p ≤ text.length) : ∀ found, answer = some found → found.2.1.Lies text.length := by
  rintro found hfound
  match h with
  | .nil => cases hfound
  | .inProgress mem later => exact later.lies hp found hfound
  | .matched fresh matched => cases hfound; exact matched.lies hp _ rfl
  | .failed fresh failed later => exact later.lies hp found hfound

theorem RoundsYield.lies {skip inner : Ref} {guard : Guard} {first afterEmpty : Bool}
    {p stop reach : Nat} {result : Nat × List (Token α)}
    (h : RoundsYield g text skip guard inner first p stop afterEmpty result reach)
    (hp : p ≤ text.length) : ∀ t ∈ result.2, t.Lies text.length := by
  match h with
  | .fails _ _ | .secondEmpty _ _ _ => simp
  | .empty skipped matched empty later =>
    have hq := skipped.le.2 hp
    exact List.forall_mem_cons.mpr ⟨matched.lies hq _ rfl, later.lies (matched.advances.2.1 hq)⟩
  | .covers skipped matched covers later =>
    have hq := skipped.le.2 hp
    exact List.forall_mem_cons.mpr ⟨matched.lies hq _ rfl, later.lies (matched.advances.2.1 hq)⟩

end

end Rules

/-! ### Tokens of a tree -/

namespace Token

/-- The token is one of the tree, whatever payloads there are by now. -/
def IsIn (t root : Token α) : Prop :=
  ∃ place sub, root.subtree? place = some sub ∧ t.bare = sub.bare

theorem IsIn.start_eq {t root : Token α} {length : Nat} (h : t.IsIn root)
    (hroot : root.Lies length) : t.start = -1 ∨ 0 ≤ t.start ∧ t.start ≤ length := by
  obtain ⟨place, sub, hsub, hbare⟩ := h
  rw [← start_bare, hbare, start_bare]
  exact (hroot.subtree hsub).start

theorem subtree?_bare (t : Token α) (place : Place) :
    t.bare.subtree? place = (t.subtree? place).map bare := by
  induction place generalizing t with
  | nil => rfl
  | cons index place ih =>
    rw [subtree?, subtree?, children_bare, List.getElem?_map]
    cases t.children[index]? with
    | none => rfl
    | some child => exact ih child

/-- Trees that are the same but for payloads have the same tokens. -/
theorem IsIn.of_bare_eq {t sub root root' : Token α} {place : Place} (hsub : sub.IsIn root)
    (hbare : root'.bare = sub.bare) (ht : root'.subtree? place = some t) : t.IsIn root := by
  obtain ⟨place', sub', hsub', hbare'⟩ := hsub
  have hplace : (sub'.subtree? place).map bare = some t.bare := by
    rw [← subtree?_bare, ← hbare', ← hbare, subtree?_bare, ht, Option.map_some]
  obtain ⟨found, hfound, heq⟩ := Option.map_eq_some_iff.mp hplace
  refine ⟨place' ++ place, found, ?_, heq.symm⟩
  clear hbare hbare' heq
  -- The token is looked up below the place where `sub` is in the tree.
  induction place' generalizing root with
  | nil =>
    cases hsub'
    exact hfound
  | cons index place' ih =>
    rw [List.cons_append, subtree?]
    rw [subtree?] at hsub'
    cases hchild : root.children[index]? with
    | none =>
      rw [hchild] at hsub'
      cases hsub'
    | some child =>
      rw [hchild] at hsub'
      exact ih hsub'

theorem IsIn.child {t child root : Token α} (h : t.IsIn child) (hchild : child ∈ root.children) :
    t.IsIn root := by
  obtain ⟨place, sub, hsub, hbare⟩ := h
  obtain ⟨index, hindex⟩ := List.mem_iff_getElem?.mp hchild
  exact ⟨index :: place, sub, by rw [subtree?, hindex]; exact hsub, hbare⟩

/-! ### The walk of a tree -/

variable [PayloadType α]

mutual

/-- Walking a tree comes to a token, with all below it done, and a state. -/
inductive Reaches (listeners : Name → Option (Listener σ α)) : Token α → σ → Visit σ α → Prop
  | here {header : Header} {children children' : List (Token α)} {payload : Option α}
      {state state' : σ}
      (done : walkAll listeners children state = .ok () (children', state')) :
      Reaches listeners (.node header children payload) state
        ⟨.node header children' payload, state'⟩
  | under {header : Header} {children : List (Token α)} {payload : Option α} {state : σ}
      {visit : Visit σ α} (inside : ReachesAmong listeners children state visit) :
      Reaches listeners (.node header children payload) state visit

/-- Walking some trees comes to a token in one of them. -/
inductive ReachesAmong (listeners : Name → Option (Listener σ α)) :
    List (Token α) → σ → Visit σ α → Prop
  | first {t : Token α} {rest : List (Token α)} {state : σ} {visit : Visit σ α}
      (inside : Reaches listeners t state visit) :
      ReachesAmong listeners (t :: rest) state visit
  | later {t t' : Token α} {rest : List (Token α)} {state state' : σ} {value : α}
      {visit : Visit σ α} (done : walk listeners t state = .ok value ⟨t', state'⟩)
      (inside : ReachesAmong listeners rest state' visit) :
      ReachesAmong listeners (t :: rest) state visit

end

variable {listeners : Name → Option (Listener σ α)}

mutual

/-- Where the walk comes to an error, it ends with that error. -/
theorem Reaches.walk_error {t : Token α} {state : σ} {visit visit' : Visit σ α} {e : Error}
    (h : Reaches listeners t state visit) (herror : evaluate listeners visit = .error e visit') :
    ∃ visit'', walk listeners t state = .error e visit'' := by
  match h with
  | .here done => exact ⟨visit', by simp only [walk, done, herror]⟩
  | .under inside =>
    rename_i header _ payload
    obtain ⟨⟨children, state'⟩, hwalk⟩ := inside.walkAll_error herror
    refine ⟨⟨.node header children payload, state'⟩, ?_⟩
    simp only [walk, hwalk]

theorem ReachesAmong.walkAll_error {ts : List (Token α)} {state : σ} {visit visit' : Visit σ α}
    {e : Error} (h : ReachesAmong listeners ts state visit)
    (herror : evaluate listeners visit = .error e visit') :
    ∃ found, walkAll listeners ts state = .error e found := by
  match h with
  | .first inside =>
    rename_i rest
    obtain ⟨⟨t', state'⟩, hwalk⟩ := inside.walk_error herror
    refine ⟨(t' :: rest, state'), ?_⟩
    simp only [walkAll, hwalk]
  | .later done inside =>
    rename_i t' _ _ _
    obtain ⟨⟨rest, state'⟩, hwalk⟩ := inside.walkAll_error herror
    refine ⟨(t' :: rest, state'), ?_⟩
    simp only [walkAll, done, hwalk]

end

mutual

/-- The token that the walk comes to, and all under it, are tokens of the tree. -/
theorem Reaches.isIn {root : Token α} {state : σ} {visit : Visit σ α}
    (hkeeps : KeepsTrees listeners) (h : Reaches listeners root state visit) {place : Place}
    {t : Token α} (ht : visit.token.subtree? place = some t) : t.IsIn root := by
  match h with
  | .here done =>
    refine IsIn.of_bare_eq ⟨[], _, rfl, rfl⟩ ?_ ht
    rw [bare, bare, walkAll_bare hkeeps _ done]
  | .under inside =>
    obtain ⟨child, hchild, hin⟩ := inside.isIn hkeeps ht
    exact hin.child hchild

theorem ReachesAmong.isIn {ts : List (Token α)} {state : σ} {visit : Visit σ α}
    (hkeeps : KeepsTrees listeners) (h : ReachesAmong listeners ts state visit) {place : Place}
    {t : Token α} (ht : visit.token.subtree? place = some t) : ∃ root ∈ ts, t.IsIn root := by
  match h with
  | .first inside => exact ⟨_, List.mem_cons_self, inside.isIn hkeeps ht⟩
  | .later done inside =>
    obtain ⟨root, hroot, hin⟩ := inside.isIn hkeeps ht
    exact ⟨root, List.mem_cons_of_mem _ hroot, hin⟩

end

end Token

/-! ### What a parse reports -/

namespace Grammar

variable [PayloadType α] {β : Type} {gr : Grammar σ α} {limit : Nat} {text : String} {state : σ}
  {root t : Token α} {s : MatchState} {visit visit' : Visit σ α} {listener : Listener σ α}
  {message : String}

/-- A parse ends with the error about a token that says this. It is reported where the token starts,
    which is in the text or at its end, with the line and the column of that position, counted from
    one. -/
structure IsAnchored (text : String) (t : Token α) (message : String)
    (result : Except Error β) : Prop where
  reported : result = .error (.parse { t.error message with
    location := some (whereabouts text.toList t.start.toNat) })
  within : 0 ≤ t.start ∧ t.start ≤ text.toList.length
  line_pos : 1 ≤ (whereabouts text.toList t.start.toNat).1
  column_pos : 1 ≤ (whereabouts text.toList t.start.toNat).2

omit [PayloadType α] in
theorem lies_of_matchInput (h : gr.matchInput limit (.beginning text) = .ok root s) :
    root.Lies text.toList.length := by
  obtain ⟨p, stop, reach₁, reach₂, reach₃, hskip, hmatch, -⟩ :=
    of_matchInput_ok (.beginning text) h
  exact hmatch.lies (hskip.le.2 (Nat.zero_le _)) _ rfl

/-- The position of an error about a token that the listener of another one raised. -/
def reportedAt (t raising : Token α) : Int := if t.start = 0 then raising.start else t.start

omit [PayloadType α] in
theorem anchor_error (t raising : Token α) (message : String) :
    (t.error message).anchor raising.start =
      { t.error message with position := reportedAt t raising } := by
  unfold ParseError.anchor reportedAt Token.error
  split <;> rename_i h
  · rw [if_pos h.1]
  · rw [if_neg fun hstart => h ⟨hstart, rfl⟩]

/-- An error about a token ends the parse. It is reported at the token if that starts in the text,
    and not at its beginning unless the token does that whose listener raised the error. -/
theorem parse_anchored (hmatch : gr.matchInput limit (.beginning text) = .ok root s)
    (hreached : root.Reaches gr.listenerFor state visit)
    (hlistener : gr.listenerFor visit.token.name = some listener) (ht : t.IsIn root)
    (hraises : listener visit = .error (.parse (t.error message)) visit') :
    (gr.parse limit text state).result = .error (.parse { t.error message with
      position := reportedAt t visit.token
      location := some (locate text.toList.toArray (reportedAt t visit.token)) }) ∧
    (IsAnchored text t message (gr.parse limit text state).result ↔
      t.start ≠ -1 ∧ (t.start = 0 → visit.token.start = 0)) := by
  have herror : Token.evaluate gr.listenerFor visit =
      .error (.parse { t.error message with position := reportedAt t visit.token }) visit' := by
    simp only [Token.evaluate, hlistener, hraises, Error.anchor, anchor_error]
  obtain ⟨visit'', hwalk⟩ := hreached.walk_error herror
  have hresult : (gr.parse limit text state).result = .error (.parse { t.error message with
      position := reportedAt t visit.token
      location := some (locate text.toList.toArray (reportedAt t visit.token)) }) := by
    apply parse_of_parseTree_error
    rw [(parseTree_of_isOf (isOf_accepted hmatch) state).1, settle, hwalk]
    rfl
  refine ⟨hresult, ?_⟩
  constructor
  · rintro ⟨hreported, hwithin, -, -⟩
    rw [hresult] at hreported
    injection hreported with hreported
    injection hreported with hreported
    have hposition : reportedAt t visit.token = t.start := congrArg ParseError.position hreported
    -- A start of zero is taken for no position, and the error is moved to the raising token.
    refine ⟨by omega, fun hstart => ?_⟩
    rwa [reportedAt, if_pos hstart, hstart] at hposition
  · rintro ⟨hsomewhere, hraising⟩
    have hposition : reportedAt t visit.token = t.start := by
      unfold reportedAt
      split
      · rename_i hstart
        rw [hraising hstart, hstart]
      · rfl
    have hwithin := (ht.start_eq (lies_of_matchInput hmatch)).resolve_left hsomewhere
    refine ⟨?_, hwithin, ?_, ?_⟩
    · have hlocate : locate text.toList.toArray t.start = whereabouts text.toList t.start.toNat := by
        rw [← locate_natCast, Int.toNat_of_nonneg hwithin.1]
      rw [hresult, hposition, hlocate]
      rfl
    · simp [whereabouts]
    · simp [whereabouts]

/-- Letters that are refused, with blanks around them. -/
def refusing : Grammar Unit Unit where
  ruleSet := ⟨⟨#[⟨.given "letter", .character 'a'⟩, ⟨.given "blank", .character ' '⟩]⟩,
    ⟨[("letter", .node 0), ("blank", .node 1)]⟩⟩
  listeners := ⟨[("letter", .ofStep fun token _ => .error (.parse (token.error "refused")))]⟩
  start := "letter"
  skip := "blank"
  hasStart := by decide
  hasSkip := by decide

theorem parse_anchored_refusing : ∃ t : Token Unit, t.start = 1 ∧
    IsAnchored " a" t "refused" (refusing.parse 5 " a" ()).result := by
  have hmatch : refusing.matchInput 5 (.beginning " a") =
      .ok (.node ⟨.character, .given "letter", "a", 1, 0⟩ [] none) _ := rfl
  have hreached : (Token.node ⟨.character, .given "letter", "a", 1, 0⟩ [] none).Reaches
      refusing.listenerFor () ⟨.node _ [] none, ()⟩ := .here rfl
  have hanchored := parse_anchored hmatch hreached rfl ⟨[], _, rfl, rfl⟩ rfl
  exact ⟨_, rfl, hanchored.2.mpr (by decide)⟩

/-- No text. -/
def nothing : Grammar Unit Unit where
  ruleSet := ⟨⟨#[⟨.given "nothing", .option .zeroLength⟩]⟩, ⟨[("nothing", .node 0)]⟩⟩
  listeners := ⟨[("nothing", .ofStep fun token _ => .error (.parse (token.error "refused")))]⟩
  start := "nothing"
  skip := "nothing"
  hasStart := by decide
  hasSkip := by decide

/-- Two letters. The listener of the second one refuses the first. -/
def refusingFirst : Grammar (Option (Token Unit)) Unit where
  ruleSet := ⟨⟨#[⟨.given "first", .character 'a'⟩, ⟨.given "second", .character 'b'⟩,
      ⟨.given "both", .sequence [.node 0, .node 1]⟩, ⟨.given "nothing", .zeroLength⟩]⟩,
    ⟨[("first", .node 0), ("second", .node 1), ("both", .node 2), ("nothing", .node 3)]⟩⟩
  listeners := ⟨[("first", .ofStep fun token _ => .ok ((), some token)),
    ("second", .ofStep fun _ first? =>
      match first? with
      | some first => .error (.parse (first.error "refused"))
      | none => .ok ((), none))]⟩
  start := "both"
  skip := "nothing"
  hasStart := by decide
  hasSkip := by decide

/-- What takes the empty text of the zero-length symbol is reported before the text, and the first
    letter of a text is reported at the second one. -/
theorem parse_anchored_astray :
    (∃ e, (nothing.parse 5 "" ()).result = .error (.parse e) ∧ e.position = -1 ∧
      e.location = some (1, 0)) ∧
    ∃ e, (refusingFirst.parse 5 "ab" none).result = .error (.parse e) ∧ e.isSemantic = true ∧
      e.position = 1 ∧ e.complaint = .custom "refused (in 'a')" := by
  have hnothing : (parseError? (nothing.parse 5 "" ()).result).any (fun e =>
      e.position = -1 ∧ e.location = some (1, 0)) = true := by
    decide +kernel
  have hfirst : (parseError? (refusingFirst.parse 5 "ab" none).result).any (fun e =>
      e.isSemantic = true ∧ e.position = 1 ∧ e.complaint = .custom "refused (in 'a')") = true := by
    decide +kernel
  obtain ⟨e, hresult, he⟩ := of_parseError? hnothing
  obtain ⟨e', hresult', he'⟩ := of_parseError? hfirst
  exact ⟨⟨e, hresult, of_decide_eq_true he⟩, e', hresult', of_decide_eq_true he'⟩

end Grammar

end GrammarEngine
