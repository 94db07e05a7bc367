import Mathlib.Data.List.Forall2
import GrammarEngine.Proofs.Walking
import GrammarEngine.Token.Access

namespace GrammarEngine

/-!
# What a walk computes

A walk as a function from one state to the next, without what a failed walk leaves behind, and how
payloads are read off the tree that it gives back.

* `Token.walked`, `Token.walkedAll` — the walk of a tree, and of some trees one after the other;
* `Quiet` — walking a tree leaves the state as it is and does not fail;
* `Computes` — what is read off a tree after its walk, and the state then;
* `inTurn` — several computations one after the other;
* `Finds` — what is read off a tree where the state plays no part.
-/

variable {σ α β γ : Type}

/-! ### Lists of results -/

/-- If all results are there, so is their list. -/
theorem mapM_eq_ok {ε : Type} {f : β → Except ε γ} {bs : List β} {cs : List γ}
    (h : bs.map f = cs.map .ok) : bs.mapM f = .ok cs := by
  induction bs generalizing cs with
  | nil =>
    cases cs with
    | nil => rfl
    | cons c cs => cases h
  | cons b bs ih =>
    cases cs with
    | nil => cases h
    | cons c cs =>
      rw [List.map_cons, List.map_cons, List.cons.injEq] at h
      rw [List.mapM_cons, h.1, ih h.2]
      rfl

/-- A companion for each member of a list. -/
theorem exists_forall₂ {R : β → γ → Prop} {bs : List β} (h : ∀ b ∈ bs, ∃ c, R b c) :
    ∃ cs, List.Forall₂ R bs cs := by
  induction bs with
  | nil => exact ⟨[], .nil⟩
  | cons b bs ih =>
    rw [List.forall_mem_cons] at h
    obtain ⟨c, hc⟩ := h.1
    obtain ⟨cs, hcs⟩ := ih h.2
    exact ⟨c :: cs, .cons hc hcs⟩

/-! ### Tokens and their payloads -/

theorem TokenClass.admits_any (sort : TokenSort) : TokenClass.any.admits sort = true := by
  cases sort <;> rfl

namespace Token

@[simp] theorem sort_bare (t : Token α) : t.bare.sort = t.sort := by
  cases t <;> rfl

/-- The child of a token that wraps at most one other. -/
theorem only_eq_ok {header : Header} {t : Token α} {payload : Option α} {expected : TokenClass}
    (hkind : TokenClass.single.includes header.kind = true)
    (hadmits : expected.admits t.sort = true) :
    (Token.node header [t] payload).only expected = .ok t := by
  have hsingle : (Token.node header [t] payload).isOf .single = true := hkind
  rw [only, if_pos hsingle]
  show Token.expect _ 0 expected t = _
  rw [expect, if_pos hadmits]

theorem eq_node_of_bare {header : Header} {children : List (Token α)} {t' : Token α}
    (h : t'.bare = (Token.node header children none).bare) :
    ∃ children' payload', t' = .node header children' payload' ∧
      children'.map bare = children.map bare := by
  cases t' with
  | sentinel which => cases h
  | node header' children' payload' =>
    rw [bare, bare, node.injEq, bareAll_eq_map, bareAll_eq_map] at h
    obtain ⟨rfl, hchildren, -⟩ := h
    exact ⟨children', payload', rfl, hchildren⟩

theorem eq_cons_of_bare {t : Token α} {ts ts' : List (Token α)}
    (h : ts'.map bare = (t :: ts).map bare) :
    ∃ t' rest', ts' = t' :: rest' ∧ t'.bare = t.bare ∧ rest'.map bare = ts.map bare := by
  cases ts' with
  | nil => cases h
  | cons t' rest' =>
    rw [List.map_cons, List.map_cons, List.cons.injEq] at h
    exact ⟨t', rest', rfl, h.1, h.2⟩

theorem eq_nil_of_bare {ts' : List (Token α)} (h : ts'.map bare = ([] : List (Token α)).map bare) :
    ts' = [] := by
  cases ts' with
  | nil => rfl
  | cons t' rest' => cases h

theorem eq_one_of_bare {a : Token α} {ts' : List (Token α)}
    (h : ts'.map bare = [a].map bare) : ∃ a', ts' = [a'] ∧ a'.bare = a.bare := by
  obtain ⟨a', rest, rfl, ha', hrest⟩ := eq_cons_of_bare h
  obtain rfl := eq_nil_of_bare hrest
  exact ⟨a', rfl, ha'⟩

theorem eq_two_of_bare {a b : Token α} {ts' : List (Token α)}
    (h : ts'.map bare = [a, b].map bare) :
    ∃ a' b', ts' = [a', b'] ∧ a'.bare = a.bare ∧ b'.bare = b.bare := by
  obtain ⟨a', rest, rfl, ha', hrest⟩ := eq_cons_of_bare h
  obtain ⟨b', rfl, hb'⟩ := eq_one_of_bare hrest
  exact ⟨a', b', rfl, ha', hb'⟩

theorem eq_three_of_bare {a b c : Token α} {ts' : List (Token α)}
    (h : ts'.map bare = [a, b, c].map bare) :
    ∃ a' b' c', ts' = [a', b', c'] ∧ a'.bare = a.bare ∧ b'.bare = b.bare ∧ c'.bare = c.bare := by
  obtain ⟨a', rest, rfl, ha', hrest⟩ := eq_cons_of_bare h
  obtain ⟨b', c', rfl, hb', hc'⟩ := eq_two_of_bare hrest
  exact ⟨a', b', c', rfl, ha', hb', hc'⟩

theorem eq_four_of_bare {a b c d : Token α} {ts' : List (Token α)}
    (h : ts'.map bare = [a, b, c, d].map bare) :
    ∃ a' b' c' d', ts' = [a', b', c', d'] ∧ a'.bare = a.bare ∧ b'.bare = b.bare ∧
      c'.bare = c.bare ∧ d'.bare = d.bare := by
  obtain ⟨a', rest, rfl, ha', hrest⟩ := eq_cons_of_bare h
  obtain ⟨b', c', d', rfl, hb', hc', hd'⟩ := eq_three_of_bare hrest
  exact ⟨a', b', c', d', rfl, ha', hb', hc', hd'⟩

theorem sort_of_bares {ts ts' : List (Token α)} {sort : TokenSort}
    (h : ts'.map bare = ts.map bare) (hsorts : ∀ t ∈ ts, t.sort = sort) :
    ∀ t' ∈ ts', t'.sort = sort := by
  intro t' ht'
  have hmem : t'.bare ∈ ts.map bare := h ▸ List.mem_map_of_mem ht'
  obtain ⟨t, ht, hbare⟩ := List.mem_map.mp hmem
  rw [← sort_bare, ← hbare, sort_bare, hsorts t ht]

/-! ### Walks as functions -/

variable [PayloadType α] {listeners : Name → Option (Listener σ α)}

/-- Walk a tree: the tree with its payloads, and the state after it. -/
def walked (listeners : Name → Option (Listener σ α)) (t : Token α) (state : σ) :
    Except Error (Token α × σ) :=
  match t.walk listeners state with
  | .ok _ visit => .ok (visit.token, visit.state)
  | .error e _ => .error e

theorem walk_of_walked_ok {t t' : Token α} {state state' : σ}
    (h : walked listeners t state = .ok (t', state')) :
    ∃ value, t.walk listeners state = .ok value ⟨t', state'⟩ := by
  unfold walked at h
  split at h
  · rename_i value visit hwalk
    cases h
    exact ⟨value, hwalk⟩
  · cases h

theorem walk_of_walked_error {t : Token α} {state : σ} {e : Error}
    (h : walked listeners t state = .error e) : ∃ visit, t.walk listeners state = .error e visit := by
  unfold walked at h
  split at h
  · cases h
  · rename_i hwalk
    cases h
    exact ⟨_, hwalk⟩

/-- Walk some trees, one after the other. -/
def walkedAll (listeners : Name → Option (Listener σ α)) (ts : List (Token α)) (state : σ) :
    Except Error (List (Token α) × σ) :=
  match walkAll listeners ts state with
  | .ok () found => .ok found
  | .error e _ => .error e

@[simp] theorem walkedAll_nil (state : σ) : walkedAll listeners [] state = .ok ([], state) := rfl

theorem walkedAll_cons_ok {t t' : Token α} (ts : List (Token α)) {state state' : σ}
    (h : walked listeners t state = .ok (t', state')) :
    walkedAll listeners (t :: ts) state =
      (walkedAll listeners ts state').map fun found => (t' :: found.1, found.2) := by
  unfold walked at h
  cases hwalk : walk listeners t state with
  | error e visit =>
    rw [hwalk] at h
    cases h
  | ok value visit =>
    rw [hwalk] at h
    cases h
    simp only [walkedAll, walkAll, hwalk]
    cases hall : walkAll listeners ts visit.state <;> simp [Except.map]

theorem walkedAll_cons_error {t : Token α} {ts : List (Token α)} {state : σ} {e : Error}
    (h : walked listeners t state = .error e) :
    walkedAll listeners (t :: ts) state = .error e := by
  unfold walked at h
  cases hwalk : walk listeners t state with
  | ok value visit =>
    rw [hwalk] at h
    cases h
  | error e visit =>
    rw [hwalk] at h
    cases h
    rw [walkedAll, walkAll, hwalk]

variable {header : Header} {children children' : List (Token α)} {state state' : σ}

theorem walked_node_error {e : Error} (h : walkedAll listeners children state = .error e) :
    walked listeners (.node header children none) state = .error e := by
  unfold walkedAll at h
  cases hall : walkAll listeners children state with
  | ok u found =>
    rw [hall] at h
    cases h
  | error e found =>
    rw [hall] at h
    cases h
    rw [walked, walk, hall]

/-- A token with a listener of the simple sort: once the children are walked, the listener computes
    the payload. -/
theorem walked_listened {step : Token α → σ → Except Error (α × σ)}
    (hlistener : listeners header.name = some (.ofStep step))
    (h : walkedAll listeners children state = .ok (children', state')) :
    walked listeners (.node header children none) state =
      match step (.node header children' none) state' with
      | .ok (value, state) => .ok (.node header children' (some value), state)
      | .error e => .error (e.anchor header.start) := by
  unfold walkedAll at h
  cases hall : walkAll listeners children state with
  | error e found =>
    rw [hall] at h
    cases h
  | ok u found =>
    rw [hall] at h
    cases h
    simp only [walked, walk, hall, evaluate, name_node, hlistener, Listener.ofStep]
    cases step (.node header children' none) state' with
    | error e => rfl
    | ok result => rfl

/-- A token without a listener: once the children are walked, it gets its default payload. -/
theorem walked_default (hlistener : listeners header.name = none)
    (h : walkedAll listeners children state = .ok (children', state')) {value : α}
    (hdefault : (Token.node header children' none).defaultPayload = .ok value) :
    walked listeners (.node header children none) state =
      .ok (.node header children' (some value), state') := by
  unfold walkedAll at h
  cases hall : walkAll listeners children state with
  | error e found =>
    rw [hall] at h
    cases h
  | ok u found =>
    rw [hall] at h
    cases h
    simp only [walked, walk, hall, evaluate, name_node, hlistener, hdefault]
    rfl

theorem bare_of_walked (hkeeps : KeepsTrees listeners) {t t' : Token α}
    (h : walked listeners t state = .ok (t', state')) : t'.bare = t.bare := by
  unfold walked at h
  cases hwalk : walk listeners t state with
  | error e visit =>
    rw [hwalk] at h
    cases h
  | ok value visit =>
    rw [hwalk] at h
    cases h
    exact walk_bare hkeeps t hwalk

/-- A payload that was assigned is there. -/
theorem payload_of_assign {t t' : Token α} {value : α} (h : t.assign value = .ok t') :
    t'.payload = .ok value := by
  cases t with
  | sentinel which => cases h
  | node header children payload =>
    rw [assign] at h
    cases hwrite : WriteOnce.write "token payload" payload value with
    | error e =>
      rw [hwrite] at h
      cases h
    | ok cell =>
      rw [hwrite] at h
      cases h
      exact WriteOnce.read_of_write hwrite

theorem payload_of_store {visit visit' : Visit σ α} {value value' : α}
    (h : store value visit = .ok value' visit') : visit'.token.payload = .ok value := by
  unfold store at h
  cases hassign : visit.token.assign value with
  | error e =>
    rw [hassign] at h
    cases h
  | ok token =>
    rw [hassign] at h
    cases h
    exact payload_of_assign hassign

/-- After its walk a tree has a payload. -/
theorem payload_of_walked {t t' : Token α} (h : walked listeners t state = .ok (t', state')) :
    ∃ value, t'.payload = .ok value := by
  unfold walked at h
  cases hwalk : walk listeners t state with
  | error e visit =>
    rw [hwalk] at h
    cases h
  | ok value visit =>
    rw [hwalk] at h
    cases h
    cases t with
    | sentinel which =>
      cases hwalk
      exact ⟨_, rfl⟩
    | node header children payload =>
      rw [walk] at hwalk
      cases hall : walkAll listeners children state with
      | error e found =>
        rw [hall] at hwalk
        cases hwalk
      | ok u found =>
        simp only [hall] at hwalk
        cases hevaluate : evaluate listeners ⟨.node header found.1 payload, found.2⟩ with
        | error e visit =>
          rw [hevaluate] at hwalk
          cases hwalk
        | ok value' visit' =>
          rw [hevaluate] at hwalk
          exact ⟨value', payload_of_store hwalk⟩

theorem payloads_of_walkedAll {ts ts' : List (Token α)}
    (h : walkedAll listeners ts state = .ok (ts', state')) :
    ∃ values : List α, ts'.map payload = values.map .ok := by
  induction ts generalizing ts' state with
  | nil =>
    cases h
    exact ⟨[], rfl⟩
  | cons t ts ih =>
    cases hwalked : walked listeners t state with
    | error e =>
      rw [walkedAll_cons_error hwalked] at h
      cases h
    | ok found =>
      obtain ⟨t', state₁⟩ := found
      rw [walkedAll_cons_ok _ hwalked] at h
      cases hall : walkedAll listeners ts state₁ with
      | error e =>
        rw [hall] at h
        cases h
      | ok rest =>
        rw [hall] at h
        cases h
        obtain ⟨value, hvalue⟩ := payload_of_walked hwalked
        obtain ⟨values, hvalues⟩ := ih hall
        exact ⟨value :: values, by rw [List.map_cons, hvalue, hvalues, List.map_cons]⟩

/-- Where the children have payloads, there is a default payload. -/
theorem defaultPayload_of_payloads (header : Header) {values : List α}
    (h : children.map payload = values.map .ok) :
    ∃ value, (Token.node header children none).defaultPayload = .ok value := by
  unfold defaultPayload
  split
  · rename_i heq
    exact ⟨_, rfl⟩
  · rename_i heq
    cases heq
    split
    · rw [mapM_eq_ok h]
      exact ⟨_, rfl⟩
    · rw [mapM_eq_ok h]
      exact ⟨_, rfl⟩
    · rw [mapM_eq_ok h]
      exact ⟨_, rfl⟩
    all_goals
      first
      | exact ⟨_, rfl⟩
      | split
        · exact ⟨_, rfl⟩
        · cases values with
          | nil => cases h
          | cons value values =>
            rw [List.map_cons, List.map_cons, List.cons.injEq] at h
            exact ⟨value, h.1⟩

/-- A token without a listener never fails itself. -/
theorem walked_unlistened (hlistener : listeners header.name = none)
    (h : walkedAll listeners children state = .ok (children', state')) :
    ∃ value, walked listeners (.node header children none) state =
      .ok (.node header children' (some value), state') := by
  obtain ⟨values, hvalues⟩ := payloads_of_walkedAll h
  obtain ⟨value, hvalue⟩ := defaultPayload_of_payloads header hvalues
  exact ⟨value, walked_default hlistener h hvalue⟩

end Token

/-! ### Reading what was computed -/

section Computes

variable [PayloadType α] {listeners : Name → Option (Listener σ α)}

/-- Walking the tree leaves the state as it is, and does not fail. -/
def Quiet (listeners : Name → Option (Listener σ α)) (t : Token α) : Prop :=
  ∀ state, ∃ t', t.walked listeners state = .ok (t', state)

/-- Walk the tree and read something off it: this is what is read, and the state then. Where the
    walk fails, this is the error. -/
def Computes (listeners : Name → Option (Listener σ α)) (read : Token α → β) (t : Token α)
    (result : σ → Except Error (β × σ)) : Prop :=
  ∀ state, match result state with
    | .ok (b, state') =>
      ∃ t', t.walked listeners state = .ok (t', state') ∧ t'.bare = t.bare ∧ read t' = b
    | .error e => t.walked listeners state = .error e

/-- The same for some trees that are walked one after the other. -/
def ComputesAll (listeners : Name → Option (Listener σ α)) (read : List (Token α) → β)
    (ts : List (Token α)) (result : σ → Except Error (β × σ)) : Prop :=
  ∀ state, match result state with
    | .ok (b, state') =>
      ∃ ts', Token.walkedAll listeners ts state = .ok (ts', state') ∧
        ts'.map Token.bare = ts.map Token.bare ∧ read ts' = b
    | .error e => Token.walkedAll listeners ts state = .error e

/-- One computation after the other. -/
def andThen (first : σ → Except Error (β × σ)) (second : σ → Except Error (γ × σ)) (state : σ) :
    Except Error ((β × γ) × σ) := do
  let (b, state) ← first state
  let (c, state) ← second state
  return ((b, c), state)

/-- Several computations, one after the other. -/
def inTurn : List (σ → Except Error (β × σ)) → σ → Except Error (List β × σ)
  | [], state => .ok ([], state)
  | first :: rest, state => (andThen first (inTurn rest) state).map fun ((b, bs), state) =>
    (b :: bs, state)

/-- A listener goes by what was computed under its token, which starts at some position. Its errors
    get that position if they have none. -/
def heeded (start : Int) (result : σ → Except Error (β × σ)) (f : β → σ → Except Error (α × σ))
    (state : σ) : Except Error (Except Error α × σ) :=
  match result state with
  | .ok (b, state) =>
    match f b state with
    | .ok (value, state) => .ok (.ok value, state)
    | .error e => .error (e.anchor start)
  | .error e => .error e

theorem Computes.congr {read : Token α → β} {t : Token α}
    {result result' : σ → Except Error (β × σ)} (h : Computes listeners read t result)
    (heq : ∀ state, result' state = result state) : Computes listeners read t result' := by
  intro state
  rw [heq]
  exact h state

/-- What else can be read off the tree. -/
theorem Computes.mapRead {read : Token α → β} {read' : Token α → γ} {t : Token α}
    {result : σ → Except Error (β × σ)} (h : Computes listeners read t result) (f : β → γ)
    (hread : ∀ t', t'.bare = t.bare → read' t' = f (read t')) :
    Computes listeners read' t fun state =>
      (result state).map fun found => (f found.1, found.2) := by
  intro state
  have h := h state
  cases hresult : result state with
  | error e =>
    rw [hresult] at h
    simpa [Except.map, hresult] using h
  | ok found =>
    rw [hresult] at h
    obtain ⟨t', hwalked, hbare, hfound⟩ := h
    simp only [hresult, Except.map]
    exact ⟨t', hwalked, hbare, by rw [hread t' hbare, hfound]⟩

theorem Quiet.computes (hkeeps : KeepsTrees listeners) {t : Token α} (h : Quiet listeners t) :
    Computes listeners (fun _ => ()) t fun state => .ok ((), state) := by
  intro state
  obtain ⟨t', hwalked⟩ := h state
  exact ⟨t', hwalked, Token.bare_of_walked hkeeps hwalked, rfl⟩

namespace ComputesAll

theorem nil : ComputesAll listeners (fun _ => ()) [] fun state => .ok ((), state) :=
  fun _ => ⟨[], rfl, rfl, rfl⟩

theorem cons {read : Token α → β} {readAll : List (Token α) → γ} {t : Token α}
    {ts : List (Token α)} {first : σ → Except Error (β × σ)} {second : σ → Except Error (γ × σ)}
    (h : Computes listeners read t first) (hall : ComputesAll listeners readAll ts second) :
    ComputesAll listeners (fun ts => (read (ts.headD default), readAll ts.tail)) (t :: ts)
      (andThen first second) := by
  intro state
  have h := h state
  unfold andThen
  cases hfirst : first state with
  | error e =>
    rw [hfirst] at h
    exact Token.walkedAll_cons_error h
  | ok found =>
    rw [hfirst] at h
    obtain ⟨t', hwalked, hbare, hread⟩ := h
    have hall := hall found.2
    have hcons := Token.walkedAll_cons_ok ts hwalked
    simp only [bind, Except.bind, hcons]
    cases hsecond : second found.2 with
    | error e =>
      rw [hsecond] at hall
      simp only [hall]
      rfl
    | ok found' =>
      rw [hsecond] at hall
      obtain ⟨ts', hwalkedAll, hbares, hreadAll⟩ := hall
      refine ⟨t' :: ts', by rw [hwalkedAll]; rfl, ?_, ?_⟩
      · rw [List.map_cons, List.map_cons, hbare, hbares]
      · rw [List.headD_cons, List.tail_cons, hread, hreadAll]

theorem ofForall {read : Token α → β} {ts : List (Token α)}
    {results : List (σ → Except Error (β × σ))}
    (h : List.Forall₂ (Computes listeners read) ts results) :
    ComputesAll listeners (List.map read) ts (inTurn results) := by
  induction h with
  | nil => exact fun _ => ⟨[], rfl, rfl, rfl⟩
  | @cons t result ts results ht _ ih =>
    intro state
    have hcons := (ComputesAll.cons ht ih) state
    unfold inTurn
    cases hboth : andThen result (inTurn results) state with
    | error e =>
      rw [hboth] at hcons
      exact hcons
    | ok found =>
      rw [hboth] at hcons
      obtain ⟨ts', hwalkedAll, hbares, hread⟩ := hcons
      refine ⟨ts', hwalkedAll, hbares, ?_⟩
      cases ts' with
      | nil => cases hbares
      | cons t' ts' =>
        obtain ⟨⟨b, bs⟩, state'⟩ := found
        cases hread
        rfl

variable {read : List (Token α) → β} {header : Header} {ts : List (Token α)}
  {result : σ → Except Error (β × σ)}

/-- A token without a listener is there for what is under it. -/
theorem unlistened (header : Header) (h : ComputesAll listeners read ts result)
    (hlistener : listeners header.name = none) :
    Computes listeners (fun t => read t.children) (.node header ts none) result := by
  intro state
  have h := h state
  cases hresult : result state with
  | error e =>
    rw [hresult] at h
    exact Token.walked_node_error h
  | ok found =>
    rw [hresult] at h
    obtain ⟨ts', hwalkedAll, hbares, hread⟩ := h
    obtain ⟨value, hwalked⟩ := Token.walked_unlistened hlistener hwalkedAll
    refine ⟨_, hwalked, ?_, hread⟩
    rw [Token.bare, Token.bare, Token.bareAll_eq_map, Token.bareAll_eq_map, hbares]

/-- A token with a listener, which goes by what is read off the children. -/
theorem listened {step : Token α → σ → Except Error (α × σ)} {f : β → σ → Except Error (α × σ)}
    (h : ComputesAll listeners read ts result)
    (hstep : ∀ ts' state, ts'.map Token.bare = ts.map Token.bare →
      step (.node header ts' none) state = f (read ts') state)
    (hlistener : listeners header.name = some (.ofStep step)) :
    Computes listeners Token.payload (.node header ts none) (heeded header.start result f) := by
  intro state
  have h := h state
  unfold heeded
  cases hresult : result state with
  | error e =>
    rw [hresult] at h
    exact Token.walked_node_error h
  | ok found =>
    obtain ⟨b, state'⟩ := found
    rw [hresult] at h
    obtain ⟨ts', hwalkedAll, hbares, rfl⟩ := h
    have hwalked := Token.walked_listened hlistener hwalkedAll
    rw [hstep ts' state' hbares] at hwalked
    simp only
    cases hf : f (read ts') state' with
    | error e =>
      rw [hf] at hwalked
      exact hwalked
    | ok found =>
      rw [hf] at hwalked
      refine ⟨_, hwalked, ?_, rfl⟩
      rw [Token.bare, Token.bare, Token.bareAll_eq_map, Token.bareAll_eq_map, hbares]

end ComputesAll

/-- A token that stands for its only child, whose payload it gets by default. -/
theorem Computes.wrapped {header : Header} {t : Token α}
    {result : σ → Except Error (Except Error α × σ)} (h : Computes listeners Token.payload t result)
    (hkind : header.kind = .junction) (hlistener : listeners header.name = none) :
    Computes listeners Token.payload (.node header [t] none) result := by
  intro state
  have h := h state
  cases hresult : result state with
  | error e =>
    rw [hresult] at h
    exact Token.walked_node_error (Token.walkedAll_cons_error h)
  | ok found =>
    rw [hresult] at h
    obtain ⟨t', hwalked, hbare, hread⟩ := h
    obtain ⟨value, hvalue⟩ := Token.payload_of_walked hwalked
    have hall : Token.walkedAll listeners [t] state = .ok ([t'], found.2) :=
      Token.walkedAll_cons_ok _ hwalked
    have hdefault : (Token.node header [t'] none).defaultPayload = .ok value := by
      rw [Token.defaultPayload, hkind]
      exact hvalue
    refine ⟨_, Token.walked_default hlistener hall hdefault, ?_, ?_⟩
    · rw [Token.bare, Token.bareAll, Token.bareAll, hbare]
      rfl
    · rw [← hread, hvalue]
      rfl

end Computes

/-! ### Computing without the state -/

section Finds

variable [PayloadType α] {listeners : Name → Option (Listener σ α)}

/-- Walk the tree and read something off it, where the state plays no part. -/
def Finds (listeners : Name → Option (Listener σ α)) (read : Token α → β) (t : Token α)
    (r : Except Error β) : Prop :=
  Computes listeners read t fun state => r.map fun b => (b, state)

/-- The same for some trees that are walked one after the other. -/
def FindsAll (listeners : Name → Option (Listener σ α)) (read : List (Token α) → β)
    (ts : List (Token α)) (r : Except Error β) : Prop :=
  ComputesAll listeners read ts fun state => r.map fun b => (b, state)

theorem Finds.congr {read : Token α → β} {t : Token α} {r r' : Except Error β}
    (h : Finds listeners read t r) (heq : r' = r) : Finds listeners read t r' := heq ▸ h

theorem Finds.mapRead {read : Token α → β} {read' : Token α → γ} {t : Token α}
    {r : Except Error β} (h : Finds listeners read t r) (f : β → γ)
    (hread : ∀ t', t'.bare = t.bare → read' t' = f (read t')) :
    Finds listeners read' t (r.map f) := by
  refine (Computes.mapRead h f hread).congr fun state => ?_
  cases r <;> rfl

theorem Quiet.finds (hkeeps : KeepsTrees listeners) {t : Token α} (h : Quiet listeners t) :
    Finds listeners (fun _ => ()) t (.ok ()) :=
  h.computes hkeeps

namespace FindsAll

theorem nil : FindsAll listeners (fun _ => ()) [] (.ok ()) := ComputesAll.nil

theorem cons {read : Token α → β} {readAll : List (Token α) → γ} {t : Token α}
    {ts : List (Token α)} {r : Except Error β} {rs : Except Error γ}
    (h : Finds listeners read t r) (hall : FindsAll listeners readAll ts rs) :
    FindsAll listeners (fun ts => (read (ts.headD default), readAll ts.tail)) (t :: ts)
      (do return (← r, ← rs)) := by
  intro state
  have hcons := (ComputesAll.cons h hall) state
  cases r <;> cases rs <;> exact hcons

theorem ofForall {read : Token α → β} {ts : List (Token α)} {rs : List (Except Error β)}
    (h : List.Forall₂ (Finds listeners read) ts rs) :
    FindsAll listeners (List.map read) ts (rs.mapM id) := by
  induction h with
  | nil => exact fun _ => ⟨[], rfl, rfl, rfl⟩
  | @cons t r ts rs ht _ ih =>
    intro state
    have hcons := (FindsAll.cons ht ih) state
    rw [List.mapM_cons]
    cases r with
    | error e => exact hcons
    | ok b =>
      cases hrest : rs.mapM id with
      | error e =>
        rw [hrest] at hcons
        exact hcons
      | ok bs =>
        rw [hrest] at hcons
        obtain ⟨ts', hwalkedAll, hbares, hread⟩ := hcons
        refine ⟨ts', hwalkedAll, hbares, ?_⟩
        cases ts' with
        | nil => cases hbares
        | cons t' ts' =>
          cases hread
          rfl

theorem unlistened {read : List (Token α) → β} (header : Header) {ts : List (Token α)}
    {r : Except Error β} (h : FindsAll listeners read ts r)
    (hlistener : listeners header.name = none) :
    Finds listeners (fun t => read t.children) (.node header ts none) r :=
  ComputesAll.unlistened header h hlistener

end FindsAll

/-- Where nobody listens to the token, and the trees under it are quiet, the tree is quiet. -/
theorem Quiet.node {header : Header} {ts : List (Token α)}
    (hlistener : listeners header.name = none) (h : ∀ t ∈ ts, Quiet listeners t) :
    Quiet listeners (.node header ts none) := by
  have hall : ∀ state, ∃ ts', Token.walkedAll listeners ts state = .ok (ts', state) := by
    intro state
    induction ts with
    | nil => exact ⟨[], rfl⟩
    | cons t ts ih =>
      obtain ⟨t', hwalked⟩ := h t (List.mem_cons_self ..) state
      obtain ⟨ts', hwalkedAll⟩ := ih fun t ht => h t (List.mem_cons_of_mem _ ht)
      refine ⟨t' :: ts', ?_⟩
      rw [Token.walkedAll_cons_ok _ hwalked, hwalkedAll]
      rfl
  intro state
  obtain ⟨ts', hwalkedAll⟩ := hall state
  obtain ⟨value, hwalked⟩ := Token.walked_unlistened hlistener hwalkedAll
  exact ⟨_, hwalked⟩

end Finds

end GrammarEngine
