import GrammarEngine.Proofs.Spans
import GrammarEngine.Token.Walk

namespace GrammarEngine

/-!
# Trees without payloads

Computing payloads leaves a tree as it is otherwise.

* `Token.bare` — a tree without its payloads;
* `roundTrip_bare` — payloads make no difference to how a tree lies over its text;
* `KeepsTrees` — listeners that assign payloads only;
* `Token.walk_bare` — walking a tree with such listeners leaves it as it is otherwise.
-/

namespace Token

variable {α : Type}

mutual

/-- A tree without its payloads. -/
def bare : Token α → Token α
  | .sentinel which => .sentinel which
  | .node header children _ => .node header (bareAll children) none

/-- Some trees without their payloads. -/
def bareAll : List (Token α) → List (Token α)
  | [] => []
  | t :: rest => bare t :: bareAll rest

end

theorem bareAll_eq_map (ts : List (Token α)) : bareAll ts = ts.map bare := by
  induction ts with
  | nil => rfl
  | cons t ts ih => rw [bareAll, ih, List.map_cons]

@[simp] theorem name_bare (t : Token α) : t.bare.name = t.name := by
  cases t <;> rfl

@[simp] theorem start_bare (t : Token α) : t.bare.start = t.start := by
  cases t <;> rfl

@[simp] theorem substring_bare (t : Token α) : t.bare.substring = t.substring := by
  cases t <;> rfl

@[simp] theorem stop_bare (t : Token α) : t.bare.stop = t.stop := by
  rw [stop, stop, start_bare, substring_bare]

@[simp] theorem isEmpty_bare (t : Token α) : t.bare.isEmpty = t.isEmpty := by
  rw [isEmpty, isEmpty, substring_bare]

@[simp] theorem children_bare (t : Token α) : t.bare.children = t.children.map bare := by
  cases t with
  | sentinel which => rfl
  | node header children payload => exact bareAll_eq_map children

mutual

theorem leaves_bare (t : Token α) : t.bare.leaves = t.leaves.map bare := by
  match t with
  | .sentinel which => rfl
  | .node header [] payload => rfl
  | .node header (child :: rest) payload => exact leavesOf_bare (child :: rest)

theorem leavesOf_bare (ts : List (Token α)) : leavesOf (bareAll ts) = (leavesOf ts).map bare := by
  match ts with
  | [] => rfl
  | t :: rest =>
    rw [bareAll, leavesOf, leavesOf, leaves_bare t, leavesOf_bare rest, List.map_append]

end

theorem tips_bare (t : Token α) : t.bare.tips = t.tips.map bare := by
  rw [tips, leaves_bare, List.filter_map, tips]
  simp [Function.comp_def]

end Token

/-! ### Trees over a text -/

variable {α : Type} {g : Graph} {text : List Char} {skip : Ref}

theorem Token.spans_bare {t : Token α} {p stop : Nat} :
    t.bare.Spans text p stop ↔ t.Spans text p stop := by
  constructor
  · rintro ⟨hstart, hsubstring, hle, hlength⟩
    rw [start_bare] at hstart
    rw [substring_bare] at hsubstring
    exact ⟨hstart, hsubstring, hle, hlength⟩
  · rintro ⟨hstart, hsubstring, hle, hlength⟩
    exact ⟨by rw [start_bare, hstart], by rw [substring_bare, hsubstring], hle, hlength⟩

theorem woven_bare {a b : Nat} {leaves : List (Token α)} :
    Woven g text skip a (leaves.map Token.bare) b ↔ Woven g text skip a leaves b := by
  induction leaves generalizing a with
  | nil => exact Iff.rfl
  | cons leaf leaves ih => simp only [List.map_cons, Woven, Token.spans_bare, ih]

theorem faithful_bare {t : Token α} : Faithful g text skip t.bare ↔ Faithful g text skip t := by
  have hspan : (∃ p stop, t.bare.Spans text p stop ∧ Woven g text skip p t.bare.tips stop) ↔
      ∃ p stop, t.Spans text p stop ∧ Woven g text skip p t.tips stop := by
    simp only [Token.spans_bare, Token.tips_bare, woven_bare]
  have hordered : (t.bare.children.filter fun child => !child.isEmpty).Pairwise
        (fun t t' => t.stop ≤ t'.start) ↔
      (t.children.filter fun child => !child.isEmpty).Pairwise fun t t' => t.stop ≤ t'.start := by
    rw [Token.children_bare, List.filter_map, List.pairwise_map]
    simp [Function.comp_def]
  have hinside : (∀ child ∈ t.bare.children, child.isEmpty = false →
        t.bare.start ≤ child.start ∧ child.stop ≤ t.bare.stop) ↔
      ∀ child ∈ t.children, child.isEmpty = false →
        t.start ≤ child.start ∧ child.stop ≤ t.stop := by
    simp
  constructor
  · intro h
    exact ⟨hspan.mp h.span, hinside.mp h.inside, hordered.mp h.ordered⟩
  · intro h
    exact ⟨hspan.mpr h.span, hinside.mpr h.inside, hordered.mpr h.ordered⟩

theorem Under.bare {skip' : Ref} {t t' : Token α} (h : Under skip t skip' t') :
    Under skip t.bare skip' t'.bare := by
  induction h with
  | self => exact .self
  | @child skip skip' t child t' mem _ ih =>
    have hmem : child.bare ∈ t.bare.children := by
      rw [Token.children_bare]
      exact List.mem_map_of_mem mem
    exact .child hmem (by rwa [Token.name_bare])

theorem Under.of_bare {skip' : Ref} {t u : Token α} (h : Under skip t.bare skip' u) :
    ∃ t', Under skip t skip' t' ∧ u = t'.bare := by
  -- The induction is on the path in the bare tree.
  generalize hbare : t.bare = bare at h
  induction h generalizing t with
  | self => exact ⟨t, .self, hbare.symm⟩
  | @child skip skip' t₁ child u mem _ ih =>
    subst hbare
    rw [Token.children_bare] at mem
    obtain ⟨child', hmem, hchild⟩ := List.mem_map.mp mem
    obtain ⟨t', hunder, hu⟩ := ih hchild
    rw [Token.name_bare] at hunder
    exact ⟨t', .child hmem hunder, hu⟩

theorem roundTrip_bare {t : Token α} : RoundTrip g text skip t.bare ↔ RoundTrip g text skip t := by
  constructor
  · intro h skip' t' hunder
    have hfaithful := h skip' t'.bare hunder.bare
    rw [Token.name_bare] at hfaithful
    exact faithful_bare.mp hfaithful
  · intro h skip' u hunder
    obtain ⟨t', hunder', rfl⟩ := hunder.of_bare
    rw [Token.name_bare]
    exact faithful_bare.mpr (h skip' t' hunder')

/-! ### Walking -/

section Walk

variable {σ : Type} {listeners : Name → Option (Listener σ α)}

/-- The listeners leave the tokens that they are handed as they are, but for payloads. -/
def KeepsTrees (listeners : Name → Option (Listener σ α)) : Prop :=
  ∀ name listener, listeners name = some listener → ∀ visit value visit',
    listener visit = .ok value visit' → visit'.token.bare = visit.token.bare

theorem Token.store_bare {visit visit' : Visit σ α} {value value' : α}
    (h : store value visit = .ok value' visit') : visit'.token.bare = visit.token.bare := by
  unfold store at h
  cases htoken : visit.token with
  | sentinel which =>
    rw [htoken] at h
    cases h
  | node header children payload =>
    rw [htoken, assign] at h
    cases hwrite : WriteOnce.write "token payload" payload value with
    | error e =>
      rw [hwrite] at h
      cases h
    | ok payload' =>
      rw [hwrite] at h
      cases h
      rfl

variable [PayloadType α]

theorem Token.evaluate_bare (hkeeps : KeepsTrees listeners) {visit visit' : Visit σ α} {value : α}
    (h : evaluate listeners visit = .ok value visit') : visit'.token.bare = visit.token.bare := by
  unfold evaluate at h
  cases hlistener : listeners visit.token.name with
  | none =>
    rw [hlistener] at h
    cases hdefault : visit.token.defaultPayload <;> simp only [hdefault] at h <;> cases h
    rfl
  | some listener =>
    rw [hlistener] at h
    cases hrun : listener visit <;> simp only [hrun] at h <;> cases h
    exact hkeeps _ listener hlistener visit _ _ hrun

mutual

theorem Token.walk_bare (hkeeps : KeepsTrees listeners) (t : Token α) {state : σ} {value : α}
    {visit : Visit σ α} (h : walk listeners t state = .ok value visit) :
    visit.token.bare = t.bare := by
  match t with
  | .sentinel which =>
    cases h
    rfl
  | .node header children payload =>
    unfold walk at h
    cases hall : walkAll listeners children state with
    | error e found =>
      rw [hall] at h
      cases h
    | ok u found =>
      obtain ⟨children', state'⟩ := found
      rw [hall] at h
      have hchildren := walkAll_bare hkeeps children hall
      cases hevaluate : evaluate listeners ⟨.node header children' payload, state'⟩ with
      | error e visit' =>
        simp only [hevaluate] at h
        cases h
      | ok value' visit' =>
        simp only [hevaluate] at h
        rw [store_bare h, evaluate_bare hkeeps hevaluate, bare, bare, hchildren]

theorem Token.walkAll_bare (hkeeps : KeepsTrees listeners) (ts : List (Token α)) {state : σ}
    {found : List (Token α) × σ} (h : walkAll listeners ts state = .ok () found) :
    bareAll found.1 = bareAll ts := by
  match ts with
  | [] =>
    cases h
    rfl
  | t :: rest =>
    unfold walkAll at h
    cases hwalk : walk listeners t state with
    | error e visit =>
      rw [hwalk] at h
      cases h
    | ok value visit =>
      obtain ⟨t', state'⟩ := visit
      rw [hwalk] at h
      have ht := walk_bare hkeeps t hwalk
      cases hrest : walkAll listeners rest state' with
      | error e found' =>
        simp only [hrest] at h
        cases h
      | ok u found' =>
        obtain ⟨rest', state''⟩ := found'
        simp only [hrest] at h
        cases h
        rw [bareAll, bareAll, ht, walkAll_bare hkeeps rest hrest]

end

end Walk

end GrammarEngine
