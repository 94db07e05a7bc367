import GrammarEngine.Proofs.Steps
import GrammarEngine.Matching.Matcher

namespace GrammarEngine

/-!
# Comparing two matches

What is needed to say that two matches go the same way, up to a change of what stands in the tokens.

* `EndBoth` — two steps both end well, or both end badly;
* `Token.mapHeaders` — a tree with something changed in all of its tokens.
-/

/-! ### Two steps at once -/

section Steps

variable {σ τ β β' γ γ' : Type} {s s' : σ} {t t' : τ} {x : EStateM Error σ β}
  {y : EStateM Error τ γ} {f : β → EStateM Error σ β'} {f' : γ → EStateM Error τ γ'}

/-- Both runs end well, with values and states as in `good`, or both end badly, with errors and
    states as in `bad`. -/
def EndBoth (good : β → σ → γ → τ → Prop) (bad : Error → σ → Error → τ → Prop) :
    EStateM.Result Error σ β → EStateM.Result Error τ γ → Prop
  | .ok b s, .ok c t => good b s c t
  | .error e s, .error e' t => bad e s e' t
  | _, _ => False

namespace EndBoth

variable {good good' : β → σ → γ → τ → Prop} {bad bad' : Error → σ → Error → τ → Prop}

theorem elim {run : EStateM.Result Error σ β} {run' : EStateM.Result Error τ γ}
    (h : EndBoth good bad run run') :
    (∃ b s c t, run = .ok b s ∧ run' = .ok c t ∧ good b s c t) ∨
      ∃ e s e' t, run = .error e s ∧ run' = .error e' t ∧ bad e s e' t := by
  unfold EndBoth at h
  split at h
  · exact .inl ⟨_, _, _, _, rfl, rfl, h⟩
  · exact .inr ⟨_, _, _, _, rfl, rfl, h⟩
  · exact h.elim

theorem of_ok {b : β} {c : γ} (hx : x s = .ok b s') (hy : y t = .ok c t')
    (hgood : good b s' c t') : EndBoth good bad (x s) (y t) := by
  rw [hx, hy]
  exact hgood

theorem of_error {e e' : Error} (hx : x s = .error e s') (hy : y t = .error e' t')
    (hbad : bad e s' e' t') : EndBoth good bad (x s) (y t) := by
  rw [hx, hy]
  exact hbad

theorem mono {run : EStateM.Result Error σ β} {run' : EStateM.Result Error τ γ}
    (h : EndBoth good bad run run') (hgood : ∀ b s c t, good b s c t → good' b s c t)
    (hbad : ∀ e s e' t, bad e s e' t → bad' e s e' t) : EndBoth good' bad' run run' := by
  rcases h.elim with ⟨b, s, c, t, rfl, rfl, h⟩ | ⟨e, s, e', t, rfl, rfl, h⟩
  · exact hgood b s c t h
  · exact hbad e s e' t h

theorem bind_ok {good : β' → σ → γ' → τ → Prop} {b : β} {c : γ} (hx : x s = .ok b s')
    (hy : y t = .ok c t') (hf : EndBoth good bad (f b s') (f' c t')) :
    EndBoth good bad ((x >>= f) s) ((y >>= f') t) := by
  rw [Step.bind_ok hx, Step.bind_ok hy]
  exact hf

/-- Two runs of two steps: the second steps start where the first ones ended well. -/
theorem bind {good : β' → σ → γ' → τ → Prop} {mid : β → σ → γ → τ → Prop}
    (h : EndBoth mid bad (x s) (y t))
    (hf : ∀ b s' c t', mid b s' c t' → EndBoth good bad (f b s') (f' c t')) :
    EndBoth good bad ((x >>= f) s) ((y >>= f') t) := by
  rcases h.elim with ⟨b, s', c, t', hx, hy, h⟩ | ⟨e, s', e', t', hx, hy, h⟩
  · rw [Step.bind_ok hx, Step.bind_ok hy]
    exact hf b s' c t' h
  · rw [Step.bind_error hx, Step.bind_error hy]
    exact h

end EndBoth

end Steps

/-! ### Trees with other headers -/

namespace Token

variable {α : Type} (f : Header → Header)

mutual

/-- The tree, with a change to the header of each token. -/
def mapHeaders : Token α → Token α
  | .sentinel which => .sentinel which
  | .node header children payload => .node (f header) (mapHeadersAll children) payload

/-- Some trees, with a change to the header of each token. -/
def mapHeadersAll : List (Token α) → List (Token α)
  | [] => []
  | t :: rest => mapHeaders t :: mapHeadersAll rest

end

theorem mapHeadersAll_eq_map (ts : List (Token α)) :
    mapHeadersAll f ts = ts.map (mapHeaders f) := by
  induction ts with
  | nil => rfl
  | cons t ts ih => rw [mapHeadersAll, ih, List.map_cons]

@[simp] theorem mapHeaders_sentinel (which : Sentinel) :
    mapHeaders f (.sentinel which : Token α) = .sentinel which := by
  rw [mapHeaders]

@[simp] theorem mapHeaders_node (header : Header) (children : List (Token α))
    (payload : Option α) :
    mapHeaders f (.node header children payload) =
      .node (f header) (children.map (mapHeaders f)) payload := by
  rw [mapHeaders, mapHeadersAll_eq_map]

@[simp] theorem children_mapHeaders (t : Token α) :
    (t.mapHeaders f).children = t.children.map (mapHeaders f) := by
  cases t with
  | sentinel which => rfl
  | node header children payload => rw [mapHeaders_node, children_node, children_node]

variable {f}

/-- A change that leaves the texts alone. -/
theorem substring_mapHeaders (hf : ∀ header, (f header).substring = header.substring)
    (t : Token α) : (t.mapHeaders f).substring = t.substring := by
  cases t with
  | sentinel which => rfl
  | node header children payload => rw [mapHeaders_node, substring_node, substring_node, hf]

theorem isEmpty_mapHeaders (hf : ∀ header, (f header).substring = header.substring)
    (t : Token α) : (t.mapHeaders f).isEmpty = t.isEmpty := by
  rw [isEmpty, isEmpty, substring_mapHeaders hf]

end Token

end GrammarEngine
