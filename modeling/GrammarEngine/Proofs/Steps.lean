import GrammarEngine.Error

namespace GrammarEngine

/-!
# How steps end

Steps of a stream or a match change a state and may fail; the changes stay. These are the laws by
which a run of several steps is read.

* `Step.get_bind`, `Step.modify_bind` — the first step of a run is one of the basic ones;
* `Step.bind_ok`, `Step.bind_error` — how the first step ends is known;
* `Ends` — the step ends well as one condition says, or badly as another one says;
* `Ends.bind`, `Ends.mono` — a run of two steps, and weaker conditions;
* `AgreesUnless` — two steps end the same way, unless the first one ends with a certain error.
-/

variable {σ β γ : Type} {s s' : σ} {x : EStateM Error σ β} {f : β → EStateM Error σ γ}

namespace Step

@[simp] theorem pure_run (b : β) (s : σ) : (pure b : EStateM Error σ β) s = .ok b s := rfl

@[simp] theorem get_bind (f : σ → EStateM Error σ γ) (s : σ) : (get >>= f) s = f s s := rfl

@[simp] theorem modify_bind (g : σ → σ) (f : PUnit → EStateM Error σ γ) (s : σ) :
    (modify g >>= f) s = f ⟨⟩ (g s) := rfl

theorem bind_ok {b : β} (h : x s = .ok b s') (f : β → EStateM Error σ γ) :
    (x >>= f) s = f b s' := by
  show EStateM.bind x f s = _
  rw [EStateM.bind, h]

theorem bind_error {e : Error} (h : x s = .error e s') (f : β → EStateM Error σ γ) :
    (x >>= f) s = .error e s' := by
  show EStateM.bind x f s = _
  rw [EStateM.bind, h]

/-- Only what the first step does from here matters. -/
theorem bind_eq {y : EStateM Error σ β} (h : x s = y s) (f : β → EStateM Error σ γ) :
    (x >>= f) s = (y >>= f) s := by
  cases hy : y s with
  | ok b s' => rw [bind_ok (h.trans hy), bind_ok hy]
  | error e s' => rw [bind_error (h.trans hy), bind_error hy]

/-- Where two runs begin with the same step, only what comes behind it can make a difference. -/
theorem bind_congr {f' : β → EStateM Error σ γ} (h : ∀ b s', x s = .ok b s' → f b s' = f' b s') :
    (x >>= f) s = (x >>= f') s := by
  cases hx : x s with
  | ok b s' => rw [bind_ok hx, bind_ok hx, h b s' hx]
  | error e s' => rw [bind_error hx, bind_error hx]

/-- A run of two steps that ends well goes through a state between them. -/
theorem of_bind_ok {c : γ} {s'' : σ} (h : (x >>= f) s = .ok c s'') :
    ∃ b s', x s = .ok b s' ∧ f b s' = .ok c s'' := by
  cases hx : x s with
  | ok b s' =>
    rw [bind_ok hx] at h
    exact ⟨b, s', rfl, h⟩
  | error e s' =>
    rw [bind_error hx] at h
    cases h

/-- A step that gives a value ends well. -/
theorem of_run'_some {b : β} (h : x.run' s = some b) : ∃ s', x s = .ok b s' := by
  -- Only what the step does from `s` matters.
  have hrun : EStateM.run' (fun _ => x s) s = some b := h
  cases hx : x s with
  | ok b' s' =>
    rw [hx] at hrun
    cases hrun
    exact ⟨s', rfl⟩
  | error e s' =>
    rw [hx] at hrun
    cases hrun

theorem run'_of_ok {b : β} (h : x s = .ok b s') : x.run' s = some b := by
  have hrun : x.run' s = EStateM.run' (fun _ => x s) s := rfl
  rw [hrun, h]
  rfl

end Step

/-- Started in `s`, the step ends well with a value and a state as in `good`, or it ends badly with
    an error and a state as in `bad`. -/
def Ends (x : EStateM Error σ β) (s : σ) (good : β → σ → Prop) (bad : Error → σ → Prop) : Prop :=
  match x s with
  | .ok b s' => good b s'
  | .error e s' => bad e s'

namespace Ends

variable {good good' : β → σ → Prop} {bad bad' : Error → σ → Prop}

theorem of_ok {b : β} (h : x s = .ok b s') (hgood : good b s') : Ends x s good bad := by
  rw [Ends, h]
  exact hgood

theorem of_error {e : Error} (h : x s = .error e s') (hbad : bad e s') : Ends x s good bad := by
  rw [Ends, h]
  exact hbad

theorem elim (h : Ends x s good bad) :
    (∃ b s', x s = .ok b s' ∧ good b s') ∨ ∃ e s', x s = .error e s' ∧ bad e s' := by
  unfold Ends at h
  split at h
  · rename_i b s' hx
    exact .inl ⟨b, s', hx, h⟩
  · rename_i e s' hx
    exact .inr ⟨e, s', hx, h⟩

theorem good_of_ok {b : β} (h : Ends x s good bad) (hrun : x s = .ok b s') : good b s' := by
  rw [Ends, hrun] at h
  exact h

theorem congr {y : EStateM Error σ β} (h : x s = y s) (hy : Ends y s good bad) :
    Ends x s good bad := by
  rw [Ends, h]
  exact hy

theorem mono (h : Ends x s good bad) (hgood : ∀ b s', good b s' → good' b s')
    (hbad : ∀ e s', bad e s' → bad' e s') : Ends x s good' bad' := by
  unfold Ends at h ⊢
  split at h
  · exact hgood _ _ h
  · exact hbad _ _ h

theorem bind_ok {good : γ → σ → Prop} {b : β} (h : x s = .ok b s')
    (hf : Ends (f b) s' good bad) : Ends (x >>= f) s good bad := by
  rw [Ends, Step.bind_ok h]
  exact hf

theorem bind_error {good : γ → σ → Prop} {e : Error} (h : x s = .error e s') (hbad : bad e s') :
    Ends (x >>= f) s good bad :=
  .of_error (Step.bind_error h f) hbad

/-- A run of two steps: the second one starts where the first one ended well. -/
theorem bind {good : γ → σ → Prop} {mid : β → σ → Prop} (h : Ends x s mid bad)
    (hf : ∀ b s', mid b s' → Ends (f b) s' good bad) : Ends (x >>= f) s good bad := by
  unfold Ends at h
  split at h
  · rename_i b s' hx
    rw [Ends, Step.bind_ok hx]
    exact hf b s' h
  · rename_i e s' hx
    rw [Ends, Step.bind_error hx]
    exact h

end Ends

/-- Wherever they are started, the two steps end the same way, unless the first one ends with the
    error. -/
def AgreesUnless (e : Error) (x y : EStateM Error σ β) : Prop :=
  ∀ s, x s = y s ∨ ∃ s', x s = .error e s'

namespace AgreesUnless

variable {e : Error} {y : EStateM Error σ β} {f' : β → EStateM Error σ γ}

theorem refl (x : EStateM Error σ β) : AgreesUnless e x x := fun _ => .inl rfl

theorem throw (y : EStateM Error σ β) : AgreesUnless e (throw e) y := fun s => .inr ⟨s, rfl⟩

theorem bind (h : AgreesUnless e x y) (hf : ∀ b, AgreesUnless e (f b) (f' b)) :
    AgreesUnless e (x >>= f) (y >>= f') := by
  intro s
  cases hx : x s with
  | ok b s₁ =>
    rcases h s with heq | ⟨s', herror⟩
    · rw [Step.bind_ok hx, Step.bind_ok (heq.symm.trans hx)]
      exact hf b s₁
    · rw [hx] at herror
      cases herror
  | error e' s₁ =>
    rw [Step.bind_error hx]
    rcases h s with heq | ⟨s', herror⟩
    · exact .inl (Step.bind_error (heq.symm.trans hx) f').symm
    · rw [hx] at herror
      cases herror
      exact .inr ⟨_, rfl⟩

end AgreesUnless

end GrammarEngine
