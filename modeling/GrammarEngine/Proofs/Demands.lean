import GrammarEngine.Proofs.Steps
import GrammarEngine.Stream.Basic

namespace GrammarEngine

/-!
# What the operations of a stream read

An operation of a stream makes sure at most once that the text is read up to some length: it demands
this length. Before and after that it leaves the text alone, and where the stream stands makes no
difference to what is read.

* `Stream.SameText` — two streams have read the same, and have the same left to read;
* `Stream.Leaves` — how a step leaves the text, however it ends;
* `ensure_furthest` — reading does not depend on how far the stream has looked;
* `peek_leaves`, `next_leaves`, `advance_leaves`, `location_leaves`, `context_leaves` — the
  operations that demand a length leave the text as making sure of that length does;
* `substring_leaves`, `regress_leaves`, `save_leaves`, `revert_leaves`, `discard_leaves`,
  `reset_leaves` — the other ones leave it as it is.
-/

namespace Stream

/-- The second stream has the same in its buffer as the first one, and the same left to read. -/
structure SameText (s s' : Stream) : Prop where
  buffer_eq : s'.buffer = s.buffer
  source_eq : s'.source = s.source

variable {β γ : Type} {s s₁ : Stream} {more enough : Bool} {length : Int}

/-- However the step ends, it leaves the buffer and the source as they are in `s₁`. -/
def Leaves (s₁ : Stream) (x : StreamM β) (s : Stream) : Prop :=
  Ends x s (fun _ s' => SameText s₁ s') fun _ s' => SameText s₁ s'

theorem Leaves.map {x : StreamM β} (h : Leaves s₁ x s) (f : β → γ) :
    Leaves s₁ (x >>= fun b => Pure.pure (f b)) s :=
  h.bind fun _ _ hsame => .of_ok rfl hsame

/-! ### Where the stream stands -/

theorem fill_furthest (h : fill s = .ok more s₁) (furthest : Nat) :
    fill { s with furthest } = .ok more { s₁ with furthest } := by
  obtain ⟨buffer, source, position, looked, saved⟩ := s
  cases source with
  | memory =>
    cases h
    rfl
  | file file =>
    unfold fill at h ⊢
    simp only at h ⊢
    by_cases hclosed : file.closed = true
    · rw [if_pos hclosed] at h ⊢
      cases h
      rfl
    · rw [if_neg hclosed] at h ⊢
      split at h <;> cases h <;> rfl

theorem fillUpTo_furthest {length steps : Nat} (h : fillUpTo length steps s = .ok enough s₁)
    (furthest : Nat) :
    fillUpTo length steps { s with furthest } = .ok enough { s₁ with furthest } := by
  induction steps generalizing s with
  | zero =>
    cases h
    rfl
  | succ steps ih =>
    simp only [fillUpTo, Step.get_bind] at h ⊢
    by_cases hlength : length ≤ s.buffer.size
    · rw [if_pos hlength] at h ⊢
      cases h
      rfl
    · rw [if_neg hlength] at h ⊢
      obtain ⟨more, s₂, hfill, hrest⟩ := Step.of_bind_ok h
      rw [Step.bind_ok (fill_furthest hfill furthest)]
      cases more with
      | false =>
        cases hrest
        rfl
      | true => exact ih hrest

/-- What is read does not depend on how far the stream has looked. -/
theorem ensure_furthest (h : ensure length s = .ok enough s₁) (furthest : Nat) :
    ensure length { s with furthest } = .ok enough { s₁ with furthest } := by
  simp only [ensure, Step.get_bind] at h ⊢
  by_cases hlength : length ≤ s.buffer.size
  · rw [if_pos hlength] at h ⊢
    cases h
    rfl
  · rw [if_neg hlength] at h ⊢
    exact fillUpTo_furthest h furthest

/-! ### Operations that demand a length -/

theorem ensure_leaves (h : ensure length s = .ok enough s₁) : Leaves s₁ (ensure length) s :=
  .of_ok h ⟨rfl, rfl⟩

theorem peek_leaves (h : ensure (s.position + 1) s = .ok enough s₁) : Leaves s₁ peek s := by
  -- The furthest position is noted first, and the text is read after that.
  refine .bind_ok rfl (.bind_ok rfl (.bind_ok (ensure_furthest h _) (.bind_ok rfl ?_)))
  simp only
  cases charAt? s₁.buffer s.position with
  | some c => exact ⟨rfl, rfl⟩
  | none =>
    by_cases hneg : s.position < 0
    · simp only [hneg, if_true]
      exact ⟨rfl, rfl⟩
    · simp only [hneg, if_false]
      exact ⟨rfl, rfl⟩

theorem next_leaves (h : ensure (s.position + 1) s = .ok enough s₁) : Leaves s₁ next s :=
  (peek_leaves h).bind fun _ _ hsame => .of_ok rfl ⟨hsame.buffer_eq, hsame.source_eq⟩

theorem advance_leaves {count : Int} (hcount : ¬ count < 0)
    (h : ensure (s.position + count) s = .ok enough s₁) : Leaves s₁ (advance count) s := by
  unfold advance
  simp only [hcount, if_false]
  refine .bind_ok rfl (.bind_ok h ?_)
  cases enough <;> exact ⟨rfl, rfl⟩

theorem location_leaves {position : Option Int}
    (h : ensure (position.getD s.position) s = .ok enough s₁) : Leaves s₁ (location position) s :=
  .bind_ok rfl (.bind_ok h ⟨rfl, rfl⟩)

theorem context_leaves {position : Option Int} {width : Int}
    (h : ensure (position.getD s.position + width + 1) s = .ok enough s₁) :
    Leaves s₁ (context position width) s :=
  .bind_ok rfl (.bind_ok h ⟨rfl, rfl⟩)

/-! ### Operations on what is there -/

theorem advance_leaves_of_neg (s : Stream) {count : Int} (hcount : count < 0) :
    Leaves s (advance count) s := by
  unfold advance
  simp only [hcount, if_true]
  exact .of_error rfl ⟨rfl, rfl⟩

theorem substring_leaves (s : Stream) (count : Int) : Leaves s (substring count) s := by
  refine .bind_ok rfl ?_
  by_cases hlt : count < 0 ∨ s.position < count
  · simp only [hlt, if_true]
    exact ⟨rfl, rfl⟩
  · simp only [hlt, if_false]
    exact ⟨rfl, rfl⟩

theorem regress_leaves (s : Stream) (count : Int) : Leaves s (regress count) s := by
  unfold regress
  by_cases hneg : count < 0
  · simp only [hneg, if_true]
    exact .of_error rfl ⟨rfl, rfl⟩
  · simp only [hneg, if_false]
    refine .bind_ok rfl ?_
    by_cases hlt : s.position < count
    · simp only [hlt, if_true]
      exact .of_error rfl ⟨rfl, rfl⟩
    · simp only [hlt, if_false]
      exact .of_ok rfl ⟨rfl, rfl⟩

theorem save_leaves (s : Stream) : Leaves s save s := by
  refine .bind_ok rfl ?_
  by_cases hsavable : s.isSavable
  · simp only [hsavable, if_true]
    exact .of_ok rfl ⟨rfl, rfl⟩
  · simp only [hsavable]
    exact .of_error rfl ⟨rfl, rfl⟩

theorem revert_leaves (s : Stream) : Leaves s revert s := by
  refine .bind_ok rfl ?_
  cases s.saved with
  | nil => exact .of_error rfl ⟨rfl, rfl⟩
  | cons position saved => exact .of_ok rfl ⟨rfl, rfl⟩

theorem discard_leaves (s : Stream) : Leaves s discard s := by
  refine .bind_ok rfl ?_
  cases s.saved with
  | nil => exact .of_error rfl ⟨rfl, rfl⟩
  | cons position saved => exact .of_ok rfl ⟨rfl, rfl⟩

theorem reset_leaves (s : Stream) (position depth : Int) : Leaves s (reset position depth) s :=
  .of_ok rfl ⟨rfl, rfl⟩

end Stream

end GrammarEngine
