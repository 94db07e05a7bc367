import GrammarEngine.Proofs.Likeness
import GrammarEngine.Proofs.Notation.Drafts
import GrammarEngine.Proofs.Notation.Listening

namespace GrammarEngine

/-!
# What the listeners of the notation look at

The listeners of the notation look at texts, positions, forms, and payloads, but never at the
numbers of nameless symbols, so that they come to the same on trees that are alike.

* `ComesAlike` — two computations come to results that are related, or to the same error but for
  the number in a name;
* `Token.Alike` — such trees, and access to their children;
* `Step.IsBlind` — a step that does not look at those numbers, and one lemma for each listener;
* `areBlind_grammar` — all of the listeners.
-/

/-! ### Results that are alike -/

/-- Both come to results that are related, or to the same error but for the number in a name. -/
def ComesAlike {β γ : Type} (rel : β → γ → Prop) : Except Error β → Except Error γ → Prop
  | .ok b, .ok c => rel b c
  | .error e, .error e' => e.masked = e'.masked
  | _, _ => False

namespace ComesAlike

variable {β β' γ γ' : Type} {rel : β → γ → Prop} {rel' : β' → γ' → Prop} {r : Except Error β}
  {r' : Except Error γ}

theorem refl (r : Except Error β) : ComesAlike Eq r r := by
  cases r <;> rfl

theorem bind {f : β → Except Error β'} {g : γ → Except Error γ'} (h : ComesAlike rel r r')
    (hnext : ∀ b c, rel b c → ComesAlike rel' (f b) (g c)) :
    ComesAlike rel' (r >>= f) (r' >>= g) := by
  cases r with
  | error e =>
    cases r' with
    | error e' => exact h
    | ok c => exact h.elim
  | ok b =>
    cases r' with
    | error e' => exact h.elim
    | ok c => exact hnext b c h

/-- The same computation, then two that come alike. -/
theorem after {f : β → Except Error β'} {g : β → Except Error γ'} (r : Except Error β)
    (hnext : ∀ b, ComesAlike rel' (f b) (g b)) : ComesAlike rel' (r >>= f) (r >>= g) :=
  (refl r).bind fun b _ h => h ▸ hnext b

theorem mapM {f : β → Except Error β'} {g : γ → Except Error γ'} {bs : List β} {cs : List γ}
    (h : List.Forall₂ rel bs cs) (hstep : ∀ b c, rel b c → ComesAlike rel' (f b) (g c)) :
    ComesAlike (List.Forall₂ rel') (bs.mapM f) (cs.mapM g) := by
  induction h with
  | nil => exact .nil
  | cons first _ ih =>
    rw [List.mapM_cons, List.mapM_cons]
    exact (hstep _ _ first).bind fun b c hbc => ih.bind fun bs cs hall => .cons hbc hall

/-- The same is collected from alike lists. -/
theorem foldlM {f : β' → β → Except Error β'} {g : β' → γ → Except Error β'} {bs : List β}
    {cs : List γ} (h : List.Forall₂ rel bs cs)
    (hstep : ∀ a b c, rel b c → ComesAlike Eq (f a b) (g a c)) (a : β') :
    ComesAlike Eq (bs.foldlM f a) (cs.foldlM g a) := by
  induction h generalizing a with
  | nil => exact .refl _
  | cons first _ ih =>
    rw [List.foldlM_cons, List.foldlM_cons]
    exact (hstep a _ _ first).bind fun a _ heq => heq ▸ ih a

end ComesAlike

/-! ### Access to children -/

namespace Token

variable {α : Type} {t t' found found' : Token α}

/-- The trees differ in the numbers of nameless symbols only. -/
def Alike (t t' : Token α) : Prop := t.masked = t'.masked

theorem children_alike (h : t.Alike t') : List.Forall₂ Alike t.children t'.children := by
  have hchildren := (reads_of_masked h).2.2.2.2
  rw [← List.forall₂_eq_eq_eq, List.forall₂_map_left_iff, List.forall₂_map_right_iff] at hchildren
  exact hchildren

theorem isOf_alike (h : t.Alike t') (expected : TokenClass) : t.isOf expected = t'.isOf expected := by
  rw [isOf, isOf, (reads_of_masked h).1]

theorem error_alike (h : t.Alike t') (message : String) : t.error message = t'.error message := by
  rw [error, error, (reads_of_masked h).2.1, (reads_of_masked h).2.2.1]

theorem expect_alike (h : t.Alike t') (hfound : found.Alike found') (index : Int)
    (expected : TokenClass) :
    ComesAlike Alike (t.expect index expected found) (t'.expect index expected found') := by
  have hsort := (reads_of_masked hfound).1
  unfold expect
  rw [← hsort]
  split
  · exact hfound
  · show Error.masked _ = Error.masked _
    simp only [Error.masked, Mismatch.masked, name_of_masked h]

theorem child_alike (h : t.Alike t') (index : Int) (expected : TokenClass) :
    ComesAlike Alike (t.child index expected) (t'.child index expected) := by
  have hchildren := children_alike h
  have hnone : ComesAlike Alike
      (.error (.mismatch (.noChild t.name t.children.length index)) : Except Error (Token α))
      (.error (.mismatch (.noChild t'.name t'.children.length index)) : Except Error (Token α)) := by
    show Error.masked _ = Error.masked _
    simp only [Error.masked, Mismatch.masked, name_of_masked h, hchildren.length_eq]
  unfold child
  split
  · exact hnone
  · rcases Nat.lt_or_ge index.toNat t.children.length with hlt | hge
    · have hlt' := hchildren.length_eq ▸ hlt
      rw [List.getElem?_eq_getElem hlt, List.getElem?_eq_getElem hlt']
      exact expect_alike h (hchildren.get hlt hlt') index expected
    · rw [List.getElem?_eq_none hge, List.getElem?_eq_none (hchildren.length_eq ▸ hge)]
      exact hnone

theorem item_alike (h : t.Alike t') (index : Int) :
    ComesAlike Alike (t.item index) (t'.item index) := by
  unfold item
  rw [← isOf_alike h]
  split
  · exact child_alike h index .any
  · rfl

theorem childAt_alike (h : t.Alike t') (index : Int) (expected : TokenClass) :
    ComesAlike Alike (t.childAt index expected) (t'.childAt index expected) := by
  unfold childAt
  rw [← isOf_alike h]
  split
  · exact child_alike h index expected
  · rfl

theorem only_alike (h : t.Alike t') (expected : TokenClass) :
    ComesAlike Alike (t.only expected) (t'.only expected) := by
  unfold only
  rw [← isOf_alike h]
  split
  · exact child_alike h 0 expected
  · rfl

theorem repetitions_alike (h : t.Alike t') :
    ComesAlike (List.Forall₂ Alike) t.repetitions t'.repetitions := by
  unfold repetitions
  rw [← isOf_alike h]
  split
  · exact children_alike h
  · rfl

theorem zipIdx_alike {ts ts' : List (Token α)} (h : List.Forall₂ Alike ts ts') (n : Nat) :
    List.Forall₂ (fun entry entry' => entry.1.Alike entry'.1 ∧ entry.2 = entry'.2)
      (ts.zipIdx n) (ts'.zipIdx n) := by
  induction h generalizing n with
  | nil => exact .nil
  | cons first _ ih => exact .cons ⟨first, rfl⟩ (ih (n + 1))

theorem allOf_alike (h : t.Alike t') (expected : TokenClass) :
    ComesAlike (List.Forall₂ Alike) (t.allOf expected) (t'.allOf expected) := by
  unfold allOf
  rw [← isOf_alike h]
  split
  · refine ComesAlike.mapM (zipIdx_alike (children_alike h) 0) ?_
    rintro ⟨found, index⟩ ⟨found', _⟩ ⟨hfound, rfl⟩
    exact expect_alike h hfound index expected
  · rfl

theorem isPresent_alike (h : t.Alike t') : t.isPresent = t'.isPresent := by
  have hempty : t.children.isEmpty = t'.children.isEmpty := by
    have hchildren := children_alike h
    generalize t.children = ts, t'.children = ts' at hchildren
    cases hchildren <;> rfl
  rw [isPresent, isPresent, isOf_alike h, isOf_alike h, hempty]

end Token

/-! ### Listeners -/

namespace Notation

open Token

variable {t t' : Token Value}

/-- The step does not look at the numbers of nameless symbols. -/
def Step.IsBlind (step : Step) : Prop :=
  ∀ t t' : Token Value, t.Alike t' → ∀ d, ComesAlike Eq (step t d) (step t' d)

theorem payload_alike (h : t.Alike t') : ComesAlike Eq t.payload t'.payload := by
  rw [payload_of_masked h]
  exact .refl _

theorem isBlind_escape : Step.IsBlind escape := by
  intro t t' h d
  refine (childAt_alike h 1 _).bind fun which which' hwhich => ?_
  rw [← (reads_of_masked hwhich).2.2.2.1]
  split
  · refine (only_alike hwhich .any).bind fun chosen chosen' hchosen => ?_
    rw [(reads_of_masked hchosen).2.1]
    exact .refl _
  · refine (only_alike hwhich (.only .sequence)).bind fun chosen chosen' hchosen => ?_
    rw [(reads_of_masked hchosen).2.1, error_alike h]
    exact .refl _

theorem isBlind_char : Step.IsBlind char := by
  intro t t' h d
  unfold char
  rw [← (reads_of_masked h).2.2.2.1, ← (reads_of_masked h).2.1]
  split
  · refine (only_alike h .any).bind fun chosen chosen' hchosen => ?_
    rw [payload_of_masked hchosen]
    exact .refl _
  · exact .refl _

theorem payload_of_item (h : t.Alike t') (index : Int) :
    ComesAlike Eq (do (← t.item index).payload) (do (← t'.item index).payload) :=
  (item_alike h index).bind fun _ _ hfound => payload_alike hfound

/-- The payload of a child, whatever is done with it. -/
theorem next_of_item {β : Type} (h : t.Alike t') (index : Int) (next : Value → Except Error β) :
    ComesAlike Eq (do next (← (← t.item index).payload)) (do next (← (← t'.item index).payload)) := by
  refine (item_alike h index).bind fun found found' hfound => ?_
  rw [payload_of_masked hfound]
  exact .refl _

theorem itemRange_alike (h : t.Alike t') : ComesAlike Eq (itemRange t) (itemRange t') := by
  have hbound : ∀ index : Int, ComesAlike Eq
      (do (← (← (← t.only (.only .sequence)).item index).payload).codePoint)
      (do (← (← (← t'.only (.only .sequence)).item index).payload).codePoint) := fun index =>
    (only_alike h _).bind fun inner inner' hinner => next_of_item hinner index _
  unfold itemRange
  rw [← (reads_of_masked h).2.2.2.1, ← error_alike h]
  split
  · refine (hbound 0).bind ?_
    rintro low _ rfl
    refine (hbound 2).bind ?_
    rintro high _ rfl
    exact .refl _
  · refine (hbound 0).bind ?_
    rintro low _ rfl
    exact .refl _
  · refine (only_alike h .any).bind fun inner inner' hinner => ?_
    rw [payload_of_masked hinner]
    exact .refl _

theorem isBlind_switch : Step.IsBlind switch := by
  intro t t' h d
  unfold switch
  rw [← (reads_of_masked h).2.2.2.1]
  split
  · exact .refl _
  refine (only_alike h _).bind fun body body' hbody => ?_
  refine (childAt_alike hbody 1 _).bind fun upTo upTo' hupTo => ?_
  rw [isPresent_alike hupTo]
  refine ComesAlike.after _ fun present => ?_
  -- What comes behind the first range is the same whether there is one or not.
  have hitems : ∀ first : Bounds, ComesAlike Eq
      (do
        let items ← (← body.childAt 2 (.only .star)).allOf (.only .junction)
        let bounds ← items.foldlM (fun bounds item => do bounds.push (← itemRange item)) first
        return d.addPart (.switch (← bounds.toClass)))
      (do
        let items ← (← body'.childAt 2 (.only .star)).allOf (.only .junction)
        let bounds ← items.foldlM (fun bounds item => do bounds.push (← itemRange item)) first
        return d.addPart (.switch (← bounds.toClass))) := by
    intro first
    refine (childAt_alike hbody 2 _).bind fun star star' hstar => ?_
    refine (allOf_alike hstar _).bind fun items items' hitems => ?_
    refine (ComesAlike.foldlM hitems (fun bounds item item' h => ?_) first).bind ?_
    · refine (itemRange_alike h).bind ?_
      rintro range _ rfl
      generalize bounds.push range = r
      exact .refl r
    · rintro bounds _ rfl
      exact .refl _
  cases present with
  | true =>
    refine (only_alike hupTo _).bind fun inner inner' hinner => ?_
    refine (item_alike hinner 1).bind fun found found' hfound => ?_
    rw [payload_of_masked hfound]
    refine ComesAlike.after _ fun value => ?_
    refine ComesAlike.after _ fun high => ?_
    generalize Bounds.empty.push ⟨0, high⟩ = r
    exact ComesAlike.after r hitems
  | false => exact hitems .empty

theorem isBlind_character : Step.IsBlind character := fun _ _ h _ => next_of_item h 1 _

theorem isBlind_text : Step.IsBlind text := by
  intro t t' h d
  refine (childAt_alike h 1 _).bind fun repeated repeated' hrepeated => ?_
  refine (repetitions_alike hrepeated).bind fun chars chars' hchars => ?_
  refine (ComesAlike.mapM hchars fun _ _ h => payload_alike h).bind fun values values' hvalues => ?_
  obtain rfl := List.forall₂_eq_eq_eq ▸ hvalues
  exact .refl _

theorem isBlind_atom : Step.IsBlind atom := by
  intro t t' h d
  unfold atom
  rw [← (reads_of_masked h).2.2.2.1]
  split
  · exact (only_alike h _).bind fun inner inner' hinner => next_of_item hinner 1 _
  · refine (only_alike h .any).bind fun inner inner' hinner => ?_
    rw [(reads_of_masked hinner).2.1]
    exact .refl _
  · refine (only_alike h .any).bind fun inner inner' hinner => ?_
    rw [payload_of_masked hinner]
    exact .refl _

theorem isBlind_multiple : Step.IsBlind multiple := fun _ _ h _ => next_of_item h 0 _

theorem isBlind_option : Step.IsBlind option := fun _ _ h _ => next_of_item h 0 _

theorem isBlind_star : Step.IsBlind star := fun _ _ h _ => next_of_item h 0 _

theorem isBlind_sequence : Step.IsBlind sequence := by
  intro t t' h d
  refine (repetitions_alike h).bind fun members members' hmembers => ?_
  refine (ComesAlike.mapM hmembers fun _ _ h => payload_alike h).bind fun values values' hvalues => ?_
  obtain rfl := List.forall₂_eq_eq_eq ▸ hvalues
  exact .refl _

theorem isBlind_junction : Step.IsBlind junction := by
  intro t t' h d
  refine (item_alike h 0).bind fun first first' hfirst => ?_
  rw [payload_of_masked hfirst]
  refine ComesAlike.after _ fun first => ?_
  refine (childAt_alike h 1 _).bind fun repeated repeated' hrepeated => ?_
  refine (allOf_alike hrepeated _).bind fun others others' hothers => ?_
  refine (ComesAlike.mapM hothers fun other other' hother => payload_of_item hother 1).bind
    fun values values' hvalues => ?_
  obtain rfl := List.forall₂_eq_eq_eq ▸ hvalues
  exact .refl _

theorem isBlind_rule : Step.IsBlind rule := by
  intro t t' h d
  refine (item_alike h 0).bind fun name name' hname => ?_
  refine (item_alike h 2).bind fun body body' hbody => ?_
  have herror : t.error = t'.error := funext (error_alike h)
  rw [payload_of_masked hbody, (reads_of_masked hname).2.1, herror]
  exact .refl _

theorem isBlind_start : Step.IsBlind start := fun _ _ _ _ => .refl _

/-- A listener that only looks at the token and the draft does not look at more than its step. -/
theorem Step.IsBlind.listener {step : Step} (h : step.IsBlind) : (Listener.ofStep step).IsBlind := by
  rintro ⟨token, state⟩ ⟨token', _⟩ ⟨htoken, rfl⟩
  have halike := h token token' htoken state
  unfold Listener.ofStep
  simp only
  generalize step token state = r, step token' state = r' at halike
  cases r with
  | error e =>
    cases r' with
    | error e' => exact ⟨halike, htoken, rfl⟩
    | ok c => exact halike.elim
  | ok b =>
    cases r' with
    | error e' => exact halike.elim
    | ok c =>
      obtain rfl : b = c := halike
      exact ⟨rfl, htoken, rfl⟩

theorem isBlind_listeners : ∀ entry ∈ listeners.entries, entry.2.IsBlind := by
  rw [listeners_entries]
  simp only [List.map_cons, List.map_nil, List.forall_mem_cons]
  exact ⟨isBlind_escape.listener, isBlind_char.listener, isBlind_char.listener,
    isBlind_switch.listener, isBlind_character.listener, isBlind_text.listener,
    isBlind_atom.listener, isBlind_multiple.listener, isBlind_option.listener,
    isBlind_star.listener, isBlind_sequence.listener, isBlind_junction.listener,
    isBlind_rule.listener, isBlind_start.listener, List.forall_mem_nil _⟩

/-- The listeners of the notation do not look at the numbers of nameless symbols. -/
theorem areBlind_grammar : AreBlind grammar.listenerFor :=
  Grammar.areBlind fun _ _ hlistener =>
    isBlind_listeners _ (Dictionary.mem_entries_of_get? hlistener)

end Notation

end GrammarEngine
