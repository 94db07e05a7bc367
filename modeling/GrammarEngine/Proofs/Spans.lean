import GrammarEngine.Proofs.Rules

namespace GrammarEngine

/-!
# Trees over a text

How a tree of tokens lies over the text that it was made from.

* `Token.Spans` — a token is for the text between two positions;
* `Token.tips` — the leaves of a tree that cover text;
* `SkipRun` — some text is what a skip symbol matched, a number of times;
* `Woven` — some leaves, with skipped text in front of each, make up the text between two
  positions;
* `Row` — some trees side by side, as the children of one token;
* `Faithful`, `RoundTrip` — a token and its children, and all tokens of a tree, are as they should
  be.
-/

variable {α : Type} {g : Graph} {text : List Char} {skip : Ref}

@[simp] theorem slice_all (input : String) : slice input.toList 0 input.length = input := by
  rw [slice, ← String.length_toList, List.take_length, List.drop_zero, String.ofList_toList]

theorem slice_append {a b c : Nat} (hab : a ≤ b) (hbc : b ≤ c) (hb : b ≤ text.length) :
    slice text a b ++ slice text b c = slice text a c := by
  have hsplit : text.take c = text.take b ++ (text.take c).drop b := by
    have htake : (text.take c).take b = text.take b := by
      rw [List.take_take, Nat.min_eq_left hbc]
    rw [← htake, List.take_append_drop]
  have hlength : a ≤ (text.take b).length := by
    rw [List.length_take, Nat.min_eq_left hb]
    exact hab
  have hdrop : (text.take c).drop a = (text.take b).drop a ++ (text.take c).drop b := by
    conv => lhs; rw [hsplit]
    exact List.drop_append_of_le_length hlength
  rw [slice, slice, slice, hdrop, String.ofList_append]

/-! ### Tokens and positions -/

namespace Token

/-- The token is for the text between two positions. -/
structure Spans (text : List Char) (t : Token α) (p stop : Nat) : Prop where
  start_eq : t.start = p
  substring_eq : t.substring = slice text p stop
  le : p ≤ stop
  le_length : stop ≤ text.length

namespace Spans

variable {t : Token α} {p stop p' stop' : Nat}

theorem stop_eq (h : t.Spans text p stop) : t.stop = stop := by
  have hle := h.le
  rw [Token.stop, h.start_eq, h.substring_eq, length_slice h.le_length]
  omega

theorem isEmpty_iff (h : t.Spans text p stop) : t.isEmpty = true ↔ p = stop := by
  rw [Token.isEmpty, h.substring_eq, String.isEmpty_iff, ← String.length_eq_zero_iff,
    length_slice h.le_length]
  have hle := h.le
  omega

/-- A token is for the text between one pair of positions only. -/
theorem unique (h : t.Spans text p stop) (h' : t.Spans text p' stop') :
    p = p' ∧ stop = stop' := by
  have hstart : (p : Int) = p' := h.start_eq.symm.trans h'.start_eq
  have hstop : (stop : Int) = stop' := h.stop_eq.symm.trans h'.stop_eq
  exact ⟨Int.ofNat.inj hstart, Int.ofNat.inj hstop⟩

end Spans

theorem length_pos {t : Token α} (h : t.isEmpty = false) : 0 < t.substring.length := by
  rw [Nat.pos_iff_ne_zero, Ne, String.length_eq_zero_iff, ← String.isEmpty_iff]
  exact ne_true_of_eq_false h

/-- The leaves that cover text, from left to right. -/
def tips (t : Token α) : List (Token α) := t.leaves.filter fun leaf => !leaf.isEmpty

/-- The leaves of some trees that cover text. -/
def tipsOf (ts : List (Token α)) : List (Token α) :=
  (leavesOf ts).filter fun leaf => !leaf.isEmpty

@[simp] theorem tipsOf_cons (t : Token α) (ts : List (Token α)) :
    tipsOf (t :: ts) = t.tips ++ tipsOf ts := by
  rw [tipsOf, leavesOf, List.filter_append]
  rfl

theorem tips_of_children {t : Token α} (h : t.children ≠ []) : t.tips = tipsOf t.children := by
  cases t with
  | sentinel which => exact absurd rfl h
  | node header children payload =>
    cases children with
    | nil => exact absurd rfl h
    | cons child rest => rfl

theorem tips_of_leaf {t : Token α} (h : t.children = []) :
    t.tips = if t.isEmpty then [] else [t] := by
  have hleaves : t.leaves = [t] := by
    cases t with
    | sentinel which => rfl
    | node header children payload =>
      obtain rfl : children = [] := h
      rfl
  rw [tips, hleaves]
  cases hempty : t.isEmpty <;> simp [hempty]

/-- Leaves that cover no text add nothing to what the others spell. -/
theorem join_tips (t : Token α) :
    String.join (t.tips.map Token.substring) = .join (t.leaves.map Token.substring) := by
  rw [tips]
  induction t.leaves with
  | nil => rfl
  | cons leaf leaves ih =>
    cases hempty : leaf.isEmpty with
    | true =>
      have hsubstring : leaf.substring = "" := String.isEmpty_iff.mp hempty
      rw [List.filter_cons_of_neg (by simp [hempty]), ih, List.map_cons, String.join_cons,
        hsubstring, String.empty_append]
    | false =>
      rw [List.filter_cons_of_pos (by simp [hempty]), List.map_cons, String.join_cons, ih,
        List.map_cons, String.join_cons]

end Token

/-! ### Skipped text -/

/-- The text between two positions is what the skip symbol matched, a number of times. -/
inductive SkipRun (α : Type) (g : Graph) (text : List Char) (skip : Ref) : Nat → Nat → Prop
  | nil {a : Nat} : SkipRun α g text skip a a
  | cons {guard : Guard} {a b c reach : Nat} {token : Token α}
      (consumed : Yields g text skip .zeroLength guard a (some (token, b)) reach)
      (rest : SkipRun α g text skip b c) : SkipRun α g text skip a c

namespace SkipRun

variable {a b c : Nat}

theorem le (h : SkipRun α g text skip a b) : a ≤ b := by
  induction h with
  | nil => exact Nat.le_refl _
  | cons consumed _ ih => exact Nat.le_trans consumed.advances.1 ih

theorem trans (h : SkipRun α g text skip a b) (h' : SkipRun α g text skip b c) :
    SkipRun α g text skip a c := by
  induction h with
  | nil => exact h'
  | cons consumed _ ih => exact .cons consumed (ih h')

/-- Skipping between two parts skips such a text. -/
theorem of_skipYields {guard : Guard} {first : Bool} {reach : Nat}
    (h : SkipYields (α := α) g text skip guard first a b reach) : SkipRun α g text skip a b := by
  cases h with
  | first => exact .nil
  | @between _ _ _ _ answer skipped =>
    cases answer with
    | none => exact .nil
    | some found => exact .cons skipped .nil

/-- Where nothing is skipped there is no such text. -/
theorem eq_of_zeroLength (h : SkipRun α g text .zeroLength a b) : a = b := by
  induction h with
  | nil => rfl
  | cons consumed _ ih =>
    cases consumed with
    | zeroLength => exact ih
    | implicit shape => cases shape
    | enter guarded => cases guarded

end SkipRun

/-! ### Leaves and gaps -/

/-- The leaves cover text each, and with skipped text in front of each they make up the text
    between two positions. -/
def Woven (g : Graph) (text : List Char) (skip : Ref) : Nat → List (Token α) → Nat → Prop
  | a, [], b => a = b
  | a, leaf :: rest, b => ∃ start stop, SkipRun α g text skip a start ∧
      leaf.Spans text start stop ∧ start < stop ∧ Woven g text skip stop rest b

namespace Woven

variable {a b c : Nat} {leaves rest : List (Token α)}

theorem le (h : Woven g text skip a leaves b) : a ≤ b := by
  induction leaves generalizing a with
  | nil => exact Nat.le_of_eq h
  | cons leaf leaves ih =>
    obtain ⟨start, stop, hskip, -, hlt, hrest⟩ := h
    have hle := hskip.le
    have hle' := ih hrest
    omega

/-- Where there is no text there are no leaves. -/
theorem eq_nil (h : Woven g text skip a leaves a) : leaves = [] := by
  cases leaves with
  | nil => rfl
  | cons leaf leaves =>
    obtain ⟨start, stop, hskip, -, hlt, hrest⟩ := h
    have hle := hskip.le
    have hle' := le hrest
    omega

/-- More skipped text in front. -/
theorem skip_append (hskip : SkipRun α g text skip a b) (h : Woven g text skip b leaves c)
    (hne : leaves ≠ []) : Woven g text skip a leaves c := by
  cases leaves with
  | nil => exact absurd rfl hne
  | cons leaf leaves =>
    obtain ⟨start, stop, hskip', hspans, hlt, hrest⟩ := h
    exact ⟨start, stop, hskip.trans hskip', hspans, hlt, hrest⟩

theorem append (h : Woven g text skip a leaves b) (h' : Woven g text skip b rest c) :
    Woven g text skip a (leaves ++ rest) c := by
  induction leaves generalizing a with
  | nil =>
    obtain rfl : a = b := h
    exact h'
  | cons leaf leaves ih =>
    obtain ⟨start, stop, hskip, hspans, hlt, hrest⟩ := h
    exact ⟨start, stop, hskip, hspans, hlt, ih hrest⟩

/-- Without skipped text the leaves are woven with any skip symbol. -/
theorem of_zeroLength (h : Woven g text .zeroLength a leaves b) : Woven g text skip a leaves b := by
  induction leaves generalizing a with
  | nil => exact h
  | cons leaf leaves ih =>
    obtain ⟨start, stop, hskip, hspans, hlt, hrest⟩ := h
    obtain rfl := hskip.eq_of_zeroLength
    exact ⟨a, stop, .nil, hspans, hlt, ih hrest⟩

/-- The gaps in front of the leaves, and the leaves, spell the text: nothing comes after the last
    one. -/
theorem spells (h : Woven g text skip a leaves b) :
    ∃ gaps : List (Nat × Nat), gaps.length = leaves.length ∧
      (∀ gap ∈ gaps, SkipRun α g text skip gap.1 gap.2) ∧
      slice text a b =
        .join (gaps.zipWith (fun gap leaf => slice text gap.1 gap.2 ++ leaf.substring) leaves) := by
  induction leaves generalizing a with
  | nil =>
    obtain rfl : a = b := h
    exact ⟨[], rfl, by simp, by rw [slice_eq_empty (Nat.le_refl a)]; rfl⟩
  | cons leaf leaves ih =>
    obtain ⟨start, stop, hskip, hspans, hlt, hrest⟩ := h
    obtain ⟨gaps, hlength, hgaps, hspell⟩ := ih hrest
    refine ⟨(a, start) :: gaps, by simp [hlength], ?_, ?_⟩
    · simpa [hskip] using hgaps
    · rw [List.zipWith_cons_cons, String.join_cons, ← hspell, hspans.substring_eq,
        slice_append hskip.le hspans.le (Nat.le_trans hspans.le hspans.le_length),
        slice_append (Nat.le_trans hskip.le hspans.le) hrest.le hspans.le_length]

/-- Without skipped text the leaves alone spell it. -/
theorem spells_of_zeroLength (h : Woven g text .zeroLength a leaves b) :
    slice text a b = .join (leaves.map Token.substring) := by
  induction leaves generalizing a with
  | nil =>
    obtain rfl : a = b := h
    rw [slice_eq_empty (Nat.le_refl a)]
    rfl
  | cons leaf leaves ih =>
    obtain ⟨start, stop, hskip, hspans, hlt, hrest⟩ := h
    obtain rfl := hskip.eq_of_zeroLength
    rw [List.map_cons, String.join_cons, ← ih hrest, hspans.substring_eq,
      slice_append hspans.le hrest.le hspans.le_length]

end Woven

/-! ### Trees side by side -/

/-- Some trees make up the text between two positions. Those that cover text are between the
    positions, and in order. -/
structure Row (g : Graph) (text : List Char) (skip : Ref) (a : Nat) (ts : List (Token α))
    (b : Nat) : Prop where
  woven : Woven g text skip a (Token.tipsOf ts) b
  inside : ∀ t ∈ ts, t.isEmpty = false → (a : Int) ≤ t.start ∧ t.stop ≤ b
  ordered : (ts.filter fun t => !t.isEmpty).Pairwise fun t t' => t.stop ≤ t'.start

namespace Row

variable {a b p stop : Nat} {t : Token α} {ts : List (Token α)}

theorem nil : Row (α := α) g text skip a [] a := ⟨rfl, by simp, by simp⟩

/-- A tree that covers no text in front. -/
theorem cons_empty (h : Row g text skip a ts b) (hspans : t.Spans text p p)
    (hwoven : Woven g text skip p t.tips p) : Row g text skip a (t :: ts) b := by
  have hempty : t.isEmpty = true := hspans.isEmpty_iff.mpr rfl
  refine ⟨?_, ?_, ?_⟩
  · rw [Token.tipsOf_cons, hwoven.eq_nil]
    exact h.woven
  · intro t' ht' hne
    rcases List.mem_cons.mp ht' with rfl | ht'
    · rw [hempty] at hne
      cases hne
    · exact h.inside t' ht' hne
  · simpa [hempty] using h.ordered

/-- A tree that covers text in front, with skipped text before it. -/
theorem cons_covers (h : Row g text skip stop ts b) (hskip : SkipRun α g text skip a p)
    (hspans : t.Spans text p stop) (hlt : p < stop) (hwoven : Woven g text skip p t.tips stop) :
    Row g text skip a (t :: ts) b := by
  have hne : t.isEmpty = false := by
    rw [← Bool.not_eq_true, hspans.isEmpty_iff]
    omega
  -- A tree that covers text has leaves that do.
  have htips : t.tips ≠ [] := by
    intro hnil
    rw [hnil] at hwoven
    exact absurd hwoven (Nat.ne_of_lt hlt)
  have hap := hskip.le
  have hstop := h.woven.le
  have hspan : (a : Int) ≤ t.start ∧ t.stop ≤ b := by
    rw [hspans.start_eq, hspans.stop_eq]
    omega
  refine ⟨?_, ?_, ?_⟩
  · rw [Token.tipsOf_cons]
    exact (hwoven.skip_append hskip htips).append h.woven
  · intro t' ht' hne'
    rcases List.mem_cons.mp ht' with rfl | ht'
    · exact hspan
    · have hinside := h.inside t' ht' hne'
      omega
  · rw [List.filter_cons_of_pos (by simp [hne]), List.pairwise_cons]
    refine ⟨fun t' ht' => ?_, h.ordered⟩
    obtain ⟨hmem, hne'⟩ := List.mem_filter.mp ht'
    have hinside := h.inside t' hmem (by simpa using hne')
    rw [hspans.stop_eq]
    exact hinside.1

/-- One tree. -/
theorem single (hspans : t.Spans text p stop) (hwoven : Woven g text skip p t.tips stop) :
    Row g text skip p [t] stop := by
  rcases Nat.eq_or_lt_of_le hspans.le with rfl | hlt
  · exact nil.cons_empty hspans hwoven
  · exact nil.cons_covers .nil hspans hlt hwoven

/-- A tree in front, with skipped text before it, where the others begin after the last one that
    covers text. -/
theorem cons {q r : Nat} (hskip : SkipRun α g text skip a q) (hspans : t.Spans text q r)
    (hwoven : Woven g text skip q t.tips r)
    (h : Row g text skip (if t.isEmpty then a else r) ts b) : Row g text skip a (t :: ts) b := by
  cases hempty : t.isEmpty with
  | true =>
    obtain rfl := hspans.isEmpty_iff.mp hempty
    rw [hempty, if_pos rfl] at h
    exact h.cons_empty hspans hwoven
  | false =>
    have hlt : q < r := by
      have hle := hspans.le
      have hne : ¬ q = r := by
        rw [← hspans.isEmpty_iff, hempty]
        simp
      omega
    rw [hempty, if_neg (by simp)] at h
    exact h.cons_covers hskip hspans hlt hwoven

end Row

/-- After a tree, what was skipped since the last one that covers text. -/
theorem SkipRun.after {a q r : Nat} {t : Token α} (hskip : SkipRun α g text skip a q)
    (hspans : t.Spans text q r) : SkipRun α g text skip (if t.isEmpty then a else r) r := by
  split
  · rename_i hempty
    obtain rfl := hspans.isEmpty_iff.mp hempty
    exact hskip
  · exact .nil

/-! ### Whole trees -/

/-- A token, with what is skipped inside it, is for a part of the text that its leaves make up,
    and so do its children. -/
structure Faithful (g : Graph) (text : List Char) (skip : Ref) (t : Token α) : Prop where
  span : ∃ p stop, t.Spans text p stop ∧ Woven g text skip p t.tips stop
  inside : ∀ child ∈ t.children, child.isEmpty = false →
    t.start ≤ child.start ∧ child.stop ≤ t.stop
  ordered : (t.children.filter fun child => !child.isEmpty).Pairwise fun t t' => t.stop ≤ t'.start

namespace Faithful

variable {p stop : Nat} {t : Token α}

theorem of_row (hspans : t.Spans text p stop) (hrow : Row g text skip p t.children stop) :
    Faithful g text skip t := by
  refine ⟨⟨p, stop, hspans, ?_⟩, ?_, hrow.ordered⟩
  -- A token without children is a leaf itself; it covers no text here.
  · by_cases hchildren : t.children = []
    · have hwoven := hrow.woven
      rw [hchildren] at hwoven
      obtain rfl : p = stop := hwoven
      rw [Token.tips_of_leaf hchildren, if_pos (hspans.isEmpty_iff.mpr rfl)]
      rfl
    · rw [Token.tips_of_children hchildren]
      exact hrow.woven
  · rw [hspans.start_eq, hspans.stop_eq]
    exact hrow.inside

/-- A token without children. -/
theorem of_leaf (hspans : t.Spans text p stop) (hchildren : t.children = []) :
    Faithful g text skip t := by
  refine ⟨⟨p, stop, hspans, ?_⟩, by simp [hchildren], by simp [hchildren]⟩
  rw [Token.tips_of_leaf hchildren]
  rcases Nat.eq_or_lt_of_le hspans.le with rfl | hlt
  · rw [if_pos (hspans.isEmpty_iff.mpr rfl)]
    rfl
  · rw [if_neg (fun h => Nat.ne_of_lt hlt (hspans.isEmpty_iff.mp h))]
    exact ⟨p, stop, .nil, hspans, hlt, rfl⟩

theorem woven (h : Faithful g text skip t) (hspans : t.Spans text p stop) :
    Woven g text skip p t.tips stop := by
  obtain ⟨p', stop', hspans', hwoven⟩ := h.span
  obtain ⟨rfl, rfl⟩ := hspans.unique hspans'
  exact hwoven

theorem row (h : Faithful g text skip t) (hspans : t.Spans text p stop)
    (hchildren : t.children ≠ []) : Row g text skip p t.children stop := by
  refine ⟨?_, ?_, h.ordered⟩
  · rw [← Token.tips_of_children hchildren]
    exact h.woven hspans
  · rw [← hspans.start_eq, ← hspans.stop_eq]
    exact h.inside

/-- A token covers text if a child of it does. -/
theorem isEmpty_eq_false (h : Faithful g text skip t) {child : Token α} (hmem : child ∈ t.children)
    (hne : child.isEmpty = false) : t.isEmpty = false := by
  obtain ⟨p, stop, hspans, -⟩ := h.span
  have hinside := h.inside child hmem hne
  have hlength := child.length_pos hne
  rw [hspans.start_eq, hspans.stop_eq, Token.stop] at hinside
  rw [← Bool.not_eq_true, hspans.isEmpty_iff]
  omega

theorem of_zeroLength (h : Faithful g text .zeroLength t) : Faithful g text skip t := by
  obtain ⟨p, stop, hspans, hwoven⟩ := h.span
  exact ⟨⟨p, stop, hspans, hwoven.of_zeroLength⟩, h.inside, h.ordered⟩

/-- Inside another symbol the skip symbol is the same, or nothing is skipped. -/
theorem of_skipInside {name : Name} (h : Faithful g text (skipInside name skip) t) :
    Faithful g text skip t := by
  unfold skipInside at h
  split at h
  · exact h.of_zeroLength
  · exact h

end Faithful

/-- A token is in a tree; a skip symbol is in force around the tree, and another one around the
    token, because nothing is skipped inside lexical tokens. -/
inductive Under : (skip : Ref) → (t : Token α) → (skip' : Ref) → (t' : Token α) → Prop
  | self {skip : Ref} {t : Token α} : Under skip t skip t
  | child {skip skip' : Ref} {t child t' : Token α} (mem : child ∈ t.children)
      (rest : Under (skipInside t.name skip) child skip' t') : Under skip t skip' t'

/-- All tokens of a tree are as they should be. -/
def RoundTrip (g : Graph) (text : List Char) (skip : Ref) (t : Token α) : Prop :=
  ∀ skip' t', Under skip t skip' t' → Faithful g text (skipInside t'.name skip') t'

@[simp] theorem skipInside_zeroLength (name : Name) :
    skipInside name .zeroLength = .zeroLength := by
  simp [skipInside]

/-- Nothing is skipped around any token of a tree around which nothing is skipped. -/
theorem Under.of_zeroLength {skip' : Ref} {t t' : Token α} (h : Under skip t skip' t') :
    Under .zeroLength t .zeroLength t' := by
  induction h with
  | self => exact .self
  | child mem _ ih => exact .child mem (by rwa [skipInside_zeroLength])

theorem Under.eq_zeroLength {skip' : Ref} {t t' : Token α} (h : Under skip t skip' t')
    (hskip : skip = .zeroLength) : skip' = .zeroLength := by
  induction h with
  | self => exact hskip
  | child mem _ ih => exact ih (by rw [hskip, skipInside_zeroLength])

theorem Under.trans {skip' skip'' : Ref} {t t' t'' : Token α} (h : Under skip t skip' t')
    (h' : Under skip' t' skip'' t'') : Under skip t skip'' t'' := by
  induction h with
  | self => exact h'
  | child mem _ ih => exact .child mem (ih h')

/-- Nothing is skipped inside a token under a lexical one. -/
theorem Under.skipInside_of_lexical {skip' : Ref} {t t' : Token α} (h : Under skip t skip' t')
    (hlexical : t.name.isLexical = true) : skipInside t'.name skip' = .zeroLength := by
  cases h with
  | self => rw [skipInside, if_pos hlexical]
  | child mem rest =>
    rw [rest.eq_zeroLength (if_pos hlexical), skipInside_zeroLength]

namespace RoundTrip

variable {t : Token α}

theorem of_children (h : Faithful g text (skipInside t.name skip) t)
    (hchildren : ∀ child ∈ t.children, RoundTrip g text (skipInside t.name skip) child) :
    RoundTrip g text skip t := by
  intro skip' t' hunder
  cases hunder with
  | self => exact h
  | child mem rest => exact hchildren _ mem skip' t' rest

theorem child {child : Token α} (h : RoundTrip g text skip t) (hmem : child ∈ t.children) :
    RoundTrip g text (skipInside t.name skip) child :=
  fun skip' t' hunder => h skip' t' (.child hmem hunder)

theorem of_zeroLength (h : RoundTrip g text .zeroLength t) : RoundTrip g text skip t := by
  intro skip' t' hunder
  have hfaithful := h .zeroLength t' hunder.of_zeroLength
  rw [skipInside_zeroLength] at hfaithful
  exact hfaithful.of_zeroLength

theorem start_nonneg (h : RoundTrip g text skip t) : 0 ≤ t.start := by
  obtain ⟨p, stop, hspans, -⟩ := (h skip t .self).span
  rw [hspans.start_eq]
  exact Int.natCast_nonneg p

/-- Behind a child that covers text, no other one starts at the beginning of the text. -/
theorem start_pos (h : RoundTrip g text skip t) {first child : Token α} {rest : List (Token α)}
    (hchildren : t.children = first :: rest) (hfirst : first.isEmpty = false)
    (hmem : child ∈ rest) (hne : child.isEmpty = false) : 0 < child.start := by
  have hordered := (h skip t .self).ordered
  rw [hchildren, List.filter_cons_of_pos (by simp [hfirst]), List.pairwise_cons] at hordered
  have hbehind := hordered.1 child (List.mem_filter.mpr ⟨hmem, by simp [hne]⟩)
  have hstart := (h.child (hchildren ▸ List.mem_cons_self)).start_nonneg
  have hlength := first.length_pos hfirst
  rw [Token.stop] at hbehind
  omega

theorem woven {p stop : Nat} (h : RoundTrip g text skip t) (hspans : t.Spans text p stop) :
    Woven g text skip p t.tips stop :=
  (h skip t .self).of_skipInside.woven hspans

theorem of_skipInside {name : Name} (h : RoundTrip g text (skipInside name skip) t) :
    RoundTrip g text skip t := by
  unfold skipInside at h
  split at h
  · exact h.of_zeroLength
  · exact h

end RoundTrip

end GrammarEngine
