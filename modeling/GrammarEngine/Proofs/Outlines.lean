import GrammarEngine.Proofs.Soundness
import GrammarEngine.Token.Outline

namespace GrammarEngine

/-!
# Outlines without empty tokens

An outline that leaves out empty tokens does not look below them. Nothing is lost that way: in a
tree that a match made, there is no text below a token that covers none.

* `Token.preorder` — the tokens of a tree with their levels, parents before children;
* `Token.outline_eq` — an outline has one line for each of them, in that order;
* `Token.Tapers` — no token of a tree covers text if one above it does not;
* `Token.Tapers.outline_eq` — the outline of such a tree without its empty tokens;
* `Yields.tapers` — the trees that matches make, one rule after the other;
* `outline_ignoreEmpty` — the outlines of a match, with and without empty tokens.
-/

variable {α : Type}

namespace Token

/-! ### Lines -/

mutual

/-- The tokens of a tree from some level on: each one with its level, in front of what is below it,
    from left to right. -/
def preorder (level : Nat) : Token α → List (Nat × Token α)
  | .sentinel which => [(level, .sentinel which)]
  | .node header children payload =>
    (level, .node header children payload) :: preorderAll (level + 1) children

/-- The tokens of some trees that stand side by side. -/
def preorderAll (level : Nat) : List (Token α) → List (Nat × Token α)
  | [] => []
  | t :: rest => preorder level t ++ preorderAll level rest

end

/-- The line for a token of a level: two spaces for each level, and what stands in the line of a
    token that is not indented. -/
def lineAt (entry : Nat × Token α) : String :=
  "".pushn ' ' (2 * entry.1) ++ outlineLine 0 entry.2

theorem outlineLine_eq (level : Nat) (t : Token α) :
    outlineLine (2 * level) t = lineAt (level, t) := by
  have hzero : "".pushn ' ' 0 = "" := rfl
  simp only [lineAt, outlineLine, hzero, String.empty_append, String.append_assoc]

mutual

theorem outlineFrom_eq (level : Nat) (t : Token α) :
    t.outlineFrom false (2 * level) = (t.preorder level).map lineAt := by
  match t with
  | .sentinel which =>
    simp only [outlineFrom, preorder, Bool.false_eq_true, if_false, outlineLine_eq,
      List.map_singleton]
  | .node header children payload =>
    simp only [outlineFrom, preorder, Bool.false_and, Bool.false_eq_true, if_false, outlineLine_eq,
      List.map_cons]
    rw [← outlineAll_eq (level + 1) children, Nat.mul_add]

theorem outlineAll_eq (level : Nat) (ts : List (Token α)) :
    outlineAll false (2 * level) ts = (preorderAll level ts).map lineAt := by
  match ts with
  | [] => rfl
  | t :: rest =>
    rw [outlineAll, preorderAll, List.map_append, outlineFrom_eq level t, outlineAll_eq level rest]

end

/-- An outline has one line for each token. -/
theorem outline_eq (t : Token α) : t.outline false = (t.preorder 0).map lineAt :=
  outlineFrom_eq 0 t

/-! ### Trees that taper -/

/-- Below a token that covers no text there is no text. -/
inductive Tapers : Token α → Prop
  | sentinel (which : Sentinel) : Tapers (.sentinel which)
  | node {header : Header} {children : List (Token α)} {payload : Option α}
      (below : header.substring.isEmpty = true → ∀ t ∈ children, t.isEmpty = true)
      (all : ∀ t ∈ children, Tapers t) : Tapers (.node header children payload)

namespace Tapers

variable {t : Token α}

theorem below_of_isEmpty (h : t.Tapers) (hempty : t.isEmpty = true) :
    ∀ child ∈ t.children, child.isEmpty = true := by
  cases h with
  | sentinel which => exact fun _ hmem => nomatch hmem
  | node below all => exact below hempty

theorem children (h : t.Tapers) : ∀ child ∈ t.children, child.Tapers := by
  cases h with
  | sentinel which => exact fun _ hmem => nomatch hmem
  | node below all => exact all

/-- A token without children. -/
theorem of_leaf (h : t.children = []) : t.Tapers := by
  cases t with
  | sentinel which => exact .sentinel which
  | node header children payload =>
    obtain rfl : children = [] := h
    exact .node (fun _ _ hmem => nomatch hmem) fun _ hmem => nomatch hmem

/-- Payloads make no difference. -/
theorem of_bare (t : Token α) (h : t.bare.Tapers) : t.Tapers := by
  match t with
  | .sentinel which => exact .sentinel which
  | .node header children payload =>
    rw [bare, bareAll_eq_map] at h
    refine .node (fun hempty child hmem => ?_) fun child hmem => ?_
    · have hbelow := h.below_of_isEmpty hempty child.bare (List.mem_map_of_mem hmem)
      rwa [isEmpty_bare] at hbelow
    · exact of_bare child (h.children child.bare (List.mem_map_of_mem hmem))

end Tapers

mutual

/-- What is below a token of a tree that tapers tapers too. -/
theorem Tapers.of_mem_preorder (t : Token α) (h : t.Tapers) (level : Nat) :
    ∀ entry ∈ t.preorder level, entry.2.Tapers := by
  match t with
  | .sentinel which =>
    intro entry hmem
    rw [preorder, List.mem_singleton] at hmem
    rw [hmem]
    exact h
  | .node header children payload =>
    rw [preorder]
    exact List.forall_mem_cons.mpr ⟨h, of_mem_preorderAll children h.children (level + 1)⟩

theorem Tapers.of_mem_preorderAll (ts : List (Token α)) (h : ∀ t ∈ ts, t.Tapers) (level : Nat) :
    ∀ entry ∈ preorderAll level ts, entry.2.Tapers := by
  match ts with
  | [] => exact fun _ hmem => nomatch hmem
  | t :: rest =>
    obtain ⟨ht, hrest⟩ := List.forall_mem_cons.mp h
    rw [preorderAll]
    exact List.forall_mem_append.mpr
      ⟨of_mem_preorder t ht level, of_mem_preorderAll rest hrest level⟩

end

mutual

/-- **No text below an empty token.** All tokens of a tree that tapers are empty if its root is. -/
theorem Tapers.isEmpty_of_mem (t : Token α) (h : t.Tapers) (hempty : t.isEmpty = true)
    (level : Nat) : ∀ entry ∈ t.preorder level, entry.2.isEmpty = true := by
  match t with
  | .sentinel which =>
    intro entry hmem
    rw [preorder, List.mem_singleton] at hmem
    rw [hmem]
    exact hempty
  | .node header children payload =>
    rw [preorder]
    refine List.forall_mem_cons.mpr ⟨hempty, ?_⟩
    exact isEmpty_of_mem_all children h.children (h.below_of_isEmpty hempty) (level + 1)

theorem Tapers.isEmpty_of_mem_all (ts : List (Token α)) (h : ∀ t ∈ ts, t.Tapers)
    (hempty : ∀ t ∈ ts, t.isEmpty = true) (level : Nat) :
    ∀ entry ∈ preorderAll level ts, entry.2.isEmpty = true := by
  match ts with
  | [] => exact fun _ hmem => nomatch hmem
  | t :: rest =>
    obtain ⟨ht, hrest⟩ := List.forall_mem_cons.mp h
    obtain ⟨htempty, hrestempty⟩ := List.forall_mem_cons.mp hempty
    rw [preorderAll]
    exact List.forall_mem_append.mpr
      ⟨isEmpty_of_mem t ht htempty level, isEmpty_of_mem_all rest hrest hrestempty level⟩

end

mutual

theorem Tapers.outlineFrom_eq (t : Token α) (h : t.Tapers) (level : Nat) :
    t.outlineFrom true (2 * level) =
      ((t.preorder level).filter fun entry => !entry.2.isEmpty).map lineAt := by
  cases hempty : t.isEmpty with
  | true =>
    -- The tree has no line, and no token of it would have one.
    have hnone : (t.preorder level).filter (fun entry => !entry.2.isEmpty) = [] := by
      refine List.filter_eq_nil_iff.mpr fun entry hmem => ?_
      simp [h.isEmpty_of_mem t hempty level entry hmem]
    rw [hnone, List.map_nil]
    cases t with
    | sentinel which => rfl
    | node header children payload =>
      have hsubstring : header.substring.isEmpty = true := hempty
      rw [outlineFrom, hsubstring]
      rfl
  | false =>
    match t with
    | .sentinel which => simp [isEmpty, substring] at hempty
    | .node header children payload =>
      have hsubstring : header.substring.isEmpty = false := hempty
      rw [outlineFrom, hsubstring, preorder, List.filter_cons_of_pos (by simp [hempty]),
        List.map_cons, ← outlineAll_filter children h.children (level + 1), Nat.mul_add,
        outlineLine_eq]
      rfl

theorem Tapers.outlineAll_filter (ts : List (Token α)) (h : ∀ t ∈ ts, t.Tapers) (level : Nat) :
    outlineAll true (2 * level) ts =
      ((preorderAll level ts).filter fun entry => !entry.2.isEmpty).map lineAt := by
  match ts with
  | [] => rfl
  | t :: rest =>
    obtain ⟨ht, hrest⟩ := List.forall_mem_cons.mp h
    rw [outlineAll, preorderAll, List.filter_append, List.map_append,
      Tapers.outlineFrom_eq t ht level, outlineAll_filter rest hrest level]

end

/-- Leaving out empty tokens leaves out their lines, and no others. -/
theorem Tapers.outline_eq {t : Token α} (h : t.Tapers) :
    t.outline true = ((t.preorder 0).filter fun entry => !entry.2.isEmpty).map lineAt :=
  h.outlineFrom_eq t 0

/-! ### The tokens of the shapes -/

section Shapes

variable {kind : Kind} {name : Name} {ordinal : Nat} {token : Token α}

/-- A token that covers what another one covers, and has it for its only child. -/
theorem Tapers.cover (h : token.Tapers) :
    Tapers (.node ⟨kind, name, token.substring, token.start, ordinal⟩ [token] none) := by
  refine .node (fun hempty child hmem => ?_) fun child hmem => ?_
  · rw [List.mem_singleton.mp hmem]
    exact hempty
  · rw [List.mem_singleton.mp hmem]
    exact h

/-- A token that covers what another one covers, and has its children. -/
theorem Tapers.cover_children (h : token.Tapers) :
    Tapers (.node ⟨kind, name, token.substring, token.start, ordinal⟩ token.children none) :=
  .node h.below_of_isEmpty h.children

/-- The token over some trees: if one of them covers text, then so does the token. -/
theorem Tapers.spanning {text : List Char} {p stop : Nat} {tokens : List (Token α)}
    (h : ∀ t ∈ tokens, t.Tapers) (hstop : stop ≤ text.length)
    (hcovers : (∃ t ∈ tokens, t.isEmpty = false) → p < stop) :
    (Token.spanning kind name text p stop tokens).Tapers := by
  refine .node (fun hempty => ?_) h
  by_contra hsome
  push Not at hsome
  obtain ⟨t, hmem, ht⟩ := hsome
  have hlt := hcovers ⟨t, hmem, by simpa using ht⟩
  have hslice : slice text p stop = "" := String.isEmpty_iff.mp hempty
  have hlength : (slice text p stop).length = stop - p := length_slice hstop
  rw [hslice, String.length_empty] at hlength
  omega

end Shapes

end Token

/-! ### The trees of matches -/

variable {g : Graph} {text : List Char}

/-- Some trees taper, and if one of them covers text, then they end behind the position. -/
structure TaperAll (p stop : Nat) (tokens : List (Token α)) : Prop where
  all : ∀ t ∈ tokens, t.Tapers
  covers : (∃ t ∈ tokens, t.isEmpty = false) → p < stop

namespace TaperAll

variable {p q r stop : Nat} {tokens : List (Token α)} {token : Token α}

theorem nil : TaperAll (α := α) p stop [] := ⟨by simp, by simp⟩

/-- An empty token in front: whatever covers text comes later. -/
theorem cons_empty (h : TaperAll r stop tokens) (htoken : token.Tapers)
    (hempty : token.isEmpty = true) (hpr : p ≤ r) : TaperAll p stop (token :: tokens) := by
  refine ⟨List.forall_mem_cons.mpr ⟨htoken, h.all⟩, ?_⟩
  rintro ⟨t, hmem, hcovers⟩
  rcases List.mem_cons.mp hmem with rfl | hmem
  · rw [hempty] at hcovers
    cases hcovers
  · exact Nat.lt_of_le_of_lt hpr (h.covers ⟨t, hmem, hcovers⟩)

/-- A token in front that covers text itself. -/
theorem cons_covers (h : TaperAll r stop tokens) (htoken : token.Tapers) (hpr : p < r)
    (hstop : r ≤ stop) : TaperAll p stop (token :: tokens) :=
  ⟨List.forall_mem_cons.mpr ⟨htoken, h.all⟩, fun _ => Nat.lt_of_lt_of_le hpr hstop⟩

end TaperAll

mutual

theorem Yields.tapers {ref skip : Ref} {guard : Guard} {p reach : Nat} {answer : Answer α}
    (h : Yields g text ref skip guard p answer reach) (hp : p ≤ text.length) :
    ∀ found, answer = some found → found.1.Tapers := by
  intro found hfound
  match h with
  | .zeroLength shape =>
    cases hfound
    exact .sentinel .empty
  | .implicit shape rule => exact rule.tapers hp found hfound
  | .inProgress guarded mem => cases hfound
  | .enter guarded fresh body => exact body.tapers hp found hfound

theorem ShapeYields.tapers {shape : Shape} {name : Name} {skip : Ref} {guard : Guard}
    {p reach : Nat} {answer : Answer α}
    (h : ShapeYields g text shape name skip guard p answer reach) (hp : p ≤ text.length) :
    ∀ found, answer = some found → found.1.Tapers := by
  intro found hfound
  match h with
  | .leaf read =>
    obtain rfl := hfound
    exact .of_leaf (readLeaf_spans read hp).2.2
  | .sequence all =>
    cases hfound
    have htapers := all.tapers hp (Nat.le_refl p) _ rfl
    exact .spanning htapers.all ((all.stop_le _ rfl (Nat.le_refl p)).2 hp) htapers.covers
  | .junction first =>
    cases hfound
    exact (first.tapers hp _ rfl).cover
  | .multiple rounds found =>
    cases hfound
    have htapers := rounds.tapers hp (Nat.le_refl p)
    exact .spanning htapers.all ((rounds.stop_le (Nat.le_refl p)).2 hp) htapers.covers
  | .option present =>
    cases hfound
    exact (present.tapers hp _ rfl).cover
  | .star present =>
    cases hfound
    exact (present.tapers hp _ rfl).cover_children
  | .optionAbsent absent | .starAbsent absent =>
    cases hfound
    exact .of_leaf rfl
  | .sequenceFails _ | .junctionFails _ | .multipleFails _ => cases hfound

theorem MembersYield.tapers {skip : Ref} {guard : Guard} {first : Bool} {p stop reach : Nat}
    {members : List Ref} {result : Option (Nat × List (Token α))}
    (h : MembersYield g text skip guard first p stop members result reach)
    (hp : p ≤ text.length) (hstop : stop ≤ p) :
    ∀ found, result = some found → TaperAll p found.1 found.2 := by
  intro found hfound
  match h with
  | .nil =>
    cases hfound
    exact .nil
  | .fails _ _ | .laterFails _ _ _ => cases hfound
  | .cons skipped matched later =>
    cases hfound
    rename_i q r _ _ _ stop' _ token tokens
    obtain ⟨hpq, hq⟩ := skipped.le
    obtain ⟨hqr, hr, hcovers⟩ := matched.advances
    have htoken := matched.tapers (hq hp) _ rfl
    have hnext : (if token.isEmpty then stop else r) ≤ r := by
      split <;> omega
    have hrest := later.tapers (hr (hq hp)) hnext _ rfl
    have hstop' := (later.stop_le _ rfl hnext).1
    cases hempty : token.isEmpty with
    | true => exact hrest.cons_empty htoken hempty (Nat.le_trans hpq hqr)
    | false =>
      -- The token takes a character, and the sequence does not end before it.
      rw [hempty] at hstop'
      exact hrest.cons_covers htoken (Nat.lt_of_le_of_lt hpq (hcovers hempty)) hstop'

theorem AlternativesYield.tapers {skip : Ref} {guard : Guard} {p ordinal reach : Nat}
    {members : List Ref} {answer : Option (Nat × Token α × Nat)}
    (h : AlternativesYield g text skip guard p ordinal members answer reach)
    (hp : p ≤ text.length) : ∀ found, answer = some found → found.2.1.Tapers := by
  intro found hfound
  match h with
  | .nil => cases hfound
  | .inProgress mem later => exact later.tapers hp found hfound
  | .matched fresh matched =>
    cases hfound
    exact matched.tapers hp _ rfl
  | .failed fresh failed later => exact later.tapers hp found hfound

theorem RoundsYield.tapers {skip inner : Ref} {guard : Guard} {first afterEmpty : Bool}
    {p stop reach : Nat} {result : Nat × List (Token α)}
    (h : RoundsYield g text skip guard inner first p stop afterEmpty result reach)
    (hp : p ≤ text.length) (hstop : stop ≤ p) : TaperAll p result.1 result.2 := by
  match h with
  | .fails skipped failed => exact .nil
  | .secondEmpty skipped matched empty => exact .nil
  | .empty skipped matched empty later =>
    obtain ⟨hpq, hq⟩ := skipped.le
    obtain ⟨hqr, hr, -⟩ := matched.advances
    have hrest := later.tapers (hr (hq hp)) (by omega)
    exact hrest.cons_empty (matched.tapers (hq hp) _ rfl) empty (Nat.le_trans hpq hqr)
  | .covers skipped matched covers later =>
    obtain ⟨hpq, hq⟩ := skipped.le
    obtain ⟨hqr, hr, hlonger⟩ := matched.advances
    have hrest := later.tapers (hr (hq hp)) (Nat.le_refl _)
    exact hrest.cons_covers (matched.tapers (hq hp) _ rfl)
      (Nat.lt_of_le_of_lt hpq (hlonger covers)) (later.stop_le (Nat.le_refl _)).1

end

/-- **Only empty tokens are dropped.** The outline of a tree that a match made, whatever payloads it
    got since, has one line for each token, in front of those below it and indented by two spaces
    for each level. Without empty tokens it has exactly the lines of the others, because nothing
    below an empty token covers text. -/
theorem outline_ignoreEmpty {limit p : Nat} {ref skip : Ref} {s s' : MatchState}
    {made t : Token α} (hs : s.stream.Reads text p)
    (hrun : matchWithin g limit ref skip s = .ok (some made) s') (hbare : t.bare = made.bare) :
    t.outline false = (t.preorder 0).map Token.lineAt ∧
    t.outline true =
      ((t.preorder 0).filter fun entry => !entry.2.isEmpty).map Token.lineAt ∧
    ∀ entry ∈ t.preorder 0, entry.2.isEmpty = true →
      ∀ below ∈ entry.2.preorder 0, below.2.isEmpty = true := by
  have hends := matchWithin_obeys (α := α) g text limit s.guard ref skip trivial trivial p s
    (Nat.zero_le p) ⟨hs, rfl⟩
  rw [Ends, hrun] at hends
  obtain ⟨answer, reach, hyields, htoken, -⟩ := hends
  obtain ⟨found, rfl, rfl⟩ := Option.map_eq_some_iff.mp htoken.symm
  have hmade : found.1.Tapers := hyields.tapers hs.le_length found rfl
  have htapers : t.Tapers := .of_bare t (by rwa [hbare, hyields.bare_eq found rfl])
  exact ⟨t.outline_eq, htapers.outline_eq, fun entry hmem hempty =>
    Token.Tapers.isEmpty_of_mem _ (htapers.of_mem_preorder t 0 entry hmem) hempty 0⟩

/-- A word, and then blanks that nobody insists on, be there any or not. -/
def loose : Graph where
  nodes := #[⟨.given "line", .sequence [.node 1, .node 2]⟩, ⟨.given "word", .character 'x'⟩,
    ⟨.given "rest", .option (.node 3)⟩, ⟨.given "blanks", .star (.node 4)⟩,
    ⟨.generated 4, .multiple (.node 5)⟩, ⟨.given "blank", .character ' '⟩]

/-- A word alone: the option has a token below it, and both are empty. -/
def wordAlone : Token Unit :=
  .spanning .sequence (.given "line") ['x'] 0 1
    [.leaf .character (.given "word") "x" 0 0,
      .node ⟨.option, .given "rest", "", 1, 0⟩ [.leaf .star (.given "blanks") "" 1 0] none]

theorem loose_yields_wordAlone :
    Yields loose ['x'] (.node 0) .zeroLength [] 0 (some (wordAlone, 1)) 1 := by
  have hword : Yields (α := Unit) loose ['x'] (.node 1) .zeroLength [(.given "line", 0)] 0
      (some (.leaf .character (.given "word") "x" 0 0, 1)) 0 :=
    .enter rfl (by decide) (.leaf rfl)
  have hblanks : Yields (α := Unit) loose ['x'] (.node 3) .zeroLength
      [(.given "rest", 1), (.given "line", 0)] 1
      (some (.leaf .star (.given "blanks") "" 1 0, 1)) 1 := by
    refine .enter rfl (by decide) (.starAbsent (.enter rfl (by decide) (.multipleFails
      (.fails .first (.enter rfl (by decide) (.leaf rfl))))))
  have hrest : Yields (α := Unit) loose ['x'] (.node 2) .zeroLength [(.given "line", 0)] 1
      (some (.node ⟨.option, .given "rest", "", 1, 0⟩ [.leaf .star (.given "blanks") "" 1 0] none,
        1)) 1 :=
    .enter rfl (by decide) (.option hblanks)
  have hskip : SkipYields (α := Unit) loose ['x'] .zeroLength [(.given "line", 0)] false 1 1 0 :=
    .between (.zeroLength rfl)
  exact .enter rfl (by decide) (.sequence (.cons .first hword (.cons hskip hrest .nil)))

theorem outline_ignoreEmpty_wordAlone :
    wordAlone.outline false = ["line Sequence [0, 1)", "  word Character:'x' [0, 1)",
      "  rest Option [1, 1)", "    blanks Star:'' [1, 1)"] ∧
    wordAlone.outline true = ["line Sequence [0, 1)", "  word Character:'x' [0, 1)"] := by
  obtain ⟨limit, hlimit⟩ := loose_yields_wordAlone.delivered.exists
  have hs := Stream.reads_ofString "x"
  obtain ⟨s', hrun, -⟩ := hlimit (.ofStream (.ofString "x")) ⟨hs, rfl⟩
  obtain ⟨hall, hsome, -⟩ := outline_ignoreEmpty hs hrun rfl
  rw [hall, hsome]
  exact ⟨by decide +kernel, by decide +kernel⟩

end GrammarEngine
