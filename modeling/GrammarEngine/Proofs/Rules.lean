import GrammarEngine.Matching.Matcher
import GrammarEngine.Proofs.TextReading

namespace GrammarEngine

/-!
# The rules of matching

What a symbol matches, without any stream: a relation between a symbol, a position of a text and
what comes of matching the symbol there. There is no state to save and to restore; the matches in
progress are handed inwards, and a failure is an answer like any other.

* `Answer` — a failure, or a token and the position where the match ends;
* `readClass`, `readCharacter`, `readText`, `readLeaf` — the shapes that read characters;
* `Yields` — what comes of a symbol: the guard, and then its shape;
* `ShapeYields` — what comes of a shape, through the loops `MembersYield`, `AlternativesYield` and
  `RoundsYield`, with `SkipYields` for the text skipped between two parts.

The last argument of each relation is the furthest place that was looked at on the way, which is
where an error is reported.
-/

/-- What comes of a match: a failure, or a token and the position where the match ends. -/
abbrev Answer (α : Type) := Option (Token α × Nat)

/-- Where a match that began at `start` leaves off: a failed one where it began. -/
def landing {α : Type} (start : Nat) : Answer α → Nat
  | none => start
  | some (_, stop) => stop

/-- The skip symbol inside a symbol: nothing is skipped inside a lexical one. -/
def skipInside (name : Name) (skip : Ref) : Ref := if name.isLexical then .zeroLength else skip

/-- Is a symbol of this shape guarded against being entered twice at one place? -/
def Shape.isGuarded : Shape → Bool
  | .implicit _ | .zeroLength | .foreign => false
  | _ => true

/-- The symbols that a shape is made of. -/
def Shape.refs : Shape → List Ref
  | .sequence members | .junction members => members
  | .multiple inner | .option inner | .star inner | .implicit (some inner) => [inner]
  | _ => []

theorem Graph.target_mem_refs {g : Graph} {ref target : Ref}
    (h : (g.symbol ref).shape = .implicit (some target)) : target ∈ (g.symbol ref).shape.refs := by
  rw [h]
  exact List.mem_singleton_self target

/-- The token for the text between two positions. -/
def Token.spanning {α : Type} (kind : Kind) (name : Name) (text : List Char) (start stop : Nat)
    (children : List (Token α)) : Token α :=
  .node { kind, name, substring := slice text start stop, start, ordinal := 0 } children none

/-- The token around another one has the place and the text of that one. -/
theorem coverToken_eq {α : Type} (kind : Kind) (name : Name) (covered : Token α) (ordinal : Nat)
    (children : List (Token α)) :
    coverToken kind name covered ordinal children =
      .node ⟨kind, name, covered.substring, covered.start, ordinal⟩ children none := rfl

section Leaves

variable {α : Type}

/-! ### Characters and texts -/

/-- One character of a class; the index of the first range that holds it becomes the ordinal. -/
def readClass (text : List Char) (name : Name) (ranges : CharClass) (p : Nat) : Answer α :=
  match text[p]? with
  | none => none
  | some c =>
    (ranges.findIdx? fun range => range.low ≤ c.toNat ∧ c.toNat ≤ range.high).map fun ordinal =>
      (.leaf .switch name (.singleton c) p ordinal, p + 1)

theorem readClass_of_none {text : List Char} {name : Name} {ranges : CharClass} {p : Nat}
    (h : text[p]? = none) : readClass (α := α) text name ranges p = none := by
  rw [readClass, h]

/-- A character that is there is looked for in the class. -/
theorem readClass_of_some {text : List Char} {name : Name} {ranges : CharClass} {p : Nat} {c : Char}
    (h : text[p]? = some c) :
    readClass (α := α) text name ranges p = (ranges.find? c.toNat).map fun ordinal =>
      (.leaf .switch name (.singleton c) p ordinal, p + 1) := by
  rw [readClass, h, CharClass.find?_eq]

/-- What is read of a class is a character that one of the ranges holds. -/
theorem eq_of_readClass {text : List Char} {name : Name} {ranges : CharClass} {p stop : Nat}
    {token : Token α} (h : readClass text name ranges p = some (token, stop)) :
    ∃ c ordinal, text[p]? = some c ∧ ranges.find? c.toNat = some ordinal ∧
      token = .leaf .switch name (.singleton c) p ordinal ∧ stop = p + 1 := by
  cases hchar : text[p]? with
  | none =>
    rw [readClass_of_none hchar] at h
    cases h
  | some c =>
    rw [readClass_of_some hchar] at h
    obtain ⟨ordinal, hfind, hfound⟩ := Option.map_eq_some_iff.mp h
    cases hfound
    exact ⟨c, ordinal, rfl, hfind, rfl, rfl⟩

/-- One particular character. -/
def readCharacter (text : List Char) (name : Name) (literal : Char) (p : Nat) : Answer α :=
  if text[p]? = some literal then
    some (.leaf .character name (.singleton literal) p 0, p + 1)
  else none

/-- An exact text. -/
def readText (text : List Char) (name : Name) (literal : String) (p : Nat) : Answer α :=
  if literal.toList <+: text.drop p then
    some (.leaf .text name literal p 0, p + literal.length)
  else none

/-- The furthest place that is looked at to tell whether some code points stand at `p`, where the
    text goes on with `rest`: the first one that differs, or the last one. -/
def lookAhead (p : Nat) : (codes : List Nat) → (rest : List Char) → Nat
  | [], _ => 0
  | _ :: _, [] => p
  | code :: codes, c :: rest => if c.toNat = code then max p (lookAhead (p + 1) codes rest) else p

/-- What comes of the shapes that read characters, and how far they look. -/
def readLeaf (text : List Char) (name : Name) (p : Nat) : Shape → Option (Answer α × Nat)
  | .switch ranges => some (readClass text name ranges p, p)
  | .anyCharacter => some (readClass text name CharClass.all p, p)
  | .character literal => some (readCharacter text name literal p, p)
  | .text literal =>
    some (readText text name literal p,
      lookAhead p (literal.toList.map Char.toNat) (text.drop p))
  | .oddCharacter _ => some (none, p)
  | .oddText codes => some (none, lookAhead p codes (text.drop p))
  | _ => none

end Leaves

/-! ### The rules -/

mutual

/-- Asked for at `p`, with a skip symbol and the matches in progress, the symbol yields an
    answer. -/
inductive Yields {α : Type} (g : Graph) (text : List Char) :
    (ref skip : Ref) → Guard → (p : Nat) → Answer α → (reach : Nat) → Prop
  /-- The zero-length symbol matches without further ado. -/
  | zeroLength {ref skip : Ref} {guard : Guard} {p : Nat}
      (shape : (g.symbol ref).shape = .zeroLength) :
      Yields g text ref skip guard p (some (.sentinel .empty, p)) 0
  /-- An implicit symbol is what it refers to. -/
  | implicit {ref skip target : Ref} {guard : Guard} {p reach : Nat} {answer : Answer α}
      (shape : (g.symbol ref).shape = .implicit (some target))
      (rule : Yields g text target skip guard p answer reach) :
      Yields g text ref skip guard p answer reach
  /-- A symbol that is in progress at this position fails. -/
  | inProgress {ref skip : Ref} {guard : Guard} {p : Nat}
      (guarded : (g.symbol ref).shape.isGuarded = true)
      (mem : ((g.symbol ref).name, (p : Int)) ∈ guard) :
      Yields g text ref skip guard p none 0
  /-- Any other one does what its shape does, and is in progress meanwhile. -/
  | enter {ref skip : Ref} {guard : Guard} {p reach : Nat} {answer : Answer α}
      (guarded : (g.symbol ref).shape.isGuarded = true)
      (fresh : ((g.symbol ref).name, (p : Int)) ∉ guard)
      (body : ShapeYields g text (g.symbol ref).shape (g.symbol ref).name
        (skipInside (g.symbol ref).name skip) (((g.symbol ref).name, (p : Int)) :: guard) p
        answer reach) :
      Yields g text ref skip guard p answer reach

/-- Entered at `p`, the shape yields an answer. -/
inductive ShapeYields {α : Type} (g : Graph) (text : List Char) :
    Shape → Name → (skip : Ref) → Guard → (p : Nat) → Answer α → (reach : Nat) → Prop
  | leaf {shape : Shape} {name : Name} {skip : Ref} {guard : Guard} {p reach : Nat}
      {answer : Answer α} (read : readLeaf text name p shape = some (answer, reach)) :
      ShapeYields g text shape name skip guard p answer reach
  /-- All members match. What was skipped after the last one that covers text is given back. -/
  | sequence {members : List Ref} {name : Name} {skip : Ref} {guard : Guard} {p stop reach : Nat}
      {tokens : List (Token α)}
      (all : MembersYield g text skip guard true p p members (some (stop, tokens)) reach) :
      ShapeYields g text (.sequence members) name skip guard p
        (some (.spanning .sequence name text p stop tokens, stop)) reach
  | sequenceFails {members : List Ref} {name : Name} {skip : Ref} {guard : Guard} {p reach : Nat}
      (one : MembersYield (α := α) g text skip guard true p p members none reach) :
      ShapeYields g text (.sequence members) name skip guard p none reach
  /-- The first alternative that matches; its index becomes the ordinal. -/
  | junction {members : List Ref} {name : Name} {skip : Ref} {guard : Guard}
      {p stop reach ordinal : Nat} {token : Token α}
      (first : AlternativesYield g text skip guard p 0 members (some (ordinal, token, stop))
        reach) :
      ShapeYields g text (.junction members) name skip guard p
        (some (.node ⟨.junction, name, token.substring, token.start, ordinal⟩ [token] none, stop))
        reach
  | junctionFails {members : List Ref} {name : Name} {skip : Ref} {guard : Guard} {p reach : Nat}
      (failed : AlternativesYield (α := α) g text skip guard p 0 members none reach) :
      ShapeYields g text (.junction members) name skip guard p none reach
  /-- At least one repetition. What was skipped after the last one that covers text is given
      back. -/
  | multiple {inner : Ref} {name : Name} {skip : Ref} {guard : Guard} {p stop reach : Nat}
      {tokens : List (Token α)}
      (rounds : RoundsYield g text skip guard inner true p p false (stop, tokens) reach)
      (found : tokens ≠ []) :
      ShapeYields g text (.multiple inner) name skip guard p
        (some (.spanning .multiple name text p stop tokens, stop)) reach
  | multipleFails {inner : Ref} {name : Name} {skip : Ref} {guard : Guard} {p stop reach : Nat}
      (rounds : RoundsYield (α := α) g text skip guard inner true p p false (stop, []) reach) :
      ShapeYields g text (.multiple inner) name skip guard p none reach
  | option {inner : Ref} {name : Name} {skip : Ref} {guard : Guard} {p stop reach : Nat}
      {token : Token α} (present : Yields g text inner skip guard p (some (token, stop)) reach) :
      ShapeYields g text (.option inner) name skip guard p
        (some (.node ⟨.option, name, token.substring, token.start, 0⟩ [token] none, stop)) reach
  | optionAbsent {inner : Ref} {name : Name} {skip : Ref} {guard : Guard} {p reach : Nat}
      (absent : Yields (α := α) g text inner skip guard p none reach) :
      ShapeYields g text (.option inner) name skip guard p
        (some (.leaf .option name "" p 0, p)) reach
  /-- The repetitions are right under the token. -/
  | star {repetition : Ref} {name : Name} {skip : Ref} {guard : Guard} {p stop reach : Nat}
      {token : Token α}
      (present : Yields g text repetition skip guard p (some (token, stop)) reach) :
      ShapeYields g text (.star repetition) name skip guard p
        (some (.node ⟨.star, name, token.substring, token.start, 0⟩ token.children none, stop))
        reach
  | starAbsent {repetition : Ref} {name : Name} {skip : Ref} {guard : Guard} {p reach : Nat}
      (absent : Yields (α := α) g text repetition skip guard p none reach) :
      ShapeYields g text (.star repetition) name skip guard p
        (some (.leaf .star name "" p 0, p)) reach

/-- Skipping from `p`, which is not done in front of the first part, ends at `q`. -/
inductive SkipYields {α : Type} (g : Graph) (text : List Char) :
    (skip : Ref) → Guard → (first : Bool) → (p q : Nat) → (reach : Nat) → Prop
  | first {skip : Ref} {guard : Guard} {p : Nat} : SkipYields g text skip guard true p p 0
  | between {skip : Ref} {guard : Guard} {p reach : Nat} {answer : Answer α}
      (skipped : Yields g text skip .zeroLength guard p answer reach) :
      SkipYields g text skip guard false p (landing p answer) reach

/-- The members of a sequence, from `p`, where the last one that covers text ended at `stop`: all
    of them match, or one fails. -/
inductive MembersYield {α : Type} (g : Graph) (text : List Char) :
    (skip : Ref) → Guard → (first : Bool) → (p stop : Nat) → List Ref →
      Option (Nat × List (Token α)) → (reach : Nat) → Prop
  | nil {skip : Ref} {guard : Guard} {first : Bool} {p stop : Nat} :
      MembersYield g text skip guard first p stop [] (some (stop, [])) 0
  | fails {skip member : Ref} {guard : Guard} {first : Bool} {p q stop reach₁ reach₂ : Nat}
      {rest : List Ref}
      (skipped : SkipYields (α := α) g text skip guard first p q reach₁)
      (failed : Yields (α := α) g text member skip guard q none reach₂) :
      MembersYield g text skip guard first p stop (member :: rest) none (max reach₁ reach₂)
  | cons {skip member : Ref} {guard : Guard} {first : Bool}
      {p q r stop reach₁ reach₂ reach₃ stop' : Nat} {rest : List Ref} {token : Token α}
      {tokens : List (Token α)}
      (skipped : SkipYields (α := α) g text skip guard first p q reach₁)
      (matched : Yields g text member skip guard q (some (token, r)) reach₂)
      (later : MembersYield g text skip guard false r (if token.isEmpty then stop else r) rest
        (some (stop', tokens)) reach₃) :
      MembersYield g text skip guard first p stop (member :: rest)
        (some (stop', token :: tokens)) (max reach₁ (max reach₂ reach₃))
  | laterFails {skip member : Ref} {guard : Guard} {first : Bool}
      {p q r stop reach₁ reach₂ reach₃ : Nat} {rest : List Ref} {token : Token α}
      (skipped : SkipYields (α := α) g text skip guard first p q reach₁)
      (matched : Yields g text member skip guard q (some (token, r)) reach₂)
      (later : MembersYield (α := α) g text skip guard false r
        (if token.isEmpty then stop else r) rest none reach₃) :
      MembersYield g text skip guard first p stop (member :: rest) none
        (max reach₁ (max reach₂ reach₃))

/-- The first of some alternatives that matches at `p`, counting from `ordinal`. One that is in
    progress there is passed over. -/
inductive AlternativesYield {α : Type} (g : Graph) (text : List Char) :
    (skip : Ref) → Guard → (p ordinal : Nat) → List Ref → Option (Nat × Token α × Nat) →
      (reach : Nat) → Prop
  | nil {skip : Ref} {guard : Guard} {p ordinal : Nat} :
      AlternativesYield g text skip guard p ordinal [] none 0
  | inProgress {skip member : Ref} {guard : Guard} {p ordinal reach : Nat} {rest : List Ref}
      {answer : Option (Nat × Token α × Nat)}
      (mem : ((g.symbol member).name, (p : Int)) ∈ guard)
      (later : AlternativesYield g text skip guard p (ordinal + 1) rest answer reach) :
      AlternativesYield g text skip guard p ordinal (member :: rest) answer reach
  | matched {skip member : Ref} {guard : Guard} {p stop ordinal reach : Nat} {rest : List Ref}
      {token : Token α} (fresh : ((g.symbol member).name, (p : Int)) ∉ guard)
      (matched : Yields g text member skip guard p (some (token, stop)) reach) :
      AlternativesYield g text skip guard p ordinal (member :: rest)
        (some (ordinal, token, stop)) reach
  | failed {skip member : Ref} {guard : Guard} {p ordinal reach₁ reach₂ : Nat} {rest : List Ref}
      {answer : Option (Nat × Token α × Nat)}
      (fresh : ((g.symbol member).name, (p : Int)) ∉ guard)
      (failed : Yields (α := α) g text member skip guard p none reach₁)
      (later : AlternativesYield g text skip guard p (ordinal + 1) rest answer reach₂) :
      AlternativesYield g text skip guard p ordinal (member :: rest) answer (max reach₁ reach₂)

/-- The rounds of a repetition, from `p`, where the last one that covers text ended at `stop`: it
    goes on until one fails, or covers no text right after another one that covers none. -/
inductive RoundsYield {α : Type} (g : Graph) (text : List Char) :
    (skip : Ref) → Guard → (inner : Ref) → (first : Bool) → (p stop : Nat) →
      (afterEmpty : Bool) → Nat × List (Token α) → (reach : Nat) → Prop
  | fails {skip inner : Ref} {guard : Guard} {first afterEmpty : Bool}
      {p q stop reach₁ reach₂ : Nat}
      (skipped : SkipYields (α := α) g text skip guard first p q reach₁)
      (failed : Yields (α := α) g text inner skip guard q none reach₂) :
      RoundsYield g text skip guard inner first p stop afterEmpty (stop, []) (max reach₁ reach₂)
  | secondEmpty {skip inner : Ref} {guard : Guard} {first : Bool} {p q r stop reach₁ reach₂ : Nat}
      {token : Token α}
      (skipped : SkipYields (α := α) g text skip guard first p q reach₁)
      (matched : Yields g text inner skip guard q (some (token, r)) reach₂)
      (empty : token.isEmpty = true) :
      RoundsYield g text skip guard inner first p stop true (stop, []) (max reach₁ reach₂)
  | empty {skip inner : Ref} {guard : Guard} {first : Bool}
      {p q r stop stop' reach₁ reach₂ reach₃ : Nat} {token : Token α} {tokens : List (Token α)}
      (skipped : SkipYields (α := α) g text skip guard first p q reach₁)
      (matched : Yields g text inner skip guard q (some (token, r)) reach₂)
      (empty : token.isEmpty = true)
      (later : RoundsYield g text skip guard inner false r stop true (stop', tokens) reach₃) :
      RoundsYield g text skip guard inner first p stop false (stop', token :: tokens)
        (max reach₁ (max reach₂ reach₃))
  | covers {skip inner : Ref} {guard : Guard} {first afterEmpty : Bool}
      {p q r stop stop' reach₁ reach₂ reach₃ : Nat} {token : Token α} {tokens : List (Token α)}
      (skipped : SkipYields (α := α) g text skip guard first p q reach₁)
      (matched : Yields g text inner skip guard q (some (token, r)) reach₂)
      (covers : token.isEmpty = false)
      (later : RoundsYield g text skip guard inner false r r false (stop', tokens) reach₃) :
      RoundsYield g text skip guard inner first p stop afterEmpty (stop', token :: tokens)
        (max reach₁ (max reach₂ reach₃))

end

/-! ### Where a match ends -/

variable {α : Type} {g : Graph} {text : List Char}

/-- A match that began at `p` ends there or later, and not at `p` if it covers text; and it stays
    within the text. -/
def Advances (text : List Char) (p : Nat) : Answer α → Prop
  | none => True
  | some (token, stop) =>
    p ≤ stop ∧ (p ≤ text.length → stop ≤ text.length) ∧ (token.isEmpty = false → p < stop)

theorem Advances.of_isEmpty {token : Token α} (p : Nat) (h : token.isEmpty = true) :
    Advances text p (some (token, p)) :=
  ⟨Nat.le_refl p, id, fun hne => by rw [h] at hne; cases hne⟩

theorem Advances.landing_between {p : Nat} {answer : Answer α} (h : Advances text p answer) :
    p ≤ landing p answer ∧ (p ≤ text.length → landing p answer ≤ text.length) := by
  cases answer with
  | none => exact ⟨Nat.le_refl p, id⟩
  | some found => exact ⟨h.1, h.2.1⟩

theorem readLeaf_advances {shape : Shape} {name : Name} {p reach : Nat} {answer : Answer α}
    (h : readLeaf text name p shape = some (answer, reach)) : Advances text p answer := by
  -- Two of the shapes read a character of a class.
  have hclass : ∀ ranges, Advances text p (readClass (α := α) text name ranges p) := by
    intro ranges
    cases hread : readClass (α := α) text name ranges p with
    | none => trivial
    | some found =>
      obtain ⟨c, ordinal, hchar, -, -, hstop⟩ := eq_of_readClass hread
      obtain ⟨hlt, -⟩ := List.getElem?_eq_some_iff.mp hchar
      exact ⟨by omega, fun _ => by omega, fun _ => by omega⟩
  cases shape <;> simp only [readLeaf, Option.some.injEq, Prod.mk.injEq, reduceCtorEq] at h
  case switch ranges => exact h.1 ▸ hclass ranges
  case anyCharacter => exact h.1 ▸ hclass _
  case character literal =>
    rw [← h.1, readCharacter]
    split
    · rename_i hchar
      obtain ⟨hlt, -⟩ := List.getElem?_eq_some_iff.mp hchar
      exact ⟨Nat.le_succ p, fun _ => hlt, fun _ => Nat.lt_succ_self p⟩
    · trivial
  case text literal =>
    rw [← h.1, readText]
    split
    · rename_i hstarts
      have hlen := hstarts.length_le
      rw [List.length_drop, String.length_toList] at hlen
      refine ⟨Nat.le_add_right _ _, fun _ => by omega, fun hne => ?_⟩
      have hpos : literal.length ≠ 0 := by
        intro hzero
        rw [String.length_eq_zero_iff] at hzero
        subst hzero
        simp [Token.isEmpty, Token.leaf] at hne
      omega
    · trivial
  case oddCharacter => exact h.1 ▸ trivial
  case oddText => exact h.1 ▸ trivial

/-- A token over the text between two positions covers text only if the second one is later. -/
theorem lt_of_spanning_not_empty {kind : Kind} {name : Name} {p stop : Nat}
    {tokens : List (Token α)}
    (h : (Token.spanning kind name text p stop tokens).isEmpty = false) : p < stop := by
  apply Nat.lt_of_not_le
  intro hle
  have hslice : (Token.spanning kind name text p stop tokens).substring = "" := slice_eq_empty hle
  simp [Token.isEmpty, hslice] at h

@[simp] theorem isEmpty_empty : (Token.sentinel (α := α) .empty).isEmpty = true := by
  simp [Token.isEmpty, Token.substring]

@[simp] theorem isEmpty_leaf_empty (kind : Kind) (name : Name) (start : Int) (ordinal : Nat) :
    (Token.leaf (α := α) kind name "" start ordinal).isEmpty = true := by
  simp [Token.isEmpty, Token.leaf]

/-- Nothing is skipped in front of the first part. -/
theorem SkipYields.eq_of_first {skip : Ref} {guard : Guard} {first : Bool} {p q reach : Nat}
    (h : SkipYields (α := α) g text skip guard first p q reach) (hfirst : first = true) :
    q = p := by
  cases h with
  | first => rfl
  | between => cases hfirst

/-- Where the last part that covers text ended moves on, and stays within the text. -/
def StopsBetween (text : List Char) (p stop stop' : Nat) : Prop :=
  stop ≤ p → stop ≤ stop' ∧ (p ≤ text.length → stop' ≤ text.length)

mutual

theorem Yields.advances {ref skip : Ref} {guard : Guard} {p reach : Nat} {answer : Answer α}
    (h : Yields g text ref skip guard p answer reach) : Advances text p answer := by
  match h with
  | .zeroLength shape => exact .of_isEmpty p isEmpty_empty
  | .implicit shape rule => exact rule.advances
  | .inProgress guarded mem => trivial
  | .enter guarded fresh body => exact body.advances

theorem ShapeYields.advances {shape : Shape} {name : Name} {skip : Ref} {guard : Guard}
    {p reach : Nat} {answer : Answer α}
    (h : ShapeYields g text shape name skip guard p answer reach) : Advances text p answer := by
  match h with
  | .leaf read => exact readLeaf_advances read
  | .sequence all =>
    obtain ⟨hle, hlen⟩ := all.stop_le _ rfl (Nat.le_refl p)
    exact ⟨hle, hlen, lt_of_spanning_not_empty⟩
  | .junction first => exact first.advances _ rfl
  | .multiple rounds found =>
    obtain ⟨hle, hlen⟩ := rounds.stop_le (Nat.le_refl p)
    exact ⟨hle, hlen, lt_of_spanning_not_empty⟩
  | .option present => exact present.advances
  | .star present => exact present.advances
  | .optionAbsent absent => exact .of_isEmpty p (isEmpty_leaf_empty ..)
  | .starAbsent absent => exact .of_isEmpty p (isEmpty_leaf_empty ..)
  | .sequenceFails _ | .junctionFails _ | .multipleFails _ => trivial

theorem SkipYields.le {skip : Ref} {guard : Guard} {first : Bool} {p q reach : Nat}
    (h : SkipYields (α := α) g text skip guard first p q reach) :
    p ≤ q ∧ (p ≤ text.length → q ≤ text.length) := by
  match h with
  | .first => exact ⟨Nat.le_refl p, id⟩
  | .between skipped => exact skipped.advances.landing_between

theorem MembersYield.stop_le {skip : Ref} {guard : Guard} {first : Bool} {p stop reach : Nat}
    {members : List Ref} {result : Option (Nat × List (Token α))}
    (h : MembersYield g text skip guard first p stop members result reach) :
    ∀ found, result = some found → StopsBetween text p stop found.1 := by
  rintro found hfound hstop
  match h with
  | .nil =>
    cases hfound
    exact ⟨Nat.le_refl _, Nat.le_trans hstop⟩
  | .fails skipped failed => cases hfound
  | .cons skipped matched later =>
    cases hfound
    rename_i q r _ _ _ stop' _ token tokens
    obtain ⟨hpq, hq⟩ := skipped.le
    obtain ⟨hqr, hr, -⟩ := matched.advances
    -- The next member begins behind the last one that covers text.
    have hnext : stop ≤ (if token.isEmpty then stop else r) ∧
        (if token.isEmpty then stop else r) ≤ r := by
      split <;> omega
    obtain ⟨hle, hlen⟩ := later.stop_le _ rfl hnext.2
    exact ⟨Nat.le_trans hnext.1 hle, fun hp => hlen (hr (hq hp))⟩
  | .laterFails skipped matched later => cases hfound

theorem AlternativesYield.advances {skip : Ref} {guard : Guard} {p ordinal reach : Nat}
    {members : List Ref} {answer : Option (Nat × Token α × Nat)}
    (h : AlternativesYield g text skip guard p ordinal members answer reach) :
    ∀ found, answer = some found → Advances text p (some found.2) := by
  rintro found hfound
  match h with
  | .nil => cases hfound
  | .inProgress mem later => exact later.advances found hfound
  | .matched fresh matched =>
    cases hfound
    exact matched.advances
  | .failed fresh failed later => exact later.advances found hfound

theorem RoundsYield.stop_le {skip inner : Ref} {guard : Guard} {first afterEmpty : Bool}
    {p stop reach : Nat} {result : Nat × List (Token α)}
    (h : RoundsYield g text skip guard inner first p stop afterEmpty result reach) :
    StopsBetween text p stop result.1 := by
  intro hstop
  match h with
  | .fails skipped failed => exact ⟨Nat.le_refl _, Nat.le_trans hstop⟩
  | .secondEmpty skipped matched empty => exact ⟨Nat.le_refl _, Nat.le_trans hstop⟩
  | .empty skipped matched empty later =>
    obtain ⟨hpq, hq⟩ := skipped.le
    obtain ⟨hqr, hr, -⟩ := matched.advances
    obtain ⟨hle, hlen⟩ := later.stop_le (by omega)
    exact ⟨hle, fun hp => hlen (hr (hq hp))⟩
  | .covers skipped matched covers later =>
    obtain ⟨hpq, hq⟩ := skipped.le
    obtain ⟨hqr, hr, -⟩ := matched.advances
    obtain ⟨hle, hlen⟩ := later.stop_le (Nat.le_refl _)
    exact ⟨by omega, fun hp => hlen (hr (hq hp))⟩

end

end GrammarEngine
