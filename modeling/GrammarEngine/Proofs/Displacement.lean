import GrammarEngine.Proofs.Comparing
import GrammarEngine.Proofs.Twins

namespace GrammarEngine

/-!
# Matching further on

What a match does depends on the text from its position on, and on the matches in progress there or
later. So a match in the middle of a text goes as one at the beginning of what is left of it, with
all positions moved.

* `Token.moved` — the tree, so many characters further on;
* `Guard.since`, `Beyond` — the matches in progress from a position on;
* `Apart`, `Arrives`, `AnswersMoved` — two matches, one of which is so many characters further on;
* `shapeBody_moved`, `guarded_moved`, `matchWithin_apart` — one symbol after the other;
* `matchWithin_moved` — a match in the middle of a text.
-/

open MatchM

variable {α β : Type} {u v : List Char}

/-! ### Trees further on -/

/-- The header of a token that starts so many characters further on. One that covers the empty text
    of the zero-length symbol has no place to be moved from. -/
def Header.moved (offset : Nat) (header : Header) : Header :=
  { header with start := if header.start = -1 then -1 else header.start + offset }

/-- The tree, so many characters further on. -/
def Token.moved (offset : Nat) : Token α → Token α := Token.mapHeaders (Header.moved offset)

namespace Token

variable {kind : Kind} {name : Name} {offset p ordinal : Nat}

theorem isEmpty_moved (t : Token α) : (t.moved offset).isEmpty = t.isEmpty :=
  isEmpty_mapHeaders (f := Header.moved offset) (fun _ => rfl) t

theorem moved_leaf (substring : String) :
    (leaf kind name substring p ordinal : Token α).moved offset =
      leaf kind name substring ((offset + p : Nat) : Int) ordinal := by
  have hplace : ¬ (p : Int) = -1 := by omega
  simp only [leaf, moved, mapHeaders_node, Header.moved, hplace, if_false, List.map_nil]
  rw [Int.natCast_add, Int.add_comm]

theorem moved_cover (t : Token α) (children : List (Token α)) :
    (coverToken kind name t ordinal children).moved offset =
      coverToken kind name (t.moved offset) ordinal (children.map (moved offset)) := by
  cases t with
  | sentinel which => simp [coverToken, moved, Header.moved, start, substring]
  | node header children' payload => simp [coverToken, moved, Header.moved]

@[simp] theorem children_moved (t : Token α) :
    (t.moved offset).children = t.children.map (moved offset) := children_mapHeaders _ t

theorem moved_spanning {start stop : Nat} (tokens : List (Token α)) :
    (Token.spanning kind name v start stop tokens).moved u.length =
      Token.spanning kind name (u ++ v) (u.length + start) (u.length + stop)
        (tokens.map (moved u.length)) := by
  have hplace : ¬ (start : Int) = -1 := by omega
  have hslice : slice (u ++ v) (u.length + start) (u.length + stop) = slice v start stop := by
    rw [slice, slice, List.take_length_add_append, List.drop_length_add_append]
  simp only [spanning, moved, mapHeaders_node, Header.moved, hplace, if_false, hslice]
  rw [Int.natCast_add, Int.add_comm]

end Token

/-- What a match yields so many characters further on. -/
def Answer.moved (offset : Nat) (answer : Answer α) : Answer α :=
  answer.map fun found => (found.1.moved offset, offset + found.2)

theorem landing_moved (offset p : Nat) (answer : Answer α) :
    landing (offset + p) (answer.moved offset) = offset + landing p answer := by
  cases answer <;> rfl

/-- What characters come to depends on the text from the position on. -/
theorem readLeaf_moved {shape : Shape} {name : Name} {q reach : Nat} {answer : Answer α}
    (h : readLeaf v name q shape = some (answer, reach)) :
    ∃ reach', readLeaf (u ++ v) name (u.length + q) shape =
      some (answer.moved u.length, reach') := by
  have hchar : (u ++ v)[u.length + q]? = v[q]? := by
    rw [List.getElem?_append_right (Nat.le_add_right _ _), Nat.add_sub_cancel_left]
  have hclass : ∀ ranges : CharClass, readClass (α := α) (u ++ v) name ranges (u.length + q) =
      (readClass v name ranges q : Answer α).moved u.length := by
    intro ranges
    cases hread : v[q]? with
    | none =>
      rw [readClass_of_none (hchar.trans hread), readClass_of_none hread]
      rfl
    | some c =>
      rw [readClass_of_some (hchar.trans hread), readClass_of_some hread]
      cases ranges.find? c.toNat <;> simp [Answer.moved, Token.moved_leaf, Nat.add_assoc]
  cases shape <;> simp only [readLeaf, Option.some.injEq, Prod.mk.injEq, reduceCtorEq] at h ⊢
  case switch ranges => exact ⟨_, by rw [hclass, h.1], rfl⟩
  case anyCharacter => exact ⟨_, by rw [hclass, h.1], rfl⟩
  case character literal =>
    refine ⟨_, ?_, rfl⟩
    rw [← h.1, readCharacter, readCharacter, hchar]
    split <;> simp [Answer.moved, Token.moved_leaf, Nat.add_assoc]
  case text literal =>
    refine ⟨_, ?_, rfl⟩
    rw [← h.1, readText, readText, List.drop_length_add_append]
    split <;> simp [Answer.moved, Token.moved_leaf, Nat.add_assoc]
  case oddCharacter => exact ⟨_, by rw [← h.1]; rfl, rfl⟩
  case oddText => exact ⟨_, by rw [← h.1]; rfl, rfl⟩

/-! ### The matches in progress -/

/-- The matches in progress from a position on, with their distances from there. -/
def Guard.since (p : Nat) (guard : Guard) : Guard :=
  guard.filterMap fun key => if (p : Int) ≤ key.2 then some (key.1, key.2 - p) else none

/-- So many characters further on, the matches in progress are the same from a position on. -/
def Beyond (offset : Nat) (guard₁ guard₂ : Guard) : Prop :=
  ∀ name (q : Nat), (name, ((offset + q : Nat) : Int)) ∈ guard₁ ↔ (name, (q : Int)) ∈ guard₂

theorem Guard.since_beyond (p : Nat) (guard : Guard) : Beyond p guard (guard.since p) := by
  intro name q
  rw [since, List.mem_filterMap]
  constructor
  · intro h
    refine ⟨_, h, ?_⟩
    rw [if_pos (Int.ofNat_le.mpr (Nat.le_add_right p q))]
    simp
  · rintro ⟨⟨name', r⟩, hmem, hkey⟩
    split at hkey
    · obtain ⟨rfl, hr⟩ := Prod.mk.inj (Option.some.inj hkey)
      have hplace : ((p + q : Nat) : Int) = r := by
        simp only at hr
        omega
      rw [hplace]
      exact hmem
    · cases hkey

theorem Beyond.cons {offset : Nat} {guard₁ guard₂ : Guard} (h : Beyond offset guard₁ guard₂)
    (name : Name) (q : Nat) :
    Beyond offset ((name, ((offset + q : Nat) : Int)) :: guard₁) ((name, (q : Int)) :: guard₂) := by
  intro name' r
  rw [List.mem_cons, List.mem_cons, h name' r, Prod.mk.injEq, Prod.mk.injEq, Int.ofNat_inj,
    Int.ofNat_inj, Nat.add_left_cancel_iff]

/-! ### Two matches -/

/-- The first one stands in the longer text, and the second one at the same place of what comes
    after the first part of that. -/
structure Apart (u v : List Char) (guard₁ guard₂ : Guard) (q : Nat) (s₁ s₂ : MatchState) :
    Prop where
  first : Stands (u ++ v) guard₁ (u.length + q) s₁
  second : Stands v guard₂ q s₂

/-- Both came to one place. -/
structure Arrives (u v : List Char) (r : Nat) (s₁ s₂ s₁' s₂' : MatchState) : Prop where
  first : ∃ reach, Lands (u ++ v) s₁ s₁' (u.length + r) reach
  second : ∃ reach, Lands v s₂ s₂' r reach

/-- Both have the same answer. -/
def AnswersMoved (u v : List Char) (q : Nat) (s₁ s₂ : MatchState) (first : Option (Token α))
    (s₁' : MatchState) (second : Option (Token α)) (s₂' : MatchState) : Prop :=
  ∃ answer : Answer α, Advances v q answer ∧ first = (answer.moved u.length).map Prod.fst ∧
    second = answer.map Prod.fst ∧ Arrives u v (landing q answer) s₁ s₂ s₁' s₂'

/-- Both end with the same error, and not for want of input. -/
def FailAlike (e₁ : Error) (_ : MatchState) (e₂ : Error) (_ : MatchState) : Prop :=
  e₁ = e₂ ∧ ∀ cause, e₁ ≠ .exhausted cause

/-- The two steps go alike, wherever the two matches are. -/
def MoveAlike (u v : List Char) (guard₁ guard₂ : Guard) (x y : MatchM (Option (Token α))) :
    Prop :=
  ∀ q s₁ s₂, Apart u v guard₁ guard₂ q s₁ s₂ →
    EndBoth (AnswersMoved u v q s₁ s₂) FailAlike (x s₁) (y s₂)

variable {guard₁ guard₂ : Guard} {s₁ s₂ s₁' s₂' s₁'' s₂'' : MatchState} {q r r' : Nat}

namespace Arrives

theorem refl (h : Apart u v guard₁ guard₂ q s₁ s₂) : Arrives u v q s₁ s₂ s₁ s₂ :=
  ⟨⟨0, .refl h.first⟩, ⟨0, .refl h.second⟩⟩

theorem trans (h : Arrives u v r s₁ s₂ s₁' s₂') (h' : Arrives u v r' s₁' s₂' s₁'' s₂'') :
    Arrives u v r' s₁ s₂ s₁'' s₂'' := by
  obtain ⟨⟨reach₁, h₁⟩, ⟨reach₂, h₂⟩⟩ := h
  obtain ⟨⟨reach₁', h₁'⟩, ⟨reach₂', h₂'⟩⟩ := h'
  exact ⟨⟨_, h₁.trans h₁'⟩, ⟨_, h₂.trans h₂'⟩⟩

theorem apart (h : Arrives u v r s₁ s₂ s₁' s₂') (hs : Apart u v guard₁ guard₂ q s₁ s₂) :
    Apart u v guard₁ guard₂ r s₁' s₂' := by
  obtain ⟨⟨reach₁, h₁⟩, ⟨reach₂, h₂⟩⟩ := h
  exact ⟨h₁.stands hs.first, h₂.stands hs.second⟩

end Arrives

theorem FailAlike.ne_exhausted {e₁ e₂ : Error} (h : FailAlike e₁ s₁ e₂ s₂) (cause : Exhausted) :
    e₁ ≠ .exhausted cause := h.2 cause

/-! ### The loops -/

/-- Whatever symbol is asked for, the two matches go alike. -/
def Ask.MoveAlike (u v : List Char) (guard₁ guard₂ : Guard) (ask : Ask α) : Prop :=
  ∀ ref skip, GrammarEngine.MoveAlike u v guard₁ guard₂ (ask ref skip) (ask ref skip)

section Loops

variable {g : Graph} {ask : Ask α} {skip : Ref}

theorem skipBefore_moved (hask : ask.MoveAlike u v guard₁ guard₂)
    (hs : Apart u v guard₁ guard₂ q s₁ s₂) (found : List (Token α)) :
    EndBoth (fun _ s₁' _ s₂' => ∃ r, q ≤ r ∧ (found = [] → r = q) ∧ Arrives u v r s₁ s₂ s₁' s₂')
      FailAlike (skipBefore ask skip (found.map (Token.moved u.length)) s₁)
      (skipBefore ask skip found s₂) := by
  cases found with
  | nil => exact .of_ok rfl rfl ⟨q, Nat.le_refl q, fun _ => rfl, .refl hs⟩
  | cons token found =>
    refine EndBoth.bind (hask skip .zeroLength q s₁ s₂ hs) ?_
    rintro _ s₁' _ s₂' ⟨answer, hadvances, -, -, harrives⟩
    exact .of_ok rfl rfl ⟨_, hadvances.landing_between.1, by simp, harrives⟩

/-- What the members of a sequence come to in both matches. -/
def MembersAlike (u v : List Char) (stop : Nat) (s₁ s₂ : MatchState)
    (result₁ : Option (Int × List (Token α))) (s₁' : MatchState)
    (result₂ : Option (Int × List (Token α))) (s₂' : MatchState) : Prop :=
  ∃ (result : Option (Nat × List (Token α))) (r : Nat),
    result₁ = result.map (fun found => (((u.length + found.1 : Nat) : Int),
      found.2.map (Token.moved u.length))) ∧
    result₂ = result.map (fun found => ((found.1 : Int), found.2)) ∧
    (∀ found, result = some found → stop ≤ found.1 ∧ found.1 ≤ r) ∧ Arrives u v r s₁ s₂ s₁' s₂'

theorem MembersAlike.later {result₁ result₂ : Option (Int × List (Token α))} {stop stop' : Nat}
    (h : MembersAlike u v stop' s₁' s₂' result₁ s₁'' result₂ s₂'') (hle : stop ≤ stop')
    (harrives : Arrives u v r s₁ s₂ s₁' s₂') :
    MembersAlike u v stop s₁ s₂ result₁ s₁'' result₂ s₂'' := by
  obtain ⟨result, r', hresult₁, hresult₂, hbounds, harrives'⟩ := h
  refine ⟨result, r', hresult₁, hresult₂, fun found hfound => ?_, harrives.trans harrives'⟩
  exact ⟨Nat.le_trans hle (hbounds found hfound).1, (hbounds found hfound).2⟩

theorem matchMembers_moved (hask : ask.MoveAlike u v guard₁ guard₂) (skip : Ref)
    (members : List Ref) {stop : Nat} (hs : Apart u v guard₁ guard₂ q s₁ s₂) (hstop : stop ≤ q)
    (found : List (Token α)) :
    EndBoth (MembersAlike u v stop s₁ s₂) FailAlike
      (matchMembers ask skip ((u.length + stop : Nat) : Int) (found.map (Token.moved u.length))
        members s₁)
      (matchMembers ask skip stop found members s₂) := by
  induction members generalizing s₁ s₂ q stop found with
  | nil =>
    refine .of_ok rfl rfl ⟨some (stop, found), q, rfl, rfl, ?_, .refl hs⟩
    rintro _ ⟨⟩
    exact ⟨Nat.le_refl stop, hstop⟩
  | cons member members ih =>
    refine EndBoth.bind (skipBefore_moved hask hs found) ?_
    rintro _ t₁ _ t₂ ⟨r, hqr, -, harrives⟩
    refine EndBoth.bind (hask member skip r t₁ t₂ (harrives.apart hs)) ?_
    rintro _ t₁' _ t₂' ⟨answer, hadvances, rfl, rfl, harrives'⟩
    cases answer with
    | none => exact .of_ok rfl rfl ⟨none, _, rfl, rfl, by simp, harrives.trans harrives'⟩
    | some found' =>
      obtain ⟨token, r'⟩ := found'
      have hall : Arrives u v r' s₁ s₂ t₁' t₂' := harrives.trans harrives'
      have hlater := hall.apart hs
      have hle : r ≤ r' := hadvances.1
      simp only [Answer.moved, Option.map_some, Token.isEmpty_moved]
      cases hempty : token.isEmpty
      all_goals simp only [if_true, Bool.false_eq_true, if_false]
      · rw [position_bind, position_bind, hlater.first.reads.position,
          hlater.second.reads.position]
        refine (ih hlater (Nat.le_refl r') (token :: found)).mono ?_ fun _ _ _ _ h => h
        exact fun _ _ _ _ h => h.later (by omega) hall
      · refine .bind_ok rfl rfl ((ih hlater (by omega) (token :: found)).mono ?_
          fun _ _ _ _ h => h)
        exact fun _ _ _ _ h => h.later (Nat.le_refl stop) hall

/-- What the alternatives of a junction come to in both matches. -/
def AlternativesAlike (u v : List Char) (q : Nat) (s₁ s₂ : MatchState)
    (result₁ : Option (Nat × Token α)) (s₁' : MatchState) (result₂ : Option (Nat × Token α))
    (s₂' : MatchState) : Prop :=
  ∃ result : Option (Nat × Token α × Nat), Advances v q (result.map Prod.snd) ∧
    result₁ = result.map (fun found => (found.1, found.2.1.moved u.length)) ∧
    result₂ = result.map (fun found => (found.1, found.2.1)) ∧
    Arrives u v (landing q (result.map Prod.snd)) s₁ s₂ s₁' s₂'

theorem matchAlternatives_moved (hask : ask.MoveAlike u v guard₁ guard₂)
    (hguard : Beyond u.length guard₁ guard₂) (members : List Ref)
    (hs : Apart u v guard₁ guard₂ q s₁ s₂) (ordinal : Nat) :
    EndBoth (AlternativesAlike u v q s₁ s₂) FailAlike
      (matchAlternatives g ask skip ((u.length + q : Nat) : Int) ordinal members s₁)
      (matchAlternatives g ask skip q ordinal members s₂) := by
  induction members generalizing s₁ s₂ ordinal with
  | nil => exact .of_ok rfl rfl ⟨none, trivial, rfl, rfl, .refl hs⟩
  | cons member members ih =>
    have hmem : ((g.symbol member).name, ((u.length + q : Nat) : Int)) ∈ s₁.guard ↔
        ((g.symbol member).name, (q : Int)) ∈ s₂.guard := by
      rw [hs.first.guard_eq, hs.second.guard_eq]
      exact hguard _ q
    unfold matchAlternatives
    rw [isInProgress_bind, isInProgress_bind, decide_eq_decide.mpr hmem]
    cases hprogress : decide (((g.symbol member).name, (q : Int)) ∈ s₂.guard) with
    | true => exact ih hs (ordinal + 1)
    | false =>
      refine EndBoth.bind (hask member skip q s₁ s₂ hs) ?_
      rintro _ t₁ _ t₂ ⟨answer, hadvances, rfl, rfl, harrives⟩
      cases answer with
      | some found => exact .of_ok rfl rfl ⟨some (ordinal, found), hadvances, rfl, rfl, harrives⟩
      | none =>
        refine (ih (harrives.apart hs) (ordinal + 1)).mono ?_ fun _ _ _ _ h => h
        rintro _ t₁' _ t₂' ⟨result, hresult, rfl, rfl, harrives'⟩
        exact ⟨result, hresult, rfl, rfl, harrives.trans harrives'⟩

/-- What the rounds of a repetition come to in both matches. They come to nothing only from the
    first round on, where `fresh` holds, and the streams are then where they were. -/
def RoundsAlike (u v : List Char) (q stop : Nat) (fresh : Prop) (s₁ s₂ : MatchState)
    (result₁ : Int × List (Token α)) (s₁' : MatchState) (result₂ : Int × List (Token α))
    (s₂' : MatchState) : Prop :=
  ∃ (stop' : Nat) (found : List (Token α)) (r : Nat),
    result₁ = (((u.length + stop' : Nat) : Int), found.map (Token.moved u.length)) ∧
    result₂ = ((stop' : Int), found) ∧ stop ≤ stop' ∧ stop' ≤ r ∧
    (found = [] → fresh ∧ r = q) ∧ Arrives u v r s₁ s₂ s₁' s₂'

theorem RoundsAlike.later {result₁ result₂ : Int × List (Token α)} {stop stop' : Nat}
    {fresh : Prop} (h : RoundsAlike u v r stop' False s₁' s₂' result₁ s₁'' result₂ s₂'')
    (hle : stop ≤ stop') (harrives : Arrives u v r s₁ s₂ s₁' s₂') :
    RoundsAlike u v q stop fresh s₁ s₂ result₁ s₁'' result₂ s₂'' := by
  obtain ⟨stop'', found, r', hresult₁, hresult₂, hstop, hr, hfound, harrives'⟩ := h
  refine ⟨stop'', found, r', hresult₁, hresult₂, Nat.le_trans hle hstop, hr, fun hnil => ?_,
    harrives.trans harrives'⟩
  exact (hfound hnil).1.elim

theorem matchRounds_moved (hask : ask.MoveAlike u v guard₁ guard₂) (skip inner : Ref)
    (rounds : Nat) {stop : Nat} (hs : Apart u v guard₁ guard₂ q s₁ s₂) (hstop : stop ≤ q)
    (afterEmpty : Bool) (found : List (Token α)) (hempty : afterEmpty = true → found ≠ []) :
    EndBoth (RoundsAlike u v q stop (found = []) s₁ s₂) FailAlike
      (matchRounds ask skip inner rounds ((u.length + stop : Nat) : Int) afterEmpty
        (found.map (Token.moved u.length)) s₁)
      (matchRounds ask skip inner rounds stop afterEmpty found s₂) := by
  induction rounds generalizing s₁ s₂ q stop afterEmpty found with
  | zero =>
    exact .of_ok rfl rfl ⟨stop, found, q, rfl, rfl, Nat.le_refl stop, hstop, fun h => ⟨h, rfl⟩,
      .refl hs⟩
  | succ rounds ih =>
    refine EndBoth.bind (skipBefore_moved hask hs found) ?_
    rintro _ t₁ _ t₂ ⟨r, hqr, hfirst, harrives⟩
    refine EndBoth.bind (hask inner skip r t₁ t₂ (harrives.apart hs)) ?_
    rintro _ t₁' _ t₂' ⟨answer, hadvances, rfl, rfl, harrives'⟩
    cases answer with
    | none =>
      exact .of_ok rfl rfl ⟨stop, found, r, rfl, rfl, Nat.le_refl stop, by omega,
        fun h => ⟨h, hfirst h⟩, harrives.trans harrives'⟩
    | some found' =>
      obtain ⟨token, r'⟩ := found'
      have hall : Arrives u v r' s₁ s₂ t₁' t₂' := harrives.trans harrives'
      have hlater := hall.apart hs
      have hle : r ≤ r' := hadvances.1
      -- With one more token there is no way back to none.
      have hcons : ∀ {stop' : Nat} {result₁ result₂ : Int × List (Token α)} {s₁' s₂' : MatchState},
          stop ≤ stop' →
          RoundsAlike u v r' stop' (token :: found = []) t₁' t₂' result₁ s₁' result₂ s₂' →
          RoundsAlike u v q stop (found = []) s₁ s₂ result₁ s₁' result₂ s₂' := by
        intro stop' result₁ result₂ s₁' s₂' hle h
        rw [eq_false (List.cons_ne_nil token found)] at h
        exact h.later hle hall
      simp only [Answer.moved, Option.map_some, Token.isEmpty_moved]
      cases htoken : token.isEmpty with
      | false =>
        simp only [Bool.not_false, if_true]
        rw [position_bind, position_bind, hlater.first.reads.position,
          hlater.second.reads.position]
        refine (ih hlater (Nat.le_refl r') false (token :: found) (by simp)).mono ?_
          fun _ _ _ _ h => h
        exact fun _ _ _ _ h => hcons (by omega) h
      | true =>
        simp only [Bool.not_true, Bool.false_eq_true, if_false]
        cases afterEmpty with
        | true =>
          exact .of_ok rfl rfl ⟨stop, found, r', rfl, rfl, Nat.le_refl stop, by omega,
            fun h => absurd h (hempty rfl), hall⟩
        | false =>
          refine (ih hlater (by omega) true (token :: found) (by simp)).mono ?_
            fun _ _ _ _ h => h
          exact fun _ _ _ _ h => hcons (Nat.le_refl stop) h

end Loops

/-! ### The shapes -/

section Shapes

variable {g : Graph} {ask : Ask α} {name : Name} {skip : Ref}

theorem Apart.saving (hs : Apart u v guard₁ guard₂ q s₁ s₂) :
    Apart u v guard₁ guard₂ q (s₁.saving (u.length + q)) (s₂.saving q) :=
  ⟨hs.first.saving, hs.second.saving⟩

/-- A token over the same stretch, for parts that are so many characters further on. -/
theorem AnswersMoved.spanning {kind : Kind} {stop : Nat} {found : List (Token α)} (hle : q ≤ stop)
    (h : Arrives u v stop s₁ s₂ s₁' s₂') :
    AnswersMoved u v q s₁ s₂
      (some (.spanning kind name (u ++ v) (u.length + q) (u.length + stop)
        (found.map (Token.moved u.length)).reverse)) s₁'
      (some (.spanning kind name v q stop found.reverse)) s₂' := by
  obtain ⟨reach, hlands⟩ := h.second
  refine ⟨some (_, stop), ⟨hle, fun _ => hlands.stream.reads.le_length,
    lt_of_spanning_not_empty⟩, ?_, rfl, h⟩
  simp only [Answer.moved, Option.map_some, Token.moved_spanning, List.map_reverse]

theorem matchSequence_moved (hask : ask.MoveAlike u v guard₁ guard₂) (members : List Ref) :
    MoveAlike u v guard₁ guard₂ (matchSequence ask name skip members)
      (matchSequence ask name skip members) := by
  intro q s₁ s₂ hs
  have hall := matchMembers_moved hask skip members hs.saving (Nat.le_refl q) []
  rcases hall.elim with
    ⟨_, t₁, _, t₂, hrun₁, hrun₂, result, r, rfl, rfl, hbounds, ⟨reach₁, h₁⟩, reach₂, h₂⟩ |
    ⟨e₁, t₁, e₂, t₂, hrun₁, hrun₂, hfail⟩
  · cases result with
    | none =>
      obtain ⟨t₁', hseq₁, hlands₁⟩ := matchSequence_none hs.first hrun₁ h₁
      obtain ⟨t₂', hseq₂, hlands₂⟩ := matchSequence_none hs.second hrun₂ h₂
      exact .of_ok hseq₁ hseq₂ ⟨none, trivial, rfl, rfl, ⟨_, hlands₁⟩, ⟨_, hlands₂⟩⟩
    | some result =>
      obtain ⟨stop, found⟩ := result
      obtain ⟨hle, hstop⟩ := hbounds _ rfl
      obtain ⟨t₁', hseq₁, hlands₁⟩ := matchSequence_some hs.first
        (Nat.add_le_add_left hle u.length) (Nat.add_le_add_left hstop u.length) hrun₁ h₁
      obtain ⟨t₂', hseq₂, hlands₂⟩ := matchSequence_some hs.second hle hstop hrun₂ h₂
      exact .of_ok hseq₁ hseq₂ (.spanning hle ⟨⟨_, hlands₁⟩, ⟨_, hlands₂⟩⟩)
  · have herror₁ : matchSequence ask name skip members s₁ = .error e₁ t₁ := by
      rw [matchSequence, position_bind, Step.bind_ok (saving_run hs.first), hs.first.reads.position]
      exact Step.bind_error hrun₁ _
    have herror₂ : matchSequence ask name skip members s₂ = .error e₂ t₂ := by
      rw [matchSequence, position_bind, Step.bind_ok (saving_run hs.second),
        hs.second.reads.position]
      exact Step.bind_error hrun₂ _
    exact .of_error herror₁ herror₂ hfail

theorem matchJunction_moved (hask : ask.MoveAlike u v guard₁ guard₂)
    (hguard : Beyond u.length guard₁ guard₂) (members : List Ref) :
    MoveAlike u v guard₁ guard₂ (matchJunction g ask name skip members)
      (matchJunction g ask name skip members) := by
  intro q s₁ s₂ hs
  unfold matchJunction
  rw [position_bind, position_bind, hs.first.reads.position, hs.second.reads.position]
  refine EndBoth.bind (matchAlternatives_moved hask hguard members hs 0) ?_
  rintro _ t₁ _ t₂ ⟨result, hadvances, rfl, rfl, harrives⟩
  cases result with
  | none => exact .of_ok rfl rfl ⟨none, trivial, rfl, rfl, harrives⟩
  | some found =>
    obtain ⟨ordinal, token, stop⟩ := found
    refine .of_ok rfl rfl ⟨some (coverToken .junction name token ordinal [token], stop), hadvances,
      ?_, rfl, harrives⟩
    simp only [Answer.moved, Option.map_some, Token.moved_cover, List.map_cons, List.map_nil]

/-- So many rounds are enough for both matches. -/
theorem enoughRounds_append {afterEmpty : Bool} {rounds : Nat}
    (h : EnoughRounds v q afterEmpty rounds) :
    EnoughRounds (u ++ v) (u.length + q) afterEmpty rounds := by
  unfold EnoughRounds at h ⊢
  rw [List.length_append, Nat.add_sub_add_left]
  exact h

theorem matchMultiple_moved {fatal : Error → Prop} (hask : ask.MoveAlike u v guard₁ guard₂)
    (hobeys : Obeys g (u ++ v) (fun _ => True) fatal guard₁ 0 ask) (inner : Ref) :
    MoveAlike u v guard₁ guard₂ (matchMultiple ask name skip inner)
      (matchMultiple ask name skip inner) := by
  intro q s₁ s₂ hs
  -- The first match could as well go as many rounds as the second one.
  have hrounds := matchRounds_enough hobeys skip inner hs.first (enoughRounds_remaining hs.first)
    (enoughRounds_append (enoughRounds_remaining hs.second)) ((u.length + q : Nat) : Int) []
  have hall := matchRounds_moved hask skip inner (2 * s₂.stream.remaining + 2) hs
    (Nat.le_refl q) false [] (by simp)
  rw [List.map_nil, ← hrounds] at hall
  rcases hall.elim with
    ⟨_, t₁, _, t₂, hrun₁, hrun₂, stop, found, r, rfl, rfl, hle, hstop, hnil, harrives⟩ |
    ⟨e₁, t₁, e₂, t₂, hrun₁, hrun₂, hfail⟩
  · by_cases hfound : found = []
    · subst hfound
      obtain ⟨-, rfl⟩ := hnil rfl
      exact .of_ok (matchMultiple_none hs.first hrun₁) (matchMultiple_none hs.second hrun₂)
        ⟨none, trivial, rfl, rfl, harrives⟩
    · obtain ⟨⟨reach₁, h₁⟩, reach₂, h₂⟩ := harrives
      obtain ⟨t₁', hmul₁, hlands₁⟩ := matchMultiple_some hs.first (by simpa using hfound)
        (Nat.add_le_add_left hle u.length) (Nat.add_le_add_left hstop u.length) hrun₁ h₁
      obtain ⟨t₂', hmul₂, hlands₂⟩ := matchMultiple_some hs.second hfound hle hstop
        hrun₂ h₂
      exact .of_ok hmul₁ hmul₂ (.spanning hle ⟨⟨_, hlands₁⟩, ⟨_, hlands₂⟩⟩)
  · have herror₁ : matchMultiple ask name skip inner s₁ = .error e₁ t₁ := by
      rw [matchMultiple, position_bind, Step.get_bind, hs.first.reads.position]
      exact Step.bind_error hrun₁ _
    have herror₂ : matchMultiple ask name skip inner s₂ = .error e₂ t₂ := by
      rw [matchMultiple, position_bind, Step.get_bind, hs.second.reads.position]
      exact Step.bind_error hrun₂ _
    exact .of_error herror₁ herror₂ hfail

/-- A token for nothing, at the place where both streams are. -/
theorem absent_moved {kind : Kind} (hs : Apart u v guard₁ guard₂ q s₁ s₂)
    (harrives : Arrives u v q s₁ s₂ s₁' s₂') :
    EndBoth (AnswersMoved (α := α) u v q s₁ s₂) FailAlike
      ((do return some (Token.leaf kind name "" (← position) 0)) s₁')
      ((do return some (Token.leaf kind name "" (← position) 0)) s₂') := by
  have hlater := harrives.apart hs
  rw [position_bind, position_bind, hlater.first.reads.position, hlater.second.reads.position]
  refine .of_ok rfl rfl ⟨some (.leaf kind name "" q 0, q), .of_isEmpty q (isEmpty_leaf_empty ..),
    ?_, rfl, harrives⟩
  simp only [Answer.moved, Option.map_some, Token.moved_leaf]

theorem matchOption_moved (hask : ask.MoveAlike u v guard₁ guard₂) (inner : Ref) :
    MoveAlike u v guard₁ guard₂ (matchOption ask name skip inner)
      (matchOption ask name skip inner) := by
  intro q s₁ s₂ hs
  refine EndBoth.bind (hask inner skip q s₁ s₂ hs) ?_
  rintro _ t₁ _ t₂ ⟨answer, hadvances, rfl, rfl, harrives⟩
  cases answer with
  | none => exact absent_moved hs harrives
  | some found =>
    refine .of_ok rfl rfl ⟨some (coverToken .option name found.1 0 [found.1], found.2), hadvances,
      ?_, rfl, harrives⟩
    simp only [Answer.moved, Option.map_some, Token.moved_cover, List.map_cons, List.map_nil]

theorem matchStar_moved (hask : ask.MoveAlike u v guard₁ guard₂) (repetition : Ref) :
    MoveAlike u v guard₁ guard₂ (matchStar ask name skip repetition)
      (matchStar ask name skip repetition) := by
  intro q s₁ s₂ hs
  refine EndBoth.bind (hask repetition skip q s₁ s₂ hs) ?_
  rintro _ t₁ _ t₂ ⟨answer, hadvances, rfl, rfl, harrives⟩
  cases answer with
  | none => exact absent_moved hs harrives
  | some found =>
    refine .of_ok rfl rfl ⟨some (coverToken .star name found.1 0 found.1.children, found.2),
      hadvances, ?_, rfl, harrives⟩
    simp only [Answer.moved, Option.map_some, Token.moved_cover, Token.children_moved]

/-- The shapes that ask for other symbols. -/
theorem shapeBody_moved {fatal : Error → Prop} {shape : Shape}
    (hask : ask.MoveAlike u v guard₁ guard₂) (hguard : Beyond u.length guard₁ guard₂)
    (hobeys : Obeys g (u ++ v) (fun _ => True) fatal guard₁ 0 ask)
    (hread : readLeaf (α := α) v name q shape = none) :
    MoveAlike u v guard₁ guard₂ (shapeBody g ask name skip shape)
      (shapeBody g ask name skip shape) := by
  cases shape with
  | sequence members => exact matchSequence_moved hask members
  | junction members => exact matchJunction_moved hask hguard members
  | multiple inner => exact matchMultiple_moved hask hobeys inner
  | option inner => exact matchOption_moved hask inner
  | star repetition => exact matchStar_moved hask repetition
  | switch | anyCharacter | text | character | oddCharacter | oddText =>
    simp only [readLeaf, reduceCtorEq] at hread
  | implicit | zeroLength | foreign =>
    exact fun q s₁ s₂ hs => .of_ok rfl rfl ⟨none, trivial, rfl, rfl, .refl hs⟩

end Shapes

/-! ### Any symbol -/

/-- A match that is over leaves its key behind. -/
theorem Lands.leave {text : List Char} {s s' : MatchState} {key : Name × Int} {reach : Nat}
    (h : Lands text (s.enter key) s' r reach) (event : Event) :
    Lands text s ((s'.leave key).report event) r reach := by
  refine ⟨h.stream, ?_⟩
  rw [MatchState.guard_report, MatchState.leave, h.guard_eq, MatchState.enter,
    List.erase_cons_head]

theorem guarded_moved {name : Name} {body : MatchM (Option (Token α))}
    (hs : Apart u v guard₁ guard₂ q s₁ s₂)
    (hfresh₁ : (name, ((u.length + q : Nat) : Int)) ∉ guard₁) (hfresh₂ : (name, (q : Int)) ∉ guard₂)
    (hbody : MoveAlike u v ((name, ((u.length + q : Nat) : Int)) :: guard₁)
      ((name, (q : Int)) :: guard₂) body body) :
    EndBoth (AnswersMoved u v q s₁ s₂) FailAlike (guarded name body s₁) (guarded name body s₂) := by
  have hinside : Apart u v ((name, ((u.length + q : Nat) : Int)) :: guard₁)
      ((name, (q : Int)) :: guard₂) q (s₁.enter (name, ((u.length + q : Nat) : Int)))
      (s₂.enter (name, (q : Int))) :=
    ⟨⟨hs.first.reads, by rw [MatchState.enter, hs.first.guard_eq]⟩,
      ⟨hs.second.reads, by rw [MatchState.enter, hs.second.guard_eq]⟩⟩
  unfold guarded
  simp only [hs.first.reads.position, hs.second.reads.position, hs.first.guard_eq,
    hs.second.guard_eq, hfresh₁, hfresh₂, if_false]
  rcases (hbody q _ _ hinside).elim with
    ⟨_, t₁, _, t₂, hrun₁, hrun₂, answer, hadvances, rfl, rfl, ⟨reach₁, h₁⟩, reach₂, h₂⟩ |
    ⟨e, t₁, _, t₂, hrun₁, hrun₂, rfl, hexhausted⟩
  · rw [hrun₁, hrun₂]
    cases answer with
    | none => exact ⟨none, trivial, rfl, rfl, ⟨_, h₁.leave _⟩, ⟨_, h₂.leave _⟩⟩
    | some found => exact ⟨some found, hadvances, rfl, rfl, ⟨_, h₁.leave _⟩, ⟨_, h₂.leave _⟩⟩
  · rw [hrun₁, hrun₂]
    cases e with
    | exhausted cause => exact absurd rfl (hexhausted cause)
    | _ => exact ⟨rfl, hexhausted⟩

/-- Whatever symbol is matched, and however deep the nesting may be, the two matches go alike. -/
theorem matchWithin_apart (g : Graph) (limit : Nat) (hguard : Beyond u.length guard₁ guard₂) :
    (matchWithin (α := α) g limit).MoveAlike u v guard₁ guard₂ := by
  induction limit generalizing guard₁ guard₂ with
  | zero => exact fun ref skip q s₁ s₂ hs => .of_error rfl rfl ⟨rfl, by rintro cause ⟨⟩⟩
  | succ limit ih =>
    intro ref skip q s₁ s₂ hs
    rw [matchWithin]
    rcases (g.symbol ref).shape.guarded_or with
      hguarded | hundefined | ⟨target, himplicit⟩ | hzero | hforeign
    · rw [matchStep_guarded skip hguarded]
      by_cases hmem : ((g.symbol ref).name, (q : Int)) ∈ guard₂
      · obtain ⟨t₁, hrun₁, hlands₁⟩ := guarded_inProgress hs.first ((hguard _ q).mpr hmem)
        obtain ⟨t₂, hrun₂, hlands₂⟩ := guarded_inProgress hs.second hmem
        exact .of_ok hrun₁ hrun₂ ⟨none, trivial, rfl, rfl, ⟨_, hlands₁⟩, ⟨_, hlands₂⟩⟩
      · have hmem₁ := fun h => hmem ((hguard _ q).mp h)
        cases hread : readLeaf (α := α) v (g.symbol ref).name q (g.symbol ref).shape with
        | some result =>
          obtain ⟨answer, reach⟩ := result
          obtain ⟨reach', hread'⟩ := readLeaf_moved (u := u) hread
          obtain ⟨t₁, hrun₁, hlands₁⟩ := (shapeBody_delivers hread').guarded hmem₁ s₁ hs.first
          obtain ⟨t₂, hrun₂, hlands₂⟩ := (shapeBody_delivers hread).guarded hmem s₂ hs.second
          rw [landing_moved] at hlands₁
          exact .of_ok hrun₁ hrun₂
            ⟨answer, readLeaf_advances hread, rfl, rfl, ⟨_, hlands₁⟩, ⟨_, hlands₂⟩⟩
        | none =>
          exact guarded_moved hs hmem₁ hmem (shapeBody_moved (ih (hguard.cons _ q))
            (hguard.cons _ q) (matchWithin_obeys g (u ++ v) limit _) hread)
    · rw [matchStep_undefined hundefined]
      exact .of_error rfl rfl ⟨rfl, by rintro cause ⟨⟩⟩
    · rw [matchStep_implicit himplicit]
      exact ih hguard target skip q s₁ s₂ hs
    · rw [matchStep_zeroLength hzero]
      exact .of_ok rfl rfl ⟨some (.sentinel .empty, q), .of_isEmpty q isEmpty_empty, rfl, rfl,
        .refl hs⟩
    · rw [matchStep_foreign hforeign]
      exact .of_error rfl rfl ⟨rfl, by rintro cause ⟨⟩⟩

/-- A match in the middle of a text goes as one at the beginning of what is left of it: it ends
    with the same error, or with the same answer, where the tree and the position it comes to are
    so many characters further on. What is in progress at earlier positions makes no difference; if
    there is nothing else, the other match begins from scratch. -/
theorem matchWithin_moved (g : Graph) (limit : Nat) (ref skip : Ref)
    (h₁ : s₁.stream.Reads (u ++ v) u.length) (h₂ : s₂.stream.Reads v 0)
    (hguard : s₂.guard = s₁.guard.since u.length) :
    EndBoth
      (fun first (s₁' : MatchState) second (s₂' : MatchState) =>
        first = second.map (Token.moved (α := α) u.length) ∧
          s₁'.stream.position = s₂'.stream.position + u.length)
      (fun e₁ _ e₂ _ => e₁ = e₂)
      (matchWithin g limit ref skip s₁) (matchWithin g limit ref skip s₂) ∧
    ((∀ key ∈ s₁.guard, key.2 < u.length) → s₂.guard = []) := by
  have hs : Apart u v s₁.guard s₂.guard 0 s₁ s₂ := ⟨⟨h₁, rfl⟩, ⟨h₂, rfl⟩⟩
  have hbeyond : Beyond u.length s₁.guard s₂.guard := hguard ▸ s₁.guard.since_beyond u.length
  constructor
  · refine (matchWithin_apart g limit hbeyond ref skip 0 s₁ s₂ hs).mono ?_ fun _ _ _ _ h => h.1
    rintro _ s₁' _ s₂' ⟨answer, -, rfl, rfl, harrives⟩
    have hlater := harrives.apart hs
    constructor
    · cases answer <;> rfl
    · rw [hlater.first.reads.position, hlater.second.reads.position]
      omega
  · intro hearlier
    rw [hguard, Guard.since, List.filterMap_eq_nil_iff]
    exact fun key hkey => if_neg (Int.not_le.mpr (hearlier key hkey))

/-- Behind an item and a blank, while a list is matched from the beginning of the text. -/
def behindItem : MatchState where
  stream := { Stream.ofString "x x" with position := 2 }
  guard := [(.given "list", 0)]
  events := []

theorem behindItem_reads : behindItem.stream.Reads (['x', ' '] ++ ['x']) ['x', ' '].length :=
  ⟨rfl, by decide, (Stream.reads_ofString "x x").spells⟩

/-- The list from the beginning on does not keep another one from being matched there. -/
theorem matchWithin_moved_behindItem :
    ∃ limit s', matchWithin leftRecursive limit (.node 0) (.node 4) behindItem =
        .ok (some (oneItem.moved 2)) s' ∧ s'.stream.position = 3 := by
  obtain ⟨limit, hlimit⟩ := leftRecursive_yields_oneItem.delivered.exists
  obtain ⟨s₂', hrun₂, hlands⟩ :=
    hlimit (.ofStream (.ofString "x")) ⟨Stream.reads_ofString "x", rfl⟩
  have hreads : (MatchState.ofStream (.ofString "x")).stream.Reads ['x'] 0 :=
    Stream.reads_ofString "x"
  obtain ⟨hends, -⟩ := matchWithin_moved (α := Unit) leftRecursive limit (.node 0) (.node 4)
    behindItem_reads hreads (by decide)
  rcases hends.elim with ⟨_, s₁', _, s₂'', hrun, hrun', rfl, hposition⟩ | ⟨_, _, _, _, -, herror, -⟩
  · cases hrun₂.symm.trans hrun'
    refine ⟨limit, s₁', hrun, ?_⟩
    rw [hposition, hlands.stream.reads.position]
    rfl
  · cases hrun₂.symm.trans herror

end GrammarEngine
