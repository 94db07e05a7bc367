import Mathlib.Data.Finset.Card
import Mathlib.Data.Finset.Prod
import Mathlib.Logic.Relation
import GrammarEngine.Proofs.Limits
import GrammarEngine.Proofs.Obedience

namespace GrammarEngine

/-!
# Matching comes to an end

A match that is in progress is not entered again at the same place, so within one call there are
no more of them than names and places. Between two of them stand implicit symbols only, and a
chain of those does not lead back to itself.

* `Graph.IsClosed`, `Graph.IsAcyclic` — the parts of a graph that this is about;
* `Graph.nestingBound` — how deeply a match in such a part is nested at most;
* `Inside` — the matches in progress inside one call;
* `Suffices` — a limit that is enough for what can still be put in progress and passed;
* `LoopRuns` — a repetition as a loop without a bound, with its rounds counted;
* `matchWithin_terminates` — a match ends, and how far it goes at most.
-/

open MatchM

/-! ### Parts of a graph -/

namespace Graph

variable (g : Graph) (part : Finset Ref)

/-- What the symbols of the part are made of is in the part as well. -/
def IsClosed : Prop := ∀ ref ∈ part, ∀ r ∈ (g.symbol ref).shape.refs, r ∈ part

/-- An implicit symbol leads to what it refers to. -/
def LeadsTo (ref target : Ref) : Prop := (g.symbol ref).shape = .implicit (some target)

/-- No chain of implicit symbols of the part leads back to itself. -/
def IsAcyclic : Prop := ∀ ref ∈ part, ¬ Relation.TransGen g.LeadsTo ref ref

/-- The names of the symbols that can be in progress. -/
def guardedNames : Finset Name :=
  (part.filter fun ref => (g.symbol ref).shape.isGuarded).image fun ref => (g.symbol ref).name

/-- The implicit symbols of the part. -/
def implicits : Finset Ref := part.filter fun ref => (g.symbol ref).shape.kind = .implicit

/-- The matches that can be in progress between two positions. -/
def keys (low high : Nat) : Finset (Name × Int) :=
  g.guardedNames part ×ˢ
    (Finset.range (high + 1 - low)).image fun offset => ((low + offset : Nat) : Int)

/-- How deeply matches in the part are nested at most, over a text of a given length. -/
def nestingBound (length : Nat) : Nat :=
  (g.guardedNames part).card * (length + 1) * ((g.implicits part).card + 1) +
    (g.implicits part).card + 1

variable {g part}

theorem mem_keys {low high p : Nat} {ref : Ref} (href : ref ∈ part)
    (hguarded : (g.symbol ref).shape.isGuarded = true) (hlow : low ≤ p) (hhigh : p ≤ high) :
    ((g.symbol ref).name, (p : Int)) ∈ g.keys part low high := by
  refine Finset.mem_product.mpr ⟨Finset.mem_image.mpr ⟨ref, ?_, rfl⟩, ?_⟩
  · exact Finset.mem_filter.mpr ⟨href, hguarded⟩
  · refine Finset.mem_image.mpr ⟨p - low, Finset.mem_range.mpr (by omega), ?_⟩
    rw [Nat.add_sub_cancel' hlow]

/-- A rank that goes down along references leaves no room for circles. -/
theorem isAcyclic_of_rank (rank : Ref → Nat)
    (hrank : ∀ ref target, g.LeadsTo ref target → rank target < rank ref) : g.IsAcyclic part := by
  have hchain : ∀ ref target, Relation.TransGen g.LeadsTo ref target → rank target < rank ref := by
    intro ref target h
    induction h with
    | single h => exact hrank _ _ h
    | tail _ h ih => exact Nat.lt_trans (hrank _ _ h) ih
  exact fun ref _ h => Nat.lt_irrefl _ (hchain ref ref h)

theorem card_keys {low high : Nat} (h : low ≤ high) :
    (g.keys part low high).card = (g.guardedNames part).card * (high - low + 1) := by
  have hinjective : Function.Injective fun offset => ((low + offset : Nat) : Int) :=
    fun offset offset' heq => Nat.add_left_cancel (Int.ofNat.inj heq)
  rw [keys, Finset.card_product, Finset.card_image_of_injective _ hinjective, Finset.card_range,
    Nat.sub_add_comm h]

end Graph

/-! ### What is in progress -/

variable {α : Type} {g : Graph} {part : Finset Ref} {text : List Char} {low : Nat}

/-- The matches that a call has put in progress: none twice, and each one at a place where a symbol
    of the part can be. -/
structure Inside (g : Graph) (part : Finset Ref) (text : List Char) (low : Nat) (inner : Guard) :
    Prop where
  nodup : inner.Nodup
  mem : ∀ key ∈ inner, key ∈ g.keys part low text.length

namespace Inside

variable {inner : Guard}

theorem nil : Inside g part text low [] := ⟨List.nodup_nil, by simp⟩

theorem cons {key : Name × Int} (h : Inside g part text low inner)
    (hkey : key ∈ g.keys part low text.length) (hfresh : key ∉ inner) :
    Inside g part text low (key :: inner) := by
  refine ⟨List.nodup_cons.mpr ⟨hfresh, h.nodup⟩, ?_⟩
  simpa [hkey] using h.mem

theorem length_le (h : Inside g part text low inner) :
    inner.length ≤ (g.keys part low text.length).card := by
  rw [← List.toFinset_card_of_nodup h.nodup]
  refine Finset.card_le_card fun key hkey => ?_
  exact h.mem key (List.mem_toFinset.mp hkey)

end Inside

/-- The implicit symbols that were passed on the way to a symbol, without another one between. -/
def Chain (g : Graph) (part : Finset Ref) (passed : Finset Ref) (ref : Ref) : Prop :=
  passed ⊆ g.implicits part ∧ ∀ r ∈ passed, Relation.TransGen g.LeadsTo r ref

theorem Chain.empty (ref : Ref) : Chain g part ∅ ref := ⟨Finset.empty_subset _, by simp⟩

/-- One more implicit symbol is not one of those passed before. -/
theorem Chain.pass {passed : Finset Ref} {ref target : Ref} (h : Chain g part passed ref)
    (hacyclic : g.IsAcyclic part) (href : ref ∈ part) (hleads : g.LeadsTo ref target) :
    Chain g part (insert ref passed) target ∧
      passed.card < (g.implicits part).card ∧ (insert ref passed).card = passed.card + 1 := by
  -- It would be in a circle otherwise.
  have hfresh : ref ∉ passed := fun hmem => hacyclic ref href (h.2 ref hmem)
  have himplicit : ref ∈ g.implicits part := by
    refine Finset.mem_filter.mpr ⟨href, ?_⟩
    rw [hleads]
    rfl
  have hsubset : insert ref passed ⊆ g.implicits part := Finset.insert_subset himplicit h.1
  have hcard := Finset.card_insert_of_notMem hfresh
  refine ⟨⟨hsubset, ?_⟩, ?_, hcard⟩
  · intro r hr
    rcases Finset.mem_insert.mp hr with rfl | hr
    · exact .single hleads
    · exact (h.2 r hr).tail hleads
  · have hle := Finset.card_le_card hsubset
    omega

/-- The limit that is enough for a symbol, where so many matches can still be put in progress and
    so many implicit symbols can still be passed. -/
def enoughLimit (g : Graph) (part : Finset Ref) (free passable : Nat) : Nat :=
  free * ((g.implicits part).card + 1) + passable + 1

/-- With one more match in progress, one nesting less is enough, whatever was passed before. -/
theorem enoughLimit_enter {keys count passable limit : Nat} (hcount : count + 1 ≤ keys)
    (h : enoughLimit g part (keys - count) passable ≤ limit + 1) :
    enoughLimit g part (keys - (count + 1)) (g.implicits part).card ≤ limit := by
  obtain ⟨free, hfree⟩ := Nat.exists_eq_add_of_le hcount
  have hbefore : keys - count = free + 1 := by omega
  have hafter : keys - (count + 1) = free := by omega
  unfold enoughLimit at h ⊢
  rw [hbefore, Nat.succ_mul] at h
  rw [hafter]
  omega

/-- With one more implicit symbol passed, one nesting less is enough. -/
theorem enoughLimit_pass {free passed limit : Nat} (hpassed : passed < (g.implicits part).card)
    (h : enoughLimit g part free ((g.implicits part).card - passed) ≤ limit + 1) :
    enoughLimit g part free ((g.implicits part).card - (passed + 1)) ≤ limit := by
  unfold enoughLimit at h ⊢
  omega

/-- The limit is enough for a symbol inside these matches in progress: there are no circles of
    implicit symbols, and it allows for all that can still be entered and passed. -/
structure Suffices (g : Graph) (part : Finset Ref) (text : List Char) (low : Nat) (inner : Guard)
    (ref : Ref) (limit : Nat) : Prop where
  acyclic : g.IsAcyclic part
  inside : Inside g part text low inner
  passed : ∃ passed, Chain g part passed ref ∧
    enoughLimit g part ((g.keys part low text.length).card - inner.length)
      ((g.implicits part).card - passed.card) ≤ limit

namespace Suffices

variable {inner : Guard} {limit p : Nat} {ref : Ref}

theorem not_zero (h : Suffices g part text low inner ref 0) : False := by
  obtain ⟨passed, -, hle⟩ := h.passed
  exact Nat.not_succ_le_zero _ hle

/-- A symbol right inside one that was entered: there is room for one match less, and no symbol was
    passed yet. -/
theorem enter {ref' : Ref} (h : Suffices g part text low inner ref (limit + 1)) (href : ref ∈ part)
    (hguarded : (g.symbol ref).shape.isGuarded = true) (hlow : low ≤ p) (hp : p ≤ text.length)
    (hfresh : ((g.symbol ref).name, (p : Int)) ∉ inner) :
    Suffices g part text low (((g.symbol ref).name, (p : Int)) :: inner) ref' limit := by
  obtain ⟨passed, -, hle⟩ := h.passed
  have hinside := h.inside.cons (Graph.mem_keys href hguarded hlow hp) hfresh
  exact ⟨h.acyclic, hinside, ∅, .empty ref', enoughLimit_enter hinside.length_le hle⟩

/-- What an implicit symbol refers to: the matches in progress are the same, and one symbol more was
    passed. -/
theorem pass {target : Ref} (h : Suffices g part text low inner ref (limit + 1))
    (href : ref ∈ part) (hleads : g.LeadsTo ref target) :
    Suffices g part text low inner target limit := by
  obtain ⟨passed, hchain, hle⟩ := h.passed
  obtain ⟨hchain', hpassed, hcard⟩ := hchain.pass h.acyclic href hleads
  exact ⟨h.acyclic, h.inside, _, hchain', hcard ▸ enoughLimit_pass hpassed hle⟩

/-- The bound is for a match from the beginning of the text on, so it is enough for any call. -/
theorem of_nestingBound (hacyclic : g.IsAcyclic part) (hp : p ≤ text.length)
    (hlimit : g.nestingBound part text.length ≤ limit) : Suffices g part text p [] ref limit := by
  refine ⟨hacyclic, .nil, ∅, .empty ref, Nat.le_trans ?_ hlimit⟩
  have hkeys : (g.keys part p text.length).card ≤
      (g.guardedNames part).card * (text.length + 1) := by
    rw [Graph.card_keys hp]
    exact Nat.mul_le_mul_left _ (by omega)
  have hfree := Nat.mul_le_mul_right ((g.implicits part).card + 1) hkeys
  rw [List.length_nil, Finset.card_empty, Nat.sub_zero, Nat.sub_zero]
  unfold enoughLimit Graph.nestingBound
  omega

end Suffices

/-- In a closed part a match stays by the rules, never has more matches in progress than there is
    room for, and gets nested too deeply only under a limit that is not enough. -/
theorem matchWithRoom_obeys (hclosed : g.IsClosed part) {deep : Prop} {outer inner : Guard}
    {limit p : Nat} {ref skip : Ref} {s : MatchState} (hinner : Inside g part text low inner)
    (href : ref ∈ part ∨ ref = .zeroLength) (hskip : skip ∈ part ∨ skip = .zeroLength)
    (hlow : low ≤ p) (hs : Stands text (inner ++ outer) p s)
    (hlimit : ¬ deep → Suffices g part text low inner ref limit) :
    Ends (matchWithRoom g (outer.length + (g.keys part low text.length).card) limit ref skip) s
      (Answered (Yields (α := α) g text ref skip (inner ++ outer) p) text p s)
      (Failed (IsFatal g (fun r => r ∈ part ∨ r = .zeroLength) deep) (inner ++ outer)) := by
  induction limit generalizing inner p ref skip s with
  | zero =>
    -- No limit is enough at zero, so being nested too deeply is allowed.
    have hdeep : deep := Classical.byContradiction fun hdeep => (hlimit hdeep).not_zero
    exact .of_error rfl ⟨.nestedTooDeeply hdeep, hs.guard_eq⟩
  | succ limit ih =>
    -- The zero-length symbol alone need not be in the part, and it refers to no other symbol.
    have hpart : ref ∈ part ∨ (g.symbol ref).shape = .zeroLength := by
      rcases href with href | rfl
      · exact .inl href
      · exact .inr rfl
    have hrefs : ∀ r ∈ (g.symbol ref).shape.refs, r ∈ part ∨ r = .zeroLength := by
      intro r hr
      rcases hpart with hmem | hshape
      · exact .inl (hclosed ref hmem r hr)
      · rw [hshape] at hr
        cases hr
    have hpresent : (g.symbol ref).shape.isGuarded = true → ref ∈ part := by
      intro hguarded
      refine hpart.resolve_right fun hshape => ?_
      rw [hshape] at hguarded
      cases hguarded
    have hfresh : ((g.symbol ref).name, (p : Int)) ∉ inner ++ outer →
        ((g.symbol ref).name, (p : Int)) ∉ inner :=
      fun hmem h => hmem (List.mem_append_left outer h)
    -- A fresh match is one more in progress, so there was room for it.
    have hmore : (g.symbol ref).shape.isGuarded = true →
        ((g.symbol ref).name, (p : Int)) ∉ inner ++ outer →
        Inside g part text low (((g.symbol ref).name, (p : Int)) :: inner) :=
      fun hguarded hmem => hinner.cons
        (Graph.mem_keys (hpresent hguarded) hguarded hlow hs.reads.le_length) (hfresh hmem)
    have hroom : matchWithRoom g (outer.length + (g.keys part low text.length).card) (limit + 1)
          ref skip s =
        matchStep g (matchWithRoom (α := α) g
          (outer.length + (g.keys part low text.length).card) limit) ref skip s := by
      rw [matchWithRoom, withRoom, if_neg]
      rintro ⟨hguarded, hfull, hmem⟩
      rw [hs.guard_eq, hs.reads.position] at hmem
      have hlength := (hmore hguarded hmem).length_le
      rw [hs.guard_eq, List.length_append] at hfull
      rw [List.length_cons] at hlength
      omega
    refine .congr hroom (matchStep_obeys IsFatal.ne_exhausted ?_ ?_ ?_ ?_ (.inr rfl) hskip hrefs hs)
    · exact .neverDefined href
    · exact .noAttribute href
    · intro hguarded hmem ref' skip' href' hskip' q s' hq hs'
      exact ih (hmore hguarded hmem) href' hskip' (Nat.le_trans hlow hq) hs' fun hdeep =>
        (hlimit hdeep).enter (hpresent hguarded) hguarded hlow hs.reads.le_length (hfresh hmem)
    · intro target hshape
      have href : ref ∈ part := hpart.resolve_right fun hzero => by
        rw [hzero] at hshape
        cases hshape
      have htarget : target ∈ part := hclosed ref href target (Graph.target_mem_refs hshape)
      exact ih hinner (.inl htarget) hskip hlow hs fun hdeep => (hlimit hdeep).pass href hshape

section Calls

variable {guard : Guard} {p limit : Nat} {ref skip : Ref} {s : MatchState}

/-- The room for the matches that a call can put in progress. -/
def roomFor (g : Graph) (part : Finset Ref) (text : List Char) (guard : Guard) (p : Nat) : Nat :=
  guard.length + (g.guardedNames part).card * (text.length - p + 1)

theorem matchWithRoom_answers (hclosed : g.IsClosed part) (hacyclic : g.IsAcyclic part)
    (href : ref ∈ part) (hskip : skip ∈ part) (hs : Stands text guard p s) (deep : Prop)
    (limit : Nat) (hlimit : ¬ deep → g.nestingBound part text.length ≤ limit) :
    Ends (matchWithRoom g (roomFor g part text guard p) limit ref skip) s
      (Answered (Yields (α := α) g text ref skip guard p) text p s)
      (Failed (IsFatal g (fun r => r ∈ part ∨ r = .zeroLength) deep) guard) := by
  have hlength := hs.reads.le_length
  have hcard : (g.keys part p text.length).card =
      (g.guardedNames part).card * (text.length - p + 1) := Graph.card_keys hlength
  rw [roomFor, ← hcard]
  exact matchWithRoom_obeys hclosed .nil (.inl href) (.inl hskip) (Nat.le_refl p) hs fun hdeep =>
    .of_nestingBound hacyclic hlength (hlimit hdeep)

/-- The room is enough, whatever the limit is. -/
theorem matchWithRoom_eq (hclosed : g.IsClosed part) (hacyclic : g.IsAcyclic part)
    (href : ref ∈ part) (hskip : skip ∈ part) (hs : Stands text guard p s) (limit : Nat) :
    matchWithRoom (α := α) g (roomFor g part text guard p) limit ref skip s =
      matchWithin g limit ref skip s := by
  rcases matchWithRoom_agrees g (roomFor g part text guard p) limit ref skip s with
    heq | ⟨s', herror⟩
  · exact heq
  · have hends := matchWithRoom_answers (α := α) hclosed hacyclic href hskip hs True limit (by simp)
    rw [Ends, herror] at hends
    cases hends.1

/-- Under a limit that is high enough, a match is not nested too deeply. -/
theorem matchWithin_answers (hclosed : g.IsClosed part) (hacyclic : g.IsAcyclic part)
    (href : ref ∈ part) (hskip : skip ∈ part) (hs : Stands text guard p s)
    (hlimit : g.nestingBound part text.length ≤ limit) :
    Ends (matchWithin g limit ref skip) s
      (Answered (Yields (α := α) g text ref skip guard p) text p s)
      (Failed (IsFatal g (fun r => r ∈ part ∨ r = .zeroLength) False) guard) :=
  .congr (matchWithRoom_eq hclosed hacyclic href hskip hs limit).symm
    (matchWithRoom_answers hclosed hacyclic href hskip hs False limit fun _ => hlimit)

theorem not_nestedTooDeeply (hclosed : g.IsClosed part) (hacyclic : g.IsAcyclic part)
    (href : ref ∈ part) (hskip : skip ∈ part) (hs : Stands text guard p s)
    (hlimit : g.nestingBound part text.length ≤ limit) (s' : MatchState) :
    matchWithin (α := α) g limit ref skip s ≠ .error .nestedTooDeeply s' := by
  intro herror
  have hends := matchWithin_answers (α := α) hclosed hacyclic href hskip hs hlimit
  rw [Ends, herror] at hends
  cases hends.1 with
  | nestedTooDeeply h => exact h

/-- Where everything in the part is a symbol with a rule, the rules have an answer. -/
theorem Yields.exists_answer (hclosed : g.IsClosed part) (hacyclic : g.IsAcyclic part)
    (hdefined : ∀ r ∈ part, (g.symbol r).shape ≠ .implicit none ∧ (g.symbol r).shape ≠ .foreign)
    (href : ref ∈ part) (hskip : skip ∈ part) (hp : p ≤ text.length) (guard : Guard) :
    ∃ answer reach, Yields (α := α) g text ref skip guard p answer reach := by
  have hs : Stands text guard p (.reading text guard p) := .reading hp
  have hends := matchWithin_answers (α := α) hclosed hacyclic href hskip hs (Nat.le_refl _)
  rcases hends.elim with ⟨_, _, -, answer, reach, hrule, -⟩ | ⟨e, s', -, hfatal, -⟩
  · exact ⟨answer, reach, hrule⟩
  · cases hfatal with
    -- All symbols that can be asked for are in the part, and have rules there.
    | @neverDefined r hmem hshape =>
      rcases hmem with hmem | rfl
      · exact absurd hshape (hdefined r hmem).1
      · cases hshape
    | @noAttribute r hmem hshape =>
      rcases hmem with hmem | rfl
      · exact absurd hshape (hdefined r hmem).2
      · cases hshape
    | nestedTooDeeply h => exact h.elim

end Calls

/-! ### Repetitions -/

/-- A repetition as a loop without a bound. From `s` it goes through so many rounds, of which so
    many cover text, and comes to the result. -/
inductive LoopRuns (ask : Ask α) (skip inner : Ref) :
    (stop : Int) → (afterEmpty : Bool) → (found : List (Token α)) → MatchState →
      (rounds covering : Nat) → EStateM.Result Error MatchState (Int × List (Token α)) → Prop
  | skipError {stop : Int} {afterEmpty : Bool} {found : List (Token α)} {s s' : MatchState}
      {e : Error} (skipped : skipBefore ask skip found s = .error e s') :
      LoopRuns ask skip inner stop afterEmpty found s 1 0 (.error e s')
  | innerError {stop : Int} {afterEmpty : Bool} {found : List (Token α)} {s s₁ s' : MatchState}
      {e : Error} (skipped : skipBefore ask skip found s = .ok () s₁)
      (failed : ask inner skip s₁ = .error e s') :
      LoopRuns ask skip inner stop afterEmpty found s 1 0 (.error e s')
  | fails {stop : Int} {afterEmpty : Bool} {found : List (Token α)} {s s₁ s' : MatchState}
      (skipped : skipBefore ask skip found s = .ok () s₁)
      (failed : ask inner skip s₁ = .ok none s') :
      LoopRuns ask skip inner stop afterEmpty found s 1 0 (.ok (stop, found) s')
  | secondEmpty {stop : Int} {found : List (Token α)} {s s₁ s' : MatchState} {token : Token α}
      (skipped : skipBefore ask skip found s = .ok () s₁)
      (matched : ask inner skip s₁ = .ok (some token) s') (empty : token.isEmpty = true) :
      LoopRuns ask skip inner stop true found s 1 0 (.ok (stop, found) s')
  | empty {stop : Int} {found : List (Token α)} {s s₁ s₂ : MatchState} {token : Token α}
      {rounds covering : Nat} {result : EStateM.Result Error MatchState (Int × List (Token α))}
      (skipped : skipBefore ask skip found s = .ok () s₁)
      (matched : ask inner skip s₁ = .ok (some token) s₂) (empty : token.isEmpty = true)
      (later : LoopRuns ask skip inner stop true (token :: found) s₂ rounds covering result) :
      LoopRuns ask skip inner stop false found s (rounds + 1) covering result
  | covers {stop : Int} {afterEmpty : Bool} {found : List (Token α)} {s s₁ s₂ : MatchState}
      {token : Token α} {rounds covering : Nat}
      {result : EStateM.Result Error MatchState (Int × List (Token α))}
      (skipped : skipBefore ask skip found s = .ok () s₁)
      (matched : ask inner skip s₁ = .ok (some token) s₂) (covers : token.isEmpty = false)
      (later : LoopRuns ask skip inner s₂.stream.position false (token :: found) s₂ rounds covering
        result) :
      LoopRuns ask skip inner stop afterEmpty found s (rounds + 1) (covering + 1) result

/-- No two rounds without text follow each other, and one more ends the loop. -/
theorem LoopRuns.rounds_le {ask : Ask α} {skip inner : Ref} {stop : Int} {afterEmpty : Bool}
    {found : List (Token α)} {s : MatchState} {rounds covering : Nat}
    {result : EStateM.Result Error MatchState (Int × List (Token α))}
    (h : LoopRuns ask skip inner stop afterEmpty found s rounds covering result) :
    rounds ≤ 2 * covering + (if afterEmpty then 1 else 2) := by
  induction h with
  | skipError | innerError | fails => split <;> omega
  | secondEmpty => simp
  | empty _ _ _ _ ih =>
    simp only [if_true, Bool.false_eq_true, if_false] at ih ⊢
    omega
  | covers _ _ _ _ ih =>
    simp only [Bool.false_eq_true, if_false] at ih
    split <;> omega

/-- As many rounds as a repetition allows for are as good as a loop without a bound. -/
theorem matchRounds_loopRuns {part : Ref → Prop} {fatal : Error → Prop} {guard : Guard}
    {ask : Ask α} {skip inner : Ref} {rounds p : Nat} {afterEmpty : Bool} {s : MatchState}
    (hask : Obeys g text part fatal guard low ask) (hzero : part .zeroLength) (hskip : part skip)
    (hinner : part inner) (stop : Nat) (found : List (Token α))
    (hrounds : EnoughRounds text p afterEmpty rounds) (hs : Stands text guard p s)
    (hp : low ≤ p) :
    ∃ count covering, LoopRuns ask skip inner stop afterEmpty found s count covering
      (matchRounds ask skip inner rounds stop afterEmpty found s) := by
  induction rounds generalizing s p stop afterEmpty found with
  | zero => exact absurd hrounds.pos (Nat.lt_irrefl 0)
  | succ rounds ih =>
    rcases (skipBefore_obeys hask hzero hskip hs hp found).elim with
      ⟨_, s₁, hrun₁, q, reach₁, hskipped, hpq, hlands₁⟩ | ⟨e, s₁, hrun₁, -⟩
    · rcases (hask inner skip hinner hskip q s₁ (Nat.le_trans hp hpq) (hlands₁.stands hs)).elim with
        ⟨_, s₂, hrun₂, answer, reach₂, hyields, rfl, hlands₂⟩ | ⟨e, s₂, hrun₂, -⟩
      · cases answer with
        | none =>
          rw [matchRounds_fails hrun₁ hrun₂]
          exact ⟨1, 0, .fails hrun₁ hrun₂⟩
        | some found' =>
          obtain ⟨token, r⟩ := found'
          obtain ⟨hqr, -, hcovers⟩ := hyields.advances
          have hlands : Lands text s₁ s₂ r reach₂ := hlands₂
          have hs₂ : Stands text guard r s₂ := hlands.stands (hlands₁.stands hs)
          cases hempty : token.isEmpty with
          | false =>
            rw [matchRounds_covers hrun₁ hrun₂ hs₂.reads.position hempty]
            -- A round that covers text takes a character off what is left.
            have henough : EnoughRounds text r false rounds :=
              hrounds.covers (Nat.lt_of_le_of_lt hpq (hcovers hempty)) hs₂.reads.le_length
            obtain ⟨count, covering, hlater⟩ := ih r (token :: found) henough hs₂ (by omega)
            rw [← hs₂.reads.position] at hlater ⊢
            exact ⟨count + 1, covering + 1, .covers hrun₁ hrun₂ hempty hlater⟩
          | true =>
            cases afterEmpty with
            | true =>
              rw [matchRounds_secondEmpty hrun₁ hrun₂ hempty]
              exact ⟨1, 0, .secondEmpty hrun₁ hrun₂ hempty⟩
            | false =>
              rw [matchRounds_empty hrun₁ hrun₂ hempty]
              have henough : EnoughRounds text r true rounds :=
                hrounds.empty (Nat.le_trans hpq hqr)
              obtain ⟨count, covering, hlater⟩ := ih stop (token :: found) henough hs₂ (by omega)
              exact ⟨count + 1, covering, .empty hrun₁ hrun₂ hempty hlater⟩
      · rw [matchRounds, Step.bind_ok hrun₁, Step.bind_error hrun₂]
        exact ⟨1, 0, .innerError hrun₁ hrun₂⟩
    · rw [matchRounds, Step.bind_error hrun₁]
      exact ⟨1, 0, .skipError hrun₁⟩

/-- Matching in a closed part of a graph without circles of implicit symbols comes to an end. From
    a limit on that depends on the part and the length of the text only, the result is always the
    same, and not that the match is nested too deeply; the matches that it puts in progress are
    never more than names and places; and each repetition on the way is a loop that ends on its
    own, with at most two rounds more than twice those that cover text. -/
theorem matchWithin_terminates {p : Nat} {ref skip : Ref} {s : MatchState}
    (hclosed : g.IsClosed part) (hacyclic : g.IsAcyclic part) (href : ref ∈ part)
    (hskip : skip ∈ part) (hs : s.stream.Reads text p) :
    (∀ limit, g.nestingBound part text.length ≤ limit →
      matchWithin (α := α) g limit ref skip s =
          matchWithin g (g.nestingBound part text.length) ref skip s ∧
        ∀ s', matchWithin (α := α) g limit ref skip s ≠ .error .nestedTooDeeply s') ∧
    (∀ limit,
      matchWithRoom (α := α) g
          (s.guard.length + (g.guardedNames part).card * (text.length - p + 1)) limit ref skip s =
        matchWithin g limit ref skip s ∧
      ∀ s', matchWithin (α := α) g limit ref skip s ≠ .error .overflow s') ∧
    ∀ limit inner skip' (p' : Nat) (s' : MatchState), s'.stream.Reads text p' →
      ∃ rounds covering,
      LoopRuns (matchWithin (α := α) g limit) skip' inner p' false [] s' rounds covering
          (matchRounds (matchWithin g limit) skip' inner (2 * s'.stream.remaining + 2) p' false []
            s') ∧
        rounds ≤ 2 * covering + 2 := by
  have hs : Stands text s.guard p s := ⟨hs, rfl⟩
  refine ⟨fun limit hlimit => ⟨?_, not_nestedTooDeeply hclosed hacyclic href hskip hs hlimit⟩,
    fun limit => ⟨matchWithRoom_eq hclosed hacyclic href hskip hs limit, ?_⟩, ?_⟩
  · rcases matchWithin_agrees (α := α) g hlimit ref skip s with heq | ⟨s', herror⟩
    · exact heq.symm
    · exact absurd herror
        (not_nestedTooDeeply hclosed hacyclic href hskip hs (Nat.le_refl _) s')
  · intro s' herror
    have hends := matchWithin_obeys (α := α) g text limit s.guard ref skip trivial trivial p s
      (Nat.zero_le p) hs
    rw [Ends, herror] at hends
    cases hends.1
  · intro limit inner skip' p' s' hs'
    have hs' : Stands text s'.guard p' s' := ⟨hs', rfl⟩
    obtain ⟨rounds, covering, hruns⟩ := matchRounds_loopRuns
      (matchWithin_obeys (α := α) g text limit s'.guard) trivial trivial trivial p' []
      (enoughRounds_remaining hs') hs' (Nat.zero_le p')
    exact ⟨rounds, covering, hruns, hruns.rounds_le⟩

/-- A list is a list and an item, or an item: left recursion, through a forward reference. -/
def leftRecursive : Graph where
  nodes := #[⟨.given "list", .junction [.node 1, .node 2]⟩,
    ⟨.given "longer", .sequence [.node 3, .node 2]⟩, ⟨.given "item", .character 'x'⟩,
    ⟨.given "list", .implicit (some (.node 0))⟩, ⟨.given "blanks", .star (.node 5)⟩,
    ⟨.generated 5, .multiple (.node 6)⟩, ⟨.given "blank", .character ' '⟩]

/-- The symbols of the list and of what is skipped. -/
def listSymbols : Finset Ref :=
  {.node 0, .node 1, .node 2, .node 3, .node 4, .node 5, .node 6}

theorem leftRecursive_isClosed : leftRecursive.IsClosed listSymbols := by
  unfold Graph.IsClosed
  decide

theorem leftRecursive_isAcyclic : leftRecursive.IsAcyclic listSymbols := by
  refine Graph.isAcyclic_of_rank (fun ref => if ref = .node 3 then 1 else 0) ?_
  intro ref target hleads
  unfold Graph.LeadsTo at hleads
  match ref with
  | .node 3 =>
    cases hleads
    decide
  | .zeroLength | .foreign | .node 0 | .node 1 | .node 2 | .node 4 | .node 5 | .node 6 =>
    cases hleads
  | .node (index + 7) => simp [leftRecursive, Graph.symbol, Symbol.zeroLength] at hleads

theorem matchWithin_terminates_leftRecursive :
    leftRecursive.nestingBound listSymbols 3 = 50 ∧
      ∀ limit, 50 ≤ limit →
        matchWithin (α := Unit) leftRecursive limit (.node 0) (.node 4)
            (.ofStream (.ofString "x x")) =
          matchWithin leftRecursive 50 (.node 0) (.node 4) (.ofStream (.ofString "x x")) := by
  have hbound : leftRecursive.nestingBound listSymbols "x x".toList.length = 50 := by decide
  refine ⟨hbound, fun limit hlimit => ?_⟩
  have hs : (MatchState.ofStream (.ofString "x x")).stream.Reads "x x".toList 0 :=
    Stream.reads_ofString "x x"
  have href : .node 0 ∈ listSymbols := by decide
  have hskip : .node 4 ∈ listSymbols := by decide
  have hresult := (matchWithin_terminates (α := Unit) leftRecursive_isClosed leftRecursive_isAcyclic
    href hskip hs).1 limit (by omega)
  rw [hbound] at hresult
  exact hresult.1

end GrammarEngine
