import GrammarEngine.Proofs.Completeness
import GrammarEngine.Proofs.Termination

namespace GrammarEngine

/-!
# What a match does

* `Yields.unique` — the rules say one answer only;
* `matchWithin_implements` — matching a symbol is what the rules say: it finds their answer and no
  other one, and moves the stream to where it ends;
* `matchWithin_transactional` — a match that fails leaves no trace in the state, and no match
  leaves one in the saved positions and the matches in progress.
-/

open Filter

variable {α : Type} {g : Graph} {text : List Char} {ref skip : Ref} {s : MatchState} {p : Nat}

/-- The rules say one answer only. -/
theorem Yields.unique {guard : Guard} {answer answer' : Answer α} {reach reach' : Nat}
    (hp : p ≤ text.length) (h : Yields g text ref skip guard p answer reach)
    (h' : Yields g text ref skip guard p answer' reach') : answer = answer' ∧ reach = reach' := by
  have hs : Stands text guard p (MatchState.reading text guard p) := .reading hp
  -- Under a limit that is high enough for both, one and the same run gives the two answers.
  obtain ⟨limit, hdelivers, hdelivers'⟩ := (h.delivered.and h'.delivered).exists
  obtain ⟨s', hrun, hlands⟩ := hdelivers _ hs
  obtain ⟨s'', hrun', hlands'⟩ := hdelivers' _ hs
  rw [hrun, EStateM.Result.ok.injEq] at hrun'
  obtain ⟨htoken, rfl⟩ := hrun'
  have hreach : max 0 reach = max 0 reach' :=
    hlands.stream.furthest.symm.trans hlands'.stream.furthest
  have hstop : landing p answer = landing p answer' := by
    have hposition := hlands.stream.reads.position.symm.trans hlands'.stream.reads.position
    omega
  refine ⟨?_, by omega⟩
  cases answer with
  | none =>
    cases answer' with
    | none => rfl
    | some found' => cases htoken
  | some found =>
    cases answer' with
    | none => cases htoken
    | some found' => exact congrArg some (Prod.ext (Option.some.inj htoken) hstop)

/-- Matching a symbol is what the rules say. Under any limit, a match that ends has the answer of
    the rules and leaves the stream where that one ends. From some limit on, every answer of the
    rules is found. The rules have no two answers, and where all symbols have rules and references
    do not go in circles, they have one. -/
theorem matchWithin_implements (g : Graph) (ref skip : Ref) (hs : s.stream.Reads text p) :
    (∀ limit,
      Ends (matchWithin (α := α) g limit ref skip) s
        (fun token? s' => ∃ answer reach, Yields g text ref skip s.guard p answer reach ∧
          token? = answer.map Prod.fst ∧ Lands text s s' (landing p answer) reach)
        fun e s' => IsFatal g (fun _ => True) True e ∧ s'.guard = s.guard) ∧
    (∀ (answer : Answer α) reach, Yields g text ref skip s.guard p answer reach →
      ∃ bound, ∀ limit, bound ≤ limit →
        ∃ s', matchWithin g limit ref skip s = .ok (answer.map Prod.fst) s' ∧
          Lands text s s' (landing p answer) reach) ∧
    (∀ (answer answer' : Answer α) reach reach',
      Yields g text ref skip s.guard p answer reach →
      Yields g text ref skip s.guard p answer' reach' → answer = answer' ∧ reach = reach') ∧
    (∀ part : Finset Ref, g.IsClosed part → g.IsAcyclic part →
      (∀ r ∈ part, (g.symbol r).shape ≠ .implicit none ∧ (g.symbol r).shape ≠ .foreign) →
      ref ∈ part → skip ∈ part →
      ∃ (answer : Answer α) (reach : Nat), Yields g text ref skip s.guard p answer reach) := by
  have hstands : Stands text s.guard p s := ⟨hs, rfl⟩
  refine ⟨fun limit => ?_, fun answer reach h => ?_, fun answer answer' reach reach' => ?_, ?_⟩
  · exact matchWithin_obeys g text limit s.guard ref skip trivial trivial p s (Nat.zero_le p)
      hstands
  · obtain ⟨bound, hbound⟩ := eventually_atTop.mp h.delivered
    exact ⟨bound, fun limit hlimit => hbound limit hlimit s hstands⟩
  · exact Yields.unique hs.le_length
  · intro part hclosed hacyclic hdefined href hskip
    exact Yields.exists_answer hclosed hacyclic hdefined href hskip hs.le_length s.guard

/-- A list of one item. -/
def oneItem : Token Unit :=
  .node ⟨.junction, .given "list", "x", 0, 1⟩ [.leaf .character (.given "item") "x" 0 0] none

theorem leftRecursive_yields_oneItem :
    Yields leftRecursive ['x'] (.node 0) (.node 4) [] 0 (some (oneItem, 1)) 0 := by
  -- The longer list asks for a list at the same position, where one is in progress.
  have hlonger : Yields (α := Unit) leftRecursive ['x'] (.node 1) (.node 4) [(.given "list", 0)] 0
      none 0 :=
    .enter rfl (by decide)
      (.sequenceFails (.fails .first (.implicit rfl (.inProgress rfl (by decide)))))
  have hitem : Yields (α := Unit) leftRecursive ['x'] (.node 2) (.node 4) [(.given "list", 0)] 0
      (some (.leaf .character (.given "item") "x" 0 0, 1)) 0 :=
    .enter rfl (by decide) (.leaf rfl)
  exact .enter rfl (by decide)
    (.junction (.failed (by decide) hlonger (.matched (by decide) hitem)))

theorem matchWithin_implements_leftRecursive :
    (∀ answer reach, Yields leftRecursive ['x'] (.node 0) (.node 4) [] 0 answer reach →
      answer = some (oneItem, 1)) ∧
    ∃ bound, ∀ limit, bound ≤ limit →
      ∃ s', matchWithin leftRecursive limit (.node 0) (.node 4) (.ofStream (.ofString "x")) =
          .ok (some oneItem) s' ∧ s'.stream.position = 1 := by
  obtain ⟨-, hfound, hunique, -⟩ :=
    matchWithin_implements (α := Unit) (s := .ofStream (.ofString "x")) leftRecursive (.node 0)
      (.node 4) (Stream.reads_ofString "x")
  constructor
  · intro answer reach h
    exact (hunique answer _ reach 0 h leftRecursive_yields_oneItem).1
  · obtain ⟨bound, hbound⟩ := hfound _ 0 leftRecursive_yields_oneItem
    refine ⟨bound, fun limit hlimit => ?_⟩
    obtain ⟨s', hrun, hlands⟩ := hbound limit hlimit
    exact ⟨s', hrun, hlands.stream.reads.position⟩

/-- A match that fails leaves the position, the saved positions and the matches in progress as they
    were. One that succeeds leaves the last two, and does not go back. One that ends with an error
    leaves the matches in progress. -/
theorem matchWithin_transactional (g : Graph) (limit : Nat) (ref skip : Ref)
    (hs : s.stream.Reads text p) :
    Ends (matchWithin (α := α) g limit ref skip) s
      (fun token? s' => s'.stream.saved = s.stream.saved ∧ s'.guard = s.guard ∧
        s.stream.position ≤ s'.stream.position ∧
        (token? = none → s'.stream.position = s.stream.position))
      fun _ s' => s'.guard = s.guard := by
  have hstands : Stands text s.guard p s := ⟨hs, rfl⟩
  refine (matchWithin_obeys g text limit s.guard ref skip trivial trivial p s (Nat.zero_le p)
    hstands).mono ?_ fun e s' h => h.2
  rintro token? s' ⟨answer, reach, hrule, htoken, hlands⟩
  have hposition := hlands.stream.reads.position
  have hle := hrule.advances.landing_between.1
  refine ⟨hlands.stream.saved, hlands.guard_eq, ?_, fun hnone => ?_⟩
  · rw [hposition, hs.position]
    exact Int.ofNat_le.mpr hle
  · cases answer with
    | none => exact hposition.trans hs.position.symm
    | some found =>
      rw [htoken] at hnone
      cases hnone

/-- In the middle of a text, with a position saved and a match in progress. -/
def amidst : MatchState where
  stream := { Stream.ofString "x x" with position := 1, saved := [0] }
  guard := [(.given "outer", 0)]
  events := []

theorem matchWithin_transactional_amidst :
    ∃ s', matchWithin (α := Unit) leftRecursive 50 (.node 0) (.node 4) amidst = .ok none s' ∧
      s'.stream.saved = [0] ∧ s'.guard = [(.given "outer", 0)] ∧ s'.stream.position = 1 := by
  have hfails : ((matchWithin (α := Unit) leftRecursive 50 (.node 0) (.node 4)).run' amidst).map
      Option.isNone = some true := by
    decide +kernel
  obtain ⟨token?, hrun, hnone⟩ := Option.map_eq_some_iff.mp hfails
  obtain rfl : token? = none := Option.isNone_iff_eq_none.mp hnone
  obtain ⟨s', hrun⟩ := Step.of_run'_some hrun
  have hs : amidst.stream.Reads "x x".toList 1 :=
    ⟨rfl, by decide, (Stream.reads_ofString "x x").spells⟩
  have hends := matchWithin_transactional (α := Unit) leftRecursive 50 (.node 0) (.node 4) hs
  rw [Ends, hrun] at hends
  obtain ⟨hsaved, hguard, -, hposition⟩ := hends
  exact ⟨s', hrun, hsaved, hguard, hposition rfl⟩

end GrammarEngine
