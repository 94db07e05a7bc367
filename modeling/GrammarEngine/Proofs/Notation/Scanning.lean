import GrammarEngine.Proofs.Notation.Between
import GrammarEngine.Proofs.Notation.Understanding

namespace GrammarEngine.Notation

/-!
# A scanner for white space and comments

What the notation skips can be computed without any matching: piece after piece is taken off the
text, for as long as there is one.

* `afterPiece`, `scan` — the text behind one piece, and behind all of them;
* `IsPiece` — what a piece is: white space, a comment up to the end of the line, or a comment up to
  the first `*/`;
* `reads_piece`, `piece_fails`, `run_scan` — the skip rule takes the same pieces;
* `skipRule_scans` — it stops where the scanner stops.
-/

/-! ### The scanner -/

/-- The text behind the white space or the comment that it begins with. -/
def afterPiece : List Char → Option (List Char)
  | '/' :: '/' :: s => some (s.dropWhile (· ≠ '\n'))
  | '/' :: '*' :: s => afterComment s
  | c :: s => if c ≤ ' ' then some (s.dropWhile (· ≤ ' ')) else none
  | [] => none

/-- A piece of what is skipped, and the text behind it. -/
inductive IsPiece : (piece rest : List Char) → Prop
  | white {cs rest : List Char} (blank : ∀ c ∈ cs, c ≤ ' ') (ne : cs ≠ [])
      (ends : ∀ c ∈ rest.head?, ¬ c ≤ ' ') : IsPiece cs rest
  | line {body rest : List Char} (closed : ∀ c ∈ body, c ≠ '\n')
      (ends : ∀ c ∈ rest.head?, c = '\n') : IsPiece ('/' :: '/' :: body) rest
  | comment {body rest : List Char} (closed : ¬ ['*', '/'] <:+: body ++ ['*']) :
      IsPiece ('/' :: '*' :: (body ++ ['*', '/'])) rest

theorem IsPiece.length_pos {piece rest : List Char} (h : IsPiece piece rest) :
    0 < piece.length := by
  cases h with
  | white blank ne ends => exact List.length_pos_of_ne_nil ne
  | line closed ends | comment closed => exact Nat.succ_pos _

/-- What the scanner takes off is a piece. -/
theorem isPiece_of_afterPiece {s rest : List Char} (h : afterPiece s = some rest) :
    ∃ piece, s = piece ++ rest ∧ IsPiece piece rest := by
  unfold afterPiece at h
  split at h
  · rename_i s
    cases h
    refine ⟨'/' :: '/' :: s.takeWhile (· ≠ '\n'), ?_, .line (fun c hc => ?_) fun c hc => ?_⟩
    · rw [List.cons_append, List.cons_append, List.takeWhile_append_dropWhile]
    · simpa using List.mem_takeWhile_imp hc
    · simpa using head?_dropWhile hc
  · obtain ⟨body, rfl, hclosed⟩ := (afterComment_spec _).1 rest h
    exact ⟨_, by simp, .comment hclosed⟩
  · rename_i c s _ _
    split at h
    · rename_i hblank
      cases h
      refine ⟨c :: s.takeWhile (· ≤ ' '), ?_, .white ?_ (List.cons_ne_nil _ _)
        fun c' hc' => by simpa using head?_dropWhile hc'⟩
      · rw [List.cons_append, List.takeWhile_append_dropWhile]
      · exact List.forall_mem_cons.mpr
          ⟨hblank, fun c' hc' => by simpa using List.mem_takeWhile_imp hc'⟩
    · cases h
  · cases h

theorem length_afterPiece {s rest : List Char} (h : afterPiece s = some rest) :
    rest.length < s.length := by
  obtain ⟨piece, rfl, hpiece⟩ := isPiece_of_afterPiece h
  have hpos := hpiece.length_pos
  rw [List.length_append]
  omega

/-- The text behind all white space and all comments that it begins with. -/
def scan (s : List Char) : List Char :=
  match _h : afterPiece s with
  | some rest => scan rest
  | none => s
termination_by s.length
decreasing_by exact length_afterPiece ‹_›

theorem scan_of_some {s rest : List Char} (h : afterPiece s = some rest) : scan s = scan rest := by
  rw [scan]
  split <;> simp_all

theorem scan_of_none {s : List Char} (h : afterPiece s = none) : scan s = s := by
  rw [scan]
  split <;> simp_all

theorem length_scan_le (s : List Char) : (scan s).length ≤ s.length := by
  induction hlength : s.length using Nat.strong_induction_on generalizing s with
  | _ n ih =>
    subst hlength
    cases hafter : afterPiece s with
    | none => rw [scan_of_none hafter]
    | some rest =>
      have hlt := length_afterPiece hafter
      rw [scan_of_some hafter]
      exact Nat.le_trans (ih rest.length hlt rest rfl) (Nat.le_of_lt hlt)

/-- The scanner takes something off, unless it takes nothing off at once. -/
theorem scan_eq_self_iff {s : List Char} : scan s = s ↔ afterPiece s = none := by
  constructor
  · intro heq
    cases hafter : afterPiece s with
    | none => rfl
    | some rest =>
      have hlt := length_afterPiece hafter
      have hle := length_scan_le rest
      rw [← scan_of_some hafter, heq] at hle
      omega
  · exact scan_of_none

theorem afterComment_open {s : List Char} (h : ¬ ['*', '/'] <:+: s) : afterComment s = none := by
  rw [Option.eq_none_iff_forall_ne_some]
  intro rest hafter
  obtain ⟨body, rfl, -⟩ := (afterComment_spec s).1 rest hafter
  exact h ⟨body, rest, by simp⟩

theorem afterComment_closed {body : List Char} (rest : List Char)
    (h : ¬ ['*', '/'] <:+: body ++ ['*']) :
    afterComment (body ++ '*' :: '/' :: rest) = some rest := by
  induction body with
  | nil => rfl
  | cons c body ih =>
    have hlater : ¬ ['*', '/'] <:+: body ++ ['*'] := fun hwithin =>
      h (hwithin.trans (List.suffix_cons c _).isInfix)
    rw [List.cons_append, afterComment, if_neg, ih hlater]
    -- A slash right behind the asterisk would have ended the comment.
    rintro ⟨rfl, hhead⟩
    cases body with
    | nil => cases hhead
    | cons c' body =>
      cases hhead
      exact h ⟨[], body ++ ['*'], rfl⟩

/-! ### The skip rule -/

variable {text : List Char} {p : Nat}

/-- Each piece is skipped by itself. -/
theorem reads_piece {piece rest : List Char} (h : IsPiece piece rest)
    (hdrop : text.drop p = piece ++ rest) :
    ∃ t, Reads text (.node 81) .zeroLength p (some (t, p + piece.length)) ∧ t.isEmpty = false := by
  cases h with
  | white blank ne ends => exact blank_white blank ne ends hdrop
  | line closed ends => exact blank_line closed ends hdrop
  | @comment body rest closed =>
    have hbody : text.drop p = '/' :: '*' :: (body ++ '*' :: '/' :: rest) :=
      hdrop.trans (by simp)
    have hcomment := blank_comment closed hbody
    simpa using hcomment

/-- Where the scanner takes nothing off, nothing is skipped. -/
theorem piece_fails (h : afterPiece (text.drop p) = none) :
    Reads text (.node 81) .zeroLength p none := by
  generalize hdrop : text.drop p = s at h
  unfold afterPiece at h
  split at h
  · cases h
  · rename_i s
    refine slash_fails hdrop ⟨by simp, fun s' heq => ?_, fun s' heq => ?_⟩ (by simp)
    · cases heq
      exact (afterComment_spec s).2 h
    · cases heq
  · rename_i c s hline hcomment
    split at h
    · cases h
    · rename_i hblank
      by_cases hslash : c = '/'
      · subst hslash
        refine slash_fails hdrop ⟨by simp, fun s' heq => ?_, fun s' heq => ?_⟩ fun hhead => ?_
        · exact (hcomment s' rfl (List.tail_eq_of_cons_eq heq)).elim
        · exact (hline s' rfl (List.tail_eq_of_cons_eq heq)).elim
        · exact hline s.tail rfl (exists_tail hhead)
      · refine blank_fails ?_
        rw [hdrop]
        rintro _ ⟨⟩
        exact ⟨hblank, hslash⟩
  · exact blank_fails (by simp [hdrop, Visible])

/-- One piece after the other is skipped, as long as the scanner takes one off. -/
theorem run_scan (text : List Char) (p : Nat) :
    ∃ (ts : List (Token Value)) (q : Nat),
      RunGives rank ruleSet.graph text (.node 81) p (q, ts) ∧ text.drop q = scan (text.drop p) ∧
      (ts = [] ↔ afterPiece (text.drop p) = none) ∧ (ts = [] → q = p) := by
  induction hlength : (text.drop p).length using Nat.strong_induction_on generalizing p with
  | _ n ih =>
    subst hlength
    cases hafter : afterPiece (text.drop p) with
    | none =>
      exact ⟨[], p, .stops (piece_fails hafter), (scan_of_none hafter).symm, by simp⟩
    | some rest =>
      obtain ⟨piece, hdrop, hpiece⟩ := isPiece_of_afterPiece hafter
      obtain ⟨t, hgives, hcovers⟩ := reads_piece hpiece hdrop
      have hrest : text.drop (p + piece.length) = rest := drop_of_drop hdrop
      obtain ⟨ts, q, hrun, hscan, -⟩ :=
        ih _ (by rw [hrest]; exact length_afterPiece hafter) (p + piece.length) rfl
      refine ⟨t :: ts, q, .goes hgives hcovers hrun, ?_, by simp⟩
      rw [hscan, hrest, scan_of_some hafter]

/-- What the skip rule gives, by what the scanner leaves. -/
theorem reads_skip (text : List Char) (p : Nat) :
    ∃ answer : Answer Value, Reads text Sym.skip .zeroLength p answer ∧
      text.drop (landing p answer) = scan (text.drop p) ∧
      (answer = none ↔ afterPiece (text.drop p) = none) := by
  obtain ⟨ts, q, hrun, hscan, hempty, hq⟩ := run_scan text p
  cases ts with
  | nil =>
    obtain rfl := hq rfl
    exact ⟨none, hrun.multiple_fails isRanked (symbol_node rfl), hscan, by simp [← hempty]⟩
  | cons t ts =>
    exact ⟨_, hrun.multiple isRanked (symbol_node rfl) (List.cons_ne_nil t ts), hscan,
      by simp [← hempty]⟩

/-- **Skipping is scanning.** Matched at any place in a text, with no match in progress, the skip
    rule of the notation stops where the scanner does, and it fails where the scanner takes
    nothing off. So it never takes a comment that is not closed, and a comment ends with the first
    `*/` in it, however many asterisks come before. -/
theorem skipRule_scans {limit : Nat} {text : List Char} {p : Nat} {s : MatchState}
    (hlimit : 9 ≤ limit) (hs : s.stream.Reads text p) (hguard : s.guard = []) :
    ∃ (token? : Option (Token Value)) (q : Nat) (s' : MatchState),
      consumeWithin grammar.ruleSet.graph limit grammar.skipRule s = .ok token? s' ∧
      s'.stream.Reads text q ∧ s'.stream.saved = s.stream.saved ∧ s'.guard = [] ∧
      text.drop q = scan (text.drop p) ∧
      (token? = none ↔ scan (text.drop p) = text.drop p) ∧ (token? = none → q = p) ∧
      (∀ rest, text.drop p = '/' :: '*' :: rest → ¬ ['*', '/'] <:+: rest → token? = none) ∧
      ∀ body rest, text.drop p = '/' :: '*' :: (body ++ '*' :: '/' :: rest) →
        ¬ ['*', '/'] <:+: body ++ ['*'] → token? ≠ none ∧ text.drop q = scan rest := by
  obtain ⟨answer, hreads, hscan, hnone⟩ := reads_skip text p
  obtain ⟨reach, hyields⟩ := hreads [] clear_nil
  obtain ⟨s', hrun, hlands⟩ := delivers_of_yields (by decide) (.inr rfl) (skip_answers hlimit)
    hs.le_length hyields s ⟨hs, hguard⟩
  have hafter : answer.map Prod.fst = none ↔ afterPiece (text.drop p) = none := by
    rw [Option.map_eq_none_iff, hnone]
  refine ⟨answer.map Prod.fst, landing p answer, s', ?_, hlands.stream.reads, hlands.stream.saved,
    hlands.guard_eq.trans hguard, hscan, ?_, ?_, ?_, ?_⟩
  · rw [skipRule_eq]
    exact hrun
  · rw [hafter, scan_eq_self_iff]
  · intro hfailed
    rw [Option.map_eq_none_iff.mp hfailed]
    rfl
  · intro rest hdrop hopen
    rw [hafter, hdrop]
    exact afterComment_open hopen
  · intro body rest hdrop hclosed
    have hpiece : afterPiece (text.drop p) = some rest := by
      rw [hdrop]
      exact afterComment_closed rest hclosed
    refine ⟨?_, ?_⟩
    · rw [Ne, hafter, hpiece]
      exact Option.some_ne_none rest
    · rw [hscan, scan_of_some hpiece]

theorem skipRule_scans_stars :
    ∃ (token? : Option (Token Value)) (s' : MatchState),
      consumeWithin grammar.ruleSet.graph nestingLimit grammar.skipRule
        (.reading "a /*/ **/b */".toList [] 1) = .ok token? s' ∧
      s'.stream.position = 9 := by
  have hs : (MatchState.reading "a /*/ **/b */".toList [] 1).stream.Reads
      "a /*/ **/b */".toList 1 := (Stands.reading (by decide)).reads
  obtain ⟨token?, q, s', hrun, hreads, -, -, hscan, -⟩ :=
    skipRule_scans (show 9 ≤ nestingLimit by decide) hs rfl
  refine ⟨token?, s', hrun, ?_⟩
  have hwhite : afterPiece ("a /*/ **/b */".toList.drop 1) = some "/*/ **/b */".toList := by
    decide
  have hcomment : afterPiece "/*/ **/b */".toList = some "b */".toList := by decide
  have hnone : afterPiece "b */".toList = none := by decide
  rw [scan_of_some hwhite, scan_of_some hcomment, scan_of_none hnone] at hscan
  have hlength := congrArg List.length hscan
  have hle := hreads.le_length
  rw [hreads.position]
  simp only [List.length_drop] at hlength
  have htext : "a /*/ **/b */".toList.length = 13 := by decide
  have hrest : "b */".toList.length = 4 := by decide
  omega

end GrammarEngine.Notation
