import GrammarEngine.Proofs.Notation.Blanks

namespace GrammarEngine.Notation

/-!
# Gaps at the beginning of a text

A text begins with a gap, which may be empty, and the gap is as long as it can be. So it can be
computed, and with it whether given tokens are in a text.

* `behindGap` — what is left of a text behind its gap;
* `IsStuck` — where no gap goes on;
* `behindGap_spec` — what is left stands behind a gap, where no gap goes on;
* `follows` — are the tokens in the text, with gaps between them?
-/

/-- The text behind the first end of a comment. -/
def afterComment : List Char → Option (List Char)
  | [] => none
  | c :: s =>
    if c = '*' ∧ s.head? = some '/' then some s.tail else afterComment s

/-- The text behind the first line feed. -/
def afterLine : List Char → Option (List Char)
  | [] => none
  | c :: s => if c = '\n' then some s else afterLine s

theorem afterComment_spec (s : List Char) :
    (∀ rest, afterComment s = some rest → ∃ body, s = body ++ '*' :: '/' :: rest ∧
      ¬ ['*', '/'] <:+: body ++ ['*']) ∧
    (afterComment s = none → ¬ ['*', '/'] <:+: s) := by
  induction s with
  | nil => exact ⟨nofun, fun _ => by simp⟩
  | cons c s ih =>
    rw [afterComment]
    split
    · rename_i h
      obtain ⟨rfl, hhead⟩ := h
      obtain ⟨s', rfl⟩ : ∃ s', s = '/' :: s' := by
        cases s with
        | nil => cases hhead
        | cons c' s' =>
          cases hhead
          exact ⟨s', rfl⟩
      refine ⟨fun rest hrest => ?_, nofun⟩
      cases hrest
      exact ⟨[], rfl, by decide⟩
    · rename_i h
      -- The two characters are not the first ones, so they are further on.
      have hnot : ∀ s', s'.head? = s.head? → ['*', '/'] <:+: c :: s' → ['*', '/'] <:+: s' := by
        intro s' hhead hinfix
        rcases List.infix_cons_iff.mp hinfix with hprefix | hinfix
        · obtain ⟨rest, hrest⟩ := hprefix
          cases hrest
          exact absurd ⟨rfl, hhead.symm⟩ h
        · exact hinfix
      constructor
      · intro rest hrest
        obtain ⟨body, rfl, hclosed⟩ := ih.1 rest hrest
        refine ⟨c :: body, rfl, fun hinfix => hclosed (hnot _ ?_ hinfix)⟩
        cases body <;> rfl
      · exact fun hnone hinfix => ih.2 hnone (hnot s rfl hinfix)

theorem afterLine_spec (s : List Char) :
    (∀ rest, afterLine s = some rest → ∃ body, s = body ++ '\n' :: rest ∧ '\n' ∉ body) ∧
    (afterLine s = none → '\n' ∉ s) := by
  induction s with
  | nil => exact ⟨nofun, fun _ => by simp⟩
  | cons c s ih =>
    rw [afterLine]
    split
    · rename_i h
      subst h
      refine ⟨fun rest hrest => ?_, nofun⟩
      cases hrest
      exact ⟨[], rfl, by simp⟩
    · rename_i h
      have hne : '\n' ≠ c := Ne.symm h
      constructor
      · intro rest hrest
        obtain ⟨body, rfl, hbody⟩ := ih.1 rest hrest
        exact ⟨c :: body, rfl, by simp [hne, hbody]⟩
      · intro hnone
        simp [hne, ih.2 hnone]

/-- What is left of a text behind the gap at its beginning. The number bounds the pieces of the
    gap. -/
def behindGap : Nat → List Char → List Char
  | 0, s => s
  | _ + 1, [] => []
  | n + 1, c :: s =>
    if c ≤ ' ' then behindGap n s
    else if c = '/' ∧ s.head? = some '*' then
      match afterComment s.tail with
      | some rest => behindGap n rest
      | none => c :: s
    else if c = '/' ∧ s.head? = some '/' then
      match afterLine s.tail with
      | some rest => behindGap n rest
      | none => c :: s
    else c :: s

/-- No gap goes on here: no white space is next, and no comment that ends. -/
structure IsStuck (s : List Char) : Prop where
  notWhite : ∀ c ∈ s.head?, ¬ c ≤ ' '
  notComment : ∀ s', s = '/' :: '*' :: s' → ¬ ['*', '/'] <:+: s'
  notLine : ∀ s', s = '/' :: '/' :: s' → '\n' ∉ s'

theorem exists_tail {s : List Char} {c : Char} (h : s.head? = some c) : s = c :: s.tail := by
  cases s with
  | nil => cases h
  | cons c' s' =>
    cases h
    rfl

/-- A gap stands in the text before the rest, and it is as long as it can be if the number is a
    bound for its pieces. -/
def IsBehindGap (n : Nat) (s rest : List Char) : Prop :=
  ∃ gap, IsGap gap ∧ s = gap ++ rest ∧ (s.length ≤ n → IsStuck rest)

theorem IsBehindGap.of_isStuck {n : Nat} {s : List Char} (h : IsStuck s) : IsBehindGap n s s :=
  ⟨[], .nil, rfl, fun _ => h⟩

/-- One more piece of the gap. -/
theorem IsBehindGap.prepend {n : Nat} {s rest : List Char} (h : IsBehindGap n s rest)
    (piece : List Char) (hpos : 0 < piece.length)
    (hpiece : ∀ gap, IsGap gap → IsGap (piece ++ gap)) :
    IsBehindGap (n + 1) (piece ++ s) rest := by
  obtain ⟨gap, hgap, heq, hstuck⟩ := h
  refine ⟨piece ++ gap, hpiece gap hgap, by rw [List.append_assoc, ← heq], fun hlen => hstuck ?_⟩
  rw [List.length_append] at hlen
  omega

/-- A comment in delimiters is a piece of a gap, if it ends. -/
theorem IsBehindGap.comment {n : Nat} {s s' rest : List Char} (hafter : afterComment s = some s')
    (h : IsBehindGap n s' rest) : IsBehindGap (n + 1) ('/' :: '*' :: s) rest := by
  obtain ⟨body, rfl, hclosed⟩ := (afterComment_spec s).1 s' hafter
  simpa using h.prepend ('/' :: '*' :: (body ++ ['*', '/'])) (Nat.succ_pos _)
    fun gap hgap => by simpa using IsGap.comment hclosed hgap

/-- A comment up to the end of its line is a piece of a gap, if the line ends. -/
theorem IsBehindGap.line {n : Nat} {s s' rest : List Char} (hafter : afterLine s = some s')
    (h : IsBehindGap n s' rest) : IsBehindGap (n + 1) ('/' :: '/' :: s) rest := by
  obtain ⟨body, rfl, hopen⟩ := (afterLine_spec s).1 s' hafter
  simpa using h.prepend ('/' :: '/' :: (body ++ ['\n'])) (Nat.succ_pos _)
    fun gap hgap => by simpa using IsGap.line hopen hgap

/-- No gap goes on at a comment that does not end. -/
theorem isStuck_comment {s : List Char} (hafter : afterComment s = none) :
    IsStuck ('/' :: '*' :: s) where
  notWhite := by simp
  notComment s' heq := by
    cases heq
    exact (afterComment_spec s).2 hafter
  notLine := nofun

theorem isStuck_line {s : List Char} (hafter : afterLine s = none) :
    IsStuck ('/' :: '/' :: s) where
  notWhite := by simp
  notComment := nofun
  notLine s' heq := by
    cases heq
    exact (afterLine_spec s).2 hafter

/-- What stands before what is left is a gap. -/
theorem behindGap_spec (n : Nat) (s : List Char) : IsBehindGap n s (behindGap n s) := by
  induction n generalizing s with
  | zero =>
    refine ⟨[], .nil, rfl, fun h => ?_⟩
    obtain rfl := List.length_eq_zero_iff.mp (Nat.le_zero.mp h)
    exact ⟨by simp [behindGap], nofun, nofun⟩
  | succ n ih =>
    cases s with
    | nil => exact .of_isStuck ⟨by simp, nofun, nofun⟩
    | cons c s =>
      rw [behindGap]
      split
      · rename_i hwhite
        exact (ih s).prepend [c] Nat.one_pos fun gap hgap => .white hwhite hgap
      rename_i hwhite
      split
      · rename_i h
        obtain ⟨rfl, hhead⟩ := h
        rw [exists_tail hhead, List.tail_cons]
        split
        · rename_i rest hafter
          exact .comment hafter (ih rest)
        · rename_i hafter
          exact .of_isStuck (isStuck_comment hafter)
      rename_i hcomment
      split
      · rename_i h
        obtain ⟨rfl, hhead⟩ := h
        rw [exists_tail hhead, List.tail_cons]
        split
        · rename_i rest hafter
          exact .line hafter (ih rest)
        · rename_i hafter
          exact .of_isStuck (isStuck_line hafter)
      rename_i hline
      refine .of_isStuck ⟨by simpa using hwhite, fun s' heq => ?_, fun s' heq => ?_⟩
      · cases heq
        exact absurd ⟨rfl, rfl⟩ hcomment
      · cases heq
        exact absurd ⟨rfl, rfl⟩ hline

/-! ### Tokens in a text -/

/-- Are the tokens in the text with gaps between them, behind one that may be a name? -/
def follows : (afterID : Bool) → List Lexeme → List Char → Bool
  | _, [], s => (behindGap s.length s).isEmpty
  | afterID, l :: ls, s =>
    let rest := behindGap s.length s
    (!(afterID && l.isID) || decide (rest.length < s.length)) && l.chars.isPrefixOf rest &&
      follows l.isID ls (rest.drop l.chars.length)

theorem follows_sound {afterID : Bool} {ls : List Lexeme} {s : List Char}
    (h : follows afterID ls s = true) : Follows afterID ls s := by
  induction ls generalizing afterID s with
  | nil =>
    obtain ⟨gap, hgap, heq, -⟩ := behindGap_spec s.length s
    rw [follows, List.isEmpty_iff] at h
    rw [heq, h, List.append_nil]
    exact .last (.gap hgap)
  | cons l ls ih =>
    obtain ⟨gap, hgap, heq, -⟩ := behindGap_spec s.length s
    rw [follows, Bool.and_eq_true, Bool.and_eq_true] at h
    obtain ⟨⟨hapart, hprefix⟩, hlater⟩ := h
    obtain ⟨rest, hrest⟩ := List.isPrefixOf_iff_prefix.mp hprefix
    rw [← hrest, List.drop_left] at hlater
    rw [heq, ← hrest]
    refine .next hgap (fun hafter hid => ?_) (ih hlater)
    rintro rfl
    rw [List.nil_append] at heq
    rw [hafter, hid, ← heq] at hapart
    simp at hapart

end GrammarEngine.Notation
