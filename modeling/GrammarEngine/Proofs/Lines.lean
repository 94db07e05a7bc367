import GrammarEngine.Proofs.Doubling

namespace GrammarEngine

/-!
# Lines and columns

The line and the column of a position are as good as the position: the line says behind which line
feed to start, and the column how far to go from there.

* `lineStart?` — where a line begins;
* `lineStart?_succ_iff` — the line feed in front of a line, and how many there are before it;
* `whereabouts_succ` — what a character does to the line and the column;
* `whereabouts_inverse` — the way back from the line and the column to the position;
* `whereabouts_lt` — a later position is on a later line, or further on the same one;
* `Stream.spells_afterAll` — whatever was done with a stream, it is over the same text;
* `Stream.location_determines` — what a stream reports, however little it has read.
-/

/-- The offset just behind the line feed with the given number, counted from one. The beginning of
    the text stands for the line feed with the number 0. -/
def lineStart? : (text : List Char) → (feeds : Nat) → Option Nat
  | _, 0 => some 0
  | [], _ + 1 => none
  | c :: text, feeds + 1 =>
    (lineStart? text (if c = '\n' then feeds else feeds + 1)).map (· + 1)

variable {text : List Char} {p q : Nat}

@[simp] theorem lineStart?_zero (text : List Char) : lineStart? text 0 = some 0 := by
  cases text <;> rfl

/-- A line that is not the first one begins behind a line feed, before which there is one line feed
    for each earlier line but the first. -/
theorem lineStart?_succ_iff {feeds start : Nat} : lineStart? text (feeds + 1) = some start ↔
    ∃ p, start = p + 1 ∧ text[p]? = some '\n' ∧ (text.take p).count '\n' = feeds := by
  induction text generalizing feeds start with
  | nil => simp [lineStart?]
  | cons c text ih =>
    rw [lineStart?, Option.map_eq_some_iff]
    constructor
    · rintro ⟨before, hbefore, rfl⟩
      by_cases hc : c = '\n'
      · rw [if_pos hc] at hbefore
        cases feeds with
        | zero =>
          cases (lineStart?_zero text).symm.trans hbefore
          exact ⟨0, rfl, by simp [hc], rfl⟩
        | succ feeds =>
          obtain ⟨p, rfl, hp, hcount⟩ := ih.mp hbefore
          exact ⟨p + 1, rfl, hp, by simp [hc, hcount]⟩
      · rw [if_neg hc] at hbefore
        obtain ⟨p, rfl, hp, hcount⟩ := ih.mp hbefore
        exact ⟨p + 1, rfl, hp, by simp [hc, hcount]⟩
    · rintro ⟨p, rfl, hp, hcount⟩
      refine ⟨p, ?_, rfl⟩
      cases p with
      | zero =>
        obtain rfl : c = '\n' := by simpa using hp
        obtain rfl : 0 = feeds := hcount
        simp
      | succ p =>
        by_cases hc : c = '\n'
        · rw [if_pos hc]
          obtain ⟨feeds, rfl⟩ : ∃ fewer, feeds = fewer + 1 :=
            ⟨(text.take p).count '\n', by simpa [hc] using hcount.symm⟩
          exact ih.mpr ⟨p, rfl, hp, by simpa [hc] using hcount⟩
        · rw [if_neg hc]
          exact ih.mpr ⟨p, rfl, hp, by simpa [hc] using hcount⟩

/-! ### From position to position -/

/-- A line feed begins the next line, and every other character the next column. -/
theorem whereabouts_succ {c : Char} (h : text[p]? = some c) :
    whereabouts text (p + 1) =
      if c = '\n' then ((whereabouts text p).1 + 1, 1)
      else ((whereabouts text p).1, (whereabouts text p).2 + 1) := by
  have htake : text.take (p + 1) = text.take p ++ [c] := by
    rw [List.take_add_one, h, Option.toList_some]
  unfold whereabouts
  rw [htake]
  by_cases hc : c = '\n' <;> simp [hc]

/-- **The way back.** The line begins behind as many line feeds as there are lines before it, and
    the position is as far behind that as the column says. -/
theorem whereabouts_inverse (hp : p ≤ text.length) :
    ∃ feeds offset start : Nat,
      whereabouts text p = ((feeds : Int) + 1, (offset : Int) + 1) ∧
        lineStart? text feeds = some start ∧ p = start + offset := by
  induction p with
  | zero => exact ⟨0, 0, 0, rfl, lineStart?_zero text, rfl⟩
  | succ p ih =>
    obtain ⟨feeds, offset, start, hwhere, hstart, hplace⟩ := ih (Nat.le_of_succ_le hp)
    have hchar : text[p]? = some text[p] := List.getElem?_eq_getElem hp
    rw [whereabouts_succ hchar, hwhere]
    by_cases hfeed : text[p] = '\n'
    · rw [if_pos hfeed]
      have hcount : (text.take p).count '\n' = feeds := by
        have hline := congrArg Prod.fst hwhere
        simp only [whereabouts] at hline
        omega
      exact ⟨feeds + 1, 0, p + 1, rfl,
        lineStart?_succ_iff.mpr ⟨p, rfl, hfeed ▸ hchar, hcount⟩, rfl⟩
    · rw [if_neg hfeed]
      exact ⟨feeds, offset + 1, start, rfl, hstart, by omega⟩

theorem line_mono (text : List Char) (hpq : p ≤ q) :
    (whereabouts text p).1 ≤ (whereabouts text q).1 := by
  have hsublist : (text.take p).Sublist (text.take q) := by
    rw [← Nat.min_eq_left hpq, ← List.take_take]
    exact List.take_sublist p _
  have hcount := hsublist.count_le '\n'
  simp only [whereabouts]
  omega

/-- A later position is on a later line, or further on the same one. -/
theorem whereabouts_lt (hpq : p < q) (hq : q ≤ text.length) :
    Prod.Lex (· < ·) (· < ·) (whereabouts text p) (whereabouts text q) := by
  obtain ⟨feeds, offset, start, hwhere, hstart, hp⟩ :=
    whereabouts_inverse (Nat.le_trans (Nat.le_of_lt hpq) hq)
  obtain ⟨feeds', offset', start', hwhere', hstart', hq⟩ := whereabouts_inverse hq
  have hline := line_mono text (Nat.le_of_lt hpq)
  rw [hwhere, hwhere'] at hline ⊢
  by_cases hsame : feeds = feeds'
  · -- The two are on one line, which begins at one place.
    subst hsame
    cases hstart.symm.trans hstart'
    exact .right _ (by omega)
  · simp only at hline
    exact .left _ _ (by omega)

/-- A position behind the text counts as its end. -/
theorem whereabouts_of_length_lt (hp : text.length < p) :
    whereabouts text p = whereabouts text text.length := by
  unfold whereabouts
  rw [List.take_length, List.take_of_length_le (Nat.le_of_lt hp)]

/-! ### Reports of a stream -/

namespace Stream

/-- Whatever was done with a stream, it is over the same text. -/
theorem spells_afterAll {s : Stream} (h : s.Spells text) (ops : List StreamOp) :
    (afterAll ops s).Spells text := by
  induction ops generalizing s with
  | nil => exact h
  | cons op ops ih =>
    obtain ⟨s', hensure, hloads, -⟩ := ensure_loads h (op.demand s)
    exact ih ((op.after_sameText hensure).spells hloads.spells)

/-- **Line and column determine the position.** Every stream over a text, in memory or over a file
    that is still open, reports the same line and column of a position, whatever was done with it
    before and however little it has read. A later position comes later in the order of lines and
    columns; both are counted from one; and the position is found again behind as many line feeds
    as there are lines before, as far on as the column says. Positions behind the text are reported
    as its end. -/
theorem location_determines (text : List Char) :
    (∀ s : Stream, s.Spells text → ∀ (ops : List StreamOp) (position? : Option Int) (p : Nat),
      position?.getD (afterAll ops s).position = p →
        ∃ s', location position? (afterAll ops s) = .ok (whereabouts text p) s') ∧
    (∀ p q, p < q → q ≤ text.length →
      Prod.Lex (· < ·) (· < ·) (whereabouts text p) (whereabouts text q)) ∧
    (∀ p ≤ text.length, ∀ line column, whereabouts text p = (line, column) →
      1 ≤ line ∧ 1 ≤ column ∧
        ∃ start, lineStart? text (line - 1).toNat = some start ∧ p = start + column - 1) ∧
    ∀ p, text.length < p → whereabouts text p = whereabouts text text.length := by
  refine ⟨fun s h ops position? p hp => ?_, fun p q => whereabouts_lt, fun p hp => ?_,
    fun p => whereabouts_of_length_lt⟩
  · obtain ⟨s', hlocation, -⟩ := location_loads (spells_afterAll h ops) hp
    exact ⟨s', hlocation⟩
  · rintro line column hplace
    obtain ⟨feeds, offset, start, hwhere, hstart, hback⟩ := whereabouts_inverse hp
    cases hplace.symm.trans hwhere
    refine ⟨by omega, by omega, start, ?_, by omega⟩
    rwa [Int.add_sub_cancel, Int.toNat_natCast]

/-- Position 5 is the beginning of the third line of a file of which two characters were read. -/
theorem location_determines_threeLines :
    (∃ s', location (some 5) (afterAll [.next, .hasNext] (.ofFile threeLines)) = .ok (3, 1) s') ∧
      Prod.Lex (· < ·) (· < ·) (whereabouts "ab\r\n\ncd".toList 3)
        (whereabouts "ab\r\n\ncd".toList 5) ∧
      (∃ start, lineStart? "ab\r\n\ncd".toList 2 = some start ∧ (5 : Int) = start + 1 - 1) ∧
      whereabouts "ab\r\n\ncd".toList 9 = whereabouts "ab\r\n\ncd".toList 7 := by
  obtain ⟨hreports, hlater, hback, hbehind⟩ := location_determines "ab\r\n\ncd".toList
  refine ⟨hreports _ (reads_ofFile spells_threeLines).spells _ (some 5) 5 rfl,
    hlater 3 5 (by decide) (by decide), (hback 5 (by decide) 3 1 (by decide)).2.2,
    hbehind 9 (by decide)⟩

end Stream

end GrammarEngine
