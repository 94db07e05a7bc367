import GrammarEngine.Proofs.Notation.Writing
import GrammarEngine.Proofs.Parsing
import Mathlib.Data.List.TakeWhile

namespace GrammarEngine.Notation

/-!
# White space and comments

A gap is skipped as a whole, whatever it is made of, and nothing else is skipped.

* `isRanked` — no rule of the notation is left-recursive;
* `reads_comment`, `reads_line` — comments of either kind;
* `skips_gap`, `skips_lastGap` — gaps.
-/

/-! ### Ranks -/

/-- The rank of a name: the last place where it stands among the symbols of the notation. -/
def rank (name : Name) : Nat :=
  layout.length - layout.reverse.findIdx fun symbol => symbol.name = name

theorem layout_ranked : ∀ symbol ∈ layout, ∀ r ∈ symbol.shape.leading,
    rank (Graph.symbol ⟨layout.toArray⟩ r).name < rank symbol.name := by
  decide +kernel

theorem isRanked : ruleSet.graph.IsRanked rank := by
  intro ref r hr
  rcases symbol_cases ref with ⟨index, symbol, rfl, hindex, hsymbol⟩ | hzero | hforeign
  · rw [hsymbol] at hr ⊢
    rw [graph_eq]
    exact layout_ranked symbol (List.mem_of_getElem? hindex) r hr
  · rw [hzero] at hr
    cases hr
  · rw [hforeign] at hr
    cases hr

/-- What a symbol of the notation gives at a position. -/
abbrev Reads (text : List Char) (ref skip : Ref) (p : Nat) (answer : Answer Value) : Prop :=
  Gives rank ruleSet.graph text ref skip p answer

variable {text : List Char} {p : Nat}

/-! ### Classes of characters -/

/-- Behind the characters of a kind at the beginning is none of them. -/
theorem head?_dropWhile {kind : Char → Bool} {s : List Char} {c : Char}
    (h : c ∈ (s.dropWhile kind).head?) : kind c = false := by
  have hnot := List.head?_dropWhile_not kind s
  rw [h] at hnot
  simpa using hnot

theorem ne_iff_toNat_ne {c d : Char} : c ≠ d ↔ c.toNat ≠ d.toNat :=
  not_congr Char.toNat_inj.symm

theorem white_iff {c : Char} :
    List.any [(⟨0, 32⟩ : CodeRange)] (·.contains c.toNat) = true ↔ c ≤ ' ' := by
  rw [Char.le_def, UInt32.le_iff_toNat_le]
  simp

theorem noStar_iff {c : Char} :
    List.any [(⟨0, 41⟩ : CodeRange), ⟨43, maxCodePoint⟩] (·.contains c.toNat) = true ↔
      c ≠ '*' := by
  have hle := toNat_le c
  have hstar : '*'.toNat = 42 := rfl
  rw [ne_iff_toNat_ne, hstar]
  simp
  omega

theorem noStarSlash_iff {c : Char} :
    List.any [(⟨0, 41⟩ : CodeRange), ⟨43, 46⟩, ⟨48, maxCodePoint⟩] (·.contains c.toNat) = true ↔
      c ≠ '*' ∧ c ≠ '/' := by
  have hle := toNat_le c
  have hstar : '*'.toNat = 42 := rfl
  have hslash : '/'.toNat = 47 := rfl
  rw [ne_iff_toNat_ne, ne_iff_toNat_ne, hstar, hslash]
  simp
  omega

theorem noNewline_iff {c : Char} :
    List.any [(⟨0, 9⟩ : CodeRange), ⟨11, maxCodePoint⟩] (·.contains c.toNat) = true ↔
      c ≠ '\n' := by
  have hle := toNat_le c
  have hnewline : '\n'.toNat = 10 := rfl
  rw [ne_iff_toNat_ne, hnewline]
  simp
  omega

/-- A symbol for a class reads one character of the class. -/
theorem readsOne_class (index : Nat) {name : Name} {ranges : CharClass} {kind : Char → Prop}
    (h : layout[index]? = some ⟨name, .switch ranges⟩)
    (hkind : ∀ c, ranges.any (·.contains c.toNat) = true ↔ kind c) :
    ReadsOne Value rank ruleSet.graph text (.node index) kind := by
  have hone : ReadsOne Value rank ruleSet.graph text (.node index) _ :=
    readsOne_switch (symbol_node h)
  simpa only [hkind] using hone

/-! ### Comments -/

section Comments

variable {stars rest : List Char} {c : Char}

theorem readsOne_star : ReadsOne Value rank ruleSet.graph text (.node 65) (· = '*') :=
  readsOne_character (symbol_node rfl)

theorem readsOne_noStar : ReadsOne Value rank ruleSet.graph text (.node 64) (· ≠ '*') :=
  readsOne_class 64 rfl fun _ => noStar_iff

theorem readsOne_noStarSlash :
    ReadsOne Value rank ruleSet.graph text (.node 67) fun c => c ≠ '*' ∧ c ≠ '/' :=
  readsOne_class 67 rfl fun _ => noStarSlash_iff

/-- A character of a comment that is no asterisk. -/
theorem reads_raw (hc : c ≠ '*') (hdrop : text.drop p = c :: rest) :
    ∃ t, Reads text (.node 69) .zeroLength p (some (t, p + 1)) ∧ t.isEmpty = false := by
  obtain ⟨t, hgives, hcovers⟩ := readsOne_noStar.gives p c rest hdrop hc
  exact ⟨_, .junction isRanked (symbol_node rfl) rfl (.matched hgives), hcovers⟩

/-- Where asterisks are, there is none of the other characters. -/
theorem noStar_fails (hstars : ∀ c ∈ stars, c = '*') (hne : stars ≠ [])
    (hdrop : text.drop p = stars ++ rest) : Reads text (.node 64) .zeroLength p none := by
  refine readsOne_noStar.fails p fun c hc => not_not.mpr (hstars c ?_)
  rw [hdrop, List.head?_append_of_ne_nil _ hne] at hc
  exact List.mem_of_mem_head? hc

theorem stars_gives (hstars : ∀ c ∈ stars, c = '*') (hne : stars ≠ [])
    (hrest : ∀ c ∈ rest.head?, ¬ c = '*') (hdrop : text.drop p = stars ++ rest) :
    ∃ t, Reads text (.node 66) .zeroLength p (some (t, p + stars.length)) ∧
      t.isEmpty = false :=
  readsOne_star.multiple isRanked (symbol_node rfl) hstars hne hrest hdrop

/-- Asterisks in a comment, and the character behind them. -/
theorem reads_starred (hstars : ∀ c ∈ stars, c = '*') (hne : stars ≠ [])
    (hc : c ≠ '*' ∧ c ≠ '/') (hdrop : text.drop p = stars ++ c :: rest) :
    ∃ t, Reads text (.node 69) .zeroLength p (some (t, p + stars.length + 1)) ∧
      t.isEmpty = false := by
  obtain ⟨t, hstarred, hcovers⟩ := stars_gives hstars hne (by simpa using hc.1) hdrop
  obtain ⟨t', hgives, hcovers'⟩ :=
    readsOne_noStarSlash.gives (p + stars.length) c rest (drop_of_drop hdrop) hc
  have hsequence : Reads text (.node 68) .zeroLength p _ :=
    .sequence isRanked (symbol_node rfl) rfl hstarred hcovers
      (.covers (.zeroLength _) hgives hcovers' (.nil _ _))
  refine ⟨_, .junction isRanked (symbol_node rfl) rfl
    (.failed (noStar_fails hstars hne hdrop) (.matched hsequence)), ?_⟩
  rw [isEmpty_over]
  exact isEmpty_spanning (by simp [hdrop]) (by omega)

/-- Asterisks with a slash behind them. -/
theorem reads_end (hstars : ∀ c ∈ stars, c = '*') (hne : stars ≠ [])
    (hdrop : text.drop p = stars ++ '/' :: rest) : Reads text (.node 69) .zeroLength p none := by
  obtain ⟨t, hstarred, hcovers⟩ := stars_gives hstars hne (by simp) hdrop
  have hfails : Reads text (.node 67) .zeroLength (p + stars.length) none :=
    readsOne_noStarSlash.fails _ (by rw [drop_of_drop hdrop]; simp)
  have hsequence : Reads text (.node 68) .zeroLength p none :=
    .sequence_laterFails isRanked (symbol_node rfl) rfl hstarred hcovers
      (.fails (.zeroLength _) hfails)
  exact .junction_fails isRanked (symbol_node rfl) rfl
    (.failed (noStar_fails hstars hne hdrop) (.failed hsequence .nil))

/-- Asterisks, if there are any, and the character behind them, which does not end the comment. -/
theorem reads_part (hstars : ∀ c ∈ stars, c = '*') (hc : c ≠ '*')
    (hslash : stars ≠ [] → c ≠ '/') (hdrop : text.drop p = stars ++ c :: rest) :
    ∃ t, Reads text (.node 69) .zeroLength p (some (t, p + stars.length + 1)) ∧
      t.isEmpty = false := by
  by_cases hne : stars = []
  · subst hne
    exact reads_raw hc hdrop
  · exact reads_starred hstars hne ⟨hc, hslash hne⟩ hdrop

/-- Behind asterisks, a slash would end the comment. -/
theorem not_slash_of_open {tail : List Char} (hstars : ∀ c ∈ stars, c = '*') (hne : stars ≠ [])
    (hopen : ¬ ['*', '/'] <:+: stars ++ c :: tail) : c ≠ '/' := by
  rintro rfl
  have hlast : stars.getLast hne = '*' := hstars _ (List.getLast_mem hne)
  have hsplit : stars.dropLast ++ ['*'] = stars := hlast ▸ List.dropLast_append_getLast hne
  refine hopen ⟨stars.dropLast, tail, ?_⟩
  rw [← hsplit]
  simp

end Comments

/-- What stands between the opening and the end of a comment. -/
theorem reads_body {body rest : List Char} (hclosed : ¬ ['*', '/'] <:+: body ++ ['*'])
    (hdrop : text.drop p = body ++ '*' :: '/' :: rest) :
    ∃ (ts : List (Token Value)) (stars : List Char) (q : Nat),
      RunGives rank ruleSet.graph text (.node 69) p (q, ts) ∧ (ts = [] → q = p) ∧
      stars ≠ [] ∧ (∀ c ∈ stars, c = '*') ∧ text.drop q = stars ++ '/' :: rest ∧
      q + stars.length = p + body.length + 1 := by
  induction hlength : body.length using Nat.strong_induction_on generalizing body p with
  | _ n ih =>
    subst hlength
    -- The asterisks at the beginning, and what comes behind them.
    obtain ⟨stars, tail, rfl, hstars, htail⟩ : ∃ stars tail, body = stars ++ tail ∧
        (∀ c ∈ stars, c = '*') ∧ ∀ c ∈ tail.head?, c ≠ '*' :=
      ⟨body.takeWhile (· = '*'), body.dropWhile (· = '*'), List.takeWhile_append_dropWhile.symm,
        fun c hc => by simpa using List.mem_takeWhile_imp hc,
        fun c hc => by simpa using head?_dropWhile hc⟩
    cases tail with
    | nil =>
      rw [List.append_nil] at hdrop
      have hend : text.drop p = (stars ++ ['*']) ++ '/' :: rest := by simp [hdrop]
      have hall : ∀ c ∈ stars ++ ['*'], c = '*' :=
        List.forall_mem_append.mpr ⟨hstars, by simp⟩
      exact ⟨[], stars ++ ['*'], p, .stops (reads_end hall (by simp) hend), fun _ => rfl,
        by simp, hall, hend, by simp; omega⟩
    | cons c tail =>
      rw [List.append_assoc, List.cons_append] at hdrop hclosed
      obtain ⟨t, hgives, hcovers⟩ := reads_part hstars (htail c rfl)
        (fun hne => not_slash_of_open hstars hne hclosed) hdrop
      have hlater : ¬ ['*', '/'] <:+: tail ++ ['*'] := fun hwithin =>
        hclosed (hwithin.trans ⟨stars ++ [c], [], by simp⟩)
      have hdrop' : text.drop (p + stars.length + 1) = tail ++ '*' :: '/' :: rest :=
        drop_of_drop (s := [c]) (drop_of_drop hdrop)
      obtain ⟨ts, stars', q, hrun, -, hne, hstars', hdrop'', hq⟩ :=
        ih tail.length (by simp; omega) hlater hdrop' rfl
      exact ⟨t :: ts, stars', q, .goes hgives hcovers hrun, by simp, hne, hstars', hdrop'',
        by simp; omega⟩

theorem readsOne_mark : ReadsOne Value rank ruleSet.graph text (.node 72) (· = '*') :=
  readsOne_character (symbol_node rfl)

/-- A comment between asterisks. -/
theorem reads_comment {body rest : List Char} (hclosed : ¬ ['*', '/'] <:+: body ++ ['*'])
    (hdrop : text.drop p = '/' :: '*' :: (body ++ '*' :: '/' :: rest)) :
    ∃ t, Reads text (.node 75) .zeroLength p (some (t, p + (body.length + 4))) ∧
      t.isEmpty = false := by
  have hopening : Reads text (.node 63) .zeroLength p _ := .literal (symbol_node rfl) hdrop
  have hinside : text.drop (p + 2) = body ++ '*' :: '/' :: rest :=
    drop_of_drop (s := ['/', '*']) hdrop
  obtain ⟨ts, stars, q, hrun, hempty, hne, hstars, hdrop', hq⟩ := reads_body hclosed hinside
  have hstar : Reads text (.node 71) .zeroLength (p + 2) _ :=
    hrun.star isRanked (symbol_node rfl) (symbol_node rfl) hempty
  obtain ⟨t, hmarks, hcovers⟩ : ∃ t, Reads text (.node 73) .zeroLength q
      (some (t, q + stars.length)) ∧ t.isEmpty = false :=
    readsOne_mark.multiple isRanked (symbol_node rfl) hstars hne (by simp) hdrop'
  have hslash : Reads text (.node 74) .zeroLength (q + stars.length) _ :=
    .character (symbol_node rfl) (drop_of_drop hdrop')
  have hsequence : Reads text (.node 75) .zeroLength p _ :=
    .sequence isRanked (symbol_node rfl) rfl hopening (by simp [Token.isEmpty, Token.leaf])
      (.next hstar (hstar.stop_eq (by simp [hinside])) (.covers (.zeroLength _) hmarks hcovers
        (.covers (.zeroLength _) hslash (isEmpty_singleton ..) (.nil _ _))))
  have hstop : q + stars.length + 1 = p + (body.length + 4) := by omega
  rw [hstop] at hsequence
  exact ⟨_, hsequence, isEmpty_spanning (by simp [hdrop]) (by omega)⟩

/-- A comment to the end of the line. -/
theorem reads_line {body rest : List Char} (hbody : ∀ c ∈ body, c ≠ '\n')
    (hrest : ∀ c ∈ rest.head?, c = '\n') (hdrop : text.drop p = '/' :: '/' :: (body ++ rest)) :
    ∃ t, Reads text (.node 80) .zeroLength p (some (t, p + (body.length + 2))) ∧
      t.isEmpty = false := by
  have hopening : Reads text (.node 76) .zeroLength p _ := .literal (symbol_node rfl) hdrop
  have hinside : text.drop (p + 2) = body ++ rest := drop_of_drop (s := ['/', '/']) hdrop
  have hone : ReadsOne Value rank ruleSet.graph text (.node 77) (· ≠ '\n') :=
    readsOne_class 77 rfl fun _ => noNewline_iff
  obtain ⟨ts, hrun, hlength⟩ := hone.run hbody (fun c hc => not_not.mpr (hrest c hc)) hinside
  have hstar : Reads text (.node 79) .zeroLength (p + 2) _ :=
    hrun.star isRanked (symbol_node rfl) (symbol_node rfl) (by rintro rfl; simp [← hlength])
  -- An empty comment covers no text between its slashes and the end of the line.
  have hempty : (Token.spanning .star (.generated 79) text (p + 2) (p + 2 + body.length)
      ts).isEmpty = true → p + 2 + body.length = p + 2 := by
    by_cases hne : body = []
    · simp [hne]
    · exact hstar.stop_eq (by simp [hinside, hne])
  have hsequence : Reads text (.node 80) .zeroLength p _ :=
    .sequence isRanked (symbol_node rfl) rfl hopening (by simp [Token.isEmpty, Token.leaf])
      (.next hstar hempty (.nil _ _))
  have hstop : p + 2 + body.length = p + (body.length + 2) := by omega
  rw [hstop] at hsequence
  exact ⟨_, hsequence, isEmpty_spanning (by simp [hdrop]) (by omega)⟩

/-! ### Gaps -/

section Gaps

variable {rest : List Char}

theorem readsOne_white : ReadsOne Value rank ruleSet.graph text (.node 61) (· ≤ ' ') :=
  readsOne_class 61 rfl fun _ => white_iff

/-- White space is not skipped where there is none. -/
theorem white_fails (h : ∀ c ∈ (text.drop p).head?, ¬ c ≤ ' ') :
    Reads text (.node 62) .zeroLength p none :=
  readsOne_white.multiple_fails isRanked (symbol_node rfl) h

/-- What a token or the end of the text looks like from a gap. -/
def Visible (s : List Char) : Prop := ∀ c ∈ s.head?, ¬ c ≤ ' ' ∧ c ≠ '/'

/-- Nothing that can be seen is skipped. -/
theorem blank_fails (h : Visible (text.drop p)) : Reads text (.node 81) .zeroLength p none := by
  have hslash : ∀ word : String, word.toList.head? = some '/' → ¬ word.toList <+: text.drop p := by
    rintro word hword ⟨rest, hrest⟩
    refine (h '/' ?_).2 rfl
    rw [← hrest, List.head?_append, hword]
    rfl
  have hcomment : Reads text (.node 75) .zeroLength p none :=
    .sequence_fails isRanked (symbol_node rfl) rfl (.literal_fails (symbol_node rfl) (hslash _ rfl))
  have hline : Reads text (.node 80) .zeroLength p none :=
    .sequence_fails isRanked (symbol_node rfl) rfl (.literal_fails (symbol_node rfl) (hslash _ rfl))
  exact .junction_fails isRanked (symbol_node rfl) rfl
    (.failed (white_fails fun c hc => (h c hc).1) (.failed hcomment (.failed hline .nil)))

theorem blank_white {cs : List Char} (hcs : ∀ c ∈ cs, c ≤ ' ') (hne : cs ≠ [])
    (hrest : ∀ c ∈ rest.head?, ¬ c ≤ ' ') (hdrop : text.drop p = cs ++ rest) :
    ∃ t, Reads text (.node 81) .zeroLength p (some (t, p + cs.length)) ∧ t.isEmpty = false := by
  obtain ⟨t, hgives, hcovers⟩ : ∃ t, Reads text (.node 62) .zeroLength p
      (some (t, p + cs.length)) ∧ t.isEmpty = false :=
    readsOne_white.multiple isRanked (symbol_node rfl) hcs hne hrest hdrop
  exact ⟨_, .junction isRanked (symbol_node rfl) rfl (.matched hgives), hcovers⟩

theorem blank_comment {body : List Char} (hclosed : ¬ ['*', '/'] <:+: body ++ ['*'])
    (hdrop : text.drop p = '/' :: '*' :: (body ++ '*' :: '/' :: rest)) :
    ∃ t, Reads text (.node 81) .zeroLength p (some (t, p + (body.length + 4))) ∧
      t.isEmpty = false := by
  obtain ⟨t, hgives, hcovers⟩ := reads_comment hclosed hdrop
  have hwhite : Reads text (.node 62) .zeroLength p none :=
    white_fails (by rw [hdrop]; simp)
  exact ⟨_, .junction isRanked (symbol_node rfl) rfl (.failed hwhite (.matched hgives)), hcovers⟩

theorem blank_line {body : List Char} (hbody : ∀ c ∈ body, c ≠ '\n')
    (hrest : ∀ c ∈ rest.head?, c = '\n') (hdrop : text.drop p = '/' :: '/' :: (body ++ rest)) :
    ∃ t, Reads text (.node 81) .zeroLength p (some (t, p + (body.length + 2))) ∧
      t.isEmpty = false := by
  obtain ⟨t, hgives, hcovers⟩ := reads_line hbody hrest hdrop
  have hwhite : Reads text (.node 62) .zeroLength p none :=
    white_fails (by rw [hdrop]; simp)
  have hcomment : Reads text (.node 75) .zeroLength p none := by
    refine .sequence_fails isRanked (symbol_node rfl) rfl (.literal_fails (symbol_node rfl) ?_)
    rw [hdrop]
    rintro ⟨rest', hrest'⟩
    cases hrest'
  exact ⟨_, .junction isRanked (symbol_node rfl) rfl (.failed hwhite (.failed hcomment
    (.matched hgives))), hcovers⟩

/-- White space at the beginning of a gap can be taken off. -/
theorem IsGap.dropWhile {gap : List Char} (h : IsGap gap) :
    IsGap (gap.dropWhile (· ≤ ' ')) := by
  induction h with
  | nil => exact .nil
  | white blank later ih => simpa [blank] using ih
  | comment closed later ih => exact .comment closed later
  | line closed later ih => exact .line closed later

/-- There is no more white space then, unless it comes behind the gap. -/
theorem not_white_behind {gap : List Char} (hrest : ∀ c ∈ rest.head?, ¬ c ≤ ' ') :
    ∀ c ∈ (gap.dropWhile (· ≤ ' ') ++ rest).head?, ¬ c ≤ ' ' := by
  intro c hc
  rw [List.head?_append] at hc
  rcases Option.or_eq_some_iff.mp hc with hwithin | ⟨-, hbehind⟩
  · simpa using head?_dropWhile hwithin
  · exact hrest c hbehind

/-- A gap is skipped, and so is what follows. -/
theorem run_gap {gap : List Char} {q : Nat} {ts : List (Token Value)} (hgap : IsGap gap)
    (hrest : ∀ c ∈ rest.head?, ¬ c ≤ ' ') (hdrop : text.drop p = gap ++ rest)
    (hrun : RunGives rank ruleSet.graph text (.node 81) (p + gap.length) (q, ts)) :
    ∃ ts' : List (Token Value), RunGives rank ruleSet.graph text (.node 81) p (q, ts') ∧
      (ts' = [] → gap = [] ∧ ts = []) := by
  induction hlength : gap.length using Nat.strong_induction_on generalizing gap p with
  | _ n ih =>
    subst hlength
    -- A part of the gap is skipped, and the gap behind it by induction.
    have hstep : ∀ (part gap' : List Char) (t : Token Value), gap = part ++ gap' → part ≠ [] →
        IsGap gap' → Reads text (.node 81) .zeroLength p (some (t, p + part.length)) →
        t.isEmpty = false → ∃ ts' : List (Token Value),
          RunGives rank ruleSet.graph text (.node 81) p (q, ts') ∧
            (ts' = [] → gap = [] ∧ ts = []) := by
      rintro part gap' t rfl hpart hgap' hgives hcovers
      have hpos := List.length_pos_of_ne_nil hpart
      rw [List.append_assoc] at hdrop
      rw [List.length_append, ← Nat.add_assoc] at hrun
      obtain ⟨ts', hrun', -⟩ :=
        ih gap'.length (by simp; omega) hgap' (drop_of_drop hdrop) hrun rfl
      exact ⟨t :: ts', .goes hgives hcovers hrun', by simp⟩
    cases hgap with
    | nil => exact ⟨ts, hrun, fun h => ⟨rfl, h⟩⟩
    | @white c gap blank later =>
      have hsplit : c :: gap = (c :: gap.takeWhile (· ≤ ' ')) ++ gap.dropWhile (· ≤ ' ') := by
        rw [List.cons_append, List.takeWhile_append_dropWhile]
      have hwhite : ∀ c' ∈ c :: gap.takeWhile (· ≤ ' '), c' ≤ ' ' :=
        List.forall_mem_cons.mpr ⟨blank, fun c' hc' => by simpa using List.mem_takeWhile_imp hc'⟩
      obtain ⟨t, hgives, hcovers⟩ := blank_white hwhite (List.cons_ne_nil _ _)
        (not_white_behind hrest)
        (by rw [hdrop, ← List.append_assoc, ← hsplit])
      exact hstep _ _ t hsplit (List.cons_ne_nil _ _) later.dropWhile hgives hcovers
    | @comment body gap closed later =>
      have hcomment : text.drop p = '/' :: '*' :: (body ++ '*' :: '/' :: (gap ++ rest)) := by
        simpa using hdrop
      obtain ⟨t, hgives, hcovers⟩ := blank_comment closed hcomment
      have hsplit : '/' :: '*' :: (body ++ '*' :: '/' :: gap) =
          ('/' :: '*' :: (body ++ ['*', '/'])) ++ gap := by simp
      exact hstep _ _ t hsplit (List.cons_ne_nil _ _) later
        (by simpa using hgives) hcovers
    | @line body gap closed later =>
      -- The end of the line is white space again.
      have hline : text.drop p = '/' :: '/' :: (body ++ '\n' :: (gap ++ rest)) := by
        simpa using hdrop
      obtain ⟨t, hgives, hcovers⟩ := blank_line (fun c hc heq => closed (heq ▸ hc)) (by simp) hline
      have hsplit : '/' :: '/' :: (body ++ '\n' :: gap) =
          ('/' :: '/' :: body) ++ '\n' :: gap := by simp
      exact hstep _ _ t hsplit (List.cons_ne_nil _ _) (.white (by decide) later)
        (by simpa using hgives) hcovers

/-- What is skipped by the parts is skipped as a whole. -/
theorem skips_of_run {q : Nat} {ts : List (Token Value)}
    (hrun : RunGives rank ruleSet.graph text (.node 81) p (q, ts)) (hq : ts = [] → q = p) :
    Skips ruleSet.graph text Value Sym.skip p q := by
  cases ts with
  | nil =>
    have hfails : Reads text Sym.skip .zeroLength p none :=
      hrun.multiple_fails isRanked (symbol_node rfl)
    rw [hq rfl]
    exact hfails.skips
  | cons t ts =>
    have hgives : Reads text Sym.skip .zeroLength p _ :=
      hrun.multiple isRanked (symbol_node rfl) (List.cons_ne_nil t ts)
    exact hgives.skips

/-- A gap is skipped, and nothing that can be seen behind it. -/
theorem skips_gap {gap : List Char} (hgap : IsGap gap) (hrest : Visible rest)
    (hdrop : text.drop p = gap ++ rest) :
    Skips ruleSet.graph text Value Sym.skip p (p + gap.length) := by
  have hfails : Reads text (.node 81) .zeroLength (p + gap.length) none :=
    blank_fails (by rw [drop_of_drop hdrop]; exact hrest)
  obtain ⟨ts, hrun, hempty⟩ := run_gap hgap (fun c hc => (hrest c hc).1) hdrop (.stops hfails)
  exact skips_of_run hrun fun hts => by rw [(hempty hts).1]; rfl

/-- The last gap is skipped, which ends the text. -/
theorem skips_lastGap {gap : List Char} (hgap : IsLastGap gap) (hdrop : text.drop p = gap) :
    Skips ruleSet.graph text Value Sym.skip p (p + gap.length) := by
  cases hgap with
  | gap blank =>
    have hall : text.drop p = gap ++ [] := by simpa using hdrop
    exact skips_gap blank (by simp [Visible]) hall
  | @line gap body blank closed =>
    have hline : text.drop (p + gap.length) = '/' :: '/' :: (body ++ []) := by
      simpa using drop_of_drop hdrop
    obtain ⟨t, hgives, hcovers⟩ :=
      blank_line (fun c hc heq => closed (heq ▸ hc)) (by simp) hline
    have hstop : p + (gap ++ '/' :: '/' :: body).length =
        p + gap.length + (body.length + 2) := by simp; omega
    have hend : text.drop (p + gap.length + (body.length + 2)) = [] := by
      rw [← hstop]
      exact drop_of_drop (by simpa using hdrop)
    have hfails : Reads text (.node 81) .zeroLength (p + gap.length + (body.length + 2)) none :=
      blank_fails (by simp [hend, Visible])
    obtain ⟨ts, hrun, hempty⟩ := run_gap blank (by simp) hdrop
      (.goes hgives hcovers (.stops hfails))
    rw [hstop]
    exact skips_of_run hrun fun hts => by cases (hempty hts).2

end Gaps

end GrammarEngine.Notation
