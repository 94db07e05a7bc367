import GrammarEngine.Symbol.CharClass

namespace GrammarEngine

/-!
# Complements of character classes

The class of all characters but some is made by going through their code points in increasing order
and taking each gap between two of them. Its ranges are as few as can be, which makes them the only
ones of their sort.

* `CharClass.IsCanonical` — ranges that are in order, with at least one code point between two of
  them;
* `IsCanonical.eq_of_holds_iff` — two such lists with the same code points are the same list;
* `holds_gapsFrom`, `isCanonical_gapsFrom` — one gap after the other, by induction on the code
  points that are left out;
* `ofBounds_of_isCanonical` — what is canonical passes the checks of a class;
* `excluding_isCanonical` — the complement as a whole.
-/

namespace CharClass

/-! ### Canonical classes -/

/-- One of the ranges holds the code point. -/
def Holds (ranges : CharClass) (code : Nat) : Prop := ∃ r ∈ ranges, r.low ≤ code ∧ code ≤ r.high

/-- No range is empty or goes beyond the code points, and each one ends before the code point in
    front of the next one: ranges are neither out of order nor adjacent. -/
structure IsCanonical (ranges : CharClass) : Prop where
  inside : ∀ r ∈ ranges, r.low ≤ r.high ∧ r.high ≤ maxCodePoint
  apart : ranges.Pairwise fun r r' => r.high + 1 < r'.low

variable {r : CodeRange} {ranges ranges' : CharClass} {codes : List Nat} {start code : Nat}

@[simp] theorem holds_nil : ¬ Holds [] code := by
  simp [Holds]

@[simp] theorem holds_cons :
    Holds (r :: ranges) code ↔ (r.low ≤ code ∧ code ≤ r.high) ∨ Holds ranges code := by
  simp [Holds]

/-- A class finds the code points that one of its ranges holds. -/
theorem isSome_find?_iff : (ranges.find? code).isSome = true ↔ Holds ranges code := by
  rw [isSome_find?, List.any_eq_true]
  simp only [CodeRange.contains_iff, Holds]

theorem IsCanonical.tail (h : IsCanonical (r :: ranges)) : IsCanonical ranges :=
  ⟨fun r' hr' => h.inside r' (List.mem_cons_of_mem r hr'), h.apart.tail⟩

/-- What later ranges hold lies behind the first one, and not right behind it. -/
theorem IsCanonical.lt_of_holds (h : IsCanonical (r :: ranges)) (hcode : Holds ranges code) :
    r.high + 1 < code := by
  obtain ⟨r', hr', hlow, -⟩ := hcode
  have hgap := List.rel_of_pairwise_cons h.apart hr'
  omega

/-- A canonical class holds its first code point, and none before. -/
theorem IsCanonical.low_le (h : IsCanonical (r :: ranges)) (hcode : Holds (r :: ranges) code) :
    r.low ≤ code := by
  have hr := h.inside r (List.mem_cons_self ..)
  rcases holds_cons.mp hcode with hfirst | hlater
  · exact hfirst.1
  · have hbehind := h.lt_of_holds hlater
    omega

/-- If the first range ended later than that of another class with the same code points, then what
    stands right behind the other range would be missing there. -/
theorem IsCanonical.high_le {r' : CodeRange} (h' : IsCanonical (r' :: ranges'))
    (hlow : r.low = r'.low)
    (hsame : ∀ code, Holds (r :: ranges) code → Holds (r' :: ranges') code) : r.high ≤ r'.high := by
  refine Nat.le_of_not_lt fun hlonger => ?_
  have hr' := h'.inside r' (List.mem_cons_self ..)
  have hnext : Holds (r' :: ranges') (r'.high + 1) :=
    hsame _ (holds_cons.mpr (.inl ⟨by omega, by omega⟩))
  rcases holds_cons.mp hnext with hfirst | hlater
  · omega
  · exact Nat.lt_irrefl _ (h'.lt_of_holds hlater)

/-- **Uniqueness.** There is one canonical class of some code points. -/
theorem IsCanonical.eq_of_holds_iff (h : IsCanonical ranges) (h' : IsCanonical ranges')
    (hsame : ∀ code, Holds ranges code ↔ Holds ranges' code) : ranges = ranges' := by
  induction ranges generalizing ranges' with
  | nil =>
    cases ranges' with
    | nil => rfl
    | cons r' ranges' =>
      have hr' := h'.inside r' (List.mem_cons_self ..)
      have hlow : Holds (r' :: ranges') r'.low := holds_cons.mpr (.inl ⟨Nat.le_refl _, hr'.1⟩)
      exact absurd ((hsame _).mpr hlow) holds_nil
  | cons r ranges ih =>
    have hr := h.inside r (List.mem_cons_self ..)
    have hfirst : Holds (r :: ranges) r.low := holds_cons.mpr (.inl ⟨Nat.le_refl _, hr.1⟩)
    cases ranges' with
    | nil => exact absurd ((hsame _).mp hfirst) holds_nil
    | cons r' ranges' =>
      have hr' := h'.inside r' (List.mem_cons_self ..)
      have hfirst' : Holds (r' :: ranges') r'.low := holds_cons.mpr (.inl ⟨Nat.le_refl _, hr'.1⟩)
      have hlow : r.low = r'.low :=
        Nat.le_antisymm (h.low_le ((hsame _).mpr hfirst')) (h'.low_le ((hsame _).mp hfirst))
      have hhigh : r.high = r'.high :=
        Nat.le_antisymm (h'.high_le hlow fun code => (hsame code).mp)
          (h.high_le hlow.symm fun code => (hsame code).mpr)
      obtain rfl : r = r' := by
        cases r
        cases r'
        simp_all
      -- The other ranges hold what is left behind the first one.
      have hrest : ∀ code, Holds ranges code ↔ Holds ranges' code := by
        intro code
        constructor
        · intro hcode
          have hbehind := h.lt_of_holds hcode
          rcases holds_cons.mp ((hsame code).mp (holds_cons.mpr (.inr hcode))) with hin | hlater
          · omega
          · exact hlater
        · intro hcode
          have hbehind := h'.lt_of_holds hcode
          rcases holds_cons.mp ((hsame code).mpr (holds_cons.mpr (.inr hcode))) with hin | hlater
          · omega
          · exact hlater
      rw [ih h.tail h'.tail hrest]

/-! ### From gap to gap -/

theorem pairwise_insertSorted {n : Nat} (h : codes.Pairwise (· < ·)) :
    (insertSorted n codes).Pairwise (· < ·) := by
  induction codes with
  | nil => simp [insertSorted]
  | cons m codes ih =>
    obtain ⟨hm, hcodes⟩ := List.pairwise_cons.mp h
    unfold insertSorted
    by_cases hlt : n < m
    · rw [if_pos hlt, List.pairwise_cons]
      refine ⟨fun k hk => ?_, h⟩
      rcases List.mem_cons.mp hk with rfl | hk
      · exact hlt
      · exact Nat.lt_trans hlt (hm k hk)
    · by_cases heq : n = m
      · rwa [if_neg hlt, if_pos heq]
      · rw [if_neg hlt, if_neg heq, List.pairwise_cons]
        refine ⟨fun k hk => ?_, ih hcodes⟩
        rcases (mem_insertSorted n k codes).mp hk with rfl | hk
        · omega
        · exact hm k hk

/-- Sorting puts the numbers in order, each of them once. -/
theorem pairwise_sortedSet (codes : List Nat) : (sortedSet codes).Pairwise (· < ·) := by
  unfold sortedSet
  induction codes with
  | nil => exact List.Pairwise.nil
  | cons n codes ih => exact pairwise_insertSorted ih

/-- The code points that the gaps hold: all from `start` on, but those of the list. -/
theorem holds_gapsFrom (hsorted : codes.Pairwise (· < ·)) (hstart : ∀ c ∈ codes, start ≤ c)
    (hmax : ∀ c ∈ codes, c ≤ maxCodePoint) :
    Holds (gapsFrom start codes) code ↔ start ≤ code ∧ code ≤ maxCodePoint ∧ code ∉ codes := by
  induction codes generalizing start with
  | nil =>
    unfold gapsFrom
    by_cases h : start ≤ maxCodePoint
    · simp [h]
    · simp only [if_neg h, holds_nil, List.not_mem_nil, not_false_eq_true, and_true, false_iff]
      omega
  | cons c codes ih =>
    obtain ⟨hlater, hcodes⟩ := List.pairwise_cons.mp hsorted
    obtain ⟨hc, -⟩ := List.forall_mem_cons.mp hstart
    obtain ⟨hcmax, hmax⟩ := List.forall_mem_cons.mp hmax
    have hbehind : ∀ c' ∈ codes, c + 1 ≤ c' := hlater
    have hrest := ih hcodes hbehind hmax
    -- What lies before `c` is none of the later ones.
    have hbefore : code < c → code ∉ codes := by
      intro hlt hmem
      have hlt' := hlater code hmem
      omega
    unfold gapsFrom
    by_cases h : start < c
    · rw [if_pos h, holds_cons, hrest, List.mem_cons]
      constructor
      · rintro (⟨hlow, hhigh⟩ | ⟨hlow, hhigh, hmem⟩)
        · have hlt : code < c := Nat.lt_of_le_of_lt hhigh (Nat.sub_one_lt (Nat.ne_zero_of_lt h))
          exact ⟨hlow, by omega, not_or.mpr ⟨Nat.ne_of_lt hlt, hbefore hlt⟩⟩
        · exact ⟨by omega, hhigh, not_or.mpr ⟨by omega, hmem⟩⟩
      · rintro ⟨hlow, hhigh, hmem⟩
        obtain ⟨hne, hmem⟩ := not_or.mp hmem
        by_cases hlt : code < c
        · exact .inl ⟨hlow, Nat.le_sub_one_of_lt hlt⟩
        · exact .inr ⟨by omega, hhigh, hmem⟩
    · -- There is no gap in front of `c`.
      obtain rfl : start = c := by omega
      rw [if_neg h, hrest, List.mem_cons]
      constructor
      · rintro ⟨hlow, hhigh, hmem⟩
        exact ⟨by omega, hhigh, not_or.mpr ⟨by omega, hmem⟩⟩
      · rintro ⟨hlow, hhigh, hmem⟩
        obtain ⟨hne, hmem⟩ := not_or.mp hmem
        exact ⟨by omega, hhigh, hmem⟩

/-- The gaps are canonical: a code point that is left out lies between any two of them. -/
theorem isCanonical_gapsFrom (hsorted : codes.Pairwise (· < ·)) (hstart : ∀ c ∈ codes, start ≤ c)
    (hmax : ∀ c ∈ codes, c ≤ maxCodePoint) :
    IsCanonical (gapsFrom start codes) ∧ ∀ r ∈ gapsFrom start codes, start ≤ r.low := by
  induction codes generalizing start with
  | nil =>
    unfold gapsFrom
    by_cases h : start ≤ maxCodePoint
    · rw [if_pos h]
      exact ⟨⟨by simp [h], List.pairwise_singleton ..⟩, by simp⟩
    · rw [if_neg h]
      exact ⟨⟨by simp, List.Pairwise.nil⟩, by simp⟩
  | cons c codes ih =>
    obtain ⟨hlater, hcodes⟩ := List.pairwise_cons.mp hsorted
    obtain ⟨hc, -⟩ := List.forall_mem_cons.mp hstart
    obtain ⟨hcmax, hmax⟩ := List.forall_mem_cons.mp hmax
    have hrest : ∀ c' ∈ codes, c + 1 ≤ c' := hlater
    obtain ⟨hcanonical, hbehind⟩ := ih hcodes hrest hmax
    unfold gapsFrom
    by_cases h : start < c
    · rw [if_pos h]
      refine ⟨⟨?_, List.pairwise_cons.mpr ⟨?_, hcanonical.apart⟩⟩, ?_⟩
      · refine List.forall_mem_cons.mpr ⟨⟨?_, ?_⟩, hcanonical.inside⟩
        · show start ≤ c - 1
          omega
        · show c - 1 ≤ maxCodePoint
          omega
      · intro r hr
        have hlow := hbehind r hr
        show c - 1 + 1 < r.low
        omega
      · refine List.forall_mem_cons.mpr ⟨Nat.le_refl start, fun r hr => ?_⟩
        have hlow := hbehind r hr
        omega
    · rw [if_neg h]
      refine ⟨hcanonical, fun r hr => ?_⟩
      have hlow := hbehind r hr
      omega

section Complement

variable (hmax : ∀ c ∈ codes, c ≤ maxCodePoint)

include hmax

theorem isCanonical_complement : IsCanonical (complement codes) := by
  refine (isCanonical_gapsFrom (pairwise_sortedSet codes) (fun c _ => Nat.zero_le c) ?_).1
  simpa using hmax

theorem holds_complement : Holds (complement codes) code ↔ code ≤ maxCodePoint ∧ code ∉ codes := by
  have hsorted : ∀ c ∈ sortedSet codes, c ≤ maxCodePoint := by simpa using hmax
  rw [complement, holds_gapsFrom (pairwise_sortedSet codes) (fun c _ => Nat.zero_le c) hsorted,
    mem_sortedSet]
  simp

end Complement

/-! ### The checks of a class -/

/-- Bounds that belong to a canonical class can be kept, and pass the checks. -/
theorem ofBounds_of_isCanonical (h : IsCanonical ranges) :
    ∃ lower upper, WordVector.ofInts (ranges.map fun r => (r.low : Int)) = .ok lower ∧
      WordVector.ofInts (ranges.map fun r => (r.high : Int)) = .ok upper ∧
      ofBounds lower upper = .ok ranges := by
  -- A code point takes 21 bits, and a word has 64.
  have hword : maxCodePoint < UInt64.size := by decide
  have hlow : ∀ n ∈ ranges.map (·.low), n < UInt64.size := by
    rintro _ hn
    obtain ⟨r, hr, rfl⟩ := List.mem_map.mp hn
    have hinside := h.inside r hr
    omega
  have hhigh : ∀ n ∈ ranges.map (·.high), n < UInt64.size := by
    rintro _ hn
    obtain ⟨r, hr, rfl⟩ := List.mem_map.mp hn
    have hinside := h.inside r hr
    omega
  obtain ⟨lower, hlower, hlows⟩ := WordVector.ofInts_of_lt _ hlow
  obtain ⟨upper, hupper, hhighs⟩ := WordVector.ofInts_of_lt _ hhigh
  rw [List.map_map] at hlower hupper
  exact ⟨lower, upper, hlower, hupper, ofBounds_of_isProper hlows hhighs h.inside⟩

theorem excludingCodes_eq_ok (hmax : ∀ c ∈ codes, c ≤ maxCodePoint) :
    excludingCodes codes = .ok (complement codes) := by
  obtain ⟨lower, upper, hlower, hupper, hchecked⟩ :=
    ofBounds_of_isCanonical (isCanonical_complement hmax)
  simp only [excludingCodes, hlower, hupper]
  exact hchecked

theorem mapM_codePointOf_singleton (chars : List Char) :
    (chars.map String.singleton).mapM codePointOf = .ok (chars.map Char.toNat) := by
  induction chars with
  | nil => rfl
  | cons c chars ih =>
    have hc : codePointOf (.singleton c) = .ok c.toNat := by simp [codePointOf]
    simp only [List.map_cons, List.mapM_cons, hc, ih]
    rfl

/-- **The exact complement.** Leaving out any code points, in any order and with any repetitions,
    passes the checks of a class; the class finds a code point exactly if it is none of them; its
    ranges are in order, not empty and not adjacent, which no other list of ranges for these code
    points is; so they depend only on which code points are left out. Characters are left out by
    their code points. -/
theorem excluding_isCanonical (hmax : ∀ c ∈ codes, c ≤ maxCodePoint) :
    ∃ ranges, excludingCodes codes = .ok ranges ∧
      (∀ chars : List Char, chars.map Char.toNat = codes →
        excluding (chars.map String.singleton) = .ok ranges) ∧
      (∀ code ≤ maxCodePoint, (ranges.find? code).isSome = true ↔ code ∉ codes) ∧
      ranges.IsCanonical ∧
      (∀ ranges' : CharClass, ranges'.IsCanonical →
        (∀ code ≤ maxCodePoint, (ranges'.find? code).isSome = true ↔ code ∉ codes) →
        ranges' = ranges) ∧
      ∀ codes', (∀ code, code ∈ codes' ↔ code ∈ codes) → excludingCodes codes' = .ok ranges := by
  have hcanonical := isCanonical_complement hmax
  refine ⟨complement codes, excludingCodes_eq_ok hmax, ?_, ?_, hcanonical, ?_, ?_⟩
  · rintro chars rfl
    simp only [excluding, mapM_codePointOf_singleton]
    exact excludingCodes_eq_ok hmax
  · intro code hcode
    rw [isSome_find?_iff, holds_complement hmax, and_iff_right hcode]
  · intro ranges' hcanonical' hfinds
    refine hcanonical'.eq_of_holds_iff hcanonical fun code => ?_
    rw [holds_complement hmax]
    constructor
    · rintro ⟨r, hr, hlow, hhigh⟩
      have hcode : code ≤ maxCodePoint := Nat.le_trans hhigh (hcanonical'.inside r hr).2
      exact ⟨hcode, (hfinds code hcode).mp (isSome_find?_iff.mpr ⟨r, hr, hlow, hhigh⟩)⟩
    · rintro ⟨hcode, hmem⟩
      exact isSome_find?_iff.mp ((hfinds code hcode).mpr hmem)
  · intro codes' hsame
    have hmax' : ∀ c ∈ codes', c ≤ maxCodePoint := fun c hc => hmax c ((hsame c).mp hc)
    rw [excludingCodes_eq_ok hmax']
    refine congrArg Except.ok ((isCanonical_complement hmax').eq_of_holds_iff hcanonical ?_)
    intro code
    rw [holds_complement hmax', holds_complement hmax, hsame]

/-- Neighbours, a repetition, and both ends of the code points. -/
theorem excluding_isCanonical_ends :
    excluding ["c", "\x00", "b", String.singleton (Char.ofNat 0x10ffff), "c"] =
      .ok [⟨1, 0x61⟩, ⟨0x64, 0x10fffe⟩] := by
  have hmax : ∀ c ∈ [0x63, 0, 0x62, 0x10ffff, 0x63], c ≤ maxCodePoint := by decide
  obtain ⟨ranges, hcodes, hchars, -⟩ := excluding_isCanonical hmax
  have hranges : ranges = [⟨1, 0x61⟩, ⟨0x64, 0x10fffe⟩] := by
    rw [excludingCodes_eq_ok hmax, Except.ok.injEq] at hcodes
    rw [← hcodes]
    decide
  rw [← hranges]
  exact hchars ['c', '\x00', 'b', Char.ofNat 0x10ffff, 'c'] (by decide)

end CharClass

end GrammarEngine
