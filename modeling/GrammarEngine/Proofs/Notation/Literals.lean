import GrammarEngine.Proofs.Notation.Blanks
import GrammarEngine.Proofs.Notation.Derivation
import GrammarEngine.Proofs.Notation.Items
import GrammarEngine.Proofs.Notation.Reading

namespace GrammarEngine.Notation

/-!
# Reading names and literals

However a name or a literal is written, it is read as a whole, and as what it is.

* `reads_ID` — names;
* `reads_char`, `reads_charText` — a character between quotes or in a class, in any spelling, and
  with digits that may be none of it;
* `reads_classText`, `reads_class` — classes, with ranges that may be backwards, or not;
* `reads_single`, `reads_several` — quoted literals;
* `reads_literal` — literals.
-/

variable {text rest : List Char} {skip : Ref} {p : Nat}

/-! ### Names -/

theorem readsOne_letter :
    ReadsOne Value rank ruleSet.graph text (.node 0) (isLetter · = true) := by
  refine readsOne_class 0 rfl fun c => ?_
  rw [isLetter_iff]
  simp

theorem readsOne_wordChar :
    ReadsOne Value rank ruleSet.graph text (.node 1) (isWordChar · = true) := by
  refine readsOne_class 1 rfl fun c => ?_
  rw [isWordChar_iff]
  simp
  omega

theorem skipInside_ID : skipInside (.given "ID") skip = .zeroLength := if_pos isLexical_ID

/-- A name is read as far as it goes. -/
theorem reads_ID (skip : Ref) {name : String} (hname : isID name = true)
    (hrest : ∀ c ∈ rest.head?, ¬ isWordChar c = true) (hdrop : text.drop p = name.toList ++ rest) :
    ∃ t, Reads text Sym.ID skip p (some (t, p + name.length)) ∧ t.isEmpty = false ∧
      Quiet heard t ∧ t.substring = name := by
  obtain ⟨first, cs, hlist, hfirst, hcs⟩ : ∃ first cs, name.toList = first :: cs ∧
      isLetter first = true ∧ ∀ c ∈ cs, isWordChar c = true := by
    unfold isID at hname
    split at hname
    · cases hname
    · rename_i first cs hlist
      rw [Bool.and_eq_true, List.all_eq_true] at hname
      exact ⟨first, cs, hlist, hname⟩
  have hlength : name.length = cs.length + 1 := by
    rw [← String.length_toList, hlist, List.length_cons]
  have hslice : slice text p (p + name.length) = name := by
    rw [← String.length_toList, slice_of_drop hdrop, String.ofList_toList]
  rw [hlist, List.cons_append] at hdrop
  obtain ⟨t, hgives, hcovers⟩ := readsOne_letter.gives p first _ hdrop hfirst
  have hlater : text.drop (p + 1) = cs ++ rest := drop_of_drop (s := [first]) hdrop
  obtain ⟨ts, hrun, hcount⟩ := readsOne_wordChar.run hcs hrest hlater
  have hstar : Reads text (.node 3) .zeroLength (p + 1) _ :=
    hrun.star isRanked (symbol_node rfl) (symbol_node rfl) (by rintro rfl; simp [← hcount])
  have hempty : (Token.spanning .star (.generated 3) text (p + 1) (p + 1 + cs.length)
      ts).isEmpty = true → p + 1 + cs.length = p + 1 := by
    by_cases hne : cs = []
    · simp [hne]
    · exact hstar.stop_eq (by simp [hlater, hne])
  have hID : Reads text Sym.ID skip p _ :=
    .sequence isRanked (symbol_node rfl) skipInside_ID hgives hcovers
      (.next hstar hempty (.nil _ _))
  have hstop : p + 1 + cs.length = p + name.length := by omega
  rw [hstop] at hID
  have hmade := hID.made (Nat.le_of_lt (lt_length_of_drop (by simp [hdrop])))
  exact ⟨_, hID, isEmpty_spanning (by simp [hdrop]) (by omega), (made_ID hmade).quiet, hslice⟩

theorem ID_fails (h : ∀ c ∈ (text.drop p).head?, ¬ isLetter c = true) :
    Reads text Sym.ID skip p none :=
  .sequence_fails isRanked (symbol_node rfl) skipInside_ID (readsOne_letter.fails p h)

/-! ### Characters -/

/-- What can follow a backslash and nothing else is in a class. -/
theorem escapable_find? : ∀ c ∈ escapable, (CharClass.find? [⟨116, 116⟩, ⟨110, 110⟩, ⟨114, 114⟩,
    ⟨34, 34⟩, ⟨39, 39⟩, ⟨45, 45⟩, ⟨92, 92⟩, ⟨93, 93⟩] c.toNat).isSome = true := by
  simp only [escapable, List.forall_mem_cons]
  exact ⟨rfl, rfl, rfl, rfl, rfl, rfl, rfl, rfl, nofun⟩

theorem escape_fails (h : (text.drop p).head? ≠ some '\\') :
    Reads text Sym.escape .zeroLength p none :=
  .sequence_fails isRanked (symbol_node rfl) (skipInside_zeroLength _)
    (.character_fails (symbol_node rfl) h)

/-- A backslash and a letter. -/
theorem reads_letter {c : Char} (hc : c ∈ escapable) (hdrop : text.drop p = '\\' :: c :: rest) :
    ∃ t, Reads text Sym.escape .zeroLength p (some (t, p + 2)) ∧ t.isEmpty = false ∧
      IsChar t (.ok (letter c)) := by
  obtain ⟨ordinal, hfind⟩ := Option.isSome_iff_exists.mp (escapable_find? c hc)
  have hbackslash : Reads text (.node 6) .zeroLength p _ := .character (symbol_node rfl) hdrop
  have hletter : Reads text (.node 7) .zeroLength (p + 1) _ :=
    .switch (symbol_node rfl) (drop_of_drop (s := ['\\']) hdrop) hfind
  have hwhich : Reads text (.node 10) .zeroLength (p + 1) _ :=
    .junction isRanked (symbol_node rfl) rfl (.matched hletter)
  have hescape : Reads text Sym.escape .zeroLength p _ :=
    .sequence isRanked (symbol_node rfl) (skipInside_zeroLength _) hbackslash
      (isEmpty_singleton ..) (.covers (.zeroLength _) hwhich (by simp) (.nil _ _))
  exact ⟨_, hescape, isEmpty_spanning (by simp [hdrop]) (by omega),
    isChar_letter (quiet_leaf rfl) (quiet_leaf rfl) rfl⟩

theorem reads_digit {c : Char} (hc : c.isDigit = true) (hdrop : text.drop p = c :: rest) :
    ∃ t, Reads text Sym.DIGIT .zeroLength p (some (t, p + 1)) ∧ t.isEmpty = false := by
  have hone : ReadsOne Value rank ruleSet.graph text Sym.DIGIT fun c => 48 ≤ c.toNat ∧ c.toNat ≤ 57 :=
    readsOne_class 5 rfl fun c => by simp
  simp only [Char.isDigit, Bool.and_eq_true, decide_eq_true_eq, ge_iff_le,
    UInt32.le_iff_toNat_le] at hc
  exact hone.gives p c rest hdrop hc

/-- A backslash and four digits, octal or not. -/
theorem reads_number {digits : List Char} (hlength : digits.length = 4)
    (hall : digits.all Char.isDigit = true)
    (hdrop : text.drop p = '\\' :: 'u' :: (digits ++ rest)) :
    ∃ t e, Reads text Sym.escape .zeroLength p (some (t, p + ('\\' :: 'u' :: digits).length)) ∧
      t.isEmpty = false ∧ IsChar t
        (if digits.all isOctal then .ok (Char.ofNat (octalValue digits)) else .error e) := by
  match digits, hlength with
  | [a, b, c, d], _ =>
    simp only [List.all_cons, List.all_nil, Bool.and_eq_true, and_true] at hall
    obtain ⟨ha, hb, hc, hd⟩ := hall
    have hu : text.drop (p + 1) = 'u' :: a :: b :: c :: d :: rest :=
      drop_of_drop (s := ['\\']) hdrop
    have hbackslash : Reads text (.node 6) .zeroLength p _ := .character (symbol_node rfl) hdrop
    have hletter : Reads text (.node 7) .zeroLength (p + 1) none :=
      .switch_fails (symbol_node rfl) (by rw [hu]; rintro _ ⟨⟩; decide)
    have hmark : Reads text (.node 8) .zeroLength (p + 1) _ := .character (symbol_node rfl) hu
    obtain ⟨t₁, h₁, hcovers₁⟩ := reads_digit ha (drop_of_drop (s := ['u']) hu)
    obtain ⟨t₂, h₂, hcovers₂⟩ := reads_digit hb (drop_of_drop (s := ['u', a]) hu)
    obtain ⟨t₃, h₃, hcovers₃⟩ := reads_digit hc (drop_of_drop (s := ['u', a, b]) hu)
    obtain ⟨t₄, h₄, hcovers₄⟩ := reads_digit hd (drop_of_drop (s := ['u', a, b, c]) hu)
    have hnumber : Reads text (.node 9) .zeroLength (p + 1) _ :=
      .sequence isRanked (symbol_node rfl) rfl hmark (isEmpty_singleton ..)
        (.covers (.zeroLength _) h₁ hcovers₁ (.covers (.zeroLength _) h₂ hcovers₂
          (.covers (.zeroLength _) h₃ hcovers₃ (.covers (.zeroLength _) h₄ hcovers₄ (.nil _ _)))))
    have hcovers : (Token.spanning (α := Value) .sequence (.generated 9) text (p + 1) (p + 6)
        [.leaf .character (.generated 8) (.singleton 'u') (p + 1 : Nat) 0, t₁, t₂, t₃,
          t₄]).isEmpty = false := isEmpty_spanning (by simp [hu]) (by omega)
    have hwhich : Reads text (.node 10) .zeroLength (p + 1) _ :=
      .junction isRanked (symbol_node rfl) rfl (.failed hletter (.matched hnumber))
    have hescape : Reads text Sym.escape .zeroLength p _ :=
      .sequence isRanked (symbol_node rfl) (skipInside_zeroLength _) hbackslash
        (isEmpty_singleton ..) (.covers (.zeroLength _) hwhich hcovers (.nil _ _))
    -- The digits are the text of the number without its letter.
    have hslice : (slice text (p + 1) (p + 6)).toList = ['u', a, b, c, d] := by
      have hspelt := slice_of_drop (s := ['u', a, b, c, d]) hu
      rw [show p + 6 = p + 1 + ['u', a, b, c, d].length from rfl, hspelt, String.toList_ofList]
    obtain ⟨⟨hquiet, -⟩, hsort, -⟩ :=
      made_number (hnumber.made (Nat.le_of_lt (lt_length_of_drop (by simp [hu]))))
    have hfirst : Quiet heard (.leaf .character (.generated 6) (.singleton '\\') p 0) :=
      quiet_leaf rfl
    obtain ⟨e, hchar⟩ := isChar_octal hfirst hquiet hsort hslice rfl
    exact ⟨_, e, hescape, isEmpty_spanning (by simp [hdrop]) (by simp; omega), hchar⟩

/-- A backslash and octal digits. -/
theorem reads_octal {digits : List (Fin 8)} (hlength : digits.length = 4)
    (hdrop : text.drop p = '\\' :: 'u' :: (octalChars digits ++ rest)) :
    ∃ t, Reads text Sym.escape .zeroLength p
        (some (t, p + ('\\' :: 'u' :: octalChars digits).length)) ∧
      t.isEmpty = false ∧ IsChar t (.ok (Char.ofNat (octalNumber digits))) := by
  obtain ⟨t, e, hreads, hcovers, hchar⟩ :=
    reads_number ((length_octalChars digits).trans hlength) (isDigit_octalChars digits) hdrop
  rw [if_pos (isOctal_octalChars digits), octalValue_octalChars] at hchar
  exact ⟨t, hreads, hcovers, hchar⟩

section

variable {index serial : Nat} {name : Name} {ranges : CharClass} {reserved s : List Char}

/-- A character that is escaped. -/
theorem reads_escaped {t : Token Value} {q : Nat}
    (hsymbol : layout[index]? = some ⟨name, .junction [Sym.escape, .node serial]⟩)
    (h : Reads text Sym.escape .zeroLength p (some (t, q))) :
    Reads text (.node index) .zeroLength p (some (.over .junction name 0 t, q)) :=
  .junction isRanked (symbol_node hsymbol) (skipInside_zeroLength name) (.matched h)

/-- A character that stands for itself. -/
theorem reads_itself {c : Char}
    (hsymbol : layout[index]? = some ⟨name, .junction [Sym.escape, .node serial]⟩)
    (hplain : layout[serial]? = some ⟨.generated serial, .switch ranges⟩)
    (hranges : ∀ c, ranges.any (·.contains c.toNat) = true ↔ c ∉ reserved)
    (hbackslash : '\\' ∈ reserved) (hname : heard name = some (.ofStep char))
    (hfree : c ∉ reserved) (hdrop : text.drop p = c :: rest) :
    ∃ t, Reads text (.node index) .zeroLength p (some (t, p + 1)) ∧ t.isEmpty = false ∧
      IsChar t (.ok c) := by
  have hne : c ≠ '\\' := fun heq => hfree (heq ▸ hbackslash)
  obtain ⟨ordinal, hfind⟩ : ∃ ordinal, ranges.find? c.toNat = some ordinal := by
    rw [← Option.isSome_iff_exists, CharClass.isSome_find?, hranges]
    exact hfree
  have hgives : Reads text (.node serial) .zeroLength p _ :=
    .switch (symbol_node hplain) hdrop hfind
  have hfails : Reads text Sym.escape .zeroLength p none :=
    escape_fails (by rw [hdrop]; simpa using hne)
  exact ⟨_, .junction isRanked (symbol_node hsymbol) (skipInside_zeroLength name)
    (.failed hfails (.matched hgives)), by simp,
    isChar_raw (quiet_leaf rfl) hname rfl⟩

/-- However a character is written, it is read as a whole. -/
theorem reads_char {c : Char}
    (hsymbol : layout[index]? = some ⟨name, .junction [Sym.escape, .node serial]⟩)
    (hplain : layout[serial]? = some ⟨.generated serial, .switch ranges⟩)
    (hranges : ∀ c, ranges.any (·.contains c.toNat) = true ↔ c ∉ reserved)
    (hbackslash : '\\' ∈ reserved) (hname : heard name = some (.ofStep char))
    (h : SpellsChar reserved c s) (hdrop : text.drop p = s ++ rest) :
    ∃ t, Reads text (.node index) .zeroLength p (some (t, p + s.length)) ∧ t.isEmpty = false ∧
      IsChar t (.ok c) := by
  cases h with
  | raw free => exact reads_itself hsymbol hplain hranges hbackslash hname free hdrop
  | escaped mem =>
    obtain ⟨t, hgives, hcovers, hchar⟩ := reads_letter mem hdrop
    exact ⟨_, reads_escaped hsymbol hgives, hcovers, isChar_escaped hchar hname⟩
  | octal length_eq =>
    obtain ⟨t, hgives, hcovers, hchar⟩ := reads_octal length_eq hdrop
    exact ⟨_, reads_escaped hsymbol hgives, hcovers, isChar_escaped hchar hname⟩

/-- What looks like a character is read as a whole too, whether or not its digits are octal. -/
theorem reads_charText
    (hsymbol : layout[index]? = some ⟨name, .junction [Sym.escape, .node serial]⟩)
    (hplain : layout[serial]? = some ⟨.generated serial, .switch ranges⟩)
    (hranges : ∀ c, ranges.any (·.contains c.toNat) = true ↔ c ∉ reserved)
    (hbackslash : '\\' ∈ reserved) (hname : heard name = some (.ofStep char))
    (h : IsCharText reserved s) (hdrop : text.drop p = s ++ rest) :
    ∃ t, Reads text (.node index) .zeroLength p (some (t, p + s.length)) ∧ t.isEmpty = false := by
  cases h with
  | plain free =>
    obtain ⟨t, hgives, hcovers, -⟩ :=
      reads_itself hsymbol hplain hranges hbackslash hname free hdrop
    exact ⟨t, hgives, hcovers⟩
  | escaped mem =>
    obtain ⟨t, hgives, hcovers, -⟩ := reads_letter mem hdrop
    exact ⟨_, reads_escaped hsymbol hgives, hcovers⟩
  | digits length_eq all =>
    obtain ⟨t, e, hgives, hcovers, -⟩ := reads_number length_eq all hdrop
    exact ⟨_, reads_escaped hsymbol hgives, hcovers⟩

end

theorem quotedChar_iff (c : Char) : List.any [(⟨0, 33⟩ : CodeRange), ⟨35, 91⟩, ⟨93, maxCodePoint⟩]
    (·.contains c.toNat) = true ↔ c ∉ quotedReserved := by
  have hle := toNat_le c
  have hquote : '"'.toNat = 34 := rfl
  have hbackslash : '\\'.toNat = 92 := rfl
  simp only [quotedReserved, List.mem_cons, List.not_mem_nil, or_false, not_or, ← ne_eq,
    ne_iff_toNat_ne, hquote, hbackslash]
  simp
  omega

theorem classChar_iff (c : Char) : List.any [(⟨0, 44⟩ : CodeRange), ⟨46, 91⟩, ⟨94, maxCodePoint⟩]
    (·.contains c.toNat) = true ↔ c ∉ classReserved := by
  have hle := toNat_le c
  have hminus : '-'.toNat = 45 := rfl
  have hbackslash : '\\'.toNat = 92 := rfl
  have hbracket : ']'.toNat = 93 := rfl
  simp only [classReserved, List.mem_cons, List.not_mem_nil, or_false, not_or, ← ne_eq,
    ne_iff_toNat_ne, hminus, hbackslash, hbracket]
  simp
  omega

theorem reads_quotedChar {c : Char} {s : List Char} (h : SpellsChar quotedReserved c s)
    (hdrop : text.drop p = s ++ rest) :
    ∃ t, Reads text Sym.char .zeroLength p (some (t, p + s.length)) ∧ t.isEmpty = false ∧
      IsChar t (.ok c) :=
  reads_char rfl rfl quotedChar_iff (by decide) rfl h hdrop

theorem reads_classChar {c : Char} {s : List Char} (h : SpellsChar classReserved c s)
    (hdrop : text.drop p = s ++ rest) :
    ∃ t, Reads text Sym.rangeChar .zeroLength p (some (t, p + s.length)) ∧ t.isEmpty = false ∧
      IsChar t (.ok c) :=
  reads_char rfl rfl classChar_iff (by decide) rfl h hdrop

theorem reads_classCharText {s : List Char} (h : IsCharText classReserved s)
    (hdrop : text.drop p = s ++ rest) :
    ∃ t, Reads text Sym.rangeChar .zeroLength p (some (t, p + s.length)) ∧ t.isEmpty = false :=
  reads_charText rfl rfl classChar_iff (by decide) rfl h hdrop

/-- What cannot stand for itself and is no backslash is no character of a literal. -/
theorem char_fails {index serial : Nat} {name : Name} {ranges : CharClass}
    {reserved : List Char} {c : Char}
    (hsymbol : layout[index]? = some ⟨name, .junction [Sym.escape, .node serial]⟩)
    (hplain : layout[serial]? = some ⟨.generated serial, .switch ranges⟩)
    (hranges : ∀ c, ranges.any (·.contains c.toNat) = true ↔ c ∉ reserved)
    (hc : c ∈ reserved) (hne : c ≠ '\\') (hdrop : text.drop p = c :: rest) :
    Reads text (.node index) .zeroLength p none := by
  have hescape : Reads text Sym.escape .zeroLength p none :=
    escape_fails (by rw [hdrop]; simpa using hne)
  have hraw : Reads text (.node serial) .zeroLength p none :=
    (readsOne_class serial hplain hranges).fails p (by rw [hdrop]; simpa using hc)
  exact .junction_fails isRanked (symbol_node hsymbol) (skipInside_zeroLength name)
    (.failed hescape (.failed hraw .nil))

theorem quotedChar_fails (hdrop : text.drop p = '"' :: rest) :
    Reads text Sym.char .zeroLength p none :=
  char_fails rfl rfl quotedChar_iff (by decide) (by decide) hdrop

theorem classChar_fails (hdrop : text.drop p = ']' :: rest) :
    Reads text Sym.rangeChar .zeroLength p none :=
  char_fails rfl rfl classChar_iff (by decide) (by decide) hdrop

/-! ### Classes -/

/-- What a range comes to: itself, or an error if it is backwards. -/
structure RangeSays (range : CodeRange) (r : Except ParseError CodeRange) : Prop where
  ordered : range.low ≤ range.high → r = .ok range
  backwards : range.high < range.low → ∃ e, r = .error e ∧ e.isSemantic = true

theorem RangeSays.of_le {range : CodeRange} (h : range.low ≤ range.high) :
    RangeSays range (.ok range) :=
  ⟨fun _ => rfl, fun hlt => absurd h (Nat.not_le.mpr hlt)⟩

/-- From one character to another. -/
theorem reads_span {low high : Char} {s s' : List Char} (hlow : SpellsChar classReserved low s)
    (hhigh : SpellsChar classReserved high s') (hdrop : text.drop p = s ++ '-' :: (s' ++ rest)) :
    ∃ t r, Reads text (.node 25) .zeroLength p (some (t, p + (s ++ '-' :: s').length)) ∧
      t.isEmpty = false ∧ t.sort = .node .junction ∧ IsItem t (.ok r) ∧
      RangeSays ⟨low.toNat, high.toNat⟩ r := by
  have hdrop' := drop_of_drop hdrop
  obtain ⟨t₁, h₁, hcovers₁, hchar₁⟩ := reads_classChar hlow hdrop
  have hminus : Reads text (.node 21) .zeroLength (p + s.length) _ :=
    .character (symbol_node rfl) hdrop'
  obtain ⟨t₂, h₂, hcovers₂, hchar₂⟩ := reads_classChar hhigh (drop_of_drop (s := ['-']) hdrop')
  have hspan : Reads text (.node 22) .zeroLength p _ :=
    .sequence isRanked (symbol_node rfl) rfl h₁ hcovers₁
      (.covers (.zeroLength _) hminus (isEmpty_singleton ..)
        (.covers (.zeroLength _) h₂ hcovers₂ (.nil _ _)))
  have hitem : Reads text (.node 25) .zeroLength p _ :=
    .junction isRanked (symbol_node rfl) rfl (.matched hspan)
  have hstop : p + s.length + ['-'].length + s'.length = p + (s ++ '-' :: s').length := by
    simp
    omega
  rw [hstop] at hitem
  have hlt : p < p + (s ++ '-' :: s').length := by
    rw [List.length_append, List.length_cons]
    omega
  refine ⟨_, _, hitem, ?_, rfl, isItem_range hchar₁ (quiet_leaf rfl) hchar₂, ?_, ?_⟩
  · rw [isEmpty_over]
    exact isEmpty_spanning (by simp [hdrop]) hlt
  · exact fun hordered => if_neg (Nat.not_lt.mpr hordered)
  · exact fun hbackwards => ⟨_, if_pos hbackwards, rfl⟩

/-- A single character, with no minus sign behind it. -/
theorem reads_lone {c : Char} {s : List Char} (h : SpellsChar classReserved c s)
    (hrest : rest.head? ≠ some '-') (hdrop : text.drop p = s ++ rest) :
    ∃ t, Reads text (.node 25) .zeroLength p (some (t, p + s.length)) ∧ t.isEmpty = false ∧
      t.sort = .node .junction ∧ IsItem t (.ok (.ok ⟨c.toNat, c.toNat⟩)) := by
  have hrest : (text.drop (p + s.length)).head? ≠ some '-' := by rwa [drop_of_drop hdrop]
  obtain ⟨t, hgives, hcovers, hchar⟩ := reads_classChar h hdrop
  have hminus : Reads text (.node 21) .zeroLength (p + s.length) none :=
    .character_fails (symbol_node rfl) hrest
  have hminus' : Reads text (.node 23) .zeroLength (p + s.length) none :=
    .character_fails (symbol_node rfl) hrest
  have hspan : Reads text (.node 22) .zeroLength p none :=
    .sequence_laterFails isRanked (symbol_node rfl) rfl hgives hcovers
      (.fails (.zeroLength _) hminus)
  have honward : Reads text (.node 24) .zeroLength p none :=
    .sequence_laterFails isRanked (symbol_node rfl) rfl hgives hcovers
      (.fails (.zeroLength _) hminus')
  exact ⟨_, .junction isRanked (symbol_node rfl) rfl
    (.failed hspan (.failed honward (.matched hgives))), hcovers, rfl, isItem_lone hchar⟩

/-- A character and all after it, at the end of a class. -/
theorem reads_onward {c : Char} {s : List Char} (h : SpellsChar classReserved c s)
    (hdrop : text.drop p = s ++ '-' :: ']' :: rest) :
    ∃ t, Reads text (.node 25) .zeroLength p (some (t, p + (s ++ ['-']).length)) ∧
      t.isEmpty = false ∧ t.sort = .node .junction ∧
      IsItem t (.ok (.ok ⟨c.toNat, maxCodePoint⟩)) := by
  have hdrop' := drop_of_drop hdrop
  obtain ⟨t, hgives, hcovers, hchar⟩ := reads_classChar h hdrop
  have hminus : Reads text (.node 21) .zeroLength (p + s.length) _ :=
    .character (symbol_node rfl) hdrop'
  have hminus' : Reads text (.node 23) .zeroLength (p + s.length) _ :=
    .character (symbol_node rfl) hdrop'
  have hspan : Reads text (.node 22) .zeroLength p none :=
    .sequence_laterFails isRanked (symbol_node rfl) rfl hgives hcovers
      (.laterFails (.zeroLength _) hminus (isEmpty_singleton ..)
        (.fails (.zeroLength _) (classChar_fails (drop_of_drop (s := ['-']) hdrop'))))
  have honward : Reads text (.node 24) .zeroLength p _ :=
    .sequence isRanked (symbol_node rfl) rfl hgives hcovers
      (.covers (.zeroLength _) hminus' (isEmpty_singleton ..) (.nil _ _))
  have hitem : Reads text (.node 25) .zeroLength p _ :=
    .junction isRanked (symbol_node rfl) rfl (.failed hspan (.matched honward))
  have hstop : p + s.length + 1 = p + (s ++ ['-']).length := by simp; omega
  rw [hstop] at hitem
  exact ⟨_, hitem, by rw [isEmpty_over]; exact isEmpty_spanning (by simp [hdrop]) (by simp), rfl,
    isItem_onward hchar (quiet_leaf rfl)⟩

/-- At the end of a class there is no item. -/
theorem item_fails (hdrop : text.drop p = ']' :: rest) :
    Reads text (.node 25) .zeroLength p none := by
  have hfails := classChar_fails hdrop
  have hspan : Reads text (.node 22) .zeroLength p none :=
    .sequence_fails isRanked (symbol_node rfl) rfl hfails
  have honward : Reads text (.node 24) .zeroLength p none :=
    .sequence_fails isRanked (symbol_node rfl) rfl hfails
  exact .junction_fails isRanked (symbol_node rfl) rfl
    (.failed hspan (.failed honward (.failed hfails .nil)))

/-- Ahead of the rest of a class is no minus sign. -/
theorem ClassText.no_minus (c : ClassText) (rest : List Char) :
    (c.laterChars ++ ']' :: rest).head? ≠ some '-' := by
  have hhead : ∀ {cs later : List Char}, (∃ first rest, cs = first :: rest ∧
      (first ∈ classReserved → first = '\\')) → (cs ++ later).head? ≠ some '-' := by
    rintro cs later ⟨first, rest, rfl, hfirst⟩ ⟨⟩
    exact absurd (hfirst (by decide)) (by decide)
  obtain ⟨upTo, _ | ⟨item, items⟩, onward⟩ := c
  · cases onward with
    | none => exact nofun
    | some s =>
      simp only [laterChars, List.flatMap_nil, Option.toList_some, List.flatMap_singleton,
        List.nil_append, List.append_assoc]
      exact hhead s.head
  · simp only [laterChars, List.flatMap_cons, List.append_assoc]
    exact hhead item.head

/-- An item of a class, with no minus sign behind it. -/
theorem reads_item (item : ClassItem) (hrest : rest.head? ≠ some '-')
    (hdrop : text.drop p = item.chars ++ rest) :
    ∃ t r, Reads text (.node 25) .zeroLength p (some (t, p + item.chars.length)) ∧
      t.isEmpty = false ∧ t.sort = .node .junction ∧ IsItem t (.ok r) ∧
      RangeSays item.range r := by
  cases item with
  | lone c =>
    obtain ⟨t, hgives, hcovers, hsort, hitem⟩ := reads_lone c.spells hrest hdrop
    exact ⟨t, _, hgives, hcovers, hsort, hitem, .of_le (Nat.le_refl _)⟩
  | span low high =>
    exact reads_span low.spells high.spells (by simpa [ClassItem.chars] using hdrop)

/-- The items of a class up to its end. -/
theorem run_items (c : ClassText) (hdrop : text.drop p = c.laterChars ++ ']' :: rest) :
    ∃ ts rs, RunGives rank ruleSet.graph text (.node 25) p (p + c.laterChars.length, ts) ∧
      (ts = [] → c.laterChars = []) ∧ (∀ t ∈ ts, t.sort = .node .junction) ∧
      List.Forall₂ IsItem ts (rs.map .ok) ∧ List.Forall₂ RangeSays c.later rs := by
  obtain ⟨upTo, items, onward⟩ := c
  induction items generalizing p with
  | nil =>
    cases onward with
    | none => exact ⟨[], [], .stops (item_fails hdrop), fun _ => rfl, by simp, .nil, .nil⟩
    | some s =>
      have hchars : (ClassText.mk upTo [] (some s)).laterChars = s.chars ++ ['-'] := by
        simp [ClassText.laterChars]
      rw [hchars] at hdrop ⊢
      obtain ⟨t, hgives, hcovers, hsort, hitem⟩ := reads_onward s.spells (by simpa using hdrop)
      exact ⟨[t], [_], .goes hgives hcovers (.stops (item_fails (drop_of_drop hdrop))), by simp,
        by simpa using hsort, .cons hitem .nil, .cons (.of_le (toNat_le _)) .nil⟩
  | cons item items ih =>
    have hchars : (ClassText.mk upTo (item :: items) onward).laterChars =
        item.chars ++ (ClassText.mk upTo items onward).laterChars := by
      simp [ClassText.laterChars]
    rw [hchars, List.append_assoc] at hdrop
    rw [hchars, List.length_append, ← Nat.add_assoc]
    obtain ⟨t, r, hgives, hcovers, hsort, hitem, htold⟩ :=
      reads_item item (ClassText.no_minus _ _) hdrop
    obtain ⟨ts, rs, hrun, -, hsorts, hitems, hranges⟩ := ih (drop_of_drop hdrop)
    exact ⟨t :: ts, r :: rs, .goes hgives hcovers hrun, by simp,
      List.forall_mem_cons.mpr ⟨hsort, hsorts⟩, .cons hitem hitems, .cons htold hranges⟩

/-- What a class comes to: its ranges in their order, or an error if one of them is backwards. -/
structure ClassText.Says (c : ClassText) (r : Except ParseError Literal) : Prop where
  ordered : c.isOrdered = true → r = .ok (.oneOf c.ranges)
  backwards : c.isOrdered = false → ∃ e, r = .error e ∧ e.isSemantic = true

theorem ClassText.isOrdered_iff (c : ClassText) :
    c.isOrdered = true ↔ ∀ range ∈ c.later, range.low ≤ range.high := by
  have honward : ∀ range ∈ c.onward.toList.map fun s => CodeRange.mk s.char.toNat maxCodePoint,
      range.low ≤ range.high := by
    intro range hrange
    obtain ⟨s, -, rfl⟩ := List.mem_map.mp hrange
    exact toNat_le _
  rw [later, List.forall_mem_append, and_iff_left honward, List.forall_mem_map, isOrdered,
    List.all_eq_true]
  simp only [decide_eq_true_eq]

/-- The first range that is backwards is the one that counts. -/
theorem mapM_ranges {ranges : CharClass} {rs : List (Except ParseError CodeRange)}
    (h : List.Forall₂ RangeSays ranges rs) :
    ((∀ range ∈ ranges, range.low ≤ range.high) → rs.mapM id = .ok ranges) ∧
    (¬ (∀ range ∈ ranges, range.low ≤ range.high) →
      ∃ e, rs.mapM id = .error e ∧ e.isSemantic = true) := by
  induction h with
  | nil => exact ⟨fun _ => rfl, fun hnot => absurd (by simp) hnot⟩
  | @cons range r ranges rs htold _ ih =>
    rw [List.mapM_cons]
    by_cases hordered : range.low ≤ range.high
    · obtain rfl := htold.ordered hordered
      rw [List.forall_mem_cons, and_iff_right hordered]
      refine ⟨fun hall => ?_, fun hnot => ?_⟩
      · rw [ih.1 hall]
        rfl
      · obtain ⟨e, hrest, he⟩ := ih.2 hnot
        refine ⟨e, ?_, he⟩
        rw [hrest]
        rfl
    · obtain ⟨e, rfl, he⟩ := htold.backwards (Nat.not_le.mp hordered)
      exact ⟨fun hall => absurd (hall range List.mem_cons_self) hordered, fun _ => ⟨e, rfl, he⟩⟩

theorem classOf_text (start : Int) (c : ClassText) {rs : List (Except ParseError CodeRange)}
    (h : List.Forall₂ RangeSays c.later rs) :
    c.Says (classOf start (.ok (c.upTo.toList.map fun s => ⟨0, s.char.toNat⟩)) (rs.map .ok)) := by
  obtain ⟨hok, herror⟩ := mapM_ranges h
  rw [← c.isOrdered_iff] at hok herror
  constructor
  · intro hordered
    simp only [classOf, mapM_ok, hok hordered, bind, Except.bind, Except.mapError]
    rfl
  · intro hbackwards
    obtain ⟨e, hranges, he⟩ := herror (by rw [hbackwards]; exact Bool.false_ne_true)
    simp only [classOf, mapM_ok, hranges, bind, Except.bind, Except.mapError]
    refine ⟨_, rfl, ?_⟩
    unfold ParseError.anchor
    split <;> exact he

/-- A class, given its first part. -/
theorem reads_classOf {u : Token Value} {q : Nat} (c : ClassText)
    (hopening : text.drop p = '[' :: rest) (hnot : ¬ "[-]".toList <+: text.drop p)
    (hupTo : Reads text (.node 20) .zeroLength (p + 1) (some (u, q)))
    (hempty : u.isEmpty = true → q = p + 1) (hsort : u.sort = .node .option)
    (hfirst : IsUpTo u (.ok (c.upTo.toList.map fun s => ⟨0, s.char.toNat⟩))) {rest' : List Char}
    (hdrop : text.drop q = c.laterChars ++ ']' :: rest') :
    ∃ t r, Reads text Sym.switch .zeroLength p (some (t, q + c.laterChars.length + 1)) ∧
      t.isEmpty = false ∧ IsExpr t (.literal r) ∧ c.Says r := by
  have hany : Reads text (.node 16) .zeroLength p none := .literal_fails (symbol_node rfl) hnot
  have hbracket : Reads text (.node 17) .zeroLength p _ := .character (symbol_node rfl) hopening
  obtain ⟨ts, rs, hrun, hts, hsorts, hitems, htold⟩ := run_items c hdrop
  have hstar : Reads text (.node 27) .zeroLength q _ :=
    hrun.star isRanked (symbol_node rfl) (symbol_node rfl) (fun h => by rw [hts h]; rfl)
  have hclosing : Reads text (.node 28) .zeroLength (q + c.laterChars.length) _ :=
    .character (symbol_node rfl) (drop_of_drop hdrop)
  have hclass : Reads text (.node 29) .zeroLength p _ :=
    .sequence isRanked (symbol_node rfl) rfl hbracket (isEmpty_singleton ..)
      (.next hupTo hempty (.next hstar (hstar.stop_eq (by simp [hdrop]))
        (.covers (.zeroLength _) hclosing (isEmpty_singleton ..) (.nil _ _))))
  have hle := hupTo.le
  refine ⟨_, _, .junction isRanked (symbol_node rfl) (skipInside_zeroLength _)
    (.failed hany (.matched hclass)), ?_,
    isExpr_class (quiet_leaf rfl) hfirst hsort hitems hsorts (quiet_leaf rfl),
    classOf_text p c htold⟩
  rw [isEmpty_over]
  exact isEmpty_spanning (by simp [hopening]) (by omega)

/-- A class, part by part. -/
theorem reads_classText (c : ClassText) (hdrop : text.drop p = '[' :: (c.chars ++ ']' :: rest)) :
    ∃ t r, Reads text Sym.switch .zeroLength p (some (t, p + c.chars.length + 2)) ∧
      t.isEmpty = false ∧ IsExpr t (.literal r) ∧ c.Says r := by
  have hlater : text.drop (p + 1) = c.chars ++ ']' :: rest := drop_of_drop (s := ['[']) hdrop
  cases hupTo : c.upTo with
  | none =>
    have hchars : c.chars = c.laterChars := by simp [ClassText.chars, hupTo]
    rw [hchars] at hdrop hlater ⊢
    have hminus : Reads text (.node 18) .zeroLength (p + 1) none :=
      .character_fails (symbol_node rfl) (by rw [hlater]; exact c.no_minus _)
    have hread : Reads text (.node 20) .zeroLength (p + 1) _ :=
      .option_absent isRanked (symbol_node rfl) rfl
        (.sequence_fails isRanked (symbol_node rfl) rfl hminus)
    have hnot : ¬ "[-]".toList <+: text.drop p := by
      rintro ⟨later, heq⟩
      rw [hdrop] at heq
      injection heq with _ heq
      have hhead := c.no_minus rest
      exact hhead (by rw [← heq]; rfl)
    have hclass := reads_classOf c hdrop hnot hread (fun _ => rfl) rfl
      (by rw [hupTo]; exact isUpTo_none) hlater
    rwa [Nat.add_right_comm p 1] at hclass
  | some first =>
    have hchars : c.chars = '-' :: (first.chars ++ c.laterChars) := by simp [ClassText.chars, hupTo]
    rw [hchars] at hdrop hlater ⊢
    rw [List.cons_append, List.append_assoc] at hlater
    obtain ⟨head, s, hs, hhead⟩ := first.head
    have hnot : ¬ "[-]".toList <+: text.drop p := by
      rintro ⟨later, heq⟩
      rw [hdrop, hs] at heq
      have hclosing : ']' = head := (List.cons.inj (List.cons.inj (List.cons.inj heq).2).2).1
      exact absurd (hhead (hclosing ▸ by decide)) (hclosing ▸ by decide)
    have hminus : Reads text (.node 18) .zeroLength (p + 1) _ := .character (symbol_node rfl) hlater
    have hchar : text.drop (p + 2) = first.chars ++ (c.laterChars ++ ']' :: rest) :=
      drop_of_drop (s := ['-']) hlater
    obtain ⟨t, hgives, hcovers, ht⟩ := reads_classChar first.spells hchar
    have hpair : Reads text (.node 19) .zeroLength (p + 1) _ :=
      .sequence isRanked (symbol_node rfl) rfl hminus (isEmpty_singleton ..)
        (.covers (.zeroLength _) hgives hcovers (.nil _ _))
    have hread : Reads text (.node 20) .zeroLength (p + 1) _ :=
      .option isRanked (symbol_node rfl) rfl hpair
    have hempty : (Token.spanning .sequence (.generated 19) text (p + 1)
        (p + 2 + first.chars.length)
        [.leaf .character (.generated 18) (.singleton '-') (p + 1 : Nat) 0, t]).isEmpty = false :=
      isEmpty_spanning (by simp [hlater]) (by omega)
    obtain ⟨t', r, hclass, hcovers', hexpr⟩ := reads_classOf c hdrop hnot hread
      (fun h => by rw [isEmpty_over, hempty] at h; cases h) rfl
      (by rw [hupTo]; exact isUpTo_some (quiet_leaf rfl) ht) (drop_of_drop hchar)
    refine ⟨t', r, ?_, hcovers', hexpr⟩
    rwa [show p + ('-' :: (first.chars ++ c.laterChars)).length + 2 =
      p + 2 + first.chars.length + c.laterChars.length + 1 by simp; omega]

/-- A class, however it is written. -/
theorem reads_class {ranges : CharClass} {s : List Char} (h : SpellsClass ranges s)
    (hdrop : text.drop p = '[' :: (s ++ ']' :: rest)) :
    ∃ t, Reads text Sym.switch .zeroLength p (some (t, p + s.length + 2)) ∧ t.isEmpty = false ∧
      IsExpr t (.literal (.ok (.oneOf ranges))) := by
  obtain ⟨c, hordered, rfl, rfl⟩ := h.exists_text
  obtain ⟨t, r, hgives, hcovers, hexpr, htold⟩ := reads_classText c hdrop
  exact ⟨t, hgives, hcovers, htold.ordered hordered ▸ hexpr⟩

/-- Only a bracket begins a class. -/
theorem class_fails (h : (text.drop p).head? ≠ some '[') :
    Reads text Sym.switch .zeroLength p none := by
  have hany : Reads text (.node 16) .zeroLength p none :=
    .literal_fails (symbol_node rfl) (by rintro ⟨rest, heq⟩; exact h (by rw [← heq]; rfl))
  have hclass : Reads text (.node 29) .zeroLength p none :=
    .sequence_fails isRanked (symbol_node rfl) rfl (.character_fails (symbol_node rfl) h)
  exact .junction_fails isRanked (symbol_node rfl) (skipInside_zeroLength _)
    (.failed hany (.failed hclass .nil))

/-! ### Quoted literals -/

/-- The characters of a quoted literal up to its end. -/
theorem run_chars {cs s : List Char} (h : SpellsChars cs s)
    (hdrop : text.drop p = s ++ '"' :: rest) :
    ∃ ts, RunGives rank ruleSet.graph text Sym.char p (p + s.length, ts) ∧
      List.Forall₂ IsChar ts (cs.map .ok) := by
  induction h generalizing p with
  | nil => exact ⟨[], .stops (quotedChar_fails hdrop), .nil⟩
  | @cons c cs s s' first later ih =>
    rw [List.append_assoc] at hdrop
    obtain ⟨t, hgives, hcovers, hchar⟩ := reads_quotedChar first hdrop
    obtain ⟨ts, hrun, hchars⟩ := ih (drop_of_drop hdrop)
    rw [Nat.add_assoc, ← List.length_append] at hrun
    exact ⟨t :: ts, .goes hgives hcovers hrun, .cons hchar hchars⟩

/-- A single character between quotes. -/
theorem reads_single {c : Char} {s : List Char} (h : SpellsChar quotedReserved c s)
    (hdrop : text.drop p = '"' :: (s ++ '"' :: rest)) :
    ∃ t, Reads text Sym.character .zeroLength p (some (t, p + s.length + 2)) ∧
      t.isEmpty = false ∧ IsExpr t (.literal (.ok (.single c))) := by
  have hopening : Reads text (.node 31) .zeroLength p _ := .character (symbol_node rfl) hdrop
  have hlater : text.drop (p + 1) = s ++ '"' :: rest := drop_of_drop (s := ['"']) hdrop
  obtain ⟨t, hgives, hcovers, hchar⟩ := reads_quotedChar h hlater
  have hclosing : Reads text (.node 32) .zeroLength (p + 1 + s.length) _ :=
    .character (symbol_node rfl) (drop_of_drop hlater)
  have hliteral : Reads text Sym.character .zeroLength p _ :=
    .sequence isRanked (symbol_node rfl) (skipInside_zeroLength _) hopening
      (isEmpty_singleton ..) (.covers (.zeroLength _) hgives hcovers
        (.covers (.zeroLength _) hclosing (isEmpty_singleton ..) (.nil _ _)))
  rw [show p + 1 + s.length + 1 = p + s.length + 2 by omega] at hliteral
  exact ⟨_, hliteral, isEmpty_spanning (by simp [hdrop]) (by omega),
    isExpr_character (quiet_leaf rfl) hchar (quiet_leaf rfl)⟩

/-- Several characters between quotes are not a single one. -/
theorem single_fails {c : Char} {s s' : List Char} (h : SpellsChar quotedReserved c s)
    (hne : s'.head? ≠ some '"') (hdrop : text.drop p = '"' :: (s ++ s')) :
    Reads text Sym.character .zeroLength p none := by
  have hopening : Reads text (.node 31) .zeroLength p _ := .character (symbol_node rfl) hdrop
  have hlater : text.drop (p + 1) = s ++ s' := drop_of_drop (s := ['"']) hdrop
  obtain ⟨t, hgives, hcovers, -⟩ := reads_quotedChar h hlater
  have hclosing : Reads text (.node 32) .zeroLength (p + 1 + s.length) none :=
    .character_fails (symbol_node rfl) (by rwa [drop_of_drop hlater])
  exact .sequence_laterFails isRanked (symbol_node rfl) (skipInside_zeroLength _) hopening
    (isEmpty_singleton ..) (.laterFails (.zeroLength _) hgives hcovers
      (.fails (.zeroLength _) hclosing))

/-- Characters between quotes, of which there is one at least. -/
theorem reads_several {cs s : List Char} (h : SpellsChars cs s) (hne : cs ≠ [])
    (hdrop : text.drop p = '"' :: (s ++ '"' :: rest)) :
    ∃ t, Reads text Sym.text .zeroLength p (some (t, p + s.length + 2)) ∧
      t.isEmpty = false ∧ IsExpr t (.literal (.ok (.several cs))) := by
  have hopening : Reads text (.node 34) .zeroLength p _ := .character (symbol_node rfl) hdrop
  have hlater : text.drop (p + 1) = s ++ '"' :: rest := drop_of_drop (s := ['"']) hdrop
  obtain ⟨ts, hrun, hchars⟩ := run_chars h hlater
  have hts : ts ≠ [] := by
    rintro rfl
    rw [List.forall₂_nil_left_iff, List.map_eq_nil_iff] at hchars
    exact hne hchars
  have hall : Reads text (.node 35) .zeroLength (p + 1) _ :=
    hrun.multiple isRanked (symbol_node rfl) hts
  have hclosing : Reads text (.node 36) .zeroLength (p + 1 + s.length) _ :=
    .character (symbol_node rfl) (drop_of_drop hlater)
  have hliteral : Reads text Sym.text .zeroLength p _ :=
    .sequence isRanked (symbol_node rfl) (skipInside_zeroLength _) hopening
      (isEmpty_singleton ..) (.next hall (hall.stop_eq (by simp [hlater]))
        (.covers (.zeroLength _) hclosing (isEmpty_singleton ..) (.nil _ _)))
  rw [show p + 1 + s.length + 1 = p + s.length + 2 by omega] at hliteral
  refine ⟨_, hliteral, isEmpty_spanning (by simp [hdrop]) (by omega), ?_⟩
  have hliterals : Except.ok (Literal.several cs) =
      ((cs.map (Except.ok : Char → Except ParseError Char)).mapM id).map .several := by
    rw [mapM_ok]
    rfl
  rw [hliterals]
  exact isExpr_text (quiet_leaf rfl) hchars (quiet_leaf rfl)

/-- Only a quote begins a quoted literal. -/
theorem quoted_fails {ref quote next : Ref} {name : Name} {serial : Nat} {members : List Ref}
    (hsymbol : ruleSet.graph.symbol ref = ⟨name, .sequence (quote :: next :: members)⟩)
    (hquote : ruleSet.graph.symbol quote = ⟨.generated serial, .character '"'⟩)
    (h : (text.drop p).head? ≠ some '"') : Reads text ref .zeroLength p none :=
  .sequence_fails isRanked hsymbol (skipInside_zeroLength _) (.character_fails hquote h)

/-! ### Literals -/

theorem skipInside_LITERAL : skipInside (.given "LITERAL") skip = .zeroLength :=
  if_pos isLexical_LITERAL

/-- However a literal is written, it is read as what it is. -/
theorem reads_literal {v : Literal} {s : List Char} (h : Spells v s)
    (hdrop : text.drop p = s ++ rest) :
    ∃ t, Reads text Sym.LITERAL skip p (some (t, p + s.length)) ∧ t.isEmpty = false ∧
      IsExpr t (.literal (.ok v)) := by
  cases h with
  | any =>
    have hany : Reads text (.node 16) .zeroLength p _ := .literal (symbol_node rfl) hdrop
    have hswitch : Reads text Sym.switch .zeroLength p _ :=
      .junction isRanked (symbol_node rfl) (skipInside_zeroLength _) (.matched hany)
    exact ⟨_, .junction isRanked (symbol_node rfl) skipInside_LITERAL (.matched hswitch), rfl,
      isExpr_over (isExpr_any (quiet_leaf rfl)) rfl⟩
  | @oneOf ranges s all =>
    rw [List.cons_append, List.append_assoc] at hdrop
    obtain ⟨t, hgives, hcovers, hexpr⟩ := reads_class all hdrop
    rw [show p + s.length + 2 = p + ('[' :: (s ++ [']'])).length by simp; omega] at hgives
    exact ⟨_, .junction isRanked (symbol_node rfl) skipInside_LITERAL (.matched hgives), hcovers,
      isExpr_over hexpr rfl⟩
  | @single c s char =>
    rw [List.cons_append, List.append_assoc] at hdrop
    have hclass : Reads text Sym.switch .zeroLength p none := class_fails (by rw [hdrop]; simp)
    obtain ⟨t, hgives, hcovers, hexpr⟩ := reads_single char hdrop
    rw [show p + s.length + 2 = p + ('"' :: (s ++ ['"'])).length by simp; omega] at hgives
    exact ⟨_, .junction isRanked (symbol_node rfl) skipInside_LITERAL
      (.failed hclass (.matched hgives)), hcovers, isExpr_over hexpr rfl⟩
  | @several cs s chars two_le =>
    rw [List.cons_append, List.append_assoc] at hdrop
    have hclass : Reads text Sym.switch .zeroLength p none := class_fails (by rw [hdrop]; simp)
    have hsingle : Reads text Sym.character .zeroLength p none := by
      obtain _ | ⟨first, _ | ⟨second, later⟩⟩ := chars
      · cases two_le
      · cases two_le with | step h => cases h
      · rename_i s₁ _ s₂ s₃
        rw [List.append_assoc] at hdrop
        obtain ⟨c, s', rfl, hc⟩ := second.head
        refine single_fails first ?_ hdrop
        rintro ⟨⟩
        exact absurd (hc (by decide)) (by decide)
    obtain ⟨t, hgives, hcovers, hexpr⟩ := reads_several chars
      (List.ne_nil_of_length_pos (by omega)) hdrop
    rw [show p + s.length + 2 = p + ('"' :: (s ++ ['"'])).length by simp; omega] at hgives
    exact ⟨_, .junction isRanked (symbol_node rfl) skipInside_LITERAL
      (.failed hclass (.failed hsingle (.matched hgives))), hcovers, isExpr_over hexpr rfl⟩

/-- Only a bracket or a quote begins a literal. -/
theorem LITERAL_fails (hbracket : (text.drop p).head? ≠ some '[')
    (hquote : (text.drop p).head? ≠ some '"') : Reads text Sym.LITERAL skip p none :=
  .junction_fails isRanked (symbol_node rfl) skipInside_LITERAL
    (.failed (class_fails hbracket)
      (.failed (quoted_fails (symbol_node rfl) (symbol_node rfl) hquote)
        (.failed (quoted_fails (symbol_node rfl) (symbol_node rfl) hquote) .nil)))

end GrammarEngine.Notation
