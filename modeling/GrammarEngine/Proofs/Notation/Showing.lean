import GrammarEngine.Proofs.Notation.Faults

namespace GrammarEngine.Notation

/-!
# What is seen in the trees of the notation

What the listeners of the notation compute on a tree is what is seen in it: the listeners fail where
the first fault is, and if there is none they find the characters and the names that are there. One
lemma for each form of a tree, as for the listeners themselves.

* `ShowsEscape`, `ShowsChar`, `ShowsItem`, `ShowsLiteral` — literals and their parts;
* `Shows` — expressions;
* `ShowsRule`, `ShowsGrammar` — a rule, and a whole grammar text.
-/

/-- Nothing happens in the tree, and nothing is to be said about it. -/
structure Still (t : Token Value) : Prop where
  quiet : Quiet heard t
  silent : Silent t

/-- What is read if there is no fault. -/
def verdict {β : Type} (fault : Option Fault) (b : β) : Except ParseError β :=
  match fault with
  | some fault => .error fault.error
  | none => .ok b

theorem verdict_map {β γ : Type} (fault : Option Fault) (b : β) (f : β → γ) :
    (verdict fault b).map f = verdict fault (f b) := by
  cases fault <;> rfl

/-! ### Characters -/

/-- An escape is read as the character that is seen in it. -/
def ShowsEscape (t : Token Value) : Prop :=
  ∃ fault, Scans t.postorder fault [] ∧ IsChar t (verdict fault (escapedChar t))

/-- A character of a literal is read as the one that is seen. -/
def ShowsChar (t : Token Value) : Prop :=
  ∃ fault, Scans t.postorder fault [] ∧ IsChar t (verdict fault (charOf t))

/-- A digit is octal, or an eight or a nine. -/
theorem eight_or_nine {c : Char} (h : c.isDigit = true) :
    (c == '8' || c == '9') = !isOctal c := by
  have hcode : ∀ d : Char, c = d ↔ c.toNat = d.toNat := fun d => Char.toNat_inj.symm
  have height : '8'.toNat = 56 := rfl
  have hnine : '9'.toNat = 57 := rfl
  have hdigit : 48 ≤ c.toNat ∧ c.toNat ≤ 57 := by
    simp only [Char.isDigit, Bool.and_eq_true, decide_eq_true_eq, ge_iff_le,
      UInt32.le_iff_toNat_le] at h
    exact h
  rw [Bool.eq_iff_iff, Bool.not_eq_true', ← Bool.not_eq_true, isOctal_iff, Bool.or_eq_true, beq_iff_eq,
    beq_iff_eq, hcode, hcode]
  omega

theorem any_eight_or_nine {digits : List Char} (h : digits.all Char.isDigit = true) :
    (digits.any fun c => c == '8' || c == '9') = !digits.all isOctal := by
  rw [List.not_all_eq_any_not, Bool.eq_iff_iff, List.any_eq_true, List.any_eq_true]
  refine exists_congr fun c => and_congr_right fun hc => ?_
  rw [eight_or_nine (List.all_eq_true.mp h c hc)]

section Chars

variable {substring : String} {start : Int} {serial : Nat} {b l u t : Token Value} {name : Name}

theorem shows_letter {c : Char} (hb : Still b) (hl : Still l) (hc : l.substring = .singleton c) :
    ShowsEscape (.node ⟨.sequence, .given "escape", substring, start, 0⟩
      [b, .over .junction (.generated serial) 0 l] none) := by
  have hchildren :=
    hb.silent.cons ((hl.silent.covering .junction (.generated serial) 0 rfl).cons .nil)
  have hletter : escapedChar (.node ⟨.sequence, .given "escape", substring, start, 0⟩
      [b, .over .junction (.generated serial) 0 l] none) = letter c := by
    show letter (l.substring.toList.headD default) = letter c
    rw [hc, String.toList_singleton, List.headD_cons]
  refine ⟨_, hchildren.escape rfl, ?_⟩
  rw [hletter]
  exact isChar_letter hb.quiet hl.quiet hc

theorem shows_number {first : Char} {digits : List Char} (hb : Still b) (hu : Still u)
    (hsort : u.sort = .node .sequence) (hdigits : u.substring.toList = first :: digits)
    (hlength : digits.length = 4) (hall : digits.all Char.isDigit = true) :
    ShowsEscape (.node ⟨.sequence, .given "escape", substring, start, 0⟩
      [b, .over .junction (.generated serial) 1 u] none) := by
  have hchildren :=
    hb.silent.cons ((hu.silent.covering .junction (.generated serial) 1 rfl).cons .nil)
  have hfound : escapeDigits (.node ⟨.sequence, .given "escape", substring, start, 0⟩
      [b, .over .junction (.generated serial) 1 u] none) = some digits := by
    show some (u.substring.toList.drop 1) = some digits
    rw [hdigits, List.drop_one, List.tail_cons]
  refine ⟨_, hchildren.escape rfl, ?_⟩
  have hchar := @isChar_number substring start b u serial _ _ hb.quiet hu.quiet hsort hdigits
    hlength
  rw [isMalformed, escapedChar, hfound, Option.any_some, any_eight_or_nine hall]
  simp only [← octalValue_eq]
  cases hoctal : digits.all isOctal <;> rw [hoctal] at hchar <;> exact hchar

theorem shows_escaped (h : ShowsEscape t) (hname : heard name = some (.ofStep char))
    (hplain : isPlain name = true) : ShowsChar (.over .junction name 0 t) := by
  obtain ⟨fault, hscans, hchar⟩ := h
  exact ⟨fault, hscans.covering _ _ _ hplain, isChar_escaped hchar hname⟩

theorem shows_raw {c : Char} (ht : Still t) (hname : heard name = some (.ofStep char))
    (hplain : isPlain name = true) (hc : t.substring = .singleton c) :
    ShowsChar (.over .junction name 1 t) := by
  have hseen : charOf (.over .junction name 1 t) = c := by
    show t.substring.toList.headD default = c
    rw [hc, String.toList_singleton, List.headD_cons]
  refine ⟨none, ht.silent.covering _ _ _ hplain, ?_⟩
  rw [hseen]
  exact isChar_raw ht.quiet hname hc

end Chars

/-- Some characters of a literal. -/
theorem shows_chars {ts : List (Token Value)} (h : ∀ t ∈ ts, ShowsChar t) :
    ∃ rs fault cs, List.Forall₂ IsChar ts rs ∧ Scans (Token.postorderOf ts) fault [] ∧
      rs.mapM id = verdict fault cs := by
  induction ts with
  | nil => exact ⟨[], none, [], .nil, .nil, rfl⟩
  | cons t ts ih =>
    rw [List.forall_mem_cons] at h
    obtain ⟨fault, hscans, hchar⟩ := h.1
    obtain ⟨rs, fault', cs, hrs, hscans', hall⟩ := ih h.2
    refine ⟨_, _, charOf t :: cs, .cons hchar hrs, hscans.cons hscans', ?_⟩
    rw [List.mapM_cons, hall]
    cases fault <;> cases fault' <;> rfl

/-! ### Classes -/

/-- The first part of a class is read. -/
def ShowsUpTo (t : Token Value) : Prop :=
  ∃ fault ranges, Scans t.postorder fault [] ∧ IsUpTo t (verdict fault ranges)

/-- An item of a class is read, and its range is refused if it is seen to be backwards. -/
def ShowsItem (t : Token Value) : Prop :=
  ∃ fault range, Scans t.postorder fault [] ∧
    IsItem t (verdict fault (verdict (itemFault t) range))

/-- A literal is read. -/
def ShowsLiteral (t : Token Value) : Prop :=
  ∃ fault value, Scans t.postorder fault [] ∧ IsExpr t (.literal (verdict fault value))

section Classes

variable {substring : String} {start : Int} {serial serial' : Nat} {b c c₁ c₂ : Token Value}

theorem shows_upTo_none : ShowsUpTo (.leaf .option (.generated serial) "" start 0) :=
  ⟨none, [], silent_leaf rfl, isUpTo_none⟩

theorem shows_upTo_some (hb : Still b) (h : ShowsChar c) :
    ShowsUpTo (.over .option (.generated serial)
      0 (.node ⟨.sequence, .generated serial', substring, start, 0⟩ [b, c] none)) := by
  obtain ⟨fault, hscans, hchar⟩ := h
  refine ⟨fault, [⟨0, (charOf c).toNat⟩], ?_, ?_⟩
  · have hinner := (hb.silent.cons (hscans.cons .nil)).plain
      ⟨.sequence, .generated serial', substring, start, 0⟩ rfl
    simpa using hinner.covering .option (.generated serial) 0 rfl
  · have hupTo := @isUpTo_some substring start serial serial' b c _ hb.quiet hchar
    rw [verdict_map] at hupTo
    exact hupTo

theorem shows_range (h₁ : ShowsChar c₁) (hb : Still b) (h₂ : ShowsChar c₂) :
    ShowsItem (.over .junction (.generated serial) 0
      (.node ⟨.sequence, .generated serial', substring, start, 0⟩ [c₁, b, c₂] none)) := by
  obtain ⟨fault₁, hscans₁, hchar₁⟩ := h₁
  obtain ⟨fault₂, hscans₂, hchar₂⟩ := h₂
  refine ⟨fault₁.or fault₂, ⟨(charOf c₁).toNat, (charOf c₂).toNat⟩, ?_, ?_⟩
  · have hinner := (hscans₁.cons (hb.silent.cons (hscans₂.cons .nil))).plain
      ⟨.sequence, .generated serial', substring, start, 0⟩ rfl
    simpa using hinner.covering .junction (.generated serial) 0 rfl
  · have hitem := @isItem_range substring start serial serial' _ _ _ _ _ hchar₁ hb.quiet hchar₂
    have hbackwards : isBackwards (.over .junction (.generated serial) 0 (.node
        ⟨.sequence, .generated serial', substring, start, 0⟩ [c₁, b, c₂] none)) =
        decide ((charOf c₁).toNat > (charOf c₂).toNat) := rfl
    rw [itemFault, hbackwards]
    cases fault₁ with
    | some fault => exact hitem
    | none =>
      cases fault₂ with
      | some fault => exact hitem
      | none =>
        by_cases hgt : (charOf c₁).toNat > (charOf c₂).toNat
        · simp only [hgt, decide_true, if_true, Option.or_none]
          simp only [verdict, bind, Except.bind, hgt, if_true] at hitem
          exact hitem
        · simp only [hgt, decide_false, Bool.false_eq_true, if_false, Option.or_none]
          simp only [verdict, bind, Except.bind, hgt, if_false] at hitem
          exact hitem

theorem shows_onward (h : ShowsChar c) (hb : Still b) :
    ShowsItem (.over .junction (.generated serial) 1
      (.node ⟨.sequence, .generated serial', substring, start, 0⟩ [c, b] none)) := by
  obtain ⟨fault, hscans, hchar⟩ := h
  refine ⟨fault, ⟨(charOf c).toNat, maxCodePoint⟩, ?_, ?_⟩
  · have hinner := (hscans.cons (hb.silent.cons .nil)).plain
      ⟨.sequence, .generated serial', substring, start, 0⟩ rfl
    simpa using hinner.covering .junction (.generated serial) 1 rfl
  · have hitem := @isItem_onward substring start serial serial' _ _ _ hchar hb.quiet
    rw [verdict_map] at hitem
    exact hitem

theorem shows_lone (h : ShowsChar c) :
    ShowsItem (.over .junction (.generated serial) 2 c) := by
  obtain ⟨fault, hscans, hchar⟩ := h
  refine ⟨fault, ⟨(charOf c).toNat, (charOf c).toNat⟩,
    hscans.covering _ _ _ rfl, ?_⟩
  have hitem := @isItem_lone serial _ _ hchar
  rw [verdict_map] at hitem
  exact hitem

/-- The items of a class. What is wrong with their characters comes first, and then the first range
    that is backwards. -/
theorem shows_items {ts : List (Token Value)} (h : ∀ t ∈ ts, ShowsItem t) :
    ∃ rs fault items ranges, List.Forall₂ IsItem ts rs ∧ Scans (Token.postorderOf ts) fault [] ∧
      rs.mapM id = verdict fault items ∧
      items.mapM id = verdict (ts.findSome? itemFault) ranges := by
  induction ts with
  | nil => exact ⟨[], none, [], [], .nil, .nil, rfl, rfl⟩
  | cons t ts ih =>
    rw [List.forall_mem_cons] at h
    obtain ⟨fault, range, hscans, hitem⟩ := h.1
    obtain ⟨rs, fault', items, ranges, hrs, hscans', hall, hranges⟩ := ih h.2
    refine ⟨_, _, verdict (itemFault t) range :: items, range :: ranges, .cons hitem hrs,
      hscans.cons hscans', ?_, ?_⟩
    · rw [List.mapM_cons, hall]
      cases fault <;> cases fault' <;> rfl
    · rw [List.mapM_cons, hranges, List.findSome?_cons]
      cases itemFault t with
      | some fault => rfl
      | none => cases ts.findSome? itemFault <;> rfl

end Classes

/-! ### Literals -/

section Literals

variable {substring substring' : String} {start start' : Int} {serial serial' : Nat}
  {b b' c upTo : Token Value} {items ts : List (Token Value)}

theorem shows_any {l : Token Value} (hl : Still l) (hchildren : l.children = []) :
    ShowsLiteral (.over .junction (.given "switch") 0 l) := by
  have hone : Scans (Token.postorderOf [l]) none [] := by simpa using hl.silent.cons .nil
  have hitems : classItems (.over .junction (.given "switch") 0 l) = [] := by
    have hfirst : (Token.over .junction (.given "switch") 0 l).children.headD default = l := rfl
    rw [classItems, hfirst, hchildren]
  refine ⟨none, .any, ?_, isExpr_any hl.quiet⟩
  have hscans := @Scans.switch _ _ _ ⟨.junction, .given "switch", l.substring, l.start, 0⟩ hone rfl
  rw [show Token.node _ [l] none = .over .junction (.given "switch") 0 l from rfl, hitems] at hscans
  exact hscans

/-- A range is not refused at the beginning of the text, so that the error stays where it is. -/
theorem anchor_itemFault {item : Token Value} {fault : Fault} (h : itemFault item = some fault)
    (hstart : isBackwards item = true → item.start ≠ 0) :
    fault.error.anchor start = fault.error := by
  unfold itemFault at h
  split at h
  · rename_i hbackwards
    cases h
    exact if_neg fun hzero => hstart hbackwards hzero.1
  · cases h

theorem shows_class (hb : Still b) (hupTo : ShowsUpTo upTo) (hsort : upTo.sort = .node .option)
    (hitems : ∀ item ∈ items, ShowsItem item)
    (hsorts : ∀ item ∈ items, item.sort = .node .junction)
    (hstarts : ∀ item ∈ items, isBackwards item = true → item.start ≠ 0) (hb' : Still b') :
    ShowsLiteral (.over .junction (.given "switch") 1 (.node ⟨.sequence, .generated serial,
      substring, start, 0⟩ [b, upTo, .node ⟨.star, .generated serial', substring', start', 0⟩
      items none, b'] none)) := by
  obtain ⟨fault, first, hscans, hfirst⟩ := hupTo
  obtain ⟨rs, fault', ranges, found, hrs, hscans', hall, hranges⟩ := shows_items hitems
  have hstar := hscans'.plain ⟨.star, .generated serial', substring', start', 0⟩ rfl
  have hbody := (hb.silent.cons (hscans.cons (hstar.cons (hb'.silent.cons .nil)))).plain
    ⟨.sequence, .generated serial, substring, start, 0⟩ rfl
  have hone : Scans (Token.postorderOf [.node ⟨.sequence, .generated serial, substring, start, 0⟩
      [b, upTo, .node ⟨.star, .generated serial', substring', start', 0⟩ items none, b'] none])
      (fault.or fault') [] := by
    simpa using hbody.cons .nil
  refine ⟨(fault.or fault').or (items.findSome? itemFault), .oneOf (first ++ found),
    hone.switch rfl, ?_⟩
  -- No item starts at the beginning of the text, so that the errors stay where they are.
  have hanchor : (ranges.mapM id).mapError (fun e : ParseError => e.anchor start) =
      ranges.mapM id := by
    rw [hranges]
    cases hfound : items.findSome? itemFault with
    | none => rfl
    | some fault =>
      obtain ⟨item, hitem, hfault⟩ := List.exists_of_findSome?_eq_some hfound
      exact congrArg Except.error (anchor_itemFault hfault (hstarts item hitem))
  have hclass : classOf start (verdict fault first) rs =
      verdict ((fault.or fault').or (items.findSome? itemFault)) (.oneOf (first ++ found)) := by
    rw [classOf, hall]
    cases fault with
    | some fault => rfl
    | none =>
      cases fault' with
      | some fault => rfl
      | none =>
        show ((ranges.mapM id).mapError (fun e : ParseError => e.anchor start) >>= fun found =>
          Except.ok (Literal.oneOf (first ++ found))) = _
        rw [hanchor, hranges]
        cases items.findSome? itemFault <;> rfl
  rw [← hclass]
  exact isExpr_class hb.quiet hfirst hsort hrs hsorts hb'.quiet

theorem shows_character (hb : Still b) (h : ShowsChar c) (hb' : Still b') :
    ShowsLiteral (.node ⟨.sequence, .given "character", substring, start, 0⟩ [b, c, b'] none) := by
  obtain ⟨fault, hscans, hchar⟩ := h
  refine ⟨fault, .single (charOf c), ?_, ?_⟩
  · exact (Scans.between hb.silent hscans hb'.silent).plain _ rfl
  · rw [← verdict_map fault (charOf c) Literal.single]
    exact isExpr_character hb.quiet hchar hb'.quiet

theorem shows_text (hb : Still b) (h : ∀ t ∈ ts, ShowsChar t) (hb' : Still b') :
    ShowsLiteral (.node ⟨.sequence, .given "text", substring, start, 0⟩
      [b, .node ⟨.multiple, .generated serial, substring', start', 0⟩ ts none, b'] none) := by
  obtain ⟨rs, fault, cs, hrs, hscans, hall⟩ := shows_chars h
  have hchars := hscans.plain ⟨.multiple, .generated serial, substring', start', 0⟩ rfl
  refine ⟨fault, .several cs, ?_, ?_⟩
  · exact (Scans.between hb.silent hchars hb'.silent).plain _ rfl
  · rw [← verdict_map fault cs Literal.several, ← hall]
    exact isExpr_text hb.quiet hrs hb'.quiet

theorem shows_LITERAL {ordinal : Nat} (h : ShowsLiteral c) :
    ShowsLiteral (.over .junction (.given "LITERAL") ordinal c) := by
  obtain ⟨fault, value, hscans, hexpr⟩ := h
  exact ⟨fault, value, hscans.covering _ _ _ rfl, isExpr_over hexpr rfl⟩

end Literals

/-! ### Expressions -/

/-- The tree says an expression, in which all names are names that a rule can have. -/
structure Says (t : Token Value) (e : Expr (Except ParseError Literal)) : Prop where
  isExpr : IsExpr t e
  named : ∀ name ∈ e.names, isID name = true

/-- What is seen among some tokens is what there is to say about an expression. -/
def SeenIn (ts : List (Token Value)) (mistake : Option ParseError) (names : List String) : Prop :=
  ∃ fault, Scans ts fault names ∧ mistake = fault.map Fault.error

/-- The tree says an expression, and what there is to say about it is seen in the tree. -/
structure Shows (t : Token Value) (e : Expr (Except ParseError Literal)) : Prop
    extends Says t e where
  seen : SeenIn t.postorder e.mistake e.names
  isReference : e.isReference = isJustReference t

/-- The same for an alternative behind a bar. -/
structure ShowsAlternative (t : Token Value) (e : Expr (Except ParseError Literal)) : Prop
    extends IsAlternative t e where
  named : ∀ name ∈ e.names, isID name = true
  seen : SeenIn t.postorder e.mistake e.names

/-- A name. -/
structure ShowsName (t : Token Value) : Prop extends Still t where
  isID : isID t.substring = true
  isReference : isJustReference t = true

namespace SeenIn

variable {t : Token Value} {ts ts' : List (Token Value)} {mistake mistake' : Option ParseError}
  {names names' : List String}

theorem of_silent (h : Silent t) : SeenIn t.postorder none [] := ⟨none, h, rfl⟩

theorem nil : SeenIn (Token.postorderOf []) none [] := ⟨none, .nil, rfl⟩

theorem cons (h : SeenIn t.postorder mistake names)
    (h' : SeenIn (Token.postorderOf ts) mistake' names') :
    SeenIn (Token.postorderOf (t :: ts)) (mistake.or mistake') (names ++ names') := by
  obtain ⟨fault, hscans, rfl⟩ := h
  obtain ⟨fault', hscans', rfl⟩ := h'
  exact ⟨_, hscans.cons hscans', Option.map_or.symm⟩

theorem plain (h : SeenIn (Token.postorderOf ts) mistake names) (header : Header)
    (hname : isPlain header.name = true) :
    SeenIn (Token.node header ts none).postorder mistake names := by
  obtain ⟨fault, hscans, rfl⟩ := h
  exact ⟨fault, hscans.plain header hname, rfl⟩

theorem covering {name : Name} {ordinal : Nat} (h : SeenIn t.postorder mistake names)
    (hname : isPlain name = true) :
    SeenIn (Token.over .junction name ordinal t).postorder mistake names := by
  obtain ⟨fault, hscans, rfl⟩ := h
  exact ⟨fault, hscans.covering _ _ _ hname, rfl⟩

/-- Of some trees, one after the other. -/
theorem all {R : Token Value → Expr (Except ParseError Literal) → Prop}
    {es : List (Expr (Except ParseError Literal))} (h : List.Forall₂ R ts es)
    (hR : ∀ t e, R t e → SeenIn t.postorder e.mistake e.names) :
    SeenIn (Token.postorderOf ts) (Expr.mistakeAmong es) (Expr.namesAll es) := by
  induction h with
  | nil => exact .nil
  | cons first _ ih => exact (hR _ _ first).cons ih

end SeenIn

section Expressions

variable {substring substring' : String} {start start' : Int} {serial ordinal : Nat} {name : Name}
  {b b' c : Token Value} {e : Expr (Except ParseError Literal)}
  {cs : List (Token Value)} {es : List (Expr (Except ParseError Literal))}

/-- The names in some expressions that trees say. -/
theorem named_of_forall₂ {R : Token Value → Expr (Except ParseError Literal) → Prop}
    {ts : List (Token Value)} {es : List (Expr (Except ParseError Literal))}
    (h : List.Forall₂ R ts es) (hR : ∀ t e, R t e → ∀ name ∈ e.names, isID name = true) :
    ∀ name ∈ Expr.namesAll es, isID name = true := by
  induction h with
  | nil => simp [Expr.namesAll]
  | cons he _ ih =>
    intro name hname
    rcases List.mem_append.mp hname with hname | hname
    · exact hR _ _ he name hname
    · exact ih name hname

/-- A token that nobody listens to stands for the expression under it. -/
theorem Shows.covering (h : Shows c e) (hname : heard name = none) (hplain : isPlain name = true)
    (hliteral : name ≠ .given "LITERAL") : Shows (.over .junction name ordinal c) e where
  isExpr := isExpr_over h.isExpr hname
  named := h.named
  seen := h.seen.covering hplain
  isReference := by
    rw [h.isReference]
    show _ = (decide (name ≠ .given "LITERAL") && isJustReference c)
    rw [decide_eq_true hliteral, Bool.true_and]

theorem shows_literal {ordinal : Nat}
    (h : ShowsLiteral (.over .junction (.given "LITERAL") ordinal c)) :
    ∃ e, Shows (.over .junction (.given "atom") 2
      (.over .junction (.given "LITERAL") ordinal c)) e := by
  obtain ⟨fault, value, hscans, hexpr⟩ := h
  refine ⟨_, ⟨isExpr_literal hexpr, by simp [Expr.names]⟩, ⟨fault, ?_, ?_⟩, rfl⟩
  · simpa [Expr.names] using hscans.atom 2
  · cases fault <;> rfl

theorem shows_reference (h : ShowsName c) :
    Shows (.over .junction (.given "atom") 1 c) (.reference c.substring) where
  isExpr := isExpr_reference h.quiet
  named := by simpa [Expr.names] using h.isID
  seen := ⟨none, by simpa [Expr.names] using h.silent.atom 1, rfl⟩
  isReference := by
    show true = (decide (Name.given "atom" ≠ .given "LITERAL") && isJustReference c)
    rw [h.isReference]
    rfl

theorem shows_group (hb : Still b) (h : Shows c e) (hb' : Still b') :
    Shows (.over .junction (.given "atom") 0 (.node ⟨.sequence, .generated serial, substring,
      start, 0⟩ [b, c, b'] none)) e where
  isExpr := isExpr_group hb.quiet h.isExpr hb'.quiet
  named := h.named
  seen := by
    obtain ⟨fault, hscans, hmistake⟩ := h.seen
    have hinner := (Scans.between hb.silent hscans hb'.silent).plain
      ⟨.sequence, .generated serial, substring, start, 0⟩ rfl
    exact ⟨fault, by simpa using hinner.atom 0, hmistake⟩
  isReference := h.isReference

theorem shows_repeated {step : Step} (count : Count)
    (hstep : ∀ t d, step t d = do
      let inner ← (← t.item 0).payload
      return (.symbol (d.addRepeated inner.asPart count).1,
        (d.addRepeated inner.asPart count).2))
    (hname : heard name = some (.ofStep step)) (hplain : isPlain name = true)
    (hid : name ≠ .given "ID") (h : Shows c e) (hb : Still b) :
    Shows (.node ⟨.sequence, name, substring, start, 0⟩ [c, b] none) (.repeated count e) where
  isExpr := isExpr_repeated count hstep hname h.isExpr hb.quiet
  named := h.named
  seen := by
    simpa [Expr.mistake, Expr.names] using
      (h.seen.cons ((SeenIn.of_silent hb.silent).cons .nil)).plain
        ⟨.sequence, name, substring, start, 0⟩ hplain
  isReference := (decide_eq_false hid).symm

theorem shows_sequence (h : List.Forall₂ Shows cs es) (hne : cs ≠ []) :
    Shows (.node ⟨.multiple, .given "sequence", substring, start, 0⟩ cs none)
      (.inSequence es) where
  isExpr := isExpr_sequence (h.imp fun _ _ h => h.isExpr) hne
  named := by
    rw [Expr.names_inSequence]
    exact named_of_forall₂ h fun _ _ h => h.named
  seen := by
    rw [Expr.mistake_inSequence, Expr.names_inSequence]
    exact (SeenIn.all h fun _ _ h => h.seen).plain _ rfl
  isReference := by
    match cs, es, h, hne with
    | [c], [e], .cons first .nil, _ => exact first.isReference
    | [_, _], [_, _], _, _ => rfl
    | [_, _, _], [_, _, _], _, _ => rfl
    | _ :: _ :: _ :: _ :: _, _ :: _ :: _ :: _ :: _, _, _ => rfl

theorem shows_alternative (hb : Still b) (h : Shows c e) :
    ShowsAlternative (.node ⟨.sequence, .generated serial, substring, start, 0⟩ [b, c] none) e where
  toIsAlternative := isAlternative hb.quiet h.isExpr
  named := h.named
  seen := by
    simpa using ((SeenIn.of_silent hb.silent).cons (h.seen.cons .nil)).plain
      ⟨.sequence, .generated serial, substring, start, 0⟩ rfl

theorem shows_junction {alternatives : List (Token Value)} (h : Shows c e)
    (halternatives : List.Forall₂ ShowsAlternative alternatives es) :
    Shows (.node ⟨.sequence, .given "junction", substring, start, 0⟩
        [c, .node ⟨.multiple, .generated serial, substring', start', 0⟩ alternatives none] none)
      (.choice (e :: es)) where
  isExpr := isExpr_junction h.isExpr (halternatives.imp fun _ _ h => h.toIsAlternative)
  named := by
    intro name hname
    rcases List.mem_append.mp hname with hname | hname
    · exact h.named name hname
    · exact named_of_forall₂ halternatives (fun _ _ h => h.named) name hname
  seen := by
    have hrest := (SeenIn.all halternatives fun _ _ h => h.seen).plain
      ⟨.multiple, .generated serial, substring', start', 0⟩ rfl
    simpa [Expr.mistake, Expr.mistakeAmong, Expr.names, Expr.namesAll] using
      (h.seen.cons (hrest.cons .nil)).plain
        ⟨.sequence, .given "junction", substring, start, 0⟩ rfl
  isReference := rfl

end Expressions

/-! ### Rules -/

/-- The tree says a rule, and what there is to say about it is seen in the tree. -/
structure ShowsRule (t : Token Value) (r : RuleText) : Prop where
  isRule : IsRule t r
  isNamed : r.IsNamed
  name : r.name = ruleName t
  mistake : ∀ defined, r.mistake defined = (firstFault defined t.postorder).map Fault.error
  usedIn : usedIn t.postorder = r.body.names
  definedIn : definedIn t.postorder = [ruleName t]

/-- The same for a whole grammar text. -/
structure ShowsGrammar (t : Token Value) (rs : List RuleText) : Prop where
  isGrammar : IsGrammar t rs
  isNamed : ∀ r ∈ rs, r.IsNamed
  names : rs.map RuleText.name = t.children.map ruleName
  mistake : mistakeIn [] rs = (firstFault [] t.postorder).map Fault.error
  usedIn : usedIn t.postorder = rs.flatMap fun r => r.body.names
  definedIn : definedIn t.postorder = rs.map RuleText.name

section Rules

variable {substring : String} {start : Int} {id colon body semicolon : Token Value}
  {e : Expr (Except ParseError Literal)} {ts : List (Token Value)} {rs : List RuleText}

theorem shows_rule (hid : ShowsName id) (hcolon : Still colon) (h : Shows body e)
    (hsemicolon : Still semicolon) :
    ∃ r, ShowsRule (.node ⟨.sequence, .given "rule", substring, start, 0⟩
      [id, colon, body, semicolon] none) r := by
  obtain ⟨fault, hscans, hmistake⟩ := h.seen
  have hall : Scans (Token.postorderOf [id, colon, body, semicolon]) fault e.names := by
    simpa using hid.silent.cons (hcolon.silent.cons (hscans.cons (hsemicolon.silent.cons .nil)))
  refine ⟨{ name := id.substring, body := e, source := substring, start },
    isRule hid.quiet hcolon.quiet h.isExpr hsemicolon.quiet, ⟨hid.isID, h.named⟩, rfl,
    fun defined => ?_, ?_, ?_⟩
  · rw [Token.postorder, firstFault_append, hall.firstFault, hall.definedIn, List.append_nil,
      firstFault, firstFault, Option.or_none, RuleText.mistake, hmistake, Option.map_or]
    have hfault : faultAt defined (.node ⟨.sequence, .given "rule", substring, start, 0⟩
        [id, colon, body, semicolon] none) = ruleFault defined _ := rfl
    congr 1
    rw [hfault, ruleFault]
    by_cases hdefined : id.substring ∈ defined
    · have hname : ruleName (.node ⟨.sequence, .given "rule", substring, start, 0⟩
          [id, colon, body, semicolon] none) ∈ defined := hdefined
      rw [if_pos hdefined, if_pos hname]
      rfl
    · have hname : ¬ ruleName (.node ⟨.sequence, .given "rule", substring, start, 0⟩
          [id, colon, body, semicolon] none) ∈ defined := hdefined
      have hbody : e.isReference = isJustReference (ruleBody (.node
          ⟨.sequence, .given "rule", substring, start, 0⟩ [id, colon, body, semicolon] none)) :=
        h.isReference
      rw [if_neg hdefined, if_neg hname, ← hbody]
      cases e.isReference <;> rfl
  · rw [Token.postorder, usedIn_append, hall.usedIn]
    simp [usedIn, Token.name]
  · rw [Token.postorder, definedIn_append, hall.definedIn]
    rfl

theorem shows_rules {defined : List String} (h : List.Forall₂ ShowsRule ts rs) :
    mistakeIn defined rs = (firstFault defined (Token.postorderOf ts)).map Fault.error ∧
      usedIn (Token.postorderOf ts) = (rs.flatMap fun r => r.body.names) ∧
      definedIn (Token.postorderOf ts) = rs.map RuleText.name ∧
      rs.map RuleText.name = ts.map ruleName ∧ ∀ r ∈ rs, r.IsNamed := by
  induction h generalizing defined with
  | nil => exact ⟨rfl, rfl, rfl, rfl, by simp⟩
  | @cons t r ts rs first _ ih =>
    obtain ⟨hmistake, hused, hdefined, hnames, hnamed⟩ := @ih (defined ++ [r.name])
    refine ⟨?_, ?_, ?_, ?_, List.forall_mem_cons.mpr ⟨first.isNamed, hnamed⟩⟩
    · rw [Token.postorderOf, firstFault_append, first.definedIn, mistakeIn, first.mistake, hmistake,
        first.name, Option.map_or]
    · rw [Token.postorderOf, usedIn_append, first.usedIn, hused, List.flatMap_cons]
    · rw [Token.postorderOf, definedIn_append, first.definedIn, hdefined, List.map_cons, first.name]
      rfl
    · rw [List.map_cons, List.map_cons, first.name, hnames]

theorem shows_grammar (h : List.Forall₂ ShowsRule ts rs) :
    ShowsGrammar (.node ⟨.multiple, .given "start", substring, start, 0⟩ ts none) rs := by
  obtain ⟨hmistake, hused, hdefined, hnames, hnamed⟩ := @shows_rules _ _ [] h
  have hstart : isPlain (Token.node (α := Value) ⟨.multiple, .given "start", substring, start, 0⟩
      ts none).name = true := rfl
  have hone := Scans.of_isPlain hstart
  refine ⟨isGrammar (h.imp fun _ _ h => h.isRule), hnamed, hnames, ?_, ?_, ?_⟩
  · rw [Token.postorder, firstFault_append, hone.firstFault, Option.or_none, hmistake]
  · rw [Token.postorder, usedIn_append, hone.usedIn, List.append_nil, hused]
  · rw [Token.postorder, definedIn_append, hone.definedIn, List.append_nil, hdefined]

end Rules

end GrammarEngine.Notation
