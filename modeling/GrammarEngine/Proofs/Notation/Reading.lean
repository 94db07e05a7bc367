import GrammarEngine.Proofs.Notation.Showing

namespace GrammarEngine.Notation

/-!
# What grammar texts say

Whatever tree the notation makes of a text, the tree says something: it is a list of rules, and
walking it is building those rules. What there is to say about them is seen in the tree.

* `made_ID`, `made_char`, `made_literal` — names, characters and literals;
* `made_symbol` — expressions, by induction on the size of the tree;
* `made_rule`, `made_start` — rules and whole texts.
-/

variable {text : List Char} {skip : Ref} {t : Token Value}

/-- The notation made the tree for one of its symbols somewhere in the text. -/
abbrev Parsed (text : List Char) (skip ref : Ref) (t : Token Value) : Prop :=
  Made ruleSet.graph text skip ref t

theorem quiet_leaf {kind : Kind} {name : Name} {substring : String} {start : Int} {ordinal : Nat}
    (hname : heard name = none) : Quiet heard (.leaf kind name substring start ordinal) :=
  .node hname (by simp)

theorem still_leaf {kind : Kind} {name : Name} {substring : String} {start : Int} {ordinal : Nat}
    (hname : heard name = none) (hplain : isPlain name = true) :
    Still (.leaf kind name substring start ordinal) :=
  ⟨quiet_leaf hname, silent_leaf hplain⟩

/-- Nobody listens to the token, and there is nothing to be said about it or what is under it. -/
theorem Still.node {header : Header} {ts : List (Token Value)} (hname : heard header.name = none)
    (hplain : isPlain header.name = true) (h : ∀ t ∈ ts, Still t) : Still (.node header ts none) :=
  ⟨.node hname fun t ht => (h t ht).quiet, (Silent.all fun t ht => (h t ht).silent).plain _ hplain⟩

/-- The tree is for a part of the text, and so is all that is under it. -/
theorem Parsed.roundTrip {index : Nat} (h : Parsed text skip (.node index) t)
    (hindex : index < layout.length) : RoundTrip ruleSet.graph text skip t := by
  obtain ⟨guard, p, stop, reach, hp, hyields⟩ := h
  have hmem : Ref.node index ∈ allSymbols :=
    mem_allSymbols.mpr ⟨index, _, rfl, List.getElem?_eq_getElem hindex⟩
  exact (hyields.roundTrip isSolid hmem hp _ rfl).2

/-! ### Names -/

/-- The text of some tokens that are one character each. -/
theorem join_leaves {ts : List (Token Value)} {P : Char → Prop}
    (h : ∀ t ∈ ts, ∃ c kind name start ordinal, P c ∧
      t = .leaf kind name (.singleton c) start ordinal) :
    ∃ cs : List Char, cs.length = ts.length ∧ (∀ c ∈ cs, P c) ∧
      String.join ((Token.leavesOf ts).map Token.substring) = String.ofList cs := by
  induction ts with
  | nil => exact ⟨[], rfl, by simp, rfl⟩
  | cons t ts ih =>
    rw [List.forall_mem_cons] at h
    obtain ⟨c, kind, name, start, ordinal, hc, rfl⟩ := h.1
    obtain ⟨cs, hlength, hcs, hjoin⟩ := ih h.2
    refine ⟨c :: cs, by rw [List.length_cons, List.length_cons, hlength],
      List.forall_mem_cons.mpr ⟨hc, hcs⟩, ?_⟩
    rw [Token.leavesOf, List.map_append, String.join_append, hjoin, String.ofList_cons]
    rfl

theorem isLetter_of_find? {c : Char} {index : Nat}
    (h : CharClass.find? [⟨97, 122⟩, ⟨65, 90⟩] c.toNat = some index) : isLetter c = true := by
  have hany := CharClass.any_of_find? h
  rw [isLetter_iff]
  simpa using hany

theorem isWordChar_of_find? {c : Char} {index : Nat}
    (h : CharClass.find? [⟨97, 122⟩, ⟨65, 90⟩, ⟨48, 57⟩, ⟨95, 95⟩] c.toNat = some index) :
    isWordChar c = true := by
  have hany := CharClass.any_of_find? h
  rw [isWordChar_iff]
  simp at hany
  omega

/-- The tree of a name. Nothing is skipped inside it, so its text is a name. -/
theorem made_ID (h : Parsed text skip Sym.ID t) : ShowsName t := by
  obtain ⟨substring, start, children, rfl, hall⟩ := h.sequence (symbol_node rfl)
  have hspelt : substring = _ := h.spelt isSolid (by decide) (if_pos isLexical_ID)
  obtain _ | ⟨hl, _ | ⟨hstar, _ | _⟩⟩ := hall
  obtain ⟨c, start₁, ordinal, hfind, rfl⟩ := hl.switch (symbol_node rfl)
  have hfirst := isLetter_of_find? hfind
  obtain ⟨start₂, rfl⟩ | ⟨substring₂, start₂, ds, rfl, hne, hds⟩ :=
    hstar.star (symbol_node rfl) (symbol_node rfl)
  · refine ⟨.node rfl rfl ?_, ?_, rfl⟩
    · exact List.forall_mem_cons.mpr
        ⟨still_leaf rfl rfl, List.forall_mem_singleton.mpr (still_leaf rfl rfl)⟩
    · have hlist : substring.toList = [c] := by
        simp [hspelt, Token.leaf, Token.leaves, Token.leavesOf]
      simp [isID, hlist, hfirst]
  · have hleaves : ∀ d ∈ ds, ∃ c kind name start ordinal, isWordChar c = true ∧
        heard name = none ∧ isPlain name = true ∧
        d = .leaf kind name (.singleton c) start ordinal := by
      intro d hd
      obtain ⟨c, start, ordinal, hfind, rfl⟩ := (hds d hd).switch (symbol_node rfl)
      exact ⟨c, _, _, _, _, isWordChar_of_find? hfind, rfl, rfl, rfl⟩
    refine ⟨.node rfl rfl ?_, ?_, rfl⟩
    · refine List.forall_mem_cons.mpr ⟨still_leaf rfl rfl, List.forall_mem_singleton.mpr ?_⟩
      refine .node rfl rfl fun d hd => ?_
      obtain ⟨c, kind, name, start, ordinal, -, hname, hplain, rfl⟩ := hleaves d hd
      exact still_leaf hname hplain
    · obtain ⟨cs, -, hcs, hjoin⟩ := join_leaves (P := fun c => isWordChar c = true) fun d hd => by
        obtain ⟨c, kind, name, start, ordinal, hc, -, -, rfl⟩ := hleaves d hd
        exact ⟨c, kind, name, start, ordinal, hc, rfl⟩
      have hlist : substring.toList = c :: cs := by
        have hdown : (Token.node ⟨.star, .generated 3, substring₂, start₂, 0⟩ ds none).leaves =
            Token.leavesOf ds := by
          cases ds with
          | nil => exact absurd rfl hne
          | cons d ds => rfl
        rw [hspelt, Token.leaves, Token.leavesOf, Token.leavesOf, hdown, Token.leavesOf]
        simp [hjoin, Token.leaf, Token.leaves]
      simp [isID, hlist, hfirst]
      exact hcs

/-! ### Characters -/

/-- A particular character. -/
theorem made_mark {ref : Ref} {serial : Nat} {literal : Char} (h : Parsed text skip ref t)
    (hsymbol : ruleSet.graph.symbol ref = ⟨.generated serial, .character literal⟩) : Still t := by
  obtain ⟨start, rfl⟩ := h.character hsymbol
  exact still_leaf rfl rfl

theorem isDigit_of_find? {c : Char} {index : Nat}
    (h : CharClass.find? [⟨48, 57⟩] c.toNat = some index) : c.isDigit = true := by
  have hany := CharClass.any_of_find? h
  simp at hany
  simp only [Char.isDigit, Bool.and_eq_true, decide_eq_true_eq, ge_iff_le, UInt32.le_iff_toNat_le]
  exact hany

theorem made_DIGIT (h : Parsed text skip Sym.DIGIT t) :
    ∃ c start ordinal, c.isDigit = true ∧
      t = .leaf .switch (.given "DIGIT") (.singleton c) start ordinal := by
  obtain ⟨c, start, ordinal, hfind, rfl⟩ := h.switch (symbol_node rfl)
  exact ⟨c, start, ordinal, isDigit_of_find? hfind, rfl⟩

/-- Nothing is skipped inside a literal, so there are four digits in the text of a number. -/
theorem made_number (h : Parsed text .zeroLength (.node 9) t) :
    Still t ∧ t.sort = .node .sequence ∧
      ∃ digits, t.substring.toList = 'u' :: digits ∧ digits.length = 4 ∧
        digits.all Char.isDigit = true := by
  obtain ⟨substring, start, children, rfl, hall⟩ := h.sequence (symbol_node rfl)
  have hspelt : substring = _ := h.spelt isSolid (by decide) (skipInside_zeroLength _)
  obtain _ | ⟨hfirst, _ | ⟨h₁, _ | ⟨h₂, _ | ⟨h₃, _ | ⟨h₄, _ | _⟩⟩⟩⟩⟩ := hall
  obtain ⟨_, rfl⟩ := hfirst.character (symbol_node rfl)
  obtain ⟨c₁, _, _, hc₁, rfl⟩ := made_DIGIT h₁
  obtain ⟨c₂, _, _, hc₂, rfl⟩ := made_DIGIT h₂
  obtain ⟨c₃, _, _, hc₃, rfl⟩ := made_DIGIT h₃
  obtain ⟨c₄, _, _, hc₄, rfl⟩ := made_DIGIT h₄
  refine ⟨.node rfl rfl fun u hu => ?_, rfl, [c₁, c₂, c₃, c₄], ?_, rfl,
    by simp [hc₁, hc₂, hc₃, hc₄]⟩
  · simp only [List.mem_cons, List.not_mem_nil, or_false] at hu
    rcases hu with rfl | rfl | rfl | rfl | rfl <;> exact still_leaf rfl rfl
  · simp [hspelt, Token.leaf, Token.leaves, Token.leavesOf]

theorem made_escape (h : Parsed text .zeroLength Sym.escape t) : ShowsEscape t := by
  obtain ⟨substring, start, children, rfl, hall⟩ := h.sequence (symbol_node rfl)
  obtain _ | ⟨hb, _ | ⟨hwhich, _ | _⟩⟩ := hall
  have hmark := made_mark hb (symbol_node rfl)
  obtain ⟨ordinal, member, u, rfl, hmember, hu⟩ := hwhich.junction (symbol_node rfl)
  rw [skipInside_zeroLength, skipInside_zeroLength] at hu
  rcases ordinal with _ | _ | ordinal <;> cases hmember
  · obtain ⟨c, start', ordinal, -, rfl⟩ := hu.switch (symbol_node rfl)
    exact shows_letter hmark (still_leaf rfl rfl) rfl
  · obtain ⟨hnumber, hsort, digits, hdigits, hlength, hall⟩ := made_number hu
    exact shows_number hmark hnumber hsort hdigits hlength hall

/-- Outside classes and inside, the characters of a literal are of the same form. -/
theorem made_char {ref : Ref} {name : Name} {serial : Nat} {ranges : CharClass}
    (h : Parsed text .zeroLength ref t)
    (hsymbol : ruleSet.graph.symbol ref = ⟨name, .junction [Sym.escape, .node serial]⟩)
    (hplain : ruleSet.graph.symbol (.node serial) = ⟨.generated serial, .switch ranges⟩)
    (hname : heard name = some (.ofStep char)) (hname' : isPlain name = true) : ShowsChar t := by
  obtain ⟨ordinal, member, u, rfl, hmember, hu⟩ := h.junction hsymbol
  rw [skipInside_zeroLength] at hu
  rcases ordinal with _ | _ | ordinal <;> cases hmember
  · exact shows_escaped (made_escape hu) hname hname'
  · obtain ⟨c, start, ordinal, -, rfl⟩ := hu.switch hplain
    exact shows_raw (still_leaf rfl rfl) hname hname' rfl

/-! ### Literals -/

theorem made_rangeChar (h : Parsed text .zeroLength Sym.rangeChar t) : ShowsChar t :=
  made_char h (symbol_node rfl) (symbol_node rfl) rfl rfl

theorem made_upTo (h : Parsed text .zeroLength (.node 20) t) :
    t.sort = .node .option ∧ ShowsUpTo t := by
  obtain ⟨start, rfl⟩ | ⟨u, rfl, hu⟩ := h.option (symbol_node rfl)
  · exact ⟨rfl, shows_upTo_none⟩
  · rw [skipInside_zeroLength] at hu
    obtain ⟨substring, start, children, rfl, hall⟩ := hu.sequence (symbol_node rfl)
    rw [skipInside_zeroLength] at hall
    obtain _ | ⟨hb, _ | ⟨hc, _ | _⟩⟩ := hall
    exact ⟨rfl, shows_upTo_some (made_mark hb (symbol_node rfl)) (made_rangeChar hc)⟩

/-- An item of a class. One that is backwards has a minus sign in it. -/
theorem made_item (h : Parsed text .zeroLength (.node 25) t) :
    t.sort = .node .junction ∧ ShowsItem t ∧ (isBackwards t = true → t.isEmpty = false) := by
  obtain ⟨ordinal, member, u, rfl, hmember, hu⟩ := h.junction (symbol_node rfl)
  rw [skipInside_zeroLength] at hu
  rcases ordinal with _ | _ | _ | ordinal <;> cases hmember
  · have htrip := Parsed.roundTrip hu (by decide)
    obtain ⟨substring, start, children, rfl, hall⟩ := hu.sequence (symbol_node rfl)
    rw [skipInside_zeroLength] at hall
    obtain _ | ⟨hc₁, _ | ⟨hb, _ | ⟨hc₂, _ | _⟩⟩⟩ := hall
    refine ⟨rfl, shows_range (made_rangeChar hc₁) (made_mark hb (symbol_node rfl))
      (made_rangeChar hc₂), fun _ => ?_⟩
    obtain ⟨start', rfl⟩ := hb.character (symbol_node rfl)
    exact (htrip _ _ .self).isEmpty_eq_false (List.mem_cons_of_mem _ List.mem_cons_self) rfl
  · obtain ⟨substring, start, children, rfl, hall⟩ := hu.sequence (symbol_node rfl)
    rw [skipInside_zeroLength] at hall
    obtain _ | ⟨hc, _ | ⟨hb, _ | _⟩⟩ := hall
    exact ⟨rfl, shows_onward (made_rangeChar hc) (made_mark hb (symbol_node rfl)), nofun⟩
  · exact ⟨rfl, shows_lone (made_rangeChar hu), nofun⟩

theorem made_switch (h : Parsed text .zeroLength Sym.switch t) : ShowsLiteral t := by
  have htrip := Parsed.roundTrip h (by decide)
  obtain ⟨ordinal, member, u, rfl, hmember, hu⟩ := h.junction (symbol_node rfl)
  rw [skipInside_zeroLength] at hu
  rcases ordinal with _ | _ | ordinal <;> cases hmember
  · obtain ⟨start, rfl⟩ := hu.literal (symbol_node rfl)
    exact shows_any (still_leaf rfl rfl) rfl
  · obtain ⟨substring, start, children, rfl, hall⟩ := hu.sequence (symbol_node rfl)
    rw [skipInside_zeroLength] at hall
    obtain _ | ⟨hb, _ | ⟨hupTo, _ | ⟨hstar, _ | ⟨hb', _ | _⟩⟩⟩⟩ := hall
    have hclosing := made_mark hb' (symbol_node rfl)
    obtain ⟨start', rfl⟩ := hb.character (symbol_node rfl)
    obtain ⟨hsort, hfirst⟩ := made_upTo hupTo
    obtain ⟨start'', rfl⟩ | ⟨substring'', start'', items, rfl, -, hitems⟩ :=
      hstar.star (symbol_node rfl) (symbol_node rfl)
    · exact shows_class (still_leaf rfl rfl) hfirst hsort (by simp) (by simp) (by simp) hclosing
    · rw [skipInside_zeroLength] at hitems
      refine shows_class (still_leaf rfl rfl) hfirst hsort
        (fun item hitem => (made_item (hitems item hitem)).2.1)
        (fun item hitem => (made_item (hitems item hitem)).1)
        (fun item hitem hbackwards => ?_) hclosing
      -- The bracket comes before the items.
      have hne := (made_item (hitems item hitem)).2.2 hbackwards
      have hbody := htrip.child List.mem_cons_self
      have hstar := hbody.child (List.mem_cons_of_mem _ (List.mem_cons_of_mem _ List.mem_cons_self))
      have hitems := hstar _ _ .self
      have hpos := hbody.start_pos rfl rfl (List.mem_cons_of_mem _ List.mem_cons_self)
        (hitems.isEmpty_eq_false hitem hne)
      have hle := (hitems.inside item hitem hne).1
      omega

theorem made_character (h : Parsed text .zeroLength Sym.character t) : ShowsLiteral t := by
  obtain ⟨substring, start, children, rfl, hall⟩ := h.sequence (symbol_node rfl)
  rw [skipInside_zeroLength] at hall
  obtain _ | ⟨hb, _ | ⟨hc, _ | ⟨hb', _ | _⟩⟩⟩ := hall
  exact shows_character (made_mark hb (symbol_node rfl))
    (made_char hc (symbol_node rfl) (symbol_node rfl) rfl rfl) (made_mark hb' (symbol_node rfl))

theorem made_text (h : Parsed text .zeroLength Sym.text t) : ShowsLiteral t := by
  obtain ⟨substring, start, children, rfl, hall⟩ := h.sequence (symbol_node rfl)
  rw [skipInside_zeroLength] at hall
  obtain _ | ⟨hb, _ | ⟨hm, _ | ⟨hb', _ | _⟩⟩⟩ := hall
  obtain ⟨substring', start', cs, rfl, -, hcs⟩ := hm.multiple (symbol_node rfl)
  rw [skipInside_zeroLength] at hcs
  exact shows_text (made_mark hb (symbol_node rfl))
    (fun c hc => made_char (hcs c hc) (symbol_node rfl) (symbol_node rfl) rfl rfl)
    (made_mark hb' (symbol_node rfl))

theorem made_literal (h : Parsed text skip Sym.LITERAL t) :
    ∃ ordinal u, t = .over .junction (.given "LITERAL") ordinal u ∧ ShowsLiteral t := by
  obtain ⟨ordinal, member, u, rfl, hmember, hu⟩ := h.junction (symbol_node rfl)
  rw [skipInside, if_pos isLexical_LITERAL] at hu
  rcases ordinal with _ | _ | _ | ordinal <;> cases hmember
  · exact ⟨_, u, rfl, shows_LITERAL (made_switch hu)⟩
  · exact ⟨_, u, rfl, shows_LITERAL (made_character hu)⟩
  · exact ⟨_, u, rfl, shows_LITERAL (made_text hu)⟩

/-! ### Expressions -/

/-- All atoms in trees up to some size say something, which is seen in them. -/
def AtomsShow (text : List Char) (size : Nat) : Prop :=
  ∀ skip t, sizeOf t ≤ size → Parsed text skip Sym.atom t → ∃ e, Shows t e

theorem sizeOf_child {header : Header} {children : List (Token Value)} {c : Token Value}
    (h : c ∈ children) : sizeOf c < sizeOf (Token.node header children none) := by
  have hlt := List.sizeOf_lt_of_mem h
  rw [Token.node.sizeOf_spec]
  omega

theorem sizeOf_over {kind : Kind} {name : Name} {ordinal : Nat} :
    sizeOf t < sizeOf (Token.over kind name ordinal t) :=
  sizeOf_child (List.mem_singleton_self t)

theorem AtomsShow.child {header : Header} {children : List (Token Value)} {c : Token Value}
    (h : AtomsShow text (sizeOf (Token.node header children none))) (hc : c ∈ children) :
    AtomsShow text (sizeOf c) :=
  fun skip t ht => h skip t (Nat.le_trans ht (Nat.le_of_lt (sizeOf_child hc)))

theorem AtomsShow.under {kind : Kind} {name : Name} {ordinal : Nat}
    (h : AtomsShow text (sizeOf (Token.over kind name ordinal t))) : AtomsShow text (sizeOf t) :=
  fun skip t ht => h skip t (Nat.le_trans ht (Nat.le_of_lt sizeOf_over))

/-- A repeated atom. -/
theorem made_repeated {ref mark : Ref} {name : Name} {serial : Nat} {literal : Char} {step : Step}
    {count : Count} (h : Parsed text skip ref t) (hatoms : AtomsShow text (sizeOf t))
    (hsymbol : ruleSet.graph.symbol ref = ⟨name, .sequence [Sym.atom, mark]⟩)
    (hmark : ruleSet.graph.symbol mark = ⟨.generated serial, .character literal⟩)
    (hstep : ∀ t d, step t d = do
      let inner ← (← t.item 0).payload
      return (.symbol (d.addRepeated inner.asPart count).1,
        (d.addRepeated inner.asPart count).2))
    (hname : heard name = some (.ofStep step)) (hplain : isPlain name = true)
    (hid : name ≠ .given "ID") : ∃ e, Shows t e := by
  obtain ⟨substring, start, children, rfl, hall⟩ := h.sequence hsymbol
  obtain _ | ⟨hatom, _ | ⟨hb, _ | _⟩⟩ := hall
  obtain ⟨e, he⟩ := hatoms _ _ (Nat.le_of_lt (sizeOf_child (List.mem_cons_self ..))) hatom
  exact ⟨_, shows_repeated count hstep hname hplain hid he (made_mark hb hmark)⟩

theorem made_factor (h : Parsed text skip Sym.factor t) (hatoms : AtomsShow text (sizeOf t)) :
    ∃ e, Shows t e := by
  obtain ⟨ordinal, member, u, rfl, hmember, hu⟩ := h.junction (symbol_node rfl)
  have hinner : ∃ e, Shows u e := by
    rcases ordinal with _ | _ | _ | _ | ordinal <;> cases hmember
    · exact made_repeated hu hatoms.under (symbol_node rfl) (symbol_node rfl) multiple_eq rfl rfl
        (by decide)
    · exact made_repeated hu hatoms.under (symbol_node rfl) (symbol_node rfl) option_eq rfl rfl
        (by decide)
    · exact made_repeated hu hatoms.under (symbol_node rfl) (symbol_node rfl) star_eq rfl rfl
        (by decide)
    · exact hatoms _ _ (Nat.le_of_lt sizeOf_over) hu
  obtain ⟨e, he⟩ := hinner
  exact ⟨e, he.covering rfl rfl (by decide)⟩

theorem made_sequence (h : Parsed text skip Sym.sequence t) (hatoms : AtomsShow text (sizeOf t)) :
    ∃ e, Shows t e := by
  obtain ⟨substring, start, children, rfl, hne, hchildren⟩ := h.multiple (symbol_node rfl)
  obtain ⟨es, hes⟩ := exists_forall₂ fun c hc =>
    made_factor (hchildren c hc) (hatoms.child hc)
  exact ⟨_, shows_sequence hes hne⟩

theorem made_alternative (h : Parsed text skip (.node 53) t)
    (hatoms : AtomsShow text (sizeOf t)) : ∃ e, ShowsAlternative t e := by
  obtain ⟨substring, start, children, rfl, hall⟩ := h.sequence (symbol_node rfl)
  obtain _ | ⟨hb, _ | ⟨hc, _ | _⟩⟩ := hall
  obtain ⟨e, he⟩ := made_sequence hc (hatoms.child (by simp))
  exact ⟨e, shows_alternative (made_mark hb (symbol_node rfl)) he⟩

theorem made_junction (h : Parsed text skip Sym.junction t) (hatoms : AtomsShow text (sizeOf t)) :
    ∃ e, Shows t e := by
  obtain ⟨substring, start, children, rfl, hall⟩ := h.sequence (symbol_node rfl)
  obtain _ | ⟨hc, _ | ⟨hm, _ | _⟩⟩ := hall
  obtain ⟨e, he⟩ := made_sequence hc (hatoms.child (by simp))
  obtain ⟨substring', start', alternatives, rfl, -, halternatives⟩ := hm.multiple (symbol_node rfl)
  have hatoms : AtomsShow text (sizeOf (Token.node
      ⟨.multiple, .generated 54, substring', start', 0⟩ alternatives none)) :=
    hatoms.child (by simp)
  obtain ⟨es, hes⟩ := exists_forall₂ fun c hc =>
    made_alternative (halternatives c hc) (hatoms.child hc)
  exact ⟨_, shows_junction he hes⟩

/-- An expression shows something if the atoms in it do. -/
theorem made_symbol_of_atoms (h : Parsed text skip Sym.symbol t)
    (hatoms : AtomsShow text (sizeOf t)) : ∃ e, Shows t e := by
  obtain ⟨ordinal, member, u, rfl, hmember, hu⟩ := h.junction (symbol_node rfl)
  have hinner : ∃ e, Shows u e := by
    rcases ordinal with _ | _ | ordinal <;> cases hmember
    · exact made_junction hu hatoms.under
    · exact made_sequence hu hatoms.under
  obtain ⟨e, he⟩ := hinner
  exact ⟨e, he.covering rfl rfl (by decide)⟩

theorem atomsShow (text : List Char) (size : Nat) : AtomsShow text size := by
  -- Only a group has expressions inside, and they are smaller than the group.
  induction size using Nat.strong_induction_on with
  | _ size ih =>
    intro skip t hsize h
    obtain ⟨ordinal, member, u, rfl, hmember, hu⟩ := h.junction (symbol_node rfl)
    rcases ordinal with _ | _ | _ | ordinal <;> cases hmember
    · obtain ⟨substring, start, children, rfl, hall⟩ := hu.sequence (symbol_node rfl)
      obtain _ | ⟨hb, _ | ⟨hc, _ | ⟨hb', _ | _⟩⟩⟩ := hall
      have hlt := Nat.lt_of_lt_of_le sizeOf_over hsize
      have hatoms : AtomsShow text _ := ih _ hlt
      obtain ⟨e, he⟩ := made_symbol_of_atoms (hc.implicit (symbol_node rfl))
        (hatoms.child (by simp))
      exact ⟨e, shows_group (made_mark hb (symbol_node rfl)) he (made_mark hb' (symbol_node rfl))⟩
    · exact ⟨_, shows_reference (made_ID hu)⟩
    · obtain ⟨ordinal, literal, rfl, hliteral⟩ := made_literal hu
      exact shows_literal hliteral

theorem made_symbol (h : Parsed text skip Sym.symbol t) : ∃ e, Shows t e :=
  made_symbol_of_atoms h (atomsShow text _)

/-! ### Rules -/

theorem made_rule (h : Parsed text skip Sym.rule t) : ∃ r, ShowsRule t r := by
  obtain ⟨substring, start, children, rfl, hall⟩ := h.sequence (symbol_node rfl)
  obtain _ | ⟨hid, _ | ⟨hcolon, _ | ⟨hbody, _ | ⟨hsemicolon, _ | _⟩⟩⟩⟩ := hall
  obtain ⟨e, he⟩ := made_symbol hbody
  exact shows_rule (made_ID hid) (made_mark hcolon (symbol_node rfl)) he
    (made_mark hsemicolon (symbol_node rfl))

/-- Whatever the notation makes of a text says which rules there are, and what there is to say about
    them is seen in the tree. -/
theorem made_grammar (h : Parsed text skip Sym.start t) : ∃ rs, ShowsGrammar t rs := by
  obtain ⟨substring, start, rules, rfl, -, hrules⟩ := h.multiple (symbol_node rfl)
  obtain ⟨rs, hrs⟩ := exists_forall₂ fun rule hrule => made_rule (hrules rule hrule)
  exact ⟨rs, shows_grammar hrs⟩

/-- Whatever the notation makes of a text says which rules there are, under names that are in the
    text in this order. -/
theorem made_start (h : Parsed text skip Sym.start t) :
    ∃ rs : List RuleText, IsGrammar t rs ∧ rs.map RuleText.name = t.children.map ruleName ∧
      ∀ r ∈ rs, r.IsNamed := by
  obtain ⟨rs, hrs⟩ := made_grammar h
  exact ⟨rs, hrs.isGrammar, hrs.names, hrs.isNamed⟩

end GrammarEngine.Notation
