import GrammarEngine.Proofs.Notation.Between
import GrammarEngine.Proofs.Notation.Derivation
import GrammarEngine.Proofs.Notation.Literals

namespace GrammarEngine.Notation

/-!
# How names and literals are spelt

Where the notation made the tree of a name or of a literal, the name or a literal is in the text,
from one end of the tree to the other. What the tree says, if it makes sense, is spelt like this.

* `Tells` — a tree says something, and the text is a way to write it;
* `name_of_placed` — names, which go as far as they can;
* `char_of_placed`, `items_of_run` — characters, and the items of a class;
* `literal_of_placed` — literals.
-/

variable {text : List Char} {skip ref : Ref} {p q r : Nat} {t : Token Value} {index : Nat}

/-- The tree says something, and if that makes sense the text is a way to write it. -/
def Tells {E V S : Type} (is : Token Value → E → Prop) (valid : E → V → Prop)
    (writes : V → S → Prop) (t : Token Value) (s : S) : Prop :=
  ∃ e, is t e ∧ ∀ v, valid e v → writes v s

theorem Placed.stop_eq (h : Placed text skip ref p t q) {s : List Char}
    (hdrop : text.drop p = s ++ text.drop q) : q = p + s.length := by
  have hlength := congrArg List.length hdrop
  have hle := h.le
  rw [List.length_append, List.length_drop, List.length_drop] at hlength
  omega

theorem Placed.slice_eq (h : Placed text skip ref p t q) {s : List Char}
    (hdrop : text.drop p = s ++ text.drop q) : slice text p q = String.ofList s := by
  rw [h.stop_eq hdrop]
  exact slice_of_drop hdrop

/-- A tree over some characters covers them. -/
theorem Placed.covers_of_drop (h : Placed text skip (.node index) p t q)
    (hindex : index < layout.length) {s : List Char} (hdrop : text.drop p = s ++ text.drop q)
    (hne : s ≠ []) : t.isEmpty = false := by
  refine h.covers hindex ?_
  have hpos := List.length_pos_iff.mpr hne
  have hstop := h.stop_eq hdrop
  omega

/-- A particular character. -/
theorem quiet_of_placed {serial : Nat} {c : Char} (h : Placed text skip (.node index) p t q)
    (hsymbol : layout[index]? = some ⟨.generated serial, .character c⟩) :
    text.drop p = c :: text.drop q ∧ t.isEmpty = false ∧ Quiet heard t := by
  obtain ⟨hdrop, start, rfl⟩ := h.character isRanked (symbol_node hsymbol)
  exact ⟨hdrop, isEmpty_singleton .., quiet_leaf rfl⟩

/-! ### Names -/

/-- A name goes as far as it can. -/
theorem name_of_placed (h : Placed text skip Sym.ID p t q) :
    ∃ name, isID name = true ∧ text.drop p = name.toList ++ text.drop q ∧
      (∀ c ∈ (text.drop q).head?, ¬ isWordChar c = true) ∧ t.isEmpty = false ∧
      Quiet heard t ∧ t.substring = name := by
  by_cases hfirst : ∃ c ∈ (text.drop p).head?, isLetter c = true
  · obtain ⟨c, hc, hletter⟩ := hfirst
    have hcons := exists_tail hc
    generalize (text.drop p).tail = s at hcons
    have hname : isID (String.ofList (c :: s.takeWhile isWordChar)) = true := by
      rw [isID, String.toList_ofList, Bool.and_eq_true, List.all_eq_true]
      exact ⟨hletter, fun d hd => List.mem_takeWhile_imp hd⟩
    have hstops : ∀ d ∈ (s.dropWhile isWordChar).head?, ¬ isWordChar d = true :=
      fun d hd => Bool.eq_false_iff.mp (head?_dropWhile hd)
    have hdrop : text.drop p = (String.ofList (c :: s.takeWhile isWordChar)).toList ++
        s.dropWhile isWordChar := by
      rw [String.toList_ofList, List.cons_append, List.takeWhile_append_dropWhile, hcons]
    obtain ⟨t', hreads, hcovers, hquiet, hsubstring⟩ := reads_ID skip hname hstops hdrop
    -- What is read at the place is that name, and so the tree is one of it.
    cases h.unique hreads
    have hrest : text.drop (p + String.length _) = s.dropWhile isWordChar := drop_of_drop hdrop
    exact ⟨_, hname, by rw [hrest]; exact hdrop, by rw [hrest]; exact hstops, hcovers, hquiet,
      hsubstring⟩
  · have hfails : Reads text Sym.ID skip p none :=
      ID_fails fun c hc hletter => hfirst ⟨c, hc, hletter⟩
    cases h.unique hfails

/-! ### Characters -/

theorem mem_escapable {c : Char} (h : List.any [(⟨116, 116⟩ : CodeRange), ⟨110, 110⟩, ⟨114, 114⟩,
    ⟨34, 34⟩, ⟨39, 39⟩, ⟨45, 45⟩, ⟨92, 92⟩, ⟨93, 93⟩] (·.contains c.toNat) = true) :
    c ∈ escapable := by
  have hcode : c.toNat ∈ escapable.map Char.toNat := by
    simp at h
    simp [escapable]
    omega
  obtain ⟨d, hd, heq⟩ := List.mem_map.mp hcode
  rwa [← Char.toNat_inj.mp heq]

theorem digit_of_placed (h : Placed text .zeroLength Sym.DIGIT p t q) :
    ∃ c, text.drop p = c :: text.drop q ∧ c.isDigit = true ∧ Quiet heard t := by
  obtain ⟨c, start, ordinal, hdrop, hany, rfl⟩ := h.switch isRanked (symbol_node rfl)
  refine ⟨c, hdrop, ?_, quiet_leaf rfl⟩
  simp at hany
  simp only [Char.isDigit, Bool.and_eq_true, decide_eq_true_eq, ge_iff_le, UInt32.le_iff_toNat_le]
  exact hany

/-- Four digits behind a letter. -/
theorem number_of_placed (h : Placed text .zeroLength (.node 9) p t q) :
    ∃ digits : List Char, digits.length = 4 ∧ digits.all Char.isDigit = true ∧
      text.drop p = 'u' :: digits ++ text.drop q ∧ Quiet heard t ∧ t.sort = .node .sequence ∧
      t.substring.toList = 'u' :: digits := by
  obtain ⟨start, u, us, r, ht, hu, hrest⟩ := h.sequence isRanked (symbol_node rfl) rfl
  obtain ⟨hdrop, hcovers, hquiet⟩ := quiet_of_placed hu rfl
  have hchain : ChainFrom rank ruleSet.graph text ([5, 5, 5, 5].map Ref.node) r us q :=
    chain_of_members (hrest hcovers) (by decide)
  obtain _ | ⟨h₁, _ | ⟨h₂, _ | ⟨h₃, _ | ⟨h₄, _ | _⟩⟩⟩⟩ := hchain
  obtain ⟨c₁, hdrop₁, hc₁, hquiet₁⟩ := digit_of_placed h₁
  obtain ⟨c₂, hdrop₂, hc₂, hquiet₂⟩ := digit_of_placed h₂
  obtain ⟨c₃, hdrop₃, hc₃, hquiet₃⟩ := digit_of_placed h₃
  obtain ⟨c₄, hdrop₄, hc₄, hquiet₄⟩ := digit_of_placed h₄
  have hall : text.drop p = 'u' :: [c₁, c₂, c₃, c₄] ++ text.drop q := by
    rw [hdrop, hdrop₁, hdrop₂, hdrop₃, hdrop₄]
    rfl
  have hslice := h.slice_eq hall
  subst ht
  refine ⟨[c₁, c₂, c₃, c₄], rfl, by simp [hc₁, hc₂, hc₃, hc₄], hall, ?_, rfl, ?_⟩
  · refine .node rfl fun u hu => ?_
    simp only [List.mem_cons, List.not_mem_nil, or_false] at hu
    rcases hu with rfl | rfl | rfl | rfl | rfl <;> assumption
  · exact (congrArg String.toList hslice).trans String.toList_ofList

theorem escape_of_placed (reserved : List Char) (h : Placed text .zeroLength Sym.escape p t q) :
    ∃ s, text.drop p = s ++ text.drop q ∧ IsCharText reserved s ∧
      Tells IsChar (· = .ok ·) (SpellsChar reserved) t s := by
  obtain ⟨start, u, us, r, rfl, hu, hrest⟩ :=
    h.sequence isRanked (symbol_node rfl) (skipInside_zeroLength _)
  obtain ⟨hdrop, hcovers, hquiet⟩ := quiet_of_placed hu rfl
  have hchain : ChainFrom rank ruleSet.graph text ([10].map Ref.node) r us q :=
    chain_of_members (hrest hcovers) (by decide)
  obtain _ | ⟨hwhich, _ | _⟩ := hchain
  obtain ⟨ordinal, member, u', rfl, hmember, hu', -⟩ :=
    hwhich.junction isRanked (symbol_node rfl) rfl
  rcases ordinal with _ | _ | ordinal <;> cases hmember
  · obtain ⟨c, start', ordinal, hdrop', hany, rfl⟩ := hu'.switch isRanked (symbol_node rfl)
    have hc := mem_escapable hany
    refine ⟨['\\', c], by rw [hdrop, hdrop']; rfl, .escaped hc, _,
      isChar_letter hquiet (quiet_leaf rfl) rfl, ?_⟩
    rintro _ ⟨⟩
    exact .escaped hc
  · obtain ⟨digits, hlength, hall, hdrop', hnumber, hsort, hsubstring⟩ := number_of_placed hu'
    obtain ⟨e, hchar⟩ := isChar_octal hquiet hnumber hsort hsubstring hlength
    refine ⟨'\\' :: 'u' :: digits, by rw [hdrop, hdrop']; rfl, .digits hlength hall, _, hchar,
      fun c hc => ?_⟩
    split at hc
    · rename_i hoctal
      cases hc
      obtain ⟨digits, rfl⟩ := exists_octalChars hoctal
      rw [octalValue_octalChars]
      exact .octal ((length_octalChars digits).symm.trans hlength)
    · cases hc

/-- A character of a literal, however it is written. -/
theorem char_of_placed {serial : Nat} {name : Name} {ranges : CharClass} {reserved : List Char}
    (h : Placed text .zeroLength (.node index) p t q)
    (hsymbol : layout[index]? = some ⟨name, .junction [Sym.escape, .node serial]⟩)
    (hplain : layout[serial]? = some ⟨.generated serial, .switch ranges⟩)
    (hranges : ∀ c, ranges.any (·.contains c.toNat) = true ↔ c ∉ reserved)
    (hname : heard name = some (.ofStep char)) :
    ∃ s, text.drop p = s ++ text.drop q ∧ IsCharText reserved s ∧
      Tells IsChar (· = .ok ·) (SpellsChar reserved) t s := by
  obtain ⟨ordinal, member, u, rfl, hmember, hu, -⟩ :=
    h.junction isRanked (symbol_node hsymbol) (skipInside_zeroLength _)
  rcases ordinal with _ | _ | ordinal <;> cases hmember
  · obtain ⟨s, hdrop, htext, r, hchar, hspells⟩ := escape_of_placed reserved hu
    exact ⟨s, hdrop, htext, r, isChar_escaped hchar hname, hspells⟩
  · obtain ⟨c, start, ordinal, hdrop, hany, rfl⟩ := hu.switch isRanked (symbol_node hplain)
    have hfree := (hranges c).mp hany
    refine ⟨[c], hdrop, .plain hfree, .ok c, isChar_raw (quiet_leaf rfl) hname rfl, ?_⟩
    rintro _ ⟨⟩
    exact .raw hfree

theorem quotedChar_of_placed (h : Placed text .zeroLength Sym.char p t q) :
    ∃ s, text.drop p = s ++ text.drop q ∧ IsCharText quotedReserved s ∧
      Tells IsChar (· = .ok ·) (SpellsChar quotedReserved) t s :=
  char_of_placed h rfl rfl quotedChar_iff rfl

theorem classChar_of_placed (h : Placed text .zeroLength Sym.rangeChar p t q) :
    ∃ s, text.drop p = s ++ text.drop q ∧ IsCharText classReserved s ∧
      Tells IsChar (· = .ok ·) (SpellsChar classReserved) t s :=
  char_of_placed h rfl rfl classChar_iff rfl

theorem IsCharText.ne_nil {reserved s : List Char} (h : IsCharText reserved s) : s ≠ [] := by
  cases h <;> simp

/-! ### Classes -/

/-- Where no range from one character to another begins, no character follows behind a minus
    sign. -/
theorem no_char_of_fails {s s' rest rest' : List Char}
    (h : FailsFrom rank ruleSet.graph text Value .zeroLength (.node 22) p)
    (hchar : IsCharText classReserved s) (hdrop : text.drop p = s ++ '-' :: rest)
    (hchar' : IsCharText classReserved s') : rest ≠ s' ++ rest' := by
  rintro rfl
  -- The three would be read as a span, which has failed.
  have hdrop' := drop_of_drop hdrop
  obtain ⟨t₁, h₁, hcovers₁⟩ := reads_classCharText hchar hdrop
  have hminus : Reads text (.node 21) .zeroLength (p + s.length) _ :=
    .character (symbol_node rfl) hdrop'
  obtain ⟨t₂, h₂, hcovers₂⟩ := reads_classCharText hchar' (drop_of_drop (s := ['-']) hdrop')
  have hspan : Reads text (.node 22) .zeroLength p _ :=
    .sequence isRanked (symbol_node rfl) rfl h₁ hcovers₁
      (.covers (.zeroLength _) hminus (isEmpty_singleton ..)
        (.covers (.zeroLength _) h₂ hcovers₂ (.nil _ _)))
  cases h.unique hspan

/-- The range is written so ahead of the rest of a text, perhaps with no upper end. -/
def SpellsAhead (rest : List Char) (range : CodeRange) (s : List Char) : Prop :=
  SpellsRange range s ∨ ∃ c s', s = s' ++ ['-'] ∧ range = ⟨c.toNat, maxCodePoint⟩ ∧
    SpellsChar classReserved c s' ∧
    ∀ s'' rest', IsCharText classReserved s'' → rest ≠ s'' ++ rest'

/-- An item of a class. Where it has no upper end, no item follows. -/
theorem item_of_placed (h : Placed text .zeroLength (.node 25) p t q) :
    ∃ s, text.drop p = s ++ text.drop q ∧ s ≠ [] ∧
      (∀ s' rest, text.drop q = s' ++ rest → IsItemsText s' → IsItemsText (s ++ s')) ∧
      t.sort = .node .junction ∧
      Tells IsItem (fun r range => r = .ok (.ok range)) (SpellsAhead (text.drop q)) t s := by
  obtain ⟨ordinal, member, u, rfl, hmember, hu, hfails⟩ := h.junction isRanked (symbol_node rfl) rfl
  rcases ordinal with _ | _ | _ | ordinal <;> cases hmember
  · -- From one character to another.
    obtain ⟨start, u, us, r, rfl, hlow, hrest⟩ := hu.sequence isRanked (symbol_node rfl) rfl
    obtain ⟨s, hdrop, htext, low, hchar, hlow'⟩ := classChar_of_placed hlow
    have hchain : ChainFrom rank ruleSet.graph text ([21, 15].map Ref.node) r us q :=
      chain_of_members (hrest (Placed.covers_of_drop hlow (by decide) hdrop htext.ne_nil)) (by decide)
    obtain _ | ⟨hminus, _ | ⟨hhigh, _ | _⟩⟩ := hchain
    obtain ⟨hdropm, -, hquiet⟩ := quiet_of_placed hminus rfl
    obtain ⟨s', hdrop', htext', high, hchar', hhigh'⟩ := classChar_of_placed hhigh
    obtain ⟨e, hitem⟩ := isItem_span hchar hquiet hchar'
    refine ⟨s ++ '-' :: s', by rw [hdrop, hdropm, hdrop']; simp, by simp,
      fun s'' _ _ hs'' => .span htext htext' hs'', rfl, _, hitem, fun range hrange => .inl ?_⟩
    obtain ⟨low, high, hlow, hhigh, hle, rfl⟩ := of_span_ok hrange
    exact .span (hlow' low hlow) (hhigh' high hhigh) hle
  · -- From a character on.
    obtain ⟨start, u, us, r, rfl, hlow, hrest⟩ := hu.sequence isRanked (symbol_node rfl) rfl
    obtain ⟨s, hdrop, htext, low, hchar, hlow'⟩ := classChar_of_placed hlow
    have hchain : ChainFrom rank ruleSet.graph text ([23].map Ref.node) r us q :=
      chain_of_members (hrest (Placed.covers_of_drop hlow (by decide) hdrop htext.ne_nil)) (by decide)
    obtain _ | ⟨hminus, _ | _⟩ := hchain
    obtain ⟨hdropm, -, hquiet⟩ := quiet_of_placed hminus rfl
    rw [hdropm] at hdrop
    have hno : ∀ s' rest, IsCharText classReserved s' → text.drop q ≠ s' ++ rest :=
      fun s' rest => no_char_of_fails (hfails 0 (by omega) _ rfl) htext hdrop
    refine ⟨s ++ ['-'], by rw [hdrop]; simp, by simp, fun s' rest hrest hs' => ?_, rfl, _,
      isItem_onward hchar hquiet, fun range hrange => .inr ?_⟩
    · obtain rfl | ⟨s', rest', hchar', rfl⟩ := hs'.nil_or_char
      · rw [List.append_nil]
        exact .onward htext
      · exact absurd (hrest.trans (List.append_assoc ..)) (hno s' _ hchar')
    · obtain ⟨low, hlow, heq⟩ := of_map_ok hrange
      cases heq
      exact ⟨low, s, rfl, rfl, hlow' low hlow, hno⟩
  · -- A single character.
    obtain ⟨s, hdrop, htext, c, hchar, hc⟩ := classChar_of_placed hu
    refine ⟨s, hdrop, htext.ne_nil, fun s' _ _ hs' => .lone htext hs', rfl, _, isItem_lone hchar,
      fun range hrange => .inl ?_⟩
    obtain ⟨c, hvalid, heq⟩ := of_map_ok hrange
    cases heq
    exact .lone (hc c hvalid)

theorem SpellsRanges.eq_nil {ranges : CharClass} {s : List Char} (h : SpellsRanges ranges s)
    (hs : s = []) : ranges = [] := by
  cases h with
  | nil => rfl
  | onward char => simp at hs
  | cons first later =>
    cases first with
    | span lower upper ordered => simp at hs
    | lone char => exact absurd (List.append_eq_nil_iff.mp hs).1 char.isCharText.ne_nil

theorem SpellsAhead.ranges {range : CodeRange} {ranges : CharClass} {s s' rest : List Char}
    (h : SpellsAhead (s' ++ rest) range s) (h' : SpellsRanges ranges s') :
    SpellsRanges (range :: ranges) (s ++ s') := by
  obtain hrange | ⟨c, s, rfl, rfl, hchar, hno⟩ := h
  · exact .cons hrange h'
  · -- No character follows, and so there is no other range: the open one is the last.
    obtain rfl | ⟨s'', rest', hchar', rfl⟩ := h'.isItemsText.nil_or_char
    · rw [h'.eq_nil rfl, List.append_nil]
      exact .onward hchar
    · exact absurd (List.append_assoc ..) (hno s'' _ hchar')

/-- The items of a class. -/
theorem items_of_run {ts : List (Token Value)}
    (h : RunFrom rank ruleSet.graph text (.node 25) p ts q) :
    ∃ s, text.drop p = s ++ text.drop q ∧ IsItemsText s ∧ (∀ t ∈ ts, t.sort = .node .junction) ∧
      ∃ rs, List.Forall₂ IsItem ts rs ∧
        ∀ ranges, rs = ranges.map (fun range => .ok (.ok range)) → SpellsRanges ranges s := by
  induction h with
  | nil =>
    refine ⟨[], rfl, .nil, by simp, [], .nil, fun ranges hranges => ?_⟩
    rw [List.map_eq_nil_iff.mp hranges.symm]
    exact .nil
  | cons first _ ih =>
    obtain ⟨s, hdrop, -, htext, hsort, r, hitem, hrange⟩ := item_of_placed first
    obtain ⟨s', hdrop', htext', hsorts, rs, hitems, hranges⟩ := ih
    refine ⟨s ++ s', by rw [hdrop, hdrop', List.append_assoc], htext s' _ hdrop' htext',
      List.forall_mem_cons.mpr ⟨hsort, hsorts⟩, r :: rs, .cons hitem hitems, ?_⟩
    intro ranges heq
    obtain ⟨range, ranges, rfl, hfirst, hlater⟩ := List.map_eq_cons_iff.mp heq.symm
    have hahead := hrange range hfirst.symm
    rw [hdrop'] at hahead
    exact hahead.ranges (hranges ranges hlater.symm)

/-- What a class can have at its beginning. -/
inductive SpellsUpTo : CharClass → List Char → Prop
  | none : SpellsUpTo [] []
  | some {c : Char} {s : List Char} (char : SpellsChar classReserved c s) :
      SpellsUpTo [⟨0, c.toNat⟩] ('-' :: s)

theorem upTo_of_placed (h : Placed text .zeroLength (.node 20) p t q) :
    ∃ s, text.drop p = s ++ text.drop q ∧
      (s = [] ∨ ∃ s', s = '-' :: s' ∧ IsCharText classReserved s') ∧ t.sort = .node .option ∧
      Tells IsUpTo (· = .ok ·) SpellsUpTo t s := by
  obtain ⟨⟨start, rfl⟩, rfl⟩ | ⟨u, rfl, hu⟩ := h.option isRanked (symbol_node rfl) rfl
  · refine ⟨[], rfl, .inl rfl, rfl, _, isUpTo_none, ?_⟩
    rintro _ ⟨⟩
    exact .none
  · obtain ⟨start, u, us, r, rfl, hminus, hrest⟩ := hu.sequence isRanked (symbol_node rfl) rfl
    obtain ⟨hdrop, hcovers, hquiet⟩ := quiet_of_placed hminus rfl
    have hchain : ChainFrom rank ruleSet.graph text ([15].map Ref.node) r us q :=
      chain_of_members (hrest hcovers) (by decide)
    obtain _ | ⟨hhigh, _ | _⟩ := hchain
    obtain ⟨s, hdrop', htext, high, hchar, hhigh'⟩ := classChar_of_placed hhigh
    refine ⟨'-' :: s, by rw [hdrop, hdrop']; rfl, .inr ⟨s, rfl, htext⟩, rfl, _,
      isUpTo_some hquiet hchar, fun ranges hranges => ?_⟩
    obtain ⟨high, hhigh, rfl⟩ := of_map_ok hranges
    exact .some (hhigh' high hhigh)

/-- The parts of a repetition that may be empty. -/
theorem run_of_star {repetition inner : Ref} {name : Name} {serial : Nat}
    (h : Placed text .zeroLength (.node index) p t q)
    (hsymbol : layout[index]? = some ⟨name, .star repetition⟩)
    (hinside : skipInside name .zeroLength = .zeroLength)
    (hrepetition : ruleSet.graph.symbol repetition = ⟨.generated serial, .multiple inner⟩)
    (hcovers : ∀ p t q, Placed text .zeroLength inner p t q → t.isEmpty = false) :
    ∃ substring start ts, t = .node ⟨.star, name, substring, start, 0⟩ ts none ∧
      RunFrom rank ruleSet.graph text inner p ts q := by
  obtain ⟨⟨start, rfl⟩, rfl⟩ | ⟨u, rfl, hu⟩ :=
    h.star isRanked (symbol_node hsymbol) hinside
  · exact ⟨"", start, [], rfl, .nil⟩
  · obtain ⟨start, u, us, r, rfl, hfirst, hrest⟩ := hu.multiple isRanked hrepetition rfl
    have hfirst' := hcovers _ _ _ hfirst
    exact ⟨_, _, _, rfl, .cons hfirst ((hrest hfirst').run hcovers)⟩

/-- What a class that makes sense says. -/
theorem of_classOf_ok {start : Int} {r : Except ParseError CharClass}
    {rs : List (Except ParseError (Except ParseError CodeRange))} {v : Literal}
    (h : classOf start r rs = .ok v) : ∃ first ranges, r = .ok first ∧
      rs = ranges.map (fun range => .ok (.ok range)) ∧ v = .oneOf (first ++ ranges) := by
  unfold classOf at h
  obtain ⟨first, hfirst, h⟩ := of_bind_ok h
  obtain ⟨items, hitems, h⟩ := of_bind_ok h
  obtain ⟨ranges, hranges, h⟩ := of_bind_ok h
  refine ⟨first, ranges, hfirst, ?_, (Except.ok.inj h).symm⟩
  rw [of_mapM_ok hitems, of_mapM_ok (of_mapError_ok hranges), List.map_map]
  rfl

/-- A literal is written as in the text, and says something. -/
abbrev LiteralTold (t : Token Value) (s : List Char) : Prop :=
  Tells (fun t r => IsExpr t (.literal r)) (· = .ok ·) Spells t s

theorem class_of_placed (h : Placed text .zeroLength Sym.switch p t q) :
    ∃ s, text.drop p = s ++ text.drop q ∧ IsLiteralText s ∧ LiteralTold t s := by
  obtain ⟨ordinal, member, u, rfl, hmember, hu, -⟩ :=
    h.junction isRanked (symbol_node rfl) (skipInside_zeroLength _)
  rcases ordinal with _ | _ | ordinal <;> cases hmember
  · obtain ⟨hdrop, start, rfl⟩ := hu.literal isRanked (symbol_node rfl)
    refine ⟨['[', '-', ']'], hdrop, .any, _, isExpr_any (quiet_leaf rfl), ?_⟩
    rintro _ ⟨⟩
    exact .any
  · obtain ⟨start, u, us, r, rfl, hopening, hrest⟩ := hu.sequence isRanked (symbol_node rfl) rfl
    obtain ⟨hdrop₁, hcovers, hquiet₁⟩ := quiet_of_placed hopening rfl
    have hchain : ChainFrom rank ruleSet.graph text ([20, 27, 28].map Ref.node) r us q :=
      chain_of_members (hrest hcovers) (by decide)
    obtain _ | ⟨hupTo, _ | ⟨hstar, _ | ⟨hclosing, _ | _⟩⟩⟩ := hchain
    obtain ⟨s, hdrop₂, htext, hsort, first, hfirst, hspells⟩ := upTo_of_placed hupTo
    have hitem : ∀ p t q, Placed text .zeroLength (.node 25) p t q → t.isEmpty = false := by
      intro p t q h
      obtain ⟨s, hdrop, hne, -⟩ := item_of_placed h
      exact h.covers_of_drop (by decide) hdrop hne
    obtain ⟨substring, start', items, rfl, hrun⟩ :=
      run_of_star hstar rfl rfl (symbol_node rfl) hitem
    obtain ⟨s', hdrop₃, htext', hsorts, rs, hitems, hranges⟩ := items_of_run hrun
    obtain ⟨hdrop₄, -, hquiet₂⟩ := quiet_of_placed hclosing rfl
    refine ⟨'[' :: (s ++ s' ++ [']']), by rw [hdrop₁, hdrop₂, hdrop₃, hdrop₄]; simp, ?_, _,
      isExpr_class hquiet₁ hfirst hsort hitems hsorts hquiet₂, fun v hv => ?_⟩
    · obtain rfl | ⟨s, rfl, hchar⟩ := htext
      · exact .items htext'
      · exact .upTo hchar htext'
    · obtain ⟨first, ranges, rfl, rfl, rfl⟩ := of_classOf_ok hv
      have hlater := hranges ranges rfl
      cases hspells first rfl with
      | none => exact .oneOf (.ranges hlater)
      | some char => exact .oneOf (.upTo char hlater)

/-! ### Quoted literals -/

/-- Characters between quotes. -/
theorem chars_of_run {ts : List (Token Value)}
    (h : RunFrom rank ruleSet.graph text Sym.char p ts q) :
    ∃ s, text.drop p = s ++ text.drop q ∧ (ts = [] ∧ s = [] ∨ ts ≠ [] ∧ IsQuotedText s) ∧
      ∃ rs, List.Forall₂ IsChar ts rs ∧ ∀ cs, rs = cs.map .ok → SpellsChars cs s := by
  induction h with
  | nil =>
    refine ⟨[], rfl, .inl ⟨rfl, rfl⟩, [], .nil, fun cs hcs => ?_⟩
    rw [List.map_eq_nil_iff.mp hcs.symm]
    exact .nil
  | cons first _ ih =>
    obtain ⟨s, hdrop, htext, r, hchar, hspells⟩ := quotedChar_of_placed first
    obtain ⟨s', hdrop', htext', rs, hchars, hspells'⟩ := ih
    refine ⟨s ++ s', by rw [hdrop, hdrop', List.append_assoc], .inr ⟨by simp, ?_⟩, r :: rs,
      .cons hchar hchars, fun cs heq => ?_⟩
    · obtain ⟨-, rfl⟩ | ⟨-, htext'⟩ := htext'
      · rw [List.append_nil]
        exact .one htext
      · exact .more htext htext'
    · obtain ⟨c, cs, rfl, hfirst, hlater⟩ := List.map_eq_cons_iff.mp heq.symm
      exact .cons (hspells c hfirst.symm) (hspells' cs hlater.symm)

theorem single_of_placed (h : Placed text .zeroLength Sym.character p t q) :
    ∃ s, text.drop p = s ++ text.drop q ∧ IsLiteralText s ∧ LiteralTold t s := by
  obtain ⟨start, u, us, r, rfl, hopening, hrest⟩ :=
    h.sequence isRanked (symbol_node rfl) (skipInside_zeroLength _)
  obtain ⟨hdrop₁, hcovers, hquiet₁⟩ := quiet_of_placed hopening rfl
  have hchain : ChainFrom rank ruleSet.graph text ([13, 32].map Ref.node) r us q :=
    chain_of_members (hrest hcovers) (by decide)
  obtain _ | ⟨hchar, _ | ⟨hclosing, _ | _⟩⟩ := hchain
  obtain ⟨s, hdrop₂, htext, r, hr, hspells⟩ := quotedChar_of_placed hchar
  obtain ⟨hdrop₃, -, hquiet₂⟩ := quiet_of_placed hclosing rfl
  refine ⟨'"' :: (s ++ ['"']), by rw [hdrop₁, hdrop₂, hdrop₃]; simp, .quoted (.one htext), _,
    isExpr_character hquiet₁ hr hquiet₂, fun v hv => ?_⟩
  obtain ⟨c, hc, rfl⟩ := of_map_ok hv
  exact .single (hspells c hc)

/-- Characters between quotes, where there is not a single one. -/
theorem several_of_placed (h : Placed text .zeroLength Sym.text p t q)
    (hfails : FailsFrom rank ruleSet.graph text Value .zeroLength Sym.character p) :
    ∃ s, text.drop p = s ++ text.drop q ∧ IsLiteralText s ∧ LiteralTold t s := by
  obtain ⟨start, u, us, r, rfl, hopening, hrest⟩ :=
    h.sequence isRanked (symbol_node rfl) (skipInside_zeroLength _)
  obtain ⟨hdrop₁, hcovers, hquiet₁⟩ := quiet_of_placed hopening rfl
  have hchain : ChainFrom rank ruleSet.graph text ([35, 36].map Ref.node) r us q :=
    chain_of_members (hrest hcovers) (by decide)
  obtain _ | ⟨hchars, _ | ⟨hclosing, _ | _⟩⟩ := hchain
  obtain ⟨hdrop₃, -, hquiet₂⟩ := quiet_of_placed hclosing rfl
  have hcovers : ∀ p t q, Placed text .zeroLength Sym.char p t q → t.isEmpty = false := by
    intro p t q h
    obtain ⟨s, hdrop, htext, -⟩ := quotedChar_of_placed h
    exact h.covers_of_drop (by decide) hdrop htext.ne_nil
  obtain ⟨start', u, us, r, rfl, hfirst, hrounds⟩ := hchars.multiple isRanked (symbol_node rfl) rfl
  have hrun := RunFrom.cons hfirst ((hrounds (hcovers _ _ _ hfirst)).run hcovers)
  obtain ⟨s, hdrop₂, ⟨⟨⟩, -⟩ | ⟨-, htext⟩, rs, hrs, hspells⟩ := chars_of_run hrun
  have hdrop : text.drop p = '"' :: (s ++ '"' :: text.drop q) := by rw [hdrop₁, hdrop₂, hdrop₃]
  refine ⟨'"' :: (s ++ ['"']), by rw [hdrop]; simp, .quoted htext, _,
    isExpr_text hquiet₁ hrs hquiet₂, fun v hv => ?_⟩
  obtain ⟨cs, hall, rfl⟩ := of_map_ok hv
  obtain rfl := of_mapM_ok hall
  have hcs := hspells cs rfl
  refine .several hcs ?_
  match cs, hrs, hcs with
  | [c], _, .cons first .nil =>
    -- A single character is read as such, and that has failed.
    rw [List.append_nil] at hdrop
    obtain ⟨t, hreads, -⟩ := reads_single first hdrop
    cases hfails.unique hreads
  | _ :: _ :: _, _, _ => simp

/-- A literal, however it is written. -/
theorem literal_of_placed (h : Placed text skip Sym.LITERAL p t q) :
    ∃ s, text.drop p = s ++ text.drop q ∧ IsLiteralText s ∧ LiteralTold t s := by
  obtain ⟨ordinal, member, u, rfl, hmember, hu, hfails⟩ :=
    h.junction isRanked (symbol_node rfl) skipInside_LITERAL
  suffices hinner : ∃ s, text.drop p = s ++ text.drop q ∧ IsLiteralText s ∧ LiteralTold u s by
    obtain ⟨s, hdrop, htext, r, hr, hspells⟩ := hinner
    exact ⟨s, hdrop, htext, r, isExpr_over hr rfl, hspells⟩
  rcases ordinal with _ | _ | _ | ordinal <;> cases hmember
  · exact class_of_placed hu
  · exact single_of_placed hu
  · exact several_of_placed hu (hfails 1 (by omega) _ rfl)

end GrammarEngine.Notation
