import GrammarEngine.Proofs.Notation.Phrases
import GrammarEngine.Proofs.Notation.Spelling

namespace GrammarEngine

/-!
# What the notation accepts is derived

Whatever text is matched, it is made of tokens with gaps between them, and the tokens are derived
from the grammar of the notation. The tokens are those of the tree: none of them is split, and no two
of them are one.

* `Token.words` — the tokens of a tree, by their texts;
* `AreBetween` — tokens in a text, from one place to another;
* `IsPhrase` — a tree of tokens that are derived, and what it says;
* `symbol_of_placed`, `rule_of_placed` — the trees of expressions and rules;
* `derives_of_matchInput` — whole texts.
-/

/-! ### The tokens of a tree -/

namespace Token

variable {α : Type}

mutual

/-- The texts of the tokens in a tree: of the symbols in which nothing is skipped, and of what else
    is at the tips. -/
def words : Token α → List String
  | .node header (child :: rest) _ =>
    if header.name.isLexical then [header.substring] else words child ++ wordsOf rest
  | t => [t.substring]

/-- The texts of the tokens in some trees. -/
def wordsOf : List (Token α) → List String
  | [] => []
  | t :: rest => words t ++ wordsOf rest

end

theorem wordsOf_eq_flatMap (ts : List (Token α)) : wordsOf ts = ts.flatMap words := by
  induction ts with
  | nil => rfl
  | cons t ts ih => rw [wordsOf, ih, List.flatMap_cons]

theorem words_node {header : Header} {children : List (Token α)} {payload : Option α}
    (hname : header.name.isLexical = false) (hne : children ≠ []) :
    (Token.node header children payload).words = children.flatMap words := by
  match children, hne with
  | child :: rest, _ =>
    rw [words, hname, if_neg Bool.false_ne_true, wordsOf_eq_flatMap, List.flatMap_cons]

theorem words_over {kind : Kind} {name : Name} {ordinal : Nat} {t : Token α}
    (hname : name.isLexical = false) : (Token.over kind name ordinal t).words = t.words := by
  rw [Token.over, words_node hname (by simp), List.flatMap_singleton]

/-- A lexical symbol is one token, and so is a symbol that is made of nothing else. -/
theorem words_of_lexical {t : Token α} (h : t.name.isLexical = true ∨ t.children = []) :
    t.words = [t.substring] := by
  match t, h with
  | .sentinel _, _ => rw [words]; nofun
  | .node _ [] _, _ => rw [words]; nofun
  | .node header (child :: rest) _, .inl h => exact if_pos h

end Token

namespace Notation

variable {text : List Char} {skip : Ref} {p q q' r : Nat} {t : Token Value} {index : Nat}
  {ps ps' : List Piece} {name : Name} {ts : List (Token Value)} {pss : List (List Piece)}

/-! ### Tokens in a text -/

/-- The tokens are in the text, from one place to another. If the last one is a name, it does not
    go on. -/
def AreBetween (text : List Char) (p : Nat) (ps : List Piece) (q : Nat) : Prop :=
  ∃ b s e, Laid b ps s e ∧ text.drop p = s ++ text.drop q ∧
    (e = true → ∀ c ∈ (text.drop q).head?, ¬ isWordChar c = true)

namespace AreBetween

theorem ne_nil (h : AreBetween text p ps q) : text.drop p ≠ [] := by
  obtain ⟨b, s, e, hlaid, hdrop, -⟩ := h
  rw [hdrop]
  exact List.append_ne_nil_of_left_ne_nil hlaid.ne_nil _

/-- A tree over tokens covers them. -/
theorem covers (h : AreBetween text p ps q) (hplaced : Placed text skip (.node index) p t q)
    (hindex : index < layout.length) : t.isEmpty = false := by
  obtain ⟨b, s, e, hlaid, hdrop, -⟩ := h
  exact hplaced.covers_of_drop hindex hdrop hlaid.ne_nil

/-- What is skipped between tokens is a gap, and between two names there is one. -/
theorem join (h : AreBetween text p ps q)
    (hskips : SkipsFrom ruleSet.graph text Value Sym.skip q q')
    (h' : AreBetween text q' ps' r) : AreBetween text p (ps ++ ps') r := by
  obtain ⟨gap, hgap, hskipped⟩ := isGap_of_skipsFrom hskips h'.ne_nil
  obtain ⟨b, s, e, hlaid, hdrop, hstops⟩ := h
  obtain ⟨b', s', e', hlaid', hdrop', hstops'⟩ := h'
  refine ⟨b, _, e', .join hlaid hgap ?_ hlaid', by rw [hdrop, hskipped, hdrop']; simp, hstops'⟩
  rintro he hb rfl
  -- Without a gap, the first name would go on with the second one.
  obtain ⟨c, rest, rfl, hc⟩ := hlaid'.head hb
  refine hstops he c ?_ hc
  rw [hskipped, hdrop']
  rfl

end AreBetween

theorem mark_of_placed {serial : Nat} {m : Mark} (h : Placed text skip (.node index) p t q)
    (hsymbol : layout[index]? = some ⟨.generated serial, .character m.char⟩) :
    AreBetween text p [.mark m] q ∧ t.isEmpty = false ∧ Quiet heard t ∧
      t.words = [Piece.text (.mark m)] := by
  obtain ⟨hdrop, hcovers, hquiet⟩ := quiet_of_placed h hsymbol
  obtain ⟨-, start, rfl⟩ := h.character isRanked (symbol_node hsymbol)
  refine ⟨⟨_, _, _, .one _, hdrop, nofun⟩, hcovers, hquiet, ?_⟩
  rw [Token.words_of_lexical (.inr rfl)]
  rfl

theorem id_of_placed (h : Placed text skip Sym.ID p t q) :
    ∃ valid : isID t.substring = true, AreBetween text p [.id t.substring valid] q ∧
      t.isEmpty = false ∧ Quiet heard t ∧ t.words = [t.substring] := by
  obtain ⟨name, hname, hdrop, hstops, hcovers, hquiet, rfl⟩ := name_of_placed h
  refine ⟨hname, ⟨_, _, _, .one _, hdrop, fun _ => hstops⟩, hcovers, hquiet, ?_⟩
  obtain ⟨start, u, us, r, rfl, -⟩ := h.sequence isRanked (symbol_node rfl) skipInside_ID
  exact Token.words_of_lexical (.inl isLexical_ID)

/-! ### Parts with gaps between them -/

theorem next_of_members {member : Ref} {members : List Ref}
    (h : MembersFrom ruleSet.graph text Sym.skip p p (member :: members) ts q) :
    ∃ p' t r ts', ts = t :: ts' ∧ SkipsFrom ruleSet.graph text Value Sym.skip p p' ∧
      Placed text Sym.skip member p' t r ∧
      (t.isEmpty = false → MembersFrom ruleSet.graph text Sym.skip r r members ts' q) := by
  obtain ⟨p', t, r, ts', hts, hskips, hmade, hlater⟩ := h.cons rank
  refine ⟨p', t, r, ts', hts, hskips, hmade, fun hcovers => ?_⟩
  rwa [hcovers] at hlater

section Repetitions

variable {inner : Nat} {P : Token Value → List Piece → Prop}

theorem parts_of_rounds (hinner : inner < layout.length)
    (hone : ∀ u ∈ ts, ∀ p q, Placed text Sym.skip (.node inner) p u q →
      ∃ ps, AreBetween text p ps q ∧ P u ps)
    (h : RoundsFrom ruleSet.graph text Sym.skip (.node inner) r ts q)
    (hps : AreBetween text p ps r) :
    ∃ pss, AreBetween text p (ps ++ pss.flatten) q ∧ List.Forall₂ P ts pss := by
  induction ts generalizing ps r with
  | nil =>
    rcases h.cases rank with ⟨-, rfl⟩ | ⟨_, _, _, _, heq, -⟩
    · exact ⟨[], by rwa [List.flatten_nil, List.append_nil], .nil⟩
    · cases heq
  | cons u us ih =>
    rcases h.cases rank with ⟨heq, -⟩ | ⟨p', u', r', us', heq, hskips, hmade, hlater⟩
    · cases heq
    · cases heq
      rw [List.forall_mem_cons] at hone
      obtain ⟨ps', hps', hu⟩ := hone.1 p' r' hmade
      obtain ⟨pss, hpss, hus⟩ := ih hone.2 (hlater (hps'.covers hmade hinner)) (hps.join hskips hps')
      rw [List.append_assoc, ← List.flatten_cons] at hpss
      exact ⟨ps' :: pss, hpss, .cons hu hus⟩

theorem parts_of_multiple (h : Placed text Sym.skip (.node index) p t q)
    (hsymbol : layout[index]? = some ⟨name, .multiple (.node inner)⟩)
    (hinner : inner < layout.length) (hinside : skipInside name Sym.skip = Sym.skip)
    (hone : ∀ u, sizeOf u < sizeOf t → ∀ p q, Placed text Sym.skip (.node inner) p u q →
      ∃ ps, AreBetween text p ps q ∧ P u ps) :
    ∃ substring start ts pss, t = .node ⟨.multiple, name, substring, start, 0⟩ ts none ∧
      ts ≠ [] ∧ AreBetween text p pss.flatten q ∧ List.Forall₂ P ts pss := by
  obtain ⟨start, u, us, r, rfl, hfirst, hrest⟩ :=
    h.multiple isRanked (symbol_node hsymbol) hinside
  obtain ⟨ps, hps, hu⟩ := hone u (sizeOf_child List.mem_cons_self) p r hfirst
  obtain ⟨pss, hpss, hus⟩ := parts_of_rounds hinner
    (fun u hu => hone u (sizeOf_child (List.mem_cons_of_mem _ hu)))
    (hrest (hps.covers hfirst hinner)) hps
  rw [← List.flatten_cons] at hpss
  exact ⟨_, _, _, ps :: pss, rfl, by simp, hpss, .cons hu hus⟩

end Repetitions

/-! ### What trees are of -/

/-- The tokens are a way to write something. -/
def WrittenIn {V : Type} (writes : V → List Lexeme → Prop) (v : V) (ps : List Piece) : Prop :=
  ∃ ls, ls.map Lexeme.piece = ps ∧ writes v ls

/-- The expression makes sense, and is the one that was meant. -/
def IsValid (e : Expr (Except ParseError Literal)) (v : Expr Literal) : Prop := e = v.map .ok

/-- The tree is of these tokens, which are derived, and it tells what they say. -/
structure IsPhrase (phrase : Phrase) (tells : Token Value → List Piece → Prop) (t : Token Value)
    (ps : List Piece) : Prop where
  words : t.words = ps.map Piece.text
  derives : Derives phrase ps
  tells : tells t ps

/-- The tree says an expression, which is written so if it makes sense. -/
abbrev TellsExpr (writes : Expr Literal → List Lexeme → Prop) : Token Value → List Piece → Prop :=
  Tells Says IsValid (WrittenIn writes)

section Lists

variable {E V S : Type} {is : Token Value → E → Prop} {valid : E → V → Prop} {writes : V → S → Prop}
  {ss : List S}

/-- What some trees tell. -/
theorem exists_tells (h : List.Forall₂ (Tells is valid writes) ts ss) :
    ∃ es, List.Forall₂ is ts es ∧
      ∀ vs, List.Forall₂ valid es vs → List.Forall₂ writes vs ss := by
  induction h with
  | nil =>
    refine ⟨[], .nil, fun vs hvs => ?_⟩
    cases hvs
    exact .nil
  | cons first _ ih =>
    obtain ⟨e, he, hwrites⟩ := first
    obtain ⟨es, hes, hall⟩ := ih
    refine ⟨e :: es, .cons he hes, fun vs hvs => ?_⟩
    obtain _ | ⟨hv, hvs⟩ := hvs
    exact .cons (hwrites _ hv) (hall _ hvs)

theorem words_flatten (h : List.Forall₂ (fun t ps => t.words = ps.map Piece.text) ts pss) :
    ts.flatMap Token.words = pss.flatten.map Piece.text := by
  induction h with
  | nil => rfl
  | cons first _ ih => rw [List.flatMap_cons, List.flatten_cons, List.map_append, first, ih]

end Lists

theorem forall₂_isValid {es : List (Expr (Except ParseError Literal))} {vs : List (Expr Literal)}
    (h : es = vs.map (Expr.map .ok)) : List.Forall₂ IsValid es vs := by
  rw [h, List.forall₂_map_left_iff]
  exact List.forall₂_same.mpr fun v _ => rfl

/-! ### Atoms and factors -/

theorem repeated_of_isValid {count : Count} {e : Expr (Except ParseError Literal)}
    {v : Expr Literal} (h : IsValid (.repeated count e) v) :
    ∃ v', v = .repeated count v' ∧ IsValid e v' := by
  cases v with
  | repeated count' v' =>
    obtain ⟨rfl, rfl⟩ := Expr.repeated.inj h
    exact ⟨v', rfl, rfl⟩
  | _ => cases h

/-- All atoms in trees up to some size are phrases. -/
def AtomsPhrased (text : List Char) (size : Nat) : Prop :=
  ∀ p t q, sizeOf t ≤ size → Placed text Sym.skip Sym.atom p t q →
    ∃ ps, AreBetween text p ps q ∧ IsPhrase .atom (TellsExpr WritesAtom) t ps

theorem AtomsPhrased.mono {size size' : Nat} (h : AtomsPhrased text size) (hle : size' ≤ size) :
    AtomsPhrased text size' :=
  fun p t q ht => h p t q (Nat.le_trans ht hle)

/-- A repeated atom. -/
theorem repeated_of_placed (count : Count) {markIndex serial : Nat} {key : String} {step : Step}
    (h : Placed text Sym.skip (.node index) p t q) (hatoms : AtomsPhrased text (sizeOf t))
    (hsymbol : layout[index]? = some ⟨.given key, .sequence [Sym.atom, .node markIndex]⟩)
    (hinside : skipInside (.given key) Sym.skip = Sym.skip)
    (hlexical : (Name.given key).isLexical = false)
    (hmark : layout[markIndex]? = some ⟨.generated serial, .character count.mark.char⟩)
    (hstep : ∀ t d, step t d = do
      let inner ← (← t.item 0).payload
      return (.symbol (d.addRepeated inner.asPart count).1,
        (d.addRepeated inner.asPart count).2))
    (hname : heard (.given key) = some (.ofStep step)) :
    ∃ ps, AreBetween text p ps q ∧ IsPhrase .factor (TellsExpr WritesFactor) t ps := by
  obtain ⟨start, u, us, r, rfl, hu, hrest⟩ := h.sequence isRanked (symbol_node hsymbol) hinside
  obtain ⟨ps, hps, hwords, hderives, e, ⟨hexpr, hnamed⟩, hwrites⟩ :=
    hatoms p u r (Nat.le_of_lt (sizeOf_child List.mem_cons_self)) hu
  obtain ⟨p', b, r', us, rfl, hskips, hb, hrest⟩ :=
    next_of_members (hrest (hps.covers hu (by decide)))
  obtain ⟨hmarked, hcovers, hquiet, hwords'⟩ := mark_of_placed hb hmark
  obtain ⟨rfl, rfl⟩ := (hrest hcovers).nil
  refine ⟨ps ++ [.mark count.mark], hps.join hskips hmarked, ?_, .repeated count hderives, _,
    ⟨isExpr_repeated count hstep hname hexpr hquiet, hnamed⟩, fun v hv => ?_⟩
  · rw [Token.words_node hlexical (by simp)]
    simp [hwords, hwords']
  · obtain ⟨v, rfl, hinner⟩ := repeated_of_isValid hv
    obtain ⟨ls, rfl, hls⟩ := hwrites v hinner
    exact ⟨ls ++ [.mark count.mark], by simp [Lexeme.piece], .repeated hls⟩

theorem factor_of_placed (h : Placed text Sym.skip Sym.factor p t q)
    (hatoms : AtomsPhrased text (sizeOf t)) :
    ∃ ps, AreBetween text p ps q ∧ IsPhrase .factor (TellsExpr WritesFactor) t ps := by
  obtain ⟨ordinal, member, u, rfl, hmember, hu, -⟩ :=
    h.junction isRanked (symbol_node rfl) skipInside_factor
  have hunder : AtomsPhrased text (sizeOf u) := hatoms.mono (Nat.le_of_lt sizeOf_over)
  have hinner : ∃ ps, AreBetween text p ps q ∧ IsPhrase .factor (TellsExpr WritesFactor) u ps := by
    rcases ordinal with _ | _ | _ | _ | ordinal <;> cases hmember
    · exact repeated_of_placed .oneOrMore hu hunder rfl skipInside_multiple
        (isLexical_phrase _ (by decide)) rfl multiple_eq rfl
    · exact repeated_of_placed .optional hu hunder rfl skipInside_option
        (isLexical_phrase _ (by decide)) rfl option_eq rfl
    · exact repeated_of_placed .noneOrMore hu hunder rfl skipInside_star
        (isLexical_phrase _ (by decide)) rfl star_eq rfl
    · obtain ⟨ps, hps, hwords, hderives, e, he, hwrites⟩ := hunder p u q (Nat.le_refl _) hu
      refine ⟨ps, hps, hwords, .once hderives, e, he, fun v hv => ?_⟩
      obtain ⟨ls, hls, hatom⟩ := hwrites v hv
      exact ⟨ls, hls, .once hatom⟩
  obtain ⟨ps, hps, hwords, hderives, e, ⟨hexpr, hnamed⟩, hwrites⟩ := hinner
  exact ⟨ps, hps, (Token.words_over (isLexical_phrase _ (by decide))).trans hwords, hderives, e,
    ⟨isExpr_over hexpr rfl, hnamed⟩, hwrites⟩

/-! ### Sequences -/

theorem inSequence_of_isValid {es : List (Expr (Except ParseError Literal))} {v : Expr Literal}
    (hne : es ≠ []) (h : IsValid (.inSequence es) v) :
    ∃ vs, v = .inSequence vs ∧ List.Forall₂ IsValid es vs := by
  match es, hne with
  | [e], _ => exact ⟨[v], rfl, .cons h .nil⟩
  | e₁ :: e₂ :: es, _ =>
    cases v with
    | sequence members =>
      have hmembers : e₁ :: e₂ :: es = members.map (Expr.map .ok) :=
        (Expr.sequence.inj h).trans (mapAll_eq _ _)
      refine ⟨members, ?_, forall₂_isValid hmembers⟩
      match members, congrArg List.length hmembers with
      | _ :: _ :: _, _ => rfl
    | _ => cases h

theorem writtenIn_factors {vs : List (Expr Literal)}
    (h : List.Forall₂ (WrittenIn WritesFactor) vs pss) :
    WrittenIn WritesFactors vs pss.flatten := by
  induction h with
  | nil => exact ⟨[], rfl, .nil⟩
  | cons first _ ih =>
    obtain ⟨ls, rfl, hls⟩ := first
    obtain ⟨ls', hpss, hls'⟩ := ih
    exact ⟨ls ++ ls', by rw [List.map_append, hpss, List.flatten_cons], .cons hls hls'⟩

theorem isPhrase_sequence {substring : String} {start : Int} (hne : ts ≠ [])
    (h : List.Forall₂ (IsPhrase .factor (TellsExpr WritesFactor)) ts pss) :
    IsPhrase .sequence (TellsExpr WritesSequence)
      (.node ⟨.multiple, .given "sequence", substring, start, 0⟩ ts none) pss.flatten := by
  obtain ⟨es, hes, hwrites⟩ := exists_tells (h.imp fun _ _ h => h.tells)
  refine ⟨?_, .sequence ?_ (forall_right h fun _ _ h => h.derives), .inSequence es,
    ⟨isExpr_sequence (hes.imp fun _ _ h => h.isExpr) hne, ?_⟩, fun v hv => ?_⟩
  · rw [Token.words_node (isLexical_phrase _ (by decide)) hne]
    exact words_flatten (h.imp fun _ _ h => h.words)
  · rintro rfl
    exact hne (List.forall₂_nil_right_iff.mp h)
  · rw [Expr.names_inSequence]
    exact named_of_forall₂ hes fun _ _ => Says.named
  · have hes' : es ≠ [] := by
      rintro rfl
      exact hne (List.forall₂_nil_right_iff.mp hes)
    obtain ⟨vs, rfl, hvs⟩ := inSequence_of_isValid hes' hv
    obtain _ | ⟨⟨ls, rfl, hfirst⟩, hlater⟩ := hwrites vs hvs
    · cases hvs
      exact absurd rfl hes'
    · obtain ⟨ls', hpss, hlater⟩ := writtenIn_factors hlater
      exact ⟨ls ++ ls', by rw [List.map_append, hpss, List.flatten_cons], .intro hfirst hlater⟩

theorem sequence_of_placed (h : Placed text Sym.skip Sym.sequence p t q)
    (hatoms : AtomsPhrased text (sizeOf t)) :
    ∃ ps, AreBetween text p ps q ∧ IsPhrase .sequence (TellsExpr WritesSequence) t ps := by
  obtain ⟨substring, start, ts, pss, rfl, hne, hpss, hall⟩ :=
    parts_of_multiple h rfl (by decide) skipInside_sequence fun u hu p q hplaced =>
      factor_of_placed hplaced (hatoms.mono (Nat.le_of_lt hu))
  exact ⟨_, hpss, isPhrase_sequence hne hall⟩

/-! ### Choices -/

/-- The tree says an alternative behind a bar, which is written so if it makes sense. -/
abbrev TellsAlternative : Token Value → List Piece → Prop :=
  Tells (fun t e => IsAlternative t e ∧ ∀ name ∈ e.names, isID name = true) IsValid
    (WrittenIn WritesSequence)

/-- An alternative behind a bar. -/
structure IsBehindBar (t : Token Value) (ps : List Piece) : Prop where
  words : t.words = (Piece.mark .bar :: ps).map Piece.text
  derives : Derives .sequence ps
  tells : TellsAlternative t ps

theorem alternative_of_placed (h : Placed text Sym.skip (.node 53) p t q)
    (hatoms : AtomsPhrased text (sizeOf t)) :
    ∃ ps, AreBetween text p (.mark .bar :: ps) q ∧ IsBehindBar t ps := by
  obtain ⟨start, b, us, r, rfl, hb, hrest⟩ := h.sequence isRanked (symbol_node rfl) rfl
  obtain ⟨hbar, hcovers, hquiet, hwords⟩ := mark_of_placed (m := .bar) hb rfl
  obtain ⟨p', u, r', us, rfl, hskips, hu, hrest⟩ := next_of_members (hrest hcovers)
  obtain ⟨ps, hps, hwords', hderives, e, ⟨hexpr, hnamed⟩, hwrites⟩ :=
    sequence_of_placed hu (hatoms.mono (Nat.le_of_lt (sizeOf_child (by simp))))
  obtain ⟨rfl, rfl⟩ := (hrest (hps.covers hu (by decide))).nil
  refine ⟨ps, hbar.join hskips hps, ?_, hderives, e, ⟨isAlternative hquiet hexpr, hnamed⟩, hwrites⟩
  rw [Token.words_node rfl (by simp)]
  simp [hwords, hwords']

theorem exists_behindBar {Q : Token Value → List Piece → Prop}
    (h : List.Forall₂ (fun t ps => ∃ ps', ps = .mark .bar :: ps' ∧ Q t ps') ts pss) :
    ∃ pss', pss = pss'.map (.mark .bar :: ·) ∧ List.Forall₂ Q ts pss' := by
  induction h with
  | nil => exact ⟨[], rfl, .nil⟩
  | cons first _ ih =>
    obtain ⟨ps, rfl, hps⟩ := first
    obtain ⟨pss', rfl, hpss⟩ := ih
    exact ⟨ps :: pss', rfl, .cons hps hpss⟩

theorem writtenIn_alternatives {vs : List (Expr Literal)}
    (h : List.Forall₂ (WrittenIn WritesSequence) vs pss) :
    WrittenIn WritesAlternatives vs (pss.map (.mark .bar :: ·)).flatten := by
  induction h with
  | nil => exact ⟨[], rfl, .nil⟩
  | cons first _ ih =>
    obtain ⟨ls, rfl, hls⟩ := first
    obtain ⟨ls', hpss, hls'⟩ := ih
    refine ⟨.mark .bar :: (ls ++ ls'), ?_, .cons hls hls'⟩
    rw [List.map_cons, List.map_append, hpss]
    rfl

theorem choice_of_isValid {es : List (Expr (Except ParseError Literal))} {v : Expr Literal}
    (h : IsValid (.choice es) v) : ∃ vs, v = .choice vs ∧ List.Forall₂ IsValid es vs := by
  cases v with
  | choice members =>
    exact ⟨members, rfl, forall₂_isValid ((Expr.choice.inj h).trans (mapAll_eq _ _))⟩
  | _ => cases h

theorem isPhrase_choice {substring substring' : String} {start start' : Int}
    (h : IsPhrase .sequence (TellsExpr WritesSequence) t ps) (hne : ts ≠ [])
    (hall : List.Forall₂ IsBehindBar ts pss) :
    IsPhrase .symbol (TellsExpr WritesSymbol)
      (.node ⟨.sequence, .given "junction", substring, start, 0⟩
        [t, .node ⟨.multiple, .generated 54, substring', start', 0⟩ ts none] none)
      (ps ++ (pss.map (.mark .bar :: ·)).flatten) := by
  obtain ⟨hwords, hderives, e, ⟨hexpr, hnamed⟩, hwrites⟩ := h
  obtain ⟨es, hes, hwrites'⟩ := exists_tells (hall.imp fun _ _ h => h.tells)
  refine ⟨?_, .symbol hderives (forall_right hall fun _ _ h => h.derives), .choice (e :: es),
    ⟨isExpr_junction hexpr (hes.imp fun _ _ h => h.1), fun name hname => ?_⟩, fun v hv => ?_⟩
  · rw [Token.words_node (isLexical_phrase _ (by decide)) (by simp), List.flatMap_cons,
      List.flatMap_singleton, Token.words_node rfl hne, hwords, List.map_append]
    congr 1
    exact words_flatten (List.forall₂_map_right_iff.mpr (hall.imp fun _ _ h => h.words))
  · rcases List.mem_append.mp hname with hname | hname
    · exact hnamed name hname
    · exact named_of_forall₂ hes (fun _ _ h => h.2) name hname
  · obtain ⟨vs, rfl, hvs⟩ := choice_of_isValid hv
    obtain _ | ⟨hv₁, hvs₁⟩ := hvs
    obtain ⟨ls, rfl, hfirst⟩ := hwrites _ hv₁
    obtain _ | ⟨⟨ls', rfl, hsecond⟩, hlater⟩ := hwrites' _ hvs₁
    · cases hall
      exact absurd rfl hne
    · obtain ⟨ls'', hpss, hlater⟩ := writtenIn_alternatives hlater
      refine ⟨ls ++ .mark .bar :: (ls' ++ ls''), ?_, .choice hfirst hsecond hlater⟩
      rw [List.map_append, List.map_cons, List.map_append, hpss]
      rfl

theorem choice_of_placed (h : Placed text Sym.skip Sym.junction p t q)
    (hatoms : AtomsPhrased text (sizeOf t)) :
    ∃ ps, AreBetween text p ps q ∧ IsPhrase .symbol (TellsExpr WritesSymbol) t ps := by
  obtain ⟨start, u, us, r, rfl, hu, hrest⟩ :=
    h.sequence isRanked (symbol_node rfl) skipInside_junction
  obtain ⟨ps, hps, hphrase⟩ := sequence_of_placed hu (hatoms.mono (Nat.le_of_lt (sizeOf_child (by simp))))
  obtain ⟨p', m, r', us, rfl, hskips, hm, hrest⟩ :=
    next_of_members (hrest (hps.covers hu (by decide)))
  have hatoms : AtomsPhrased text (sizeOf m) := hatoms.mono (Nat.le_of_lt (sizeOf_child (by simp)))
  obtain ⟨substring, start', ts, pss, hm', hne, hpss, hall⟩ :=
    parts_of_multiple (P := fun u ps => ∃ ps', ps = .mark .bar :: ps' ∧ IsBehindBar u ps')
      hm rfl (by decide) rfl fun u hu p q hplaced => by
        obtain ⟨ps, hps, hbehind⟩ :=
          alternative_of_placed hplaced (hatoms.mono (Nat.le_of_lt hu))
        exact ⟨_, hps, ps, rfl, hbehind⟩
  obtain ⟨rfl, rfl⟩ := (hrest (hpss.covers hm (by decide))).nil
  subst hm'
  obtain ⟨pss, rfl, hbehind⟩ := exists_behindBar hall
  exact ⟨_, hps.join hskips hpss, isPhrase_choice hphrase hne hbehind⟩

theorem IsPhrase.only (h : IsPhrase .sequence (TellsExpr WritesSequence) t ps) :
    IsPhrase .symbol (TellsExpr WritesSymbol) t ps := by
  obtain ⟨hwords, hderives, e, he, hwrites⟩ := h
  refine ⟨hwords, by simpa using Derives.symbol hderives (List.forall_mem_nil _), e, he,
    fun v hv => ?_⟩
  obtain ⟨ls, hls, hsequence⟩ := hwrites v hv
  exact ⟨ls, hls, .only hsequence⟩

/-- An expression is a phrase if the atoms in it are. -/
theorem symbol_of_atoms (h : Placed text Sym.skip Sym.symbol p t q)
    (hatoms : AtomsPhrased text (sizeOf t)) :
    ∃ ps, AreBetween text p ps q ∧ IsPhrase .symbol (TellsExpr WritesSymbol) t ps := by
  obtain ⟨ordinal, member, u, rfl, hmember, hu, -⟩ :=
    h.junction isRanked (symbol_node rfl) skipInside_symbol
  have hunder : AtomsPhrased text (sizeOf u) := hatoms.mono (Nat.le_of_lt sizeOf_over)
  have hinner : ∃ ps, AreBetween text p ps q ∧ IsPhrase .symbol (TellsExpr WritesSymbol) u ps := by
    rcases ordinal with _ | _ | ordinal <;> cases hmember
    · exact choice_of_placed hu hunder
    · obtain ⟨ps, hps, hphrase⟩ := sequence_of_placed hu hunder
      exact ⟨ps, hps, hphrase.only⟩
  obtain ⟨ps, hps, hwords, hderives, e, ⟨hexpr, hnamed⟩, hwrites⟩ := hinner
  exact ⟨ps, hps, (Token.words_over (isLexical_phrase _ (by decide))).trans hwords, hderives, e,
    ⟨isExpr_over hexpr rfl, hnamed⟩, hwrites⟩

/-! ### All expressions -/

theorem isPhrase_group {substring : String} {start : Int} {serial : Nat} {b b' : Token Value}
    (hb : Quiet heard b) (hwords : b.words = [Piece.text (.mark .opening)])
    (h : IsPhrase .symbol (TellsExpr WritesSymbol) t ps)
    (hb' : Quiet heard b') (hwords' : b'.words = [Piece.text (.mark .closing)]) :
    IsPhrase .atom (TellsExpr WritesAtom) (.over .junction (.given "atom") 0
        (.node ⟨.sequence, .generated serial, substring, start, 0⟩ [b, t, b'] none))
      (.mark .opening :: (ps ++ [.mark .closing])) := by
  obtain ⟨hinner, hderives, e, ⟨hexpr, hnamed⟩, hwrites⟩ := h
  refine ⟨?_, .group hderives, e, ⟨isExpr_group hb hexpr hb', hnamed⟩, fun v hv => ?_⟩
  · rw [Token.words_over (isLexical_phrase _ (by decide)), Token.words_node rfl (by simp)]
    simp [hwords, hinner, hwords']
  · obtain ⟨ls, rfl, hls⟩ := hwrites v hv
    exact ⟨.mark .opening :: (ls ++ [.mark .closing]), by simp [Lexeme.piece], .group hls⟩

theorem isPhrase_reference (hquiet : Quiet heard t) (hwords : t.words = [t.substring])
    (hvalid : isID t.substring = true) :
    IsPhrase .atom (TellsExpr WritesAtom) (.over .junction (.given "atom") 1 t)
      [.id t.substring hvalid] := by
  refine ⟨?_, .id hvalid, _, ⟨isExpr_reference hquiet, by simpa [Expr.names] using hvalid⟩,
    fun v hv => ?_⟩
  · rw [Token.words_over (isLexical_phrase _ (by decide)), hwords]
    simp [Piece.text, Piece.chars]
  · cases v with
    | reference name =>
      cases hv
      exact ⟨[.id _ hvalid], rfl, .reference hvalid⟩
    | _ => cases hv

theorem isPhrase_literal {s : List Char} (hwords : t.words = [String.ofList s])
    (hvalid : IsLiteralText s) (h : LiteralTold t s) :
    IsPhrase .atom (TellsExpr WritesAtom) (.over .junction (.given "atom") 2 t)
      [.literal s hvalid] := by
  obtain ⟨r, hr, hspells⟩ := h
  refine ⟨?_, .literal hvalid, _, ⟨isExpr_literal hr, by simp [Expr.names]⟩, fun v hv => ?_⟩
  · rw [Token.words_over (isLexical_phrase _ (by decide)), hwords]
    simp [Piece.text, Piece.chars]
  · cases v with
    | literal value =>
      have hspells := hspells value (Expr.literal.inj hv)
      exact ⟨[.literal value s hspells], rfl, .literal hspells⟩
    | _ => cases hv

theorem atomsPhrased (text : List Char) (size : Nat) : AtomsPhrased text size := by
  -- Only a group has expressions inside, and they are smaller than the group.
  induction size using Nat.strong_induction_on with
  | _ size ih =>
    intro p t q hsize h
    obtain ⟨ordinal, member, u, rfl, hmember, hu, -⟩ :=
      h.junction isRanked (symbol_node rfl) skipInside_atom
    rcases ordinal with _ | _ | _ | ordinal <;> cases hmember
    · obtain ⟨start, b, us, r, rfl, hb, hrest⟩ := hu.sequence isRanked (symbol_node rfl) rfl
      obtain ⟨hopening, hcovers, hquiet, hwords⟩ := mark_of_placed (m := .opening) hb rfl
      obtain ⟨p₁, c, r₁, us, rfl, hskips₁, hc, hrest⟩ := next_of_members (hrest hcovers)
      have hsymbol : Placed text Sym.skip Sym.symbol p₁ c r₁ :=
        hc.implicit (symbol_node rfl) (by rw [symbol_node rfl])
      have hatoms : AtomsPhrased text _ := ih _ (Nat.lt_of_lt_of_le sizeOf_over hsize)
      obtain ⟨ps, hps, hphrase⟩ :=
        symbol_of_atoms hsymbol (hatoms.mono (Nat.le_of_lt (sizeOf_child (by simp))))
      obtain ⟨p₂, b', r₂, us, rfl, hskips₂, hb', hrest⟩ :=
        next_of_members (hrest (hps.covers hc (by decide)))
      obtain ⟨hclosing, hcovers', hquiet', hwords'⟩ := mark_of_placed (m := .closing) hb' rfl
      obtain ⟨rfl, rfl⟩ := (hrest hcovers').nil
      exact ⟨_, (hopening.join hskips₁ hps).join hskips₂ hclosing,
        isPhrase_group hquiet hwords hphrase hquiet' hwords'⟩
    · obtain ⟨hvalid, hbetween, -, hquiet, hwords⟩ := id_of_placed hu
      exact ⟨_, hbetween, isPhrase_reference hquiet hwords hvalid⟩
    · obtain ⟨s, hdrop, hvalid, hliteral⟩ := literal_of_placed hu
      have hsubstring : u.substring = String.ofList s :=
        (Placed.spans hu (by decide)).substring_eq.trans (Placed.slice_eq hu hdrop)
      have hwords : u.words = [String.ofList s] := by
        rw [← hsubstring]
        obtain ⟨_, _, _, rfl, -⟩ := hu.junction isRanked (symbol_node rfl) skipInside_LITERAL
        exact Token.words_of_lexical (.inl isLexical_LITERAL)
      exact ⟨_, ⟨_, _, _, .one (.literal s hvalid), hdrop, nofun⟩,
        isPhrase_literal hwords hvalid hliteral⟩

theorem symbol_of_placed (h : Placed text Sym.skip Sym.symbol p t q) :
    ∃ ps, AreBetween text p ps q ∧ IsPhrase .symbol (TellsExpr WritesSymbol) t ps :=
  symbol_of_atoms h (atomsPhrased text _)

/-! ### Rules -/

/-- The rule is written so. -/
def WritesRule (rule : Rule) (ls : List Lexeme) : Prop := WritesRules [rule] ls

/-- The tree says a rule, which is written so if it makes sense. -/
abbrev TellsRule : Token Value → List Piece → Prop :=
  Tells (fun t r => IsRule t r ∧ r.IsNamed) RuleText.Says (WrittenIn WritesRule)

theorem isPhrase_rule {substring : String} {start : Int} {id colon semicolon : Token Value}
    (hid : Quiet heard id) (hwords₁ : id.words = [id.substring])
    (hvalid : isID id.substring = true)
    (hcolon : Quiet heard colon) (hwords₂ : colon.words = [Piece.text (.mark .colon)])
    (h : IsPhrase .symbol (TellsExpr WritesSymbol) t ps)
    (hsemicolon : Quiet heard semicolon)
    (hwords₃ : semicolon.words = [Piece.text (.mark .semicolon)]) :
    IsPhrase .rule TellsRule
      (.node ⟨.sequence, .given "rule", substring, start, 0⟩ [id, colon, t, semicolon] none)
      (.id id.substring hvalid :: .mark .colon :: (ps ++ [.mark .semicolon])) := by
  obtain ⟨hwords, hderives, e, ⟨hexpr, hnamed⟩, hwrites⟩ := h
  refine ⟨?_, .rule hvalid hderives, _,
    ⟨isRule hid hcolon hexpr hsemicolon, hvalid, hnamed⟩, fun rule hrule => ?_⟩
  · rw [Token.words_node (isLexical_phrase _ (by decide)) (by simp)]
    simp [hwords, hwords₁, hwords₂, hwords₃, Piece.text, Piece.chars]
  · obtain ⟨name, body⟩ := rule
    obtain ⟨rfl, hbody⟩ := hrule
    obtain ⟨ls, rfl, hls⟩ := hwrites body hbody
    exact ⟨_, by simp [Lexeme.piece], .cons hvalid hls .nil⟩

/-- The text of a tree of tokens, from the first token to the last one. -/
theorem AreBetween.laid (h : AreBetween text p ps q) (hplaced : Placed text skip (.node index) p t q)
    (hindex : index < layout.length) : ∃ b e, Laid b ps t.substring.toList e := by
  obtain ⟨b, s, e, hlaid, hdrop, -⟩ := h
  refine ⟨b, e, ?_⟩
  rwa [(hplaced.spans hindex).substring_eq, hplaced.slice_eq hdrop, String.toList_ofList]

theorem rule_of_placed (h : Placed text Sym.skip Sym.rule p t q) :
    ∃ ps, AreBetween text p ps q ∧ IsPhrase .rule TellsRule t ps := by
  obtain ⟨start, id, us, r, rfl, hid, hrest⟩ :=
    h.sequence isRanked (symbol_node rfl) skipInside_rule
  obtain ⟨hvalid, hname, hcovers, hquiet, hwords⟩ := id_of_placed hid
  obtain ⟨p₁, colon, r₁, us, rfl, hskips₁, hcolon, hrest⟩ := next_of_members (hrest hcovers)
  obtain ⟨hcolon', hcovers₁, hquiet₁, hwords₁⟩ := mark_of_placed (m := .colon) hcolon rfl
  obtain ⟨p₂, body, r₂, us, rfl, hskips₂, hbody, hrest⟩ := next_of_members (hrest hcovers₁)
  obtain ⟨ps, hps, hphrase⟩ := symbol_of_placed hbody
  obtain ⟨p₃, semicolon, r₃, us, rfl, hskips₃, hsemicolon, hrest⟩ :=
    next_of_members (hrest (hps.covers hbody (by decide)))
  obtain ⟨hsemicolon', hcovers₃, hquiet₃, hwords₃⟩ :=
    mark_of_placed (m := .semicolon) hsemicolon rfl
  obtain ⟨rfl, rfl⟩ := (hrest hcovers₃).nil
  exact ⟨_, ((hname.join hskips₁ hcolon').join hskips₂ hps).join hskips₃ hsemicolon',
    isPhrase_rule hquiet hwords hvalid hquiet₁ hwords₁ hphrase hquiet₃ hwords₃⟩

/-- The tree of a whole grammar is one of rules, each of which is in the text of its own tree. -/
theorem rules_of_placed (h : Placed text Sym.skip Sym.start p t q) :
    ∃ substring start ts pss, t = .node ⟨.multiple, .given "start", substring, start, 0⟩ ts none ∧
      ts ≠ [] ∧ AreBetween text p pss.flatten q ∧
      List.Forall₂ (fun u ps => IsPhrase .rule TellsRule u ps ∧
        ∃ b e, Laid b ps u.substring.toList e) ts pss :=
  parts_of_multiple h rfl (by decide) skipInside_start fun _ _ _ _ hplaced => by
    obtain ⟨ps, hps, hphrase⟩ := rule_of_placed hplaced
    exact ⟨ps, hps, hphrase, hps.laid hplaced (by decide)⟩

/-! ### Whole texts -/

variable {limit : Nat} {source : String} {root : Token Value} {s : MatchState}

/-- Where the tree of a whole text is. -/
theorem placed_of_matchInput (h : grammar.matchInput limit (.beginning source) = .ok root s) :
    ∃ p q, SkipsFrom ruleSet.graph source.toList Value Sym.skip 0 p ∧
      Placed source.toList Sym.skip Sym.start p root q ∧
      SkipsFrom ruleSet.graph source.toList Value Sym.skip q source.toList.length := by
  obtain ⟨p, q, _, reach, _, hskipped, hrule, hskipped'⟩ :=
    Grammar.of_matchInput_ok (.beginning source) h
  rw [startRule_eq, skipRule_eq] at hrule
  rw [skipRule_eq] at hskipped hskipped'
  have hskips := skipsFrom_of_skipYields (Nat.zero_le _) past_nil hskipped
  have hplaced : Placed source.toList Sym.skip Sym.start p root q :=
    ⟨hskips.le.2, [], reach, clear_nil, hrule⟩
  exact ⟨p, q, hskips, hplaced, skipsFrom_of_skipYields hplaced.le.2 past_nil hskipped'⟩

/-- Gaps and tokens take turns in a text that is tokens, and gaps at both ends. -/
theorem AreBetween.alternates (h : AreBetween text p ps q)
    (hskips : SkipsFrom ruleSet.graph text Value Sym.skip 0 p)
    (hskips' : SkipsFrom ruleSet.graph text Value Sym.skip q text.length) :
    Alternates false ps text := by
  obtain ⟨gap, hgap, hfirst⟩ := isGap_of_skipsFrom hskips h.ne_nil
  have hlast := isLastGap_of_skipsFrom hskips' List.drop_length
  obtain ⟨b, s, e, hlaid, hdrop, -⟩ := h
  have halternates : Alternates false _ _ := hlaid.alternates hgap nofun (.last hlast)
  rwa [List.append_nil, ← hdrop, ← hfirst, List.drop_zero] at halternates

/-- Only texts are matched in which gaps and tokens take turns, and the tokens are derived from the
    grammar of the notation. They are the tokens of the tree. -/
theorem derives_of_matchInput (h : grammar.matchInput limit (.beginning source) = .ok root s) :
    ∃ ps, Derives .start ps ∧ Alternates false ps source.toList ∧
      root.words = ps.map Piece.text := by
  obtain ⟨p, q, hskips, hplaced, hskips'⟩ := placed_of_matchInput h
  obtain ⟨substring, start, ts, pss, rfl, hne, hbetween, hall⟩ := rules_of_placed hplaced
  refine ⟨pss.flatten, .start ?_ (forall_right hall fun _ _ h => h.1.derives),
    hbetween.alternates hskips hskips', ?_⟩
  · rintro rfl
    exact hne (List.forall₂_nil_right_iff.mp hall)
  · rw [Token.words_node (isLexical_phrase _ (by decide)) hne]
    exact words_flatten (hall.imp fun _ _ h => h.1.words)

/-- A text that is matched, and makes no sense: there is no octal digit in its literal, no rule of
    the name that is used, and an end is missing to the last comment. -/
def senselessText : String := "a:b b/**/|\"\\u9999\";//"

theorem derives_of_matchInput_senseless :
    ∃ root s ps, grammar.matchInput nestingLimit (.beginning senselessText) = .ok root s ∧
      Derives .start ps ∧ Alternates false ps senselessText.toList ∧
      ps.map Piece.text = ["a", ":", "b", "b", "|", "\"\\u9999\"", ";"] := by
  have hmatches : (match grammar.matchInput nestingLimit (.beginning senselessText) with
      | .ok root _ => root.words == ["a", ":", "b", "b", "|", "\"\\u9999\"", ";"]
      | .error _ _ => false) = true := by
    decide +kernel
  split at hmatches
  · rename_i root s hmatch
    obtain ⟨ps, hderives, halternates, hwords⟩ := derives_of_matchInput hmatch
    exact ⟨root, s, ps, hmatch, hderives, halternates, hwords ▸ beq_iff_eq.mp hmatches⟩
  · cases hmatches

end Notation

end GrammarEngine
