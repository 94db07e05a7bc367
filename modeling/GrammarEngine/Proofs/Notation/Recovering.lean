import GrammarEngine.Proofs.Notation.Accepting
import GrammarEngine.Proofs.Notation.Joining
import GrammarEngine.Proofs.Notation.Understanding

namespace GrammarEngine.Notation

/-!
# What compiles is a grammar

A text that can be compiled is one of a well-formed grammar, which is read off its tree. So those of
the well-formed grammars are all the texts that can be compiled, nesting apart.

* `Expr.exists_of_build`, `RuleText.exists_of_build` — what is built makes sense;
* `isWellFormed_of_buildGrammar` — rules that are built are those of a grammar;
* `definitions` — the texts of the rules in a grammar text;
* `isTextOf_of_compile` — a text that compiles, and the texts of its rules;
* `compiles_iff` — the texts that compile.
-/

/-! ### Expressions -/

mutual

/-- Literals have nothing to do with names. -/
theorem Expr.names_map {L M : Type} (f : L → M) (e : Expr L) : (e.map f).names = e.names := by
  match e with
  | .reference name => rw [Expr.map, Expr.names, Expr.names]
  | .literal value => rw [Expr.map, Expr.names, Expr.names]
  | .repeated count inner => rw [Expr.map, Expr.names, Expr.names, inner.names_map]
  | .sequence members => rw [Expr.map, Expr.names, Expr.names, Expr.namesAll_mapAll]
  | .choice members => rw [Expr.map, Expr.names, Expr.names, Expr.namesAll_mapAll]

theorem Expr.namesAll_mapAll {L M : Type} (f : L → M) (es : List (Expr L)) :
    Expr.namesAll (Expr.mapAll f es) = Expr.namesAll es := by
  match es with
  | [] => rfl
  | e :: es =>
    rw [Expr.mapAll, Expr.namesAll, Expr.namesAll, e.names_map, Expr.namesAll_mapAll]

end

mutual

/-- An expression that symbols were made for makes sense. -/
theorem Expr.exists_of_build (e : Expr (Except ParseError Literal)) {d : Draft} {found : Ref × Draft}
    (h : e.build d = .ok found) : ∃ v, IsValid e v := by
  match e with
  | .reference name => exact ⟨.reference name, rfl⟩
  | .literal (.ok value) => exact ⟨.literal value, rfl⟩
  | .literal (.error _) =>
    rw [Expr.build] at h
    cases h
  | .repeated count inner =>
    rw [Expr.build] at h
    obtain ⟨_, hinner, -⟩ := of_bind_ok h
    obtain ⟨v, rfl⟩ := inner.exists_of_build hinner
    exact ⟨.repeated count v, rfl⟩
  | .sequence members =>
    rw [Expr.build] at h
    obtain ⟨_, hmembers, -⟩ := of_bind_ok h
    obtain ⟨vs, rfl⟩ := Expr.exists_of_buildAll members hmembers
    exact ⟨.sequence vs, rfl⟩
  | .choice members =>
    rw [Expr.build] at h
    obtain ⟨_, hmembers, -⟩ := of_bind_ok h
    obtain ⟨vs, rfl⟩ := Expr.exists_of_buildAll members hmembers
    exact ⟨.choice vs, rfl⟩

theorem Expr.exists_of_buildAll (es : List (Expr (Except ParseError Literal))) {d : Draft}
    {found : List Ref × Draft} (h : Expr.buildAll es d = .ok found) :
    ∃ vs, es = Expr.mapAll .ok vs := by
  match es with
  | [] => exact ⟨[], rfl⟩
  | e :: es =>
    rw [Expr.buildAll] at h
    obtain ⟨_, hfirst, hrest⟩ := of_bind_ok h
    obtain ⟨_, hrest, -⟩ := of_bind_ok hrest
    obtain ⟨v, rfl⟩ := e.exists_of_build hfirst
    obtain ⟨vs, rfl⟩ := Expr.exists_of_buildAll es hrest
    exact ⟨v :: vs, rfl⟩

end

section Names

variable {part : Ref → Shape → Prop} {rule : Ref → String → Prop} {shape : Shape}
  {e : Expr Literal} {parts : List Ref}

/-- Every name in an expression is that of a symbol. -/
theorem IsShapeFor.exists_rule (h : IsShapeFor part rule shape e parts) :
    ∀ name ∈ e.names, ∃ ref, rule ref name := by
  refine @IsShapeFor.rec part rule
    (fun _ e _ _ => ∀ name ∈ e.names, ∃ ref, rule ref name)
    (fun _ e _ _ => ∀ name ∈ e.names, ∃ ref, rule ref name)
    (fun _ es _ _ => ∀ name ∈ Expr.namesAll es, ∃ ref, rule ref name)
    ?literal ?oneOrMore ?optional ?noneOrMore ?sequence ?choice ?reference ?part ?nil ?cons _ _ _ h
  case literal => exact fun value => by simp [Expr.names]
  case oneOrMore => exact fun _ ih => ih
  case optional => exact fun _ ih => ih
  case noneOrMore => exact fun _ _ ih => ih
  case sequence => exact fun _ ih => ih
  case choice => exact fun _ ih => ih
  case reference => exact fun hrule => List.forall_mem_singleton.mpr ⟨_, hrule⟩
  case part => exact fun _ _ ih => ih
  case nil => simp [Expr.namesAll]
  case cons => exact fun _ _ ih ih' => List.forall_mem_append.mpr ⟨ih, ih'⟩

end Names

/-! ### Rules -/

variable {r : RuleText} {rts : List RuleText} {rules : List Rule} {d d' : Draft}

/-- A rule that is built makes sense, and is not just another one. -/
theorem RuleText.exists_of_build (hd : d.Sound) (hnamed : r.IsNamed) {ref : Ref}
    (h : r.build d = .ok (ref, d')) : ∃ rule, r.Says rule ∧ rule.body.isReference = false := by
  obtain ⟨⟨body, d₁⟩, hbody, hrest⟩ := of_bind_ok h
  obtain ⟨v, hv⟩ := r.body.exists_of_build hbody
  refine ⟨⟨r.name, v⟩, ⟨rfl, hv⟩, ?_⟩
  cases v with
  | reference name =>
    -- The symbol of a reference has the name of a rule, and so the rule is refused.
    have hbody' : r.body = .reference name := hv
    have hname : isID name = true := hnamed.body name (by simp [hbody', Expr.names])
    obtain ⟨-, i, shape, href, hi⟩ := hd.reference_makes hname
    rw [hbody', Expr.build, Except.ok.injEq] at hbody
    rw [hbody] at href hi
    obtain rfl : body = .node i := href
    have hanonymous : (d₁.graph.symbol (.node i)).name.isAnonymous = false := by
      rw [Graph.symbol_of_getElem? hi]
      exact isAnonymous_of_isID hname
    simp only [hanonymous, Bool.not_false, if_true] at hrest
    split at hrest
    all_goals
      obtain ⟨_, hthrown, -⟩ := of_bind_ok hrest
      cases hthrown
  | _ => rfl

/-- Rules that are built make sense, and none is just another one. -/
theorem exists_of_buildRules (hd : d.Sound) (hnamed : ∀ r ∈ rts, r.IsNamed)
    (h : buildRules rts d = .ok d') :
    ∃ rules, List.Forall₂ RuleText.Says rts rules ∧
      ∀ rule ∈ rules, rule.body.isReference = false := by
  induction rts generalizing d with
  | nil => exact ⟨[], .nil, by simp⟩
  | cons r rts ih =>
    rw [List.forall_mem_cons] at hnamed
    rw [buildRules] at h
    obtain ⟨⟨ref, d₁⟩, hfirst, hrest⟩ := of_bind_ok h
    obtain ⟨rule, hrule, hproper⟩ := r.exists_of_build hd hnamed.1 hfirst
    have hsound := r.build_sound hd hnamed.1
    rw [hfirst] at hsound
    obtain ⟨rules, hrules, hpropers⟩ := ih hsound.1 hnamed.2 hrest
    exact ⟨rule :: rules, .cons hrule hrules, List.forall_mem_cons.mpr ⟨hproper, hpropers⟩⟩

/-- What some rules are called and refer to are names that rules can have. -/
theorem isID_of_meant (h : List.Forall₂ RuleText.Says rts rules) (hnamed : ∀ r ∈ rts, r.IsNamed) :
    rts.map RuleText.name = rules.map Rule.name ∧ ∀ rule ∈ rules, isID rule.name = true ∧
      ∀ name ∈ rule.body.names, isID name = true := by
  induction h with
  | nil => exact ⟨rfl, by simp⟩
  | @cons r rule rts rules first _ ih =>
    rw [List.forall_mem_cons] at hnamed
    obtain ⟨hname, hbody⟩ := first
    obtain ⟨hnames, hall⟩ := ih hnamed.2
    refine ⟨by rw [List.map_cons, List.map_cons, hname, hnames],
      List.forall_mem_cons.mpr ⟨⟨hname ▸ hnamed.1.name, fun name hmem => ?_⟩, hall⟩⟩
    exact hnamed.1.body name (by rwa [hbody, Expr.names_map])

/-- A draft that is finished has nothing pending. -/
theorem Draft.pending_of_finish {rs : RuleSet} (h : d.finish = .ok rs) :
    ∀ name, d.pending.get? name = none := by
  unfold Draft.finish at h
  split at h
  · rename_i hempty
    intro name
    rw [Dictionary.get?_eq_none, List.isEmpty_iff.mp hempty]
    exact List.not_mem_nil
  · cases h

/-- What is used in a draft is there, and is a rule if nothing is pending. -/
theorem Draft.Holds.closed {placed : List (List Ref)} (h : d.Holds rules placed)
    (hpending : ∀ name, d.pending.get? name = none) :
    ∀ rule ∈ rules, ∀ name ∈ rule.body.names, name ∈ rules.map Rule.name := by
  have hall : ∀ rule ∈ rules, ∃ parts, d.HasRule rule parts :=
    forall_right h.rules.flip fun parts _ hhas => ⟨parts, hhas⟩
  intro rule hrule name hname
  obtain ⟨parts, hhas⟩ := hall rule hrule
  -- As nothing is pending, there is a rule behind every use.
  obtain ⟨_, _, -, -, -, hshape⟩ := hhas.finish h.sound hpending
  obtain ⟨ref, target, htarget, -⟩ := hshape.exists_rule name hname
  rw [← h.keys]
  by_contra hnot
  rw [RuleSet.get?, Dictionary.get?_eq_none.mpr hnot] at htarget
  cases htarget

/-- Rules that come to the rules of a grammar make sense, and are those of a well-formed one. -/
theorem isWellFormed_of_buildGrammar {rs : RuleSet} (hne : rts ≠ [])
    (hnamed : ∀ r ∈ rts, r.IsNamed) (h : buildGrammar rts = .ok rs) :
    ∃ rules, List.Forall₂ RuleText.Says rts rules ∧ IsWellFormed rules := by
  obtain ⟨d, hbuild, hfinish⟩ := of_bind_ok h
  obtain ⟨rules, hsaid, hproper⟩ := exists_of_buildRules Draft.sound_empty hnamed hbuild
  obtain ⟨hnames, hvalid⟩ := isID_of_meant hsaid hnamed
  have hsound := buildRules_sound rts Draft.sound_empty hnamed
  rw [hbuild] at hsound
  have hkeys : d.rules.keys = rules.map Rule.name := hsound.2.trans hnames
  have hdistinct : (rules.map Rule.name).Nodup := hkeys ▸ hsound.1.nodup
  -- The draft holds these rules, although nothing says yet that they are closed.
  obtain ⟨d', placed, hbuild', hholds⟩ := buildRules_rules hsaid Draft.holds_empty
    (fun rule hrule => (hvalid rule hrule).1) (fun rule hrule => (hvalid rule hrule).2)
    hdistinct hproper
  obtain rfl : d = d' := Except.ok.inj (hbuild.symm.trans hbuild')
  refine ⟨rules, hsaid, ?_, hdistinct, hholds.closed (Draft.pending_of_finish hfinish), hproper⟩
  rintro rfl
  exact hne (List.forall₂_nil_right_iff.mp hsaid)

/-! ### Texts -/

section Pieces

variable {ls : List Lexeme} {ps : List Piece} {pss : List (List Piece)} {b e : Bool}
  {s : List Char} {ts : List (Token Value)}

theorem Lexeme.chars_piece (l : Lexeme) : l.piece.chars = l.chars := by cases l <;> rfl

theorem Lexeme.isID_piece (l : Lexeme) : l.piece.isID = l.isID := by cases l <;> rfl

/-- The tokens of a grammar take turns with gaps as those of any text do. -/
theorem Alternates.follows (h : Alternates b ps s) (hls : ls.map Lexeme.piece = ps) :
    Follows b ls s := by
  induction h generalizing ls with
  | last blank =>
    obtain rfl := List.map_eq_nil_iff.mp hls
    exact .last blank
  | next blank apart later ih =>
    obtain ⟨l, ls, rfl, rfl, rfl⟩ := List.map_eq_cons_iff.mp hls
    rw [l.isID_piece] at apart ih
    rw [l.chars_piece]
    exact .next blank apart (ih rfl)

/-- Tokens that are laid out are a text. -/
theorem Laid.follows (h : Laid b ps s e) (hls : ls.map Lexeme.piece = ps) : Follows false ls s := by
  have halternates : Alternates false (ps ++ []) ([] ++ (s ++ [])) :=
    h.alternates .nil nofun (.last (.gap .nil))
  simp only [List.append_nil, List.nil_append] at halternates
  exact halternates.follows hls

/-- The tokens of some rules, one behind the other, are those of all of them. -/
theorem writesRules_of_all (h : List.Forall₂ (WrittenIn WritesRule) rules pss) :
    ∃ ls, ls.map Lexeme.piece = pss.flatten ∧ WritesRules rules ls := by
  induction h with
  | nil => exact ⟨[], rfl, .nil⟩
  | cons first _ ih =>
    obtain ⟨ls, rfl, hfirst⟩ := first
    obtain ⟨ls', hls', hlater⟩ := ih
    exact ⟨ls ++ ls', by rw [List.map_append, List.flatten_cons, hls'], hfirst.append hlater⟩

/-- Each rule is in the text of its own tree. -/
theorem isTextOf_of_laid
    (h : List.Forall₂ (fun t ps => ∃ b e, Laid b ps t.substring.toList e) ts pss)
    (hwrites : List.Forall₂ (WrittenIn WritesRule) rules pss) :
    List.Forall₂ (fun t rule => IsTextOf t.substring.toList [rule]) ts rules := by
  induction h generalizing rules with
  | nil =>
    obtain rfl := List.forall₂_nil_right_iff.mp hwrites
    exact .nil
  | cons first _ ih =>
    obtain ⟨b, e, hlaid⟩ := first
    cases hwrites with
    | cons hrule hrules =>
      obtain ⟨ls, hls, hwrites⟩ := hrule
      exact .cons ⟨ls, hwrites, hlaid.follows hls⟩ (ih hrules)

end Pieces

variable {limit : Nat} {source : String} {root : Token Value} {s : MatchState} {rs : RuleSet}

/-- The tree of a text says some rules. If they make sense, the text is one of them all, and each of
    its parts is one of a rule. -/
theorem isTextOf_of_matchInput
    (h : grammar.matchInput limit (.beginning source) = .ok root s) :
    ∃ rts, IsGrammar root rts ∧ rts ≠ [] ∧ (∀ r ∈ rts, r.IsNamed) ∧
      ∀ rules, List.Forall₂ RuleText.Says rts rules → IsTextOf source.toList rules ∧
        List.Forall₂ (fun t rule => IsTextOf t.substring.toList [rule]) root.children rules := by
  obtain ⟨p, q, hskips, hplaced, hskips'⟩ := placed_of_matchInput h
  obtain ⟨substring, start, ts, pss, rfl, hne, hbetween, hall⟩ := rules_of_placed hplaced
  obtain ⟨rts, hrts, hwritten⟩ := exists_tells (hall.imp fun _ _ h => h.1.tells)
  refine ⟨rts, isGrammar (hrts.imp fun _ _ h => h.1), ?_,
    forall_right hrts fun _ _ h => h.2, fun rules hsaid => ?_⟩
  · rintro rfl
    exact hne (List.forall₂_nil_right_iff.mp hrts)
  · have hwrites := hwritten rules hsaid
    obtain ⟨ls, hls, hrules⟩ := writesRules_of_all hwrites
    exact ⟨⟨ls, hrules, (hbetween.alternates hskips hskips').follows hls⟩,
      isTextOf_of_laid (hall.imp fun _ _ h => h.2) hwrites⟩

/-- The texts of the rules in a grammar text, as the notation finds them. -/
def definitions (limit : Nat) (source : String) : List String :=
  match grammar.matchInput limit (.beginning source) with
  | .ok root _ => root.children.map Token.substring
  | .error _ _ => []

/-- A text that compiles is one of a well-formed grammar, and comes to its rules. Each definition is
    a text of one of them. -/
theorem isTextOf_of_compile (h : (compile limit source).result = .ok rs) :
    ∃ rules, IsWellFormed rules ∧ IsTextOf source.toList rules ∧
      List.Forall₂ (fun text rule => IsTextOf text.toList [rule]) (definitions limit source) rules ∧
      rs.IsComplete ∧ rs.Means rules := by
  obtain ⟨root, s, hmatch, -⟩ := of_compile_ok h
  obtain ⟨rts, hroot, hne, hnamed, htexts⟩ := isTextOf_of_matchInput hmatch
  have hresult := compileWith_eq rfl hmatch hroot
  rw [← compile, h] at hresult
  have hbuild : buildGrammar rts = .ok rs := by
    cases hbuild : buildGrammar rts with
    | ok rs' => rw [hbuild] at hresult; exact hresult.symm
    | error e => rw [hbuild] at hresult; cases hresult
  obtain ⟨rules, hsaid, hrules⟩ := isWellFormed_of_buildGrammar hne hnamed hbuild
  obtain ⟨htext, hdefinitions⟩ := htexts rules hsaid
  obtain ⟨rs', hbuild', hcomplete, hmeans⟩ := buildGrammar_rules hsaid hrules
    fun rule hrule => ((isID_of_meant hsaid hnamed).2 rule hrule).1
  obtain rfl : rs = rs' := Except.ok.inj (hbuild.symm.trans hbuild')
  refine ⟨rules, hrules, htext, ?_, hcomplete, hmeans⟩
  have hdefined : definitions limit source = root.children.map Token.substring := by
    unfold definitions
    rw [show grammar.matchInput limit (.beginning source) = .ok root s from hmatch]
  rwa [hdefined, List.forall₂_map_left_iff]

/-- The texts that compile are those of the well-formed grammars. -/
theorem compiles_iff (source : String) :
    (∃ limit rs, (compile limit source).result = .ok rs) ↔
      ∃ rules, IsWellFormed rules ∧ IsTextOf source.toList rules := by
  constructor
  · rintro ⟨limit, rs, h⟩
    obtain ⟨rules, hrules, htext, -⟩ := isTextOf_of_compile h
    exact ⟨rules, hrules, htext⟩
  · rintro ⟨rules, hrules, htext⟩
    obtain ⟨rs, -, -, hroom⟩ := compile_of_isTextOf hrules htext
    exact ⟨_, rs, hroom _ (Nat.le_refl _)⟩

end GrammarEngine.Notation
