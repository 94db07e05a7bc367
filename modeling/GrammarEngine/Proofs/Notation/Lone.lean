import GrammarEngine.Proofs.Notation.Culprits
import GrammarEngine.Proofs.Notation.Seams
import GrammarEngine.Proofs.Notation.Understanding

namespace GrammarEngine

/-!
# Grammar texts of one literal

A grammar text with one rule, whose body is one literal: what comes of it is what the literal says.

* `ruleText` — the text, `IsLone` — the literal is read in its place;
* `IsLone.isSeamed` — between the tokens there are no parentheses, whatever the literal is;
* `IsLone.reads_start` — the text is read as one rule;
* `RuleSet.IsOnly` — the rule that this makes;
* `IsLone.compile_ok`, `IsLone.compile_error` — what compiling the text comes to.
-/

/-- The rule is the only one there is, and it is of this shape. -/
def RuleSet.IsOnly (rs : RuleSet) (ref : Ref) (shape : Shape) : Prop :=
  rs.rules.keys = ["r"] ∧ rs.get? "r" = some ref ∧ rs.graph.symbol ref = ⟨.given "r", shape⟩

namespace Notation

/-- The text of a grammar whose only rule is a literal of this text. -/
def ruleText (s : List Char) : List Char := 'r' :: ':' :: (s ++ [';'])

/-- A literal is read where the body of the rule is. -/
structure IsLone (text s : List Char) (t : Token Value) (res : Except ParseError Literal) :
    Prop where
  text_eq : text = ruleText s
  begins : s.head? = some '[' ∨ s.head? = some '"'
  reads : Reads text Sym.LITERAL Sym.skip 2 (some (t, 2 + s.length))
  covers : t.isEmpty = false
  expr : IsExpr t (.literal res)

namespace IsLone

variable {text s : List Char} {t u : Token Value} {res : Except ParseError Literal} {p q : Nat}

/-! ### Places -/

/-- Where the tokens of the text begin, and where it ends. -/
def Seam (s : List Char) (p : Nat) : Prop :=
  p = 0 ∨ p = 1 ∨ p = 2 ∨ p = 2 + s.length ∨ p = 3 + s.length

theorem drops (h : IsLone text s t res) :
    text.drop 0 = 'r' :: ':' :: (s ++ [';']) ∧ text.drop 1 = ':' :: (s ++ [';']) ∧
      text.drop 2 = s ++ [';'] ∧ text.drop (2 + s.length) = [';'] ∧
      text.drop (3 + s.length) = [] := by
  have htext := h.text_eq
  have hdrop : text.drop 2 = s ++ [';'] := by
    rw [htext]
    rfl
  have hdrop' := drop_of_drop hdrop
  refine ⟨by rw [htext]; rfl, by rw [htext]; rfl, hdrop, hdrop', ?_⟩
  have hend : text.drop (2 + s.length + 1) = [] := drop_of_drop (s := [';']) hdrop'
  rwa [Nat.add_right_comm] at hend

/-- What each of the tokens begins with. -/
theorem head_cases (h : IsLone text s t res) (hp : Seam s p) :
    p = 0 ∧ (text.drop p).head? = some 'r' ∨ p = 1 ∧ (text.drop p).head? = some ':' ∨
      p = 2 ∧ ((text.drop p).head? = some '[' ∨ (text.drop p).head? = some '"') ∨
      p = 2 + s.length ∧ (text.drop p).head? = some ';' ∨
      p = 3 + s.length ∧ (text.drop p).head? = none := by
  obtain ⟨h₀, h₁, h₂, h₃, h₄⟩ := h.drops
  rcases hp with rfl | rfl | rfl | rfl | rfl
  · exact .inl ⟨rfl, by rw [h₀, List.head?_cons]⟩
  · exact .inr (.inl ⟨rfl, by rw [h₁, List.head?_cons]⟩)
  · refine .inr (.inr (.inl ⟨rfl, ?_⟩))
    rw [h₂, List.head?_append]
    exact h.begins.imp (by rintro hs; rw [hs]; rfl) (by rintro hs; rw [hs]; rfl)
  · exact .inr (.inr (.inr (.inl ⟨rfl, by rw [h₃, List.head?_cons]⟩)))
  · exact .inr (.inr (.inr (.inr ⟨rfl, by rw [h₄, List.head?_nil]⟩)))

/-- Nothing is skipped between the tokens. -/
theorem skips (h : IsLone text s t res) (hp : Seam s p) :
    Skips ruleSet.graph text Value Sym.skip p p := by
  have hvisible : Visible (text.drop p) := by
    intro c hc
    rcases h.head_cases hp with ⟨-, hhead⟩ | ⟨-, hhead⟩ | ⟨-, hhead | hhead⟩ | ⟨-, hhead⟩ |
      ⟨-, hhead⟩
    all_goals
      rw [hhead] at hc
      cases hc
    all_goals decide
  exact skips_gap .nil hvisible rfl

theorem reads_name (h : IsLone text s t res) :
    ∃ id, Reads text Sym.ID Sym.skip 0 (some (id, 1)) ∧ id.isEmpty = false := by
  have hrest : ∀ c ∈ (':' :: (s ++ [';'])).head?, ¬ isWordChar c = true := by
    rintro c ⟨⟩
    decide
  have hdrop : text.drop 0 = "r".toList ++ ':' :: (s ++ [';']) := h.drops.1
  obtain ⟨id, hreads, hcovers, -⟩ := reads_ID Sym.skip (by decide) hrest hdrop
  exact ⟨id, hreads, hcovers⟩

theorem leads_name (h : IsLone text s t res) (hp : Seam s p)
    (hplaced : Placed text Sym.skip Sym.ID p u q) : Seam s q ∧ u.isEmpty = false := by
  have hletter : ∃ c ∈ (text.drop p).head?, isLetter c = true := by
    by_contra hnone
    push Not at hnone
    cases hplaced.unique (ID_fails hnone)
  obtain ⟨c, hc, hletter⟩ := hletter
  rcases h.head_cases hp with ⟨rfl, -⟩ | ⟨-, heq⟩ | ⟨-, heq | heq⟩ | ⟨-, heq⟩ | ⟨-, heq⟩
  · obtain ⟨id, hreads, hcovers⟩ := h.reads_name
    cases hplaced.unique hreads
    exact ⟨.inr (.inl rfl), hcovers⟩
  all_goals
    rw [heq] at hc
    cases hc
  all_goals exact absurd hletter (by decide)

theorem leads_literal (h : IsLone text s t res) (hp : Seam s p)
    (hplaced : Placed text Sym.skip Sym.LITERAL p u q) : Seam s q ∧ u.isEmpty = false := by
  have hbegins : (text.drop p).head? = some '[' ∨ (text.drop p).head? = some '"' := by
    by_contra hneither
    rw [not_or] at hneither
    cases hplaced.unique (LITERAL_fails hneither.1 hneither.2)
  rcases h.head_cases hp with ⟨-, heq⟩ | ⟨-, heq⟩ | ⟨rfl, -⟩ | ⟨-, heq⟩ | ⟨-, heq⟩
  case inr.inr.inl =>
    cases hplaced.unique h.reads
    exact ⟨.inr (.inr (.inr (.inl rfl))), h.covers⟩
  all_goals
    rw [heq] at hbegins
    rcases hbegins with hbegins | hbegins <;> cases hbegins

theorem leads_mark {index : Nat} {name : Name} {m : Mark} (h : IsLone text s t res) (hp : Seam s p)
    (hsymbol : layout[index]? = some ⟨name, .character m.char⟩)
    (hplaced : Placed text Sym.skip (.node index) p u q) : Seam s q ∧ u.isEmpty = false := by
  obtain ⟨hdrop, start, rfl⟩ := hplaced.character isRanked (symbol_node hsymbol)
  refine ⟨?_, isEmpty_singleton ..⟩
  have hhead : (text.drop p).head? = some m.char := by rw [hdrop, List.head?_cons]
  have hq : q = p + 1 := by
    cases hplaced.unique (.character (symbol_node hsymbol) hdrop)
    rfl
  rcases h.head_cases hp with ⟨-, heq⟩ | ⟨rfl, -⟩ | ⟨-, heq | heq⟩ | ⟨rfl, -⟩ | ⟨-, heq⟩
  case inr.inl => exact .inr (.inr (.inl hq))
  case inr.inr.inr.inl =>
    rw [Nat.add_right_comm] at hq
    exact .inr (.inr (.inr (.inr hq)))
  all_goals
    rw [heq] at hhead
    cases m <;> cases hhead

/-- There are no parentheses between the tokens, whatever is inside the literal. -/
theorem isSeamed (h : IsLone text s t res) : IsSeamed text (Seam s) where
  le_length p hp := by
    have hlength : text.length = 3 + s.length := by
      rw [h.text_eq, ruleText]
      simp
      omega
    unfold Seam at hp
    omega
  gaps p q hp hskips := by
    rw [← hskips.unique (h.skips hp)]
    exact hp
  closed p hp hhead := by
    rcases h.head_cases hp with ⟨-, heq⟩ | ⟨-, heq⟩ | ⟨-, heq | heq⟩ | ⟨-, heq⟩ | ⟨-, heq⟩
    all_goals
      rw [heq] at hhead
      cases hhead
  leads index hindex p u q hp hplaced := by
    simp only [tokens, List.mem_cons, List.not_mem_nil, or_false] at hindex
    rcases hindex with rfl | rfl | hindex
    · exact h.leads_name hp hplaced
    · exact h.leads_literal hp hplaced
    · have hmark : ∃ name m, layout[index]? = some ⟨name, .character (Mark.char m)⟩ := by
        rcases hindex with rfl | rfl | rfl | rfl | rfl | rfl | rfl | rfl
        · exact ⟨_, .opening, rfl⟩
        · exact ⟨_, .closing, rfl⟩
        · exact ⟨_, .plus, rfl⟩
        · exact ⟨_, .question, rfl⟩
        · exact ⟨_, .star, rfl⟩
        · exact ⟨_, .bar, rfl⟩
        · exact ⟨_, .colon, rfl⟩
        · exact ⟨_, .semicolon, rfl⟩
      obtain ⟨name, m, hsymbol⟩ := hmark
      exact h.leads_mark hp hsymbol hplaced

/-! ### Reading the text -/

theorem reads_atom (h : IsLone text s t res) :
    ReadsAs text IsExpr Sym.atom 2 (.literal res) [.mark .semicolon] := by
  have hhead := h.isSeamed.closed 2 (.inr (.inr (.inl rfl)))
  have hgroup : Reads text (.node 42) Sym.skip 2 none :=
    .sequence_fails isRanked (symbol_node rfl) rfl (.character_fails (symbol_node rfl) hhead)
  have hID : Reads text Sym.ID Sym.skip 2 none := by
    refine ID_fails fun c hc => ?_
    rw [h.drops.2.2.1, List.head?_append] at hc
    rcases h.begins with hs | hs
    all_goals
      rw [hs] at hc
      cases hc
      decide
  have hfollows : Follows false [.mark .semicolon] (text.drop (2 + s.length)) := by
    rw [h.drops.2.2.2.1]
    exact .next .nil nofun (.last (.gap .nil))
  exact ⟨_, _, false, .junction isRanked (symbol_node rfl) skipInside_atom
    (.failed hgroup (.failed hID (.matched h.reads))), h.covers, isExpr_literal h.expr, hfollows⟩

/-- The body of the rule is the literal. -/
theorem reads_body (h : IsLone text s t res) :
    ReadsAs text IsExpr Sym.symbol 2 (.literal res) [.mark .semicolon] := by
  have hne : text.drop 2 ≠ [] := by simp [h.drops.2.2.1]
  have hfactor := reads_onceFactor h.reads_atom fun count => by cases count <;> exact nofun
  have hsequence : ReadsAs text (fun t es => IsExpr t (.inSequence es)) Sym.sequence 2
      [.literal res] [.mark .semicolon] := by
    refine hfactor.multiple (fun b r hfollows => .stops hfollows fun r hbegins =>
      factor_fails hbegins rfl (by decide)) (symbol_node rfl) skipInside_sequence hne ?_
    intro substring start ts hts
    refine isExpr_sequence hts ?_
    rintro rfl
    cases hts
  exact reads_onlySequence hsequence ⟨.semicolon, by decide, rfl⟩

/-- The text is read as one rule. -/
theorem reads_start (h : IsLone text s t res) :
    ∃ root q r source start, Reads text Sym.start Sym.skip 0 (some (root, q)) ∧
      Skips ruleSet.graph text Value Sym.skip q r ∧ text.drop r = [] ∧
      IsGrammar root [{ name := "r", body := .literal res, source, start }] := by
  have hne : text.drop 0 ≠ [] := by simp [h.drops.1]
  have hcolon : ∀ c ∈ (':' :: (s ++ [';'])).head?, ¬ isWordChar c = true := by
    rintro c ⟨⟩
    decide
  have hname : text.drop 0 = "r".toList ++ ':' :: (s ++ [';']) := h.drops.1
  have hrule : ReadsAs text (IsRuleOf "r") Sym.rule 0 (.literal res) [] :=
    reads_ruleOf (by decide) hcolon hname (h.skips (.inr (.inl rfl))) h.drops.2.1
      (h.skips (.inr (.inr (.inl rfl)))) h.reads_body
  have hstart : ReadsAs text (fun root (_ : List (Expr (Except ParseError Literal))) =>
      ∃ source start, IsGrammar root [{ name := "r", body := .literal res, source, start }])
      Sym.start 0 [.literal res] [] := by
    refine hrule.multiple (fun b r hfollows => .stops hfollows fun r => rule_fails)
      (symbol_node rfl) skipInside_start hne ?_
    intro substring start ts hts
    obtain _ | ⟨⟨source, start', hfirst⟩, ⟨⟩⟩ := hts
    exact ⟨source, start', isGrammar (.cons hfirst .nil)⟩
  obtain ⟨root, q, b, hreads, -, ⟨source, start, hgrammar⟩, hend⟩ := hstart
  obtain ⟨r, hskip, hnil⟩ := hend.skips
  exact ⟨root, q, r, source, start, hreads, hskip, hnil, hgrammar⟩

end IsLone

/-! ### Compiling it -/

variable {limit : Nat} {text : String} {s : List Char} {t : Token Value}

/-- With room for thirty levels, the text is accepted as one rule. -/
theorem IsLone.accepted {res : Except ParseError Literal} (h : IsLone text.toList s t res)
    (hlimit : 30 ≤ limit) :
    ∃ root s' source start, grammar.matchInput limit (.beginning text) = .ok root s' ∧
      IsGrammar root [{ name := "r", body := .literal res, source, start }] := by
  obtain ⟨root, q, r, source, start, hreads, hskip, hend, hgrammar⟩ := h.reads_start
  have hroom := start_answers_of_isSeamed h.isSeamed hlimit (.inl rfl)
  obtain ⟨s', hmatch, -⟩ := accepted_of_reads (Nat.le_trans (by decide) hlimit) hroom
    (h.skips (.inl rfl)) hreads hskip hend
  exact ⟨root, s', source, start, hmatch, hgrammar⟩

/-- A literal that can be read is the only rule of its text. -/
theorem IsLone.compile_ok {v : Literal} (h : IsLone text.toList s t (.ok v))
    (hlimit : 30 ≤ limit) :
    ∃ rs ref, (compile limit text).result = .ok rs ∧ rs.IsOnly ref v.shape := by
  obtain ⟨root, s', source, start, hmatch, hgrammar⟩ := h.accepted hlimit
  rw [compile, compileWith_eq rfl hmatch hgrammar]
  exact ⟨_, .node 1, rfl, rfl, rfl, rfl⟩

end Notation

end GrammarEngine
