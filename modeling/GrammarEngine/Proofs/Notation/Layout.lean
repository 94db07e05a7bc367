import GrammarEngine.Notation.Basic
import GrammarEngine.Proofs.Termination
import GrammarEngine.Proofs.RoundTrip

namespace GrammarEngine.Notation

/-!
# The symbols of the notation

The graph of the notation written out, so that the shape of a symbol is a matter of looking it up.

* `layout` — the symbols in the order in which they are made;
* `Sym` — the symbols that are rules;
* `symbol_node` — the symbol of a node, looked up;
* `isSolid`, `isAcyclic`, `isDefined` — all symbols together are a part of the graph in which
  matching comes to an end.
-/

/-- The symbols of the notation in the order in which they are made. -/
def layout : List Symbol := [
  -- Names and digits.
  /- 0 -/ ⟨.generated 0, .switch [⟨97, 122⟩, ⟨65, 90⟩]⟩,
  /- 1 -/ ⟨.generated 1, .switch [⟨97, 122⟩, ⟨65, 90⟩, ⟨48, 57⟩, ⟨95, 95⟩]⟩,
  /- 2 -/ ⟨.generated 2, .multiple (.node 1)⟩,
  /- 3 -/ ⟨.generated 3, .star (.node 2)⟩,
  /- 4 -/ ⟨.given "ID", .sequence [.node 0, .node 3]⟩,
  /- 5 -/ ⟨.given "DIGIT", .switch [⟨48, 57⟩]⟩,
  -- Characters inside literals.
  /- 6 -/ ⟨.generated 6, .character '\\'⟩,
  /- 7 -/ ⟨.generated 7, .switch [⟨116, 116⟩, ⟨110, 110⟩, ⟨114, 114⟩, ⟨34, 34⟩, ⟨39, 39⟩, ⟨45, 45⟩,
    ⟨92, 92⟩, ⟨93, 93⟩]⟩,
  /- 8 -/ ⟨.generated 8, .character 'u'⟩,
  /- 9 -/ ⟨.generated 9, .sequence [.node 8, .node 5, .node 5, .node 5, .node 5]⟩,
  /- 10 -/ ⟨.generated 10, .junction [.node 7, .node 9]⟩,
  /- 11 -/ ⟨.given "escape", .sequence [.node 6, .node 10]⟩,
  /- 12 -/ ⟨.generated 12, .switch [⟨0, 33⟩, ⟨35, 91⟩, ⟨93, maxCodePoint⟩]⟩,
  /- 13 -/ ⟨.given "char", .junction [.node 11, .node 12]⟩,
  /- 14 -/ ⟨.generated 14, .switch [⟨0, 44⟩, ⟨46, 91⟩, ⟨94, maxCodePoint⟩]⟩,
  /- 15 -/ ⟨.given "range_char", .junction [.node 11, .node 14]⟩,
  -- Literals.
  /- 16 -/ ⟨.generated 16, .text "[-]"⟩,
  /- 17 -/ ⟨.generated 17, .character '['⟩,
  /- 18 -/ ⟨.generated 18, .character '-'⟩,
  /- 19 -/ ⟨.generated 19, .sequence [.node 18, .node 15]⟩,
  /- 20 -/ ⟨.generated 20, .option (.node 19)⟩,
  /- 21 -/ ⟨.generated 21, .character '-'⟩,
  /- 22 -/ ⟨.generated 22, .sequence [.node 15, .node 21, .node 15]⟩,
  /- 23 -/ ⟨.generated 23, .character '-'⟩,
  /- 24 -/ ⟨.generated 24, .sequence [.node 15, .node 23]⟩,
  /- 25 -/ ⟨.generated 25, .junction [.node 22, .node 24, .node 15]⟩,
  /- 26 -/ ⟨.generated 26, .multiple (.node 25)⟩,
  /- 27 -/ ⟨.generated 27, .star (.node 26)⟩,
  /- 28 -/ ⟨.generated 28, .character ']'⟩,
  /- 29 -/ ⟨.generated 29, .sequence [.node 17, .node 20, .node 27, .node 28]⟩,
  /- 30 -/ ⟨.given "switch", .junction [.node 16, .node 29]⟩,
  /- 31 -/ ⟨.generated 31, .character '"'⟩,
  /- 32 -/ ⟨.generated 32, .character '"'⟩,
  /- 33 -/ ⟨.given "character", .sequence [.node 31, .node 13, .node 32]⟩,
  /- 34 -/ ⟨.generated 34, .character '"'⟩,
  /- 35 -/ ⟨.generated 35, .multiple (.node 13)⟩,
  /- 36 -/ ⟨.generated 36, .character '"'⟩,
  /- 37 -/ ⟨.given "text", .sequence [.node 34, .node 35, .node 36]⟩,
  /- 38 -/ ⟨.given "LITERAL", .junction [.node 30, .node 33, .node 37]⟩,
  -- Expressions.
  /- 39 -/ ⟨.given "symbol", .implicit (some (.node 56))⟩,
  /- 40 -/ ⟨.generated 40, .character '('⟩,
  /- 41 -/ ⟨.generated 41, .character ')'⟩,
  /- 42 -/ ⟨.generated 42, .sequence [.node 40, .node 39, .node 41]⟩,
  /- 43 -/ ⟨.given "atom", .junction [.node 42, .node 4, .node 38]⟩,
  /- 44 -/ ⟨.generated 44, .character '+'⟩,
  /- 45 -/ ⟨.given "multiple", .sequence [.node 43, .node 44]⟩,
  /- 46 -/ ⟨.generated 46, .character '?'⟩,
  /- 47 -/ ⟨.given "option", .sequence [.node 43, .node 46]⟩,
  /- 48 -/ ⟨.generated 48, .character '*'⟩,
  /- 49 -/ ⟨.given "star", .sequence [.node 43, .node 48]⟩,
  /- 50 -/ ⟨.given "factor", .junction [.node 45, .node 47, .node 49, .node 43]⟩,
  /- 51 -/ ⟨.given "sequence", .multiple (.node 50)⟩,
  /- 52 -/ ⟨.generated 52, .character '|'⟩,
  /- 53 -/ ⟨.generated 53, .sequence [.node 52, .node 51]⟩,
  /- 54 -/ ⟨.generated 54, .multiple (.node 53)⟩,
  /- 55 -/ ⟨.given "junction", .sequence [.node 51, .node 54]⟩,
  /- 56 -/ ⟨.given "symbol", .junction [.node 55, .node 51]⟩,
  -- Rules.
  /- 57 -/ ⟨.generated 57, .character ':'⟩,
  /- 58 -/ ⟨.generated 58, .character ';'⟩,
  /- 59 -/ ⟨.given "rule", .sequence [.node 4, .node 57, .node 56, .node 58]⟩,
  /- 60 -/ ⟨.given "start", .multiple (.node 59)⟩,
  -- White space and comments.
  /- 61 -/ ⟨.generated 61, .switch [⟨0, 32⟩]⟩,
  /- 62 -/ ⟨.generated 62, .multiple (.node 61)⟩,
  /- 63 -/ ⟨.generated 63, .text "/*"⟩,
  /- 64 -/ ⟨.generated 64, .switch [⟨0, 41⟩, ⟨43, maxCodePoint⟩]⟩,
  /- 65 -/ ⟨.generated 65, .character '*'⟩,
  /- 66 -/ ⟨.generated 66, .multiple (.node 65)⟩,
  /- 67 -/ ⟨.generated 67, .switch [⟨0, 41⟩, ⟨43, 46⟩, ⟨48, maxCodePoint⟩]⟩,
  /- 68 -/ ⟨.generated 68, .sequence [.node 66, .node 67]⟩,
  /- 69 -/ ⟨.generated 69, .junction [.node 64, .node 68]⟩,
  /- 70 -/ ⟨.generated 70, .multiple (.node 69)⟩,
  /- 71 -/ ⟨.generated 71, .star (.node 70)⟩,
  /- 72 -/ ⟨.generated 72, .character '*'⟩,
  /- 73 -/ ⟨.generated 73, .multiple (.node 72)⟩,
  /- 74 -/ ⟨.generated 74, .character '/'⟩,
  /- 75 -/ ⟨.generated 75, .sequence [.node 63, .node 71, .node 73, .node 74]⟩,
  /- 76 -/ ⟨.generated 76, .text "//"⟩,
  /- 77 -/ ⟨.generated 77, .switch [⟨0, 9⟩, ⟨11, maxCodePoint⟩]⟩,
  /- 78 -/ ⟨.generated 78, .multiple (.node 77)⟩,
  /- 79 -/ ⟨.generated 79, .star (.node 78)⟩,
  /- 80 -/ ⟨.generated 80, .sequence [.node 76, .node 79]⟩,
  /- 81 -/ ⟨.generated 81, .junction [.node 62, .node 75, .node 80]⟩,
  /- 82 -/ ⟨.given "skip", .multiple (.node 81)⟩]

/-! ### The rules -/

namespace Sym

abbrev ID : Ref := .node 4
abbrev DIGIT : Ref := .node 5
abbrev escape : Ref := .node 11
abbrev char : Ref := .node 13
abbrev rangeChar : Ref := .node 15
abbrev switch : Ref := .node 30
abbrev character : Ref := .node 33
abbrev text : Ref := .node 37
abbrev LITERAL : Ref := .node 38
abbrev atom : Ref := .node 43
abbrev multiple : Ref := .node 45
abbrev option : Ref := .node 47
abbrev star : Ref := .node 49
abbrev factor : Ref := .node 50
abbrev sequence : Ref := .node 51
abbrev junction : Ref := .node 55
abbrev symbol : Ref := .node 56
abbrev rule : Ref := .node 59
abbrev start : Ref := .node 60
abbrev skip : Ref := .node 82

end Sym

theorem isLexical_token :
    ∀ key ∈ ["ID", "LITERAL"], (Name.given key).isLexical = true := by decide +kernel

theorem isLexical_ID : (Name.given "ID").isLexical = true := isLexical_token _ (by decide)

theorem isLexical_LITERAL : (Name.given "LITERAL").isLexical = true :=
  isLexical_token _ (by decide)

/-- The names of what is made of tokens. -/
theorem isLexical_phrase : ∀ key ∈ ["atom", "multiple", "option", "star", "factor", "sequence",
    "junction", "symbol", "rule", "start"], (Name.given key).isLexical = false := by
  decide +kernel

theorem graph_eq : ruleSet.graph = ⟨layout.toArray⟩ := by decide +kernel

theorem specialRules_eq : grammar.startRule = Sym.start ∧ grammar.skipRule = Sym.skip := by
  decide +kernel

theorem startRule_eq : grammar.startRule = Sym.start := specialRules_eq.1

theorem skipRule_eq : grammar.skipRule = Sym.skip := specialRules_eq.2

/-- The symbol of a node, looked up. -/
theorem symbol_node {index : Nat} {symbol : Symbol} (h : layout[index]? = some symbol) :
    ruleSet.graph.symbol (.node index) = symbol := by
  rw [graph_eq, Graph.symbol, Array.getD_eq_getD_getElem?, List.getElem?_toArray, h,
    Option.getD_some]

/-- A symbol is one of those, or it is no symbol of the notation. -/
theorem symbol_cases (ref : Ref) :
    (∃ index symbol, ref = .node index ∧ layout[index]? = some symbol ∧
      ruleSet.graph.symbol ref = symbol) ∨
    ruleSet.graph.symbol ref = .zeroLength ∨ (ruleSet.graph.symbol ref).shape = .foreign := by
  cases ref with
  | zeroLength => exact .inr (.inl rfl)
  | foreign => exact .inr (.inr rfl)
  | node index =>
    cases h : layout[index]? with
    | some symbol => exact .inl ⟨index, symbol, rfl, h, symbol_node h⟩
    | none =>
      refine .inr (.inl ?_)
      rw [graph_eq, Graph.symbol, Array.getD_eq_getD_getElem?, List.getElem?_toArray, h,
        Option.getD_none]

/-! ### All symbols together -/

/-- All symbols of the notation. -/
def allSymbols : Finset Ref := (Finset.range layout.length).image .node

theorem mem_allSymbols {ref : Ref} :
    ref ∈ allSymbols ↔ ∃ index symbol, ref = .node index ∧ layout[index]? = some symbol := by
  simp only [allSymbols, Finset.mem_image, Finset.mem_range]
  constructor
  · rintro ⟨index, hindex, rfl⟩
    exact ⟨index, layout[index], rfl, List.getElem?_eq_getElem hindex⟩
  · rintro ⟨index, symbol, rfl, hsymbol⟩
    exact ⟨index, (List.getElem?_eq_some_iff.mp hsymbol).1, rfl⟩

/-- What can be seen of each single symbol holds of all of them. -/
theorem forall_allSymbols {P : Symbol × Nat → Prop} (h : ∀ entry ∈ layout.zipIdx, P entry)
    {ref : Ref} (href : ref ∈ allSymbols) :
    ∃ index symbol, ref = .node index ∧ ruleSet.graph.symbol ref = symbol ∧ P (symbol, index) := by
  obtain ⟨index, symbol, rfl, hsymbol⟩ := mem_allSymbols.mp href
  exact ⟨index, symbol, rfl, symbol_node hsymbol,
    h (symbol, index) (List.mk_mem_zipIdx_iff_getElem?.mpr hsymbol)⟩

/-- What can be seen of each single symbol: it is made of symbols, it is defined, and it is not
    implicit, but for one. -/
structure IsRegular (entry : Symbol × Nat) : Prop where
  closed : ∀ r ∈ entry.1.shape.refs, r ∈ allSymbols
  solid : entry.1.shape ≠ .zeroLength
  defined : entry.1.shape ≠ .implicit none ∧ entry.1.shape ≠ .foreign
  implicit : entry.1.shape.kind = .implicit → entry.2 = 39

theorem layout_regular : ∀ entry ∈ layout.zipIdx, IsRegular entry := by
  have hall : ∀ entry ∈ layout.zipIdx, (∀ r ∈ entry.1.shape.refs, r ∈ allSymbols) ∧
      entry.1.shape ≠ .zeroLength ∧ (entry.1.shape ≠ .implicit none ∧ entry.1.shape ≠ .foreign) ∧
      (entry.1.shape.kind = .implicit → entry.2 = 39) := by
    decide +kernel
  intro entry hentry
  obtain ⟨hclosed, hsolid, hdefined, himplicit⟩ := hall entry hentry
  exact ⟨hclosed, hsolid, hdefined, himplicit⟩

/-- There is one implicit symbol only. -/
theorem layout_implicit {index : Nat} {symbol : Symbol} (h : layout[index]? = some symbol)
    (hkind : symbol.shape.kind = .implicit) : index = 39 :=
  (layout_regular (symbol, index) (List.mk_mem_zipIdx_iff_getElem?.mpr h)).implicit hkind

theorem isSolid : ruleSet.graph.IsSolid allSymbols := by
  constructor
  · intro ref href r hr
    obtain ⟨index, symbol, rfl, hsymbol, hregular⟩ := forall_allSymbols layout_regular href
    rw [hsymbol] at hr
    exact hregular.closed r hr
  · intro ref href
    obtain ⟨index, symbol, rfl, hsymbol, hregular⟩ := forall_allSymbols layout_regular href
    rw [hsymbol]
    exact hregular.solid

theorem isDefined : ∀ ref ∈ allSymbols, (ruleSet.graph.symbol ref).shape ≠ .implicit none ∧
    (ruleSet.graph.symbol ref).shape ≠ .foreign := by
  intro ref href
  obtain ⟨index, symbol, rfl, hsymbol, hregular⟩ := forall_allSymbols layout_regular href
  rw [hsymbol]
  exact hregular.defined

theorem isAcyclic : ruleSet.graph.IsAcyclic allSymbols := by
  refine Graph.isAcyclic_of_rank (fun ref => if ref = .node 39 then 1 else 0) ?_
  intro ref target hleads
  unfold Graph.LeadsTo at hleads
  rcases symbol_cases ref with ⟨index, symbol, rfl, hindex, hsymbol⟩ | hzero | hforeign
  · have hkind : symbol.shape.kind = .implicit := by
      rw [← hsymbol, hleads]
      rfl
    obtain rfl : index = 39 := layout_implicit hindex hkind
    rw [symbol_node rfl] at hleads
    cases hleads
    decide
  · rw [hzero] at hleads
    cases hleads
  · rw [hforeign] at hleads
    cases hleads

end GrammarEngine.Notation
