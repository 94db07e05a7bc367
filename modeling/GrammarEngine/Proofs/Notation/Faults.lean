import GrammarEngine.Proofs.Notation.Listening

namespace GrammarEngine

/-!
# What can be wrong with a grammar text

A grammar text that has the right form may still be refused. What it is refused for can be seen in
its tree, without walking it: the tokens are gone through, each behind those under it, and the first
one with a fault is to blame.

* `Token.postorder` — the tokens of a tree in that order;
* `faultAt`, `firstFault` — what is wrong with a token, and the first fault among some tokens;
* `usedIn`, `definedIn` — the names that are used and defined among some tokens;
* `Scans` — what some tokens under a rule come to;
* `Expr.mistake`, `RuleText.mistake`, `mistakeIn` — the same for expressions and rules, where
  nothing is known but what they are refused with.
-/

namespace Token

variable {α : Type}

mutual

/-- The tokens of a tree, each behind those under it. -/
def postorder : Token α → List (Token α)
  | .sentinel which => [.sentinel which]
  | .node header children payload => postorderOf children ++ [.node header children payload]

/-- The tokens of some trees, one tree after the other. -/
def postorderOf : List (Token α) → List (Token α)
  | [] => []
  | t :: rest => postorder t ++ postorderOf rest

end

theorem postorder_over {kind : Kind} {name : Name} {ordinal : Nat} {t : Token α} :
    (Token.over kind name ordinal t).postorder =
      t.postorder ++ [.over kind name ordinal t] := by
  rw [Token.over, postorder, postorderOf, postorderOf, List.append_nil]

end Token

namespace Notation

/-! ### Characters -/

/-- The digits of an escape, if it is a number. -/
def escapeDigits (t : Token Value) : Option (List Char) :=
  match t.children with
  | [_, which] => if which.ordinal = 1 then some (which.substring.toList.drop 1) else none
  | _ => none

/-- Has the number of an escape a digit that is not octal? -/
def isMalformed (t : Token Value) : Bool :=
  (escapeDigits t).any fun digits => digits.any fun c => c == '8' || c == '9'

/-- The character that an escape stands for. -/
def escapedChar (t : Token Value) : Char :=
  match escapeDigits t with
  | some digits =>
    Char.ofNat (Nat.ofDigits 8 (digits.reverse.map fun c => c.toNat - '0'.toNat))
  | none => letter ((t.children.getD 1 default).substring.toList.headD default)

/-- The character that a character of a literal stands for, escaped or not. -/
def charOf (t : Token Value) : Char :=
  if t.ordinal = 0 then escapedChar (t.children.headD default)
  else t.substring.toList.headD default

/-! ### Classes -/

/-- The items of a class. -/
def classItems (t : Token Value) : List (Token Value) :=
  match (t.children.headD default).children with
  | [_, _, items, _] => items.children
  | _ => []

/-- Does an item of a class go from a character to an earlier one? -/
def isBackwards (item : Token Value) : Bool :=
  match item.ordinal, (item.children.headD default).children with
  | 0, [low, _, high] => decide ((charOf low).toNat > (charOf high).toNat)
  | _, _ => false

/-! ### Rules -/

/-- The name of the rule that a tree is for. -/
def ruleName (t : Token Value) : String := (t.children.headD default).substring

/-- The expression of the rule that a tree is for. -/
def ruleBody (t : Token Value) : Token Value := t.children.getD 2 default

/-- Is an expression nothing but the name of a rule, between any number of parentheses? -/
def isJustReference : Token Value → Bool
  | .sentinel _ => false
  | .node header [child] _ => header.name ≠ .given "LITERAL" && isJustReference child
  | .node header [_, child, _] _ => header.kind = .sequence && isJustReference child
  | .node header _ _ => header.name = .given "ID"

/-! ### Faults -/

/-- Something that is wrong with a token. -/
structure Fault where
  token : Token Value
  message : String

/-- The error that refuses a text for a fault. -/
def Fault.error (fault : Fault) : ParseError := fault.token.error fault.message

/-- What is wrong with an item of a class. -/
def itemFault (item : Token Value) : Option Fault :=
  if isBackwards item then some ⟨item, "Character range is backwards"⟩ else none

/-- What is wrong with a rule, where rules of some names come before it. -/
def ruleFault (defined : List String) (t : Token Value) : Option Fault :=
  if ruleName t ∈ defined then some ⟨t, "Rule '" ++ ruleName t ++ "' is defined more than once"⟩
  else if isJustReference (ruleBody t) then
    some ⟨t, "Delegation to another named symbol is forbidden"⟩
  else none

/-- What is wrong with a token itself, where rules of some names come before it. The items of a
    class are looked at when the class is there. -/
def faultAt (defined : List String) (t : Token Value) : Option Fault :=
  if t.name = .given "escape" then
    if isMalformed t then some ⟨t, "Malformed escape value"⟩ else none
  else if t.name = .given "switch" then (classItems t).findSome? itemFault
  else if t.name = .given "rule" then ruleFault defined t
  else none

/-- The names of the rules among some tokens. -/
def definedIn (ts : List (Token Value)) : List String :=
  ts.filterMap fun t => if t.name = .given "rule" then some (ruleName t) else none

/-- The names that are referred to among some tokens. -/
def usedIn (ts : List (Token Value)) : List String :=
  ts.filterMap fun t =>
    if t.name = .given "atom" ∧ t.ordinal = 1 then some t.substring else none

/-- The first fault among some tokens, where rules of some names come before them. -/
def firstFault (defined : List String) : List (Token Value) → Option Fault
  | [] => none
  | t :: ts => (faultAt defined t).or (firstFault (defined ++ definedIn [t]) ts)

theorem definedIn_append (ts ts' : List (Token Value)) :
    definedIn (ts ++ ts') = definedIn ts ++ definedIn ts' :=
  List.filterMap_append ..

theorem usedIn_append (ts ts' : List (Token Value)) :
    usedIn (ts ++ ts') = usedIn ts ++ usedIn ts' :=
  List.filterMap_append ..

theorem firstFault_append (defined : List String) (ts ts' : List (Token Value)) :
    firstFault defined (ts ++ ts') =
      (firstFault defined ts).or (firstFault (defined ++ definedIn ts) ts') := by
  induction ts generalizing defined with
  | nil => simp [firstFault, definedIn]
  | cons t ts ih =>
    have hdefined : definedIn (t :: ts) = definedIn [t] ++ definedIn ts :=
      definedIn_append [t] ts
    rw [List.cons_append, firstFault, firstFault, ih, hdefined, ← List.append_assoc,
      Option.or_assoc]

/-! ### What tokens come to -/

/-- Some tokens under a rule: their first fault, and the names that are used in them. -/
structure Scans (ts : List (Token Value)) (fault : Option Fault) (used : List String) : Prop where
  firstFault : ∀ defined, firstFault defined ts = fault
  usedIn : usedIn ts = used
  definedIn : definedIn ts = []

/-- Tokens with this name have no faults of their own, and say nothing about names. -/
def isPlain : Name → Bool
  | .given key => key ∉ ["escape", "switch", "rule", "atom"]
  | .generated _ => true

/-- There is nothing to be said about any token of the tree. -/
abbrev Silent (t : Token Value) : Prop := Scans t.postorder none []

namespace Scans

variable {ts ts' : List (Token Value)} {fault fault' : Option Fault} {used used' : List String}
  {t : Token Value} {header : Header}

theorem nil : Scans (Token.postorderOf []) none [] := by
  rw [Token.postorderOf]
  exact ⟨fun _ => rfl, rfl, rfl⟩

theorem append (h : Scans ts fault used) (h' : Scans ts' fault' used') :
    Scans (ts ++ ts') (fault.or fault') (used ++ used') where
  firstFault defined := by
    rw [firstFault_append, h.firstFault, h.definedIn, List.append_nil, h'.firstFault]
  usedIn := by rw [usedIn_append, h.usedIn, h'.usedIn]
  definedIn := by rw [definedIn_append, h.definedIn, h'.definedIn, List.append_nil]

/-- A token under a rule. -/
theorem single (hfault : ∀ defined, faultAt defined t = fault) (hused : Notation.usedIn [t] = used)
    (hname : t.name ≠ .given "rule") : Scans [t] fault used where
  firstFault defined := by
    rw [Notation.firstFault, hfault, Notation.firstFault, Option.or_none]
  usedIn := hused
  definedIn := by simp [Notation.definedIn, hname]

theorem of_isPlain (h : isPlain t.name = true) : Scans [t] none [] := by
  have hne : ∀ key ∈ ["escape", "switch", "rule", "atom"], t.name ≠ .given key := by
    intro key hkey hname
    rw [hname, isPlain, decide_eq_true_eq] at h
    exact h hkey
  refine single (fun defined => ?_) ?_ (hne "rule" (by simp))
  · rw [faultAt, if_neg (hne "escape" (by simp)), if_neg (hne "switch" (by simp)),
      if_neg (hne "rule" (by simp))]
  · simp [Notation.usedIn, hne "atom" (by simp)]

theorem cons (h : Scans t.postorder fault used) (h' : Scans (Token.postorderOf ts) fault' used') :
    Scans (Token.postorderOf (t :: ts)) (fault.or fault') (used ++ used') :=
  h.append h'

/-- A tree between two others that there is nothing to be said about. -/
theorem between {b b' : Token Value} (hb : Silent b) (h : Scans t.postorder fault used)
    (hb' : Silent b') : Scans (Token.postorderOf [b, t, b']) fault used := by
  simpa using hb.cons (h.cons (hb'.cons .nil))

/-- One token behind those under it. -/
theorem node (h : Scans (Token.postorderOf ts) fault used)
    (htoken : Scans [.node header ts none] fault' used') :
    Scans (Token.node header ts none).postorder (fault.or fault') (used ++ used') := by
  rw [Token.postorder]
  exact h.append htoken

theorem plain (h : Scans (Token.postorderOf ts) fault used) (header : Header)
    (hname : isPlain header.name = true) :
    Scans (Token.node header ts none).postorder fault used := by
  simpa using h.node (of_isPlain (t := .node header ts none) hname)

theorem covering (h : Scans t.postorder fault used) (kind : Kind) (name : Name) (ordinal : Nat)
    (hname : isPlain name = true) :
    Scans (Token.over kind name ordinal t).postorder fault used := by
  have hone := h.cons .nil
  rw [Option.or_none, List.append_nil] at hone
  exact hone.plain _ hname

theorem escape (h : Scans (Token.postorderOf ts) fault used)
    (hname : header.name = .given "escape") :
    Scans (Token.node header ts none).postorder
      (fault.or (if isMalformed (.node header ts none) then
        some ⟨.node header ts none, "Malformed escape value"⟩ else none)) used := by
  have htoken : Scans [.node header ts none] _ [] :=
    single (fun _ => if_pos hname) (by simp [Notation.usedIn, hname]) (by simp [hname])
  simpa using h.node htoken

theorem switch (h : Scans (Token.postorderOf ts) fault used)
    (hname : header.name = .given "switch") :
    Scans (Token.node header ts none).postorder
      (fault.or ((classItems (.node header ts none)).findSome? itemFault)) used := by
  have htoken : Scans [.node header ts none] _ [] :=
    single (fun _ => (if_neg (by simp [hname])).trans (if_pos hname))
      (by simp [Notation.usedIn, hname]) (by simp [hname])
  simpa using h.node htoken

/-- An atom, which is used if it is a name. -/
theorem atom (h : Scans t.postorder fault used) (ordinal : Nat) :
    Scans (Token.over .junction (.given "atom") ordinal t).postorder fault
      (used ++ if ordinal = 1 then [t.substring] else []) := by
  have hatom : Scans [.over .junction (.given "atom") ordinal t] none
      (if ordinal = 1 then [t.substring] else []) := by
    refine single (fun _ => rfl) ?_ (by simp [Token.over])
    by_cases hordinal : ordinal = 1 <;>
      simp [Notation.usedIn, Token.over, Token.ordinal, hordinal]
  have hboth := h.append hatom
  rwa [Option.or_none, ← Token.postorder_over] at hboth

end Scans

theorem Silent.all {ts : List (Token Value)} (h : ∀ t ∈ ts, Silent t) :
    Scans (Token.postorderOf ts) none [] := by
  induction ts with
  | nil => exact .nil
  | cons t ts ih =>
    rw [List.forall_mem_cons] at h
    exact h.1.cons (ih h.2)

theorem silent_leaf {kind : Kind} {name : Name} {substring : String} {start : Int} {ordinal : Nat}
    (hname : isPlain name = true) : Silent (.leaf kind name substring start ordinal) :=
  Scans.nil.plain _ hname

/-! ### Expressions and rules -/

mutual

/-- The error that an expression is refused with, which is that of its first faulty literal. -/
def Expr.mistake : Expr (Except ParseError Literal) → Option ParseError
  | .reference _ | .literal (.ok _) => none
  | .literal (.error e) => some e
  | .repeated _ inner => inner.mistake
  | .sequence members | .choice members => Expr.mistakeAmong members

/-- The error that some expressions are refused with. -/
def Expr.mistakeAmong : List (Expr (Except ParseError Literal)) → Option ParseError
  | [] => none
  | e :: es => e.mistake.or (Expr.mistakeAmong es)

end

theorem Expr.mistake_inSequence (es : List (Expr (Except ParseError Literal))) :
    (Expr.inSequence es).mistake = Expr.mistakeAmong es := by
  unfold Expr.inSequence
  split
  · rw [Expr.mistakeAmong, Expr.mistakeAmong, Option.or_none]
  · rw [Expr.mistake]

/-- The error that refuses a rule, by itself. -/
def RuleText.objection (r : RuleText) (message : String) : ParseError where
  complaint := .custom (message ++ " (in '" ++ r.source ++ "')")
  isSemantic := true
  position := r.start
  location := none

/-- The error that a rule is refused with, where rules of some names come before it. -/
def RuleText.mistake (defined : List String) (r : RuleText) : Option ParseError :=
  r.body.mistake.or <|
    if r.name ∈ defined then
      some (r.objection ("Rule '" ++ r.name ++ "' is defined more than once"))
    else if r.body.isReference then
      some (r.objection "Delegation to another named symbol is forbidden")
    else none

/-- The error that some rules are refused with, where rules of some names come before them. -/
def mistakeIn (defined : List String) : List RuleText → Option ParseError
  | [] => none
  | r :: rs => (r.mistake defined).or (mistakeIn (defined ++ [r.name]) rs)

end Notation

end GrammarEngine
