import GrammarEngine.Proofs.Notation.Abstract
import GrammarEngine.Proofs.Notation.Layout
import GrammarEngine.Proofs.Payloads
import GrammarEngine.Proofs.Trees
import Mathlib.Data.Nat.Digits.Defs

namespace GrammarEngine.Notation

/-!
# What the listeners of the notation compute

One lemma for each listener, about a token of the form that the notation gives it: what the
listener computes is what the parts of the token say, put together.

* `IsChar`, `IsUpTo`, `IsItem` — the parts of literals;
* `classOfRanges_eq` — the check of a class lets proper ranges pass;
* `IsExpr` — an expression, of which the literals are the simplest;
* `IsRule`, `IsGrammar` — a rule, and a whole grammar text.
-/

/-- The listeners of the notation by the names of tokens. -/
abbrev heard : Name → Option (Listener Draft Value) := grammar.listenerFor

/-- An error in the input as an error. -/
abbrev told {β : Type} (r : Except ParseError β) : Except Error β := r.mapError .parse

theorem ok_bind {β γ : Type} (b : β) (f : β → Except Error γ) : (Except.ok b >>= f) = f b := rfl

theorem of_bind_ok {ε β γ : Type} {x : Except ε β} {f : β → Except ε γ} {c : γ}
    (h : x >>= f = .ok c) : ∃ b, x = .ok b ∧ f b = .ok c := by
  cases x with
  | ok b => exact ⟨b, rfl, h⟩
  | error e => cases h

theorem of_map_ok {ε β γ : Type} {x : Except ε β} {f : β → γ} {c : γ} (h : x.map f = .ok c) :
    ∃ b, x = .ok b ∧ f b = c := by
  cases x with
  | ok b => exact ⟨b, rfl, Except.ok.inj h⟩
  | error e => cases h

theorem of_mapError_ok {ε δ β : Type} {x : Except ε β} {f : ε → δ} {b : β}
    (h : x.mapError f = .ok b) : x = .ok b := by
  cases x with
  | ok b' => rw [Except.ok.inj h]
  | error e => cases h

/-- A character of a literal. -/
def IsChar (t : Token Value) (r : Except ParseError Char) : Prop :=
  Finds heard Token.payload t ((told r).map fun c => .ok (.text (.singleton c)))

/-- The ranges for the first part of a class: up to a character, if there is one. -/
def upToRanges (upTo : Token Value) : Except Error CharClass := do
  if ← upTo.isPresent then
    let high ← (← (← (← upTo.only (.only .sequence)).item 1).payload).codePoint
    return [CodeRange.mk 0 high]
  else return []

/-- The first part of a class. -/
structure IsUpTo (t : Token Value) (r : Except ParseError CharClass) : Prop where
  finds : Finds heard upToRanges t ((told r).map .ok)
  proper : ∀ ranges, r = .ok ranges → ∀ range ∈ ranges, range.IsProper

/-- An item of a class. Its range can be backwards, which is found out after all items have been
    read. -/
structure IsItem (t : Token Value) (r : Except ParseError (Except ParseError CodeRange)) :
    Prop where
  finds : Finds heard itemRange t ((told r).map told)
  proper : ∀ range, r = .ok (.ok range) → range.IsProper

/-- An expression. -/
def IsExpr (t : Token Value) (e : Expr (Except ParseError Literal)) : Prop :=
  Computes heard Token.payload t fun d =>
    (e.build d).map fun (ref, d) => (.ok (.symbol ref), d)

/-- An alternative behind a bar. -/
structure IsAlternative (t : Token Value) (e : Expr (Except ParseError Literal)) : Prop where
  sort_eq : t.sort = .node .sequence
  computes : Computes heard (fun t => do (← t.item 1).payload) t fun d =>
    (e.build d).map fun (ref, d) => (.ok (.symbol ref), d)

/-- A rule. -/
def IsRule (t : Token Value) (r : RuleText) : Prop :=
  Computes heard Token.payload t fun d =>
    (r.build d).map fun (ref, d) => (.ok (.symbol ref), d)

/-- A whole grammar text. -/
def IsGrammar (t : Token Value) (rs : List RuleText) : Prop :=
  Computes heard Token.payload t fun d => do
    let d ← buildRules rs d
    let found ← d.finish
    return (.ok (.rules found.rules), d)

/-! ### Listeners and trees -/

theorem listeners_entries : listeners.entries = List.map
    (fun entry => (entry.1, Listener.ofStep entry.2)) [
      ("escape", escape), ("char", char), ("range_char", char), ("switch", switch),
      ("character", character), ("text", text), ("atom", atom), ("multiple", multiple),
      ("option", option), ("star", star), ("sequence", sequence), ("junction", junction),
      ("rule", rule), ("start", start)] := rfl

/-- The listeners do nothing but compute a payload. -/
theorem heard_keepsTrees : KeepsTrees heard := by
  intro name listener hlistener visit value visit' hrun
  obtain ⟨step, rfl⟩ : ∃ step : Step, listener = .ofStep step := by
    cases name with
    | generated serial => cases hlistener
    | given key =>
      obtain ⟨before, after, hentries, -⟩ := List.lookup_eq_some_iff.mp hlistener
      have hmem : (key, listener) ∈ listeners.entries := by
        show (key, listener) ∈ grammar.listeners.entries
        rw [hentries]
        simp
      rw [listeners_entries] at hmem
      obtain ⟨entry, -, heq⟩ := List.mem_map.mp hmem
      exact ⟨entry.2, (Prod.ext_iff.mp heq).2.symm⟩
  unfold Listener.ofStep at hrun
  split at hrun
  · cases hrun
    rfl
  · cases hrun

theorem finds_quiet {t : Token Value} (h : Quiet heard t) :
    Finds heard (fun _ => ()) t (.ok ()) :=
  h.finds heard_keepsTrees

theorem quiet_over {kind : Kind} {name : Name} {ordinal : Nat} {t : Token Value}
    (hname : heard name = none) (h : Quiet heard t) : Quiet heard (.over kind name ordinal t) :=
  .node hname (List.forall_mem_singleton.mpr h)

/-- A token that covers another one, once payloads have been assigned. -/
theorem eq_over_of_bare {kind : Kind} {name : Name} {ordinal : Nat} {t t' : Token Value}
    (h : t'.bare = (Token.over kind name ordinal t).bare) :
    ∃ u payload, u.bare = t.bare ∧
      t' = .node ⟨kind, name, t.substring, t.start, ordinal⟩ [u] payload := by
  obtain ⟨children, payload, rfl, hchildren⟩ := Token.eq_node_of_bare h
  obtain ⟨u, rfl, hu⟩ := Token.eq_one_of_bare hchildren
  exact ⟨u, payload, hu, rfl⟩

/-- What is under a token that covers another one and that nobody listens to. -/
theorem finds_over {β : Type} {read : Token Value → β} {kind : Kind} {name : Name} {ordinal : Nat}
    {t : Token Value} {r : Except Error β} (h : Finds heard read t r) (hname : heard name = none) :
    Finds heard (fun t => read (t.children.headD default)) (.over kind name ordinal t) r := by
  have hall := (FindsAll.cons h .nil).unlistened
    ⟨kind, name, t.substring, t.start, ordinal⟩ hname
  refine (hall.mapRead Prod.fst fun _ _ => rfl).congr ?_
  cases r <;> rfl

/-! ### Characters -/

/-- What an escaped letter stands for, as a character. -/
def letter : Char → Char
  | 't' => '\t'
  | 'n' => '\n'
  | 'r' => '\r'
  | c => c

theorem escapedLetter_singleton (c : Char) :
    escapedLetter (.singleton c) = .singleton (letter c) := by
  have hsingleton : ∀ d, String.singleton c = .singleton d → c = d := by
    intro d h
    have hlists := congrArg String.toList h
    rw [String.toList_singleton, String.toList_singleton] at hlists
    exact List.singleton_inj.mp hlists
  by_cases ht : c = 't'
  · subst ht
    rfl
  by_cases hn : c = 'n'
  · subst hn
    rfl
  by_cases hr : c = 'r'
  · subst hr
    rfl
  unfold escapedLetter letter
  split
  · rename_i h
    exact absurd (hsingleton 't' h) ht
  · rename_i h
    exact absurd (hsingleton 'n' h) hn
  · rename_i h
    exact absurd (hsingleton 'r' h) hr
  · split
    · exact absurd rfl ht
    · exact absurd rfl hn
    · exact absurd rfl hr
    · rfl

section Chars

variable {substring : String} {start : Int} {b : Token Value}

theorem isChar_letter {l : Token Value} {serial : Nat} {c : Char} (hb : Quiet heard b)
    (hl : Quiet heard l) (hc : l.substring = .singleton c) :
    IsChar (.node ⟨.sequence, .given "escape", substring, start, 0⟩
      [b, .over .junction (.generated serial) 0 l] none) (.ok (letter c)) := by
  have ho : Quiet heard (.over .junction (.generated serial) 0 l) := quiet_over rfl hl
  have hall := FindsAll.cons (finds_quiet hb) (.cons (finds_quiet ho) .nil)
  have hstep : ∀ ts' d, ts'.map Token.bare = [b, .over .junction (.generated serial) 0 l].map
      Token.bare → escape (.node ⟨.sequence, .given "escape", substring, start, 0⟩ ts' none) d =
        .ok (.text (.singleton (letter c)), d) := by
    intro ts' d hbares
    obtain ⟨b', o', rfl, hb', ho'⟩ := Token.eq_two_of_bare hbares
    obtain ⟨l', payload, hl', rfl⟩ := eq_over_of_bare ho'
    rw [← escapedLetter_singleton, ← hc, ← Token.substring_bare, ← hl', Token.substring_bare]
    cases l' <;> rfl
  exact (hall.listened (f := fun _ d => .ok (.text (.singleton (letter c)), d)) hstep rfl).congr
    fun d => rfl

theorem isOctal_iff (c : Char) : isOctal c = true ↔ 48 ≤ c.toNat ∧ c.toNat ≤ 55 := by
  simp only [isOctal, Bool.and_eq_true, decide_eq_true_eq, Char.le_def, UInt32.le_iff_toNat_le]
  rfl

/-- What is summed up digit by digit is the number in base eight. -/
theorem octalValue_eq (cs : List Char) :
    octalValue cs = Nat.ofDigits 8 (cs.reverse.map fun c => c.toNat - '0'.toNat) := by
  rw [octalValue, List.foldl_eq_foldr_reverse]
  induction cs.reverse with
  | nil => rfl
  | cons c cs ih =>
    rw [List.foldr_cons, ih, List.map_cons, Nat.ofDigits_cons, Nat.mul_comm, Nat.add_comm]

theorem octalValue_lt {digits : List Char} (hlength : digits.length = 4)
    (hoctal : digits.all isOctal = true) : octalValue digits < 4096 := by
  match digits, hlength with
  | [a, b, c, d], _ =>
    simp only [List.all_cons, List.all_nil, Bool.and_eq_true, Bool.and_true, isOctal_iff] at hoctal
    simp only [octalValue, List.foldl_cons, List.foldl_nil]
    have hzero : '0'.toNat = 48 := rfl
    omega

/-- An escape by its digits. -/
theorem escape_octal {t which number : Token Value} {first : Char} {digits : List Char}
    (hwhich : t.childAt 1 (.only .junction) = .ok which) (hordinal : which.ordinal = 1)
    (hnumber : which.only (.only .sequence) = .ok number)
    (hdigits : number.substring.toList = first :: digits) (hlength : digits.length = 4)
    (d : Draft) :
    escape t d = if digits.all isOctal then
        .ok (.text (.singleton (Char.ofNat (octalValue digits))), d)
      else .error (.parse (t.error "Malformed escape value")) := by
  have hne : digits.isEmpty = false := by
    cases digits with
    | nil => cases hlength
    | cons => rfl
  simp only [escape, hwhich, hordinal, hnumber, hdigits, hne, bind, Except.bind, pure, Except.pure,
    throw, throwThe, MonadExceptOf.throw, List.drop_one, List.tail_cons,
    ← List.not_all_eq_any_not, Nat.one_ne_zero, Bool.false_eq_true, if_false]
  cases hoctal : digits.all isOctal with
  | false => rfl
  | true =>
    have hlt := octalValue_lt hlength hoctal
    have hvalid : (octalValue digits).isValidChar := .inl (by omega)
    simp [hvalid]

/-- An error keeps its position where it is to get the same one. -/
theorem anchor_self (e : ParseError) : e.anchor e.position = e := by
  unfold ParseError.anchor
  split <;> rfl

/-- Four digits after a letter. Unless all of them are octal, the escape is refused. -/
theorem isChar_number {u : Token Value} {serial : Nat} {first : Char} {digits : List Char}
    (hb : Quiet heard b) (hu : Quiet heard u) (hsort : u.sort = .node .sequence)
    (hdigits : u.substring.toList = first :: digits) (hlength : digits.length = 4) :
    IsChar (.node ⟨.sequence, .given "escape", substring, start, 0⟩
        [b, .over .junction (.generated serial) 1 u] none)
      (if digits.all isOctal then .ok (Char.ofNat (octalValue digits))
      else .error (Token.error (α := Value)
        (.node ⟨.sequence, .given "escape", substring, start, 0⟩ [] none)
        "Malformed escape value")) := by
  have ho : Quiet heard (.over .junction (.generated serial) 1 u) := quiet_over rfl hu
  have hall := FindsAll.cons (finds_quiet hb) (.cons (finds_quiet ho) .nil)
  let header : Header := ⟨.sequence, .given "escape", substring, start, 0⟩
  let e := Token.error (α := Value) (.node header [] none) "Malformed escape value"
  let result (d : Draft) : Except Error (Value × Draft) :=
    if digits.all isOctal then .ok (.text (.singleton (Char.ofNat (octalValue digits))), d)
    else .error (.parse e)
  have hstep : ∀ ts' d, ts'.map Token.bare = [b, .over .junction (.generated serial) 1 u].map
      Token.bare → escape (.node header ts' none) d = result d := by
    intro ts' d hbares
    obtain ⟨b', o', rfl, hb', ho'⟩ := Token.eq_two_of_bare hbares
    obtain ⟨u', payload, hu', rfl⟩ := eq_over_of_bare ho'
    have hnumber : Token.only (.node ⟨.junction, .generated serial, u.substring, u.start, 1⟩ [u']
        payload) (.only .sequence) = .ok u' := by
      rw [← Token.sort_bare, ← hu', Token.sort_bare] at hsort
      exact Token.only_eq_ok rfl (by rw [hsort]; rfl)
    rw [← Token.substring_bare, ← hu', Token.substring_bare] at hdigits
    exact escape_octal rfl rfl hnumber hdigits hlength d
  have hanchor : e.anchor start = e := anchor_self e
  refine (hall.listened (f := fun _ => result) hstep rfl).congr fun d => ?_
  cases hoctal : digits.all isOctal with
  | true =>
    simp [heeded, result, hoctal]
    rfl
  | false =>
    simp only [heeded, result, hoctal, Bool.false_eq_true, if_false, Error.anchor, header, hanchor]
    rfl

/-- Unless the digits are octal, they are an error. -/
theorem isChar_octal {u : Token Value} {serial : Nat} {first : Char} {digits : List Char}
    (hb : Quiet heard b) (hu : Quiet heard u) (hsort : u.sort = .node .sequence)
    (hdigits : u.substring.toList = first :: digits) (hlength : digits.length = 4) :
    ∃ e, IsChar (.node ⟨.sequence, .given "escape", substring, start, 0⟩
        [b, .over .junction (.generated serial) 1 u] none)
      (if digits.all isOctal then .ok (Char.ofNat (octalValue digits)) else .error e) :=
  ⟨_, isChar_number hb hu hsort hdigits hlength⟩

/-- Characters stand on their own, or are escaped: so it is outside classes and inside. -/
theorem isChar_escaped {name : Name} {t : Token Value} {r : Except ParseError Char}
    (h : IsChar t r) (hname : heard name = some (.ofStep char)) :
    IsChar (.over .junction name 0 t) r := by
  have hall := FindsAll.cons h .nil
  have hstep : ∀ ts' d, ts'.map Token.bare = [t].map Token.bare →
      char (.node ⟨.junction, name, t.substring, t.start, 0⟩ ts' none) d =
        (ts'.headD default).payload.map fun value => (value, d) := by
    intro ts' d hbares
    obtain ⟨t', rfl, ht'⟩ := Token.eq_one_of_bare hbares
    have honly : Token.only (.node ⟨.junction, name, t.substring, t.start, 0⟩ [t'] none) .any =
        .ok t' :=
      Token.only_eq_ok rfl (TokenClass.admits_any _)
    simp only [char, Token.ordinal, if_true, honly, bind, Except.bind, List.headD_cons]
    cases t'.payload <;> rfl
  refine (hall.listened (f := fun found d => found.1.map fun value => (value, d)) hstep
    hname).congr fun d => ?_
  cases r <;> rfl

theorem isChar_raw {name : Name} {t : Token Value} {c : Char} (h : Quiet heard t)
    (hname : heard name = some (.ofStep char)) (hc : t.substring = .singleton c) :
    IsChar (.over .junction name 1 t) (.ok c) := by
  have hall := FindsAll.cons (finds_quiet h) .nil
  have hstep : ∀ ts' d, ts'.map Token.bare = [t].map Token.bare →
      char (.node ⟨.junction, name, t.substring, t.start, 1⟩ ts' none) d =
        .ok (.text (.singleton c), d) := by
    intro ts' d _
    rw [← hc]
    rfl
  exact (hall.listened (f := fun _ d => .ok (.text (.singleton c), d)) hstep hname).congr
    fun d => rfl

end Chars

/-! ### Classes -/

theorem toNat_le (c : Char) : c.toNat ≤ maxCodePoint := by
  have hvalid : c.toNat < 0xD800 ∨ 0xDFFF < c.toNat ∧ c.toNat < 0x110000 := c.valid
  unfold maxCodePoint
  omega

theorem codePoint_singleton (c : Char) : (Value.text (.singleton c)).codePoint = .ok c.toNat := by
  rw [Value.codePoint, Value.codes, String.toList_singleton]
  rfl

section Classes

variable {substring : String} {start : Int} {serial serial' : Nat} {b c c₁ c₂ : Token Value}
  {r r₁ r₂ : Except ParseError Char}

theorem isUpTo_none : IsUpTo (.leaf .option (.generated serial) "" start 0) (.ok []) := by
  have hquiet : Quiet heard (.leaf .option (.generated serial) "" start 0) :=
    .node rfl (by simp)
  refine ⟨((finds_quiet hquiet).mapRead (fun _ => .ok []) ?_).congr rfl, ?_⟩
  · intro t' ht'
    obtain ⟨children, payload, rfl, hchildren⟩ := Token.eq_node_of_bare ht'
    obtain rfl := Token.eq_nil_of_bare hchildren
    rfl
  · rintro ranges ⟨⟩
    simp

theorem isUpTo_some (hb : Quiet heard b) (h : IsChar c r) :
    IsUpTo (.over .option (.generated serial)
        0 (.node ⟨.sequence, .generated serial', substring, start, 0⟩ [b, c] none))
      (r.map fun c => [⟨0, c.toNat⟩]) := by
  have hinner := (FindsAll.cons (finds_quiet hb) (.cons h .nil)).unlistened
    ⟨.sequence, .generated serial', substring, start, 0⟩ rfl
  refine ⟨((finds_over hinner rfl).mapRead (fun found => do
    return [CodeRange.mk 0 (← (← found.2.1).codePoint)]) ?_).congr ?_, ?_⟩
  · intro t' ht'
    obtain ⟨u, payload, hu, rfl⟩ := eq_over_of_bare ht'
    obtain ⟨children, payload', rfl, hchildren⟩ := Token.eq_node_of_bare hu
    obtain ⟨b', c', rfl, -, -⟩ := Token.eq_two_of_bare hchildren
    rcases c' with _ | ⟨_, _, _ | _⟩ <;> rfl
  · cases r with
    | error e => rfl
    | ok c =>
      simp [Except.map, Except.mapError, codePoint_singleton, bind, Except.bind, pure, Except.pure]
  · intro ranges hranges
    obtain ⟨c, -, rfl⟩ := of_map_ok hranges
    exact List.forall_mem_singleton.mpr ⟨Nat.zero_le _, toNat_le c⟩

/-- A range from one character to another that is no error is the right way round. -/
theorem of_span_ok {e : ParseError} {range : CodeRange}
    (h : (do
      let low ← r₁
      let high ← r₂
      return if low.toNat > high.toNat then .error e else .ok ⟨low.toNat, high.toNat⟩) =
        (.ok (.ok range) : Except ParseError (Except ParseError CodeRange))) :
    ∃ low high, r₁ = .ok low ∧ r₂ = .ok high ∧ low.toNat ≤ high.toNat ∧
      range = ⟨low.toNat, high.toNat⟩ := by
  obtain ⟨low, hlow, h⟩ := of_bind_ok h
  obtain ⟨high, hhigh, h⟩ := of_bind_ok h
  have hrange : (if low.toNat > high.toNat then Except.error e
      else Except.ok ⟨low.toNat, high.toNat⟩) = .ok range := Except.ok.inj h
  split at hrange
  · cases hrange
  · rename_i hle
    exact ⟨low, high, hlow, hhigh, Nat.not_lt.mp hle, (Except.ok.inj hrange).symm⟩

/-- A range from one character to another. If it is backwards, the item is refused, which is found
    out after all items have been read. -/
theorem isItem_range (h₁ : IsChar c₁ r₁) (hb : Quiet heard b) (h₂ : IsChar c₂ r₂) :
    IsItem (.over .junction (.generated serial) 0
        (.node ⟨.sequence, .generated serial', substring, start, 0⟩ [c₁, b, c₂] none))
      (do
        let low ← r₁
        let high ← r₂
        return if low.toNat > high.toNat then
            .error (Token.error (α := Value)
              (.node ⟨.junction, .generated serial, substring, start, 0⟩ [] none)
              "Character range is backwards")
          else .ok ⟨low.toNat, high.toNat⟩) := by
  have hinner := (FindsAll.cons h₁ (.cons (finds_quiet hb) (.cons h₂ .nil))).unlistened
    ⟨.sequence, .generated serial', substring, start, 0⟩ rfl
  let e := Token.error (α := Value)
    (.node ⟨.junction, .generated serial, substring, start, 0⟩ [] none)
    "Character range is backwards"
  refine ⟨((finds_over hinner rfl).mapRead (fun found => do
    let low ← (← found.1).codePoint
    let high ← (← found.2.2.1).codePoint
    if low > high then throw (.parse e)
    return CodeRange.mk low high) ?_).congr ?_, ?_⟩
  · intro t' ht'
    obtain ⟨u, payload, hu, rfl⟩ := eq_over_of_bare ht'
    obtain ⟨children, payload', rfl, hchildren⟩ := Token.eq_node_of_bare hu
    obtain ⟨c₁', b', c₂', rfl, -, -, -⟩ := Token.eq_three_of_bare hchildren
    rcases c₁' with _ | ⟨_, _, _ | _⟩ <;> rcases c₂' with _ | ⟨_, _, _ | _⟩ <;> rfl
  · cases r₁ with
    | error e => rfl
    | ok low =>
      cases r₂ with
      | error e => rfl
      | ok high =>
        simp only [Except.map, Except.mapError, codePoint_singleton, bind, Except.bind, pure,
          Except.pure]
        split <;> rfl
  · intro range hrange
    obtain ⟨low, high, -, -, hle, rfl⟩ := of_span_ok hrange
    exact ⟨hle, toNat_le high⟩

theorem isItem_span (h₁ : IsChar c₁ r₁) (hb : Quiet heard b) (h₂ : IsChar c₂ r₂) :
    ∃ e, IsItem (.over .junction (.generated serial) 0
        (.node ⟨.sequence, .generated serial', substring, start, 0⟩ [c₁, b, c₂] none))
      (do
        let low ← r₁
        let high ← r₂
        return if low.toNat > high.toNat then .error e else .ok ⟨low.toNat, high.toNat⟩) :=
  ⟨_, isItem_range h₁ hb h₂⟩

theorem isItem_onward (h : IsChar c r) (hb : Quiet heard b) :
    IsItem (.over .junction (.generated serial) 1
        (.node ⟨.sequence, .generated serial', substring, start, 0⟩ [c, b] none))
      (r.map fun c => .ok ⟨c.toNat, maxCodePoint⟩) := by
  have hinner := (FindsAll.cons h (.cons (finds_quiet hb) .nil)).unlistened
    ⟨.sequence, .generated serial', substring, start, 0⟩ rfl
  refine ⟨((finds_over hinner rfl).mapRead (fun found => do
    return CodeRange.mk (← (← found.1).codePoint) maxCodePoint) ?_).congr ?_, ?_⟩
  · intro t' ht'
    obtain ⟨u, payload, hu, rfl⟩ := eq_over_of_bare ht'
    obtain ⟨children, payload', rfl, hchildren⟩ := Token.eq_node_of_bare hu
    obtain ⟨c', b', rfl, -, -⟩ := Token.eq_two_of_bare hchildren
    rcases c' with _ | ⟨_, _, _ | _⟩ <;> rfl
  · cases r with
    | error e => rfl
    | ok c =>
      simp [Except.map, Except.mapError, codePoint_singleton, bind, Except.bind, pure, Except.pure]
  · intro range hrange
    obtain ⟨c, -, heq⟩ := of_map_ok hrange
    cases heq
    exact ⟨toNat_le c, Nat.le_refl _⟩

theorem isItem_lone (h : IsChar c r) :
    IsItem (.over .junction (.generated serial) 2 c) (r.map fun c => .ok ⟨c.toNat, c.toNat⟩) := by
  refine ⟨((finds_over h rfl).mapRead (fun found => do
    let code ← (← found).codePoint
    return CodeRange.mk code code) ?_).congr ?_, ?_⟩
  · intro t' ht'
    obtain ⟨c', payload, -, rfl⟩ := eq_over_of_bare ht'
    rcases c' with _ | ⟨_, _, _ | _⟩ <;> rfl
  · cases r with
    | error e => rfl
    | ok c =>
      simp [Except.map, Except.mapError, codePoint_singleton, bind, Except.bind, pure, Except.pure]
  · intro range hrange
    obtain ⟨c, -, heq⟩ := of_map_ok hrange
    cases heq
    exact ⟨Nat.le_refl _, toNat_le c⟩

/-- The class of some ranges, where each may be an error instead. -/
def classOfRanges (rs : List (Except Error CodeRange)) : Except Error CharClass := do
  let bounds ← rs.foldlM (fun bounds r => do bounds.push (← r)) Bounds.empty
  bounds.toClass

/-- Proper ranges pass the checks of a class, which add no errors of their own. -/
theorem classOfRanges_eq {rs : List (Except Error CodeRange)}
    (h : ∀ range, .ok range ∈ rs → range.IsProper) : classOfRanges rs = rs.mapM id := by
  -- The induction is on the ranges that are left, where others have been added before.
  suffices hadded : ∀ {b : Bounds} {ranges : CharClass}, b.Hold ranges →
      (do
        let bounds ← rs.foldlM (fun bounds r => do bounds.push (← r)) b
        bounds.toClass) = (rs.mapM id).map (ranges ++ ·) by
    rw [classOfRanges, hadded Bounds.empty_hold]
    exact congrFun Except.map_id _
  induction rs with
  | nil =>
    intro b ranges hb
    rw [List.foldlM_nil, pure_bind, hb.toClass, List.mapM_nil]
    exact congrArg Except.ok (List.append_nil ranges).symm
  | cons r rs ih =>
    intro b ranges hb
    rw [List.foldlM_cons, List.mapM_cons]
    cases r with
    | error e => rfl
    | ok range =>
      obtain ⟨b', hpush, hb'⟩ := hb.push (h range List.mem_cons_self)
      have hlater := ih (fun range hmem => h range (List.mem_cons_of_mem _ hmem)) hb'
      rw [ok_bind, hpush, ok_bind, hlater]
      cases rs.mapM id with
      | error e => rfl
      | ok ranges' => exact congrArg Except.ok (List.append_assoc ranges [range] ranges')

end Classes

/-! ### Literals -/

/-- All children of a repetition, where they are of the class that is asked for. -/
theorem allOf_eq_ok {t : Token Value} (expected : TokenClass) (ht : t.isOf .repeated = true)
    (h : ∀ child ∈ t.children, expected.admits child.sort = true) :
    t.allOf expected = .ok t.children := by
  have hall : ∀ (index : Nat) (children : List (Token Value)),
      (∀ child ∈ children, expected.admits child.sort = true) →
      (children.zipIdx index).mapM (fun (found, index) => t.expect index expected found) =
        .ok children := by
    intro index children h
    induction children generalizing index with
    | nil => rfl
    | cons child children ih =>
      rw [List.forall_mem_cons] at h
      rw [List.zipIdx_cons, List.mapM_cons, ih (index + 1) h.2]
      simp only [Token.expect, h.1, if_true]
      rfl
  rw [Token.allOf, if_pos ht]
  exact hall 0 t.children h

theorem mapM_ok {ε β : Type} (bs : List β) :
    (bs.map (Except.ok : β → Except ε β)).mapM id = .ok bs :=
  mapM_eq_ok (List.map_id_fun' .. ▸ rfl)

theorem of_mapM_ok {β : Type} {rs : List (Except ParseError β)} {bs : List β}
    (h : rs.mapM id = .ok bs) : rs = bs.map .ok := by
  induction rs generalizing bs with
  | nil =>
    cases h
    rfl
  | cons r rs ih =>
    rw [List.mapM_cons] at h
    obtain ⟨b, hfirst, hlater⟩ := of_bind_ok h
    obtain ⟨bs', hrest, hlast⟩ := of_bind_ok hlater
    obtain rfl : b :: bs' = bs := Except.ok.inj hlast
    rw [ih hrest, List.map_cons, ← hfirst]
    rfl

/-- Results one after the other, where each one may be an error in the input. -/
theorem mapM_told {β γ : Type} (f : β → γ) (rs : List (Except ParseError β)) :
    (rs.map fun r => (told r).map f).mapM id = (told (rs.mapM id)).map (List.map f) := by
  induction rs with
  | nil => rfl
  | cons r rs ih =>
    rw [List.map_cons, List.mapM_cons, ih, List.mapM_cons]
    cases r with
    | error e => rfl
    | ok b => cases rs.mapM id <;> rfl

section Literals

variable {substring : String} {start : Int} {b b' c : Token Value}

theorem isExpr_any {l : Token Value} (hl : Quiet heard l) :
    IsExpr (.over .junction (.given "switch") 0 l) (.literal (.ok .any)) := by
  have hall := FindsAll.cons (finds_quiet hl) .nil
  have hstep : ∀ ts' d, ts'.map Token.bare = [l].map Token.bare →
      switch (.node ⟨.junction, .given "switch", l.substring, l.start, 0⟩ ts' none) d =
        .ok (d.addPart .anyCharacter) := fun _ _ _ => rfl
  exact (hall.listened (f := fun _ d => .ok (d.addPart .anyCharacter)) hstep rfl).congr
    fun d => rfl

/-- What a class says: the range of its first part, if it has one, and those of its items. -/
def classOf (start : Int) (upTo : Except ParseError CharClass)
    (items : List (Except ParseError (Except ParseError CodeRange))) :
    Except ParseError Literal := do
  let first ← upTo
  let items ← items.mapM id
  let ranges ← (items.mapM id).mapError (·.anchor start)
  return .oneOf (first ++ ranges)

/-- A class by its parts. -/
theorem switch_class {t body upTo star : Token Value} {items : List (Token Value)}
    (hordinal : t.ordinal = 1) (hbody : t.only (.only .sequence) = .ok body)
    (hupTo : body.childAt 1 (.only .option) = .ok upTo)
    (hstar : body.childAt 2 (.only .star) = .ok star)
    (hitems : star.allOf (.only .junction) = .ok items) (d : Draft) :
    switch t d = do
      let first ← upToRanges upTo
      return d.addPart (.switch (← classOfRanges (first.map pure ++ items.map itemRange))) := by
  simp only [switch, hordinal, hbody, hupTo, hstar, hitems, ok_bind, upToRanges, classOfRanges,
    bind_assoc, pure_bind, Nat.one_ne_zero, if_false]
  congr 1
  funext present
  cases present <;> simp only [Bool.false_eq_true, if_true, if_false, bind_assoc, pure_bind,
    List.map_nil, List.map_cons, List.nil_append, List.cons_append, List.foldlM_cons,
    List.foldlM_map]

theorem forall_right {β γ : Type} {R : β → γ → Prop} {Q : γ → Prop} {bs : List β} {cs : List γ}
    (h : List.Forall₂ R bs cs) (hR : ∀ b c, R b c → Q c) : ∀ c ∈ cs, Q c := by
  induction h with
  | nil => simp
  | cons first _ ih => exact List.forall_mem_cons.mpr ⟨hR _ _ first, ih⟩

/-- The parts of a class pass its checks. -/
theorem classOfRanges_parts {upTo : Token Value} {ts : List (Token Value)} {first : CharClass}
    {items : List (Except ParseError CodeRange)} (hupTo : IsUpTo upTo (.ok first))
    (hitems : List.Forall₂ IsItem ts (items.map .ok)) :
    classOfRanges (first.map pure ++ items.map told) =
      told ((items.mapM id).map (first ++ ·)) := by
  have hitem : ∀ r ∈ items.map Except.ok, ∀ range, r = .ok (.ok range) → range.IsProper :=
    forall_right hitems fun _ _ hitem => hitem.proper
  have hproper : ∀ range, .ok range ∈ first.map pure ++ items.map told → range.IsProper := by
    intro range hmem
    rcases List.mem_append.mp hmem with hmem | hmem
    · obtain ⟨range', hmem', heq⟩ := List.mem_map.mp hmem
      cases heq
      exact hupTo.proper first rfl range hmem'
    · obtain ⟨r, hr, heq⟩ := List.mem_map.mp hmem
      cases r with
      | error e => cases heq
      | ok range' =>
        cases heq
        exact hitem _ (List.mem_map_of_mem hr) range rfl
  have hranges : (items.map told).mapM id = told (items.mapM id) := by
    simpa [Except.map_id] using mapM_told id items
  have hfirst : (first.map pure).mapM id = (.ok first : Except Error CharClass) := mapM_ok first
  rw [classOfRanges_eq hproper, List.mapM_append, hfirst, hranges]
  cases items.mapM id <;> rfl

theorem isExpr_class {upTo : Token Value} {items : List (Token Value)} {serial serial' : Nat}
    {substring' : String} {start' : Int} {r : Except ParseError CharClass}
    {rs : List (Except ParseError (Except ParseError CodeRange))} (hb : Quiet heard b)
    (hupTo : IsUpTo upTo r) (hsort : upTo.sort = .node .option)
    (hitems : List.Forall₂ IsItem items rs) (hsorts : ∀ item ∈ items, item.sort = .node .junction)
    (hb' : Quiet heard b') :
    IsExpr (.over .junction (.given "switch") 1 (.node ⟨.sequence, .generated serial, substring,
        start, 0⟩ [b, upTo, .node ⟨.star, .generated serial', substring', start', 0⟩ items none, b']
        none))
      (.literal (classOf start r rs)) := by
  have hfinds := hitems.imp fun _ _ hitem => hitem.finds
  have hstar := (FindsAll.ofForall (List.forall₂_map_right_iff.mpr hfinds)).unlistened
    ⟨.star, .generated serial', substring', start', 0⟩ rfl
  have hbody := (FindsAll.cons (finds_quiet hb)
    (.cons hupTo.finds (.cons hstar (.cons (finds_quiet hb') .nil)))).unlistened
    ⟨.sequence, .generated serial, substring, start, 0⟩ rfl
  have hall := FindsAll.cons hbody .nil
  let f (found : (Unit × Except Error CharClass × List (Except Error CodeRange) × Unit × Unit) ×
      Unit) (d : Draft) : Except Error (Value × Draft) := do
    let first ← found.1.2.1
    return d.addPart (.switch (← classOfRanges (first.map pure ++ found.1.2.2.1)))
  refine Computes.congr (hall.listened (f := f) ?_ rfl) fun d => ?_
  · intro ts' d hbares
    obtain ⟨body', rfl, hbody'⟩ := Token.eq_one_of_bare hbares
    obtain ⟨children, payload, rfl, hchildren⟩ := Token.eq_node_of_bare hbody'
    obtain ⟨b₁, upTo', star', b₂, rfl, -, hupTo', hstar', -⟩ := Token.eq_four_of_bare hchildren
    obtain ⟨items', payload', rfl, hitems'⟩ := Token.eq_node_of_bare hstar'
    have hsort' : TokenClass.admits (.only .option) upTo'.sort = true := by
      rw [← Token.sort_bare, hupTo', Token.sort_bare, hsort]
      rfl
    have hupTo : Token.childAt (.node ⟨.sequence, .generated serial, substring, start, 0⟩ [b₁, upTo',
        .node ⟨.star, .generated serial', substring', start', 0⟩ items' payload', b₂] payload) 1
        (.only .option) = .ok upTo' := by
      show Token.expect _ 1 _ upTo' = _
      rw [Token.expect, if_pos hsort']
    have hitems := allOf_eq_ok (.only .junction)
      (t := .node ⟨.star, .generated serial', substring', start', 0⟩ items' payload') rfl
      fun item hmem => by rw [Token.sort_of_bares hitems' hsorts item hmem]; rfl
    show switch (.node ⟨.junction, .given "switch", substring, start, 1⟩ [_] none) d = _
    exact switch_class rfl rfl hupTo rfl hitems d
  · rw [mapM_told, classOf]
    cases r with
    | error e => rfl
    | ok first =>
      cases hrs : rs.mapM id with
      | error e => rfl
      | ok found =>
        obtain rfl := of_mapM_ok hrs
        have hclass := classOfRanges_parts hupTo hitems
        simp only [heeded, f, bind, Except.bind, Except.map, Except.mapError, pure, Except.pure]
          at hclass ⊢
        rw [hclass]
        cases found.mapM id <;> rfl

theorem isExpr_character {r : Except ParseError Char} (hb : Quiet heard b) (h : IsChar c r)
    (hb' : Quiet heard b') :
    IsExpr (.node ⟨.sequence, .given "character", substring, start, 0⟩ [b, c, b'] none)
      (.literal (r.map .single)) := by
  have hall := FindsAll.cons (finds_quiet hb) (.cons h (.cons (finds_quiet hb') .nil))
  let f (found : Unit × Except Error Value × Unit × Unit) (d : Draft) :
      Except Error (Value × Draft) := do
    let literal ← found.2.1
    return d.addPart (← literal.asCharacter d.graph)
  refine Computes.congr (hall.listened (f := f) ?_ rfl) fun d => ?_
  · intro ts' d hbares
    obtain ⟨b₁, c', b₂, rfl, -, -, -⟩ := Token.eq_three_of_bare hbares
    rcases c' with _ | ⟨_, _, _ | _⟩ <;> rfl
  · cases r with
    | error e => rfl
    | ok c =>
      have hshape : Value.asCharacter d.graph (.text (.singleton c)) = .ok (.character c) := by
        show Shape.characterOf (.singleton c) = _
        rw [Shape.characterOf, String.toList_singleton]
      simp only [heeded, f, bind, Except.bind, Except.map, Except.mapError, pure, Except.pure,
        hshape]
      rfl

/-- The characters of a text, by their code points. -/
theorem textShape_chars (cs : List Char) : textShape (cs.map Char.toNat) =
    .text (String.ofList cs) := by
  have hvalid : (cs.map Char.toNat).all Nat.isValidChar = true := by
    simp only [List.all_eq_true, List.mem_map, decide_eq_true_eq]
    rintro _ ⟨c, -, rfl⟩
    exact c.valid
  have hchars : (cs.map Char.toNat).map Char.ofNat = cs := by
    rw [List.map_map]
    exact List.map_id'' Char.ofNat_toNat cs
  rw [textShape, if_pos hvalid, hchars]

theorem isExpr_text {cs : List (Token Value)} {rs : List (Except ParseError Char)} {serial : Nat}
    {substring' : String} {start' : Int} (hb : Quiet heard b) (h : List.Forall₂ IsChar cs rs)
    (hb' : Quiet heard b') :
    IsExpr (.node ⟨.sequence, .given "text", substring, start, 0⟩
        [b, .node ⟨.multiple, .generated serial, substring', start', 0⟩ cs none, b'] none)
      (.literal ((rs.mapM id).map .several)) := by
  have hchars := (FindsAll.ofForall (List.forall₂_map_right_iff.mpr h)).unlistened
    ⟨.multiple, .generated serial, substring', start', 0⟩ rfl
  have hall := FindsAll.cons (finds_quiet hb) (.cons hchars (.cons (finds_quiet hb') .nil))
  let f (found : Unit × List (Except Error Value) × Unit × Unit) (d : Draft) :
      Except Error (Value × Draft) := do
    let codes ← (← found.2.1.mapM id).mapM Value.codes
    return d.addPart (textShape codes.flatten)
  refine Computes.congr (hall.listened (f := f) ?_ rfl) fun d => ?_
  · intro ts' d hbares
    obtain ⟨b₁, m, b₂, rfl, -, hm, -⟩ := Token.eq_three_of_bare hbares
    obtain ⟨cs', payload, rfl, -⟩ := Token.eq_node_of_bare hm
    show text (.node ⟨.sequence, .given "text", substring, start, 0⟩ _ none) d = _
    have hpayloads : (cs'.map Token.payload).mapM id = cs'.mapM Token.payload := by
      rw [List.mapM_map, Function.id_comp]
    simp only [f, Token.children_node, List.headD_cons, List.tail_cons, hpayloads]
    rfl
  · rw [mapM_told]
    cases rs.mapM id with
    | error e => rfl
    | ok cs =>
      have hvalues : (cs.map fun c => Except.ok (ε := Error) (Value.text (.singleton c))).mapM id =
          .ok (cs.map fun c => .text (.singleton c)) :=
        mapM_eq_ok (by rw [List.map_map, List.map_map]; rfl)
      have hcodes : (cs.map fun c => Value.text (.singleton c)).mapM Value.codes =
          .ok (cs.map fun c => [c.toNat]) := by
        refine mapM_eq_ok ?_
        rw [List.map_map, List.map_map]
        refine List.map_congr_left fun c _ => ?_
        simp [Value.codes]
      have hflatten : (cs.map fun c => [c.toNat]).flatten = cs.map Char.toNat := by
        rw [← List.flatMap_def, ← List.map_eq_flatMap]
      simp only [heeded, f, bind, Except.bind, Except.map, Except.mapError, pure, Except.pure,
        hvalues, hcodes, hflatten, textShape_chars]
      rfl

end Literals

/-! ### Expressions -/

section Expressions

variable {substring substring' : String} {start start' : Int} {serial ordinal : Nat} {name : Name}
  {b b' c : Token Value} {e : Expr (Except ParseError Literal)}

/-- A token that nobody listens to stands for the expression under it. -/
theorem isExpr_over (h : IsExpr c e) (hname : heard name = none) :
    IsExpr (.over .junction name ordinal c) e :=
  Computes.wrapped h rfl hname

theorem isExpr_literal (h : IsExpr c e) : IsExpr (.over .junction (.given "atom") 2 c) e := by
  have hall := ComputesAll.cons h .nil
  let f (found : Except Error Value × Unit) (d : Draft) : Except Error (Value × Draft) := do
    return (← found.1, d)
  refine Computes.congr (hall.listened (f := f) ?_ rfl) fun d => ?_
  · intro ts' d hbares
    obtain ⟨c', rfl, -⟩ := Token.eq_one_of_bare hbares
    rcases c' with _ | ⟨_, _, _ | _⟩ <;> rfl
  · simp only [heeded, andThen, Except.map, bind, Except.bind]
    cases e.build d <;> rfl

theorem isExpr_reference {id : Token Value} (h : Quiet heard id) :
    IsExpr (.over .junction (.given "atom") 1 id) (.reference id.substring) := by
  have hall := FindsAll.cons (finds_quiet h) .nil
  let f (_ : Unit × Unit) (d : Draft) : Except Error (Value × Draft) :=
    .ok (.symbol (d.reference id.substring).1, (d.reference id.substring).2)
  refine Computes.congr (hall.listened (f := f) ?_ rfl) fun d => rfl
  intro ts' d hbares
  obtain ⟨id', rfl, hid'⟩ := Token.eq_one_of_bare hbares
  have hsubstring : id.substring = id'.substring := by
    rw [← Token.substring_bare, ← hid', Token.substring_bare]
  simp only [f, hsubstring]
  cases id' <;> rfl

theorem isExpr_group (hb : Quiet heard b) (h : IsExpr c e) (hb' : Quiet heard b') :
    IsExpr (.over .junction (.given "atom") 0 (.node ⟨.sequence, .generated serial, substring,
      start, 0⟩ [b, c, b'] none)) e := by
  have hinner := (ComputesAll.cons (finds_quiet hb)
    (.cons h (.cons (finds_quiet hb') .nil))).unlistened
    ⟨.sequence, .generated serial, substring, start, 0⟩ rfl
  have hall := ComputesAll.cons hinner .nil
  let f (found : (Unit × Except Error Value × Unit × Unit) × Unit) (d : Draft) :
      Except Error (Value × Draft) := do
    return (← found.1.2.1, d)
  refine Computes.congr (hall.listened (f := f) ?_ rfl) fun d => ?_
  · intro ts' d hbares
    obtain ⟨u, rfl, hu⟩ := Token.eq_one_of_bare hbares
    obtain ⟨children, payload, rfl, hchildren⟩ := Token.eq_node_of_bare hu
    obtain ⟨b₁, c', b₂, rfl, -, -, -⟩ := Token.eq_three_of_bare hchildren
    rcases c' with _ | ⟨_, _, _ | _⟩ <;> rfl
  · simp only [heeded, andThen, Except.map, bind, Except.bind]
    cases e.build d <;> rfl

/-! ### Repetitions, sequences and choices -/

/-- The listeners of the three repetitions do the same with what is repeated. -/
theorem isExpr_repeated {step : Step} (count : Count)
    (hstep : ∀ t d, step t d = do
      let inner ← (← t.item 0).payload
      return (.symbol (d.addRepeated inner.asPart count).1,
        (d.addRepeated inner.asPart count).2))
    (hname : heard name = some (.ofStep step)) (h : IsExpr c e) (hb : Quiet heard b) :
    IsExpr (.node ⟨.sequence, name, substring, start, 0⟩ [c, b] none) (.repeated count e) := by
  have hall := ComputesAll.cons h (.cons (finds_quiet hb) .nil)
  let f (found : Except Error Value × Unit × Unit) (d : Draft) :
      Except Error (Value × Draft) := do
    let inner ← found.1
    return (.symbol (d.addRepeated inner.asPart count).1, (d.addRepeated inner.asPart count).2)
  refine Computes.congr (hall.listened (f := f) ?_ hname) fun d => ?_
  · intro ts' d hbares
    obtain ⟨c', b'', rfl, -, -⟩ := Token.eq_two_of_bare hbares
    rw [hstep]
    cases c' <;> rfl
  · simp only [heeded, andThen, Except.map, bind, Except.bind, Expr.build]
    cases e.build d <;> rfl

theorem multiple_eq (t : Token Value) (d : Draft) : multiple t d = do
    let inner ← (← t.item 0).payload
    return (.symbol (d.addRepeated inner.asPart .oneOrMore).1,
      (d.addRepeated inner.asPart .oneOrMore).2) := rfl

theorem option_eq (t : Token Value) (d : Draft) : option t d = do
    let inner ← (← t.item 0).payload
    return (.symbol (d.addRepeated inner.asPart .optional).1,
      (d.addRepeated inner.asPart .optional).2) := rfl

theorem star_eq (t : Token Value) (d : Draft) : star t d = do
    let inner ← (← t.item 0).payload
    return (.symbol (d.addRepeated inner.asPart .noneOrMore).1,
      (d.addRepeated inner.asPart .noneOrMore).2) := rfl

/-- Expressions one after the other. -/
theorem inTurn_build (es : List (Expr (Except ParseError Literal))) (d : Draft) :
    inTurn (es.map fun e d => (e.build d).map fun (ref, d) =>
        (Except.ok (ε := Error) (Value.symbol ref), d)) d =
      (Expr.buildAll es d).map fun (refs, d) => (refs.map fun ref => .ok (.symbol ref), d) := by
  induction es generalizing d with
  | nil => rfl
  | cons e es ih =>
    rw [List.map_cons, inTurn, andThen, Expr.buildAll]
    cases hbuild : e.build d with
    | error e => rfl
    | ok found =>
      have ih := ih found.2
      simp only [bind, Except.bind, Except.map] at ih ⊢
      rw [ih]
      cases Expr.buildAll es found.2 <;> rfl

theorem length_buildAll {es : List (Expr (Except ParseError Literal))} {d d' : Draft}
    {refs : List Ref} (h : Expr.buildAll es d = .ok (refs, d')) : refs.length = es.length := by
  induction es generalizing d refs with
  | nil =>
    cases h
    rfl
  | cons e es ih =>
    rw [Expr.buildAll] at h
    cases hbuild : e.build d with
    | error e =>
      rw [hbuild] at h
      cases h
    | ok found =>
      rw [hbuild] at h
      cases hall : Expr.buildAll es found.2 with
      | error e =>
        simp only [bind, Except.bind, hall] at h
        cases h
      | ok found' =>
        simp only [bind, Except.bind, hall] at h
        cases h
        rw [List.length_cons, List.length_cons, ih hall]

/-- The values of some symbols. -/
theorem mapM_symbols (refs : List Ref) :
    (refs.map fun ref => Except.ok (ε := Error) (Value.symbol ref)).mapM id =
      .ok (refs.map .symbol) :=
  mapM_eq_ok (by rw [List.map_map, List.map_map]; rfl)

theorem map_asPart (refs : List Ref) : (refs.map Value.symbol).map Value.asPart = refs := by
  rw [List.map_map]
  exact List.map_id'' (fun _ => rfl) refs

/-- What the listener of sequences makes of the payloads of the parts. -/
def inOne (found : List (Except Error Value)) (d : Draft) : Except Error (Value × Draft) := do
  match ← found.mapM id with
  | [member] => return (member, d)
  | values => return d.addPart (← Shape.sequenceOf (values.map Value.asPart))

theorem isExpr_sequence {cs : List (Token Value)} {es : List (Expr (Except ParseError Literal))}
    (h : List.Forall₂ IsExpr cs es) (hne : cs ≠ []) :
    IsExpr (.node ⟨.multiple, .given "sequence", substring, start, 0⟩ cs none)
      (.inSequence es) := by
  have hall := ComputesAll.ofForall (List.forall₂_map_right_iff.mpr h)
  refine Computes.congr (hall.listened (f := inOne) ?_ rfl) fun d => ?_
  · intro ts' d _
    show sequence (.node ⟨.multiple, .given "sequence", substring, start, 0⟩ ts' none) d = _
    have hpayloads : (ts'.map Token.payload).mapM id = ts'.mapM Token.payload := by
      rw [List.mapM_map, Function.id_comp]
    simp only [inOne, hpayloads]
    rfl
  · rw [heeded, inTurn_build]
    rcases es with _ | ⟨e, _ | ⟨e', es⟩⟩
    · cases h
      exact absurd rfl hne
    · simp only [Expr.inSequence, Expr.buildAll, bind, Except.bind]
      cases e.build d <;> rfl
    · show ((Expr.sequence (e :: e' :: es)).build d).map _ = _
      rw [Expr.build]
      cases hbuild : Expr.buildAll (e :: e' :: es) d with
      | error e => rfl
      | ok found =>
        obtain ⟨refs, d'⟩ := found
        have hlength := length_buildAll hbuild
        rcases refs with _ | ⟨r, _ | ⟨r', refs⟩⟩
        · cases hlength
        · cases hlength
        · have hparts := map_asPart (r :: r' :: refs)
          simp only [inOne, bind, Except.bind, Except.map, mapM_symbols]
          simp only [List.map_cons] at hparts ⊢
          rw [hparts]
          rfl

theorem isAlternative (hb : Quiet heard b) (h : IsExpr c e) :
    IsAlternative (.node ⟨.sequence, .generated serial, substring, start, 0⟩ [b, c] none) e := by
  have hinner := (ComputesAll.cons (finds_quiet hb) (.cons h .nil)).unlistened
    ⟨.sequence, .generated serial, substring, start, 0⟩ rfl
  refine ⟨rfl, (hinner.mapRead (fun found => found.2.1) ?_).congr fun d => ?_⟩
  · intro t' ht'
    obtain ⟨children, payload, rfl, hchildren⟩ := Token.eq_node_of_bare ht'
    obtain ⟨b', c', rfl, -, -⟩ := Token.eq_two_of_bare hchildren
    cases c' <;> rfl
  · simp only [andThen, Except.map, bind, Except.bind]
    cases e.build d <;> rfl

/-- A choice by its parts. -/
theorem junction_parts {t c m : Token Value} {alternatives : List (Token Value)}
    (hfirst : t.item 0 = .ok c) (hrest : t.childAt 1 (.only .multiple) = .ok m)
    (hall : m.allOf (.only .sequence) = .ok alternatives) (d : Draft) :
    junction t d = do
      let first ← c.payload
      let rest ← (alternatives.map fun t => do (← t.item 1).payload).mapM id
      return d.addPart (← Shape.junctionOf ((first :: rest).map Value.asPart)) := by
  rw [List.mapM_map, Function.id_comp]
  simp only [junction, hfirst, hrest, hall, ok_bind]

theorem isExpr_junction {c : Token Value} {e : Expr (Except ParseError Literal)}
    {alternatives : List (Token Value)} {es : List (Expr (Except ParseError Literal))}
    (h : IsExpr c e) (halternatives : List.Forall₂ IsAlternative alternatives es) :
    IsExpr (.node ⟨.sequence, .given "junction", substring, start, 0⟩
        [c, .node ⟨.multiple, .generated serial, substring', start', 0⟩ alternatives none] none)
      (.choice (e :: es)) := by
  obtain ⟨hsorts, hcomputes⟩ := (List.forall₂_and_left _ _).mp
    (halternatives.imp fun _ _ h => ⟨h.sort_eq, h.computes⟩)
  have hrest := (ComputesAll.ofForall (List.forall₂_map_right_iff.mpr hcomputes)).unlistened
    ⟨.multiple, .generated serial, substring', start', 0⟩ rfl
  have hall := ComputesAll.cons h (.cons hrest .nil)
  let f (found : Except Error Value × List (Except Error Value) × Unit) (d : Draft) :
      Except Error (Value × Draft) := do
    let first ← found.1
    let rest ← found.2.1.mapM id
    return d.addPart (← Shape.junctionOf ((first :: rest).map Value.asPart))
  refine Computes.congr (hall.listened (f := f) ?_ rfl) fun d => ?_
  · intro ts' d hbares
    obtain ⟨c', m, rfl, -, hm⟩ := Token.eq_two_of_bare hbares
    obtain ⟨alternatives', payload, rfl, hbares'⟩ := Token.eq_node_of_bare hm
    have hall := allOf_eq_ok (.only .sequence)
      (t := .node ⟨.multiple, .generated serial, substring', start', 0⟩ alternatives' payload) rfl
      fun alternative hmem => by rw [Token.sort_of_bares hbares' hsorts alternative hmem]; rfl
    have hfirst : Token.item (.node ⟨.sequence, .given "junction", substring, start, 0⟩ [c',
        .node ⟨.multiple, .generated serial, substring', start', 0⟩ alternatives' payload] none) 0 =
        .ok c' := by
      cases c' <;> rfl
    show junction (.node ⟨.sequence, .given "junction", substring, start, 0⟩ _ none) d = _
    exact junction_parts hfirst rfl hall d
  · simp only [heeded, andThen, inTurn_build]
    simp only [bind, Except.bind, Except.map, Expr.build, Expr.buildAll]
    cases hbuild : e.build d with
    | error e => rfl
    | ok found =>
      simp only
      cases hall : Expr.buildAll es found.2 with
      | error e => rfl
      | ok found' =>
        simp only [f, bind, Except.bind, pure, Except.pure, mapM_symbols, List.map_cons,
          map_asPart]
        rfl

end Expressions

/-! ### Rules -/

/-- What an error at a token is when it leaves the listener of the token: the position is there. -/
theorem anchor_refusal (r : RuleText) (message : String) :
    (r.refusal message).anchor r.start = r.refusal message :=
  congrArg Error.parse (anchor_self _)

/-- Defining a rule does not fail with an error in the input. -/
theorem anchor_define (d : Draft) (name : String) (ref : Ref) (position : Int) :
    (d.define name ref).mapError (·.anchor position) = d.define name ref := by
  have hresolve : ∀ (g : Graph) (ref target : Ref) (e : Error),
      g.resolve ref target = .error e → e.anchor position = e := by
    intro g ref target e h
    unfold Graph.resolve at h
    split at h
    · cases h
      rfl
    · cases h
      rfl
    · simp only at h
      split at h
      · rename_i reference _
        cases reference <;> cases h
        rfl
      · cases h
        rfl
  rw [Draft.define_eq]
  cases d.pending.get? name with
  | none => rfl
  | some standIn =>
    simp only
    cases hrun : Graph.resolve _ standIn _ with
    | ok graph => rfl
    | error e =>
      show Except.error (e.anchor position) = Except.error e
      rw [hresolve _ _ _ _ hrun]

section Rules

variable {substring : String} {start : Int} {id colon body semicolon : Token Value}
  {e : Expr (Except ParseError Literal)}

/-- What the listener of rules makes of the payload of the body. -/
def asRule (r : RuleText) (found : Unit × Unit × Except Error Value × Unit × Unit) (d : Draft) :
    Except Error (Value × Draft) := do
  let body ← found.2.2.1
  if d.rules.contains r.name then
    throw (r.refusal ("Rule '" ++ r.name ++ "' is defined more than once"))
  match body with
  | .symbol ref =>
    if !(d.graph.symbol ref).name.isAnonymous then
      throw (r.refusal "Delegation to another named symbol is forbidden")
    let (ref, d) ← d.define r.name ref
    return (.symbol ref, d)
  | _ => throw .noAttribute

theorem isRule (hid : Quiet heard id) (hcolon : Quiet heard colon) (h : IsExpr body e)
    (hsemicolon : Quiet heard semicolon) :
    IsRule (.node ⟨.sequence, .given "rule", substring, start, 0⟩ [id, colon, body, semicolon] none)
      { name := id.substring, body := e, source := substring, start } := by
  have hall := ComputesAll.cons (finds_quiet hid) (.cons (finds_quiet hcolon)
    (.cons h (.cons (finds_quiet hsemicolon) .nil)))
  let r : RuleText := { name := id.substring, body := e, source := substring, start }
  refine Computes.congr (hall.listened (f := asRule r) ?_ rfl) fun d => ?_
  · intro ts' d hbares
    obtain ⟨id', colon', body', semicolon', rfl, hid', -, -, -⟩ := Token.eq_four_of_bare hbares
    have hname : id.substring = id'.substring := by
      rw [← Token.substring_bare, ← hid', Token.substring_bare]
    simp only [asRule, r, hname]
    cases id' <;> rcases body' with _ | ⟨_, _, _ | _⟩ <;> rfl
  · simp only [heeded, andThen, Except.map, bind, Except.bind, RuleText.build]
    cases hbuild : e.build d with
    | error e => rfl
    | ok found =>
      obtain ⟨ref, d'⟩ := found
      have hrefusal := anchor_refusal r
      have hdefine := anchor_define d' id.substring ref start
      simp only [asRule, r, bind, Except.bind, pure, Except.pure, throw, throwThe,
        MonadExceptOf.throw] at hrefusal hdefine ⊢
      by_cases hdefined : d'.rules.contains id.substring = true
      · simp only [hdefined, if_true, hrefusal]
      · simp only [hdefined, Bool.false_eq_true, if_false]
        cases (d'.graph.symbol ref).name.isAnonymous with
        | false => simp only [Bool.not_false, if_true, hrefusal]
        | true =>
          simp only [Bool.not_true, Bool.false_eq_true, if_false]
          cases hrun : d'.define id.substring ref with
          | ok found => rfl
          | error e =>
            rw [hrun] at hdefine
            exact congrArg Except.error (Except.error.inj hdefine).symm

/-- Rules one after the other. -/
theorem inTurn_rules (rs : List RuleText) (d : Draft) :
    (inTurn (rs.map fun r d => (r.build d).map fun (ref, d) =>
        (Except.ok (ε := Error) (Value.symbol ref), d)) d).map Prod.snd = buildRules rs d := by
  induction rs generalizing d with
  | nil => rfl
  | cons r rs ih =>
    rw [List.map_cons, inTurn, andThen, buildRules]
    cases hbuild : r.build d with
    | error e => rfl
    | ok found =>
      have ih := ih found.2
      simp only [bind, Except.bind, Except.map] at ih ⊢
      rw [← ih]
      cases inTurn _ found.2 <;> rfl

theorem isGrammar {rules : List (Token Value)} {rs : List RuleText}
    (h : List.Forall₂ IsRule rules rs) :
    IsGrammar (.node ⟨.multiple, .given "start", substring, start, 0⟩ rules none) rs := by
  have hall := ComputesAll.ofForall (List.forall₂_map_right_iff.mpr h)
  let f (_ : List (Except Error Value)) (d : Draft) : Except Error (Value × Draft) := do
    let found ← d.finish
    return (.rules found.rules, d)
  refine Computes.congr (hall.listened (f := f) ?_ rfl) fun d => ?_
  · intro ts' d _
    simp only [f, Draft.finish]
    cases hmissing : d.pending.keys.isEmpty <;>
      simp only [Notation.start, hmissing, Bool.not_true, Bool.not_false, Bool.false_eq_true,
        if_true, if_false] <;> rfl
  · rw [← inTurn_rules]
    unfold heeded
    cases inTurn _ d with
    | error e => rfl
    | ok found =>
      simp only [Except.map, bind, Except.bind, f, Draft.finish]
      cases found.2.pending.keys.isEmpty <;> rfl

end Rules

end GrammarEngine.Notation
