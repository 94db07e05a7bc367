import GrammarEngine.Proofs.Verdicts
import GrammarEngine.Proofs.Walking

namespace GrammarEngine

/-!
# Trees that are alike

The name of a nameless symbol is a number that is never shown. Trees are alike if they differ in
such numbers only. A listener that does not look at them comes to the same with both.

* `Name.masked`, `Token.masked`, `Error.masked` — all but the numbers;
* `Listener.IsBlind`, `AreBlind` — listeners that do not look at the numbers;
* `Token.walk_alike` — walking trees that are alike;
* `Outcome.Agrees`, `Grammar.settle_agrees` — what comes of verdicts that are alike.
-/

variable {σ α β γ ρ : Type}

/-! ### Names and errors -/

/-- The name, with no number if it is generated. -/
def Name.masked : Name → Name
  | .given text => .given text
  | .generated _ => .generated 0

theorem Name.text_masked (name : Name) : name.masked.text = name.text := by
  cases name <;> rfl

theorem Name.isLexical_of_masked {name name' : Name} (h : name.masked = name'.masked) :
    name.isLexical = name'.isLexical := by
  cases name <;> cases name' <;> cases h <;> rfl

/-- The mismatch, with the name of the token masked. -/
def Mismatch.masked : Mismatch → Mismatch
  | .wrongToken name found expected => .wrongToken name.masked found expected
  | .noChild name count index => .noChild name.masked count index
  | .wrongChild name index found expected => .wrongChild name.masked index found expected

-- The name is put in its place, since to compare the whole wordings takes long.
theorem Mismatch.message_masked (e : Mismatch) : e.masked.message = e.message := by
  cases e with
  | wrongToken name found expected =>
    show _ ++ name.masked.text ++ _ = _ ++ name.text ++ _
    rw [name.text_masked]
  | noChild name count index =>
    show _ ++ name.masked.text ++ _ ++ _ ++ _ ++ _ = _ ++ name.text ++ _ ++ _ ++ _ ++ _
    rw [name.text_masked]
  | wrongChild name index found expected =>
    show _ ++ name.masked.text ++ _ ++ _ = _ ++ name.text ++ _ ++ _
    rw [name.text_masked]

/-- The error, with the name in it masked. -/
def Error.masked : Error → Error
  | .mismatch e => .mismatch e.masked
  | .configuration (.neverDefined name) => .configuration (.neverDefined name.masked)
  | e => e

namespace Error

/-- Masking cannot be told from the wording. -/
theorem message?_masked (e : Error) : e.masked.message? = e.message? := by
  cases e with
  | mismatch e => exact congrArg some e.message_masked
  | configuration e =>
    cases e with
    | neverDefined name =>
      exact congrArg (fun text => some ("'" ++ text ++ "' was referenced but never defined"))
        name.text_masked
    | _ => rfl
  | _ => rfl

/-- The position of a token has nothing to do with names. -/
theorem masked_anchor (e : Error) (position : Int) :
    (e.anchor position).masked = e.masked.anchor position := by
  cases e with
  | configuration e => cases e <;> rfl
  | _ => rfl

theorem masked_placed (e : Error) (text : Array Char) (start : Int) :
    (e.placed text start).masked = e.masked.placed text start := by
  cases e with
  | configuration e => cases e <;> rfl
  | _ => rfl

end Error

/-! ### Trees -/

namespace Token

mutual

/-- The tree, with all names in it masked. -/
def masked : Token α → Token α
  | .sentinel which => .sentinel which
  | .node header children payload =>
    .node { header with name := header.name.masked } (maskedAll children) payload

/-- Some trees, with all names in them masked. -/
def maskedAll : List (Token α) → List (Token α)
  | [] => []
  | t :: rest => masked t :: maskedAll rest

end

theorem maskedAll_eq_map (ts : List (Token α)) : maskedAll ts = ts.map masked := by
  induction ts with
  | nil => rfl
  | cons t ts ih => rw [maskedAll, ih, List.map_cons]

variable {t t' : Token α} {ts ts' : List (Token α)}

/-- What a tree is that is alike to another one. -/
theorem eq_node_of_masked {header : Header} {children : List (Token α)} {payload : Option α}
    (h : t.masked = (Token.node header children payload).masked) :
    ∃ name children', t = .node { header with name := name } children' payload ∧
      name.masked = header.name.masked ∧ children'.map masked = children.map masked := by
  cases t with
  | sentinel which => cases h
  | node header' children' payload' =>
    simp only [masked, maskedAll_eq_map, Token.node.injEq] at h
    obtain ⟨hheader, hchildren, rfl⟩ := h
    cases header
    cases header'
    obtain ⟨rfl, hname, rfl, rfl, rfl⟩ := Header.mk.inj hheader
    exact ⟨_, children', rfl, hname, hchildren⟩

theorem eq_sentinel_of_masked {which : Sentinel}
    (h : t.masked = (Token.sentinel which : Token α).masked) : t = .sentinel which := by
  cases t with
  | sentinel which' => exact h
  | node header children payload => cases h

theorem name_of_masked (h : t.masked = t'.masked) : t.name.masked = t'.name.masked := by
  cases t' with
  | sentinel which =>
    rw [eq_sentinel_of_masked h]
  | node header children payload =>
    obtain ⟨name, children', rfl, hname, -⟩ := eq_node_of_masked h
    exact hname

/-- All that can be read off a tree without looking at names. -/
theorem reads_of_masked (h : t.masked = t'.masked) :
    t.sort = t'.sort ∧ t.substring = t'.substring ∧ t.start = t'.start ∧
      t.ordinal = t'.ordinal ∧ t.children.map masked = t'.children.map masked := by
  cases t' with
  | sentinel which =>
    rw [eq_sentinel_of_masked h]
    exact ⟨rfl, rfl, rfl, rfl, rfl⟩
  | node header children payload =>
    obtain ⟨name, children', rfl, -, hchildren⟩ := eq_node_of_masked h
    exact ⟨rfl, rfl, rfl, rfl, hchildren⟩

theorem isEmpty_of_masked (h : t.masked = t'.masked) : t.isEmpty = t'.isEmpty := by
  rw [isEmpty, isEmpty, (reads_of_masked h).2.1]

theorem masked_cover {name name' : Name} (kind : Kind) (ordinal : Nat)
    (hname : name.masked = name'.masked) (h : t.masked = t'.masked)
    (hchildren : ts.map masked = ts'.map masked) :
    masked (.node ⟨kind, name, t.substring, t.start, ordinal⟩ ts none) =
      masked (.node ⟨kind, name', t'.substring, t'.start, ordinal⟩ ts' none) := by
  obtain ⟨-, hsubstring, hstart, -⟩ := reads_of_masked h
  simp only [masked, maskedAll_eq_map, hname, hsubstring, hstart, hchildren]

theorem masked_spanning {name name' : Name} (kind : Kind) (text : List Char) (start stop : Nat)
    (hname : name.masked = name'.masked) (hchildren : ts.map masked = ts'.map masked) :
    (Token.spanning kind name text start stop ts).masked =
      (Token.spanning kind name' text start stop ts').masked := by
  simp only [spanning, masked, maskedAll_eq_map, hname, hchildren]

theorem masked_leaf {name name' : Name} (kind : Kind) (substring : String) (start : Int)
    (ordinal : Nat) (hname : name.masked = name'.masked) :
    (Token.leaf (α := α) kind name substring start ordinal).masked =
      (Token.leaf kind name' substring start ordinal).masked := by
  simp only [leaf, masked, hname]

section Payloads

variable [PayloadType α]

theorem payload_of_masked (h : t.masked = t'.masked) : t.payload = t'.payload := by
  cases t' with
  | sentinel which => rw [eq_sentinel_of_masked h]
  | node header children payload =>
    obtain ⟨name, children', rfl, -, -⟩ := eq_node_of_masked h
    rfl

theorem mapM_payload_of_masked (h : ts.map masked = ts'.map masked) :
    ts.mapM payload = ts'.mapM payload := by
  induction ts generalizing ts' with
  | nil =>
    obtain rfl := List.map_eq_nil_iff.mp h.symm
    rfl
  | cons t ts ih =>
    obtain ⟨t', ts', rfl, ht, hts⟩ := List.map_eq_cons_iff.mp h.symm
    rw [List.mapM_cons, List.mapM_cons, ih hts.symm, payload_of_masked ht.symm]

theorem defaultPayload_of_masked (h : t.masked = t'.masked) :
    t.defaultPayload = t'.defaultPayload := by
  cases t' with
  | sentinel which => rw [eq_sentinel_of_masked h]
  | node header children payload =>
    obtain ⟨name, children', rfl, -, hchildren⟩ := eq_node_of_masked h
    have hall := mapM_payload_of_masked hchildren
    cases children with
    | nil =>
      obtain rfl := List.map_eq_nil_iff.mp hchildren
      rfl
    | cons child rest =>
      obtain ⟨child', rest', rfl, hchild, -⟩ := List.map_eq_cons_iff.mp hchildren
      simp only [defaultPayload, hall, payload_of_masked hchild]

end Payloads

end Token

/-! ### Walking -/

/-- Both runs end in the same way, with what is left of them related. -/
def EndAlike (rel : ρ → ρ → Prop) : (run run' : EStateM.Result Error ρ β) → Prop
  | .ok b s, .ok b' s' => b = b' ∧ rel s s'
  | .error e s, .error e' s' => e.masked = e'.masked ∧ rel s s'
  | _, _ => False

theorem EndAlike.cases {rel : ρ → ρ → Prop} {run run' : EStateM.Result Error ρ β}
    (h : EndAlike rel run run') :
    (∃ b s s', run = .ok b s ∧ run' = .ok b s' ∧ rel s s') ∨
      ∃ e e' s s', run = .error e s ∧ run' = .error e' s' ∧ e.masked = e'.masked ∧ rel s s' := by
  unfold EndAlike at h
  split at h
  · obtain ⟨rfl, hrel⟩ := h
    exact .inl ⟨_, _, _, rfl, rfl, hrel⟩
  · exact .inr ⟨_, _, _, _, rfl, rfl, h⟩
  · exact h.elim

/-- The trees at hand are alike, and the state is the same. -/
structure Visit.Alike (v v' : Visit σ α) : Prop where
  token : v.token.masked = v'.token.masked
  state : v.state = v'.state

/-- The listener does not look at the numbers of nameless symbols. -/
def Listener.IsBlind (listener : Listener σ α) : Prop :=
  ∀ v v', v.Alike v' → EndAlike Visit.Alike (listener v) (listener v')

/-- The listeners are those of names that are shown, and do not look at other ones. -/
structure AreBlind (listeners : Name → Option (Listener σ α)) : Prop where
  unnumbered : ∀ name name', name.masked = name'.masked → listeners name = listeners name'
  blind : ∀ name listener, listeners name = some listener → listener.IsBlind

namespace Token

variable [PayloadType α] {listeners : Name → Option (Listener σ α)} {t t' : Token α}
  {ts ts' : List (Token α)} {v v' : Visit σ α}

theorem evaluate_alike (hblind : AreBlind listeners) (h : v.Alike v') :
    EndAlike Visit.Alike (evaluate listeners v) (evaluate listeners v') := by
  have hname := hblind.unnumbered _ _ (name_of_masked h.token)
  unfold evaluate
  rw [← hname, ← (reads_of_masked h.token).2.2.1]
  cases hlistener : listeners v.token.name with
  | some listener =>
    rcases (hblind.blind _ _ hlistener v v' h).cases with
      ⟨value, u, u', hrun, hrun', hu⟩ | ⟨e, e', u, u', hrun, hrun', he, hu⟩
    · simp only [hrun, hrun']
      exact ⟨rfl, hu⟩
    · simp only [hrun, hrun']
      exact ⟨by rw [Error.masked_anchor, Error.masked_anchor, he], hu⟩
  | none =>
    simp only [defaultPayload_of_masked h.token]
    cases v'.token.defaultPayload with
    | ok value => exact ⟨rfl, h⟩
    | error e => exact ⟨rfl, h⟩

omit [PayloadType α] in
theorem store_alike (value : α) (h : v.Alike v') :
    EndAlike Visit.Alike (store value v) (store value v') := by
  obtain ⟨token, state⟩ := v
  obtain ⟨token', state'⟩ := v'
  obtain ⟨htoken, rfl⟩ := h
  cases token' with
  | sentinel which =>
    obtain rfl := eq_sentinel_of_masked htoken
    exact ⟨rfl, rfl, rfl⟩
  | node header children payload =>
    obtain ⟨name, children', rfl, hname, hchildren⟩ := eq_node_of_masked htoken
    cases payload with
    | some old => exact ⟨rfl, htoken, rfl⟩
    | none =>
      refine ⟨rfl, ?_, rfl⟩
      show masked (.node _ children' (some value)) = masked (.node header children (some value))
      simp only [masked, maskedAll_eq_map, hname, hchildren]

mutual

/-- Walking trees that are alike comes to the same. -/
theorem walk_alike (hblind : AreBlind listeners) (t t' : Token α) (h : t.masked = t'.masked)
    (state : σ) : EndAlike Visit.Alike (t.walk listeners state) (t'.walk listeners state) := by
  match t with
  | .sentinel which =>
    obtain rfl := eq_sentinel_of_masked h.symm
    exact ⟨rfl, rfl, rfl⟩
  | .node header children payload =>
    obtain ⟨name, children', rfl, hname, hchildren⟩ := eq_node_of_masked h.symm
    unfold walk
    rcases (walkAll_alike hblind children children' hchildren.symm state).cases with
      ⟨_, ⟨us, s⟩, ⟨us', s'⟩, hrun, hrun', hus, rfl⟩ |
        ⟨e, e', ⟨us, s⟩, ⟨us', s'⟩, hrun, hrun', he, hus, rfl⟩
    all_goals
      simp only [hrun, hrun']
      have halike : Visit.Alike ⟨.node header us payload, s⟩
          ⟨.node { header with name := name } us' payload, s⟩ := by
        refine ⟨?_, rfl⟩
        simp only [masked, maskedAll_eq_map, hname, hus]
    · rcases (evaluate_alike hblind halike).cases with
        ⟨value, u, u', hrun, hrun', hu⟩ | ⟨e, e', u, u', hrun, hrun', he, hu⟩
      · simp only [hrun, hrun']
        exact store_alike value hu
      · simp only [hrun, hrun']
        exact ⟨he, hu⟩
    · exact ⟨he, halike⟩

theorem walkAll_alike (hblind : AreBlind listeners) (ts ts' : List (Token α))
    (h : ts.map masked = ts'.map masked) (state : σ) :
    EndAlike (fun s s' => s.1.map masked = s'.1.map masked ∧ s.2 = s'.2)
      (walkAll listeners ts state) (walkAll listeners ts' state) := by
  match ts with
  | [] =>
    obtain rfl := List.map_eq_nil_iff.mp h.symm
    exact ⟨rfl, rfl, rfl⟩
  | t :: rest =>
    obtain ⟨t', rest', rfl, ht, hrest⟩ := List.map_eq_cons_iff.mp h.symm
    unfold walkAll
    rcases (walk_alike hblind t t' ht.symm state).cases with
      ⟨_, ⟨u, s⟩, ⟨u', s'⟩, hrun, hrun', hu, rfl⟩ |
        ⟨e, e', ⟨u, s⟩, ⟨u', s'⟩, hrun, hrun', he, hu, rfl⟩
    · simp only [hrun, hrun']
      rcases (walkAll_alike hblind rest rest' hrest.symm s).cases with
        ⟨_, ⟨us, s⟩, ⟨us', s'⟩, hrun, hrun', hus, rfl⟩ |
          ⟨e, e', ⟨us, s⟩, ⟨us', s'⟩, hrun, hrun', he, hus, rfl⟩
      · simp only [hrun, hrun']
        exact ⟨rfl, by rw [List.map_cons, List.map_cons, hu, hus], rfl⟩
      · simp only [hrun, hrun']
        exact ⟨he, by rw [List.map_cons, List.map_cons, hu, hus], rfl⟩
    · simp only [hrun, hrun']
      exact ⟨he, by rw [List.map_cons, List.map_cons, hu, hrest], rfl⟩

end

end Token

/-! ### What comes of a parse -/

/-- The verdict, with all names in the tree masked. -/
def Verdict.masked : Verdict α → Verdict α
  | .accepted root => .accepted root.masked
  | .refused complaint position => .refused complaint position

/-- Both parses come to results that agree on what is read of them, or to the same error but for the
    number in a name, and leave the same state. -/
structure Outcome.Agrees (read : α → β) (o o' : Outcome σ α) : Prop where
  result : (o.result.map read).mapError Error.masked = (o'.result.map read).mapError Error.masked
  state : o.state = o'.state

/-- Whatever is made of trees without looking at the numbers is the same, or the same error. -/
theorem Outcome.Agrees.bind_result {o o' : Outcome σ (Token α)} {f : Token α → Except Error β}
    (h : o.Agrees Token.masked o') (hf : ∀ t t', t.masked = t'.masked → f t = f t') :
    (o.result >>= f).mapError Error.masked = (o'.result >>= f).mapError Error.masked := by
  obtain ⟨hresult, -⟩ := h
  obtain ⟨result, state, events⟩ := o
  obtain ⟨result', state', events'⟩ := o'
  cases result with
  | error e =>
    cases result' with
    | error e' => exact congrArg Except.error (Except.error.inj hresult)
    | ok t' => cases hresult
  | ok t =>
    cases result' with
    | error e' => cases hresult
    | ok t' => exact congrArg (Except.mapError _) (hf t t' (Except.ok.inj hresult))

namespace Grammar

variable {gr gr' : Grammar σ α} {verdict verdict' : Verdict α}

/-- The listeners of a grammar go by names that are shown. -/
theorem areBlind (h : ∀ name listener, gr.listeners.get? name = some listener → listener.IsBlind) :
    AreBlind gr.listenerFor where
  unnumbered name name' hname := by
    cases name <;> cases name' <;> cases hname <;> rfl
  blind name listener hlistener := by
    cases name with
    | given text => exact h text listener hlistener
    | generated serial => cases hlistener

/-- Verdicts that are alike come to the same, if the listeners do not look at the difference. -/
theorem settle_agrees [PayloadType α] (hlisteners : gr'.listenerFor = gr.listenerFor)
    (hblind : AreBlind gr.listenerFor) (h : verdict.masked = verdict'.masked) (text : String)
    (state : σ) :
    ((gr.settle text state verdict).1.map Token.masked).mapError Error.masked =
        ((gr'.settle text state verdict').1.map Token.masked).mapError Error.masked ∧
      (gr.settle text state verdict).2 = (gr'.settle text state verdict').2 := by
  cases verdict with
  | refused complaint position =>
    cases verdict' with
    | refused complaint' position' =>
      cases h
      exact ⟨rfl, rfl⟩
    | accepted root' => cases h
  | accepted root =>
    cases verdict' with
    | refused complaint' position' => cases h
    | accepted root' =>
      have hroot : root.masked = root'.masked := Verdict.accepted.inj h
      unfold settle
      rw [hlisteners]
      rcases (Token.walk_alike hblind root root' hroot state).cases with
        ⟨_, v, v', hrun, hrun', hv⟩ | ⟨e, e', v, v', hrun, hrun', he, hv⟩
      · simp only [hrun, hrun', Except.map, Except.mapError, hv.token, hv.state]
        exact ⟨trivial, trivial⟩
      · simp only [hrun, hrun', Except.map, Except.mapError, hv.state, Error.masked_placed, he,
          (Token.reads_of_masked hroot).2.2.1]
        exact ⟨trivial, trivial⟩

end Grammar

end GrammarEngine
