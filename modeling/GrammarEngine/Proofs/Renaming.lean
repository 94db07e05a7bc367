import Mathlib.Data.Set.Function
import GrammarEngine.Proofs.Comparing
import GrammarEngine.Proofs.Landing

namespace GrammarEngine

/-!
# Other names

Matching looks at names for two things only: whether two of them are the same, and whether nothing
is skipped inside a symbol of that name. With other names for the symbols, no two of which become
the same, a match goes the same way.

* `Graph.mapNames`, `MatchState.mapNames`, `Token.mapNames`, `Error.mapNames` — all with other
  names;
* `IsRenaming`, `Graph.IsNamedFrom` — which names may be exchanged for others;
* `Commutes` — a step goes the same way with other names;
* `shapeBody_commutes`, `guarded_commutes`, `matchWithin_commutes` — one symbol after the other.
-/

open MatchM

variable {α β β' γ γ' : Type} {f : Name → Name} {names : Set Name}

/-! ### Other names -/

/-- The tree, with other names in all tokens. -/
def Token.mapNames (f : Name → Name) : Token α → Token α :=
  Token.mapHeaders fun header => { header with name := f header.name }

def Mismatch.mapNames (f : Name → Name) : Mismatch → Mismatch
  | .wrongToken name found expected => .wrongToken (f name) found expected
  | .noChild name count index => .noChild (f name) count index
  | .wrongChild name index found expected => .wrongChild (f name) index found expected

/-- The error, with another name in it. -/
def Error.mapNames (f : Name → Name) : Error → Error
  | .mismatch e => .mismatch (e.mapNames f)
  | .configuration (.neverDefined name) => .configuration (.neverDefined (f name))
  | e => e

/-- The event, with another name for the symbol. -/
def Event.mapNames (f : Name → Name) : Event → Event
  | .inProgress name position => .inProgress (f name) position
  | .unmatched name position => .unmatched (f name) position
  | .matched name position substring => .matched (f name) position substring
  | e => e

/-- The key, with another name. -/
def keyWith (f : Name → Name) (key : Name × Int) : Name × Int := (f key.1, key.2)

/-- The state, with other names for the matches in progress and in the events. The stream is the
    same one. -/
def MatchState.mapNames (f : Name → Name) (s : MatchState) : MatchState :=
  { s with guard := s.guard.map (keyWith f), events := s.events.map (Event.mapNames f) }

def Symbol.mapNames (f : Name → Name) (symbol : Symbol) : Symbol :=
  { symbol with name := f symbol.name }

/-- The graph, with other names for its symbols. -/
def Graph.mapNames (f : Name → Name) (g : Graph) : Graph := ⟨g.nodes.map (Symbol.mapNames f)⟩

/-- Names may be exchanged for others if no two of them become the same, if they stay lexical or
    not, and if that of the zero-length symbol stays as it is. -/
structure IsRenaming (f : Name → Name) (names : Set Name) : Prop where
  injOn : Set.InjOn f names
  isLexical_eq : ∀ name ∈ names, (f name).isLexical = name.isLexical
  zeroLength_mem : Symbol.zeroLength.name ∈ names
  zeroLength_eq : f Symbol.zeroLength.name = Symbol.zeroLength.name

/-- The symbols of the graph go by these names, and they are made of symbols only. -/
structure Graph.IsNamedFrom (g : Graph) (names : Set Name) : Prop where
  name_mem : ∀ symbol ∈ g.nodes, symbol.name ∈ names
  refs_ne : ∀ symbol ∈ g.nodes, Ref.foreign ∉ symbol.shape.refs

/-- The matches in progress are of symbols that go by these names. -/
def Guard.IsNamedFrom (guard : Guard) (names : Set Name) : Prop := ∀ key ∈ guard, key.1 ∈ names

@[simp] theorem MatchState.stream_mapNames (f : Name → Name) (s : MatchState) :
    (s.mapNames f).stream = s.stream := rfl

namespace Token

variable {kind : Kind} {name : Name}

theorem substring_mapNames (f : Name → Name) (t : Token α) :
    (t.mapNames f).substring = t.substring :=
  substring_mapHeaders (f := fun header => { header with name := f header.name }) (fun _ => rfl) t

theorem isEmpty_mapNames (f : Name → Name) (t : Token α) : (t.mapNames f).isEmpty = t.isEmpty :=
  isEmpty_mapHeaders (f := fun header => { header with name := f header.name }) (fun _ => rfl) t

@[simp] theorem children_mapNames (f : Name → Name) (t : Token α) :
    (t.mapNames f).children = t.children.map (mapNames f) := children_mapHeaders _ t

theorem mapNames_leaf (substring : String) (start : Int) (ordinal : Nat) :
    (leaf kind name substring start ordinal : Token α).mapNames f =
      leaf kind (f name) substring start ordinal := by
  simp [leaf, mapNames]

theorem mapNames_node (header : Header) (children : List (Token α)) :
    (node header children none).mapNames f =
      node { header with name := f header.name } (children.map (mapNames f)) none :=
  mapHeaders_node _ header children none

theorem mapNames_cover (t : Token α) (ordinal : Nat) (children : List (Token α)) :
    (coverToken kind name t ordinal children).mapNames f =
      coverToken kind (f name) (t.mapNames f) ordinal (children.map (mapNames f)) := by
  cases t with
  | sentinel which => simp [coverToken, mapNames, start, substring]
  | node header children' payload => simp [coverToken, mapNames]

end Token

/-! ### The symbols of the graph -/

namespace Graph

variable {g : Graph} {ref : Ref}

theorem symbol_mapNames (hf : IsRenaming f names) (href : ref ≠ .foreign) :
    (g.mapNames f).symbol ref = (g.symbol ref).mapNames f := by
  have hzero : Symbol.zeroLength.mapNames f = .zeroLength := by
    rw [Symbol.mapNames, hf.zeroLength_eq]
  cases ref with
  | zeroLength => exact hzero.symm
  | foreign => exact absurd rfl href
  | node index =>
    simp only [symbol, mapNames, Array.getD_eq_getD_getElem?, Array.getElem?_map]
    cases g.nodes[index]? with
    | none => exact hzero.symm
    | some symbol => rfl

/-- A symbol is one of the nodes, or the zero-length one. -/
theorem symbol_mem_or (g : Graph) (href : ref ≠ .foreign) :
    g.symbol ref ∈ g.nodes ∨ g.symbol ref = .zeroLength := by
  cases ref with
  | zeroLength => exact .inr rfl
  | foreign => exact absurd rfl href
  | node index =>
    simp only [symbol, Array.getD_eq_getD_getElem?]
    cases hnode : g.nodes[index]? with
    | none => exact .inr rfl
    | some symbol => exact .inl (Array.mem_of_getElem? hnode)

theorem IsNamedFrom.symbol_mem (h : g.IsNamedFrom names) (hf : IsRenaming f names)
    (href : ref ≠ .foreign) : (g.symbol ref).name ∈ names := by
  rcases g.symbol_mem_or href with hmem | hzero
  · exact h.name_mem _ hmem
  · rw [hzero]
    exact hf.zeroLength_mem

theorem IsNamedFrom.ne_foreign (h : g.IsNamedFrom names) {r : Ref}
    (hr : r ∈ (g.symbol ref).shape.refs) : r ≠ .foreign := by
  rintro rfl
  by_cases href : ref = .foreign
  · subst href
    cases hr
  · rcases g.symbol_mem_or href with hmem | hzero
    · exact h.refs_ne _ hmem hr
    · rw [hzero] at hr
      cases hr

end Graph

/-! ### The matches in progress -/

section Guards

variable {guard : Guard} {name : Name} {p : Int}

theorem keyWith_mem_map (hf : IsRenaming f names) (hguard : guard.IsNamedFrom names)
    (hname : name ∈ names) : (f name, p) ∈ guard.map (keyWith f) ↔ (name, p) ∈ guard := by
  constructor
  · intro h
    obtain ⟨⟨name', p'⟩, hmem, hkey⟩ := List.mem_map.mp h
    obtain ⟨hsame, rfl⟩ := Prod.mk.inj hkey
    rw [← hf.injOn (hguard _ hmem) hname hsame]
    exact hmem
  · exact List.mem_map_of_mem (f := keyWith f)

/-- Which key is taken away is seen from the names as well as from the other ones. -/
theorem map_erase_keyWith (hf : IsRenaming f names) (hguard : guard.IsNamedFrom names)
    (hname : name ∈ names) :
    (guard.erase (name, p)).map (keyWith f) = (guard.map (keyWith f)).erase (f name, p) := by
  induction guard with
  | nil => rfl
  | cons key guard ih =>
    obtain ⟨hkey, hrest⟩ := List.forall_mem_cons.mp hguard
    have hsame : keyWith f key = (f name, p) ↔ key = (name, p) := by
      constructor
      · intro h
        obtain ⟨hfirst, hsecond⟩ := Prod.mk.inj h
        exact Prod.ext (hf.injOn hkey hname hfirst) hsecond
      · rintro rfl
        rfl
    rw [List.map_cons, List.erase_cons, List.erase_cons]
    by_cases h : key = (name, p)
    · simp [h, keyWith]
    · have h' : ¬ keyWith f key = (f name, p) := fun hk => h (hsame.mp hk)
      simp [h, h', ih hrest]

end Guards

/-! ### Steps with other names -/

/-- The second run ends as the first one does, with other names. -/
def EndRenamed (f : Name → Name) (names : Set Name) (h : β → γ) :
    EStateM.Result Error MatchState β → EStateM.Result Error MatchState γ → Prop :=
  EndBoth (fun b s c t => c = h b ∧ t = s.mapNames f ∧ s.guard.IsNamedFrom names)
    (fun e s e' t => e' = e.mapNames f ∧ t = s.mapNames f ∧ s.guard.IsNamedFrom names)

/-- What a step does with other names is what it does, with other names. -/
def Commutes (f : Name → Name) (names : Set Name) (h : β → γ) (x : MatchM β) (y : MatchM γ) :
    Prop :=
  ∀ s, s.guard.IsNamedFrom names → EndRenamed f names h (x s) (y (s.mapNames f))

/-- There is no name in the error. -/
def Error.IsPlain (e : Error) : Prop := ∀ f, e.mapNames f = e

/-- The operation ends with no errors but plain ones. -/
def IsQuiet (op : StreamM β) : Prop :=
  ∀ stream, Ends op stream (fun _ _ => True) fun e _ => e.IsPlain

namespace Commutes

theorem pure (b : β) {h : β → γ} : Commutes f names h (Pure.pure b) (Pure.pure (h b)) :=
  fun _ hs => .of_ok rfl rfl ⟨rfl, rfl, hs⟩

theorem give {b : β} {c : γ} {h : β → γ} (hc : c = h b) :
    Commutes f names h (Pure.pure b) (Pure.pure c) := hc ▸ pure b

theorem throw (e : Error) {h : β → γ} :
    Commutes f names h (MonadExcept.throw e) (MonadExcept.throw (e.mapNames f)) :=
  fun _ hs => .of_error rfl rfl ⟨rfl, rfl, hs⟩

theorem bind {x : MatchM β} {y : MatchM γ} {h : β → γ} {k : β' → γ'} {F : β → MatchM β'}
    {F' : γ → MatchM γ'} (hx : Commutes f names h x y)
    (hF : ∀ b, Commutes f names k (F b) (F' (h b))) : Commutes f names k (x >>= F) (y >>= F') := by
  intro s hs
  refine EndBoth.bind (hx s hs) ?_
  rintro b s' _ _ ⟨rfl, rfl, hs'⟩
  exact hF b s' hs'

theorem ite {p : Prop} [Decidable p] {x x' : MatchM β} {y y' : MatchM γ} {h : β → γ}
    (hx : Commutes f names h x y) (hx' : Commutes f names h x' y') :
    Commutes f names h (if p then x else x') (if p then y else y') := by
  split
  · exact hx
  · exact hx'

theorem position : Commutes f names id MatchM.position MatchM.position :=
  fun _ hs => .of_ok rfl rfl ⟨rfl, rfl, hs⟩

theorem isInProgress (hf : IsRenaming f names) {name : Name} (hname : name ∈ names) (p : Int) :
    Commutes f names id (MatchM.isInProgress (name, p)) (MatchM.isInProgress (f name, p)) := by
  intro s hs
  refine .of_ok rfl rfl ⟨?_, rfl, hs⟩
  exact decide_eq_decide.mpr (keyWith_mem_map hf hs hname)

theorem onStream {op : StreamM β} (hop : IsQuiet op) :
    Commutes f names id (MatchM.onStream op) (MatchM.onStream op) := by
  intro s hs
  rcases (hop s.stream).elim with ⟨b, stream, hrun, -⟩ | ⟨e, stream, hrun, he⟩
  · exact .of_ok (onStream_ok hrun) (onStream_ok (s := s.mapNames f) hrun) ⟨rfl, rfl, hs⟩
  · exact .of_error (onStream_error hrun) (onStream_error (s := s.mapNames f) hrun)
      ⟨(he f).symm, rfl, hs⟩

end Commutes

/-! ### Operations of a stream -/

namespace IsQuiet

variable {op : StreamM β}

theorem pure (b : β) : IsQuiet (Pure.pure b) := fun _ => trivial

theorem throw {e : Error} (he : e.IsPlain) : IsQuiet (β := β) (MonadExcept.throw e) := fun _ => he

theorem get : IsQuiet (MonadState.get : StreamM Stream) := fun _ => trivial

theorem set (stream : Stream) : IsQuiet (MonadStateOf.set stream : StreamM PUnit) :=
  fun _ => trivial

theorem modify (change : Stream → Stream) : IsQuiet (modify change : StreamM PUnit) :=
  fun _ => trivial

theorem bind {F : β → StreamM γ} (h : IsQuiet op) (hF : ∀ b, IsQuiet (F b)) :
    IsQuiet (op >>= F) := fun stream => (h stream).bind fun b stream' _ => hF b stream'

theorem ite {p : Prop} [Decidable p] {op' : StreamM β} (h : IsQuiet op) (h' : IsQuiet op') :
    IsQuiet (if p then op else op') := by
  split
  · exact h
  · exact h'

end IsQuiet

theorem FileSource.readOn_plain (count : Nat) (taken : List Char) (file : FileSource)
    (blocks : Nat) {e : Error} (h : (readOn count taken file blocks).1 = .error e) : e.IsPlain := by
  induction blocks generalizing count taken file with
  | zero => cases h
  | succ blocks ih =>
    unfold readOn at h
    simp only at h
    split at h
    · cases h
    · split at h
      · rename_i e' file' hnext
        cases h
        -- A block that cannot be decoded is all that can go wrong.
        unfold nextBlock at hnext
        simp only at hnext
        split at hnext
        · cases hnext
          exact fun _ => rfl
        · split at hnext <;> cases hnext
          exact fun _ => rfl
      · cases h
      · exact ih _ _ _ h

namespace Stream

theorem fill_quiet : IsQuiet fill := by
  intro stream
  unfold Ends fill
  cases hsource : stream.source with
  | memory => trivial
  | file file =>
    simp only
    split
    · rename_i hok
      split at hok <;> trivial
    · rename_i e stream' herror
      split at herror
      · cases herror
      · split at herror
        · rename_i e' file' hread
          cases herror
          have hfirst := congrArg Prod.fst hread
          unfold FileSource.read at hfirst
          split at hfirst
          · cases hfirst
            exact fun _ => rfl
          · exact FileSource.readOn_plain _ _ _ _ hfirst
        · cases herror
        · cases herror

theorem fillUpTo_quiet (length steps : Nat) : IsQuiet (fillUpTo length steps) := by
  induction steps with
  | zero => exact .bind .get fun _ => .pure _
  | succ steps ih =>
    refine .bind .get fun _ => .ite (.pure _) (.bind fill_quiet fun more => ?_)
    cases more with
    | true => exact ih
    | false => exact .pure _

theorem ensure_quiet (length : Int) : IsQuiet (ensure length) :=
  .bind .get fun _ => .ite (.pure _) (fillUpTo_quiet _ _)

theorem peek_quiet : IsQuiet peek := by
  refine .bind (.modify _) fun _ => .bind .get fun s => .bind (ensure_quiet _) fun _ =>
    .bind .get fun s' => ?_
  split
  · exact .pure _
  · exact .ite (.throw fun _ => rfl) (.throw fun _ => rfl)

theorem next_quiet : IsQuiet next :=
  .bind peek_quiet fun _ => .bind (.modify _) fun _ => .pure _

theorem substring_quiet (count : Int) : IsQuiet (substring count) :=
  .bind .get fun _ => .ite (.bind (.throw fun _ => rfl) fun _ => .pure _) (.pure _)

theorem advance_quiet (count : Int) : IsQuiet (advance count) := by
  refine .ite (.bind (.throw fun _ => rfl) fun _ => ?_) ?_
  all_goals
    refine .bind .get fun s => .bind (ensure_quiet _) fun more => ?_
    cases more with
    | true => exact .modify _
    | false => exact .throw fun _ => rfl

theorem regress_quiet (count : Int) : IsQuiet (regress count) := by
  refine .ite (.bind (.throw fun _ => rfl) fun _ => ?_) ?_
  all_goals
    exact .bind .get fun s => .ite (.bind (.throw fun _ => rfl) fun _ => .set _) (.set _)

theorem save_quiet : IsQuiet save :=
  .bind .get fun _ => .ite (.set _) (.throw fun _ => rfl)

theorem revert_quiet : IsQuiet revert := by
  refine .bind .get fun s => ?_
  split
  · exact .set _
  · exact .throw fun _ => rfl

theorem discard_quiet : IsQuiet discard := by
  refine .bind .get fun s => ?_
  split
  · exact .set _
  · exact .throw fun _ => rfl

end Stream

theorem matchLiteral_quiet (chars : List Char) : IsQuiet (matchLiteral chars) := by
  induction chars with
  | nil => exact .pure _
  | cons c chars ih => exact .bind Stream.next_quiet fun _ => .ite (.pure _) ih

theorem matchCodes_quiet (codes : List Nat) : IsQuiet (matchCodes codes) := by
  induction codes with
  | nil => exact .pure _
  | cons code codes ih => exact .bind Stream.next_quiet fun _ => .ite (.pure _) ih

/-! ### The loops -/

/-- The tokens found, with other names. -/
abbrev foundWith (f : Name → Name) (token? : Option (Token α)) : Option (Token α) :=
  token?.map (Token.mapNames f)

/-- Whatever symbol is asked for, the answer is the same but for the names. -/
def Ask.Commutes (f : Name → Name) (names : Set Name) (ask ask' : Ask α) : Prop :=
  ∀ ref skip, GrammarEngine.Commutes f names (foundWith f) (ask ref skip) (ask' ref skip)

section Loops

variable {g : Graph} {ask ask' : Ask α} {skip : Ref}

theorem skipBefore_commutes (hask : ask.Commutes f names ask') (found : List (Token α)) :
    Commutes f names id (skipBefore ask skip found)
      (skipBefore ask' skip (found.map (Token.mapNames f))) := by
  unfold skipBefore
  rw [List.isEmpty_map]
  split
  · exact .bind (hask skip .zeroLength) fun _ => .pure _
  · exact .pure _

theorem matchMembers_commutes (hask : ask.Commutes f names ask') (members : List Ref) (stop : Int)
    (found : List (Token α)) :
    Commutes f names (Option.map fun result => (result.1, result.2.map (Token.mapNames f)))
      (matchMembers ask skip stop found members)
      (matchMembers ask' skip stop (found.map (Token.mapNames f)) members) := by
  induction members generalizing stop found with
  | nil => exact .pure _
  | cons member members ih =>
    refine .bind (skipBefore_commutes hask found) fun _ => .bind (hask member skip) fun token? => ?_
    cases token? with
    | none => exact .pure _
    | some token =>
      simp only [foundWith, Option.map_some, Token.isEmpty_mapNames]
      split
      · exact .bind (h := id) (.pure _) fun stop => ih stop (token :: found)
      · exact .bind .position fun stop => ih stop (token :: found)

theorem matchAlternatives_commutes (hf : IsRenaming f names) (hg : g.IsNamedFrom names)
    (hask : ask.Commutes f names ask') (members : List Ref)
    (hmembers : ∀ member ∈ members, member ≠ .foreign) (start : Int) (ordinal : Nat) :
    Commutes f names (Option.map fun result => (result.1, result.2.mapNames f))
      (matchAlternatives g ask skip start ordinal members)
      (matchAlternatives (g.mapNames f) ask' skip start ordinal members) := by
  induction members generalizing ordinal with
  | nil => exact .pure _
  | cons member members ih =>
    obtain ⟨hmember, hrest⟩ := List.forall_mem_cons.mp hmembers
    unfold matchAlternatives
    rw [Graph.symbol_mapNames hf hmember]
    refine .bind (.isInProgress hf (hg.symbol_mem hf hmember) start) fun inProgress => ?_
    cases inProgress with
    | true => exact ih hrest (ordinal + 1)
    | false =>
      refine .bind (hask member skip) fun token? => ?_
      cases token? with
      | none => exact ih hrest (ordinal + 1)
      | some token => exact .pure _

theorem matchRounds_commutes (hask : ask.Commutes f names ask') (inner : Ref) (rounds : Nat)
    (stop : Int) (afterEmpty : Bool) (found : List (Token α)) :
    Commutes f names (fun result => (result.1, result.2.map (Token.mapNames f)))
      (matchRounds ask skip inner rounds stop afterEmpty found)
      (matchRounds ask' skip inner rounds stop afterEmpty (found.map (Token.mapNames f))) := by
  induction rounds generalizing stop afterEmpty found with
  | zero => exact .pure _
  | succ rounds ih =>
    refine .bind (skipBefore_commutes hask found) fun _ => .bind (hask inner skip) fun token? => ?_
    cases token? with
    | none => exact .pure _
    | some token =>
      simp only [foundWith, Option.map_some, Token.isEmpty_mapNames]
      exact .ite (.bind .position fun stop => ih stop false (token :: found))
        (.ite (.pure _) (ih stop true (token :: found)))

end Loops

/-! ### The shapes -/

section Shapes

variable {g : Graph} {ask ask' : Ask α} {name : Name} {skip : Ref}

theorem spanToken_commutes (kind : Kind) (start stop : Int) (children : List (Token α)) :
    Commutes f names (Token.mapNames f) (spanToken kind name start stop children)
      (spanToken kind (f name) start stop (children.map (Token.mapNames f))) := by
  refine .bind .position fun here => .bind (.onStream (Stream.regress_quiet _)) fun _ =>
    .bind (.onStream (Stream.substring_quiet _)) fun substring => .give ?_
  rw [Token.mapNames_node, id_eq]

theorem matchSequence_commutes (hask : ask.Commutes f names ask') (members : List Ref) :
    Commutes f names (foundWith f) (matchSequence ask name skip members)
      (matchSequence ask' (f name) skip members) := by
  refine .bind .position fun start => .bind (.onStream Stream.save_quiet) fun _ =>
    .bind (matchMembers_commutes hask members start []) fun result? => ?_
  cases result? with
  | none => exact .bind (.onStream Stream.revert_quiet) fun _ => .pure _
  | some result =>
    refine .bind (.onStream Stream.discard_quiet) fun _ => ?_
    rw [← List.map_reverse]
    exact .bind (spanToken_commutes _ _ _ _) fun token => .pure _

theorem matchJunction_commutes (hf : IsRenaming f names) (hg : g.IsNamedFrom names)
    (hask : ask.Commutes f names ask') (members : List Ref)
    (hmembers : ∀ member ∈ members, member ≠ .foreign) :
    Commutes f names (foundWith f) (matchJunction g ask name skip members)
      (matchJunction (g.mapNames f) ask' (f name) skip members) := by
  refine .bind .position fun start =>
    .bind (matchAlternatives_commutes hf hg hask members hmembers start 0) fun result? => ?_
  cases result? with
  | none => exact .pure _
  | some result => exact .give (by simp [Token.mapNames_cover])

theorem matchMultiple_commutes (hask : ask.Commutes f names ask') (inner : Ref) :
    Commutes f names (foundWith f) (matchMultiple ask name skip inner)
      (matchMultiple ask' (f name) skip inner) := by
  refine .bind .position fun start => ?_
  intro s hs
  -- The rounds that are allowed for go by the stream, which is the same one.
  refine (Commutes.bind
    (matchRounds_commutes hask inner (2 * s.stream.remaining + 2) start false [])
    fun result => ?_) s hs
  simp only [List.isEmpty_map]
  refine .ite (.pure _) ?_
  rw [← List.map_reverse]
  exact .bind (spanToken_commutes _ _ _ _) fun token => .pure _

theorem matchOption_commutes (hask : ask.Commutes f names ask') (inner : Ref) :
    Commutes f names (foundWith f) (matchOption ask name skip inner)
      (matchOption ask' (f name) skip inner) := by
  refine .bind (hask inner skip) fun token? => ?_
  cases token? with
  | none => exact .bind .position fun _ => .give (by simp [Token.mapNames_leaf])
  | some token => exact .give (by simp [Token.mapNames_cover])

theorem matchStar_commutes (hask : ask.Commutes f names ask') (repetition : Ref) :
    Commutes f names (foundWith f) (matchStar ask name skip repetition)
      (matchStar ask' (f name) skip repetition) := by
  refine .bind (hask repetition skip) fun token? => ?_
  cases token? with
  | none => exact .bind .position fun _ => .give (by simp [Token.mapNames_leaf])
  | some token => exact .give (by simp [Token.mapNames_cover])

theorem matchSwitch_commutes (ranges : CharClass) :
    Commutes f names (foundWith f) (matchSwitch (α := α) name ranges)
      (matchSwitch (f name) ranges) := by
  refine .bind .position fun start => .bind (.onStream Stream.peek_quiet) fun c => ?_
  simp only [id_eq]
  cases ranges.find? c.toNat with
  | none => exact .pure _
  | some ordinal =>
    exact .bind (.onStream (Stream.advance_quiet 1)) fun _ =>
      .bind (.onStream (Stream.substring_quiet 1)) fun substring =>
        .give (by simp [Token.mapNames_leaf])

theorem matchCharacter_commutes (literal : Char) :
    Commutes f names (foundWith f) (matchCharacter (α := α) name literal)
      (matchCharacter (f name) literal) :=
  .bind .position fun start => .bind (.onStream Stream.peek_quiet) fun c =>
    .ite (.pure _) (.bind (.onStream (Stream.advance_quiet 1)) fun _ =>
      .give (by simp [Token.mapNames_leaf]))

theorem matchText_commutes (literal : String) :
    Commutes f names (foundWith f) (matchText (α := α) name literal)
      (matchText (f name) literal) := by
  refine .bind .position fun start => .bind (.onStream Stream.save_quiet) fun _ =>
    .bind (.onStream (matchLiteral_quiet _)) fun found => ?_
  cases found with
  | true =>
    exact .bind (.onStream Stream.discard_quiet) fun _ => .give (by simp [Token.mapNames_leaf])
  | false => exact .bind (.onStream Stream.revert_quiet) fun _ => .pure _

theorem shapeBody_commutes (hf : IsRenaming f names) (hg : g.IsNamedFrom names)
    (hask : ask.Commutes f names ask') (shape : Shape) (hrefs : ∀ r ∈ shape.refs, r ≠ .foreign) :
    Commutes f names (foundWith f) (shapeBody g ask name skip shape)
      (shapeBody (g.mapNames f) ask' (f name) skip shape) := by
  cases shape with
  | sequence members => exact matchSequence_commutes hask members
  | junction members => exact matchJunction_commutes hf hg hask members hrefs
  | multiple inner => exact matchMultiple_commutes hask inner
  | option inner => exact matchOption_commutes hask inner
  | star repetition => exact matchStar_commutes hask repetition
  | switch ranges => exact matchSwitch_commutes ranges
  | anyCharacter => exact matchSwitch_commutes CharClass.all
  | text literal => exact matchText_commutes literal
  | character literal => exact matchCharacter_commutes literal
  | oddCharacter => exact .bind (.onStream Stream.peek_quiet) fun _ => .pure _
  | oddText codes =>
    exact .bind (.onStream Stream.save_quiet) fun _ =>
      .bind (.onStream (matchCodes_quiet codes)) fun _ =>
        .bind (.onStream Stream.revert_quiet) fun _ => .pure _
  | implicit | zeroLength | foreign => exact .pure _

end Shapes

/-! ### Any symbol -/

section Guarded

variable {s : MatchState} {name : Name} {p : Int}

/-- What the guard makes of how its body ended, where it was entered in `s`. -/
def guardEnd (name : Name) (s : MatchState) :
    EStateM.Result Error MatchState (Option (Token α)) →
      EStateM.Result Error MatchState (Option (Token α))
  | .ok (some token) t =>
    .ok (some token) ((t.leave (name, s.stream.position)).report
      (.matched name s.stream.position token.substring))
  | .ok none t =>
    .ok none ((t.leave (name, s.stream.position)).report (.unmatched name s.stream.position))
  | .error (.exhausted _) t =>
    .ok none (({ t with stream := t.stream.rewind s.stream.position s.stream.depth }.leave
      (name, s.stream.position)).report (.unmatched name s.stream.position))
  | .error e t => .error e (t.leave (name, s.stream.position))

theorem guarded_eq (name : Name) (body : MatchM (Option (Token α))) (s : MatchState) :
    guarded name body s =
      if (name, s.stream.position) ∈ s.guard then
        .ok none (s.report (.inProgress name s.stream.position))
      else guardEnd name s (body (s.enter (name, s.stream.position))) := by
  unfold guarded
  simp only
  split
  · rfl
  · rcases body (s.enter (name, s.stream.position)) with ⟨_ | token, t⟩ | ⟨e, t⟩
    · rfl
    · rfl
    · cases e <;> rfl

/-- A match that is over leaves its key behind, and is reported. -/
theorem MatchState.leave_mapNames (hf : IsRenaming f names) (hs : s.guard.IsNamedFrom names)
    (hname : name ∈ names) :
    (s.mapNames f).leave (f name, p) = (s.leave (name, p)).mapNames f := by
  have hguard := map_erase_keyWith (p := p) hf hs hname
  simp only [leave, mapNames, hguard]

theorem Guard.IsNamedFrom.erase {guard : Guard} (h : guard.IsNamedFrom names)
    (key : Name × Int) : Guard.IsNamedFrom (guard.erase key) names :=
  fun _ hmem => h _ (List.mem_of_mem_erase hmem)

theorem guardEnd_renamed (hf : IsRenaming f names) (hname : name ∈ names)
    {run run' : EStateM.Result Error MatchState (Option (Token α))}
    (h : EndRenamed f names (foundWith f) run run') :
    EndRenamed f names (foundWith f) (guardEnd name s run)
      (guardEnd (f name) (s.mapNames f) run') := by
  rcases h.elim with
    ⟨token?, t, _, _, rfl, rfl, rfl, rfl, ht⟩ | ⟨e, t, _, _, rfl, rfl, rfl, rfl, ht⟩
  · have hleave := MatchState.leave_mapNames (p := s.stream.position) hf ht hname
    cases token? with
    | none =>
      exact ⟨rfl, congrArg (·.report (.unmatched (f name) s.stream.position)) hleave, ht.erase _⟩
    | some token =>
      refine ⟨rfl, ?_, ht.erase _⟩
      rw [Token.substring_mapNames]
      exact congrArg (·.report (.matched (f name) s.stream.position token.substring)) hleave
  · have hleave := MatchState.leave_mapNames (p := s.stream.position) hf ht hname
    match e with
    | .exhausted cause =>
      have hback : ({ t with stream := t.stream.rewind s.stream.position s.stream.depth } :
          MatchState).guard.IsNamedFrom names := ht
      have hleave := MatchState.leave_mapNames (p := s.stream.position) hf hback hname
      exact ⟨rfl, congrArg (·.report (.unmatched (f name) s.stream.position)) hleave, ht.erase _⟩
    | .configuration e => cases e <;> exact ⟨rfl, hleave, ht.erase _⟩
    | .value _ | .index _ | .parse _ | .mismatch _ | .overflow | .wrongType | .noAttribute |
      .nestedTooDeeply | .malformedBytes | .noSuchFile | .unknownEncoding =>
      exact ⟨rfl, hleave, ht.erase _⟩

theorem guarded_commutes (hf : IsRenaming f names) (hname : name ∈ names)
    {body body' : MatchM (Option (Token α))} (hbody : Commutes f names (foundWith f) body body') :
    Commutes f names (foundWith f) (guarded name body) (guarded (f name) body') := by
  intro s hs
  have hmem : (f name, s.stream.position) ∈ (s.mapNames f).guard ↔
      (name, s.stream.position) ∈ s.guard := keyWith_mem_map hf hs hname
  have hinside : Guard.IsNamedFrom (s.enter (name, s.stream.position)).guard names :=
    List.forall_mem_cons.mpr ⟨hname, hs⟩
  have henter : (s.mapNames f).enter (f name, s.stream.position) =
      (s.enter (name, s.stream.position)).mapNames f := rfl
  rw [guarded_eq, guarded_eq, MatchState.stream_mapNames, henter]
  by_cases h : (name, s.stream.position) ∈ s.guard
  · rw [if_pos h, if_pos (hmem.mpr h)]
    exact ⟨rfl, rfl, hs⟩
  · rw [if_neg h, if_neg (mt hmem.mp h)]
    exact guardEnd_renamed hf hname (hbody _ hinside)

end Guarded

/-- However deep the nesting may be, a match goes the same way with other names. -/
theorem matchWithin_commutes {g : Graph} (hf : IsRenaming f names) (hg : g.IsNamedFrom names)
    (limit : Nat) :
    (matchWithin (α := α) g limit).Commutes f names (matchWithin (g.mapNames f) limit) := by
  induction limit with
  | zero => exact fun ref skip => .throw _
  | succ limit ih =>
    intro ref skip
    rw [matchWithin, matchWithin]
    by_cases href : ref = .foreign
    · subst href
      exact .throw .noAttribute
    have hsymbol := Graph.symbol_mapNames (g := g) hf href
    have hname := hg.symbol_mem hf href
    have hshape : ((g.mapNames f).symbol ref).shape = (g.symbol ref).shape := by rw [hsymbol]; rfl
    rcases (g.symbol ref).shape.guarded_or with
      hguarded | hundefined | ⟨target, himplicit⟩ | hzero | hforeign
    · have hinside :
          skipInside (f (g.symbol ref).name) skip = skipInside (g.symbol ref).name skip := by
        rw [skipInside, skipInside, hf.isLexical_eq _ hname]
      rw [matchStep_guarded skip hguarded, matchStep_guarded skip (hshape ▸ hguarded), hsymbol]
      simp only [Symbol.mapNames]
      rw [hinside]
      exact guarded_commutes hf hname (shapeBody_commutes hf hg ih _ fun r hr => hg.ne_foreign hr)
    · rw [matchStep_undefined hundefined, matchStep_undefined (hshape.trans hundefined), hsymbol]
      exact .throw (.configuration (.neverDefined (g.symbol ref).name))
    · rw [matchStep_implicit himplicit, matchStep_implicit (hshape.trans himplicit)]
      exact ih target skip
    · rw [matchStep_zeroLength hzero, matchStep_zeroLength (hshape.trans hzero)]
      exact .give (by simp [Token.mapNames])
    · rw [matchStep_foreign hforeign, matchStep_foreign (hshape.trans hforeign)]
      exact .throw .noAttribute

end GrammarEngine
