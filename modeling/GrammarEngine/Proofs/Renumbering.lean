import Mathlib.Logic.Equiv.Basic
import GrammarEngine.Proofs.Notation.Reordering
import GrammarEngine.Proofs.Renaming

namespace GrammarEngine

/-!
# Other numbers for nameless symbols

Nameless symbols are numbered when they are made. Which numbers they get makes no difference to what
is parsed, as long as no two of them get the same one.

* `Name.renumbered`, `Grammar.renumbered` — other numbers;
* `matchInput_commutes` — a whole input is matched in the same way;
* `run_renumbered` — and comes to the same;
* `matchWithin_mapNames` — what names have to do with matching.
-/

open MatchM

variable {σ α β γ : Type} {f : Name → Name} {names : Set Name}

/-- The name, with another number if it is generated. -/
def Name.renumbered (number : Nat → Nat) : Name → Name
  | .given text => .given text
  | .generated serial => .generated (number serial)

/-- The grammar, with other numbers for its nameless symbols. -/
def Grammar.renumbered (number : Nat → Nat) (gr : Grammar σ α) : Grammar σ α :=
  { gr with
    ruleSet :=
      { gr.ruleSet with graph := gr.ruleSet.graph.mapNames (Name.renumbered number) }
    hasStart := gr.hasStart
    hasSkip := gr.hasSkip }

/-- What the symbols of the graph are made of are symbols. -/
def Graph.IsOfSymbols (g : Graph) : Prop :=
  ∀ symbol ∈ g.nodes, Ref.foreign ∉ symbol.shape.refs

/-- The numbers of the nameless symbols. -/
def Graph.serials (g : Graph) : Set Nat :=
  {serial | ∃ symbol ∈ g.nodes, symbol.name = .generated serial}

/-- The names that are given, and those with a number from the graph. -/
def Graph.knownNames (g : Graph) : Set Name :=
  {name | ∀ serial, name = .generated serial → serial ∈ g.serials}

section Renumbering

variable {g : Graph} {number : Nat → Nat}

theorem Name.masked_renumbered (name : Name) : (name.renumbered number).masked = name.masked := by
  cases name <;> rfl

theorem isRenaming_renumbered (h : Set.InjOn number g.serials) :
    IsRenaming (Name.renumbered number) g.knownNames where
  injOn := by
    intro name hname name' hname' heq
    cases name with
    | given text => cases name' <;> cases heq; rfl
    | generated serial =>
      cases name' with
      | given text => cases heq
      | generated serial' =>
        rw [h (hname serial rfl) (hname' serial' rfl) (Name.generated.inj heq)]
  isLexical_eq name _ := by cases name <;> rfl
  zeroLength_mem serial heq := by cases heq
  zeroLength_eq := rfl

theorem Graph.IsOfSymbols.isNamedFrom (h : g.IsOfSymbols) : g.IsNamedFrom g.knownNames where
  name_mem symbol hsymbol _ heq := ⟨symbol, hsymbol, heq⟩
  refs_ne := h

theorem Error.masked_mapNames (number : Nat → Nat) (e : Error) :
    (e.mapNames (Name.renumbered number)).masked = e.masked := by
  cases e with
  | mismatch e => cases e <;> simp [Error.mapNames, Mismatch.mapNames, masked, Mismatch.masked,
      Name.masked_renumbered]
  | configuration e => cases e <;> simp [Error.mapNames, masked, Name.masked_renumbered]
  | _ => rfl

theorem Error.eq_nestedTooDeeply_of_masked {e : Error} (h : e.masked = .nestedTooDeeply) :
    e = .nestedTooDeeply := by
  cases e with
  | configuration e => cases e <;> cases h
  | nestedTooDeeply => rfl
  | _ => cases h

theorem Error.eq_parse_of_masked {e : Error} {e₀ : ParseError} (h : e.masked = .parse e₀) :
    e = .parse e₀ := by
  cases e with
  | configuration e => cases e <;> cases h
  | parse e => exact h
  | _ => cases h

mutual

theorem Token.masked_mapNames (number : Nat → Nat) (t : Token α) :
    (t.mapNames (Name.renumbered number)).masked = t.masked := by
  match t with
  | .sentinel which => simp [mapNames]
  | .node header children payload =>
    have hchildren := maskedAll_mapNames number children
    simp only [mapNames, mapHeaders, masked, Name.masked_renumbered] at hchildren ⊢
    rw [hchildren]

theorem Token.maskedAll_mapNames (number : Nat → Nat) (ts : List (Token α)) :
    maskedAll (mapHeadersAll (fun header => { header with name := header.name.renumbered number })
      ts) = maskedAll ts := by
  match ts with
  | [] => rfl
  | t :: rest =>
    rw [mapHeadersAll, maskedAll, maskedAll, maskedAll_mapNames number rest]
    congr 1
    exact masked_mapNames number t

end

end Renumbering

/-! ### Whole inputs -/

theorem Stream.context_quiet (position : Option Int) (width : Int) :
    IsQuiet (context position width) :=
  .bind .get fun _ => .bind (ensure_quiet _) fun _ => .bind .get fun _ => .pure _

theorem Stream.location_quiet (position : Option Int) : IsQuiet (location position) :=
  .bind .get fun _ => .bind (ensure_quiet _) fun _ => .bind .get fun _ => .pure _

theorem Stream.hasNext_quiet : IsQuiet hasNext := .bind .get fun _ => ensure_quiet _

theorem Commutes.report {event : Event} (h : event.mapNames f = event) :
    Commutes f names id (modify fun s => s.report event : MatchM PUnit)
      (modify fun s => s.report event) := by
  intro s hs
  refine .of_ok rfl rfl ⟨rfl, ?_, hs⟩
  simp only [MatchState.report, MatchState.mapNames, List.map_cons, h]

namespace Grammar

variable {gr : Grammar σ α} {number : Nat → Nat}

theorem refuse_commutes (complaint : String → Complaint) (position : Int) {h : β → γ} :
    Commutes f names h (refuse complaint position) (refuse complaint position) :=
  .bind (.onStream (Stream.context_quiet _ _)) fun _ => .bind (.report rfl) fun _ =>
    .bind (.onStream (Stream.location_quiet _)) fun _ => .throw (.parse _)

theorem locateError_commutes (e : ParseError) {h : β → γ} :
    Commutes f names h (locateError e) (locateError e) := by
  unfold locateError
  cases e.location with
  | some location => exact .throw (.parse e)
  | none =>
    exact .bind (.onStream (Stream.location_quiet _)) fun location =>
      .throw (.parse { e with location := some location })

theorem limited_commutes {body body' : MatchM β} {h : β → β}
    (hbody : Commutes f names h body body') :
    Commutes f names h (limited body) (limited body') := by
  intro s hs
  unfold limited
  rcases (hbody s hs).elim with
    ⟨b, t, _, _, hrun, hrun', rfl, rfl, ht⟩ | ⟨e, t, _, _, hrun, hrun', rfl, rfl, ht⟩
  · rw [hrun, hrun']
    exact ⟨rfl, rfl, ht⟩
  · rw [hrun, hrun']
    match e with
    | .nestedTooDeeply => exact refuse_commutes _ _ t ht
    | .configuration e => cases e <;> exact ⟨rfl, rfl, ht⟩
    | .value _ | .index _ | .parse _ | .mismatch _ | .overflow | .wrongType | .noAttribute |
      .exhausted _ | .malformedBytes | .noSuchFile | .unknownEncoding =>
      exact ⟨rfl, rfl, ht⟩

theorem finish_commutes (root : Token α) :
    Commutes f names (Token.mapNames f) (finish root) (finish (root.mapNames f)) := by
  refine .bind (.onStream Stream.hasNext_quiet) fun more => ?_
  cases more with
  | false => exact .pure _
  | true =>
    intro s hs
    simp only [id_eq, if_true, Step.get_bind, MatchState.stream_mapNames]
    exact Commutes.bind (h := id) (refuse_commutes _ _) (fun _ => .pure root) s hs

/-- With other numbers a whole input is matched in the same way. -/
theorem matchInput_commutes (hg : gr.ruleSet.graph.IsOfSymbols)
    (hnumber : Set.InjOn number gr.ruleSet.graph.serials) (limit : Nat) :
    Commutes (Name.renumbered number) gr.ruleSet.graph.knownNames
      (Token.mapNames (Name.renumbered number)) (gr.matchInput limit)
      ((gr.renumbered number).matchInput limit) := by
  have hask := matchWithin_commutes (α := α) (isRenaming_renumbered hnumber) hg.isNamedFrom limit
  rw [matchInput_eq, matchInput_eq]
  refine .bind (limited_commutes (.bind (hask _ _) fun _ => hask _ _)) fun root? => ?_
  cases root? with
  | none =>
    intro s hs
    simp only [matchEnd, Step.get_bind, foundWith, Option.map_none, MatchState.stream_mapNames]
    exact refuse_commutes _ _ s hs
  | some root => exact .bind (hask _ _) fun _ => finish_commutes root

theorem failWalk_of_ne {root : Token α} {e : Error} (hdeep : e ≠ .nestedTooDeeply)
    (hparse : ∀ e', e ≠ .parse e') : failWalk (β := β) root e = throw e := by
  cases e with
  | nestedTooDeeply => exact absurd rfl hdeep
  | parse e => exact absurd rfl (hparse e)
  | _ => rfl

/-- An error in the walk of a tree comes to the same, but for the number of the name in it. -/
theorem failWalk_alike (number : Nat → Nat) {root root' : Token α} {e e' : Error}
    (hroot : root.start = root'.start) (he : e.masked = e'.masked) {s : MatchState}
    (hs : s.guard.IsNamedFrom names) :
    EndBoth (fun _ _ _ _ => True) (fun e₁ _ e₂ _ => e₁.masked = e₂.masked)
      ((failWalk root e : MatchM β) s)
      ((failWalk root' e' : MatchM β) (s.mapNames (Name.renumbered number))) := by
  have hrenamed : ∀ {x y : MatchM β}, Commutes (Name.renumbered number) names id x y →
      EndBoth (fun _ _ _ _ => True) (fun e₁ _ e₂ _ => e₁.masked = e₂.masked) (x s)
        (y (s.mapNames (Name.renumbered number))) := by
    intro x y h
    refine (h s hs).mono (fun _ _ _ _ _ => trivial) ?_
    rintro e₁ _ _ _ ⟨rfl, -⟩
    exact (Error.masked_mapNames number e₁).symm
  by_cases hdeep : e = .nestedTooDeeply
  · subst hdeep
    obtain rfl := Error.eq_nestedTooDeeply_of_masked he.symm
    rw [failWalk, failWalk, hroot]
    exact hrenamed (refuse_commutes _ _)
  · by_cases hparse : ∃ e₀, e = .parse e₀
    · obtain ⟨e₀, rfl⟩ := hparse
      obtain rfl := Error.eq_parse_of_masked he.symm
      exact hrenamed (locateError_commutes e₀)
    · have hdeep' : e' ≠ .nestedTooDeeply := by
        rintro rfl
        exact hdeep (Error.eq_nestedTooDeeply_of_masked he)
      have hparse' : ∀ e₀, e' ≠ .parse e₀ := by
        rintro e₀ rfl
        exact hparse ⟨e₀, Error.eq_parse_of_masked he⟩
      rw [failWalk_of_ne hdeep fun e₀ h => hparse ⟨e₀, h⟩, failWalk_of_ne hdeep' hparse']
      exact he

/-- The parse of a stream comes to the same with other numbers, if the listeners do not look at
    them. -/
theorem run_renumbered [PayloadType α] (hg : gr.ruleSet.graph.IsOfSymbols)
    (hnumber : Set.InjOn number gr.ruleSet.graph.serials) (hblind : AreBlind gr.listenerFor)
    (limit : Nat) (stream : Stream) (state : σ) :
    (gr.run limit stream state).Agrees Token.masked
      ((gr.renumbered number).run limit stream state) := by
  have hempty : (MatchState.ofStream stream).guard.IsNamedFrom gr.ruleSet.graph.knownNames := nofun
  have hlisteners : (gr.renumbered number).listenerFor = gr.listenerFor := by
    funext name
    cases name <;> rfl
  have hstart : (MatchState.ofStream stream).mapNames (Name.renumbered number) =
      .ofStream stream := rfl
  have hmatch := matchInput_commutes hg hnumber limit (.ofStream stream) hempty
  rw [hstart] at hmatch
  unfold run
  rcases hmatch.elim with
    ⟨root, s, _, _, hrun, hrun', rfl, rfl, hs⟩ | ⟨e, s, _, _, hrun, hrun', rfl, rfl, hs⟩
  · simp only [hrun, hrun', hlisteners]
    have hroot := Token.masked_mapNames number root
    rcases (Token.walk_alike hblind root _ hroot.symm state).cases with
      ⟨_, v, v', hwalk, hwalk', hv⟩ | ⟨e, e', v, v', hwalk, hwalk', he, hv⟩
    · simp only [hwalk, hwalk']
      exact ⟨congrArg (Except.mapError Error.masked ∘ Except.ok) hv.token, hv.state⟩
    · simp only [hwalk, hwalk']
      have hstarts := (Token.reads_of_masked hroot).2.2.1.symm
      rcases (failWalk_alike (β := Empty) number hstarts he hs).elim with
        ⟨absurd, _, _, _, -, -, -⟩ | ⟨e₁, s₁, e₂, s₂, hfail, hfail', hmasked⟩
      · exact absurd.elim
      · simp only [hfail, hfail']
        exact ⟨congrArg Except.error hmasked, hv.state⟩
  · simp only [hrun, hrun']
    exact ⟨congrArg Except.error (Error.masked_mapNames number e).symm, rfl⟩

end Grammar

/-- Matching depends on names only in so far as they are the same or not, and lexical or not. With
    other names for all symbols, for the matches in progress and in the events so far, a match ends
    in the same way: with the same stream, the same matches in progress and the same tree, or the
    same error, all with the other names. So it makes no difference to a parse how nameless symbols
    are numbered. -/
theorem matchWithin_mapNames :
    (∀ (f : Name → Name) (names : Set Name) (g : Graph) (limit : Nat) (ref skip : Ref)
      (s : MatchState), IsRenaming f names → g.IsNamedFrom names → s.guard.IsNamedFrom names →
        EndBoth
          (fun token? s' renamed? t' =>
            renamed? = token?.map (Token.mapNames (α := α) f) ∧ t' = s'.mapNames f)
          (fun e s' e' t' => e' = e.mapNames f ∧ t' = s'.mapNames f)
          (matchWithin g limit ref skip s)
          (matchWithin (g.mapNames f) limit ref skip (s.mapNames f))) ∧
    ∀ {σ : Type} [PayloadType α] (gr : Grammar σ α) (number : Nat → Nat),
      gr.ruleSet.graph.IsOfSymbols → Set.InjOn number gr.ruleSet.graph.serials →
      AreBlind gr.listenerFor → ∀ limit stream state,
        (gr.run limit stream state).Agrees Token.masked
            ((gr.renumbered number).run limit stream state) ∧
          ((gr.run limit stream state).bind Token.payload).Agrees id
            (((gr.renumbered number).run limit stream state).bind Token.payload) := by
  refine ⟨fun f names g limit ref skip s hf hg hs => ?_, ?_⟩
  · refine (matchWithin_commutes hf hg limit ref skip s hs).mono ?_ ?_
    · exact fun _ _ _ _ h => ⟨h.1, h.2.1⟩
    · exact fun _ _ _ _ h => ⟨h.1, h.2.1⟩
  · intro σ _ gr number hg hnumber hblind limit stream state
    have htree := Grammar.run_renumbered hg hnumber hblind limit stream state
    exact ⟨htree, htree.payload⟩

/-- The names of lists and of items, exchanged. -/
def exchanged : Name → Name := Equiv.swap (.given "list") (.given "item")

theorem isRenaming_exchanged : IsRenaming exchanged Set.univ where
  injOn := (Equiv.swap _ _).injective.injOn
  isLexical_eq name _ := by
    unfold exchanged
    rw [Equiv.swap_apply_def]
    split
    · rename_i h
      rw [h]
      decide
    · split
      · rename_i h
        rw [h]
        decide
      · rfl
  zeroLength_mem := trivial
  zeroLength_eq := by decide

theorem leftRecursive_isOfSymbols : leftRecursive.IsOfSymbols := by
  unfold Graph.IsOfSymbols
  decide

theorem matchWithin_mapNames_leftRecursive :
    (∃ limit s', matchWithin (leftRecursive.mapNames exchanged) limit (.node 0) (.node 4)
        (.ofStream (.ofString "x")) = .ok (some (oneItem.mapNames exchanged)) s' ∧
      s'.stream.position = 1) ∧
    ∀ limit, ((lists.renumbered (· + 10)).parse limit "x x" ()).Agrees id
      (lists.parse limit "x x" ()) := by
  obtain ⟨hmatch, hparse⟩ := matchWithin_mapNames (α := Unit)
  constructor
  · obtain ⟨limit, hlimit⟩ := leftRecursive_yields_oneItem.delivered.exists
    obtain ⟨s', hrun, hlands⟩ :=
      hlimit (.ofStream (.ofString "x")) ⟨Stream.reads_ofString "x", rfl⟩
    have hends := hmatch exchanged Set.univ leftRecursive limit (.node 0) (.node 4)
      (.ofStream (.ofString "x")) isRenaming_exchanged
      ⟨fun _ _ => trivial, leftRecursive_isOfSymbols⟩ nofun
    rcases hends.elim with ⟨_, s, _, _, hrun₁, hrun₂, rfl, rfl⟩ | ⟨_, _, _, _, herror, -, -⟩
    · cases hrun.symm.trans hrun₁
      exact ⟨limit, _, hrun₂, hlands.stream.reads.position⟩
    · cases hrun.symm.trans herror
  · intro limit
    have hblind : AreBlind lists.listenerFor := Grammar.areBlind nofun
    obtain ⟨-, hresult, hstate⟩ := hparse lists (· + 10) leftRecursive_isOfSymbols
      (fun _ _ _ _ => Nat.add_right_cancel) hblind limit (.ofString "x x") ()
    exact ⟨hresult.symm, hstate.symm⟩

end GrammarEngine
