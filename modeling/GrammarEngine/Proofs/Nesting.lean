import GrammarEngine.Proofs.Termination

namespace GrammarEngine

/-!
# How deeply matches are nested

The bound that holds for any part of a graph grows with the text. Where more is known of the graph,
less is enough: what a symbol is made of is matched one level further down, and the members of a
sequence but the first only where the first one has matched.

* `Answers` — asked for a symbol, the answer is that of the rules, or an error that has nothing to
  do with nesting;
* `Settles` — the same at some places in the text, which are not left;
* `AnswersInside`, `matchWithin_answers_of_inside` — from one level to the next;
* `FitsWithin` — the matches inside a symbol fit into a limit, by the shapes of the symbols;
* `FitsWithin.of_parts` — they do if those of all parts fit in one level further down;
* `matchWithin_answers_of_fits` — then the match is not nested too deeply;
* `matchWithin_defined` — without open references, nesting is all that can go wrong.
-/

open MatchM

variable {α β : Type} {g : Graph} {text : List Char} {guard : Guard}

/-! ### Nothing but nesting -/

theorem Graph.IsClosed.insert_zeroLength {part : Finset Ref} (h : g.IsClosed part) :
    g.IsClosed (insert .zeroLength part) := by
  intro r hr r' hr'
  rcases Finset.mem_insert.mp hr with rfl | hr
  · cases hr'
  · exact Finset.mem_insert_of_mem (h r hr r' hr')

theorem Graph.IsAcyclic.insert_zeroLength {part : Finset Ref} (h : g.IsAcyclic part) :
    g.IsAcyclic (insert .zeroLength part) := by
  intro r hr
  rcases Finset.mem_insert.mp hr with rfl | hr
  · intro hchain
    obtain ⟨r', hleads, -⟩ := Relation.TransGen.head'_iff.mp hchain
    cases hleads
  · exact h r hr

section Part

variable {part : Finset Ref} {p : Nat} {ref skip : Ref} {s : MatchState}

theorem mem_insert_zeroLength (h : skip ∈ part ∨ skip = .zeroLength) :
    skip ∈ insert Ref.zeroLength part := by
  rcases h with h | rfl
  · exact Finset.mem_insert_of_mem h
  · exact Finset.mem_insert_self ..

/-- Where all symbols of a part are defined, a match ends with an answer or is nested too
    deeply. -/
theorem matchWithin_defined (hclosed : g.IsClosed part) (hacyclic : g.IsAcyclic part)
    (hdefined : ∀ r ∈ part, (g.symbol r).shape ≠ .implicit none ∧ (g.symbol r).shape ≠ .foreign)
    (href : ref ∈ part) (hskip : skip ∈ part ∨ skip = .zeroLength) (hs : Stands text guard p s)
    (limit : Nat) :
    Ends (matchWithin g limit ref skip) s
      (Answered (Yields (α := α) g text ref skip guard p) text p s)
      (Failed (fun e => e = .nestedTooDeeply) guard) := by
  have href' : ref ∈ insert Ref.zeroLength part := mem_insert_zeroLength (.inl href)
  have hskip' := mem_insert_zeroLength hskip
  have hdefined' : ∀ r, r ∈ insert Ref.zeroLength part ∨ r = .zeroLength →
      (g.symbol r).shape ≠ .implicit none ∧ (g.symbol r).shape ≠ .foreign := by
    intro r hr
    rcases hr with hr | rfl
    · rcases Finset.mem_insert.mp hr with rfl | hr
      · exact ⟨nofun, nofun⟩
      · exact hdefined r hr
    · exact ⟨nofun, nofun⟩
  have hroom := matchWithRoom_eq (α := α) hclosed.insert_zeroLength hacyclic.insert_zeroLength
    href' hskip' hs limit
  refine .congr hroom.symm ((matchWithRoom_answers hclosed.insert_zeroLength
    hacyclic.insert_zeroLength href' hskip' hs True limit (by simp)).mono (fun _ _ h => h) ?_)
  rintro e s' ⟨hfatal, hguard⟩
  refine ⟨?_, hguard⟩
  cases hfatal with
  | neverDefined hmem hshape => exact absurd hshape (hdefined' _ hmem).1
  | noAttribute hmem hshape => exact absurd hshape (hdefined' _ hmem).2
  | nestedTooDeeply => rfl

end Part

/-! ### The loops -/

/-- Asked for the symbol at the position, the answer is that of the rules, or an error that has
    nothing to do with nesting. -/
def Answers (g : Graph) (text : List Char) (guard : Guard) (ask : Ask α) (ref skip : Ref)
    (p : Nat) : Prop :=
  ∀ s, Stands text guard p s → Ends (ask ref skip) s
    (Answered (Yields g text ref skip guard p) text p s) fun e _ => e ≠ .nestedTooDeeply

/-- However the step ends, it is not for its nesting. -/
def Shallow (x : MatchM β) (s : MatchState) : Prop :=
  Ends x s (fun _ _ => True) fun e _ => e ≠ .nestedTooDeeply

/-- Asked for the symbol at one of the seams, the answer is that of the rules, or an error that has
    nothing to do with nesting; and where the symbol leaves off is a seam again. -/
def Settles (g : Graph) (text : List Char) (guard : Guard) (ask : Ask α) (seam : Nat → Prop)
    (ref skip : Ref) : Prop :=
  ∀ q, seam q → Answers g text guard ask ref skip q ∧
    ∀ answer reach, Yields (α := α) g text ref skip guard q answer reach →
      seam (landing q answer)

/-- Every place from some place on can be taken for a seam. -/
theorem Settles.of_le {ask : Ask α} {ref skip : Ref} {p : Nat}
    (h : ∀ q, p ≤ q → Answers g text guard ask ref skip q) :
    Settles g text guard ask (p ≤ ·) ref skip :=
  fun q hq => ⟨h q hq, fun _ _ hyields => Nat.le_trans hq hyields.advances.landing_between.1⟩

/-- A symbol is asked for at the place, and behind it some others, with something skipped in front
    of each. -/
structure SettlesBehind (g : Graph) (text : List Char) (guard : Guard) (ask : Ask α) (skip : Ref)
    (p : Nat) (first : Ref) (rest : List Ref) : Prop where
  leads : Answers g text guard ask first skip p
  follow : ∀ token r reach, Yields (α := α) g text first skip guard p (some (token, r)) reach →
    ∃ seam : Nat → Prop, seam r ∧ Settles g text guard ask seam skip .zeroLength ∧
      ∀ member ∈ rest, Settles g text guard ask seam member skip

section Loops

variable {ask : Ask α} {skip : Ref} {s : MatchState} {p : Nat} {name : Name} {seam : Nat → Prop}

theorem skipBefore_shallow (seam : Nat → Prop) (found : List (Token α))
    (hs : Stands text guard p s) (hp : seam p)
    (hskip : found ≠ [] → Settles g text guard ask seam skip .zeroLength) :
    Ends (skipBefore ask skip found) s (fun _ s' => ∃ q, seam q ∧ Stands text guard q s')
      fun e _ => e ≠ .nestedTooDeeply := by
  unfold skipBefore
  cases found with
  | nil => exact .of_ok rfl ⟨p, hp, hs⟩
  | cons token found =>
    obtain ⟨hanswers, hlanding⟩ := hskip (by simp) p hp
    refine .bind (hanswers s hs) ?_
    rintro token? s' ⟨answer, reach, hyields, -, hlands⟩
    exact .of_ok rfl ⟨_, hlanding answer reach hyields, hlands.stands hs⟩

theorem matchMembers_shallow (members : List Ref) (stop : Int) (found : List (Token α))
    (hs : Stands text guard p s) (hp : seam p)
    (hskip : Settles g text guard ask seam skip .zeroLength)
    (hmembers : ∀ member ∈ members, Settles g text guard ask seam member skip) :
    Shallow (matchMembers ask skip stop found members) s := by
  induction members generalizing s p stop found with
  | nil => exact .of_ok rfl trivial
  | cons member members ih =>
    rw [List.forall_mem_cons] at hmembers
    unfold Shallow matchMembers
    refine .bind (skipBefore_shallow seam found hs hp fun _ => hskip) ?_
    rintro - s₁ ⟨q, hq, hs₁⟩
    obtain ⟨hanswers, hlanding⟩ := hmembers.1 q hq
    refine .bind (hanswers s₁ hs₁) ?_
    rintro token? s₂ ⟨answer, reach, hyields, rfl, hlands⟩
    cases answer with
    | none => exact .of_ok rfl trivial
    | some found' =>
      obtain ⟨token, r⟩ := found'
      have hlater := fun stop => ih stop (token :: found) (hlands.stands hs₁)
        (hlanding _ reach hyields) hmembers.2
      cases hempty : token.isEmpty
      all_goals
        simp only [Option.map_some, hempty, if_true, Bool.false_eq_true, if_false]
        exact .bind_ok rfl (hlater _)

theorem matchAlternatives_shallow (members : List Ref) (ordinal : Nat)
    (hs : Stands text guard p s)
    (hmembers : ∀ member ∈ members, Answers g text guard ask member skip p) :
    Shallow (matchAlternatives g ask skip p ordinal members) s := by
  induction members generalizing s ordinal with
  | nil => exact .of_ok rfl trivial
  | cons member members ih =>
    rw [List.forall_mem_cons] at hmembers
    unfold Shallow matchAlternatives
    refine .bind (isInProgress_ends _ s) ?_
    rintro inProgress _ ⟨-, rfl⟩
    cases inProgress with
    | true => exact ih (ordinal + 1) hs hmembers.2
    | false =>
      refine .bind (hmembers.1 s hs) ?_
      rintro token? s₁ ⟨answer, reach, hyields, rfl, hlands⟩
      cases answer with
      | some found => exact .of_ok rfl trivial
      | none => exact ih (ordinal + 1) (hlands.stands hs) hmembers.2

/-- What a round of a repetition comes to, if what it asks for is answered and the rounds behind it
    are not nested too deeply. -/
theorem matchRound_shallow (seam : Nat → Prop) (inner : Ref) (rounds : Nat) (stop : Int)
    (afterEmpty : Bool) (found : List (Token α))
    (hskip : Ends (skipBefore ask skip found) s (fun _ s' => ∃ q, seam q ∧ Stands text guard q s')
      fun e _ => e ≠ .nestedTooDeeply)
    (hinner : ∀ q, seam q → Answers g text guard ask inner skip q)
    (hlater : ∀ q token r reach, seam q →
      Yields g text inner skip guard q (some (token, r)) reach → ∀ s stop afterEmpty,
        Stands text guard r s →
        Shallow (matchRounds ask skip inner rounds stop afterEmpty (token :: found)) s) :
    Shallow (matchRounds ask skip inner (rounds + 1) stop afterEmpty found) s := by
  unfold Shallow matchRounds
  refine .bind hskip ?_
  rintro - s₁ ⟨q, hq, hs₁⟩
  refine .bind (hinner q hq s₁ hs₁) ?_
  rintro token? s₂ ⟨answer, reach, hyields, rfl, hlands⟩
  cases answer with
  | none => exact .of_ok rfl trivial
  | some found' =>
    obtain ⟨token, r⟩ := found'
    have hlater := fun stop afterEmpty =>
      hlater q token r reach hq hyields s₂ stop afterEmpty (hlands.stands hs₁)
    simp only [Option.map_some]
    split
    · exact .bind_ok rfl (hlater _ _)
    · split
      · exact .of_ok rfl trivial
      · exact hlater _ _

theorem matchRounds_shallow (inner : Ref) (rounds : Nat) (stop : Int) (afterEmpty : Bool)
    (found : List (Token α)) (hs : Stands text guard p s) (hp : seam p)
    (hskip : Settles g text guard ask seam skip .zeroLength)
    (hinner : Settles g text guard ask seam inner skip) :
    Shallow (matchRounds ask skip inner rounds stop afterEmpty found) s := by
  induction rounds generalizing s p stop afterEmpty found with
  | zero => exact .of_ok rfl trivial
  | succ rounds ih =>
    refine matchRound_shallow seam inner rounds stop afterEmpty found
      (skipBefore_shallow seam found hs hp fun _ => hskip) (fun q hq => (hinner q hq).1) ?_
    intro q token r reach hq hyields s stop afterEmpty hs
    exact ih stop afterEmpty (token :: found) hs ((hinner q hq).2 _ reach hyields)

end Loops

/-! ### The shapes -/

section Shapes

variable {ask : Ask α} {skip : Ref} {s : MatchState} {p : Nat} {name : Name}

theorem onStream_shallow {op : StreamM β} {s : MatchState}
    (h : ∀ stream, op s.stream ≠ .error .nestedTooDeeply stream) : Shallow (onStream op) s := by
  cases hrun : op s.stream with
  | ok b stream => exact .of_ok (onStream_ok hrun) trivial
  | error e stream =>
    exact .of_error (onStream_error hrun) fun heq => h stream (by rw [hrun, heq])

theorem discard_shallow (s : MatchState) : Shallow (onStream Stream.discard) s := by
  refine onStream_shallow fun stream h => ?_
  rw [Stream.discard, Step.get_bind] at h
  cases hsaved : s.stream.saved <;> simp only [hsaved] at h <;> cases h

theorem revert_shallow (s : MatchState) : Shallow (onStream Stream.revert) s := by
  refine onStream_shallow fun stream h => ?_
  rw [Stream.revert, Step.get_bind] at h
  cases hsaved : s.stream.saved <;> simp only [hsaved] at h <;> cases h

theorem spanToken_shallow (kind : Kind) (start stop : Int) (children : List (Token α))
    (s : MatchState) : Shallow (spanToken kind name start stop children) s := by
  have hregress : ∀ (count : Int) (s : MatchState),
      Shallow (onStream (Stream.regress count)) s := by
    intro count s
    refine onStream_shallow fun stream h => ?_
    unfold Stream.regress at h
    by_cases hneg : count < 0
    · simp only [hneg, if_true] at h
      cases h
    · simp only [hneg, if_false, Step.get_bind] at h
      split at h <;> cases h
  have hsubstring : ∀ (count : Int) (s : MatchState),
      Shallow (onStream (Stream.substring count)) s := by
    intro count s
    refine onStream_shallow fun stream h => ?_
    unfold Stream.substring at h
    rw [Step.get_bind] at h
    split at h <;> cases h
  refine .bind_ok rfl (.bind (hregress _ s) fun _ s₁ _ => .bind (hsubstring _ s₁) fun _ s₂ _ => ?_)
  exact .of_ok rfl trivial

/-- The first member is matched where the sequence is, and the others behind it. -/
theorem matchSequence_shallow (members : List Ref) (hs : Stands text guard p s)
    (hmembers : ∀ first rest, members = first :: rest →
      SettlesBehind g text guard ask skip p first rest) :
    Shallow (matchSequence ask name skip members) s := by
  have hall : Shallow (matchMembers ask skip p [] members) (s.saving p) := by
    cases members with
    | nil => exact .of_ok rfl trivial
    | cons first rest =>
      obtain ⟨hfirst, hrest⟩ := hmembers first rest rfl
      unfold Shallow matchMembers
      refine .bind_ok rfl (.bind (hfirst _ hs.saving) ?_)
      rintro token? s₁ ⟨answer, reach, hyields, rfl, hlands⟩
      cases answer with
      | none => exact .of_ok rfl trivial
      | some found =>
        obtain ⟨token, r⟩ := found
        obtain ⟨seam, hr, hskip, hrest⟩ := hrest token r reach hyields
        have hlater := fun stop =>
          matchMembers_shallow rest stop [token] (hlands.stands hs.saving) hr hskip hrest
        cases hempty : token.isEmpty
        all_goals
          simp only [Option.map_some, hempty, if_true, Bool.false_eq_true, if_false]
          exact .bind_ok rfl (hlater _)
  refine .bind_ok rfl (.bind_ok (saving_run hs) ?_)
  rw [hs.reads.position]
  refine .bind hall fun result? s₁ _ => ?_
  cases result? with
  | none => exact .bind (revert_shallow s₁) fun _ _ _ => .of_ok rfl trivial
  | some result =>
    exact .bind (discard_shallow s₁) fun _ s₂ _ =>
      .bind (spanToken_shallow _ _ _ _ s₂) fun _ _ _ => .of_ok rfl trivial

/-- The first round is matched where the repetition is, and the others behind it. -/
theorem matchMultiple_shallow (inner : Ref) (hs : Stands text guard p s)
    (h : SettlesBehind g text guard ask skip p inner [inner]) :
    Shallow (matchMultiple ask name skip inner) s := by
  have hrounds : ∀ rounds stop,
      Shallow (matchRounds ask skip inner rounds stop false []) s := by
    intro rounds stop
    cases rounds with
    | zero => exact .of_ok rfl trivial
    | succ rounds =>
      refine matchRound_shallow (g := g) (· = p) inner rounds stop false []
        (skipBefore_shallow (g := g) (· = p) [] hs rfl fun hne => absurd rfl hne)
        (fun q hq => hq ▸ h.leads) ?_
      rintro q token r reach rfl hyields s stop afterEmpty hs
      obtain ⟨seam, hr, hskip, hinner⟩ := h.follow token r reach hyields
      exact matchRounds_shallow inner rounds stop afterEmpty [token] hs hr hskip
        (hinner inner (List.mem_singleton_self inner))
  refine .bind_ok rfl (.bind_ok rfl (.bind (hrounds _ _) fun result s₁ _ => ?_))
  simp only
  split
  · exact .of_ok rfl trivial
  · exact .bind (spanToken_shallow _ _ _ _ s₁) fun _ _ _ => .of_ok rfl trivial

end Shapes

/-! ### One level -/

/-- What a symbol asks for inside is answered. -/
def AnswersInside (g : Graph) (text : List Char) (guard : Guard) (ask : Ask α) (ref skip : Ref)
    (p : Nat) : Prop :=
  let inside := skipInside (g.symbol ref).name skip
  let guard' := ((g.symbol ref).name, (p : Int)) :: guard
  match (g.symbol ref).shape with
  | .implicit (some target) => Answers g text guard ask target skip p
  | .sequence members => ∀ first rest, members = first :: rest →
      SettlesBehind g text guard' ask inside p first rest
  | .junction members => ∀ member ∈ members, Answers g text guard' ask member inside p
  | .multiple inner => SettlesBehind g text guard' ask inside p inner [inner]
  | .option inner | .star inner => Answers g text guard' ask inner inside p
  | _ => True

theorem guarded_shallow {name : Name} {body : MatchM (Option (Token α))} {p : Nat}
    {s : MatchState} (hs : Stands text guard p s)
    (hbody : ∀ s, Stands text ((name, (p : Int)) :: guard) p s → Shallow body s) :
    Shallow (guarded name body) s := by
  unfold Shallow Ends guarded
  simp only
  by_cases hmem : (name, s.stream.position) ∈ s.guard
  · simp only [hmem, if_true]
  · simp only [hmem, if_false]
    have hinside : Stands text ((name, (p : Int)) :: guard) p
        (s.enter (name, s.stream.position)) :=
      ⟨hs.reads, by rw [MatchState.enter, hs.guard_eq, hs.reads.position]⟩
    rcases (hbody _ hinside).elim with ⟨token?, s', hrun, -⟩ | ⟨e, s', hrun, he⟩
    · rw [hrun]
      cases token? <;> trivial
    · rw [hrun]
      cases e with
      | exhausted cause => trivial
      | _ => exact he

/-- One level above what is answered inside a symbol, the symbol is answered. -/
theorem matchWithin_answers_of_inside {limit : Nat} {ref skip : Ref} {p : Nat}
    (h : AnswersInside (α := α) g text guard (matchWithin g limit) ref skip p) :
    Answers (α := α) g text guard (matchWithin g (limit + 1)) ref skip p := by
  intro s hs
  suffices hshallow : Shallow (matchStep g (matchWithin (α := α) g limit) ref skip) s by
    rcases hshallow.elim with ⟨token?, s', hrun, -⟩ | ⟨e, s', hrun, he⟩
    -- What the answer is, if there is one, holds of any limit.
    · have hends := matchWithin_obeys (α := α) g text (limit + 1) guard ref skip trivial trivial
        p s (Nat.zero_le p) hs
      rw [Ends, matchWithin, hrun] at hends
      exact .of_ok hrun hends
    · exact .of_error hrun he
  rcases (g.symbol ref).shape.guarded_or with
    hguarded | hundefined | ⟨target, himplicit⟩ | hzero | hforeign
  · rw [matchStep_guarded skip hguarded]
    refine guarded_shallow hs fun s hs => ?_
    cases hshape : (g.symbol ref).shape <;> simp only [AnswersInside, hshape] at h
    case sequence members => exact matchSequence_shallow (g := g) members hs h
    case junction members =>
      refine .bind_ok rfl ?_
      rw [hs.reads.position]
      refine .bind (matchAlternatives_shallow members 0 hs h) fun result? s' _ => ?_
      cases result? <;> exact .of_ok rfl trivial
    case multiple inner => exact matchMultiple_shallow (g := g) inner hs h
    case option inner =>
      refine .bind (h s hs) fun token? s' _ => ?_
      cases token? <;> exact .of_ok rfl trivial
    case star repetition =>
      refine .bind (h s hs) fun token? s' _ => ?_
      cases token? <;> exact .of_ok rfl trivial
    case implicit | zeroLength | foreign =>
      rw [hshape] at hguarded
      cases hguarded
    -- The shapes that read characters fail at the end of the text only.
    all_goals
      refine (shapeBody_delivers rfl s hs).mono (fun _ _ _ => trivial) ?_
      rintro e s' ⟨⟨cause, rfl⟩, -⟩ ⟨⟩
  · rw [matchStep_undefined hundefined]
    exact .of_error rfl (by rintro ⟨⟩)
  · rw [matchStep_implicit himplicit]
    simp only [AnswersInside, himplicit] at h
    exact (h s hs).mono (fun _ _ _ => trivial) fun _ _ h => h
  · rw [matchStep_zeroLength hzero]
    exact .of_ok rfl trivial
  · rw [matchStep_foreign hforeign]
    exact .of_error rfl (by rintro ⟨⟩)

/-! ### Limits that are enough -/

/-- The matches inside a symbol fit into a limit, wherever it is matched from the position on. -/
def FitsWithin (α : Type) (g : Graph) (text : List Char) :
    (limit : Nat) → (ref skip : Ref) → (p : Nat) → Prop
  | 0, _, _, _ => False
  | limit + 1, ref, skip, p =>
    let inside := skipInside (g.symbol ref).name skip
    match (g.symbol ref).shape with
    | .implicit (some target) => FitsWithin α g text limit target skip p
    | .sequence members => ∀ first rest, members = first :: rest →
      FitsWithin α g text limit first inside p ∧
        ∀ guard token r reach,
          Yields (α := α) g text first inside guard p (some (token, r)) reach → ∀ q, r ≤ q →
            FitsWithin α g text limit inside .zeroLength q ∧
              ∀ member ∈ rest, FitsWithin α g text limit member inside q
    | .junction members => ∀ member ∈ members, FitsWithin α g text limit member inside p
    | .multiple inner => ∀ q, p ≤ q → FitsWithin α g text limit inside .zeroLength q ∧
      FitsWithin α g text limit inner inside q
    | .option inner | .star inner => FitsWithin α g text limit inner inside p
    | _ => True

theorem FitsWithin.zeroLength {limit : Nat} {skip : Ref} {p : Nat} :
    FitsWithin α g text (limit + 1) .zeroLength skip p := by
  rw [FitsWithin]
  trivial

/-- One level above its parts a symbol fits in, if they and skipping fit in wherever they are
    matched. -/
theorem FitsWithin.of_parts {symbol : Symbol} {limit : Nat} {ref skip : Ref} {p : Nat}
    (hsymbol : g.symbol ref = symbol)
    (hparts : ∀ r ∈ symbol.shape.refs, ∀ q, p ≤ q →
      FitsWithin α g text limit r (skipInside symbol.name skip) q)
    (hskips : symbol.shape.kind = .plain .sequence ∨ symbol.shape.kind = .plain .multiple →
      ∀ q, FitsWithin α g text limit (skipInside symbol.name skip) .zeroLength q)
    (hthrough : ∀ target, symbol.shape = .implicit (some target) →
      FitsWithin α g text limit target skip p) :
    FitsWithin α g text (limit + 1) ref skip p := by
  rw [FitsWithin, hsymbol]
  obtain ⟨name, shape⟩ := symbol
  cases shape with
  | implicit target? =>
    cases target? with
    | none => trivial
    | some target => exact hthrough target rfl
  | sequence members =>
    rintro first rest rfl
    refine ⟨hparts first List.mem_cons_self p (Nat.le_refl p), ?_⟩
    intro guard token r reach hyields q hq
    have hpq := Nat.le_trans hyields.advances.1 hq
    exact ⟨hskips (.inl rfl) q,
      fun member hmember => hparts member (List.mem_cons_of_mem _ hmember) q hpq⟩
  | junction members => exact fun member hmember => hparts member hmember p (Nat.le_refl p)
  | multiple inner =>
    exact fun q hq => ⟨hskips (.inr rfl) q, hparts inner (List.mem_singleton_self inner) q hq⟩
  | option inner | star inner =>
    exact hparts inner (List.mem_singleton_self inner) p (Nat.le_refl p)
  | _ => trivial

/-- A limit that the matches inside a symbol fit into is enough: the match is not nested too
    deeply. -/
theorem matchWithin_answers_of_fits {limit : Nat} {ref skip : Ref} {p : Nat}
    (hfits : FitsWithin α g text limit ref skip p) :
    Answers (α := α) g text guard (matchWithin g limit) ref skip p := by
  induction limit generalizing guard ref skip p with
  | zero => exact hfits.elim
  | succ limit ih =>
    refine matchWithin_answers_of_inside ?_
    unfold AnswersInside
    cases hshape : (g.symbol ref).shape <;> simp only [FitsWithin, hshape] at hfits ⊢
    case implicit target? =>
      cases target? with
      | none => trivial
      | some target => exact ih hfits
    case sequence members =>
      intro first rest hmembers
      obtain ⟨hfirst, hrest⟩ := hfits first rest hmembers
      refine ⟨ih hfirst, fun token r reach hyields => ?_⟩
      have hlater := hrest _ token r reach hyields
      exact ⟨(r ≤ ·), Nat.le_refl r, .of_le fun q hq => ih (hlater q hq).1,
        fun member hmember => .of_le fun q hq => ih ((hlater q hq).2 member hmember)⟩
    case junction members => exact fun member hmember => ih (hfits member hmember)
    case multiple inner =>
      refine ⟨ih (hfits p (Nat.le_refl p)).2, fun token r reach hyields => ?_⟩
      refine ⟨(p ≤ ·), hyields.advances.1, .of_le fun q hq => ih (hfits q hq).1, ?_⟩
      exact List.forall_mem_singleton.mpr (.of_le fun q hq => ih (hfits q hq).2)
    case option inner | star inner => exact ih hfits

end GrammarEngine
