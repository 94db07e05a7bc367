import GrammarEngine.Proofs.Anchors
import GrammarEngine.Proofs.Notation.Outcome
import GrammarEngine.Proofs.Notation.Refusing

namespace GrammarEngine

/-!
# What is to blame for a text that is refused

A grammar text of the right form is refused for the first fault in its tree, where that stands. If
there is none, it has a grammar exactly if all names in it are defined.

* `Token.under_of_postorder` — the tokens of a tree are under it;
* `Notation.within_of_firstFault` — what is faulty stands in the text;
* `Notation.anchored_of_firstFault`, `Notation.completes_of_noFault` — what comes of a grammar text
  with a fault in its tree, and without one;
* `Notation.compile_blames` — what comes of a grammar text, as seen in its tree;
* `Notation.compile_blames_escape` — the items of a class are looked at behind all escapes in it.
-/

/-! ### Where tokens stand -/

mutual

theorem Token.under_of_postorder {α : Type} (t : Token α) (skip : Ref) :
    ∀ t' ∈ t.postorder, ∃ skip', Under skip t skip' t' := by
  match t with
  | .sentinel which =>
    rw [Token.postorder]
    exact List.forall_mem_singleton.mpr ⟨skip, .self⟩
  | .node header children payload =>
    rw [Token.postorder, List.forall_mem_append]
    refine ⟨fun t' ht' => ?_, List.forall_mem_singleton.mpr ⟨skip, .self⟩⟩
    obtain ⟨child, hchild, skip', hunder⟩ :=
      Token.under_of_postorderOf children (skipInside header.name skip) t' ht'
    exact ⟨skip', .child hchild hunder⟩

theorem Token.under_of_postorderOf {α : Type} (ts : List (Token α)) (skip : Ref) :
    ∀ t' ∈ Token.postorderOf ts, ∃ t ∈ ts, ∃ skip', Under skip t skip' t' := by
  match ts with
  | [] =>
    rw [Token.postorderOf]
    exact fun t' ht' => absurd ht' List.not_mem_nil
  | t :: ts =>
    rw [Token.postorderOf, List.forall_mem_append]
    refine ⟨fun t' ht' => ⟨t, List.mem_cons_self, t.under_of_postorder skip t' ht'⟩,
      fun t' ht' => ?_⟩
    obtain ⟨t'', hmem, hunder⟩ := Token.under_of_postorderOf ts skip t' ht'
    exact ⟨t'', List.mem_cons_of_mem _ hmem, hunder⟩

end

namespace Notation

variable {defined : List String} {ts : List (Token Value)} {t root : Token Value} {fault : Fault}
  {text : List Char} {skip : Ref}

/-- The items of a class are under it. -/
theorem under_of_classItems {item : Token Value} (h : item ∈ classItems t) (skip : Ref) :
    ∃ skip', Under skip t skip' item := by
  unfold classItems at h
  split at h
  · rename_i items _ hbody
    cases hchildren : t.children with
    | nil =>
      rw [hchildren] at hbody
      cases hbody
    | cons body rest =>
      rw [hchildren, List.headD_cons] at hbody
      have hitems : items ∈ body.children := by simp [hbody]
      exact ⟨_, .child (hchildren ▸ List.mem_cons_self) (.child hitems (.child h .self))⟩
  · cases h

/-- The first fault is with a token, or with an item of a class. -/
theorem faultAt_token (h : faultAt defined t = some fault) :
    fault.token = t ∨ fault.token ∈ classItems t := by
  unfold faultAt at h
  split at h
  · split at h <;> cases h
    exact .inl rfl
  · split at h
    · obtain ⟨item, hitem, hfault⟩ := List.exists_of_findSome?_eq_some h
      unfold itemFault at hfault
      split at hfault <;> cases hfault
      exact .inr hitem
    · split at h
      · unfold ruleFault at h
        split at h
        · cases h
          exact .inl rfl
        · split at h <;> cases h
          exact .inl rfl
      · cases h

theorem exists_of_firstFault (h : firstFault defined ts = some fault) :
    ∃ t ∈ ts, ∃ defined', faultAt defined' t = some fault := by
  induction ts generalizing defined with
  | nil => cases h
  | cons t ts ih =>
    rw [firstFault, Option.or_eq_some_iff] at h
    rcases h with hfirst | ⟨-, hrest⟩
    · exact ⟨t, List.mem_cons_self, defined, hfirst⟩
    · obtain ⟨t', hmem, hfault⟩ := ih hrest
      exact ⟨t', List.mem_cons_of_mem _ hmem, hfault⟩

/-- What is faulty stands in the text. -/
theorem within_of_firstFault {g : Graph} (htrip : RoundTrip g text skip root)
    (h : firstFault defined root.postorder = some fault) :
    0 ≤ fault.token.start ∧ fault.token.start ≤ text.length := by
  obtain ⟨t, ht, defined', hfault⟩ := exists_of_firstFault h
  obtain ⟨skip₁, hunder⟩ := root.under_of_postorder skip t ht
  obtain ⟨skip₂, hunder'⟩ : ∃ skip₂, Under skip root skip₂ fault.token := by
    rcases faultAt_token hfault with htoken | hitem
    · exact ⟨skip₁, htoken ▸ hunder⟩
    · obtain ⟨skip₂, hitem⟩ := under_of_classItems hitem skip₁
      exact ⟨skip₂, hunder.trans hitem⟩
  obtain ⟨p, stop, hspans, -⟩ := (htrip _ _ hunder').span
  have hle := hspans.le
  have hlength := hspans.le_length
  rw [hspans.start_eq]
  omega

/-! ### What comes of a text -/

section

variable {limit : Nat} {source : String} {s : MatchState}

/-- What an error in the walk of a tree comes to, where the text is in memory. -/
theorem settled_eq_placed (hmatch : grammar.matchInput limit (.beginning source) = .ok root s)
    (e : Error) :
    Grammar.settled root s e = e.placed source.toList.toArray root.start := by
  obtain ⟨s', hok, hreads, hmemory, -⟩ := Grammar.isOf_accepted hmatch
  cases hmatch.symm.trans hok
  obtain ⟨s'', hfail, -⟩ := Grammar.failWalk_whole (β := Empty) (hreads.isWhole hmemory) root e
  rw [Grammar.settled, hfail]

theorem Completes.mapError {β : Type} {used defined : List String} {result : Except Error β}
    {f : Error → Error} (h : Completes used defined result)
    (hf : ∀ names, f (.configuration (.undefinedRules names)) =
      .configuration (.undefinedRules names)) : Completes used defined (result.mapError f) where
  ok_iff := by
    rw [← h.ok_iff]
    cases result with
    | ok b => rfl
    | error e => exact ⟨fun hok => (nomatch hok), fun hok => (nomatch hok)⟩
  undefined hnot := by
    obtain ⟨names, rfl, hnames⟩ := h.undefined hnot
    exact ⟨names, congrArg Except.error (hf names), hnames⟩

/-- A text with a fault in its tree is refused for the first one, where that stands. -/
theorem anchored_of_firstFault (hmatch : grammar.matchInput limit (.beginning source) = .ok root s)
    (hfault : firstFault [] root.postorder = some fault) :
    Grammar.IsAnchored source fault.token fault.message (compile limit source).result := by
  have hparsed := parsed_of_matchInput hmatch
  obtain ⟨rts, hshows⟩ := made_grammar hparsed
  have hresult := compileWith_eq rfl hmatch hshows.isGrammar
  have hmistake := hshows.mistake
  rw [hfault, Option.map_some] at hmistake
  obtain ⟨hstart, hle⟩ := within_of_firstFault (hparsed.roundTrip (by decide)) hfault
  have hlocate : locate source.toList.toArray fault.token.start =
      whereabouts source.toList fault.token.start.toNat := by
    rw [← locate_natCast, Int.toNat_of_nonneg hstart]
  refine ⟨?_, ⟨hstart, hle⟩, by simp [whereabouts], by simp [whereabouts]⟩
  rw [compile, hresult, buildGrammar_mistake hshows.isNamed hmistake, Except.mapError,
    settled_eq_placed hmatch, ← hlocate]
  rfl

/-- A text without a fault in its tree has a grammar if all names in it are defined. -/
theorem completes_of_noFault (hmatch : grammar.matchInput limit (.beginning source) = .ok root s)
    (hnone : firstFault [] root.postorder = none) :
    Completes (usedIn root.postorder) (definedIn root.postorder) (compile limit source).result := by
  obtain ⟨rts, hshows⟩ := made_grammar (parsed_of_matchInput hmatch)
  have hresult := compileWith_eq rfl hmatch hshows.isGrammar
  have hmistake := hshows.mistake
  rw [hnone, Option.map_none] at hmistake
  rw [compile, hresult, hshows.usedIn, hshows.definedIn]
  exact (buildGrammar_completes hshows.isNamed hmistake).mapError fun names =>
    settled_eq_placed hmatch _

/-- What comes of a grammar text that has a tree. The first fault in the tree, each token behind
    those under it, is what the text is refused for, at the place of what is faulty. If there is no
    fault, the text has a grammar exactly if all names in it are defined, and else it is refused
    with those that are not. -/
theorem compile_blames (hmatch : grammar.matchInput limit (.beginning source) = .ok root s) :
    (∀ fault, firstFault [] root.postorder = some fault →
      Grammar.IsAnchored source fault.token fault.message (compile limit source).result) ∧
    (firstFault [] root.postorder = none →
      Completes (usedIn root.postorder) (definedIn root.postorder)
        (compile limit source).result) :=
  ⟨fun _ hfault => anchored_of_firstFault hmatch hfault,
    fun hnone => completes_of_noFault hmatch hnone⟩

end

/-- What holds of the tree of a text, if there is one and a check says so. -/
theorem exists_of_check {source : String} {check : Token Value → Bool}
    (h : (match grammar.matchInput nestingLimit (.beginning source) with
      | .ok root _ => check root
      | .error _ _ => false) = true) :
    ∃ root s, grammar.matchInput nestingLimit (.beginning source) = .ok root s ∧
      check root = true := by
  split at h
  · rename_i root s hmatch
    exact ⟨root, s, hmatch, h⟩
  · cases h

/-- A rule that is just itself. -/
def circular : String := "a:a;"

/-- Names that are not defined, one of them used twice. -/
def incomplete : String := "a:c b c;"

theorem compile_blames_circular :
    (∃ root s, ∃ t : Token Value,
      grammar.matchInput nestingLimit (.beginning circular) = .ok root s ∧
      t.start = 0 ∧ Grammar.IsAnchored circular t "Delegation to another named symbol is forbidden"
        (compile nestingLimit circular).result) ∧
    ∃ root s, grammar.matchInput nestingLimit (.beginning incomplete) = .ok root s ∧
      Completes ["c", "b", "c"] ["a"] (compile nestingLimit incomplete).result := by
  constructor
  · obtain ⟨root, s, hmatch, hcheck⟩ := @exists_of_check circular
      (fun root => (firstFault [] root.postorder).any fun fault =>
        fault.token.start = 0 ∧ fault.message = "Delegation to another named symbol is forbidden")
      (by decide +kernel)
    obtain ⟨fault, hfault, hcheck⟩ := (Option.any_eq_true _ _).mp hcheck
    obtain ⟨hstart, hmessage⟩ := of_decide_eq_true hcheck
    exact ⟨root, s, fault.token, hmatch, hstart, hmessage ▸ (compile_blames hmatch).1 fault hfault⟩
  · obtain ⟨root, s, hmatch, hcheck⟩ := @exists_of_check incomplete
      (fun root => (firstFault [] root.postorder).isNone &&
        (usedIn root.postorder = ["c", "b", "c"] ∧ definedIn root.postorder = ["a"]))
      (by decide +kernel)
    rw [Bool.and_eq_true, Option.isNone_iff_eq_none, decide_eq_true_eq] at hcheck
    obtain ⟨hnone, hused, hdefined⟩ := hcheck
    exact ⟨root, s, hmatch, hused ▸ hdefined ▸ (compile_blames hmatch).2 hnone⟩

/-- A class with an item that is backwards, and behind it one with a malformed escape. -/
def doublyWrong : String := "a:[z-a\\u9999];"

/-- The items of a class are looked at behind all escapes in it: here the item comes first, and the
    text is refused for the escape. -/
theorem compile_blames_escape :
    ∃ root s item, grammar.matchInput nestingLimit (.beginning doublyWrong) = .ok root s ∧
      (root.postorder.find? fun t => isBackwards t || (faultAt [] t).isSome) = some item ∧
      isBackwards item = true ∧ item.start = 3 ∧
      ∃ e, (compile nestingLimit doublyWrong).result = .error (.parse e) ∧ e.isSemantic = true ∧
        e.position = 6 ∧ e.complaint = .custom "Malformed escape value (in '\\u9999')" := by
  obtain ⟨root, s, hmatch, hcheck⟩ := @exists_of_check doublyWrong
    (fun root =>
      ((root.postorder.find? fun t => isBackwards t || (faultAt [] t).isSome).any fun item =>
        isBackwards item = true ∧ item.start = 3) &&
      (firstFault [] root.postorder).any fun fault => fault.token.start = 6 ∧
        fault.error.complaint = .custom "Malformed escape value (in '\\u9999')")
    (by decide +kernel)
  rw [Bool.and_eq_true, Option.any_eq_true, Option.any_eq_true] at hcheck
  obtain ⟨⟨item, hfirst, hitem⟩, fault, hfault, hwrong⟩ := hcheck
  obtain ⟨hbackwards, hstart⟩ := of_decide_eq_true hitem
  obtain ⟨hposition, hcomplaint⟩ := of_decide_eq_true hwrong
  exact ⟨root, s, item, hmatch, hfirst, hbackwards, hstart, _,
    (anchored_of_firstFault hmatch hfault).reported, rfl, hposition, hcomplaint⟩

end Notation

end GrammarEngine
