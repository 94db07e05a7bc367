import Mathlib.Data.Finset.Prod
import GrammarEngine.Proofs.Correctness

namespace GrammarEngine

/-!
# From the root of a tree to its tips

The guard is about the matches in progress; here it is found again in the tree that comes of them.
A symbol is entered at the position where its token starts, so on a way down the tree no name comes
twice with the same start. Tokens that cover the empty text of the zero-length symbol have no start
of their own: those are only ever at the end of a way, and all of them were entered at one position.

* `Token.IsPath`, `keysOf` — a way down a tree, and the names and starts on it;
* `Graph.names` — the names that the tokens of a tree can have;
* `Fresh`, `AllEmpty` — what is true of the keys on a way;
* `Token.Fits` — what is true of a tree that a match made;
* `matchWithin_paths` — the keys on a way are distinct, were not in progress before, and are not
  more than names and places.
-/

variable {α : Type}

/-! ### Ways down a tree -/

/-- The tokens from the root of a tree down to one of its tips. -/
inductive Token.IsPath : Token α → List (Token α) → Prop
  | tip {t : Token α} (last : t.children = []) : IsPath t [t]
  | down {t child : Token α} {rest : List (Token α)} (mem : child ∈ t.children)
      (later : IsPath child rest) : IsPath t (t :: rest)

/-- What tells the matches in progress apart. -/
def Token.key (t : Token α) : Name × Int := (t.name, t.start)

/-- The keys of the tokens that symbols made. -/
def keysOf (path : List (Token α)) : List (Name × Int) := (path.filter Token.isNode).map Token.key

@[simp] theorem keysOf_nil : keysOf ([] : List (Token α)) = [] := rfl

@[simp] theorem keysOf_sentinel (which : Sentinel) (rest : List (Token α)) :
    keysOf (.sentinel which :: rest) = keysOf rest := rfl

@[simp] theorem keysOf_node (header : Header) (children : List (Token α)) (payload : Option α)
    (rest : List (Token α)) :
    keysOf (.node header children payload :: rest) = (header.name, header.start) :: keysOf rest :=
  rfl

theorem keysOf_sublist {path path' : List (Token α)} (h : path.Sublist path') :
    (keysOf path).Sublist (keysOf path') := (h.filter _).map _

theorem Token.IsPath.cases_node {header : Header} {children : List (Token α)}
    {payload : Option α} {path : List (Token α)}
    (h : Token.IsPath (.node header children payload) path) :
    ∃ rest, path = .node header children payload :: rest ∧
      (rest = [] ∨ ∃ child ∈ children, child.IsPath rest) := by
  cases h with
  | tip last => exact ⟨[], rfl, .inl rfl⟩
  | down mem later => exact ⟨_, rfl, .inr ⟨_, mem, later⟩⟩

theorem Token.IsPath.of_sentinel {which : Sentinel} {path : List (Token α)}
    (h : Token.IsPath (.sentinel which) path) : keysOf path = [] := by
  cases h with
  | tip last => rfl
  | down mem later => cases mem

/-! ### The names of a graph -/

/-- The names of the symbols of a graph. -/
def Graph.names (g : Graph) : Finset Name := (g.nodes.toList.map Symbol.name).toFinset

/-- A symbol that makes a token has one of the names. -/
theorem Graph.name_mem_names {g : Graph} {ref : Ref}
    (h : (g.symbol ref).shape.isGuarded = true) : (g.symbol ref).name ∈ g.names := by
  cases ref with
  | zeroLength | foreign => cases h
  | node index =>
    simp only [Graph.symbol, Array.getD_eq_getD_getElem?] at h ⊢
    cases hnode : g.nodes[index]? with
    | none =>
      rw [hnode] at h
      cases h
    | some symbol =>
      have hmem : symbol ∈ g.nodes.toList := (Array.mem_of_getElem? hnode).val
      exact List.mem_toFinset.mpr (List.mem_map_of_mem hmem)

/-- The names, each with every place that a token over a text can start at. -/
def Graph.places (g : Graph) (text : List Char) : Finset (Name × Int) :=
  g.names ×ˢ (Finset.range (text.length + 2)).image fun n : Nat => (n : Int) - 1

theorem Graph.card_places (g : Graph) (text : List Char) :
    (g.places text).card = g.names.card * (text.length + 2) := by
  have hinjective : Function.Injective fun n : Nat => (n : Int) - 1 := by
    intro n n' heq
    have hsame : (n : Int) - 1 = (n' : Int) - 1 := heq
    omega
  rw [places, Finset.card_product, Finset.card_image_of_injective _ hinjective, Finset.card_range]

/-! ### The keys on a way -/

variable {g : Graph} {text : List Char} {guard : Guard} {name : Name} {p : Nat}
  {keys keys' : List (Name × Int)}

/-- None of the keys comes twice, and none was in progress before. Where a key has no place of its
    own, the second one is up to `AllEmpty`. -/
structure Fresh (g : Graph) (text : List Char) (guard : Guard) (keys : List (Name × Int)) :
    Prop where
  nodup : keys.Nodup
  notMem : ∀ key ∈ keys, key.2 ≠ -1 → key ∉ guard
  placed : ∀ key ∈ keys, key ∈ g.places text

/-- All keys belong to tokens that cover the empty text of the zero-length symbol, and to matches
    that were entered at `p`. -/
def AllEmpty (guard : Guard) (p : Nat) (keys : List (Name × Int)) : Prop :=
  ∀ key ∈ keys, key.2 = -1 ∧ (key.1, (p : Int)) ∉ guard

theorem Fresh.nil : Fresh g text guard [] := ⟨List.nodup_nil, by simp, by simp⟩

theorem AllEmpty.nil : AllEmpty guard p [] := by simp [AllEmpty]

theorem Fresh.sublist (h : Fresh g text guard keys) (hsub : keys'.Sublist keys) :
    Fresh g text guard keys' where
  nodup := h.nodup.sublist hsub
  notMem key hkey := h.notMem key (hsub.subset hkey)
  placed key hkey := h.placed key (hsub.subset hkey)

theorem AllEmpty.sublist (h : AllEmpty guard p keys) (hsub : keys'.Sublist keys) :
    AllEmpty guard p keys' := fun key hkey => h key (hsub.subset hkey)

theorem Graph.mem_places {start : Int} (hname : name ∈ g.names) (hlow : -1 ≤ start)
    (hhigh : start ≤ text.length) : (name, start) ∈ g.places text :=
  Finset.mem_product.mpr ⟨hname, Finset.mem_image.mpr
    ⟨(start + 1).toNat, Finset.mem_range.mpr (by omega), by omega⟩⟩

/-- Inside a match that was entered at `p`, its own key does not come again. -/
theorem Fresh.cons (h : Fresh g text ((name, (p : Int)) :: guard) keys)
    (hfresh : (name, (p : Int)) ∉ guard) (hname : name ∈ g.names) (hp : p ≤ text.length) :
    Fresh g text guard ((name, (p : Int)) :: keys) where
  nodup := by
    refine List.nodup_cons.mpr ⟨fun hmem => ?_, h.nodup⟩
    exact h.notMem _ hmem (by simp) List.mem_cons_self
  notMem := by
    refine List.forall_mem_cons.mpr ⟨fun _ => hfresh, fun key hkey hplace hmem => ?_⟩
    exact h.notMem key hkey hplace (List.mem_cons_of_mem _ hmem)
  placed := List.forall_mem_cons.mpr
    ⟨Graph.mem_places hname (by omega) (Int.ofNat_le.mpr hp), h.placed⟩

/-- A token that covers what a token without a place covers has no place either. -/
theorem AllEmpty.cons (h : AllEmpty ((name, (p : Int)) :: guard) p keys)
    (hfresh : (name, (p : Int)) ∉ guard) : AllEmpty guard p ((name, -1) :: keys) := by
  refine List.forall_mem_cons.mpr ⟨⟨rfl, hfresh⟩, fun key hkey => ⟨(h key hkey).1, fun hmem => ?_⟩⟩
  exact (h key hkey).2 (List.mem_cons_of_mem _ hmem)

/-- Where no key has a place, the names tell them apart: all were entered at one position. -/
theorem Fresh.cons_empty (h : Fresh g text ((name, (p : Int)) :: guard) keys)
    (hempty : AllEmpty ((name, (p : Int)) :: guard) p keys) (hname : name ∈ g.names) :
    Fresh g text guard ((name, -1) :: keys) where
  nodup := by
    refine List.nodup_cons.mpr ⟨fun hmem => ?_, h.nodup⟩
    exact (hempty _ hmem).2 List.mem_cons_self
  notMem := by
    refine List.forall_mem_cons.mpr ⟨fun hplace => absurd rfl hplace, fun key hkey hplace => ?_⟩
    exact absurd (hempty key hkey).1 hplace
  placed := List.forall_mem_cons.mpr
    ⟨Graph.mem_places hname (Int.le_refl _) (by omega), h.placed⟩

/-! ### Trees that a match makes -/

/-- On each way down the tree of a match that was entered at `p` the keys are fresh, and they are
    all without a place if the first one is. -/
structure Token.Fits (g : Graph) (text : List Char) (guard : Guard) (p : Nat) (t : Token α) :
    Prop where
  start_eq : t.start = p ∨ t.start = -1
  fresh : ∀ path, t.IsPath path → Fresh g text guard (keysOf path)
  empty : t.start = -1 → ∀ path, t.IsPath path → AllEmpty guard p (keysOf path)

theorem Token.Fits.sentinel (which : Sentinel) :
    Token.Fits (α := α) g text guard p (.sentinel which) where
  start_eq := .inr rfl
  fresh path hpath := by
    rw [hpath.of_sentinel]
    exact .nil
  empty _ path hpath := by
    rw [hpath.of_sentinel]
    exact .nil

section Node

variable {header : Header} {children : List (Token α)} {payload : Option α}

/-- A token at the position where its symbol was entered, over tokens that were made meanwhile. -/
theorem Token.Fits.node (hstart : header.start = p) (hfresh : (header.name, (p : Int)) ∉ guard)
    (hname : header.name ∈ g.names) (hp : p ≤ text.length)
    (hchildren : ∀ t ∈ children, ∀ path, t.IsPath path →
      Fresh g text ((header.name, (p : Int)) :: guard) (keysOf path)) :
    Token.Fits g text guard p (.node header children payload) where
  start_eq := .inl hstart
  fresh path hpath := by
    obtain ⟨rest, rfl, hrest⟩ := hpath.cases_node
    have hbelow : Fresh g text ((header.name, (p : Int)) :: guard) (keysOf rest) := by
      rcases hrest with rfl | ⟨child, hmem, hchild⟩
      · exact .nil
      · exact hchildren child hmem rest hchild
    rw [keysOf_node, hstart]
    exact hbelow.cons hfresh hname hp
  empty hplace := by
    rw [start_node, hstart] at hplace
    omega

/-- A token that covers what another one covers, where each way below it is the end of a way down
    that one. -/
theorem Token.Fits.cover {covered : Token α}
    (h : covered.Fits g text ((header.name, (p : Int)) :: guard) p)
    (hstart : header.start = covered.start) (hfresh : (header.name, (p : Int)) ∉ guard)
    (hname : header.name ∈ g.names) (hp : p ≤ text.length)
    (hbelow : ∀ t ∈ children, ∀ path, t.IsPath path →
      ∃ path', covered.IsPath path' ∧ path.Sublist path') :
    Token.Fits g text guard p (.node header children payload) := by
  have hchildren : ∀ t ∈ children, ∀ path, t.IsPath path →
      Fresh g text ((header.name, (p : Int)) :: guard) (keysOf path) := by
    intro t ht path hpath
    obtain ⟨path', hpath', hsub⟩ := hbelow t ht path hpath
    exact (h.fresh path' hpath').sublist (keysOf_sublist hsub)
  rcases h.start_eq with hplace | hplace
  · exact .node (hstart.trans hplace) hfresh hname hp hchildren
  · -- The place is that of the empty text, all the way down.
    have hall : ∀ path, Token.IsPath (.node header children payload) path →
        ∃ keys, keysOf path = (header.name, -1) :: keys ∧
          Fresh g text ((header.name, (p : Int)) :: guard) keys ∧
          AllEmpty ((header.name, (p : Int)) :: guard) p keys := by
      intro path hpath
      obtain ⟨rest, rfl, hrest⟩ := hpath.cases_node
      refine ⟨keysOf rest, by rw [keysOf_node, hstart, hplace], ?_⟩
      rcases hrest with rfl | ⟨child, hmem, hchild⟩
      · exact ⟨.nil, .nil⟩
      · obtain ⟨path', hpath', hsub⟩ := hbelow child hmem rest hchild
        exact ⟨hchildren child hmem rest hchild,
          (h.empty hplace path' hpath').sublist (keysOf_sublist hsub)⟩
    refine ⟨.inr (hstart.trans hplace), fun path hpath => ?_, fun _ path hpath => ?_⟩
    · obtain ⟨keys, hkeys, hkeysFresh, hempty⟩ := hall path hpath
      rw [hkeys]
      exact hkeysFresh.cons_empty hempty hname
    · obtain ⟨keys, hkeys, -, hempty⟩ := hall path hpath
      rw [hkeys]
      exact hempty.cons hfresh

end Node

/-- The token around a single one. -/
theorem Token.Fits.over {kind : Kind} {covered : Token α} {ordinal : Nat}
    (h : covered.Fits g text ((name, (p : Int)) :: guard) p)
    (hfresh : (name, (p : Int)) ∉ guard) (hname : name ∈ g.names) (hp : p ≤ text.length) :
    Token.Fits g text guard p
      (.node ⟨kind, name, covered.substring, covered.start, ordinal⟩ [covered] none) := by
  refine .cover h rfl hfresh hname hp fun t ht path hpath => ?_
  obtain rfl := List.mem_singleton.mp ht
  exact ⟨path, hpath, .refl path⟩

/-- The token that takes the place of another one. -/
theorem Token.Fits.over_children {kind : Kind} {covered : Token α} {ordinal : Nat}
    (h : covered.Fits g text ((name, (p : Int)) :: guard) p)
    (hfresh : (name, (p : Int)) ∉ guard) (hname : name ∈ g.names) (hp : p ≤ text.length) :
    Token.Fits g text guard p
      (.node ⟨kind, name, covered.substring, covered.start, ordinal⟩ covered.children none) := by
  refine .cover h rfl hfresh hname hp fun t ht path hpath => ?_
  exact ⟨covered :: path, .down ht hpath, List.sublist_cons_self covered path⟩

theorem Token.Fits.leaf {kind : Kind} {substring : String} {ordinal : Nat}
    (hfresh : (name, (p : Int)) ∉ guard) (hname : name ∈ g.names) (hp : p ≤ text.length) :
    (Token.leaf (α := α) kind name substring p ordinal).Fits g text guard p :=
  .node rfl hfresh hname hp (by simp)

theorem readLeaf_leaf {shape : Shape} {reach : Nat} {found : Token α × Nat}
    (h : readLeaf text name p shape = some (some found, reach)) :
    ∃ kind substring ordinal, found.1 = .leaf kind name substring p ordinal := by
  cases shape <;> simp only [readLeaf, Option.some.injEq, Prod.mk.injEq, reduceCtorEq] at h
  case switch | anyCharacter =>
    obtain ⟨_, _, -, -, htoken, -⟩ := eq_of_readClass h.1
    exact ⟨_, _, _, htoken⟩
  case character =>
    obtain ⟨h, -⟩ := h
    unfold readCharacter at h
    split at h <;> cases h
    exact ⟨_, _, _, rfl⟩
  case text =>
    obtain ⟨h, -⟩ := h
    unfold readText at h
    split at h <;> cases h
    exact ⟨_, _, _, rfl⟩
  all_goals simp at h

mutual

theorem Yields.freshPaths {ref skip : Ref} {guard : Guard} {p reach : Nat} {answer : Answer α}
    (h : Yields g text ref skip guard p answer reach) (hp : p ≤ text.length) :
    ∀ found, answer = some found → found.1.Fits g text guard p := by
  rintro found hfound
  match h with
  | .zeroLength shape =>
    cases hfound
    exact .sentinel .empty
  | .implicit shape rule => exact rule.freshPaths hp found hfound
  | .inProgress guarded mem => cases hfound
  | .enter guarded fresh body =>
    exact body.freshPaths hp rfl fresh (Graph.name_mem_names guarded) found hfound

/-- Inside a shape its symbol is in progress, and the token is what that comes to. -/
theorem ShapeYields.freshPaths {shape : Shape} {name : Name} {skip : Ref} {guard outer : Guard}
    {p reach : Nat} {answer : Answer α}
    (h : ShapeYields g text shape name skip guard p answer reach) (hp : p ≤ text.length)
    (hguard : guard = (name, (p : Int)) :: outer) (hfresh : (name, (p : Int)) ∉ outer)
    (hname : name ∈ g.names) :
    ∀ found, answer = some found → found.1.Fits g text outer p := by
  rintro found hfound
  match h with
  | .leaf read =>
    subst hfound
    obtain ⟨kind, substring, ordinal, hleaf⟩ := readLeaf_leaf read
    rw [hleaf]
    exact .leaf hfresh hname hp
  | .sequence all =>
    cases hfound
    exact .node rfl hfresh hname hp (hguard ▸ all.freshPaths hp _ rfl)
  | .junction first =>
    cases hfound
    exact .over (hguard ▸ first.freshPaths hp _ rfl) hfresh hname hp
  | .multiple rounds found =>
    cases hfound
    exact .node rfl hfresh hname hp (hguard ▸ rounds.freshPaths hp)
  | .option present =>
    cases hfound
    exact .over (hguard ▸ present.freshPaths hp _ rfl) hfresh hname hp
  | .star present =>
    cases hfound
    exact .over_children (hguard ▸ present.freshPaths hp _ rfl) hfresh hname hp
  | .optionAbsent absent | .starAbsent absent =>
    cases hfound
    exact .leaf hfresh hname hp
  | .sequenceFails _ | .junctionFails _ | .multipleFails _ => cases hfound

theorem MembersYield.freshPaths {skip : Ref} {guard : Guard} {first : Bool} {p stop reach : Nat}
    {members : List Ref} {result : Option (Nat × List (Token α))}
    (h : MembersYield g text skip guard first p stop members result reach)
    (hp : p ≤ text.length) :
    ∀ found, result = some found → ∀ t ∈ found.2, ∀ path, t.IsPath path →
      Fresh g text guard (keysOf path) := by
  rintro found hfound
  match h with
  | .nil =>
    cases hfound
    simp
  | .cons skipped matched later =>
    cases hfound
    have hq := skipped.le.2 hp
    have hr := matched.advances.2.1 hq
    exact List.forall_mem_cons.mpr ⟨(matched.freshPaths hq _ rfl).fresh, later.freshPaths hr _ rfl⟩
  | .fails _ _ | .laterFails _ _ _ => cases hfound

theorem AlternativesYield.freshPaths {skip : Ref} {guard : Guard} {p ordinal reach : Nat}
    {members : List Ref} {answer : Option (Nat × Token α × Nat)}
    (h : AlternativesYield g text skip guard p ordinal members answer reach)
    (hp : p ≤ text.length) :
    ∀ found, answer = some found → found.2.1.Fits g text guard p := by
  rintro found hfound
  match h with
  | .nil => cases hfound
  | .inProgress mem later => exact later.freshPaths hp found hfound
  | .matched fresh matched =>
    cases hfound
    exact matched.freshPaths hp _ rfl
  | .failed fresh failed later => exact later.freshPaths hp found hfound

theorem RoundsYield.freshPaths {skip inner : Ref} {guard : Guard} {first afterEmpty : Bool}
    {p stop reach : Nat} {result : Nat × List (Token α)}
    (h : RoundsYield g text skip guard inner first p stop afterEmpty result reach)
    (hp : p ≤ text.length) :
    ∀ t ∈ result.2, ∀ path, t.IsPath path → Fresh g text guard (keysOf path) := by
  match h with
  | .fails _ _ | .secondEmpty _ _ _ => simp
  | .empty skipped matched empty later =>
    have hq := skipped.le.2 hp
    have hr := matched.advances.2.1 hq
    exact List.forall_mem_cons.mpr ⟨(matched.freshPaths hq _ rfl).fresh, later.freshPaths hr⟩
  | .covers skipped matched covers later =>
    have hq := skipped.le.2 hp
    have hr := matched.advances.2.1 hq
    exact List.forall_mem_cons.mpr ⟨(matched.freshPaths hq _ rfl).fresh, later.freshPaths hr⟩

end

/-! ### What a match makes -/

theorem Fresh.length_le (h : Fresh g text guard keys) :
    keys.length ≤ g.names.card * (text.length + 2) := by
  rw [← g.card_places text, ← List.toFinset_card_of_nodup h.nodup]
  exact Finset.card_le_card fun key hkey => h.placed key (List.mem_toFinset.mp hkey)

/-- On every way down the tree of a match the keys are distinct, and none that has a place was in
    progress before. So no token is below another one of the same name and start, and the tokens
    that symbols made are not more than names and places where a token can start. -/
theorem matchWithin_paths {limit : Nat} {ref skip : Ref} {s s' : MatchState} {token : Token α}
    (hs : s.stream.Reads text p) (hrun : matchWithin g limit ref skip s = .ok (some token) s')
    {path : List (Token α)} (hpath : token.IsPath path) :
    (keysOf path).Nodup ∧
    (∀ key ∈ keysOf path, key.2 ≠ -1 → key ∉ s.guard) ∧
    (∀ above outer between inner below, path = above ++ outer :: (between ++ inner :: below) →
      outer.isNode = true → inner.isNode = true → outer.name = inner.name →
        outer.start ≠ inner.start) ∧
    (path.filter Token.isNode).length ≤ g.names.card * (text.length + 2) := by
  have hends := matchWithin_obeys (α := α) g text limit s.guard ref skip trivial trivial p s
    (Nat.zero_le p) ⟨hs, rfl⟩
  rw [Ends, hrun] at hends
  obtain ⟨answer, reach, hyields, htoken, -⟩ := hends
  obtain ⟨found, rfl, rfl⟩ := Option.map_eq_some_iff.mp htoken.symm
  have hfresh := (hyields.freshPaths hs.le_length found rfl).fresh path hpath
  refine ⟨hfresh.nodup, hfresh.notMem, ?_, ?_⟩
  · intro above outer between inner below heq houter hinner hname hstart
    -- Both of them would have the same key.
    have hkeys : keysOf path = keysOf above ++ outer.key :: (keysOf between ++ inner.key ::
        keysOf below) := by
      simp [keysOf, heq, List.filter_append, houter, hinner]
    have hsame : outer.key = inner.key := Prod.ext hname hstart
    have hnodup := hfresh.nodup
    rw [hkeys, hsame] at hnodup
    simpa using (List.nodup_append.mp hnodup).2.1
  · rw [← List.length_map (f := Token.key)]
    exact hfresh.length_le

/-- Where a list is a list and an item, or an item, the list of one item is not below itself. -/
theorem matchWithin_paths_leftRecursive :
    ∃ limit s', matchWithin leftRecursive limit (.node 0) (.node 4) (.ofStream (.ofString "x")) =
        .ok (some oneItem) s' ∧
      oneItem.IsPath [oneItem, .leaf .character (.given "item") "x" 0 0] ∧
      ((Name.given "list", (0 : Int)) :: [(Name.given "item", 0)]).Nodup := by
  have hs := Stream.reads_ofString "x"
  obtain ⟨limit, hlimit⟩ := leftRecursive_yields_oneItem.delivered.exists
  obtain ⟨s', hrun, -⟩ := hlimit (.ofStream (.ofString "x")) ⟨hs, rfl⟩
  have hpath : oneItem.IsPath [oneItem, .leaf .character (.given "item") "x" 0 0] :=
    .down List.mem_cons_self (.tip rfl)
  exact ⟨limit, s', hrun, hpath, (matchWithin_paths hs hrun hpath).1⟩

end GrammarEngine
