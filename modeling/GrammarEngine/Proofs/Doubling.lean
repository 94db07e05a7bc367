import GrammarEngine.Proofs.Cursors
import Mathlib.Algebra.Group.Nat.Defs
import Mathlib.Data.Nat.Find

namespace GrammarEngine

/-!
# How much of a file is read

A stream reads its file no further than was demanded of it, except for what a read brings at once:
the first read brings a chunk, and each later one makes the buffer twice as long.

* `Stream.ensureCounting` — `ensure`, which also counts the reads that bring something;
* `StreamOp.demand` — the length up to which an operation wants the text to be read;
* `StreamOp.after_sameText` — an operation reads what makes sure of its demand, and nothing else;
* `stretch` — how much is in the buffer behind a number of reads;
* `Stream.Holds` — the buffer holds what was demanded so far, and no read was one too many;
* `fill_holds`, `ensureCounting_holds`, `after_holds`, `afterAll_holds` — so it is behind each read,
  each demand, each operation, and any number of them;
* `buffer_doubles` — how long the buffer is, in terms of the largest demand.
-/

namespace Stream

variable {s s₁ : Stream} {text : List Char}

/-! ### Counting reads -/

/-- `fillUpTo`, with the number of reads that brought something. -/
def fillUpToCounting (length : Nat) : (steps : Nat) → StreamM (Bool × Nat)
  | 0 => return (length ≤ (← get).buffer.size, 0)
  | steps + 1 => do
    if length ≤ (← get).buffer.size then return (true, 0)
    if ← fill then
      let (enough, reads) ← fillUpToCounting length steps
      return (enough, reads + 1)
    else return (false, 0)

/-- `ensure`, with the number of reads that brought something. -/
def ensureCounting (length : Int) : StreamM (Bool × Nat) := do
  let s ← get
  if length ≤ s.buffer.size then return (true, 0)
  fillUpToCounting length.toNat (s.source.unread + 1)

theorem fst_fillUpToCounting (length steps : Nat) :
    Prod.fst <$> fillUpToCounting length steps = fillUpTo length steps := by
  induction steps with
  | zero => rfl
  | succ steps ih =>
    simp only [fillUpToCounting, fillUpTo, ← ih, map_bind]
    refine bind_congr fun s => ?_
    split
    · rfl
    · rw [map_bind]
      refine bind_congr fun more => ?_
      cases more with
      | false => rfl
      | true => simp

/-- Counting makes no difference to what is done. -/
theorem fst_ensureCounting (length : Int) : Prod.fst <$> ensureCounting length = ensure length := by
  simp only [ensureCounting, ensure, map_bind]
  refine bind_congr fun s => ?_
  split
  · rfl
  · exact fst_fillUpToCounting _ _

theorem ensure_of_counting {length : Int} {enough : Bool} {reads : Nat}
    (h : ensureCounting length s = .ok (enough, reads) s₁) : ensure length s = .ok enough s₁ := by
  rw [← fst_ensureCounting, map_eq_pure_bind]
  exact Step.bind_ok h _

/-- The number of reads that bring something until the buffer has a given length. -/
def readsFor (length : Int) (s : Stream) : Nat :=
  match ensureCounting length s with
  | .ok (_, reads) _ => reads
  | .error _ _ => 0

end Stream

/-! ### Demands -/

namespace StreamOp

variable {s s₁ : Stream}

/-- The length up to which the operation wants the text to be read, 0 if it takes what is there. -/
def demand (s : Stream) : StreamOp → Int
  | .peek | .next | .hasNext => s.position + 1
  | .advance count => if count < 0 then 0 else s.position + count
  | .location position => position.getD s.position
  | .context position width => position.getD s.position + width + 1
  | .substring _ | .regress _ | .save | .revert | .discard | .reset _ _ => 0

/-- To write a stream down is to ask for an excerpt, so it needs no operation of its own. -/
theorem render_ends (s : Stream) :
    Ends Stream.render s (fun _ s' => s' = (context none Stream.contextWidth).after s)
      fun _ s' => s' = (context none Stream.contextWidth).after s := by
  refine .bind_ok rfl ?_
  cases hcontext : Stream.context none Stream.contextWidth s with
  | ok excerpt s' =>
    have hrun : (context none Stream.contextWidth).run s = .ok (.text excerpt) s' :=
      Step.bind_ok hcontext _
    exact .bind_ok hcontext (.of_ok rfl (by rw [after, hrun]))
  | error e s' =>
    have hrun : (context none Stream.contextWidth).run s = .error e s' :=
      Step.bind_error hcontext _
    exact .bind_error hcontext (by rw [after, hrun])

/-- The number of reads of the operation that bring something. -/
def reads (op : StreamOp) (s : Stream) : Nat := s.readsFor (op.demand s)

theorem run_leaves (op : StreamOp) {enough : Bool}
    (h : Stream.ensure (op.demand s) s = .ok enough s₁) : s₁.Leaves op.run s := by
  -- Where nothing is demanded, nothing is read.
  have hidle : Stream.ensure 0 s = .ok true s := by simp [Stream.ensure]
  cases op with
  | peek => exact (Stream.peek_leaves h).map _
  | next => exact (Stream.next_leaves h).map _
  | hasNext => exact (Stream.ensure_leaves h).map _
  | advance count =>
    by_cases hneg : count < 0
    · rw [demand, if_pos hneg, hidle] at h
      cases h
      exact (Stream.advance_leaves_of_neg s hneg).map _
    · rw [demand, if_neg hneg] at h
      exact (Stream.advance_leaves hneg h).map _
  | location position =>
    exact (Stream.location_leaves h).map fun place => Response.place place.1 place.2
  | context position width => exact (Stream.context_leaves h).map _
  | substring count =>
    cases hidle.symm.trans h
    exact (Stream.substring_leaves s count).map _
  | regress count =>
    cases hidle.symm.trans h
    exact (Stream.regress_leaves s count).map _
  | save =>
    cases hidle.symm.trans h
    exact (Stream.save_leaves s).map _
  | revert =>
    cases hidle.symm.trans h
    exact (Stream.revert_leaves s).map _
  | discard =>
    cases hidle.symm.trans h
    exact (Stream.discard_leaves s).map _
  | reset position depth =>
    cases hidle.symm.trans h
    exact (Stream.reset_leaves s position depth).map _

/-- An operation reads what makes sure of the length that it demands, and nothing else. -/
theorem after_sameText (op : StreamOp) {enough : Bool}
    (h : Stream.ensure (op.demand s) s = .ok enough s₁) : s₁.SameText (op.after s) := by
  rcases (run_leaves op h).elim with ⟨r, s', hrun, hsame⟩ | ⟨e, s', hrun, hsame⟩
  · rw [after, hrun]
    exact hsame
  · rw [after, hrun]
    exact hsame

end StreamOp

/-! ### The length of the buffer -/

/-- How much of a text is in the buffer behind a number of reads: a chunk behind the first one, and
    twice as much behind each other one, but no more than there is. -/
def stretch (chunk total : Nat) : (reads : Nat) → Nat
  | 0 => 0
  | reads + 1 => min total (chunk * 2 ^ reads)

section Stretch

variable {chunk total reads : Nat}

theorem stretch_succ (hchunk : 0 < chunk) : stretch chunk total (reads + 1) =
    min total (stretch chunk total reads + max chunk (stretch chunk total reads)) := by
  cases reads with
  | zero => simp [stretch]
  | succ reads =>
    have hle : chunk ≤ chunk * 2 ^ reads := Nat.le_mul_of_pos_right chunk (Nat.two_pow_pos reads)
    simp only [stretch, Nat.pow_succ, ← Nat.mul_assoc]
    omega

theorem stretch_le : stretch chunk total reads ≤ total := by
  cases reads with
  | zero => exact Nat.zero_le _
  | succ reads => exact Nat.min_le_left _ _

theorem stretch_mono (total : Nat) (hchunk : 0 < chunk) {fewer : Nat} (h : fewer ≤ reads) :
    stretch chunk total fewer ≤ stretch chunk total reads := by
  induction h with
  | refl => exact Nat.le_refl _
  | step h ih =>
    rw [stretch_succ hchunk]
    exact Nat.le_trans ih (Nat.le_min.mpr ⟨stretch_le, Nat.le_add_right _ _⟩)

end Stretch

namespace Stream

variable {s s₁ : Stream} {text : List Char} {chunk reads : Nat} {demanded : Int}

/-- The stream is over a file that is read in chunks; in its buffer is what so many reads brought,
    which is as much as was demanded or all of the text, and with fewer reads it would be less. -/
structure Holds (text : List Char) (chunk : Nat) (demanded : Int) (reads : Nat) (s : Stream) :
    Prop where
  spells : s.Spells text
  chunk_pos : 0 < chunk
  source : ∃ file, s.source = .file file ∧ file.chunk = chunk
  size_eq : s.buffer.size = stretch chunk text.length reads
  enough : min demanded text.length ≤ s.buffer.size
  needed : ∀ fewer < reads, stretch chunk text.length fewer < min demanded text.length

theorem holds_ofFile {file : FileSource} (h : file.Spells text) :
    Holds text file.chunk 0 0 (.ofFile file) where
  spells := ⟨text, h, rfl⟩
  chunk_pos := h.chunk_pos
  source := ⟨file, rfl, rfl⟩
  size_eq := rfl
  enough := Int.min_le_left _ _
  needed := fun _ hfewer => absurd hfewer (Nat.not_lt_zero _)

theorem SameText.spells (hsame : SameText s s₁) (h : s.Spells text) : s₁.Spells text := by
  rw [Spells, hsame.source_eq, hsame.buffer_eq]
  exact h

theorem Holds.sameText (h : Holds text chunk demanded reads s) (hsame : SameText s s₁) :
    Holds text chunk demanded reads s₁ where
  spells := hsame.spells h.spells
  chunk_pos := h.chunk_pos
  source := hsame.source_eq ▸ h.source
  size_eq := hsame.buffer_eq ▸ h.size_eq
  enough := hsame.buffer_eq ▸ h.enough
  needed := h.needed

/-- A length that is in the buffer can be demanded without reading. -/
theorem Holds.demand (h : Holds text chunk demanded reads s) {length : Int}
    (hlength : min length text.length ≤ s.buffer.size) :
    Holds text chunk (max demanded length) reads s :=
  { h with
    enough := by have := h.enough; omega
    needed := fun fewer hfewer => by have := h.needed fewer hfewer; omega }

/-- A read is what it takes to get beyond what is in the buffer. -/
theorem fill_holds (h : Holds text chunk demanded reads s) :
    ∃ more s', fill s = .ok more s' ∧
      (more = true → s.buffer.size < text.length ∧
        Holds text chunk (s.buffer.size + 1) (reads + 1) s') ∧
      (more = false → s.buffer.size = text.length ∧ Holds text chunk demanded reads s') := by
  obtain ⟨file, hsource, rfl⟩ := h.source
  have hspells := h.spells
  rw [Spells, hsource] at hspells
  obtain ⟨rest, hfile, rfl⟩ := hspells
  obtain ⟨s', file', hfill, hloads, hmore, hsource', hchunk⟩ := fill_file hsource hfile
  have hlength : (s.buffer.toList ++ rest).length = s.buffer.size + rest.length := by simp
  have hsize := h.size_eq
  refine ⟨_, s', hfill, fun hany => ?_, fun hnone => ?_⟩
  · have hrest := List.length_pos_iff.mpr (of_decide_eq_true hany)
    refine ⟨by omega, hloads.spells, h.chunk_pos, ⟨file', hsource', hchunk⟩, ?_, ?_, ?_⟩
    · rw [stretch_succ h.chunk_pos, ← hsize]
      omega
    · have hpos := h.chunk_pos
      omega
    · intro fewer hfewer
      have hmono := stretch_mono (s.buffer.toList ++ rest).length h.chunk_pos
        (Nat.le_of_lt_succ hfewer)
      omega
  · obtain rfl : rest = [] := by simpa using hnone
    have henough := h.enough
    rw [List.length_nil] at hlength hmore
    exact ⟨by omega, hloads.spells, h.chunk_pos, ⟨file', hsource', hchunk⟩, by omega, by omega,
      h.needed⟩

/-- Filling the buffer up to a length reads as often as it takes to get there. -/
theorem fillUpToCounting_holds (h : Holds text chunk demanded reads s) (length : Nat) {steps : Nat}
    (hsteps : text.length < s.buffer.size + steps) :
    ∃ enough more s', fillUpToCounting length steps s = .ok (enough, more) s' ∧
      Holds text chunk (max demanded length) (reads + more) s' := by
  induction steps generalizing s demanded reads with
  | zero =>
    have := h.spells.size_le
    omega
  | succ steps ih =>
    by_cases hlength : length ≤ s.buffer.size
    · exact ⟨true, 0, s, by simp [fillUpToCounting, hlength], h.demand (by omega)⟩
    · obtain ⟨more, s₁, hfill, hmore, hend⟩ := fill_holds h
      cases more with
      | false =>
        obtain ⟨hwhole, hholds⟩ := hend rfl
        have hsize : s₁.buffer.size = s.buffer.size := hholds.size_eq.trans h.size_eq.symm
        refine ⟨false, 0, s₁, ?_, hholds.demand (by omega)⟩
        simp [fillUpToCounting, hlength, Step.bind_ok hfill]
      | true =>
        obtain ⟨hless, hholds⟩ := hmore rfl
        have hlonger := hholds.enough
        obtain ⟨enough, more, s', hrun, hholds'⟩ := ih hholds (by omega)
        -- What was demanded before was in the buffer, and the new length goes beyond it.
        have hdemanded : max demanded length = max (s.buffer.size + 1 : Int) length := by
          have := h.enough
          omega
        refine ⟨enough, more + 1, s', ?_, ?_⟩
        · rw [fillUpToCounting, Step.get_bind, if_neg hlength, Step.bind_ok hfill]
          exact Step.bind_ok hrun _
        · rwa [hdemanded, ← Nat.add_assoc, Nat.add_right_comm]

/-- So does making sure of a length. -/
theorem ensureCounting_holds (h : Holds text chunk demanded reads s) (length : Int) :
    ∃ enough more s', ensureCounting length s = .ok (enough, more) s' ∧
      Holds text chunk (max demanded length) (reads + more) s' := by
  by_cases hlength : length ≤ s.buffer.size
  · exact ⟨true, 0, s, by simp [ensureCounting, hlength], h.demand (by omega)⟩
  · have hsteps : text.length < s.buffer.size + (s.source.unread + 1) := by
      have hextent := h.spells.length_le_extent
      unfold extent at hextent
      omega
    obtain ⟨enough, more, s', hrun, hholds⟩ := fillUpToCounting_holds h length.toNat hsteps
    rw [Int.toNat_of_nonneg (by omega)] at hholds
    refine ⟨enough, more, s', ?_, hholds⟩
    rw [ensureCounting, Step.get_bind, if_neg hlength, hrun]

/-- **One operation.** What is read for it is what its demand takes. -/
theorem after_holds (h : Holds text chunk demanded reads s) (op : StreamOp) :
    Holds text chunk (max demanded (op.demand s)) (reads + op.reads s) (op.after s) := by
  obtain ⟨enough, more, s', hrun, hholds⟩ := ensureCounting_holds h (op.demand s)
  have hreads : op.reads s = more := by
    rw [StreamOp.reads, readsFor, hrun]
  rw [hreads]
  exact hholds.sameText (op.after_sameText (ensure_of_counting hrun))

/-! ### In terms of the demand -/

namespace Holds

variable (h : Holds text chunk demanded reads s)

include h

theorem reads_eq_zero (hdemanded : demanded ≤ 0) : reads = 0 := by
  refine Nat.eq_zero_of_not_pos fun hpos => ?_
  have hneeded := h.needed 0 hpos
  omega

theorem size_eq_zero (hdemanded : demanded ≤ 0) : s.buffer.size = 0 := by
  rw [h.size_eq, h.reads_eq_zero hdemanded, stretch]

theorem size_eq_length (hdemanded : text.length ≤ demanded) : s.buffer.size = text.length := by
  have henough := h.enough
  have hsize := h.spells.size_le
  omega

/-- There is no read after the one that brought what is demanded. -/
theorem reads_le {k : Nat} (hk : demanded ≤ (chunk * 2 ^ k : Nat)) : reads ≤ k + 1 := by
  refine Nat.le_of_not_lt fun hlt => ?_
  have hneeded := h.needed (k + 1) hlt
  rw [stretch] at hneeded
  omega

theorem size_eq_min {k : Nat} (hk : demanded ≤ (chunk * 2 ^ k : Nat))
    (hleast : ∀ j < k, (chunk * 2 ^ j : Nat) < demanded) (hpos : 0 < demanded)
    (hdemanded : demanded < text.length) : s.buffer.size = min text.length (chunk * 2 ^ k) := by
  have hsize := h.size_eq
  have henough := h.enough
  have hreads := h.reads_le hk
  cases reads with
  | zero =>
    rw [stretch] at hsize
    omega
  | succ reads =>
    rw [stretch] at hsize
    -- With fewer doublings the buffer would not hold what was demanded.
    have hge : k ≤ reads := by
      refine Nat.le_of_not_lt fun hlt => ?_
      have hless := hleast reads hlt
      omega
    obtain rfl : reads = k := by omega
    exact hsize

/-- The last doubling was needed, so half of the buffer would have been too little. -/
theorem size_le : (s.buffer.size : Int) ≤ max (chunk : Int) (2 * demanded) := by
  have hsize := h.size_eq
  cases reads with
  | zero =>
    rw [stretch] at hsize
    omega
  | succ reads =>
    cases reads with
    | zero =>
      rw [stretch, Nat.pow_zero, Nat.mul_one] at hsize
      omega
    | succ reads =>
      have hneeded := h.needed (reads + 1) (Nat.lt_succ_self _)
      rw [stretch, Nat.pow_succ, ← Nat.mul_assoc] at hsize
      rw [stretch] at hneeded
      omega

end Holds

/-- A chunk that is doubled often enough is as long as is demanded. -/
theorem exists_doublings (hchunk : 0 < chunk) (demanded : Int) :
    ∃ k, demanded ≤ (chunk * 2 ^ k : Nat) ∧ ∀ j < k, (chunk * 2 ^ j : Nat) < demanded := by
  have hlong : ∃ k : Nat, demanded ≤ (chunk * 2 ^ k : Nat) := by
    refine ⟨demanded.toNat, ?_⟩
    have hpow : demanded.toNat < 2 ^ demanded.toNat := Nat.lt_two_pow_self
    have hmul : 2 ^ demanded.toNat ≤ chunk * 2 ^ demanded.toNat :=
      Nat.le_mul_of_pos_left _ hchunk
    omega
  exact ⟨Nat.find hlong, Nat.find_spec hlong, fun j hj => Int.not_le.mp (Nat.find_min hlong hj)⟩

/-! ### Sequences of operations -/

/-- The stream behind some operations, the failed ones included. -/
def afterAll : List StreamOp → Stream → Stream
  | [], s => s
  | op :: ops, s => afterAll ops (op.after s)

/-- The largest length that one of the operations demands, or 0 if none demands more. -/
def demandedBy : List StreamOp → Stream → Int
  | [], _ => 0
  | op :: ops, s => max (op.demand s) (demandedBy ops (op.after s))

/-- The number of reads of the operations that bring something. -/
def readsBy : List StreamOp → Stream → Nat
  | [], _ => 0
  | op :: ops, s => op.reads s + readsBy ops (op.after s)

theorem demandedBy_nonneg (ops : List StreamOp) (s : Stream) : 0 ≤ demandedBy ops s := by
  induction ops generalizing s with
  | nil => exact Int.le_refl 0
  | cons op ops ih => exact Int.le_trans (ih (op.after s)) (Int.le_max_right _ _)

/-- **Any operations.** What is read for them is what the largest demand takes. -/
theorem afterAll_holds (h : Holds text chunk demanded reads s) (hdemanded : 0 ≤ demanded)
    (ops : List StreamOp) :
    Holds text chunk (max demanded (demandedBy ops s)) (reads + readsBy ops s)
      (afterAll ops s) := by
  induction ops generalizing s demanded reads with
  | nil => rwa [demandedBy, Int.max_eq_left hdemanded]
  | cons op ops ih =>
    have hrest := ih (after_holds h op) (by omega)
    rwa [Int.max_assoc, Nat.add_assoc] at hrest

/-- **A doubling prefix.** Whatever is done with a file before it is closed, the buffer is the
    beginning of the text; it is as long as the least number of doublings of the chunk makes it to
    reach the largest demand, or as long as the text where that is shorter, and empty as long as
    nothing is demanded. So there is at most one read more than there are doublings, and the buffer
    is at most twice as long as the demand or the chunk. -/
theorem buffer_doubles {file : FileSource} (h : file.Spells text) (ops : List StreamOp) :
    let s := afterAll ops (.ofFile file)
    let demanded := demandedBy ops (.ofFile file)
    let reads := readsBy ops (.ofFile file)
    s.buffer.toList <+: text ∧
      (demanded ≤ 0 → s.buffer.size = 0 ∧ reads = 0) ∧
      (text.length ≤ demanded → s.buffer.size = text.length) ∧
      (∃ k, (demanded ≤ (file.chunk * 2 ^ k : Nat) ∧
          ∀ j < k, (file.chunk * 2 ^ j : Nat) < demanded) ∧
        (0 < demanded → demanded < text.length →
          s.buffer.size = min text.length (file.chunk * 2 ^ k)) ∧
        reads ≤ k + 1) ∧
      (s.buffer.size : Int) ≤ max (file.chunk : Int) (2 * demanded) := by
  have hholds := afterAll_holds (holds_ofFile h) (Int.le_refl 0) ops
  rw [Int.max_eq_right (demandedBy_nonneg ops _), Nat.zero_add] at hholds
  obtain ⟨k, hk, hleast⟩ := exists_doublings h.chunk_pos (demandedBy ops (.ofFile file))
  exact ⟨hholds.spells.isPrefix,
    fun hnone => ⟨hholds.size_eq_zero hnone, hholds.reads_eq_zero hnone⟩, hholds.size_eq_length,
    ⟨k, ⟨hk, hleast⟩, hholds.size_eq_min hk hleast, hholds.reads_le hk⟩, hholds.size_le⟩

/-- A file of three lines, which is read in chunks of two characters. -/
def threeLines : FileSource where
  encoding := .utf8
  chunk := 2
  bytes := [97, 98, 13, 10, 10, 99, 100]
  state := .between
  heldReturn := false
  ready := []
  lastBlock := (0, 0)
  closed := false

theorem spells_threeLines : threeLines.Spells "ab\r\n\ncd".toList :=
  ⟨rfl, by decide, by decide, "ab\r\n\ncd".toList, by decide +kernel, rfl⟩

/-- A demand of three characters takes two reads, and brings four of the seven. -/
theorem buffer_doubles_threeLines :
    demandedBy [.next, .advance 1, .peek, .regress 2, .next] (.ofFile threeLines) = 3 ∧
      (afterAll [.next, .advance 1, .peek, .regress 2, .next] (.ofFile threeLines)).buffer.size =
        4 ∧
      readsBy [.next, .advance 1, .peek, .regress 2, .next] (.ofFile threeLines) ≤ 2 := by
  have hdemanded :
      demandedBy [.next, .advance 1, .peek, .regress 2, .next] (.ofFile threeLines) = 3 := by
    decide +kernel
  obtain ⟨-, -, -, ⟨k, ⟨hk, hleast⟩, hsize, hreads⟩, -⟩ := buffer_doubles spells_threeLines
    [.next, .advance 1, .peek, .regress 2, .next]
  rw [hdemanded] at hk hleast hsize
  -- A chunk is too short, and two chunks are enough.
  obtain rfl : k = 1 := by
    match k with
    | 0 => exact absurd hk (by decide)
    | 1 => rfl
    | k + 2 => exact absurd (hleast 1 (by omega)) (by decide)
  exact ⟨hdemanded, hsize (by decide) (by decide), hreads⟩

end Stream

end GrammarEngine
