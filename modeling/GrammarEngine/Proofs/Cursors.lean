import GrammarEngine.Proofs.Reporting

namespace GrammarEngine

/-!
# Streams as cursors over a text

What a stream does is a matter of its text and of where it stands. Where the characters come from
makes no difference: a text in memory and a file that is read in chunks, however long they are, are
cursors over the same text.

* `Cursor` — where a stream stands, with what each operation does to it;
* `Stream.At` — a stream stands where a cursor does, and has read as far as it came;
* `StreamOp`, `StreamOp.refines` — the operations of a stream do what those of the cursor do;
* `Stream.trace`, `trace_eq` — any sequence of operations.
-/

/-- Where a stream stands in a text. -/
structure Cursor where
  position : Nat
  furthest : Nat
  saved : List Nat
  /-- The last position that the stream came to. -/
  top : Nat

namespace Cursor

/-! ### What the operations do -/

variable (text : List Char)

/-- The cursor at the beginning of a text. -/
def beginning : Cursor := ⟨0, 0, [], 0⟩

/-- Come to a position. -/
def move (c : Cursor) (position : Nat) : Cursor :=
  { c with position, top := max c.top position }

/-- The character at the position, which counts as looked at. -/
def peek : EStateM Error Cursor Char := fun c =>
  let c' := { c with furthest := max c.furthest c.position }
  match text[c.position]? with
  | some char => .ok char c'
  | none => .error (.exhausted (.noCharacter c.position)) c'

/-- The character at the position, which is left behind. -/
def next : EStateM Error Cursor Char := fun c =>
  let c' := { c with furthest := max c.furthest c.position }
  match text[c.position]? with
  | some char => .ok char (c'.move (c.position + 1))
  | none => .error (.exhausted (.noCharacter c.position)) c'

/-- Is there a character at the position? -/
def hasNext : EStateM Error Cursor Bool := fun c => .ok (decide (c.position < text.length)) c

/-- The last `count` characters before the position. -/
def substring (count : Int) : EStateM Error Cursor String := fun c =>
  if count < 0 ∨ c.position < count then .error (.exhausted (.lookBack count c.position)) c
  else .ok (slice text (c.position - count.toNat) c.position) c

/-- Move forwards, within the text. -/
def advance (count : Int) : EStateM Error Cursor Unit := fun c =>
  if count < 0 then .error (.value .negativeAdvance) c
  else if c.position + count ≤ text.length then .ok () (c.move (c.position + count.toNat))
  else .error (.exhausted (.advance count c.position)) c

/-- Move backwards, within the text. -/
def regress (count : Int) : EStateM Error Cursor Unit := fun c =>
  if count < 0 then .error (.value .negativeRegress) c
  else if c.position < count then .error (.exhausted (.regress count c.position)) c
  else .ok () { c with position := c.position - count.toNat }

/-- Save the position. -/
def save : EStateM Error Cursor Unit := fun c => .ok () { c with saved := c.position :: c.saved }

/-- Go back to the last saved position, which is then forgotten. -/
def revert : EStateM Error Cursor Unit := fun c =>
  match c.saved with
  | position :: saved => .ok () { c with position, saved }
  | [] => .error (.index .popEmpty) c

/-- Forget the last saved position. -/
def discard : EStateM Error Cursor Unit := fun c =>
  match c.saved with
  | _ :: saved => .ok () { c with saved }
  | [] => .error (.index .popEmpty) c

/-- Go to a position, and forget all saved ones but the first `depth`. -/
def reset (position depth : Nat) : EStateM Error Cursor Unit := fun c =>
  .ok () { c with position, saved := c.saved.drop (c.saved.length - depth) }

/-- The line and the column of a position, or of the current one. -/
def location (position : Option Nat) : EStateM Error Cursor (Int × Int) := fun c =>
  .ok (whereabouts text (position.getD c.position)) c

/-- The excerpt around a position, or around the current one. -/
def context (position : Option Nat) (width : Nat) : EStateM Error Cursor String := fun c =>
  .ok (surroundings text.toArray (position.getD c.position) width) c

end Cursor

/-! ### Streams and cursors -/

namespace Stream

variable {text : List Char} {s : Stream} {c : Cursor}

/-- The stream stands where the cursor does, and has read the text up to where it came. -/
structure At (text : List Char) (s : Stream) (c : Cursor) : Prop where
  spells : s.Spells text
  position_eq : s.position = c.position
  furthest_eq : s.furthest = c.furthest
  saved_eq : s.saved = c.saved
  top_le : c.top ≤ s.buffer.size
  position_le : c.position ≤ c.top
  saved_le : ∀ q ∈ c.saved, q ≤ c.top

namespace At

theorem ofString (text : String) : At text.toList (.ofString text) .beginning :=
  ⟨rfl, rfl, rfl, rfl, Nat.zero_le _, Nat.le_refl _, by simp [Cursor.beginning]⟩

theorem ofFile {file : FileSource} (h : file.Spells text) : At text (.ofFile file) .beginning :=
  ⟨⟨text, h, rfl⟩, rfl, rfl, rfl, Nat.le_refl _, Nat.le_refl _, by simp [Cursor.beginning]⟩

theorem reads (h : At text s c) : s.Reads text c.position :=
  ⟨h.position_eq, Nat.le_trans h.position_le (Nat.le_trans h.top_le h.spells.size_le), h.spells⟩

theorem loads {s' : Stream} (h : At text s c) (hloads : Loads text s s') : At text s' c where
  spells := hloads.spells
  position_eq := hloads.position.trans h.position_eq
  furthest_eq := hloads.furthest.trans h.furthest_eq
  saved_eq := hloads.saved.trans h.saved_eq
  top_le := Nat.le_trans h.top_le hloads.size_le
  position_le := h.position_le
  saved_le := h.saved_le

/-- The stream comes to a position that it has read up to. -/
theorem move {p : Nat} (h : At text s c) (hp : p ≤ s.buffer.size) :
    At text { s with position := p } (c.move p) where
  spells := h.spells
  position_eq := rfl
  furthest_eq := h.furthest_eq
  saved_eq := h.saved_eq
  top_le := Nat.max_le.mpr ⟨h.top_le, hp⟩
  position_le := Nat.le_max_right _ _
  saved_le q hq := Nat.le_trans (h.saved_le q hq) (Nat.le_max_left _ _)

/-- The stream goes to a position where it has been. -/
theorem back {p : Nat} {saved : List Nat} (h : At text s c) (hp : p ≤ c.top)
    (hsaved : ∀ q ∈ saved, q ≤ c.top) :
    At text { s with position := p, saved } { c with position := p, saved } :=
  ⟨h.spells, rfl, h.furthest_eq, rfl, h.top_le, hp, hsaved⟩

end At

/-- The run of a stream ends as that of a cursor does, which gets no less far than it was. -/
def Tracks {β : Type} (text : List Char) (top : Nat) (run : EStateM.Result Error Stream β) :
    EStateM.Result Error Cursor β → Prop
  | .ok b c => top ≤ c.top ∧ ∃ s, run = .ok b s ∧ At text s c
  | .error e c => top ≤ c.top ∧ ∃ s, run = .error e s ∧ At text s c

/-- The operation of a stream does what that of a cursor does. -/
def Refines {β : Type} (text : List Char) (op : StreamM β) (spec : EStateM Error Cursor β) : Prop :=
  ∀ s c, At text s c → Tracks text c.top (op s) (spec c)

namespace Refines

variable {β γ : Type} {op : StreamM β} {spec : EStateM Error Cursor β}

theorem bind {op' : β → StreamM γ} {spec' : β → EStateM Error Cursor γ} (h : Refines text op spec)
    (h' : ∀ b, Refines text (op' b) (spec' b)) : Refines text (op >>= op') (spec >>= spec') := by
  intro s c hat
  have hfirst := h s c hat
  cases hspec : spec c with
  | error e c' =>
    rw [hspec] at hfirst
    obtain ⟨htop, s', hrun, hat'⟩ := hfirst
    rw [Step.bind_error hspec]
    exact ⟨htop, s', Step.bind_error hrun _, hat'⟩
  | ok b c' =>
    rw [hspec] at hfirst
    obtain ⟨htop, s', hrun, hat'⟩ := hfirst
    rw [Step.bind_ok hspec, Step.bind_ok hrun]
    have hsecond := h' b s' c' hat'
    cases hspec' : spec' b c' with
    | error e c'' | ok r c'' =>
      rw [hspec'] at hsecond
      exact ⟨Nat.le_trans htop hsecond.1, hsecond.2⟩

theorem pure (b : β) : Refines text (Pure.pure b) (Pure.pure b) :=
  fun s _ hat => ⟨Nat.le_refl _, s, rfl, hat⟩

theorem map (f : β → γ) (h : Refines text op spec) :
    Refines text (op >>= fun b => Pure.pure (f b)) (spec >>= fun b => Pure.pure (f b)) :=
  h.bind fun b => .pure (f b)

end Refines

/-! ### The operations -/

theorem Goes.at {s' : Stream} {q reach : Nat} (hat : At text s c)
    (hgoes : Goes text s s' q reach) (hq : q ≤ c.top) :
    At text s' { c with position := q, furthest := max c.furthest reach } where
  spells := hgoes.reads.spells
  position_eq := hgoes.reads.position
  furthest_eq := by rw [hgoes.furthest, hat.furthest_eq]
  saved_eq := hgoes.saved.trans hat.saved_eq
  top_le := Nat.le_trans hat.top_le hgoes.loaded
  position_le := hq
  saved_le := hat.saved_le

theorem peek_refines : Refines text peek (Cursor.peek text) := by
  intro s c hat
  obtain ⟨s', hgoes, -, hpeek⟩ := peek_goes hat.reads
  have hat' := hgoes.at hat hat.position_le
  rw [Cursor.peek]
  cases hchar : text[c.position]? with
  | none =>
    rw [hchar] at hpeek
    exact ⟨Nat.le_refl _, s', hpeek, hat'⟩
  | some char =>
    rw [hchar] at hpeek
    exact ⟨Nat.le_refl _, s', hpeek, hat'⟩

theorem next_refines : Refines text next (Cursor.next text) := by
  intro s c hat
  obtain ⟨s', hnext⟩ := next_goes hat.reads
  rw [Cursor.next]
  cases hchar : text[c.position]? with
  | none =>
    rw [hchar] at hnext
    exact ⟨Nat.le_refl _, s', hnext.1, hnext.2.at hat hat.position_le⟩
  | some char =>
    rw [hchar] at hnext
    obtain ⟨hrun, hgoes⟩ := hnext
    -- The stream read the character that it left behind.
    have hread : c.position + 1 ≤ s'.buffer.size := by
      have hmoved := hgoes.moved
      rw [hat.position_eq] at hmoved
      omega
    exact ⟨Nat.le_max_left _ _, s', hrun, hgoes.reads.spells, hgoes.reads.position,
      by rw [hgoes.furthest, hat.furthest_eq]; rfl, hgoes.saved.trans hat.saved_eq,
      Nat.max_le.mpr ⟨Nat.le_trans hat.top_le hgoes.loaded, hread⟩, Nat.le_max_right _ _,
      fun q hq => Nat.le_trans (hat.saved_le q hq) (Nat.le_max_left _ _)⟩

theorem hasNext_refines : Refines text hasNext (Cursor.hasNext text) := by
  intro s c hat
  obtain ⟨s', hrun, hgoes⟩ := hasNext_goes hat.reads
  have hat' := hgoes.at hat hat.position_le
  rw [Nat.max_zero] at hat'
  exact ⟨Nat.le_refl _, s', hrun, hat'⟩

theorem substring_refines (count : Int) :
    Refines text (substring count) (Cursor.substring text count) := by
  intro s c hat
  rw [substring, Step.get_bind, Cursor.substring, hat.position_eq]
  split
  · exact ⟨Nat.le_refl _, s, rfl, hat⟩
  · rename_i hcount
    have hplace : (c.position : Int) - count = (c.position - count.toNat : Nat) := by omega
    have hexcerpt := hat.spells.excerpt_buffer (p := c.position - count.toNat)
      (Nat.le_trans hat.position_le hat.top_le)
    rw [hplace, hexcerpt]
    exact ⟨Nat.le_refl _, s, rfl, hat⟩

theorem advance_refines (count : Int) :
    Refines text (advance count) (Cursor.advance text count) := by
  intro s c hat
  rw [Cursor.advance]
  split
  · rename_i hneg
    refine ⟨Nat.le_refl _, s, ?_, hat⟩
    rw [advance, if_pos hneg]
    rfl
  · rename_i hcount
    obtain ⟨s', hensure, hloads, hmin⟩ := ensure_loads hat.spells (c.position + count)
    have hat' := hat.loads hloads
    by_cases hle : c.position + count ≤ text.length
    · have hplace : (c.position : Int) + count = (c.position + count.toNat : Nat) := by omega
      rw [if_pos hle]
      refine ⟨Nat.le_max_left _ _, { s' with position := (c.position + count.toNat : Nat) }, ?_,
        hat'.move (by omega)⟩
      rw [advance, if_neg hcount]
      simp only [Step.get_bind, hat.position_eq, Step.bind_ok hensure, hle, decide_true, if_true]
      rw [← hplace, ← hat'.position_eq]
      rfl
    · rw [if_neg hle]
      refine ⟨Nat.le_refl _, s', ?_, hat'⟩
      rw [advance, if_neg hcount]
      simp only [Step.get_bind, hat.position_eq, Step.bind_ok hensure, hle, decide_false]
      rfl

theorem regress_refines (count : Int) : Refines text (regress count) (Cursor.regress count) := by
  intro s c hat
  rw [Cursor.regress, regress]
  split
  · exact ⟨Nat.le_refl _, s, rfl, hat⟩
  · rename_i hcount
    simp only [Step.get_bind, hat.position_eq]
    split
    · exact ⟨Nat.le_refl _, s, rfl, hat⟩
    · rename_i hle
      have hplace : (c.position : Int) - count = (c.position - count.toNat : Nat) := by omega
      have hback := hat.back (p := c.position - count.toNat)
        (Nat.le_trans (Nat.sub_le _ _) hat.position_le) hat.saved_le
      rw [← hat.saved_eq] at hback
      refine ⟨Nat.le_refl _, { s with position := (c.position - count.toNat : Nat) }, ?_, ?_⟩
      · rw [hplace]
        rfl
      · rw [← hat.saved_eq]
        exact hback

theorem save_refines : Refines text save Cursor.save := by
  intro s c hat
  refine ⟨Nat.le_refl _, _, save_eq hat.reads, hat.spells, hat.position_eq, hat.furthest_eq,
    congrArg _ hat.saved_eq, hat.top_le, hat.position_le, ?_⟩
  exact List.forall_mem_cons.mpr ⟨hat.position_le, hat.saved_le⟩

theorem revert_refines : Refines text revert Cursor.revert := by
  intro s c hat
  rw [Cursor.revert]
  cases hsaved : c.saved with
  | nil =>
    refine ⟨Nat.le_refl _, s, ?_, hat⟩
    simp only [revert, Step.get_bind, hat.saved_eq, hsaved]
    rfl
  | cons q saved =>
    have hle := hat.saved_le
    rw [hsaved] at hle
    exact ⟨Nat.le_refl _, _, revert_eq (hat.saved_eq.trans hsaved),
      hat.back (List.forall_mem_cons.mp hle).1 (List.forall_mem_cons.mp hle).2⟩

theorem discard_refines : Refines text discard Cursor.discard := by
  intro s c hat
  rw [Cursor.discard]
  cases hsaved : c.saved with
  | nil =>
    refine ⟨Nat.le_refl _, s, ?_, hat⟩
    simp only [discard, Step.get_bind, hat.saved_eq, hsaved]
    rfl
  | cons q saved =>
    have hle := hat.saved_le
    rw [hsaved] at hle
    have hback := hat.back hat.position_le (List.forall_mem_cons.mp hle).2
    rw [← hat.position_eq] at hback
    exact ⟨Nat.le_refl _, _, discard_eq (hat.saved_eq.trans hsaved), hback⟩

/-- A stream can be put back to any position where it has been. -/
theorem rewind_at {position : Int} {p : Nat} (hat : At text s c) (hposition : position = p)
    (hp : p ≤ c.top) (depth : Nat) : At text (s.rewind position depth)
      { c with position := p, saved := c.saved.drop (c.saved.length - depth) } := by
  subst hposition
  have hsaved : ∀ q ∈ c.saved.drop (c.saved.length - depth), q ≤ c.top :=
    fun q hq => hat.saved_le q (List.mem_of_mem_drop hq)
  have hback := hat.back hp hsaved
  rw [rewind, Stream.depth, hat.saved_eq]
  exact hback

theorem location_refines (position : Option Nat) :
    Refines text (location (position.map Int.ofNat)) (Cursor.location text position) := by
  intro s c hat
  have hposition : (position.map Int.ofNat).getD s.position = (position.getD c.position : Nat) := by
    cases position with
    | none => exact hat.position_eq
    | some p => rfl
  obtain ⟨s', hrun, hloads⟩ := location_loads hat.spells hposition
  exact ⟨Nat.le_refl _, s', hrun, hat.loads hloads⟩

theorem context_refines (position : Option Nat) (width : Nat) :
    Refines text (context (position.map Int.ofNat) width) (Cursor.context text position width) := by
  intro s c hat
  have hposition : (position.map Int.ofNat).getD s.position = (position.getD c.position : Nat) := by
    cases position with
    | none => exact hat.position_eq
    | some p => rfl
  obtain ⟨s', hrun, hloads⟩ := context_loads hat.spells width hposition
  exact ⟨Nat.le_refl _, s', hrun, hat.loads hloads⟩

end Stream

/-! ### Sequences of operations -/

/-- The operations on a stream. -/
inductive StreamOp
  | peek
  | next
  | hasNext
  | substring (count : Int)
  | advance (count : Int)
  | regress (count : Int)
  | save
  | revert
  | discard
  | reset (position depth : Int)
  | location (position : Option Int)
  | context (position : Option Int) (width : Int)

/-- What an operation gives. -/
inductive Response
  | nothing
  | character (c : Char)
  | truth (b : Bool)
  | text (s : String)
  | place (line column : Int)

namespace StreamOp

/-- The operation on a stream. -/
def run : StreamOp → StreamM Response
  | .peek => do return .character (← Stream.peek)
  | .next => do return .character (← Stream.next)
  | .hasNext => do return .truth (← Stream.hasNext)
  | .substring count => do return .text (← Stream.substring count)
  | .advance count => do Stream.advance count; return .nothing
  | .regress count => do Stream.regress count; return .nothing
  | .save => do Stream.save; return .nothing
  | .revert => do Stream.revert; return .nothing
  | .discard => do Stream.discard; return .nothing
  | .reset position depth => do Stream.reset position depth; return .nothing
  | .location position => do
    let (line, column) ← Stream.location position
    return .place line column
  | .context position width => do return .text (← Stream.context position width)

/-- The operation on a cursor over a text. -/
def spec (text : List Char) : StreamOp → EStateM Error Cursor Response
  | .peek => do return .character (← Cursor.peek text)
  | .next => do return .character (← Cursor.next text)
  | .hasNext => do return .truth (← Cursor.hasNext text)
  | .substring count => do return .text (← Cursor.substring text count)
  | .advance count => do Cursor.advance text count; return .nothing
  | .regress count => do Cursor.regress count; return .nothing
  | .save => do Cursor.save; return .nothing
  | .revert => do Cursor.revert; return .nothing
  | .discard => do Cursor.discard; return .nothing
  | .reset position depth => do Cursor.reset position.toNat depth.toNat; return .nothing
  | .location position => do
    let (line, column) ← Cursor.location text (position.map Int.toNat)
    return .place line column
  | .context position width => do
    return .text (← Cursor.context text (position.map Int.toNat) width.toNat)

/-- The operation goes only to positions where the stream was, and asks about none below zero. -/
def IsAdmissible (held : List Int) : StreamOp → Prop
  | .reset position depth => position ∈ held ∧ 0 ≤ depth
  | .location position => ∀ p ∈ position, 0 ≤ p
  | .context position width => (∀ p ∈ position, 0 ≤ p) ∧ 0 ≤ width
  | _ => True

/-- The result of the operation. -/
def answer (op : StreamOp) (s : Stream) : Except Error Response :=
  match op.run s with
  | .ok r _ => .ok r
  | .error e _ => .error e

/-- The stream behind the operation, whether it failed or not. -/
def after (op : StreamOp) (s : Stream) : Stream :=
  match op.run s with
  | .ok _ s' | .error _ s' => s'

/-- An operation of a stream does what that of a cursor does. -/
theorem refines {text : List Char} {held : List Int} {op : StreamOp} {s : Stream} {c : Cursor}
    (hadmissible : op.IsAdmissible held) (hheld : ∀ q ∈ held, 0 ≤ q ∧ q ≤ c.top)
    (hat : s.At text c) : Stream.Tracks text c.top (op.run s) (op.spec text c) := by
  have hplaces : ∀ {position : Option Int}, (∀ p ∈ position, 0 ≤ p) →
      (position.map Int.toNat).map Int.ofNat = position := by
    intro position h
    cases position with
    | none => rfl
    | some p => exact congrArg some (Int.toNat_of_nonneg (h p rfl))
  cases op with
  | peek => exact Stream.peek_refines.map Response.character s c hat
  | next => exact Stream.next_refines.map Response.character s c hat
  | hasNext => exact Stream.hasNext_refines.map Response.truth s c hat
  | substring count => exact (Stream.substring_refines count).map Response.text s c hat
  | advance count => exact (Stream.advance_refines count).map (fun _ => Response.nothing) s c hat
  | regress count => exact (Stream.regress_refines count).map (fun _ => Response.nothing) s c hat
  | save => exact Stream.save_refines.map (fun _ => Response.nothing) s c hat
  | revert => exact Stream.revert_refines.map (fun _ => Response.nothing) s c hat
  | discard => exact Stream.discard_refines.map (fun _ => Response.nothing) s c hat
  | reset position depth =>
    obtain ⟨hmem, hdepth⟩ := hadmissible
    obtain ⟨hzero, htop⟩ := hheld position hmem
    have hrewind := Stream.rewind_at hat (Int.toNat_of_nonneg hzero).symm (by omega) depth.toNat
    refine ⟨Nat.le_refl _, _, ?_, hrewind⟩
    rw [run, Stream.reset, Step.modify_bind, placeOf, if_neg (Int.not_lt.mpr hdepth)]
    rfl
  | location position =>
    have hrefines := (Stream.location_refines (position.map Int.toNat)).map
      (fun place => Response.place place.1 place.2) s c hat
    rwa [hplaces hadmissible] at hrefines
  | context position width =>
    obtain ⟨hposition, hwidth⟩ := hadmissible
    have hrefines := (Stream.context_refines (position.map Int.toNat) width.toNat).map
      Response.text s c hat
    rwa [hplaces hposition, Int.toNat_of_nonneg hwidth] at hrefines

end StreamOp

namespace Stream

/-- What is seen of a stream behind an operation. -/
structure Snapshot where
  result : Except Error Response
  position : Int
  furthest : Nat
  saved : List Nat

/-- What is seen of a stream in the course of some operations, the failed ones included. -/
def trace : List StreamOp → Stream → List Snapshot
  | [], _ => []
  | op :: ops, s =>
    let s' := op.after s
    ⟨op.answer s, s'.position, s'.furthest, s'.saved⟩ :: trace ops s'

/-- All of the operations are admissible, one after the other, where the stream was at these
    positions before. -/
def Admits : List StreamOp → (held : List Int) → Stream → Prop
  | [], _, _ => True
  | op :: ops, held, s =>
    op.IsAdmissible held ∧ Admits ops ((op.after s).position :: held) (op.after s)

/-- Two streams that stand where the same cursor does show the same. -/
theorem trace_of_at {text : List Char} (ops : List StreamOp) {held : List Int} {s₁ s₂ : Stream}
    {c : Cursor} (hat₁ : s₁.At text c) (hat₂ : s₂.At text c)
    (hheld : ∀ q ∈ held, 0 ≤ q ∧ q ≤ c.top) (hadmits : Admits ops held s₂) :
    trace ops s₁ = trace ops s₂ := by
  induction ops generalizing held s₁ s₂ c with
  | nil => rfl
  | cons op ops ih =>
    obtain ⟨hadmissible, hlater⟩ := hadmits
    have htracks₁ := StreamOp.refines hadmissible hheld hat₁
    have htracks₂ := StreamOp.refines hadmissible hheld hat₂
    -- Both go where the cursor goes.
    have hgoes : ∃ c', c.top ≤ c'.top ∧ op.answer s₁ = op.answer s₂ ∧
        (op.after s₁).At text c' ∧ (op.after s₂).At text c' := by
      unfold StreamOp.answer StreamOp.after
      cases hspec : op.spec text c with
      | ok r c' | error e c' =>
        rw [hspec] at htracks₁ htracks₂
        obtain ⟨htop, s₁', hrun₁, hat₁'⟩ := htracks₁
        obtain ⟨-, s₂', hrun₂, hat₂'⟩ := htracks₂
        rw [hrun₁, hrun₂]
        exact ⟨c', htop, rfl, hat₁', hat₂'⟩
    obtain ⟨c', htop, hanswer, hat₁', hat₂'⟩ := hgoes
    have hheld' : ∀ q ∈ (op.after s₂).position :: held, 0 ≤ q ∧ q ≤ c'.top := by
      refine List.forall_mem_cons.mpr ⟨?_, fun q hq => ?_⟩
      · have := hat₂'.position_eq
        have := hat₂'.position_le
        omega
      · have := hheld q hq
        omega
    rw [trace, trace, hanswer, ih hat₁' hat₂' hheld' hlater, hat₁'.position_eq, hat₂'.position_eq,
      hat₁'.furthest_eq, hat₂'.furthest_eq, hat₁'.saved_eq, hat₂'.saved_eq]

/-- A file that is read in chunks shows what its text in memory does, whatever is done. -/
theorem trace_eq {file : FileSource} {text : String} (h : file.Spells text.toList)
    (ops : List StreamOp) (hadmits : Admits ops [0] (.ofString text)) :
    trace ops (.ofFile file) = trace ops (.ofString text) :=
  trace_of_at ops (.ofFile h) (.ofString text) (by simp) hadmits

end Stream

end GrammarEngine
