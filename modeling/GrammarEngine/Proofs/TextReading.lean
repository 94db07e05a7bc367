import GrammarEngine.Proofs.FileReading
import GrammarEngine.Proofs.Steps
import GrammarEngine.Stream.Basic

namespace GrammarEngine

/-!
# Reading a text

What the operations of a stream do, said of the text that the stream is over. Where the text comes
from, and how much of it is in the buffer, makes no difference.

* `Stream.Spells s text` — the buffer and what the source still gives are the text;
* `Stream.Reads s text p` — the stream stands at position `p` of the text;
* `Stream.Goes text s s' q reach` — the stream went from `s` to position `q`, looked at no place
  beyond `reach`, and has the saved positions that it had;
* `Stream.Strays text s s' reach` — it went somewhere, and left positions saved;
* `peek_goes`, `next_goes`, `advance_goes`, `regress_goes`, `substring_eq`, `save_eq` — one law for
  each operation that matching needs.
-/

/-- The part of a text between two positions. -/
def slice (text : List Char) (start stop : Nat) : String :=
  String.ofList ((text.take stop).drop start)

theorem slice_eq_empty {text : List Char} {start stop : Nat} (h : stop ≤ start) :
    slice text start stop = "" := by
  have hdrop : (text.take stop).drop start = [] :=
    List.drop_eq_nil_of_le (by rw [List.length_take]; omega)
  rw [slice, hdrop]

theorem length_slice {text : List Char} {start stop : Nat} (h : stop ≤ text.length) :
    (slice text start stop).length = stop - start := by
  rw [slice, String.length_ofList, List.length_drop, List.length_take, Nat.min_eq_left h]

/-- The part of a text that is one character. -/
theorem slice_succ {text : List Char} {p : Nat} {c : Char} (h : text[p]? = some c) :
    slice text p (p + 1) = .singleton c := by
  obtain ⟨hlt, rfl⟩ := List.getElem?_eq_some_iff.mp h
  have hdrop : (text.take (p + 1)).drop p = [text[p]] := by
    rw [List.take_succ_eq_append_getElem hlt, List.drop_left' (List.length_take_of_le (by omega))]
  rw [slice, hdrop]
  rfl

namespace Stream

/-- The buffer, and after it what the source still gives, is the text. -/
def Spells (s : Stream) (text : List Char) : Prop :=
  match s.source with
  | .memory => s.buffer.toList = text
  | .file file => ∃ rest, file.Spells rest ∧ s.buffer.toList ++ rest = text

/-- The stream stands at a position of a text. -/
structure Reads (s : Stream) (text : List Char) (p : Nat) : Prop where
  position : s.position = p
  le_length : p ≤ text.length
  spells : s.Spells text

/-- From `s` the stream went to position `q`. The furthest place that it looked at on the way is
    `reach`, and the saved positions are the same. -/
structure Goes (text : List Char) (s s' : Stream) (q reach : Nat) : Prop where
  reads : s'.Reads text q
  loaded : s.buffer.size ≤ s'.buffer.size
  /-- Where the stream comes to it has read the text up to there. -/
  moved : q ≤ s'.buffer.size ∨ (q : Int) = s.position
  furthest : s'.furthest = max s.furthest reach
  saved : s'.saved = s.saved

variable {s s' s'' : Stream} {text : List Char} {p q r reach reach' : Nat}

theorem Goes.refl (h : s.Reads text p) : Goes text s s p 0 :=
  ⟨h, Nat.le_refl _, .inr h.position.symm, (Nat.max_zero _).symm, rfl⟩

theorem Goes.trans (h : Goes text s s' q reach) (h' : Goes text s' s'' r reach') :
    Goes text s s'' r (max reach reach') where
  reads := h'.reads
  loaded := Nat.le_trans h.loaded h'.loaded
  moved := by
    rcases h'.moved with hread | hstayed
    · exact .inl hread
    · rw [h.reads.position] at hstayed
      obtain rfl := Int.ofNat.inj hstayed
      rcases h.moved with hread | hstayed
      · exact .inl (Nat.le_trans hread h'.loaded)
      · exact .inr hstayed
  furthest := by rw [h'.furthest, h.furthest, Nat.max_assoc]
  saved := h'.saved.trans h.saved

/-! ### The buffer -/

theorem Spells.isPrefix (h : s.Spells text) : s.buffer.toList <+: text := by
  unfold Spells at h
  split at h
  · subst h
    exact List.prefix_refl _
  · obtain ⟨rest, -, rfl⟩ := h
    exact List.prefix_append _ _

theorem Spells.size_le (h : s.Spells text) : s.buffer.size ≤ text.length := by
  have := h.isPrefix.length_le
  simpa using this

/-- The bound on the length of the text is one. -/
theorem Spells.length_le_extent (h : s.Spells text) : text.length ≤ s.extent := by
  unfold Spells at h
  split at h
  · rw [← h, Array.length_toList]
    exact Nat.le_add_right _ _
  · rename_i file hsource
    obtain ⟨rest, hrest, rfl⟩ := h
    have hle : rest.length ≤ s.source.unread := by
      rw [hsource]
      exact hrest.length_le
    rw [extent, List.length_append, Array.length_toList]
    omega

/-- What is in the buffer is in the text. -/
theorem Spells.getElem?_buffer (h : s.Spells text) (hp : p < s.buffer.size) :
    s.buffer[p]? = text[p]? := by
  obtain ⟨rest, rfl⟩ := h.isPrefix
  rw [List.getElem?_append_left (by simpa using hp), Array.getElem?_toList]

theorem Spells.excerpt_buffer (h : s.Spells text) (hq : q ≤ s.buffer.size) :
    excerpt s.buffer p q = slice text p q := by
  obtain ⟨rest, rfl⟩ := h.isPrefix
  apply String.toList_inj.mp
  have hlength : q ≤ s.buffer.toList.length := by simpa using hq
  rw [toList_excerpt, slice, String.toList_ofList, List.take_append_of_le_length hlength]

/-- A stream over a text in memory stands at its beginning. -/
theorem reads_ofString (input : String) : (ofString input).Reads input.toList 0 :=
  ⟨rfl, Nat.zero_le _, rfl⟩

/-- A stream over a file stands at the beginning of what the file gives. -/
theorem reads_ofFile {file : FileSource} (h : file.Spells text) : (ofFile file).Reads text 0 :=
  ⟨rfl, Nat.zero_le _, text, h, rfl⟩

/-! ### Reading into the buffer -/

/-- Only the buffer and the source are different, and the buffer did not get shorter. -/
structure Loads (text : List Char) (s s' : Stream) : Prop where
  spells : s'.Spells text
  size_le : s.buffer.size ≤ s'.buffer.size
  position : s'.position = s.position
  furthest : s'.furthest = s.furthest
  saved : s'.saved = s.saved

theorem Loads.refl (h : s.Spells text) : Loads text s s :=
  ⟨h, Nat.le_refl _, rfl, rfl, rfl⟩

theorem Loads.trans (h : Loads text s s') (h' : Loads text s' s'') : Loads text s s'' :=
  ⟨h'.spells, Nat.le_trans h.size_le h'.size_le, h'.position.trans h.position,
    h'.furthest.trans h.furthest, h'.saved.trans h.saved⟩

@[simp] theorem size_appendList (buffer : Array Char) (chars : List Char) :
    (buffer ++ chars).size = buffer.size + chars.length := by
  rw [← Array.length_toList, Array.toList_appendList, List.length_append, Array.length_toList]

/-- Reading from a file puts its next characters into the buffer: a chunk of them, or as many as
    the buffer holds already, unless there are fewer. -/
theorem fill_file {file : FileSource} {rest : List Char} (hsource : s.source = .file file)
    (hfile : file.Spells rest) :
    ∃ s' file', fill s = .ok (decide (rest ≠ [])) s' ∧ Loads (s.buffer.toList ++ rest) s s' ∧
      s'.buffer.size = s.buffer.size + min (max file.chunk s.buffer.size) rest.length ∧
      s'.source = .file file' ∧ file'.chunk = file.chunk := by
  obtain ⟨file', hread, hfile', hchunk⟩ :=
    FileSource.read_spells hfile (max file.chunk s.buffer.size)
  refine ⟨{ s with
    source := .file file'
    buffer := s.buffer ++ rest.take (max file.chunk s.buffer.size) }, file', ?_,
    ⟨⟨_, hfile', ?_⟩, by simp, rfl, rfl, rfl⟩, by simp, rfl, hchunk⟩
  · -- At least a chunk is asked for, so a file that gives nothing has nothing left.
    have hcount : max file.chunk s.buffer.size ≠ 0 := by
      have hpos := hfile.chunk_pos
      omega
    have hnil : rest.take (max file.chunk s.buffer.size) = [] ↔ rest = [] := by
      rw [List.take_eq_nil_iff, or_iff_right hcount]
    cases htake : rest.take (max file.chunk s.buffer.size) with
    | nil =>
      rw [htake] at hread
      simp [fill, hsource, hfile.opened, hread, hnil.mp htake]
    | cons c chars =>
      rw [htake] at hread
      have hrest : rest ≠ [] := fun hrest => by simp [hnil.mpr hrest] at htake
      simp [fill, hsource, hfile.opened, hread, hrest]
  · rw [Array.toList_appendList, List.append_assoc, List.take_append_drop]

/-- Reading more puts characters into the buffer, unless all of the text is in it. -/
theorem fill_loads (h : s.Spells text) :
    ∃ more s', fill s = .ok more s' ∧ Loads text s s' ∧
      (more = true → s.buffer.size < s'.buffer.size) ∧
      (more = false → s.buffer.size = text.length) := by
  have hspells := h
  unfold Spells at hspells
  split at hspells
  · rename_i hsource
    refine ⟨false, s, ?_, .refl h, by simp, ?_⟩
    · simp [fill, hsource]
    · intro _
      rw [← hspells, Array.length_toList]
  · rename_i file hsource
    obtain ⟨rest, hfile, rfl⟩ := hspells
    obtain ⟨s', file', hfill, hloads, hsize, -⟩ := fill_file hsource hfile
    refine ⟨_, s', hfill, hloads, fun hmore => ?_, fun hmore => ?_⟩
    · have hpos := hfile.chunk_pos
      have hrest := List.length_pos_iff.mpr (of_decide_eq_true hmore)
      omega
    · simpa using hmore

/-- The buffer is filled up to a length, or to the end of the text. -/
theorem fillUpTo_loads (h : s.Spells text) (length : Nat) {steps : Nat}
    (hsteps : text.length < s.buffer.size + steps) :
    ∃ s', fillUpTo length steps s = .ok (decide (length ≤ text.length)) s' ∧ Loads text s s' ∧
      min length text.length ≤ s'.buffer.size := by
  induction steps generalizing s with
  | zero =>
    have := h.size_le
    omega
  | succ steps ih =>
    have hsize := h.size_le
    -- Each step but the last one makes the buffer longer.
    by_cases hlength : length ≤ s.buffer.size
    · have hle : length ≤ text.length := by omega
      refine ⟨s, ?_, .refl h, by omega⟩
      simp [fillUpTo, hlength, hle]
    · obtain ⟨more, s₁, hfill, hloads, hmore, hend⟩ := fill_loads h
      cases more with
      | false =>
        have hwhole := hend rfl
        have hle : ¬ length ≤ text.length := by omega
        refine ⟨s₁, ?_, hloads, by have := hloads.size_le; omega⟩
        simp [fillUpTo, hlength, Step.bind_ok hfill, hle]
      | true =>
        have hmore := hmore rfl
        obtain ⟨s', hs', hloads', hmin⟩ := ih hloads.spells (by omega)
        refine ⟨s', ?_, hloads.trans hloads', hmin⟩
        simp [fillUpTo, hlength, Step.bind_ok hfill, hs']

/-- The buffer reaches to the wanted length, or to the end of the text. -/
theorem ensure_loads (h : s.Spells text) (length : Int) :
    ∃ s', ensure length s = .ok (decide (length ≤ text.length)) s' ∧ Loads text s s' ∧
      min length text.length ≤ s'.buffer.size := by
  have hsize := h.size_le
  have hextent := h.length_le_extent
  by_cases hlength : length ≤ s.buffer.size
  · have hle : length ≤ text.length := by omega
    refine ⟨s, ?_, .refl h, by omega⟩
    simp [ensure, hlength, hle]
  · have hsteps : text.length < s.buffer.size + (s.source.unread + 1) := by
      unfold extent at hextent
      omega
    obtain ⟨s', hfill, hloads, hmin⟩ := fillUpTo_loads h length.toNat hsteps
    refine ⟨s', ?_, hloads, by omega⟩
    have hiff : length.toNat ≤ text.length ↔ length ≤ text.length := by omega
    simp [ensure, hlength, hfill, hiff]

/-! ### The cursor -/

/-- Looking at the character at the position. -/
theorem peek_goes (h : s.Reads text p) :
    ∃ s', Goes text s s' p p ∧ (p < text.length → p < s'.buffer.size) ∧
      peek s = match text[p]? with
        | some c => .ok c s'
        | none => .error (.exhausted (.noCharacter p)) s' := by
  -- The furthest place is noted first, and the buffer is filled after that.
  have hspells : ({ s with furthest := max s.furthest p } : Stream).Spells text := h.spells
  obtain ⟨s', hensure, hloads, hmin⟩ := ensure_loads hspells (p + 1)
  have hchar : charAt? s'.buffer p = text[p]? := by
    rw [charAt?_natCast]
    by_cases hp : p < s'.buffer.size
    · exact hloads.spells.getElem?_buffer hp
    · have hle := hloads.spells.size_le
      rw [Array.getElem?_eq_none (by omega), List.getElem?_eq_none (by omega)]
  have hposition := hloads.position
  refine ⟨s', ⟨⟨hposition.trans h.position, h.le_length, hloads.spells⟩, hloads.size_le,
    .inr h.position.symm, hloads.furthest, hloads.saved⟩, by omega, ?_⟩
  · rw [h.position] at hensure
    simp only [peek, Step.modify_bind, Step.get_bind, h.position, Int.toNat_natCast,
      Step.bind_ok hensure, hchar]
    cases text[p]? with
    | none => rw [if_neg (by omega)]; rfl
    | some c => rfl

/-- Looking at the character at the position and leaving it behind. -/
theorem next_goes (h : s.Reads text p) :
    ∃ s', match text[p]? with
      | some c => next s = .ok c s' ∧ Goes text s s' (p + 1) p
      | none => next s = .error (.exhausted (.noCharacter p)) s' ∧ Goes text s s' p p := by
  obtain ⟨s', hgoes, hloaded, hpeek⟩ := peek_goes h
  cases hchar : text[p]? with
  | none =>
    simp only [hchar] at hpeek
    exact ⟨s', Step.bind_error hpeek _, hgoes⟩
  | some c =>
    simp only [hchar] at hpeek
    have hlt : p < text.length := (List.getElem?_eq_some_iff.mp hchar).choose
    refine ⟨{ s' with position := s'.position + 1 }, ?_, ⟨?_, hlt, hgoes.reads.spells⟩,
      hgoes.loaded, .inl (hloaded hlt), hgoes.furthest, hgoes.saved⟩
    · rw [next, Step.bind_ok hpeek]
      rfl
    · simp [hgoes.reads.position]

/-- Asking whether there is a character at the position. -/
theorem hasNext_goes (h : s.Reads text p) :
    ∃ s', hasNext s = .ok (decide (p < text.length)) s' ∧ Goes text s s' p 0 := by
  obtain ⟨s', hensure, hloads, -⟩ := ensure_loads h.spells (p + 1)
  refine ⟨s', ?_, ⟨⟨hloads.position.trans h.position, h.le_length, hloads.spells⟩, hloads.size_le,
    .inr h.position.symm, ?_, hloads.saved⟩⟩
  · have hiff : (p + 1 : Int) ≤ text.length ↔ p < text.length := by omega
    rw [hasNext, Step.get_bind, h.position, hensure]
    simp only [hiff]
  · rw [Nat.max_zero]
    exact hloads.furthest

/-- Leaving a character behind. -/
theorem advance_goes (h : s.Reads text p) (hp : p < text.length) :
    ∃ s', advance 1 s = .ok () s' ∧ Goes text s s' (p + 1) 0 := by
  obtain ⟨s', hensure, hloads, hmin⟩ := ensure_loads h.spells (p + 1)
  have hle : (p + 1 : Int) ≤ text.length := by omega
  refine ⟨{ s' with position := s'.position + 1 }, ?_, ⟨?_, hp, hloads.spells⟩, hloads.size_le,
    .inl ?_, ?_, hloads.saved⟩
  · rw [advance, if_neg (by omega)]
    simp only [Step.get_bind, h.position, Step.bind_ok hensure, hle, decide_true, if_true]
    rfl
  · simp [hloads.position, h.position]
  · show p + 1 ≤ s'.buffer.size
    omega
  · rw [Nat.max_zero]
    exact hloads.furthest

/-- Going back to an earlier position. -/
theorem regress_goes (h : s.Reads text p) (hq : q ≤ p) (hmoved : q ≤ s.buffer.size ∨ q = p) :
    ∃ s', regress (p - q) s = .ok () s' ∧ Goes text s s' q 0 := by
  have hmoved : q ≤ s.buffer.size ∨ (q : Int) = s.position := by
    rw [h.position]
    omega
  refine ⟨{ s with position := q }, ?_, ⟨rfl, Nat.le_trans hq h.le_length, h.spells⟩,
    Nat.le_refl _, hmoved, (Nat.max_zero _).symm, rfl⟩
  have hposition : (p - (p - q : Int)) = q := by omega
  rw [regress, if_neg (by omega)]
  simp only [Step.get_bind, h.position]
  rw [if_neg (by omega), hposition]
  rfl

/-- The text between an earlier position and this one. -/
theorem substring_eq (h : s.Reads text q) (hp : p ≤ q) (hmoved : q ≤ s.buffer.size ∨ q = p) :
    substring (q - p) s = .ok (slice text p q) s := by
  have hexcerpt : excerpt s.buffer p q = slice text p q := by
    -- A stream that did not move need not have read the text up to its position.
    rcases hmoved with hread | rfl
    · exact h.spells.excerpt_buffer hread
    · rw [slice_eq_empty (Nat.le_refl q)]
      apply String.toList_inj.mp
      simp [toList_excerpt]
  have hposition : (q - (q - p : Int)) = p := by omega
  simp only [substring, Step.get_bind, h.position]
  rw [if_neg (by omega), hposition]
  simp only [hexcerpt]
  rfl

/-! ### Saved positions -/

/-- A position of a text can be saved. -/
theorem save_eq (h : s.Reads text p) : save s = .ok () { s with saved := p :: s.saved } := by
  -- A position of the text is one that a stream can come to, so it fits.
  have hextent : p ≤ s.extent := Nat.le_trans h.le_length h.spells.length_le_extent
  have hsavable : s.isSavable = true := by
    simp [isSavable, h.position, hextent]
  simp only [save, Step.get_bind, hsavable, if_true, h.position, Int.toNat_natCast]
  rfl

theorem discard_eq {saved : List Nat} (h : s.saved = p :: saved) :
    discard s = .ok () { s with saved } := by
  simp only [discard, Step.get_bind, h]
  rfl

theorem revert_eq {saved : List Nat} (h : s.saved = p :: saved) :
    revert s = .ok () { s with position := p, saved } := by
  simp only [revert, Step.get_bind, h]
  rfl

/-- From `s` the stream went somewhere in the text, and left positions saved on the way. -/
structure Strays (text : List Char) (s s' : Stream) (reach : Nat) : Prop where
  spells : s'.Spells text
  loaded : s.buffer.size ≤ s'.buffer.size
  furthest : s'.furthest = max s.furthest reach
  saved : ∃ above, s'.saved = above ++ s.saved

theorem Goes.strays (h : Goes text s s' q reach) : Strays text s s' reach :=
  ⟨h.reads.spells, h.loaded, h.furthest, [], h.saved⟩

/-- A stream that strayed is back where it was after rewinding. -/
theorem Strays.rewind (h : Strays text s s' reach) (hs : s.Reads text p) :
    Goes text s (s'.rewind s.position s.depth) p reach := by
  obtain ⟨above, habove⟩ := h.saved
  refine ⟨⟨hs.position, hs.le_length, h.spells⟩, h.loaded, .inr hs.position.symm, h.furthest, ?_⟩
  exact saved_rewind s' s.position above s.saved habove

end Stream

end GrammarEngine
