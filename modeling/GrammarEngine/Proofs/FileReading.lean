import GrammarEngine.Stream.Source

namespace GrammarEngine

/-!
# What a file still gives

A file is read a block of bytes at a time, and a carriage return at the end of a block is held
back. None of that shows to who reads it: the characters come one after the other.

* `FileSource.Spells file rest` — the bytes of the file that were not read yet decode, and
  together with the characters that are ready or held back they spell `rest`;
* `nextBlock_spells` — a block takes nothing away from that, and it is the last one only if
  nothing is left;
* `read_spells` — reading gives the next characters, as many as there are.
-/

namespace FileSource

/-- The characters that are held back. -/
def held (file : FileSource) : List Char := if file.heldReturn then ['\r'] else []

/-- The file is open, it can be read in its chunks, and `rest` is what it still gives. -/
structure Spells (file : FileSource) (rest : List Char) : Prop where
  opened : file.closed = false
  chunk_pos : 0 < file.chunk
  chunk_le : file.chunk ≤ Int64.maxValue.toInt
  decodes : ∃ chars, file.encoding.decode file.state file.bytes = some (chars, .between) ∧
    rest = file.ready ++ (file.held ++ chars)

/-- A file that was opened, and whose bytes decode, gives what they spell. -/
theorem spells_of_open? {bytes : List UInt8} {encoding : Encoding} {codec : String} {chunk : Int}
    {file : FileSource} {chars : List Char} (h : open? (some bytes) codec chunk = .ok file)
    (hcodec : Encoding.named? codec = some encoding) (hchunk : chunk ≤ Int64.maxValue.toInt)
    (hdecode : encoding.decode .between bytes = some (chars, .between)) : file.Spells chars := by
  unfold open? at h
  rw [hcodec] at h
  by_cases hpos : chunk ≤ 0
  · rw [if_pos hpos] at h
    cases h
  · rw [if_neg hpos] at h
    split at h
    · cases h
    · cases h
      exact ⟨rfl, by show 0 < chunk.toNat; omega, by show (chunk.toNat : Int) ≤ _; omega, chars,
        hdecode, rfl⟩

/-! ### Blocks -/

/-- A byte completes at most one character. -/
theorem length_foldlM_add (encoding : Encoding) (block : List UInt8) (d d' : Decoded)
    (h : block.foldlM (Decoded.add encoding) d = some d') :
    d'.found.length ≤ d.found.length + block.length := by
  induction block generalizing d with
  | nil =>
    simp only [List.foldlM_nil, Option.pure_def, Option.some.injEq] at h
    subst h
    simp
  | cons b block ih =>
    simp only [List.foldlM_cons, Option.bind_eq_bind, Option.bind_eq_some_iff] at h
    obtain ⟨d₁, hadd, hrest⟩ := h
    obtain ⟨⟨state, c⟩, -, rfl⟩ := Option.map_eq_some_iff.mp hadd
    have hlen := ih _ hrest
    cases c <;> simp at hlen ⊢ <;> omega

theorem length_of_decode {encoding : Encoding} {state state' : DecodeState} {block : List UInt8}
    {chars : List Char} (h : encoding.decode state block = some (chars, state')) :
    chars.length ≤ block.length := by
  obtain ⟨d, hfold, hd⟩ := Option.map_eq_some_iff.mp h
  have hlen := length_foldlM_add encoding block _ d hfold
  cases hd
  simpa using hlen

/-- There is no more to come than what was taken for the bound. -/
theorem Spells.length_le {file : FileSource} {rest : List Char} (h : file.Spells rest) :
    rest.length ≤ file.unread := by
  obtain ⟨chars, hdecode, rfl⟩ := h.decodes
  have hlen := length_of_decode hdecode
  -- The character that is held back was read, and is counted by itself.
  have hheld : file.held.length = file.heldReturn.toNat := by
    unfold held
    cases file.heldReturn <;> rfl
  simp only [unread, List.length_append, hheld]
  omega

/-- Holding back a character does not lose it. -/
theorem holdBack_spells (heldReturn : Bool) (chars : List Char) :
    (holdBack heldReturn false chars).1 ++
        (if (holdBack heldReturn false chars).2 then ['\r'] else []) =
      (if heldReturn then ['\r'] else []) ++ chars := by
  unfold holdBack
  cases chars with
  | nil => simp
  | cons c chars =>
    have happend : (if heldReturn then '\r' :: c :: chars else c :: chars) =
        (if heldReturn then ['\r'] else []) ++ c :: chars := by
      cases heldReturn <;> rfl
    simp only [Bool.false_eq_true, if_false, List.isEmpty_cons, happend]
    by_cases hlast : ((if heldReturn then ['\r'] else []) ++ c :: chars).getLast? = some '\r'
    · obtain ⟨before, hbefore⟩ := List.getLast?_eq_some_iff.mp hlast
      rw [if_pos hlast, hbefore, List.dropLast_concat]
      rfl
    · rw [if_neg hlast]
      simp

theorem leastBlock_le_blockSize (file : FileSource) (count : Nat) :
    leastBlock ≤ file.blockSize count := by
  unfold blockSize
  exact Nat.le_max_left _ _

/-- The number of blocks that may still be worth reading: one for each byte, and one to give out
    what is held back. -/
def blocksLeft (file : FileSource) : Nat :=
  if file.bytes.isEmpty then file.heldReturn.toNat else file.bytes.length + 1

theorem blocksLeft_le (file : FileSource) : file.blocksLeft ≤ file.bytes.length + 1 := by
  unfold blocksLeft
  split
  · cases file.heldReturn <;> simp
  · exact Nat.le_refl _

/-- A block takes nothing away from what a file spells, and it is the last one only if nothing is
    left. -/
theorem nextBlock_spells {file : FileSource} {rest : List Char} (h : file.Spells rest)
    (hready : file.ready = []) (count : Nat) :
    ∃ more file', file.nextBlock count = (.ok more, file') ∧ file'.Spells rest ∧
      file'.chunk = file.chunk ∧ (more = false → rest = []) ∧
      (more = true → file'.blocksLeft < file.blocksLeft) := by
  obtain ⟨chars, hdecode, hrest⟩ := h.decodes
  have hsize : 0 < file.blockSize count :=
    Nat.lt_of_lt_of_le (by decide) (leastBlock_le_blockSize file count)
  rw [hready, List.nil_append] at hrest
  cases hbytes : file.bytes with
  | nil =>
    -- The end of the file: what was held back comes out.
    rw [hbytes] at hdecode
    obtain ⟨rfl, hstate⟩ : [] = chars ∧ file.state = .between := by
      simpa [Encoding.decode] using hdecode
    rw [List.append_nil] at hrest
    refine ⟨file.heldReturn, { file with
      bytes := [], state := .between, heldReturn := false, ready := file.held,
      lastBlock := (0, file.held.length) }, ?_, ?_, rfl, ?_, ?_⟩
    · cases hheld : file.heldReturn <;>
        simp [nextBlock, hbytes, Encoding.decode, hstate, holdBack, hheld, held]
    · exact ⟨h.opened, h.chunk_pos, h.chunk_le, [], by simp [Encoding.decode],
        by simp [hrest, held]⟩
    · intro hmore
      simp [hrest, held, hmore]
    · intro hmore
      simp [blocksLeft, hbytes, hmore]
  | cons b bytes =>
    -- A block in the middle: it is decoded, and what comes after it is decoded from there.
    obtain ⟨size, hsize'⟩ : ∃ size, file.blockSize count = size + 1 :=
      ⟨file.blockSize count - 1, by omega⟩
    rw [hbytes, ← List.take_append_drop (size + 1) (b :: bytes), Encoding.decode_append] at hdecode
    obtain ⟨⟨now, state⟩, hnow, hlater⟩ := Option.bind_eq_some_iff.mp hdecode
    obtain ⟨⟨later, state'⟩, hlater, heq⟩ := Option.map_eq_some_iff.mp hlater
    obtain ⟨rfl, rfl⟩ : now ++ later = chars ∧ state' = .between := by simpa using heq
    simp only [List.take_succ_cons, List.drop_succ_cons] at hnow hlater
    refine ⟨true, { file with
      bytes := bytes.drop size, state,
      heldReturn := (holdBack file.heldReturn false now).2,
      ready := (holdBack file.heldReturn false now).1,
      lastBlock := ((b :: bytes.take size).length, (holdBack file.heldReturn false now).1.length) },
      ?_, ?_, rfl, by simp, ?_⟩
    · simp [nextBlock, hbytes, hsize', hnow]
    · refine ⟨h.opened, h.chunk_pos, h.chunk_le, later, hlater, ?_⟩
      rw [hrest, held, held, ← List.append_assoc, ← List.append_assoc, holdBack_spells]
    · intro _
      have hlen : (bytes.drop size).length ≤ bytes.length := by simp
      have hle := blocksLeft_le { file with
        bytes := bytes.drop size, state,
        heldReturn := (holdBack file.heldReturn false now).2,
        ready := (holdBack file.heldReturn false now).1,
        lastBlock :=
          ((b :: bytes.take size).length, (holdBack file.heldReturn false now).1.length) }
      have hhere : file.blocksLeft = bytes.length + 2 := by simp [blocksLeft, hbytes]
      simp only at hle
      omega

/-! ### Reading -/

/-- The characters that are ready are the next ones. -/
theorem Spells.take_ready {file : FileSource} {rest : List Char} (h : file.Spells rest)
    (count : Nat) : { file with ready := file.ready.drop count }.Spells
      (rest.drop (min count file.ready.length)) := by
  obtain ⟨chars, hdecode, rfl⟩ := h.decodes
  refine ⟨h.opened, h.chunk_pos, h.chunk_le, chars, hdecode, ?_⟩
  rw [List.drop_append_of_le_length (Nat.min_le_right _ _)]
  congr 1
  rcases Nat.le_total count file.ready.length with hle | hle
  · rw [Nat.min_eq_left hle]
  · rw [Nat.min_eq_right hle, List.drop_length, List.drop_eq_nil_of_le hle]

/-- Reading on gives the next characters, if there are blocks enough to read. -/
theorem readOn_spells {file : FileSource} {rest : List Char} (h : file.Spells rest)
    (count : Nat) (taken : List Char) {blocks : Nat} (hblocks : file.blocksLeft + 1 < blocks) :
    ∃ file', file.readOn count taken blocks = (.ok (taken ++ rest.take count), file') ∧
      file'.Spells (rest.drop count) ∧ file'.chunk = file.chunk := by
  induction blocks generalizing file rest count taken with
  | zero => omega
  | succ blocks ih =>
    -- What is ready comes first; a block is read only if that is not enough.
    have htaken := h.take_ready count
    obtain ⟨chars, -, hrest⟩ := h.decodes
    by_cases hmissing : count - file.ready.length = 0
    · have hle : count ≤ file.ready.length := by omega
      refine ⟨{ file with ready := file.ready.drop count }, ?_, ?_, rfl⟩
      · simp [readOn, hmissing, hrest, List.take_append_of_le_length hle]
      · rwa [Nat.min_eq_left hle] at htaken
    · have hle : file.ready.length ≤ count := by omega
      rw [Nat.min_eq_right hle] at htaken
      obtain ⟨more, file₁, hblock, hspells, hchunk, hend, hleft⟩ := nextBlock_spells htaken
        (List.drop_eq_nil_of_le hle) (count - file.ready.length)
      -- The part that is asked for is what was ready and some of what the block brings.
      have htake : rest.take count =
          file.ready.take count ++ (rest.drop file.ready.length).take
            (count - file.ready.length) := by
        rw [hrest, List.take_append, List.drop_left]
      have hdrop : rest.drop count =
          (rest.drop file.ready.length).drop (count - file.ready.length) := by
        rw [List.drop_drop, Nat.add_sub_cancel' hle]
      cases more with
      | false =>
        refine ⟨file₁, ?_, ?_, hchunk⟩
        · simp [readOn, hmissing, hblock, htake, hend rfl]
        · rw [hdrop, hend rfl, List.drop_nil]
          rwa [hend rfl] at hspells
      | true =>
        have hblocksLeft : ({ file with ready := file.ready.drop count } : FileSource).blocksLeft =
          file.blocksLeft := rfl
        have hless := hleft rfl
        obtain ⟨file', hread, hspells', hchunk'⟩ := ih hspells (count - file.ready.length)
          (taken ++ file.ready.take count) (by omega)
        refine ⟨file', ?_, ?_, hchunk'.trans hchunk⟩
        · simp [readOn, hmissing, hblock, hread, htake]
        · rwa [hdrop]

/-- **Reading gives the next characters**, as many as there are. -/
theorem read_spells {file : FileSource} {rest : List Char} (h : file.Spells rest) (count : Nat) :
    ∃ file', file.read count = (.ok (rest.take count), file') ∧ file'.Spells (rest.drop count) ∧
      file'.chunk = file.chunk := by
  have hblocks : file.blocksLeft + 1 < file.bytes.length + 3 := by
    have := blocksLeft_le file
    omega
  obtain ⟨file', hread, hspells⟩ := readOn_spells h count [] hblocks
  -- The chunk size is looked at before anything is read.
  have hchunk : ¬ Int64.maxValue.toInt < file.chunk := Int.not_lt.mpr h.chunk_le
  exact ⟨file', by rw [read, if_neg hchunk, hread, List.nil_append], hspells⟩

end FileSource

end GrammarEngine
