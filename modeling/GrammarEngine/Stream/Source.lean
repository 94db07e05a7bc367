import GrammarEngine.Error
import GrammarEngine.Text.Encoding

namespace GrammarEngine

/-!
# Where the characters of a stream come from

A text in memory has nothing to add; a file is read a block of bytes at a time, and each block is
decoded as a whole.

* `FileSource` — a file that is being read;
* `FileSource.nextBlock` — read and decode one block;
* `FileSource.read` — the next characters, from as many blocks as they take;
* `FileSource.open?` — a file from its bytes, the name of an encoding and a chunk size;
* `Source` — a text in memory or a file.

A read that fails has lost what it had got until then: the characters that it had taken, and the
block that could not be decoded.
-/

/-- A file that is being read. -/
structure FileSource where
  encoding : Encoding
  /-- The least number of characters to ask for at once. -/
  chunk : Nat
  /-- The bytes that were not read yet. -/
  bytes : List UInt8
  /-- Where decoding stands in front of them. -/
  state : DecodeState
  /-- Is a carriage return held back that was the last character of a block? It is given out
      together with what follows it, or at the end. -/
  heldReturn : Bool
  /-- Characters that were decoded and not asked for yet. -/
  ready : List Char
  /-- The numbers of bytes and of characters in the last block. -/
  lastBlock : Nat × Nat
  closed : Bool
  deriving Repr

namespace FileSource

/-- A bound on the number of characters that are still to come: each one is ready, held back, or
    completed by a byte to come. -/
def unread (file : FileSource) : Nat :=
  file.ready.length + file.bytes.length + file.heldReturn.toNat

/-! ### Blocks -/

/-- The least number of bytes in a block, unless the file ends. -/
def leastBlock : Nat := 8192

/-- How many bytes to read for a number of characters: as many as they take if they are like those
    of the last block. -/
def blockSize (file : FileSource) (count : Nat) : Nat :=
  let (bytes, chars) := file.lastBlock
  max leastBlock (if 0 < chars ∧ chars ≤ bytes then bytes * count / chars else count)

/-- Put the carriage return that was held back in front of some characters, and hold back the last
    one of them if it is a carriage return. At the end nothing is held back, and where nothing
    comes everything stays as it is. -/
def holdBack (heldReturn atEnd : Bool) (chars : List Char) : List Char × Bool :=
  if atEnd then (if heldReturn then '\r' :: chars else chars, false)
  else if chars.isEmpty then ([], heldReturn)
  else
    let chars := if heldReturn then '\r' :: chars else chars
    if chars.getLast? = some '\r' then (chars.dropLast, true) else (chars, false)

/-- Read and decode a block for a number of characters. Says whether there may be more after it.
    The block at the end is empty, and no character may be unfinished there. -/
def nextBlock (file : FileSource) (count : Nat) : Except Error Bool × FileSource :=
  let size := file.blockSize count
  let block := file.bytes.take size
  let atEnd := block.isEmpty
  let file := { file with bytes := file.bytes.drop size }
  match file.encoding.decode file.state block with
  | none => (.error .malformedBytes, file)
  | some (chars, state) =>
    if atEnd ∧ state ≠ .between then (.error .malformedBytes, file)
    else
      let (ready, heldReturn) := holdBack file.heldReturn atEnd chars
      (.ok (!atEnd || !ready.isEmpty),
        { file with state, heldReturn, ready, lastBlock := (block.length, ready.length) })

/-! ### Reading -/

/-- Take characters after those in `taken`, from at most so many blocks. -/
def readOn (count : Nat) (taken : List Char) (file : FileSource) :
    (blocks : Nat) → Except Error (List Char) × FileSource
  | 0 => (.ok taken, file)
  | blocks + 1 =>
    let taken := taken ++ file.ready.take count
    let missing := count - file.ready.length
    let file := { file with ready := file.ready.drop count }
    if missing = 0 then (.ok taken, file)
    else match file.nextBlock missing with
      | (.error e, file) => (.error e, file)
      | (.ok false, file) => (.ok taken, file)
      | (.ok true, file) => readOn missing taken file blocks

/-- The next characters: a number of them, or as many as there are. Every block but the last one
    takes a byte or gives out the carriage return that was held back, which bounds their number.
    No file can be read in chunks that a machine integer cannot count. -/
def read (file : FileSource) (count : Nat) : Except Error (List Char) × FileSource :=
  if Int64.maxValue.toInt < file.chunk then (.error .overflow, file)
  else file.readOn count [] (file.bytes.length + 3)

/-- Open a file. The chunk size is looked at first, then whether the name of the encoding is one
    at all, then whether there is a file (`none` stands for no file), then the encoding; the bytes
    only when they are read. -/
def open? (bytes : Option (List UInt8)) (encoding : String) (chunk : Int) :
    Except Error FileSource :=
  if chunk ≤ 0 then .error (.value .chunkSize)
  else if encoding.toList.contains '\x00' then .error (.value .nullCharacter)
  else match bytes, Encoding.named? encoding with
    | none, _ => .error .noSuchFile
    | some _, none => .error .unknownEncoding
    | some bytes, some encoding =>
      .ok { encoding, chunk := chunk.toNat, bytes, state := .between, heldReturn := false,
            ready := [], lastBlock := (0, 0), closed := false }

/-- The number of characters that a file is read by if nothing else is asked for. -/
def defaultChunk : Int := 65536

end FileSource

/-- Where the characters of a stream come from. -/
inductive Source
  | memory
  | file (file : FileSource)
  deriving Repr

/-- A bound on the number of characters that the source has not given yet. -/
def Source.unread : Source → Nat
  | .memory => 0
  | .file opened => opened.unread

end GrammarEngine
