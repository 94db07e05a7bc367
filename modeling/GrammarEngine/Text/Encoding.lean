namespace GrammarEngine

/-!
# Character encodings

How the bytes of a file spell characters. Bytes come in blocks, and a block may end in the middle
of a character, so decoding goes from one state to another.

* `Encoding` — the encodings that are understood;
* `Encoding.named?` — an encoding by one of its names, however that is spelled;
* `Encoding.step` — what one byte adds;
* `Encoding.decode` — the characters of a block, and the state after it. `decode_append` says that
  it makes no difference where the bytes are cut into blocks.

Decoding is strict: overlong forms, surrogates and values beyond U+10FFFF are malformed, and a
byte order mark is a character like any other.
-/

/-- The encodings that a file can be read in. -/
inductive Encoding
  | ascii
  | latin1
  | utf8
  deriving DecidableEq, Repr

/-! ### Names -/

namespace Encoding

/-- All encodings. -/
def all : List Encoding := [.ascii, .latin1, .utf8]

theorem mem_all (encoding : Encoding) : encoding ∈ all := by
  cases encoding <;> decide

/-- The name that an encoding is listed under. -/
def label : Encoding → String
  | .ascii => "ascii"
  | .latin1 => "latin_1"
  | .utf8 => "utf_8"

/-- The other names of an encoding, most of them registered ones. -/
def aliases : Encoding → List String
  | .ascii =>
    ["646", "ansi_x3.4_1968", "ansi_x3_4_1968", "ansi_x3.4_1986", "cp367", "csascii", "ibm367",
      "iso646_us", "iso_646.irv_1991", "iso_ir_6", "us", "us_ascii"]
  | .latin1 =>
    ["8859", "cp819", "csisolatin1", "ibm819", "iso8859", "iso8859_1", "iso_8859_1",
      "iso_8859_1_1987", "iso_ir_100", "l1", "latin", "latin1"]
  | .utf8 => ["cp65001", "u8", "utf", "utf8", "utf8_ucs2", "utf8_ucs4"]

/-- The characters of a name as they are listed: ASCII letters, digits and points, the letters
    small, and an underscore wherever anything else stands between them. It matters whether one of
    them came before, and whether anything else came after that. -/
def plainChars (started gap : Bool) : List Char → List Char
  | [] => []
  | c :: rest =>
    if c.isAlphanum || c == '.' then
      (if started && gap then ['_'] else []) ++ c.toLower :: plainChars true false rest
    else plainChars started true rest

/-- A name as it is listed. -/
def plainName (name : String) : String := String.ofList (plainChars false false name.toList)

/-- Does an encoding go by a name? In the other names a point may stand for an underscore. -/
def hasName (encoding : Encoding) (name : String) : Bool :=
  let plain := plainName name
  let pointless := String.ofList (plain.toList.map fun c => if c == '.' then '_' else c)
  encoding.label == plain || encoding.aliases.contains plain
    || encoding.aliases.contains pointless

/-- An encoding by its name. -/
def named? (name : String) : Option Encoding := all.find? (·.hasName name)

example : all.map (fun encoding => named? encoding.label) = all.map some := by decide +kernel
example : named? "--Latin__1!!" = some .latin1 ∧ named? "iso.8859.1" = some .latin1 := by decide +kernel
example : named? "latin.1" = none := by decide +kernel

end Encoding

/-- Where decoding stands: between two characters, inside one with the given number of bytes to
    come, the bounds of the next byte, and the bits so far, or after the first two bytes of a
    surrogate, where no byte can follow. -/
inductive DecodeState
  | between
  | inside (missing : Nat) (low high : UInt8) (bits : Nat)
  | surrogate
  deriving DecidableEq, Repr

/-! ### One byte -/

/-- How a character of several bytes goes on after its first byte: how many bytes follow, the
    least and the greatest value of the next one, and the bits that the first byte gives. The
    bounds of the second byte are what rules out overlong forms and values beyond U+10FFFF. -/
def utf8Lead? (b : UInt8) : Option DecodeState :=
  if 0xc2 ≤ b && b < 0xe0 then some (.inside 1 0x80 0xbf (b.toNat - 0xc0))
  else if b == 0xe0 then some (.inside 2 0xa0 0xbf 0)
  else if 0xe1 ≤ b && b < 0xf0 then some (.inside 2 0x80 0xbf (b.toNat - 0xe0))
  else if b == 0xf0 then some (.inside 3 0x90 0xbf 0)
  else if 0xf1 ≤ b && b < 0xf4 then some (.inside 3 0x80 0xbf (b.toNat - 0xf0))
  else if b == 0xf4 then some (.inside 3 0x80 0x8f 4)
  else none

/-- Do the bits come from the first two bytes of a surrogate? No character of four bytes has these
    bits in front of its last byte. -/
def areSurrogateBits (bits : Nat) : Bool := 0x360 ≤ bits && bits < 0x380

/-- What one byte of UTF-8 adds: the state after it, and the character that it completes. A
    surrogate is found out only when its third byte comes. -/
def utf8Step : DecodeState → UInt8 → Option (DecodeState × Option Char)
  | .between, b =>
    if b < 0x80 then some (.between, some (Char.ofNat b.toNat))
    else (utf8Lead? b).map fun state => (state, none)
  | .inside missing low high bits, b =>
    if low ≤ b && b ≤ high then
      let bits := bits * 64 + (b.toNat - 0x80)
      if missing ≤ 1 then some (.between, some (Char.ofNat bits))
      else if areSurrogateBits bits then some (.surrogate, none)
      else some (.inside (missing - 1) 0x80 0xbf bits, none)
    else none
  | .surrogate, _ => none

/-- What one byte adds where every byte is the code point of a character, if it is below
    `limit`. -/
def byteStep (limit : Nat) (b : UInt8) : Option (DecodeState × Option Char) :=
  if b.toNat < limit then some (.between, some (Char.ofNat b.toNat)) else none

/-- What one byte adds: the state after it, and the character that it completes. `none` stands for
    a byte that cannot come here. -/
def Encoding.step : Encoding → DecodeState → UInt8 → Option (DecodeState × Option Char)
  | .ascii, _, b => byteStep 0x80 b
  | .latin1, _, b => byteStep 0x100 b
  | .utf8, state, b => utf8Step state b

/-! ### Blocks of bytes -/

/-- What a number of bytes has come to: the characters, the last one first, and the state. -/
structure Decoded where
  found : List Char
  state : DecodeState
  deriving DecidableEq, Repr

/-- Add one byte. -/
def Decoded.add (encoding : Encoding) (d : Decoded) (b : UInt8) : Option Decoded :=
  (encoding.step d.state b).map fun (state, c) => ⟨c.toList ++ d.found, state⟩

/-- Decode a block of bytes, from a state. `none` stands for a block with a byte that cannot stand
    where it does. -/
def Encoding.decode (encoding : Encoding) (state : DecodeState) (block : List UInt8) :
    Option (List Char × DecodeState) :=
  (block.foldlM (Decoded.add encoding) ⟨[], state⟩).map fun d => (d.found.reverse, d.state)

example : Encoding.utf8.decode .between [0x61, 0xc3, 0xa9, 0xe6, 0x97, 0xa5, 0xf0, 0x9f, 0x98, 0x80]
    = some (['a', 'é', '日', '😀'], .between) := by decide
example : Encoding.utf8.decode .between [0x41, 0xed, 0xa0, 0x80] = none := by decide
example : Encoding.utf8.decode .between [0x41, 0xc3] = some (['A'], .inside 1 0x80 0xbf 3) := by
  decide

/-- The characters found earlier stay where they are. -/
theorem foldlM_add_append (encoding : Encoding) (block : List UInt8) (found earlier : List Char)
    (state : DecodeState) :
    block.foldlM (Decoded.add encoding) ⟨found ++ earlier, state⟩ =
      (block.foldlM (Decoded.add encoding) ⟨found, state⟩).map
        fun d => ⟨d.found ++ earlier, d.state⟩ := by
  induction block generalizing found state with
  | nil => rfl
  | cons b block ih =>
    simp only [List.foldlM_cons, Decoded.add]
    cases encoding.step state b with
    | none => rfl
    | some p =>
      simp only [Option.map_some, Option.bind_eq_bind, Option.bind_some, ← List.append_assoc]
      exact ih (p.2.toList ++ found) p.1

/-- It makes no difference where bytes are cut into blocks. -/
theorem Encoding.decode_append (encoding : Encoding) (state : DecodeState)
    (first second : List UInt8) :
    encoding.decode state (first ++ second) =
      (encoding.decode state first).bind fun (chars, state) =>
        (encoding.decode state second).map fun (more, state) => (chars ++ more, state) := by
  unfold decode
  rw [List.foldlM_append]
  cases first.foldlM (Decoded.add encoding) ⟨[], state⟩ with
  | none => rfl
  | some d =>
    have h := foldlM_add_append encoding second [] d.found d.state
    simp only [List.nil_append] at h
    simp only [Option.bind_eq_bind, Option.bind_some, Option.map_some, h]
    cases second.foldlM (Decoded.add encoding) ⟨[], d.state⟩ <;> simp

end GrammarEngine
