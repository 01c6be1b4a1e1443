/-!
# Byte layouts

Every number of the byte stream is little-endian, and every text is UTF-8 closed by a zero byte.
Bytes are plain lists: a layout is a concatenation, and its length is the sum of the lengths of
its parts.
-/

namespace ActionFlow

/-- A byte string. -/
abbrev Bytes := List UInt8

namespace Bytes

/-- The two bytes of a 16-bit word, low byte first. -/
def ofUInt16 (n : UInt16) : Bytes :=
  [n.toUInt8, (n >>> 8).toUInt8]

/-- The two bytes of a signed 16-bit word, low byte first. -/
def ofInt16 (n : Int16) : Bytes :=
  ofUInt16 n.toUInt16

/-- The four bytes of a 32-bit word, low byte first. -/
def ofUInt32 (n : UInt32) : Bytes :=
  [n.toUInt8, (n >>> 8).toUInt8, (n >>> 16).toUInt8, (n >>> 24).toUInt8]

/-- The four bytes of a signed 32-bit word, low byte first. -/
def ofInt32 (n : Int32) : Bytes :=
  ofUInt32 n.toUInt32

/-- A 64-bit word stored as two 32-bit words, the high word first, each of them low byte first. -/
def ofUInt64HighFirst (n : UInt64) : Bytes :=
  ofUInt32 (n >>> 32).toUInt32 ++ ofUInt32 n.toUInt32

/-- The UTF-8 bytes of a text. -/
def ofText (s : String) : Bytes :=
  s.toList.flatMap String.utf8EncodeChar

/-- A text as the stream stores it: its UTF-8 bytes and a closing zero. -/
def ofTerminatedText (s : String) : Bytes :=
  ofText s ++ [0]

/-- Flags as a number, one bit each, the first flag in the lowest bit. -/
def ofFlags (flags : List Bool) : Nat :=
  flags.foldr (fun b n => b.toNat + 2 * n) 0

/-- The 16-bit word that two bytes spell, low byte first. -/
def word (lo hi : UInt8) : Nat :=
  lo.toNat + 256 * hi.toNat

/-- The signed reading of the 16-bit word that two bytes spell. -/
def signedWord (lo hi : UInt8) : Int :=
  Int.bmod (word lo hi) 65536

@[simp] theorem length_ofUInt16 (n : UInt16) : (ofUInt16 n).length = 2 := rfl

@[simp] theorem length_ofInt16 (n : Int16) : (ofInt16 n).length = 2 := rfl

@[simp] theorem length_ofUInt32 (n : UInt32) : (ofUInt32 n).length = 4 := rfl

@[simp] theorem length_ofTerminatedText (s : String) :
    (ofTerminatedText s).length = (ofText s).length + 1 := by
  simp [ofTerminatedText]

end Bytes

end ActionFlow
