import PerfGate.Text.Utf16

/-!
# Text — encodings of a log

A log is UTF-8 unless it starts with the byte-order mark of UTF-16 in one of the two byte orders.
The mark, also that of UTF-8, is not part of the text. Decoding is strict: bytes that are not the
encoding of a text are refused as a whole.
-/

namespace PerfGate.Text

/-- The encodings that are told apart by their mark. -/
inductive Encoding where
  | utf8
  | utf16le
  | utf16be
deriving DecidableEq

namespace Encoding

/-- The name of an encoding. -/
def label : Encoding → String
  | .utf8 => "UTF-8"
  | .utf16le => "UTF-16LE"
  | .utf16be => "UTF-16BE"

/-- The byte-order mark of an encoding. -/
def mark : Encoding → List UInt8
  | .utf8 => [0xef, 0xbb, 0xbf]
  | .utf16le => [0xff, 0xfe]
  | .utf16be => [0xfe, 0xff]

/-- The encoding whose mark starts the bytes, and the length of the mark; without a mark, UTF-8. -/
def detect : List UInt8 → Encoding × Nat
  | 0xff :: 0xfe :: _ => (.utf16le, 2)
  | 0xfe :: 0xff :: _ => (.utf16be, 2)
  | 0xef :: 0xbb :: 0xbf :: _ => (.utf8, 3)
  | _ => (.utf8, 0)

/-- The 16-bit units of a sequence of bytes, put together by `join`. An odd byte is left over. -/
def pairUnits? (join : UInt8 → UInt8 → Nat) : List UInt8 → Option (List Nat)
  | [] => some []
  | a :: b :: rest => (pairUnits? join rest).map (join a b :: ·)
  | [_] => none

/-- A unit from its more and its less significant byte. -/
def unit (high low : UInt8) : Nat := high.toNat * 256 + low.toNat

/-- The text that bytes without mark encode. -/
def decode? (encoding : Encoding) (bytes : List UInt8) : Option String :=
  match encoding with
  | .utf8 => String.fromUTF8? (List.toByteArray bytes)
  | .utf16le =>
    (pairUnits? (fun a b => unit b a) bytes).bind fun us => (Utf16.decode? us).map String.ofList
  | .utf16be =>
    (pairUnits? unit bytes).bind fun us => (Utf16.decode? us).map String.ofList

/-- The bytes of a 16-bit unit, the more significant one first. -/
def unitBytes (u : Nat) : List UInt8 := [UInt8.ofNat (u / 256), UInt8.ofNat (u % 256)]

/-- The bytes of a text, without a mark. -/
def encode (encoding : Encoding) (text : String) : List UInt8 :=
  match encoding with
  | .utf8 => text.toUTF8.data.toList
  | .utf16le => (Utf16.encode text.toList).flatMap fun u => (unitBytes u).reverse
  | .utf16be => (Utf16.encode text.toList).flatMap unitBytes

end Encoding

/-- Reads bytes as a text: detects the encoding, drops the mark, decodes the rest. Bytes that are no
text fail with the encoding that they were read in. -/
def decode (bytes : List UInt8) : Except Encoding String :=
  let (encoding, markLength) := Encoding.detect bytes
  match encoding.decode? (bytes.drop markLength) with
  | some text => .ok text
  | none => .error encoding

end PerfGate.Text
