/-!
UTF-8 text as bytes. A decoder takes one byte at a time and splits any byte sequence into
units: whole characters and the longest beginnings of characters that never got completed.
Decoding that must not fail writes U+FFFD for each such beginning.
-/

namespace Lox.Text

/-- The bytes from `low` to `high`, both included. -/
structure ByteRange where
  low : UInt8
  high : UInt8
  deriving DecidableEq, Repr

/-- The byte lies in the range. -/
def ByteRange.has (range : ByteRange) (byte : UInt8) : Bool :=
  range.low ≤ byte && byte ≤ range.high

/-- A byte that continues a character without further restriction. -/
def continuation : ByteRange := ⟨0x80, 0xBF⟩

/-- The ranges that the bytes after a first byte must lie in, or nothing for a byte that
starts no character. -/
def expectedAfter (first : UInt8) : Option (List ByteRange) :=
  if first ≤ 0x7F then some []
  else if first < 0xC2 then none
  else if first ≤ 0xDF then some [continuation]
  else if first = 0xE0 then some [⟨0xA0, 0xBF⟩, continuation]
  else if first = 0xED then some [⟨0x80, 0x9F⟩, continuation]
  else if first ≤ 0xEF then some [continuation, continuation]
  else if first = 0xF0 then some [⟨0x90, 0xBF⟩, continuation, continuation]
  else if first ≤ 0xF3 then some [continuation, continuation, continuation]
  else if first = 0xF4 then some [⟨0x80, 0x8F⟩, continuation, continuation]
  else none

/-- How a unit of text ended. -/
inductive UnitForm where
  /-- A complete character. -/
  | whole
  /-- A beginning that the next byte does not continue, or a byte that starts nothing. -/
  | broken
  /-- A beginning that the text ends in. -/
  | cutOff
  deriving DecidableEq, Repr

/-- Consecutive bytes that are one character or the beginning of one. -/
structure TextUnit where
  bytes : List UInt8
  form : UnitForm
  deriving DecidableEq, Repr

/-- The decoder between two bytes: the bytes of the character begun, and the ranges its
missing bytes must lie in. Between characters both are empty. -/
structure Decoder where
  held : List UInt8
  expected : List ByteRange
  deriving DecidableEq, Repr

/-- The decoder between characters. -/
def Decoder.fresh : Decoder := ⟨[], []⟩

/-- Takes a byte as the first of a character. -/
def Decoder.begin (byte : UInt8) : List TextUnit × Decoder :=
  match expectedAfter byte with
  | none => ([⟨[byte], .broken⟩], .fresh)
  | some [] => ([⟨[byte], .whole⟩], .fresh)
  | some expected => ([], ⟨[byte], expected⟩)

/-- Takes the next byte: the units it completes, and the decoder after it. -/
def Decoder.next (decoder : Decoder) (byte : UInt8) : List TextUnit × Decoder :=
  match decoder.expected with
  | [] => Decoder.begin byte
  | range :: later =>
    if range.has byte then
      match later with
      | [] => ([⟨decoder.held ++ [byte], .whole⟩], .fresh)
      | _ => ([], ⟨decoder.held ++ [byte], later⟩)
    else
      let (units, after) := Decoder.begin byte
      (⟨decoder.held, .broken⟩ :: units, after)

/-- The units from a decoder on. -/
def Decoder.units (decoder : Decoder) : List UInt8 → List TextUnit
  | [] => if decoder.held = [] then [] else [⟨decoder.held, .cutOff⟩]
  | byte :: rest =>
    let (done, after) := decoder.next byte
    done ++ after.units rest

/-- The bytes split into characters and unfinished beginnings of characters. -/
def units (bytes : List UInt8) : List TextUnit := Decoder.fresh.units bytes

/-- The code point of a complete character: the payload of its first byte, then six bits of
each further byte. -/
def codePoint : List UInt8 → Nat
  | [] => 0
  | first :: rest =>
    let payload :=
      match rest.length with
      | 0 => first.toNat
      | 1 => first.toNat % 32
      | 2 => first.toNat % 16
      | _ => first.toNat % 8
    rest.foldl (fun point byte => point * 64 + byte.toNat % 64) payload

/-- The character of a unit, U+FFFD for an unfinished one. -/
def TextUnit.char (unit : TextUnit) : Char :=
  match unit.form with
  | .whole => Char.ofNat (codePoint unit.bytes)
  | .broken | .cutOff => '\uFFFD'

/-- Decodes any bytes, with one U+FFFD for each unfinished beginning of a character. -/
def decodeLossy (bytes : List UInt8) : String :=
  String.ofList ((units bytes).map TextUnit.char)

/-- Why bytes are not UTF-8 text. -/
inductive Utf8Error where
  /-- The `size` bytes from `offset` on start no character that their successor continues. -/
  | invalid (size : Nat) (offset : Nat)
  /-- The text ends inside the character that starts at `offset`. -/
  | incomplete (offset : Nat)
  deriving DecidableEq, Repr

/-- The wording of the error. -/
def Utf8Error.message : Utf8Error → String
  | .invalid size offset => s!"invalid utf-8 sequence of {size} bytes from index {offset}"
  | .incomplete offset => s!"incomplete utf-8 byte sequence from index {offset}"

/-- The first unfinished unit, as an error; `offset` counts the bytes before the units. -/
def firstError? (offset : Nat) : List TextUnit → Option Utf8Error
  | [] => none
  | unit :: rest =>
    match unit.form with
    | .whole => firstError? (offset + unit.bytes.length) rest
    | .broken => some (.invalid unit.bytes.length offset)
    | .cutOff => some (.incomplete offset)

/-- Decodes UTF-8 text, or tells where it first goes wrong. -/
def decode (bytes : List UInt8) : Except Utf8Error String :=
  match firstError? 0 (units bytes) with
  | some error => .error error
  | none => .ok (decodeLossy bytes)

/-- The bytes of a text. -/
def encode (text : String) : List UInt8 := text.toUTF8.toList

end Lox.Text
