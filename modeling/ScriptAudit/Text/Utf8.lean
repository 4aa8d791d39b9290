/-
Reading UTF-8. Where bytes are not UTF-8, the error tells which bytes and what is wrong with them: no
character starts like this, a character does not go on like this, or the text ends in the middle of one.
-/
import ScriptAudit.Text.Basic

namespace ScriptAudit

inductive Utf8Flaw
  | start
  | continuation
  | truncated
  deriving DecidableEq

def Utf8Flaw.message : Utf8Flaw → String
  | start => "invalid start byte"
  | continuation => "invalid continuation byte"
  | truncated => "unexpected end of data"

/-- Bytes that are not UTF-8, from a position on. -/
structure Utf8Error where
  flaw : Utf8Flaw
  position : Nat
  first : UInt8
  count : Nat
  deriving DecidableEq

def Utf8Error.message (e : Utf8Error) : Text :=
  let place : Text :=
    if e.count = 1 then "byte 0x" ++ Text.hex 2 e.first.toNat ++ " in position " ++ Text.ofNat e.position
    else "bytes in position " ++ Text.ofNat e.position ++ "-" ++ Text.ofNat (e.position + e.count - 1)
  "'utf-8' codec can't decode " ++ place ++ ": " ++ Text.ofString e.flaw.message

namespace Utf8

/-- Bytes that may stand at a place of a character. -/
structure ByteRange where
  low : Nat
  high : Nat

def ByteRange.holds (r : ByteRange) (b : UInt8) : Bool := r.low ≤ b.toNat && b.toNat ≤ r.high

/-- The bytes that go on with a character. -/
def going : ByteRange := ⟨0x80, 0xBF⟩

/-- What a first byte gives: its bits of the code point, and what must follow. The byte after the first is
restricted further where a shorter form, a surrogate or a number beyond all code points would begin. -/
def lead? (b : UInt8) : Option (Nat × List ByteRange) :=
  let n := b.toNat
  if n < 0x80 then some (n, [])
  else if n < 0xC2 then none
  else if n < 0xE0 then some (n - 0xC0, [going])
  else if n < 0xF0 then
    let second : ByteRange := if n = 0xE0 then ⟨0xA0, 0xBF⟩ else if n = 0xED then ⟨0x80, 0x9F⟩ else going
    some (n - 0xE0, [second, going])
  else if n < 0xF5 then
    let second : ByteRange := if n = 0xF0 then ⟨0x90, 0xBF⟩ else if n = 0xF4 then ⟨0x80, 0x8F⟩ else going
    some (n - 0xF0, [second, going, going])
  else none

/-- Takes the bytes that must follow, and gives what they add up to. On failure it tells the flaw and how
many bytes were right. -/
def follow (bits right : Nat) : List ByteRange → List UInt8 → Except (Utf8Flaw × Nat) Nat
  | [], _ => .ok bits
  | _ :: _, [] => .error (.truncated, right)
  | range :: ranges, b :: bytes =>
    if range.holds b then follow (bits * 64 + (b.toNat - 0x80)) (right + 1) ranges bytes
    else .error (.continuation, right)

/-- Reads bytes from a position on, skipping those that belong to a character already read. -/
def decodeFrom (position skip : Nat) : List UInt8 → Except Utf8Error Text
  | [] => .ok []
  | b :: bytes =>
    match skip with
    | skip + 1 => decodeFrom (position + 1) skip bytes
    | 0 =>
      match lead? b with
      | none => .error ⟨.start, position, b, 1⟩
      | some (bits, ranges) =>
        match follow bits 1 ranges bytes with
        | .error (flaw, count) => .error ⟨flaw, position, b, count⟩
        | .ok n => do
          let rest ← decodeFrom (position + 1) ranges.length bytes
          return CodePoint.ofNat n :: rest

end Utf8

/-- The text that bytes write in UTF-8. -/
def Text.ofUtf8 (bytes : List UInt8) : Except Utf8Error Text := Utf8.decodeFrom 0 0 bytes

namespace Text

/-- Makes every line end a `\n`: a `\r`, with or without a `\n` after it, is one. -/
def normalizeLines : Text → Text
  | [] => []
  | [c] => if c = '\r' then "\n" else [c]
  | c :: d :: rest =>
    if c = '\r' then
      if d = '\n' then '\n' :: normalizeLines rest else '\n' :: normalizeLines (d :: rest)
    else c :: normalizeLines (d :: rest)

/-- The text of a file. -/
def ofFile (bytes : List UInt8) : Except Utf8Error Text := (ofUtf8 bytes).map normalizeLines

end Text

end ScriptAudit
