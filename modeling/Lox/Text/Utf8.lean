/-!
# UTF-8

`decode` reads a list of bytes as UTF-8. A text that is not well formed is refused with the place of
the first fault: the longest run of bytes that begins a character and cannot be completed.
-/

namespace Lox.Text

/-- Why bytes are not UTF-8. -/
inductive Utf8Reason where
  /-- No character begins with this byte. -/
  | invalidStart
  /-- The next byte does not continue the character. -/
  | invalidContinuation
  /-- The text ends inside a character. -/
  | unexpectedEnd
deriving DecidableEq, Inhabited, Repr

def Utf8Reason.text : Utf8Reason → String
  | invalidStart => "invalid start byte"
  | invalidContinuation => "invalid continuation byte"
  | unexpectedEnd => "unexpected end of data"

/-- The bytes `first, ...` from a position on, `count` of them, that are no character. -/
structure Utf8Fault where
  reason : Utf8Reason
  position : Nat
  count : Nat
  first : UInt8
deriving DecidableEq, Inhabited, Repr

/-- A first byte: the bits it holds, how many bytes follow, and the range of the second one. -/
structure Lead where
  bits : Nat
  tail : Nat
  lowest : Nat
  highest : Nat
deriving DecidableEq, Inhabited, Repr

/-- The role of a byte as the first of a character. Overlong forms and surrogates are excluded. -/
def lead? (byte : UInt8) : Option Lead :=
  let b := byte.toNat
  if b < 0x80 then some ⟨b, 0, 0x80, 0xBF⟩
  else if b < 0xC2 then none
  else if b < 0xE0 then some ⟨b - 0xC0, 1, 0x80, 0xBF⟩
  else if b = 0xE0 then some ⟨0, 2, 0xA0, 0xBF⟩
  else if b = 0xED then some ⟨0xD, 2, 0x80, 0x9F⟩
  else if b < 0xF0 then some ⟨b - 0xE0, 2, 0x80, 0xBF⟩
  else if b = 0xF0 then some ⟨0, 3, 0x90, 0xBF⟩
  else if b < 0xF4 then some ⟨b - 0xF0, 3, 0x80, 0xBF⟩
  else if b = 0xF4 then some ⟨4, 3, 0x80, 0x8F⟩
  else none

/--
The code of a character of which `tail` bytes are missing, and the bytes after it. The next byte has
to lie in the given range, and later ones in that of all continuation bytes. A fault comes with the
number of bytes read before it.
-/
def continuation : (tail : Nat) → (lowest highest code read : Nat) → List UInt8 →
    Except (Utf8Reason × Nat) (Nat × List UInt8)
  | 0, _, _, code, _, bytes => .ok (code, bytes)
  | _ + 1, _, _, _, read, [] => .error (.unexpectedEnd, read)
  | tail + 1, lowest, highest, code, read, byte :: bytes =>
    let b := byte.toNat
    if lowest ≤ b ∧ b ≤ highest then
      continuation tail 0x80 0xBF (code * 64 + (b - 0x80)) (read + 1) bytes
    else .error (.invalidContinuation, read)

/-- Decodes at most `fuel` characters, the last one first. -/
def decodeFrom : (fuel : Nat) → (position : Nat) → List UInt8 → List Char →
    Except Utf8Fault (List Char)
  | 0, _, _, found => .ok found
  | _, _, [], found => .ok found
  | fuel + 1, position, first :: bytes, found =>
    match lead? first with
    | none => .error ⟨.invalidStart, position, 1, first⟩
    | some lead =>
      match continuation lead.tail lead.lowest lead.highest lead.bits 1 bytes with
      | .error (reason, count) => .error ⟨reason, position, count, first⟩
      | .ok (code, rest) =>
        decodeFrom fuel (position + (lead.tail + 1)) rest (Char.ofNat code :: found)

/-- The text that a list of bytes encodes. -/
def decode (bytes : List UInt8) : Except Utf8Fault (List Char) :=
  (decodeFrom bytes.length 0 bytes []).map List.reverse

end Lox.Text
