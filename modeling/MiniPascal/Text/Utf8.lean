/-!
# Lenient decoding of UTF-8

Bytes that are not well-formed UTF-8 are decoded all the same: each longest run of bytes that begins
a character without completing it, and each byte that begins none, becomes one replacement
character.
-/

namespace MiniPascal.Text

def replacement : Char := '\uFFFD'

structure Partial where
  /-- Bytes still to come. -/
  missing : Nat
  /-- Bounds of the next byte. -/
  low : Nat
  high : Nat
  /-- The bits read so far. -/
  value : Nat
  deriving Repr, DecidableEq, Inhabited

def firstByte (byte : Nat) : Char ⊕ Partial :=
  if byte < 0x80 then .inl (Char.ofNat byte)
  else if byte < 0xC2 then .inl replacement
  else if byte < 0xE0 then .inr ⟨1, 0x80, 0xBF, byte - 0xC0⟩
  else if byte = 0xE0 then .inr ⟨2, 0xA0, 0xBF, 0⟩
  else if byte = 0xED then .inr ⟨2, 0x80, 0x9F, 0xD⟩
  else if byte < 0xF0 then .inr ⟨2, 0x80, 0xBF, byte - 0xE0⟩
  else if byte = 0xF0 then .inr ⟨3, 0x90, 0xBF, 0⟩
  else if byte < 0xF4 then .inr ⟨3, 0x80, 0xBF, byte - 0xF0⟩
  else if byte = 0xF4 then .inr ⟨3, 0x80, 0x8F, 4⟩
  else .inl replacement

def decodeFrom : Option Partial → List UInt8 → List Char
  | none, [] => []
  | some _, [] => [replacement]
  | none, byte :: bytes =>
      match firstByte byte.toNat with
      | .inl char => char :: decodeFrom none bytes
      | .inr begun => decodeFrom (some begun) bytes
  | some begun, byte :: bytes =>
      let code := byte.toNat
      if begun.low ≤ code ∧ code ≤ begun.high then
        let value := begun.value * 64 + (code - 0x80)
        if begun.missing ≤ 1 then Char.ofNat value :: decodeFrom none bytes
        else decodeFrom (some ⟨begun.missing - 1, 0x80, 0xBF, value⟩) bytes
      else
        match firstByte code with
        | .inl char => replacement :: char :: decodeFrom none bytes
        | .inr begun => replacement :: decodeFrom (some begun) bytes

def decode (bytes : List UInt8) : String := String.ofList (decodeFrom none bytes)

end MiniPascal.Text
