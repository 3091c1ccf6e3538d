/-
UTF-8: the characters that a run of bytes stands for. A byte that cannot go on with what stands
before it makes the text invalid from the start of its character on.
-/
namespace LedgerTotals.Utf8

/-- what is left to read of a character: `left` more bytes, the next one from `low` to `high`, onto
the bits in `value`, at `start` and with `read` bytes read so far -/
structure Pending where
  left : Nat
  low : Nat
  high : Nat
  value : Nat

def Pending.none : Pending := ⟨0, 0, 0, 0⟩

/-- the first byte of a character of two to four bytes -/
def lead? (b : Nat) : Option Pending :=
  if 0xC2 ≤ b ∧ b ≤ 0xDF then some ⟨1, 0x80, 0xBF, b - 0xC0⟩
  else if b = 0xE0 then some ⟨2, 0xA0, 0xBF, 0⟩
  else if b = 0xED then some ⟨2, 0x80, 0x9F, 0xD⟩
  else if 0xE1 ≤ b ∧ b ≤ 0xEF then some ⟨2, 0x80, 0xBF, b - 0xE0⟩
  else if b = 0xF0 then some ⟨3, 0x90, 0xBF, 0⟩
  else if 0xF1 ≤ b ∧ b ≤ 0xF3 then some ⟨3, 0x80, 0xBF, b - 0xF0⟩
  else if b = 0xF4 then some ⟨3, 0x80, 0x8F, 4⟩
  else none

/-- the characters of the bytes, after those in `acc` in reverse; `start` is the index of the first
byte that belongs to no complete character yet, and `index` that of the next byte -/
def decodeFrom (start index : Nat) (pending : Pending) (acc : List Char) :
    List UInt8 → Except Nat (List Char)
  | [] => if pending.left = 0 then .ok acc.reverse else .error start
  | byte :: r =>
    let b := byte.toNat
    if pending.left = 0 then
      if b < 0x80 then decodeFrom (index + 1) (index + 1) .none (Char.ofNat b :: acc) r
      else match lead? b with
        | some p => decodeFrom start (index + 1) p acc r
        | none => .error start
    else if pending.low ≤ b ∧ b ≤ pending.high then
      let value := 64 * pending.value + (b - 0x80)
      if pending.left = 1 then
        decodeFrom (index + 1) (index + 1) .none (Char.ofNat value :: acc) r
      else decodeFrom start (index + 1) ⟨pending.left - 1, 0x80, 0xBF, value⟩ acc r
    else .error start

/-- the characters of the bytes, or the number of bytes in front of the first invalid character -/
def decode (bytes : List UInt8) : Except Nat (List Char) := decodeFrom 0 0 .none [] bytes

def encode (s : String) : List UInt8 := s.toUTF8.toList

end LedgerTotals.Utf8
