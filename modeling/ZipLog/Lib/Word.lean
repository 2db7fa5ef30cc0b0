import Mathlib.Algebra.Group.Nat.Defs
import Mathlib.Data.Nat.Init

set_option autoImplicit false

namespace Word

-- Numbers as bytes, the least significant one first.
def encode : Nat → Nat → List UInt8
  | 0, _ => []
  | width + 1, value => UInt8.ofNat (value % 256) :: encode width (value / 256)

def decode : List UInt8 → Nat
  | [] => 0
  | byte :: bytes => byte.toNat + 256 * decode bytes

@[simp] theorem encode_length (width value : Nat) : (encode width value).length = width := by
  induction width generalizing value with
  | zero => rfl
  | succ width ih => rw [encode, List.length_cons, ih]

theorem decode_lt (bytes : List UInt8) : decode bytes < 256 ^ bytes.length := by
  induction bytes with
  | nil => exact Nat.one_pos
  | cons byte bytes ih =>
      have small := byte.toNat_lt
      rw [decode, List.length_cons, Nat.pow_succ]
      omega

theorem decode_encode (width value : Nat) (small : value < 256 ^ width) : decode (encode width value) = value := by
  induction width generalizing value with
  | zero =>
      rw [Nat.pow_zero] at small
      rw [encode, decode]
      omega
  | succ width ih =>
      have rest : value / 256 < 256 ^ width := Nat.div_lt_of_lt_mul (by rwa [Nat.pow_succ, Nat.mul_comm] at small)
      rw [encode, decode, ih _ rest, UInt8.toNat_ofNat']
      omega

end Word
