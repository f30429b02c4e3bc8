import Mathlib.Data.Nat.Bitwise
import Mathlib.Logic.Function.Iterate
import TraversalPlanner.Bytes.Codec

/-! A change of one byte shows in the checksum. No state is lost when a byte is absorbed, and no two bytes lead
from one state to the same; so states that differ once differ as long as the same bytes follow. -/

namespace TraversalPlanner.Checksum

private theorem even_iff (state : UInt32) : state &&& 1 = 0 ↔ state.toNat % 2 = 0 := by
  rw [← UInt32.toNat_inj, UInt32.toNat_and, UInt32.toNat_one, Nat.and_one_is_mod, UInt32.toNat_zero]

theorem toNat_shift (state : UInt32) :
    (shift state).toNat = if state.toNat % 2 = 0 then state.toNat / 2 else state.toNat / 2 ^^^ 0xEDB88320 := by
  have half : (state >>> 1).toNat = state.toNat / 2 := by
    rw [UInt32.toNat_shiftRight, Nat.shiftRight_eq_div_pow]
    rfl
  unfold shift
  simp only [even_iff]
  split
  · exact half
  · rw [UInt32.toNat_xor, half]
    rfl

/-- The bit that is pushed out comes back at the top, since the polynomial has its highest bit set. -/
theorem testBit_shift (state : UInt32) : (shift state).toNat.testBit 31 = !decide (state.toNat % 2 = 0) := by
  have low : (state.toNat / 2).testBit 31 = false := by
    have bound := state.toNat_lt
    exact Nat.testBit_lt_two_pow (by omega)
  have high : (0xEDB88320 : Nat).testBit 31 = true := by decide
  rw [toNat_shift]
  split
  · next even => simp [low, even]
  · next odd => simp [Nat.testBit_xor, low, high, odd]

theorem shift_injective : Function.Injective shift := by
  intro state other same
  have parity : state.toNat % 2 = 0 ↔ other.toNat % 2 = 0 := by
    have tops := testBit_shift state
    rw [same, testBit_shift other] at tops
    simpa using tops.symm
  have halves : state.toNat / 2 = other.toNat / 2 := by
    have numbers := congrArg UInt32.toNat same
    rw [toNat_shift, toNat_shift] at numbers
    by_cases even : state.toNat % 2 = 0
    · rwa [if_pos even, if_pos (parity.mp even)] at numbers
    · rw [if_neg even, if_neg (mt parity.mpr even)] at numbers
      exact Nat.xor_left_inj.mp numbers
  apply UInt32.toNat_inj.mp
  omega

private theorem shifts_injective (count : Nat) : Function.Injective (Nat.repeat shift count) := by
  induction count with
  | zero => exact fun _ _ same => same
  | succ count step => exact fun _ _ same => step (shift_injective same)

theorem absorb_left_injective (byte : UInt8) : Function.Injective fun state => absorb state byte :=
  fun _ _ same => (UInt32.xor_left_inj _).mp (shifts_injective 8 same)

theorem absorb_right_injective (state : UInt32) : Function.Injective (absorb state) := by
  intro byte other same
  have wide : byte.toUInt32 = other.toUInt32 := (UInt32.xor_right_inj state).mp (shifts_injective 8 same)
  apply UInt8.toNat_inj.mp
  rw [← UInt8.toNat_toUInt32, wide, UInt8.toNat_toUInt32]

theorem foldl_absorb_injective (bytes : List UInt8) : Function.Injective fun state => bytes.foldl absorb state := by
  induction bytes with
  | nil => exact fun _ _ same => same
  | cons byte bytes step => exact fun _ _ same => absorb_left_injective byte (step same)

/-- The checksum changes with any one byte. -/
theorem crc32_set_ne {bytes : List UInt8} {place : Nat} {byte : UInt8} (inside : place < bytes.length)
    (other : byte ≠ bytes[place]) : crc32 (bytes.set place byte) ≠ crc32 bytes := by
  intro same
  have split : bytes = bytes.take place ++ bytes[place] :: bytes.drop (place + 1) := by simp
  rw [List.set_eq_take_append_cons_drop, if_pos inside] at same
  have states := (UInt32.xor_left_inj _).mp (same.trans (congrArg crc32 split))
  simp only [List.foldl_append, List.foldl_cons] at states
  exact other (absorb_right_injective _ (foldl_absorb_injective _ states))

end TraversalPlanner.Checksum
