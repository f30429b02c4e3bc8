import Mathlib.Algebra.Group.Nat.Defs
import TraversalPlanner.Bytes.Codec
import TraversalPlanner.Value.Vocabulary

/-! Codecs that read back what they have written, whatever bytes follow, and that leave a mark for every
value. Lengths are written in words, so what is read back has to be of a length that fits. -/

namespace TraversalPlanner.Codec

variable {α β : Type} {codec : Codec α}

structure Lawful (codec : Codec α) : Prop where
  reads : ∀ value rest, (codec.write value).length < UInt32.size →
    codec.read? (codec.write value ++ rest) = some (value, rest)
  filled : ∀ value, 0 < (codec.write value).length

theorem Lawful.pair {second : Codec β} (left : codec.Lawful) (right : second.Lawful) : (codec.pair second).Lawful where
  reads := by
    intro value rest short
    have parts : (codec.write value.1).length + (second.write value.2).length < UInt32.size := by
      simpa [Codec.pair] using short
    have first := left.reads value.1 (second.write value.2 ++ rest) (by omega)
    have other := right.reads value.2 rest (by omega)
    simp only [Codec.pair, List.append_assoc, first, other, Option.bind_eq_bind, Option.bind_some, pure]
  filled := by
    intro value
    have some := left.filled value.1
    simp only [Codec.pair, List.length_append]
    omega

theorem Lawful.via (lawful : codec.Lawful) {toStored : β → α} {ofStored : α → β}
    (inverse : ∀ value, ofStored (toStored value) = value) : (codec.via toStored ofStored).Lawful where
  reads := by
    intro value rest short
    simp only [Codec.via, lawful.reads (toStored value) rest short, Option.map_some, inverse]
  filled := fun value => lawful.filled (toStored value)

theorem Lawful.viaSome (lawful : codec.Lawful) {toStored : β → α} {ofStored? : α → Option β}
    (inverse : ∀ value, ofStored? (toStored value) = some value) : (codec.viaSome toStored ofStored?).Lawful where
  reads := by
    intro value rest short
    have read := lawful.reads (toStored value) rest short
    simp only [Codec.viaSome, read, inverse, Option.bind_eq_bind, Option.bind_some, pure]
  filled := fun value => lawful.filled (toStored value)

theorem byte_lawful : byte.Lawful where
  reads := fun _ _ _ => rfl
  filled := fun _ => Nat.one_pos

/-- The halves of a word make up the word. -/
private theorem join_halves (bits : Nat) {word : Nat} (bound : word < 2 ^ bits * 2 ^ bits) :
    word % 2 ^ bits ||| (word / 2 ^ bits % 2 ^ bits) <<< bits % (2 ^ bits * 2 ^ bits) = word := by
  have positive : 0 < 2 ^ bits := Nat.two_pow_pos bits
  have high : word / 2 ^ bits < 2 ^ bits := Nat.div_lt_of_lt_mul bound
  have below : word / 2 ^ bits * 2 ^ bits < 2 ^ bits * 2 ^ bits := Nat.mul_lt_mul_of_pos_right high positive
  rw [Nat.mod_eq_of_lt high, Nat.shiftLeft_eq, Nat.mod_eq_of_lt below, Nat.or_comm, ← Nat.shiftLeft_eq,
    ← Nat.shiftLeft_add_eq_or_of_lt (Nat.mod_lt word positive), Nat.shiftLeft_eq, Nat.mul_comm, Nat.div_add_mod]

theorem word16_lawful : word16.Lawful := by
  refine (byte_lawful.pair byte_lawful).via fun word => ?_
  apply UInt16.toNat_inj.mp
  rw [UInt16.toNat_or, UInt16.toNat_shiftLeft, UInt8.toNat_toUInt16, UInt8.toNat_toUInt16, UInt16.toNat_toUInt8,
    UInt16.toNat_toUInt8, UInt16.toNat_shiftRight, Nat.shiftRight_eq_div_pow]
  exact join_halves 8 word.toNat_lt

theorem word32_lawful : word32.Lawful := by
  refine (word16_lawful.pair word16_lawful).via fun word => ?_
  apply UInt32.toNat_inj.mp
  rw [UInt32.toNat_or, UInt32.toNat_shiftLeft, UInt16.toNat_toUInt32, UInt16.toNat_toUInt32, UInt32.toNat_toUInt16,
    UInt32.toNat_toUInt16, UInt32.toNat_shiftRight, Nat.shiftRight_eq_div_pow]
  exact join_halves 16 word.toNat_lt

theorem word64_lawful : word64.Lawful := by
  refine (word32_lawful.pair word32_lawful).via fun word => ?_
  apply UInt64.toNat_inj.mp
  rw [UInt64.toNat_or, UInt64.toNat_shiftLeft, UInt32.toNat_toUInt64, UInt32.toNat_toUInt64, UInt64.toNat_toUInt32,
    UInt64.toNat_toUInt32, UInt64.toNat_shiftRight, Nat.shiftRight_eq_div_pow]
  exact join_halves 32 word.toNat_lt

theorem length_word32 (word : UInt32) : (word32.write word).length = 4 := rfl

theorem length_word64 (word : UInt64) : (word64.write word).length = 8 := rfl

theorem read_word32 (word : UInt32) (rest : List UInt8) : word32.read? (word32.write word ++ rest) = some (word, rest) :=
  word32_lawful.reads word rest (by rw [length_word32]; decide)

theorem int32_lawful : int32.Lawful := word32_lawful.via fun value => Int32.toInt32_toUInt32 value

theorem int64_lawful : int64.Lawful := word64_lawful.via fun value => Int64.toInt64_toUInt64 value

theorem bool_lawful : bool.Lawful := byte_lawful.viaSome fun value => by cases value <;> rfl

theorem read_bool (value : Bool) (rest : List UInt8) : bool.read? (bool.write value ++ rest) = some (value, rest) :=
  bool_lawful.reads value rest (by cases value <;> decide)

theorem Lawful.option (lawful : codec.Lawful) : codec.option.Lawful where
  reads := by
    intro value rest short
    cases value with
    | none => simp only [Codec.option, read_bool, Option.bind_eq_bind, Option.bind_some, pure]
    | some value =>
      have fits : (codec.write value).length < UInt32.size := by
        simp only [Codec.option, List.length_append] at short
        omega
      simp only [Codec.option, List.append_assoc, read_bool, lawful.reads value rest fits, Option.bind_eq_bind,
        Option.bind_some, pure]
  filled := by
    intro value
    cases value with
    | none => exact Nat.one_pos
    | some value =>
      have some := bool_lawful.filled true
      simp only [Codec.option, List.length_append]
      omega

theorem read_length {count : Nat} (fits : count < UInt32.size) (rest : List UInt8) :
    length.read? (length.write count ++ rest) = some (count, rest) := by
  have read := word64_lawful.reads (UInt64.ofNat count) rest (by rw [length_word64]; decide)
  have same : (UInt64.ofNat count).toNat = count := UInt64.toNat_ofNat_of_lt' (Nat.lt_trans fits (by decide))
  simp only [Codec.length, Codec.via, read, Option.map_some, same]

theorem length_length (count : Nat) : (length.write count).length = 8 := rfl

/-- As many values as there are, each read where the one before it ended. -/
theorem read_many {write : α → List UInt8} {read? : List UInt8 → Option (α × List UInt8)} {values : List α}
    (each : ∀ value ∈ values, ∀ rest, read? (write value ++ rest) = some (value, rest)) (rest : List UInt8) :
    readMany? read? values.length (values.flatMap write ++ rest) = some (values, rest) := by
  induction values with
  | nil => rfl
  | cons value values step =>
    obtain ⟨here, later⟩ := List.forall_mem_cons.mp each
    simp only [List.length_cons, readMany?, List.flatMap_cons, List.append_assoc, here, step later, Option.bind_eq_bind,
      Option.bind_some, pure]

theorem length_le_flatMap {write : α → List UInt8} {values : List α} {size : Nat}
    (filled : ∀ value, size ≤ (write value).length) :
    size * values.length ≤ (values.flatMap write).length := by
  induction values with
  | nil => simp
  | cons value values step =>
    have some := filled value
    simp only [List.length_cons, List.flatMap_cons, List.length_append, Nat.mul_succ]
    omega

theorem length_le_of_mem {write : α → List UInt8} {values : List α} {value : α} (member : value ∈ values) :
    (write value).length ≤ (values.flatMap write).length := by
  induction values with
  | nil => cases member
  | cons first rest step =>
    rw [List.flatMap_cons, List.length_append]
    rcases List.mem_cons.mp member with same | later
    · subst same
      omega
    · have inside := step later
      omega

theorem Lawful.list (lawful : codec.Lawful) : codec.list.Lawful where
  reads := by
    intro values rest short
    have parts : 8 + (values.flatMap codec.write).length < UInt32.size := by
      simpa [Codec.list, length_length] using short
    have count : 1 * values.length ≤ (values.flatMap codec.write).length := length_le_flatMap lawful.filled
    have each : ∀ value ∈ values, ∀ rest, codec.read? (codec.write value ++ rest) = some (value, rest) := by
      intro value member rest
      have inside : (codec.write value).length ≤ (values.flatMap codec.write).length := length_le_of_mem member
      exact lawful.reads value rest (by omega)
    have fits : values.length < UInt32.size := by omega
    simp only [Codec.list, List.append_assoc, read_length fits, Option.bind_eq_bind, Option.bind_some, read_many each]
  filled := by
    intro values
    simp only [Codec.list, List.length_append, length_length]
    omega

private theorem fromUTF8?_bytes (value : String) : String.fromUTF8? ⟨value.toByteArray.data.toList.toArray⟩ = some value := by
  simp [String.fromUTF8?, value.isValidUTF8, String.fromUTF8]

theorem text_lawful : text.Lawful where
  reads := by
    intro value rest short
    have size : value.toByteArray.data.toList.length = value.utf8ByteSize := rfl
    have fits : value.utf8ByteSize < UInt32.size := by
      simp only [text, List.length_append, size] at short
      omega
    simp only [text, List.append_assoc, read_length fits, Option.bind_eq_bind, Option.bind_some]
    rw [if_pos (by rw [List.length_append, size]; omega), ← size, List.take_left, List.drop_left, fromUTF8?_bytes]
    rfl
  filled := by
    intro value
    simp only [text, List.length_append, length_length]
    omega

theorem member_lawful [BEq α] {members : List α}
    (placed : ∀ value, members[(UInt32.ofNat (members.idxOf value)).toNat]? = some value) : (member members).Lawful :=
  word32_lawful.viaSome placed

end TraversalPlanner.Codec
