import TraversalPlanner.Proofs.ChecksumLaws
import TraversalPlanner.Proofs.StrictReading

/-! Which bytes are read as a plan. They have to be a frame, which no damage to one place of another frame
leaves intact, and the payload has to begin with the bytes of the plan. -/

namespace TraversalPlanner.PhysicalPlan

variable {plan : PhysicalPlan} {bytes payload received other : List UInt8}

theorem drop_eq_wordAt (bytes : List UInt8) (place : Nat) (inside : place + 4 ≤ bytes.length) :
    bytes.drop place = Codec.word32.write (wordAt bytes place) ++ bytes.drop (place + 4) := by
  obtain ⟨a, b, c, d, rest, front⟩ : ∃ a b c d rest, bytes.drop place = a :: b :: c :: d :: rest := by
    have size : 4 ≤ (bytes.drop place).length := by
      rw [List.length_drop]
      omega
    match bytes.drop place, size with
    | a :: b :: c :: d :: rest, _ => exact ⟨a, b, c, d, rest, rfl⟩
  have behind : bytes.drop (place + 4) = rest := by rw [← List.drop_drop, front]; rfl
  have read : Codec.word32.read? (bytes.drop place) = some (wordAt bytes place, rest) := by
    rw [wordAt, front]
    rfl
  rw [behind]
  exact Codec.word32_strict _ _ _ read

/-- What passes the checks of a frame is one. -/
theorem frames_of_checks {length : Nat} (size : bytes.length = headerLength + length + checksumLength)
    (marked : wordAt bytes 0 = marker) (counted : (wordAt bytes 4).toNat = length)
    (summed : wordAt bytes (headerLength + length) = Checksum.crc32 (bytes.take (headerLength + length))) :
    Frames bytes ((bytes.drop headerLength).take length) := by
  have long : bytes.length = 8 + length + 4 := size
  have held : ((bytes.drop headerLength).take length).length = length := by
    rw [List.length_take, List.length_drop, size]
    omega
  have header : bytes.take headerLength = Codec.word32.write marker ++ Codec.word32.write (UInt32.ofNat length) := by
    have first := drop_eq_wordAt bytes 0 (by omega)
    have second := drop_eq_wordAt bytes 4 (by omega)
    rw [List.drop_zero, marked, Nat.zero_add, second, ← UInt32.ofNat_toNat (x := wordAt bytes 4), counted,
      ← List.append_assoc] at first
    rw [first]
    exact List.take_left' rfl
  have front : bytes.take (headerLength + length) = framed ((bytes.drop headerLength).take length) := by
    rw [List.take_add, header, framed, held]
  have behind : bytes.drop (headerLength + length) = Codec.word32.write (wordAt bytes (headerLength + length)) := by
    have last := drop_eq_wordAt bytes (headerLength + length) (Nat.le_of_eq size.symm)
    have none : bytes.drop (headerLength + length + 4) = [] := List.drop_eq_nil_of_le (Nat.le_of_eq size)
    rwa [none, List.append_nil] at last
  constructor
  · rw [held, ← counted]
    exact (wordAt bytes 4).toNat_lt
  · rw [← front, ← summed, ← behind, List.take_append_drop]

/-- Bytes are refused before their payload is looked at, unless they are a frame. -/
theorem frames_or_fault (bytes : List UInt8) :
    (∃ payload, Frames bytes payload) ∨ ∃ fault, decode bytes = .error fault ∧ fault ≠ .malformedPayload := by
  unfold decode
  by_cases short : bytes.length < headerLength + checksumLength
  · exact .inr ⟨_, if_pos short, nofun⟩
  rw [if_neg short]
  by_cases marked : wordAt bytes 0 = marker
  case neg => exact .inr ⟨_, if_pos marked, nofun⟩
  rw [if_neg (not_not.mpr marked)]
  by_cases size : bytes.length = headerLength + (wordAt bytes 4).toNat + checksumLength
  case neg => exact .inr ⟨_, if_pos size, nofun⟩
  rw [if_neg (not_not.mpr size)]
  by_cases summed : wordAt bytes (headerLength + (wordAt bytes 4).toNat) =
      Checksum.crc32 (bytes.take (headerLength + (wordAt bytes 4).toNat))
  case neg => exact .inr ⟨_, if_pos summed, nofun⟩
  exact .inl ⟨_, frames_of_checks size marked rfl summed⟩

/-! Damage. -/

/-- One byte is replaced by another one, some bytes are lost at the end, or others come behind it. -/
inductive Damaged (bytes : List UInt8) : List UInt8 → Prop
  | replaced (place : Nat) (byte : UInt8) (inside : place < bytes.length) (other : byte ≠ bytes[place]) :
      Damaged bytes (bytes.set place byte)
  | cut (kept : Nat) (short : kept < bytes.length) : Damaged bytes (bytes.take kept)
  | extended (behind : List UInt8) (some : behind ≠ []) : Damaged bytes (bytes ++ behind)

theorem Frames.take_header (frames : Frames bytes payload) :
    bytes.take headerLength = Codec.word32.write marker ++ Codec.word32.write (UInt32.ofNat payload.length) := by
  rw [frames.same, framed, List.append_assoc]
  exact List.take_left' rfl

private theorem write_word32_inj {word again : UInt32} (same : Codec.word32.write word = Codec.word32.write again) :
    word = again := by
  have read := Codec.read_word32 word []
  rw [same, Codec.read_word32] at read
  cases read
  rfl

/-- The header tells how long the frame is. -/
theorem Frames.length_eq (frames : Frames bytes payload) (others : Frames received other)
    (header : received.take headerLength = bytes.take headerLength) : received.length = bytes.length := by
  rw [frames.take_header, others.take_header, List.append_cancel_left_eq] at header
  have sizes := congrArg UInt32.toNat (write_word32_inj header)
  rw [UInt32.toNat_ofNat_of_lt' frames.fits, UInt32.toNat_ofNat_of_lt' others.fits] at sizes
  rw [frames.length, others.length, sizes]

/-- No two frames differ in one place only: a change before the checksum changes that as well. -/
theorem Frames.eq_of_set (frames : Frames bytes payload) {place : Nat} {byte : UInt8} (inside : place < bytes.length)
    (others : Frames (bytes.set place byte) other) : byte = bytes[place] := by
  have size : (framed other).length = (framed payload).length := by
    have total := others.length
    rw [List.length_set, frames.length] at total
    rw [length_framed, length_framed]
    omega
  have front : framed other = (framed payload).set place byte := by
    have cut := congrArg (List.take (framed payload).length) others.same
    rwa [← size, List.take_left, size, List.take_set, frames.same, List.take_left, eq_comm] at cut
  by_cases before : place < (framed payload).length
  · have sums : Checksum.crc32 ((framed payload).set place byte) = Checksum.crc32 (framed payload) := by
      have cut := congrArg (List.drop (framed payload).length) others.same
      rw [← size, List.drop_left, size, List.drop_set_of_lt before, frames.same, List.drop_left, front] at cut
      exact (write_word32_inj cut).symm
    have held : bytes[place] = (framed payload)[place] := by
      simp only [frames.same, List.getElem_append_left before]
    rw [held]
    by_contra differ
    exact Checksum.crc32_set_ne before differ sums
  · have unchanged : bytes.set place byte = bytes := by
      rw [others.same, front, List.set_eq_of_length_le (Nat.le_of_not_lt before), ← frames.same]
    have here : (bytes.set place byte)[place]? = bytes[place]? := by rw [unchanged]
    rw [List.getElem?_set_self inside, List.getElem?_eq_getElem inside] at here
    exact Option.some.inj here

/-- Whatever befalls a frame, it is noticed before the payload is looked at. -/
theorem damaged_refused (encoded : plan.encode? = some bytes) (damaged : Damaged bytes received) :
    ∃ fault, decode received = .error fault ∧ fault ≠ .malformedPayload := by
  have frames := encode?_eq_some.mp encoded
  have long : headerLength ≤ bytes.length := by
    rw [frames.length]
    omega
  rcases frames_or_fault received with ⟨payload, others⟩ | fault
  case inr => exact fault
  exfalso
  cases damaged with
  | replaced place byte inside differ => exact differ (frames.eq_of_set inside others)
  | cut kept short =>
    have size := others.length
    rw [List.length_take, Nat.min_eq_left (Nat.le_of_lt short)] at size
    have same := frames.length_eq others (by rw [List.take_take, Nat.min_eq_left (by omega)])
    rw [List.length_take] at same
    omega
  | extended behind some =>
    have same := frames.length_eq others (List.take_append_of_le_length long)
    rw [List.length_append] at same
    exact some (List.eq_nil_of_length_eq_zero (by omega))

def branchingFrame : List UInt8 :=
  let front := framed (Codec.physicalPlan.write branching)
  front ++ Codec.word32.write (Checksum.crc32 front)

/-- The plan is to run on another number of servers than it was laid out for. -/
theorem branchingFrame_guarded : branching.encode? = some branchingFrame ∧ Damaged branchingFrame (branchingFrame.set 12 3) ∧
    ∃ fault, decode (branchingFrame.set 12 3) = .error fault ∧ fault ≠ .malformedPayload := by
  have encoded : branching.encode? = some branchingFrame := encode?_eq_some.mpr ⟨by decide +kernel, rfl⟩
  have damaged : Damaged branchingFrame (branchingFrame.set 12 3) := .replaced 12 3 (by decide +kernel) (by decide +kernel)
  exact ⟨encoded, damaged, damaged_refused encoded damaged⟩

/-! Forms. -/

theorem decode_eq_ok : decode bytes = .ok plan ↔ ∃ rest, Frames bytes (Codec.physicalPlan.write plan ++ rest) := by
  constructor
  · intro decoded
    rcases frames_or_fault bytes with ⟨payload, frames⟩ | ⟨fault, refused, _⟩
    · rw [frames.decode] at decoded
      cases read : Codec.physicalPlan.read? payload with
      | none => rw [read] at decoded; cases decoded
      | some result =>
        rw [read] at decoded
        cases decoded
        exact ⟨result.2, Codec.physicalPlan_strict _ _ _ read ▸ frames⟩
    · cases decoded.symm.trans refused
  · rintro ⟨rest, frames⟩
    have fits : (Codec.physicalPlan.write plan).length < UInt32.size := by
      have whole := frames.fits
      rw [List.length_append] at whole
      omega
    rw [frames.decode, Codec.physicalPlan_lawful.reads plan rest fits]

/-- Bytes are read as a plan if they are a frame whose payload begins with the plan, and they are what the plan is
encoded as if nothing stands behind it. -/
theorem decoded_iff_framed (plan : PhysicalPlan) (bytes : List UInt8) :
    (decode bytes = .ok plan ↔ ∃ rest, Frames bytes (Codec.physicalPlan.write plan ++ rest)) ∧
      (plan.encode? = some bytes ↔ decode bytes = .ok plan ∧
        bytes.length = headerLength + (Codec.physicalPlan.write plan).length + checksumLength) := by
  refine ⟨decode_eq_ok, fun encoded => ⟨decode_encode encoded, (encode?_eq_some.mp encoded).length⟩, ?_⟩
  rintro ⟨decoded, length⟩
  obtain ⟨rest, frames⟩ := decode_eq_ok.mp decoded
  have nothing : rest = [] := by
    have total := frames.length
    rw [List.length_append, length] at total
    exact List.eq_nil_of_length_eq_zero (by omega)
  rw [nothing, List.append_nil] at frames
  exact encode?_eq_some.mpr frames

def idle : PhysicalPlan := { workers := 1, servers := 1, root := 0, subRoots := [], nodes := [] }

/-- A frame around a plan without nodes and one more byte. -/
def trailed : List UInt8 :=
  [76, 80, 82, 73, 29, 0, 0, 0, 1, 0, 0, 0, 1, 0, 0, 0, 0, 0, 0, 0, 0, 0, 0, 0, 0, 0, 0, 0, 0, 0, 0, 0, 0, 0, 0, 0, 0,
    124, 205, 142, 43]

/-- Not all that is read as a plan is what the plan is encoded as. -/
theorem trailed_decoded : decode trailed = .ok idle ∧ idle.encode? ≠ some trailed :=
  ⟨decode_eq_ok.mpr ⟨[0], by decide, by decide +kernel⟩, by decide +kernel⟩

end TraversalPlanner.PhysicalPlan
