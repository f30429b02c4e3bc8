import TraversalPlanner.Plan.Frame
import TraversalPlanner.Proofs.CodecLaws

/-! The bytes of a plan hold the plan: decoding a frame gives the plan that was encoded. -/

namespace TraversalPlanner

namespace Codec

theorem real_lawful : real.Lawful := word64_lawful.via fun _ => rfl

/-- The members of a vocabulary are few, and each stands in its place. -/
theorem elementKind_lawful : (word : Codec ElementKind).Lawful := member_lawful fun value => by cases value <;> rfl

theorem direction_lawful : (word : Codec Direction).Lawful := member_lawful fun value => by cases value <;> rfl

theorem edgeEnd_lawful : (word : Codec EdgeEnd).Lawful := member_lawful fun value => by cases value <;> rfl

theorem joinKind_lawful : (word : Codec JoinKind).Lawful := member_lawful fun value => by cases value <;> rfl

theorem sortOrder_lawful : (word : Codec SortOrder).Lawful := member_lawful fun value => by cases value <;> rfl

theorem aggregate_lawful : (word : Codec Aggregate).Lawful := member_lawful fun value => by cases value <;> rfl

/-- What stands behind the number of a variant fits if the whole does. -/
private theorem fits_behind {variant : UInt32} {bytes : List UInt8}
    (short : (word32.write variant ++ bytes).length < UInt32.size) : bytes.length < UInt32.size := by
  rw [List.length_append] at short
  omega

private theorem filled_behind (variant : UInt32) (bytes : List UInt8) : 0 < (word32.write variant ++ bytes).length := by
  rw [List.length_append, length_word32]
  omega

theorem identifier_lawful : identifier.Lawful where
  reads := by
    intro value rest short
    cases value with
    | name name =>
      have read := text_lawful.reads name rest (fits_behind short)
      simp only [identifier, List.append_assoc, read_word32, Option.bind_eq_bind, Option.bind_some]
      simp [read]
    | id id =>
      have read := int32_lawful.reads id rest (fits_behind short)
      simp only [identifier, List.append_assoc, read_word32, Option.bind_eq_bind, Option.bind_some]
      simp [read]
  filled := by
    intro value
    cases value <;> exact filled_behind _ _

theorem property_lawful : property.Lawful where
  reads := by
    intro value rest short
    cases value with
    | id => simp [property, read_word32]
    | label => simp [property, read_word32]
    | key name =>
      have read := text_lawful.reads name rest (fits_behind short)
      simp only [property, List.append_assoc, read_word32, Option.bind_eq_bind, Option.bind_some]
      simp [read]
  filled := by
    intro value
    cases value with
    | key name => exact filled_behind _ _
    | _ => exact Nat.zero_lt_succ 3

theorem reference_lawful : reference.Lawful :=
  .via (.pair (.option identifier_lawful) (.option property_lawful)) fun _ => rfl

theorem window_lawful : window.Lawful := .via (.pair int32_lawful int32_lawful) fun _ => rfl

theorem projected_lawful : projected.Lawful := .via (.pair text_lawful (.option identifier_lawful)) fun _ => rfl

theorem sortKey_lawful : sortKey.Lawful := .via (.pair reference_lawful sortOrder_lawful) fun _ => rfl

theorem groupKey_lawful : groupKey.Lawful := .via (.pair reference_lawful identifier_lawful) fun _ => rfl

theorem aggregation_lawful : aggregation.Lawful :=
  .via (.pair (.list reference_lawful) (.pair aggregate_lawful identifier_lawful)) fun _ => rfl

theorem params_lawful : params.Lawful :=
  .via (.pair (.list identifier_lawful) (.pair (.list identifier_lawful)
    (.pair (.option window_lawful) (.option text_lawful)))) fun _ => rfl

/-! Constants. Each level of a list takes bytes of its own, so as many levels as bytes are enough. -/

theorem length_writeLiteral (value : Literal) : 4 ≤ (writeLiteral value).length := by
  cases value <;> simp only [writeLiteral, List.length_append, length_word32] <;> omega

theorem length_le_writeLiterals (items : List Literal) : items.length ≤ (writeLiterals items).length := by
  induction items with
  | nil => simp [writeLiterals]
  | cons item rest step =>
    have some := length_writeLiteral item
    simp only [writeLiterals, List.length_append, List.length_cons]
    omega

private def ReadBack (value : Literal) : Prop :=
  ∀ levels rest, (writeLiteral value).length ≤ levels → (writeLiteral value).length < UInt32.size →
    readLiteral? levels (writeLiteral value ++ rest) = some (value, rest)

private def ReadBackAll (items : List Literal) : Prop :=
  ∀ levels rest, (writeLiterals items).length ≤ levels → (writeLiterals items).length < UInt32.size →
    readMany? (readLiteral? levels) items.length (writeLiterals items ++ rest) = some (items, rest)

private theorem readBack_list {items : List Literal} (each : ReadBackAll items) : ReadBack (.list items) := by
  intro levels rest deep short
  have bytes : (writeLiteral (.list items)).length = 12 + (writeLiterals items).length := by
    simp only [writeLiteral, List.length_append, length_word32, length_length]
  have count := length_le_writeLiterals items
  cases levels with
  | zero => omega
  | succ levels =>
    have fits : items.length < UInt32.size := by omega
    have read := each levels rest (by omega) (by omega)
    simp only [writeLiteral, readLiteral?, List.append_assoc, read_word32, Option.bind_eq_bind, Option.bind_some]
    simp [read_length fits, read]

private theorem readBack_single {α : Type} {codec : Codec α} (lawful : codec.Lawful) {variant : UInt32} {wrap : α → Literal}
    (writes : ∀ stored, writeLiteral (wrap stored) = word32.write variant ++ codec.write stored)
    (reads : ∀ levels bytes, readLiteral? (levels + 1) (word32.write variant ++ bytes) =
      (codec.read? bytes).map fun (stored, rest) => (wrap stored, rest)) (stored : α) : ReadBack (wrap stored) := by
  intro levels rest deep short
  rw [writes] at deep short ⊢
  cases levels with
  | zero => exact absurd deep (Nat.not_le.mpr (filled_behind _ _))
  | succ levels =>
    rw [List.append_assoc, reads, lawful.reads stored rest (fits_behind short)]
    rfl

private theorem readBackAll_cons {item : Literal} {items : List Literal} (here : ReadBack item) (later : ReadBackAll items) :
    ReadBackAll (item :: items) := by
  intro levels rest deep short
  simp only [writeLiterals, List.length_append] at deep short
  have first := here levels (writeLiterals items ++ rest) (by omega) (by omega)
  have others := later levels rest (by omega) (by omega)
  simp only [writeLiterals, List.length_cons, readMany?, List.append_assoc, first, others, Option.bind_eq_bind,
    Option.bind_some, pure]

private theorem readBack (value : Literal) : ReadBack value := by
  refine (writeLiteral.mutual_induct ReadBack ReadBackAll ?_ ?_ ?_ ?_ ?_ ?_ ?_).1 value
  · exact readBack_single bool_lawful (fun _ => rfl) fun _ _ => by simp [readLiteral?, read_word32]
  · exact readBack_single int64_lawful (fun _ => rfl) fun _ _ => by simp [readLiteral?, read_word32]
  · exact readBack_single real_lawful (fun _ => rfl) fun _ _ => by simp [readLiteral?, read_word32]
  · exact readBack_single text_lawful (fun _ => rfl) fun _ _ => by simp [readLiteral?, read_word32]
  · intro items each
    exact readBack_list each
  · intro levels rest _ _
    rfl
  · intro item items here later
    exact readBackAll_cons here later

theorem literal_lawful : literal.Lawful where
  reads := fun value rest short => readBack value _ rest (by rw [List.length_append]; exact Nat.le_add_right _ _) short
  filled := fun value => Nat.lt_of_lt_of_le (by decide) (length_writeLiteral value)

theorem scanFields_lawful : scanFields.Lawful :=
  .pair elementKind_lawful (.pair (.option identifier_lawful) (.pair params_lawful (.option (.list literal_lawful))))

theorem edgeFields_lawful : edgeFields.Lawful :=
  .pair direction_lawful (.pair params_lawful (.pair bool_lawful (.option identifier_lawful)))

theorem pathFields_lawful : pathFields.Lawful :=
  .pair direction_lawful (.pair params_lawful (.pair window_lawful (.pair bool_lawful (.option identifier_lawful))))

theorem applyFields_lawful : applyFields.Lawful := .pair joinKind_lawful (.pair int32_lawful (.option identifier_lawful))

theorem projectFields_lawful : projectFields.Lawful := .pair (.list projected_lawful) bool_lawful

theorem orderFields_lawful : orderFields.Lawful := .pair (.list sortKey_lawful) (.option window_lawful)

theorem groupFields_lawful : groupFields.Lawful := .pair (.list groupKey_lawful) (.list aggregation_lawful)

theorem vertexFields_lawful : vertexFields.Lawful := .pair edgeEnd_lawful (.option identifier_lawful)

theorem op_lawful : op.Lawful where
  reads := by
    intro value rest short
    cases value with
    | scan target tag params lookup =>
      have read := scanFields_lawful.reads (target, tag, params, lookup) rest (fits_behind short)
      simp [op, writeOp, readOp?, read_word32, read]
    | select predicate =>
      have read := text_lawful.reads predicate rest (fits_behind short)
      simp [op, writeOp, readOp?, read_word32, read]
    | edge direction params isEdge tag =>
      have read := edgeFields_lawful.reads (direction, params, isEdge, tag) rest (fits_behind short)
      simp [op, writeOp, readOp?, read_word32, read]
    | limit range =>
      have read := window_lawful.reads range rest (fits_behind short)
      simp [op, writeOp, readOp?, read_word32, read]
    | project columns isAppend =>
      have read := projectFields_lawful.reads (columns, isAppend) rest (fits_behind short)
      simp [op, writeOp, readOp?, read_word32, read]
    | orderBy keys range =>
      have read := orderFields_lawful.reads (keys, range) rest (fits_behind short)
      simp [op, writeOp, readOp?, read_word32, read]
    | groupBy keys values =>
      have read := groupFields_lawful.reads (keys, values) rest (fits_behind short)
      simp [op, writeOp, readOp?, read_word32, read]
    | dedup keys =>
      have read := reference_lawful.list.reads keys rest (fits_behind short)
      simp [op, writeOp, readOp?, read_word32, read]
    | sink tags =>
      have read := identifier_lawful.list.reads tags rest (fits_behind short)
      simp [op, writeOp, readOp?, read_word32, read]
    | path direction params hops wholePath tag =>
      have read := pathFields_lawful.reads (direction, params, hops, wholePath, tag) rest (fits_behind short)
      simp [op, writeOp, readOp?, read_word32, read]
    | vertex edgeEnd tag =>
      have read := vertexFields_lawful.reads (edgeEnd, tag) rest (fits_behind short)
      simp [op, writeOp, readOp?, read_word32, read]
    | apply join subRoot tag =>
      have read := applyFields_lawful.reads (join, subRoot, tag) rest (fits_behind short)
      simp [op, writeOp, readOp?, read_word32, read]
    | union parents =>
      have read := int32_lawful.list.reads parents rest (fits_behind short)
      simp [op, writeOp, readOp?, read_word32, read]
    | bind tag =>
      have read := identifier_lawful.reads tag rest (fits_behind short)
      simp [op, writeOp, readOp?, read_word32, read]
  filled := by
    intro value
    cases value <;> exact filled_behind _ _

theorem physicalNode_lawful : physicalNode.Lawful :=
  .via (.pair int32_lawful (.pair op_lawful (.pair (.list int32_lawful) bool_lawful))) fun _ => rfl

theorem physicalPlan_lawful : physicalPlan.Lawful :=
  .via (.pair word32_lawful (.pair word32_lawful (.pair int32_lawful
    (.pair (.list int32_lawful) (.list physicalNode_lawful))))) fun _ => rfl

end Codec

namespace PhysicalPlan

variable {plan : PhysicalPlan} {bytes payload : List UInt8}

/-- The bytes are a frame around a payload. -/
structure Frames (bytes payload : List UInt8) : Prop where
  fits : payload.length < UInt32.size
  same : bytes = framed payload ++ Codec.word32.write (Checksum.crc32 (framed payload))

theorem encode?_eq_some : plan.encode? = some bytes ↔ Frames bytes (Codec.physicalPlan.write plan) := by
  simp only [encode?]
  split
  · next fits => exact ⟨fun encoded => ⟨fits, (Option.some.inj encoded).symm⟩, fun frames => congrArg some frames.same.symm⟩
  · next long => exact ⟨nofun, fun frames => absurd frames.fits long⟩

theorem wordAt_front (word : UInt32) (behind : List UInt8) : wordAt (Codec.word32.write word ++ behind) 0 = word := by
  simp [wordAt, Codec.read_word32]

theorem wordAt_append {before : List UInt8} {place : Nat} (size : before.length = place) (word : UInt32)
    (behind : List UInt8) :
    wordAt (before ++ (Codec.word32.write word ++ behind)) place = word := by
  subst size
  simp [wordAt, Codec.read_word32]

theorem length_framed (payload : List UInt8) : (framed payload).length = headerLength + payload.length := by
  simp only [framed, List.length_append, Codec.length_word32, headerLength]

theorem Frames.length (frames : Frames bytes payload) : bytes.length = headerLength + payload.length + checksumLength := by
  rw [frames.same, List.length_append, length_framed, Codec.length_word32]
  rfl

/-- The plan at the front of the payload is what a frame is read as. -/
theorem Frames.decode (frames : Frames bytes payload) :
    decode bytes = match Codec.physicalPlan.read? payload with
      | some (plan, _) => .ok plan
      | none => .error .malformedPayload := by
  have length := frames.length
  obtain ⟨fits, same⟩ := frames
  have size : (UInt32.ofNat payload.length).toNat = payload.length := UInt32.toNat_ofNat_of_lt' fits
  have first : wordAt bytes 0 = marker := by
    rw [same, framed, List.append_assoc, List.append_assoc]
    exact wordAt_front marker _
  have second : wordAt bytes 4 = UInt32.ofNat payload.length := by
    rw [same, framed, List.append_assoc, List.append_assoc]
    exact wordAt_append (Codec.length_word32 marker) _ _
  have third : wordAt bytes (headerLength + payload.length) = Checksum.crc32 (framed payload) := by
    rw [same, ← List.append_nil (Codec.word32.write _)]
    exact wordAt_append (length_framed payload) _ []
  have front : bytes.take (headerLength + payload.length) = framed payload := by
    rw [same, ← length_framed, List.take_left]
  have held : (bytes.drop headerLength).take payload.length = payload := by
    have behind : bytes = (Codec.word32.write marker ++ Codec.word32.write (UInt32.ofNat payload.length)) ++
        (payload ++ Codec.word32.write (Checksum.crc32 (framed payload))) := by
      rw [same, framed, List.append_assoc]
    have header : (Codec.word32.write marker ++ Codec.word32.write (UInt32.ofNat payload.length)).length = headerLength := by
      rw [List.length_append, Codec.length_word32, Codec.length_word32]
      rfl
    rw [behind, ← header, List.drop_left, List.take_left]
  unfold PhysicalPlan.decode
  rw [if_neg (by omega)]
  simp only [first, second, size, third, front, held, length, ne_eq, not_true_eq_false, if_false]
  rfl

theorem decode_encode (encoded : plan.encode? = some bytes) : decode bytes = .ok plan := by
  have frames := encode?_eq_some.mp encoded
  have read := Codec.physicalPlan_lawful.reads plan [] frames.fits
  rw [List.append_nil] at read
  rw [frames.decode, read]

/-- A plan whose payload fits is encoded as a frame around it, and what is read from there is the plan. -/
theorem encoding_round_trips (fits : (Codec.physicalPlan.write plan).length < UInt32.size) :
    ∃ bytes, plan.encode? = some bytes ∧ Frames bytes (Codec.physicalPlan.write plan) ∧ decode bytes = .ok plan := by
  have frames : Frames _ (Codec.physicalPlan.write plan) := ⟨fits, rfl⟩
  have encoded : plan.encode? = some _ := encode?_eq_some.mpr frames
  exact ⟨_, encoded, frames, decode_encode encoded⟩

/-- Looks up constants of every kind, among them a number that is none, and ends in two branches. -/
def branching : PhysicalPlan :=
  let read : TableRead :=
    { tables := [.name "person", .id (-1)], columns := [], limit := some { lower := 0, upper := 5 }, predicate := none }
  let constants : List Literal :=
    [.list [.list [.real ⟨0x7FF8000000000001⟩, .whole (-9223372036854775808)], .list []], .text "é", .bool true]
  { workers := 4294967295, servers := 2, root := 0, subRoots := [2], nodes := [
    { id := 0, op := .scan .vertex (some (.name "a")) read (some constants), children := [1, 1, 3], shuffle := false },
    { id := 1, op := .union [0, 0], children := [], shuffle := false },
    { id := 2, op := .path .outgoing read { lower := 1, upper := -1 } true none, children := [], shuffle := true },
    { id := 3, op := .apply .anti 2 none, children := [], shuffle := false }] }

theorem branching_round_trips : (Codec.physicalPlan.write branching).length < UInt32.size ∧
    ∃ bytes, branching.encode? = some bytes ∧ Frames bytes (Codec.physicalPlan.write branching) ∧
      decode bytes = .ok branching :=
  ⟨by decide +kernel, encoding_round_trips (by decide +kernel)⟩

end PhysicalPlan

end TraversalPlanner
