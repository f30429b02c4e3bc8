import TraversalPlanner.Proofs.FrameRoundTrip

/-! Codecs that read nothing but what they would have written. Together with reading back what was written,
this leaves every value one form as bytes. -/

namespace TraversalPlanner.Codec

variable {α β : Type} {codec : Codec α}

/-- The bytes that are read are those of the value. -/
def Strict (codec : Codec α) : Prop :=
  ∀ bytes value rest, codec.read? bytes = some (value, rest) → bytes = codec.write value ++ rest

theorem Strict.pair {second : Codec β} (left : codec.Strict) (right : second.Strict) : (codec.pair second).Strict := by
  intro bytes value rest read
  simp only [Codec.pair, Option.bind_eq_bind, Option.bind_eq_some_iff, pure, Option.some.injEq] at read
  obtain ⟨⟨a, middle⟩, first, ⟨b, behind⟩, other, same⟩ := read
  cases same
  simp only [Codec.pair, List.append_assoc, ← right _ _ _ other]
  exact left _ _ _ first

theorem Strict.via (strict : codec.Strict) {toStored : β → α} {ofStored : α → β}
    (inverse : ∀ stored, toStored (ofStored stored) = stored) : (codec.via toStored ofStored).Strict := by
  intro bytes value rest read
  obtain ⟨⟨stored, behind⟩, first, same⟩ := Option.map_eq_some_iff.mp read
  cases same
  simp only [Codec.via, inverse]
  exact strict _ _ _ first

theorem Strict.viaSome (strict : codec.Strict) {toStored : β → α} {ofStored? : α → Option β}
    (inverse : ∀ stored value, ofStored? stored = some value → toStored value = stored) :
    (codec.viaSome toStored ofStored?).Strict := by
  intro bytes value rest read
  simp only [Codec.viaSome, Option.bind_eq_bind, Option.bind_eq_some_iff, pure, Option.some.injEq] at read
  obtain ⟨⟨stored, behind⟩, first, found, known, same⟩ := read
  cases same
  simp only [Codec.viaSome, inverse stored value known]
  exact strict _ _ _ first

theorem byte_strict : byte.Strict := by
  intro bytes value rest read
  cases bytes with
  | nil => cases read
  | cons first behind => cases read; rfl

/-- A word falls apart into the halves that it was made of. -/
private theorem split_word (bits : Nat) {low high : Nat} (lower : low < 2 ^ bits) (upper : high < 2 ^ bits) :
    (low ||| high <<< bits % (2 ^ bits * 2 ^ bits)) % 2 ^ bits = low ∧
      (low ||| high <<< bits % (2 ^ bits * 2 ^ bits)) / 2 ^ bits % 2 ^ bits = high := by
  have positive : 0 < 2 ^ bits := Nat.two_pow_pos bits
  have below : high * 2 ^ bits < 2 ^ bits * 2 ^ bits := Nat.mul_lt_mul_of_pos_right upper positive
  have sum : low ||| high <<< bits % (2 ^ bits * 2 ^ bits) = low + high * 2 ^ bits := by
    rw [Nat.shiftLeft_eq, Nat.mod_eq_of_lt below, Nat.or_comm, ← Nat.shiftLeft_eq, ← Nat.shiftLeft_add_eq_or_of_lt lower,
      Nat.shiftLeft_eq, Nat.add_comm]
  rw [sum, Nat.add_mul_mod_self_right, Nat.add_mul_div_right _ _ positive, Nat.div_eq_of_lt lower, Nat.zero_add]
  exact ⟨Nat.mod_eq_of_lt lower, Nat.mod_eq_of_lt upper⟩

theorem word16_strict : word16.Strict := by
  refine (byte_strict.pair byte_strict).via fun (low, high) => Prod.ext (UInt8.toNat_inj.mp ?_) (UInt8.toNat_inj.mp ?_)
  · rw [UInt16.toNat_toUInt8, UInt16.toNat_or, UInt16.toNat_shiftLeft, UInt8.toNat_toUInt16, UInt8.toNat_toUInt16]
    exact (split_word 8 low.toNat_lt high.toNat_lt).1
  · rw [UInt16.toNat_toUInt8, UInt16.toNat_shiftRight, UInt16.toNat_or, UInt16.toNat_shiftLeft, UInt8.toNat_toUInt16,
      UInt8.toNat_toUInt16, Nat.shiftRight_eq_div_pow]
    exact (split_word 8 low.toNat_lt high.toNat_lt).2

theorem word32_strict : word32.Strict := by
  refine (word16_strict.pair word16_strict).via fun (low, high) =>
    Prod.ext (UInt16.toNat_inj.mp ?_) (UInt16.toNat_inj.mp ?_)
  · rw [UInt32.toNat_toUInt16, UInt32.toNat_or, UInt32.toNat_shiftLeft, UInt16.toNat_toUInt32, UInt16.toNat_toUInt32]
    exact (split_word 16 low.toNat_lt high.toNat_lt).1
  · rw [UInt32.toNat_toUInt16, UInt32.toNat_shiftRight, UInt32.toNat_or, UInt32.toNat_shiftLeft, UInt16.toNat_toUInt32,
      UInt16.toNat_toUInt32, Nat.shiftRight_eq_div_pow]
    exact (split_word 16 low.toNat_lt high.toNat_lt).2

theorem word64_strict : word64.Strict := by
  refine (word32_strict.pair word32_strict).via fun (low, high) =>
    Prod.ext (UInt32.toNat_inj.mp ?_) (UInt32.toNat_inj.mp ?_)
  · rw [UInt64.toNat_toUInt32, UInt64.toNat_or, UInt64.toNat_shiftLeft, UInt32.toNat_toUInt64, UInt32.toNat_toUInt64]
    exact (split_word 32 low.toNat_lt high.toNat_lt).1
  · rw [UInt64.toNat_toUInt32, UInt64.toNat_shiftRight, UInt64.toNat_or, UInt64.toNat_shiftLeft, UInt32.toNat_toUInt64,
      UInt32.toNat_toUInt64, Nat.shiftRight_eq_div_pow]
    exact (split_word 32 low.toNat_lt high.toNat_lt).2

theorem int32_strict : int32.Strict := word32_strict.via fun stored => UInt32.toUInt32_toInt32 stored

theorem int64_strict : int64.Strict := word64_strict.via fun stored => UInt64.toUInt64_toInt64 stored

theorem real_strict : real.Strict := word64_strict.via fun _ => rfl

theorem length_strict : length.Strict := word64_strict.via fun _ => UInt64.ofNat_toNat

theorem bool_strict : bool.Strict := by
  refine byte_strict.viaSome fun stored value known => ?_
  split at known
  · next off => cases known; exact off.symm
  · split at known
    · next on => cases known; exact on.symm
    · cases known

theorem Strict.option (strict : codec.Strict) : codec.option.Strict := by
  intro bytes value rest read
  simp only [Codec.option, Option.bind_eq_bind, Option.bind_eq_some_iff] at read
  obtain ⟨⟨given, behind⟩, first, read⟩ := read
  have front := bool_strict _ _ _ first
  cases given with
  | false =>
    cases read
    exact front
  | true =>
    obtain ⟨⟨held, after⟩, other, same⟩ := Option.bind_eq_some_iff.mp read
    cases same
    simp only [Codec.option, List.append_assoc, ← strict _ _ _ other]
    exact front

/-- As many values as were asked for, each from the bytes that it would be written as. -/
theorem readMany_strict {write : α → List UInt8} {read? : List UInt8 → Option (α × List UInt8)}
    (strict : ∀ bytes value rest, read? bytes = some (value, rest) → bytes = write value ++ rest) {count : Nat}
    {bytes rest : List UInt8} {values : List α} (read : readMany? read? count bytes = some (values, rest)) :
    values.length = count ∧ bytes = values.flatMap write ++ rest := by
  induction count generalizing bytes values with
  | zero =>
    cases read
    exact ⟨rfl, rfl⟩
  | succ count step =>
    simp only [readMany?, Option.bind_eq_bind, Option.bind_eq_some_iff, pure, Option.some.injEq] at read
    obtain ⟨⟨value, middle⟩, first, ⟨others, behind⟩, later, same⟩ := read
    cases same
    obtain ⟨counted, held⟩ := step later
    refine ⟨congrArg Nat.succ counted, ?_⟩
    rw [List.flatMap_cons, List.append_assoc, ← held]
    exact strict _ _ _ first

theorem Strict.list (strict : codec.Strict) : codec.list.Strict := by
  intro bytes values rest read
  simp only [Codec.list, Option.bind_eq_bind, Option.bind_eq_some_iff] at read
  obtain ⟨⟨count, behind⟩, first, read⟩ := read
  obtain ⟨counted, held⟩ := readMany_strict strict read
  simp only [Codec.list, List.append_assoc, counted, ← held]
  exact length_strict _ _ _ first

theorem text_strict : text.Strict := by
  intro bytes value rest read
  simp only [text, Option.bind_eq_bind, Option.bind_eq_some_iff] at read
  obtain ⟨⟨count, behind⟩, first, read⟩ := read
  split at read
  · next fits =>
    simp only [Option.bind_eq_some_iff, pure, Option.some.injEq] at read
    obtain ⟨found, known, same⟩ := read
    cases same
    have held : value.toByteArray.data.toList = behind.take count := by
      unfold String.fromUTF8? at known
      split at known
      · cases known; rfl
      · cases known
    have size : value.utf8ByteSize = count := by
      have lengths := congrArg List.length held
      rw [List.length_take, Nat.min_eq_left fits] at lengths
      exact lengths
    simp only [text, List.append_assoc, size, held, List.take_append_drop]
    exact length_strict _ _ _ first
  · cases read

/-- Every number that stands for a member stands for the member with that place. -/
theorem word_strict [Vocabulary α] [BEq α] [LawfulBEq α] (apart : (Vocabulary.members (α := α)).Nodup) :
    (word : Codec α).Strict := by
  unfold word member
  refine word32_strict.viaSome fun stored value known => ?_
  obtain ⟨inside, found⟩ := List.getElem?_eq_some_iff.mp known
  have placed : (Vocabulary.members (α := α)).idxOf value = stored.toNat := by
    rw [← found]
    exact apart.idxOf_getElem _ inside
  rw [placed, UInt32.ofNat_toNat]

private theorem eq_ofNat {variant : UInt32} {number : Nat} (same : variant.toNat = number) :
    variant = UInt32.ofNat number := by
  rw [← same, UInt32.ofNat_toNat]

/-- What stands behind the number of a variant is what makes up the value. -/
private theorem strict_fields {written : List UInt8} {variant : UInt32} {number : Nat} {bytes behind rest : List UInt8}
    {stored : α} (strict : codec.Strict) (front : bytes = word32.write variant ++ behind) (same : variant.toNat = number)
    (found : codec.read? behind = some (stored, rest))
    (writes : written = word32.write (UInt32.ofNat number) ++ codec.write stored) : bytes = written ++ rest := by
  rw [writes, ← eq_ofNat same, List.append_assoc, ← strict _ _ _ found]
  exact front

private theorem strict_behind {write : β → List UInt8} {variant : UInt32} {number : Nat} {bytes behind rest : List UInt8}
    {value : β} (wrap : α → β) (strict : codec.Strict) (front : bytes = word32.write variant ++ behind)
    (same : variant.toNat = number)
    (writes : ∀ stored, write (wrap stored) = word32.write (UInt32.ofNat number) ++ codec.write stored)
    (read : (codec.read? behind).map (fun entry => (wrap entry.1, entry.2)) = some (value, rest)) :
    bytes = write value ++ rest := by
  obtain ⟨⟨stored, after⟩, found, result⟩ := Option.map_eq_some_iff.mp read
  cases result
  exact strict_fields strict front same found (writes stored)

theorem identifier_strict : identifier.Strict := by
  intro bytes value rest read
  simp only [identifier, Option.bind_eq_bind, Option.bind_eq_some_iff] at read
  obtain ⟨⟨variant, behind⟩, first, read⟩ := read
  have front := word32_strict _ _ _ first
  split at read
  · next same => exact strict_behind .name text_strict front same (fun _ => rfl) read
  · next same => exact strict_behind .id int32_strict front same (fun _ => rfl) read
  · cases read

theorem property_strict : property.Strict := by
  intro bytes value rest read
  simp only [property, Option.bind_eq_bind, Option.bind_eq_some_iff] at read
  obtain ⟨⟨variant, behind⟩, first, read⟩ := read
  have front := word32_strict _ _ _ first
  split at read
  · next same =>
    cases read
    rwa [show variant = _ from eq_ofNat same] at front
  · next same =>
    cases read
    rwa [show variant = _ from eq_ofNat same] at front
  · next same => exact strict_behind .key text_strict front same (fun _ => rfl) read
  · cases read

theorem reference_strict : reference.Strict :=
  .via (.pair (.option identifier_strict) (.option property_strict)) fun _ => rfl

theorem window_strict : window.Strict := .via (.pair int32_strict int32_strict) fun _ => rfl

theorem projected_strict : projected.Strict := .via (.pair text_strict (.option identifier_strict)) fun _ => rfl

theorem sortKey_strict : sortKey.Strict := .via (.pair reference_strict (word_strict (by decide))) fun _ => rfl

theorem groupKey_strict : groupKey.Strict := .via (.pair reference_strict identifier_strict) fun _ => rfl

theorem aggregation_strict : aggregation.Strict :=
  .via (.pair (.list reference_strict) (.pair (word_strict (by decide)) identifier_strict)) fun _ => rfl

theorem params_strict : params.Strict :=
  .via (.pair (.list identifier_strict) (.pair (.list identifier_strict)
    (.pair (.option window_strict) (.option text_strict)))) fun _ => rfl

private theorem writeLiterals_eq (items : List Literal) : writeLiterals items = items.flatMap writeLiteral := by
  induction items with
  | nil => rfl
  | cons item items step => rw [writeLiterals, List.flatMap_cons, step]

/-- However deep a constant may be nested, it is read from the bytes that it would be written as. -/
theorem readLiteral_strict (levels : Nat) (bytes : List UInt8) (value : Literal) (rest : List UInt8)
    (read : readLiteral? levels bytes = some (value, rest)) : bytes = writeLiteral value ++ rest := by
  induction levels generalizing bytes value rest with
  | zero => cases read
  | succ levels step =>
    simp only [readLiteral?, Option.bind_eq_bind, Option.bind_eq_some_iff] at read
    obtain ⟨⟨variant, behind⟩, first, read⟩ := read
    have front := word32_strict _ _ _ first
    split at read
    · next same => exact strict_behind .bool bool_strict front same (fun _ => rfl) read
    · next same => exact strict_behind .whole int64_strict front same (fun _ => rfl) read
    · next same => exact strict_behind .real real_strict front same (fun _ => rfl) read
    · next same => exact strict_behind .text text_strict front same (fun _ => rfl) read
    · next same =>
      simp only [Option.bind_eq_some_iff, pure, Option.some.injEq] at read
      obtain ⟨⟨count, middle⟩, counted, ⟨items, after⟩, found, result⟩ := read
      cases result
      obtain ⟨size, held⟩ : items.length = count ∧ middle = items.flatMap writeLiteral ++ after := readMany_strict step found
      have header := length_strict _ _ _ counted
      rw [header, held, ← size, show variant = _ from eq_ofNat same] at front
      simp only [writeLiteral, writeLiterals_eq, List.append_assoc]
      exact front
    · cases read

theorem literal_strict : literal.Strict := fun bytes => readLiteral_strict bytes.length bytes

theorem scanFields_strict : scanFields.Strict :=
  .pair (word_strict (by decide)) (.pair (.option identifier_strict) (.pair params_strict (.option (.list literal_strict))))

theorem edgeFields_strict : edgeFields.Strict :=
  .pair (word_strict (by decide)) (.pair params_strict (.pair bool_strict (.option identifier_strict)))

theorem pathFields_strict : pathFields.Strict :=
  .pair (word_strict (by decide)) (.pair params_strict (.pair window_strict (.pair bool_strict (.option identifier_strict))))

theorem applyFields_strict : applyFields.Strict :=
  .pair (word_strict (by decide)) (.pair int32_strict (.option identifier_strict))

theorem projectFields_strict : projectFields.Strict := .pair (.list projected_strict) bool_strict

theorem orderFields_strict : orderFields.Strict := .pair (.list sortKey_strict) (.option window_strict)

theorem groupFields_strict : groupFields.Strict := .pair (.list groupKey_strict) (.list aggregation_strict)

theorem vertexFields_strict : vertexFields.Strict := .pair (word_strict (by decide)) (.option identifier_strict)

theorem op_strict : op.Strict := by
  intro bytes value rest read
  simp only [op, readOp?, Option.bind_eq_bind, Option.bind_eq_some_iff] at read
  obtain ⟨⟨variant, behind⟩, first, read⟩ := read
  have front := word32_strict _ _ _ first
  split at read
  · next same =>
    obtain ⟨⟨⟨target, tag, params, lookup⟩, after⟩, found, result⟩ := Option.map_eq_some_iff.mp read
    cases result
    exact strict_fields scanFields_strict front same found rfl
  · next same => exact strict_behind .select text_strict front same (fun _ => rfl) read
  · next same =>
    obtain ⟨⟨⟨direction, params, isEdge, tag⟩, after⟩, found, result⟩ := Option.map_eq_some_iff.mp read
    cases result
    exact strict_fields edgeFields_strict front same found rfl
  · next same => exact strict_behind .limit window_strict front same (fun _ => rfl) read
  · next same =>
    obtain ⟨⟨⟨columns, isAppend⟩, after⟩, found, result⟩ := Option.map_eq_some_iff.mp read
    cases result
    exact strict_fields projectFields_strict front same found rfl
  · next same =>
    obtain ⟨⟨⟨keys, range⟩, after⟩, found, result⟩ := Option.map_eq_some_iff.mp read
    cases result
    exact strict_fields orderFields_strict front same found rfl
  · next same =>
    obtain ⟨⟨⟨keys, values⟩, after⟩, found, result⟩ := Option.map_eq_some_iff.mp read
    cases result
    exact strict_fields groupFields_strict front same found rfl
  · next same => exact strict_behind .dedup reference_strict.list front same (fun _ => rfl) read
  · next same => exact strict_behind .sink identifier_strict.list front same (fun _ => rfl) read
  · next same =>
    obtain ⟨⟨⟨direction, params, hops, wholePath, tag⟩, after⟩, found, result⟩ := Option.map_eq_some_iff.mp read
    cases result
    exact strict_fields pathFields_strict front same found rfl
  · next same =>
    obtain ⟨⟨⟨edgeEnd, tag⟩, after⟩, found, result⟩ := Option.map_eq_some_iff.mp read
    cases result
    exact strict_fields vertexFields_strict front same found rfl
  · next same =>
    obtain ⟨⟨⟨join, subRoot, tag⟩, after⟩, found, result⟩ := Option.map_eq_some_iff.mp read
    cases result
    exact strict_fields applyFields_strict front same found rfl
  · next same => exact strict_behind .union int32_strict.list front same (fun _ => rfl) read
  · next same => exact strict_behind .bind identifier_strict front same (fun _ => rfl) read
  · cases read

theorem physicalNode_strict : physicalNode.Strict :=
  .via (.pair int32_strict (.pair op_strict (.pair (.list int32_strict) bool_strict))) fun _ => rfl

theorem physicalPlan_strict : physicalPlan.Strict :=
  .via (.pair word32_strict (.pair word32_strict (.pair int32_strict
    (.pair (.list int32_strict) (.list physicalNode_strict))))) fun _ => rfl

end TraversalPlanner.Codec
