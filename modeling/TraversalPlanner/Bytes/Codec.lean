/-! Writing values as bytes and reading them back from the front of a byte string. Words come with
their lowest byte first. A checksum tells whether bytes have changed in between. -/

namespace TraversalPlanner

structure Codec (α : Type) where
  write : α → List UInt8
  /-- The value at the front and the bytes behind it. -/
  read? : List UInt8 → Option (α × List UInt8)

namespace Codec

variable {α β : Type}

/-- Values of one type kept as values of another. -/
def via (codec : Codec α) (toStored : β → α) (ofStored : α → β) : Codec β where
  write value := codec.write (toStored value)
  read? bytes := (codec.read? bytes).map fun (stored, rest) => (ofStored stored, rest)

/-- Values of one type, some of which are values of another. -/
def viaSome (codec : Codec α) (toStored : β → α) (ofStored? : α → Option β) : Codec β where
  write value := codec.write (toStored value)
  read? bytes := do
    let (stored, rest) ← codec.read? bytes
    return (← ofStored? stored, rest)

def pair (first : Codec α) (second : Codec β) : Codec (α × β) where
  write := fun (a, b) => first.write a ++ second.write b
  read? bytes := do
    let (a, rest) ← first.read? bytes
    let (b, rest) ← second.read? rest
    return ((a, b), rest)

def byte : Codec UInt8 where
  write value := [value]
  read?
    | value :: rest => some (value, rest)
    | [] => none

def word16 : Codec UInt16 :=
  (byte.pair byte).via (fun word => (word.toUInt8, (word >>> 8).toUInt8))
    fun (low, high) => low.toUInt16 ||| (high.toUInt16 <<< 8)

def word32 : Codec UInt32 :=
  (word16.pair word16).via (fun word => (word.toUInt16, (word >>> 16).toUInt16))
    fun (low, high) => low.toUInt32 ||| (high.toUInt32 <<< 16)

def word64 : Codec UInt64 :=
  (word32.pair word32).via (fun word => (word.toUInt32, (word >>> 32).toUInt32))
    fun (low, high) => low.toUInt64 ||| (high.toUInt64 <<< 32)

def int32 : Codec Int32 := word32.via Int32.toUInt32 UInt32.toInt32

def int64 : Codec Int64 := word64.via Int64.toUInt64 UInt64.toInt64

def bool : Codec Bool :=
  byte.viaSome (fun value => if value then 1 else 0) fun stored =>
    if stored = 0 then some false else if stored = 1 then some true else none

/-- A byte that tells whether there is a value, and the value. -/
def option (codec : Codec α) : Codec (Option α) where
  write
    | none => bool.write false
    | some value => bool.write true ++ codec.write value
  read? bytes := do
    match ← bool.read? bytes with
    | (false, rest) => return (none, rest)
    | (true, rest) =>
      let (value, rest) ← codec.read? rest
      return (some value, rest)

def readMany? (read? : List UInt8 → Option (α × List UInt8)) : Nat → List UInt8 → Option (List α × List UInt8)
  | 0, bytes => some ([], bytes)
  | count + 1, bytes => do
    let (value, rest) ← read? bytes
    let (others, rest) ← readMany? read? count rest
    return (value :: others, rest)

/-- A length as a 64-bit word. -/
def length : Codec Nat := word64.via UInt64.ofNat UInt64.toNat

def list (codec : Codec α) : Codec (List α) where
  write values := length.write values.length ++ values.flatMap codec.write
  read? bytes := do
    let (count, rest) ← length.read? bytes
    readMany? codec.read? count rest

/-- The length in bytes and the text in UTF-8. -/
def text : Codec String where
  write value := length.write value.utf8ByteSize ++ value.toByteArray.data.toList
  read? bytes := do
    let (count, rest) ← length.read? bytes
    if count ≤ rest.length then
      let value ← String.fromUTF8? ⟨(rest.take count).toArray⟩
      return (value, rest.drop count)
    else none

/-- A member of a finite list, as its place in the list. -/
def member [BEq α] (members : List α) : Codec α :=
  word32.viaSome (fun value => UInt32.ofNat (members.idxOf value)) fun place => members[place.toNat]?

end Codec

/-! CRC-32 with the reflected polynomial `0xEDB88320`, bit by bit. -/

namespace Checksum

def shift (state : UInt32) : UInt32 :=
  if state &&& 1 = 0 then state >>> 1 else (state >>> 1) ^^^ 0xEDB88320

def absorb (state : UInt32) (byte : UInt8) : UInt32 :=
  Nat.repeat shift 8 (state ^^^ byte.toUInt32)

def crc32 (bytes : List UInt8) : UInt32 := bytes.foldl absorb 0xFFFFFFFF ^^^ 0xFFFFFFFF

end Checksum

end TraversalPlanner
