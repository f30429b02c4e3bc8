import TraversalPlanner.Json.Basic

/-! Reading typed values out of JSON. A record is an object that holds its fields by name, or an array
that holds them in their order; unknown names are passed over and known ones may stand only once. The
variants of a type are told apart by name, which some places let be written more freely. -/

namespace TraversalPlanner.Json

def text? : Json → Option String
  | .text value => some value
  | _ => none

def bool? : Json → Option Bool
  | .bool value => some value
  | _ => none

def wholeBetween? (least greatest : Int) : Json → Option Int
  | .whole n => if least ≤ n ∧ n ≤ greatest then some n else none
  | _ => none

def int32? (json : Json) : Option Int32 := (json.wholeBetween? (-0x80000000) 0x7FFFFFFF).map Int32.ofInt

def int64? (json : Json) : Option Int64 :=
  (json.wholeBetween? (-0x8000000000000000) 0x7FFFFFFFFFFFFFFF).map Int64.ofInt

def uint32? (json : Json) : Option UInt32 :=
  (json.wholeBetween? 0 0xFFFFFFFF).map fun n => UInt32.ofNat n.toNat

def uint64? (json : Json) : Option UInt64 :=
  (json.wholeBetween? 0 0xFFFFFFFFFFFFFFFF).map fun n => UInt64.ofNat n.toNat

/-- A whole number may stand for a double. -/
def real? : Json → Option Number.Binary64
  | .real x => some x
  | .whole n =>
    let magnitude := Number.Binary64.ofNat n.natAbs
    some (if n < 0 then magnitude.neg else magnitude)
  | _ => none

def listOf? {α : Type} (read : Json → Option α) : Json → Option (List α)
  | .array items => items.mapM read
  | _ => none

def nullable? {α : Type} (read : Json → Option α) : Json → Option (Option α)
  | .null => some none
  | json => (read json).map some

def ofOption {α : Type} (write : α → Json) : Option α → Json
  | none => .null
  | some value => write value

def ofList {α : Type} (write : α → Json) (values : List α) : Json := .array (values.map write)

/-- The only entry of an object, or a lone name without a value. -/
def variant? : Json → Option (String × Option Json)
  | .text name => some (name, none)
  | .object [(name, value)] => some (name, some value)
  | _ => none

inductive Spelling where
  | exact
  | free

/-- The name of a variant that carries nothing; written as an entry it holds null or, where the spelling
is free, an empty object. -/
def bareVariant? (spelling : Spelling) (json : Json) : Option String :=
  match spelling, json.variant? with
  | _, some (name, none) => some name
  | _, some (name, some .null) => some name
  | .free, some (name, some (.object [])) => some name
  | _, _ => none

structure Fields where
  held : List (String × Json)
  byName : Bool

def fields? (names : List String) : Json → Option Fields
  | .object entries =>
    let known := entries.filter fun entry => names.contains entry.1
    if (known.map Prod.fst).Nodup then some { held := known, byName := true } else none
  | .array items => if items.length ≤ names.length then some { held := names.zip items, byName := false } else none
  | _ => none

/-- The parts of a variant that names them; where the spelling is free they may also stand in order. -/
def parts? (spelling : Spelling) (names : List String) (json : Json) : Option Fields :=
  match spelling, json with
  | .exact, .array _ => none
  | _, json => json.fields? names

/-- Takes a record's tag away from its other fields. The tag is a word of the list or, where the spelling
is free, its place in the list. -/
def tagged? (spelling : Spelling) (key : String) (words : List String) : Json → Option (String × Json)
  | .object entries =>
    match entries.filter (fun entry => entry.1 = key) with
    | [(_, tag)] => do return (← word? tag, .object (entries.filter fun entry => entry.1 ≠ key))
    | _ => none
  | .array (tag :: rest) => do return (← word? tag, .array rest)
  | _ => none
where
  word? : Json → Option String
    | .text word => if words.contains word then some word else none
    | .whole place =>
      match spelling with
      | .exact => none
      | .free => if place < 0 then none else words[place.toNat]?
    | _ => none

namespace Fields

variable {α : Type}

def value? (fields : Fields) (name : String) : Option Json := fields.held.lookup name

def required? (fields : Fields) (name : String) (read : Json → Option α) : Option α :=
  fields.value? name >>= read

/-- A field that may be left out where it has a default. -/
def orElse? (fields : Fields) (name : String) (default : α) (read : Json → Option α) : Option α :=
  match fields.value? name with
  | none => some default
  | some json => read json

/-- A field that may be null, and among named fields also missing. -/
def optional? (fields : Fields) (name : String) (read : Json → Option α) : Option (Option α) :=
  match fields.value? name with
  | none => if fields.byName then some none else none
  | some json => json.nullable? read

end Fields

end TraversalPlanner.Json
