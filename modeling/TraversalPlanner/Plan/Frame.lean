import TraversalPlanner.Bytes.Codec
import TraversalPlanner.Plan.Physical

/-! The byte form of physical plans. A frame is a marker, the length of the payload, the payload and a
checksum of all that comes before it; the payload holds the fields of the plan one after the other. -/

namespace TraversalPlanner

namespace Codec

variable {α : Type}

def real : Codec Number.Binary64 := word64.via Number.Binary64.bits Number.Binary64.mk

def word [Vocabulary α] [BEq α] : Codec α := member (Vocabulary.members (α := α))

mutual
def writeLiteral : Literal → List UInt8
  | .bool value => word32.write 0 ++ bool.write value
  | .whole value => word32.write 1 ++ int64.write value
  | .real value => word32.write 2 ++ real.write value
  | .text value => word32.write 3 ++ text.write value
  | .list items => word32.write 4 ++ length.write items.length ++ writeLiterals items
termination_by structural literal => literal

def writeLiterals : List Literal → List UInt8
  | [] => []
  | item :: rest => writeLiteral item ++ writeLiterals rest
termination_by structural items => items
end

/-- Reads a constant whose lists are nested no deeper than the given number of levels. -/
def readLiteral? : Nat → List UInt8 → Option (Literal × List UInt8)
  | 0, _ => none
  | levels + 1, bytes => do
    let (variant, rest) ← word32.read? bytes
    match variant.toNat with
    | 0 => (bool.read? rest).map fun (value, rest) => (.bool value, rest)
    | 1 => (int64.read? rest).map fun (value, rest) => (.whole value, rest)
    | 2 => (real.read? rest).map fun (value, rest) => (.real value, rest)
    | 3 => (text.read? rest).map fun (value, rest) => (.text value, rest)
    | 4 => do
      let (count, rest) ← length.read? rest
      let (items, rest) ← readMany? (readLiteral? levels) count rest
      return (.list items, rest)
    | _ => none

/-- Each level of a constant takes bytes of its own, so there are no more levels than bytes. -/
def literal : Codec Literal where
  write := writeLiteral
  read? bytes := readLiteral? bytes.length bytes

def identifier : Codec Identifier where
  write
    | .name name => word32.write 0 ++ text.write name
    | .id id => word32.write 1 ++ int32.write id
  read? bytes := do
    let (variant, rest) ← word32.read? bytes
    match variant.toNat with
    | 0 => (text.read? rest).map fun (name, rest) => (.name name, rest)
    | 1 => (int32.read? rest).map fun (id, rest) => (.id id, rest)
    | _ => none

def property : Codec Property where
  write
    | .id => word32.write 0
    | .label => word32.write 1
    | .key name => word32.write 2 ++ text.write name
  read? bytes := do
    let (variant, rest) ← word32.read? bytes
    match variant.toNat with
    | 0 => return (.id, rest)
    | 1 => return (.label, rest)
    | 2 => (text.read? rest).map fun (name, rest) => (.key name, rest)
    | _ => none

def reference : Codec Variable :=
  ((option identifier).pair (option property)).via (fun reference => (reference.tag, reference.property))
    fun (tag, property) => { tag, property }

def window : Codec Window :=
  (int32.pair int32).via (fun window => (window.lower, window.upper)) fun (lower, upper) => { lower, upper }

def projected : Codec (Projected Identifier) :=
  (text.pair (option identifier)).via (fun column => (column.expression, column.tag))
    fun (expression, tag) => { expression, tag }

def sortKey : Codec SortKey :=
  (reference.pair word).via (fun pair => (pair.key, pair.order)) fun (key, order) => { key, order }

def groupKey : Codec (GroupKey Identifier) :=
  (reference.pair identifier).via (fun pair => (pair.key, pair.tag)) fun (key, tag) => { key, tag }

def aggregation : Codec (Aggregation Identifier) :=
  ((list reference).pair (word.pair identifier)).via (fun value => (value.inputs, value.aggregate, value.tag))
    fun (inputs, aggregate, tag) => { inputs, aggregate, tag }

def params : Codec TableRead :=
  ((list identifier).pair ((list identifier).pair ((option window).pair (option text)))).via
    (fun params => (params.tables, params.columns, params.limit, params.predicate))
    fun (tables, columns, limit, predicate) => { tables, columns, limit, predicate }

/-- The fields of a node, which follow the number of its operation. -/
def scanFields : Codec (ElementKind × Option Identifier × TableRead × Option (List Literal)) :=
  word.pair ((option identifier).pair (params.pair (option (list literal))))

def edgeFields : Codec (Direction × TableRead × Bool × Option Identifier) :=
  word.pair (params.pair (bool.pair (option identifier)))

def pathFields : Codec (Direction × TableRead × Window × Bool × Option Identifier) :=
  word.pair (params.pair (window.pair (bool.pair (option identifier))))

def applyFields : Codec (JoinKind × Int32 × Option Identifier) := word.pair (int32.pair (option identifier))

def projectFields : Codec (List (Projected Identifier) × Bool) := (list projected).pair bool

def orderFields : Codec (List SortKey × Option Window) := (list sortKey).pair (option window)

def groupFields : Codec (List (GroupKey Identifier) × List (Aggregation Identifier)) :=
  (list groupKey).pair (list aggregation)

def vertexFields : Codec (EdgeEnd × Option Identifier) := word.pair (option identifier)

def writeOp : NodeOp Int32 → List UInt8
  | .scan target tag params lookup => word32.write 0 ++ scanFields.write (target, tag, params, lookup)
  | .select predicate => word32.write 1 ++ text.write predicate
  | .edge direction params isEdge tag => word32.write 2 ++ edgeFields.write (direction, params, isEdge, tag)
  | .limit range => word32.write 3 ++ window.write range
  | .project columns isAppend => word32.write 4 ++ projectFields.write (columns, isAppend)
  | .orderBy keys range => word32.write 5 ++ orderFields.write (keys, range)
  | .groupBy keys values => word32.write 6 ++ groupFields.write (keys, values)
  | .dedup keys => word32.write 7 ++ (list reference).write keys
  | .sink tags => word32.write 8 ++ (list identifier).write tags
  | .path direction params hops wholePath tag =>
    word32.write 9 ++ pathFields.write (direction, params, hops, wholePath, tag)
  | .vertex edgeEnd tag => word32.write 10 ++ vertexFields.write (edgeEnd, tag)
  | .apply join subRoot tag => word32.write 11 ++ applyFields.write (join, subRoot, tag)
  | .union parents => word32.write 12 ++ (list int32).write parents
  | .bind tag => word32.write 13 ++ identifier.write tag

def readOp? (bytes : List UInt8) : Option (NodeOp Int32 × List UInt8) := do
  let (variant, rest) ← word32.read? bytes
  match variant.toNat with
  | 0 => (scanFields.read? rest).map fun ((target, tag, params, lookup), rest) =>
      (.scan target tag params lookup, rest)
  | 1 => (text.read? rest).map fun (predicate, rest) => (.select predicate, rest)
  | 2 => (edgeFields.read? rest).map fun ((direction, params, isEdge, tag), rest) =>
      (.edge direction params isEdge tag, rest)
  | 3 => (window.read? rest).map fun (range, rest) => (.limit range, rest)
  | 4 => (projectFields.read? rest).map fun ((columns, isAppend), rest) => (.project columns isAppend, rest)
  | 5 => (orderFields.read? rest).map fun ((keys, range), rest) => (.orderBy keys range, rest)
  | 6 => (groupFields.read? rest).map fun ((keys, values), rest) => (.groupBy keys values, rest)
  | 7 => ((list reference).read? rest).map fun (keys, rest) => (.dedup keys, rest)
  | 8 => ((list identifier).read? rest).map fun (tags, rest) => (.sink tags, rest)
  | 9 => (pathFields.read? rest).map fun ((direction, params, hops, wholePath, tag), rest) =>
      (.path direction params hops wholePath tag, rest)
  | 10 => (vertexFields.read? rest).map fun ((edgeEnd, tag), rest) => (.vertex edgeEnd tag, rest)
  | 11 => (applyFields.read? rest).map fun ((join, subRoot, tag), rest) => (.apply join subRoot tag, rest)
  | 12 => ((list int32).read? rest).map fun (parents, rest) => (.union parents, rest)
  | 13 => (identifier.read? rest).map fun (tag, rest) => (.bind tag, rest)
  | _ => none

def op : Codec (NodeOp Int32) where
  write := writeOp
  read? := readOp?

def physicalNode : Codec PhysicalNode :=
  (int32.pair (op.pair ((list int32).pair bool))).via (fun node => (node.id, node.op, node.children, node.shuffle))
    fun (id, op, children, shuffle) => { id, op, children, shuffle }

def physicalPlan : Codec PhysicalPlan :=
  (word32.pair (word32.pair (int32.pair ((list int32).pair (list physicalNode))))).via
    (fun plan => (plan.workers, plan.servers, plan.root, plan.subRoots, plan.nodes))
    fun (workers, servers, root, subRoots, nodes) => { workers, servers, root, subRoots, nodes }

end Codec

namespace PhysicalPlan

/-- The first word of a frame. -/
def marker : UInt32 := 0x4952504C

def headerLength : Nat := 8

def checksumLength : Nat := 4

/-- Marker, length and payload. -/
def framed (payload : List UInt8) : List UInt8 :=
  Codec.word32.write marker ++ Codec.word32.write (UInt32.ofNat payload.length) ++ payload

/-- Absent when the length of the payload does not fit into its word. -/
def encode? (plan : PhysicalPlan) : Option (List UInt8) :=
  let payload := Codec.physicalPlan.write plan
  if payload.length < UInt32.size then
    some (framed payload ++ Codec.word32.write (Checksum.crc32 (framed payload)))
  else none

def wordAt (bytes : List UInt8) (place : Nat) : UInt32 := ((Codec.word32.read? (bytes.drop place)).map Prod.fst).getD 0

/-- Reads a frame. What the payload holds behind the plan is passed over. -/
def decode (bytes : List UInt8) : Except FrameFault PhysicalPlan := do
  if bytes.length < headerLength + checksumLength then throw (.tooShort bytes.length)
  let found := wordAt bytes 0
  if found ≠ marker then throw (.wrongMagic found.toNat)
  let length := (wordAt bytes 4).toNat
  if bytes.length ≠ headerLength + length + checksumLength then throw (.wrongLength length bytes.length)
  let expected := wordAt bytes (headerLength + length)
  let actual := Checksum.crc32 (bytes.take (headerLength + length))
  if expected ≠ actual then throw (.wrongChecksum expected.toNat actual.toNat)
  match Codec.physicalPlan.read? ((bytes.drop headerLength).take length) with
  | some (plan, _) => return plan
  | none => throw .malformedPayload

end PhysicalPlan

/-- The bytes of a plan for a deployment; none when it cannot be laid out or was released. -/
def PlanTables.bytes (cyclic : List (Nat × Nat) → Bool) (tables : PlanTables) (workers servers : UInt32) : List UInt8 :=
  if tables.released then []
  else match PhysicalPlan.ofTables cyclic tables workers servers with
    | .ok physical => physical.encode?.getD []
    | .error _ => []

def PlanGraph.bytes (plan : PlanGraph) (workers servers : UInt32) : List UInt8 :=
  plan.tables.bytes PlanTables.hasCycle workers servers

end TraversalPlanner
