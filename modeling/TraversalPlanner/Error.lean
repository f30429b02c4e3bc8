import TraversalPlanner.Operator.Kind
import TraversalPlanner.Plan.Refusal
import TraversalPlanner.Value.Element
import TraversalPlanner.Value.Identifier
import TraversalPlanner.Value.Literal

/-! Everything that can go wrong between a query and its plan, by cause. The wording of each cause
stands in one place, `Error.message`. -/

namespace TraversalPlanner

/-- What is wrong with the argument in a slot. -/
inductive SlotFault where
  | absent
  | emptyList
  | negativeLower (lower : Int32)
  | crossedBounds (lower upper : Int32)
  | blankPredicate
  | emptyLookup
  | repeatedAlias (name : Identifier)
  | emptySubPlan
  | listExpected (comparator : Comparator) (value : Literal)
  | wrongType (type : String)
  | undefinedSlot

/-- A form of a query that has no plan. -/
inductive PatternFault where
  | modulatorForm (step : String)
  | modulatorOrder (step order : String)
  | groupValueForm
  | groupForm
  | groupCountForm
  | valuesArity
  | valueMapEmpty
  | strayModulator (index : Nat)
  | unreadableProjection (text : String)
  | namelessProjection (text : String)
  | namelessEntry (text : String)

/-- Why the bytes of a physical plan are not read. -/
inductive FrameFault where
  | tooShort (length : Nat)
  | wrongMagic (magic : Nat)
  | wrongLength (payload length : Nat)
  | wrongChecksum (expected actual : Nat)
  | malformedPayload

inductive Error where
  | illegalSlot (kind : OperatorKind) (slot : Slot) (fault : SlotFault)
  | selectWithoutTags
  | noHosts
  | noWorkers
  | unsupportedStep (name : String)
  | unsupportedPattern (fault : PatternFault)
  | unsupportedAlias (kind : OperatorKind)
  | invalidWord (vocabulary word : String)
  | appendFailed (kind : OperatorKind) (refusal : Refusal)
  | closedBeforeBuild
  | emptyBuild (workers servers : UInt32)
  | useAfterClose
  | exportFailed (refusal : Refusal)
  | frame (fault : FrameFault)
  | unreadableText
  | unreadableSchema
  | schemaInstalled
  | refusedJob (reason : String)

namespace SlotFault

def message : SlotFault → String
  | .absent => "required argument is absent"
  | .emptyList => "list must not be empty"
  | .negativeLower lower => s!"lower bound {lower.toInt} is negative"
  | .crossedBounds lower upper => s!"lower bound {lower.toInt} exceeds upper bound {upper.toInt}"
  | .blankPredicate => "predicate is empty"
  | .emptyLookup => "an empty id list matches nothing"
  | .repeatedAlias name => s!"alias {name.render} is used twice"
  | .emptySubPlan => "sub-traversal produced no operators"
  | .listExpected comparator value => s!"{comparator.symbol} expects a list, got {value.render}"
  | .wrongType type => s!"value of type {type} does not fit this slot"
  | .undefinedSlot => "slot is not defined for this operator"

end SlotFault

namespace PatternFault

def message : PatternFault → String
  | .modulatorForm step =>
    s!"supported pattern is [{step}().by()] or [{step}().by('name')] or [{step}().by(values('name'))]"
  | .modulatorOrder step order => s!"{step}().by(.., {order}) does not take an order"
  | .groupValueForm =>
    "supported pattern is [group().by(..).by()] or [group().by(..).by(count())] or [group().by(..).by(fold())]"
  | .groupForm => "supported pattern is [group()] or [group().by(..)] or [group().by(..).by(..)]"
  | .groupCountForm => "supported pattern is [groupCount()] or [groupCount().by(..)]"
  | .valuesArity => "values() takes exactly one key, use valueMap() for several"
  | .valueMapEmpty => "valueMap() needs at least one key"
  | .strayModulator index => s!"by() at step {index} does not follow a step that accepts modulators"
  | .unreadableProjection text => s!"cannot parse projection expression '{text}'"
  | .namelessProjection text => s!"cannot derive an alias for projection '{text}'"
  | .namelessEntry text => s!"every entry of projection group '{text}' must name a property"

end PatternFault

/-- A number in base sixteen. -/
def hexadecimal (n : Nat) : String := "0x" ++ String.ofList (Nat.toDigits 16 n)

namespace FrameFault

def message : FrameFault → String
  | .tooShort length => s!"physical plan buffer of {length} bytes is too short"
  | .wrongMagic magic => s!"invalid physical plan magic {hexadecimal magic}"
  | .wrongLength payload length =>
    s!"physical plan length mismatch: header says {payload} payload bytes, buffer has {length}"
  | .wrongChecksum expected actual =>
    s!"physical plan checksum mismatch: expected {hexadecimal expected}, got {hexadecimal actual}"
  | .malformedPayload => "the payload is not a physical plan"

end FrameFault

namespace Error

def message : Error → String
  | .illegalSlot kind slot fault =>
    s!"Illegal argument for {kind.name}.{Vocabulary.word slot}: {fault.message}"
  | .selectWithoutTags => "Illegal argument for select.tags: select() needs at least one tag"
  | .noHosts => "Illegal argument for EngineConfig.hosts: at least one host is required"
  | .noWorkers => "Illegal argument for EngineConfig.worker_num: must be positive"
  | .unsupportedStep name => s!"Unsupported step: {name}"
  | .unsupportedPattern fault => s!"Unsupported pattern: {fault.message}"
  | .unsupportedAlias kind => s!"The query given alias is unsupported in {kind.name} operator"
  | .invalidWord vocabulary word => s!"Invalid {vocabulary} value: {word}"
  | .appendFailed kind refusal => s!"Append {kind.name} operator failed with {refusal.message}"
  | .closedBeforeBuild => "Build physical plan error: plan is already closed"
  | .emptyBuild workers servers =>
    s!"Build physical plan error: empty physical plan for {workers} worker(s) on {servers} server(s)"
  | .useAfterClose => "Plan is used after close"
  | .exportFailed refusal => s!"Serialization error: plan export failed with {refusal.message}"
  | .frame fault => s!"Serialization error: {fault.message}"
  | .unreadableText => "Serialization error: the text is not of the expected form"
  | .unreadableSchema => "Schema error: the text is not a graph schema"
  | .schemaInstalled => "Schema error: graph schema is already initialized"
  | .refusedJob reason => s!"Job submission error: {reason}"

end Error

/-- Reads a word of a vocabulary that goes by the given name in messages. -/
def Vocabulary.parse {α : Type} [Vocabulary α] (vocabulary text : String) : Except Error α :=
  match Vocabulary.readFolded? text with
  | some member => .ok member
  | none => .error (.invalidWord vocabulary text)

/-- The end that `outV()` or `inV()` stands on; both ends at once are no single vertex. -/
def EdgeEnd.ofDirection (text : String) : Except Error EdgeEnd :=
  match (Vocabulary.readFolded? text : Option Direction) with
  | some .outgoing => .ok .start
  | some .incoming => .ok .finish
  | _ => .error (.invalidWord "VOpt" text)

end TraversalPlanner
