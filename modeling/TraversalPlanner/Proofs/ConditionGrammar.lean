import TraversalPlanner.Proofs.Formulas
import TraversalPlanner.Proofs.ShownReferences

/-! Conditions as boolean expressions. A conjunction binds tighter than a disjunction, both group from the left, and
parentheses override. A text has one reading at most: its symbols can be told apart one by one, and a stack with one
frame for each open parenthesis gathers the formula from them. -/

namespace TraversalPlanner.Expression

/-- What a condition says of elements and properties: that one is there, or how two of them compare. -/
inductive Statement where
  | present (reference : Variable)
  | compared (left : Variable) (comparator : Comparator) (right : Variable)
deriving DecidableEq

namespace Statement

def render : Statement → String
  | .present reference => reference.render
  | .compared left comparator right => comparison left.render comparator right.render

def references : Statement → List Variable
  | .present reference => [reference]
  | .compared left _ right => [left, right]

def comparison? : Statement → Option (Variable × Comparator × Variable)
  | .present _ => none
  | .compared left comparator right => some (left, comparator, right)

end Statement

inductive Symbol where
  | opening
  | closing
  | and
  | or
  | states (statement : Statement)

namespace Symbol

def spelling : Symbol → String
  | .opening => "("
  | .closing => ")"
  | .and => " && "
  | .or => " || "
  | .states statement => statement.render

def references : Symbol → List Variable
  | .states statement => statement.references
  | _ => []

def Legible (symbol : Symbol) : Prop := ∀ reference ∈ symbol.references, Expression.Legible reference

end Symbol

def spelled (symbols : List Symbol) : List Char := symbols.flatMap fun symbol => symbol.spelling.toList

inductive Level where
  | operand
  | conjunction
  | disjunction

/-- The grammar of conditions. -/
inductive Derives : Level → List Symbol → Formula Statement → Prop
  | states {statement : Statement} (legible : ∀ reference ∈ statement.references, Legible reference) :
      Derives .operand [.states statement] (.leaf statement)
  | group {symbols : List Symbol} {formula : Formula Statement} (inner : Derives .disjunction symbols formula) :
      Derives .operand (.opening :: (symbols ++ [.closing])) formula
  | single {symbols : List Symbol} {formula : Formula Statement} (alone : Derives .operand symbols formula) :
      Derives .conjunction symbols formula
  | and {first second : List Symbol} {left right : Formula Statement} (front : Derives .conjunction first left)
      (last : Derives .operand second right) : Derives .conjunction (first ++ .and :: second) (.and left right)
  | sole {symbols : List Symbol} {formula : Formula Statement} (alone : Derives .conjunction symbols formula) :
      Derives .disjunction symbols formula
  | or {first second : List Symbol} {left right : Formula Statement} (front : Derives .disjunction first left)
      (last : Derives .conjunction second right) : Derives .disjunction (first ++ .or :: second) (.or left right)

/-- The characters can be read as the formula. -/
def ReadsAt (level : Level) (chars : List Char) (formula : Formula Statement) : Prop :=
  ∃ symbols, chars = spelled symbols ∧ Derives level symbols formula

def Reads (text : String) (formula : Formula Statement) : Prop := ReadsAt .disjunction text.toList formula

variable {level : Level} {symbols first second : List Symbol} {formula other : Formula Statement} {text : String} {chars rest : List Char}

/-! Only one formula can be gathered from the symbols. -/

/-- What has been read since a parenthesis was opened: the disjuncts that are complete, and the last one so far. -/
structure Frame where
  before : Option (Formula Statement)
  last : Option (Formula Statement)

namespace Frame

def empty : Frame := { before := none, last := none }

def add (frame : Frame) (formula : Formula Statement) : Frame :=
  { frame with last := some (frame.last.elim formula fun last => .and last formula) }

def formula? (frame : Frame) : Option (Formula Statement) :=
  match frame.before, frame.last with
  | some before, some last => some (.or before last)
  | before, none => before
  | none, last => last

end Frame

/-- Conjuncts are gathered as they come, so only bars and parentheses change the frames. -/
def push : List Frame → Symbol → List Frame
  | stack, .opening => .empty :: stack
  | inner :: outer :: stack, .closing => inner.formula?.elim outer outer.add :: stack
  | frame :: stack, .or => { before := frame.formula?, last := none } :: stack
  | frame :: stack, .states statement => frame.add (.leaf statement) :: stack
  | stack, _ => stack

/-- How far the symbols of a level fill the frame that they are read in. -/
def Gathers (symbols : List Symbol) (formula : Formula Statement) : Level → Prop
  | .operand => ∀ frame stack, symbols.foldl push (frame :: stack) = frame.add formula :: stack
  | .conjunction => ∀ before stack, symbols.foldl push (⟨before, none⟩ :: stack) = ⟨before, some formula⟩ :: stack
  | .disjunction => ∀ stack, ∃ frame, symbols.foldl push (.empty :: stack) = frame :: stack ∧ frame.formula? = some formula

/-- No frame of an open parenthesis is touched from inside, so the levels can be told apart by what they leave of one. -/
theorem Derives.gathers (derives : Derives level symbols formula) : Gathers symbols formula level := by
  induction derives with
  | states => exact fun frame stack => rfl
  | @group symbols formula _ inner =>
    intro frame stack
    -- The frame that the parenthesis opens is full once its content is read, and the outer one takes it in as an operand.
    obtain ⟨filled, read, same⟩ := inner (frame :: stack)
    rw [List.foldl_cons, List.foldl_append]
    change List.foldl push (List.foldl push (.empty :: frame :: stack) symbols) _ = _
    rw [read, List.foldl_cons, List.foldl_nil, push, same]
    rfl
  | single _ alone => exact fun before stack => alone ⟨before, none⟩ stack
  | @and first second left right _ _ front last =>
    intro before stack
    rw [List.foldl_append, front before stack]
    exact last ⟨before, some left⟩ stack
  | sole _ alone => exact fun stack => ⟨_, alone none stack, rfl⟩
  | @or first second left right _ _ front last =>
    intro stack
    obtain ⟨filled, read, same⟩ := front stack
    refine ⟨⟨some left, some right⟩, ?_, rfl⟩
    rw [List.foldl_append, read, List.foldl_cons, push, same]
    exact last (some left) stack

theorem Derives.unique (one : Derives .disjunction symbols formula) (two : Derives .disjunction symbols other) :
    formula = other := by
  obtain ⟨frame, read, same⟩ := one.gathers []
  obtain ⟨again, reread, holds⟩ := two.gathers []
  cases read.symm.trans reread
  exact Option.some.inj (same.symm.trans holds)

theorem Derives.legible (derives : Derives level symbols formula) : ∀ symbol ∈ symbols, symbol.Legible := by
  induction derives with
  | states legible => exact List.forall_mem_singleton.mpr legible
  | group _ inner =>
    exact List.forall_mem_cons.mpr ⟨nofun, List.forall_mem_append.mpr ⟨inner, List.forall_mem_singleton.mpr nofun⟩⟩
  | single _ alone => exact alone
  | and _ _ front last => exact List.forall_mem_append.mpr ⟨front, List.forall_mem_cons.mpr ⟨nofun, last⟩⟩
  | sole _ alone => exact alone
  | or _ _ front last => exact List.forall_mem_append.mpr ⟨front, List.forall_mem_cons.mpr ⟨nofun, last⟩⟩

/-! The symbols can be told apart. -/

theorem spelled_cons (symbol : Symbol) (symbols : List Symbol) :
    spelled (symbol :: symbols) = symbol.spelling.toList ++ spelled symbols := List.flatMap_cons

theorem spelled_append (first second : List Symbol) : spelled (first ++ second) = spelled first ++ spelled second :=
  List.flatMap_append

theorem toList_statement (statement : Statement) : ∃ rest, statement.render.toList = '@' :: rest := by
  cases statement with
  | present reference => exact ⟨_, toList_render reference⟩
  | compared left comparator right =>
    rw [Statement.render, comparison, String.append_assoc, String.append_assoc, String.append_assoc, String.toList_append,
      toList_render]
    exact ⟨_, rfl⟩

theorem spelled_ends (symbols : List Symbol) : Ends (spelled symbols) := by
  cases symbols with
  | nil => exact ends_nil
  | cons symbol symbols =>
    rw [spelled_cons]
    cases symbol with
    | states statement =>
      obtain ⟨rest, same⟩ := toList_statement statement
      rw [Symbol.spelling, same]
      exact ends_cons (by decide) _
    | _ => exact ends_cons (by decide) _

/-- The comparator at the front of a text, with the blanks around it. -/
def comparator? : List Char → Option (Comparator × List Char)
  | ' ' :: rest =>
    let word := String.ofList (rest.takeWhile (· ≠ ' '))
    (Vocabulary.members.find? fun comparator : Comparator => comparator.symbol = word).map fun comparator =>
      (comparator, (rest.dropWhile (· ≠ ' ')).tail)
  | _ => none

def statement? (chars : List Char) : Option (Statement × List Char) := do
  let (left, rest) ← Projection.reference? chars
  match comparator? rest with
  | none => return (.present left, rest)
  | some (comparator, rest) =>
    let (right, rest) ← Projection.reference? rest
    return (.compared left comparator right, rest)

/-- The symbol at the front of a text. -/
def front? : List Char → Option (Symbol × List Char)
  | '(' :: rest => some (.opening, rest)
  | ')' :: rest => some (.closing, rest)
  | ' ' :: '&' :: '&' :: ' ' :: rest => some (.and, rest)
  | ' ' :: '|' :: '|' :: ' ' :: rest => some (.or, rest)
  | chars => (statement? chars).map fun (statement, rest) => (.states statement, rest)

theorem comparator?_symbol (comparator : Comparator) (rest : List Char) :
    comparator? (' ' :: (comparator.symbol.toList ++ ' ' :: rest)) = some (comparator, rest) := by
  have solid : ∀ c ∈ comparator.symbol.toList, decide (c ≠ ' ') = true :=
    List.all_eq_true.mp (by cases comparator <;> rfl)
  have blank : ∀ c ∈ (' ' :: rest).head?, decide (c ≠ ' ') = false := by
    rintro _ ⟨⟩
    decide
  obtain ⟨taken, left⟩ := run_taken solid blank
  rw [comparator?, taken, left, String.ofList_toList]
  cases comparator <;> rfl

theorem comparator?_spelled (symbols : List Symbol) : comparator? (spelled symbols) = none := by
  cases symbols with
  | nil => rfl
  | cons symbol symbols =>
    rw [spelled_cons]
    cases symbol with
    | states statement =>
      obtain ⟨rest, same⟩ := toList_statement statement
      rw [Symbol.spelling, same]
      rfl
    | _ => rfl

theorem statement?_render {statement : Statement} (legible : ∀ reference ∈ statement.references, Legible reference)
    (symbols : List Symbol) : statement? (statement.render.toList ++ spelled symbols) = some (statement, spelled symbols) := by
  cases statement with
  | present reference =>
    have read := reference?_render (legible _ List.mem_cons_self) (spelled_ends symbols)
    simp [statement?, Statement.render, read, comparator?_spelled]
  | compared left comparator right =>
    have written : (Statement.compared left comparator right).render.toList ++ spelled symbols =
        left.render.toList ++ ' ' :: (comparator.symbol.toList ++ ' ' :: (right.render.toList ++ spelled symbols)) := by
      simp [Statement.render, comparison]
    have blank (more : List Char) : Ends (' ' :: more) := ends_cons (by decide) more
    have first := reference?_render (legible left List.mem_cons_self)
      (blank (comparator.symbol.toList ++ ' ' :: (right.render.toList ++ spelled symbols)))
    have second := reference?_render (legible right (List.mem_cons_of_mem _ List.mem_cons_self)) (spelled_ends symbols)
    simp [statement?, written, first, comparator?_symbol, second]

theorem front?_spelled {symbol : Symbol} (legible : symbol.Legible) (symbols : List Symbol) :
    front? (spelled (symbol :: symbols)) = some (symbol, spelled symbols) := by
  rw [spelled_cons]
  cases symbol with
  | states statement =>
    have read := statement?_render legible symbols
    obtain ⟨rest, same⟩ := toList_statement statement
    rw [Symbol.spelling]
    rw [same] at read ⊢
    exact congrArg (Option.map _) read
  | _ => rfl

theorem spelled_injective (legible : ∀ symbol ∈ first, symbol.Legible) (other : ∀ symbol ∈ second, symbol.Legible)
    (same : spelled first = spelled second) : first = second := by
  induction first generalizing second with
  | nil =>
    cases second with
    | nil => rfl
    | cons next second => cases (congrArg front? same).trans (front?_spelled (List.forall_mem_cons.mp other).1 second)
  | cons symbol first step =>
    obtain ⟨here, later⟩ := List.forall_mem_cons.mp legible
    cases second with
    | nil => cases (front?_spelled here first).symm.trans (congrArg front? same)
    | cons next second =>
      obtain ⟨there, further⟩ := List.forall_mem_cons.mp other
      have fronts := (front?_spelled here first).symm.trans ((congrArg front? same).trans (front?_spelled there second))
      obtain ⟨rfl, rest⟩ := Prod.mk.inj (Option.some.inj fronts)
      rw [step later further rest]

theorem Reads.unique (one : Reads text formula) (two : Reads text other) : formula = other := by
  obtain ⟨symbols, spelling, derives⟩ := one
  obtain ⟨again, respelling, holds⟩ := two
  cases spelled_injective derives.legible holds.legible (spelling.symm.trans respelling)
  exact derives.unique holds

/-! Readings of larger texts from those of their parts. -/

namespace ReadsAt

variable {left right : Formula Statement}

theorem states {statement : Statement} (legible : ∀ reference ∈ statement.references, Legible reference) :
    ReadsAt .operand statement.render.toList (.leaf statement) :=
  ⟨_, by rw [spelled_cons]; exact (List.append_nil _).symm, .states legible⟩

theorem group (inner : ReadsAt .disjunction chars formula) : ReadsAt .operand ('(' :: (chars ++ [')'])) formula := by
  obtain ⟨symbols, rfl, derives⟩ := inner
  refine ⟨_, ?_, .group derives⟩
  rw [spelled_cons, spelled_append]
  rfl

theorem single (alone : ReadsAt .operand chars formula) : ReadsAt .conjunction chars formula := by
  obtain ⟨symbols, same, derives⟩ := alone
  exact ⟨symbols, same, .single derives⟩

theorem and (front : ReadsAt .conjunction chars left) (last : ReadsAt .operand rest right) :
    ReadsAt .conjunction (chars ++ (" && ".toList ++ rest)) (.and left right) := by
  obtain ⟨first, rfl, before⟩ := front
  obtain ⟨second, rfl, behind⟩ := last
  exact ⟨_, by rw [spelled_append, spelled_cons]; rfl, .and before behind⟩

theorem sole (alone : ReadsAt .conjunction chars formula) : ReadsAt .disjunction chars formula := by
  obtain ⟨symbols, same, derives⟩ := alone
  exact ⟨symbols, same, .sole derives⟩

theorem or (front : ReadsAt .disjunction chars left) (last : ReadsAt .conjunction rest right) :
    ReadsAt .disjunction (chars ++ (" || ".toList ++ rest)) (.or left right) := by
  obtain ⟨first, rfl, before⟩ := front
  obtain ⟨second, rfl, behind⟩ := last
  exact ⟨_, by rw [spelled_append, spelled_cons]; rfl, .or before behind⟩

end ReadsAt

/-- The characters are read as disjuncts, if there are any, in front of a last one. -/
inductive ReadsParts : List Char → Option (Formula Statement) × Formula Statement → Prop
  | sole {chars : List Char} {last : Formula Statement} (alone : ReadsAt .conjunction chars last) : ReadsParts chars (none, last)
  | behind {first second : List Char} {before last : Formula Statement} (front : ReadsAt .disjunction first before)
      (behind : ReadsAt .conjunction second last) : ReadsParts (first ++ (" || ".toList ++ second)) (some before, last)

namespace ReadsParts

variable {parts : Option (Formula Statement) × Formula Statement}

theorem joined (reads : ReadsParts chars parts) : ReadsAt .disjunction chars (Formula.joined parts) := by
  cases reads with
  | sole alone => exact alone.sole
  | behind front behind => exact front.or behind

/-- A conjunct behind the text goes to the last disjunct only. -/
theorem and (reads : ReadsParts chars parts) (last : ReadsAt .operand rest formula) :
    ReadsParts (chars ++ (" && ".toList ++ rest)) (parts.1, .and parts.2 formula) := by
  cases reads with
  | sole alone => exact .sole (alone.and last)
  | behind front behind =>
    rw [List.append_assoc, List.append_assoc]
    exact .behind front (behind.and last)

end ReadsParts

/-! What a scan finds in a condition. -/

theorem Derives.references (derives : Derives level symbols formula) :
    symbols.flatMap Symbol.references = formula.leaves.flatMap Statement.references := by
  induction derives with
  | states => rfl
  | group _ inner => simpa [Symbol.references] using inner
  | single _ alone => exact alone
  | and _ _ front last => simp [Formula.leaves, Symbol.references, front, last]
  | sole _ alone => exact alone
  | or _ _ front last => simp [Formula.leaves, Symbol.references, front, last]

theorem shows_spelling {symbol : Symbol} (legible : symbol.Legible) : Shows symbol.references symbol.spelling.toList := by
  cases symbol with
  | states statement =>
    cases statement with
    | present reference => exact shows_render (legible _ List.mem_cons_self)
    | compared left comparator right =>
      exact shows_comparison (legible left List.mem_cons_self) comparator
        (shows_render (legible right (List.mem_cons_of_mem _ List.mem_cons_self)))
  | _ => exact (silent_of_plain (by decide)).shows

theorem shows_spelled (legible : ∀ symbol ∈ symbols, symbol.Legible) :
    Shows (symbols.flatMap Symbol.references) (spelled symbols) := by
  induction symbols with
  | nil => exact silent_nil.shows
  | cons symbol symbols step =>
    obtain ⟨here, later⟩ := List.forall_mem_cons.mp legible
    rw [spelled_cons, List.flatMap_cons]
    exact (shows_spelling here).append (step later) (spelled_ends symbols)

theorem Reads.found (reads : Reads text formula) :
    Scanner.references? text = some (formula.leaves.flatMap Statement.references) := by
  obtain ⟨symbols, same, derives⟩ := reads
  have shows := shows_spelled derives.legible
  rw [← same, derives.references] at shows
  exact shows.found

end TraversalPlanner.Expression
