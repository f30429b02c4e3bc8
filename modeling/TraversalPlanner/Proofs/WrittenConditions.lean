import TraversalPlanner.Proofs.ConditionGrammar

/-! Conditions between tagged elements, as they are written and as they are read. A comparison stands behind the
properties that its operands have to have. The operands take turns with the keys; the start always has the first. Only
right operands are put into parentheses, so a condition can be read as another one than is meant: as one that holds
more often, namely if a conjunction has a disjunction on the left edge of its left operand. -/

namespace TraversalPlanner

open Proofs

/-- From left to right. -/
def TagCondition.leaves : TagCondition → List (Comparator × String)
  | .compare comparator tag => [(comparator, tag)]
  | .and left right => left.leaves ++ right.leaves
  | .or left right => left.leaves ++ right.leaves

namespace Expression

variable {start : Option String} {condition : TagCondition} {keys : List (Option String)} {left right : Variable}
  {comparator : Comparator}

/-- All names are made of the characters that a scan takes for them. -/
structure Named (start : Option String) (condition : TagCondition) (keys : List (Option String)) : Prop where
  start : ∀ tag ∈ start, Word isTagCharacter tag
  tags : ∀ leaf ∈ condition.leaves, Word isTagCharacter leaf.2
  keys : ∀ key ∈ keys, ∀ name ∈ key, Word isPropertyCharacter name

/-! A single comparison. -/

/-- Those of two operands that have to have a property. -/
def qualified (left right : Variable) : List Variable := [left, right].filter fun operand => operand.property.isSome

/-- Statements in front of a last one, the nearest of them first. -/
def conjoined : List Statement → Statement → Formula Statement
  | [], statement => .leaf statement
  | nearest :: others, statement => .and (conjoined others nearest) (.leaf statement)

theorem holds_conjoined (truth : Statement → Bool) (front : List Statement) (statement : Statement) :
    (conjoined front statement).holds truth = (front.all truth && truth statement) := by
  induction front generalizing statement with
  | nil => rfl
  | cons nearest others step => rw [conjoined, Formula.holds, step, Bool.and_comm (others.all truth), List.all_cons]; rfl

theorem leaves_conjoined (front : List Statement) (statement : Statement) :
    (conjoined front statement).leaves = front.reverse ++ [statement] := by
  induction front generalizing statement with
  | nil => rfl
  | cons nearest others step => rw [conjoined, Formula.leaves, step, List.reverse_cons]; rfl

theorem reads_conjoined {front : List Statement} {statement : Statement}
    (legible : ∀ part ∈ statement :: front, ∀ reference ∈ part.references, Legible reference) :
    ReadsAt .conjunction (conjunction ((front.reverse ++ [statement]).map Statement.render)).toList (conjoined front statement) := by
  obtain ⟨last, others⟩ := List.forall_mem_cons.mp legible
  induction front generalizing statement with
  | nil =>
    rw [List.reverse_nil, List.nil_append, List.map_singleton, conjunction, String.intercalate_singleton]
    exact (ReadsAt.states last).single
  | cons nearest front step =>
    have here := step others (others nearest List.mem_cons_self) (List.forall_mem_cons.mp others).2
    have written : (conjunction (((nearest :: front).reverse ++ [statement]).map Statement.render)).toList =
        (conjunction ((front.reverse ++ [nearest]).map Statement.render)).toList ++ (" && ".toList ++ statement.render.toList) := by
      rw [List.map_append, List.reverse_cons, List.map_singleton, conjunction, toList_intercalate_concat _ (by simp), conjunction]
    rw [written]
    exact here.and (.states last)

/-- A comparison behind what has to be there for it. -/
def guardedFormula (left : Variable) (comparand : Comparator × Variable) : Formula Statement :=
  conjoined ((qualified left comparand.2).map Statement.present).reverse (.compared left comparand.1 comparand.2)

theorem guarded_eq (left : Variable) (comparator : Comparator) (right : Variable) : guarded left comparator right =
    conjunction (((qualified left right).map Statement.present ++ [Statement.compared left comparator right]).map Statement.render) := by
  unfold guarded qualified
  cases first : left.property.isSome <;> cases second : right.property.isSome <;> simp [first, second, Statement.render]

theorem reads_guarded (legible : Legible left) (also : Legible right) (comparator : Comparator) :
    ReadsAt .conjunction (guarded left comparator right).toList (guardedFormula left (comparator, right)) := by
  have operands : ∀ operand ∈ qualified left right, Legible operand := by
    intro operand member
    have among := List.mem_of_mem_filter member
    simp only [List.mem_cons, List.not_mem_nil, or_false] at among
    rcases among with rfl | rfl
    · exact legible
    · exact also
  have parts : ∀ part ∈ Statement.compared left comparator right :: ((qualified left right).map Statement.present).reverse,
      ∀ reference ∈ part.references, Legible reference := by
    refine List.forall_mem_cons.mpr ⟨by simp [Statement.references, legible, also], fun part member => ?_⟩
    obtain ⟨operand, inside, rfl⟩ := List.mem_map.mp (List.mem_reverse.mp member)
    exact List.forall_mem_singleton.mpr (operands operand inside)
  have read := reads_conjoined parts
  rwa [List.reverse_reverse, ← guarded_eq] at read

/-! Operands. -/

theorem legible_operand {tag key : Option String} (tagged : ∀ name ∈ tag, Word isTagCharacter name)
    (keyed : ∀ name ∈ key, Word isPropertyCharacter name) : Legible (operand tag key) where
  tag := by
    intro identifier member
    obtain ⟨name, found, rfl⟩ := Option.map_eq_some_iff.mp member
    exact ⟨name, rfl, tagged name found⟩
  property := by
    intro property member
    obtain ⟨name, found, rfl⟩ := Option.map_eq_some_iff.mp member
    exact ⟨name, rfl, keyed name found⟩

theorem word_turn (words : ∀ key ∈ keys, ∀ name ∈ key, Word isPropertyCharacter name) (index : Nat) :
    ∀ name ∈ turn keys index, Word isPropertyCharacter name := by
  intro name taken
  have found : keys[index % keys.length]? = some (some name) := Option.join_eq_some_iff.mp taken
  exact words _ (List.mem_of_getElem? found) name rfl

/-- The condition with the operands at its leaves, the first of which is operand number `index`. -/
def resolved (keys : List (Option String)) : TagCondition → Nat → Formula (Comparator × Variable)
  | .compare comparator tag, index => .leaf (comparator, operand (some tag) (turn keys index))
  | .and left right, index => .and (resolved keys left index) (resolved keys right (index + left.leaves.length))
  | .or left right, index => .or (resolved keys left index) (resolved keys right (index + left.leaves.length))

/-- What the start is compared with at the leaves, and how: the keys are taken round and round from the second on. -/
def comparands (keys : List (Option String)) (condition : TagCondition) (first : Nat) : List (Comparator × Variable) :=
  (condition.leaves.zipIdx first).map fun ((comparator, tag), number) =>
    (comparator, { tag := some (.name tag), property := (keys[number % keys.length]?).join.map Property.ofName })

theorem leaves_resolved (keys : List (Option String)) (condition : TagCondition) (index : Nat) :
    (resolved keys condition index).leaves = comparands keys condition index := by
  induction condition generalizing index with
  | compare => rfl
  | and left right first second =>
    rw [resolved, Formula.leaves, first, second, comparands, comparands, comparands, TagCondition.leaves, List.zipIdx_append,
      List.map_append]
  | or left right first second =>
    rw [resolved, Formula.leaves, first, second, comparands, comparands, comparands, TagCondition.leaves, List.zipIdx_append,
      List.map_append]

/-- The counter goes on by one at each leaf. -/
theorem ofTagCondition_next (left : Variable) (keys : List (Option String)) (condition : TagCondition) (index : Nat) :
    (ofTagCondition left keys condition index).2 = index + condition.leaves.length := by
  induction condition generalizing index with
  | compare => rfl
  | and left right first second =>
    rw [ofTagCondition, TagCondition.leaves, List.length_append]
    simp only [first, second]
    exact Nat.add_assoc ..
  | or left right first second =>
    rw [ofTagCondition, TagCondition.leaves, List.length_append]
    simp only [first, second]
    exact Nat.add_assoc ..

/-! The whole condition. -/

theorem joined_bind {α β : Type} (replace : α → Formula β) (parts : Option (Formula α) × Formula α) :
    Formula.joined (parts.1.map (Formula.bind replace), parts.2.bind replace) = (Formula.joined parts).bind replace := by
  obtain ⟨_ | before, last⟩ := parts <;> rfl

theorem reads_ofTagCondition (legible : Legible left) (words : ∀ key ∈ keys, ∀ name ∈ key, Word isPropertyCharacter name)
    (tags : ∀ leaf ∈ condition.leaves, Word isTagCharacter leaf.2) (index : Nat) :
    ReadsParts (ofTagCondition left keys condition index).1.toList
      ((resolved keys condition index).parts.1.map (Formula.bind (guardedFormula left)),
        (resolved keys condition index).parts.2.bind (guardedFormula left)) := by
  -- The parts are kept apart: what is written behind a left operand may still go to its last disjunct.
  induction condition generalizing index with
  | compare comparator tag =>
    have tagged : ∀ name ∈ some tag, Word isTagCharacter name := by
      rintro _ ⟨⟩
      exact tags _ List.mem_cons_self
    exact .sole (reads_guarded legible (legible_operand tagged (word_turn words index)) comparator)
  | and first second front behind =>
    obtain ⟨here, there⟩ := List.forall_mem_append.mp tags
    have group := (behind there (index + first.leaves.length)).joined.group
    rw [joined_bind] at group
    have both := (front here index).and group
    have written : (ofTagCondition left keys (.and first second) index).1.toList =
        (ofTagCondition left keys first index).1.toList ++ (" && ".toList ++
          '(' :: ((ofTagCondition left keys second (index + first.leaves.length)).1.toList ++ [')'])) := by
      simp [ofTagCondition, ofTagCondition_next]
    rw [written]
    exact both
  | or first second front behind =>
    obtain ⟨here, there⟩ := List.forall_mem_append.mp tags
    have before := (front here index).joined
    have group := (behind there (index + first.leaves.length)).joined.group
    rw [joined_bind] at before group
    have written : (ofTagCondition left keys (.or first second) index).1.toList =
        (ofTagCondition left keys first index).1.toList ++ (" || ".toList ++
          '(' :: ((ofTagCondition left keys second (index + first.leaves.length)).1.toList ++ [')'])) := by
      simp [ofTagCondition, ofTagCondition_next]
    rw [written]
    exact .behind before group.single

/-- The operand on the left of all comparisons has the first key. -/
def startOperand (start : Option String) (keys : List (Option String)) : Variable :=
  { tag := start.map .name, property := keys[0]?.join.map Property.ofName }

theorem startOperand_eq (start : Option String) (keys : List (Option String)) :
    operand start (turn keys 0) = startOperand start keys := by
  rw [turn, Nat.zero_mod]
  rfl

theorem Named.legible_start (named : Named start condition keys) : Legible (startOperand start keys) :=
  startOperand_eq start keys ▸ legible_operand named.start (word_turn named.keys 0)

theorem reads_ofWhere (named : Named start condition keys) : Reads (ofWhere start condition keys)
    ((resolved keys condition 1).regrouped.bind (guardedFormula (startOperand start keys))) := by
  rw [Reads, ofWhere, startOperand_eq, Formula.regrouped, ← joined_bind]
  exact (reads_ofTagCondition named.legible_start named.keys named.tags 1).joined

theorem leaves_guardedFormula (left : Variable) (comparand : Comparator × Variable) :
    (guardedFormula left comparand).leaves =
      (qualified left comparand.2).map Statement.present ++ [Statement.compared left comparand.1 comparand.2] := by
  rw [guardedFormula, leaves_conjoined, List.reverse_reverse]

theorem references_guardedFormula (left : Variable) (comparand : Comparator × Variable) :
    (guardedFormula left comparand).leaves.flatMap Statement.references = qualified left comparand.2 ++ [left, comparand.2] := by
  simp [leaves_guardedFormula, Statement.references, List.flatMap_map]

theorem comparisons_guardedFormula (left : Variable) (comparand : Comparator × Variable) :
    (guardedFormula left comparand).leaves.filterMap Statement.comparison? = [(left, comparand.1, comparand.2)] := by
  simp [leaves_guardedFormula, Statement.comparison?]

/-- The start and the tags take turns with the keys: the start has the first, and leaf number `i` the one at `i`,
counted round and round. -/
theorem operands_take_turns (named : Named start condition keys) :
    let left := startOperand start keys
    let leaves := comparands keys condition 1
    Scanner.references? (ofWhere start condition keys) =
        some (leaves.flatMap fun (_, right) => qualified left right ++ [left, right]) ∧
      ∃ formula, (∀ other, Reads (ofWhere start condition keys) other ↔ other = formula) ∧
        formula.leaves.filterMap Statement.comparison? = leaves.map fun (comparator, right) => (left, comparator, right) := by
  intro left leaves
  have reads := reads_ofWhere named
  refine ⟨?_, _, fun other => ⟨fun again => again.unique reads, fun same => same ▸ reads⟩, ?_⟩
  · rw [reads.found, Formula.leaves_bind, Formula.leaves_regrouped, leaves_resolved, List.flatMap_assoc]
    simp only [references_guardedFormula]
    rfl
  · rw [Formula.leaves_bind, Formula.leaves_regrouped, leaves_resolved, List.filterMap_flatMap]
    simp only [comparisons_guardedFormula]
    exact List.map_eq_flatMap.symm

def alternating : TagCondition :=
  .or (.and (.compare .eq "b") (.compare .gt "c")) (.and (.compare .neq "d") (.or (.compare .lt "e") (.compare .eq "b")))

theorem alternating_named : Named (some "a") alternating [some "age", none, some "~id"] :=
  ⟨by decide, by decide, by decide⟩

theorem alternating_take_turns :
    let text := ofWhere (some "a") alternating [some "age", none, some "~id"]
    let age := Variable.ofTagKey (.name "a") "age"
    let others : List Variable := [.ofTag (.name "b"), .ofTagKey (.name "c") "~id", .ofTagKey (.name "d") "age",
      .ofTag (.name "e"), .ofTagKey (.name "b") "~id"]
    Named (some "a") alternating [some "age", none, some "~id"] ∧
      Scanner.references? text = some (others.flatMap fun right => qualified age right ++ [age, right]) :=
  ⟨alternating_named, (operands_take_turns alternating_named).1⟩

/-- What a comparison stands for: its operands have the properties that they are compared by, and it holds. -/
def said (truth : Statement → Bool) (left : Variable) (comparand : Comparator × Variable) : Bool :=
  ((qualified left comparand.2).all fun operand => truth (.present operand)) &&
    truth (.compared left comparand.1 comparand.2)

theorem holds_guardedFormula (truth : Statement → Bool) (left : Variable) (comparand : Comparator × Variable) :
    (guardedFormula left comparand).holds truth = said truth left comparand := by
  rw [guardedFormula, holds_conjoined, List.all_reverse, List.all_map]
  rfl

/-- Properties are there, and comparisons turn out as told. -/
def granted (value : Comparator × Variable → Bool) : Statement → Bool
  | .present _ => true
  | .compared _ comparator right => value (comparator, right)

theorem said_granted (value : Comparator × Variable → Bool) (left : Variable) : said (granted value) left = value := by
  funext comparand
  simp [said, granted]

/-- A condition has one reading, which holds wherever the condition is meant to. Both hold of the same if no
conjunction has a disjunction on the left edge of its left operand; if one has, and no comparison is made twice, they
do not. -/
theorem where_condition_read (named : Named start condition keys) :
    let left := startOperand start keys
    let meant := resolved keys condition 1
    ∃ formula, (∀ other, Reads (ofWhere start condition keys) other ↔ other = formula) ∧
      (∀ truth, meant.holds (said truth left) = true → formula.holds truth = true) ∧
      (meant.straight = true → ∀ truth, formula.holds truth = meant.holds (said truth left)) ∧
      (meant.straight = false → meant.leaves.Nodup →
        ∃ truth, formula.holds truth = true ∧ meant.holds (said truth left) = false) := by
  intro left meant
  have reads := reads_ofWhere named
  have told (truth : Statement → Bool) : (meant.regrouped.bind (guardedFormula left)).holds truth =
      meant.regrouped.holds (said truth left) := by
    rw [Formula.holds_bind]
    exact congrArg (Formula.holds · _) (funext (holds_guardedFormula truth left))
  refine ⟨_, fun other => ⟨fun again => again.unique reads, fun same => same ▸ reads⟩, fun truth holds => ?_,
    fun straight truth => ?_, fun bent distinct => ?_⟩
  · rw [told]
    exact Formula.regrouped_of_holds holds
  · rw [told, Formula.regrouped_of_straight straight]
  · obtain ⟨value, passes, fails⟩ := Formula.exists_apart distinct bent
    have same := said_granted value left
    exact ⟨granted value, by rw [told, same, passes], by rw [same, fails]⟩

theorem alternating_read_as_meant :
    let keys := [some "age", none, some "~id"]
    Named (some "a") alternating keys ∧ (resolved keys alternating 1).straight = true ∧
      ∃ formula, Reads (ofWhere (some "a") alternating keys) formula ∧ ∀ truth, formula.holds truth =
        (resolved keys alternating 1).holds (said truth (.ofTagKey (.name "a") "age")) := by
  obtain ⟨formula, reads, _, same, _⟩ := where_condition_read alternating_named
  exact ⟨alternating_named, rfl, formula, (reads formula).mpr rfl, same rfl⟩

/-- One of two, and a third in any case. -/
def forked : TagCondition := .and (.or (.compare .eq "b") (.compare .eq "c")) (.compare .eq "d")

/-- The third is only asked for next to the second. -/
theorem forked_misread : ofWhere (some "a") forked [] = "@a == @b || (@a == @c) && (@a == @d)" ∧
    ¬∃ formula, Reads (ofWhere (some "a") forked []) formula ∧
      ∀ truth, formula.holds truth = (resolved [] forked 1).holds (said truth (.ofTag (.name "a"))) := by
  refine ⟨by decide, fun ⟨formula, reads, same⟩ => ?_⟩
  have named : Named (some "a") forked [] := ⟨by decide, by decide, nofun⟩
  cases reads.unique (reads_ofWhere named)
  have differs := same fun statement => statement = .compared (.ofTag (.name "a")) .eq (.ofTag (.name "b"))
  exact absurd differs (by decide)

end Expression

end TraversalPlanner
