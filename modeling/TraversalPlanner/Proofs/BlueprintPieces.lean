import TraversalPlanner.Proofs.Blueprints

/-! Blueprints taken apart. The blueprint of operators holds that of each operator in them, however deep it is nested,
as one piece. What is behind such a piece goes on from its end or from before its beginning, so the places of a
sub-plan, which begins without a parent, are under each other only and no other places are under them. -/

namespace TraversalPlanner

namespace Operator

variable {operators branch rest : List Operator} {operator host : Operator} {branches front back : List (List Operator)}
  {start place low high : Nat} {parent under : Int} {first second berths : List Berth}

/-- Operators that are put under a parent when the next node gets the number `start` put an operator that is one of
them, or is nested in one, under another parent when the next node gets another number. -/
inductive Puts : List Operator → Nat → Int → Operator → Nat → Int → Prop
  | here {operator : Operator} {rest : List Operator} {start : Nat} {parent : Int} :
      Puts (operator :: rest) start parent operator start parent
  | later {first operator : Operator} {rest : List Operator} {start place : Nat} {parent under : Int}
      (puts : Puts rest (start + first.nodeCount) (((start + first.nodeCount : Nat) : Int) - 1) operator place under) :
      Puts (first :: rest) start parent operator place under
  | inner {host operator : Operator} {branch rest : List Operator} {front back : List (List Operator)} {start place : Nat}
      {parent under : Int} (inside : host.inner = front ++ branch :: back)
      (puts : Puts branch (start + nodeCountEach front) (host.innerParent parent) operator place under) :
      Puts (host :: rest) start parent operator place under

private def PutsAll (start : Nat) (parent : Int) (operators : List Operator) : Prop :=
  ∀ operator : Operator, operator.Among operators → ∃ place under, Puts operators start parent operator place under

private def PutsEach (start : Nat) (parent : Int) (branches : List (List Operator)) : Prop :=
  ∀ front branch back, branches = front ++ branch :: back → PutsAll (start + nodeCountEach front) parent branch

private theorem putsAll : (∀ start parent operators, PutsAll start parent operators) ∧
    ∀ start parent branches, PutsEach start parent branches := by
  refine blueprint_induction PutsAll PutsEach ?_ ?_ ?_ ?_
  · intro _ _ operator among
    exact absurd among (not_among_nil operator)
  · intro start parent host rest inside later operator among
    rcases among_iff.mp among with rfl | ⟨branch, nested, among⟩ | among
    · exact ⟨start, parent, .here⟩
    · obtain ⟨front, back, same⟩ := List.append_of_mem nested
      obtain ⟨place, under, puts⟩ := inside front branch back same operator among
      exact ⟨place, under, .inner same puts⟩
    · obtain ⟨place, under, puts⟩ := later operator among
      exact ⟨place, under, .later puts⟩
  · intro _ _ front branch back none
    cases front <;> cases none
  · intro start parent first rest here later front branch back same
    cases front with
    | nil =>
      cases same
      exact here
    | cons other front =>
      cases same
      have placed := later front branch back rfl
      rwa [Nat.add_assoc] at placed

/-- Every operator is put somewhere. -/
theorem exists_puts (among : operator.Among operators) (start : Nat) (parent : Int) :
    ∃ place under, Puts operators start parent operator place under :=
  putsAll.1 start parent operators operator among

theorem Puts.trans {inside : Operator} {spot : Nat} {link : Int} (puts : Puts operators start parent host place under)
    (within : host.inner = front ++ branch :: back)
    (further : Puts branch (place + nodeCountEach front) (host.innerParent under) inside spot link) :
    Puts operators start parent inside spot link := by
  induction puts with
  | here => exact .inner within further
  | later _ step => exact .later (step within further)
  | inner same _ step => exact .inner same (step within further)

/-! Which nodes the places are under. -/

theorem unlinked_inner (unlinked : operator.Unlinked) : UnlinkedBranches operator.inner := by
  rcases operator.bare_or_branching with bare | ⟨sub, subRoot, join, tag, rfl⟩ | ⟨branches, parents, tag, rfl⟩
  · rw [inner_of_bare bare]
    trivial
  · exact ⟨unlinked.2, trivial⟩
  · exact unlinked.2

theorem lastNodes_append (front back : List (List Operator)) (start : Nat) (parent : Int) :
    lastNodes start parent (front ++ back) =
      lastNodes start parent front ++ lastNodes (start + nodeCountEach front) parent back := by
  induction front generalizing start with
  | nil => rfl
  | cons branch rest step =>
    rw [List.cons_append, lastNodes, step, lastNodes, List.cons_append, nodeCountEach, Nat.add_assoc]

theorem innerCount_lt_nodeCount (operator : Operator) : operator.innerCount < operator.nodeCount := by
  have own := operator.ownCount_pos
  have total := operator.nodeCount_eq
  omega

theorem lastNode_within (start : Nat) (parent : Int) (operators : List Operator) :
    lastNode start parent operators = parent ∨
      (start : Int) ≤ lastNode start parent operators ∧
        lastNode start parent operators = ((start + nodeCountAll operators : Nat) : Int) - 1 := by
  cases operators with
  | nil => exact .inl rfl
  | cons first rest =>
    have some := innerCount_lt_nodeCount first
    have total : nodeCountAll (first :: rest) = nodeCount first + nodeCountAll rest := rfl
    refine .inr ⟨?_, rfl⟩
    rw [lastNode]
    omega

theorem lastNodes_within {node : Int} (listed : node ∈ lastNodes start parent branches) :
    node = parent ∨ (start : Int) ≤ node ∧ node < (start + nodeCountEach branches : Nat) := by
  induction branches generalizing start with
  | nil => cases listed
  | cons branch rest step =>
    rw [nodeCountEach]
    rcases List.mem_cons.mp listed with rfl | later
    · rcases lastNode_within start parent branch with same | ⟨behind, same⟩
      · exact .inl same
      · omega
    · have within := step later
      omega

/-- An operator's own place is under the node before it or, with the branches of a union, behind them. -/
theorem mem_parentsAt {id : Nat} (unlinked : operator.Unlinked)
    (member : id ∈ operator.parentsAt (operator.linksAt start parent) parent) :
    (id : Int) = parent ∨ operator.kind = .union ∧ (id : Int) ∈ lastNodes start parent operator.inner := by
  obtain ⟨args, tag⟩ := operator
  cases args with
  | union branches parents =>
    cases branches with
    | some branches =>
      obtain ⟨node, listed, same⟩ := List.mem_filterMap.mp member
      rw [Int.mem_toNat?] at same
      exact .inr ⟨rfl, same ▸ listed⟩
    | none =>
      cases unlinked
      cases member
  | _ =>
    left
    exact (Int.mem_toNat?.mp (Option.mem_toList.mp member)).symm

/-- An operator has one place of its own and maybe another, for its name, under it. -/
theorem ownBerths_parents {index : Nat} {berth : Berth} (found : (operator.ownBerths start parent)[index]? = some berth) :
    index = 0 ∧ berth.parents = operator.parentsAt (operator.linksAt start parent) parent ∨
      0 < index ∧ berth.parents = [start + operator.innerCount] := by
  cases index with
  | zero =>
    cases found
    exact .inl ⟨rfl, rfl⟩
  | succ index =>
    have behind : berth ∈ operator.trailing.toList.map fun tag => Berth.name tag (start + operator.innerCount) :=
      List.mem_of_getElem? (by exact found)
    obtain ⟨tag, _, rfl⟩ := List.mem_map.mp behind
    exact .inr ⟨Nat.succ_pos index, rfl⟩

/-- All places are under the given parent or under earlier ones among them. -/
def Grounded (start : Nat) (parent : Int) (berths : List Berth) : Prop :=
  ∀ (index : Nat) berth, berths[index]? = some berth →
    ∀ id ∈ berth.parents, (id : Int) = parent ∨ start ≤ id ∧ id < start + index

theorem Grounded.append (one : Grounded start parent first)
    (two : ∀ (index : Nat) berth, second[index]? = some berth → ∀ id ∈ berth.parents,
      (id : Int) = parent ∨ start ≤ id ∧ id < start + first.length + index) : Grounded start parent (first ++ second) := by
  intro index berth found id member
  rw [List.getElem?_append] at found
  split at found
  · exact one index berth found id member
  · have under := two _ berth found id member
    omega

/-- What goes on from an earlier place. -/
theorem Grounded.onward (link : Int) (one : Grounded start parent first) (two : Grounded (start + first.length) link second)
    (linked : link = parent ∨ (start : Int) ≤ link ∧ link < (start + first.length : Nat)) :
    Grounded start parent (first ++ second) := by
  refine one.append fun index berth found id member => ?_
  have under := two index berth found id member
  omega

theorem Grounded.detached (grounded : Grounded start (-1) berths) (parent : Int) : Grounded start parent berths := by
  intro index berth found id member
  have under := grounded index berth found id member
  omega

private def GroundedAll (start : Nat) (parent : Int) (operators : List Operator) : Prop :=
  UnlinkedAll operators → Grounded start parent (blueprint start parent operators)

private def GroundedEach (start : Nat) (parent : Int) (branches : List (List Operator)) : Prop :=
  UnlinkedBranches branches → Grounded start parent (blueprintEach start parent branches)

theorem innerParent_of_union (union : operator.kind = .union) (parent : Int) : operator.innerParent parent = parent := by
  obtain ⟨args, tag⟩ := operator
  cases args with
  | union => rfl
  | _ => cases union

theorem innerParent_of_single (single : operator.kind ≠ .union) (parent : Int) : operator.innerParent parent = -1 := by
  obtain ⟨args, tag⟩ := operator
  cases args with
  | union => exact absurd rfl single
  | _ => rfl

theorem innerParent_cases (operator : Operator) (parent : Int) :
    operator.innerParent parent = parent ∨ operator.innerParent parent = -1 := by
  by_cases union : operator.kind = .union
  · exact .inl (innerParent_of_union union parent)
  · exact .inr (innerParent_of_single union parent)

private theorem grounded_of_inner (unlinked : operator.Unlinked)
    (inside : Grounded start (operator.innerParent parent)
      (blueprintEach start (operator.innerParent parent) operator.inner)) :
    Grounded start parent (blueprintOf start parent operator) := by
  rw [blueprintOf_eq]
  have within : Grounded start parent (blueprintEach start (operator.innerParent parent) operator.inner) := by
    rcases innerParent_cases operator parent with same | same
    · rwa [same] at inside ⊢
    · rw [same] at inside ⊢
      exact inside.detached parent
  refine within.append fun index berth found id member => ?_
  rw [length_blueprintEach]
  rcases ownBerths_parents found with ⟨_, same⟩ | ⟨behind, same⟩
  · rw [same] at member
    rcases mem_parentsAt unlinked member with under | ⟨_, listed⟩
    · exact .inl under
    · rcases lastNodes_within listed with under | inside
      · exact .inl under
      · omega
  · rw [same, List.mem_singleton] at member
    rw [member, innerCount]
    omega

private theorem groundedAll : (∀ start parent operators, GroundedAll start parent operators) ∧
    ∀ start parent branches, GroundedEach start parent branches := by
  refine blueprint_induction GroundedAll GroundedEach ?_ ?_ ?_ ?_
  · intro _ _ _ _ _ found
    cases found
  · intro start parent operator rest inside later unlinked
    have here := grounded_of_inner unlinked.1 (inside (unlinked_inner unlinked.1))
    refine here.onward (((start + operator.nodeCount : Nat) : Int) - 1) ?_ ?_
    · rw [length_blueprintOf]
      exact later unlinked.2
    · rw [length_blueprintOf]
      have some := innerCount_lt_nodeCount operator
      omega
  · intro _ _ _ _ _ found
    cases found
  · intro start parent branch rest here later unlinked
    refine (here unlinked.1).onward parent ?_ (.inl rfl)
    rw [length_blueprint]
    exact later unlinked.2

theorem grounded_blueprint (unlinked : UnlinkedAll operators) (start : Nat) (parent : Int) :
    Grounded start parent (blueprint start parent operators) := groundedAll.1 start parent operators unlinked

theorem grounded_blueprintEach (unlinked : UnlinkedBranches branches) (start : Nat) (parent : Int) :
    Grounded start parent (blueprintEach start parent branches) := groundedAll.2 start parent branches unlinked

/-! What goes on elsewhere. -/

/-- None of the places is under a node in a range. -/
def Avoids (low high : Nat) (berths : List Berth) : Prop := ∀ berth ∈ berths, ∀ id ∈ berth.parents, id < low ∨ high ≤ id

theorem Avoids.append (one : Avoids low high first) (two : Avoids low high second) : Avoids low high (first ++ second) := by
  intro berth member
  rcases List.mem_append.mp member with here | later
  · exact one berth here
  · exact two berth later

theorem Grounded.avoids (grounded : Grounded start parent berths) (behind : high ≤ start)
    (apart : parent < low ∨ high ≤ parent) : Avoids low high berths := by
  intro berth member id under
  obtain ⟨index, found⟩ := List.mem_iff_getElem?.mp member
  have ground := grounded index berth found id under
  omega

theorem ownBerths_avoids (unlinked : operator.Unlinked) (behind : high ≤ start + operator.innerCount) (before : parent < low)
    (joined : operator.kind = .union → ∀ node ∈ lastNodes start parent operator.inner, node < low ∨ high ≤ node) :
    Avoids low high (operator.ownBerths start parent) := by
  intro berth member id under
  obtain ⟨index, found⟩ := List.mem_iff_getElem?.mp member
  rcases ownBerths_parents found with ⟨_, same⟩ | ⟨_, same⟩
  · rw [same] at under
    rcases mem_parentsAt unlinked under with here | ⟨union, listed⟩
    · omega
    · have apart := joined union _ listed
      omega
  · rw [same, List.mem_singleton] at under
    omega

/-- The last nodes of branches are not among those that are not last in one of them. -/
theorem lastNodes_avoid (before : parent < low) (behind : start + nodeCountEach front ≤ low)
    (inside : high < start + nodeCountEach front + nodeCountAll branch) :
    ∀ node ∈ lastNodes start parent (front ++ branch :: back), node < low ∨ high ≤ node := by
  intro node listed
  rw [lastNodes_append, List.mem_append] at listed
  rcases listed with earlier | later
  · have within := lastNodes_within earlier
    omega
  rcases List.mem_cons.mp later with rfl | further
  · have within := lastNode_within (start + nodeCountEach front) parent branch
    omega
  · have within := lastNodes_within further
    omega

theorem unlinkedBranches_append (front : List (List Operator)) {back : List (List Operator)}
    (unlinked : UnlinkedBranches (front ++ back)) : UnlinkedBranches back := by
  induction front with
  | nil => exact unlinked
  | cons _ _ step => exact step unlinked.2

theorem blueprintEach_append (front back : List (List Operator)) (start : Nat) (parent : Int) :
    blueprintEach start parent (front ++ back) =
      blueprintEach start parent front ++ blueprintEach (start + nodeCountEach front) parent back := by
  induction front generalizing start with
  | nil => rfl
  | cons branch rest step =>
    rw [List.cons_append, blueprintEach, step, blueprintEach, List.append_assoc, nodeCountEach, Nat.add_assoc]

/-- The blueprint of an operator as a piece of a larger one. It is under a node before it, and nothing behind it is under
the nodes of what is inside the operator. -/
structure Piece (whole : List Berth) (start : Nat) (operator : Operator) (place : Nat) (under : Int)
    (ahead behind : List Berth) : Prop where
  split : whole = ahead ++ blueprintOf place under operator ++ behind
  begins : place = start + ahead.length
  earlier : under < place
  unlinked : operator.Unlinked
  apart : Avoids place (place + operator.innerCount) behind

theorem Piece.extend {whole ahead behind : List Berth}
    (piece : Piece whole (start + ahead.length) operator place under first second)
    (apart : Avoids place (place + operator.innerCount) behind) :
    Piece (ahead ++ whole ++ behind) start operator place under (ahead ++ first) (second ++ behind) where
  split := by simp only [piece.split, List.append_assoc]
  begins := by rw [piece.begins, List.length_append, Nat.add_assoc]
  earlier := piece.earlier
  unlinked := piece.unlinked
  apart := piece.apart.append apart

theorem Piece.within {whole : List Berth} (piece : Piece whole start operator place under first second) :
    start ≤ place ∧ place + operator.nodeCount ≤ start + whole.length := by
  have begins := piece.begins
  rw [piece.split, List.length_append, List.length_append, length_blueprintOf]
  omega

/-- The places behind those of a branch that ends somewhere: of the branches after it, its host's own, and of the rest. -/
def behindBranch (host : Operator) (rest : List Operator) (start : Nat) (parent : Int) (ends : Nat)
    (back : List (List Operator)) : List Berth :=
  blueprintEach ends (host.innerParent parent) back ++ host.ownBerths start parent ++
    blueprint (start + host.nodeCount) (((start + host.nodeCount : Nat) : Int) - 1) rest

theorem blueprint_split (inside : host.inner = front ++ branch :: back) : blueprint start parent (host :: rest) =
    blueprintEach start (host.innerParent parent) front ++
      blueprint (start + nodeCountEach front) (host.innerParent parent) branch ++
      host.behindBranch rest start parent (start + nodeCountEach front + nodeCountAll branch) back := by
  simp only [blueprint, blueprintOf_eq, inside, blueprintEach_append, blueprintEach, behindBranch, List.append_assoc]

/-- What is behind a branch goes on from the branch's end or from before its beginning. -/
theorem behindBranch_avoids (unlinked : host.Unlinked) (later : UnlinkedAll rest) (before : parent < start)
    (inside : host.inner = front ++ branch :: back) (begins : start + nodeCountEach front ≤ low)
    (ends : high < start + nodeCountEach front + nodeCountAll branch) :
    Avoids low high
      (host.behindBranch rest start parent (start + nodeCountEach front + nodeCountAll branch) back) := by
  have each : UnlinkedBranches (front ++ branch :: back) := inside ▸ unlinked_inner unlinked
  have others : UnlinkedBranches back := (unlinkedBranches_append front each).2
  have count : host.innerCount = nodeCountEach front + (nodeCountAll branch + nodeCountEach back) := by
    rw [innerCount, inside, nodeCountEach_append, nodeCountEach]
  have own := innerCount_lt_nodeCount host
  have parents := innerParent_cases host parent
  refine .append (.append ?_ ?_) ?_
  · exact (grounded_blueprintEach others _ _).avoids (Nat.le_of_lt ends) (by omega)
  · refine ownBerths_avoids unlinked (by omega) (by omega) fun _ => ?_
    rw [inside]
    exact lastNodes_avoid (by omega) begins ends
  · exact (grounded_blueprint later _ _).avoids (by omega) (by omega)

/-- Where an operator is put there is its piece of the blueprint. -/
theorem Puts.piece (puts : Puts operators start parent operator place under) (unlinked : UnlinkedAll operators)
    (before : parent < start) :
    ∃ ahead behind, Piece (blueprint start parent operators) start operator place under ahead behind := by
  induction puts with
  | @here operator rest start parent =>
    have own := innerCount_lt_nodeCount operator
    exact ⟨[], _, rfl, rfl, before, unlinked.1, (grounded_blueprint unlinked.2 _ _).avoids (by omega) (by omega)⟩
  | @later first operator rest start place parent under puts step =>
    obtain ⟨ahead, behind, piece⟩ := step unlinked.2 (by omega)
    have extended : Piece (blueprintOf start parent first ++ _ ++ []) start operator place under _ _ :=
      .extend (by rwa [length_blueprintOf]) fun _ none => absurd none List.not_mem_nil
    rw [List.append_nil] at extended
    exact ⟨_, _, extended⟩
  | @inner host operator branch rest front back start place parent under inside puts step =>
    have each : UnlinkedBranches (front ++ branch :: back) := inside ▸ unlinked_inner unlinked.1
    have parents := innerParent_cases host parent
    obtain ⟨ahead, behind, piece⟩ := step (unlinkedBranches_append front each).1 (by omega)
    -- The branch has at least one place that is not inside the operator, so its last node is not.
    have within := piece.within
    have own := innerCount_lt_nodeCount operator
    rw [length_blueprint] at within
    have apart := behindBranch_avoids unlinked.1 unlinked.2 before inside within.1
      (show place + operator.innerCount < _ by omega)
    have extended : Piece (blueprintEach start (host.innerParent parent) front ++ _ ++ _) start operator place under _ _ :=
      .extend (by rwa [length_blueprintEach]) apart
    rw [blueprint_split inside]
    exact ⟨_, _, extended⟩

/-- Places inside an operator without branches are only under each other, and no others are under them. -/
theorem Piece.closed {whole ahead behind : List Berth} (piece : Piece whole start operator place under ahead behind)
    (grounded : Grounded start parent whole) (before : parent < start) (single : operator.kind ≠ .union) {index id : Nat}
    {berth : Berth} (found : whole[index]? = some berth) (member : id ∈ berth.parents) :
    place ≤ id ∧ id < place + operator.innerCount ↔ place ≤ start + index ∧ start + index < place + operator.innerCount := by
  have ground := grounded index berth found id member
  have begins := piece.begins
  have inside : Grounded place (-1) (blueprintEach place (-1) operator.inner) :=
    grounded_blueprintEach (unlinked_inner piece.unlinked) place (-1)
  have outside : Avoids place (place + operator.innerCount) (operator.ownBerths place under ++ behind) :=
    (ownBerths_avoids piece.unlinked (Nat.le_refl _) piece.earlier fun union => absurd union single).append piece.apart
  -- Ahead of the piece, inside the operator, or behind; the operator's own places count as behind.
  rw [piece.split, blueprintOf_eq, innerParent_of_single single, List.append_assoc, List.append_assoc, List.getElem?_append] at found
  split at found
  · omega
  rw [List.getElem?_append] at found
  split at found
  · next within =>
    rw [length_blueprintEach] at within
    have earlier := inside _ berth found id member
    rw [innerCount]
    omega
  · next beyond =>
    rw [length_blueprintEach] at beyond
    have apart := outside berth (List.mem_of_getElem? found) id member
    rw [innerCount] at apart ⊢
    omega

end Operator

end TraversalPlanner
