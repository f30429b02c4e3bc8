import TraversalPlanner.Proofs.LegibleReferences

/-! What the reader of projected expressions takes: exactly the texts of a small grammar, with white space only
where the grammar has it. What is read can be written and is read the same again. -/

namespace TraversalPlanner.Expression.Projection

open Proofs

def Spaces (chars : List Char) : Prop := ∀ c ∈ chars, isSpace c = true

instance (chars : List Char) : Decidable (Spaces chars) := List.decidableBAll (fun c => isSpace c = true) chars

/-- What stands in a group behind its first reference: the others, each behind a comma, and the closing brace. -/
inductive Tail : List Variable → List Char → Prop
  | close {space : List Char} (spaces : Spaces space) : Tail [] (space ++ ['\x7d'])
  | next {v : Variable} {references : List Variable} {before after rest : List Char} (front : Spaces before)
      (behind : Spaces after) (legible : Legible v) (others : Tail references rest) :
      Tail (v :: references) (before ++ ',' :: (after ++ (v.render.toList ++ rest)))

inductive Body : Projection → List Char → Prop
  | single {v : Variable} (legible : Legible v) : Body (.single v) v.render.toList
  | group {v : Variable} {references : List Variable} {space rest : List Char} (spaces : Spaces space)
      (legible : Legible v) (tail : Tail references rest) :
      Body (.group (v :: references)) ('\x7b' :: (space ++ (v.render.toList ++ rest)))

/-- The grammar of projected expressions. -/
def Written (projection : Projection) (text : List Char) : Prop :=
  ∃ before body after, Spaces before ∧ Body projection body ∧ Spaces after ∧ text = before ++ (body ++ after)

variable {chars space rest text : List Char} {v : Variable} {references : List Variable} {projection : Projection}

/-! White space. -/

theorem spaces_nil : Spaces [] := nofun

theorem spaces_split (chars : List Char) : ∃ space, Spaces space ∧ chars = space ++ skipSpace chars :=
  ⟨chars.takeWhile isSpace, all_takeWhile isSpace chars, List.takeWhile_append_dropWhile.symm⟩

theorem spaces_of_skipped (skipped : skipSpace chars = []) : Spaces chars := by
  obtain ⟨space, spaces, same⟩ := spaces_split chars
  rw [skipped, List.append_nil] at same
  exact same ▸ spaces

theorem skipSpace_append (spaces : Spaces space) (stops : ∀ c ∈ rest.head?, isSpace c = false) : skipSpace (space ++ rest) = rest :=
  (run_taken spaces stops).2

theorem skipSpace_spaces (spaces : Spaces space) : skipSpace space = [] := by
  have skipped : skipSpace (space ++ []) = [] := skipSpace_append spaces nofun
  rwa [List.append_nil] at skipped

theorem skipSpace_mark {c : Char} (spaces : Spaces space) (solid : isSpace c = false) (rest : List Char) :
    skipSpace (space ++ c :: rest) = c :: rest := by
  refine skipSpace_append spaces ?_
  rintro _ ⟨⟩
  exact solid

theorem ends_of_isSpace {c : Char} (space : isSpace c = true) : isPropertyCharacter c = false ∧ c ≠ '.' := by
  simp only [isSpace, Bool.or_eq_true, decide_eq_true_eq] at space
  rcases space with ((rfl | rfl) | rfl) | rfl <;> decide

theorem Spaces.ends (spaces : Spaces space) (ends : Ends rest) : Ends (space ++ rest) :=
  Ends.append (fun c head => ends_of_isSpace (spaces c (List.mem_of_mem_head? head))) ends

theorem Tail.ends (tail : Tail references chars) (rest : List Char) : Ends (chars ++ rest) := by
  cases tail with
  | close spaces =>
    rw [List.append_assoc]
    exact spaces.ends (ends_cons (by decide) _)
  | next front =>
    rw [List.append_assoc]
    exact front.ends (ends_cons (by decide) _)

/-! Everything in the grammar is read. -/

theorem skipSpace_render (spaces : Spaces space) (v : Variable) (rest : List Char) :
    skipSpace (space ++ (v.render.toList ++ rest)) = v.render.toList ++ rest := by
  rw [toList_render]
  exact skipSpace_mark spaces (by decide) _

theorem groupTail?_tail (tail : Tail references chars) {fuel : Nat} (enough : references.length ≤ fuel) :
    groupTail? fuel (chars ++ rest) = some (references, rest) := by
  induction tail generalizing fuel with
  | close spaces =>
    have skipped := skipSpace_mark spaces (show isSpace '\x7d' = false by decide) rest
    rw [List.append_assoc, List.singleton_append, groupTail?.eq_1 _ _ _ skipped]
  | @next v references before after behind front spaces legible others tail =>
    cases fuel with
    | zero => cases enough
    | succ fuel =>
      have skipped := skipSpace_mark front (show isSpace ',' = false by decide) (after ++ (v.render.toList ++ (behind ++ rest)))
      have written : before ++ ',' :: (after ++ (v.render.toList ++ behind)) ++ rest =
          before ++ ',' :: (after ++ (v.render.toList ++ (behind ++ rest))) := by
        simp
      rw [written, groupTail?.eq_2 _ _ _ skipped]
      simp [skipSpace_render spaces, reference?_render legible (others.ends rest), tail (Nat.le_of_succ_le_succ enough)]

theorem Tail.length_le (tail : Tail references chars) : references.length ≤ chars.length := by
  induction tail with
  | close => exact Nat.zero_le _
  | next _ _ _ _ step =>
    simp only [List.length_cons, List.length_append]
    omega

theorem group?_body (body : Body projection chars) (ends : Ends rest) : group? (chars ++ rest) = some (projection, rest) := by
  cases body with
  | single legible =>
    have read := reference?_render legible ends
    rw [group?.eq_2, read]
    · rfl
    · rw [toList_render]
      exact fun _ same => absurd (List.cons.inj same).1 (by decide)
  | @group v references space behind spaces legible tail =>
    have enough : references.length ≤ behind.length + rest.length := Nat.le_add_right_of_le tail.length_le
    simp [group?, skipSpace_render spaces, reference?_render legible (tail.ends rest), groupTail?_tail tail enough]

theorem body_stops (body : Body projection chars) (rest : List Char) : ∀ c ∈ (chars ++ rest).head?, isSpace c = false := by
  cases body with
  | single =>
    rw [toList_render]
    rintro _ ⟨⟩
    decide
  | group =>
    rintro _ ⟨⟩
    decide

theorem parseChars?_written (written : Written projection text) : parseChars? text = some projection := by
  obtain ⟨before, body, after, front, inside, behind, rfl⟩ := written
  have ends : Ends after := by simpa using behind.ends ends_nil
  rw [parseChars?, skipSpace_append front (body_stops inside after), group?_body inside ends]
  simp [skipSpace_spaces behind]

/-! Nothing else is read. -/

theorem tail_of_groupTail? {fuel : Nat} (found : groupTail? fuel chars = some (references, rest)) :
    ∃ tail, Tail references tail ∧ chars = tail ++ rest := by
  fun_induction groupTail? fuel chars generalizing references with
  | case1 fuel chars behind skipped =>
    cases found
    obtain ⟨space, spaces, same⟩ := spaces_split chars
    exact ⟨_, .close spaces, by rw [same, skipped, List.append_assoc]; rfl⟩
  | case2 chars fuel behind skipped step =>
    simp only [Option.bind_eq_bind, Option.bind_eq_some_iff] at found
    obtain ⟨⟨v, onward⟩, read, ⟨others, left⟩, later, same⟩ := found
    cases same
    obtain ⟨before, front, split⟩ := spaces_split chars
    obtain ⟨after, inner, divided⟩ := spaces_split behind
    obtain ⟨legible, written⟩ := reference?_eq_some read
    obtain ⟨tail, inside, whole⟩ := step onward later
    refine ⟨_, .next front inner legible inside, ?_⟩
    rw [split, skipped, divided, written, whole]
    simp
  | case3 => cases found

theorem body_of_group? (found : group? chars = some (projection, rest)) :
    ∃ body, Body projection body ∧ chars = body ++ rest := by
  unfold group? at found
  split at found
  · next inside =>
    simp only [Option.bind_eq_bind, Option.bind_eq_some_iff] at found
    obtain ⟨⟨v, onward⟩, read, ⟨others, left⟩, later, same⟩ := found
    cases same
    obtain ⟨space, spaces, divided⟩ := spaces_split inside
    obtain ⟨legible, written⟩ := reference?_eq_some read
    obtain ⟨tail, others, whole⟩ := tail_of_groupTail? later
    refine ⟨_, .group spaces legible others, ?_⟩
    change onward = tail ++ left at whole
    rw [divided, written, whole]
    simp
  · simp only [Option.map_eq_some_iff] at found
    obtain ⟨⟨v, onward⟩, read, same⟩ := found
    cases same
    obtain ⟨legible, written⟩ := reference?_eq_some read
    exact ⟨_, .single legible, written⟩

theorem written_of_parseChars? (found : parseChars? text = some projection) : Written projection text := by
  unfold parseChars? at found
  split at found
  · next parsed behind read =>
    split at found
    · next skipped =>
      cases found
      obtain ⟨before, front, same⟩ := spaces_split text
      obtain ⟨body, inside, whole⟩ := body_of_group? read
      exact ⟨before, body, behind, front, inside, spaces_of_skipped (List.isEmpty_iff.mp skipped), whole ▸ same⟩
    · cases found
  · cases found

/-! What is read is written as one of the texts in the grammar. -/

theorem tail_render (legible : ∀ reference ∈ references, Legible reference) :
    Tail references ((references.flatMap fun reference => (", " ++ reference.render).toList) ++ ['\x7d']) := by
  induction references with
  | nil => exact Tail.close spaces_nil
  | cons v references step =>
    obtain ⟨here, later⟩ := List.forall_mem_cons.mp legible
    have one : Spaces [' '] := by decide
    simpa using Tail.next spaces_nil one here (step later)

theorem Tail.legible (tail : Tail references chars) : ∀ reference ∈ references, Legible reference := by
  induction tail with
  | close => exact nofun
  | next _ _ legible _ step => exact List.forall_mem_cons.mpr ⟨legible, step⟩

theorem toList_braces (v : Variable) (references : List Variable) : (braces (v :: references)).toList =
    '\x7b' :: (v.render.toList ++ ((references.flatMap fun reference => (", " ++ reference.render).toList) ++ ['\x7d'])) := by
  simp only [braces, List.map_cons, String.toList_append, toList_intercalate_cons, List.flatMap_map]
  simp

theorem Body.rendered (body : Body projection chars) : Body projection projection.render.toList := by
  cases body with
  | single legible => exact .single legible
  | group spaces legible tail =>
    rw [render, toList_braces]
    exact Body.group spaces_nil legible (tail_render tail.legible)

/-- A text is read as a projection exactly if the grammar has it so, and then what the projection is written as is
read as the same. -/
theorem parse?_eq_some_iff_written (text : String) (projection : Projection) :
    (parse? text = some projection ↔ Written projection text.toList) ∧
      (parse? text = some projection → parse? projection.render = some projection) := by
  refine ⟨⟨written_of_parseChars?, parseChars?_written⟩, fun found => ?_⟩
  obtain ⟨_, body, _, _, inside, _⟩ := written_of_parseChars? found
  exact parseChars?_written ⟨[], _, [], spaces_nil, inside.rendered, spaces_nil, (List.append_nil _).symm⟩

/-- A group with white space wherever it may stand. -/
def looseGroup : String := "\t\x7b @a.name\r,@.~id ,\n@ \x7d\n"

theorem looseGroup_read_again :
    let references := [.ofTagKey (.name "a") "name", .ofKey "~id", .current]
    parse? looseGroup = some (.group references) ∧ parse? (braces references) = some (.group references) := by
  have read : parse? looseGroup = some (.group [.ofTagKey (.name "a") "name", .ofKey "~id", .current]) := by decide
  exact ⟨read, (parse?_eq_some_iff_written looseGroup _).2 read⟩

end TraversalPlanner.Expression.Projection
