import Mathlib.Data.List.Forall2

/-! Computations that may fail, one after the other and along a list, and texts along a list. -/

namespace TraversalPlanner.Proofs

variable {ε α β γ δ : Type}

theorem ok_of_isOk {result : Except ε α} (passes : result.isOk = true) : ∃ value, result = .ok value := by
  cases result with
  | error error => cases passes
  | ok value => exact ⟨value, rfl⟩

theorem bind_eq_ok {first : Except ε α} {next : α → Except ε β} {result : β} :
    first >>= next = .ok result ↔ ∃ value, first = .ok value ∧ next value = .ok result := by
  cases first with
  | error error => simp [bind, Except.bind]
  | ok value => simp [bind, Except.bind]

theorem bind_eq_error {first : Except ε α} {next : α → Except ε β} {error : ε} :
    first >>= next = .error error ↔ first = .error error ∨ ∃ value, first = .ok value ∧ next value = .error error := by
  cases first with
  | error error => simp [bind, Except.bind]
  | ok value => simp [bind, Except.bind]

theorem mapM_eq_ok {f : α → Except ε β} {items : List α} {results : List β} :
    items.mapM f = .ok results ↔ List.Forall₂ (fun item result => f item = .ok result) items results := by
  induction items generalizing results with
  | nil =>
    simp only [List.mapM_nil, pure, Except.pure, Except.ok.injEq, List.forall₂_nil_left_iff]
    exact eq_comm
  | cons item items step =>
    simp only [List.mapM_cons, bind_eq_ok, step, List.forall₂_cons_left_iff, pure, Except.pure, Except.ok.injEq]
    constructor
    · intro given
      obtain ⟨first, held, rest, holds, rfl⟩ := given
      exact ⟨first, rest, held, holds, rfl⟩
    · intro given
      obtain ⟨first, rest, held, holds, rfl⟩ := given
      exact ⟨first, held, rest, holds, rfl⟩

theorem related_right {related : α → β → Prop} {items : List α} {results : List β}
    (each : List.Forall₂ related items results) {item : α} (member : item ∈ items) : ∃ result ∈ results, related item result := by
  induction each with
  | nil => cases member
  | cons here _ step =>
    rcases List.mem_cons.mp member with same | later
    · exact ⟨_, List.mem_cons_self, same ▸ here⟩
    · obtain ⟨result, found, holds⟩ := step later
      exact ⟨result, List.mem_cons_of_mem _ found, holds⟩

theorem related_left {related : α → β → Prop} {items : List α} {results : List β}
    (each : List.Forall₂ related items results) {result : β} (member : result ∈ results) :
    ∃ item ∈ items, related item result := related_right each.flip member

theorem related_at {related : α → β → Prop} {items : List α} {results : List β}
    (each : List.Forall₂ related items results) {index : Nat} {result : β} (found : results[index]? = some result) :
    ∃ item, items[index]? = some item ∧ related item result := by
  induction each generalizing index with
  | nil => cases found
  | cons here _ step =>
    cases index with
    | zero =>
      cases found
      exact ⟨_, rfl, here⟩
    | succ index => exact step found

theorem mapM_result {f : α → Except ε β} {items : List α} {results : List β} (passed : items.mapM f = .ok results)
    {item : α} (member : item ∈ items) : ∃ result ∈ results, f item = .ok result :=
  related_right (mapM_eq_ok.mp passed) member

theorem mapM_source {f : α → Except ε β} {items : List α} {results : List β} (passed : items.mapM f = .ok results)
    {result : β} (member : result ∈ results) : ∃ item ∈ items, f item = .ok result :=
  related_left (mapM_eq_ok.mp passed) member

theorem mapM_congr {f g : α → Except ε β} {items : List α} (each : ∀ item ∈ items, f item = g item) :
    items.mapM f = items.mapM g := by
  rw [← Function.id_comp f, ← Function.id_comp g, ← List.mapM_map, ← List.mapM_map, List.map_congr_left each]

/-- The first failure along a list is that of one of its members. -/
theorem mapM_eq_error {f : α → Except ε β} {items : List α} {error : ε} (failed : items.mapM f = .error error) :
    ∃ item ∈ items, f item = .error error := by
  induction items with
  | nil => cases failed
  | cons item items step =>
    simp only [List.mapM_cons, bind_eq_error, pure, Except.pure, reduceCtorEq, and_false, exists_false, or_false] at failed
    rcases failed with here | ⟨_, _, later⟩
    · exact ⟨item, List.mem_cons_self, here⟩
    · obtain ⟨culprit, member, fault⟩ := step later
      exact ⟨culprit, List.mem_cons_of_mem _ member, fault⟩

theorem mapM_passes {f : α → Except ε β} {items : List α} (each : ∀ item ∈ items, ∃ result, f item = .ok result) :
    ∃ results, items.mapM f = .ok results := by
  cases passed : items.mapM f with
  | ok results => exact ⟨results, rfl⟩
  | error error =>
    obtain ⟨item, member, failed⟩ := mapM_eq_error passed
    obtain ⟨result, holds⟩ := each item member
    cases failed.symm.trans holds

/-- A filter that keeps all entries of a name does not change what is found under it. -/
theorem lookup_filter [BEq α] [LawfulBEq α] {entries : List (α × β)} {name : α} {p : α × β → Bool}
    (passes : ∀ value, p (name, value) = true) : (entries.filter p).lookup name = entries.lookup name := by
  induction entries with
  | nil => rfl
  | cons entry entries tail =>
    obtain ⟨other, held⟩ := entry
    by_cases same : name = other
    · subst same
      rw [List.filter_cons_of_pos (passes held), List.lookup_cons_self, List.lookup_cons_self]
    · have apart := beq_eq_false_iff_ne.mpr same
      cases kept : p (other, held) with
      | true => rw [List.filter_cons_of_pos kept, List.lookup_cons, List.lookup_cons, apart, tail]
      | false => rw [List.filter_cons_of_neg (by simp [kept]), List.lookup_cons, apart, tail]

/-- Texts with something between them. -/
theorem toList_intercalate_cons (separator first : String) (others : List String) :
    (separator.intercalate (first :: others)).toList =
      first.toList ++ others.flatMap fun text => separator.toList ++ text.toList := by
  induction others generalizing first with
  | nil => simp
  | cons other others tail =>
    rw [String.intercalate_cons_cons, String.toList_append, String.toList_append, tail]
    simp

theorem toList_intercalate_concat (separator : String) {texts : List String} (filled : texts ≠ []) (last : String) :
    (separator.intercalate (texts ++ [last])).toList =
      (separator.intercalate texts).toList ++ (separator.toList ++ last.toList) := by
  cases texts with
  | nil => exact absurd rfl filled
  | cons first others =>
    rw [List.cons_append, toList_intercalate_cons, toList_intercalate_cons, List.flatMap_append, List.append_assoc]
    simp

/-- It fails in no other way. -/
def Fails (result : Except ε α) (faults : ε → Prop) : Prop := ∀ error, result = .error error → faults error

namespace Fails

variable {faults : ε → Prop}

theorem ok (value : α) : Fails (.ok value) faults := nofun

theorem error {fault : ε} (holds : faults fault) : Fails (.error fault : Except ε α) faults := by
  intro error failed
  cases failed
  exact holds

theorem bind {first : Except ε α} {next : α → Except ε β} (here : Fails first faults)
    (later : ∀ value, Fails (next value) faults) : Fails (first >>= next) faults := by
  intro error failed
  rcases bind_eq_error.mp failed with early | ⟨value, _, late⟩
  · exact here error early
  · exact later value error late

theorem mapM {f : α → Except ε β} {items : List α} (each : ∀ item ∈ items, Fails (f item) faults) :
    Fails (items.mapM f) faults := by
  intro error failed
  obtain ⟨item, member, fault⟩ := mapM_eq_error failed
  exact each item member error fault

theorem forM {f : α → Except ε PUnit} {items : List α} (each : ∀ item ∈ items, Fails (f item) faults) :
    Fails (items.forM f) faults := by
  induction items with
  | nil => exact ok _
  | cons item items step =>
    obtain ⟨here, later⟩ := List.forall_mem_cons.mp each
    exact here.bind fun _ => step later

end Fails

/-- Both fail with the same error, or both come to results that are related. -/
inductive Alike (related : α → β → Prop) : Except ε α → Except ε β → Prop
  | ok {value : α} {twin : β} (holds : related value twin) : Alike related (.ok value) (.ok twin)
  | error (fault : ε) : Alike related (.error fault) (.error fault)

namespace Alike

variable {related : α → β → Prop} {first : Except ε α} {second : Except ε β}

theorem of_eq {related : α → α → Prop} {result : Except ε α} (holds : ∀ value, result = .ok value → related value value) :
    Alike related result result := by
  cases result with
  | ok value => exact .ok (holds value rfl)
  | error fault => exact .error fault

theorem weaken {weaker : α → β → Prop} (alike : Alike related first second)
    (follows : ∀ value twin, related value twin → weaker value twin) : Alike weaker first second := by
  cases alike with
  | ok holds => exact .ok (follows _ _ holds)
  | error fault => exact .error fault

theorem map {behind : γ → δ → Prop} {f : α → γ} {g : β → δ} (alike : Alike related first second)
    (follows : ∀ value twin, related value twin → behind (f value) (g twin)) :
    Alike behind (first.map f) (second.map g) := by
  cases alike with
  | ok holds => exact .ok (follows _ _ holds)
  | error fault => exact .error fault

theorem bind {behind : γ → δ → Prop} {next : α → Except ε γ} {other : β → Except ε δ} (alike : Alike related first second)
    (rest : ∀ value twin, related value twin → Alike behind (next value) (other twin)) :
    Alike behind (first >>= next) (second >>= other) := by
  cases alike with
  | ok holds => exact rest _ _ holds
  | error fault => exact .error fault

/-- What both do first is the same. -/
theorem bind_same {shared : Except ε γ} {next : γ → Except ε α} {other : γ → Except ε β}
    (rest : ∀ value, Alike related (next value) (other value)) : Alike related (shared >>= next) (shared >>= other) := by
  cases shared with
  | ok value => exact rest value
  | error fault => exact .error fault

theorem mapM {given : γ → δ → Prop} {f : γ → Except ε α} {g : δ → Except ε β} {items : List γ} {twins : List δ}
    (each : List.Forall₂ given items twins) (step : ∀ item twin, given item twin → Alike related (f item) (g twin)) :
    Alike (List.Forall₂ related) (items.mapM f) (twins.mapM g) := by
  induction each with
  | nil => exact .ok .nil
  | cons here _ later =>
    simp only [List.mapM_cons]
    exact (step _ _ here).bind fun _ _ holds => later.bind fun _ _ hold => .ok (.cons holds hold)

end Alike

end TraversalPlanner.Proofs
