import TraversalPlanner.Json.Reader
import TraversalPlanner.Json.Writer
import TraversalPlanner.Proofs.JsonLeaves
import TraversalPlanner.Proofs.ListEffects
import TraversalPlanner.Proofs.Numerals

/-! Reading a JSON text back. Texts and whole numbers are read from what is written of them, and so is any value whose
doubles are, unless it is nested too deeply. The stack of open containers is carried along as it is. -/

namespace TraversalPlanner.Json

open Number Proofs

variable {value result : Json} {chars rest behind : List Char} {around : List Frame} {state : Expectation}
  {held : List Json}

/-- The double is read back from the numeral that is written of it. -/
def Recovered (x : Binary64) : Prop :=
  ∃ numeral, Token.numeral? (realLayout.render x).toList = some (numeral, []) ∧ Token.ofNumeral numeral = .real x

theorem recovered_iff {x : Binary64} : Recovered x ↔
    ((Token.numeral? (realLayout.render x).toList).map fun read => (read.1.amount, read.2)) =
      some (some (.real x), []) := by
  have named (numeral : Numeral) : Token.ofNumeral numeral = .real x ↔ numeral.amount = some (.real x) := by
    rw [Token.ofNumeral]
    cases numeral.amount with
    | none => simp
    | some amount => cases amount <;> simp
  constructor
  · rintro ⟨numeral, read, meant⟩
    rw [read]
    exact congrArg (fun amount => some (amount, [])) ((named numeral).1 meant)
  · intro read
    obtain ⟨⟨numeral, _⟩, found, same⟩ := Option.map_eq_some_iff.1 read
    obtain ⟨amount, rfl⟩ := Prod.mk.inj same
    exact ⟨numeral, found, (named numeral).2 amount⟩

instance (x : Binary64) : Decidable (Recovered x) := decidable_of_iff _ recovered_iff.symm

/-- What a leaf has to be like to be read back. -/
def Recoverable : Json → Prop
  | .whole n => -0x8000000000000000 ≤ n ∧ n ≤ 0xFFFFFFFFFFFFFFFF
  | .real x => Recovered x
  | .unreadable => False
  | _ => True

namespace Token

theorem hexDigit?_lowerHex (n : Nat) : hexDigit? (lowerHex n) = some (n % 16) := by
  have reduced : lowerHex n = lowerHex (n % 16) := by rw [lowerHex, lowerHex, Nat.mod_mod]
  have below := Nat.mod_lt n (show 0 < 16 by decide)
  rw [reduced]
  generalize n % 16 = digit at below ⊢
  revert digit
  decide

/-- The escape of a control character names the character. -/
theorem escape?_control {c : Char} (control : c < ' ') (rest : List Char) :
    escape? ('u' :: '0' :: '0' :: lowerHex (c.toNat / 16) :: lowerHex c.toNat :: rest) = some (some c, 5) := by
  have small : c.toNat < 32 := control
  have unit : hexUnit? '0' '0' (lowerHex (c.toNat / 16)) (lowerHex c.toNat) = some c.toNat := by
    rw [hexUnit?, hexDigit?_lowerHex, hexDigit?_lowerHex]
    refine congrArg some ?_
    show ((0 * 16 + 0) * 16 + c.toNat / 16 % 16) * 16 + c.toNat % 16 = c.toNat
    omega
  simp only [escape?, unit, Option.bind_eq_bind, Option.bind_some]
  rw [if_pos (by omega), Char.ofNat_toNat]
  rfl

/-- A character is read back from what is written of it. -/
theorem string?_escape (c : Char) (read rest : List Char) :
    string? (some read) (escape c ++ rest) = string? (some (c :: read)) rest := by
  have escaped (name : List Char) (known : escape? (name ++ rest) = some (some c, name.length)) :
      string? (some read) ('\\' :: (name ++ rest)) = string? (some (c :: read)) rest := by
    rw [string?, known]
    simp
  unfold escape
  split
  · exact escaped ['"'] rfl
  · exact escaped ['\\'] rfl
  · exact escaped ['n'] rfl
  · exact escaped ['r'] rfl
  · exact escaped ['t'] rfl
  · exact escaped ['b'] rfl
  · exact escaped ['f'] rfl
  · next noQuote noBackslash _ _ _ _ _ =>
    split
    · next control => exact escaped ['u', '0', '0', _, _] (escape?_control control rest)
    · next plain =>
      rw [List.singleton_append, string?]
      · rw [if_neg plain]
        rfl
      · exact noQuote
      · exact noBackslash

theorem string?_escapes (chars read rest : List Char) : string? (some read) (chars.flatMap escape ++ '"' :: rest) =
    some (some (String.ofList (read.reverse ++ chars)), rest) := by
  induction chars generalizing read with
  | nil => simp [string?]
  | cons c chars tail =>
    rw [List.flatMap_cons, List.append_assoc, string?_escape, tail, List.reverse_cons, List.append_assoc,
      List.singleton_append]

/-- A text is read back from between its quotes, whatever it is made of. -/
theorem next?_quote (text : String) (rest : List Char) :
    next? ((quote text).toList ++ rest) = some (.text (some text), rest) := by
  have written : (quote text).toList ++ rest = '"' :: (text.toList.flatMap escape ++ '"' :: rest) := by simp [quote]
  rw [written, next?, string?_escapes]
  simp

theorem next?_solid {token : Token} (scanned : next? chars = some (token, rest)) : chars.dropWhile isBlank = chars := by
  cases chars with
  | nil => rfl
  | cons c chars =>
    refine List.dropWhile_cons_of_neg fun blank => ?_
    simp only [isBlank, Bool.or_eq_true, decide_eq_true_eq] at blank
    obtain ((rfl | rfl) | rfl) | rfl := blank <;> cases scanned

theorem next?_numeral {numeral : Numeral} (read : numeral? chars = some (numeral, rest)) :
    next? chars = some (.scalar (ofNumeral numeral), rest) := by
  unfold next?
  split
  case h_11 => rw [read]; rfl
  all_goals cases read

end Token

/-- From a state, the words of a text lead to a value and leave nothing. -/
inductive Reads : Expectation → List Char → Json → Prop
  | done (value : Json) : Reads (.finished value) [] value
  | word {state next : Expectation} {token : Token} {chars rest : List Char} {value : Json}
      (scanned : Token.next? chars = some (token, rest)) (shorter : rest.length < chars.length)
      (taken : state.next? token = some next) (later : Reads next rest value) : Reads state chars value

theorem Reads.tokens (reads : Reads state chars value) : ∃ tokens : List Token,
    (∀ fuel found, chars.length ≤ fuel → Token.all? fuel chars found = some (found.reverse ++ tokens)) ∧
      tokens.foldlM Expectation.next? state = some (.finished value) := by
  induction reads with
  | done value =>
    refine ⟨[], fun fuel found _ => ?_, rfl⟩
    rw [Token.all?, List.append_nil]
    rfl
  | @word state next token chars rest value scanned shorter taken later tail =>
    obtain ⟨tokens, all, run⟩ := tail
    refine ⟨token :: tokens, fun fuel found enough => ?_, ?_⟩
    · cases fuel with
      | zero => omega
      | succ fuel =>
        cases chars with
        | nil => cases scanned
        | cons c chars =>
          unfold Token.all?
          simp only [Token.next?_solid scanned, scanned]
          rw [all fuel _ (by omega), List.reverse_cons, List.append_assoc, List.singleton_append]
    · rw [List.foldlM_cons, taken]
      exact run

theorem Reads.parse? {text : String} (reads : Reads (.item []) text.toList value) : Json.parse? text = some value := by
  obtain ⟨tokens, all, run⟩ := reads.tokens
  have scanned : tokens? text = some tokens := all _ [] (Nat.le_refl _)
  simp only [Json.parse?, scanned, Option.bind_eq_bind, Option.bind_some, run]
  rfl

/-- An array's first item is read like any other. -/
theorem Reads.first (reads : Reads (.item (.array [] :: around)) chars value) :
    Reads (.firstItem around) chars value := by
  cases reads with
  | @word _ next token _ rest _ scanned shorter taken later =>
    refine .word scanned shorter ?_ later
    cases token with
    | closeArray => cases taken
    | _ => exact taken

/-! What is written of a container, with whatever stands behind it. -/

theorem compactItems_eq (items : List Json) : compactItems items = items.map compact := by
  induction items with
  | nil => rfl
  | cons item items tail => rw [compactItems, tail, List.map_cons]

theorem compactEntries_eq (entries : List (String × Json)) :
    compactEntries entries = entries.map fun entry => quote entry.1 ++ ":" ++ compact entry.2 := by
  induction entries with
  | nil => rfl
  | cons entry entries tail => rw [compactEntries, tail, List.map_cons]

theorem compact_array (item : Json) (items : List Json) (behind : List Char) :
    (compact (.array (item :: items))).toList ++ behind =
      '[' :: ((compact item).toList ++ ((items.flatMap fun item => ',' :: (compact item).toList) ++ ']' :: behind)) := by
  simp only [compact, compactItems_eq, List.map_cons, String.toList_append, toList_intercalate_cons, List.flatMap_map]
  simp

/-- An entry as it is written. -/
def entryText (entry : String × Json) : List Char := (quote entry.1).toList ++ ':' :: (compact entry.2).toList

theorem compact_object (entry : String × Json) (entries : List (String × Json)) (behind : List Char) :
    (compact (.object (entry :: entries))).toList ++ behind =
      '\x7b' :: (entryText entry ++ ((entries.flatMap fun entry => ',' :: entryText entry) ++ '\x7d' :: behind)) := by
  simp only [compact, compactEntries_eq, List.map_cons, String.toList_append, toList_intercalate_cons, List.flatMap_map]
  simp [entryText]

theorem stops_cons {c : Char} (marked : c ∈ [',', ']', '\x7d']) (behind : List Char) : Token.Stops (c :: behind) := by
  intro d same
  cases same
  simp only [List.mem_cons, List.not_mem_nil, or_false] at marked
  rcases marked with rfl | rfl | rfl <;> decide

/-- Neither what follows a value in a container nor the container's end goes on with a numeral. -/
theorem stops_commas {α : Type} (text : α → List Char) (values : List α) {closing : Char}
    (marked : closing ∈ [']', '\x7d']) (behind : List Char) :
    Token.Stops ((values.flatMap fun value => ',' :: text value) ++ closing :: behind) := by
  cases values with
  | nil => exact stops_cons (List.mem_cons_of_mem _ marked) behind
  | cons value values => exact stops_cons List.mem_cons_self _

/-! Reading on, with the containers that are open. -/

/-- A word in front of a text that is read on. -/
theorem Reads.front {next : Expectation} {token : Token} (scanned : Token.next? (chars ++ behind) = some (token, behind))
    (filled : chars ≠ []) (taken : state.next? token = some next) (later : Reads next behind result) :
    Reads state (chars ++ behind) result := by
  have longer := List.length_pos_iff.mpr filled
  exact .word scanned (by rw [List.length_append]; omega) taken later

/-- A mark in front of a text that is read on. -/
theorem Reads.mark {next : Expectation} {token : Token} {c : Char}
    (scanned : Token.next? (c :: rest) = some (token, rest)) (taken : state.next? token = some next)
    (later : Reads next rest result) : Reads state (c :: rest) result :=
  .word scanned (Nat.lt_succ_self _) taken later

theorem Reads.number {numeral : Number.Numeral} (read : Token.numeral? chars = some (numeral, []))
    (named : Token.ofNumeral numeral = value) (stops : Token.Stops behind)
    (later : Reads (Expectation.complete value around) behind result) :
    Reads (.item around) (chars ++ behind) result := by
  refine .front (Token.next?_numeral (Token.numeral?_append stops read)) ?_ ?_ later
  · rintro rfl
    cases read
  · rw [named]
    rfl

theorem Reads.name {name : String} {held : List (Option String × Json)}
    (taken : state.next? (.text (some name)) = some (.colon (some name) held around))
    (later : Reads (.item (.object held (some name) :: around)) rest result) :
    Reads state ((quote name).toList ++ ':' :: rest) result := by
  refine .front (Token.next?_quote name _) ?_ taken (.mark rfl rfl later)
  simp [quote]

/-- Entries as they are kept while the object is open. -/
def named (entries : List (String × Json)) : List (Option String × Json) :=
  entries.map fun entry => (some entry.1, entry.2)

theorem completeArray_of_room (room : around.length < Expectation.nestingLimit) :
    Expectation.completeArray held around = Expectation.complete (.array held.reverse) around := by
  rw [Expectation.completeArray, if_pos room]

theorem completeObject_of_room (room : around.length < Expectation.nestingLimit) (entries : List (String × Json)) :
    Expectation.completeObject (named entries).reverse around = Expectation.complete (.object entries) around := by
  have all : (named entries).mapM Expectation.entry? = some entries := by
    induction entries with
    | nil => rfl
    | cons entry entries tail =>
      rw [named, List.map_cons, List.mapM_cons]
      rw [named] at tail
      simp [Expectation.entry?, tail]
  rw [Expectation.completeObject, List.reverse_reverse, all]
  simp only [if_pos room]

mutual
theorem reads_value {around : List Frame} {behind : List Char} {value : Json} (json : Json)
    (sound : ∀ leaf ∈ json.leaves, leaf.Recoverable)
    (room : around.length + json.depth ≤ Expectation.nestingLimit) (stops : Token.Stops behind)
    (later : Reads (Expectation.complete json around) behind value) :
    Reads (.item around) ((compact json).toList ++ behind) value := by
  match json with
  | .null => exact .front rfl nofun rfl later
  | .bool true => exact .front rfl nofun rfl later
  | .bool false => exact .front rfl nofun rfl later
  | .whole n =>
    obtain ⟨numeral, read, named⟩ := Token.numeral?_whole (sound _ List.mem_cons_self).1 (sound _ List.mem_cons_self).2
    exact .number read named stops later
  | .real x =>
    obtain ⟨numeral, read, named⟩ := sound _ List.mem_cons_self
    exact .number read named stops later
  | .text content =>
    refine .front (Token.next?_quote content behind) ?_ rfl later
    simp [compact, scalar, quote]
  | .unreadable => exact (sound _ List.mem_cons_self).elim
  | .array [] =>
    refine .mark rfl rfl (.mark rfl rfl ?_)
    rwa [completeArray_of_room room]
  | .array (item :: items) =>
    obtain ⟨here, others⟩ := List.forall_mem_append.mp sound
    simp only [depth, depthOfItems] at room
    rw [compact_array]
    refine .mark rfl rfl (.first (reads_value item here ?_ (stops_commas _ items (by decide) behind) ?_))
    · rw [List.length_cons]
      omega
    · exact reads_items items others (by omega) [item] later
  | .object [] =>
    refine .mark rfl rfl (.mark rfl rfl ?_)
    exact (completeObject_of_room room []).symm ▸ later
  | .object ((name, content) :: entries) =>
    obtain ⟨here, others⟩ := List.forall_mem_append.mp sound
    simp only [depth, depthOfEntries] at room
    rw [compact_object, entryText, List.append_assoc, List.cons_append]
    refine .mark rfl rfl (.name rfl (reads_value content here ?_ (stops_commas _ entries (by decide) behind) ?_))
    · rw [List.length_cons]
      omega
    · exact reads_entries entries others (by omega) [(name, content)] later
termination_by structural json

theorem reads_items {around : List Frame} {behind : List Char} {value : Json} (items : List Json)
    (sound : ∀ leaf ∈ leavesOfItems items, leaf.Recoverable)
    (room : around.length + (depthOfItems items + 1) ≤ Expectation.nestingLimit) (held : List Json)
    (later : Reads (Expectation.complete (.array (held.reverse ++ items)) around) behind value) :
    Reads (.moreItems held around) ((items.flatMap fun item => ',' :: (compact item).toList) ++ ']' :: behind) value := by
  match items with
  | [] =>
    refine .mark rfl rfl ?_
    rw [completeArray_of_room (by omega)]
    rwa [List.append_nil] at later
  | item :: items =>
    obtain ⟨here, others⟩ := List.forall_mem_append.mp sound
    rw [depthOfItems] at room
    rw [List.flatMap_cons, List.cons_append, List.cons_append, List.append_assoc]
    refine .mark rfl rfl (reads_value item here ?_ (stops_commas _ items (by decide) behind) ?_)
    · rw [List.length_cons]
      omega
    · refine reads_items items others (by omega) (item :: held) ?_
      rwa [List.reverse_cons, List.append_assoc]
termination_by structural items

theorem reads_entries {around : List Frame} {behind : List Char} {value : Json} (entries : List (String × Json))
    (sound : ∀ leaf ∈ leavesOfEntries entries, leaf.Recoverable)
    (room : around.length + (depthOfEntries entries + 1) ≤ Expectation.nestingLimit) (held : List (String × Json))
    (later : Reads (Expectation.complete (.object (held ++ entries)) around) behind value) :
    Reads (.moreEntries (named held).reverse around)
      ((entries.flatMap fun entry => ',' :: entryText entry) ++ '\x7d' :: behind) value := by
  match entries with
  | [] =>
    refine .mark rfl rfl ?_
    rw [completeObject_of_room (by omega)]
    rwa [List.append_nil] at later
  | (name, content) :: entries =>
    obtain ⟨here, others⟩ := List.forall_mem_append.mp sound
    rw [depthOfEntries] at room
    rw [List.flatMap_cons, List.cons_append, List.cons_append, List.append_assoc, entryText, List.append_assoc,
      List.cons_append]
    refine .mark rfl rfl (.name rfl (reads_value content here ?_ (stops_commas _ entries (by decide) behind) ?_))
    · rw [List.length_cons]
      omega
    · have grown : (named (held ++ [(name, content)])).reverse = (some name, content) :: (named held).reverse := by
        simp [named]
      show Reads (.moreEntries ((some name, content) :: (named held).reverse) around) _ _
      rw [← grown]
      refine reads_entries entries others (by omega) _ ?_
      rwa [List.append_assoc]
termination_by structural entries
end

/-- A value that is not nested too deeply is read back from the line that is written of it. -/
theorem parse?_compact {json : Json} (sound : ∀ leaf ∈ json.leaves, leaf.Recoverable)
    (shallow : json.depth ≤ Expectation.nestingLimit) : parse? json.compact = some json := by
  refine Reads.parse? ?_
  rw [← List.append_nil json.compact.toList]
  exact reads_value json sound (by simpa using shallow) nofun (.done json)

end TraversalPlanner.Json
