import Mathlib.Data.List.TakeWhile
import TraversalPlanner.Json.Token
import TraversalPlanner.Json.Writer

/-! Numbers in JSON texts. What is read of a numeral does not depend on the text behind it, as long as that cannot be
taken for a part of it, and a whole number is read back as it was written. -/

namespace TraversalPlanner.Json

open Number

deriving instance DecidableEq for Amount

namespace Token

variable {chars rest behind : List Char} {found : List Nat} {exponent : Option Int} {numeral : Numeral}

/-- No numeral goes on with this text. -/
def Stops (behind : List Char) : Prop := ∀ c ∈ behind.head?, c.isDigit = false ∧ c ≠ '.' ∧ c ≠ 'e' ∧ c ≠ 'E'

theorem digits_append (stops : Stops behind) (chars : List Char) :
    digits (chars ++ behind) = ((digits chars).1, (digits chars).2 ++ behind) := by
  unfold digits
  induction chars with
  | nil =>
    cases behind with
    | nil => rfl
    | cons c behind =>
      have other := (stops c rfl).1
      simp [other]
  | cons c chars tail =>
    rw [Prod.mk.injEq] at tail
    cases digit : c.isDigit with
    | true =>
      simp only [List.cons_append, List.takeWhile_cons_of_pos, List.dropWhile_cons_of_pos, digit, List.map_cons, tail]
    | false => simp [digit]

theorem digits?_append (stops : Stops behind) (read : digits? chars = some (found, rest)) :
    digits? (chars ++ behind) = some (found, rest ++ behind) := by
  unfold digits? at read ⊢
  rw [digits_append stops]
  split at read
  · cases read
  · next anyDigit =>
    rw [Option.some.injEq] at read
    rw [read] at anyDigit ⊢
    cases found with
    | nil => exact absurd rfl (anyDigit rest)
    | cons digit found => rfl

theorem fraction?_append (stops : Stops behind) (read : fraction? chars = some (found, rest)) :
    fraction? (chars ++ behind) = some (found, rest ++ behind) := by
  unfold fraction? at read
  split at read
  · exact digits?_append stops read
  · next noPoint =>
    cases read
    refine fraction?.eq_2 _ fun more same => ?_
    cases chars with
    | nil => exact (stops '.' (by rw [show behind = _ from same]; rfl)).2.1 rfl
    | cons c chars => exact noPoint chars (by rw [(List.cons.inj same).1])

theorem signed_append (sign : Nat → Int) (stops : Stops behind)
    (read : (digits? chars).map (fun entry => (some (sign (decimalValue entry.1)), entry.2)) = some (exponent, rest)) :
    (digits? (chars ++ behind)).map (fun entry => (some (sign (decimalValue entry.1)), entry.2)) =
      some (exponent, rest ++ behind) := by
  obtain ⟨⟨found, left⟩, digitsRead, same⟩ := Option.map_eq_some_iff.mp read
  cases same
  rw [digits?_append stops digitsRead]
  rfl

theorem exponent?_append (stops : Stops behind) (read : exponent? chars = some (exponent, rest)) :
    exponent? (chars ++ behind) = some (exponent, rest ++ behind) := by
  cases chars with
  | nil =>
    cases read
    cases behind with
    | nil => rfl
    | cons c behind => simp [exponent?, (stops c rfl).2.2]
  | cons c chars =>
    unfold exponent? at read ⊢
    simp only [List.cons_append] at read ⊢
    split at read
    · next marked =>
      rw [if_pos marked]
      split at read
      · exact signed_append (fun n => -n) stops read
      · exact signed_append (fun n => n) stops read
      · next noMinus noPlus =>
        cases chars with
        | nil => cases read
        | cons d chars =>
          split
          · next same => exact absurd (by rw [(List.cons.inj same).1]) (noMinus chars)
          · next same => exact absurd (by rw [(List.cons.inj same).1]) (noPlus chars)
          · exact signed_append (fun n => n) stops read
    · next plain =>
      rw [if_neg plain]
      cases read
      rfl

/-- A numeral behind its sign. -/
def unsigned? (negative : Bool) (chars : List Char) : Option (Numeral × List Char) := do
  let (integral, chars) ← digits? chars
  match integral with
  | 0 :: _ :: _ => none
  | _ =>
    let (fraction, chars) ← fraction? chars
    let (exponent, chars) ← exponent? chars
    return ({ negative, whole := integral, fraction, exponent }, chars)

theorem numeral?_negative (chars : List Char) : numeral? ('-' :: chars) = unsigned? true chars := rfl

theorem numeral?_positive (unsigned : ∀ more, chars ≠ '-' :: more) : numeral? chars = unsigned? false chars := by
  unfold numeral?
  split
  next same =>
    split at same
    · next more => exact absurd rfl (unsigned more)
    · cases same
      rfl

theorem unsigned?_append {negative : Bool} (stops : Stops behind)
    (read : unsigned? negative chars = some (numeral, rest)) :
    unsigned? negative (chars ++ behind) = some (numeral, rest ++ behind) := by
  obtain ⟨⟨whole, afterWhole⟩, wholeRead, read⟩ := Option.bind_eq_some_iff.mp read
  simp only [unsigned?, digits?_append stops wholeRead, Option.bind_eq_bind, Option.bind_some]
  dsimp only at read ⊢
  split at read
  · cases read
  · next noZero =>
    obtain ⟨⟨fraction, afterFraction⟩, fractionRead, read⟩ := Option.bind_eq_some_iff.mp read
    obtain ⟨⟨exponent, afterExponent⟩, exponentRead, read⟩ := Option.bind_eq_some_iff.mp read
    cases read
    simp only [fraction?_append stops fractionRead, exponent?_append stops exponentRead, Option.bind_some]
    rfl

/-- What is read of a numeral does not depend on the text behind it. -/
theorem numeral?_append (stops : Stops behind) (read : numeral? chars = some (numeral, rest)) :
    numeral? (chars ++ behind) = some (numeral, rest ++ behind) := by
  cases chars with
  | nil => cases read
  | cons c chars =>
    by_cases minus : c = '-'
    · rw [minus] at read ⊢
      exact unsigned?_append stops read
    · have positive (more : List Char) : numeral? (c :: more) = unsigned? false (c :: more) :=
        numeral?_positive fun _ same => minus (List.cons.inj same).1
      rw [positive] at read
      rw [List.cons_append, positive]
      exact unsigned?_append stops read

/-! Whole numbers. -/

def digitOf (c : Char) : Nat := c.toNat - '0'.toNat

theorem digitOf_digitChar {n : Nat} (small : n < 10) : digitOf n.digitChar = n := by
  revert n
  decide

/-- No number but zero begins with a zero. -/
theorem eq_zero_of_leading {n : Nat} {later : List Nat} (leading : (Nat.toDigits 10 n).map digitOf = 0 :: later) :
    n = 0 := by
  induction n using Nat.strongRecOn generalizing later with
  | ind n smaller =>
    by_cases small : n < 10
    · rw [Nat.toDigits_of_lt_base small, List.map_singleton, digitOf_digitChar small] at leading
      exact (List.cons.inj leading).1
    · rw [Nat.toDigits_of_base_le (by decide) (Nat.le_of_not_lt small), List.map_append] at leading
      cases front : (Nat.toDigits 10 (n / 10)).map digitOf with
      | nil => exact absurd (List.map_eq_nil_iff.mp front) Nat.toDigits_ne_nil
      | cons digit more =>
        rw [front] at leading
        rw [(List.cons.inj leading).1] at front
        have := smaller (n / 10) (by omega) front
        omega

theorem unsigned?_natural (negative : Bool) (n : Nat) : unsigned? negative (Nat.toDigits 10 n) =
    some ({ negative, whole := (Nat.toDigits 10 n).map digitOf, fraction := [], exponent := none }, []) := by
  have allDigits : ∀ c ∈ Nat.toDigits 10 n, c.isDigit = true := fun c =>
    Nat.isDigit_of_mem_toDigits (by decide) (by decide)
  have read : digits? (Nat.toDigits 10 n) = some ((Nat.toDigits 10 n).map digitOf, []) := by
    unfold digits? digits
    rw [List.takeWhile_eq_self_iff.mpr allDigits, List.dropWhile_eq_nil_iff.mpr allDigits]
    cases written : Nat.toDigits 10 n with
    | nil => exact absurd written Nat.toDigits_ne_nil
    | cons c chars => rfl
  simp only [unsigned?, read, Option.bind_eq_bind, Option.bind_some]
  split
  · next digit more leading =>
    rw [eq_zero_of_leading leading, Nat.toDigits_zero] at leading
    cases leading
  · rfl

theorem le_ofDigitChars (chars : List Char) (word : Nat) : word ≤ Nat.ofDigitChars 10 chars word := by
  induction chars generalizing word with
  | nil => exact Nat.le_refl _
  | cons c chars tail =>
    rw [Nat.ofDigitChars_cons]
    exact Nat.le_trans (by omega) (tail _)

/-- All digits fit into the word if the number does. -/
theorem gather_of_fits {chars : List Char} {word : Nat} (fits : Nat.ofDigitChars 10 chars word ≤ Numeral.wordLimit) :
    Numeral.gather word (chars.map digitOf) = (Nat.ofDigitChars 10 chars word, chars.length, 0) := by
  induction chars generalizing word with
  | nil => rfl
  | cons c chars tail =>
    have step : Nat.ofDigitChars 10 (c :: chars) word = Nat.ofDigitChars 10 chars (word * 10 + digitOf c) := by
      rw [Nat.ofDigitChars_cons, Nat.mul_comm]
      rfl
    rw [step] at fits ⊢
    rw [List.map_cons, Numeral.gather, if_pos (Nat.le_trans (le_ofDigitChars chars _) fits), tail fits]
    rfl

/-- A whole number of at most 64 bits is read back as it was written. -/
theorem numeral?_whole {n : Int} (lower : -0x8000000000000000 ≤ n) (upper : n ≤ 0xFFFFFFFFFFFFFFFF) :
    ∃ numeral, numeral? (toString n).toList = some (numeral, []) ∧ ofNumeral numeral = .whole n := by
  have limit : Numeral.wordLimit = 0xFFFFFFFFFFFFFFFF := rfl
  have sign : twoTo 63 = 0x8000000000000000 := rfl
  have gathered {n : Nat} (fits : n ≤ Numeral.wordLimit) :
      Numeral.gather 0 ((Nat.toDigits 10 n).map digitOf) = (n, (Nat.toDigits 10 n).length, 0) := by
    have whole := Nat.ofDigitChars_ten_toDigits (n := n)
    rw [gather_of_fits (by rwa [whole]), whole]
  cases n with
  | ofNat n =>
    have written : (toString (Int.ofNat n)).toList = Nat.toDigits 10 n := Nat.toList_repr
    have positive : ∀ more, Nat.toDigits 10 n ≠ '-' :: more := fun more same =>
      absurd (Nat.isDigit_of_mem_toDigits (b := 10) (by decide) (by decide) (same ▸ List.mem_cons_self)) (by decide)
    rw [written, numeral?_positive positive]
    refine ⟨_, unsigned?_natural false n, ?_⟩
    have fits : n ≤ Numeral.wordLimit := by
      rw [Int.ofNat_eq_natCast] at upper
      omega
    simp [ofNumeral, Numeral.amount, gathered fits]
  | negSucc n =>
    have written : (toString (Int.negSucc n)).toList = '-' :: Nat.toDigits 10 (n + 1) :=
      (String.toList_append).trans (congrArg _ Nat.toList_repr)
    have small : n + 1 ≤ twoTo 63 := by omega
    have fits : n + 1 ≤ Numeral.wordLimit := by omega
    rw [written, numeral?_negative]
    refine ⟨_, unsigned?_natural true (n + 1), ?_⟩
    have worth : Numeral.amount ⟨true, (Nat.toDigits 10 (n + 1)).map digitOf, [], none⟩ =
        some (.whole (-(n + 1 : Nat))) := by
      simp only [Numeral.amount, gathered fits]
      exact (if_neg (not_not.mpr rfl)).trans ((if_neg nofun).trans (if_pos ⟨Nat.succ_pos n, small⟩))
    rw [ofNumeral, worth]
    rfl

end Token

end TraversalPlanner.Json
