import LaOS.TaskConf

/-! # The numbers of the startup configuration

`parse_dec` and `parse_hex` multiply and add digit by digit, and divide before each step to see
whether the next value still fits.  Each reads exactly the numbers that fit.
-/

namespace LaOS.TaskConf

open WordBytes (Byte)
open List Option

/-- The loop of both readers: `digitOf` knows the digits of the base, and no value passes the
limit. -/
def digitLoop (digitOf : Byte → Option Nat) (base limit : Nat) :
    List Byte → Nat → Option (Nat × List Byte)
  | [], value => some (value, [])
  | c :: p, value =>
    match digitOf c with
    | none => some (value, c :: p)
    | some digit =>
      if value > (limit - digit) / base then none
      else digitLoop digitOf base limit p (value * base + digit)

/-- The longest run of digits at the cursor. -/
def digitRun (digitOf : Byte → Option Nat) (p : List Byte) : List Byte :=
  p.takeWhile fun c => (digitOf c).isSome

/-- The number a run of digits spells, its most significant digit first. -/
def spelled (digitOf : Byte → Option Nat) (base : Nat) (run : List Byte) : Nat :=
  Nat.ofDigits base (run.filterMap digitOf).reverse

/-- What a reader may return for the text after the blanks. -/
def Reads (digitOf : Byte → Option Nat) (base limit : Nat) (text : List Byte) (value : Nat)
    (rest : List Byte) : Prop :=
  let run := digitRun digitOf text
  run ≠ [] ∧ value = spelled digitOf base run ∧ value ≤ limit ∧ text = run ++ rest

variable {digitOf : Byte → Option Nat} {base limit : Nat}

theorem next_le_iff {value digit : Nat} (positive : 0 < base) (small : digit ≤ limit) :
    ¬ value > (limit - digit) / base ↔ value * base + digit ≤ limit := by
  rw [not_lt, Nat.le_div_iff_mul_le positive]
  omega

theorem digitLoop_eq (positive : 0 < base)
    (small : ∀ c digit, digitOf c = some digit → digit ≤ limit) (p : List Byte) {value : Nat}
    (fits : value ≤ limit) : digitLoop digitOf base limit p value =
      let digits := (digitRun digitOf p).filterMap digitOf
      let total := value * base ^ digits.length + Nat.ofDigits base digits.reverse
      if total ≤ limit then some (total, p.drop (digitRun digitOf p).length) else none := by
  induction p generalizing value with
  | nil => simp [digitLoop, digitRun, fits]
  | cons c p ih =>
    cases read : digitOf c with
    | none => simp [digitLoop, digitRun, read, fits]
    | some digit =>
      have run : digitRun digitOf (c :: p) = c :: digitRun digitOf p := by simp [digitRun, read]
      simp only [digitLoop, read, run, filterMap_cons_some read, length_cons, reverse_cons,
        Nat.ofDigits_append, Nat.ofDigits_singleton, length_reverse, drop_succ_cons]
      generalize (digitRun digitOf p).filterMap digitOf = digits at ih
      have total : value * base ^ (digits.length + 1) +
          (Nat.ofDigits base digits.reverse + base ^ digits.length * digit) =
          (value * base + digit) * base ^ digits.length + Nat.ofDigits base digits.reverse := by
        ring
      rw [total]
      split
      next above =>
        -- The value only grows with the digits that follow.
        have grown := Nat.le_mul_of_pos_right (value * base + digit)
          (Nat.pow_pos positive : 0 < base ^ digits.length)
        have past := mt (next_le_iff positive (small c digit read)).mpr (not_not.mpr above)
        rw [if_neg (by omega)]
      next within =>
        exact ih ((next_le_iff positive (small c digit read)).mp within)

/-- The part both readers share: the loop from 0, and a test that it has moved the cursor. -/
theorem read_eq_some_iff (positive : 0 < base)
    (small : ∀ c digit, digitOf c = some digit → digit ≤ limit) (text : List Byte) (value : Nat)
    (rest : List Byte) : ((digitLoop digitOf base limit text 0).bind fun (value, p) =>
      if p.length = text.length then none else some (value, p)) = some (value, rest) ↔
    Reads digitOf base limit text value rest := by
  have starts : digitRun digitOf text <+: text := takeWhile_prefix _
  obtain ⟨after, whole⟩ := starts
  rw [digitLoop_eq positive small text (Nat.zero_le _)]
  unfold Reads spelled
  generalize digitRun digitOf text = run at whole
  subst whole
  simp only [Nat.zero_mul, Nat.zero_add, drop_left, append_cancel_left_eq, length_append]
  split
  next within =>
    have moved : after.length = run.length + after.length ↔ run = [] := by
      rw [← length_eq_zero_iff]
      omega
    simp only [bind_some, moved, ite_none_left_eq_some, some.injEq, Prod.mk.injEq]
    constructor
    · rintro ⟨nonempty, rfl, rfl⟩
      exact ⟨nonempty, rfl, within, rfl⟩
    · rintro ⟨nonempty, rfl, -, rfl⟩
      exact ⟨nonempty, rfl, rfl⟩
  next past =>
    refine ⟨nofun, ?_⟩
    rintro ⟨-, rfl, within, -⟩
    exact absurd within past

theorem Reads.length_lt {text rest : List Byte} {value : Nat}
    (read : Reads digitOf base limit text value rest) : rest.length < text.length := by
  obtain ⟨nonempty, -, -, whole⟩ := read
  have positive := length_pos_iff.mpr nonempty
  have lengths := congrArg length whole
  rw [length_append] at lengths
  omega

def decDigit (c : Byte) : Option Nat :=
  if 0x30 ≤ c ∧ c ≤ 0x39 then some (c.toNat - 0x30) else none

theorem decLoop_eq (p : List Byte) (value : Nat) :
    decLoop p value = digitLoop decDigit 10 intMax p value := by
  induction p generalizing value with
  | nil => rfl
  | cons c p ih =>
    simp only [decLoop, digitLoop, decDigit, ih]
    split <;> rfl

theorem hexLoop_eq (p : List Byte) (value : Nat) :
    hexLoop p value = digitLoop hexDigit 16 uint64Max p value := by
  induction p generalizing value with
  | nil => rfl
  | cons c p ih =>
    rw [hexLoop, digitLoop]
    cases hexDigit c with
    | none => rfl
    | some digit => simp only [ih]

theorem decDigit_le (c : Byte) (digit : Nat) (read : decDigit c = some digit) : digit ≤ intMax := by
  obtain ⟨-, same⟩ := ite_none_right_eq_some.mp read
  cases same
  simp only [intMax]
  omega

theorem hexDigit_le (c : Byte) (digit : Nat) (read : hexDigit c = some digit) :
    digit ≤ uint64Max := by
  simp only [hexDigit] at read
  simp only [uint64Max]
  split_ifs at read <;> cases read <;> omega

/-- The text after a `0x` or `0X`, if it starts so. -/
def dropRadix : List Byte → List Byte
  | c :: x :: p => if c = 0x30 ∧ (x = 0x78 ∨ x = 0x58) then p else c :: x :: p
  | p => p

theorem skipRadix_eq (p : List Byte) : skipRadix p = .ok (dropRadix p) := by
  rcases p with _ | ⟨c, _ | ⟨x, p⟩⟩
  · rfl
  · rfl
  · simp only [skipRadix, dropRadix, deref, bind, Except.bind, tail_cons, drop_succ_cons, drop_zero,
      length_cons, ge_iff_le, Nat.le_add_left, if_true]
    by_cases zero : c = 0x30 <;> simp only [zero, if_true, if_false, true_and, false_and]

theorem length_dropRadix_le (p : List Byte) : (dropRadix p).length ≤ p.length := by
  rcases p with _ | ⟨c, _ | ⟨x, p⟩⟩
  · exact le_rfl
  · exact le_rfl
  · rw [dropRadix]
    split
    · exact (Nat.le_succ _).trans (Nat.le_succ _)
    · exact le_rfl

theorem parseDec_eq_some_iff (p : List Byte) (value : Nat) (rest : List Byte) :
    parseDec p = some (value, rest) ↔ Reads decDigit 10 intMax (skipSpaces p) value rest := by
  refine Iff.trans ?_ (read_eq_some_iff (by decide) decDigit_le (skipSpaces p) value rest)
  simp only [parseDec, decLoop_eq]
  split
  next empty => simp [empty, digitLoop]
  next => rfl

theorem parseHex_ok (p : List Byte) :
    ∃ outcome, parseHex p = .ok outcome ∧ ∀ value rest, outcome = some (value, rest) ↔
      Reads hexDigit 16 uint64Max (dropRadix (skipSpaces p)) value rest := by
  rw [parseHex]
  split
  next empty => exact ⟨none, rfl, fun value rest => by simp [empty, Reads, digitRun, dropRadix]⟩
  next =>
    rw [skipRadix_eq]
    refine ⟨_, rfl, fun value rest => ?_⟩
    rw [hexLoop_eq]
    exact read_eq_some_iff (by decide) hexDigit_le _ value rest

theorem numberReaders_exact (p : List Byte) : (∀ value rest, parseDec p = some (value, rest) ↔
      Reads decDigit 10 (2 ^ 31 - 1) (skipSpaces p) value rest) ∧
    ∃ outcome, parseHex p = .ok outcome ∧ ∀ value rest, outcome = some (value, rest) ↔
      Reads hexDigit 16 (2 ^ 64 - 1) (dropRadix (skipSpaces p)) value rest :=
  ⟨parseDec_eq_some_iff p, parseHex_ok p⟩

end LaOS.TaskConf
