import Mathlib.Data.Nat.Digits.Defs

/-!
# Decimal digits

`decimalDigits n` are the digits of `n` as they are written, most significant first and without
leading zeros, and `decimalValue` is the number that digits read from the left add up to. A reader
that refuses to go beyond a bound is compared with them through `decimalValue_le_append`: the values
that are read on the way do not exceed the last one.
-/

namespace Library

/-- The decimal digits of a number, most significant first. -/
def decimalDigits (n : ℕ) : List ℕ := if n = 0 then [0] else (Nat.digits 10 n).reverse

/-- The value of digits that are appended to a number with value `v`. -/
def decimalValue (v : ℕ) (ds : List ℕ) : ℕ := ds.foldl (fun v d => v * 10 + d) v

/-- No more digits leave the value as it is. -/
@[simp] theorem decimalValue_nil (v : ℕ) : decimalValue v [] = v := rfl

/-- A digit comes behind those that were read. -/
@[simp] theorem decimalValue_cons (v d : ℕ) (ds : List ℕ) :
    decimalValue v (d :: ds) = decimalValue (v * 10 + d) ds := rfl

/-- Appending digits does not make a number smaller. -/
theorem le_decimalValue (v : ℕ) (ds : List ℕ) : v ≤ decimalValue v ds := by
  induction ds generalizing v with
  | nil => exact le_rfl
  | cons d ds ih =>
    have h := ih (v * 10 + d)
    rw [decimalValue_cons]
    omega

/-- The digits of a number are digits. -/
theorem decimalDigits_lt {n d : ℕ} (h : d ∈ decimalDigits n) : d < 10 := by
  unfold decimalDigits at h
  split_ifs at h with hn
  · simp only [List.mem_singleton] at h
    omega
  · exact Nat.digits_lt_base (by norm_num) (List.mem_reverse.mp h)

/-- Every number has a digit, 0 too. -/
theorem decimalDigits_ne_nil (n : ℕ) : decimalDigits n ≠ [] := by
  unfold decimalDigits
  split_ifs with hn
  · exact List.cons_ne_nil 0 []
  · rw [ne_eq, List.reverse_eq_nil_iff, Nat.digits_eq_nil_iff_eq_zero]
    exact hn

/-- A number is written by at least one digit. -/
theorem exists_decimalDigits_eq_cons (n : ℕ) : ∃ d ds, decimalDigits n = d :: ds :=
  List.exists_cons_of_ne_nil (decimalDigits_ne_nil n)

/-- Reading the digits of a number gives it back. -/
theorem decimalValue_decimalDigits (n : ℕ) : decimalValue 0 (decimalDigits n) = n := by
  unfold decimalDigits
  split_ifs with hn
  · rw [hn]
    rfl
  · rw [decimalValue, List.foldl_reverse]
    calc (Nat.digits 10 n).foldr (fun d v => v * 10 + d) 0 = Nat.ofDigits 10 (Nat.digits 10 n) := by
          rw [Nat.ofDigits_eq_foldr]
          congr 1
          funext d v
          push_cast
          ring
      _ = n := Nat.ofDigits_digits 10 n

/-- A number has one digit more than its tenth. -/
theorem length_decimalDigits (n : ℕ) :
    (decimalDigits n).length = if n / 10 = 0 then 1 else (decimalDigits (n / 10)).length + 1 := by
  unfold decimalDigits
  rcases Nat.eq_zero_or_pos n with rfl | hn
  · rfl
  · rw [if_neg hn.ne', List.length_reverse, Nat.digits_def' (by norm_num) hn, List.length_cons]
    split_ifs with h
    · rw [h, Nat.digits_zero]
      rfl
    · rw [List.length_reverse]

end Library
