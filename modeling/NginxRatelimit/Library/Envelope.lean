import Mathlib.Algebra.Order.Ring.Rat
import Mathlib.Tactic.Linarith
import NginxRatelimit.Library.Ledger

/-!
# Rate envelopes

A ledger keeps an envelope when no closed interval of the clock holds more than a capacity and what
a rate gives in the interval's length, up to `ε` for every entry of the interval. It is enough to
look at a new entry together with the last ones before it, from any of them on (`Enveloped.snoc`).
-/

namespace Library

variable {τ : Type*} (clock : τ → ℚ)

/-- The closed interval of length `d` from `x`. -/
def Within (x d : ℚ) (t : τ) : Prop := x ≤ clock t ∧ clock t ≤ x + d

/-- Whether a time is in the interval can be decided. -/
instance (x d : ℚ) : DecidablePred (Within clock x d) :=
  fun _ => inferInstanceAs (Decidable (_ ∧ _))

/-- The number of entries of an interval. -/
def entriesIn (x d : ℚ) (log : List (Stamp τ)) : ℕ :=
  (log.filter fun e => Within clock x d e.time).length

/-- No closed interval holds more than the capacity and the rate times its length. -/
def Enveloped (capacity rate ε : ℚ) (log : List (Stamp τ)) : Prop :=
  ∀ x d, 0 ≤ d → (unitsIn (Within clock x d) log : ℚ) ≤
    capacity + rate * d + entriesIn clock x d log * ε

variable {clock} {capacity rate ε : ℚ}

/-- The entries of two logs in an interval add up. -/
theorem entriesIn_append (x d : ℚ) (log log' : List (Stamp τ)) :
    entriesIn clock x d (log ++ log') = entriesIn clock x d log + entriesIn clock x d log' := by
  rw [entriesIn, List.filter_append, List.length_append]
  rfl

/-- Entries of something are not more than what they hold. -/
theorem entriesIn_le_unitsIn {log : List (Stamp τ)} (h : ∀ a ∈ log, 0 < a.amount) (x d : ℚ) :
    entriesIn clock x d log ≤ unitsIn (Within clock x d) log := by
  induction log with
  | nil => exact le_rfl
  | cons a log ih =>
    have hlog := ih fun b hb => h b (by simp [hb])
    have ha := h a (by simp)
    rw [← List.singleton_append, entriesIn_append, unitsIn_append, unitsIn_cons, unitsIn_nil]
    by_cases hin : Within clock x d a.time
    · have hone : entriesIn clock x d [a] = 1 := by simp [entriesIn, hin]
      rw [if_pos hin, hone]
      omega
    · have hzero : entriesIn clock x d [a] = 0 := by simp [entriesIn, hin]
      rw [if_neg hin, hzero]
      omega

/-- The empty log is within every envelope. -/
theorem enveloped_nil (hcapacity : 0 ≤ capacity) (hrate : 0 ≤ rate) :
    Enveloped clock capacity rate ε [] := by
  intro x d hd
  have hgain := mul_nonneg hrate hd
  simp only [unitsIn_nil, entriesIn, List.filter_nil, List.length_nil, Nat.cast_zero, zero_mul]
  linarith

/-- An entry keeps the envelope when it is not before the others, within the capacity, and within
the envelope together with the last ones before it. -/
theorem Enveloped.snoc {log : List (Stamp τ)} (h : Enveloped clock capacity rate ε log)
    (hε : 0 ≤ ε) (hrate : 0 ≤ rate) {a : Stamp τ}
    (horder : log.Pairwise fun b c => clock b.time ≤ clock c.time)
    (hlast : ∀ b ∈ log, clock b.time ≤ clock a.time) (hcapacity : (a.amount : ℚ) ≤ capacity)
    (hsum : ∀ earlier b since, log = earlier ++ b :: since →
      (units (b :: since) + a.amount : ℚ) ≤
        capacity + rate * (clock a.time - clock b.time) + (b :: since).length * ε) :
    Enveloped clock capacity rate ε (log ++ [a]) := by
  intro x d hd
  have hlog := h x d hd
  have hmore : (0 : ℚ) ≤ entriesIn clock x d [a] * ε := by positivity
  rw [unitsIn_append, entriesIn_append, unitsIn_cons, unitsIn_nil, add_zero]
  push_cast
  by_cases ha : Within clock x d a.time
  · rw [if_pos ha]
    -- The interval holds the last entries, all of those that are not before `x`.
    obtain ⟨earlier, hsplit⟩ := exists_filter_eq_suffix
      (p := fun b : Stamp τ => decide (x ≤ clock b.time)) (horder.imp fun hbc hb => by
        rw [decide_eq_true_eq] at hb ⊢
        exact hb.trans hbc)
    have hfilter : (log.filter fun b => Within clock x d b.time) =
        log.filter fun b => x ≤ clock b.time := by
      refine List.filter_congr fun b hb => ?_
      have hend := (hlast b hb).trans ha.2
      simp [Within, hend]
    rw [unitsIn, entriesIn, hfilter]
    cases hin : log.filter fun b => x ≤ clock b.time with
    | nil =>
      have hgain := mul_nonneg hrate hd
      simp only [units_nil, List.length_nil, Nat.cast_zero]
      linarith
    | cons b since =>
      rw [hin] at hsplit
      have hsum := hsum earlier b since hsplit
      have hb : x ≤ clock b.time := by
        have hmem : b ∈ log.filter fun b => x ≤ clock b.time := by simp [hin]
        simpa using (List.mem_filter.mp hmem).2
      have hlength := mul_le_mul_of_nonneg_left
        (show clock a.time - clock b.time ≤ d by have := ha.2; linarith) hrate
      linarith
  · rw [if_neg ha]
    linarith

end Library
