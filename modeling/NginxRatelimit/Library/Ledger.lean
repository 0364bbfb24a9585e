import Mathlib.Algebra.BigOperators.Group.List.Basic
import Mathlib.Algebra.Order.BigOperators.Group.List
import Mathlib.Algebra.Order.Ring.Nat
import Mathlib.Data.List.Nodup
import Mathlib.Data.List.Perm.Subperm

/-!
# Ledgers of time-stamped amounts

A ledger is a list of amounts with the times at which they were entered, oldest first. `units` is
the whole amount, `unitsIn p` the amount entered at times with `p`. The bounds compare the amounts
of two sets of times through the entries alone, so that a user argues about one entry at a time.
-/

namespace Library

/-- An amount entered at a time. -/
structure Stamp (τ : Type*) where
  /-- When it was entered. -/
  time : τ
  /-- How much was entered. -/
  amount : ℕ

variable {τ : Type*}

/-- The amount that a ledger holds. -/
def units (log : List (Stamp τ)) : ℕ := (log.map Stamp.amount).sum

/-- The amount entered at the times with `p`. -/
def unitsIn (p : τ → Prop) [DecidablePred p] (log : List (Stamp τ)) : ℕ :=
  units (log.filter fun e => p e.time)

/-- An empty log has no units. -/
@[simp] theorem units_nil : units ([] : List (Stamp τ)) = 0 := rfl

/-- The units of a log, entry by entry. -/
@[simp] theorem units_cons (e : Stamp τ) (log : List (Stamp τ)) :
    units (e :: log) = e.amount + units log := by
  simp [units]

/-- The units of two logs add up. -/
@[simp] theorem units_append (log log' : List (Stamp τ)) :
    units (log ++ log') = units log + units log' := by
  simp [units]

variable (p q r : τ → Prop) [DecidablePred p] [DecidablePred q] [DecidablePred r]

/-- An empty log has no units at any time. -/
@[simp] theorem unitsIn_nil : unitsIn p ([] : List (Stamp τ)) = 0 := rfl

/-- The units at the times of interest, entry by entry. -/
@[simp] theorem unitsIn_cons (e : Stamp τ) (log : List (Stamp τ)) :
    unitsIn p (e :: log) = (if p e.time then e.amount else 0) + unitsIn p log := by
  by_cases h : p e.time <;> simp [unitsIn, h]

/-- These units of two logs add up, too. -/
@[simp] theorem unitsIn_append (log log' : List (Stamp τ)) :
    unitsIn p (log ++ log') = unitsIn p log + unitsIn p log' := by
  simp [unitsIn]

/-- The amount at a set of times is at most the sum of the amounts at two sets that cover it. -/
theorem unitsIn_le_add {log : List (Stamp τ)} (h : ∀ e ∈ log, p e.time → q e.time ∨ r e.time) :
    unitsIn p log ≤ unitsIn q log + unitsIn r log := by
  induction log with
  | nil => simp
  | cons e log ih =>
    have he := h e (by simp)
    have hlog := ih fun e' he' => h e' (by simp [he'])
    simp only [unitsIn_cons]
    split_ifs <;> first | omega | simp_all

/-- The amount at a set of times is at most the amount at a larger one. -/
theorem unitsIn_mono {log : List (Stamp τ)} (h : ∀ e ∈ log, p e.time → q e.time) :
    unitsIn p log ≤ unitsIn q log := by
  induction log with
  | nil => simp
  | cons e log ih =>
    have he := h e (by simp)
    have hlog := ih fun e' he' => h e' (by simp [he'])
    simp only [unitsIn_cons]
    split_ifs <;> first | omega | simp_all

/-- No entry, no amount. -/
theorem unitsIn_eq_zero {log : List (Stamp τ)} (h : ∀ e ∈ log, ¬ p e.time) : unitsIn p log = 0 := by
  induction log with
  | nil => rfl
  | cons e log ih =>
    rw [unitsIn_cons, if_neg (h e (by simp)), ih fun e' he' => h e' (by simp [he'])]

/-- What holds of all later members when it holds of one is what holds of the last ones. -/
theorem exists_filter_eq_suffix {α : Type*} {p : α → Bool} {l : List α}
    (h : l.Pairwise fun a b => p a → p b) : ∃ pre, l = pre ++ l.filter p := by
  induction l with
  | nil => exact ⟨[], rfl⟩
  | cons a l ih =>
    rw [List.pairwise_cons] at h
    by_cases ha : p a
    · refine ⟨[], ?_⟩
      rw [List.nil_append, List.filter_cons_of_pos ha, List.filter_eq_self.mpr]
      exact fun b hb => h.1 b hb ha
    · obtain ⟨pre, hpre⟩ := ih h.2
      refine ⟨a :: pre, ?_⟩
      rw [List.filter_cons_of_neg ha, List.cons_append, ← hpre]

/-- Entries under different names that are all in another ledger are not more than it holds. -/
theorem unitsIn_le_of_subset {κ : Type*} {log log' : List (κ × Stamp τ)}
    (hnodup : (log.map Prod.fst).Nodup) (h : log ⊆ log') :
    unitsIn p (log.map Prod.snd) ≤ unitsIn p (log'.map Prod.snd) := by
  obtain ⟨l, hperm, hsublist⟩ := List.subperm_of_subset (List.Nodup.of_map _ hnodup) h
  have hsame := (((hperm.map Prod.snd).filter fun e => p e.time).map Stamp.amount).sum_eq
  have hle := ((hsublist.map Prod.snd).filter fun e => p e.time).map Stamp.amount
  rw [unitsIn, units, ← hsame]
  exact hle.sum_le_sum (by simp)

end Library
