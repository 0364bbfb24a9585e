import Mathlib.Algebra.BigOperators.Group.List.Basic
import Mathlib.Algebra.Order.Ring.Rat
import Mathlib.Tactic.Linarith
import Mathlib.Tactic.Ring

/-!
# The level of a queue that serves work at unit rate

Work arrives in demands: `w` units that can start at `s` at the earliest. A single number, the
level, says when everything that arrived is served: a demand moves it from `z` to `max z s + w`.
Here every move may be off by `ε`. `Tracks.le_level` and `Tracks.exists_level_le` say that the level
is the greatest, over the demands, of the demand's start plus all the work from it on, up to `ε` for
every move since. A limiter's demands are the entries of its history
(`Tracks.le_level_of_history`).
-/

namespace Library

/-- `amount` units of work that can start at `start` at the earliest. -/
structure Demand where
  /-- When the work can start. -/
  start : ℚ
  /-- How much work there is. -/
  amount : ℚ

/-- The work of a list of demands. -/
def work (log : List Demand) : ℚ := (log.map Demand.amount).sum

/-- No demands are no work. -/
@[simp] theorem work_nil : work [] = 0 := rfl

/-- The work of a log, demand by demand. -/
@[simp] theorem work_cons (d : Demand) (log : List Demand) :
    work (d :: log) = d.amount + work log := by
  simp [work]

/-- The work of two logs adds up. -/
@[simp] theorem work_append (log log' : List Demand) : work (log ++ log') = work log + work log' := by
  simp [work]

/-- `z` is a level that the demands, in the order of the list, lead to when every move is off by at
most `ε`. -/
inductive Tracks (ε : ℚ) : List Demand → ℚ → Prop where
  /-- The first demand sets the level. -/
  | first {d : Demand} {z : ℚ} : |z - (d.start + d.amount)| ≤ ε → Tracks ε [d] z
  /-- A further demand starts at its own time or when the earlier work is served. -/
  | more {log : List Demand} {d : Demand} {z z' : ℚ} : Tracks ε log z →
      |z' - (max z d.start + d.amount)| ≤ ε → Tracks ε (log ++ [d]) z'

/-- Two ways to split a list that ends in `d`: at `d` itself, or before it. -/
theorem snoc_eq_append_cons {α : Type*} {log pre post : List α} {d e : α}
    (h : log ++ [d] = pre ++ e :: post) :
    (pre = log ∧ e = d ∧ post = []) ∨ ∃ post', post = post' ++ [d] ∧ log = pre ++ e :: post' := by
  rcases List.eq_nil_or_concat post with rfl | ⟨post', d', rfl⟩
  · obtain ⟨rfl, he⟩ := List.append_inj' h rfl
    exact .inl ⟨rfl, (List.head_eq_of_cons_eq he).symm, rfl⟩
  · rw [List.concat_eq_append, ← List.cons_append, ← List.append_assoc] at h
    obtain ⟨rfl, hd⟩ := List.append_inj' h rfl
    exact .inr ⟨post', by rw [List.concat_eq_append, List.head_eq_of_cons_eq hd], rfl⟩

/-- The level is at least every demand's start plus the work from it on, less `ε` for every move. -/
theorem Tracks.le_level {ε : ℚ} {log : List Demand} {z : ℚ} (h : Tracks ε log z) :
    ∀ pre d post, log = pre ++ d :: post →
      d.start + work (d :: post) - (d :: post).length * ε ≤ z := by
  induction h with
  | @first d z hz =>
    intro pre e post hsplit
    obtain ⟨-, rfl, rfl⟩ | ⟨post', -, hnil⟩ := snoc_eq_append_cons (List.nil_append [d] ▸ hsplit)
    · rw [abs_le] at hz
      simp
      linarith
    · simp at hnil
  | @more log d z z' _ hz' ih =>
    intro pre e post hsplit
    rw [abs_le] at hz'
    -- The last demand starts at its own time; for the others the induction applies.
    obtain ⟨-, rfl, rfl⟩ | ⟨post', rfl, hlog⟩ := snoc_eq_append_cons hsplit
    · have := le_max_right z e.start
      simp
      linarith
    · have hle := ih pre e post' hlog
      have := le_max_left z d.start
      simp only [work_cons, work_append, work_nil, List.length_cons, List.length_append,
        List.length_nil, Nat.cast_add, Nat.cast_one] at hle ⊢
      push_cast at hle ⊢
      linarith

/-- The level is at most some demand's start plus the work from it on, plus `ε` for every move. -/
theorem Tracks.exists_level_le {ε : ℚ} {log : List Demand} {z : ℚ} (h : Tracks ε log z) :
    ∃ pre d post, log = pre ++ d :: post ∧
      z ≤ d.start + work (d :: post) + (d :: post).length * ε := by
  induction h with
  | @first d z hz =>
    rw [abs_le] at hz
    refine ⟨[], d, [], rfl, ?_⟩
    simp
    linarith
  | @more log d z z' _ hz' ih =>
    rw [abs_le] at hz'
    -- The queue is empty when the demand comes, or it is put behind the others.
    rcases le_total z d.start with hle | hle
    · rw [max_eq_right hle] at hz'
      refine ⟨log, d, [], rfl, ?_⟩
      simp
      linarith
    · rw [max_eq_left hle] at hz'
      obtain ⟨pre, e, post, rfl, hz⟩ := ih
      refine ⟨pre, e, post ++ [d], by simp, ?_⟩
      simp only [work_cons, work_append, work_nil, List.length_cons, List.length_append,
        List.length_nil] at hz ⊢
      push_cast at hz ⊢
      linarith

section History

variable {α : Type*} {f : α → Demand} {ε z : ℚ} {log : List α}

/-- When the demands are those of a history, the level is at least what every entry of it demands
with all the later ones. -/
theorem Tracks.le_level_of_history (h : Tracks ε (log.map f) z) {earlier since : List α} {a : α}
    (hlog : log = earlier ++ a :: since) :
    (f a).start + work ((a :: since).map f) - (a :: since).length * ε ≤ z := by
  have hsplit : log.map f = earlier.map f ++ f a :: since.map f := by
    rw [hlog, List.map_append, List.map_cons]
  have hle := h.le_level _ _ _ hsplit
  rw [List.length_cons, List.length_map] at hle
  rw [List.map_cons, List.length_cons]
  exact hle

/-- And at most what some entry demands with all the later ones. -/
theorem Tracks.exists_level_le_of_history (h : Tracks ε (log.map f) z) :
    ∃ earlier a since, log = earlier ++ a :: since ∧
      z ≤ (f a).start + work ((a :: since).map f) + (a :: since).length * ε := by
  obtain ⟨pre, d, post, hsplit, hle⟩ := h.exists_level_le
  obtain ⟨earlier, rest, rfl, -, hrest⟩ := List.map_eq_append_iff.mp hsplit
  obtain ⟨a, since, rfl, rfl, rfl⟩ := List.map_eq_cons_iff.mp hrest
  refine ⟨earlier, a, since, rfl, ?_⟩
  rw [List.length_cons, List.length_map] at hle
  rw [List.map_cons, List.length_cons]
  exact hle

end History

end Library
