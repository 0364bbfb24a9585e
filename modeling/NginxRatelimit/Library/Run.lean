import Mathlib.Data.List.Basic
import Mathlib.Order.Basic

/-!
# Runs of a deterministic machine

A machine reads one input at a time, moves to a new state, and answers. `after` is the state that a
list of inputs leads to, `outputs` the answers on the way, and `trace` the answers with the inputs
and the states in which they were given. `after_induction` is the rule for invariants of every run.
`outputs_eq_of_timedSim` compares two runs whose inputs carry times: a relation between states that
may depend on the time, and that every later input respects, makes the answers equal.
-/

namespace Library

/-- A deterministic machine with states `σ`, inputs `ι`, and an answer in `ο` to every input. -/
structure Machine (σ ι ο : Type*) where
  /-- The new state and the answer to an input. -/
  step : σ → ι → σ × ο

namespace Machine

variable {σ σ' ι ο τ : Type*} (M : Machine σ ι ο) (N : Machine σ' ι ο)

/-- The state that the inputs lead to from `s`. -/
def after (s : σ) (xs : List ι) : σ := xs.foldl (fun s x => (M.step s x).1) s

/-- Every input of a run with the state in which it was read and the answer to it. -/
def trace : σ → List ι → List (σ × ι × ο)
  | _, [] => []
  | s, x :: xs => (s, x, (M.step s x).2) :: trace (M.step s x).1 xs

/-- The answers of a run. -/
def outputs (s : σ) (xs : List ι) : List ο := (M.trace s xs).map fun e => e.2.2

/-- No inputs leave the state as it is. -/
@[simp] theorem after_nil (s : σ) : M.after s [] = s := rfl

/-- A run takes its first input, and goes on from there. -/
@[simp] theorem after_cons (s : σ) (x : ι) (xs : List ι) :
    M.after s (x :: xs) = M.after (M.step s x).1 xs := rfl

/-- The state after two runs in a row. -/
@[simp] theorem after_append (s : σ) (xs ys : List ι) :
    M.after s (xs ++ ys) = M.after (M.after s xs) ys := by
  simp [after]

/-- Nothing happens in the empty run. -/
@[simp] theorem trace_nil (s : σ) : M.trace s [] = [] := rfl

/-- The trace begins with the first input, in the state before it. -/
@[simp] theorem trace_cons (s : σ) (x : ι) (xs : List ι) :
    M.trace s (x :: xs) = (s, x, (M.step s x).2) :: M.trace (M.step s x).1 xs := rfl

/-- The empty run has no outputs. -/
@[simp] theorem outputs_nil (s : σ) : M.outputs s [] = [] := rfl

/-- The outputs begin with the one for the first input. -/
@[simp] theorem outputs_cons (s : σ) (x : ι) (xs : List ι) :
    M.outputs s (x :: xs) = (M.step s x).2 :: M.outputs (M.step s x).1 xs := rfl

/-- The trace of two runs in a row. -/
theorem trace_append (s : σ) (xs ys : List ι) :
    M.trace s (xs ++ ys) = M.trace s xs ++ M.trace (M.after s xs) ys := by
  induction xs generalizing s with
  | nil => rfl
  | cons x xs ih => simp [ih]

/-- The outputs of two runs in a row. -/
theorem outputs_append (s : σ) (xs ys : List ι) :
    M.outputs s (xs ++ ys) = M.outputs s xs ++ M.outputs (M.after s xs) ys := by
  simp [outputs, trace_append]

/-- Every input has its output. -/
@[simp] theorem length_outputs (s : σ) (xs : List ι) : (M.outputs s xs).length = xs.length := by
  induction xs generalizing s with
  | nil => rfl
  | cons x xs ih => simp [ih]

/-- A run longer by one input has one more entry in its trace. -/
theorem trace_snoc (s : σ) (xs : List ι) (x : ι) :
    M.trace s (xs ++ [x]) =
      M.trace s xs ++ [(M.after s xs, x, (M.step (M.after s xs) x).2)] := by
  rw [trace_append]
  rfl

/-- A state in a trace is reached by the inputs before it. -/
theorem exists_prefix_of_mem_trace {s : σ} {xs : List ι} {e : σ × ι × ο}
    (he : e ∈ M.trace s xs) :
    ∃ pre post, xs = pre ++ e.2.1 :: post ∧ e.1 = M.after s pre ∧
      e.2.2 = (M.step e.1 e.2.1).2 := by
  induction xs generalizing s with
  | nil => cases he
  | cons x xs ih =>
    rcases List.mem_cons.mp he with rfl | he
    · exact ⟨[], xs, rfl, rfl, rfl⟩
    · obtain ⟨pre, post, rfl, h1, h2⟩ := ih he
      exact ⟨x :: pre, post, rfl, h1, h2⟩

/-- The invariant rule: what holds at the start and is kept by every step holds after every run. -/
theorem after_induction {P : σ → Prop} {s : σ} (h0 : P s) (hstep : ∀ s x, P s → P (M.step s x).1)
    (xs : List ι) : P (M.after s xs) := by
  induction xs generalizing s with
  | nil => exact h0
  | cons x xs ih => exact ih (hstep s x h0)

/-- The same for runs whose inputs all satisfy a condition that the step may use. -/
theorem after_induction_mem {P : σ → Prop} {Q : ι → Prop} {s : σ} (h0 : P s)
    (hstep : ∀ s x, Q x → P s → P (M.step s x).1) {xs : List ι} (hxs : ∀ x ∈ xs, Q x) :
    P (M.after s xs) := by
  induction xs generalizing s with
  | nil => exact h0
  | cons x xs ih =>
    exact ih (hstep s x (hxs x (by simp)) h0) fun y hy => hxs y (by simp [hy])

/-- Where a step keeps `P` if and only if it meets a condition `Q`, a run does if and only if all of
its steps do; `I` is an invariant that this may depend on. -/
theorem after_iff {P I : σ → Prop} {Q : σ → ι → Prop} (hI : ∀ s x, I s → I (M.step s x).1)
    (hstep : ∀ s x, I s → (P (M.step s x).1 ↔ P s ∧ Q s x)) {s : σ} (h0 : I s) (xs : List ι) :
    P (M.after s xs) ↔ P s ∧ ∀ e ∈ M.trace s xs, Q e.1 e.2.1 := by
  induction xs generalizing s with
  | nil => simp
  | cons x xs ih =>
    rw [after_cons, ih (hI s x h0), hstep s x h0, trace_cons, List.forall_mem_cons, and_assoc]

/-- An input can be deleted from a run without changing the other answers when the rest of the run
is answered alike from the states before and after it. -/
theorem outputs_eraseIdx {s : σ} {pre post : List ι} {x : ι}
    (h : M.outputs (M.after s pre) post = M.outputs (M.step (M.after s pre) x).1 post) :
    M.outputs s (pre ++ post) = (M.outputs s (pre ++ x :: post)).eraseIdx pre.length := by
  rw [outputs_append, outputs_append, outputs_cons, h,
    List.eraseIdx_append_of_length_le (by simp)]
  simp

/-- An input that leaves the state as it was can be deleted from a run without changing the other
answers. -/
theorem outputs_eraseIdx_of_step_eq {s : σ} {pre post : List ι} {x : ι}
    (h : (M.step (M.after s pre) x).1 = M.after s pre) :
    M.outputs s (pre ++ post) = (M.outputs s (pre ++ x :: post)).eraseIdx pre.length :=
  M.outputs_eraseIdx (by rw [h])

section Timed

variable [Preorder τ] (time : ι → τ)

/-- A relation between the states of two machines, which may depend on the time: it survives the
passing of time, and an input with `P` that is read in related states is answered alike and leads to
related states. -/
structure TimedSim (P : ι → Prop) (R : τ → σ → σ' → Prop) : Prop where
  /-- Related states stay related as time passes. -/
  mono : ∀ {t t' s s'}, t ≤ t' → R t s s' → R t' s s'
  /-- An input read in related states is answered alike. -/
  output : ∀ {s s'} (x : ι), P x → R (time x) s s' → (M.step s x).2 = (N.step s' x).2
  /-- An input read in related states leads to related states. -/
  next : ∀ {s s'} (x : ι), P x → R (time x) s s' → R (time x) (M.step s x).1 (N.step s' x).1

/-- Runs from related states, on inputs whose times do not decrease, give the same answers. -/
theorem outputs_eq_of_timedSim {M : Machine σ ι ο} {N : Machine σ' ι ο} {time : ι → τ}
    {P : ι → Prop} {R : τ → σ → σ' → Prop} (hR : TimedSim M N time P R) {xs : List ι}
    (hP : ∀ x ∈ xs, P x) :
    ∀ {t : τ} {s : σ} {s' : σ'}, R t s s' → (∀ x ∈ xs, t ≤ time x) →
      xs.Pairwise (fun x y => time x ≤ time y) → M.outputs s xs = N.outputs s' xs := by
  induction xs with
  | nil => intros; rfl
  | cons x xs ih =>
    intro t s s' hs hle hsorted
    have hPx : P x := hP x (by simp)
    have hx : R (time x) s s' := hR.mono (hle x (by simp)) hs
    rw [List.pairwise_cons] at hsorted
    have hrest := ih (fun y hy => hP y (by simp [hy])) (hR.next x hPx hx) hsorted.1 hsorted.2
    rw [outputs_cons, outputs_cons, hR.output x hPx hx, hrest]

end Timed

end Machine

end Library
