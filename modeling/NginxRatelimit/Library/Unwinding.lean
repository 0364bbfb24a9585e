import NginxRatelimit.Library.Run

/-!
# Unwinding

Some inputs of a machine are visible to an observer. The others do not interfere when the visible
ones are answered as they are without them. For that it is enough to find a relation between states
that visible inputs cannot tell apart and that other inputs do not leave: `Unwinding`.
-/

namespace Library

namespace Machine

variable {σ ι ο : Type*} (M : Machine σ ι ο) (P : ι → Prop) [DecidablePred P]

/-- The answers to the visible inputs of a run. -/
def outputsAt (s : σ) (xs : List ι) : List ο :=
  ((M.trace s xs).filter fun e => P e.2.1).map fun e => e.2.2

/-- The empty run has no visible outputs. -/
@[simp] theorem outputsAt_nil (s : σ) : M.outputsAt P s [] = [] := rfl

/-- A visible input contributes its output. -/
theorem outputsAt_cons_of_visible {x : ι} (hx : P x) (s : σ) (xs : List ι) :
    M.outputsAt P s (x :: xs) = (M.step s x).2 :: M.outputsAt P (M.step s x).1 xs := by
  simp [outputsAt, hx]

/-- An invisible one contributes nothing, but the state moves. -/
theorem outputsAt_cons_of_not_visible {x : ι} (hx : ¬ P x) (s : σ) (xs : List ι) :
    M.outputsAt P s (x :: xs) = M.outputsAt P (M.step s x).1 xs := by
  simp [outputsAt, hx]

/-- Visible inputs cannot tell related states apart, and other inputs lead to related states. -/
structure Unwinding (R : σ → σ → Prop) : Prop where
  /-- A visible input is answered alike in related states. -/
  output : ∀ {s s'} (x : ι), P x → R s s' → (M.step s x).2 = (M.step s' x).2
  /-- A visible input leads from related states to related states. -/
  next : ∀ {s s'} (x : ι), P x → R s s' → R (M.step s x).1 (M.step s' x).1
  /-- Another input leads to a state that is related to all that the one before was related to. -/
  skip : ∀ {s s'} (x : ι), ¬ P x → R s s' → R (M.step s x).1 s'

variable {M P}

/-- The visible inputs are answered as in a run without the others. -/
theorem Unwinding.outputsAt_eq {R : σ → σ → Prop} (h : M.Unwinding P R) (xs : List ι) :
    ∀ {s s' : σ}, R s s' → M.outputsAt P s xs = M.outputs s' (xs.filter P) := by
  induction xs with
  | nil =>
    intro s s' _
    rfl
  | cons x xs ih =>
    intro s s' hs
    by_cases hx : P x
    · rw [outputsAt_cons_of_visible M P hx, List.filter_cons_of_pos (by simpa using hx),
        outputs_cons, h.output x hx hs, ih (h.next x hx hs)]
    · rw [outputsAt_cons_of_not_visible M P hx, List.filter_cons_of_neg (by simpa using hx)]
      exact ih (h.skip x hx hs)

end Machine

end Library
