import Mathlib.Data.List.Basic

/-!
# Scanners

A scanner reads a text one symbol at a time, each symbol once, until it stops. What it makes of a
text is told by `scan`, which goes on where it has come to when more of the text follows
(`scan_append`), so that it does not matter how the text is cut into pieces.
-/

namespace Library

/-- A scanner with states `σ` over symbols `α`, which stops with an `ω`. -/
structure Scanner (σ α ω : Type*) where
  /-- The state after a symbol, or how the scanner stops at it. -/
  step : σ → α → σ ⊕ ω

/-- What a scanner has made of a text. -/
inductive Scanned (σ α ω : Type*) where
  /-- All of the text is read, and the scanner is in this state. -/
  | reading (s : σ)
  /-- The scanner has stopped, and has not read the rest. -/
  | stopped (e : ω) (rest : List α)

namespace Scanner

variable {σ α ω : Type*} (S : Scanner σ α ω)

/-- The scan of a text. -/
def scan : σ → List α → Scanned σ α ω
  | s, [] => .reading s
  | s, x :: xs =>
    match S.step s x with
    | .inl s => scan s xs
    | .inr e => .stopped e xs

/-- Without input a scanner goes on reading. -/
@[simp] theorem scan_nil (s : σ) : S.scan s [] = .reading s := rfl

variable {S} {s t : σ} {x : α} {e : ω}

/-- An element after which it goes on. -/
theorem scan_cons_inl (h : S.step s x = .inl t) (xs : List α) :
    S.scan s (x :: xs) = S.scan t xs := by
  rw [scan, h]

/-- An element at which it stops, with the rest unread. -/
theorem scan_cons_inr (h : S.step s x = .inr e) (xs : List α) :
    S.scan s (x :: xs) = .stopped e xs := by
  rw [scan, h]

/-- The scan goes on where it has come to. -/
theorem scan_append {xs : List α} (h : S.scan s xs = .reading t) (ys : List α) :
    S.scan s (xs ++ ys) = S.scan t ys := by
  induction xs generalizing s with
  | nil =>
    obtain rfl : s = t := Scanned.reading.inj h
    rfl
  | cons x xs ih =>
    rw [List.cons_append]
    cases hx : S.step s x with
    | inl u =>
      rw [scan_cons_inl hx] at h ⊢
      exact ih h
    | inr e =>
      rw [scan_cons_inr hx] at h
      cases h

/-- Where it has stopped it stays. -/
theorem scan_append_stopped {xs rest : List α} (h : S.scan s xs = .stopped e rest) (ys : List α) :
    S.scan s (xs ++ ys) = .stopped e (rest ++ ys) := by
  induction xs generalizing s with
  | nil => cases h
  | cons x xs ih =>
    rw [List.cons_append]
    cases hx : S.step s x with
    | inl u =>
      rw [scan_cons_inl hx] at h ⊢
      exact ih h
    | inr e' =>
      rw [scan_cons_inr hx] at h ⊢
      obtain ⟨rfl, rfl⟩ := Scanned.stopped.inj h
      rfl

end Scanner

end Library
