import Mathlib.Data.List.Basic

/-!
# Decoders

A decoder takes a value from the beginning of a text and leaves the rest. It reads back an encoding
when it gets every value from its code, whatever follows (`Reads`). So it does for the literals, the
fields of a given length and the sequences that decoders are built from, and texts of one code after
the other are taken apart again (`Reads.whole`).
-/

namespace Library

/-- A decoder of values `β` from texts over `α`. -/
def Decoder (α β : Type*) := List α → Option (β × List α)

namespace Decoder

variable {α β γ : Type*}

/-- No text. -/
def pure (b : β) : Decoder α β := fun w => some (b, w)

/-- No value. -/
def fail : Decoder α β := fun _ => none

/-- One decoder after the other. -/
def bind (d : Decoder α β) (f : β → Decoder α γ) : Decoder α γ := fun w =>
  match d w with
  | some (b, rest) => f b rest
  | none => none

/-- This text. -/
def literal [DecidableEq α] (text : List α) : Decoder α Unit := fun w =>
  if text <+: w then some ((), w.drop text.length) else none

/-- The next `n` symbols. -/
def field (n : ℕ) : Decoder α (List α) := fun w =>
  if n ≤ w.length then some (w.take n, w.drop n) else none

/-- The symbols with `p`, which are not the last ones. -/
def span (p : α → Bool) : Decoder α (List α) := fun w =>
  match w.dropWhile p with
  | [] => none
  | x :: rest => some (w.takeWhile p, x :: rest)

/-- `n` values. -/
def times (d : Decoder α β) : ℕ → Decoder α (List β)
  | 0 => pure []
  | n + 1 => d.bind fun b => (d.times n).bind fun bs => pure (b :: bs)

/-- At most `fuel` values, up to the end of the text. -/
def wholeFuel (d : Decoder α β) : ℕ → List α → Option (List β)
  | _, [] => some []
  | 0, _ :: _ => none
  | fuel + 1, x :: xs =>
    match d (x :: xs) with
    | some (b, rest) => (d.wholeFuel fuel rest).map (b :: ·)
    | none => none

/-- All values up to the end of the text. -/
def whole (d : Decoder α β) (w : List α) : Option (List β) := d.wholeFuel w.length w

/-- The decoder reads back what the encoder writes. -/
def Reads (d : Decoder α β) (enc : β → List α) : Prop :=
  ∀ b rest, d (enc b ++ rest) = some (b, rest)

/-- What a decoder makes of a text decides what the rest is for the next one. -/
theorem bind_eq {d : Decoder α β} {f : β → Decoder α γ} {w rest : List α} {b : β}
    (h : d w = some (b, rest)) : d.bind f w = f b rest := by
  rw [bind, h]

/-- A literal is read off the front. -/
theorem literal_append [DecidableEq α] (text rest : List α) :
    literal text (text ++ rest) = some ((), rest) := by
  rw [literal, if_pos (List.prefix_append text rest), List.drop_left]

/-- So is a field of a known length. -/
theorem field_append (w rest : List α) : field w.length (w ++ rest) = some (w, rest) := by
  rw [field, if_pos (by rw [List.length_append]; exact Nat.le_add_right _ _), List.take_left,
    List.drop_left]

/-- So is a span, up to the first element that does not belong to it. -/
theorem span_append {p : α → Bool} {w : List α} (hw : ∀ x ∈ w, p x = true) {x : α} (hx : p x = false)
    (rest : List α) : span p (w ++ x :: rest) = some (w, x :: rest) := by
  have hdrop : (w ++ x :: rest).dropWhile p = x :: rest := by
    rw [List.dropWhile_append_of_pos hw, List.dropWhile_cons_of_neg (by simp [hx])]
  have htake : (w ++ x :: rest).takeWhile p = w := by
    rw [List.takeWhile_append_of_pos hw, List.takeWhile_cons_of_neg (by simp [hx]), List.append_nil]
  rw [span, hdrop, htake]

namespace Reads

variable {d : Decoder α β} {enc : β → List α}

/-- Codes one after the other, of which the number is known. -/
theorem times (h : Reads d enc) (bs : List β) (rest : List α) :
    d.times bs.length (bs.flatMap enc ++ rest) = some (bs, rest) := by
  induction bs with
  | nil => rfl
  | cons b bs ih =>
    rw [List.flatMap_cons, List.append_assoc, List.length_cons, Decoder.times, bind_eq (h b _),
      bind_eq ih]
    rfl

/-- A decoder that reads what is encoded reads a whole stream of it, one element for one unit of
fuel. -/
theorem wholeFuel (h : Reads d enc) (hne : ∀ b, enc b ≠ []) (bs : List β) {fuel : ℕ}
    (hfuel : bs.length ≤ fuel) : d.wholeFuel fuel (bs.flatMap enc) = some bs := by
  induction bs generalizing fuel with
  | nil => cases fuel <;> rfl
  | cons b bs ih =>
    obtain ⟨x, xs, hb⟩ := List.exists_cons_of_ne_nil (hne b)
    cases fuel with
    | zero => cases hfuel
    | succ fuel =>
      have hread := h b (bs.flatMap enc)
      rw [hb, List.cons_append] at hread
      rw [List.flatMap_cons, hb, List.cons_append, Decoder.wholeFuel, hread]
      dsimp only
      rw [ih (Nat.le_of_succ_le_succ hfuel)]
      rfl

/-- Codes one after the other up to the end of the text. -/
theorem whole (h : Reads d enc) (hne : ∀ b, enc b ≠ []) (bs : List β) :
    d.whole (bs.flatMap enc) = some bs := by
  refine h.wholeFuel hne bs ?_
  induction bs with
  | nil => exact Nat.zero_le _
  | cons b bs ih =>
    have hpos := List.length_pos_iff.mpr (hne b)
    rw [List.flatMap_cons, List.length_append, List.length_cons]
    omega

end Reads

end Decoder

end Library
