import Mathlib.Data.List.Induction

/-!
# Inherited settings

A setting of nested contexts: a context that has it sets it, and one that has not takes it from the
context around it. On a path of contexts from the outermost one inwards, `inherited` is the value
that the last context ends up with, and it is the value of the innermost context that sets it
(`inherited_eq_innermost`).
-/

namespace Library

variable {α β : Type*}

/-- The value that is handed down a path. -/
def inherited (path : List (Option α)) : Option α :=
  path.foldl (fun outer own => own.or outer) none

/-- The value of the innermost context that has one. -/
def innermost (path : List (Option α)) : Option α := (path.filterMap id).getLast?

/-- Outside all contexts nothing is inherited. -/
@[simp] theorem inherited_nil : inherited ([] : List (Option α)) = none := rfl

/-- One level further in, what the context says itself comes first, and then what is inherited from
outside. -/
@[simp] theorem inherited_append_singleton (path : List (Option α)) (own : Option α) :
    inherited (path ++ [own]) = own.or (inherited path) := by
  simp [inherited]

/-- The innermost of a path that is one level longer. -/
@[simp] theorem innermost_append_singleton (path : List (Option α)) (own : Option α) :
    innermost (path ++ [own]) = own.or (innermost path) := by
  cases own <;> simp [innermost]

/-- The inner path comes first, and the outer one where it says nothing. -/
theorem innermost_append (path path' : List (Option α)) :
    innermost (path ++ path') = (innermost path').or (innermost path) := by
  rw [innermost, innermost, innermost, List.filterMap_append, List.getLast?_append]

/-- The outermost level is asked last. -/
theorem innermost_cons (own : Option α) (path : List (Option α)) :
    innermost (own :: path) = (innermost path).or own := by
  rw [← List.singleton_append, innermost_append, innermost, innermost]
  cases own <;> rfl

/-- Of a single level it is what the level says. -/
@[simp] theorem innermost_singleton (own : Option α) : innermost [own] = own := by
  cases own <;> rfl

/-- What is handed down is what the innermost context says. -/
theorem inherited_eq_innermost (path : List (Option α)) : inherited path = innermost path := by
  induction path using List.reverseRecOn with
  | nil => rfl
  | append_singleton path own ih => rw [inherited_append_singleton, innermost_append_singleton, ih]

/-- There is none if and only if no level says anything. -/
theorem innermost_eq_none {path : List (Option α)} : innermost path = none ↔ ∀ a, some a ∉ path := by
  rw [innermost, List.getLast?_eq_none_iff, List.filterMap_eq_nil_iff]
  constructor
  · intro h a ha
    exact absurd (h (some a) ha) (by simp)
  · intro h own hown
    cases own with
    | none => rfl
    | some a => exact absurd hown (h a)

/-- What is innermost was said by a level. -/
theorem innermost_mem {path : List (Option α)} {a : α} (h : innermost path = some a) :
    some a ∈ path := by
  obtain ⟨own, hown, ha⟩ := List.mem_filterMap.mp (List.mem_of_getLast? h)
  rw [id_eq] at ha
  rw [← ha]
  exact hown

/-- A part of the settings has an innermost one of its own, unless none has it. -/
theorem innermost_bind_isSome {path : List (Option α)} {f : α → Option β} {a : α} {b : β}
    (ha : some a ∈ path) (hf : f a = some b) : (innermost (path.map (·.bind f))).isSome = true := by
  rw [Option.isSome_iff_ne_none, ne_eq, innermost_eq_none, not_forall]
  exact ⟨b, not_not.mpr (List.mem_map.mpr ⟨some a, ha, by rw [Option.bind_some, hf]⟩)⟩

/-- When the innermost setting is of that part, it is the innermost one of it. -/
theorem innermost_bind_of_innermost {path : List (Option α)} {f : α → Option β} {a : α} {b : β}
    (ha : innermost path = some a) (hf : f a = some b) :
    innermost (path.map (·.bind f)) = some b := by
  induction path using List.reverseRecOn with
  | nil => cases ha
  | append_singleton path own ih =>
    rw [List.map_append, List.map_singleton, innermost_append_singleton]
    rw [innermost_append_singleton] at ha
    cases own with
    | none => exact ih ha
    | some c =>
      obtain rfl : c = a := Option.some.inj ha
      rw [Option.bind_some, hf]
      rfl

end Library
