import Mathlib.Order.WellFounded

/-!
# What can be reached

A system whose events may be refused. Where every state that is not a goal has an event that leads
to a goal, or closer to one in a well-founded order, a goal can be reached from every state.
-/

namespace Library

variable {σ ε ρ : Type*} [LT ρ] [WellFoundedLT ρ]

/-- A goal can be reached by allowed events, as long as one of them leads closer to it. -/
theorem exists_run_of_closer {step : σ → ε → Option σ} {allowed : ε → Prop} {P goal : σ → Prop}
    (rank : σ → ρ)
    (hstep : ∀ s, P s → ∃ e s', allowed e ∧ step s e = some s' ∧
      (goal s' ∨ P s' ∧ rank s' < rank s)) {s : σ} (hs : P s) :
    ∃ (es : List ε) (s' : σ), (∀ e ∈ es, allowed e) ∧ es.foldlM step s = some s' ∧ goal s' := by
  -- The induction is on the rank, which the first event makes less.
  induction hrank : rank s using WellFoundedLT.induction generalizing s with
  | ind x ih =>
    obtain ⟨e, s', he, hs', hgoal | ⟨hP, hlt⟩⟩ := hstep s hs
    · refine ⟨[e], s', by simpa using he, ?_, hgoal⟩
      simp [hs']
    · obtain ⟨es, s'', hes, hrun, hgoal⟩ := ih (rank s') (hrank ▸ hlt) hP rfl
      refine ⟨e :: es, s'', ?_, ?_, hgoal⟩
      · intro e' he'
        rcases List.mem_cons.mp he' with rfl | he'
        · exact he
        · exact hes e' he'
      · rw [List.foldlM_cons, hs']
        exact hrun

end Library
