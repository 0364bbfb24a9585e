import Mathlib.Data.List.Forall2
import Mathlib.Data.List.Induction
import NginxRatelimit.Library.Run

/-!
# Logs of a machine

A log holds the inputs that a machine was given with its answers, oldest first. `Replays` says that
the machine makes the answers of the log and reaches a state when it is given the inputs again.
`Replays.simulate` carries a log over to a simpler machine that the first one behaves like, so that
what is known of the runs of the second one holds of the log.
-/

namespace Library

/-- A member of a list has a related one in a list that is related to it. -/
theorem exists_mem_of_forall₂ {α β : Type*} {R : α → β → Prop} {l : List α} {l' : List β}
    (h : List.Forall₂ R l l') {a : α} (ha : a ∈ l) : ∃ b ∈ l', R a b := by
  induction h with
  | nil => cases ha
  | cons hab _ ih =>
    rcases List.mem_cons.mp ha with rfl | ha
    · exact ⟨_, List.mem_cons_self, hab⟩
    · obtain ⟨b, hb, hR⟩ := ih ha
      exact ⟨b, List.mem_cons_of_mem _ hb, hR⟩

namespace Machine

variable {σ σ' ι ι' ο ο' : Type*} (M : Machine σ ι ο)

/-- The inputs of a run with the answers to them. -/
def exchanges (s : σ) (xs : List ι) : List (ι × ο) := (M.trace s xs).map Prod.snd

/-- No inputs, no exchanges. -/
@[simp] theorem exchanges_nil (s : σ) : M.exchanges s [] = [] := rfl

/-- A further input is exchanged for its output in the state that was reached. -/
theorem exchanges_snoc (s : σ) (xs : List ι) (x : ι) :
    M.exchanges s (xs ++ [x]) = M.exchanges s xs ++ [(x, (M.step (M.after s xs) x).2)] := by
  rw [exchanges, trace_snoc, List.map_append]
  rfl

/-- The exchanges of a longer run go on from the state that was reached. -/
theorem exchanges_append (s : σ) (xs ys : List ι) :
    M.exchanges s (xs ++ ys) = M.exchanges s xs ++ M.exchanges (M.after s xs) ys := by
  rw [exchanges, trace_append, List.map_append]
  rfl

/-- There is one exchange for every input. -/
@[simp] theorem length_exchanges (s : σ) (xs : List ι) :
    (M.exchanges s xs).length = xs.length := by
  have h := M.length_outputs s xs
  rw [outputs, List.length_map] at h
  rw [exchanges, List.length_map, h]

/-- In a log whose answers are those of a run, an entry has the answer of the state after the
entries before it. -/
theorem answer_of_forall₂ {α : Type*} {s : σ} {f : α → ι} {P : α → ι × ο → Prop} {pre post : List α}
    {a : α} (h : List.Forall₂ P (pre ++ a :: post) (M.exchanges s ((pre ++ a :: post).map f))) :
    P a (f a, (M.step (M.after s (pre.map f)) (f a)).2) := by
  rw [List.map_append, exchanges_append] at h
  have hdrop := List.forall₂_drop_append _ _ _ h
  rw [length_exchanges, List.length_map, List.drop_left] at hdrop
  cases hdrop with
  | cons ha _ => exact ha

/-- A run has its inputs in its trace. -/
theorem map_input_trace (s : σ) (xs : List ι) : ((M.trace s xs).map fun e => e.2.1) = xs := by
  induction xs generalizing s with
  | nil => rfl
  | cons x xs ih => rw [trace_cons, List.map_cons, ih]

/-- An answer of a run is that of a state to its input. -/
theorem exists_state_of_mem_exchanges {s : σ} {xs : List ι} {x : ι × ο}
    (h : x ∈ M.exchanges s xs) : ∃ s', x.2 = (M.step s' x.1).2 := by
  obtain ⟨e, he, rfl⟩ := List.mem_map.mp h
  obtain ⟨-, -, -, -, hanswer⟩ := M.exists_prefix_of_mem_trace he
  exact ⟨e.1, hanswer⟩

/-- From `s₀` the inputs of the log lead to `s`, with the answers of the log. -/
structure Replays (s₀ : σ) (log : List (ι × ο)) (s : σ) : Prop where
  state : s = M.after s₀ (log.map Prod.fst)
  answers : log = M.exchanges s₀ (log.map Prod.fst)

variable {M}

/-- A machine that was not asked replays nothing. -/
theorem Replays.nil (s : σ) : M.Replays s [] s := ⟨rfl, rfl⟩

/-- One more input with the answer to it. -/
theorem Replays.snoc {s₀ s : σ} {log : List (ι × ο)} (h : M.Replays s₀ log s) (x : ι) :
    M.Replays s₀ (log ++ [(x, (M.step s x).2)]) (M.step s x).1 := by
  have hstate := h.state
  refine ⟨?_, ?_⟩
  · rw [List.map_append, after_append, ← hstate]
    rfl
  · rw [List.map_append, List.map_singleton, exchanges_snoc, ← hstate, ← h.answers]

/-- Where every input of the log is answered as the input `f` of it by another machine `N`, in the
state `rep` of the one that `N` reaches by the inputs before it, the log is that of a run of `N`. -/
theorem Replays.simulate {N : Machine σ' ι' ο'} (rep : σ' → σ) (f : ι → ι') (out : ο' → ο)
    {t : σ'} {s : σ} {log : List (ι × ο)} (h : M.Replays (rep t) log s)
    (hstep : ∀ pre e, pre ++ [e] <+: log → M.step (rep (N.after t (pre.map fun e => f e.1))) e.1 =
      (rep (N.step (N.after t (pre.map fun e => f e.1)) (f e.1)).1,
        out (N.step (N.after t (pre.map fun e => f e.1)) (f e.1)).2)) :
    s = rep (N.after t (log.map fun e => f e.1)) ∧
      List.Forall₂ (fun e x => x.1 = f e.1 ∧ e.2 = out x.2) log
        (N.exchanges t (log.map fun e => f e.1)) := by
  induction log using List.reverseRecOn generalizing s with
  | nil => exact ⟨h.state, .nil⟩
  | append_singleton log e ih =>
    have hstate := h.state
    have hanswers := h.answers
    rw [List.map_append, List.map_singleton, after_append] at hstate
    rw [List.map_append, List.map_singleton, exchanges_snoc] at hanswers
    obtain ⟨hlog, he⟩ := List.append_inj' hanswers rfl
    -- The log without its last entry is one of the state before it.
    obtain ⟨hbefore, hsame⟩ := ih ⟨rfl, hlog⟩ fun pre x hpre =>
      hstep pre x (hpre.trans (List.prefix_append log [e]))
    have hlast := hstep log e List.prefix_rfl
    rw [← hbefore] at hlast
    rw [List.map_append, List.map_singleton, after_append, exchanges_snoc]
    refine ⟨?_, List.rel_append hsame (.cons ⟨rfl, ?_⟩ .nil)⟩
    · rw [hstate]
      exact congrArg Prod.fst hlast
    · have hreply : e.2 = (M.step (M.after (rep t) (log.map Prod.fst)) e.1).2 :=
        congrArg Prod.snd (List.singleton_inj.mp he)
      rw [hreply]
      exact congrArg Prod.snd hlast

end Machine

end Library
