import NginxRatelimit.Library.Envelope
import NginxRatelimit.Script.FixedWindow
import NginxRatelimit.Script.Gcra
import NginxRatelimit.Script.SlidingWindow
import NginxRatelimit.Script.TokenBucket

/-!
# What an interval can hold

Bounds on the units that a script admits in an interval of time, for runs of calls in order whose
locations do not agree on a burst. For the windows, a call that is admitted with its own limit is
admitted with a larger one too, and to the same effect, so that the run's admissions are those of a
run with one limit. For GCRA and the token bucket the level of the history bounds each admission
together with the ones before it, and the library turns that into a bound on intervals.
-/

namespace NginxRatelimit

open Library ScriptCall

section

variable {σ ι : Type} [ScriptCall ι]

/-- The admissions of a run in order are in order. -/
theorem InOrder.admissions {calls : List ι} (h : InOrder calls) (M : Machine σ ι Reply) (s : σ) :
    (admissions (M.trace s calls)).Pairwise fun a b => luaNow a.time ≤ luaNow b.time := by
  induction calls using List.reverseRecOn with
  | nil => exact .nil
  | append_singleton calls c ih =>
    obtain ⟨hcalls, hlast⟩ := h.of_snoc
    rw [Machine.trace_snoc, admissions_snoc]
    refine List.pairwise_append.mpr ⟨ih hcalls, ?_, ?_⟩
    · split_ifs
      · exact List.pairwise_singleton _ _
      · exact .nil
    · intro a ha b hb
      have hle := time_le_of_mem_admissions M hlast a ha
      split_ifs at hb
      · rw [List.mem_singleton.mp hb]
        exact luaNow_le.mpr hle
      · cases hb

/-- An admitted call is the first admission of its run. -/
theorem admissions_cons_of_admitted {e : σ × ι × Reply} (h : Admitted e)
    (trace : List (σ × ι × Reply)) :
    admissions (e :: trace) = ⟨time e.2.1, quantity e.2.1⟩ :: admissions trace := by
  simp [admissions, h]

/-- Another call is none. -/
theorem admissions_cons_of_not_admitted {e : σ × ι × Reply} (h : ¬ Admitted e)
    (trace : List (σ × ι × Reply)) : admissions (e :: trace) = admissions trace := by
  simp [admissions, h]

/-- Every admission is of something. -/
theorem amount_pos_of_mem_admissions {trace : List (σ × ι × Reply)} :
    ∀ a ∈ admissions trace, 0 < a.amount := by
  intro a ha
  obtain ⟨e, he, rfl⟩ := List.mem_map.mp ha
  exact (of_decide_eq_true (List.mem_filter.mp he).2).1

end

/-! ## The windows -/

/-- The call with another limit. -/
def WindowCall.withLimit (L : ℕ) (c : WindowCall) : WindowCall := ⟨c.time, L, c.quantity⟩

section

variable {α : Type} (M : Machine (Key α) WindowCall Reply)

/-- A call that is admitted is admitted with any larger limit, to the same effect, and one that is
not admitted writes nothing. -/
structure Lenient : Prop where
  raise : ∀ {key : Key α} {c : WindowCall} {L : ℕ}, Admitted (key, c, (M.step key c).2) →
    c.limit ≤ L → (M.step key (c.withLimit L)).2.status = 0 ∧
      (M.step key (c.withLimit L)).1 = (M.step key c).1
  rejected : ∀ {key : Key α} {c : WindowCall}, ¬ Admitted (key, c, (M.step key c).2) →
    (M.step key c).1 = key

variable {M}

/-- The admissions of a run are those of a run with one limit that is not below the run's. -/
theorem Lenient.exists_raised (h : Lenient M) {L : ℕ} {calls : List WindowCall}
    (hL : ∀ c ∈ calls, c.limit ≤ L) (horder : InOrder calls) :
    ∃ raised, (∀ c ∈ raised, c.limit = L) ∧ (∀ c ∈ raised, ∃ a ∈ calls, a.time = c.time) ∧
      InOrder raised ∧ M.after none raised = M.after none calls ∧
      admissions (M.trace none raised) = admissions (M.trace none calls) := by
  induction calls using List.reverseRecOn with
  | nil => exact ⟨[], by simp, by simp, .nil, rfl, rfl⟩
  | append_singleton calls c ih =>
    obtain ⟨hcalls, hlast⟩ := horder.of_snoc
    obtain ⟨raised, hlimit, htimes, horder, hafter, hlog⟩ :=
      ih (fun a ha => hL a (by simp [ha])) hcalls
    rw [Machine.trace_snoc, admissions_snoc, Machine.after_append, Machine.after_cons,
      Machine.after_nil]
    by_cases hadm : Admitted (M.after none calls, c, (M.step (M.after none calls) c).2)
    · -- The raised call has the same effect on the same key.
      obtain ⟨hstatus, hkey⟩ := h.raise hadm (hL c (by simp))
      refine ⟨raised ++ [c.withLimit L], ?_, ?_, ?_, ?_, ?_⟩
      · intro a ha
        rcases List.mem_append.mp ha with ha | ha
        · exact hlimit a ha
        · rw [List.mem_singleton.mp ha]
          rfl
      · intro a ha
        rcases List.mem_append.mp ha with ha | ha
        · obtain ⟨b, hb, htime⟩ := htimes a ha
          exact ⟨b, by simp [hb], htime⟩
        · rw [List.mem_singleton.mp ha]
          exact ⟨c, by simp, rfl⟩
      · refine List.pairwise_append.mpr ⟨horder, List.pairwise_singleton _ _, ?_⟩
        intro a ha b hb
        rw [List.mem_singleton.mp hb]
        obtain ⟨a', ha', htime⟩ := htimes a ha
        exact htime.symm.trans_le (hlast a' ha')
      · rw [Machine.after_append, hafter]
        exact hkey
      · rw [Machine.trace_snoc, admissions_snoc, hafter, hlog, if_pos hadm]
        rw [if_pos ⟨hadm.1, hstatus⟩]
        rfl
    · refine ⟨raised, hlimit, ?_, horder, ?_, ?_⟩
      · intro a ha
        obtain ⟨b, hb, htime⟩ := htimes a ha
        exact ⟨b, by simp [hb], htime⟩
      · rw [hafter, h.rejected hadm]
      · rw [hlog, if_neg hadm, List.append_nil]

end

namespace FixedWindow

variable (R : Rate)

/-- A call that the fixed window admits would have been admitted with a higher limit, too, and would
have left the same key. -/
theorem lenient : Lenient (fixedWindowMachine R.period) where
  raise := by
    rintro key c L ⟨hq, hs⟩ hL
    have hq : 1 ≤ c.quantity := hq
    have hroom : (Key.get key c.time).getD 0 + c.quantity ≤ c.limit := by
      by_contra hover
      rw [step_rejected R key hq (not_le.mp hover)] at hs
      exact absurd hs (one_ne_zero' ℤ)
    rw [step_admitted R key (c := c.withLimit L) hq (hroom.trans hL), step_admitted R key hq hroom]
    exact ⟨rfl, rfl⟩
  rejected := step_key_of_not_admitted R

/-- With limits up to `L`, a run in order admits at most `2 L` in a closed period. -/
theorem units_le {L : ℕ} {calls : List WindowCall} (hL : ∀ a ∈ calls, a.limit ≤ L)
    (horder : InOrder calls) (x : ℚ) :
    unitsIn (InPeriod R x) (admissions ((fixedWindowMachine R.period).trace none calls)) ≤
      2 * L := by
  obtain ⟨raised, hlimit, -, hraised, -, hlog⟩ := (lenient R).exists_raised hL horder
  rw [← hlog]
  exact (bounded_after R raised hlimit hraised).2.2 x

end FixedWindow

namespace SlidingWindow

variable (R : Rate)

/-- So would one that the sliding window admits. -/
theorem lenient : Lenient (slidingWindowMachine R.period) where
  raise := by
    rintro key c L ⟨hq, hs⟩ hL
    have hq : 1 ≤ c.quantity := hq
    have hfit := (status_eq_zero_iff R key hq).mp hs
    have hfit' : estimate R (c.withLimit L) (counts R (c.withLimit L) key) + c.quantity ≤ L :=
      hfit.trans (by exact_mod_cast hL)
    rw [step_admitted R key (c := c.withLimit L) hq hfit', step_admitted R key hq hfit]
    exact ⟨rfl, rfl⟩
  rejected := step_key_of_not_admitted R

/-- With limits up to `L`, a run in order keeps the bounds of `L`. -/
theorem smooth_of_le {L : ℕ} {calls : List WindowCall} (hL : ∀ a ∈ calls, a.limit ≤ L)
    (horder : InOrder calls) :
    Smooth R L (admissions ((slidingWindowMachine R.period).trace none calls)) := by
  obtain ⟨raised, hlimit, -, hraised, -, hlog⟩ := (lenient R).exists_raised hL horder
  rw [← hlog]
  exact smooth_after R raised hraised hlimit

end SlidingWindow

/-! ## The envelopes -/

namespace Gcra

variable (R : Rate)

/-- With bursts up to `B`, the admissions of a run in order keep the envelope. -/
theorem enveloped_after {B : ℕ} {calls : List Call} (hB : ∀ a ∈ calls, a.burst ≤ B)
    (horder : InOrder calls) :
    Enveloped luaNow (B + 1) (1 / R.emission) (ε / R.emission)
      (admissions ((gcraMachine R).trace none calls)) := by
  have hT := R.emission_pos
  have hrate : 0 ≤ 1 / R.emission := by positivity
  have hε : 0 ≤ ε / R.emission := div_nonneg (by norm_num [ε]) hT.le
  induction calls using List.reverseRecOn with
  | nil => exact enveloped_nil (by positivity) hrate
  | append_singleton calls c ih =>
    obtain ⟨hcalls, hlast⟩ := horder.of_snoc
    have hlog := ih (fun a ha => hB a (by simp [ha])) hcalls
    have hsorted := hcalls.admissions (gcraMachine R) none
    have hbefore := time_le_of_mem_admissions (s := none) (gcraMachine R) hlast
    have hkey := keyTracks_after R calls
    rw [Machine.trace_snoc, admissions_snoc]
    split_ifs with hadm
    · obtain ⟨hq, hfit⟩ := (admitted_iff R c _).mp hadm
      rw [Fits, newTat] at hfit
      have hburst : (c.burst : ℚ) ≤ B := by exact_mod_cast hB c (by simp)
      refine hlog.snoc hε hrate hsorted (fun a ha => luaNow_le.mpr (hbefore a ha)) ?_ ?_
      · -- The TAT is not before now.
        have hnow := effectiveTat_ge c.time ((gcraMachine R).after none calls)
        have hcap := (quantity_le_iff R c).mpr (by linarith)
        have hcap' : (c.quantity : ℚ) ≤ c.burst + 1 := by exact_mod_cast hcap
        exact hcap'.trans (by linarith)
      · intro earlier a since hsplit
        rcases hkey with ⟨hnil, -⟩ | ⟨tat, expiry, hsome, htr, hle⟩
        · exact absurd (hnil.symm.trans hsplit) (by simp)
        · rw [hsome, effectiveTat_some hle] at hfit
          have hlevel : luaNow a.time + work (demands R (a :: since)) - (a :: since).length * ε ≤
              tat := htr.le_level_of_history hsplit
          have htat := le_max_left tat (luaNow c.time)
          have hbound := (work_le_iff R a since c (-((a :: since).length * ε))).mp (by linarith)
          rw [neg_div, sub_neg_eq_add, mul_div_assoc] at hbound
          rw [one_div, inv_mul_eq_div]
          change (units (a :: since) + c.quantity : ℚ) ≤
            B + 1 + (luaNow c.time - luaNow a.time) / R.emission +
              (a :: since).length * (ε / R.emission)
          linarith
    · rw [List.append_nil]
      exact hlog

/-- So in a closed interval of length `d` the admitted units take, less the rounding, at most the
time that the rate gives them. -/
theorem units_mul_le {B : ℕ} {calls : List Call} (hB : ∀ a ∈ calls, a.burst ≤ B)
    (horder : InOrder calls) (x d : ℚ) (hd : 0 ≤ d) :
    (unitsIn (Within luaNow x d) (admissions ((gcraMachine R).trace none calls)) : ℚ) *
      (R.emission - ε) ≤ R.emission * (B + 1) + d := by
  have hT := R.emission_pos
  have henv := enveloped_after R hB horder x d hd
  have hpos : ∀ a ∈ admissions ((gcraMachine R).trace none calls), 0 < a.amount :=
    amount_pos_of_mem_admissions
  have hentries : entriesIn luaNow x d (admissions ((gcraMachine R).trace none calls)) ≤ _ :=
    entriesIn_le_unitsIn hpos x d
  generalize unitsIn (Within luaNow x d) (admissions ((gcraMachine R).trace none calls)) = u at *
  generalize entriesIn luaNow x d (admissions ((gcraMachine R).trace none calls)) = n at *
  have hn : (n : ℚ) * ε ≤ u * ε :=
    mul_le_mul_of_nonneg_right (by exact_mod_cast hentries) (by norm_num [ε])
  have hscaled := mul_le_mul_of_nonneg_left henv hT.le
  have hright : R.emission * (B + 1 + 1 / R.emission * d + n * (ε / R.emission)) =
      R.emission * (B + 1) + d + n * ε := by
    field_simp
  rw [hright] at hscaled
  linarith

end Gcra

namespace TokenBucket

variable (R : Rate)

/-- The writes of a run in order are in order, and not after a time that its calls are not after. -/
theorem time_le_of_mem_writes {calls : List Call} {now : ℕ} (h : ∀ a ∈ calls, a.time ≤ now) :
    ∀ e ∈ writes ((tokenBucketMachine R).trace none calls), e.time ≤ now := by
  intro e he
  obtain ⟨x, hx, rfl⟩ := List.mem_map.mp he
  obtain ⟨pre, post, hcalls, -⟩ :=
    (tokenBucketMachine R).exists_prefix_of_mem_trace (List.mem_of_mem_filter hx)
  exact h x.2.1 (by rw [hcalls]; simp)

/-- With one burst, the writes of a run in order are in order and keep the envelope. -/
theorem enveloped_after {B : ℕ} {calls : List Call} (hB : ∀ a ∈ calls, a.burst = B)
    (horder : InOrder calls) :
    let log := writes ((tokenBucketMachine R).trace none calls)
    (log.Pairwise fun a b => luaNow a.time ≤ luaNow b.time) ∧
      Enveloped luaNow (R.capacity B) R.perSecond ε log := by
  have hr := R.perSecond_pos
  have hε : 0 ≤ ε := by norm_num [ε]
  induction calls using List.reverseRecOn with
  | nil => exact ⟨.nil, enveloped_nil (R.capacity_pos B).le hr.le⟩
  | append_singleton calls c ih =>
    obtain ⟨hcalls, hlast⟩ := horder.of_snoc
    have hb : ∀ a ∈ calls, a.burst = B := fun a ha => hB a (by simp [ha])
    obtain ⟨hsorted, hlog⟩ := ih hb hcalls
    have hbefore := time_le_of_mem_writes R hlast
    have hkey := keyTracks_after R calls hb hcalls c.time hlast
    obtain ⟨-, h0, hlevel⟩ := current_of_keyTracks R hkey (hB c (by simp)) le_rfl
    have hle := current_le_capacity R hkey (hB c (by simp)) le_rfl
    have hg := granted_le R h0
    rw [Machine.trace_snoc]
    rcases Nat.eq_zero_or_pos c.quantity with hq | hq
    · rw [writes_snoc_peek _ hq]
      exact ⟨hsorted, hlog⟩
    · rw [writes_snoc R _ hq]
      refine ⟨List.pairwise_append.mpr ⟨hsorted, List.pairwise_singleton _ _, ?_⟩, ?_⟩
      · intro a ha b hb
        rw [List.mem_singleton.mp hb]
        exact luaNow_le.mpr (hbefore a ha)
      · refine hlog.snoc hε hr.le hsorted (fun a ha => luaNow_le.mpr (hbefore a ha))
          (hg.trans hle) ?_
        intro earlier a since hsplit
        rcases hlevel with ⟨hnil, -⟩ | ⟨z, htr, hz⟩
        · exact absurd (hnil.symm.trans hsplit) (by simp)
        · have hbound : R.perSecond * luaNow a.time + work (demands R (a :: since)) -
              (a :: since).length * ε ≤ z := htr.le_level_of_history hsplit
          have hmax := le_max_left z (R.perSecond * luaNow c.time)
          rw [work_demands] at hbound
          dsimp only
          linarith

/-- What is admitted is what the writes grant. -/
theorem unitsIn_writes (P : ℕ → Prop) [DecidablePred P]
    (trace : List (Key Bucket × Call × Reply)) :
    unitsIn P (writes trace) = unitsIn P (admissions trace) := by
  induction trace with
  | nil => rfl
  | cons e trace ih =>
    by_cases hq : 0 < e.2.1.quantity
    · have hwrites : writes (e :: trace) =
          ⟨e.2.1.time, if e.2.2.status = 0 then e.2.1.quantity else 0⟩ :: writes trace := by
        simp [writes, hq]
      by_cases hs : e.2.2.status = 0
      · rw [hwrites, admissions_cons_of_admitted ⟨hq, hs⟩, unitsIn_cons, unitsIn_cons, ih, if_pos hs]
        rfl
      · rw [hwrites, admissions_cons_of_not_admitted fun h => hs h.2, unitsIn_cons, ih, if_neg hs,
          ite_self, Nat.zero_add]
    · have hwrites : writes (e :: trace) = writes trace := by simp [writes, hq]
      rw [hwrites, admissions_cons_of_not_admitted fun h => hq h.1, ih]

/-- Every write is that of a call. -/
theorem entriesIn_writes_le (x d : ℚ) (trace : List (Key Bucket × Call × Reply)) :
    entriesIn luaNow x d (writes trace) ≤
      ((trace.map fun e => e.2.1).filter fun c => Within luaNow x d c.time).length := by
  rw [entriesIn, writes, List.filter_map, List.filter_map, List.length_map, List.length_map,
    List.filter_filter]
  refine List.Sublist.length_le (List.monotone_filter_right trace fun e he => ?_)
  exact (Bool.and_eq_true_iff.mp he).1

end TokenBucket

end NginxRatelimit
