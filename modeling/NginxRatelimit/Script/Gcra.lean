import Mathlib.Tactic.Positivity
import NginxRatelimit.Library.Backlog
import NginxRatelimit.Script.Lua

/-!
# GCRA and its rate envelope

The stored TAT is the level of a queue that serves one unit every `T` seconds: an admitted call is a
demand of `T * quantity` seconds of work. `KeyTracks` says so of the key, rounding and expiry
included, and `keyTracks_after` of the key after any run. The level is then unfolded over the
history by the library, which gives the envelope in both directions.
-/

namespace NginxRatelimit

open Library ScriptCall

/-- `emission`: the seconds that one unit takes. -/
def Rate.emission (R : Rate) : ℚ := R.period / R.requests

/-- A unit takes some time. -/
theorem Rate.emission_pos (R : Rate) : 0 < R.emission := by
  have hr : (0 : ℚ) < R.requests := by exact_mod_cast R.requests_pos
  have hp : (0 : ℚ) < R.period := by exact_mod_cast R.period_pos
  exact div_pos hp hr

namespace Gcra

variable (R : Rate)

/-- The `new_tat` of a call. -/
def newTat (c : Call) (key : Key ℚ) : ℚ :=
  effectiveTat c.time key + R.emission * c.quantity

/-- The call is within the horizon: the test that admits it. -/
def Fits (c : Call) (key : Key ℚ) : Prop :=
  newTat R c key ≤ luaNow c.time + R.emission * (c.burst + 1)

/-- The TAT that a call starts from is not in the past. -/
theorem effectiveTat_ge (now : ℕ) (key : Key ℚ) : luaNow now ≤ effectiveTat now key := by
  simp only [effectiveTat]
  split_ifs with h
  · exact le_rfl
  · exact not_lt.mp h

/-- How far the call is inside the horizon: the `diff` of the script. -/
def slack (c : Call) (key : Key ℚ) : ℚ :=
  luaNow c.time - (newTat R c key - R.emission * (c.burst + 1))

/-- A call fits where its slack is not negative. -/
theorem slack_nonneg_iff {c : Call} {key : Key ℚ} : 0 ≤ slack R c key ↔ Fits R c key := by
  unfold slack Fits
  constructor <;> intro h <;> linarith

/-- A peek reports the whole units that fit into the horizon, and writes nothing. -/
theorem step_peek {c : Call} (key : Key ℚ) (hq : c.quantity = 0) :
    (gcraMachine R).step key c =
      (key,
        let avail := atMost (c.burst + 1) ⌊slack R c key / R.emission⌋
        ⟨if avail < 1 then 1 else 0, c.burst + 1, avail, -1,
          atLeast 0 ⌈effectiveTat c.time key - luaNow c.time⌉⟩) := by
  simp [gcraMachine, gcra, hq, slack, newTat, Rate.emission]

/-- A call that does not fit is rejected, and writes nothing. -/
theorem step_rejected {c : Call} {key : Key ℚ} (hq : 1 ≤ c.quantity) (h : ¬ Fits R c key) :
    (gcraMachine R).step key c =
      (key, ⟨1, c.burst + 1, 0, atLeast 1 ⌈-slack R c key⌉,
        atLeast 0 ⌈effectiveTat c.time key - luaNow c.time⌉⟩) := by
  have hq' : c.quantity ≠ 0 := by omega
  have hdiff : slack R c key < 0 := by
    rw [← slack_nonneg_iff, not_le] at h
    exact h
  simp only [slack, newTat, Rate.emission] at hdiff ⊢
  simp only [gcraMachine, gcra, if_neg hq', if_pos hdiff]

/-- A call that fits is admitted, and stores its rounded `new_tat`. -/
theorem step_admitted {c : Call} {key : Key ℚ} (hq : 1 ≤ c.quantity) (h : Fits R c key) :
    (gcraMachine R).step key c =
      (Key.expire (Key.set (fmt6 (newTat R c key))) c.time
          (atLeast 1 ⌈newTat R c key - luaNow c.time⌉),
        ⟨0, c.burst + 1, ⌊slack R c key / R.emission⌋, -1,
          atLeast 0 ⌈newTat R c key - luaNow c.time⌉⟩) := by
  have hq' : c.quantity ≠ 0 := by omega
  have hdiff : ¬ slack R c key < 0 := not_lt.mpr (slack_nonneg_iff R |>.mpr h)
  simp only [slack, newTat, Rate.emission] at hdiff ⊢
  simp only [gcraMachine, gcra, if_neg hq', if_neg hdiff]

/-- A consuming call is admitted when it fits. -/
theorem status_eq_zero_iff {c : Call} (key : Key ℚ) (hq : 1 ≤ c.quantity) :
    ((gcraMachine R).step key c).2.status = 0 ↔ Fits R c key := by
  by_cases h : Fits R c key
  · simp [step_admitted R hq h, h]
  · simp [step_rejected R hq h, h]

/-- A call is admitted if and only if it consumes and fits. -/
theorem admitted_iff (c : Call) (key : Key ℚ) :
    Admitted (key, c, ((gcraMachine R).step key c).2) ↔ 1 ≤ c.quantity ∧ Fits R c key :=
  and_congr_right fun hq => status_eq_zero_iff R key hq

/-- Peeks and rejected calls write nothing. -/
theorem step_key_of_not_admitted {c : Call} {key : Key ℚ}
    (h : ¬ (1 ≤ c.quantity ∧ Fits R c key)) : ((gcraMachine R).step key c).1 = key := by
  rcases Nat.eq_zero_or_pos c.quantity with hq | hq
  · rw [step_peek R key hq]
  · rw [step_rejected R hq fun hfit => h ⟨hq, hfit⟩]

/-- An admitted call stores its rounded `new_tat`, with an expiry that is not before it. -/
theorem step_key_of_admitted {c : Call} {key : Key ℚ} (hq : 1 ≤ c.quantity) (h : Fits R c key) :
    ∃ expiry, ((gcraMachine R).step key c).1 = some ⟨fmt6 (newTat R c key), some expiry⟩ ∧
      fmt6 (newTat R c key) ≤ luaNow expiry := by
  set ttl : ℤ := atLeast 1 ⌈newTat R c key - luaNow c.time⌉ with httl
  have hpos : 0 < ttl := by rw [httl, atLeast_eq_max]; omega
  have hcast : ((ttl.toNat : ℕ) : ℚ) = ttl := by exact_mod_cast Int.toNat_of_nonneg hpos.le
  have hceil : newTat R c key - luaNow c.time ≤ ttl := by
    have hle : ⌈newTat R c key - luaNow c.time⌉ ≤ ttl := by
      rw [httl, atLeast_eq_max]
      exact le_max_right _ _
    exact (Int.le_ceil _).trans (by exact_mod_cast hle)
  refine ⟨c.time + second * ttl.toNat, ?_, ?_⟩
  · rw [step_admitted R hq h]
    exact Key.expire_set c.time _ hpos
  · -- The expiry is a server time, so it stays above the rounded value too.
    apply fmt6_le (sixDecimals_luaNow _)
    rw [luaNow_add_seconds, hcast]
    linarith

/-- Admissions as work for the queue. -/
def demands (log : List (Stamp ℕ)) : List Demand :=
  log.map fun s => ⟨luaNow s.time, R.emission * s.amount⟩

/-- The rounding error of one write. -/
def ε : ℚ := 5 / 10000000

/-- What the key holds after the admissions of `log`: nothing, or their level, with an expiry that
is not before it. -/
def KeyTracks (log : List (Stamp ℕ)) (key : Key ℚ) : Prop :=
  (log = [] ∧ key = none) ∨
    ∃ tat expiry, key = some ⟨tat, some expiry⟩ ∧ Tracks ε (demands R log) tat ∧
      tat ≤ luaNow expiry

/-- A call that finds a TAT works with it or with its own time, whichever is later. -/
theorem effectiveTat_of_get {key : Key ℚ} {now : ℕ} {tat : ℚ} (h : Key.get key now = some tat) :
    effectiveTat now key = max tat (luaNow now) := by
  rw [effectiveTat, h, Option.getD_some]
  split_ifs with hlt
  · exact (max_eq_right hlt.le).symm
  · exact (max_eq_left (not_lt.mp hlt)).symm

/-- And so it does when the key expired, which was not before the TAT. -/
theorem effectiveTat_some {tat : ℚ} {expiry : ℕ} (h : tat ≤ luaNow expiry) (now : ℕ) :
    effectiveTat now (some ⟨tat, some expiry⟩) = max tat (luaNow now) := by
  by_cases hlive : now < expiry
  · apply effectiveTat_of_get
    rw [Key.get_some_some, if_pos hlive]
  · have hpast : tat ≤ luaNow now := h.trans (luaNow_le.mpr (not_lt.mp hlive))
    simp [effectiveTat, if_neg hlive, max_eq_right hpast]

/-- Without a key the TAT is now. -/
theorem effectiveTat_none (now : ℕ) : effectiveTat now (none : Key ℚ) = luaNow now := by
  simp [effectiveTat]

/-- One call keeps the key at the level of the admissions. -/
theorem keyTracks_step {log : List (Stamp ℕ)} {key : Key ℚ} (c : Call)
    (h : KeyTracks R log key) :
    KeyTracks R
      (log ++ if Admitted (key, c, ((gcraMachine R).step key c).2) then [⟨c.time, c.quantity⟩]
        else [])
      ((gcraMachine R).step key c).1 := by
  by_cases hadm : Admitted (key, c, ((gcraMachine R).step key c).2)
  · obtain ⟨hq, hfit⟩ := (admitted_iff R c key).mp hadm
    obtain ⟨expiry, hkey, hle⟩ := step_key_of_admitted R hq hfit
    refine .inr ⟨_, expiry, hkey, ?_, hle⟩
    -- An admitted call writes the new TAT, rounded.
    have hround : |fmt6 (newTat R c key) - newTat R c key| ≤ ε := abs_fmt6_sub_le _
    rw [if_pos hadm, demands, List.map_append]
    rcases h with ⟨rfl, rfl⟩ | ⟨tat, expiry', rfl, htr, hle'⟩
    · rw [newTat, effectiveTat_none] at hround
      rw [newTat, effectiveTat_none]
      exact Tracks.first hround
    · rw [newTat, effectiveTat_some hle'] at hround
      rw [newTat, effectiveTat_some hle']
      exact Tracks.more htr hround
  · rw [if_neg hadm, List.append_nil,
      step_key_of_not_admitted R (mt (admitted_iff R c key).mpr hadm)]
    exact h

/-- The key after any run is at the level of the run's admissions. -/
theorem keyTracks_after (calls : List Call) :
    KeyTracks R (admissions ((gcraMachine R).trace none calls))
      ((gcraMachine R).after none calls) := by
  induction calls using List.reverseRecOn with
  | nil => exact .inl ⟨rfl, rfl⟩
  | append_singleton calls c ih =>
    rw [Machine.trace_snoc, admissions_snoc, Machine.after_append]
    exact keyTracks_step R c ih

/-- The work of admissions is the time that their units take. -/
theorem work_demands (log : List (Stamp ℕ)) :
    work (demands R log) = R.emission * units log := by
  induction log with
  | nil => simp [demands]
  | cons s log ih =>
    simp only [demands, List.map_cons, work_cons, units_cons] at ih ⊢
    rw [ih]
    push_cast
    ring

/-- The queue's bound on one admission, in the units of the limiter. -/
theorem work_le_iff (a : Stamp ℕ) (since : List (Stamp ℕ)) (c : Call) (e : ℚ) :
    luaNow a.time + work (demands R (a :: since)) + e + R.emission * c.quantity ≤
        luaNow c.time + R.emission * (c.burst + 1) ↔
      (units (a :: since) + c.quantity : ℚ) ≤
        (c.burst + 1) + (luaNow c.time - luaNow a.time) / R.emission - e / R.emission := by
  have hT := R.emission_pos
  have hscale : (c.burst + 1) + (luaNow c.time - luaNow a.time) / R.emission - e / R.emission =
      (R.emission * (c.burst + 1) + (luaNow c.time - luaNow a.time) - e) / R.emission := by
    field_simp
  rw [work_demands, hscale, le_div_iff₀ hT]
  constructor <;> intro h <;> linarith

/-- The quantity is at most the burst capacity when it fits from the call's own time. -/
theorem quantity_le_iff (c : Call) :
    c.quantity ≤ c.burst + 1 ↔
      luaNow c.time + R.emission * c.quantity ≤ luaNow c.time + R.emission * (c.burst + 1) := by
  rw [add_le_add_iff_left, mul_le_mul_iff_right₀ R.emission_pos]
  norm_cast

end Gcra

open Gcra in
/-- GCRA enforces its rate envelope. For a consuming call after any calls on the key: if it is
admitted, its quantity is at most the burst capacity and, from every earlier admission on, the units
admitted with this call's are at most the capacity and what the rate gives since then, up to the
rounding of the writes since then; and it is admitted if they are so with the rounding against
it. -/
theorem gcra_envelope (R : Rate) (calls : List Call) (c : Call) (hq : 1 ≤ c.quantity) :
    let log := admissions ((gcraMachine R).trace none calls)
    let reply := ((gcraMachine R).step ((gcraMachine R).after none calls) c).2
    (reply.status = 0 → c.quantity ≤ c.burst + 1 ∧
      ∀ earlier a since, log = earlier ++ a :: since →
        (units (a :: since) + c.quantity : ℚ) ≤
          (c.burst + 1) + (luaNow c.time - luaNow a.time) / R.emission +
            (a :: since).length * (5 / 10000000) / R.emission) ∧
    ((c.quantity ≤ c.burst + 1 ∧
      ∀ earlier a since, log = earlier ++ a :: since →
        (units (a :: since) + c.quantity : ℚ) ≤
          (c.burst + 1) + (luaNow c.time - luaNow a.time) / R.emission -
            (a :: since).length * (5 / 10000000) / R.emission) → reply.status = 0) := by
  intro log reply
  have hkey := keyTracks_after R calls
  rw [status_eq_zero_iff R _ hq, Fits, newTat]
  constructor
  · -- The level is at least what the admissions from any one on demand.
    intro hfit
    have hnow := effectiveTat_ge c.time ((gcraMachine R).after none calls)
    refine ⟨(quantity_le_iff R c).mpr (by linarith), ?_⟩
    intro earlier a since hlog
    rcases hkey with ⟨hnil, -⟩ | ⟨tat, expiry, hsome, htr, hle⟩
    · exact absurd (hnil.symm.trans hlog) (by simp)
    · rw [hsome, effectiveTat_some hle] at hfit
      have hlevel : luaNow a.time + work (demands R (a :: since)) - (a :: since).length * ε ≤ tat :=
        htr.le_level_of_history hlog
      have htat := le_max_left tat (luaNow c.time)
      have hbound := (work_le_iff R a since c (-((a :: since).length * ε))).mp (by linarith)
      simp only [ε] at hbound
      rw [neg_div, sub_neg_eq_add] at hbound
      exact hbound
  · -- And it is at most what those from some one on demand.
    rintro ⟨hcap, hsum⟩
    have hown := (quantity_le_iff R c).mp hcap
    rcases hkey with ⟨-, hnone⟩ | ⟨tat, expiry, hsome, htr, hle⟩
    · rw [hnone, effectiveTat_none]
      exact hown
    · rw [hsome, effectiveTat_some hle]
      obtain ⟨earlier, a, since, hlog, hle⟩ := htr.exists_level_le_of_history
      have hlevel : tat ≤ luaNow a.time + work (demands R (a :: since)) + (a :: since).length * ε :=
        hle
      have hbound := (work_le_iff R a since c ((a :: since).length * ε)).mpr
        (hsum earlier a since hlog)
      rcases max_cases tat (luaNow c.time) with ⟨hmax, -⟩ | ⟨hmax, -⟩
      · rw [hmax]
        linarith
      · rw [hmax]
        exact hown

/-- At three requests in two seconds and one second after a unit was taken, one more unit is
within the envelope of a burst of two, and is admitted. -/
theorem gcra_envelope_second_call :
    1 ≤ (⟨2000000, 2, 1⟩ : Call).quantity ∧
      ((gcraMachine ⟨3, 2, by decide, by decide⟩).step
        ((gcraMachine ⟨3, 2, by decide, by decide⟩).after none [⟨1000000, 2, 1⟩])
        ⟨2000000, 2, 1⟩).2.status = 0 ∧ (1 : ℕ) ≤ 2 + 1 :=
  have hq : 1 ≤ (⟨2000000, 2, 1⟩ : Call).quantity := by decide
  have hadm : ((gcraMachine ⟨3, 2, by decide, by decide⟩).step
      ((gcraMachine ⟨3, 2, by decide, by decide⟩).after none [⟨1000000, 2, 1⟩])
      ⟨2000000, 2, 1⟩).2.status = 0 := by decide +kernel
  ⟨hq, hadm, ((gcra_envelope ⟨3, 2, by decide, by decide⟩ [⟨1000000, 2, 1⟩] ⟨2000000, 2, 1⟩ hq).1
    hadm).1⟩

end NginxRatelimit
