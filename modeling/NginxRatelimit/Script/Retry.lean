import NginxRatelimit.Script.Gcra
import NginxRatelimit.Script.SlidingWindow

/-!
# When a rejected call is admitted

A rejected call leaves the key as it was, so its `retry_after` is right when the call fits at that
later time. GCRA admits a call from a fixed time on, and its `retry_after` is the least number of
seconds that reaches it (`gcra_retryAfter_isLeast`). The sliding window solves for the time in the
window in progress, and where that has no solution waits for the next window, in which the count of
this one comes back as the previous count. `slidingWindow_retryAfter_iff` says when that still
leaves no room.
-/

namespace NginxRatelimit

open Library ScriptCall

/-- The same call, some seconds later. -/
def Call.later (c : Call) (s : ℤ) : Call := { c with time := c.time + second * s.toNat }

/-- The same call, some seconds later. -/
def WindowCall.later (c : WindowCall) (s : ℤ) : WindowCall :=
  { c with time := c.time + second * s.toNat }

/-- A delay in whole seconds is added to the time that the script sees. -/
theorem luaNow_add_toNat (now : ℕ) {s : ℤ} (hs : 0 ≤ s) :
    luaNow (now + second * s.toNat) = luaNow now + s := by
  have hcast : ((s.toNat : ℕ) : ℚ) = s := by exact_mod_cast Int.toNat_of_nonneg hs
  rw [luaNow_add_seconds, hcast]

/-- The least whole number of seconds, but not zero, after which the clock has reached `x`. -/
theorem isLeast_delay (x : ℚ) (now : ℕ) :
    IsLeast {s : ℤ | 1 ≤ s ∧ x ≤ luaNow (now + second * s.toNat)}
      (atLeast 1 ⌈x - luaNow now⌉) := by
  have hreach : ∀ s : ℤ, 1 ≤ s →
      (x ≤ luaNow (now + second * s.toNat) ↔ ⌈x - luaNow now⌉ ≤ s) := by
    intro s hs
    rw [luaNow_add_toNat now (by omega), Int.ceil_le]
    constructor <;> intro h <;> linarith
  rw [atLeast_eq_max]
  refine ⟨⟨le_max_left _ _, ?_⟩, ?_⟩
  · rw [hreach _ (le_max_left _ _)]
    exact le_max_right _ _
  · rintro s ⟨hs, hx⟩
    exact max_le hs ((hreach s hs).mp hx)

/-! ## GCRA -/

namespace Gcra

variable (R : Rate)

/-- What any run leaves in the key is a level: a call finds it, or its own time when that is later.
-/
theorem exists_level_after (calls : List Call) :
    ∃ level : ℚ, ∀ now, effectiveTat now ((gcraMachine R).after none calls) =
      max level (luaNow now) := by
  rcases keyTracks_after R calls with ⟨-, hnone⟩ | ⟨tat, expiry, hsome, -, hle⟩
  · rw [hnone]
    exact ⟨0, fun now => by rw [effectiveTat_none, max_eq_right (luaNow_nonneg now)]⟩
  · rw [hsome]
    exact ⟨tat, effectiveTat_some hle⟩

/-- The time from which a call fits, on a key with this level. -/
def fitsFrom (level : ℚ) (c : Call) : ℚ :=
  level + R.emission * c.quantity - R.emission * (c.burst + 1)

/-- A call within the burst capacity fits from that time on. -/
theorem fits_iff_fitsFrom_le {key : Key ℚ} {level : ℚ}
    (hlevel : ∀ now, effectiveTat now key = max level (luaNow now)) {c : Call}
    (hcap : c.quantity ≤ c.burst + 1) : Fits R c key ↔ fitsFrom R level c ≤ luaNow c.time := by
  have hown := (quantity_le_iff R c).mp hcap
  unfold Fits newTat fitsFrom
  rw [hlevel]
  rcases max_cases level (luaNow c.time) with ⟨hmax, hle⟩ | ⟨hmax, hlt⟩
  · rw [hmax]
    constructor <;> intro h <;> linarith
  · rw [hmax]
    exact iff_of_true hown (by linarith)

/-- What a call that does not fit lacks is the time until it does. -/
theorem neg_slack_eq {key : Key ℚ} {level : ℚ}
    (hlevel : ∀ now, effectiveTat now key = max level (luaNow now)) {c : Call}
    (hcap : c.quantity ≤ c.burst + 1) (h : ¬ Fits R c key) :
    -slack R c key = fitsFrom R level c - luaNow c.time := by
  have hown := (quantity_le_iff R c).mp hcap
  have hmax : max level (luaNow c.time) = level := by
    apply max_eq_left
    rw [fits_iff_fitsFrom_le R hlevel hcap, fitsFrom, not_le] at h
    linarith
  rw [slack, newTat, hlevel, hmax, fitsFrom]
  ring

end Gcra

open Gcra in
/-- The `retry_after` of GCRA is exact. When a call within the burst capacity, after any calls on
the key, is rejected, it is the least number of seconds from one on after which the same call is
admitted. -/
theorem gcra_retryAfter_isLeast (R : Rate) (calls : List Call) (c : Call) (hq : 1 ≤ c.quantity)
    (hcap : c.quantity ≤ c.burst + 1) :
    let M := gcraMachine R
    let key := M.after none calls
    (M.step key c).2.status = 1 →
      IsLeast {s : ℤ | 1 ≤ s ∧ (M.step (M.step key c).1 (c.later s)).2.status = 0}
        (M.step key c).2.retryAfter := by
  intro M key hrejected
  obtain ⟨level, hlevel⟩ := exists_level_after R calls
  have hfit : ¬ Fits R c key := by
    rw [← status_eq_zero_iff R key hq, hrejected]
    decide
  -- A rejected call writes nothing, so the next one finds the same level.
  rw [step_rejected R hq hfit]
  dsimp only
  rw [neg_slack_eq R hlevel hcap hfit]
  -- The seconds after which the call is admitted are those by which its time has come.
  have hset : {s : ℤ | 1 ≤ s ∧ (M.step key (c.later s)).2.status = 0} =
      {s : ℤ | 1 ≤ s ∧ fitsFrom R level c ≤ luaNow (c.time + second * s.toNat)} := by
    ext s
    refine and_congr_right fun _ => ?_
    rw [status_eq_zero_iff R (c := c.later s) key hq]
    exact fits_iff_fitsFrom_le R hlevel (c := c.later s) hcap
  rw [hset]
  exact isLeast_delay _ _

/-- At one request a minute, a call right after another has to wait for the minute. -/
theorem gcra_retryAfter_isLeast_minute :
    let M := gcraMachine ⟨1, 60, by decide, by decide⟩
    let c : Call := ⟨1000000, 0, 1⟩
    let key := M.after none [c]
    IsLeast {s : ℤ | 1 ≤ s ∧ (M.step (M.step key c).1 (c.later s)).2.status = 0} 60 := by
  intro M c key
  have hretry : (M.step key c).2.retryAfter = 60 := by decide +kernel
  have hleast := gcra_retryAfter_isLeast ⟨1, 60, by decide, by decide⟩ [c] c (by decide)
    (by decide) (by decide +kernel)
  rw [hretry] at hleast
  exact hleast

/-! ## The sliding window -/

namespace SlidingWindow

variable (R : Rate)

/-- A time of a window that began at `k * W`. -/
theorem curWin_eq_iff {k : ℤ} {t : ℕ} :
    curWin R.period t = k ↔ (k : ℚ) * R.period ≤ luaNow t ∧ luaNow t < (k + 1) * R.period := by
  rw [curWin, Int.floor_eq_iff, le_div_iff₀ (period_pos R), div_lt_iff₀ (period_pos R)]

/-- A later time in the same window. -/
theorem counts_later_same {c : WindowCall} {s : ℤ} (hs : 0 ≤ s)
    (hin : elapsedIn R.period c.time + s < R.period) :
    curWin R.period (c.later s).time = curWin R.period c.time ∧
      elapsedIn R.period (c.later s).time = elapsedIn R.period c.time + s := by
  have hnow : luaNow (c.later s).time = luaNow c.time + s := luaNow_add_toNat c.time hs
  have hs' : (0 : ℚ) ≤ s := by exact_mod_cast hs
  have hbegin := curWin_mul_le R c.time
  have hwin : curWin R.period (c.later s).time = curWin R.period c.time := by
    rw [curWin_eq_iff, hnow]
    rw [elapsedIn] at hin
    constructor <;> linarith
  refine ⟨hwin, ?_⟩
  rw [elapsedIn, elapsedIn, hwin, hnow]
  ring

/-- A later time in the next window. -/
theorem counts_later_next {c : WindowCall} {s : ℤ} (hs : 0 ≤ s)
    (hout : R.period ≤ elapsedIn R.period c.time + s)
    (hin : elapsedIn R.period c.time + s < 2 * R.period) :
    curWin R.period (c.later s).time = curWin R.period c.time + 1 ∧
      elapsedIn R.period (c.later s).time = elapsedIn R.period c.time + s - R.period := by
  have hnow : luaNow (c.later s).time = luaNow c.time + s := luaNow_add_toNat c.time hs
  have hwin : curWin R.period (c.later s).time = curWin R.period c.time + 1 := by
    rw [curWin_eq_iff, hnow]
    rw [elapsedIn] at hin hout
    push_cast
    constructor <;> linarith
  refine ⟨hwin, ?_⟩
  rw [elapsedIn, elapsedIn, hwin, hnow]
  push_cast
  ring

/-- In the next window the count of this one is the previous count. -/
theorem countsAt_next {log : List (Stamp ℕ)} {k : ℤ}
    (h : ∀ e ∈ log, curWin R.period e.time ≤ k) :
    countsAt R (k + 1) log = ⟨0, k + 1, (countsAt R k log).c⟩ := by
  have hcur := unitsIn_eq_zero_of_lt R h (lt_add_one k)
  rw [countsAt, hcur, add_sub_cancel_right, countsAt]

/-- The `retry_after` of a call that is rejected with these counts. -/
def retryAfter (c : WindowCall) (s : Counts) : ℤ :=
  let headroom : ℚ := c.limit - c.quantity - s.c
  atLeast 1 (if 0 < s.p ∧ 0 ≤ headroom then
      ⌈(R.period - elapsedIn R.period c.time) - headroom * R.period / s.p⌉
    else atLeast 0 ⌈R.period - elapsedIn R.period c.time⌉)

/-- The estimate leaves room for the call, without the quotient. -/
theorem estimate_add_le_iff {c : WindowCall} {s : Counts} :
    estimate R c s + c.quantity ≤ c.limit ↔
      s.p * (R.period - elapsedIn R.period c.time) ≤
        (c.limit - c.quantity - s.c : ℚ) * R.period := by
  have hW := period_pos R
  rw [estimate, mul_div_assoc', ← le_sub_iff_add_le, ← le_sub_iff_add_le, div_le_iff₀ hW]

/-- When this window's count leaves room for the call, it solves for the time at which the previous
count has decayed enough, which is not later than a second into the next window. -/
theorem retryAfter_of_room {c : WindowCall} {s : Counts} (hroom : s.c + c.quantity ≤ c.limit)
    (h : ¬ estimate R c s + c.quantity ≤ c.limit) :
    1 ≤ retryAfter R c s ∧
      s.p * (R.period - (elapsedIn R.period c.time + retryAfter R c s)) ≤
        (c.limit - c.quantity - s.c : ℚ) * R.period ∧
      elapsedIn R.period c.time + retryAfter R c s < R.period + 1 := by
  have hW := period_pos R
  have hin := elapsedIn_lt R c.time
  rw [estimate_add_le_iff, not_le] at h
  have hheadroom : (0 : ℚ) ≤ c.limit - c.quantity - s.c := by
    have hcast : (s.c + c.quantity : ℚ) ≤ c.limit := by exact_mod_cast hroom
    linarith
  have hnonneg := mul_nonneg hheadroom hW.le
  have hp : 0 < s.p := by
    rcases Nat.eq_zero_or_pos s.p with h0 | h0
    · rw [h0, Nat.cast_zero, zero_mul] at h
      exact absurd h (not_lt.mpr hnonneg)
    · exact h0
  have hp' : (0 : ℚ) < s.p := by exact_mod_cast hp
  -- `x` is the time that the decay needs, which the script rounds up.
  set x : ℚ := (R.period - elapsedIn R.period c.time) -
    (c.limit - c.quantity - s.c) * R.period / s.p with hx
  have hpx : s.p * x = s.p * (R.period - elapsedIn R.period c.time) -
      (c.limit - c.quantity - s.c) * R.period := by
    rw [hx, mul_sub, mul_div_cancel₀ _ hp'.ne']
  have hxpos : 0 < x := by
    have hprod : 0 < s.p * x := by
      rw [hpx]
      linarith
    exact (mul_pos_iff_of_pos_left hp').mp hprod
  have hceil : 1 ≤ ⌈x⌉ := Int.one_le_ceil_iff.mpr hxpos
  have hretry : retryAfter R c s = ⌈x⌉ := by
    rw [retryAfter, if_pos ⟨hp, hheadroom⟩, atLeast_eq_max]
    exact max_eq_right hceil
  rw [hretry]
  refine ⟨hceil, ?_, ?_⟩
  · have hle := mul_le_mul_of_nonneg_left (Int.le_ceil x) hp'.le
    linarith
  · have hdecay : 0 ≤ (c.limit - c.quantity - s.c) * R.period / (s.p : ℚ) :=
      div_nonneg hnonneg hp'.le
    have hlt := Int.ceil_lt_add_one x
    linarith

/-- When it does not, it waits for the next window, and is up to a second late for it. -/
theorem retryAfter_of_full {c : WindowCall} {s : Counts} (hfull : c.limit < s.c + c.quantity) :
    1 ≤ retryAfter R c s ∧
      elapsedIn R.period c.time + retryAfter R c s = R.period + Int.fract (luaNow c.time) := by
  have hin := elapsedIn_lt R c.time
  have hheadroom : ¬ (0 : ℚ) ≤ c.limit - c.quantity - s.c := by
    have hcast : (c.limit : ℚ) < s.c + c.quantity := by exact_mod_cast hfull
    linarith
  have hceil : 1 ≤ ⌈(R.period : ℚ) - elapsedIn R.period c.time⌉ :=
    Int.one_le_ceil_iff.mpr (by linarith)
  have hretry : retryAfter R c s = ⌈(R.period : ℚ) - elapsedIn R.period c.time⌉ := by
    rw [retryAfter, if_neg fun h => hheadroom h.2, atLeast_eq_max, atLeast_eq_max]
    omega
  rw [hretry]
  refine ⟨hceil, ?_⟩
  -- The window began on a whole second.
  have hwhole : (R.period : ℚ) - elapsedIn R.period c.time =
      -luaNow c.time + ((R.period + curWin R.period c.time * R.period : ℤ) : ℚ) := by
    rw [elapsedIn]
    push_cast
    ring
  rw [hwhole, Int.ceil_add_intCast, Int.ceil_neg, elapsedIn, ← Int.self_sub_floor]
  push_cast
  ring

/-- A call finds the counts that the history has at its time. -/
theorem status_later_eq_zero_iff {log : List (Stamp ℕ)} {key : Key Counts} (h : KeyCounts R log key)
    {c : WindowCall} (hq : 1 ≤ c.quantity) (hlast : ∀ e ∈ log, e.time ≤ c.time) (s : ℤ) :
    ((slidingWindowMachine R.period).step key (c.later s)).2.status = 0 ↔
      estimate R (c.later s) (countsAt R (curWin R.period (c.later s).time) log) + c.quantity ≤
        c.limit := by
  have hlater : ∀ e ∈ log, e.time ≤ (c.later s).time := fun e he =>
    (hlast e he).trans (Nat.le_add_right _ _)
  rw [status_eq_zero_iff R (c := c.later s) key hq, counts_eq R h hlater]
  rfl

end SlidingWindow

open SlidingWindow in
/-- When the sliding window's `retry_after` is enough. After any calls in order on the key, a call
within its limit that is rejected is admitted `retry_after` seconds later, just when the total of
this window leaves room for it, or has decayed enough by then in the next one, a fraction of a
second after it began. -/
theorem slidingWindow_retryAfter_iff (R : Rate) (calls : List WindowCall) (c : WindowCall)
    (horder : InOrder (calls ++ [c])) (hq : 1 ≤ c.quantity) :
    let M := slidingWindowMachine R.period
    let key := M.after none calls
    let total := unitsIn (curWin R.period · = curWin R.period c.time)
      (admissions (M.trace none calls))
    (M.step key c).2.status = 1 →
      ((M.step (M.step key c).1 (c.later (M.step key c).2.retryAfter)).2.status = 0 ↔
        total + c.quantity ≤ c.limit ∨
          (total : ℚ) * (R.period - Int.fract (luaNow c.time)) ≤
            (c.limit - c.quantity) * R.period) := by
  intro M key total hrejected
  obtain ⟨hcalls, hlast⟩ := horder.of_snoc
  have hkey := keyCounts_after R calls hcalls
  have hbefore := time_le_of_mem_admissions (s := none) M hlast
  set log := admissions (M.trace none calls) with hlog
  set k := curWin R.period c.time with hk
  set s := countsAt R k log with hs
  have hcounts : counts R c key = s := counts_eq R hkey hbefore
  have hfit : ¬ estimate R c s + c.quantity ≤ c.limit := by
    rw [← hcounts, ← status_eq_zero_iff R key hq, hrejected]
    decide
  -- The rejected call leaves the key as it was, and says how long to wait.
  have hretry : (M.step key c).2.retryAfter = retryAfter R c s := by
    rw [← hcounts] at hfit ⊢
    exact congrArg (·.2.retryAfter) (step_rejected R key hq hfit)
  have hsame : (M.step key c).1 = key := by
    rw [← hcounts] at hfit
    exact congrArg Prod.fst (step_rejected R key hq hfit)
  have htotal : total = s.c := rfl
  have hwindow : ∀ e ∈ log, curWin R.period e.time ≤ k := fun e he => curWin_mono R (hbefore e he)
  have hone : (1 : ℚ) ≤ R.period := by exact_mod_cast R.period_pos
  have hfract := Int.fract_lt_one (luaNow c.time)
  have hfract0 := Int.fract_nonneg (luaNow c.time)
  rw [hsame, hretry, status_later_eq_zero_iff R hkey hq hbefore, htotal]
  -- What the call finds in the next window.
  have hnext : ∀ r : ℤ, 0 ≤ r → R.period ≤ elapsedIn R.period c.time + r →
      elapsedIn R.period c.time + r < R.period + 1 →
      (estimate R (c.later r) (countsAt R (curWin R.period (c.later r).time) log) + c.quantity ≤
          c.limit ↔
        s.c * (R.period - (elapsedIn R.period c.time + r - R.period)) ≤
          (c.limit - c.quantity : ℚ) * R.period) := by
    intro r hr hout hin
    obtain ⟨hwin, helapsed⟩ := counts_later_next R hr hout (by linarith)
    rw [hwin, countsAt_next R hwindow, ← hs]
    have hiff := estimate_add_le_iff R (c := c.later r) (s := ⟨0, k + 1, s.c⟩)
    rw [helapsed, Nat.cast_zero, sub_zero] at hiff
    exact hiff
  rcases Nat.lt_or_ge c.limit (s.c + c.quantity) with hfull | hroom
  · -- The count of this window is too much: the call comes back in the next one.
    obtain ⟨hr, helapsed⟩ := retryAfter_of_full R hfull
    rw [hnext _ (by omega) (by linarith) (by linarith), helapsed, add_sub_cancel_left,
      or_iff_right (not_le.mpr hfull)]
  · -- It leaves room as soon as the count of the window before has decayed.
    obtain ⟨hr, hdecayed, hsoon⟩ := retryAfter_of_room R hroom hfit
    refine iff_of_true ?_ (.inl hroom)
    rcases lt_or_ge (elapsedIn R.period c.time + retryAfter R c s) (R.period : ℚ) with hin | hout
    · obtain ⟨hwin, helapsed⟩ := counts_later_same R (c := c) (by omega) hin
      rw [hwin, ← hk, ← hs]
      have hiff := estimate_add_le_iff R (c := c.later (retryAfter R c s)) (s := s)
      rw [helapsed] at hiff
      exact hiff.mpr hdecayed
    · -- Rounded up, the wait may end in the next window, where this one's count has room too.
      rw [hnext _ (by omega) hout hsoon]
      have hcast : (s.c + c.quantity : ℚ) ≤ c.limit := by exact_mod_cast hroom
      calc (s.c : ℚ) * (R.period - (elapsedIn R.period c.time + retryAfter R c s - R.period))
          ≤ s.c * R.period := mul_le_mul_of_nonneg_left (by linarith) (Nat.cast_nonneg _)
        _ ≤ (c.limit - c.quantity : ℚ) * R.period :=
            mul_le_mul_of_nonneg_right (by linarith) (by linarith)

/-- With a limit of two and windows of two seconds, the unit that is lacking at 1 s, after two in
this window, is still lacking a second later; the one that is lacking after one in each window is
not. -/
theorem slidingWindow_retryAfter_iff_next_window :
    let R : Rate := ⟨2, 2, by decide, by decide⟩
    let M := slidingWindowMachine R.period
    let key := M.after none [⟨1000000, 2, 2⟩, ⟨3000000, 2, 1⟩]
    let c : WindowCall := ⟨3000000, 2, 1⟩
    (M.step (M.step key c).1 (c.later (M.step key c).2.retryAfter)).2.status = 0 := by
  intro R M key c
  exact (slidingWindow_retryAfter_iff R [⟨1000000, 2, 2⟩, ⟨3000000, 2, 1⟩] c (by decide) (by decide)
    (by decide +kernel)).mpr (.inl (by decide +kernel))

/-- With a limit of one and windows of two seconds, a call at 1 s, right after another, is told to
wait for the second that is left of the window, and is rejected again then. -/
theorem slidingWindow_retryAfter_short :
    let M := slidingWindowMachine 2
    let c : WindowCall := ⟨1000000, 1, 1⟩
    let key := M.after none [c]
    (M.step key c).2.status = 1 ∧ (M.step key c).2.retryAfter = 1 ∧
      (M.step (M.step key c).1 (c.later 1)).2.status = 1 := by
  decide +kernel

end NginxRatelimit
