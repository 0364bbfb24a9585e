import Mathlib.Algebra.Order.Floor.Semiring
import Mathlib.Data.List.Induction
import NginxRatelimit.Script.Lua

/-!
# The sliding window and the true counts

The script keeps two counters and moves them to the current window only when it admits a call. The
two that a call decides on are nevertheless the totals admitted in the current aligned window and in
the one before it, `countsAt` of the history: a stored pair that is one window old is shifted, an
older one is dropped, and a key that expired is at least two windows old. The bound on the amount in
an interval of any length up to the window then follows at the interval's last admission.
-/

namespace NginxRatelimit

open Library ScriptCall

namespace SlidingWindow

variable (R : Rate)

/-- A time of the aligned window `k`. -/
abbrev InWindow (k : ℤ) (t : ℕ) : Prop := curWin R.period t = k

/-- The totals that a history admitted in window `k` and in the one before it. -/
def countsAt (k : ℤ) (log : List (Stamp ℕ)) : Counts :=
  ⟨unitsIn (InWindow R k) log, k, unitsIn (InWindow R (k - 1)) log⟩

/-- The counts that a call decides on. -/
def counts (c : WindowCall) (key : Key Counts) : Counts :=
  rollOver (curWin R.period c.time) (Key.get key c.time)

/-- `est`: the estimate of the rate. -/
def estimate (c : WindowCall) (s : Counts) : ℚ :=
  s.p * ((R.period - elapsedIn R.period c.time) / R.period) + s.c

/-- A period is not empty. -/
theorem period_pos : (0 : ℚ) < R.period := by exact_mod_cast R.period_pos

/-! ## Aligned windows -/

/-- Later times are not in earlier windows. -/
theorem curWin_mono {s t : ℕ} (h : s ≤ t) : curWin R.period s ≤ curWin R.period t :=
  Int.floor_le_floor (div_le_div_of_nonneg_right (luaNow_le.mpr h) (period_pos R).le)

/-- Two periods later it is at least two windows later. -/
theorem curWin_add_two_le {s t : ℕ} (h : s + second * (R.period * 2) ≤ t) :
    curWin R.period s + 2 ≤ curWin R.period t := by
  have hle := luaNow_le.mpr h
  rw [luaNow_add_seconds] at hle
  push_cast at hle
  have hdiv : luaNow s / R.period + 2 ≤ luaNow t / R.period := by
    rw [le_div_iff₀ (period_pos R), add_mul, div_mul_cancel₀ _ (period_pos R).ne']
    linarith
  calc curWin R.period s + 2 = ⌊luaNow s / R.period + 2⌋ := by
        rw [curWin, ← Int.floor_add_intCast]
        rfl
    _ ≤ curWin R.period t := Int.floor_le_floor hdiv

/-- A window begins at or before its times. -/
theorem curWin_mul_le (t : ℕ) : (curWin R.period t : ℚ) * R.period ≤ luaNow t := by
  rw [← le_div_iff₀ (period_pos R)]
  exact Int.floor_le _

/-- A time is not before its window. -/
theorem elapsedIn_nonneg (t : ℕ) : 0 ≤ elapsedIn R.period t :=
  sub_nonneg.mpr (curWin_mul_le R t)

/-- A time of a window is before its end. -/
theorem elapsedIn_lt (t : ℕ) : elapsedIn R.period t < R.period := by
  have h := Int.lt_floor_add_one (luaNow t / R.period)
  rw [div_lt_iff₀ (period_pos R), add_mul, one_mul] at h
  rw [elapsedIn, curWin]
  linarith

/-- Times at or after the beginning of a window are in it or in a later one. -/
theorem le_curWin {k : ℤ} {t : ℕ} (h : (k : ℚ) * R.period ≤ luaNow t) : k ≤ curWin R.period t := by
  rw [curWin, Int.le_floor, le_div_iff₀ (period_pos R)]
  exact h

/-! ## One call -/

/-- A peek writes nothing. -/
theorem step_peek {c : WindowCall} (key : Key Counts) (hq : c.quantity = 0) :
    (slidingWindowMachine R.period).step key c =
      (key,
        let s := counts R c key
        let left := atLeast 0 ⌈R.period - elapsedIn R.period c.time⌉
        ⟨if (c.limit : ℚ) ≤ estimate R c s then 1 else 0, c.limit,
          atLeast 0 ⌊c.limit - estimate R c s⌋, -1, if 0 < s.c ∨ 0 < s.p then left else 0⟩) := by
  simp only [slidingWindowMachine, slidingWindow, if_pos hq]
  rfl

/-- A call over the limit is rejected, and writes nothing. -/
theorem step_rejected {c : WindowCall} (key : Key Counts) (hq : 1 ≤ c.quantity)
    (h : ¬ estimate R c (counts R c key) + c.quantity ≤ c.limit) :
    (slidingWindowMachine R.period).step key c =
      (key,
        let s := counts R c key
        let left := atLeast 0 ⌈R.period - elapsedIn R.period c.time⌉
        let headroom : ℚ := c.limit - c.quantity - s.c
        let retryAfter :=
          if 0 < s.p ∧ 0 ≤ headroom then
            ⌈(R.period - elapsedIn R.period c.time) - headroom * R.period / s.p⌉
          else left
        ⟨1, c.limit, atLeast 0 ⌊c.limit - estimate R c s⌋, atLeast 1 retryAfter, left⟩) := by
  have hq' : c.quantity ≠ 0 := by omega
  simp only [estimate, counts, not_le] at h
  simp only [slidingWindowMachine, slidingWindow, if_neg hq', if_pos h]
  rfl

/-- A call within the limit is admitted, and stores the counts with its quantity. -/
theorem step_admitted {c : WindowCall} (key : Key Counts) (hq : 1 ≤ c.quantity)
    (h : estimate R c (counts R c key) + c.quantity ≤ c.limit) :
    (slidingWindowMachine R.period).step key c =
      let s := counts R c key
      let s' : Counts := ⟨s.c + c.quantity, s.w, s.p⟩
      (some ⟨s', some (c.time + second * (R.period * 2))⟩,
        ⟨0, c.limit, atLeast 0 ⌊c.limit - estimate R c s'⌋, -1,
          atLeast 0 ⌈R.period - elapsedIn R.period c.time⌉⟩) := by
  have hq' : c.quantity ≠ 0 := by omega
  have hpos : (0 : ℤ) < R.period * 2 := by
    have := R.period_pos
    omega
  have hnat : ((R.period : ℤ) * 2).toNat = R.period * 2 := by omega
  simp only [estimate, counts] at h ⊢
  simp only [slidingWindowMachine, slidingWindow, if_neg hq', if_neg (not_lt.mpr h),
    Key.expire_hset key c.time _ hpos, hnat]

/-- A consuming call is admitted when the estimate leaves room for it. -/
theorem status_eq_zero_iff {c : WindowCall} (key : Key Counts) (hq : 1 ≤ c.quantity) :
    ((slidingWindowMachine R.period).step key c).2.status = 0 ↔
      estimate R c (counts R c key) + c.quantity ≤ c.limit := by
  by_cases h : estimate R c (counts R c key) + c.quantity ≤ c.limit
  · simp [step_admitted R key hq h, h]
  · simp [step_rejected R key hq h, h]

/-- Peeks and rejected calls write nothing. -/
theorem step_key_of_not_admitted {key : Key Counts} {c : WindowCall}
    (h : ¬ Admitted (key, c, ((slidingWindowMachine R.period).step key c).2)) :
    ((slidingWindowMachine R.period).step key c).1 = key := by
  rcases Nat.eq_zero_or_pos c.quantity with hq | hq
  · rw [step_peek R key hq]
  · rw [step_rejected R key hq fun hfit => h ⟨hq, (status_eq_zero_iff R key hq).mpr hfit⟩]

/-! ## The stored counts and the history -/

/-- An admission counts in its own window. -/
theorem countsAt_snoc (t q : ℕ) (log : List (Stamp ℕ)) :
    countsAt R (curWin R.period t) (log ++ [⟨t, q⟩]) =
      let s := countsAt R (curWin R.period t) log
      ⟨s.c + q, s.w, s.p⟩ := by
  have hprev : ¬ InWindow R (curWin R.period t - 1) t := by
    unfold InWindow
    omega
  simp [countsAt, hprev]

/-- Nothing was admitted in a window after all admissions. -/
theorem unitsIn_eq_zero_of_lt {log : List (Stamp ℕ)} {s k : ℤ}
    (h : ∀ e ∈ log, curWin R.period e.time ≤ s) (hk : s < k) :
    unitsIn (InWindow R k) log = 0 :=
  unitsIn_eq_zero _ fun e he => ((h e he).trans_lt hk).ne

/-- Counts of the window before are shifted. -/
theorem rollOver_of_eq_sub_one {k : ℤ} {s : Counts} (h : s.w = k - 1) :
    rollOver k (some s) = ⟨0, k, s.c⟩ := if_pos h

/-- Counts of an older window are dropped. -/
theorem rollOver_of_lt_sub_one {k : ℤ} {s : Counts} (h : s.w < k - 1) :
    rollOver k (some s) = ⟨0, k, 0⟩ :=
  (if_neg h.ne).trans (if_pos (by change s.w ≠ k; omega))

/-- Counts of the window itself are kept. -/
theorem rollOver_of_eq {k : ℤ} {s : Counts} (h : s.w = k) : rollOver k (some s) = s :=
  (if_neg (by change ¬ s.w = k - 1; omega)).trans (if_neg (not_not.mpr h))

/-- Rolling the counts of window `s` over to a later one gives that one's counts. -/
theorem rollOver_countsAt {log : List (Stamp ℕ)} {s k : ℤ}
    (h : ∀ e ∈ log, curWin R.period e.time ≤ s) (hk : s ≤ k) :
    rollOver k (some (countsAt R s log)) = countsAt R k log := by
  rcases lt_trichotomy s (k - 1) with hlt | heq | hgt
  · -- Both windows are after all admissions.
    have hcur := unitsIn_eq_zero_of_lt R h (by omega : s < k)
    have hprev := unitsIn_eq_zero_of_lt R h hlt
    rw [rollOver_of_lt_sub_one (s := countsAt R s log) hlt, countsAt, hcur, hprev]
  · have hcur := unitsIn_eq_zero_of_lt R h (by omega : s < k)
    rw [rollOver_of_eq_sub_one (s := countsAt R s log) heq, countsAt, countsAt, hcur, heq]
  · have hsk : s = k := by omega
    rw [hsk]
    exact rollOver_of_eq rfl

/-- Two windows after all admissions there are no counts. -/
theorem rollOver_none {log : List (Stamp ℕ)} {s k : ℤ}
    (h : ∀ e ∈ log, curWin R.period e.time ≤ s) (hk : s + 2 ≤ k) :
    rollOver k none = countsAt R k log := by
  have hcur := unitsIn_eq_zero_of_lt R h (by omega : s < k)
  have hprev := unitsIn_eq_zero_of_lt R h (by omega : s < k - 1)
  rw [countsAt, hcur, hprev]
  exact rollOver_of_eq (k := k) (s := ⟨0, k, 0⟩) rfl

/-- What the key holds: nothing before the first admission, then the counts at the last admission,
for two periods from it on. -/
def KeyCounts (log : List (Stamp ℕ)) (key : Key Counts) : Prop :=
  (log = [] ∧ key = none) ∨
    ∃ a ∈ log, (∀ e ∈ log, e.time ≤ a.time) ∧
      key = some ⟨countsAt R (curWin R.period a.time) log,
        some (a.time + second * (R.period * 2))⟩

/-- A call decides on the true counts, whether the key is current, old or expired. -/
theorem counts_eq {log : List (Stamp ℕ)} {key : Key Counts} (h : KeyCounts R log key)
    {c : WindowCall} (hlast : ∀ e ∈ log, e.time ≤ c.time) :
    counts R c key = countsAt R (curWin R.period c.time) log := by
  unfold counts
  rcases h with ⟨rfl, rfl⟩ | ⟨a, ha, hmax, rfl⟩
  · exact rollOver_none R (s := curWin R.period c.time - 2) (by simp) (by omega)
  · have hle : ∀ e ∈ log, curWin R.period e.time ≤ curWin R.period a.time :=
      fun e he => curWin_mono R (hmax e he)
    rw [Key.get_some_some]
    by_cases hlive : c.time < a.time + second * (R.period * 2)
    · rw [if_pos hlive]
      exact rollOver_countsAt R hle (curWin_mono R (hlast a ha))
    · rw [if_neg hlive]
      exact rollOver_none R hle (curWin_add_two_le R (not_lt.mp hlive))

/-- One call keeps the key at the counts of the history. -/
theorem keyCounts_step {log : List (Stamp ℕ)} {key : Key Counts} (h : KeyCounts R log key)
    {c : WindowCall} (hlast : ∀ e ∈ log, e.time ≤ c.time) :
    KeyCounts R
      (log ++ if Admitted (key, c, ((slidingWindowMachine R.period).step key c).2) then
        [⟨c.time, c.quantity⟩] else [])
      ((slidingWindowMachine R.period).step key c).1 := by
  by_cases hadm : Admitted (key, c, ((slidingWindowMachine R.period).step key c).2)
  · obtain ⟨hq, hs⟩ := hadm
    have hfit := (status_eq_zero_iff R key hq).mp hs
    rw [if_pos ⟨hq, hs⟩, step_admitted R key hq hfit]
    refine .inr ⟨⟨c.time, c.quantity⟩, by simp, ?_, ?_⟩
    · intro e he
      rcases List.mem_append.mp he with he | he
      · exact hlast e he
      · rw [List.mem_singleton.mp he]
    · rw [countsAt_snoc, counts_eq R h hlast]
  · rw [if_neg hadm, List.append_nil, step_key_of_not_admitted R hadm]
    exact h

/-- The key after a run in order is at the counts of the run's admissions. -/
theorem keyCounts_after (calls : List WindowCall) (horder : InOrder calls) :
    KeyCounts R (admissions ((slidingWindowMachine R.period).trace none calls))
      ((slidingWindowMachine R.period).after none calls) := by
  induction calls using List.reverseRecOn with
  | nil => exact .inl ⟨rfl, rfl⟩
  | append_singleton calls c ih =>
    obtain ⟨hcalls, hlast⟩ := horder.of_snoc
    rw [Machine.trace_snoc, admissions_snoc, Machine.after_append]
    exact keyCounts_step R (ih hcalls) (time_le_of_mem_admissions _ hlast)

/-! ## The boundary between two windows -/

/-- The closed interval of length `d` from `x`. -/
abbrev InInterval (x d : ℚ) (t : ℕ) : Prop := x ≤ luaNow t ∧ luaNow t ≤ x + d

/-- No window of the history holds more than `L`, and no closed interval up to a window long more
than its share `L * (1 + d / W)`. -/
structure Smooth (L : ℕ) (log : List (Stamp ℕ)) : Prop where
  /-- The bound on a window. -/
  window : ∀ k, unitsIn (InWindow R k) log ≤ L
  /-- The bound on an interval. -/
  interval : ∀ x d : ℚ, 0 ≤ d → d ≤ R.period →
    (unitsIn (InInterval x d) log : ℚ) ≤ L * (1 + d / R.period)

/-- The empty history has the bounds. -/
theorem smooth_nil (L : ℕ) : Smooth R L [] where
  window _ := Nat.zero_le _
  interval x d hd _ := by
    have hshare : 0 ≤ d / R.period := div_nonneg hd (period_pos R).le
    simp only [unitsIn_nil, Nat.cast_zero]
    positivity

/-- The admissions of an interval that the last one is in are of its window or of the one before. -/
theorem unitsIn_interval_le {log : List (Stamp ℕ)} {a : Stamp ℕ} (hlast : ∀ e ∈ log, e.time ≤ a.time)
    {x d : ℚ} (hd : d ≤ R.period) (ha : InInterval x d a.time) :
    unitsIn (InInterval x d) log ≤
      unitsIn (InWindow R (curWin R.period a.time)) log +
        unitsIn (InWindow R (curWin R.period a.time - 1)) log := by
  apply unitsIn_le_add
  intro e he hin
  have hle : curWin R.period e.time ≤ curWin R.period a.time := curWin_mono R (hlast e he)
  have hge : curWin R.period a.time - 1 ≤ curWin R.period e.time := by
    apply le_curWin R
    push_cast
    have hbegin := curWin_mul_le R a.time
    have hx := ha.2
    have hin := hin.1
    linarith
  unfold InWindow
  omega

/-- The admissions of an interval inside the last one's window are of that window. -/
theorem unitsIn_interval_le_window {log : List (Stamp ℕ)} {a : Stamp ℕ}
    (hlast : ∀ e ∈ log, e.time ≤ a.time) {x d : ℚ}
    (hx : (curWin R.period a.time : ℚ) * R.period ≤ x) :
    unitsIn (InInterval x d) log ≤ unitsIn (InWindow R (curWin R.period a.time)) log := by
  apply unitsIn_mono
  intro e he hin
  exact le_antisymm (curWin_mono R (hlast e he)) (le_curWin R (hx.trans hin.1))

/-- An admission that the estimate leaves room for, not before the others, keeps the bounds. -/
theorem smooth_snoc {L : ℕ} {log : List (Stamp ℕ)} (h : Smooth R L log) {c : WindowCall}
    (hlast : ∀ e ∈ log, e.time ≤ c.time)
    (hfit : estimate R c (countsAt R (curWin R.period c.time) log) + c.quantity ≤ L) :
    Smooth R L (log ++ [⟨c.time, c.quantity⟩]) := by
  set k := curWin R.period c.time with hk
  have hW := period_pos R
  have he := elapsedIn_nonneg R c.time
  have hlt := elapsedIn_lt R c.time
  simp only [estimate, countsAt] at hfit
  have hweight : 0 ≤ (R.period - elapsedIn R.period c.time) / (R.period : ℚ) :=
    div_nonneg (by linarith) hW.le
  have hprev := h.window (k - 1)
  generalize hp : unitsIn (InWindow R (k - 1)) log = p at hfit hprev
  generalize hc : unitsIn (InWindow R k) log = n at hfit
  have hroom : n + c.quantity ≤ L := by
    have hnonneg := mul_nonneg (Nat.cast_nonneg (α := ℚ) p) hweight
    have hle : (n + c.quantity : ℚ) ≤ L := by linarith
    exact_mod_cast hle
  constructor
  · -- The window of the admission has room for it, and the others stay as they were.
    intro j
    rw [unitsIn_append, unitsIn_cons, unitsIn_nil, add_zero]
    by_cases hj : InWindow R j c.time
    · have hkj : k = j := hj
      rw [if_pos hj, ← hkj, hc]
      exact hroom
    · rw [if_neg hj]
      exact h.window j
  · intro x d hd0 hdW
    rw [unitsIn_append, unitsIn_cons, unitsIn_nil, add_zero]
    by_cases hin : InInterval x d c.time
    · rw [if_pos hin]
      push_cast
      have hL : (p : ℚ) ≤ L := by exact_mod_cast hprev
      have hshare : 0 ≤ d / R.period := div_nonneg hd0 hW.le
      rcases le_or_gt ((k : ℚ) * R.period) x with hinside | hcross
      · -- An interval inside the window holds no more than the window.
        have hle := unitsIn_interval_le_window R (a := ⟨c.time, c.quantity⟩) hlast (d := d) hinside
        have hle' : (unitsIn (InInterval x d) log : ℚ) ≤ n := by
          rw [← hc]
          exact_mod_cast hle
        have hroom' : (n + c.quantity : ℚ) ≤ L := by exact_mod_cast hroom
        calc (unitsIn (InInterval x d) log + c.quantity : ℚ) ≤ L := by linarith
          _ ≤ L * (1 + d / R.period) := by
            have := mul_nonneg (Nat.cast_nonneg (α := ℚ) L) hshare
            linarith
      · -- The interval reaches back over the boundary by at least the time elapsed since it.
        have hle := unitsIn_interval_le R (a := ⟨c.time, c.quantity⟩) hlast hdW hin
        have hle' : (unitsIn (InInterval x d) log : ℚ) ≤ n + p := by
          rw [← hc, ← hp]
          exact_mod_cast hle
        have hed : elapsedIn R.period c.time ≤ d := by
          have := hin.2
          rw [elapsedIn, ← hk]
          linarith
        have hpart : (p : ℚ) * (elapsedIn R.period c.time / R.period) ≤ L * (d / R.period) :=
          mul_le_mul hL (div_le_div_of_nonneg_right hed hW.le) (div_nonneg he hW.le)
            (Nat.cast_nonneg L)
        have hsplit : (p : ℚ) * ((R.period - elapsedIn R.period c.time) / R.period) =
            p - p * (elapsedIn R.period c.time / R.period) := by
          rw [sub_div, div_self hW.ne']
          ring
        calc (unitsIn (InInterval x d) log + c.quantity : ℚ) ≤ n + p + c.quantity := by linarith
          _ ≤ L + p * (elapsedIn R.period c.time / R.period) := by linarith
          _ ≤ L * (1 + d / R.period) := by linarith
    · rw [if_neg hin]
      simpa using h.interval x d hd0 hdW

/-- A run in order with limit `L` keeps the bounds. -/
theorem smooth_after {L : ℕ} (calls : List WindowCall) (horder : InOrder calls)
    (hL : ∀ a ∈ calls, a.limit = L) :
    Smooth R L (admissions ((slidingWindowMachine R.period).trace none calls)) := by
  induction calls using List.reverseRecOn with
  | nil => exact smooth_nil R L
  | append_singleton calls c ih =>
    obtain ⟨hcalls, hlast⟩ := horder.of_snoc
    have hsmooth := ih hcalls fun a ha => hL a (by simp [ha])
    have hkey := keyCounts_after R calls hcalls
    have hbefore := time_le_of_mem_admissions (s := none) (slidingWindowMachine R.period) hlast
    rw [Machine.trace_snoc, admissions_snoc]
    by_cases hadm : Admitted ((slidingWindowMachine R.period).after none calls, c,
        ((slidingWindowMachine R.period).step ((slidingWindowMachine R.period).after none calls)
          c).2)
    · rw [if_pos hadm]
      have hfit := (status_eq_zero_iff R _ hadm.1).mp hadm.2
      rw [counts_eq R hkey hbefore, hL c (by simp)] at hfit
      exact smooth_snoc R hsmooth hbefore hfit
    · rw [if_neg hadm, List.append_nil]
      exact hsmooth

end SlidingWindow

open SlidingWindow in
/-- The sliding window refines the true counts. After any calls in order on the key, a call decides
on the totals admitted in its aligned window and in the one before it; so a consuming call is
admitted when the weighted total of the one before, that of its own and its quantity are within its
limit. -/
theorem slidingWindow_refines (R : Rate) (calls : List WindowCall) (c : WindowCall)
    (horder : InOrder (calls ++ [c])) :
    let log := admissions ((slidingWindowMachine R.period).trace none calls)
    let key := (slidingWindowMachine R.period).after none calls
    let k := curWin R.period c.time
    (rollOver k (Key.get key c.time)).c = unitsIn (curWin R.period · = k) log ∧
      (rollOver k (Key.get key c.time)).p = unitsIn (curWin R.period · = k - 1) log ∧
      (1 ≤ c.quantity →
        (((slidingWindowMachine R.period).step key c).2.status = 0 ↔
          (unitsIn (curWin R.period · = k - 1) log : ℚ) *
                ((R.period - elapsedIn R.period c.time) / R.period) +
              unitsIn (curWin R.period · = k) log + c.quantity ≤ c.limit)) := by
  intro log key k
  obtain ⟨hcalls, hlast⟩ := horder.of_snoc
  have hcounts : rollOver k (Key.get key c.time) = countsAt R k log :=
    counts_eq R (keyCounts_after R calls hcalls) (time_le_of_mem_admissions _ hlast)
  refine ⟨by rw [hcounts]; rfl, by rw [hcounts]; rfl, ?_⟩
  intro hq
  rw [status_eq_zero_iff R key hq, counts, hcounts]
  rfl

/-- In windows of two seconds, two units at 1 s are the count of the window before at 3 s, of which
half is left: with a limit of three, two more are admitted, and the next one is not. -/
theorem slidingWindow_refines_next_window :
    let R : Rate := ⟨3, 2, by decide, by decide⟩
    let M := slidingWindowMachine R.period
    (M.step (M.after none [⟨1000000, 3, 2⟩]) ⟨3000000, 3, 2⟩).2.status = 0 ∧
      (M.step (M.after none [⟨1000000, 3, 2⟩, ⟨3000000, 3, 2⟩]) ⟨3000000, 3, 1⟩).2.status ≠ 0 := by
  intro R M
  constructor
  · exact ((slidingWindow_refines R [⟨1000000, 3, 2⟩] ⟨3000000, 3, 2⟩ (by decide)).2.2
      (by decide)).mpr (by decide +kernel)
  · exact mt ((slidingWindow_refines R [⟨1000000, 3, 2⟩, ⟨3000000, 3, 2⟩] ⟨3000000, 3, 1⟩
      (by decide)).2.2 (by decide)).mp (by decide +kernel)

/-- The sliding window smooths the boundary between windows: with one limit `L`, a run in order
admits at most `L * (1 + d / W)` in any closed interval of length `d` up to the window `W`. -/
theorem slidingWindow_smooth (R : Rate) (L : ℕ) (calls : List WindowCall) (horder : InOrder calls)
    (hL : ∀ a ∈ calls, a.limit = L) (x d : ℚ) (hd0 : 0 ≤ d) (hdW : d ≤ R.period) :
    (unitsIn (fun t => x ≤ luaNow t ∧ luaNow t ≤ x + d)
        (admissions ((slidingWindowMachine R.period).trace none calls)) : ℚ) ≤
      L * (1 + d / R.period) :=
  (SlidingWindow.smooth_after R calls horder hL).interval x d hd0 hdW

/-- With a limit of three and windows of two seconds, the interval from 1.9 s to 2.9 s holds four
units, less than the four and a half that it may. -/
theorem slidingWindow_smooth_boundary :
    let R : Rate := ⟨3, 2, by decide, by decide⟩
    let calls : List WindowCall := [⟨1900000, 3, 3⟩, ⟨2900000, 3, 1⟩]
    let log := admissions ((slidingWindowMachine R.period).trace none calls)
    unitsIn (fun t => 19 / 10 ≤ luaNow t ∧ luaNow t ≤ 19 / 10 + 1) log = 4 ∧
      (unitsIn (fun t => 19 / 10 ≤ luaNow t ∧ luaNow t ≤ 19 / 10 + 1) log : ℚ) ≤
        (3 : ℕ) * (1 + 1 / (2 : ℕ)) :=
  ⟨by decide +kernel,
    slidingWindow_smooth ⟨3, 2, by decide, by decide⟩ 3 [⟨1900000, 3, 3⟩, ⟨2900000, 3, 1⟩]
      (by decide) (by decide) (19 / 10) 1 (by norm_num) (by norm_num)⟩

end NginxRatelimit
