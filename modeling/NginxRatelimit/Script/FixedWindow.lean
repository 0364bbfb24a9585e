import Mathlib.Data.List.Induction
import NginxRatelimit.Script.Lua

/-!
# The fixed window admits exactly up to the limit

A window opens at an admission made while none is open, and lasts `period` seconds. `enter` is this
definition on the history of admissions, `currentWindow` the last window that it opened. The key is
that window, its counter the window's total and its expiry the window's end (`key_after`), so a call
is admitted exactly when the total of the open window and its own quantity stay within the limit.
-/

namespace NginxRatelimit

open Library ScriptCall

/-- A window: when it opened, and what was admitted in it. -/
structure Window where
  /-- When it opened. -/
  opened : ℕ
  /-- The total that was admitted in it. -/
  total : ℕ

namespace FixedWindow

variable (R : Rate)

/-- When the window ends. -/
def windowEnd (w : Window) : ℕ := w.opened + second * R.period

/-- A window ends at the same time whatever it holds. -/
theorem windowEnd_total (w : Window) (n : ℕ) : windowEnd R ⟨w.opened, n⟩ = windowEnd R w := rfl

/-- An admission is entered into the open window, or opens a new one. -/
def enter (w : Option Window) (a : Stamp ℕ) : Option Window :=
  match w with
  | none => some ⟨a.time, a.amount⟩
  | some w =>
    if a.time < windowEnd R w then some ⟨w.opened, w.total + a.amount⟩
    else some ⟨a.time, a.amount⟩

/-- The last window that a history of admissions opened. -/
def currentWindow (log : List (Stamp ℕ)) : Option Window := log.foldl (enter R) none

/-- The total admitted in the window that is open at `now`, or 0 when none is. -/
def openTotal (w : Option Window) (now : ℕ) : ℕ :=
  match w with
  | none => 0
  | some w => if now < windowEnd R w then w.total else 0

/-- The last admission is entered last. -/
theorem currentWindow_snoc (log : List (Stamp ℕ)) (a : Stamp ℕ) :
    currentWindow R (log ++ [a]) = enter R (currentWindow R log) a := by
  simp [currentWindow]

/-- The key that a window is kept in. -/
def keyOf (w : Option Window) : Key ℕ := w.map fun w => ⟨w.total, some (windowEnd R w)⟩

/-- The window holds something, if there is one. -/
def Filled (w : Option Window) : Prop := ∀ v ∈ w, 0 < v.total

/-- Before the first admission there is no key. -/
@[simp] theorem keyOf_none : keyOf R none = none := rfl

/-- The key of a window expires at its end. -/
@[simp] theorem keyOf_some (w : Window) :
    keyOf R (some w) = some ⟨w.total, some (windowEnd R w)⟩ := rfl

/-- An admission inside the open window is added to it. -/
theorem enter_of_lt {w : Window} {a : Stamp ℕ} (h : a.time < windowEnd R w) :
    enter R (some w) a = some ⟨w.opened, w.total + a.amount⟩ := if_pos h

/-- An admission after the end of the last window opens a new one. -/
theorem enter_of_le {w : Window} {a : Stamp ℕ} (h : windowEnd R w ≤ a.time) :
    enter R (some w) a = some ⟨a.time, a.amount⟩ := if_neg (not_lt.mpr h)

/-- What a call gets of the key is the total of the open window. -/
theorem get_keyOf (w : Option Window) (now : ℕ) :
    (Key.get (keyOf R w) now).getD 0 = openTotal R w now := by
  cases w with
  | none => rfl
  | some w =>
    simp only [keyOf_some, Key.get_some_some, openTotal]
    split_ifs <;> rfl

/-- A peek writes nothing. -/
theorem step_peek {c : WindowCall} (key : Key ℕ) (hq : c.quantity = 0) :
    (fixedWindowMachine R.period).step key c =
      (key, ⟨if (c.limit : ℤ) ≤ ((Key.get key c.time).getD 0 : ℕ) then 1 else 0, c.limit,
        atLeast 0 (c.limit - ((Key.get key c.time).getD 0 : ℕ)), -1,
        atLeast 0 (Key.ttl key c.time)⟩) := by
  simp [fixedWindowMachine, fixedWindow, hq]

/-- A call over the limit is rejected, and writes nothing. -/
theorem step_rejected {c : WindowCall} (key : Key ℕ) (hq : 1 ≤ c.quantity)
    (h : c.limit < (Key.get key c.time).getD 0 + c.quantity) :
    (fixedWindowMachine R.period).step key c =
      (key,
        let ttl := if Key.ttl key c.time < 0 then (R.period : ℤ) else Key.ttl key c.time
        ⟨1, c.limit, atLeast 0 (c.limit - ((Key.get key c.time).getD 0 : ℕ)), atLeast 1 ttl,
          ttl⟩) := by
  have hq' : c.quantity ≠ 0 := by omega
  simp only [fixedWindowMachine, fixedWindow, if_neg hq', if_pos h]

/-- A call within the limit is admitted: the counter is raised, and a counter that has no expiry is
given the window. -/
theorem step_admitted {c : WindowCall} (key : Key ℕ) (hq : 1 ≤ c.quantity)
    (h : (Key.get key c.time).getD 0 + c.quantity ≤ c.limit) :
    (fixedWindowMachine R.period).step key c =
      let (key, newval) := Key.incrBy key c.time c.quantity
      let (key, ttl) : Key ℕ × ℤ :=
        if newval = c.quantity then (Key.expire key c.time R.period, R.period)
        else if Key.ttl key c.time < 0 then (Key.expire key c.time R.period, R.period)
        else (key, Key.ttl key c.time)
      (key, ⟨0, c.limit, atLeast 0 (c.limit - newval), -1, ttl⟩) := by
  have hq' : c.quantity ≠ 0 := by omega
  simp only [fixedWindowMachine, fixedWindow, if_neg hq', if_neg (not_lt.mpr h)]

/-- A consuming call is admitted when the open window has room for it. -/
theorem status_eq_zero_iff (w : Option Window) {c : WindowCall} (hq : 1 ≤ c.quantity) :
    ((fixedWindowMachine R.period).step (keyOf R w) c).2.status = 0 ↔
      openTotal R w c.time + c.quantity ≤ c.limit := by
  rw [← get_keyOf]
  by_cases h : (Key.get (keyOf R w) c.time).getD 0 + c.quantity ≤ c.limit
  · simp only [step_admitted R _ hq h, h]
  · simp [step_rejected R _ hq (not_le.mp h), h]

/-- A counter that `INCRBY` created and `EXPIRE` gave the window. -/
theorem expire_new (q : ℕ) (now : ℕ) :
    Key.expire (some ⟨q, none⟩) now R.period = keyOf R (some ⟨now, q⟩) := by
  have hperiod : R.period ≠ 0 := by
    have := R.period_pos
    omega
  simp [Key.expire, windowEnd, hperiod]

/-- The time left of an open window is not negative. -/
theorem not_ttl_neg {w : Window} {now : ℕ} (h : now < windowEnd R w) :
    ¬ Key.ttl (keyOf R (some w)) now < 0 :=
  not_lt.mpr (Key.ttl_nonneg now w.total h)

/-- `INCRBY`, and `EXPIRE` when the counter is new, enter the admission into the key's window. -/
theorem step_key_of_admitted {w : Option Window} (hw : Filled w) {c : WindowCall}
    (hq : 1 ≤ c.quantity) (hroom : openTotal R w c.time + c.quantity ≤ c.limit) :
    ((fixedWindowMachine R.period).step (keyOf R w) c).1 =
      keyOf R (enter R w ⟨c.time, c.quantity⟩) := by
  rw [← get_keyOf] at hroom
  rw [step_admitted R _ hq hroom]
  cases w with
  | none =>
    simp only [keyOf_none, Key.incrBy, Key.live_none, if_true]
    exact expire_new R _ _
  | some w =>
    have hpos : 0 < w.total := hw w rfl
    rcases lt_or_ge c.time (windowEnd R w) with hopen | hclosed
    · -- The counter lives, so it is more than the quantity alone and its time to live shows.
      have hne : w.total + c.quantity ≠ c.quantity := by omega
      have hinc : Key.incrBy (keyOf R (some w)) c.time c.quantity =
          (keyOf R (some ⟨w.opened, w.total + c.quantity⟩), w.total + c.quantity) := by
        simp only [keyOf_some, Key.incrBy_some_some, if_pos hopen, windowEnd_total]
      have httl := not_ttl_neg R (w := ⟨w.opened, w.total + c.quantity⟩) hopen
      rw [enter_of_lt R hopen, hinc]
      simp only [if_neg hne, if_neg httl]
    · have hinc : Key.incrBy (keyOf R (some w)) c.time c.quantity =
          (some ⟨c.quantity, none⟩, c.quantity) := by
        rw [keyOf_some, Key.incrBy_some_some, if_neg (not_lt.mpr hclosed)]
      rw [enter_of_le R hclosed, hinc, ← expire_new]
      simp only [if_true]

/-- Peeks and rejected calls write nothing. -/
theorem step_key_of_not_admitted {key : Key ℕ} {c : WindowCall}
    (h : ¬ Admitted (key, c, ((fixedWindowMachine R.period).step key c).2)) :
    ((fixedWindowMachine R.period).step key c).1 = key := by
  rcases Nat.eq_zero_or_pos c.quantity with hq | hq
  · rw [step_peek R key hq]
  · rcases lt_or_ge c.limit ((Key.get key c.time).getD 0 + c.quantity) with hover | hroom
    · rw [step_rejected R key hq hover]
    · refine absurd ⟨hq, ?_⟩ h
      simp only [step_admitted R key hq hroom]

/-- An admission of something fills its window. -/
theorem filled_enter {w : Option Window} (hw : Filled w) {a : Stamp ℕ} (ha : 0 < a.amount) :
    Filled (enter R w a) := by
  cases w with
  | none => simpa [Filled, enter] using ha
  | some w =>
    have hpos : 0 < w.total := hw w rfl
    rcases lt_or_ge a.time (windowEnd R w) with hopen | hclosed
    · rw [enter_of_lt R hopen]
      rintro v ⟨⟩
      exact Nat.add_pos_left hpos _
    · rw [enter_of_le R hclosed]
      rintro v ⟨⟩
      exact ha

/-- The key after any run is the last window that the run's admissions opened. -/
theorem key_after (calls : List WindowCall) :
    let w := currentWindow R (admissions ((fixedWindowMachine R.period).trace none calls))
    (fixedWindowMachine R.period).after none calls = keyOf R w ∧ Filled w := by
  induction calls using List.reverseRecOn with
  | nil => exact ⟨rfl, by simp [Filled, currentWindow]⟩
  | append_singleton calls c ih =>
    obtain ⟨hkey, hw⟩ := ih
    rw [Machine.trace_snoc, admissions_snoc, Machine.after_append, Machine.after_cons,
      Machine.after_nil]
    generalize admissions ((fixedWindowMachine R.period).trace none calls) = log at hkey hw ⊢
    generalize (fixedWindowMachine R.period).after none calls = key at hkey ⊢
    by_cases hadm : Admitted (key, c, ((fixedWindowMachine R.period).step key c).2)
    · rw [if_pos hadm, currentWindow_snoc]
      obtain ⟨hq, hs⟩ := hadm
      simp only at hs
      subst hkey
      refine ⟨?_, filled_enter R hw hq⟩
      exact step_key_of_admitted R hw hq ((status_eq_zero_iff R _ hq).mp hs)
    · rw [if_neg hadm, List.append_nil, step_key_of_not_admitted R hadm]
      exact ⟨hkey, hw⟩

/-! ## What two windows can hold -/

/-- What the history of a run in order with limit `L` looks like around its last window: nothing
after its end, at most `L` in it, and at most `L` in the `period` before it opened. -/
def Bounded (L : ℕ) (log : List (Stamp ℕ)) : Option Window → Prop
  | none => log = []
  | some w => (∀ e ∈ log, e.time < windowEnd R w) ∧ unitsIn (w.opened ≤ ·) log = w.total ∧
      w.total ≤ L ∧
      unitsIn (fun t => t < w.opened ∧ w.opened ≤ t + second * R.period) log ≤ L

/-- An admission within the limit, not before the others, keeps the bounds. -/
theorem bounded_enter {L : ℕ} {log : List (Stamp ℕ)} {w : Option Window}
    (h : Bounded R L log w) {a : Stamp ℕ} (hlast : ∀ e ∈ log, e.time ≤ a.time)
    (hopened : ∀ v ∈ w, v.opened ≤ a.time) (hroom : openTotal R w a.time + a.amount ≤ L) :
    Bounded R L (log ++ [a]) (enter R w a) := by
  have hperiod : 0 < second * R.period := Nat.mul_pos (by decide) R.period_pos
  cases w with
  | none =>
    simp only [Bounded] at h
    subst h
    simp only [openTotal] at hroom
    refine ⟨?_, ?_, ?_, ?_⟩
    · simp [windowEnd, hperiod]
    · simp
    · simpa using hroom
    · simp
  | some w =>
    obtain ⟨hend, htotal, hL, hbefore⟩ := h
    have hopen : w.opened ≤ a.time := hopened w rfl
    simp only [openTotal] at hroom
    by_cases hin : a.time < windowEnd R w
    · -- The open window gets more.
      rw [if_pos hin] at hroom
      simp only [enter, if_pos hin, Bounded]
      refine ⟨?_, ?_, hroom, ?_⟩
      · intro e he
        rcases List.mem_append.mp he with he | he
        · exact hend e he
        · rw [List.mem_singleton.mp he]
          exact hin
      · simp [htotal, hopen]
      · simp [hbefore, hopen.not_gt]
    · -- It is over, and the admission opens the next one.
      rw [if_neg hin] at hroom
      simp only [enter, if_neg hin, Bounded]
      have hend' : w.opened + second * R.period ≤ a.time := not_lt.mp hin
      refine ⟨?_, ?_, by omega, ?_⟩
      · intro e he
        rcases List.mem_append.mp he with he | he
        · exact (hlast e he).trans_lt (by simp only [windowEnd]; omega)
        · rw [List.mem_singleton.mp he]
          simp only [windowEnd]
          omega
      · -- Every earlier admission is before the end of its window, so before this one.
        have hnone : unitsIn (a.time ≤ ·) log = 0 := by
          apply unitsIn_eq_zero
          intro e he
          have := hend e he
          simp only [windowEnd] at this
          omega
        simp [hnone]
      · have hmono : unitsIn (fun t => t < a.time ∧ a.time ≤ t + second * R.period) log ≤
            unitsIn (w.opened ≤ ·) log := by
          apply unitsIn_mono
          intro e _ he
          omega
        simp only [unitsIn_append, unitsIn_cons, unitsIn_nil, lt_irrefl, false_and, if_false]
        omega

/-- No window was opened after its admissions. -/
theorem opened_enter {w : Option Window} {a : Stamp ℕ} (h : ∀ v ∈ w, v.opened ≤ a.time) :
    ∀ v ∈ enter R w a, v.opened ≤ a.time := by
  cases w with
  | none => simp [enter]
  | some w =>
    rcases lt_or_ge a.time (windowEnd R w) with hopen | hclosed
    · rw [enter_of_lt R hopen]
      rintro v ⟨⟩
      exact h w rfl
    · rw [enter_of_le R hclosed]
      rintro v ⟨⟩
      exact le_rfl

/-- The closed interval of one period from `x`. -/
def InPeriod (x : ℚ) (t : ℕ) : Prop := x ≤ luaNow t ∧ luaNow t ≤ x + R.period

/-- Whether a time is in the period can be decided. -/
instance (x : ℚ) : DecidablePred (InPeriod R x) := fun _ => inferInstanceAs (Decidable (_ ∧ _))

/-- Admissions within a period of one in the last window are in that window or in the period before
it opened. -/
theorem unitsIn_inPeriod_le {L : ℕ} {log : List (Stamp ℕ)} {w : Window}
    (h : Bounded R L log (some w)) {now : ℕ} (hnow : w.opened ≤ now) {x : ℚ}
    (hx : InPeriod R x now) : unitsIn (InPeriod R x) log ≤ 2 * L := by
  obtain ⟨-, htotal, hL, hbefore⟩ := h
  have hsplit : ∀ e ∈ log, InPeriod R x e.time →
      w.opened ≤ e.time ∨ e.time < w.opened ∧ w.opened ≤ e.time + second * R.period := by
    intro e _ he
    rcases le_or_gt w.opened e.time with hle | hlt
    · exact .inl hle
    · refine .inr ⟨hlt, ?_⟩
      have hsec : luaNow w.opened ≤ luaNow (e.time + second * R.period) := by
        rw [luaNow_add_seconds]
        have h1 := luaNow_le.mpr hnow
        have h2 := hx.2
        have h3 := he.1
        linarith
      exact luaNow_le.mp hsec
  have hcover := unitsIn_le_add (InPeriod R x) (w.opened ≤ ·)
    (fun t => t < w.opened ∧ w.opened ≤ t + second * R.period) hsplit
  omega

/-- Along a run in order with limit `L`, the bounds hold, and no closed period holds more than
`2 L`. -/
theorem bounded_after {L : ℕ} (calls : List WindowCall) (hL : ∀ a ∈ calls, a.limit = L)
    (horder : InOrder calls) :
    let log := admissions ((fixedWindowMachine R.period).trace none calls)
    Bounded R L log (currentWindow R log) ∧
      (∀ now, (∀ a ∈ calls, a.time ≤ now) → ∀ v ∈ currentWindow R log, v.opened ≤ now) ∧
      ∀ x, unitsIn (InPeriod R x) log ≤ 2 * L := by
  induction calls using List.reverseRecOn with
  | nil => simp [Bounded, currentWindow]
  | append_singleton calls c ih =>
    obtain ⟨hcalls, hlast⟩ := horder.of_snoc
    obtain ⟨hb, htimes, hsum⟩ := ih (fun a ha => hL a (by simp [ha])) hcalls
    have hbefore := time_le_of_mem_admissions (s := none) (fixedWindowMachine R.period) hlast
    have hopened := htimes c.time hlast
    obtain ⟨hkey, -⟩ := key_after R calls
    simp only [Machine.trace_snoc, admissions_snoc]
    generalize admissions ((fixedWindowMachine R.period).trace none calls) = log at *
    generalize (fixedWindowMachine R.period).after none calls = key at *
    by_cases hadm : Admitted (key, c, ((fixedWindowMachine R.period).step key c).2)
    · rw [if_pos hadm, currentWindow_snoc]
      obtain ⟨hq, hs⟩ := hadm
      simp only at hs
      subst hkey
      have hroom := (status_eq_zero_iff R _ hq).mp hs
      rw [hL c (by simp)] at hroom
      set a : Stamp ℕ := ⟨c.time, c.quantity⟩ with ha
      change Bounded R L (log ++ [a]) _ ∧ _
      have hb' := bounded_enter R hb (a := a) hbefore hopened hroom
      have hopened' := opened_enter R (a := a) hopened
      refine ⟨hb', ?_, ?_⟩
      · intro now hnow
        have hc : c.time ≤ now := hnow c (by simp)
        exact fun v hv => (hopened' v hv).trans hc
      · -- A period with the new admission in it is bounded by the last window and the time before.
        intro x
        change unitsIn (InPeriod R x) (log ++ [a]) ≤ 2 * L
        by_cases hx : InPeriod R x a.time
        · cases hw : enter R (currentWindow R log) a with
          | none => simp [hw, Bounded] at hb'
          | some w =>
            rw [hw] at hb' hopened'
            exact unitsIn_inPeriod_le R hb' (hopened' w rfl) hx
        · have := hsum x
          simpa [hx] using this
    · rw [if_neg hadm, List.append_nil]
      exact ⟨hb, fun now hnow => htimes now fun a ha => hnow a (by simp [ha]), hsum⟩

end FixedWindow

open FixedWindow in
/-- The fixed window admits exactly up to the limit. After any calls on the key, a consuming call is
admitted when the total of the open window and its quantity are within its limit; the key holds that
window's counter and goes at the window's end; and when all calls have one limit, no closed period
holds more than twice it. -/
theorem fixedWindow_exact (R : Rate) (calls : List WindowCall) :
    let log := admissions ((fixedWindowMachine R.period).trace none calls)
    let key := (fixedWindowMachine R.period).after none calls
    let w := currentWindow R log
    (∀ c : WindowCall, 1 ≤ c.quantity →
      (((fixedWindowMachine R.period).step key c).2.status = 0 ↔
        openTotal R w c.time + c.quantity ≤ c.limit)) ∧
    (∀ e, key = some e → ∃ v, w = some v ∧ e.val = v.total ∧ e.expireAt = some (windowEnd R v)) ∧
    ∀ L, (∀ a ∈ calls, a.limit = L) → InOrder calls →
      ∀ x, unitsIn (InPeriod R x) log ≤ 2 * L := by
  intro log key w
  -- The key is that of the window which the log opens.
  obtain ⟨hkey, -⟩ := key_after R calls
  refine ⟨?_, ?_, ?_⟩
  · intro c hq
    rw [show key = keyOf R w from hkey]
    exact status_eq_zero_iff R w hq
  · intro e he
    rw [show key = keyOf R w from hkey] at he
    cases hw : w with
    | none =>
      rw [hw] at he
      cases he
    | some v =>
      rw [hw, keyOf_some, Option.some.injEq] at he
      exact ⟨v, rfl, by rw [← he], by rw [← he]⟩
  · intro L hL horder
    exact (bounded_after R calls hL horder).2.2

/-- With a limit of three and a window of two seconds, two units at 1 s and one at 2 s fill the
window. A unit at 2.5 s does not fit; three do when the window has ended, at 3 s, and the period
from 1 s to 3 s then holds twice the limit. -/
theorem fixedWindow_exact_two_windows :
    let R : Rate := ⟨3, 2, by decide, by decide⟩
    let M := fixedWindowMachine R.period
    let calls : List WindowCall := [⟨1000000, 3, 2⟩, ⟨2000000, 3, 1⟩]
    (M.step (M.after none calls) ⟨2500000, 3, 1⟩).2.status ≠ 0 ∧
      (M.step (M.after none calls) ⟨3000000, 3, 3⟩).2.status = 0 ∧
      unitsIn (FixedWindow.InPeriod R 1) (admissions (M.trace none (calls ++ [⟨3000000, 3, 3⟩]))) =
        2 * 3 ∧
      ∀ x, unitsIn (FixedWindow.InPeriod R x)
        (admissions (M.trace none (calls ++ [⟨3000000, 3, 3⟩]))) ≤ 2 * 3 := by
  intro R M calls
  refine ⟨?_, ?_, by decide +kernel, ?_⟩
  · have hfull : ¬ FixedWindow.openTotal R
        (FixedWindow.currentWindow R (admissions (M.trace none calls))) 2500000 + 1 ≤ 3 := by
      decide +kernel
    exact mt ((fixedWindow_exact R calls).1 ⟨2500000, 3, 1⟩ (by decide)).mp hfull
  · exact ((fixedWindow_exact R calls).1 ⟨3000000, 3, 3⟩ (by decide)).mpr (by decide +kernel)
  · exact (fixedWindow_exact R _).2.2 3 (by decide) (by decide)

end NginxRatelimit
