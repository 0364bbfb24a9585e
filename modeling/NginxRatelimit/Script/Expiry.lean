import NginxRatelimit.Script.Peek

/-!
# Key expiry

A script decides on what it makes of its key at the time of the call: the refilled balance, the TAT
that is not before now, the counts of the current window (`Builtin.view`). Two keys with the same
view are answered alike and written alike. A lifetime is long enough when, from its end on, the view
of the stored value is that of no value at all; `Lapses` says so of a key, and `lapses_after` of the
key after any run. So it makes no difference whether the store drops the key at its expiry or keeps
it for good.
-/

namespace NginxRatelimit

open Library

variable (R : Rate)

/-- The calls of a zone on one key. -/
def Builtin.machine : (b : Builtin) → Machine (Key b.Stored) Call Reply
  | .fixedWindow => ⟨fun key c => (fixedWindowMachine R.period).step key (c.window R)⟩
  | .tokenBucket => tokenBucketMachine R
  | .gcra => gcraMachine R
  | .slidingWindow => ⟨fun key c => (slidingWindowMachine R.period).step key (c.window R)⟩

/-- What a call makes of its key before it decides. -/
def Builtin.view : (b : Builtin) → Call → Key b.Stored → b.Stored
  | .fixedWindow, c, key => (Key.get key c.time).getD 0
  | .tokenBucket, c, key => TokenBucket.current R c key
  | .gcra, c, key => effectiveTat c.time key
  | .slidingWindow, c, key => SlidingWindow.counts R (c.window R) key

/-- A machine on a key of a store that never expires keys: it keeps the value only. -/
def forever {α ι : Type} (M : Machine (Key α) ι Reply) : Machine (Option α) ι Reply where
  step v c :=
    let (key, reply) := M.step (v.map fun x => ⟨x, none⟩) c
    (key.map Entry.val, reply)

/-- Two keys after the same call: both hold the same new entry, or both are as they were. -/
def WrittenAlike {α : Type} (before before' after after' : Key α) : Prop :=
  after = after' ∨ after = before ∧ after' = before'

/-! ## The view decides -/

/-- The token bucket's reply and entry come from the balance. -/
theorem TokenBucket.step_congr {key key' : Key Bucket} {c : Call}
    (h : current R c key = current R c key') :
    ((tokenBucketMachine R).step key c).2 = ((tokenBucketMachine R).step key' c).2 ∧
      WrittenAlike key key' ((tokenBucketMachine R).step key c).1
        ((tokenBucketMachine R).step key' c).1 := by
  rcases Nat.eq_zero_or_pos c.quantity with hq | hq
  · rw [step_peek R key hq, step_peek R key' hq, h]
    exact ⟨rfl, .inr ⟨rfl, rfl⟩⟩
  · constructor
    · by_cases hcov : (c.quantity : ℚ) ≤ (current R c key').tokens
      · rw [step_admitted R hq hcov, step_admitted R hq (h ▸ hcov), h]
      · rw [step_rejected R hq hcov, step_rejected R hq (h ▸ hcov), h]
    · rw [step_key R hq, step_key R hq, granted, granted, h]
      exact .inl rfl

/-- GCRA's from the TAT. -/
theorem Gcra.step_congr {key key' : Key ℚ} {c : Call}
    (h : effectiveTat c.time key = effectiveTat c.time key') :
    ((gcraMachine R).step key c).2 = ((gcraMachine R).step key' c).2 ∧
      WrittenAlike key key' ((gcraMachine R).step key c).1 ((gcraMachine R).step key' c).1 := by
  have hnew : newTat R c key = newTat R c key' := by rw [newTat, newTat, h]
  have hslack : slack R c key = slack R c key' := by rw [slack, slack, hnew]
  rcases Nat.eq_zero_or_pos c.quantity with hq | hq
  · rw [step_peek R key hq, step_peek R key' hq, hslack, h]
    exact ⟨rfl, .inr ⟨rfl, rfl⟩⟩
  · by_cases hfit : Fits R c key'
    · have hfit' : Fits R c key := by rwa [Fits, hnew]
      rw [step_admitted R hq hfit, step_admitted R hq hfit', hnew, hslack]
      exact ⟨rfl, .inl rfl⟩
    · have hfit' : ¬ Fits R c key := by rwa [Fits, hnew]
      rw [step_rejected R hq hfit, step_rejected R hq hfit', hslack, h]
      exact ⟨rfl, .inr ⟨rfl, rfl⟩⟩

/-- The sliding window's from the counts. -/
theorem SlidingWindow.step_congr {key key' : Key Counts} {c : WindowCall}
    (h : counts R c key = counts R c key') :
    ((slidingWindowMachine R.period).step key c).2 =
        ((slidingWindowMachine R.period).step key' c).2 ∧
      WrittenAlike key key' ((slidingWindowMachine R.period).step key c).1
        ((slidingWindowMachine R.period).step key' c).1 := by
  rcases Nat.eq_zero_or_pos c.quantity with hq | hq
  · rw [step_peek R key hq, step_peek R key' hq, h]
    exact ⟨rfl, .inr ⟨rfl, rfl⟩⟩
  · by_cases hfit : estimate R c (counts R c key') + c.quantity ≤ c.limit
    · rw [step_admitted R key' hq hfit, step_admitted R key hq (h ▸ hfit), h]
      exact ⟨rfl, .inl rfl⟩
    · rw [step_rejected R key' hq hfit, step_rejected R key hq (h ▸ hfit), h]
      exact ⟨rfl, .inr ⟨rfl, rfl⟩⟩

/-- So a script with a view of its own answers and writes by it. The fixed window also tells the
lifetime of its key. -/
theorem step_congr_view {b : Builtin} (hb : b ≠ .fixedWindow) {key key' : Key b.Stored} {c : Call}
    (h : b.view R c key = b.view R c key') :
    ((b.machine R).step key c).2 = ((b.machine R).step key' c).2 ∧
      WrittenAlike key key' ((b.machine R).step key c).1 ((b.machine R).step key' c).1 := by
  cases b with
  | fixedWindow => exact absurd rfl hb
  | tokenBucket => exact TokenBucket.step_congr R h
  | gcra => exact Gcra.step_congr R h
  | slidingWindow => exact SlidingWindow.step_congr R h

/-- The view depends on what the commands of the call see of the key. -/
theorem view_congr_get (b : Builtin) {key key' : Key b.Stored} {c : Call}
    (h : Key.get key c.time = Key.get key' c.time) : b.view R c key = b.view R c key' := by
  cases b with
  | fixedWindow => exact congrArg (Option.getD · 0) h
  | tokenBucket =>
    exact congrArg (refill (R.capacity c.burst) R.perSecond (luaNow c.time)) h
  | gcra =>
    show effectiveTat c.time key = effectiveTat c.time key'
    rw [effectiveTat, effectiveTat, h]
  | slidingWindow => exact congrArg (rollOver (curWin R.period c.time)) h

/-! ## Lifetimes -/

/-- From the end of its lifetime on, the key's value is worth what no value is. -/
def Lapses (b : Builtin) (burst : ℕ) (key : Key b.Stored) : Prop :=
  ∀ e ∈ key, ∃ x, e.expireAt = some x ∧ ∀ c : Call, c.burst = burst → x ≤ c.time →
    b.view R c (some ⟨e.val, none⟩) = b.view R c none

/-- The bucket of a run in order is full when its key expires. -/
theorem TokenBucket.lapses {burst now : ℕ} {log : List (Stamp ℕ)} {key : Key Bucket}
    (h : KeyTracks R burst now log key) : Lapses R .tokenBucket burst key := by
  rintro e he
  rcases h with ⟨-, rfl⟩ | ⟨tokens, t, expiry, rfl, -, h0, hcap, hexp, -⟩
  · cases he
  · obtain rfl : _ = e := Option.some.inj he
    refine ⟨expiry, rfl, ?_⟩
    rintro c rfl hc
    have hfill : 0 < R.capacity c.burst / R.perSecond :=
      div_pos (R.capacity_pos c.burst) R.perSecond_pos
    have ht : t ≤ c.time := (luaNow_le.mp (by linarith)).trans hc
    -- The value as it was stored, and one that is kept beyond the call, are refilled to the same.
    have hstored := current_some R h0 hcap ht hexp
    have hlater : luaNow t + R.capacity c.burst / R.perSecond ≤ luaNow (max expiry (c.time + 1)) :=
      hexp.trans (luaNow_le.mpr (le_max_left _ _))
    have hkept := current_some R h0 hcap ht hlater
    calc current R c (some ⟨⟨tokens, luaNow t⟩, none⟩)
        = current R c (some ⟨⟨tokens, luaNow t⟩, some (max expiry (c.time + 1))⟩) := by
          apply view_congr_get R .tokenBucket
          rw [Key.get_some_some, if_pos (lt_max_of_lt_right (Nat.lt_succ_self _))]
          rfl
      _ = current R c (some ⟨⟨tokens, luaNow t⟩, some expiry⟩) := hkept.trans hstored.symm
      _ = current R c none := by
          apply view_congr_get R .tokenBucket
          rw [Key.get_some_some, if_neg (not_lt.mpr hc), Key.get_none]

/-- The TAT of any run has passed when its key expires. -/
theorem Gcra.lapses {burst : ℕ} {log : List (Stamp ℕ)} {key : Key ℚ} (h : KeyTracks R log key) :
    Lapses R .gcra burst key := by
  rintro e he
  rcases h with ⟨-, rfl⟩ | ⟨tat, expiry, rfl, -, hle⟩
  · cases he
  · obtain rfl : _ = e := Option.some.inj he
    refine ⟨expiry, rfl, ?_⟩
    rintro c - hc
    have htat : tat ≤ luaNow c.time := hle.trans (luaNow_le.mpr hc)
    show effectiveTat c.time (some ⟨tat, none⟩) = effectiveTat c.time none
    rw [effectiveTat_none]
    show (if tat < luaNow c.time then luaNow c.time else tat) = luaNow c.time
    split_ifs with h
    · rfl
    · exact le_antisymm htat (not_lt.mp h)

namespace SlidingWindow

/-- What the key holds: the counts of the window of the last admission, for two periods from it
on. The limit was at least what they count there, which is at least that admission. -/
def Stamped (limit : ℕ) (key : Key Counts) : Prop :=
  ∀ e ∈ key, ∃ t, e.val.w = curWin R.period t ∧
    e.expireAt = some (t + second * (R.period * 2)) ∧ 1 ≤ e.val.c ∧ e.val.c ≤ limit

/-- The estimate is at least what the current window has. -/
theorem estimate_nonneg (c : WindowCall) (s : Counts) : (s.c : ℚ) ≤ estimate R c s := by
  have hin := elapsedIn_lt R c.time
  have hweight : 0 ≤ (R.period - elapsedIn R.period c.time) / R.period :=
    div_nonneg (by linarith) (period_pos R).le
  have hprev : 0 ≤ s.p * ((R.period - elapsedIn R.period c.time) / R.period) := by positivity
  unfold estimate
  linarith

/-- The counts that a call decides on are of its window. -/
theorem counts_w (c : WindowCall) (key : Key Counts) :
    (counts R c key).w = curWin R.period c.time := by
  unfold counts rollOver
  dsimp only
  split_ifs with h1 h2
  · rfl
  · rfl
  · exact not_not.mp h2

/-- Every call keeps what is known of the key. -/
theorem stamped_step {limit : ℕ} {key : Key Counts} (h : Stamped R limit key) {c : WindowCall}
    (hlimit : c.limit = limit) :
    Stamped R limit ((slidingWindowMachine R.period).step key c).1 := by
  by_cases hadm : Admitted (key, c, ((slidingWindowMachine R.period).step key c).2)
  · have hfit := (status_eq_zero_iff R key hadm.1).mp hadm.2
    rw [step_admitted R key hadm.1 hfit]
    intro e he
    obtain rfl : _ = e := Option.some.inj he
    refine ⟨c.time, counts_w R c key, rfl, ?_, ?_⟩
    · have hq : 0 < c.quantity := hadm.1
      show 1 ≤ (counts R c key).c + c.quantity
      omega
    · have hle := estimate_nonneg R c (counts R c key)
      have hroom : ((counts R c key).c + c.quantity : ℚ) ≤ c.limit := by linarith
      rw [← hlimit]
      exact_mod_cast hroom
  · rw [step_key_of_not_admitted R hadm]
    exact h

/-- The counts of any run are two windows old when their key expires. -/
theorem lapses {limit burst : ℕ} {key : Key Counts} (h : Stamped R limit key) :
    Lapses R .slidingWindow burst key := by
  intro e he
  obtain ⟨t, hw, hexp, -⟩ := h e he
  refine ⟨_, hexp, ?_⟩
  intro c _ hc
  have hwin : curWin R.period t + 2 ≤ curWin R.period c.time := curWin_add_two_le R hc
  show rollOver (curWin R.period c.time) (some e.val) = rollOver (curWin R.period c.time) none
  rw [rollOver_of_lt_sub_one (by omega)]
  exact (rollOver_of_eq (s := ⟨0, curWin R.period c.time, 0⟩) rfl).symm

/-- So it is known after every run with one burst. -/
theorem stamped_after {limit burst : ℕ} (hlimit : (R.requests + burst) % uintT = limit)
    {calls : List Call} (hburst : ∀ a ∈ calls, a.burst = burst) :
    Stamped R limit ((Builtin.slidingWindow.machine R).after none calls) := by
  refine Machine.after_induction_mem (P := Stamped R limit) (Q := fun a : Call => a.burst = burst)
    _ ?_ ?_ hburst
  · exact fun e he => nomatch he
  · rintro key c rfl h
    exact stamped_step R h (c := c.window R) hlimit

end SlidingWindow

/-- After any calls with one burst, in order for the token bucket, the key's lifetime is long
enough. -/
theorem lapses_after {b : Builtin} (hb : b ≠ .fixedWindow) {burst : ℕ} {calls : List Call}
    (hburst : ∀ a ∈ calls, a.burst = burst) (horder : b = .tokenBucket → InOrder calls) :
    Lapses R b burst ((b.machine R).after none calls) := by
  cases b with
  | fixedWindow => exact absurd rfl hb
  | tokenBucket =>
    obtain ⟨now, hnow⟩ : ∃ now, ∀ a ∈ calls, a.time ≤ now :=
      ⟨(calls.map Call.time).sum, fun a ha => List.le_sum_of_mem (List.mem_map_of_mem ha)⟩
    exact TokenBucket.lapses R
      (TokenBucket.keyTracks_after R calls hburst (horder rfl) now hnow)
  | gcra => exact Gcra.lapses R (Gcra.keyTracks_after R calls)
  | slidingWindow => exact SlidingWindow.lapses R (SlidingWindow.stamped_after R rfl hburst)

/-! ## Stores with and without expiry -/

/-- A call finds the same in the key and in a store that kept its value for good. -/
theorem Lapses.view_forever {b : Builtin} {burst : ℕ} {key : Key b.Stored}
    (h : Lapses R b burst key) {c : Call} (hc : c.burst = burst) :
    b.view R c key = b.view R c ((key.map Entry.val).map fun x => ⟨x, none⟩) := by
  rcases key with _ | e
  · rfl
  · obtain ⟨x, hx, hlapse⟩ := h e rfl
    obtain ⟨v, _⟩ := e
    obtain rfl : _ = some x := hx
    by_cases hlive : c.time < x
    · apply view_congr_get
      rw [Key.get_some_some, if_pos hlive]
      rfl
    · refine Eq.trans ?_ (hlapse c hc (not_lt.mp hlive)).symm
      apply view_congr_get
      rw [Key.get_some_some, if_neg hlive, Key.get_none]

/-- Keys with the same value have the same value after a call that writes them alike. -/
theorem WrittenAlike.map_val {α : Type} {key key' after after' : Key α}
    (h : WrittenAlike key key' after after') (hval : key.map Entry.val = key'.map Entry.val) :
    after.map Entry.val = after'.map Entry.val := by
  rcases h with rfl | ⟨rfl, rfl⟩
  · rfl
  · exact hval

/-- A run with key expiry and the same run without give the same replies and leave the same
value. -/
theorem outputs_forever {b : Builtin} (hb : b ≠ .fixedWindow) {burst : ℕ} {calls : List Call}
    (hburst : ∀ a ∈ calls, a.burst = burst) (horder : InOrder calls) :
    (b.machine R).outputs none calls = (forever (b.machine R)).outputs none calls ∧
      ((b.machine R).after none calls).map Entry.val =
        (forever (b.machine R)).after none calls := by
  induction calls using List.reverseRecOn with
  | nil => exact ⟨rfl, rfl⟩
  | append_singleton calls c ih =>
    have hprefix : ∀ a ∈ calls, a.burst = burst := fun a ha => hburst a (by simp [ha])
    obtain ⟨hcalls, -⟩ := horder.of_snoc
    obtain ⟨hout, hval⟩ := ih hprefix hcalls
    have hlapse := lapses_after R hb hprefix fun _ => hcalls
    -- Both stores show the call the same, so they answer it and change alike.
    obtain ⟨hreply, hwrite⟩ := step_congr_view R hb (hlapse.view_forever R (hburst c (by simp)))
    rw [Machine.outputs_append, Machine.outputs_append, hout, Machine.after_append,
      Machine.after_append, ← hval]
    constructor
    · exact congrArg (_ ++ [·]) hreply
    · apply hwrite.map_val
      rw [Option.map_map]
      exact (congrFun Option.map_id _).symm

/-- Key expiry is unobservable. A script other than the fixed window gives every key that it leaves
an expiry, and a call at or after it, whether the key is gone or still holds the value, is answered
the same and writes the same or nothing. So a run in order gives the same replies on a store that
never expires keys. -/
theorem expiry_unobservable (b : Builtin) (hb : b ≠ .fixedWindow) (burst : ℕ) (calls : List Call)
    (hburst : ∀ a ∈ calls, a.burst = burst) :
    let M := b.machine R
    ((b = .tokenBucket → InOrder calls) →
      ∀ e ∈ M.after none calls, ∃ x, e.expireAt = some x ∧
        ∀ c : Call, c.burst = burst → x ≤ c.time → ∀ gone kept : Key b.Stored,
          Key.get gone c.time = none → Key.get kept c.time = some e.val →
            (M.step gone c).2 = (M.step kept c).2 ∧
              WrittenAlike gone kept (M.step gone c).1 (M.step kept c).1) ∧
    (InOrder calls → M.outputs none calls = (forever M).outputs none calls) := by
  intro M
  refine ⟨fun horder e he => ?_, fun horder => (outputs_forever R hb hburst horder).1⟩
  obtain ⟨x, hx, hlapse⟩ := lapses_after R hb hburst horder e he
  refine ⟨x, hx, fun c hc hlate gone kept hgone hkept => ?_⟩
  apply step_congr_view R hb
  calc b.view R c gone = b.view R c none := view_congr_get R b hgone
    _ = b.view R c (some ⟨e.val, none⟩) := (hlapse c hc hlate).symm
    _ = b.view R c kept := view_congr_get R b hkept.symm

/-- At one token a minute and no burst, the bucket is emptied at 1 s and, after a rejected call at
2 s, expires at 62 s: a call then is answered alike by both stores. -/
theorem expiry_unobservable_tokenBucket :
    let M := Builtin.tokenBucket.machine ⟨1, 60, by decide, by decide⟩
    let calls : List Call := [⟨1000000, 0, 1⟩, ⟨2000000, 0, 1⟩, ⟨62000000, 0, 1⟩]
    InOrder calls ∧ M.outputs none calls = (forever M).outputs none calls :=
  have horder : InOrder [(⟨1000000, 0, 1⟩ : Call), ⟨2000000, 0, 1⟩, ⟨62000000, 0, 1⟩] := by decide
  ⟨horder, (expiry_unobservable ⟨1, 60, by decide, by decide⟩ .tokenBucket (by decide) 0
    [⟨1000000, 0, 1⟩, ⟨2000000, 0, 1⟩, ⟨62000000, 0, 1⟩] (by decide)).2 horder⟩

end NginxRatelimit
