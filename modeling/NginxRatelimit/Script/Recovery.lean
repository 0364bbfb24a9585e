import NginxRatelimit.Script.Expiry

/-!
# Capacity and the clock

What a peek reports on one stored state, as the server time moves. The token bucket refills and
GCRA's debt is paid off as time passes, and a time before the write finds the state as it was
written, so the `remaining` of these two never falls. The counts of the sliding window weigh less
and less from their own window on (`decayed_antitone`), but a time in an earlier window finds none:
its `remaining` falls exactly from such a time to one at which they still count
(`capacity_recovers_iff`).
-/

namespace NginxRatelimit

open Library

variable (R : Rate)

/-- The `remaining` that a peek reports. -/
def peekRemaining (b : Builtin) (key : Key b.Stored) (burst now : ℕ) : ℤ :=
  (replyOn R b key ⟨now, burst, 0⟩).remaining

/-- The sliding window's stored counts are of a window after the first time's, and count at the
second time. -/
def Uncounted : (b : Builtin) → Key b.Stored → ℕ → ℕ → Prop
  | .slidingWindow, key, s, t =>
    ∃ e ∈ key, curWin R.period s < e.val.w ∧ e.val.w ≤ curWin R.period t ∧
      curWin R.period t ≤ e.val.w + 1
  | _, _, _, _ => False

/-- For counts that are stored, it is a matter of their window. -/
theorem uncounted_some (e : Entry Counts) (s t : ℕ) :
    Uncounted R .slidingWindow (some e) s t ↔
      curWin R.period s < e.val.w ∧ e.val.w ≤ curWin R.period t ∧
        curWin R.period t ≤ e.val.w + 1 := by
  constructor
  · rintro ⟨e', he, h⟩
    obtain rfl : e = e' := Option.some.inj he
    exact h
  · exact fun h => ⟨e, rfl, h⟩

/-- A bound from below keeps the order. -/
theorem atLeast_mono {lo x y : ℤ} (h : x ≤ y) : atLeast lo x ≤ atLeast lo y := by
  rw [atLeast_eq_max, atLeast_eq_max]
  exact max_le_max_left lo h

/-! ## The token bucket -/

namespace TokenBucket

/-- A stored balance is not negative and within the capacity. -/
def Capped (burst : ℕ) (key : Key Bucket) : Prop :=
  ∀ e ∈ key, 0 ≤ e.val.tokens ∧ e.val.tokens ≤ R.capacity burst

/-- What a call gets of such a key is within the capacity. -/
theorem Capped.get {burst : ℕ} {key : Key Bucket} (h : Capped R burst key) {now : ℕ} {b : Bucket}
    (hget : Key.get key now = some b) : b.tokens ≤ R.capacity burst := by
  obtain ⟨e, he, rfl⟩ := Option.map_eq_some_iff.mp hget
  exact (h e (Option.filter_eq_some_iff.mp he).1).2

/-- A balance within the capacity is refilled and capped. -/
theorem refill_tokens {capacity rate now : ℚ} {b : Bucket} (hb : b.tokens ≤ capacity) :
    (refill capacity rate now (some b)).tokens =
      min capacity (b.tokens + max 0 (now - b.ts) * rate) := by
  simp only [refill, Option.getD_some]
  split_ifs with hel hover
  · rw [max_eq_right hel.le, min_eq_left hover.le]
  · rw [max_eq_right hel.le, min_eq_right (not_lt.mp hover)]
  · rw [max_eq_left (not_lt.mp hel), zero_mul, add_zero, min_eq_right hb]

/-- And so is the balance that it decides on. -/
theorem Capped.current_le {burst : ℕ} {key : Key Bucket} (h : Capped R burst key) {c : Call}
    (hc : c.burst = burst) : (current R c key).tokens ≤ R.capacity burst := by
  subst hc
  rcases current_le_or_eq R key c with hle | ⟨b, hget, -, hb⟩
  · exact hle
  · rw [hb]
    exact h.get R hget

/-- As time passes the balance does not fall. -/
theorem Capped.current_mono {burst s t : ℕ} {key : Key Bucket} (h : Capped R burst key)
    (hst : s ≤ t) :
    (current R ⟨s, burst, 0⟩ key).tokens ≤ (current R ⟨t, burst, 0⟩ key).tokens := by
  cases hget : Key.get key t with
  | none =>
    -- Nothing is stored at the later time, so the bucket is full then.
    have hfull : (current R ⟨t, burst, 0⟩ key).tokens = R.capacity burst := by
      rw [current, hget]
      simp [refill]
    rw [hfull]
    exact h.current_le R rfl
  | some b =>
    have hcap := h.get R hget
    have hts : luaNow s - b.ts ≤ luaNow t - b.ts := sub_le_sub_right (luaNow_le.mpr hst) _
    have hgain : max 0 (luaNow s - b.ts) * R.perSecond ≤ max 0 (luaNow t - b.ts) * R.perSecond :=
      mul_le_mul_of_nonneg_right (max_le_max_left 0 hts) R.perSecond_pos.le
    rw [current, current, hget, Key.get_of_le hst hget, refill_tokens hcap, refill_tokens hcap]
    exact min_le_min_left _ (by linarith)

/-- The balance stays within the capacity in every run with one burst. -/
theorem capped_after {burst : ℕ} {calls : List Call} (hburst : ∀ a ∈ calls, a.burst = burst) :
    Capped R burst ((tokenBucketMachine R).after none calls) := by
  refine Machine.after_induction_mem (P := Capped R burst) (Q := fun a : Call => a.burst = burst)
    _ ?_ ?_ hburst
  · exact fun e he => nomatch he
  · rintro key c rfl h
    rcases Nat.eq_zero_or_pos c.quantity with hq | hq
    · rw [step_key_of_peek R hq]
      exact h
    · rw [step_key R hq]
      intro e he
      obtain rfl : _ = e := Option.some.inj he
      have hnonneg := current_nonneg R (fun e he => (h e he).1) c
      have hgranted := granted_le R hnonneg
      have hg0 : (0 : ℚ) ≤ granted R c key := Nat.cast_nonneg _
      have hle := h.current_le R (c := c) rfl
      exact ⟨fmt6_nonneg (by linarith), fmt6_le (R.sixDecimals_capacity c.burst) (by linarith)⟩

end TokenBucket

/-! ## GCRA -/

/-- As time passes the TAT that a call works with does not move further ahead of it. -/
theorem Gcra.effectiveTat_sub_antitone (key : Key ℚ) {s t : ℕ} (hst : s ≤ t) :
    effectiveTat t key - luaNow t ≤ effectiveTat s key - luaNow s := by
  have hnow : luaNow s ≤ luaNow t := luaNow_le.mpr hst
  have hahead := effectiveTat_ge s key
  cases hget : Key.get key t with
  | none =>
    have htat : effectiveTat t key = luaNow t := by
      rw [effectiveTat, hget]
      exact ite_self _
    linarith
  | some tat =>
    rw [effectiveTat_of_get hget, effectiveTat_of_get (Key.get_of_le hst hget)]
    rcases max_cases tat (luaNow t) with ⟨ht, -⟩ | ⟨ht, -⟩
    · have := le_max_left tat (luaNow s)
      linarith
    · have := le_max_right tat (luaNow s)
      linarith

/-- As time passes, the slack grows. -/
theorem Gcra.slack_mono (key : Key ℚ) (burst : ℕ) {s t : ℕ} (hst : s ≤ t) :
    slack R ⟨s, burst, 0⟩ key ≤ slack R ⟨t, burst, 0⟩ key := by
  have h := effectiveTat_sub_antitone key hst
  simp only [slack, newTat]
  linarith

/-! ## The sliding window -/

namespace SlidingWindow

/-- `weight`: the part of the window before that is still inside the trailing window. -/
def weight (now : ℕ) : ℚ := (R.period - elapsedIn R.period now) / R.period

/-- The window before counts to the end of the current one. -/
theorem weight_pos (now : ℕ) : 0 < weight R now :=
  div_pos (sub_pos.mpr (elapsedIn_lt R now)) (period_pos R)

/-- And not more than in full. -/
theorem weight_le_one (now : ℕ) : weight R now ≤ 1 := by
  have h := elapsedIn_nonneg R now
  rw [weight, div_le_one (period_pos R)]
  linarith

/-- In one window the weight falls. -/
theorem weight_antitone {s t : ℕ} (hst : s ≤ t) (h : curWin R.period s = curWin R.period t) :
    weight R t ≤ weight R s := by
  have hnow := luaNow_le.mpr hst
  refine div_le_div_of_nonneg_right ?_ (period_pos R).le
  rw [elapsedIn, elapsedIn, h]
  linarith

/-- What stored counts amount to at a time. -/
def decayed (s : Counts) (now : ℕ) : ℚ :=
  let r := rollOver (curWin R.period now) (some s)
  r.p * weight R now + r.c

/-- In a window before their own, or two after it, they are nothing. -/
theorem decayed_eq_zero {s : Counts} {now : ℕ}
    (h : curWin R.period now < s.w ∨ s.w + 2 ≤ curWin R.period now) : decayed R s now = 0 := by
  have h1 : ¬ s.w = curWin R.period now - 1 := by omega
  have h2 : s.w ≠ curWin R.period now := by omega
  simp [decayed, rollOver, h1, h2]

/-- In their own window the count of the one before is weighted. -/
theorem decayed_of_eq {s : Counts} {now : ℕ} (h : curWin R.period now = s.w) :
    decayed R s now = s.p * weight R now + s.c := by
  rw [decayed, rollOver_of_eq h.symm]

/-- In the next one their own count is. -/
theorem decayed_of_eq_add_one {s : Counts} {now : ℕ} (h : curWin R.period now = s.w + 1) :
    decayed R s now = s.c * weight R now := by
  rw [decayed, rollOver_of_eq_sub_one (by omega), Nat.cast_zero, add_zero]

/-- Counts never amount to less than nothing. -/
theorem decayed_nonneg (s : Counts) (now : ℕ) : 0 ≤ decayed R s now := by
  have hweight := weight_pos R now
  unfold decayed
  positivity

/-- Counts of at least one unit count in their own window and in the next. -/
theorem decayed_pos {s : Counts} (hc : 1 ≤ s.c) {now : ℕ} (hle : s.w ≤ curWin R.period now)
    (hlt : curWin R.period now ≤ s.w + 1) : 0 < decayed R s now := by
  have hunits : (1 : ℚ) ≤ s.c := by exact_mod_cast hc
  have hweight := weight_pos R now
  rcases eq_or_lt_of_le hle with h | h
  · rw [decayed_of_eq R h.symm]
    positivity
  · rw [decayed_of_eq_add_one R (by omega)]
    positivity

/-- From their own window on, stored counts amount to less and less, over the rollovers too. -/
theorem decayed_antitone {v : Counts} {s t : ℕ} (hst : s ≤ t) (hs : v.w ≤ curWin R.period s) :
    decayed R v t ≤ decayed R v s := by
  have hwin := curWin_mono R hst
  have hp : (0 : ℚ) ≤ v.p := Nat.cast_nonneg _
  have hc : (0 : ℚ) ≤ v.c := Nat.cast_nonneg _
  by_cases hold : v.w + 2 ≤ curWin R.period t
  · rw [decayed_eq_zero R (.inr hold)]
    exact decayed_nonneg R v s
  · rcases eq_or_lt_of_le hwin with hsame | hnext
    · -- Inside one window only the weight moves.
      have hweight := weight_antitone R hst hsame
      rcases eq_or_lt_of_le hs with h | h
      · rw [decayed_of_eq R (hsame.symm.trans h.symm), decayed_of_eq R h.symm]
        have := mul_le_mul_of_nonneg_left hweight hp
        linarith
      · rw [decayed_of_eq_add_one R (by omega), decayed_of_eq_add_one R (by omega)]
        exact mul_le_mul_of_nonneg_left hweight hc
    · -- Over the rollover the count itself becomes the weighted one.
      rw [decayed_of_eq R (by omega : curWin R.period s = v.w), decayed_of_eq_add_one R (by omega)]
      have hprev := mul_nonneg hp (weight_pos R s).le
      have hfall := mul_le_mul_of_nonneg_left (weight_le_one R t) hc
      linarith

/-- A peek reports what the stored counts leave of the limit, expired or not. -/
theorem peekRemaining_some {limit burst : ℕ} (hlimit : (R.requests + burst) % uintT = limit)
    {e : Entry Counts} (h : Stamped R limit (some e)) (now : ℕ) :
    peekRemaining R .slidingWindow (some e) burst now =
      atLeast 0 ⌊limit - decayed R e.val now⌋ := by
  have hlapses : Lapses R .slidingWindow burst (some e) := lapses R h
  have hcounts : counts R (Call.window R ⟨now, burst, 0⟩) (some e) =
      rollOver (curWin R.period now) (some e.val) :=
    hlapses.view_forever R (c := ⟨now, burst, 0⟩) rfl
  rw [peekRemaining, replyOn, step_peek R _ rfl, hcounts]
  show atLeast 0 ⌊(((R.requests + burst) % uintT : ℕ) : ℚ) - decayed R e.val now⌋ = _
  rw [hlimit]

/-- And the whole limit when nothing is stored. -/
theorem peekRemaining_none (burst now : ℕ) :
    peekRemaining R .slidingWindow none burst now = ((R.requests + burst) % uintT : ℕ) := by
  have hcounts : counts R (Call.window R ⟨now, burst, 0⟩) none = ⟨0, curWin R.period now, 0⟩ :=
    rollOver_of_eq (s := ⟨0, curWin R.period now, 0⟩) rfl
  rw [peekRemaining, replyOn, step_peek R _ rfl, hcounts]
  dsimp only [Call.window]
  rw [estimate, Nat.cast_zero, zero_mul, add_zero, sub_zero, Int.floor_natCast, atLeast_eq_max]
  exact max_eq_right (Int.natCast_nonneg _)

/-- Its `remaining` falls exactly from a time in an earlier window to one at which they count. -/
theorem peekRemaining_le_iff {limit burst : ℕ} (hlimit : (R.requests + burst) % uintT = limit)
    {key : Key Counts} (hstamped : Stamped R limit key) {s t : ℕ} (hst : s ≤ t) :
    peekRemaining R .slidingWindow key burst s ≤ peekRemaining R .slidingWindow key burst t ↔
      ¬ Uncounted R .slidingWindow key s t := by
  rcases key with _ | e
  · rw [peekRemaining_none, peekRemaining_none]
    exact iff_of_true le_rfl fun ⟨_, he, _⟩ => nomatch he
  · obtain ⟨-, -, -, hc, hle⟩ := hstamped e rfl
    have hwin := curWin_mono R hst
    rw [peekRemaining_some R hlimit hstamped, peekRemaining_some R hlimit hstamped, uncounted_some]
    -- Where the counts amount to less, more remains.
    have hmono : decayed R e.val t ≤ decayed R e.val s →
        atLeast 0 ⌊limit - decayed R e.val s⌋ ≤ atLeast 0 ⌊limit - decayed R e.val t⌋ :=
      fun h => atLeast_mono (Int.floor_le_floor (sub_le_sub_left h _))
    rcases lt_or_ge (curWin R.period s) e.val.w with hbefore | hafter
    · by_cases hcount : e.val.w ≤ curWin R.period t ∧ curWin R.period t ≤ e.val.w + 1
      · -- The whole limit remains at the first time, and less at the second.
        refine iff_of_false ?_ (not_not.mpr ⟨hbefore, hcount⟩)
        have hpos := decayed_pos R hc hcount.1 hcount.2
        have hless : ⌊limit - decayed R e.val t⌋ < (limit : ℤ) := by
          rw [Int.floor_lt, Int.cast_natCast]
          linarith
        rw [decayed_eq_zero R (.inl hbefore), sub_zero, Int.floor_natCast, atLeast_eq_max,
          atLeast_eq_max]
        omega
      · have hzero : decayed R e.val t = 0 := decayed_eq_zero R (by omega)
        refine iff_of_true (hmono ?_) fun h => hcount h.2
        rw [hzero]
        exact decayed_nonneg R _ _
    · exact iff_of_true (hmono (decayed_antitone R hst hafter)) fun h => absurd h.1 hafter.not_gt

end SlidingWindow

/-- Capacity recovers as the clock advances, on every state that a run with one burst leaves: for a
script other than the fixed window, a peek at a time reports no more than one at a later time,
except on the sliding window's counts, from a time in a window before theirs to one in their own or
the next. -/
theorem capacity_recovers_iff (b : Builtin) (hb : b ≠ .fixedWindow) (burst : ℕ) (calls : List Call)
    (hburst : ∀ a ∈ calls, a.burst = burst) (s t : ℕ) (hst : s ≤ t) :
    let key := (b.machine R).after none calls
    peekRemaining R b key burst s ≤ peekRemaining R b key burst t ↔
      ¬ Uncounted R b key s t := by
  cases b with
  | fixedWindow => exact absurd rfl hb
  | tokenBucket =>
    refine iff_of_true ?_ not_false
    rw [peekRemaining, peekRemaining, replyOn, replyOn, TokenBucket.step_peek R _ rfl,
      TokenBucket.step_peek R _ rfl]
    exact Int.floor_le_floor ((TokenBucket.capped_after R hburst).current_mono R hst)
  | gcra =>
    refine iff_of_true ?_ not_false
    rw [peekRemaining, peekRemaining, replyOn, replyOn, Gcra.step_peek R _ rfl,
      Gcra.step_peek R _ rfl]
    have hslack := Gcra.slack_mono R ((Builtin.gcra.machine R).after none calls) burst hst
    have hunits := Int.floor_le_floor (div_le_div_of_nonneg_right hslack R.emission_pos.le)
    show atMost _ _ ≤ atMost _ _
    rw [atMost_eq_min, atMost_eq_min]
    exact min_le_min_left _ hunits
  | slidingWindow =>
    exact SlidingWindow.peekRemaining_le_iff R rfl (SlidingWindow.stamped_after R rfl hburst) hst

/-- GCRA at three requests in two seconds and a burst of one: a peek a second before the unit was
taken reports no more than one a second after. -/
theorem capacity_recovers_gcra :
    let R : Rate := ⟨3, 2, by decide, by decide⟩
    let key := (Builtin.gcra.machine R).after none [⟨2000000, 1, 1⟩]
    peekRemaining R .gcra key 1 1000000 ≤ peekRemaining R .gcra key 1 3000000 :=
  (capacity_recovers_iff ⟨3, 2, by decide, by decide⟩ .gcra (by decide) 1 [⟨2000000, 1, 1⟩]
    (by decide) 1000000 3000000 (by decide)).mpr not_false

/-- The sliding window hands consumed quota back when the clock steps back into an earlier window.
In windows of two seconds, after two of three units were taken at 3 s, a peek at 1 s reports all
three and a peek at 3 s reports one; and at 1 s all three can be taken. -/
theorem slidingWindow_clock_back :
    let R : Rate := ⟨3, 2, by decide, by decide⟩
    let key := (Builtin.slidingWindow.machine R).after none [⟨3000000, 0, 2⟩]
    peekRemaining R .slidingWindow key 0 1000000 = 3 ∧
      peekRemaining R .slidingWindow key 0 3000000 = 1 ∧
      ¬ peekRemaining R .slidingWindow key 0 1000000 ≤ peekRemaining R .slidingWindow key 0 3000000 ∧
      (replyOn R .slidingWindow key ⟨1000000, 0, 3⟩).status = 0 := by
  decide +kernel

end NginxRatelimit
