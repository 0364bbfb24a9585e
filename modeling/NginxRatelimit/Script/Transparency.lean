import Mathlib.Algebra.Order.Group.MinMax
import NginxRatelimit.Script.FixedWindow
import NginxRatelimit.Script.Gcra
import NginxRatelimit.Script.SlidingWindow
import NginxRatelimit.Script.TokenBucket

/-!
# Deleting peeks and rejected calls

Peeks write nothing in any script, nor do rejected calls in the fixed window, GCRA and the sliding
window, so the rest of a run does not see them. The token bucket stores the refilled balance also
when it rejects. Two keys are then compared by the buckets that later calls find on them
(`SameFrom`), a relation that no later call can break: it makes a rejected call invisible when its
balance is stored exactly. Otherwise the balance that later calls find is off by the rounding.
-/

namespace NginxRatelimit

open Library ScriptCall

section

variable {α ι : Type} [ScriptCall ι] (M : Machine (Key α) ι Reply) (pre : List ι) (c : ι)

/-- A call can be deleted from a run: the other calls get the replies that they get with it. -/
def Deletable (post : List ι) : Prop :=
  M.outputs none (pre ++ post) = (M.outputs none (pre ++ c :: post)).eraseIdx pre.length

/-- Whether a call can be deleted is decided by two runs. -/
instance (post : List ι) : Decidable (Deletable M pre c post) :=
  inferInstanceAs (Decidable (_ = _))

/-- A call after others is a peek or is rejected. -/
def PeekOrRejected : Prop := quantity c = 0 ∨ (M.step (M.after none pre) c).2.status = 1

/-- Whether a call is a peek or is rejected can be decided. -/
instance : Decidable (PeekOrRejected M pre c) := inferInstanceAs (Decidable (_ ∨ _))

/-- Such a call is not admitted. -/
theorem PeekOrRejected.not_admitted {M : Machine (Key α) ι Reply} {pre : List ι} {c : ι}
    (h : PeekOrRejected M pre c) :
    ¬ Admitted (M.after none pre, c, (M.step (M.after none pre) c).2) := by
  rintro ⟨hq, hs⟩
  dsimp only at hq hs
  rcases h with h | h
  · exact hq.ne' h
  · exact absurd (hs.symm.trans h) (by decide)

end

namespace TokenBucket

variable (R : Rate)

/-- From `t` on, every call with the burst finds the same bucket on two keys. -/
def SameFrom (burst t : ℕ) (key key' : Key Bucket) : Prop :=
  ∀ c : Call, c.burst = burst → t ≤ c.time → current R c key = current R c key'

/-- A reply depends on the key through the bucket that the call finds. -/
theorem reply_congr {c : Call} {key key' : Key Bucket} (h : current R c key = current R c key') :
    ((tokenBucketMachine R).step key c).2 = ((tokenBucketMachine R).step key' c).2 := by
  rcases Nat.eq_zero_or_pos c.quantity with hq | hq
  · rw [step_peek R key hq, step_peek R key' hq, h]
  · by_cases hfit : (c.quantity : ℚ) ≤ (current R c key).tokens
    · rw [step_admitted R hq hfit, step_admitted R hq (h ▸ hfit), h]
    · rw [step_rejected R hq hfit, step_rejected R hq (h ▸ hfit), h]

/-- So does the key that a consuming call leaves. -/
theorem key_congr {c : Call} {key key' : Key Bucket} (hq : 1 ≤ c.quantity)
    (h : current R c key = current R c key') :
    ((tokenBucketMachine R).step key c).1 = ((tokenBucketMachine R).step key' c).1 := by
  rw [step_key R hq, step_key R hq, granted, granted, h]

/-- Keys with the same buckets from some time on cannot be told apart after it. -/
theorem sameFrom_timedSim (burst : ℕ) :
    Machine.TimedSim (tokenBucketMachine R) (tokenBucketMachine R) Call.time
      (fun c => c.burst = burst) (SameFrom R burst) where
  mono hle h c hb hc := h c hb (hle.trans hc)
  output c hb h := reply_congr R (h c hb le_rfl)
  next := by
    intro key key' c hb h
    rcases Nat.eq_zero_or_pos c.quantity with hq | hq
    · rw [step_key_of_peek R hq, step_key_of_peek R hq]
      exact h
    · intro d _ _
      rw [key_congr R hq (h c hb le_rfl)]

/-- A later call finds the balance of an earlier one, refilled and capped. -/
theorem current_later {burst now : ℕ} {log : List (Stamp ℕ)} {key : Key Bucket} {c d : Call}
    (h : KeyTracks R burst now log key) (hc : now ≤ c.time) (hcd : c.time ≤ d.time)
    (hbc : c.burst = burst) (hbd : d.burst = burst) :
    current R d key =
      ⟨min (R.capacity burst)
          ((current R c key).tokens + (luaNow d.time - luaNow c.time) * R.perSecond),
        luaNow d.time⟩ := by
  have hr := R.perSecond_pos
  have hle : luaNow c.time ≤ luaNow d.time := luaNow_le.mpr hcd
  have hgain : 0 ≤ (luaNow d.time - luaNow c.time) * R.perSecond := mul_nonneg (by linarith) hr.le
  rcases h with ⟨-, rfl⟩ | ⟨tokens, t, expiry, rfl, ht, h0, hcap, hexp, -⟩
  · rw [current_none, current_none, hbc, hbd, min_eq_left (by simpa using hgain)]
  · have hc' := current_some R (c := c) h0 (hbc ▸ hcap) (ht.trans hc) (hbc ▸ hexp)
    have hd' := current_some R (c := d) h0 (hbd ▸ hcap) (ht.trans (hc.trans hcd)) (hbd ▸ hexp)
    rw [hc', hd', hbc, hbd]
    congr 1
    -- Capping in between changes nothing: what is capped at `c` is capped at `d`.
    rcases min_cases (R.capacity burst)
        (tokens + (luaNow c.time - luaNow t) * R.perSecond) with ⟨hm, hx⟩ | ⟨hm, hx⟩
    · dsimp only
      rw [hm, min_eq_left (by linarith), min_eq_left (by linarith)]
    · dsimp only
      rw [hm]
      congr 1
      ring

/-- What a later call finds on the key that a rejected call leaves. -/
theorem current_after_reject {burst now : ℕ} {log : List (Stamp ℕ)} {key : Key Bucket} {c d : Call}
    (h : KeyTracks R burst now log key) (hc : now ≤ c.time) (hcd : c.time ≤ d.time)
    (hbc : c.burst = burst) (hbd : d.burst = burst) (hq : 1 ≤ c.quantity)
    (hrej : ¬ c.quantity ≤ (current R c key).tokens) :
    current R d ((tokenBucketMachine R).step key c).1 =
      ⟨min (R.capacity burst)
          (fmt6 (current R c key).tokens + (luaNow d.time - luaNow c.time) * R.perSecond),
        luaNow d.time⟩ := by
  obtain ⟨hts, h0, -⟩ := current_of_keyTracks R h hbc hc
  have hcap := current_le_capacity R h hbc hc
  rw [step_key R hq, hts, fmt6_luaNow, granted, if_neg hrej, Nat.cast_zero, sub_zero, hbc]
  subst hbd
  refine current_some R (fmt6_nonneg h0) (fmt6_le (R.sixDecimals_capacity _) hcap) hcd ?_
  rw [luaNow_add_seconds]
  have := capacity_div_le_ttl R d.burst
  linarith

/-- A rejected call moves the balance that later calls find by at most half a millionth. -/
theorem abs_sub_le_after_reject {burst now : ℕ} {log : List (Stamp ℕ)} {key : Key Bucket}
    {c d : Call} (h : KeyTracks R burst now log key) (hc : now ≤ c.time) (hcd : c.time ≤ d.time)
    (hbc : c.burst = burst) (hbd : d.burst = burst) (hq : 1 ≤ c.quantity)
    (hrej : ¬ c.quantity ≤ (current R c key).tokens) :
    |(current R d ((tokenBucketMachine R).step key c).1).tokens - (current R d key).tokens| ≤
      5 / 10000000 := by
  rw [current_after_reject R h hc hcd hbc hbd hq hrej, current_later R h hc hcd hbc hbd]
  refine (abs_min_sub_min_le_max _ _ _ _).trans ?_
  rw [sub_self, abs_zero, add_sub_add_right_eq_sub]
  exact max_le (by norm_num) (abs_fmt6_sub_le _)

/-- A rejected call whose balance is stored exactly leaves the same buckets. -/
theorem sameFrom_after_reject {burst now : ℕ} {log : List (Stamp ℕ)} {key : Key Bucket} {c : Call}
    (h : KeyTracks R burst now log key) (hc : now ≤ c.time) (hbc : c.burst = burst)
    (hq : 1 ≤ c.quantity) (hrej : ¬ c.quantity ≤ (current R c key).tokens)
    (hexact : SixDecimals (current R c key).tokens) :
    SameFrom R burst c.time key ((tokenBucketMachine R).step key c).1 := by
  intro d hbd hcd
  rw [current_after_reject R h hc hcd hbc hbd hq hrej, current_later R h hc hcd hbc hbd,
    fmt6_of_sixDecimals hexact]

/-- A rate of whole tokens a second keeps balances exact. -/
theorem sixDecimals_current (hdvd : R.period ∣ R.requests) (calls : List Call) (c : Call) :
    SixDecimals (current R c ((tokenBucketMachine R).after none calls)).tokens := by
  have hstored : ∀ e ∈ (tokenBucketMachine R).after none calls,
      SixDecimals e.val.tokens ∧ SixDecimals e.val.ts := by
    refine Machine.after_induction (tokenBucketMachine R) (P := fun key =>
      ∀ e ∈ key, SixDecimals e.val.tokens ∧ SixDecimals e.val.ts) (by simp) ?_ calls
    intro key c ih
    rcases Nat.eq_zero_or_pos c.quantity with hq | hq
    · rw [step_key_of_peek R hq]
      exact ih
    · rw [step_key R hq]
      rintro e ⟨⟩
      exact ⟨onGrid_toGrid _ _, onGrid_toGrid _ _⟩
  obtain ⟨n, hn⟩ := hdvd
  -- With a whole number of tokens a second, a refill keeps the six decimals.
  have hrate : R.perSecond = n := by
    have hp : (R.period : ℚ) ≠ 0 := by exact_mod_cast (Nat.one_le_iff_ne_zero.mp R.period_pos)
    rw [Rate.perSecond, hn]
    push_cast
    field_simp
  have hcap := R.sixDecimals_capacity c.burst
  have hdata : ∀ b ∈ Key.get ((tokenBucketMachine R).after none calls) c.time,
      SixDecimals b.tokens ∧ SixDecimals b.ts := by
    intro b hb
    obtain ⟨e, he, rfl⟩ := Option.map_eq_some_iff.mp hb
    exact hstored e (Option.mem_filter_iff.mp he).1
  unfold current
  -- A balance is the capacity, the stored one, or the stored one refilled.
  cases hget : Key.get ((tokenBucketMachine R).after none calls) c.time with
  | none => simpa [refill] using hcap
  | some b =>
    obtain ⟨htok, hts⟩ := hdata b hget
    have hrefilled : SixDecimals (b.tokens + (luaNow c.time - b.ts) * R.perSecond) := by
      rw [hrate]
      exact htok.add (((sixDecimals_luaNow c.time).sub hts).mul_natCast n)
    simp only [refill, Option.getD_some]
    split_ifs
    · exact hcap
    · exact hrefilled
    · exact htok

end TokenBucket

end NginxRatelimit
