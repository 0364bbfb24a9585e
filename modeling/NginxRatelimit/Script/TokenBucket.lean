import Mathlib.Tactic.Positivity
import NginxRatelimit.Library.Backlog
import NginxRatelimit.Script.Lua

/-!
# The token bucket and its rate envelope

What a bucket of capacity `C` lacks is a queue's backlog: `C - tokens`, moved along with the refill,
is the level of a queue in which every write is a demand of the tokens it granted. `KeyTracks` says
so of the key, and `keyTracks_after` of the key after any run in order. An expired key reads as a
full bucket, and would be full by then, because the script's `ttl` is the time of a whole refill.
-/

namespace NginxRatelimit

open Library ScriptCall

/-- `rate`: the tokens that come back in a second. -/
def Rate.perSecond (R : Rate) : ℚ := R.requests / R.period

/-- Tokens come back. -/
theorem Rate.perSecond_pos (R : Rate) : 0 < R.perSecond := by
  have hr : (0 : ℚ) < R.requests := by exact_mod_cast R.requests_pos
  have hp : (0 : ℚ) < R.period := by exact_mod_cast R.period_pos
  exact div_pos hr hp

/-- `capacity`: the tokens of a full bucket. -/
def Rate.capacity (R : Rate) (burst : ℕ) : ℚ := R.requests + burst

/-- A bucket holds some. -/
theorem Rate.capacity_pos (R : Rate) (burst : ℕ) : 0 < R.capacity burst := by
  have hr : (0 : ℚ) < R.requests := by exact_mod_cast R.requests_pos
  unfold Rate.capacity
  positivity

/-- A full bucket is written without rounding. -/
theorem Rate.sixDecimals_capacity (R : Rate) (burst : ℕ) : SixDecimals (R.capacity burst) := by
  have h := sixDecimals_intCast ((R.requests + burst : ℕ) : ℤ)
  unfold Rate.capacity
  push_cast at h ⊢
  exact h

namespace TokenBucket

variable (R : Rate)

/-- The bucket that a call works with, refilled up to its time. -/
def current (c : Call) (key : Key Bucket) : Bucket :=
  refill (R.capacity c.burst) R.perSecond (luaNow c.time) (Key.get key c.time)

/-- The lifetime that a write gives the key. -/
def ttl (burst : ℕ) : ℤ := atLeast 1 ⌈R.capacity burst / R.perSecond⌉

/-- The `reset` of a balance. -/
def reset (burst : ℕ) (tokens : ℚ) : ℤ := atLeast 0 ⌈(R.capacity burst - tokens) / R.perSecond⌉

/-- A peek reports the balance, and writes nothing. -/
theorem step_peek {c : Call} (key : Key Bucket) (hq : c.quantity = 0) :
    (tokenBucketMachine R).step key c =
      (key, ⟨if (current R c key).tokens < 1 then 1 else 0, R.requests + c.burst,
        ⌊(current R c key).tokens⌋, -1, reset R c.burst (current R c key).tokens⟩) := by
  simp only [tokenBucketMachine, tokenBucket, if_pos hq]
  rfl

/-- A call that the balance covers is admitted, and stores what it leaves. -/
theorem step_admitted {c : Call} {key : Key Bucket} (hq : 1 ≤ c.quantity)
    (h : c.quantity ≤ (current R c key).tokens) :
    (tokenBucketMachine R).step key c =
      (storeBucket key c.time ((current R c key).tokens - c.quantity) (current R c key).ts
          (ttl R c.burst),
        ⟨0, R.requests + c.burst, ⌊(current R c key).tokens - c.quantity⌋, -1,
          reset R c.burst ((current R c key).tokens - c.quantity)⟩) := by
  have hq' : c.quantity ≠ 0 := by omega
  simp only [current, Rate.capacity, Rate.perSecond] at h
  simp only [tokenBucketMachine, tokenBucket, if_neg hq', if_pos h]
  rfl

/-- A call that the balance does not cover is rejected, and stores the refilled balance. -/
theorem step_rejected {c : Call} {key : Key Bucket} (hq : 1 ≤ c.quantity)
    (h : ¬ c.quantity ≤ (current R c key).tokens) :
    (tokenBucketMachine R).step key c =
      (storeBucket key c.time (current R c key).tokens (current R c key).ts (ttl R c.burst),
        ⟨1, R.requests + c.burst, ⌊(current R c key).tokens⌋,
          atLeast 1 ⌈(c.quantity - (current R c key).tokens) / R.perSecond⌉,
          reset R c.burst (current R c key).tokens⟩) := by
  have hq' : c.quantity ≠ 0 := by omega
  simp only [current, Rate.capacity, Rate.perSecond] at h
  simp only [tokenBucketMachine, tokenBucket, if_neg hq', if_neg h]
  rfl

/-- A consuming call is admitted when the balance covers it. -/
theorem status_eq_zero_iff {c : Call} (key : Key Bucket) (hq : 1 ≤ c.quantity) :
    ((tokenBucketMachine R).step key c).2.status = 0 ↔
      c.quantity ≤ (current R c key).tokens := by
  by_cases h : (c.quantity : ℚ) ≤ (current R c key).tokens
  · simp [step_admitted R hq h, h]
  · simp [step_rejected R hq h, h]

/-- The tokens that a consuming call is granted. -/
def granted (c : Call) (key : Key Bucket) : ℕ :=
  if (c.quantity : ℚ) ≤ (current R c key).tokens then c.quantity else 0

/-- No more is granted than there is. -/
theorem granted_le {c : Call} {key : Key Bucket} (h : 0 ≤ (current R c key).tokens) :
    (granted R c key : ℚ) ≤ (current R c key).tokens := by
  unfold granted
  split_ifs with hle
  · exact hle
  · exact_mod_cast h

/-- The key is kept for some time. -/
theorem ttl_pos (burst : ℕ) : 0 < ttl R burst := by
  rw [ttl, atLeast_eq_max]
  omega

/-- The key is kept for at least the time of a whole refill. -/
theorem capacity_div_le_ttl (burst : ℕ) :
    R.capacity burst / R.perSecond ≤ (ttl R burst).toNat := by
  have hcast : (((ttl R burst).toNat : ℕ) : ℚ) = ttl R burst := by
    exact_mod_cast Int.toNat_of_nonneg (ttl_pos R burst).le
  have hle : ⌈R.capacity burst / R.perSecond⌉ ≤ ttl R burst := by
    rw [ttl, atLeast_eq_max]
    exact le_max_right _ _
  rw [hcast]
  exact (Int.le_ceil _).trans (by exact_mod_cast hle)

/-- Every consuming call stores the refilled balance less what it granted, for `ttl` seconds. -/
theorem step_key {c : Call} {key : Key Bucket} (hq : 1 ≤ c.quantity) :
    ((tokenBucketMachine R).step key c).1 =
      some ⟨⟨fmt6 ((current R c key).tokens - granted R c key), fmt6 (current R c key).ts⟩,
        some (c.time + second * (ttl R c.burst).toNat)⟩ := by
  by_cases h : (c.quantity : ℚ) ≤ (current R c key).tokens
  · rw [step_admitted R hq h, granted, if_pos h]
    exact Key.expire_hset key c.time _ (ttl_pos R c.burst)
  · rw [step_rejected R hq h, granted, if_neg h, Nat.cast_zero, sub_zero]
    exact Key.expire_hset key c.time _ (ttl_pos R c.burst)

/-- Peeks write nothing. -/
theorem step_key_of_peek {c : Call} {key : Key Bucket} (hq : c.quantity = 0) :
    ((tokenBucketMachine R).step key c).1 = key := by
  rw [step_peek R key hq]

/-! ## The balance that a call finds -/

/-- Without a key the bucket is full. -/
theorem current_none (c : Call) :
    current R c (none : Key Bucket) = ⟨R.capacity c.burst, luaNow c.time⟩ := by
  simp [current, refill]

/-- A stored balance that is not negative, with a lifetime of a whole refill, is found refilled and
capped, whether the key expired or not. -/
theorem current_some {tokens : ℚ} {t expiry : ℕ} {c : Call} (h0 : 0 ≤ tokens)
    (hcap : tokens ≤ R.capacity c.burst) (ht : t ≤ c.time)
    (hexp : luaNow t + R.capacity c.burst / R.perSecond ≤ luaNow expiry) :
    current R c (some ⟨⟨tokens, luaNow t⟩, some expiry⟩) =
      ⟨min (R.capacity c.burst) (tokens + (luaNow c.time - luaNow t) * R.perSecond),
        luaNow c.time⟩ := by
  have hr := R.perSecond_pos
  have ht' : luaNow t ≤ luaNow c.time := luaNow_le.mpr ht
  rw [current, Key.get_some_some]
  by_cases hlive : c.time < expiry
  · simp only [if_pos hlive, refill, Option.getD_some]
    split_ifs with hel hover
    · rw [min_eq_left hover.le]
    · rw [min_eq_right (not_lt.mp hover)]
    · have heq : luaNow c.time = luaNow t := by linarith
      rw [heq, sub_self, zero_mul, add_zero, min_eq_right hcap]
  · -- The key is gone: a whole refill has passed.
    have hpast : luaNow expiry ≤ luaNow c.time := luaNow_le.mpr (not_lt.mp hlive)
    have hfull : R.capacity c.burst ≤ (luaNow c.time - luaNow t) * R.perSecond := by
      rw [← div_le_iff₀ hr]
      linarith
    rw [min_eq_left (by linarith)]
    simp [if_neg hlive, refill]

/-! ## The queue of the grants -/

/-- The consuming calls of a run: their times with the tokens they were granted. -/
def writes (trace : List (Key Bucket × Call × Reply)) : List (Stamp ℕ) :=
  (trace.filter fun e => 0 < e.2.1.quantity).map fun e =>
    ⟨e.2.1.time, if e.2.2.status = 0 then e.2.1.quantity else 0⟩

/-- A peek is not among the writes. -/
theorem writes_snoc_peek (trace : List (Key Bucket × Call × Reply)) {key : Key Bucket} {c : Call}
    {r : Reply} (hq : c.quantity = 0) : writes (trace ++ [(key, c, r)]) = writes trace := by
  simp [writes, hq]

/-- A consuming call is, with what it was granted. -/
theorem writes_snoc (trace : List (Key Bucket × Call × Reply)) {key : Key Bucket} {c : Call}
    (hq : 1 ≤ c.quantity) :
    writes (trace ++ [(key, c, ((tokenBucketMachine R).step key c).2)]) =
      writes trace ++ [⟨c.time, granted R c key⟩] := by
  have hq' : 0 < c.quantity := hq
  simp only [writes, List.filter_append, List.map_append, List.filter_cons, hq', decide_true,
    if_true, List.filter_nil, List.map_cons, List.map_nil, granted, status_eq_zero_iff R key hq]

/-- The grants as work for the queue, in tokens. -/
def demands (log : List (Stamp ℕ)) : List Demand :=
  log.map fun s => ⟨R.perSecond * luaNow s.time, s.amount⟩

/-- The rounding error of one write. -/
def ε : ℚ := 5 / 10000000

/-- What the key holds after the writes of `log`, the last of them not after `now`: nothing, or a
balance whose shortfall is the level of the grants, with a lifetime of a whole refill. -/
def KeyTracks (burst : ℕ) (now : ℕ) (log : List (Stamp ℕ)) (key : Key Bucket) : Prop :=
  (log = [] ∧ key = none) ∨
    ∃ tokens t expiry, key = some ⟨⟨tokens, luaNow t⟩, some expiry⟩ ∧ t ≤ now ∧ 0 ≤ tokens ∧
      tokens ≤ R.capacity burst ∧ luaNow t + R.capacity burst / R.perSecond ≤ luaNow expiry ∧
      Tracks ε (demands R log) (R.capacity burst - tokens + R.perSecond * luaNow t)

/-- The balance that a call finds, from the level: full, or full less what the queue still owes. -/
theorem current_of_keyTracks {burst : ℕ} {now : ℕ} {log : List (Stamp ℕ)}
    {key : Key Bucket} {c : Call} (h : KeyTracks R burst now log key) (hb : c.burst = burst)
    (hc : now ≤ c.time) :
    (current R c key).ts = luaNow c.time ∧ 0 ≤ (current R c key).tokens ∧
      ((log = [] ∧ (current R c key).tokens = R.capacity burst) ∨
        ∃ z, Tracks ε (demands R log) z ∧
          R.capacity burst - (current R c key).tokens + R.perSecond * luaNow c.time =
            max z (R.perSecond * luaNow c.time)) := by
  subst hb
  have hcap := R.capacity_pos c.burst
  have hr := R.perSecond_pos
  -- The key is untouched, or holds what the last call wrote, which is refilled since.
  rcases h with ⟨rfl, rfl⟩ | ⟨tokens, t, expiry, rfl, ht, h0, hle, hexp, htr⟩
  · rw [current_none]
    exact ⟨rfl, hcap.le, .inl ⟨rfl, rfl⟩⟩
  · have htc : luaNow t ≤ luaNow c.time := luaNow_le.mpr (ht.trans hc)
    rw [current_some R h0 hle (ht.trans hc) hexp]
    have hgain : 0 ≤ (luaNow c.time - luaNow t) * R.perSecond :=
      mul_nonneg (by linarith) hr.le
    refine ⟨rfl, le_min hcap.le (by linarith), .inr ⟨_, htr, ?_⟩⟩
    dsimp only
    -- Refilled to the capacity, the queue is empty; otherwise it is what is missing.
    rcases min_cases (R.capacity c.burst)
        (tokens + (luaNow c.time - luaNow t) * R.perSecond) with ⟨hm, hx⟩ | ⟨hm, hx⟩
    · rw [hm, max_eq_right (by linarith)]
      ring
    · rw [hm, max_eq_left (by linarith)]
      ring

/-- A run finds at most a full bucket. -/
theorem current_le_capacity {burst : ℕ} {now : ℕ} {log : List (Stamp ℕ)}
    {key : Key Bucket} {c : Call} (h : KeyTracks R burst now log key) (hb : c.burst = burst)
    (hc : now ≤ c.time) : (current R c key).tokens ≤ R.capacity burst := by
  subst hb
  rcases h with ⟨rfl, rfl⟩ | ⟨tokens, t, expiry, rfl, ht, h0, hle, hexp, -⟩
  · rw [current_none]
  · rw [current_some R h0 hle (ht.trans hc) hexp]
    exact min_le_left _ _

/-- One consuming call keeps the key at the level of the writes. -/
theorem keyTracks_step {burst : ℕ} {now : ℕ} {log : List (Stamp ℕ)} {key : Key Bucket}
    {c : Call} (h : KeyTracks R burst now log key) (hb : c.burst = burst) (hc : now ≤ c.time)
    (hq : 1 ≤ c.quantity) :
    KeyTracks R burst c.time (log ++ [⟨c.time, granted R c key⟩])
      ((tokenBucketMachine R).step key c).1 := by
  obtain ⟨hts, h0, hlevel⟩ := current_of_keyTracks R h hb hc
  have hle := current_le_capacity R h hb hc
  have hg := granted_le R h0
  subst hb
  set y := (current R c key).tokens with hy
  set g := granted R c key with hgdef
  have hround : |fmt6 (y - g) - (y - g)| ≤ ε := abs_fmt6_sub_le _
  -- What is written is the balance less the grant, rounded.
  rw [step_key R hq, hts, fmt6_luaNow]
  refine .inr ⟨_, c.time, _, rfl, le_rfl, fmt6_nonneg (by linarith), ?_, ?_, ?_⟩
  · have hg0 : (0 : ℚ) ≤ g := by positivity
    exact fmt6_le (R.sixDecimals_capacity c.burst) (by linarith)
  · rw [luaNow_add_seconds]
    have := capacity_div_le_ttl R c.burst
    linarith
  · -- The level moves on by this grant, up to the rounding.
    rw [← hy, ← hgdef, demands, List.map_append]
    rw [abs_le] at hround
    rcases hlevel with ⟨rfl, hfull⟩ | ⟨z, htr, hz⟩
    · refine Tracks.first ?_
      rw [abs_le]
      constructor <;> dsimp only <;> linarith
    · refine Tracks.more htr ?_
      rw [abs_le]
      constructor <;> dsimp only <;> linarith

/-- As time passes, the key stays at the level. -/
theorem KeyTracks.mono {burst : ℕ} {now now' : ℕ} {log : List (Stamp ℕ)}
    {key : Key Bucket} (h : KeyTracks R burst now log key) (hle : now ≤ now') :
    KeyTracks R burst now' log key := by
  rcases h with h | ⟨tokens, t, expiry, hkey, ht, hrest⟩
  · exact .inl h
  · exact .inr ⟨tokens, t, expiry, hkey, ht.trans hle, hrest⟩

/-- The key after any run in order, with one burst, is at the level of the run's writes. -/
theorem keyTracks_after {burst : ℕ} (calls : List Call) (hb : ∀ a ∈ calls, a.burst = burst)
    (horder : InOrder calls) (now : ℕ) (hnow : ∀ a ∈ calls, a.time ≤ now) :
    KeyTracks R burst now (writes ((tokenBucketMachine R).trace none calls))
      ((tokenBucketMachine R).after none calls) := by
  induction calls using List.reverseRecOn generalizing now with
  | nil => exact .inl ⟨rfl, rfl⟩
  | append_singleton calls c ih =>
    obtain ⟨hcalls, hlast⟩ := horder.of_snoc
    have hkey := ih (fun a ha => hb a (by simp [ha])) hcalls c.time hlast
    have hc : c.burst = burst := hb c (by simp)
    have hle : c.time ≤ now := hnow c (by simp)
    rw [Machine.trace_snoc, Machine.after_append, Machine.after_cons, Machine.after_nil]
    rcases Nat.eq_zero_or_pos c.quantity with hq | hq
    · rw [writes_snoc_peek _ hq, step_key_of_peek R hq]
      exact hkey.mono R hle
    · rw [writes_snoc R _ hq]
      exact (keyTracks_step R hkey hc le_rfl hq).mono R hle

/-- The work of writes is the tokens that were granted. -/
theorem work_demands (log : List (Stamp ℕ)) : work (demands R log) = units log := by
  induction log with
  | nil => simp [demands]
  | cons s log ih =>
    simp only [demands, List.map_cons, work_cons, units_cons] at ih ⊢
    rw [ih]
    push_cast
    rfl

end TokenBucket

open TokenBucket in
/-- The token bucket enforces its rate envelope. For a consuming call after any calls in order with
its burst: if it is admitted, its quantity is at most the capacity and, from every earlier consuming
call on, the tokens granted with this call's are at most the capacity and the refill since then, up
to the rounding of the writes since then; and it is admitted if they are so with the rounding
against it. -/
theorem tokenBucket_envelope (R : Rate) (calls : List Call) (c : Call) (hq : 1 ≤ c.quantity)
    (hburst : ∀ a ∈ calls, a.burst = c.burst) (horder : InOrder (calls ++ [c])) :
    let log := writes ((tokenBucketMachine R).trace none calls)
    let reply := ((tokenBucketMachine R).step ((tokenBucketMachine R).after none calls) c).2
    (reply.status = 0 → c.quantity ≤ R.requests + c.burst ∧
      ∀ earlier a since, log = earlier ++ a :: since →
        (units (a :: since) + c.quantity : ℚ) ≤
          R.capacity c.burst + R.perSecond * (luaNow c.time - luaNow a.time) +
            (a :: since).length * (5 / 10000000)) ∧
    ((c.quantity ≤ R.requests + c.burst ∧
      ∀ earlier a since, log = earlier ++ a :: since →
        (units (a :: since) + c.quantity : ℚ) ≤
          R.capacity c.burst + R.perSecond * (luaNow c.time - luaNow a.time) -
            (a :: since).length * (5 / 10000000)) → reply.status = 0) := by
  intro log reply
  obtain ⟨hcalls, hlast⟩ := horder.of_snoc
  have hkey := keyTracks_after R calls hburst hcalls c.time hlast
  obtain ⟨-, -, hlevel⟩ := current_of_keyTracks R hkey rfl le_rfl
  have hle := current_le_capacity R hkey rfl le_rfl
  have hcap : (c.quantity : ℚ) ≤ R.capacity c.burst ↔ c.quantity ≤ R.requests + c.burst := by
    unfold Rate.capacity
    norm_cast
  rw [status_eq_zero_iff R _ hq, ← hcap]
  constructor
  · -- The level is at least what the grants from any one on demand.
    intro hfit
    refine ⟨hfit.trans hle, ?_⟩
    intro earlier a since hlog
    rcases hlevel with ⟨hnil, -⟩ | ⟨z, htr, hz⟩
    · exact absurd (hnil.symm.trans hlog) (by simp)
    · have hbound : R.perSecond * luaNow a.time + work (demands R (a :: since)) -
          (a :: since).length * ε ≤ z := htr.le_level_of_history hlog
      have hmax := le_max_left z (R.perSecond * luaNow c.time)
      rw [work_demands, ε] at hbound
      linarith
  · -- And it is at most what those from some one on demand.
    rintro ⟨hown, hsum⟩
    rcases hlevel with ⟨-, hfull⟩ | ⟨z, htr, hz⟩
    · rw [hfull]
      exact hown
    · obtain ⟨earlier, a, since, hlog, hle⟩ := htr.exists_level_le_of_history
      have henv := hsum earlier a since hlog
      have hbound : z ≤ R.perSecond * luaNow a.time + work (demands R (a :: since)) +
          (a :: since).length * ε := hle
      rw [work_demands, ε] at hbound
      rcases max_cases z (R.perSecond * luaNow c.time) with ⟨hmax, -⟩ | ⟨hmax, -⟩
      · rw [hmax] at hz
        linarith
      · rw [hmax] at hz
        linarith

/-- At one token a minute, one token left after the first call covers a second one. -/
theorem tokenBucket_envelope_second_call :
    InOrder [(⟨1000000, 1, 1⟩ : Call), ⟨2000000, 1, 1⟩] ∧
      ((tokenBucketMachine ⟨1, 60, by decide, by decide⟩).step
        ((tokenBucketMachine ⟨1, 60, by decide, by decide⟩).after none [⟨1000000, 1, 1⟩])
        ⟨2000000, 1, 1⟩).2.status = 0 ∧ 1 ≤ 1 + 1 :=
  have horder : InOrder [(⟨1000000, 1, 1⟩ : Call), ⟨2000000, 1, 1⟩] := by decide
  have hadm : ((tokenBucketMachine ⟨1, 60, by decide, by decide⟩).step
      ((tokenBucketMachine ⟨1, 60, by decide, by decide⟩).after none [⟨1000000, 1, 1⟩])
      ⟨2000000, 1, 1⟩).2.status = 0 := by decide +kernel
  ⟨horder, hadm, ((tokenBucket_envelope ⟨1, 60, by decide, by decide⟩ [⟨1000000, 1, 1⟩]
    ⟨2000000, 1, 1⟩ (by decide) (by simp) horder).1 hadm).1⟩

end NginxRatelimit
