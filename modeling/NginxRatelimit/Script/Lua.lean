import Mathlib.Tactic.Linarith
import NginxRatelimit.Library.Ledger
import NginxRatelimit.Library.Run
import NginxRatelimit.Redis

/-!
# The built-in scripts

Each script is a function of its `ARGV`, of the server time, and of the one key that it uses, to the
key it leaves and its reply. The names are those of the Lua source. A script runs atomically, so a
run of calls on a key is a run of a `Machine`, whatever workers they come from.
-/

namespace NginxRatelimit

open Library

/-- The five integers that every script returns. -/
structure Reply where
  /-- 0 allowed, 1 limited. -/
  status : ℤ
  /-- The limit or the capacity. -/
  limit : ℤ
  /-- What is left of it. -/
  remaining : ℤ
  /-- -1 when allowed, otherwise seconds. -/
  retryAfter : ℤ
  /-- Seconds until the limiter is idle again. -/
  reset : ℤ
  deriving DecidableEq, Repr

/-- `if x < lo then x = lo end`. -/
def atLeast (lo x : ℤ) : ℤ := if x < lo then lo else x

/-- `if x > hi then x = hi end`. -/
def atMost (hi x : ℤ) : ℤ := if hi < x then hi else x

/-- It is the maximum. -/
theorem atLeast_eq_max (lo x : ℤ) : atLeast lo x = max lo x := by
  unfold atLeast
  split_ifs <;> omega

/-- And the minimum. -/
theorem atMost_eq_min (hi x : ℤ) : atMost hi x = min hi x := by
  unfold atMost
  split_ifs <;> omega

/-! ## Fixed window -/

/-- `ngx_http_ratelimit_fixed_window_lua`: a counter that lives for one window. -/
def fixedWindow (limit window quantity : ℕ) (now : ℕ) (key : Key ℕ) : Key ℕ × Reply :=
  let current := (Key.get key now).getD 0
  if quantity = 0 then
    let ttl := atLeast 0 (Key.ttl key now)
    let remaining := atLeast 0 (limit - current)
    let status := if limit ≤ current then 1 else 0
    (key, ⟨status, limit, remaining, -1, ttl⟩)
  else if limit < current + quantity then
    let ttl := Key.ttl key now
    let ttl := if ttl < 0 then (window : ℤ) else ttl
    let remaining := atLeast 0 (limit - current)
    let retryAfter := atLeast 1 ttl
    (key, ⟨1, limit, remaining, retryAfter, ttl⟩)
  else
    let (key, newval) := Key.incrBy key now quantity
    let (key, ttl) : Key ℕ × ℤ :=
      if newval = quantity then (Key.expire key now window, window)
      else
        let ttl := Key.ttl key now
        if ttl < 0 then (Key.expire key now window, window) else (key, ttl)
    let remaining := atLeast 0 (limit - newval)
    (key, ⟨0, limit, remaining, -1, ttl⟩)

/-! ## Token bucket -/

/-- The hash `{tokens, ts}`. -/
structure Bucket where
  /-- The balance. -/
  tokens : ℚ
  /-- When it was computed. -/
  ts : ℚ
  deriving DecidableEq

/-- The lazy refill: the stored bucket, or a full one, brought up to `now`. -/
def refill (capacity rate now : ℚ) (data : Option Bucket) : Bucket :=
  let b := data.getD ⟨capacity, now⟩
  let elapsed := now - b.ts
  if 0 < elapsed then
    let tokens := b.tokens + elapsed * rate
    ⟨if capacity < tokens then capacity else tokens, now⟩
  else b

/-- `HSET` of the printed balance and time, then `EXPIRE`. -/
def storeBucket (key : Key Bucket) (now : ℕ) (tokens ts : ℚ) (ttl : ℤ) : Key Bucket :=
  Key.expire (Key.hset key now ⟨fmt6 tokens, fmt6 ts⟩) now ttl

/-- `ngx_http_ratelimit_token_bucket_lua`: a bucket of `requests + burst` tokens that refills at
`requests / period` a second. -/
def tokenBucket (requests period burst quantity : ℕ) (now : ℕ) (key : Key Bucket) :
    Key Bucket × Reply :=
  let capacity : ℚ := requests + burst
  let limit : ℤ := requests + burst
  let rate : ℚ := requests / period
  let b := refill capacity rate (luaNow now) (Key.get key now)
  let ttl := atLeast 1 ⌈capacity / rate⌉
  let reset := atLeast 0 ⌈(capacity - b.tokens) / rate⌉
  if quantity = 0 then
    let status := if b.tokens < 1 then 1 else 0
    (key, ⟨status, limit, ⌊b.tokens⌋, -1, reset⟩)
  else if quantity ≤ b.tokens then
    let tokens := b.tokens - quantity
    let reset := atLeast 0 ⌈(capacity - tokens) / rate⌉
    (storeBucket key now tokens b.ts ttl, ⟨0, limit, ⌊tokens⌋, -1, reset⟩)
  else
    let retryAfter := atLeast 1 ⌈(quantity - b.tokens) / rate⌉
    (storeBucket key now b.tokens b.ts ttl, ⟨1, limit, ⌊b.tokens⌋, retryAfter, reset⟩)

/-! ## GCRA -/

/-- The theoretical arrival time that a call works with: the stored one, or `now` when there is none
or it has passed. -/
def effectiveTat (now : ℕ) (key : Key ℚ) : ℚ :=
  let tat := (Key.get key now).getD (luaNow now)
  if tat < luaNow now then luaNow now else tat

/-- `ngx_http_ratelimit_gcra_lua`: the generic cell rate algorithm with emission interval
`period / requests`. -/
def gcra (requests period burst quantity : ℕ) (now : ℕ) (key : Key ℚ) : Key ℚ × Reply :=
  let emission : ℚ := period / requests
  let tat := effectiveTat now key
  let limit : ℤ := burst + 1
  let horizon := emission * (burst + 1)
  if quantity = 0 then
    let avail := atMost limit ⌊(luaNow now - (tat - horizon)) / emission⌋
    let status := if avail < 1 then 1 else 0
    let reset := atLeast 0 ⌈tat - luaNow now⌉
    (key, ⟨status, limit, avail, -1, reset⟩)
  else
    let newTat := tat + emission * quantity
    let allowAt := newTat - horizon
    let diff := luaNow now - allowAt
    if diff < 0 then
      let retryAfter := atLeast 1 ⌈-diff⌉
      let reset := atLeast 0 ⌈tat - luaNow now⌉
      (key, ⟨1, limit, 0, retryAfter, reset⟩)
    else
      let remaining := ⌊diff / emission⌋
      let reset := atLeast 0 ⌈newTat - luaNow now⌉
      let ttl := atLeast 1 ⌈newTat - luaNow now⌉
      (Key.expire (Key.set (fmt6 newTat)) now ttl, ⟨0, limit, remaining, -1, reset⟩)

/-! ## Sliding window -/

/-- The hash `{c, w, p}`. -/
structure Counts where
  /-- The count of the window `w`. -/
  c : ℕ
  /-- The index of the window that the last write was made in. -/
  w : ℤ
  /-- The count of the window before `w`. -/
  p : ℕ
  deriving DecidableEq

/-- `cur_win`. -/
def curWin (window : ℕ) (now : ℕ) : ℤ := ⌊luaNow now / window⌋

/-- `elapsed`: the time since the current window began. -/
def elapsedIn (window : ℕ) (now : ℕ) : ℚ := luaNow now - curWin window now * window

/-- The stored counts, or none, rolled over to the current window. -/
def rollOver (curWin : ℤ) (data : Option Counts) : Counts :=
  let s := data.getD ⟨0, curWin, 0⟩
  if s.w = curWin - 1 then ⟨0, curWin, s.c⟩
  else if s.w ≠ curWin then ⟨0, curWin, 0⟩
  else s

/-- `ngx_http_ratelimit_sliding_window_lua`: the current window's count plus the previous one's,
weighted by the part of the previous window that is still inside the trailing window. -/
def slidingWindow (limit window quantity : ℕ) (now : ℕ) (key : Key Counts) :
    Key Counts × Reply :=
  let elapsed := elapsedIn window now
  let weight := (window - elapsed) / window
  let s := rollOver (curWin window now) (Key.get key now)
  let est := s.p * weight + s.c
  let remaining := atLeast 0 ⌊limit - est⌋
  let winRemaining := atLeast 0 ⌈window - elapsed⌉
  if quantity = 0 then
    let status := if limit ≤ est then 1 else 0
    let reset := if 0 < s.c ∨ 0 < s.p then winRemaining else 0
    (key, ⟨status, limit, remaining, -1, reset⟩)
  else if limit < est + quantity then
    let headroom : ℚ := limit - quantity - s.c
    let retryAfter :=
      if 0 < s.p ∧ 0 ≤ headroom then ⌈(window - elapsed) - headroom * window / s.p⌉
      else winRemaining
    (key, ⟨1, limit, remaining, atLeast 1 retryAfter, winRemaining⟩)
  else
    let c := s.c + quantity
    let est := s.p * weight + c
    let remaining := atLeast 0 ⌊limit - est⌋
    (Key.expire (Key.hset key now ⟨c, s.w, s.p⟩) now (window * 2),
      ⟨0, limit, remaining, -1, winRemaining⟩)

/-! ## Calls on one key -/

/-- The rate of a zone, as the configuration load leaves it. -/
structure Rate where
  /-- Requests per period. -/
  requests : ℕ
  /-- The period in seconds. -/
  period : ℕ
  /-- `ratelimit_zone` rejects other rates. -/
  requests_pos : 1 ≤ requests
  /-- `ratelimit_zone` rejects other periods. -/
  period_pos : 1 ≤ period

/-- One call of the token bucket or of GCRA. -/
structure Call where
  /-- The server time. -/
  time : ℕ
  /-- The burst in effect: the zone's, or the location's own. -/
  burst : ℕ
  /-- The units to consume; 0 peeks. -/
  quantity : ℕ
  deriving DecidableEq

/-- One call of the fixed or of the sliding window. -/
structure WindowCall where
  /-- The server time. -/
  time : ℕ
  /-- The limit: the zone's requests plus the burst in effect. -/
  limit : ℕ
  /-- The units to consume; 0 peeks. -/
  quantity : ℕ
  deriving DecidableEq

/-- What the calls of all scripts have. -/
class ScriptCall (ι : Type) where
  /-- The server time. -/
  time : ι → ℕ
  /-- The units to consume. -/
  quantity : ι → ℕ

/-- The calls of GCRA and of the token bucket. -/
instance : ScriptCall Call := ⟨Call.time, Call.quantity⟩

/-- Those of the windows. -/
instance : ScriptCall WindowCall := ⟨WindowCall.time, WindowCall.quantity⟩

section

variable {σ ι : Type} [ScriptCall ι]

open ScriptCall

/-- The calls of a run come at times that do not decrease. -/
def InOrder (calls : List ι) : Prop := calls.Pairwise fun a b => time a ≤ time b

/-- Whether calls are in order can be decided. -/
instance (calls : List ι) : Decidable (InOrder calls) :=
  inferInstanceAs (Decidable (calls.Pairwise fun a b => time a ≤ time b))

/-- A call that consumes and whose reply allows it. -/
def Admitted (e : σ × ι × Reply) : Prop := 0 < quantity e.2.1 ∧ e.2.2.status = 0

/-- Whether a call was admitted can be decided. -/
instance (e : σ × ι × Reply) : Decidable (Admitted e) :=
  inferInstanceAs (Decidable (_ ∧ _))

/-- The admitted quantities of a run with their times. -/
def admissions (trace : List (σ × ι × Reply)) : List (Stamp ℕ) :=
  (trace.filter (Admitted ·)).map fun e => ⟨time e.2.1, quantity e.2.1⟩

/-- The empty run admits nothing. -/
@[simp] theorem admissions_nil : admissions ([] : List (σ × ι × Reply)) = [] := rfl

/-- The admissions of a run longer by one call. -/
theorem admissions_snoc (trace : List (σ × ι × Reply)) (e : σ × ι × Reply) :
    admissions (trace ++ [e]) =
      admissions trace ++ if Admitted e then [⟨time e.2.1, quantity e.2.1⟩] else [] := by
  by_cases h : Admitted e <;> simp [admissions, h]

/-- The admissions of a run whose calls are not after a time are not after it. -/
theorem time_le_of_mem_admissions (M : Machine σ ι Reply) {s : σ} {calls : List ι} {now : ℕ}
    (h : ∀ a ∈ calls, time a ≤ now) : ∀ e ∈ admissions (M.trace s calls), e.time ≤ now := by
  intro e he
  obtain ⟨x, hx, rfl⟩ := List.mem_map.mp he
  obtain ⟨pre, post, hcalls, -⟩ := M.exists_prefix_of_mem_trace (List.mem_of_mem_filter hx)
  exact h x.2.1 (by rw [hcalls]; simp)

/-- A run in order with its last call taken off. -/
theorem InOrder.of_snoc {calls : List ι} {c : ι} (h : InOrder (calls ++ [c])) :
    InOrder calls ∧ ∀ a ∈ calls, time a ≤ time c := by
  obtain ⟨hcalls, -, hc⟩ := List.pairwise_append.mp h
  exact ⟨hcalls, fun a ha => hc a ha c (by simp)⟩

end

/-- The fixed window's calls on one key. -/
def fixedWindowMachine (window : ℕ) : Machine (Key ℕ) WindowCall Reply where
  step key c := fixedWindow c.limit window c.quantity c.time key

/-- The sliding window's calls on one key. -/
def slidingWindowMachine (window : ℕ) : Machine (Key Counts) WindowCall Reply where
  step key c := slidingWindow c.limit window c.quantity c.time key

/-- The token bucket's calls on one key. -/
def tokenBucketMachine (R : Rate) : Machine (Key Bucket) Call Reply where
  step key c := tokenBucket R.requests R.period c.burst c.quantity c.time key

/-- GCRA's calls on one key. -/
def gcraMachine (R : Rate) : Machine (Key ℚ) Call Reply where
  step key c := gcra R.requests R.period c.burst c.quantity c.time key

end NginxRatelimit
