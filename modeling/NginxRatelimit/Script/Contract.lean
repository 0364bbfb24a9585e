import NginxRatelimit.Request.Accept
import NginxRatelimit.Script.FixedWindow
import NginxRatelimit.Script.Gcra
import NginxRatelimit.Script.SlidingWindow
import NginxRatelimit.Script.TokenBucket

/-!
# The scripts' five integers

The contract between a script and the module: what the five integers of a reply may be. The window
scripts keep it whatever is stored. GCRA keeps it unless a peek finds a TAT beyond the horizon,
since only its remaining units are not kept from falling below zero, and the token bucket unless a
call finds more tokens than its capacity at the very time they were stored, since the balance is
capped only when time has passed. A reply that keeps the contract is read back by the parser.
-/

namespace NginxRatelimit

open Library Resp

/-- What the module expects of a reply to a call of this quantity. -/
structure Reply.Contract (r : Reply) (quantity : ℕ) : Prop where
  status : r.status = 0 ∨ r.status = 1
  remaining_nonneg : 0 ≤ r.remaining
  remaining_le : r.remaining ≤ r.limit
  reset : 0 ≤ r.reset
  allowed : r.status = 0 ∨ quantity = 0 → r.retryAfter = -1
  rejected : r.status = 1 → 1 ≤ quantity → 1 ≤ r.retryAfter

/-- The values of a reply that are below 2^53, as the numbers of Lua are. -/
def Reply.Exact (r : Reply) : Prop :=
  r.limit < 2 ^ 53 ∧ r.retryAfter < 2 ^ 53 ∧ r.reset < 2 ^ 53

/-- Whether a reply is exact can be decided. -/
instance (r : Reply) : Decidable r.Exact := inferInstanceAs (Decidable (_ ∧ _ ∧ _))

/-- Such a reply is readable. -/
theorem Reply.Contract.readable {r : Reply} {quantity : ℕ} (h : r.Contract quantity)
    (hexact : r.Exact) : r.Readable := by
  obtain ⟨hlimit, hretry, hreset⟩ := hexact
  have hmax : (2 : ℤ) ^ 53 ≤ maxIntT := by decide
  have h0 := h.remaining_nonneg
  have hle := h.remaining_le
  have hsentinel : -1 ≤ r.retryAfter := by
    rcases h.status with hs | hs
    · exact (h.allowed (.inl hs)).ge
    · rcases Nat.eq_zero_or_pos quantity with hq | hq
      · exact (h.allowed (.inr hq)).ge
      · have hone := h.rejected hs hq
        omega
  exact ⟨h.status, by omega, by omega, by omega, h.reset, by omega⟩

/-- A peek of status 0 or 1 that leaves `retry_after` at -1. -/
theorem Reply.contract_peek {status limit remaining reset : ℤ}
    (hstatus : status = 0 ∨ status = 1) (h0 : 0 ≤ remaining) (hle : remaining ≤ limit)
    (hreset : 0 ≤ reset) : Contract ⟨status, limit, remaining, -1, reset⟩ 0 :=
  ⟨hstatus, h0, hle, hreset, fun _ => rfl, fun _ h => absurd h (by decide)⟩

/-- An allowed reply whose numbers are in order meets the contract. -/
theorem Reply.contract_allowed {quantity : ℕ} {limit remaining reset : ℤ} (h0 : 0 ≤ remaining)
    (hle : remaining ≤ limit) (hreset : 0 ≤ reset) :
    Contract ⟨0, limit, remaining, -1, reset⟩ quantity :=
  ⟨.inl rfl, h0, hle, hreset, fun _ => rfl, fun h => absurd h (zero_ne_one' ℤ)⟩

/-- So does a rejected one, when it tells how long to wait. -/
theorem Reply.contract_rejected {quantity : ℕ} {limit remaining retryAfter reset : ℤ}
    (hq : 1 ≤ quantity) (h0 : 0 ≤ remaining) (hle : remaining ≤ limit)
    (hretry : 1 ≤ retryAfter) (hreset : 0 ≤ reset) :
    Contract ⟨1, limit, remaining, retryAfter, reset⟩ quantity := by
  refine ⟨.inr rfl, h0, hle, hreset, fun h => ?_, fun _ _ => hretry⟩
  rcases h with h | h
  · exact absurd h (one_ne_zero' ℤ)
  · omega

/-- What is raised to a bound is not below it. -/
theorem le_atLeast (lo x : ℤ) : lo ≤ atLeast lo x := by
  rw [atLeast_eq_max]
  exact le_max_left _ _

/-- And not above what both are below. -/
theorem atLeast_le {lo x y : ℤ} (hlo : lo ≤ y) (hx : x ≤ y) : atLeast lo x ≤ y := by
  rw [atLeast_eq_max]
  exact max_le hlo hx

/-- A status is 0 or 1. -/
theorem ite_zero_or_one (p : Prop) [Decidable p] :
    (if p then (1 : ℤ) else 0) = 0 ∨ (if p then (1 : ℤ) else 0) = 1 := by
  split <;> simp

variable (R : Rate)

/-! ## The windows -/

/-- The fixed window keeps the contract whatever is stored. -/
theorem fixedWindow_contract (key : Key ℕ) (c : WindowCall) :
    ((fixedWindowMachine R.period).step key c).2.Contract c.quantity := by
  have hleft : ∀ n : ℕ, atLeast 0 ((c.limit : ℤ) - n) ≤ c.limit := fun n =>
    atLeast_le (by omega) (by omega)
  rcases Nat.eq_zero_or_pos c.quantity with hq | hq
  · rw [FixedWindow.step_peek R key hq, hq]
    exact Reply.contract_peek (ite_zero_or_one _) (le_atLeast _ _) (hleft _) (le_atLeast _ _)
  · rcases Nat.lt_or_ge c.limit ((Key.get key c.time).getD 0 + c.quantity) with h | h
    · rw [FixedWindow.step_rejected R key hq h]
      refine Reply.contract_rejected hq (le_atLeast _ _) (hleft _) (le_atLeast _ _) ?_
      split <;> omega
    · rw [FixedWindow.step_admitted R key hq h]
      refine Reply.contract_allowed (le_atLeast _ _) (hleft _) ?_
      repeat' split
      all_goals omega

/-- So does the sliding window. -/
theorem slidingWindow_contract (key : Key Counts) (c : WindowCall) :
    ((slidingWindowMachine R.period).step key c).2.Contract c.quantity := by
  -- The estimate is not negative, so no more than the limit can remain.
  have hest : ∀ s : Counts, 0 ≤ SlidingWindow.estimate R c s := by
    intro s
    have hp := SlidingWindow.period_pos R
    have hin := SlidingWindow.elapsedIn_lt R c.time
    have hweight : 0 ≤ (R.period - elapsedIn R.period c.time) / R.period :=
      div_nonneg (by linarith) hp.le
    unfold SlidingWindow.estimate
    positivity
  have hleft : ∀ s : Counts, atLeast 0 ⌊c.limit - SlidingWindow.estimate R c s⌋ ≤ c.limit := by
    intro s
    refine atLeast_le (by omega) ?_
    have hfloor : (⌊(c.limit : ℚ) - SlidingWindow.estimate R c s⌋ : ℚ) ≤ c.limit := by
      have h1 := Int.floor_le ((c.limit : ℚ) - SlidingWindow.estimate R c s)
      have h2 := hest s
      linarith
    exact_mod_cast hfloor
  rcases Nat.eq_zero_or_pos c.quantity with hq | hq
  · rw [SlidingWindow.step_peek R key hq, hq]
    refine Reply.contract_peek (ite_zero_or_one _) (le_atLeast _ _) (hleft _) ?_
    split
    · exact le_atLeast _ _
    · exact le_rfl
  · by_cases h : SlidingWindow.estimate R c (SlidingWindow.counts R c key) + c.quantity ≤ c.limit
    · rw [SlidingWindow.step_admitted R key hq h]
      exact Reply.contract_allowed (le_atLeast _ _) (hleft _) (le_atLeast _ _)
    · rw [SlidingWindow.step_rejected R key hq h]
      exact Reply.contract_rejected hq (le_atLeast _ _) (hleft _) (le_atLeast _ _) (le_atLeast _ _)

/-! ## GCRA -/

namespace Gcra

/-- The TAT that a call finds is within the horizon. -/
def WithinHorizon (c : Call) (key : Key ℚ) : Prop :=
  ∀ tat ∈ Key.get key c.time, tat ≤ luaNow c.time + R.emission * (c.burst + 1)

/-- Whether a TAT is within the horizon can be decided. -/
instance (c : Call) (key : Key ℚ) : Decidable (WithinHorizon R c key) :=
  inferInstanceAs (Decidable (∀ tat ∈ Key.get key c.time, _))

/-- That is, the TAT that the call starts from is, which is its own time when there is none. -/
theorem withinHorizon_iff (c : Call) (key : Key ℚ) :
    WithinHorizon R c key ↔
      effectiveTat c.time key ≤ luaNow c.time + R.emission * (c.burst + 1) := by
  have hhorizon : 0 ≤ R.emission * (c.burst + 1) := by
    have hT := R.emission_pos
    positivity
  unfold WithinHorizon effectiveTat
  cases hget : Key.get key c.time with
  | none => simp [hhorizon]
  | some tat =>
    simp only [Option.mem_def, Option.some.injEq, forall_eq', Option.getD_some]
    split
    · constructor <;> intro <;> linarith
    · rfl

/-- Its replies keep the contract, except those to peeks that find a TAT beyond the horizon. -/
theorem contract_iff (key : Key ℚ) (c : Call) :
    ((gcraMachine R).step key c).2.Contract c.quantity ↔
      (c.quantity = 0 → WithinHorizon R c key) := by
  have hT := R.emission_pos
  rw [withinHorizon_iff]
  rcases Nat.eq_zero_or_pos c.quantity with hq | hq
  · -- A peek shows the slack as it is; only the cap keeps it within the limit.
    have hslack : 0 ≤ ⌊slack R c key / R.emission⌋ ↔
        effectiveTat c.time key ≤ luaNow c.time + R.emission * (c.burst + 1) := by
      rw [Int.floor_nonneg, le_div_iff₀ hT, zero_mul, slack_nonneg_iff, Fits, newTat, hq,
        Nat.cast_zero, mul_zero, add_zero]
    have hatMost : 0 ≤ atMost (c.burst + 1 : ℤ) ⌊slack R c key / R.emission⌋ ↔
        0 ≤ ⌊slack R c key / R.emission⌋ := by
      rw [atMost_eq_min, le_min_iff]
      exact and_iff_right (by omega)
    rw [step_peek R key hq, ← hslack, ← hatMost, hq]
    refine ⟨fun h _ => h.remaining_nonneg, fun h => ?_⟩
    refine Reply.contract_peek (ite_zero_or_one _) (h rfl) ?_ (le_atLeast _ _)
    rw [atMost_eq_min]
    exact min_le_left _ _
  · refine iff_of_true ?_ fun h => absurd h hq.ne'
    by_cases hfit : Fits R c key
    · rw [step_admitted R hq hfit]
      refine Reply.contract_allowed ?_ ?_ (le_atLeast _ _)
      · exact Int.floor_nonneg.mpr (div_nonneg ((slack_nonneg_iff R).mpr hfit) hT.le)
      · -- The TAT is not before now, so at most the whole horizon is left.
        have htat := effectiveTat_ge c.time key
        have hunits : 0 ≤ R.emission * c.quantity := by positivity
        have hle : slack R c key / R.emission ≤ ((c.burst + 1 : ℤ) : ℚ) := by
          rw [div_le_iff₀ hT, slack, newTat]
          push_cast
          linarith
        exact_mod_cast (Int.floor_le _).trans hle
    · rw [step_rejected R hq hfit]
      exact Reply.contract_rejected hq le_rfl (by omega) (le_atLeast _ _) (le_atLeast _ _)

end Gcra

/-! ## The token bucket -/

namespace TokenBucket

/-- A stored balance is not negative. -/
def NonNeg (key : Key Bucket) : Prop := ∀ e ∈ key, 0 ≤ e.val.tokens

/-- No balance that a call finds is negative. -/
theorem current_nonneg {key : Key Bucket} (h : NonNeg key) (c : Call) :
    0 ≤ (current R c key).tokens := by
  have hcap := R.capacity_pos c.burst
  have hr := R.perSecond_pos
  have hstored : ∀ b : Bucket, Key.get key c.time = some b → 0 ≤ b.tokens := by
    intro b hb
    obtain ⟨e, he, rfl⟩ := Option.map_eq_some_iff.mp hb
    exact h e (Option.filter_eq_some_iff.mp he).1
  rw [current, refill]
  cases hget : Key.get key c.time with
  | none => simp [hcap.le]
  | some b =>
    have hb := hstored b hget
    simp only [Option.getD_some]
    split_ifs with hel
    · exact hcap.le
    · have hgain := mul_nonneg hel.le hr.le
      linarith
    · exact hb

/-- So it stays. -/
theorem nonNeg_after (calls : List Call) : NonNeg ((tokenBucketMachine R).after none calls) := by
  refine Machine.after_induction (P := NonNeg) _ (by simp [NonNeg]) (fun key c h => ?_) calls
  rcases Nat.eq_zero_or_pos c.quantity with hq | hq
  · rw [step_key_of_peek R hq]
    exact h
  · rw [step_key R hq]
    intro e he
    rw [Option.mem_def, Option.some.injEq] at he
    rw [← he]
    have hgranted := granted_le R (current_nonneg R h c)
    exact fmt6_nonneg (by linarith)

/-- A call finds a balance that was stored at its own time and leaves more than its capacity. -/
def Overfull (c : Call) (key : Key Bucket) : Prop :=
  ∃ b ∈ Key.get key c.time, luaNow c.time ≤ b.ts ∧
    R.capacity c.burst + 1 ≤ b.tokens - (if c.quantity ≤ b.tokens then c.quantity else 0 : ℕ)

/-- Whether a bucket is overfull can be decided. -/
instance (c : Call) (key : Key Bucket) : Decidable (Overfull R c key) :=
  inferInstanceAs (Decidable (∃ b ∈ Key.get key c.time, _))

/-- Once time has passed, or nothing is stored, the balance is capped. -/
theorem current_le_or_eq (key : Key Bucket) (c : Call) :
    (current R c key).tokens ≤ R.capacity c.burst ∨
      ∃ b, Key.get key c.time = some b ∧ luaNow c.time ≤ b.ts ∧ current R c key = b := by
  rw [current, refill]
  cases hget : Key.get key c.time with
  | none => left; simp
  | some b =>
    simp only [Option.getD_some]
    split_ifs with hel hover
    · exact .inl le_rfl
    · exact .inl (not_lt.mp hover)
    · exact .inr ⟨b, rfl, by linarith, rfl⟩

/-- A call that finds a stored balance at the time of its writing takes it as it is. -/
theorem current_eq_of_le {key : Key Bucket} {c : Call} {b : Bucket}
    (hget : Key.get key c.time = some b) (hts : luaNow c.time ≤ b.ts) : current R c key = b := by
  have hel : ¬ 0 < luaNow c.time - b.ts := by linarith
  rw [current, refill, hget, Option.getD_some, if_neg hel]

/-- That is, what the call leaves is more than the capacity, by a whole token. -/
theorem overfull_iff (key : Key Bucket) (c : Call) :
    Overfull R c key ↔
      R.capacity c.burst + 1 ≤ (current R c key).tokens - granted R c key := by
  have hcast : ∀ b : Bucket, current R c key = b →
      granted R c key = if c.quantity ≤ b.tokens then c.quantity else 0 := by
    rintro _ rfl
    rfl
  constructor
  · rintro ⟨b, hget, hts, hle⟩
    have hb := current_eq_of_le R hget hts
    rw [hcast b hb, hb]
    exact hle
  · intro hle
    have hgranted : (0 : ℚ) ≤ granted R c key := Nat.cast_nonneg _
    rcases current_le_or_eq R key c with hcap | ⟨b, hget, hts, hb⟩
    · linarith
    · rw [hcast b hb, hb] at hle
      exact ⟨b, hget, hts, hle⟩

/-- Its replies keep the contract, except when a call finds more than its capacity. -/
theorem contract_iff {key : Key Bucket} (h : NonNeg key) (c : Call) :
    ((tokenBucketMachine R).step key c).2.Contract c.quantity ↔ ¬ Overfull R c key := by
  have h0 := current_nonneg R h c
  -- A floor is within the limit just when the balance is less than one over it.
  have hfloor : ∀ x : ℚ, ⌊x⌋ ≤ (R.requests + c.burst : ℤ) ↔ ¬ R.capacity c.burst + 1 ≤ x := by
    intro x
    rw [Int.floor_le_iff, not_le, Rate.capacity]
    push_cast
    rfl
  have hleft : ∀ x : ℚ, 0 ≤ x → 0 ≤ ⌊x⌋ := fun x hx => Int.floor_nonneg.mpr hx
  rw [overfull_iff]
  rcases Nat.eq_zero_or_pos c.quantity with hq | hq
  · have hgranted : granted R c key = 0 := by
      rw [granted, hq]
      exact ite_self 0
    rw [step_peek R key hq, hgranted, hq, Nat.cast_zero, sub_zero, ← hfloor]
    refine ⟨fun hc => hc.remaining_le, fun hle => ?_⟩
    exact Reply.contract_peek (ite_zero_or_one _) (hleft _ h0) hle (le_atLeast _ _)
  · by_cases hcov : (c.quantity : ℚ) ≤ (current R c key).tokens
    · rw [step_admitted R hq hcov, granted, if_pos hcov, ← hfloor]
      refine ⟨fun hc => hc.remaining_le, fun hle => ?_⟩
      exact Reply.contract_allowed (hleft _ (by linarith)) hle (le_atLeast _ _)
    · rw [step_rejected R hq hcov, granted, if_neg hcov, Nat.cast_zero, sub_zero, ← hfloor]
      refine ⟨fun hc => hc.remaining_le, fun hle => ?_⟩
      exact Reply.contract_rejected hq (hleft _ h0) hle (le_atLeast _ _) (le_atLeast _ _)

end TokenBucket

/-! ## All scripts -/

/-- The algorithms with a script of their own. -/
inductive Builtin where
  | fixedWindow | tokenBucket | gcra | slidingWindow
  deriving DecidableEq, Repr

/-- A call of a zone as the window scripts get it: the limit is the zone's requests and the burst in
effect. -/
def Call.window (c : Call) : WindowCall := ⟨c.time, (R.requests + c.burst) % uintT, c.quantity⟩

/-- The reply to a call after others, on one key of a zone. -/
def builtinReply (b : Builtin) (calls : List Call) (c : Call) : Reply :=
  match b with
  | .fixedWindow =>
    let M := fixedWindowMachine R.period
    (M.step (M.after none (calls.map (Call.window R))) (c.window R)).2
  | .tokenBucket =>
    let M := tokenBucketMachine R
    (M.step (M.after none calls) c).2
  | .gcra =>
    let M := gcraMachine R
    (M.step (M.after none calls) c).2
  | .slidingWindow =>
    let M := slidingWindowMachine R.period
    (M.step (M.after none (calls.map (Call.window R))) (c.window R)).2

/-- What the key may hold when the call is made: for a peek of GCRA no TAT beyond the horizon, and
for the token bucket no balance of the same time that is over its capacity. -/
def Orderly (b : Builtin) (calls : List Call) (c : Call) : Prop :=
  match b with
  | .fixedWindow | .slidingWindow => True
  | .gcra => c.quantity = 0 → Gcra.WithinHorizon R c ((gcraMachine R).after none calls)
  | .tokenBucket => ¬ TokenBucket.Overfull R c ((tokenBucketMachine R).after none calls)

/-- Whether a call is orderly can be decided, for each script. -/
instance (calls : List Call) (c : Call) : (b : Builtin) → Decidable (Orderly R b calls c)
  | .fixedWindow | .slidingWindow => inferInstanceAs (Decidable True)
  | .gcra => inferInstanceAs (Decidable (c.quantity = 0 → _))
  | .tokenBucket => inferInstanceAs (Decidable ¬ _)

/-- The parser accepts the reply, with its five integers. -/
def Reply.ReadBack (r : Reply) : Prop :=
  ∀ p : Parse, p.Fresh → ∃ q, replyLoop p (encodeTail r.elements) = .done q [] ∧ q.reply = r

/-- A built-in script keeps its contract, and its reply is accepted, exactly when the key is orderly
for the call: always in the window scripts, and otherwise when no peek of GCRA finds a TAT beyond
the horizon and no call of the token bucket more than its capacity. -/
theorem builtin_contract_iff (b : Builtin) (calls : List Call) (c : Call)
    (hexact : (builtinReply R b calls c).Exact) :
    ((builtinReply R b calls c).Contract c.quantity ∧ (builtinReply R b calls c).ReadBack) ↔
      Orderly R b calls c := by
  have hread : (builtinReply R b calls c).Contract c.quantity →
      (builtinReply R b calls c).ReadBack := by
    intro h p hp
    obtain ⟨q, hdone, hreply, -⟩ := replyLoop_reply hp (h.readable hexact)
    exact ⟨q, hdone, hreply⟩
  rw [and_iff_left_of_imp hread]
  cases b with
  | fixedWindow => exact iff_of_true (fixedWindow_contract R _ (c.window R)) trivial
  | slidingWindow => exact iff_of_true (slidingWindow_contract R _ (c.window R)) trivial
  | gcra => exact Gcra.contract_iff R _ c
  | tokenBucket => exact TokenBucket.contract_iff R (TokenBucket.nonNeg_after R calls) c

/-- A peek of GCRA half a second after a unit was taken at three requests in two seconds. -/
theorem builtin_contract_iff_peek :
    (builtinReply ⟨3, 2, by decide, by decide⟩ .gcra [⟨1000000, 0, 1⟩] ⟨1500000, 0, 0⟩).Contract 0 ∧
      (builtinReply ⟨3, 2, by decide, by decide⟩ .gcra [⟨1000000, 0, 1⟩] ⟨1500000, 0, 0⟩).ReadBack :=
  (builtin_contract_iff ⟨3, 2, by decide, by decide⟩ .gcra [⟨1000000, 0, 1⟩] ⟨1500000, 0, 0⟩
    (by decide +kernel)).mpr (by decide +kernel)

/-- A peek of GCRA right after the only unit was taken finds the rounded TAT beyond the horizon: it
reports -1 units, which the parser refuses. A peek of the token bucket at the time of a call with a
larger burst reports more than its limit. -/
theorem peek_breaks_contract :
    (∃ r, builtinReply ⟨3, 2, by decide, by decide⟩ .gcra [⟨1000000, 0, 1⟩] ⟨1000000, 0, 0⟩ = r ∧
      r = ⟨1, 1, -1, -1, 1⟩ ∧ ¬ r.Contract 0 ∧ ¬ r.ReadBack) ∧
    ∃ r, builtinReply ⟨1, 60, by decide, by decide⟩ .tokenBucket [⟨1000000, 10, 1⟩]
        ⟨1000000, 0, 0⟩ = r ∧ r = ⟨0, 1, 10, -1, 0⟩ ∧ ¬ r.Contract 0 := by
  refine ⟨⟨⟨1, 1, -1, -1, 1⟩, by decide +kernel, rfl, ?_, ?_⟩,
    ⟨0, 1, 10, -1, 0⟩, by decide +kernel, rfl, ?_⟩
  · exact fun h => absurd h.remaining_nonneg (by decide)
  · intro h
    obtain ⟨q, hdone, -⟩ := h ⟨.start, 0, 0, 0, -1, 0⟩ ⟨rfl, rfl, rfl, rfl, rfl⟩
    have hrefused : ∃ q, replyLoop ⟨.start, 0, 0, 0, -1, 0⟩
        (encodeTail (Reply.elements ⟨1, 1, -1, -1, 1⟩)) = .error q := ⟨_, rfl⟩
    obtain ⟨q', hrefused⟩ := hrefused
    exact Parsed.noConfusion (hdone.symm.trans hrefused)
  · exact fun h => absurd h.remaining_le (by decide)

end NginxRatelimit
