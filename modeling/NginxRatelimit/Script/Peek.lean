import NginxRatelimit.Script.Contract

/-!
# What a peek tells about the next call

Every script has room for an amount `x`, which the key and the time determine: calls for no more
than `x` are admitted, the others are rejected, and a peek reports the whole units in it
(`HasRoom`). So its `remaining` always says which quantities a call at that time can have, and its
status is right when the peek's threshold is `x < 1`. That of the sliding window is `x ≤ 0`
(`peek_predicts_iff`).
-/

namespace NginxRatelimit

/-- A peek, the reply to quantity 0, tells what calls in its place would be told. -/
structure Predicts (reply : ℕ → Reply) : Prop where
  /-- It is limited when a call for one unit is rejected. -/
  status : (reply 0).status = 1 ↔ (reply 1).status = 1
  /-- Calls for no more than what remains are admitted. -/
  remaining : ∀ n : ℕ, 1 ≤ n → ((reply n).status = 0 ↔ n ≤ (reply 0).remaining)

/-- There is room for `x`, and a peek reports the whole units in it. -/
structure HasRoom (reply : ℕ → Reply) (x : ℚ) : Prop where
  /-- What fits is admitted. -/
  admitted : ∀ n : ℕ, 1 ≤ n → (n : ℚ) ≤ x → (reply n).status = 0
  /-- What does not is rejected. -/
  rejected : ∀ n : ℕ, 1 ≤ n → ¬ (n : ℚ) ≤ x → (reply n).status = 1
  /-- The whole units are those that remain. -/
  remaining : ∀ n : ℕ, 1 ≤ n → (n ≤ (reply 0).remaining ↔ (n : ℚ) ≤ x)

/-- The peek is right about the quantities, and about the status if it asks for room for a unit. -/
theorem HasRoom.predicts_iff {reply : ℕ → Reply} {x : ℚ} (h : HasRoom reply x) :
    Predicts reply ↔ ((reply 0).status = 1 ↔ x < 1) := by
  have hone : (reply 1).status = 1 ↔ x < 1 := by
    constructor
    · intro hs
      by_contra hx
      have hadm := h.admitted 1 le_rfl (by exact_mod_cast not_lt.mp hx)
      exact zero_ne_one (hadm.symm.trans hs)
    · intro hx
      exact h.rejected 1 le_rfl (by exact_mod_cast not_le.mpr hx)
  constructor
  · intro hp
    exact hp.status.trans hone
  · intro hs
    refine ⟨hs.trans hone.symm, fun n hn => ?_⟩
    rw [h.remaining n hn]
    constructor
    · intro h0
      by_contra hx
      exact zero_ne_one (h0.symm.trans (h.rejected n hn hx))
    · exact h.admitted n hn

/-- The status of a peek is 1 exactly where its test holds. -/
theorem ite_one_zero_eq_one (p : Prop) [Decidable p] : (if p then (1 : ℤ) else 0) = 1 ↔ p := by
  split <;> simp_all

/-- The whole units of a room that is not less than nothing. -/
theorem le_atLeast_floor {n : ℕ} (hn : 1 ≤ n) (x : ℚ) : (n : ℤ) ≤ atLeast 0 ⌊x⌋ ↔ (n : ℚ) ≤ x := by
  have hfloor : (n : ℤ) ≤ ⌊x⌋ ↔ (n : ℚ) ≤ x := Int.le_floor
  rw [atLeast_eq_max, ← hfloor]
  omega

/-- What a script keeps in its key. -/
abbrev Builtin.Stored : Builtin → Type
  | .fixedWindow => ℕ
  | .tokenBucket => Bucket
  | .gcra => ℚ
  | .slidingWindow => Counts

variable (R : Rate)

/-- The reply to a call on a key of a zone, whatever the key holds. -/
def replyOn : (b : Builtin) → Key b.Stored → Call → Reply
  | .fixedWindow, key, c => ((fixedWindowMachine R.period).step key (c.window R)).2
  | .tokenBucket, key, c => ((tokenBucketMachine R).step key c).2
  | .gcra, key, c => ((gcraMachine R).step key c).2
  | .slidingWindow, key, c => ((slidingWindowMachine R.period).step key (c.window R)).2

/-- The estimate of the sliding window is below the limit, but by less than a unit. -/
def WithinLastUnit : (b : Builtin) → Key b.Stored → Call → Prop
  | .slidingWindow, key, c =>
    let s := SlidingWindow.counts R (c.window R) key
    let est := s.p * ((R.period - elapsedIn R.period c.time) / R.period) + s.c
    ((c.window R).limit : ℚ) - 1 < est ∧ est < (c.window R).limit
  | _, _, _ => False

/-! ## The room of each script -/

/-- The fixed window has room for what the counter lacks. -/
theorem FixedWindow.hasRoom (key : Key ℕ) (burst now : ℕ) :
    HasRoom (fun q => replyOn R .fixedWindow key ⟨now, burst, q⟩)
      ((Call.window R ⟨now, burst, 0⟩).limit - ((Key.get key now).getD 0 : ℕ)) := by
  have hfits : ∀ n : ℕ, (n : ℚ) ≤ (Call.window R ⟨now, burst, 0⟩).limit -
        ((Key.get key now).getD 0 : ℕ) ↔
      (Key.get key now).getD 0 + n ≤ (Call.window R ⟨now, burst, 0⟩).limit := by
    intro n
    rw [le_sub_iff_add_le, add_comm]
    norm_cast
  refine ⟨fun n hn hx => ?_, fun n hn hx => ?_, fun n hn => ?_⟩
  · exact congrArg (·.2.status) (step_admitted R (c := Call.window R ⟨now, burst, n⟩) key hn
      ((hfits n).mp hx))
  · rw [hfits, not_le] at hx
    exact congrArg (·.2.status) (step_rejected R (c := Call.window R ⟨now, burst, n⟩) key hn hx)
  · have hpeek := congrArg (·.2.remaining) (step_peek R (c := Call.window R ⟨now, burst, 0⟩) key rfl)
    rw [replyOn, hpeek, hfits, atLeast_eq_max]
    dsimp only [Call.window]
    omega

/-- The token bucket has room for its balance. -/
theorem TokenBucket.hasRoom (key : Key Bucket) (burst now : ℕ) :
    HasRoom (fun q => replyOn R .tokenBucket key ⟨now, burst, q⟩)
      (current R ⟨now, burst, 0⟩ key).tokens := by
  refine ⟨fun n hn hx => ?_, fun n hn hx => ?_, fun n hn => ?_⟩
  · exact congrArg (·.2.status) (step_admitted R (c := ⟨now, burst, n⟩) hn hx)
  · exact congrArg (·.2.status) (step_rejected R (c := ⟨now, burst, n⟩) hn hx)
  · have hpeek := congrArg (·.2.remaining) (step_peek R (c := ⟨now, burst, 0⟩) key rfl)
    rw [replyOn, hpeek]
    exact Int.le_floor

/-- GCRA has room for what is left of the horizon, in units. -/
theorem Gcra.hasRoom (key : Key ℚ) (burst now : ℕ) :
    HasRoom (fun q => replyOn R .gcra key ⟨now, burst, q⟩)
      (slack R ⟨now, burst, 0⟩ key / R.emission) := by
  have hT := R.emission_pos
  have hfits : ∀ n : ℕ, (n : ℚ) ≤ slack R ⟨now, burst, 0⟩ key / R.emission ↔
      Fits R ⟨now, burst, n⟩ key := by
    intro n
    rw [le_div_iff₀ hT, ← slack_nonneg_iff]
    unfold slack newTat
    push_cast
    constructor <;> intro h <;> linarith
  refine ⟨fun n hn hx => ?_, fun n hn hx => ?_, fun n hn => ?_⟩
  · exact congrArg (·.2.status) (step_admitted R (c := ⟨now, burst, n⟩) hn ((hfits n).mp hx))
  · exact congrArg (·.2.status) (step_rejected R (c := ⟨now, burst, n⟩) hn (mt (hfits n).mpr hx))
  · have hpeek := congrArg (·.2.remaining) (step_peek R (c := ⟨now, burst, 0⟩) key rfl)
    have hfloor : (n : ℤ) ≤ ⌊slack R ⟨now, burst, 0⟩ key / R.emission⌋ ↔
        (n : ℚ) ≤ slack R ⟨now, burst, 0⟩ key / R.emission := Int.le_floor
    -- The cap at the limit changes nothing: the TAT is not before now.
    have hcap : ⌊slack R ⟨now, burst, 0⟩ key / R.emission⌋ ≤ (burst + 1 : ℤ) := by
      have htat := effectiveTat_ge now key
      rw [← Int.lt_add_one_iff, Int.floor_lt, div_lt_iff₀ hT]
      simp only [slack, newTat]
      push_cast
      linarith
    rw [replyOn, hpeek, ← hfloor, atMost_eq_min, min_eq_right hcap]

/-- The sliding window has room for what the estimate lacks. -/
theorem SlidingWindow.hasRoom (key : Key Counts) (burst now : ℕ) :
    let c := Call.window R ⟨now, burst, 0⟩
    HasRoom (fun q => replyOn R .slidingWindow key ⟨now, burst, q⟩)
      (c.limit - estimate R c (counts R c key)) := by
  intro c
  have hfits : ∀ n : ℕ, (n : ℚ) ≤ c.limit - estimate R c (counts R c key) ↔
      estimate R c (counts R c key) + n ≤ c.limit := by
    intro n
    rw [le_sub_iff_add_le, add_comm]
  refine ⟨fun n hn hx => ?_, fun n hn hx => ?_, fun n hn => ?_⟩
  · exact congrArg (·.2.status) (step_admitted R (c := Call.window R ⟨now, burst, n⟩) key hn
      ((hfits n).mp hx))
  · exact congrArg (·.2.status) (step_rejected R (c := Call.window R ⟨now, burst, n⟩) key hn
      (mt (hfits n).mpr hx))
  · have hpeek := congrArg (·.2.remaining) (step_peek R (c := c) key rfl)
    rw [replyOn, hpeek]
    exact le_atLeast_floor hn _

/-! ## The thresholds of the peeks -/

/-- A peek predicts the calls in its place, whatever is stored, unless it is one of the sliding
window that finds the estimate below the limit by less than a unit. -/
theorem peek_predicts_iff (b : Builtin) (key : Key b.Stored) (burst now : ℕ) :
    Predicts (fun q => replyOn R b key ⟨now, burst, q⟩) ↔
      ¬ WithinLastUnit R b key ⟨now, burst, 0⟩ := by
  cases b with
  | fixedWindow =>
    rw [(FixedWindow.hasRoom R key burst now).predicts_iff, replyOn,
      FixedWindow.step_peek R _ rfl, ite_one_zero_eq_one, sub_lt_iff_lt_add]
    refine iff_of_true ?_ not_false
    dsimp only [Call.window]
    norm_cast
    omega
  | tokenBucket =>
    rw [(TokenBucket.hasRoom R key burst now).predicts_iff, replyOn,
      TokenBucket.step_peek R _ rfl, ite_one_zero_eq_one]
    exact iff_of_true Iff.rfl not_false
  | gcra =>
    rw [(Gcra.hasRoom R key burst now).predicts_iff, replyOn, Gcra.step_peek R _ rfl]
    refine iff_of_true ?_ not_false
    -- The peek asks for the floor of the quotient, a call for the quotient itself.
    have hfloor : ⌊Gcra.slack R ⟨now, burst, 0⟩ key / R.emission⌋ < 1 ↔
        Gcra.slack R ⟨now, burst, 0⟩ key / R.emission < 1 := by
      rw [Int.floor_lt, Int.cast_one]
    rw [← hfloor, atMost_eq_min]
    dsimp only
    rw [ite_one_zero_eq_one]
    omega
  | slidingWindow =>
    rw [(SlidingWindow.hasRoom R key burst now).predicts_iff, replyOn,
      SlidingWindow.step_peek R _ rfl]
    dsimp only
    rw [ite_one_zero_eq_one]
    unfold WithinLastUnit
    simp only [SlidingWindow.estimate, Call.window]
    -- The peek asks for an estimate below the limit, a call for one that is a unit below it.
    constructor
    · rintro h ⟨hlow, hhigh⟩
      exact absurd (h.mpr (by linarith)) (not_le.mpr hhigh)
    · intro h
      constructor
      · intro hle
        linarith
      · intro hlt
        by_contra hle
        exact h ⟨by linarith, not_le.mp hle⟩

/-- At one request in two seconds, half of the unit of the last window counts: a peek is allowed, a
call for one unit is not. -/
theorem slidingWindow_peek_allowed :
    let R : Rate := ⟨1, 2, by decide, by decide⟩
    let key : Key Counts := some ⟨⟨1, 0, 0⟩, some 5000000⟩
    ¬ Predicts (fun q => replyOn R .slidingWindow key ⟨3000000, 0, q⟩) := by
  intro R key h
  have hpeek : (replyOn R .slidingWindow key ⟨3000000, 0, 0⟩).status = 0 := by decide +kernel
  have hcall : (replyOn R .slidingWindow key ⟨3000000, 0, 1⟩).status = 1 := by decide +kernel
  exact zero_ne_one (hpeek.symm.trans (h.status.mpr hcall))

end NginxRatelimit
