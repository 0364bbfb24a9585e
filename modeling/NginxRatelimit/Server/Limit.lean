import NginxRatelimit.Server.Serial

/-!
# The limits hold for all workers together

The limit of a key is kept over all requests of all workers and connections, whatever else happens:
scripts that are not loaded, requests that are given up, replies that are lost. Each of the four
algorithms is a `Limiter`, so what is let through is at most what its machine admits, and that is
bounded in every interval.
-/

namespace NginxRatelimit

open Library Resp RoundTrip ScriptCall

variable {V : Type} {S : Server V} {w : World V} {events : List (WorldEvent V)} {p : Place}

/-! ## The algorithms -/

/-- `ARGV` of the window scripts. -/
def WindowCall.argv (window : ℕ) (c : WindowCall) : List ℕ := [c.limit, window, c.quantity]

/-- `ARGV` of the other two. -/
def Call.argv (R : Rate) (c : Call) : List ℕ := [R.requests, R.period, c.burst, c.quantity]

/-- A run of a window script as a call. -/
def ScriptRun.windowCall (y : ScriptRun) : WindowCall := ⟨y.time, y.args.getD 0 0, y.args.getD 2 0⟩

/-- A run of one of the other two as a call. -/
def ScriptRun.call (y : ScriptRun) : Call := ⟨y.time, y.args.getD 2 0, y.args.getD 3 0⟩

/-- The locations of a window algorithm with a limit up to `L`. -/
def LocConf.HasWindow (R : Rate) (L : ℕ) (conf : LocConf) : Prop :=
  conf.zone.period = R.period ∧ conf.zone.requests + effectiveBurst conf ≤ L

/-- Those whose limits are counts that doubles hold, as in every configuration that is loaded. -/
def LocConf.HasSafeWindow (R : Rate) (L : ℕ) (conf : LocConf) : Prop :=
  conf.HasWindow R L ∧ conf.zone.requests + effectiveBurst conf < 2 ^ 53

/-- The calls with such a limit: up to it the counter is exact, and a quantity above is rejected
however it is rounded. -/
def WindowCall.Safe (c : WindowCall) : Prop := c.limit < 2 ^ 53

/-- The locations of a rate with a burst that has `B`. -/
def LocConf.HasRate (R : Rate) (B : ℕ → Prop) (conf : LocConf) : Prop :=
  conf.zone.requests = R.requests ∧ conf.zone.period = R.period ∧ B (effectiveBurst conf)

/-- The arguments of a window script are those of its call. -/
theorem windowCall_of_args {R : Rate} {L : ℕ} {conf : LocConf} {y : ScriptRun}
    (halgo : conf.zone.algo = .fixedWindow ∨ conf.zone.algo = .slidingWindow)
    (h : conf.HasWindow R L) (hy : y.args = scriptArgs conf) :
    y.windowCall.argv R.period = y.args ∧ y.windowCall.quantity = conf.quantity ∧
      y.windowCall.limit ≤ L := by
  have hargs : y.args =
      [(conf.zone.requests + effectiveBurst conf) % uintT, R.period, conf.quantity] := by
    rw [hy, ← h.1, scriptArgs]
    rcases halgo with halgo | halgo <;> rw [halgo]
  rw [WindowCall.argv, ScriptRun.windowCall, hargs]
  exact ⟨rfl, rfl, (Nat.mod_le _ _).trans h.2⟩

/-- And so are those of the others. -/
theorem call_of_args {R : Rate} {B : ℕ → Prop} {conf : LocConf} {y : ScriptRun}
    (halgo : conf.zone.algo = .tokenBucket ∨ conf.zone.algo = .gcra) (h : conf.HasRate R B)
    (hy : y.args = scriptArgs conf) :
    y.call.argv R = y.args ∧ y.call.quantity = conf.quantity ∧ B y.call.burst := by
  have hargs : y.args = [R.requests, R.period, effectiveBurst conf, conf.quantity] := by
    rw [hy, ← h.1, ← h.2.1, scriptArgs]
    rcases halgo with halgo | halgo <;> rw [halgo]
  rw [Call.argv, ScriptRun.call, hargs]
  exact ⟨rfl, rfl, h.2.2⟩

/-- A reply of the contract has no `retry_after` below -1. -/
theorem Reply.Contract.retryAfter_ge {r : Reply} {quantity : ℕ} (h : r.Contract quantity) :
    -1 ≤ r.retryAfter := by
  rcases h.status with hs | hs
  · exact (h.allowed (.inl hs)).ge
  · rcases Nat.eq_zero_or_pos quantity with hq | hq
    · exact (h.allowed (.inr hq)).ge
    · have hone := h.rejected hs hq
      omega

/-- The fixed window script, for limits that doubles hold. -/
theorem fixedWindow_limiter (R : Rate) (L : ℕ) : Limiter .fixedWindow (LocConf.HasSafeWindow R L)
    WindowCall.Safe (fixedWindowMachine R.period) (WindowCall.argv R.period)
    ScriptRun.windowCall where
  builtin := nofun
  time _ := rfl
  call _ _ halgo hC hy :=
    have hcall := windowCall_of_args (.inl halgo) hC.1 hy
    ⟨hcall.1, hcall.2.1⟩
  asked _ _ halgo hC hy :=
    (windowCall_of_args (.inl halgo) ⟨hC.1.1, le_rfl⟩ hy).2.2.trans_lt hC.2
  retryAfter key c := (fixedWindow_contract R key c).retryAfter_ge

/-- The sliding window script, in exact arithmetic. -/
theorem slidingWindow_limiter (R : Rate) (L : ℕ) : Limiter .slidingWindow (LocConf.HasWindow R L)
    (fun _ => True) (slidingWindowMachine R.period) (WindowCall.argv R.period)
    ScriptRun.windowCall where
  builtin := nofun
  time _ := rfl
  call _ _ halgo hC hy :=
    have hcall := windowCall_of_args (.inr halgo) hC hy
    ⟨hcall.1, hcall.2.1⟩
  asked _ _ _ _ _ := trivial
  retryAfter key c := (slidingWindow_contract R key c).retryAfter_ge

/-- The GCRA script, in exact arithmetic. -/
theorem gcra_limiter (R : Rate) (B : ℕ → Prop) : Limiter .gcra (LocConf.HasRate R B)
    (fun _ => True) (gcraMachine R) (Call.argv R) ScriptRun.call where
  builtin := nofun
  time _ := rfl
  call _ _ halgo hC hy :=
    have hcall := call_of_args (.inr halgo) hC hy
    ⟨hcall.1, hcall.2.1⟩
  asked _ _ _ _ _ := trivial
  retryAfter key c := by
    rcases Nat.eq_zero_or_pos c.quantity with hq | hq
    · rw [Gcra.step_peek R key hq]
    · by_cases hfit : Gcra.Fits R c key
      · rw [Gcra.step_admitted R hq hfit]
      · rw [Gcra.step_rejected R hq hfit]
        exact (by decide : (-1 : ℤ) ≤ 1).trans (le_atLeast _ _)

/-- The token bucket script, in exact arithmetic. -/
theorem tokenBucket_limiter (R : Rate) (B : ℕ → Prop) : Limiter .tokenBucket (LocConf.HasRate R B)
    (fun _ => True) (tokenBucketMachine R) (Call.argv R) ScriptRun.call where
  builtin := nofun
  time _ := rfl
  call _ _ halgo hC hy :=
    have hcall := call_of_args (.inl halgo) hC hy
    ⟨hcall.1, hcall.2.1⟩
  asked _ _ _ _ _ := trivial
  retryAfter key c := by
    rcases Nat.eq_zero_or_pos c.quantity with hq | hq
    · rw [TokenBucket.step_peek R key hq]
    · by_cases hcov : (c.quantity : ℚ) ≤ (TokenBucket.current R c key).tokens
      · rw [TokenBucket.step_admitted R hq hcov]
      · rw [TokenBucket.step_rejected R hq hcov]
        exact (by decide : (-1 : ℤ) ≤ 1).trans (le_atLeast _ _)

/-- The window scripts on a key get limits up to the largest one of its locations. -/
theorem World.Exclusive.limit_le {R : Rate} {L : ℕ} {algo : Algo}
    (hkey : w.Exclusive S p algo (LocConf.HasWindow R L))
    (halgo : algo = .fixedWindow ∨ algo = .slidingWindow) (hinv : w.Inv S) :
    ∀ c ∈ w.callsAt p ScriptRun.windowCall, c.limit ≤ L := by
  have hbuiltin : algo ≠ .custom := by
    rintro rfl
    cases halgo with
    | inl h => cases h
    | inr h => cases h
  refine hkey.forall_calls hinv hbuiltin fun conf y hzone hC hy => ?_
  exact (windowCall_of_args (hzone ▸ halgo) hC hy).2.2

/-! ## The bounds -/

/-- A request that a location with `ratelimit_on_error deny` lets through is one of those that are
counted on the key that its script ran on, with its quantity. -/
theorem let_through_allowed (h : World.run S events = some w) : ∀ d ∈ w.done,
    verdict d.sender.conf d.trip.parse.status = .declined → d.sender.conf.onError = .deny →
      0 < d.sender.conf.quantity → ∃ y, w.ranFor d.request = some y ∧
        (d.request, ⟨y.time, d.sender.conf.quantity⟩) ∈ w.allowed y.place ∧
        S.RunsFor d.sender.conf d.sender.key y ∧
        (0 < d.sender.conf.database → y.place.database = d.sender.conf.database.toNat) := by
  intro d hd hdeclined hdeny hquantity
  have hinv := World.inv_of_run h
  have hended := hinv.ended hd
  have hreplied : RepliedWith d.trip (ascii '0') := by
    rcases verdict_of_ended d.sender.conf hended with
      ⟨hreplied, -⟩ | ⟨-, hverdict⟩ | ⟨⟨hallow, -⟩, -⟩ | ⟨status, -, hverdict⟩
    · exact hreplied
    · exact absurd (hverdict.symm.trans hdeclined) nofun
    · exact absurd (hallow.symm.trans hdeny) nofun
    · exact absurd (hverdict.symm.trans hdeclined) nofun
  obtain ⟨x, hx, y, hid, -, hrun, hown, hdatabase, ⟨values, hvalues⟩, -⟩ :=
    hinv.exists_own_run hd (replied_of_ended hended hreplied).1
  have hran : w.ranFor d.request = some y := by
    rw [← hid, World.ranFor_eq h hx (Served.effective_of_array hrun hvalues), hrun]
  refine ⟨y, hran, List.mem_filterMap.mpr ⟨d, hd, ?_⟩, hown, hdatabase⟩
  rw [if_pos ⟨hreplied, hquantity⟩, hran, Option.filter_some, if_pos (decide_eq_true rfl),
    Option.map_some]

/-- The fixed window of two seconds. -/
def fixedWindowServer : Server ℕ :=
  luaServer (text "1fe99d73477f825342affc9ddb987d8797da1f99") (fixedWindowMachine 2)
    ScriptRun.windowCall

/-- Two workers with one key and a limit of 1 in 2 seconds: a request that is let through has its
own run, which allowed it. -/
theorem let_through_allowed_two_workers :
    let conf := rateLocation fixedWindowServer .fixedWindow 1 2
    ∃ w, World.run fixedWindowServer (twoWorkers .fixedWindow (conf 0) (conf 1)) = some w ∧
      ∃ d ∈ w.done, d.request = (1, 0) ∧ ∃ y, w.ranFor d.request = some y ∧
        (d.request, ⟨y.time, d.sender.conf.quantity⟩) ∈ w.allowed y.place := by
  intro conf
  have hrun : (World.run fixedWindowServer (twoWorkers .fixedWindow (conf 0) (conf 1))).map
      (fun w => w.done[0]?.map fun d => (d.request, decide (
        verdict d.sender.conf d.trip.parse.status = .declined ∧ d.sender.conf.onError = .deny ∧
          0 < d.sender.conf.quantity))) = some (some ((1, 0), true)) := by
    decide +kernel
  obtain ⟨w, hw, hfirst⟩ := Option.map_eq_some_iff.mp hrun
  obtain ⟨d, hd, heq⟩ := Option.map_eq_some_iff.mp hfirst
  simp only [Prod.mk.injEq, decide_eq_true_eq] at heq
  obtain ⟨hid, hdeclined, hdeny, hquantity⟩ := heq
  have hmem := List.mem_of_getElem? hd
  obtain ⟨y, hy, hallowed, -⟩ := let_through_allowed hw d hmem hdeclined hdeny hquantity
  exact ⟨w, hw, d, hmem, hid, y, hy, hallowed⟩

/-- A server that runs the fixed window runs its text. -/
theorem fixedWindowServer_interprets : fixedWindowServer.Interprets WindowCall.Safe fixedWindowLua
    (fixedWindowMachine 2) (WindowCall.argv 2) id :=
  luaServer_interprets _ _ _ fun _ _ => rfl

/-- Only the two workers write the key there. -/
theorem exclusive_fixedWindowServer {w : World ℕ} (h : World.run fixedWindowServer
    (twoWorkers .fixedWindow (rateLocation fixedWindowServer .fixedWindow 1 2 0)
      (rateLocation fixedWindowServer .fixedWindow 1 2 1)) = some w) :
    w.Exclusive fixedWindowServer ⟨0, text "a"⟩ .fixedWindow
      (LocConf.HasSafeWindow ⟨1, 2, by decide, by decide⟩ 2) :=
  exclusive_twoWorkers h nofun ⟨⟨rfl, by decide⟩, by decide⟩ ⟨⟨rfl, by decide⟩, by decide⟩

/-- The fixed window's limit holds for all requests together: in a closed period, all workers let
through at most twice the largest limit of the key's locations, but for the requests that fail
open. -/
theorem fixedWindow_limits_all (h : World.run S events = some w) {R : Rate} {L : ℕ} {store : ℕ → V}
    (hlua : S.Interprets WindowCall.Safe fixedWindowLua (fixedWindowMachine R.period)
      (WindowCall.argv R.period) store)
    (hkey : w.Exclusive S p .fixedWindow (LocConf.HasSafeWindow R L)) (x : ℚ) :
    unitsIn (FixedWindow.InPeriod R x) ((w.letThrough p).map Prod.snd) ≤ 2 * L := by
  have hN := fixedWindow_limiter R L
  have hlimit := (hkey.mono fun _ hC => hC.1).limit_le (.inl rfl) (World.inv_of_run h)
  exact (hkey.unitsIn_letThrough_le h hN hlua _).trans
    (FixedWindow.units_le R hlimit (hkey.inOrder hN) x)

/-- With limits of one and of two, the first two requests are let through. -/
theorem fixedWindow_limits_all_two_workers :
    let conf := rateLocation fixedWindowServer .fixedWindow 1 2
    ∃ w, World.run fixedWindowServer (twoWorkers .fixedWindow (conf 0) (conf 1)) = some w ∧
      (w.letThrough ⟨0, text "a"⟩).map (fun e => (e.1, e.2.time)) =
        [((1, 0), 1500000), ((0, 0), 1000000)] ∧
      unitsIn (FixedWindow.InPeriod ⟨1, 2, by decide, by decide⟩ 1)
        ((w.letThrough ⟨0, text "a"⟩).map Prod.snd) ≤ 2 * 2 := by
  intro conf
  have hrun : (World.run fixedWindowServer (twoWorkers .fixedWindow (conf 0) (conf 1))).map
      (fun w => (w.letThrough ⟨0, text "a"⟩).map fun e => (e.1, e.2.time)) =
        some [((1, 0), 1500000), ((0, 0), 1000000)] := by
    decide +kernel
  obtain ⟨w, hw, hallowed⟩ := Option.map_eq_some_iff.mp hrun
  exact ⟨w, hw, hallowed, fixedWindow_limits_all hw (R := ⟨1, 2, by decide, by decide⟩)
    fixedWindowServer_interprets (exclusive_fixedWindowServer hw) 1⟩

/-- So does the sliding window's, in every interval up to its length. -/
theorem slidingWindow_limits_all (h : World.run S events = some w) {R : Rate} {L : ℕ}
    {store : Counts → V}
    (hlua : S.Interprets (fun _ => True) slidingWindowLua (slidingWindowMachine R.period)
      (WindowCall.argv R.period) store)
    (hkey : w.Exclusive S p .slidingWindow (LocConf.HasWindow R L)) (x d : ℚ) (hd0 : 0 ≤ d)
    (hdW : d ≤ R.period) :
    (unitsIn (fun t => x ≤ luaNow t ∧ luaNow t ≤ x + d) ((w.letThrough p).map Prod.snd) : ℚ) ≤
      L * (1 + d / R.period) := by
  have hN := slidingWindow_limiter R L
  have hlimit := hkey.limit_le (.inr rfl) (World.inv_of_run h)
  have hle := hkey.unitsIn_letThrough_le h hN hlua fun t => x ≤ luaNow t ∧ luaNow t ≤ x + d
  have hle' : (unitsIn (fun t => x ≤ luaNow t ∧ luaNow t ≤ x + d) ((w.letThrough p).map Prod.snd) : ℚ) ≤
      unitsIn (fun t => x ≤ luaNow t ∧ luaNow t ≤ x + d) (admissions
        ((slidingWindowMachine R.period).trace none (w.callsAt p ScriptRun.windowCall))) := by
    exact_mod_cast hle
  exact hle'.trans ((SlidingWindow.smooth_of_le R hlimit (hkey.inOrder hN)).interval x d hd0 hdW)

/-- The sliding window of two seconds. -/
def slidingWindowServer : Server Counts :=
  luaServer (text "993ebc891bff95fd67194d0007546baeabb1a474") (slidingWindowMachine 2)
    ScriptRun.windowCall

/-- Two workers with one key: what they let through is within the bound of the sliding window. -/
theorem slidingWindow_limits_all_two_workers :
    let conf := rateLocation slidingWindowServer .slidingWindow 1 2
    ∃ w, World.run slidingWindowServer (twoWorkers .slidingWindow (conf 0) (conf 1)) = some w ∧
      (w.letThrough ⟨0, text "a"⟩).map (fun e => (e.1, e.2.time)) =
        [((1, 0), 1500000), ((0, 0), 1000000)] ∧
      (unitsIn (fun t => 1 ≤ luaNow t ∧ luaNow t ≤ 1 + 1)
        ((w.letThrough ⟨0, text "a"⟩).map Prod.snd) : ℚ) ≤ (2 : ℕ) * (1 + 1 / (2 : ℕ)) := by
  intro conf
  have hrun : (World.run slidingWindowServer (twoWorkers .slidingWindow (conf 0) (conf 1))).map
      (fun w => (w.letThrough ⟨0, text "a"⟩).map fun e => (e.1, e.2.time)) =
        some [((1, 0), 1500000), ((0, 0), 1000000)] := by
    decide +kernel
  obtain ⟨w, hw, hallowed⟩ := Option.map_eq_some_iff.mp hrun
  have hlua : slidingWindowServer.Interprets (fun _ => True) slidingWindowLua (slidingWindowMachine 2)
      (WindowCall.argv 2) id := luaServer_interprets _ _ _ fun _ _ => rfl
  have hkey : w.Exclusive slidingWindowServer ⟨0, text "a"⟩ .slidingWindow
      (LocConf.HasWindow ⟨1, 2, by decide, by decide⟩ 2) :=
    exclusive_twoWorkers hw nofun ⟨rfl, by decide⟩ ⟨rfl, by decide⟩
  exact ⟨w, hw, hallowed, slidingWindow_limits_all hw (R := ⟨1, 2, by decide, by decide⟩) hlua hkey
    1 1 (by norm_num) (by norm_num)⟩

/-- GCRA's envelope holds for all requests together: the units that all workers let through in a
closed interval of length `d` take, each at its emission interval less the rounding of a write, at
most `d` and the time of the largest burst. -/
theorem gcra_limits_all (h : World.run S events = some w) {R : Rate} {B : ℕ} {store : ℚ → V}
    (hlua : S.Interprets (fun _ => True) gcraLua (gcraMachine R) (Call.argv R) store)
    (hkey : w.Exclusive S p .gcra (LocConf.HasRate R (· ≤ B))) (x d : ℚ) (hd : 0 ≤ d) :
    (unitsIn (Within luaNow x d) ((w.letThrough p).map Prod.snd) : ℚ) *
      (R.emission - 5 / 10000000) ≤ R.emission * (B + 1) + d := by
  have hN := gcra_limiter R (· ≤ B)
  have hburst : ∀ c ∈ w.callsAt p ScriptRun.call, c.burst ≤ B :=
    hkey.forall_calls (World.inv_of_run h) hN.builtin fun conf y halgo hC hy =>
      (call_of_args (.inr halgo) hC hy).2.2
  have hle := hkey.unitsIn_letThrough_le h hN hlua (Within luaNow x d)
  have hbound := Gcra.units_mul_le R hburst (hkey.inOrder hN) x d hd
  rcases le_total 0 (R.emission - 5 / 10000000) with hpos | hneg
  · exact (mul_le_mul_of_nonneg_right (by exact_mod_cast hle) hpos).trans hbound
  · -- A unit that takes less than the rounding is not bounded by it.
    have hT := R.emission_pos
    have hnonneg : 0 ≤ R.emission * (B + 1) + d := by positivity
    exact (mul_nonpos_of_nonneg_of_nonpos (Nat.cast_nonneg _) hneg).trans hnonneg

/-- GCRA at one request in two seconds. -/
def gcraServer : Server ℚ :=
  luaServer (text "68e493fe611687550d71881721481d61319449e9")
    (gcraMachine ⟨1, 2, by decide, by decide⟩) ScriptRun.call

/-- Two workers with one key: what they let through is within the envelope of GCRA. -/
theorem gcra_limits_all_two_workers :
    let conf := rateLocation gcraServer .gcra 1 2
    ∃ w, World.run gcraServer (twoWorkers .gcra (conf 0) (conf 1)) = some w ∧
      (w.letThrough ⟨0, text "a"⟩).map (fun e => (e.1, e.2.time)) =
        [((1, 0), 1500000), ((0, 0), 1000000)] ∧
      (unitsIn (Within luaNow 1 1) ((w.letThrough ⟨0, text "a"⟩).map Prod.snd) : ℚ) *
        (Rate.emission ⟨1, 2, by decide, by decide⟩ - 5 / 10000000) ≤
          Rate.emission ⟨1, 2, by decide, by decide⟩ * ((1 : ℕ) + 1) + 1 := by
  intro conf
  have hrun : (World.run gcraServer (twoWorkers .gcra (conf 0) (conf 1))).map
      (fun w => (w.letThrough ⟨0, text "a"⟩).map fun e => (e.1, e.2.time)) =
        some [((1, 0), 1500000), ((0, 0), 1000000)] := by
    decide +kernel
  obtain ⟨w, hw, hallowed⟩ := Option.map_eq_some_iff.mp hrun
  have hlua : gcraServer.Interprets (fun _ => True) gcraLua (gcraMachine ⟨1, 2, by decide, by decide⟩)
      (Call.argv ⟨1, 2, by decide, by decide⟩) id := luaServer_interprets _ _ _ fun _ _ => rfl
  have hkey : w.Exclusive gcraServer ⟨0, text "a"⟩ .gcra
      (LocConf.HasRate ⟨1, 2, by decide, by decide⟩ (· ≤ 1)) :=
    exclusive_twoWorkers hw nofun ⟨rfl, rfl, by decide⟩ ⟨rfl, rfl, by decide⟩
  exact ⟨w, hw, hallowed, gcra_limits_all hw hlua hkey 1 1 (by norm_num)⟩

/-- The token bucket's envelope holds for all requests together, up to the rounding of every call of
the interval, when the key's locations have one burst. -/
theorem tokenBucket_limits_all (h : World.run S events = some w) {R : Rate} {B : ℕ}
    {store : Bucket → V}
    (hlua : S.Interprets (fun _ => True) tokenBucketLua (tokenBucketMachine R) (Call.argv R) store)
    (hkey : w.Exclusive S p .tokenBucket (LocConf.HasRate R (· = B))) (x d : ℚ) (hd : 0 ≤ d) :
    (unitsIn (Within luaNow x d) ((w.letThrough p).map Prod.snd) : ℚ) ≤
      R.capacity B + R.perSecond * d +
        ((w.logAt p).filter fun e => Within luaNow x d e.1.time).length * (5 / 10000000) := by
  have hN := tokenBucket_limiter R (· = B)
  have hburst : ∀ c ∈ w.callsAt p ScriptRun.call, c.burst = B :=
    hkey.forall_calls (World.inv_of_run h) hN.builtin fun conf y halgo hC hy =>
      (call_of_args (.inl halgo) hC hy).2.2
  have hle := hkey.unitsIn_letThrough_le h hN hlua (Within luaNow x d)
  obtain ⟨-, henv⟩ := TokenBucket.enveloped_after R hburst (hkey.inOrder hN)
  have hbound := henv x d hd
  have hentries := TokenBucket.entriesIn_writes_le x d
    ((tokenBucketMachine R).trace none (w.callsAt p ScriptRun.call))
  rw [TokenBucket.unitsIn_writes] at hbound
  rw [Machine.map_input_trace, World.callsAt, List.filter_map, List.length_map] at hentries
  have hcalls : (entriesIn luaNow x d (TokenBucket.writes
      ((tokenBucketMachine R).trace none (w.callsAt p ScriptRun.call))) : ℚ) * TokenBucket.ε ≤
      ((w.logAt p).filter fun e => Within luaNow x d e.1.time).length * (5 / 10000000) :=
    mul_le_mul_of_nonneg_right (by exact_mod_cast hentries) (by norm_num [TokenBucket.ε])
  have hle' : (unitsIn (Within luaNow x d) ((w.letThrough p).map Prod.snd) : ℚ) ≤
      unitsIn (Within luaNow x d) (admissions
        ((tokenBucketMachine R).trace none (w.callsAt p ScriptRun.call))) := by
    exact_mod_cast hle
  linarith

/-- The token bucket at one request in two seconds. -/
def tokenBucketServer : Server Bucket :=
  luaServer (text "84b6ee89e76bef33d10d388405e371c4cfd6e434")
    (tokenBucketMachine ⟨1, 2, by decide, by decide⟩) ScriptRun.call

/-- Two workers with one key: what they let through is within the envelope of the token bucket. -/
theorem tokenBucket_limits_all_two_workers :
    let conf := rateLocation tokenBucketServer .tokenBucket 1 2 1
    ∃ w, World.run tokenBucketServer (twoWorkers .tokenBucket conf conf) = some w ∧
      (w.letThrough ⟨0, text "a"⟩).map (fun e => (e.1, e.2.time)) =
        [((1, 0), 1500000), ((0, 0), 1000000)] ∧
      (unitsIn (Within luaNow 1 1) ((w.letThrough ⟨0, text "a"⟩).map Prod.snd) : ℚ) ≤
        Rate.capacity ⟨1, 2, by decide, by decide⟩ 1 +
          Rate.perSecond ⟨1, 2, by decide, by decide⟩ * 1 +
          ((w.logAt ⟨0, text "a"⟩).filter fun e => Within luaNow 1 1 e.1.time).length *
            (5 / 10000000) := by
  intro conf
  have hrun : (World.run tokenBucketServer (twoWorkers .tokenBucket conf conf)).map
      (fun w => (w.letThrough ⟨0, text "a"⟩).map fun e => (e.1, e.2.time)) =
        some [((1, 0), 1500000), ((0, 0), 1000000)] := by
    decide +kernel
  obtain ⟨w, hw, hallowed⟩ := Option.map_eq_some_iff.mp hrun
  have hlua : tokenBucketServer.Interprets (fun _ => True) tokenBucketLua
      (tokenBucketMachine ⟨1, 2, by decide, by decide⟩)
      (Call.argv ⟨1, 2, by decide, by decide⟩) id := luaServer_interprets _ _ _ fun _ _ => rfl
  have hkey : w.Exclusive tokenBucketServer ⟨0, text "a"⟩ .tokenBucket
      (LocConf.HasRate ⟨1, 2, by decide, by decide⟩ (· = 1)) :=
    exclusive_twoWorkers hw nofun ⟨rfl, rfl, by decide⟩ ⟨rfl, rfl, by decide⟩
  exact ⟨w, hw, hallowed, tokenBucket_limits_all hw hlua hkey 1 1 (by norm_num)⟩

end NginxRatelimit
