import NginxRatelimit.Library.Run
import NginxRatelimit.Request.Handler
import NginxRatelimit.Request.Resend

/-!
# One consumption per main request

The phase handler is entered many times for one main request: while its round trip goes on, after
it, by internal redirects that wipe the `ctx`, by subrequests. Three bits keep it from consuming
twice: the `ctx` while there is one, the marker on the main request after a redirect, and the latch
of the `EVAL` fallback. `MainInv` is what they add up to, and `one_consumption` what it means for
the commands.
-/

namespace NginxRatelimit

open Library

/-! ## Events without a `ctx` -/

namespace RoundTrip

/-- `ngx_http_ratelimit_read_header_handler` after the `ctx` was wiped: `process_header` returns
`NGX_ERROR` before it looks at what was received. -/
def readHeaderWiped (io : Io) (r : RoundTrip) : RoundTrip :=
  if io.timedout then r.finalizeUpstreamRequest (.http 504) .timeout
  else if !io.requestSent && io.connectError then
    r.finalizeUpstreamRequest (.http 503) .connectError
  else if r.buffer.isNone && !io.bufferAlloc then
    r.finalizeUpstreamRequest (.http 500) .internal
  else
    let r := { r with buffer := some (r.buffer.getD (.alloc r.conf.bufferSize)) }
    match io.recvs with
    | [] => if io.readEvent then r else r.finalizeUpstreamRequest (.http 500) .internal
    | x :: _ =>
      match r.recv r.room x with
      | (.again, r) => if io.readEvent then r else r.finalizeUpstreamRequest (.http 500) .internal
      | (.zero, r) => r.finalizeUpstreamRequest (.http 502) .eof
      | (.error, r) => r.finalizeUpstreamRequest (.http 502) .recvError
      | (.bytes data, r) =>
        { r with buffer := r.buffer.map fun b : Buf => b.fill data }.finalizeUpstreamRequest
          (.http 500) .refused

/-- An event after the `ctx` was wiped. The body handler reaches the `ctx` by `u->input_filter_ctx`,
and `ngx_http_ratelimit_finalize_request` does nothing. -/
def stepWiped (r : RoundTrip) (e : Event) : RoundTrip :=
  if !r.attached then r
  else
    let next :=
      match r.readHandler, e with
      | .header, .read io => r.readHeaderWiped io
      | _, e => r.step e
    { next with finalized := r.finalized, headersOut := r.headersOut }

end RoundTrip

/-! ## A main request -/

/-- A round trip of a main request. -/
structure Trip where
  /-- The request or subrequest that started it. -/
  owner : ℕ
  /-- A redirect has wiped the `ctx` of the request. -/
  wiped : Bool
  /-- `ctx`, `r->upstream`, and the connection. -/
  roundTrip : RoundTrip
  /-- History: how many commands of the first frame are in front of the script's. -/
  prelude : ℕ
  /-- History: what has arrived on the connection. -/
  arrived : Bytes

/-- A main request with its subrequests. -/
structure MainRequest where
  /-- `r->main->variables[rmcf->done_index].valid`. -/
  done : Bool
  /-- The round trips that were started. -/
  trips : List Trip
  /-- History: the commands that `create_request` has built. -/
  commands : List Command

/-- What happens to a main request. -/
inductive MainEvent where
  /-- The handler is entered for a request or subrequest, in a location. -/
  | pass (id : ℕ) (conf : Option LocConf) (env : Env)
  /-- An internal redirect wipes `r->ctx`. -/
  | redirect (id : ℕ)
  /-- An event on the connection of the `k`th round trip. -/
  | io (k : ℕ) (e : Event)

/-- An event on the connection, and the commands that `create_request` builds in it. -/
def Trip.io (t : Trip) (e : Event) : Trip × List Command :=
  let next := { t with arrived := t.arrived ++ e.bytes }
  if t.wiped then ({ next with roundTrip := t.roundTrip.stepWiped e }, [])
  else ({ next with roundTrip := t.roundTrip.step e }, t.roundTrip.builds e)

/-- An internal redirect of a request or subrequest. -/
def Trip.redirect (id : ℕ) (t : Trip) : Trip :=
  if t.owner = id then { t with wiped := true } else t

namespace MainRequest

/-- A main request at its beginning. -/
def fresh : MainRequest := ⟨false, [], []⟩

/-- `ngx_http_get_module_ctx` of a request or subrequest, with its `r->upstream`. -/
def ctx (m : MainRequest) (id : ℕ) : Option RoundTrip :=
  (m.trips.find? fun t => t.owner = id && !t.wiped).map Trip.roundTrip

/-- The handler is entered. nginx builds the first frame when the round trip starts. -/
def pass (m : MainRequest) (id : ℕ) (conf : Option LocConf) (env : Env) : MainRequest × Option Rc :=
  let result := handler conf env ⟨m.done, m.ctx id⟩
  match m.ctx id, result.2.roundTrip with
  | none, some rt =>
    ({ done := result.2.done
       trips := m.trips ++ [⟨id, false, rt, (buildPrelude rt.conf).length, []⟩]
       commands := m.commands ++ firstFrame rt.conf rt.key }, some result.1)
  | _, _ => ({ m with done := result.2.done }, some result.1)

end MainRequest

/-- The life of a main request, with what the handler returns. -/
def mainMachine : Machine MainRequest MainEvent (Option Rc) where
  step m
    | .pass id conf env => m.pass id conf env
    | .redirect id => ({ m with trips := m.trips.map (Trip.redirect id) }, none)
    | .io k e =>
      match m.trips[k]? with
      | none => (m, none)
      | some t =>
        ({ m with trips := m.trips.set k (t.io e).1, commands := m.commands ++ (t.io e).2 }, none)

/-- `EVALSHA`. -/
def Command.isEvalsha : Command → Bool
  | evalsha _ _ _ => true
  | auth _ | select _ | eval _ _ _ => false

/-- `EVAL`. -/
def Command.isEval : Command → Bool
  | eval _ _ _ => true
  | auth _ | select _ | evalsha _ _ _ => false

/-- Nothing fails in a pass, and the key is neither empty nor too long. -/
structure Env.Starts (env : Env) (conf : LocConf) (key : Bytes) : Prop where
  pass : conf.complexTarget = true ∨ conf.upstream = true
  ctxAlloc : env.ctxAlloc = true
  value : env.key = some key
  key_ne : key ≠ []
  keyAlloc : env.keyAlloc = true
  length : (prefixedKey conf key).length ≤ maxKeyLen
  preludeAlloc : env.preludeAlloc = true
  upstreamCreate : env.upstreamCreate = true
  target : conf.complexTarget = true →
    ∃ name, env.target = some name ∧ name ≠ [] ∧ env.upstreamFound = true

/-! ## Passes of the handler -/

/-- With the marker set, a pass changes nothing. -/
theorem handler_done (conf : Option LocConf) (env : Env) (rt : Option RoundTrip) :
    (handler conf env ⟨true, rt⟩).2 = ⟨true, rt⟩ := by
  unfold handler
  split
  · rfl
  · split
    · rfl
    · cases rt <;> rfl

/-- A pass without a `ctx` changes nothing, sets the marker, or sets it and starts a round trip. -/
theorem handler_fresh (conf : Option LocConf) (env : Env) :
    (handler conf env ⟨false, none⟩).2 = ⟨false, none⟩ ∨
      (handler conf env ⟨false, none⟩).2 = ⟨true, none⟩ ∨
      ∃ conf' key, (handler conf env ⟨false, none⟩).2 = ⟨true, some (.start conf' key)⟩ := by
  unfold handler
  cases conf with
  | none => exact .inl rfl
  | some conf =>
    dsimp only
    -- The failures come before the marker is set or behind it.
    repeat' split
    all_goals first | exact .inl rfl | exact .inr (.inl rfl) | skip
    rename_i k ks _ _ _ _ _
    rcases startRoundTrip_cases conf env (prefixedKey conf (k :: ks)) ⟨true, none⟩ with h | h
    · exact .inr (.inl h)
    · exact .inr (.inr ⟨_, _, h⟩)

/-- A pass with an empty key changes nothing. -/
theorem handler_empty {env : Env} (h : env.key = some []) (conf : Option LocConf) (r : HttpRequest) :
    (handler conf env r).2 = r := by
  unfold handler
  split
  · rfl
  · split
    · rfl
    · split
      · rfl
      · rw [h]
        split
        · rfl
        · split <;> rfl

/-- The first pass with a key. -/
theorem handler_starts {env : Env} {conf : LocConf} {key : Bytes} (h : env.Starts conf key) :
    handler (some conf) env ⟨false, none⟩ =
      (.again, ⟨true, some (.start conf (prefixedKey conf key))⟩) := by
  obtain ⟨k, ks, rfl⟩ := List.exists_cons_of_ne_nil h.key_ne
  have htarget : (!conf.complexTarget && !conf.upstream) = false := by
    rcases h.pass with hpass | hpass <;> simp [hpass]
  have hlength := Nat.not_lt.mpr h.length
  have hgo : startRoundTrip conf env (prefixedKey conf (k :: ks)) ⟨true, none⟩ =
      (.again, ⟨true, some (.start conf (prefixedKey conf (k :: ks)))⟩) := by
    unfold startRoundTrip
    split
    · rename_i hcomplex
      obtain ⟨name, hname, hne, hfound⟩ := h.target hcomplex
      obtain ⟨c, cs, rfl⟩ := List.exists_cons_of_ne_nil hne
      rw [hname]
      dsimp only
      rw [hfound, if_pos rfl]
    · rfl
  simp only [handler, htarget, h.ctxAlloc, h.value, h.keyAlloc, h.preludeAlloc, h.upstreamCreate,
    Bool.not_true, Bool.and_false, Bool.false_eq_true, if_false, if_neg hlength, hgo]

/-! ## The invariant -/

namespace RoundTrip

/-- The invariant does not depend on what `ngx_http_ratelimit_finalize_request` writes. -/
theorem LatchInv.keep {n : ℕ} {arrived : Bytes} {r : RoundTrip} (h : LatchInv n arrived r)
    (finalized : Bool) (headers : List (Header × ℕ)) :
    LatchInv n arrived { r with finalized := finalized, headersOut := headers } := by
  rcases h with h | h | h
  · exact .inl ⟨h.attached, h.readHandler, h.holds⟩
  · exact .inr (.inl ⟨h.attached, h.readHandler, h.writeHandler, h.length, h.latch⟩)
  · exact .inr (.inr ⟨h.attached, h.latch⟩)

/-- Once set, the latch stays set. -/
theorem LatchInv.evalFallback_step {n : ℕ} {arrived : Bytes} {r : RoundTrip}
    (h : LatchInv n arrived r) (hset : r.evalFallback = true) (e : Event) :
    (r.step e).evalFallback = true := by
  have hrules := latchProperty_set.rules
  rcases h with h | h | h
  · have hwaits : LatchWaits (·.evalFallback = true) r := ⟨h.attached, h.readHandler, hset⟩
    cases e with
    | arrive data =>
      rw [step_arrive h.attached]
      exact hset
    | read io => exact evalFallback_of_outcome ((hrules io).read (.inl hwaits))
    | write io => exact evalFallback_of_outcome ((hrules io).write (.inl hwaits))
  · have hreads : LatchReads (· = true) r :=
      ⟨h.attached, h.readHandler, h.writeHandler, h.length, hset⟩
    cases e with
    | arrive data =>
      rw [step_arrive h.attached]
      exact hset
    | read io => exact evalFallback_of_outcome ((hrules io).read (.inr hreads))
    | write io => exact evalFallback_of_outcome ((hrules io).write (.inr hreads))
  · rw [step_detached h.attached]
    exact hset

/-- The header handler without a `ctx` waits, or gives up. -/
theorem readHeaderWiped_spec {n : ℕ} {arrived : Bytes} {r : RoundTrip}
    (h : LatchWaits (Awaits n arrived) r) (io : Io) :
    LatchInv n arrived (r.readHeaderWiped io) ∧
      (r.readHeaderWiped io).evalFallback = r.evalFallback := by
  have hset := h.holds.setByAnswer
  -- Whatever it gives up for, the latch is left as it was.
  have hends : ∀ {q : RoundTrip} {rc : Rc} {why : Exit}, q.attached = true →
      q.evalFallback = r.evalFallback → LatchInv n arrived (q.finalizeUpstreamRequest rc why) ∧
        (q.finalizeUpstreamRequest rc why).evalFallback = r.evalFallback := by
    intro q rc why hattached hlatch
    have hopen : LatchOpen (SetByAnswer n arrived) q := ⟨hattached, by rw [hlatch]; exact hset⟩
    exact ⟨.inr (.inr (hopen.finalize rc why)),
      (finalizeUpstreamRequest_evalFallback q rc why).trans hlatch⟩
  have halloc := (latchProperty_awaits n arrived).rules io |>.alloc h
  unfold readHeaderWiped
  split
  · exact hends h.attached rfl
  · split
    · exact hends h.attached rfl
    · split
      · exact hends h.attached rfl
      · dsimp only
        split
        · split
          · exact ⟨.inl halloc, rfl⟩
          · exact hends halloc.attached rfl
        · split
          · rename_i hx
            rw [recv_again hx]
            split
            · exact ⟨.inl halloc, rfl⟩
            · exact hends halloc.attached rfl
          · rename_i hx
            rw [recv_zero hx]
            exact hends h.attached rfl
          · rename_i hx
            rw [recv_error hx]
            exact hends h.attached rfl
          · rename_i hx
            obtain ⟨rest, -, -, -, rfl⟩ := recv_bytes hx
            exact hends h.attached rfl

/-- Every event without a `ctx` keeps the invariant and the latch. -/
theorem stepWiped_spec {n : ℕ} {arrived : Bytes} {r : RoundTrip} (h : LatchInv n arrived r)
    (e : Event) :
    LatchInv n (arrived ++ e.bytes) (r.stepWiped e) ∧
      (r.evalFallback = true → (r.stepWiped e).evalFallback = true) := by
  have hstep := latchInv_step h e
  have hlatch := fun hset => h.evalFallback_step hset e
  unfold stepWiped
  split
  · rename_i hattached
    rw [Bool.not_eq_true'] at hattached
    rw [step_detached hattached] at hstep
    exact ⟨hstep, fun hset => hset⟩
  · rename_i hattached
    rw [Bool.not_eq_true', Bool.not_eq_false] at hattached
    dsimp only
    split
    · rename_i io hhandler
      -- Only a waiting round trip has this handler.
      rcases h with h | h | h
      · obtain ⟨hinv, hkeep⟩ := readHeaderWiped_spec h io
        rw [Event.bytes, List.append_nil]
        exact ⟨hinv.keep _ _, hkeep.trans⟩
      · exact absurd (h.readHandler.symm.trans hhandler) (by decide)
      · exact absurd (h.attached.symm.trans hattached) (by decide)
    · exact ⟨hstep.keep _ _, hlatch⟩

end RoundTrip

/-- The invariant of a main request: no round trip was started, or one was, behind the marker.
`EVAL` was built for it at most once, and then its latch is set. -/
inductive MainInv : MainRequest → Prop
  | idle (done : Bool) : MainInv ⟨done, [], []⟩
  | started (t : Trip) (conf : LocConf) (key : Bytes) (evals : List Command)
      (htrip : t.roundTrip.LatchInv t.prelude t.arrived)
      (hevals : evals = [] ∨
        (∃ body key args, evals = [.eval body key args]) ∧ t.roundTrip.evalFallback = true) :
      MainInv ⟨true, [t], firstFrame conf key ++ evals⟩

/-- An event on the connection keeps what the invariant says of the round trip. -/
theorem Trip.io_spec {t : Trip} (htrip : t.roundTrip.LatchInv t.prelude t.arrived)
    {evals : List Command} (hevals : evals = [] ∨
      (∃ body key args, evals = [.eval body key args]) ∧ t.roundTrip.evalFallback = true) (e : Event) :
    (t.io e).1.roundTrip.LatchInv (t.io e).1.prelude (t.io e).1.arrived ∧
      (evals ++ (t.io e).2 = [] ∨
        (∃ body key args, evals ++ (t.io e).2 = [.eval body key args]) ∧
          (t.io e).1.roundTrip.evalFallback = true) := by
  unfold Trip.io
  dsimp only
  split
  · obtain ⟨hinv, hlatch⟩ := RoundTrip.stepWiped_spec htrip e
    refine ⟨hinv, ?_⟩
    rw [List.append_nil]
    exact hevals.imp_right fun ⟨heval, hset⟩ => ⟨heval, hlatch hset⟩
  · refine ⟨RoundTrip.latchInv_step htrip e, ?_⟩
    rcases t.roundTrip.builds_cases e with hnone | ⟨hbuilt, hfirst, hset⟩
    · rw [hnone, List.append_nil]
      exact hevals.imp_right fun ⟨heval, hset⟩ => ⟨heval, htrip.evalFallback_step hset e⟩
    · -- The latch was not set yet, so nothing was built before.
      rcases hevals with rfl | ⟨-, hlatch⟩
      · exact .inr ⟨hbuilt, hset⟩
      · exact absurd (hfirst.symm.trans hlatch) (by decide)

namespace MainRequest

/-- A pass that changes nothing of what the handler sees leaves the main request as it was. -/
theorem pass_keep {m : MainRequest} {id : ℕ} {conf : Option LocConf} {env : Env}
    (h : (handler conf env ⟨m.done, m.ctx id⟩).2 = ⟨m.done, m.ctx id⟩) :
    (m.pass id conf env).1 = m := by
  unfold pass
  dsimp only
  rw [h]
  split
  · rename_i hnone hsome
    exact absurd (hnone.symm.trans hsome) (by simp)
  · rfl

/-- A pass that starts a round trip. -/
theorem pass_start {m : MainRequest} {id : ℕ} {conf : Option LocConf} {env : Env} {rc : Rc}
    {rt : RoundTrip} (hctx : m.ctx id = none)
    (h : handler conf env ⟨m.done, none⟩ = (rc, ⟨true, some rt⟩)) :
    m.pass id conf env =
      ({ done := true
         trips := m.trips ++ [⟨id, false, rt, (buildPrelude rt.conf).length, []⟩]
         commands := m.commands ++ firstFrame rt.conf rt.key }, some rc) := by
  simp only [pass, hctx, h]

end MainRequest

/-- A pass builds the first frame of the round trip that it starts, and nothing else. -/
theorem MainRequest.pass_created (m : MainRequest) (id : ℕ) (conf : Option LocConf) (env : Env) :
    (m.pass id conf env).1.commands = m.commands ∨
      ∃ conf' key, (m.pass id conf env).1.commands = m.commands ++ firstFrame conf' key ∧
        ∃ t ∈ (m.pass id conf env).1.trips, t.roundTrip = .start conf' key := by
  cases hctx : m.ctx id with
  | some rt =>
    left
    unfold MainRequest.pass
    simp only [hctx]
  | none =>
    cases hdone : m.done with
    | true =>
      left
      have hkeep := handler_done conf env none
      rw [MainRequest.pass_keep (by rw [hdone, hctx]; exact hkeep)]
    | false =>
      rcases handler_fresh conf env with hkeep | hmark | ⟨conf', key, hstart⟩
      · left
        rw [MainRequest.pass_keep (by rw [hdone, hctx]; exact hkeep)]
      · left
        simp only [MainRequest.pass, hctx, hdone, hmark]
      · right
        rw [MainRequest.pass_start hctx (by rw [hdone]; exact Prod.ext rfl hstart)]
        exact ⟨conf', key, rfl, _, List.mem_append_right _ (List.mem_singleton_self _), rfl⟩

/-- The commands of a main request are those of `create_request`: what a step adds to them is what
`create_request` puts into the `request_bufs` of the round trip that is started, or, called as the
fallback, into those of the round trip whose event it is. -/
theorem commands_created (m : MainRequest) (e : MainEvent) :
    ∃ cmds, (mainMachine.step m e).1.commands = m.commands ++ cmds ∧
      (cmds = [] ∨
        (∃ t ∈ (mainMachine.step m e).1.trips,
          RoundTrip.createRequest (.good [] []) t.roundTrip = (.ok, t.roundTrip) ∧
            t.roundTrip.requestBufs = cmds.map fun cmd => buildCommand cmd.argv) ∨
        ∃ k io t, e = .io k (.read io) ∧ m.trips[k]? = some t ∧ t.roundTrip.Creates io cmds) := by
  cases e with
  | pass id conf env =>
    rcases m.pass_created id conf env with hkeep | ⟨conf', key, hcommands, t, ht, hstart⟩
    · exact ⟨[], by rw [List.append_nil]; exact hkeep, .inl rfl⟩
    · refine ⟨firstFrame conf' key, hcommands, .inr (.inl ⟨t, ht, ?_, by rw [hstart]; rfl⟩)⟩
      rw [hstart]
      exact RoundTrip.createRequest_start rfl conf' key
  | redirect id => exact ⟨[], (List.append_nil _).symm, .inl rfl⟩
  | io k e =>
    cases ht : m.trips[k]? with
    | none => exact ⟨[], by simp [mainMachine, ht], .inl rfl⟩
    | some t =>
      refine ⟨(t.io e).2, by simp [mainMachine, ht], ?_⟩
      unfold Trip.io
      dsimp only
      split
      · exact .inl rfl
      · rcases t.roundTrip.builds_created e with hnone | ⟨io, rfl, hcreates⟩
        · exact .inl hnone
        · exact .inr (.inr ⟨k, io, t, rfl, ht, hcreates⟩)

/-- A pass keeps the invariant. -/
theorem MainInv.pass {m : MainRequest} (h : MainInv m) (id : ℕ) (conf : Option LocConf) (env : Env) :
    MainInv (m.pass id conf env).1 := by
  by_cases hdone : m.done = true
  · -- The marker outlives the `ctx`.
    have hkeep : (m.pass id conf env).1 = m := by
      apply MainRequest.pass_keep
      rw [hdone]
      exact handler_done conf env (m.ctx id)
    rw [hkeep]
    exact h
  · cases h with
    | started t conf' key evals htrip hevals => exact absurd rfl hdone
    | idle done =>
      obtain rfl : done = false := Bool.eq_false_iff.mpr hdone
      have hctx : MainRequest.ctx ⟨false, [], []⟩ id = none := rfl
      rcases handler_fresh conf env with hkeep | hmark | ⟨conf', key, hstart⟩
      · rw [MainRequest.pass_keep hkeep]
        exact .idle false
      · simp only [MainRequest.pass, hctx, hmark]
        exact .idle true
      · rw [MainRequest.pass_start hctx (Prod.ext rfl hstart)]
        have hinv := MainInv.started ⟨id, false, .start conf' key, (buildPrelude conf').length, []⟩
          conf' key [] (RoundTrip.latchInv_start conf' key) (.inl rfl)
        rw [List.append_nil] at hinv
        exact hinv

/-- Every event keeps the invariant. -/
theorem mainInv_step {m : MainRequest} (h : MainInv m) (e : MainEvent) :
    MainInv (mainMachine.step m e).1 := by
  cases e with
  | pass id conf env => exact h.pass id conf env
  | redirect id =>
    cases h with
    | idle done => exact .idle done
    | started t conf key evals htrip hevals =>
      refine .started _ conf key evals ?_ ?_
      · unfold Trip.redirect
        split <;> exact htrip
      · unfold Trip.redirect
        split <;> exact hevals
  -- There is one round trip at most, so an event is on it or on none.
  | io k e =>
    cases h with
    | idle done => exact .idle done
    | started t conf key evals htrip hevals =>
      cases k with
      | zero =>
        obtain ⟨hinv, hbuilt⟩ := Trip.io_spec htrip hevals e
        have hnext := MainInv.started (t.io e).1 conf key (evals ++ (t.io e).2) hinv hbuilt
        rw [← List.append_assoc] at hnext
        exact hnext
      | succ k => exact .started t conf key evals htrip hevals

/-- It holds after every run. -/
theorem mainInv_after (events : List MainEvent) : MainInv (mainMachine.after .fresh events) :=
  mainMachine.after_induction (P := MainInv) (.idle false) (fun _ e h => mainInv_step h e) events

/-! ## What the peer gets -/

/-- No command is both. -/
theorem Command.isEval_ne_true {c : Command} (h : c.isEvalsha = true) : c.isEval ≠ true := by
  cases c with
  | evalsha sha key args => exact Bool.false_ne_true
  | auth password => cases h
  | select database => cases h
  | eval body key args => cases h

/-- The prelude has no script. -/
theorem countP_buildPrelude {p : Command → Bool} (hauth : ∀ password, p (.auth password) = false)
    (hselect : ∀ database, p (.select database) = false) (conf : LocConf) :
    (buildPrelude conf).countP p = 0 := by
  unfold buildPrelude
  split <;> split <;> simp [hauth, hselect]

/-- The first frame has one. -/
theorem countP_firstFrame {p : Command → Bool} (hauth : ∀ password, p (.auth password) = false)
    (hselect : ∀ database, p (.select database) = false) (conf : LocConf) (key : Bytes) :
    (firstFrame conf key).countP p = if p (scriptCommand conf key false) then 1 else 0 := by
  rw [firstFrame, List.countP_append, countP_buildPrelude hauth hselect, List.countP_singleton,
    Nat.zero_add]

namespace MainInv

variable {m : MainRequest}

/-- The commands that were built: a first frame, and behind a `NOSCRIPT` answer `EVAL`. -/
theorem commands_cases (h : MainInv m) :
    m.commands = [] ∨ ∃ conf key, m.commands = firstFrame conf key ∨
      ∃ body key' args, m.commands = firstFrame conf key ++ [.eval body key' args] ∧
        ∃ t ∈ m.trips, NoScriptAnswer t.prelude t.arrived := by
  cases h with
  | idle done => exact .inl rfl
  | started t conf key evals htrip hevals =>
    refine .inr ⟨conf, key, ?_⟩
    rcases hevals with rfl | ⟨⟨body, key', args, rfl⟩, hset⟩
    · exact .inl (List.append_nil _)
    · exact .inr ⟨body, key', args, rfl, t, List.mem_singleton_self t, htrip.setByAnswer hset⟩

/-- One round trip. -/
theorem length_trips (h : MainInv m) : m.trips.length ≤ 1 := by
  cases h with
  | idle done => exact Nat.zero_le 1
  | started t conf key evals htrip hevals => exact le_refl 1

/-- One command has a property that the two scripts of the fallback do not share. -/
theorem countP_le_one (h : MainInv m) {p : Command → Bool}
    (hauth : ∀ password, p (.auth password) = false)
    (hselect : ∀ database, p (.select database) = false)
    (honce : (∃ t ∈ m.trips, NoScriptAnswer t.prelude t.arrived) → ∀ c ∈ m.commands, ∀ c' ∈ m.commands,
      c.isEvalsha = true → c'.isEval = true → p c = false ∨ p c' = false) :
    m.commands.countP p ≤ 1 := by
  have hfirst := countP_firstFrame hauth hselect
  rcases h.commands_cases with hnone | ⟨conf, key, hone | ⟨body, key', args, htwo, hanswer⟩⟩
  · rw [hnone]
    exact Nat.zero_le 1
  · rw [hone, hfirst]
    split <;> omega
  · -- Both scripts were sent, so one of the two has not the property.
    have hsha : scriptCommand conf key false ∈ m.commands := by
      rw [htwo]
      simp [firstFrame]
    have heval : .eval body key' args ∈ m.commands := by
      rw [htwo]
      simp
    have hnot := honce hanswer _ hsha _ heval rfl rfl
    rw [htwo, List.countP_append, hfirst, List.countP_singleton]
    rcases hnot with hnot | hnot
    · rw [hnot, if_neg Bool.false_ne_true]
      split <;> omega
    · rw [hnot, if_neg Bool.false_ne_true]
      split <;> omega

/-- One `EVALSHA`. -/
theorem countP_evalsha (h : MainInv m) : m.commands.countP Command.isEvalsha ≤ 1 := by
  apply h.countP_le_one (fun _ => rfl) (fun _ => rfl)
  intro _ c _ c' _ _ heval
  exact .inr (Bool.eq_false_iff.mpr fun hsha => Command.isEval_ne_true hsha heval)

/-- One `EVAL`. -/
theorem countP_eval (h : MainInv m) : m.commands.countP Command.isEval ≤ 1 := by
  apply h.countP_le_one (fun _ => rfl) (fun _ => rfl)
  intro _ c _ c' _ hsha _
  exact .inl (Bool.eq_false_iff.mpr (Command.isEval_ne_true hsha))

/-- One script is run, if the peer runs none for a command that it answers with `NOSCRIPT`. -/
theorem countP_runs (h : MainInv m) {runs : Command → Bool}
    (hpeer : (∃ t ∈ m.trips, NoScriptAnswer t.prelude t.arrived) →
      ∀ c ∈ m.commands, c.isEvalsha = true → runs c = false) :
    m.commands.countP (fun c => (c.isEvalsha || c.isEval) && runs c) ≤ 1 := by
  apply h.countP_le_one (fun _ => rfl) (fun _ => rfl)
  intro hanswer c hc c' _ hsha _
  have hnot := hpeer hanswer c hc hsha
  exact .inl (by rw [hnot, Bool.and_false])

/-- `EVAL` is built behind a `NOSCRIPT` answer. -/
theorem noScriptAnswer (h : MainInv m) (heval : ∃ c ∈ m.commands, c.isEval = true) :
    ∃ t ∈ m.trips, NoScriptAnswer t.prelude t.arrived := by
  have hfirst := countP_firstFrame (p := Command.isEval) (fun _ => rfl) (fun _ => rfl)
  rcases h.commands_cases with hnone | ⟨conf, key, hone | ⟨body, key', args, -, hanswer⟩⟩
  · obtain ⟨c, hc, -⟩ := heval
    rw [hnone] at hc
    cases hc
  · have hcount := List.countP_pos_iff.mpr heval
    rw [hone, hfirst] at hcount
    cases hcount
  · exact hanswer

/-- Without the marker, a pass with a key starts the round trip. -/
theorem pass_starts (h : MainInv m) (hdone : m.done = false) {env : Env} {conf : LocConf}
    {key : Bytes} (hstarts : env.Starts conf key) (id : ℕ) :
    m.pass id (some conf) env =
      ({ done := true
         trips := [⟨id, false, .start conf (prefixedKey conf key), (buildPrelude conf).length, []⟩]
         commands := firstFrame conf (prefixedKey conf key) }, some .again) := by
  cases h with
  | started t conf key evals htrip hevals => cases hdone
  | idle done =>
    obtain rfl : done = false := hdone
    exact MainRequest.pass_start rfl (handler_starts hstarts)

end MainInv

/-- A main request consumes once. In every run there is at most one round trip, at most one
`EVALSHA`, and at most one `EVAL`, which is behind a `NOSCRIPT` answer; so when the peer runs no
script for a command that it answers so, at most one command runs a script. A pass with an empty key
changes nothing, and as long as the marker is not set a pass with a key starts the round trip. -/
theorem one_consumption (events : List MainEvent) :
    let m := mainMachine.after .fresh events
    m.trips.length ≤ 1 ∧ m.commands.countP Command.isEvalsha ≤ 1 ∧
      m.commands.countP Command.isEval ≤ 1 ∧
      ((∃ c ∈ m.commands, c.isEval = true) → ∃ t ∈ m.trips, NoScriptAnswer t.prelude t.arrived) ∧
      (∀ runs : Command → Bool,
        ((∃ t ∈ m.trips, NoScriptAnswer t.prelude t.arrived) →
          ∀ c ∈ m.commands, c.isEvalsha = true → runs c = false) →
        m.commands.countP (fun c => (c.isEvalsha || c.isEval) && runs c) ≤ 1) ∧
      (∀ id conf env, env.key = some [] → (mainMachine.step m (.pass id conf env)).1 = m) ∧
      ∀ id conf env key, m.done = false → env.Starts conf key →
        mainMachine.step m (.pass id (some conf) env) =
          ({ done := true
             trips := [⟨id, false, .start conf (prefixedKey conf key), (buildPrelude conf).length, []⟩]
             commands := firstFrame conf (prefixedKey conf key) }, some .again) := by
  intro m
  have hinv : MainInv m := mainInv_after events
  refine ⟨hinv.length_trips, hinv.countP_evalsha, hinv.countP_eval, hinv.noScriptAnswer, ?_, ?_, ?_⟩
  · intro runs hpeer
    exact hinv.countP_runs hpeer
  · intro id conf env hempty
    exact MainRequest.pass_keep (handler_empty hempty conf _)
  · intro id conf env key hdone hstarts
    exact hinv.pass_starts hdone hstarts id

/-- A pass without a key, one with a key that falls back to `EVAL`, and two that come too late. -/
theorem one_consumption_noScript :
    let conf := { LocConf.ofZone ⟨.gcra, 5, 60, 0, ⟨[], []⟩⟩ (fun _ => ⟨[], []⟩) with
      password := text "secret" }
    let m := mainMachine.after .fresh
      [.pass 0 (some conf) (.good []), .pass 0 (some conf) (.good (text "10.0.0.1")),
        .io 0 (.arrive (text "+OK\r\n-NOSCRIPT No matching script.\r\n")),
        .io 0 (.read (Io.good [.data 4096] [])), .redirect 0,
        .pass 0 (some conf) (.good (text "10.0.0.1")), .pass 1 (some conf) (.good (text "10.0.0.2"))]
    (∃ t ∈ m.trips, NoScriptAnswer t.prelude t.arrived) ∧
      m.commands.countP (fun c => (c.isEvalsha || c.isEval) && c.isEval) = 1 := by
  intro conf m
  obtain ⟨-, -, -, hanswer, hruns, -, -⟩ := one_consumption
    [.pass 0 (some conf) (.good []), .pass 0 (some conf) (.good (text "10.0.0.1")),
      .io 0 (.arrive (text "+OK\r\n-NOSCRIPT No matching script.\r\n")),
      .io 0 (.read (Io.good [.data 4096] [])), .redirect 0,
      .pass 0 (some conf) (.good (text "10.0.0.1")), .pass 1 (some conf) (.good (text "10.0.0.2"))]
  refine ⟨hanswer (by decide +kernel), le_antisymm (hruns Command.isEval ?_) (by decide +kernel)⟩
  intro _ c _ hsha
  exact Bool.eq_false_iff.mpr (Command.isEval_ne_true hsha)

end NginxRatelimit
