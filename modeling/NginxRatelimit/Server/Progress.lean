import Mathlib.Data.Prod.Lex
import NginxRatelimit.Library.Progress
import NginxRatelimit.Pool.Progress
import NginxRatelimit.Server.Own

/-!
# No request is left behind

In every run a request in flight waits for something that is there (`no_lost_wakeup`). So from every
state that a run can reach, each request whose buffer has room can be brought to its end by events of
its own connection in which nothing fails, whatever the other connections are doing
(`in_flight_can_end`): an event that is waited for ends it or leaves less to do
(`World.exists_nearer`).
-/

namespace NginxRatelimit

open Library Resp RoundTrip

namespace Conn

variable {c c' : Conn}

/-! ## What is left to do -/

/-- What the `EVAL` costs: it may have to be sent, and answered. -/
def evalWork (evalFallback evalSent : Bool) : ℕ :=
  if evalFallback then if evalSent then 0 else 2 else 3

/-- The commands that are to be sent and answered. -/
def work (c : Conn) : ℕ :=
  match c.holder with
  | .busy frame evalSent r =>
    2 * frame.length + c.queue.length + evalWork r.evalFallback evalSent
  | .closed | .idle _ => 0

/-- The bytes that are to be read. -/
def unread (c : Conn) : ℕ :=
  match c.holder with
  | .busy _ _ r => r.sock.length
  | .closed | .idle _ => 0

/-- First commands count, and then bytes. -/
def rank (c : Conn) : ℕ ×ₗ ℕ := toLex (c.work, c.unread)

/-- The request has the connection, and room in its buffer. -/
def InFlight (c : Conn) (sender : Sender) : Prop :=
  c.sender = sender ∧ ∃ frame evalSent r, c.holder = .busy frame evalSent r ∧ ¬ Stalled r

/-- Fewer commands to go are nearer, whatever there is to read. -/
theorem rank_lt_of_work (h : c'.work < c.work) : c'.rank < c.rank :=
  Prod.Lex.toLex_lt_toLex.mpr (.inl h)

/-- With no more commands to go, fewer bytes to read are. -/
theorem rank_lt_of_unread (hwork : c'.work ≤ c.work) (h : c'.unread < c.unread) :
    c'.rank < c.rank := by
  rcases hwork.lt_or_eq with hlt | heq
  · exact rank_lt_of_work hlt
  · exact Prod.Lex.toLex_lt_toLex.mpr (.inr ⟨heq, h⟩)

variable {frame : List Command} {evalSent : Bool} {r r' : RoundTrip}

/-- What is to be done on a connection in use. -/
theorem work_of_busy (h : c.holder = .busy frame evalSent r) :
    c.work = 2 * frame.length + c.queue.length + evalWork r.evalFallback evalSent := by
  rw [work, h]

/-- And what is to be read on it. -/
theorem unread_of_busy (h : c.holder = .busy frame evalSent r) : c.unread = r.sock.length := by
  rw [unread, h]

/-- A read or write event leaves no more to do, and less when the `EVAL` is sent. -/
theorem work_settle (hbusy : c.holder = .busy frame evalSent r) (pool : Bool)
    (hattached : r'.attached = true) (hlatch : r.evalFallback = true → r'.evalFallback = true) :
    (c.settle frame evalSent pool r').work ≤ c.work ∧
      ((r'.evalFallback && !evalSent && drained r') = true →
        (c.settle frame evalSent pool r').work < c.work) := by
  have hwork := work_of_busy hbusy
  have hafter : (c.settle frame evalSent pool r').work = 2 * frame.length +
      (c.queue ++ c.evalOf evalSent r').length +
        evalWork r'.evalFallback (evalSent || c.evalOf evalSent r' ≠ []) := by
    unfold settle
    dsimp only
    rw [if_pos hattached]
    rfl
  rw [hafter, hwork, List.length_append]
  unfold evalOf
  cases hcond : r'.evalFallback && !evalSent && drained r' with
  | true =>
    rw [Bool.and_eq_true, Bool.and_eq_true, Bool.not_eq_true'] at hcond
    obtain ⟨⟨hset, hnot⟩, -⟩ := hcond
    have hbefore : 2 ≤ evalWork r.evalFallback evalSent := by
      rw [hnot]
      cases r.evalFallback <;> decide
    have hnow : evalWork r'.evalFallback (evalSent || decide ([(⟨c.sender,
        scriptCommand r'.conf r'.key true⟩ : Sent)] ≠ [])) = 0 := by
      rw [hset, hnot]
      rfl
    simp only [if_true, List.length_singleton, hnow]
    omega
  | false =>
    refine ⟨?_, fun h => absurd h Bool.false_ne_true⟩
    have hle : evalWork r'.evalFallback evalSent ≤ evalWork r.evalFallback evalSent := by
      cases hfallback : r.evalFallback with
      | true => rw [hlatch hfallback]
      | false => cases r'.evalFallback <;> cases evalSent <;> decide
    simp only [Bool.false_eq_true, if_false, List.length_nil, ne_eq, not_true, decide_false,
      Bool.or_false]
    omega

/-- What a read or write event leaves of a round trip that goes on. -/
theorem inFlight_settle (pool : Bool) (hattached : r'.attached = true) (hroom : ¬ Stalled r') :
    (c.settle frame evalSent pool r').InFlight c.sender ∧
      (c.settle frame evalSent pool r').unread = r'.sock.length := by
  unfold settle
  dsimp only
  rw [if_pos hattached]
  exact ⟨⟨rfl, _, _, _, rfl, hroom⟩, rfl⟩

end Conn

/-! ## Events that bring the end nearer -/

variable {V : Type} {S : Server V} {w w' : World V} {events : List (WorldEvent V)}

/-- Events of one connection in which nothing fails: a command is sent, the server executes one, and
nginx reads or writes. -/
inductive Ordinary (i : ℕ) : WorldEvent V → Prop where
  | flush : Ordinary i (.on i .flush)
  | serve (now : ℕ) : Ordinary i (.serve i now)
  | read (n : ℕ) (pool : Bool) : Ordinary i (.on i (.read (.good [.data n] []) pool))
  | write (n : ℕ) (pool : Bool) : Ordinary i (.on i (.write (.good [] [.sent n]) pool))

/-- The request was answered, or has failed. -/
def World.HasEnded (w : World V) (i : ℕ) (sender : Sender) : Prop :=
  ∃ d ∈ w.done, d.conn = i ∧ d.sender = sender

/-- The request is in flight after a run. -/
def World.Flying (S : Server V) (w : World V) (i : ℕ) (sender : Sender) : Prop :=
  (∃ events, World.run S events = some w) ∧ ∃ c, w.conns[i]? = some c ∧ c.InFlight sender

/-- What the request has still to do. -/
def World.rankAt (w : World V) (i : ℕ) : ℕ ×ₗ ℕ := (w.conns[i]?.map Conn.rank).getD (toLex (0, 0))

/-- The rank of a connection by its number. -/
theorem World.rankAt_eq {i : ℕ} {c : Conn} (h : w.conns[i]? = some c) : w.rankAt i = c.rank := by
  rw [rankAt, h]
  rfl

/-- An event of nginx that ends the request, or leaves less to do. -/
theorem World.nearer_on (h : World.run S events = some w) {i : ℕ} {c c' : Conn}
    (hc : w.conns[i]? = some c) {e : ConnEvent} (hanswer : e.isAnswer = false)
    (hc' : c.step e = some c')
    (hnear : (c.finished e).isSome ∨ c'.InFlight c.sender ∧ c'.rank < c.rank) :
    ∃ w', w.step S (.on i e) = some w' ∧
      (w'.HasEnded i c.sender ∨ w'.Flying S i c.sender ∧ w'.rankAt i < w.rankAt i) := by
  refine ⟨{ w with
    conns := w.conns.set i c'
    done := w.done ++ (c.finished e).toList.map (⟨i, c.sender, ·⟩) }, ?_, ?_⟩
  · simp [World.step, hanswer, hc, hc']
  · have hi : i < w.conns.length := (List.getElem?_eq_some_iff.mp hc).1
    rcases hnear with hfinished | ⟨hflight, hlt⟩
    · obtain ⟨r, hr⟩ := Option.isSome_iff_exists.mp hfinished
      refine .inl ⟨⟨i, c.sender, r⟩, ?_, rfl, rfl⟩
      rw [hr]
      simp
    · have hget : (w.conns.set i c')[i]? = some c' := by simp [hi]
      refine .inr ⟨⟨⟨events ++ [.on i e], ?_⟩, c', hget, hflight⟩, ?_⟩
      · rw [World.run, List.foldlM_append]
        rw [World.run] at h
        simp [h, World.step, hanswer, hc, hc']
      · rw [rankAt_eq hget, rankAt_eq hc]
        exact hlt

/-- An answer leaves a command less. -/
theorem Conn.answered {c : Conn} (hflight : c.InFlight c.sender) {x : Sent} {queue : List Sent}
    (hqueue : c.queue = x :: queue) {v : Resp} (hv : Answers x.cmd v) :
    ∃ c', c.answer v = some c' ∧ c'.InFlight c.sender ∧ c'.rank < c.rank := by
  obtain ⟨-, frame, evalSent, r, hbusy, hroom⟩ := hflight
  have hc' : c.answer v = some { c with
      queue := queue
      session := c.session.exec x.cmd v
      holder := .busy frame evalSent (r.step (.arrive (encode v)))
      answers := c.answers ++ [⟨x.sender.use, x.cmd, v⟩]
      executed := if x.cmd.IsPrelude then c.executed else
        c.executed ++ [⟨x.sender, x.cmd, answersOf c.answers x.sender.use, c.session⟩] } := by
    unfold answer
    rw [hqueue, hbusy]
    exact if_pos hv
  refine ⟨_, hc', ⟨rfl, _, _, _, rfl, ?_⟩, rank_lt_of_work ?_⟩
  · -- Bytes that arrive take no room in the buffer.
    unfold RoundTrip.step
    split
    · exact hroom
    · exact hroom
  · have hlatch : (r.step (.arrive (encode v))).evalFallback = r.evalFallback := by
      unfold RoundTrip.step
      split <;> rfl
    rw [work_of_busy hbusy, work, hqueue, List.length_cons]
    dsimp only
    rw [hlatch]
    omega

/-- The server executes a command of the request. -/
theorem World.nearer_serve (h : World.run S events = some w) {i : ℕ} {c : Conn}
    (hc : w.conns[i]? = some c) (hflight : c.InFlight c.sender) (hqueue : c.queue ≠ []) :
    ∃ w', w.step S (.serve i 0) = some w' ∧ w'.Flying S i c.sender ∧ w'.rankAt i < w.rankAt i := by
  obtain ⟨x, queue, hx⟩ := List.exists_cons_of_ne_nil hqueue
  have hanswers : Answers x.cmd (S.exec w.redis c.session 0 x.cmd).2 := Server.exec_answers
  obtain ⟨c', hc', hflight', hlt⟩ := Conn.answered hflight hx hanswers
  have hi : i < w.conns.length := (List.getElem?_eq_some_iff.mp hc).1
  have hget : (w.conns.set i c')[i]? = some c' := by simp [hi]
  have hstep : w.step S (.serve i 0) = some { w with
      conns := w.conns.set i c'
      redis := (S.exec w.redis c.session 0 x.cmd).1
      served := w.served ++ [⟨i, x.sender, x.cmd, (S.exec w.redis c.session 0 x.cmd).2,
        S.runOf w.redis c.session 0 x.cmd⟩] } := by
    simp [World.step, hc, hx, hc']
  refine ⟨_, hstep, ⟨⟨events ++ [.serve i 0], ?_⟩, c', hget, hflight'⟩, ?_⟩
  · rw [World.run] at h ⊢
    rw [List.foldlM_append, h]
    simp [hstep]
  · rw [rankAt_eq hget, rankAt_eq hc]
    exact hlt

/-- As long as a request is in flight, an ordinary event ends it or leaves less to do. -/
theorem World.exists_nearer {i : ℕ} {sender : Sender} (hsize : 1 ≤ sender.conf.bufferSize)
    (h : w.Flying S i sender) : ∃ e w', Ordinary i e ∧ w.step S e = some w' ∧
      (w'.HasEnded i sender ∨ w'.Flying S i sender ∧ w'.rankAt i < w.rankAt i) := by
  obtain ⟨⟨events, hrun⟩, c, hc, hflight⟩ := h
  obtain rfl : c.sender = sender := hflight.1
  obtain ⟨-, frame, evalSent, r, hbusy, hroom⟩ := hflight
  obtain ⟨es, hes⟩ := World.exists_pool hrun
  obtain ⟨hinv, hruns⟩ := Conn.runs_of_pool hes c (List.mem_of_getElem? hc)
  obtain ⟨⟨tripEvents, htrip⟩, -⟩ := hruns _ _ _ hbusy
  have hfinished : ∀ {r' : RoundTrip}, r'.attached = false →
      ((some r').filter fun r => !r.attached).isSome := by
    intro r' hdetached
    simp [Option.filter, hdetached]
  cases Conn.waits_for_something hinv hruns hbusy with
  | flush hframe =>
    obtain ⟨cmd, rest, rfl⟩ := List.exists_cons_of_ne_nil hframe
    have hstep : c.step .flush = some { c with
        queue := c.queue ++ [⟨c.sender, cmd⟩]
        holder := .busy rest evalSent r } := by
      simp only [Conn.step, hbusy]
    obtain ⟨w', hw', hnear⟩ := World.nearer_on hrun hc rfl hstep (.inr ⟨⟨rfl, _, _, _, rfl, hroom⟩,
      Conn.rank_lt_of_work (by
        rw [Conn.work_of_busy hbusy, Conn.work, List.length_append, List.length_singleton,
          List.length_cons]
        dsimp only
        omega)⟩)
    exact ⟨_, w', .flush, hw', hnear⟩
  | answer hqueue =>
    obtain ⟨w', hw', hnear⟩ := World.nearer_serve hrun hc ⟨rfl, _, _, _, hbusy, hroom⟩ hqueue
    exact ⟨_, w', .serve 0, hw', .inr hnear⟩
  | read hsock =>
    obtain ⟨hroom', hless, hlatch⟩ := run_oneByte tripEvents htrip hsize hroom hsock
    have hstep : c.step (.read oneByte true) =
        some (c.settle frame evalSent true (r.step (.read oneByte))) := by
      simp only [Conn.step, hbusy]
    have hnear : (c.finished (.read oneByte true)).isSome ∨
        (c.settle frame evalSent true (r.step (.read oneByte))).InFlight c.sender ∧
          (c.settle frame evalSent true (r.step (.read oneByte))).rank < c.rank := by
      cases hattached : (r.step (.read oneByte)).attached with
      | false =>
        left
        rw [Conn.finished, Conn.trip_of_busy hbusy, Option.map_some]
        exact hfinished hattached
      | true =>
        obtain ⟨hflight, hunread⟩ : (c.settle frame evalSent true
              (r.step (.read oneByte))).InFlight c.sender ∧
            (c.settle frame evalSent true (r.step (.read oneByte))).unread =
              (r.step (.read oneByte)).sock.length :=
          Conn.inFlight_settle true hattached hroom'
        refine .inr ⟨hflight, Conn.rank_lt_of_unread
          (Conn.work_settle hbusy true hattached hlatch).1 ?_⟩
        rw [hunread, Conn.unread_of_busy hbusy]
        exact hless hattached
    obtain ⟨w', hw', hnear⟩ := World.nearer_on hrun hc rfl hstep hnear
    exact ⟨_, w', .read 1 true, hw', hnear⟩
  | write left hleft hqueued hsent =>
    subst hsent
    -- The socket takes all that is left of the `EVAL`.
    have hend : sendEnd [.sent left.length] left = .sent := by
      obtain ⟨ch, b, rfl⟩ := List.exists_cons_of_ne_nil hleft
      rw [sendEnd, List.drop_length, sendEnd]
    have hnone : unsent [.sent left.length] left = [] := by
      rw [unsent_sent, List.drop_length, unsent_nil]
    have hio : (Io.good [] [.sent left.length]).timedout = false := rfl
    have hsent := (hqueued.write hleft hio).1 (by rw [Io.good, hend, sendRc])
    rw [show (Io.good [] [.sent left.length]).sends = [.sent left.length] from rfl, hnone] at hsent
    have hroom' := (step_stalled_iff (htrip ▸ goes_run _ _ tripEvents) hsize hroom
      (.write (.good [] [.sent left.length]))).not.mpr Bool.false_ne_true
    have hstep : c.step (.write (.good [] [.sent left.length]) true) =
        some (c.settle frame false true (r.step (.write (.good [] [.sent left.length])))) := by
      simp only [Conn.step, hbusy]
    obtain ⟨w', hw', hnear⟩ := World.nearer_on hrun hc rfl hstep (.inr
      ⟨(Conn.inFlight_settle true hsent.attached hroom').1, Conn.rank_lt_of_work
        ((Conn.work_settle hbusy true hsent.attached fun _ => hsent.evalFallback).2 (by
          rw [hsent.evalFallback, Conn.drained, hsent.sending.requestBufs]
          rfl))⟩)
    exact ⟨_, w', .write left.length true, hw', hnear⟩

/-- A request in flight whose buffer has room can be brought to its end by events of its own
connection in which nothing fails: it waits for nothing but the server and nginx, and for no other
request. -/
theorem in_flight_can_end (h : World.run S events = some w) {i : ℕ} {c : Conn}
    (hc : w.conns[i]? = some c) {frame : List Command} {evalSent : Bool} {r : RoundTrip}
    (hbusy : c.holder = .busy frame evalSent r) (hsize : 1 ≤ c.sender.conf.bufferSize)
    (hroom : ¬ Stalled r) :
    ∃ more w', (∀ e ∈ more, Ordinary i e) ∧ World.run S (events ++ more) = some w' ∧
      ∃ d ∈ w'.done, d.conn = i ∧ d.sender = c.sender := by
  have hflying : w.Flying S i c.sender := ⟨⟨events, h⟩, c, hc, rfl, _, _, _, hbusy, hroom⟩
  obtain ⟨more, w', hmore, hrun, hended⟩ :=
    exists_run_of_closer (P := fun w => w.Flying S i c.sender) (World.rankAt · i)
      (fun _ => World.exists_nearer hsize) hflying
  refine ⟨more, w', hmore, ?_, hended⟩
  rw [World.run] at h ⊢
  rw [List.foldlM_append, h]
  exact hrun

/-- A request in flight always waits for something that is there: a command that is not sent, an
answer of the server, bytes on its socket, or a write event for the rest of its `EVAL`, which is
armed. -/
theorem no_lost_wakeup (h : World.run S events = some w) : ∀ c ∈ w.conns, ∀ frame evalSent r,
    c.holder = .busy frame evalSent r → frame ≠ [] ∨ c.queue ≠ [] ∨ r.sock ≠ [] ∨
      evalSent = false ∧ r.writeHandler = .sendEval ∧ r.writeTimer = true ∧
        ∃ left, left ≠ [] ∧ r.requestBufs = [left] := by
  intro c hc frame evalSent r hbusy
  obtain ⟨es, hes⟩ := World.exists_pool h
  obtain ⟨hinv, hruns⟩ := Conn.runs_of_pool hes c hc
  cases Conn.waits_for_something hinv hruns hbusy with
  | flush h => exact .inl h
  | answer h => exact .inr (.inl h)
  | read h => exact .inr (.inr (.inl h))
  | write left hleft hqueued hsent =>
    obtain ⟨hhandler, htimer⟩ := hqueued.sending.more hleft
    exact .inr (.inr (.inr ⟨hsent, hhandler, htimer, left, hleft, hqueued.sending.requestBufs⟩))

/-- The script is not loaded, and the socket takes ten bytes of the `EVAL`. -/
def partialEval : List (WorldEvent Unit) :=
  [.dial constantLocation (text "a"), .on 0 .flush, .on 0 .flush, .serve 0 1000000,
    .serve 0 1000000, .on 0 (.read (Io.good [.data 4096] [.sent 10]) true)]

/-- The commands to send, the answers and the bytes that a round trip waits for, and whether its
buffer has room. -/
def Conn.lacks (c : Conn) : Option (ℕ × ℕ × ℕ × Bool) :=
  match c.holder with
  | .busy frame _ r => some (frame.length, c.queue.length, r.sock.length,
      decide (1 ≤ c.sender.conf.bufferSize ∧ ¬ r.Stalled))
  | .closed | .idle _ => none

/-- After the ten bytes, the rest of the `EVAL` is all that the round trip waits for. -/
theorem lacks_partialEval : (World.run constantServer partialEval).bind (fun w =>
    w.conns[0]?.bind Conn.lacks) = some (0, 0, 0, true) := by
  decide +kernel

/-- That is, nothing is queued, answered, or to be read, and there is room. -/
theorem exists_partialEval : ∃ w c frame evalSent r, World.run constantServer partialEval = some w ∧
    w.conns[0]? = some c ∧ c.holder = .busy frame evalSent r ∧ 1 ≤ c.sender.conf.bufferSize ∧
      ¬ Stalled r ∧ frame = [] ∧ c.queue = [] ∧ r.sock = [] := by
  obtain ⟨w, hw, hfirst⟩ := Option.bind_eq_some_iff.mp lacks_partialEval
  obtain ⟨c, hc, hlacks⟩ := Option.bind_eq_some_iff.mp hfirst
  unfold Conn.lacks at hlacks
  split at hlacks
  · rename_i frame evalSent r hbusy
    simp only [Option.some.injEq, Prod.mk.injEq, List.length_eq_zero_iff,
      decide_eq_true_eq] at hlacks
    obtain ⟨hframe, hqueue, hsock, hsize, hroom⟩ := hlacks
    exact ⟨w, c, frame, evalSent, r, hw, hc, hbusy, hsize, hroom, hframe, hqueue, hsock⟩
  · cases hlacks
  · cases hlacks

/-- So the handler and the timer are set. -/
theorem no_lost_wakeup_partial_eval : ∃ w, World.run constantServer partialEval = some w ∧
    ∃ c ∈ w.conns, ∃ evalSent r, c.holder = .busy [] evalSent r ∧ c.queue = [] ∧ r.sock = [] ∧
      r.writeHandler = .sendEval ∧ r.writeTimer = true := by
  obtain ⟨w, c, frame, evalSent, r, hw, hc, hbusy, -, -, rfl, hqueue, hsock⟩ := exists_partialEval
  have hmem := List.mem_of_getElem? hc
  rcases no_lost_wakeup hw c hmem _ _ _ hbusy with h | h | h | ⟨-, hhandler, htimer, -⟩
  · exact absurd rfl h
  · exact absurd hqueue h
  · exact absurd hsock h
  · exact ⟨w, hw, c, hmem, evalSent, r, hbusy, hqueue, hsock, hhandler, htimer⟩

/-- And the request can still end. -/
theorem in_flight_can_end_partial_eval : ∃ w c more w',
    World.run constantServer partialEval = some w ∧ w.conns[0]? = some c ∧
      World.run constantServer (partialEval ++ more) = some w' ∧
        ∃ d ∈ w'.done, d.conn = 0 ∧ d.sender = c.sender := by
  obtain ⟨w, c, frame, evalSent, r, hw, hc, hbusy, hsize, hroom, -⟩ := exists_partialEval
  obtain ⟨more, w', -, hrun, hended⟩ := in_flight_can_end hw hc hbusy hsize hroom
  exact ⟨w, c, more, w', hw, hc, hrun, hended⟩

end NginxRatelimit
