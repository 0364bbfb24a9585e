import NginxRatelimit.Request.Latch

/-!
# Sending `EVAL` again

After a `NOSCRIPT` error `EVAL` is sent by the module itself: `send_eval` is called once by
`resend_eval`, and then by every write event until the bytes are out. What is left of the command is
kept in the position of its buffer only. A call of `send_eval` is `accepted` and `sendEnd`, by the
bytes alone (`sendLoop_spec`). Between the events what was accepted and what is left make up the
command, with the handler and the timer that the latter needs (`Sending`, `SendInv.run`), and write
events that go on send all of it (`Queued.goes_run`).
-/

namespace NginxRatelimit

/-! ## One call of `send_eval` -/

/-- How the loop of `send_eval` ends. -/
inductive SendEnd where
  /-- All bytes are sent. -/
  | sent
  /-- The socket is full. -/
  | again
  /-- An error. -/
  | error
  deriving DecidableEq

/-- How it ends on these bytes. -/
def sendEnd : List Send → Bytes → SendEnd
  | _, [] => .sent
  | [], _ :: _ => .again
  | .again :: _, _ :: _ => .again
  | .error :: _, _ :: _ => .error
  | .sent n :: sends, ch :: b => sendEnd sends ((ch :: b).drop n)

/-- The bytes that the socket accepts on the way. -/
def accepted : List Send → Bytes → Bytes
  | .sent n :: sends, b => b.take n ++ accepted sends (b.drop n)
  | _, _ => []

/-- The bytes that are left. -/
def unsent (sends : List Send) (b : Bytes) : Bytes := b.drop (accepted sends b).length

/-- Nothing is accepted of no bytes. -/
theorem accepted_nil (sends : List Send) : accepted sends [] = [] := by
  induction sends with
  | nil => rfl
  | cons s sends ih =>
    cases s with
    | sent n => simpa [accepted] using ih
    | again => rfl
    | error => rfl

/-- And nothing is left of them. -/
theorem unsent_nil (sends : List Send) : unsent sends [] = [] := by
  rw [unsent, accepted_nil]
  rfl

/-- A `send` leaves what is behind the bytes that it accepts. -/
theorem unsent_sent (n : ℕ) (sends : List Send) (b : Bytes) :
    unsent (.sent n :: sends) b = unsent sends (b.drop n) := by
  unfold unsent
  rw [accepted]
  rcases Nat.le_total n b.length with hn | hn
  · rw [List.length_append, List.length_take_of_le hn, List.drop_drop]
  · rw [List.drop_eq_nil_of_le hn, accepted_nil, List.append_nil, List.take_of_length_le hn,
      List.drop_length]
    rfl

/-- What is accepted and what is left make up the bytes. -/
theorem accepted_append_unsent (sends : List Send) (b : Bytes) :
    accepted sends b ++ unsent sends b = b := by
  induction sends generalizing b with
  | nil => rfl
  | cons s sends ih =>
    cases s with
    | sent n =>
      rw [unsent_sent, accepted, List.append_assoc, ih, List.take_append_drop]
    | again => rfl
    | error => rfl

/-- Without an error among the sends the loop does not end with one. -/
theorem sendEnd_ne_error {sends : List Send} (h : .error ∉ sends) (b : Bytes) :
    sendEnd sends b ≠ .error := by
  induction sends generalizing b with
  | nil => cases b <;> simp [sendEnd]
  | cons s sends ih =>
    obtain ⟨hs, hsends⟩ := not_or.mp (mt List.mem_cons.mpr h)
    cases b with
    | nil => simp [sendEnd]
    | cons ch b =>
      cases s with
      | sent n => exact ih hsends _
      | again => simp [sendEnd]
      | error => exact absurd rfl hs

/-- A send makes progress. -/
theorem length_unsent_le (sends : List Send) (b : Bytes) :
    (unsent sends b).length ≤ b.length := by
  rw [unsent, List.length_drop]
  exact Nat.sub_le _ _

/-- Nothing fails in this event: bytes arrive, or it is a write event without a timeout, an error of
a send and a failure to register. -/
def Event.Goes : Event → Prop
  | .arrive _ => True
  | .read _ => False
  | .write io => io.timedout = false ∧ io.writeEvent = true ∧ .error ∉ io.sends

/-- A write event whose first send makes progress. -/
def Event.progress : Event → Bool
  | .write io =>
    match io.sends with
    | .sent n :: _ => 0 < n
    | _ => false
  | .arrive _ | .read _ => false

/-- A write event that accepts a byte leaves fewer of them. -/
theorem length_unsent_progress {io : Io} (h : Event.progress (.write io) = true) {b : Bytes}
    (hb : b ≠ []) : (unsent io.sends b).length < b.length := by
  have hpos := List.length_pos_of_ne_nil hb
  unfold Event.progress at h
  cases hsends : io.sends with
  | nil => simp [hsends] at h
  | cons s sends =>
    cases s with
    | sent n =>
      have hn : 0 < n := by simpa [hsends] using h
      have hrest := length_unsent_le sends (b.drop n)
      rw [List.length_drop] at hrest
      rw [unsent_sent]
      omega
    | again => simp [hsends] at h
    | error => simp [hsends] at h

/-- What `send_eval` returns. -/
def sendRc (io : Io) : SendEnd → Rc
  | .sent => .ok
  | .again => if io.writeEvent then .ok else .error
  | .error => .http 502

namespace RoundTrip

/-- `EVAL` is queued with these bytes left. While there are any, the write handler is
`send_eval_handler` and the timer is set; otherwise they are the dummy one, and not set. -/
structure Sending (left : Bytes) (r : RoundTrip) : Prop where
  requestBufs : r.requestBufs = [left]
  sent : left = [] → r.writeHandler = .dummy ∧ r.writeTimer = false
  more : left ≠ [] → r.writeHandler = .sendEval ∧ r.writeTimer = true

/-- `send_eval` by the bytes of its buffer. -/
theorem sendLoop_spec (io : Io) (sends : List Send) {r : RoundTrip} {b : Bytes}
    (hbufs : r.requestBufs = [b]) :
    (sendLoop io sends r).1 = sendRc io (sendEnd sends b) ∧
      ((sendLoop io sends r).1 = .ok → Sending (unsent sends b) (sendLoop io sends r).2) := by
  fun_induction sendLoop io sends r generalizing b with
  | case1 _ _ hnil => exact absurd (hnil.symm.trans hbufs) (List.cons_ne_nil _ _).symm
  | case2 sends r _ hempty =>
    obtain ⟨rfl, -⟩ := List.cons.inj (hempty.symm.trans hbufs)
    refine ⟨by simp [sendEnd, sendRc], fun _ => ?_⟩
    rw [unsent_nil]
    exact ⟨hbufs, fun _ => ⟨rfl, rfl⟩, fun h => absurd rfl h⟩
  | case3 r b' bufs hne hb | case5 r b' bufs hne hb =>
    -- Nothing more is accepted, and the rest waits for a write event.
    rename_i hevent
    obtain ⟨rfl, -⟩ := List.cons.inj (hb.symm.trans hbufs)
    cases b' with
    | nil => exact absurd rfl hne
    | cons ch b =>
      refine ⟨by simp [sendEnd, sendRc, hevent], fun _ => ?_⟩
      exact ⟨hbufs, fun h => absurd h (List.cons_ne_nil _ _), fun _ => ⟨rfl, rfl⟩⟩
  | case4 r b' bufs hne hb | case6 r b' bufs hne hb =>
    rename_i hevent
    obtain ⟨rfl, -⟩ := List.cons.inj (hb.symm.trans hbufs)
    cases b' with
    | nil => exact absurd rfl hne
    | cons ch b => simp [sendEnd, sendRc, hevent]
  | case7 r b' bufs hne hb sends =>
    obtain ⟨rfl, -⟩ := List.cons.inj (hb.symm.trans hbufs)
    cases b' with
    | nil => exact absurd rfl hne
    | cons ch b => simp [sendEnd, sendRc]
  | case8 r b' bufs hne hb n sends ih =>
    -- Some bytes are accepted, and the loop goes on with the others.
    obtain ⟨rfl, rfl⟩ := List.cons.inj (hb.symm.trans hbufs)
    obtain ⟨hrc, hsending⟩ := ih rfl
    cases b' with
    | nil => exact absurd rfl hne
    | cons ch b =>
      rw [sendEnd, unsent_sent]
      exact ⟨hrc, hsending⟩

/-! ## Events -/

/-- `EVAL` as it is sent. -/
def evalBytes (conf : LocConf) (key : Bytes) : Bytes :=
  buildCommand (scriptCommand conf key true).argv

/-- The bytes that `send_eval` hands to the socket in an event, as far as they are accepted. On a
read event `resend_eval` sends what `create_request` has built. -/
def sentIn (r : RoundTrip) : Event → Bytes
  | .arrive _ => []
  | .read io => (r.builds (.read io)).flatMap fun cmd => accepted io.sends (buildCommand cmd.argv)
  | .write io =>
    if r.attached && r.writeHandler = .sendEval && !io.timedout then
      accepted io.sends (r.requestBufs.headD [])
    else []

/-- The bytes of a run. -/
def sentRun : RoundTrip → List Event → Bytes
  | _, [] => []
  | r, e :: events => r.sentIn e ++ sentRun (r.step e) events

/-- Nothing that sending depends on has changed. -/
structure SameSend (r r' : RoundTrip) : Prop where
  conf : r'.conf = r.conf
  key : r'.key = r.key
  attached : r'.attached = r.attached
  readHandler : r'.readHandler = r.readHandler
  evalFallback : r'.evalFallback = r.evalFallback
  requestBufs : r'.requestBufs = r.requestBufs
  writeHandler : r'.writeHandler = r.writeHandler
  writeTimer : r'.writeTimer = r.writeTimer

/-- Before `EVAL` is queued. -/
structure Unqueued (conf : LocConf) (key : Bytes) (r : RoundTrip) : Prop where
  conf : r.conf = conf
  key : r.key = key
  attached : r.attached = true
  readHandler : r.readHandler = .header
  evalFallback : r.evalFallback = false
  writeHandler : r.writeHandler = .core

/-- `EVAL` is queued, with these bytes left, and its reply is awaited. -/
structure Queued (left : Bytes) (r : RoundTrip) : Prop where
  attached : r.attached = true
  readHandler : r.readHandler = .header
  evalFallback : r.evalFallback = true
  sending : Sending left r

/-- Nothing more is sent: the reply is being read, or the round trip is over. -/
def Over (r : RoundTrip) : Prop := r.attached = false ∨ LatchReads (fun _ => True) r

/-- The round trip ended with this status. -/
structure FailedWith (status : ℕ) (r : RoundTrip) : Prop where
  attached : r.attached = false
  finalized : r.finalized = true
  status : r.parse.status = status

/-- Not to have queued `EVAL` depends on what sending depends on. -/
theorem Unqueued.same {conf : LocConf} {key : Bytes} {r r' : RoundTrip} (h : Unqueued conf key r)
    (hsame : SameSend r r') : Unqueued conf key r' where
  conf := hsame.conf.trans h.conf
  key := hsame.key.trans h.key
  attached := hsame.attached.trans h.attached
  readHandler := hsame.readHandler.trans h.readHandler
  evalFallback := hsame.evalFallback.trans h.evalFallback
  writeHandler := hsame.writeHandler.trans h.writeHandler

/-- So does what is being sent. -/
theorem Sending.same {left : Bytes} {r r' : RoundTrip} (h : Sending left r)
    (hsame : SameSend r r') : Sending left r' where
  requestBufs := hsame.requestBufs.trans h.requestBufs
  sent hleft := ⟨hsame.writeHandler.trans (h.sent hleft).1, hsame.writeTimer.trans (h.sent hleft).2⟩
  more hleft := ⟨hsame.writeHandler.trans (h.more hleft).1, hsame.writeTimer.trans (h.more hleft).2⟩

/-- So does what is queued. -/
theorem Queued.same {left : Bytes} {r r' : RoundTrip} (h : Queued left r)
    (hsame : SameSend r r') : Queued left r' where
  attached := hsame.attached.trans h.attached
  readHandler := hsame.readHandler.trans h.readHandler
  evalFallback := hsame.evalFallback.trans h.evalFallback
  sending := h.sending.same hsame

/-- What is finalized is over. -/
theorem over_finalize (r : RoundTrip) (rc : Rc) (why : Exit) :
    Over (r.finalizeUpstreamRequest rc why) := by
  cases hattached : r.attached with
  | true =>
    obtain ⟨headers, p, hframe, -⟩ := finalizeUpstreamRequest_frame hattached rc why
    rw [hframe]
    exact .inl rfl
  | false =>
    rw [finalizeUpstreamRequest, hattached]
    exact .inl hattached

/-- A finalization with an error code fails the round trip with its status. -/
theorem failed_finalize {r : RoundTrip} (h : r.attached = true) (rc : Rc)
    (hrc : rc ≠ .ok ∧ rc ≠ .done ∧ rc ≠ .declined) (why : Exit) :
    FailedWith (errorStatus rc) (r.finalizeUpstreamRequest rc why) := by
  obtain ⟨hok, hdone, hdeclined⟩ := hrc
  rw [finalizeUpstreamRequest, if_pos h, if_neg (by simp [hok, hdone, hdeclined])]
  exact ⟨rfl, rfl, rfl⟩

/-- A property of the waiting round trip that never holds: it says of the others where they are. -/
theorem latchProperty_never : LatchProperty (fun _ => False) (fun _ => True) where
  latch _ := trivial
  frame _ _ _ _ h := h
  header _ _ _ _ _ h _ := h.elim

/-- Where a handler leaves nothing that waits for the header, sending is over. -/
theorem over_outcome {r : RoundTrip}
    (h : Outcome (LatchWaits fun _ => False) (LatchReads fun _ => True)
      (LatchReplied fun _ => True) (LatchOpen fun _ => True) r) : Over r := by
  rcases latch_outcome h with h | h | h
  · exact h.holds.elim
  · exact .inr h
  · exact .inl h.attached

/-- So it is where the body begins. -/
theorem over_processResponse (io : Io) (recvs : List Recv) {r : RoundTrip}
    (h : r.attached = true) : Over ({ r with length := -1 }.processResponse io recvs) :=
  over_outcome ((latchProperty_never.rules io).processResponse_outcome recvs ⟨h, trivial⟩)

/-- It stays so. -/
theorem Over.step {r : RoundTrip} (h : Over r) (e : Event) : Over (r.step e) := by
  rcases h with h | h
  · rw [step_detached h]
    exact .inl h
  · cases e with
    | arrive data =>
      rw [step_arrive h.attached]
      exact .inr ⟨h.attached, h.readHandler, h.writeHandler, h.length, trivial⟩
    | read io => exact over_outcome ((latchProperty_never.rules io).read (.inr h))
    | write io => exact over_outcome ((latchProperty_never.rules io).write (.inr h))

/-- And nothing is sent. -/
theorem Over.sentIn {r : RoundTrip} (h : Over r) (e : Event) : r.sentIn e = [] := by
  rcases h with h | h
  · cases e <;> simp [RoundTrip.sentIn, builds, h]
  · cases e <;> simp [RoundTrip.sentIn, builds, h.readHandler, h.writeHandler]

/-! ## The read event that sends `EVAL` -/

/-- Where `resend_eval` is not called, the latch stays as it is. -/
theorem processHeader_evalFallback (io : Io) {r : RoundTrip} (h : r.resends = false) :
    (r.processHeader io).2.evalFallback = r.evalFallback := by
  have hkeep := consumePrelude_evalFallback r.preludeReplies r
  unfold resends at h
  unfold processHeader
  generalize consumePrelude r.preludeReplies r = result at h hkeep
  obtain ⟨rc, q⟩ := result
  cases rc with
  | ok =>
    dsimp only at h hkeep ⊢
    unfold processType
    cases hwindow : q.window with
    | nil => exact hkeep
    | cons chr rest =>
      rw [hwindow] at h
      dsimp only at h ⊢
      split_ifs with hstar hminus hLF hnoscript
      · exact hkeep
      · -- These are the conditions under which it is called.
        rw [Bool.and_eq_true, decide_eq_true_eq] at hnoscript
        simp [hminus, hLF, hnoscript] at h
      · exact hkeep
      · exact hkeep
      · exact hkeep
  | error | again | done | declined | invalidHeader | http status => exact hkeep

/-- And so does all that sending depends on. -/
theorem processHeader_same (io : Io) {r : RoundTrip} (h : r.resends = false) :
    SameSend r (r.processHeader io).2 := by
  have hkeep := processHeader_evalFallback io h
  have hstep := processHeader_step io r
  generalize r.processHeader io = result at hkeep hstep
  cases hstep with
  | again left k t _ => exact ⟨rfl, rfl, rfl, rfl, rfl, rfl, rfl, rfl⟩
  | array k rest _ => exact ⟨rfl, rfl, rfl, rfl, rfl, rfl, rfl, rfl⟩
  | refused rc left k rest _ _ => exact ⟨rfl, rfl, rfl, rfl, rfl, rfl, rfl, rfl⟩
  | fallback k line rest _ _ hfirst =>
    have hset := resendEval_evalFallback io (r.moved 0 k)
    exact absurd ((hset.symm.trans hkeep).trans hfirst) (by decide)

/-- `EVAL` is built and sent once. -/
structure Resent (io : Io) (conf : LocConf) (key : Bytes) (result : Rc × RoundTrip) : Prop where
  rc : result.1 = sendRc io (sendEnd io.sends (evalBytes conf key))
  attached : result.2.attached = true
  queued : result.1 = .ok → Queued (unsent io.sends (evalBytes conf key)) result.2

/-- Where its allocations succeed, `resend_eval` builds `EVAL` and sends it once. -/
theorem resendEval_resent {io : Io} (halloc : io.requestAlloc = true) {r : RoundTrip}
    (hattached : r.attached = true) (hhandler : r.readHandler = .header) :
    Resent io r.conf r.key (r.resendEval io) := by
  have hlatch := resendEval_evalFallback io r
  have hspec := sendLoop_spec io io.sends (r := { r with
    evalFallback := true
    requestBufs := [evalBytes r.conf r.key]
    buffer := r.buffer.map Buf.clear
    parse := ⟨.start, r.parse.status, 0, 0, -1, 0⟩
    preludeReplies := 0 }) rfl
  have hresend : r.resendEval io = sendLoop io io.sends { r with
      evalFallback := true
      requestBufs := [evalBytes r.conf r.key]
      buffer := r.buffer.map Buf.clear
      parse := ⟨.start, r.parse.status, 0, 0, -1, 0⟩
      preludeReplies := 0 } := by
    rw [resendEval, createRequest, if_pos halloc]
    rfl
  rw [← hresend] at hspec
  rcases resendEval_cases io r with hcase | ⟨rc, bufs, handler, timer, hcase⟩
  · rw [hcase] at hspec ⊢
    exact ⟨hspec.1, hattached, nofun⟩
  · rw [hcase] at hspec ⊢
    exact ⟨hspec.1, hattached, fun hok => ⟨hattached, hhandler, rfl, hspec.2 hok⟩⟩

/-- Where it is called, its result is that of `process_header`. -/
theorem processHeader_resends (io : Io) {r : RoundTrip} (h : r.resends = true) :
    ∃ k, r.processHeader io = (if ((r.moved 0 k).resendEval io).1 = .ok then .again
      else ((r.moved 0 k).resendEval io).1, ((r.moved 0 k).resendEval io).2) := by
  obtain ⟨hfirst, hset⟩ := resends_spec io h
  have hstep := processHeader_step io r
  generalize r.processHeader io = result at hset hstep
  cases hstep with
  | again left k t _ => exact absurd (hfirst.symm.trans hset) (by decide)
  | array k rest _ => exact absurd (hfirst.symm.trans hset) (by decide)
  | refused rc left k rest _ _ => exact absurd (hfirst.symm.trans hset) (by decide)
  | fallback k line rest _ _ _ => exact ⟨k, rfl⟩

/-- Where `create_request` fails, so does `resend_eval`. -/
theorem resendEval_failed {io : Io} (halloc : io.requestAlloc = false) (r : RoundTrip) :
    r.resendEval io = (.error, { r with evalFallback := true }) := by
  rw [resendEval, createRequest, if_neg (by rw [halloc]; decide)]

/-- Then `EVAL` is not sent. -/
theorem processHeader_resends_failed {io : Io} {r : RoundTrip} (h : r.resends = true)
    (halloc : io.requestAlloc = false) : ∃ q, r.processHeader io = (.error, q) := by
  obtain ⟨k, hresult⟩ := processHeader_resends io h
  rw [hresult, resendEval_failed halloc]
  exact ⟨_, rfl⟩

/-- Where it succeeds, `EVAL` is built. -/
theorem headerBuilds_resends {io : Io} {conf : LocConf} {key : Bytes} {r : RoundTrip}
    (hunqueued : Unqueued conf key r) (h : r.resends = true) (halloc : io.requestAlloc = true) :
    headerBuilds io r = [scriptCommand conf key true] := by
  rw [headerBuilds, h, halloc, hunqueued.conf, hunqueued.key]
  rfl

/-- The first frame is what `create_request` queues when the round trip starts. -/
theorem createRequest_start {io : Io} (halloc : io.requestAlloc = true) (conf : LocConf)
    (key : Bytes) : createRequest io (start conf key) = (.ok, start conf key) := by
  rw [createRequest, if_pos halloc]
  rfl

/-- The commands that a call of `process_header` builds are what `create_request` puts into
`request_bufs` in this call; where there are none, `request_bufs` stays. -/
theorem headerBuilds_created (io : Io) (r : RoundTrip) :
    (headerBuilds io r = [] ∧ (r.processHeader io).2.requestBufs = r.requestBufs) ∨
      ∃ k q, (r.processHeader io).2 = ((r.moved 0 k).resendEval io).2 ∧
        createRequest io { r.moved 0 k with evalFallback := true } = (.ok, q) ∧
        q.requestBufs = (headerBuilds io r).map fun cmd => buildCommand cmd.argv := by
  cases hresends : r.resends with
  | false =>
    exact .inl ⟨headerBuilds_of_not_resends io hresends,
      (processHeader_same io hresends).requestBufs⟩
  | true =>
    obtain ⟨k, hresult⟩ := processHeader_resends io hresends
    cases halloc : io.requestAlloc with
    | false =>
      refine .inl ⟨by rw [headerBuilds, hresends, halloc]; rfl, ?_⟩
      rw [hresult, resendEval_failed halloc]
      rfl
    | true =>
      refine .inr ⟨k, _, by rw [hresult], by rw [createRequest, if_pos halloc], ?_⟩
      rw [headerBuilds, hresends, halloc]
      rfl

/-- `create_request`, called as the fallback for the location and the key of `r`, queues these
commands. -/
def Creates (io : Io) (r : RoundTrip) (cmds : List Command) : Prop :=
  ∃ q q', createRequest io q = (.ok, q') ∧ q.conf = r.conf ∧ q.key = r.key ∧
    q.evalFallback = true ∧ q'.requestBufs = cmds.map fun cmd => buildCommand cmd.argv

/-- What the loop of the header builds is queued so; nothing more is built behind it. -/
theorem headerLoopBuilds_created (io : Io) (recvs : List Recv) (r : RoundTrip) :
    headerLoopBuilds io recvs r = [] ∨ Creates io r (headerLoopBuilds io recvs r) := by
  induction recvs generalizing r with
  | nil => exact .inl rfl
  | cons x xs ih =>
    cases hx : r.recv r.room x with
    | mk received r₁ =>
      rw [headerLoopBuilds, hx]
      cases received with
      | again | zero | error => exact .inl rfl
      | bytes data =>
        obtain ⟨rest, -, -, -, rfl⟩ := recv_bytes hx
        dsimp only
        generalize hfilled : ({ r with
          sock := rest, buffer := r.buffer.map fun b : Buf => b.fill data } : RoundTrip) = filled
        have hconf : filled.conf = r.conf := by rw [← hfilled]
        have hkey : filled.key = r.key := by rw [← hfilled]
        have hcreated := headerBuilds_created io filled
        cases hresends : filled.resends with
        | false =>
          -- Nothing is built for this piece, and the loop may go on.
          have hsame := processHeader_same io hresends
          rw [headerBuilds_of_not_resends io hresends, List.nil_append]
          split
          · rename_i q heq
            rw [heq] at hsame
            split
            · exact .inl rfl
            · rcases ih q with hnil | ⟨q₁, q₂, hcreate, hconf', hkey', hrest⟩
              · exact .inl hnil
              · exact .inr ⟨q₁, q₂, hcreate, (hconf'.trans hsame.conf).trans hconf,
                  (hkey'.trans hsame.key).trans hkey, hrest⟩
          · exact .inl rfl
        | true =>
          rw [headerLoopBuilds_rest io xs hresends, List.append_nil]
          rcases hcreated with ⟨hnil, -⟩ | ⟨k, q, -, hcreate, hbufs⟩
          · exact .inl hnil
          · exact .inr ⟨_, q, hcreate, hconf, hkey, rfl, hbufs⟩

/-- The commands that an event builds are what `create_request` puts into `request_bufs` in it. -/
theorem builds_created (r : RoundTrip) (e : Event) :
    r.builds e = [] ∨ ∃ io, e = .read io ∧ Creates io r (r.builds e) := by
  cases e with
  | arrive data => exact .inl rfl
  | write io => exact .inl rfl
  | read io =>
    by_cases hreads : r.attached && r.readHandler = .header
    · rw [builds, if_pos hreads, readHeaderBuilds]
      split_ifs
      · exact .inl rfl
      · exact .inl rfl
      · exact .inl rfl
      rcases headerLoopBuilds_created io io.recvs { r with
        buffer := some (r.buffer.getD (.alloc r.conf.bufferSize)) } with hnil | hcreates
      · exact .inl hnil
      · exact .inr ⟨io, rfl, hcreates⟩
    · exact .inl (if_neg hreads)

/-- And `process_header` ends with the code of `send_eval`. -/
theorem processHeader_resent {io : Io} {conf : LocConf} {key : Bytes} {r : RoundTrip}
    (hunqueued : Unqueued conf key r) (h : r.resends = true) (halloc : io.requestAlloc = true) :
    ∃ q, r.processHeader io =
        (if sendRc io (sendEnd io.sends (evalBytes conf key)) = .ok then .again
          else sendRc io (sendEnd io.sends (evalBytes conf key)), q) ∧
      q.attached = true ∧ (sendRc io (sendEnd io.sends (evalBytes conf key)) = .ok →
        Queued (unsent io.sends (evalBytes conf key)) q) := by
  obtain ⟨k, hresult⟩ := processHeader_resends io h
  have hsent := resendEval_resent halloc (r := r.moved 0 k) hunqueued.attached
    hunqueued.readHandler
  have hconf : (r.moved 0 k).conf = conf := hunqueued.conf
  have hkey : (r.moved 0 k).key = key := hunqueued.key
  rw [hconf, hkey] at hsent
  refine ⟨((r.moved 0 k).resendEval io).2, ?_, hsent.attached, fun hok => ?_⟩
  · rw [hresult, hsent.rc]
  · exact hsent.queued (hsent.rc.trans hok)

/-- The bytes of the socket change nothing for sending. -/
theorem sameSend_fill (r : RoundTrip) (rest : Bytes) (buffer : Option Buf) :
    SameSend r { r with sock := rest, buffer := buffer } :=
  ⟨rfl, rfl, rfl, rfl, rfl, rfl, rfl, rfl⟩

/-- What depends on the sending only is kept by a read event that builds nothing, as long as the
header is awaited. -/
theorem headerLoop_kept (io : Io) {P : RoundTrip → Prop}
    (hsame : ∀ {r r'}, SameSend r r' → P r → P r') (hattached : ∀ {r}, P r → r.attached = true)
    (recvs : List Recv) {r : RoundTrip} (h : P r) (hnone : headerLoopBuilds io recvs r = []) :
    P (headerLoop io recvs r) ∨ Over (headerLoop io recvs r) := by
  have hwait : ∀ {r : RoundTrip}, P r →
      P (if io.readEvent then r else r.finalizeUpstreamRequest (.http 500) .internal) ∨
        Over (if io.readEvent then r else r.finalizeUpstreamRequest (.http 500) .internal) := by
    intro r h
    split
    · exact .inl h
    · exact .inr (over_finalize r _ _)
  induction recvs generalizing r with
  | nil => exact hwait h
  | cons x xs ih =>
    cases hx : r.recv r.room x with
    | mk received r₁ =>
      rw [headerLoop, hx]
      rw [headerLoopBuilds, hx] at hnone
      cases received with
      | again =>
        obtain rfl : r₁ = r := recv_again hx
        exact hwait h
      | zero => exact .inr (over_finalize r₁ _ _)
      | error => exact .inr (over_finalize r₁ _ _)
      | bytes data =>
        obtain ⟨rest, -, -, -, rfl⟩ := recv_bytes hx
        dsimp only at hnone ⊢
        have hfilled := hsame (sameSend_fill r rest (r.buffer.map fun b : Buf => b.fill data)) h
        generalize ({ r with
          sock := rest, buffer := r.buffer.map fun b : Buf => b.fill data } : RoundTrip) = filled
          at hnone hfilled ⊢
        obtain ⟨hfirst, hrest⟩ := List.append_eq_nil_iff.mp hnone
        have hrc := processHeader_rc io filled
        cases hresends : filled.resends with
        | false =>
          have hnext := hsame (processHeader_same io hresends) hfilled
          generalize filled.processHeader io = result at hrest hrc hnext ⊢
          obtain ⟨rc, q⟩ := result
          rcases hrc with rfl | rfl | rfl | rfl | rfl
          · exact .inr (over_processResponse io xs (hattached hnext))
          · dsimp only at hrest ⊢
            split
            · exact .inr (over_finalize q _ _)
            · rename_i hroom
              exact ih hnext (by rwa [if_neg hroom] at hrest)
          · exact .inr (over_finalize q _ _)
          · exact .inr (over_finalize q _ _)
          · exact .inr (over_finalize q _ _)
        | true =>
          -- The call of `create_request` failed.
          have halloc : io.requestAlloc = false := by
            rw [headerBuilds, hresends] at hfirst
            cases halloc : io.requestAlloc with
            | false => rfl
            | true =>
              rw [halloc] at hfirst
              exact absurd hfirst (List.cons_ne_nil _ _)
          obtain ⟨q, herror⟩ := processHeader_resends_failed hresends halloc
          rw [herror]
          exact .inr (over_finalize q _ _)

/-- What an event leaves that has called `send_eval` with these bytes. -/
structure AfterSend (io : Io) (left : Bytes) (r : RoundTrip) : Prop where
  ok : sendRc io (sendEnd io.sends left) = .ok → Queued (unsent io.sends left) r ∨ Over r
  failed : sendRc io (sendEnd io.sends left) ≠ .ok →
    FailedWith (errorStatus (sendRc io (sendEnd io.sends left))) r

/-- A call that has failed leaves a failed round trip. -/
theorem AfterSend.of_failed {io : Io} {left : Bytes} {r : RoundTrip} {rc : Rc}
    (hcode : sendRc io (sendEnd io.sends left) = rc) (hne : rc ≠ .ok)
    (h : FailedWith (errorStatus rc) r) : AfterSend io left r := by
  subst hcode
  exact ⟨fun hok => absurd hok hne, fun _ => h⟩

/-- The codes of `send_eval`. -/
theorem sendRc_cases (io : Io) (e : SendEnd) :
    sendRc io e = .ok ∨ sendRc io e = .error ∨ sendRc io e = .http 502 := by
  unfold sendRc
  repeat' split
  all_goals simp

/-- A read event that builds `EVAL` sends it. -/
theorem headerLoop_resent (io : Io) {conf : LocConf} {key : Bytes} (recvs : List Recv)
    {r : RoundTrip} (h : Unqueued conf key r) (hbuilds : headerLoopBuilds io recvs r ≠ []) :
    headerLoopBuilds io recvs r = [scriptCommand conf key true] ∧
      AfterSend io (evalBytes conf key) (headerLoop io recvs r) := by
  induction recvs generalizing r with
  | nil => exact absurd rfl hbuilds
  | cons x xs ih =>
    cases hx : r.recv r.room x with
    | mk received r₁ =>
      rw [headerLoopBuilds, hx] at hbuilds
      rw [headerLoopBuilds, headerLoop, hx]
      cases received with
      | again | zero | error => exact absurd rfl hbuilds
      | bytes data =>
        obtain ⟨rest, -, -, -, rfl⟩ := recv_bytes hx
        dsimp only at hbuilds ⊢
        have hfilled := h.same (sameSend_fill r rest (r.buffer.map fun b : Buf => b.fill data))
        generalize ({ r with
          sock := rest, buffer := r.buffer.map fun b : Buf => b.fill data } : RoundTrip) = filled
          at hbuilds hfilled ⊢
        have hrc := processHeader_rc io filled
        cases hresends : filled.resends with
        | false =>
          -- Nothing was built for this piece, so the loop goes on.
          have hnone := headerBuilds_of_not_resends io hresends
          have hnext := hfilled.same (processHeader_same io hresends)
          rw [hnone, List.nil_append] at hbuilds ⊢
          generalize filled.processHeader io = result at hbuilds hrc hnext ⊢
          obtain ⟨rc, q⟩ := result
          rcases hrc with rfl | rfl | rfl | rfl | rfl
          · exact absurd rfl hbuilds
          · dsimp only at hbuilds ⊢
            split
            · rename_i hroom
              exact absurd (if_pos hroom) hbuilds
            · rename_i hroom
              rw [if_neg hroom] at hbuilds
              exact ih hnext hbuilds
          · exact absurd rfl hbuilds
          · exact absurd rfl hbuilds
          · exact absurd rfl hbuilds
        | true =>
          cases halloc : io.requestAlloc with
          | false =>
            obtain ⟨q, herror⟩ := processHeader_resends_failed hresends halloc
            rw [herror, headerBuilds, halloc, Bool.and_false] at hbuilds
            exact absurd rfl hbuilds
          | true =>
            obtain ⟨q, hresult, hattached, hqueued⟩ := processHeader_resent hfilled hresends halloc
            rw [hresult, headerBuilds_resends hfilled hresends halloc]
            rcases sendRc_cases io (sendEnd io.sends (evalBytes conf key)) with
              hcode | hcode | hcode
            · -- The loop goes on, and builds nothing more.
              have hq := hqueued hcode
              have hnone := headerLoopBuilds_eq_nil io xs hq.evalFallback
              rw [hcode, if_pos rfl]
              dsimp only
              split
              · exact ⟨rfl, fun _ => .inr (over_finalize q _ _), fun hne => absurd hcode hne⟩
              · rw [hnone]
                exact ⟨rfl, fun _ => headerLoop_kept io (fun hsame h => h.same hsame)
                  (fun h => h.attached) xs hq hnone, fun hne => absurd hcode hne⟩
            · rw [hcode, if_neg (by decide)]
              exact ⟨rfl, .of_failed hcode (by decide)
                (failed_finalize hattached .error (by decide) .refused)⟩
            · rw [hcode, if_neg (by decide)]
              exact ⟨rfl, .of_failed hcode (by decide)
                (failed_finalize hattached (.http 502) (by decide) .sendError)⟩

/-- A read event that awaits the header fails before it reads, or runs the loop. -/
theorem read_header_cases {r : RoundTrip} (hattached : r.attached = true)
    (hhandler : r.readHandler = .header) (io : Io) :
    (r.builds (.read io) = [] ∧ Over (r.step (.read io))) ∨
      ∃ r', SameSend r r' ∧ r.builds (.read io) = headerLoopBuilds io io.recvs r' ∧
        r.step (.read io) = headerLoop io io.recvs r' := by
  rw [step_read_header hattached hhandler, builds, if_pos (by simp [hattached, hhandler]),
    readHeaderBuilds, readHeaderHandler]
  split
  · exact .inl ⟨rfl, over_finalize r _ _⟩
  · split
    · exact .inl ⟨rfl, over_finalize r _ _⟩
    · split
      · exact .inl ⟨rfl, over_finalize r _ _⟩
      · exact .inr ⟨_, sameSend_fill r r.sock _, rfl, rfl⟩

/-- A read event before `EVAL` is queued builds nothing, or builds and sends it. -/
theorem Unqueued.read {conf : LocConf} {key : Bytes} {r : RoundTrip} (h : Unqueued conf key r)
    (io : Io) :
    (r.builds (.read io) = [] ∧ (Unqueued conf key (r.step (.read io)) ∨
        Over (r.step (.read io)))) ∨
      (r.builds (.read io) = [scriptCommand conf key true] ∧
        AfterSend io (evalBytes conf key) (r.step (.read io))) := by
  rcases read_header_cases h.attached h.readHandler io with ⟨hnone, hover⟩ | ⟨r', hsame, hb, hstep⟩
  · exact .inl ⟨hnone, .inr hover⟩
  · rw [hb, hstep]
    have h' := h.same hsame
    by_cases hnone : headerLoopBuilds io io.recvs r' = []
    · exact .inl ⟨hnone, headerLoop_kept io (fun hsame h => h.same hsame) (fun h => h.attached) _ h'
        hnone⟩
    · exact .inr (headerLoop_resent io _ h' hnone)

/-- Once it is queued, read events build nothing more, and touch nothing that is being sent. -/
theorem Queued.read {left : Bytes} {r : RoundTrip} (h : Queued left r) (io : Io) :
    r.builds (.read io) = [] ∧ (Queued left (r.step (.read io)) ∨ Over (r.step (.read io))) := by
  rcases read_header_cases h.attached h.readHandler io with ⟨hnone, hover⟩ | ⟨r', hsame, hb, hstep⟩
  · exact ⟨hnone, .inr hover⟩
  · rw [hb, hstep]
    have h' := h.same hsame
    have hnone := headerLoopBuilds_eq_nil io io.recvs h'.evalFallback
    exact ⟨hnone, headerLoop_kept io (fun hsame h => h.same hsame) (fun h => h.attached) _ h' hnone⟩

/-! ## The write events -/

/-- With bytes left, a write event is a send timeout or a call of `send_eval`. -/
theorem Queued.write_timedout {left : Bytes} {r : RoundTrip} (h : Queued left r)
    (hleft : left ≠ []) {io : Io} (hio : io.timedout = true) :
    FailedWith 504 (r.step (.write io)) := by
  rw [step_write_eval h.attached (h.sending.more hleft).1, sendEvalHandler, if_pos hio]
  exact failed_finalize h.attached (.http 504) (by decide) .timeout

/-- A write event in time sends what the socket takes, and fails where `send_eval` does. -/
theorem Queued.write {left : Bytes} {r : RoundTrip} (h : Queued left r) (hleft : left ≠ [])
    {io : Io} (hio : io.timedout = false) :
    (sendRc io (sendEnd io.sends left) = .ok →
        Queued (unsent io.sends left) (r.step (.write io))) ∧
      (sendRc io (sendEnd io.sends left) ≠ .ok →
        FailedWith (errorStatus (sendRc io (sendEnd io.sends left))) (r.step (.write io))) := by
  obtain ⟨hrc, hsending⟩ := sendLoop_spec io io.sends h.sending.requestBufs
  obtain ⟨bufs, handler, timer, hframe⟩ := sendLoop_frame io io.sends r
  rw [step_write_eval h.attached (h.sending.more hleft).1, sendEvalHandler,
    if_neg (by rw [hio]; decide), sendEval]
  generalize sendLoop io io.sends r = result at hrc hsending hframe ⊢
  obtain ⟨rc, q⟩ := result
  dsimp only at hrc hsending hframe
  rw [← hrc]
  have hattached : q.attached = true := by
    rw [hframe]
    exact h.attached
  have hhandler : q.readHandler = .header := by
    rw [hframe]
    exact h.readHandler
  have hlatch : q.evalFallback = true := by
    rw [hframe]
    exact h.evalFallback
  rcases sendRc_cases io (sendEnd io.sends left) with hcode | hcode | hcode
  · obtain rfl : rc = .ok := hrc.trans hcode
    exact ⟨fun _ => ⟨hattached, hhandler, hlatch, hsending rfl⟩, fun hne => absurd rfl hne⟩
  · obtain rfl : rc = .error := hrc.trans hcode
    exact ⟨fun hok => (by cases hok), fun _ => failed_finalize hattached .error (by decide) .internal⟩
  · obtain rfl : rc = .http 502 := hrc.trans hcode
    exact ⟨fun hok => (by cases hok),
      fun _ => failed_finalize hattached (.http 502) (by decide) .sendError⟩

/-- That is, it is a call of `send_eval` with the bytes that are left. -/
theorem Queued.afterSend {left : Bytes} {r : RoundTrip} (h : Queued left r) (hleft : left ≠ [])
    {io : Io} (hio : io.timedout = false) : AfterSend io left (r.step (.write io)) :=
  ⟨fun hrc => .inl ((h.write hleft hio).1 hrc), (h.write hleft hio).2⟩

/-- What it hands to the socket. -/
theorem Queued.sentIn_write {left : Bytes} {r : RoundTrip} (h : Queued left r) (io : Io) :
    r.sentIn (.write io) =
      if left ≠ [] ∧ io.timedout = false then accepted io.sends left else [] := by
  by_cases hleft : left = []
  · rw [if_neg (fun hand => hand.1 hleft)]
    simp [RoundTrip.sentIn, (h.sending.sent hleft).1]
  · simp [RoundTrip.sentIn, h.attached, (h.sending.more hleft).1, h.sending.requestBufs, hleft]

/-- With no bytes left, it does nothing. -/
theorem Queued.write_nil {r : RoundTrip} (h : Queued [] r) (io : Io) :
    r.step (.write io) = r := by
  apply step_write_other
  rw [(h.sending.sent rfl).1]
  decide

/-- A failed round trip is over. -/
theorem FailedWith.isOver {status : ℕ} {r : RoundTrip} (h : FailedWith status r) : Over r :=
  .inl h.attached

/-! ## Whole runs -/

/-- What is known of a round trip that has sent these bytes of `EVAL`. -/
inductive SendInv (conf : LocConf) (key sent : Bytes) (r : RoundTrip) : Prop where
  | unqueued (h : Unqueued conf key r) (hsent : sent = [])
  | queued (left : Bytes) (h : Queued left r) (hsent : sent ++ left = evalBytes conf key)
  | finished (h : Over r) (hsent : sent <+: evalBytes conf key)

/-- What was sent is always the beginning of `EVAL`. -/
theorem SendInv.sent_isPrefix {conf : LocConf} {key sent : Bytes} {r : RoundTrip}
    (h : SendInv conf key sent r) : sent <+: evalBytes conf key := by
  cases h with
  | unqueued h hsent => exact hsent ▸ List.nil_prefix
  | queued left h hsent => exact ⟨left, hsent⟩
  | finished h hsent => exact hsent

/-- A call of `send_eval` keeps it. -/
theorem AfterSend.sendInv {conf : LocConf} {key sent left : Bytes} {io : Io} {r : RoundTrip}
    (h : AfterSend io left r) (hsent : sent ++ left = evalBytes conf key) :
    SendInv conf key (sent ++ accepted io.sends left) r := by
  have hall : (sent ++ accepted io.sends left) ++ unsent io.sends left = evalBytes conf key := by
    rw [List.append_assoc, accepted_append_unsent, hsent]
  by_cases hrc : sendRc io (sendEnd io.sends left) = .ok
  · rcases h.ok hrc with hqueued | hover
    · exact .queued _ hqueued hall
    · exact .finished hover ⟨_, hall⟩
  · exact .finished (h.failed hrc).isOver ⟨_, hall⟩

/-- Every event keeps it. -/
theorem SendInv.step {conf : LocConf} {key sent : Bytes} {r : RoundTrip}
    (h : SendInv conf key sent r) (e : Event) :
    SendInv conf key (sent ++ r.sentIn e) (r.step e) := by
  cases h with
  | unqueued h hsent =>
    subst hsent
    cases e with
    | arrive data =>
      rw [step_arrive h.attached]
      exact .unqueued (h.same (sameSend_fill r _ r.buffer)) rfl
    | read io =>
      rw [RoundTrip.sentIn]
      rcases h.read io with ⟨hnone, h | hover⟩ | ⟨hone, h⟩
      · rw [hnone]
        exact .unqueued h rfl
      · rw [hnone]
        exact .finished hover List.nil_prefix
      · rw [hone, List.flatMap_singleton]
        exact h.sendInv (List.nil_append _)
    | write io =>
      rw [step_write_other (by rw [h.writeHandler]; decide)]
      exact .unqueued h (by simp [RoundTrip.sentIn, h.writeHandler])
  | queued left h hsent =>
    cases e with
    | arrive data =>
      rw [step_arrive h.attached, RoundTrip.sentIn, List.append_nil]
      exact .queued left (h.same (sameSend_fill r _ r.buffer)) hsent
    | read io =>
      obtain ⟨hnone, hresult⟩ := h.read io
      rw [RoundTrip.sentIn, hnone, List.flatMap_nil, List.append_nil]
      rcases hresult with h | hover
      · exact .queued left h hsent
      · exact .finished hover ⟨left, hsent⟩
    | write io =>
      rw [h.sentIn_write]
      by_cases hleft : left = []
      · subst hleft
        rw [h.write_nil, if_neg (fun hand => hand.1 rfl), List.append_nil]
        exact .queued [] h hsent
      · cases hio : io.timedout with
        | true =>
          rw [if_neg (by simp), List.append_nil]
          exact .finished (h.write_timedout hleft hio).isOver ⟨left, hsent⟩
        | false =>
          rw [if_pos ⟨hleft, rfl⟩]
          exact (h.afterSend hleft hio).sendInv hsent
  | finished h hsent =>
    rw [h.sentIn, List.append_nil]
    exact .finished (h.step e) hsent

/-- A whole run keeps the invariant, with all bytes that it sends. -/
theorem SendInv.run {conf : LocConf} {key sent : Bytes} {r : RoundTrip}
    (h : SendInv conf key sent r) (events : List Event) :
    SendInv conf key (sent ++ r.sentRun events) (r.run events) := by
  induction events generalizing sent r with
  | nil =>
    rw [sentRun, List.append_nil]
    exact h
  | cons e events ih =>
    rw [sentRun, ← List.append_assoc]
    exact ih (h.step e)

/-- A started round trip has sent nothing. -/
theorem sendInv_start (conf : LocConf) (key : Bytes) : SendInv conf key [] (start conf key) :=
  .unqueued ⟨rfl, rfl, rfl, rfl, rfl, rfl⟩ rfl

/-! ## Writes that go on -/

/-- One such event. -/
theorem Queued.goes {left : Bytes} {r : RoundTrip} (h : Queued left r) {e : Event}
    (he : e.Goes) :
    ∃ left', Queued left' (r.step e) ∧ r.sentIn e ++ left' = left ∧
      left'.length ≤ left.length - (if e.progress then 1 else 0) := by
  cases e with
  | arrive data =>
    rw [step_arrive h.attached]
    exact ⟨left, h.same (sameSend_fill r _ r.buffer), rfl, Nat.le_refl _⟩
  | read io => exact he.elim
  | write io =>
    obtain ⟨htimedout, hevent, herror⟩ := he
    rw [h.sentIn_write]
    by_cases hleft : left = []
    · subst hleft
      rw [h.write_nil, if_neg (fun hand => hand.1 rfl)]
      exact ⟨[], h, rfl, Nat.zero_le _⟩
    · have hrc : sendRc io (sendEnd io.sends left) = .ok := by
        cases hend : sendEnd io.sends left with
        | sent => rfl
        | again => rw [sendRc, if_pos hevent]
        | error => exact absurd hend (sendEnd_ne_error herror left)
      rw [if_pos ⟨hleft, htimedout⟩]
      refine ⟨_, (h.write hleft htimedout).1 hrc, accepted_append_unsent io.sends left, ?_⟩
      split
      · rename_i hprogress
        have hlt := length_unsent_progress hprogress hleft
        omega
      · exact length_unsent_le io.sends left

/-- And a list of them: every write event with progress sends one byte at least. -/
theorem Queued.goes_run {left : Bytes} {r : RoundTrip} (h : Queued left r) {events : List Event}
    (hevents : ∀ e ∈ events, e.Goes) :
    ∃ left', Queued left' (r.run events) ∧ r.sentRun events ++ left' = left ∧
      left'.length ≤ left.length - events.countP Event.progress := by
  induction events generalizing left r with
  | nil => exact ⟨left, h, rfl, Nat.le_refl _⟩
  | cons e events ih =>
    obtain ⟨left₁, h₁, hsent₁, hlen₁⟩ := h.goes (hevents e List.mem_cons_self)
    obtain ⟨left₂, h₂, hsent₂, hlen₂⟩ := ih h₁ fun e' he' => hevents e' (List.mem_cons_of_mem e he')
    refine ⟨left₂, h₂, ?_, ?_⟩
    · rw [sentRun, List.append_assoc, hsent₂, hsent₁]
    · rw [List.countP_cons]
      omega

/-- What is over builds nothing. -/
theorem Over.builds {r : RoundTrip} (h : Over r) (e : Event) : r.builds e = [] := by
  rcases h with h | h
  · cases e <;> simp [RoundTrip.builds, h]
  · cases e <;> simp [RoundTrip.builds, h.readHandler]

/-- The statuses of a call of `send_eval` that fails. -/
theorem failed_statuses {io : Io} {left : Bytes} {r : RoundTrip}
    (h : sendRc io (sendEnd io.sends left) ≠ .ok →
      FailedWith (errorStatus (sendRc io (sendEnd io.sends left))) r) :
    (sendEnd io.sends left = .error → FailedWith 502 r) ∧
      (sendEnd io.sends left = .again → io.writeEvent = false → FailedWith 500 r) := by
  refine ⟨fun hend => ?_, fun hend hevent => ?_⟩
  · rw [hend] at h
    exact h nofun
  · rw [hend, sendRc, hevent] at h
    exact h nofun

/-- The resend of `EVAL` over any run. What the socket has accepted is a prefix of the command. A
send error in the read event that calls `send_eval` first ends the round trip with 502, a failed
registration with 500. Until the reply begins, the accepted bytes and the bytes left are the
command, with the timer and the handler that the latter need; they are sent when write events go on,
and otherwise a timeout ends the round trip with 504, a send error with 502, a failed registration
with 500. -/
theorem eval_resend (conf : LocConf) (key : Bytes) (events : List Event) :
    let r := (start conf key).run events
    let sent := (start conf key).sentRun events
    sent <+: evalBytes conf key ∧
      (∀ io, r.builds (.read io) ≠ [] →
        (sendEnd io.sends (evalBytes conf key) = .error → FailedWith 502 (r.step (.read io))) ∧
        (sendEnd io.sends (evalBytes conf key) = .again → io.writeEvent = false →
          FailedWith 500 (r.step (.read io)))) ∧
      (r.attached = true → r.readHandler = .header → r.evalFallback = true →
        ∃ left, sent ++ left = evalBytes conf key ∧ Sending left r ∧
          (∀ more : List Event, (∀ e ∈ more, e.Goes) → left.length ≤ more.countP Event.progress →
            r.sentRun more = left ∧ Sending [] (r.run more)) ∧
          (left ≠ [] → ∀ io,
            (io.timedout = true → FailedWith 504 (r.step (.write io))) ∧
            (io.timedout = false → sendEnd io.sends left = .error →
              FailedWith 502 (r.step (.write io))) ∧
            (io.timedout = false → sendEnd io.sends left = .again → io.writeEvent = false →
              FailedWith 500 (r.step (.write io))))) := by
  intro r sent
  have hinv : SendInv conf key sent r := (sendInv_start conf key).run events
  refine ⟨hinv.sent_isPrefix, fun io hbuilds => ?_, fun hattached hhandler hlatch => ?_⟩
  · cases hinv with
    | unqueued h _ =>
      rcases h.read io with ⟨hnone, -⟩ | ⟨-, hafter⟩
      · exact absurd hnone hbuilds
      · exact failed_statuses hafter.failed
    | queued left h _ => exact absurd (h.read io).1 hbuilds
    | finished h _ => exact absurd (h.builds _) hbuilds
  · cases hinv with
    | unqueued h _ => exact absurd (h.evalFallback.symm.trans hlatch) (by decide)
    | queued left h hsent =>
      refine ⟨left, hsent, h.sending, fun more hmore hcount => ?_, fun hleft io => ?_⟩
      · -- Nothing is left when there are as many write events with progress as bytes.
        obtain ⟨left', h', hsent', hlen⟩ := h.goes_run hmore
        have hnil : left' = [] := List.eq_nil_of_length_eq_zero (by omega)
        rw [hnil, List.append_nil] at hsent'
        rw [hnil] at h'
        exact ⟨hsent', h'.sending⟩
      · refine ⟨h.write_timedout hleft, fun hio => ?_, fun hio => ?_⟩
        · exact (failed_statuses (h.write hleft hio).2).1
        · exact (failed_statuses (h.write hleft hio).2).2
    | finished h _ =>
      rcases h with h | h
      · exact absurd (h.symm.trans hattached) (by decide)
      · exact absurd (h.readHandler.symm.trans hhandler) (by decide)

/-- Eight bytes are out after a full socket and a short write. -/
example :
    let conf := LocConf.ofZone ⟨.gcra, 10, 60, 5, ⟨[], []⟩⟩ fun _ => ⟨text "return", text "sha"⟩
    let events : List Event := [.arrive (text "-NOSCRIPT\r\n"),
      .read (.good [.data 64] [.sent 5, .again]), .write (.good [] [.sent 3])]
    (start conf (text "k")).sentRun events = (evalBytes conf (text "k")).take 8 := by
  decide +kernel

end RoundTrip

end NginxRatelimit
