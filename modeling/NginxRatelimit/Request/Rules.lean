import NginxRatelimit.Request.RoundTrip

/-!
# Invariants of a round trip

The rule by which invariants of a round trip are proved. A round trip waits for the header (`W`) or
reads the body (`R`); in between the body begins (`B`), at the end the reply is parsed (`D`), and
wherever something fails it is in a state `F` that is finalized with an error. `Rules` lists what
the elementary operations have to keep, `Rules.read` and `Rules.write` conclude for the handlers,
all loops and branches included, and `RunRules.run` for whole runs.
-/

namespace NginxRatelimit

namespace RoundTrip

/-- The status of a round trip that ended for this reason; a parsed reply has its own. -/
def exitStatus : Exit → Option ℕ
  | .replied => none
  | .connectError => some 503
  | .timeout => some 504
  | .eof | .recvError | .sendError => some 502
  | .refused | .tooBig | .internal => some 500

/-- Finalizing with an error code for a reason that has its status. -/
def ErrorExit (rc : Rc) (why : Exit) : Prop :=
  exitStatus why = some (errorStatus rc) ∧ rc ≠ .ok ∧ rc ≠ .done ∧ rc ≠ .declined

/-- Whether a finalization is one with an error can be decided. -/
instance (rc : Rc) (why : Exit) : Decidable (ErrorExit rc why) :=
  inferInstanceAs (Decidable (_ ∧ _ ∧ _ ∧ _))

/-! ## Events -/

/-- Bytes that arrive wait on the socket. -/
theorem step_arrive {r : RoundTrip} (h : r.attached = true) (data : Bytes) :
    r.step (.arrive data) = { r with sock := r.sock ++ data } := by
  rw [step, h]
  rfl

/-- After finalization nothing changes. -/
theorem step_detached {r : RoundTrip} (h : r.attached = false) (e : Event) : r.step e = r := by
  unfold step
  rw [h]
  rfl

/-- A read event while the header is awaited. -/
theorem step_read_header {r : RoundTrip} (h : r.attached = true) (hhandler : r.readHandler = .header)
    (io : Io) : r.step (.read io) = r.readHeaderHandler io := by
  simp only [step, h, hhandler]
  rfl

/-- A read event in the body. -/
theorem step_read_body {r : RoundTrip} (h : r.attached = true) (hhandler : r.readHandler = .body)
    (io : Io) : r.step (.read io) = r.readBodyHandler io io.recvs := by
  simp only [step, h, hhandler]
  rfl

/-- A write event while `EVAL` is being sent. -/
theorem step_write_eval {r : RoundTrip} (h : r.attached = true)
    (hhandler : r.writeHandler = .sendEval) (io : Io) :
    r.step (.write io) = r.sendEvalHandler io := by
  simp only [step, h, hhandler]
  rfl

/-- The other handlers write nothing that is modelled. -/
theorem step_write_other {r : RoundTrip} (hhandler : r.writeHandler ≠ .sendEval) (io : Io) :
    r.step (.write io) = r := by
  unfold step
  cases hattached : r.attached with
  | false => rfl
  | true =>
    cases hw : r.writeHandler with
    | sendEval => exact absurd hw hhandler
    | core => rfl
    | dummy => rfl

/-! ## The codes that functions return -/

/-- `send_eval` returns a status of its own only when sending failed. -/
theorem sendLoop_rc (io : Io) (sends : List Send) (r : RoundTrip) :
    (sendLoop io sends r).1 = .ok ∨ (sendLoop io sends r).1 = .error ∨
      (sendLoop io sends r).1 = .http 502 := by
  fun_induction sendLoop io sends r with
  | case8 _ _ _ _ _ _ _ ih => exact ih
  | _ => simp

/-- `resend_eval` returns what `send_eval` does, or an error. -/
theorem resendEval_rc (io : Io) (r : RoundTrip) :
    (r.resendEval io).1 = .ok ∨ (r.resendEval io).1 = .error ∨ (r.resendEval io).1 = .http 502 := by
  unfold resendEval
  split
  · exact sendLoop_rc _ _ _
  · exact .inr (.inl rfl)

/-- The codes of `process_header`. -/
def HeaderCode (rc : Rc) : Prop :=
  rc = .ok ∨ rc = .again ∨ rc = .error ∨ rc = .invalidHeader ∨ rc = .http 502

/-- One reply of the prelude is consumed, awaited, or refused. -/
theorem consumePreludeReply_rc (r : RoundTrip) :
    (r.consumePreludeReply).1 = .ok ∨ (r.consumePreludeReply).1 = .again ∨
      (r.consumePreludeReply).1 = .error := by
  unfold consumePreludeReply
  dsimp only
  repeat' split
  all_goals simp

/-- So are all of them. -/
theorem consumePrelude_rc (n : ℕ) (r : RoundTrip) :
    (consumePrelude n r).1 = .ok ∨ (consumePrelude n r).1 = .again ∨
      (consumePrelude n r).1 = .error := by
  induction n generalizing r with
  | zero => exact .inl rfl
  | succ n ih =>
    unfold consumePrelude
    split
    · exact ih _
    · rename_i rc r' hne heq
      have h := consumePreludeReply_rc r
      rw [heq] at h
      exact h

/-- `process_header` returns no other codes. -/
theorem processHeader_rc (io : Io) (r : RoundTrip) : HeaderCode (r.processHeader io).1 := by
  unfold processHeader
  split
  · rename_i r' _
    unfold processType
    split
    · exact .inr (.inl rfl)
    · have hresend := resendEval_rc io r'
      repeat' split
      all_goals unfold HeaderCode
      all_goals try simp
      rename_i rc r'' hne heq
      rw [heq] at hresend
      rcases hresend with h | h | h
      · exact absurd h hne
      · simp_all
      · simp_all
  · rename_i rc r' hne heq
    have h := consumePrelude_rc r.preludeReplies r
    rw [heq] at h
    rcases h with h | h | h
    · exact .inl h
    · exact .inr (.inl h)
    · exact .inr (.inr (.inl h))

/-- Neither does `process_reply`. -/
theorem processReply_rc (r : RoundTrip) (bytes : Bytes) :
    (r.processReply bytes).1 = .ok ∨ (r.processReply bytes).1 = .again ∨
      (r.processReply bytes).1 = .error := by
  unfold processReply
  dsimp only
  split <;> simp

/-! ## What sending and receiving leave -/

/-- Sending changes the queued bytes, the write handler and the timer only. -/
theorem sendLoop_frame (io : Io) (sends : List Send) (r : RoundTrip) :
    ∃ bufs handler timer, (sendLoop io sends r).2 =
      { r with requestBufs := bufs, writeHandler := handler, writeTimer := timer } := by
  fun_induction sendLoop io sends r with
  | case8 _ _ _ _ _ _ _ ih => exact ih
  | _ => exact ⟨_, _, _, rfl⟩

/-- `resend_eval` fails before it has changed anything but the latch, or resets what it resets and
then sends. -/
theorem resendEval_cases (io : Io) (r : RoundTrip) :
    r.resendEval io = (.error, { r with evalFallback := true }) ∨
      ∃ rc bufs handler timer, r.resendEval io = (rc, { r with
        evalFallback := true
        buffer := r.buffer.map Buf.clear
        parse := ⟨.start, r.parse.status, 0, 0, -1, 0⟩
        preludeReplies := 0
        requestBufs := bufs
        writeHandler := handler
        writeTimer := timer }) := by
  unfold resendEval createRequest
  cases io.requestAlloc with
  | false => exact .inl rfl
  | true =>
    obtain ⟨bufs, handler, timer, hframe⟩ := sendLoop_frame io io.sends { r with
      evalFallback := true
      buffer := r.buffer.map Buf.clear
      parse := ⟨.start, r.parse.status, 0, 0, -1, 0⟩
      preludeReplies := 0
      requestBufs := [scriptCommand r.conf r.key true].map fun cmd => buildCommand cmd.argv }
    exact .inr ⟨_, bufs, handler, timer, Prod.ext rfl hframe⟩

/-- `resend_eval` sets the latch. -/
theorem resendEval_evalFallback (io : Io) (r : RoundTrip) :
    (r.resendEval io).2.evalFallback = true := by
  rcases resendEval_cases io r with hcase | ⟨rc, bufs, handler, timer, hcase⟩
  · rw [hcase]
  · rw [hcase]

/-- Where there is nothing to read, nothing changes. -/
theorem recv_again {r r₁ : RoundTrip} {size : ℕ} {x : Recv}
    (h : r.recv size x = (.again, r₁)) : r₁ = r := by
  unfold recv at h
  repeat' split at h
  all_goals cases h
  all_goals rfl

/-- A closed connection sets its flag. -/
theorem recv_zero {r r₁ : RoundTrip} {size : ℕ} {x : Recv}
    (h : r.recv size x = (.zero, r₁)) : r₁ = { r with readEof := true } := by
  unfold recv at h
  repeat' split at h
  all_goals cases h
  all_goals rfl

/-- So does a broken one. -/
theorem recv_error {r r₁ : RoundTrip} {size : ℕ} {x : Recv}
    (h : r.recv size x = (.error, r₁)) : r₁ = { r with readError := true } := by
  unfold recv at h
  repeat' split at h
  all_goals cases h
  all_goals rfl

/-- Received bytes are the first of the socket's, at least one, and fit. -/
theorem recv_bytes {r r₁ : RoundTrip} {size : ℕ} {x : Recv} {data : Bytes}
    (h : r.recv size x = (.bytes data, r₁)) :
    ∃ rest, r.sock = data ++ rest ∧ data ≠ [] ∧ data.length ≤ size ∧
      r₁ = { r with sock := rest } := by
  unfold recv at h
  repeat' split at h
  all_goals cases h
  rename_i n _ hmin
  rw [not_or] at hmin
  refine ⟨r.sock.drop (min n size), (List.take_append_drop _ _).symm, ?_, ?_, rfl⟩
  · rw [ne_eq, List.take_eq_nil_iff, not_or]
    exact hmin
  · rw [List.length_take]
    omega

/-- The loop of the body, where there is room and nothing to notice. -/
theorem redisLoop_cons {io : Io} {x : Recv} {xs : List Recv} {r : RoundTrip} (h : r.room ≠ 0) :
    redisLoop io false (x :: xs) r =
      match r.recv r.room x with
      | (.again, r) => r.waitForBody io
      | (.bytes data, r) =>
        match r.processReply data with
        | (.error, r) => r.finalizeUpstreamRequest .error .refused
        | (_, r) => redisLoop io true xs r
      | (_, r) => redisLoop io true xs r := by
  rw [redisLoop, doWrite, if_neg Bool.false_ne_true]
  exact if_neg h

/-- Finalizing touches nothing of the connection; a parsed reply stays. -/
theorem finalizeUpstreamRequest_frame {r : RoundTrip} (h : r.attached = true) (rc : Rc)
    (why : Exit) :
    ∃ headers p, r.finalizeUpstreamRequest rc why = { r with
      headersOut := headers
      finalized := true
      attached := false
      exit := some why
      parse := p } ∧ (rc = .done → p = r.parse) := by
  rw [finalizeUpstreamRequest, if_pos h]
  by_cases hrc : rc = .ok ∨ rc = .done ∨ rc = .declined
  · refine ⟨_, _, if_pos hrc, fun _ => rfl⟩
  · refine ⟨_, _, if_neg hrc, fun hdone => absurd (.inr (.inl hdone)) hrc⟩

/-- A finalization with an error records its reason. -/
theorem exit_finalizeUpstreamRequest {r : RoundTrip} (h : r.attached = true) (rc : Rc)
    (why : Exit) : (r.finalizeUpstreamRequest rc why).attached = false ∧
      (r.finalizeUpstreamRequest rc why).exit = some why := by
  obtain ⟨headers, p, hframe, -⟩ := finalizeUpstreamRequest_frame h rc why
  rw [hframe]
  exact ⟨rfl, rfl⟩

/-! ## The buffer's window -/

/-- Consumed bytes leave the window at its front. -/
theorem window_consume (r : RoundTrip) (n : ℕ) : (r.consume n).window = r.window.drop n := by
  cases h : r.buffer with
  | none => simp [window, consume, h]
  | some b => simp [window, consume, h, Buf.consume]

/-- Received bytes come to the end of the window. -/
theorem window_fill (r : RoundTrip) {data : Bytes} (h : data.length ≤ r.room) :
    ((r.buffer.map fun b : Buf => b.fill data).map Buf.window).getD [] = r.window ++ data := by
  cases hb : r.buffer with
  | none =>
    have hdata : data = [] := by
      simp only [room, hb, Option.map_none, Option.getD_none, Nat.le_zero] at h
      exact List.eq_nil_of_length_eq_zero h
    simp [window, hb, hdata]
  | some b =>
    simp [window, hb, Buf.fill]

/-- Bytes that are given to the parser and consumed leave nothing. -/
theorem window_advance (r : RoundTrip) (bytes : Bytes) (n : ℕ) (h : bytes.length ≤ n) :
    ({ r with buffer := r.buffer.map fun b : Buf => b.advance bytes }.consume n).window = [] := by
  rw [window_consume]
  cases hb : r.buffer with
  | none => simp [window]
  | some b =>
    refine List.drop_eq_nil_of_le ?_
    simpa [window, hb, Buf.advance] using h

/-! ## The rule -/

variable (io : Io) (W B R D F : RoundTrip → Prop)

/-- What a call of `process_reply` leads to. -/
def Parses (rc : Rc) (r : RoundTrip) : Prop :=
  (rc = .again → R r) ∧ (rc = .ok → D r) ∧ (rc = .error → F r)

/-- The body begins: what `read_header_handler` and `process_response` set before they read. -/
def enterBody (r : RoundTrip) : RoundTrip :=
  { r with length := -1, readHandler := .body, writeHandler := .dummy }

/-- What the elementary operations of a round trip have to keep. -/
structure Rules : Prop where
  /-- A waiting round trip is read by the header handler. -/
  waiting : ∀ {r}, W r → r.attached = true ∧ r.readHandler = .header
  /-- A reading one is read by the body handler, writes nothing, and has not got its reply. -/
  reading : ∀ {r}, R r → r.attached = true ∧ r.readHandler = .body ∧ r.writeHandler = .dummy ∧
    r.length ≠ 0
  /-- One that has got its reply has not been finalized. -/
  replied : ∀ {r}, D r → r.attached = true ∧ r.length = 0
  /-- A failed one has not been finalized either. -/
  failed : ∀ {r}, F r → r.attached = true
  /-- Waiting may fail. -/
  waiting_failed : ∀ {r}, W r → F r
  /-- Reading may fail. -/
  reading_failed : ∀ {r}, R r → F r
  /-- The buffer is allocated. -/
  alloc : ∀ {r}, W r → W { r with buffer := some (r.buffer.getD (.alloc r.conf.bufferSize)) }
  /-- The end of the stream, or an error, while waiting. -/
  waiting_eof : ∀ {r}, W r → F { r with readEof := true }
  waiting_error : ∀ {r}, W r → F { r with readError := true }
  /-- Bytes are received and given to `process_header`. -/
  header : ∀ {r r₁ x data}, W r → r.recv r.room x = (.bytes data, r₁) →
    let result := { r₁ with buffer := r₁.buffer.map fun b : Buf => b.fill data }.processHeader io
    (result.1 = .again → W result.2) ∧ (result.1 = .ok → B result.2) ∧
      (result.1 ≠ .again → result.1 ≠ .ok → F result.2)
  /-- `send_eval` is called on a write event. -/
  send : ∀ {r}, W r → ((r.sendEval io).1 = .ok → W (r.sendEval io).2) ∧
    ((r.sendEval io).1 ≠ .ok → F (r.sendEval io).2)
  /-- The body begins. -/
  body_failed : ∀ {r}, B r → F (enterBody r) ∧ F (enterBody r).clearBuffer
  body_bytes : ∀ {r}, B r → r.window ≠ [] →
    let result := { enterBody r with buffer := r.buffer.map Buf.rewind }.processReply r.window
    Parses R D F result.1 result.2
  body_empty : ∀ {r}, B r → r.window = [] → R (enterBody r).clearBuffer
  /-- The buffer is emptied. -/
  clear : ∀ {r}, R r → R r.clearBuffer
  /-- The end of the stream, or an error, while reading. -/
  reading_eof : ∀ {r}, R r → R { r with readEof := true }
  reading_error : ∀ {r}, R r → R { r with readError := true }
  /-- Bytes are received and given to `process_reply`. -/
  reply : ∀ {r r₁ x data}, R r → r.recv r.room x = (.bytes data, r₁) →
    Parses R D F (r₁.processReply data).1 (r₁.processReply data).2

/-- What an event leaves: a round trip that goes on, or one that was just finalized. -/
inductive Outcome (r : RoundTrip) : Prop where
  | waits (h : W r)
  | reads (h : R r)
  | replied (q : RoundTrip) (h : D q) (hr : r = q.finalizeUpstreamRequest .done .replied)
  | fails (q : RoundTrip) (rc : Rc) (why : Exit) (h : F q) (hexit : ErrorExit rc why)
    (hr : r = q.finalizeUpstreamRequest rc why)

variable {io W R D F} in
/-- A receive of the body's loop, and what follows it. -/
theorem redisLoop_bytes {xs : List Recv}
    (hxs : ∀ r, R r ∨ D r → Outcome W R D F (redisLoop io true xs r))
    {r r₁ : RoundTrip} {x : Recv} {data : Bytes} (hroom : r.room ≠ 0)
    (hx : r.recv r.room x = (.bytes data, r₁))
    (h : Parses R D F (r₁.processReply data).1 (r₁.processReply data).2) :
    Outcome W R D F (redisLoop io false (x :: xs) r) := by
  obtain ⟨hagain, hok, herror⟩ := h
  have hrc := processReply_rc r₁ data
  rw [redisLoop_cons hroom, hx]
  dsimp only
  cases hp : r₁.processReply data with
  | mk rc r₂ =>
    rw [hp] at hagain hok herror hrc
    rcases hrc with rfl | rfl | rfl
    · exact hxs r₂ (.inr (hok rfl))
    · exact hxs r₂ (.inl (hagain rfl))
    · exact .fails r₂ _ _ (herror rfl) (by decide) rfl

namespace Rules

variable {io W B R D F} (rules : Rules io W B R D F)
include rules

/-- Waiting for more of the body goes on reading, or fails to register the event. -/
theorem waitForBody_outcome {r : RoundTrip} (h : R r) : Outcome W R D F (r.waitForBody io) := by
  unfold waitForBody
  split
  · exact .reads h
  · exact .fails r _ _ (rules.reading_failed h) (by decide) rfl

/-- What precedes a read of the loop notices a reply that is complete. -/
theorem doWrite_outcome {write : Bool} {r : RoundTrip} {goOn : RoundTrip → RoundTrip}
    (h : R r ∨ (D r ∧ write = true)) (hgo : ∀ r, R r → Outcome W R D F (goOn r)) :
    Outcome W R D F (doWrite write r goOn) := by
  unfold doWrite
  rcases h with h | ⟨h, rfl⟩
  · have hlen := (rules.reading h).2.2.2
    rw [if_neg hlen]
    split
    · split
      · exact .fails r _ _ (rules.reading_failed h) (by decide) rfl
      · split
        · exact .fails r _ _ (rules.reading_failed h) (by decide) rfl
        · exact hgo _ (rules.clear h)
    · exact hgo _ h
  · rw [if_pos rfl, if_pos (rules.replied h).2]
    exact .replied r h rfl

/-- The loop of the body, from a state that reads, or from one that has got its reply and is about
to notice. -/
theorem redisLoop_outcome (recvs : List Recv) {write : Bool} {r : RoundTrip}
    (h : R r ∨ (D r ∧ write = true)) : Outcome W R D F (redisLoop io write recvs r) := by
  induction recvs generalizing write r with
  | nil =>
    rw [redisLoop]
    exact rules.doWrite_outcome h fun r hr => rules.waitForBody_outcome hr
  | cons x xs ih =>
    rw [redisLoop]
    refine rules.doWrite_outcome h fun r hr => ?_
    split
    · exact rules.waitForBody_outcome hr
    · rename_i hroom
      cases hx : r.recv r.room x with
      | mk received r₁ =>
        cases received with
        | again =>
          have hsame : r₁ = r := recv_again hx
          rw [hsame]
          exact rules.waitForBody_outcome hr
        | bytes data =>
          have hloop := redisLoop_bytes (W := W) (fun _ h => ih (h.imp_right fun h => ⟨h, rfl⟩))
            hroom hx (rules.reply hr hx)
          rw [redisLoop_cons hroom, hx] at hloop
          exact hloop
        | zero =>
          have hflag : r₁ = { r with readEof := true } := recv_zero hx
          rw [hflag]
          exact ih (.inl (rules.reading_eof hr))
        | error =>
          have hflag : r₁ = { r with readError := true } := recv_error hx
          rw [hflag]
          exact ih (.inl (rules.reading_error hr))

/-- The body handler fails by a timeout, or runs the loop. -/
theorem readBodyHandler_outcome (recvs : List Recv) {r : RoundTrip} (h : R r) :
    Outcome W R D F (r.readBodyHandler io recvs) := by
  unfold readBodyHandler
  split
  · exact .fails r _ _ (rules.reading_failed h) (by decide) rfl
  · exact rules.redisLoop_outcome recvs (.inl h)

/-- `process_response` parses what was received behind the header, and then reads on. -/
theorem processResponse_outcome (recvs : List Recv) {r : RoundTrip} (h : B r) :
    Outcome W R D F ({ r with length := -1 }.processResponse io recvs) := by
  have hfail := rules.body_failed h
  unfold processResponse
  dsimp only
  split
  · exact .fails (enterBody r) _ _ hfail.1 (by decide) rfl
  · split
    · rename_i hwindow
      -- The bytes behind the '*' in the same read are parsed at once.
      obtain ⟨hagain, hok, herror⟩ := rules.body_bytes h hwindow
      have hrc := processReply_rc { enterBody r with buffer := r.buffer.map Buf.rewind } r.window
      have hwin : window { r with
          length := -1, readHandler := .body, writeHandler := .dummy } = r.window := rfl
      simp only [enterBody] at hagain hok herror hrc
      rw [hwin]
      cases hp : RoundTrip.processReply { r with
          length := -1, readHandler := .body, writeHandler := .dummy
          buffer := r.buffer.map Buf.rewind } r.window with
      | mk rc r₂ =>
        rw [hp] at hagain hok herror hrc
        rcases hrc with rfl | rfl | rfl
        · have hdone := hok rfl
          dsimp only
          rw [if_pos (rules.replied hdone).2]
          exact .replied r₂ hdone rfl
        · have hreads := hagain rfl
          dsimp only
          rw [if_neg (rules.reading hreads).2.2.2]
          exact rules.readBodyHandler_outcome recvs hreads
        · exact .fails r₂ _ _ (herror rfl) (by decide) rfl
    · rename_i hwindow
      split
      · exact .fails _ _ _ hfail.2 (by decide) rfl
      · exact rules.readBodyHandler_outcome recvs (rules.body_empty h (not_not.mp hwindow))

/-- A receive of the header's loop, and what follows it. -/
theorem headerLoop_bytes {xs : List Recv}
    (hxs : ∀ r, W r → Outcome W R D F (headerLoop io xs r)) {r r₁ : RoundTrip} {x : Recv}
    {data : Bytes} (hx : r.recv r.room x = (.bytes data, r₁))
    (h : let result := { r₁ with
        buffer := r₁.buffer.map fun b : Buf => b.fill data }.processHeader io
      (result.1 = .again → W result.2) ∧ (result.1 = .ok → B result.2) ∧
        (result.1 ≠ .again → result.1 ≠ .ok → F result.2)) :
    Outcome W R D F (headerLoop io (x :: xs) r) := by
  obtain ⟨hagain, hok, hother⟩ := h
  have hrc := processHeader_rc io
    { r₁ with buffer := r₁.buffer.map fun b : Buf => b.fill data }
  rw [headerLoop, hx]
  dsimp only
  cases hp : { r₁ with
      buffer := r₁.buffer.map fun b : Buf => b.fill data }.processHeader io with
  | mk rc r₂ =>
    rw [hp] at hagain hok hother hrc
    rcases hrc with rfl | rfl | rfl | rfl | rfl
    · exact rules.processResponse_outcome xs (hok rfl)
    · dsimp only
      split
      · exact .fails r₂ _ _ (rules.waiting_failed (hagain rfl)) (by decide) rfl
      · exact hxs r₂ (hagain rfl)
    · exact .fails r₂ _ _ (hother nofun nofun) (by decide) rfl
    · exact .fails r₂ _ _ (hother nofun nofun) (by decide) rfl
    · exact .fails r₂ _ _ (hother nofun nofun) (by decide) rfl

/-- The loop of the header, from a state that waits. -/
theorem headerLoop_outcome (recvs : List Recv) {r : RoundTrip} (h : W r) :
    Outcome W R D F (headerLoop io recvs r) := by
  have hwait : ∀ {r : RoundTrip}, W r → Outcome W R D F
      (if io.readEvent then r else r.finalizeUpstreamRequest (.http 500) .internal) := by
    intro r h
    split
    · exact .waits h
    · exact .fails r _ _ (rules.waiting_failed h) (by decide) rfl
  -- The induction is on the reads that are left of the event.
  induction recvs generalizing r with
  | nil =>
    rw [headerLoop]
    exact hwait h
  | cons x xs ih =>
    rw [headerLoop]
    cases hx : r.recv r.room x with
    | mk received r₁ =>
      cases received with
      | again =>
        have hsame : r₁ = r := recv_again hx
        rw [hsame]
        exact hwait h
      | zero =>
        have hflag : r₁ = { r with readEof := true } := recv_zero hx
        rw [hflag]
        exact .fails _ _ _ (rules.waiting_eof h) (by decide) rfl
      | error =>
        have hflag : r₁ = { r with readError := true } := recv_error hx
        rw [hflag]
        exact .fails _ _ _ (rules.waiting_error h) (by decide) rfl
      | bytes data =>
        have hloop := rules.headerLoop_bytes (fun _ => ih) hx (rules.header h hx)
        rw [headerLoop, hx] at hloop
        exact hloop

/-- A read event. -/
theorem read {r : RoundTrip} (h : W r ∨ R r) : Outcome W R D F (r.step (.read io)) := by
  rcases h with h | h
  · obtain ⟨hattached, hhandler⟩ := rules.waiting h
    rw [step_read_header hattached hhandler, readHeaderHandler]
    split
    · exact .fails r _ _ (rules.waiting_failed h) (by decide) rfl
    · split
      · exact .fails r _ _ (rules.waiting_failed h) (by decide) rfl
      · split
        · exact .fails r _ _ (rules.waiting_failed h) (by decide) rfl
        · exact rules.headerLoop_outcome _ (rules.alloc h)
  · obtain ⟨hattached, hhandler, -⟩ := rules.reading h
    rw [step_read_body hattached hhandler]
    exact rules.readBodyHandler_outcome _ h

/-- A write event. -/
theorem write {r : RoundTrip} (h : W r ∨ R r) : Outcome W R D F (r.step (.write io)) := by
  rcases h with h | h
  · obtain ⟨hattached, -⟩ := rules.waiting h
    by_cases hw : r.writeHandler = .sendEval
    · rw [step_write_eval hattached hw, sendEvalHandler]
      split
      · exact .fails r _ _ (rules.waiting_failed h) (by decide) rfl
      · obtain ⟨hok, hother⟩ := rules.send h
        have hrc : (r.sendEval io).1 = .ok ∨ (r.sendEval io).1 = .error ∨
            (r.sendEval io).1 = .http 502 := sendLoop_rc io io.sends r
        cases hp : r.sendEval io with
        | mk rc r₂ =>
          rw [hp] at hok hother hrc
          rcases hrc with rfl | rfl | rfl
          · exact .waits (hok rfl)
          · exact .fails r₂ _ _ (hother nofun) (by decide) rfl
          · exact .fails r₂ _ _ (hother nofun) (by decide) rfl
    · rw [step_write_other hw]
      exact .waits h
  · obtain ⟨-, -, hhandler, -⟩ := rules.reading h
    rw [step_write_other (by rw [hhandler]; decide)]
    exact .reads h

end Rules

/-! ## Runs -/

/-- A run goes on where it was. -/
theorem run_append (r : RoundTrip) (events more : List Event) :
    r.run (events ++ more) = (r.run events).run more := List.foldl_append

/-- After finalization nothing happens any more. -/
theorem run_detached {r : RoundTrip} (h : r.attached = false) (events : List Event) :
    r.run events = r := by
  induction events with
  | nil => rfl
  | cons e events ih =>
    change (r.step e).run events = r
    rw [step_detached h, ih]

/-- The rule for runs: rules for every event, which bytes on the socket do not disturb, and what
holds after finalization. -/
structure RunRules (W B R D F E : RoundTrip → Prop) : Prop where
  /-- The rules. -/
  rules : ∀ io, Rules io W B R D F
  /-- Bytes arrive. -/
  waiting_arrive : ∀ {r} data, W r → W { r with sock := r.sock ++ data }
  reading_arrive : ∀ {r} data, R r → R { r with sock := r.sock ++ data }
  /-- The round trip is finalized. -/
  finalized : ∀ {r}, E r → r.attached = false
  replied : ∀ {r}, D r → E (r.finalizeUpstreamRequest .done .replied)
  failed : ∀ {r rc why}, F r → ErrorExit rc why → E (r.finalizeUpstreamRequest rc why)

namespace RunRules

variable {W B R D F E : RoundTrip → Prop} (rules : RunRules W B R D F E)
include rules

/-- What an event leaves has one of the three properties. -/
theorem outcome {r : RoundTrip} (h : Outcome W R D F r) : W r ∨ R r ∨ E r := by
  cases h with
  | waits h => exact .inl h
  | reads h => exact .inr (.inl h)
  | replied q h hr =>
    rw [hr]
    exact .inr (.inr (rules.replied h))
  | fails q rc why h hexit hr =>
    rw [hr]
    exact .inr (.inr (rules.failed h hexit))

/-- Every event keeps what holds. -/
theorem step {r : RoundTrip} (h : W r ∨ R r ∨ E r) (e : Event) :
    W (r.step e) ∨ R (r.step e) ∨ E (r.step e) := by
  rcases h with h | h | h
  · cases e with
    | arrive data =>
      rw [step_arrive ((rules.rules (.good [] [])).waiting h).1]
      exact .inl (rules.waiting_arrive data h)
    | read io => exact rules.outcome ((rules.rules io).read (.inl h))
    | write io => exact rules.outcome ((rules.rules io).write (.inl h))
  · cases e with
    | arrive data =>
      rw [step_arrive ((rules.rules (.good [] [])).reading h).1]
      exact .inr (.inl (rules.reading_arrive data h))
    | read io => exact rules.outcome ((rules.rules io).read (.inr h))
    | write io => exact rules.outcome ((rules.rules io).write (.inr h))
  · rw [step_detached (rules.finalized h)]
    exact .inr (.inr h)

/-- It holds after every run. -/
theorem run {r : RoundTrip} (h : W r ∨ R r ∨ E r) (events : List Event) :
    W (r.run events) ∨ R (r.run events) ∨ E (r.run events) := by
  induction events generalizing r with
  | nil => exact h
  | cons e events ih => exact ih (rules.step h e)

end RunRules

end RoundTrip

end NginxRatelimit
