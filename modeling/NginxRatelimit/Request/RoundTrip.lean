import NginxRatelimit.Request.Accept
import NginxRatelimit.Request.Conf

/-!
# One limiter round trip

The module's part of an upstream request: the read and write handlers that nginx calls on events of
the connection, down to `finalize_upstream_request`. What the handlers learn from nginx and from the
socket during one event is an `Io`. Read timers, logging, and the DNS and accounting lines that are
carried over from nginx are left out: nothing that is modelled reads them. `u->out_bufs` and
`u->busy_bufs` are never set by this module, so the branches on them are left out too.
-/

namespace NginxRatelimit

/-! ## State -/

/-- Return codes; `http` are HTTP statuses. -/
inductive Rc where
  | ok | error | again | done | declined | invalidHeader
  | http (status : ℕ)
  deriving DecidableEq, Repr

/-- `u->buffer`, with its pointers as the code moves them: nothing here keeps them in order. -/
structure Buf where
  /-- `end - start`. -/
  size : ℕ
  /-- `pos - start`. -/
  pos : ℕ
  /-- `last - start`. -/
  last : ℕ
  /-- The bytes from `pos` to `last`. -/
  window : Bytes

namespace Buf

/-- An empty buffer. -/
def alloc (size : ℕ) : Buf := ⟨size, 0, 0, []⟩

/-- `end - last`. -/
def room (b : Buf) : ℕ := b.size - b.last

/-- `pos = last = start`. -/
def clear (b : Buf) : Buf := ⟨b.size, 0, 0, []⟩

/-- Bytes are received at `last`: `last += n`. -/
def fill (b : Buf) (data : Bytes) : Buf := ⟨b.size, b.pos, b.last + data.length, b.window ++ data⟩

/-- `pos += n`. -/
def consume (b : Buf) (n : ℕ) : Buf := ⟨b.size, b.pos + n, b.last, b.window.drop n⟩

/-- `last = pos`. -/
def rewind (b : Buf) : Buf := ⟨b.size, b.pos, b.pos, []⟩

/-- `pos = last; last += n`, over the next bytes. -/
def advance (b : Buf) (data : Bytes) : Buf := ⟨b.size, b.last, b.last + data.length, data⟩

/-- `start <= pos <= last <= end`, and the window is what lies between `pos` and `last`. -/
structure Sound (b : Buf) : Prop where
  window : b.pos + b.window.length = b.last
  last_le : b.last ≤ b.size

end Buf

/-- `u->read_event_handler`. -/
inductive ReadHandler where
  /-- `ngx_http_ratelimit_read_header_handler`. -/
  | header
  /-- `ngx_http_ratelimit_read_body_handler`. -/
  | body
  deriving DecidableEq, Repr

/-- `u->write_event_handler`. -/
inductive WriteHandler where
  /-- The handler that nginx installed, which sends the first frame. -/
  | core
  /-- `ngx_http_ratelimit_send_eval_handler`. -/
  | sendEval
  /-- `ngx_http_ratelimit_dummy_handler`. -/
  | dummy
  deriving DecidableEq, Repr

/-- The response headers that the module adds. -/
inductive Header where
  | limit | remaining | reset | retryAfter
  deriving DecidableEq, Repr

/-- The name of a header. -/
def Header.name : Header → String
  | limit => "X-RateLimit-Limit"
  | remaining => "X-RateLimit-Remaining"
  | reset => "X-RateLimit-Reset"
  | retryAfter => "Retry-After"

/-- Why a round trip was finalized. -/
inductive Exit where
  /-- The reply was parsed to its end. -/
  | replied
  /-- Connecting failed. -/
  | connectError
  /-- A read or send timeout. -/
  | timeout
  /-- The peer closed the connection. -/
  | eof
  /-- Receiving failed. -/
  | recvError
  /-- Sending `EVAL` failed. -/
  | sendError
  /-- `process_header`, `consume_prelude_reply` or `process_reply` returned an error. -/
  | refused
  /-- The header did not fit into the buffer. -/
  | tooBig
  /-- An allocation or an event registration failed. -/
  | internal
  deriving DecidableEq, Repr

/-- A round trip: `ctx`, `r->upstream`, and its connection. -/
structure RoundTrip where
  /-- The location's configuration. -/
  conf : LocConf
  /-- `ctx->key`. -/
  key : Bytes
  /-- The parser's state and variables in `ctx`, with `u->state->status`. -/
  parse : Parse
  /-- `ctx->finalized`. -/
  finalized : Bool
  /-- `ctx->reply_parsed`. -/
  replyParsed : Bool
  /-- `ctx->eval_fallback`. -/
  evalFallback : Bool
  /-- `ctx->prelude_replies`. -/
  preludeReplies : ℕ
  /-- `u->cleanup != NULL`: the upstream request was not finalized. -/
  attached : Bool
  /-- `u->keepalive`. -/
  keepalive : Bool
  /-- `u->length`. -/
  length : ℤ
  /-- `u->buffer`; `none` before its allocation. -/
  buffer : Option Buf
  /-- The bytes from `pos` to `last` of each buffer of `u->request_bufs`. -/
  requestBufs : List Bytes
  /-- `u->read_event_handler`. -/
  readHandler : ReadHandler
  /-- `u->write_event_handler`. -/
  writeHandler : WriteHandler
  /-- The send timer is set. -/
  writeTimer : Bool
  /-- The headers added to the response. -/
  headersOut : List (Header × ℕ)
  /-- What has arrived on the socket and was not read. -/
  sock : Bytes
  /-- `c->read->eof`. -/
  readEof : Bool
  /-- `c->read->error`. -/
  readError : Bool
  /-- History: the bytes that `process_reply` was given. -/
  fed : Bytes
  /-- History: why the round trip was finalized. -/
  exit : Option Exit

/-- What one `recv` finds. -/
inductive Recv where
  /-- At most `n` bytes of the socket's. -/
  | data (n : ℕ)
  /-- Nothing yet. -/
  | again
  /-- The peer has closed. -/
  | eof
  /-- An error. -/
  | error
  deriving DecidableEq, Repr

/-- What one `send` does. -/
inductive Send where
  /-- At most `n` bytes are accepted. -/
  | sent (n : ℕ)
  /-- The socket is full. -/
  | again
  /-- An error. -/
  | error
  deriving DecidableEq, Repr

/-- What the handlers find during one event. -/
structure Io where
  /-- `c->read->timedout`, or `c->write->timedout` on a write event. -/
  timedout : Bool
  /-- `u->request_sent`. -/
  requestSent : Bool
  /-- `test_connect` finds an error. -/
  connectError : Bool
  /-- The allocation of `u->buffer` succeeds. -/
  bufferAlloc : Bool
  /-- The allocations of `create_request` succeed. -/
  requestAlloc : Bool
  /-- `ngx_handle_read_event` succeeds. -/
  readEvent : Bool
  /-- `ngx_handle_write_event` succeeds. -/
  writeEvent : Bool
  /-- `ngx_tcp_nodelay` succeeds, or is not configured. -/
  nodelay : Bool
  /-- `ngx_http_send_special(r, NGX_HTTP_FLUSH)` succeeds. -/
  flush : Bool
  /-- What the calls of `recv` find, in order; after them nothing. -/
  recvs : List Recv
  /-- What the calls of `send` do, in order; after them the socket is full. -/
  sends : List Send

/-- An event in which nothing fails. -/
def Io.good (recvs : List Recv) (sends : List Send) : Io where
  timedout := false
  requestSent := true
  connectError := false
  bufferAlloc := true
  requestAlloc := true
  readEvent := true
  writeEvent := true
  nodelay := true
  flush := true
  recvs := recvs
  sends := sends

/-- An event on the connection. -/
inductive Event where
  /-- Bytes arrive. -/
  | arrive (data : Bytes)
  /-- A read event. -/
  | read (io : Io)
  /-- A write event. -/
  | write (io : Io)

namespace RoundTrip

/-- The round trip as `ngx_http_ratelimit_handler` starts it, with the first frame queued by
`create_request`. -/
def start (conf : LocConf) (key : Bytes) : RoundTrip where
  conf := conf
  key := key
  parse := ⟨.start, 0, 0, 0, -1, 0⟩
  finalized := false
  replyParsed := false
  evalFallback := false
  preludeReplies := (buildPrelude conf).length
  attached := true
  keepalive := false
  length := 0
  buffer := none
  requestBufs := (firstFrame conf key).map fun cmd => buildCommand cmd.argv
  readHandler := .header
  writeHandler := .core
  writeTimer := false
  headersOut := []
  sock := []
  readEof := false
  readError := false
  fed := []
  exit := none

/-! ## Finalization -/

/-- The headers that `ngx_http_ratelimit_finalize_request` adds: only when the reply was parsed to
its end, and is a rejection or `ratelimit_headers` is on. -/
def rateHeaders (r : RoundTrip) : List (Header × ℕ) :=
  if r.replyParsed && (r.parse.status = 429 || (r.conf.enableHeaders && r.parse.status = 200)) then
    [(.limit, r.parse.limit), (.remaining, r.parse.remaining), (.reset, r.parse.reset)] ++
      if r.parse.retryAfter ≠ -1 then [(.retryAfter, (r.parse.retryAfter % uintT).toNat)] else []
  else []

/-- `ngx_http_ratelimit_finalize_request`. -/
def finalizeRequest (r : RoundTrip) : RoundTrip :=
  { r with headersOut := r.headersOut ++ r.rateHeaders, finalized := true }

/-- The status that a hard error leaves in `u->state->status`. -/
def errorStatus : Rc → ℕ
  | .http status => status
  | _ => 500

/-- `ngx_http_ratelimit_finalize_upstream_request`; `why` is recorded only. -/
def finalizeUpstreamRequest (r : RoundTrip) (rc : Rc) (why : Exit) : RoundTrip :=
  if r.attached then
    let r := { r.finalizeRequest with attached := false, exit := some why }
    -- The status of a parsed reply stays, any other one is overwritten.
    if rc = .ok ∨ rc = .done ∨ rc = .declined then r
    else { r with parse.status := errorStatus rc }
  else r

/-! ## Sending `EVAL` -/

/-- The loop of `ngx_http_ratelimit_send_eval` over the first buffer of `u->request_bufs`. -/
def sendLoop (io : Io) : List Send → RoundTrip → Rc × RoundTrip
  | sends, r =>
    match r.requestBufs with
    | [] | [] :: _ => (.ok, { r with writeTimer := false, writeHandler := .dummy })
    | b :: bufs =>
      match sends with
      | [] | .again :: _ =>
        let r := { r with writeHandler := .sendEval }
        if io.writeEvent then (.ok, { r with writeTimer := true }) else (.error, r)
      | .error :: _ => (.http 502, r)
      | .sent n :: sends => sendLoop io sends { r with requestBufs := b.drop n :: bufs }

/-- `ngx_http_ratelimit_send_eval`. -/
def sendEval (io : Io) (r : RoundTrip) : Rc × RoundTrip := sendLoop io io.sends r

/-- `ngx_http_ratelimit_send_eval_handler`. -/
def sendEvalHandler (io : Io) (r : RoundTrip) : RoundTrip :=
  if io.timedout then r.finalizeUpstreamRequest (.http 504) .timeout
  else
    match r.sendEval io with
    | (.ok, r) => r
    | (.http status, r) => r.finalizeUpstreamRequest (.http status) .sendError
    | (rc, r) => r.finalizeUpstreamRequest rc .internal

/-- `ngx_http_ratelimit_create_request`, the first time or after `NOSCRIPT`. -/
def createRequest (io : Io) (r : RoundTrip) : Rc × RoundTrip :=
  if io.requestAlloc then
    let frame := if r.evalFallback then [scriptCommand r.conf r.key true]
      else firstFrame r.conf r.key
    (.ok, { r with requestBufs := frame.map fun cmd => buildCommand cmd.argv })
  else (.error, r)

/-- `ngx_http_ratelimit_resend_eval`: the `NOSCRIPT` reply is discarded, and the parser reset. -/
def resendEval (io : Io) (r : RoundTrip) : Rc × RoundTrip :=
  match createRequest io { r with evalFallback := true } with
  | (.ok, r) =>
    sendEval io { r with
      buffer := r.buffer.map Buf.clear
      parse := ⟨.start, r.parse.status, 0, 0, -1, 0⟩
      preludeReplies := 0 }
  | (_, r) => (.error, r)

/-! ## Reading replies -/

/-- The unconsumed bytes of `u->buffer`. -/
def window (r : RoundTrip) : Bytes := (r.buffer.map Buf.window).getD []

/-- `b->pos += n`. -/
def consume (r : RoundTrip) (n : ℕ) : RoundTrip :=
  { r with buffer := r.buffer.map fun b : Buf => b.consume n }

/-- `ngx_http_ratelimit_consume_prelude_reply`. -/
def consumePreludeReply (r : RoundTrip) : Rc × RoundTrip :=
  let line := r.window.takeWhile (· ≠ LF)
  if line.length = r.window.length then (.again, r)
  else if r.window.head? = some (ascii '+') then (.ok, r.consume (line.length + 1))
  else (.error, r)

/-- The loop of `process_header` over the `AUTH` and `SELECT` replies. -/
def consumePrelude : ℕ → RoundTrip → Rc × RoundTrip
  | 0, r => (.ok, r)
  | n + 1, r =>
    match r.consumePreludeReply with
    | (.ok, r) => consumePrelude n { r with preludeReplies := n }
    | (rc, r) => (rc, r)

/-- The part of `ngx_http_ratelimit_process_header` after the prelude. -/
def processType (io : Io) (r : RoundTrip) : Rc × RoundTrip :=
  match r.window with
  | [] => (.again, r)
  | chr :: rest =>
    if chr = ascii '*' then (.ok, { r.consume 1 with parse.status := 200 })
    else if chr = ascii '-' then
      if LF ∉ rest then (.again, r)
      else if !r.evalFallback && rest.take 8 = text "NOSCRIPT" then
        match r.resendEval io with
        | (.ok, r) => (.again, r)
        | (rc, r) => (rc, r)
      else (.error, r)
    else (.invalidHeader, r)

/-- `ngx_http_ratelimit_process_header`. -/
def processHeader (io : Io) (r : RoundTrip) : Rc × RoundTrip :=
  match consumePrelude r.preludeReplies r with
  | (.ok, r) => r.processType io
  | (rc, r) => (rc, r)

/-- `ngx_http_ratelimit_process_reply` on the bytes from `b->last` on. -/
def processReply (r : RoundTrip) (bytes : Bytes) : Rc × RoundTrip :=
  let r := { r with buffer := r.buffer.map fun b : Buf => b.advance bytes, fed := r.fed ++ bytes }
  match replyLoop r.parse bytes with
  | .again p => (.again, { r.consume bytes.length with parse := p })
  | .error p => (.error, { r with parse := { p with state := r.parse.state } })
  | .done p rest =>
    (.ok, { r.consume (bytes.length - rest.length) with
      parse := { p with state := r.parse.state }
      keepalive := true
      length := 0
      replyParsed := true })

/-- What a call of `recv` returns. -/
inductive Received where
  /-- `NGX_AGAIN`. -/
  | again
  /-- A positive number of bytes. -/
  | bytes (data : Bytes)
  /-- 0. -/
  | zero
  /-- `NGX_ERROR`. -/
  | error

/-- `c->recv` into a space of `size` bytes. -/
def recv (r : RoundTrip) (size : ℕ) : Recv → Received × RoundTrip
  | .again => (.again, r)
  | .eof => (.zero, { r with readEof := true })
  | .error => (.error, { r with readError := true })
  | .data n =>
    -- Asked for no bytes, `recv` returns 0, which reads as a closed connection.
    if size = 0 then (.zero, { r with readEof := true })
    else if min n size = 0 ∨ r.sock = [] then (.again, r)
    else (.bytes (r.sock.take (min n size)), { r with sock := r.sock.drop (min n size) })

/-- `b->end - b->last`. -/
def room (r : RoundTrip) : ℕ := (r.buffer.map Buf.room).getD 0

/-- `b->pos = b->last = b->start`. -/
def clearBuffer (r : RoundTrip) : RoundTrip := { r with buffer := r.buffer.map Buf.clear }

/-- The end of `ngx_http_ratelimit_process_redis_response`, when nothing can be read for now. -/
def waitForBody (io : Io) (r : RoundTrip) : RoundTrip :=
  if io.readEvent then r else r.finalizeUpstreamRequest .error .internal

/-- The `do_write` part of the loop of `ngx_http_ratelimit_process_redis_response`: it finalizes a
parsed reply, a closed and a broken connection, and otherwise empties the buffer and goes on. -/
def doWrite (write : Bool) (r : RoundTrip) (goOn : RoundTrip → RoundTrip) : RoundTrip :=
  if write then
    if r.length = 0 then r.finalizeUpstreamRequest .done .replied
    else if r.readEof then r.finalizeUpstreamRequest (.http 502) .eof
    else if r.readError then r.finalizeUpstreamRequest (.http 502) .recvError
    else goOn r.clearBuffer
  else goOn r

/-- The loop of `ngx_http_ratelimit_process_redis_response`. -/
def redisLoop (io : Io) : Bool → List Recv → RoundTrip → RoundTrip
  | write, [], r => doWrite write r (waitForBody io)
  | write, x :: xs, r =>
    doWrite write r fun r =>
      if r.room = 0 then r.waitForBody io
      else
        match r.recv r.room x with
        | (.again, r) => r.waitForBody io
        | (.bytes data, r) =>
          match r.processReply data with
          | (.error, r) => r.finalizeUpstreamRequest .error .refused
          | (_, r) => redisLoop io true xs r
        | (_, r) => redisLoop io true xs r

/-- `ngx_http_ratelimit_process_redis_response`. -/
def processRedisResponse (io : Io) (write : Bool) (recvs : List Recv) (r : RoundTrip) :
    RoundTrip :=
  redisLoop io (write || r.length = 0) recvs r

/-- `ngx_http_ratelimit_read_body_handler`. -/
def readBodyHandler (io : Io) (recvs : List Recv) (r : RoundTrip) : RoundTrip :=
  if io.timedout then r.finalizeUpstreamRequest (.http 504) .timeout
  else r.processRedisResponse io false recvs

/-- `ngx_http_ratelimit_process_response`. -/
def processResponse (io : Io) (recvs : List Recv) (r : RoundTrip) : RoundTrip :=
  let r := { r with readHandler := .body, writeHandler := .dummy }
  if !io.nodelay then r.finalizeUpstreamRequest .error .internal
  else if r.window ≠ [] then
    -- The bytes after the header are given to the parser where they are.
    match { r with buffer := r.buffer.map Buf.rewind }.processReply r.window with
    | (.error, r) => r.finalizeUpstreamRequest .error .refused
    | (_, r) =>
      if r.length = 0 then r.finalizeUpstreamRequest .done .replied
      else r.readBodyHandler io recvs
  else
    let r := r.clearBuffer
    if !io.flush then r.finalizeUpstreamRequest .error .internal
    else r.readBodyHandler io recvs

/-- The loop of `ngx_http_ratelimit_read_header_handler`, and what follows it. -/
def headerLoop (io : Io) : List Recv → RoundTrip → RoundTrip
  | [], r => if io.readEvent then r else r.finalizeUpstreamRequest (.http 500) .internal
  | x :: xs, r =>
    match r.recv r.room x with
    | (.again, r) => if io.readEvent then r else r.finalizeUpstreamRequest (.http 500) .internal
    | (.zero, r) => r.finalizeUpstreamRequest (.http 502) .eof
    | (.error, r) => r.finalizeUpstreamRequest (.http 502) .recvError
    | (.bytes data, r) =>
      match { r with buffer := r.buffer.map fun b : Buf => b.fill data }.processHeader io with
      | (.again, r) =>
        if r.room = 0 then r.finalizeUpstreamRequest (.http 500) .tooBig
        else headerLoop io xs r
      | (.invalidHeader, r) => r.finalizeUpstreamRequest (.http 500) .refused
      | (.http 502, r) => r.finalizeUpstreamRequest (.http 502) .sendError
      | (.error, r) => r.finalizeUpstreamRequest (.http 500) .refused
      | (_, r) => { r with length := -1 }.processResponse io xs

/-- `ngx_http_ratelimit_read_header_handler`. -/
def readHeaderHandler (io : Io) (r : RoundTrip) : RoundTrip :=
  if io.timedout then r.finalizeUpstreamRequest (.http 504) .timeout
  else if !io.requestSent && io.connectError then
    r.finalizeUpstreamRequest (.http 503) .connectError
  else if r.buffer.isNone && !io.bufferAlloc then
    r.finalizeUpstreamRequest (.http 500) .internal
  else
    headerLoop io io.recvs
      { r with buffer := some (r.buffer.getD (.alloc r.conf.bufferSize)) }

/-! ## Runs -/

/-- An event. After finalization the connection is gone. -/
def step (r : RoundTrip) (e : Event) : RoundTrip :=
  if !r.attached then r
  else
    match e with
    | .arrive data => { r with sock := r.sock ++ data }
    | .read io =>
      match r.readHandler with
      | .header => r.readHeaderHandler io
      | .body => r.readBodyHandler io io.recvs
    | .write io =>
      match r.writeHandler with
      | .sendEval => r.sendEvalHandler io
      | .core | .dummy => r

/-- A run of events. -/
def run (r : RoundTrip) (events : List Event) : RoundTrip := events.foldl step r

end RoundTrip

end NginxRatelimit
