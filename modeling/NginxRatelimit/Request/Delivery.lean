import NginxRatelimit.Request.Buffer

/-!
# Streams in pieces

A delivery is a stream from the peer as the handlers get it: cut into reads, the reads spread over
read events, with write events in between, and the end of the stream in the last event. When nothing
fails on our side, what a round trip comes to is the scan of the stream by the reader
(`run_delivery`), which knows nothing of the reads. While it goes on, the bytes that have come are
accounted for: those before the window are consumed, or the array has begun, and then the parser has
been given all bytes after its '*' in order.
-/

namespace NginxRatelimit

open Library

/-! ## Deliveries -/

/-- The calls of `recv` that find these pieces, and then the end of the stream if `eof`. -/
def receives : List Bytes → Bool → List Recv
  | [], false => []
  | [], true => [.eof]
  | c :: chunks, eof => .data c.length :: receives chunks eof

/-- An event of a delivery. -/
inductive Arrival where
  /-- Bytes arrive, and a read event receives them in these pieces. -/
  | reads (chunks : List Bytes) (sends : List Send)
  /-- A write event. -/
  | writes (sends : List Send)

namespace Arrival

/-- What is read. -/
def chunks : Arrival → List Bytes
  | reads chunks _ => chunks
  | writes _ => []

/-- What the calls of `send` do. -/
def sends : Arrival → List Send
  | reads _ sends | writes sends => sends

/-- The events of the round trip. -/
def events : Arrival → List Event
  | reads chunks sends =>
    [.arrive chunks.flatten, .read (.good (receives chunks false) sends)]
  | writes sends => [.write (.good [] sends)]

end Arrival

/-- A stream as it is delivered, to its end. -/
structure Delivery where
  /-- The events before the last one. -/
  arrivals : List Arrival
  /-- What the last event reads before the end of the stream. -/
  last : List Bytes
  /-- What the calls of `send` do in the last event. -/
  lastSends : List Send

namespace Delivery

/-- All reads, in order. -/
def reads (d : Delivery) : List Bytes := d.arrivals.flatMap Arrival.chunks ++ d.last

/-- The stream. -/
def stream (d : Delivery) : Bytes := d.reads.flatten

/-- The events of the round trip. -/
def events (d : Delivery) : List Event :=
  d.arrivals.flatMap Arrival.events ++
    [.arrive d.last.flatten, .read (.good (receives d.last true) d.lastSends)]

/-- The stream in one read. -/
def atOnce (stream : Bytes) : Delivery := ⟨[], [stream], []⟩

end Delivery

/-- No read goes beyond the end of a `NOSCRIPT` line: the peer sends nothing more until it has got
the `EVAL`. The reads come after `seen`. -/
def Separated (conf : LocConf) (seen : Bytes) (reads : List Bytes) : Prop :=
  ∀ before c after pre post, reads = before ++ c :: after → c = pre ++ post → pre ≠ [] →
    reader.scan (.start (buildPrelude conf).length false) (seen ++ before.flatten ++ pre) =
      .reading (.reply true) → post = []

/-- What holds of all reads holds of the first and, after them, of the others. -/
theorem Separated.append {conf : LocConf} {seen : Bytes} {reads more : List Bytes}
    (h : Separated conf seen (reads ++ more)) :
    Separated conf seen reads ∧ Separated conf (seen ++ reads.flatten) more := by
  constructor
  · intro before c after pre post hreads
    exact h before c (after ++ more) pre post (by rw [hreads]; simp)
  · intro before c after pre post hmore hc hpre hscan
    refine h (reads ++ before) c after pre post (by rw [hmore]; simp) hc hpre ?_
    rw [← hscan]
    simp

/-- What a delivery to a location has to be: reads are not empty, the buffer is larger than the
stream, sending does not fail, and nothing follows a `NOSCRIPT` line in a read. -/
structure Delivery.Fits (conf : LocConf) (d : Delivery) : Prop where
  nonempty : [] ∉ d.reads
  size : d.stream.length < conf.bufferSize
  sends : (∀ a ∈ d.arrivals, .error ∉ a.sends) ∧ .error ∉ d.lastSends
  separated : Separated conf [] d.reads

/-! ## Results -/

/-- What a round trip comes to. -/
structure Result where
  /-- `u->state->status`. -/
  status : ℕ
  /-- `ctx->limit`. -/
  limit : ℕ
  /-- `ctx->remaining`. -/
  remaining : ℕ
  /-- `ctx->reset`. -/
  reset : ℕ
  /-- `ctx->retry_after`. -/
  retryAfter : ℤ
  /-- `ctx->reply_parsed`. -/
  replyParsed : Bool
  /-- `u->keepalive`. -/
  keepalive : Bool
  /-- `ctx->eval_fallback`. -/
  evalFallback : Bool
  deriving DecidableEq

/-- The result of a finalized round trip. -/
def RoundTrip.result (r : RoundTrip) : Result :=
  ⟨r.parse.status, r.parse.limit, r.parse.remaining, r.parse.reset, r.parse.retryAfter, r.replyParsed,
    r.keepalive, r.evalFallback⟩

/-- The result at the end of a stream that leaves the reader there: a closed connection. -/
def Reader.result (t : Reader) : Result :=
  ⟨502, t.parse.limit, t.parse.remaining, t.parse.reset, t.parse.retryAfter, false, false, t.fallback⟩

/-- The result of a reply that was parsed to its end, or refused. -/
def Ending.result (e : Ending) : Result :=
  ⟨if e.replied then e.parse.status else 500, e.parse.limit, e.parse.remaining, e.parse.reset,
    e.parse.retryAfter, e.replied, e.replied, e.fallback⟩

/-- The result of a stream. -/
def streamResult (conf : LocConf) (stream : Bytes) : Result :=
  match reader.scan (.start (buildPrelude conf).length false) stream with
  | .reading t => t.result
  | .stopped e _ => e.result

/-- What the parser has made of bytes, whether it goes on or not. -/
def Parsed.parse : Parsed → Parse
  | again p | error p | done p _ => p

/-- The values that are parsed. -/
def Parse.values (p : Parse) : ℕ × ℕ × ℤ × ℕ := (p.limit, p.remaining, p.retryAfter, p.reset)

/-- The bytes that have come, of which `rest` came too late: `head` is consumed, and either the
reader stands before the window, or the array has begun and the parser was given `fed`, from whose
bytes, one after the other, it has its values. -/
def Examined (conf : LocConf) (seen : Bytes) (r : RoundTrip) : Prop :=
  ∃ head rest, (r.attached = true → rest = []) ∧
    reader.scan (.start (buildPrelude conf).length false) head =
      .reading (.start r.preludeReplies r.evalFallback) ∧
    ((r.fed = [] ∧ seen = head ++ r.window ++ rest) ∨
      (r.preludeReplies = 0 ∧ seen = head ++ ascii '*' :: (r.fed ++ rest) ∧
        (replyLoop .array r.fed).parse.values = r.parse.values))

/-! ## What holds while a stream is read -/

namespace RoundTrip

/-- A round trip whose reply has not begun. -/
structure Unbegun (conf : LocConf) (r : RoundTrip) : Prop where
  attached : r.attached = true
  location : r.conf = conf
  readHandler : r.readHandler = .header
  parse : r.parse = .init
  fed : r.fed = []
  replyParsed : r.replyParsed = false
  keepalive : r.keepalive = false
  readEof : r.readEof = false
  readError : r.readError = false
  size : ∀ b ∈ r.buffer, b.size = conf.bufferSize

/-- Such a round trip, when it has got `seen` and awaits more. -/
structure Awaiting (conf : LocConf) (seen : Bytes) (r : RoundTrip) : Prop where
  unbegun : Unbegun conf r
  last : ∀ b ∈ r.buffer, b.pos + b.window.length = b.last ∧ b.last ≤ seen.length
  head : ∃ head, seen = head ++ r.window ∧
    reader.scan (.start (buildPrelude conf).length false) head =
      .reading (.start r.preludeReplies r.evalFallback)
  window : ∃ t, reader.scan (.start r.preludeReplies r.evalFallback) r.window = .reading t ∧
    t.fallback = r.evalFallback ∧ t.parse = .init

/-- A round trip that has got `seen`, and is in the middle of the reply. -/
structure Parsing (conf : LocConf) (seen : Bytes) (r : RoundTrip) : Prop where
  attached : r.attached = true
  location : r.conf = conf
  readHandler : r.readHandler = .body
  writeHandler : r.writeHandler = .dummy
  length : r.length ≠ 0
  preludeReplies : r.preludeReplies = 0
  replyParsed : r.replyParsed = false
  keepalive : r.keepalive = false
  readEof : r.readEof = false
  readError : r.readError = false
  buffer : ∃ b, r.buffer = some b ∧ b.size = conf.bufferSize ∧ b.last ≤ seen.length
  window : r.window = []
  head : ∃ head, seen = head ++ ascii '*' :: r.fed ∧
    reader.scan (.start (buildPrelude conf).length false) head = .reading (.reply r.evalFallback)
  parse : replyLoop .array r.fed = .again r.parse

/-- A finalized round trip with this result. -/
structure Finished (conf : LocConf) (seen : Bytes) (result : Result) (r : RoundTrip) : Prop where
  attached : r.attached = false
  result : r.result = result
  examined : Examined conf seen r

/-- What has become of a round trip that has read all of `seen`, and the end of the stream if `eof`.
-/
inductive Reached (conf : LocConf) (seen : Bytes) (eof : Bool) (r : RoundTrip) : Prop where
  | awaits (h : Awaiting conf seen r) (hsock : r.sock = []) (heof : eof = false)
  | parses (h : Parsing conf seen r) (hsock : r.sock = []) (heof : eof = false)
  | stopped (e : Ending) (rest : Bytes)
      (hscan : reader.scan (.start (buildPrelude conf).length false) seen = .stopped e rest)
      (h : Finished conf seen e.result r)
  | ended (t : Reader) (heof : eof = true)
      (hscan : reader.scan (.start (buildPrelude conf).length false) seen = .reading t)
      (h : Finished conf seen t.result r)

variable {conf : LocConf} {seen : Bytes} {r : RoundTrip}

/-- The scan of what has come and of what follows. -/
theorem Awaiting.scan (h : Awaiting conf seen r) (w : Bytes) :
    reader.scan (.start (buildPrelude conf).length false) (seen ++ w) =
      reader.scan (.start r.preludeReplies r.evalFallback) (r.window ++ w) := by
  obtain ⟨head, hseen, hhead⟩ := h.head
  rw [hseen, List.append_assoc]
  exact Scanner.scan_append hhead _

/-- What is left on the socket does not matter. -/
theorem Awaiting.withSock (h : Awaiting conf seen r) (sock : Bytes) :
    Awaiting conf seen { r with sock := sock } :=
  have hu := h.unbegun
  ⟨⟨hu.attached, hu.location, hu.readHandler, hu.parse, hu.fed, hu.replyParsed, hu.keepalive,
    hu.readEof, hu.readError, hu.size⟩, h.last, h.head, h.window⟩

/-- What is parsed does not depend on the socket. -/
theorem Parsing.withSock (h : Parsing conf seen r) (sock : Bytes) :
    Parsing conf seen { r with sock := sock } :=
  ⟨h.attached, h.location, h.readHandler, h.writeHandler, h.length, h.preludeReplies, h.replyParsed,
    h.keepalive, h.readEof, h.readError, h.buffer, h.window, h.head, h.parse⟩

/-- While the reply is parsed, the reader is at the same place of the array. -/
theorem Parsing.scan (h : Parsing conf seen r) (w : Bytes) :
    reader.scan (.start (buildPrelude conf).length false) (seen ++ w) =
      reader.scan (.body r.evalFallback r.parse) w := by
  obtain ⟨head, hseen, hhead⟩ := h.head
  have hstar : reader.step (.reply r.evalFallback) (ascii '*') =
      .inl (.body r.evalFallback .array) := rfl
  rw [hseen, List.append_assoc, Scanner.scan_append hhead, List.cons_append,
    Scanner.scan_cons_inl hstar, Scanner.scan_append (Reader.scan_body_again _ h.parse)]

/-- Later bytes do not change a result. -/
theorem Finished.append {result : Result} (h : Finished conf seen result r) (more : Bytes) :
    Finished conf (seen ++ more) result r := by
  obtain ⟨head, rest, -, hhead, hcase⟩ := h.examined
  refine ⟨h.attached, h.result, head, rest ++ more, ?_, hhead, ?_⟩
  · intro hattached
    exact absurd (h.attached.symm.trans hattached) Bool.false_ne_true
  · rcases hcase with ⟨hfed, hseen⟩ | ⟨hleft, hseen, hvalues⟩
    · exact .inl ⟨hfed, by rw [hseen]; simp⟩
    · exact .inr ⟨hleft, by rw [hseen]; simp, hvalues⟩

/-! ## The body -/

/-- A receive of one of the pieces. -/
theorem recv_data {c more : Bytes} {size : ℕ} (hc : c ≠ []) (hsock : r.sock = c ++ more)
    (hsize : c.length ≤ size) :
    r.recv size (.data c.length) = (.bytes c, { r with sock := more }) := by
  have hpos : 0 < c.length := List.length_pos_iff.mpr hc
  have hsome : r.sock ≠ [] := by
    rw [hsock]
    exact fun h => hc (List.append_eq_nil_iff.mp h).1
  unfold recv
  dsimp only
  rw [Nat.min_eq_left hsize, if_neg (by omega : ¬ size = 0),
    if_neg (not_or.mpr ⟨by omega, hsome⟩), hsock, List.take_left, List.drop_left]

/-- The buffer is emptied. -/
theorem Parsing.clear (h : Parsing conf seen r) : Parsing conf seen r.clearBuffer := by
  obtain ⟨b, hb, hsize, -⟩ := h.buffer
  refine ⟨h.attached, h.location, h.readHandler, h.writeHandler, h.length, h.preludeReplies,
    h.replyParsed, h.keepalive, h.readEof, h.readError, ⟨b.clear, ?_, hsize, Nat.zero_le _⟩, ?_,
    h.head, h.parse⟩
  · rw [clearBuffer, hb]
    rfl
  · simp [clearBuffer, RoundTrip.window, hb, Buf.clear]

/-- Before the loop of the body receives. -/
theorem Parsing.doWrite (h : Parsing conf seen r) (write : Bool) (goOn : RoundTrip → RoundTrip) :
    doWrite write r goOn = goOn (if write then r.clearBuffer else r) := by
  unfold RoundTrip.doWrite
  cases write with
  | false => rfl
  | true => simp [h.length, h.readEof, h.readError]

/-- What a call of `process_reply` comes to. -/
theorem Parsing.processReply (h : Parsing conf seen r) (bytes : Bytes) :
    (∃ r', r.processReply bytes = (.again, r') ∧ Parsing conf (seen ++ bytes) r' ∧
        r'.sock = r.sock) ∨
      (∃ r' e rest, r.processReply bytes = (.error, r') ∧
        reader.scan (.start (buildPrelude conf).length false) (seen ++ bytes) = .stopped e rest ∧
        Finished conf (seen ++ bytes) e.result (r'.finalizeUpstreamRequest .error .refused)) ∨
      ∃ r' e rest, r.processReply bytes = (.ok, r') ∧ r'.length = 0 ∧
        reader.scan (.start (buildPrelude conf).length false) (seen ++ bytes) = .stopped e rest ∧
        Finished conf (seen ++ bytes) e.result (r'.finalizeUpstreamRequest .done .replied) := by
  obtain ⟨head, hseen, hhead⟩ := h.head
  obtain ⟨b, hb, hsize, hlast⟩ := h.buffer
  -- The parser goes on where it was after the bytes that it was given before.
  have hfed : replyLoop .array (r.fed ++ bytes) = replyLoop r.parse bytes := by
    rw [replyLoop_append, h.parse]
  have hbytes : seen ++ bytes = head ++ ascii '*' :: (r.fed ++ bytes) := by rw [hseen]; simp
  have hstand : reader.scan (.start (buildPrelude conf).length false) head =
      .reading (.start r.preludeReplies r.evalFallback) := by rw [h.preludeReplies]; exact hhead
  unfold RoundTrip.processReply
  dsimp only
  cases hloop : replyLoop r.parse bytes with
  | again q =>
    left
    refine ⟨_, rfl, ⟨h.attached, h.location, h.readHandler, h.writeHandler, h.length, h.preludeReplies,
      h.replyParsed, h.keepalive, h.readEof, h.readError, ?_, ?_, ⟨head, hbytes, hhead⟩,
      hfed.trans hloop⟩, rfl⟩
    · refine ⟨(b.advance bytes).consume bytes.length, by simp [consume, hb], hsize, ?_⟩
      rw [List.length_append]
      exact Nat.add_le_add_right hlast _
    · exact window_advance { r with fed := r.fed ++ bytes } bytes _ le_rfl
  | error q =>
    obtain ⟨rest, hscan⟩ := Reader.scan_body_error r.evalFallback hloop
    refine .inr (.inl ⟨_, _, rest, rfl, (h.scan bytes).trans hscan, ?_⟩)
    unfold finalizeUpstreamRequest
    rw [if_pos h.attached]
    refine ⟨rfl, ?_, head, [], fun _ => rfl, hstand, .inr ⟨h.preludeReplies, ?_, ?_⟩⟩
    · simp [result, Ending.result, finalizeRequest, errorStatus, h.replyParsed, h.keepalive]
    · simpa [finalizeRequest] using hbytes
    · simp [finalizeRequest, hfed, hloop, Parsed.parse, Parse.values]
  | done q rest =>
    have hscan := Reader.scan_body_done r.evalFallback hloop
    refine .inr (.inr ⟨_, _, rest, rfl, rfl, (h.scan bytes).trans hscan, ?_⟩)
    unfold finalizeUpstreamRequest
    rw [if_pos (by exact h.attached)]
    refine ⟨rfl, ?_, head, [], fun _ => rfl, hstand, .inr ⟨h.preludeReplies, ?_, ?_⟩⟩
    · simp [result, Ending.result, finalizeRequest, consume]
    · simpa [finalizeRequest, consume] using hbytes
    · simp [finalizeRequest, consume, hfed, hloop, Parsed.parse, Parse.values]

/-- The loop of the body reads the pieces. -/
theorem Parsing.redisLoop {io : Io} (hio : io.readEvent = true) {chunks : List Bytes} {eof : Bool}
    (h : Parsing conf seen r) (hchunks : [] ∉ chunks) (hsock : r.sock = chunks.flatten)
    (hroom : (seen ++ chunks.flatten).length < conf.bufferSize) (write : Bool) :
    Reached conf (seen ++ chunks.flatten) eof (redisLoop io write (receives chunks eof) r) := by
  induction chunks generalizing seen r write with
  | nil =>
    have hnext : Parsing conf seen (if write then r.clearBuffer else r) := by
      cases write with
      | false => exact h
      | true => exact h.clear
    have hnextSock : (if write then r.clearBuffer else r).sock = [] := by
      cases write <;> exact hsock
    rw [List.flatten_nil, List.append_nil] at hroom ⊢
    cases eof with
    | false =>
      rw [receives, RoundTrip.redisLoop, h.doWrite, waitForBody, if_pos hio]
      exact .parses hnext hnextSock rfl
    | true =>
      -- `recv` returns 0, and the next turn of the loop takes it for a closed connection.
      rw [receives, RoundTrip.redisLoop, h.doWrite]
      generalize (if write then r.clearBuffer else r) = r' at hnext
      obtain ⟨b, hb, hsize, hlast⟩ := hnext.buffer
      have hspace : r'.room ≠ 0 := by
        simp only [room, hb, Option.map_some, Option.getD_some, Buf.room]
        omega
      have hscan := hnext.scan []
      rw [List.append_nil] at hscan
      refine .ended _ rfl hscan ?_
      obtain ⟨head, hseen, hhead⟩ := hnext.head
      rw [if_neg hspace]
      simp only [recv, RoundTrip.redisLoop, RoundTrip.doWrite, if_pos, if_neg hnext.length]
      unfold finalizeUpstreamRequest
      rw [if_pos (by exact hnext.attached)]
      refine ⟨rfl, ?_, head, [], fun _ => rfl, ?_, .inr ⟨hnext.preludeReplies, ?_, ?_⟩⟩
      · simp [RoundTrip.result, Reader.result, Reader.parse, Reader.fallback, finalizeRequest,
          errorStatus, hnext.replyParsed, hnext.keepalive]
      · simp only [finalizeRequest]
        rw [if_neg (by decide), hnext.preludeReplies]
        exact hhead
      · simpa [finalizeRequest] using hseen
      · simp [finalizeRequest, hnext.parse, Parsed.parse, Parse.values]
  | cons c chunks ih =>
    have hnext : Parsing conf seen (if write then r.clearBuffer else r) := by
      cases write with
      | false => exact h
      | true => exact h.clear
    have hnextSock : (if write then r.clearBuffer else r).sock = c ++ chunks.flatten := by
      cases write <;> exact hsock
    obtain ⟨hc, hchunks⟩ := not_or.mp (mt List.mem_cons.mpr hchunks)
    rw [receives, RoundTrip.redisLoop, h.doWrite]
    generalize (if write then r.clearBuffer else r) = r' at hnext hnextSock
    obtain ⟨b, hb, hsize, hlast⟩ := hnext.buffer
    rw [List.flatten_cons, ← List.append_assoc] at hroom ⊢
    -- The piece fits, since the buffer has room for the whole stream.
    have hfits : c.length ≤ r'.room := by
      simp only [room, hb, Option.map_some, Option.getD_some, Buf.room]
      simp only [List.length_append] at hroom
      omega
    have hspace : r'.room ≠ 0 := by
      have hpos : 0 < c.length := List.length_pos_iff.mpr (Ne.symm hc)
      omega
    rw [if_neg hspace, recv_data (Ne.symm hc) hnextSock hfits]
    dsimp only
    rcases (hnext.withSock chunks.flatten).processReply c with
      ⟨r₂, hp, hr₂, hsock₂⟩ | ⟨r₂, e, rest, hp, hscan, hr₂⟩ |
      ⟨r₂, e, rest, hp, hlen, hscan, hr₂⟩
    · rw [hp]
      exact ih hr₂ hchunks hsock₂ hroom true
    · rw [hp]
      exact .stopped e _ (Scanner.scan_append_stopped hscan _) (hr₂.append _)
    · -- The reply is parsed; the next turn of the loop finalizes.
      rw [hp]
      have hdone : ∀ xs, RoundTrip.redisLoop io true xs r₂ =
          r₂.finalizeUpstreamRequest .done .replied := by
        intro xs
        cases xs <;> rw [RoundTrip.redisLoop, RoundTrip.doWrite, if_pos rfl, if_pos hlen]
      dsimp only
      rw [hdone]
      exact .stopped e _ (Scanner.scan_append_stopped hscan _) (hr₂.append _)

/-! ## The header -/

/-- Sending does not fail when no call of `send` and no registration does. -/
theorem sendLoop_ok {io : Io} (hio : io.writeEvent = true) (sends : List Send)
    (hsends : .error ∉ sends) (r : RoundTrip) : (sendLoop io sends r).1 = .ok := by
  fun_induction sendLoop io sends r with
  | case8 _ _ _ _ _ _ _ ih => exact ih fun h => hsends (List.mem_cons_of_mem _ h)
  | _ => simp_all

/-- The calls of an event in which nothing fails while the round trip writes. -/
structure Writes (io : Io) : Prop where
  requestAlloc : io.requestAlloc = true
  writeEvent : io.writeEvent = true
  sends : .error ∉ io.sends

/-- Where nothing fails, `EVAL` is sent. -/
theorem resendEval_ok {io : Io} (hio : Writes io) (r : RoundTrip) : (r.resendEval io).1 = .ok := by
  unfold RoundTrip.resendEval createRequest
  rw [hio.requestAlloc]
  exact sendLoop_ok hio.writeEvent io.sends hio.sends _

/-- After `EVAL` is sent the round trip awaits its reply; it has consumed all that it had got, which
ended with the `NOSCRIPT` line. -/
theorem Unbegun.resendEval {io : Io} (hio : Writes io) (h : Unbegun conf r)
    (hscan : reader.scan (.start (buildPrelude conf).length false) seen = .reading (.reply true)) :
    ∃ r', r.resendEval io = (.ok, r') ∧ Awaiting conf seen r' ∧ r'.sock = r.sock ∧
      (r.buffer.isSome = true → r'.buffer.isSome = true) := by
  have hok := resendEval_ok hio r
  rcases resendEval_cases io r with hcase | ⟨rc, bufs, handler, timer, hcase⟩
  · rw [hcase] at hok
    cases hok
  · rw [hcase] at hok
    obtain rfl : rc = .ok := hok
    have hempty : ((r.buffer.map Buf.clear).map Buf.window).getD [] = [] := by
      cases r.buffer <;> rfl
    have hinit : (⟨.start, r.parse.status, 0, 0, -1, 0⟩ : Parse) = .init := by
      rw [h.parse]
      rfl
    -- The buffer is cleared, so all that was seen is behind the reader.
    refine ⟨_, hcase, ⟨?_, ?_, ⟨seen, ?_, hscan⟩, ⟨.reply true, ?_, rfl, rfl⟩⟩, rfl, ?_⟩
    · refine ⟨h.attached, h.location, h.readHandler, hinit, h.fed, h.replyParsed, h.keepalive,
        h.readEof, h.readError, ?_⟩
      intro b hb
      obtain ⟨b', hb', rfl⟩ := Option.map_eq_some_iff.mp hb
      exact h.size b' hb'
    · intro b hb
      obtain ⟨b', hb', rfl⟩ := Option.map_eq_some_iff.mp hb
      exact ⟨rfl, Nat.zero_le _⟩
    · rw [RoundTrip.window, hempty, List.append_nil]
    · rw [RoundTrip.window, hempty]
      rfl
    · intro hsome
      rw [Option.isSome_map]
      exact hsome

/-- The calls of an event in which nothing fails. -/
structure Good (io : Io) : Prop where
  writes : Writes io
  timedout : io.timedout = false
  connectError : io.connectError = false
  bufferAlloc : io.bufferAlloc = true
  readEvent : io.readEvent = true
  nodelay : io.nodelay = true
  flush : io.flush = true

/-- In a good event nothing fails. -/
theorem good (recvs : List Recv) {sends : List Send} (h : .error ∉ sends) :
    Good (.good recvs sends) :=
  ⟨⟨rfl, rfl, h⟩, rfl, rfl, rfl, rfl, rfl, rfl⟩

/-- A round trip whose array has just begun: the window is what it has got of it. -/
structure Begun (conf : LocConf) (seen : Bytes) (r : RoundTrip) : Prop where
  attached : r.attached = true
  location : r.conf = conf
  parse : r.parse = .array
  fed : r.fed = []
  preludeReplies : r.preludeReplies = 0
  replyParsed : r.replyParsed = false
  keepalive : r.keepalive = false
  readEof : r.readEof = false
  readError : r.readError = false
  buffer : ∃ b, r.buffer = some b ∧ b.size = conf.bufferSize ∧
    b.pos + b.window.length = b.last ∧ b.last ≤ seen.length
  head : ∃ head, seen = head ++ ascii '*' :: r.window ∧
    reader.scan (.start (buildPrelude conf).length false) head = .reading (.reply r.evalFallback)

/-- A read event in the middle of the reply. -/
theorem Parsing.readBodyHandler {io : Io} (hio : Good io) {chunks : List Bytes} {eof : Bool}
    (h : Parsing conf seen r) (hchunks : [] ∉ chunks) (hsock : r.sock = chunks.flatten)
    (hroom : (seen ++ chunks.flatten).length < conf.bufferSize) :
    Reached conf (seen ++ chunks.flatten) eof (r.readBodyHandler io (receives chunks eof)) := by
  unfold RoundTrip.readBodyHandler processRedisResponse
  rw [if_neg (by rw [hio.timedout]; exact Bool.false_ne_true)]
  exact h.redisLoop hio.readEvent hchunks hsock hroom _

/-- The bytes after the '*' are given to the parser, or there are none yet. -/
theorem Begun.processResponse {io : Io} (hio : Good io) {chunks : List Bytes} {eof : Bool}
    (h : Begun conf seen r) (hchunks : [] ∉ chunks) (hsock : r.sock = chunks.flatten)
    (hroom : (seen ++ chunks.flatten).length < conf.bufferSize) :
    Reached conf (seen ++ chunks.flatten) eof
      ({ r with length := -1 }.processResponse io (receives chunks eof)) := by
  obtain ⟨b, hb, hsize, hpos, hlast⟩ := h.buffer
  obtain ⟨head, hseen, hhead⟩ := h.head
  have hlength : (-1 : ℤ) ≠ 0 := by decide
  have hwindow : r.window = b.window := by simp [RoundTrip.window, hb]
  have hwin : window { r with
      length := -1, readHandler := .body, writeHandler := .dummy } = r.window := rfl
  unfold RoundTrip.processResponse
  dsimp only
  rw [if_neg (by rw [hio.nodelay]; decide), hwin]
  by_cases hempty : r.window = []
  · -- The buffer is emptied, and the body begins with the next piece.
    rw [if_neg (not_not.mpr hempty), if_neg (by rw [hio.flush]; decide)]
    refine Parsing.readBodyHandler hio ?_ hchunks hsock hroom
    refine ⟨h.attached, h.location, rfl, rfl, hlength, h.preludeReplies, h.replyParsed, h.keepalive,
      h.readEof, h.readError, ⟨b.clear, ?_, hsize, Nat.zero_le _⟩, ?_, ⟨head, ?_, hhead⟩, ?_⟩
    · simp only [clearBuffer, hb]
      rfl
    · simp [clearBuffer, RoundTrip.window, hb, Buf.clear]
    · rw [hseen, hempty]
      exact congrArg (fun fed => head ++ ascii '*' :: fed) h.fed.symm
    · change replyLoop .array r.fed = .again r.parse
      rw [h.fed, h.parse]
      rfl
  · -- The parser gets what the header's reads have left in the window.
    rw [if_pos hempty]
    have hstart : Parsing conf (head ++ [ascii '*']) { r with
        length := -1, readHandler := .body, writeHandler := .dummy
        buffer := r.buffer.map Buf.rewind } := by
      refine ⟨h.attached, h.location, rfl, rfl, hlength, h.preludeReplies, h.replyParsed, h.keepalive,
        h.readEof, h.readError, ⟨b.rewind, by rw [hb]; rfl, hsize, ?_⟩, by rw [hb]; rfl,
        ⟨head, by rw [h.fed], hhead⟩, by rw [h.fed, h.parse]; rfl⟩
      have hlen := congrArg List.length hseen
      rw [List.length_append, List.length_cons, hwindow] at hlen
      rw [List.length_append, List.length_singleton]
      simp only [Buf.rewind]
      omega
    have hall : head ++ [ascii '*'] ++ r.window = seen := by rw [hseen]; simp
    have hparse := hstart.processReply r.window
    rw [hall] at hparse
    rcases hparse with ⟨r₂, hp, hr₂, hsock₂⟩ | ⟨r₂, e, rest, hp, hscan, hr₂⟩ |
      ⟨r₂, e, rest, hp, hlen, hscan, hr₂⟩
    · rw [hp]
      dsimp only
      rw [if_neg hr₂.length]
      exact hr₂.readBodyHandler hio hchunks (hsock₂.trans hsock) hroom
    · rw [hp]
      exact .stopped e _ (Scanner.scan_append_stopped hscan _) (hr₂.append _)
    · rw [hp]
      dsimp only
      rw [if_pos hlen]
      exact .stopped e _ (Scanner.scan_append_stopped hscan _) (hr₂.append _)

/-- A round trip in `process_header`: all of `seen` is consumed, or in its window. -/
structure Filled (conf : LocConf) (seen : Bytes) (r : RoundTrip) : Prop where
  unbegun : Unbegun conf r
  buffer : ∃ b, r.buffer = some b ∧ b.pos + b.window.length = b.last ∧ b.last ≤ seen.length
  head : ∃ head, seen = head ++ r.window ∧
    reader.scan (.start (buildPrelude conf).length false) head =
      .reading (.start r.preludeReplies r.evalFallback)

/-- The next piece is received into the buffer. -/
theorem Awaiting.fill (h : Awaiting conf seen r) {c : Bytes} (hbuffer : r.buffer.isSome = true)
    (hfits : c.length ≤ r.room) :
    Filled conf (seen ++ c) { r with buffer := r.buffer.map fun b : Buf => b.fill c } := by
  have hu := h.unbegun
  obtain ⟨b, hb⟩ := Option.isSome_iff_exists.mp hbuffer
  obtain ⟨hpos, hlast⟩ := h.last b hb
  obtain ⟨head, hseen, hhead⟩ := h.head
  refine ⟨⟨hu.attached, hu.location, hu.readHandler, hu.parse, hu.fed, hu.replyParsed, hu.keepalive,
    hu.readEof, hu.readError, ?_⟩, ⟨b.fill c, by rw [hb]; rfl, ?_, ?_⟩, ⟨head, ?_, hhead⟩⟩
  · intro b' hb'
    obtain ⟨b₀, hb₀, rfl⟩ := Option.map_eq_some_iff.mp hb'
    exact hu.size b₀ hb₀
  · simp only [Buf.fill, List.length_append]
    omega
  · simp only [Buf.fill, List.length_append]
    omega
  · rw [RoundTrip.window, window_fill r hfits, hseen, List.append_assoc]

/-- `process_header` consumes replies of the prelude. -/
theorem Filled.moved (h : Filled conf seen r) {left k : ℕ} (hstands : r.Stands left k) :
    Filled conf seen (r.moved left k) := by
  have hu := h.unbegun
  obtain ⟨b, hb, hpos, hlast⟩ := h.buffer
  obtain ⟨head, hseen, hhead⟩ := h.head
  have hmoved : (r.moved left k).buffer = some (b.consume k) := by
    rw [RoundTrip.moved, consume, hb]
    rfl
  -- The replies lie in the window.
  have hle : k ≤ b.window.length := by
    have hle := hstands.le
    rw [RoundTrip.window, hb] at hle
    exact hle
  refine ⟨⟨hu.attached, hu.location, hu.readHandler, hu.parse, hu.fed, hu.replyParsed, hu.keepalive,
    hu.readEof, hu.readError, ?_⟩, ⟨b.consume k, hmoved, ?_, hlast⟩,
      ⟨head ++ r.window.take k, ?_, ?_⟩⟩
  · intro b' hb'
    rw [hmoved] at hb'
    obtain rfl := Option.some.inj hb'
    exact hu.size b hb
  · simp only [Buf.consume, List.length_drop]
    omega
  · rw [window_moved, List.append_assoc, List.take_append_drop, hseen]
  · rw [Scanner.scan_append hhead]
    exact hstands.scan

/-- More is awaited. -/
theorem Filled.awaiting (h : Filled conf seen r) {t : Reader}
    (hread : reader.scan (.start r.preludeReplies r.evalFallback) r.window = .reading t)
    (hfallback : t.fallback = r.evalFallback) (hparse : t.parse = .init) :
    Awaiting conf seen r ∧ r.buffer.isSome = true := by
  obtain ⟨b, hb, hpos, hlast⟩ := h.buffer
  refine ⟨⟨h.unbegun, ?_, h.head, t, hread, hfallback, hparse⟩, by rw [hb]; rfl⟩
  intro b' hb'
  rw [hb] at hb'
  obtain rfl := Option.some.inj hb'
  exact ⟨hpos, hlast⟩

/-- The array begins. -/
theorem Filled.begun (h : Filled conf seen r) (hprelude : r.preludeReplies = 0) {rest : Bytes}
    (hstar : r.window = ascii '*' :: rest) :
    Begun conf seen { r.consume 1 with parse.status := 200 } := by
  have hu := h.unbegun
  obtain ⟨b, hb, hpos, hlast⟩ := h.buffer
  obtain ⟨head, hseen, hhead⟩ := h.head
  have hwindow : (r.consume 1).window = rest := by
    rw [window_consume, hstar]
    rfl
  have hlength : b.window = ascii '*' :: rest := by
    rw [← hstar, RoundTrip.window, hb]
    rfl
  refine ⟨hu.attached, hu.location, ?_, hu.fed, hprelude, hu.replyParsed, hu.keepalive, hu.readEof,
    hu.readError, ⟨b.consume 1, ?_, hu.size b hb, ?_, hlast⟩, ⟨head, ?_, ?_⟩⟩
  · simp only [consume, hu.parse]
    rfl
  · simp only [consume, hb]
    rfl
  · simp only [Buf.consume, hlength, List.drop_succ_cons, List.drop_zero]
    rw [← hpos, hlength, List.length_cons]
    omega
  · rw [hseen, hstar]
    exact congrArg (head ++ ascii '*' :: ·) hwindow.symm
  · rw [hhead, hprelude]
    rfl

/-- The reply is refused. -/
theorem Filled.refused (h : Filled conf seen r) {rest : Bytes}
    (hstop : reader.scan (.start r.preludeReplies r.evalFallback) r.window =
      .stopped ⟨false, r.evalFallback, .init⟩ rest) :
    reader.scan (.start (buildPrelude conf).length false) seen =
        .stopped ⟨false, r.evalFallback, .init⟩ rest ∧
      Finished conf seen (Ending.result ⟨false, r.evalFallback, .init⟩)
        (r.finalizeUpstreamRequest (.http 500) .refused) := by
  have hu := h.unbegun
  obtain ⟨head, hseen, hhead⟩ := h.head
  refine ⟨by rw [hseen, Scanner.scan_append hhead, hstop], ?_⟩
  unfold finalizeUpstreamRequest
  rw [if_pos hu.attached, if_neg (by decide)]
  refine ⟨rfl, ?_, head, [], fun _ => rfl, hhead, .inl ⟨hu.fed, ?_⟩⟩
  · simp [RoundTrip.result, Ending.result, finalizeRequest, errorStatus, hu.parse, hu.replyParsed,
      hu.keepalive, Parse.init]
  · rw [List.append_nil]
    exact hseen

/-- A `NOSCRIPT` line ends in the piece that was received last, since what was there before was
awaiting more of it; so it ends the piece. -/
theorem Awaiting.noScript_ends {c : Bytes} (h : Awaiting conf seen r)
    (hseparated : ∀ pre post, c = pre ++ post → pre ≠ [] →
      reader.scan (.start (buildPrelude conf).length false) (seen ++ pre) = .reading (.reply true) →
        post = [])
    {read rest : Bytes} (hfirst : r.evalFallback = false)
    (hread : reader.scan (.start r.preludeReplies r.evalFallback) read = .reading (.reply true))
    (hpieces : r.window ++ c = read ++ rest) :
    reader.scan (.start (buildPrelude conf).length false) (seen ++ c) = .reading (.reply true) := by
  -- The line is not in the window already: the latch would be set.
  have hnot : ∀ u, r.window ≠ read ++ u := by
    intro u hu
    obtain ⟨t, ht, hfallback, -⟩ := h.window
    rw [hu, Scanner.scan_append hread] at ht
    have htrue := Reader.fallback_of_scan ht rfl
    rw [hfallback, hfirst] at htrue
    exact Bool.false_ne_true htrue
  -- So it is the window and a part of the new piece.
  obtain ⟨pre, hpre, hc⟩ : ∃ pre, read = r.window ++ pre ∧ c = pre ++ rest := by
    rcases List.append_eq_append_iff.mp hpieces with ⟨pre, hA, hc⟩ | ⟨u, hw, -⟩
    · exact ⟨pre, hA, hc⟩
    · exact absurd hw (hnot u)
  have hnonempty : pre ≠ [] := by
    rintro rfl
    exact hnot [] (by rw [List.append_nil, hpre, List.append_nil])
  have hend : reader.scan (.start (buildPrelude conf).length false) (seen ++ pre) =
      .reading (.reply true) := by
    rw [h.scan, ← hpre, hread]
  obtain rfl : rest = [] := hseparated pre rest hc hnonempty hend
  rw [hc, List.append_nil]
  exact hend

/-- What a call of `process_header` on the next piece comes to. -/
theorem Awaiting.processHeader {io : Io} (hio : Writes io) {c : Bytes} (h : Awaiting conf seen r)
    (hbuffer : r.buffer.isSome = true) (hfits : c.length ≤ r.room)
    (hseparated : ∀ pre post, c = pre ++ post → pre ≠ [] →
      reader.scan (.start (buildPrelude conf).length false) (seen ++ pre) = .reading (.reply true) →
        post = []) :
    let result := { r with buffer := r.buffer.map fun b : Buf => b.fill c }.processHeader io
    (∃ r', result = (.again, r') ∧ Awaiting conf (seen ++ c) r' ∧ r'.sock = r.sock ∧
        r'.buffer.isSome = true) ∨
      (∃ r', result = (.ok, r') ∧ Begun conf (seen ++ c) r' ∧ r'.sock = r.sock) ∨
      ∃ rc r' e rest, (rc = .error ∨ rc = .invalidHeader) ∧ result = (rc, r') ∧
        reader.scan (.start (buildPrelude conf).length false) (seen ++ c) = .stopped e rest ∧
        Finished conf (seen ++ c) e.result (r'.finalizeUpstreamRequest (.http 500) .refused) := by
  intro result
  have hfilled := h.fill hbuffer hfits
  have hstep := processHeader_step io { r with buffer := r.buffer.map fun b : Buf => b.fill c }
  set filled : RoundTrip := { r with buffer := r.buffer.map fun b : Buf => b.fill c }
  have hwindow : filled.window = r.window ++ c := window_fill r hfits
  change (∃ r', filled.processHeader io = _ ∧ _) ∨ (∃ r', filled.processHeader io = _ ∧ _) ∨
    ∃ rc r' e rest, _ ∧ filled.processHeader io = _ ∧ _
  generalize filled.processHeader io = result at hstep
  cases hstep with
  | again left k t hstands hrest hfallback hparse =>
    rw [← window_moved filled left] at hrest
    obtain ⟨hawaits, hsome⟩ := (hfilled.moved hstands).awaiting hrest hfallback hparse
    exact .inl ⟨_, rfl, hawaits, rfl, hsome⟩
  | array k rest hstands hrest =>
    rw [← window_moved filled 0] at hrest
    have hbegun := (hfilled.moved hstands).begun rfl hrest
    rw [moved_consume] at hbegun
    exact .inr (.inl ⟨_, rfl, hbegun, rfl⟩)
  | refused rc left k rest hrc hstands hrest =>
    rw [← window_moved filled left] at hrest
    obtain ⟨hscan, hfinished⟩ := (hfilled.moved hstands).refused hrest
    exact .inr (.inr ⟨rc, _, _, rest, hrc, rfl, hscan, hfinished⟩)
  | fallback k line rest hstands hrest hfirst hscan =>
    -- `EVAL` is sent behind the line, which was the last of what had come.
    have hread := Scanner.scan_append hstands.scan (ascii '-' :: (line ++ [LF]))
    rw [hfirst] at hread
    have hpieces : r.window ++ c =
        (filled.window.take k ++ (ascii '-' :: (line ++ [LF]))) ++ rest := by
      calc r.window ++ c = filled.window := hwindow.symm
        _ = filled.window.take k ++ filled.window.drop k := (List.take_append_drop k _).symm
        _ = (filled.window.take k ++ (ascii '-' :: (line ++ [LF]))) ++ rest := by
            rw [hrest]
            simp
    have hend := h.noScript_ends hseparated hfirst (by rw [hfirst]; exact hread.trans hscan) hpieces
    obtain ⟨r', hresend, hawaits, hsock, hsome⟩ :=
      (hfilled.moved hstands).unbegun.resendEval hio hend
    obtain ⟨b, hb, -, -⟩ := (hfilled.moved hstands).buffer
    refine .inl ⟨r', ?_, hawaits, hsock, hsome (by rw [hb]; rfl)⟩
    rw [hresend]
    rfl

/-- The loop of the header reads the pieces, and hands over to the body. -/
theorem Awaiting.headerLoop {io : Io} (hio : Good io) {chunks : List Bytes} {eof : Bool}
    (h : Awaiting conf seen r) (hbuffer : r.buffer.isSome = true) (hchunks : [] ∉ chunks)
    (hsock : r.sock = chunks.flatten) (hroom : (seen ++ chunks.flatten).length < conf.bufferSize)
    (hseparated : Separated conf seen chunks) :
    Reached conf (seen ++ chunks.flatten) eof (headerLoop io (receives chunks eof) r) := by
  induction chunks generalizing seen r with
  | nil =>
    obtain ⟨t, ht, hfallback, hparse⟩ := h.window
    rw [List.flatten_nil] at hsock
    rw [List.flatten_nil, List.append_nil]
    cases eof with
    | false =>
      rw [receives, RoundTrip.headerLoop, if_pos hio.readEvent]
      exact .awaits h hsock rfl
    | true =>
      -- The stream ends before the array has begun.
      rw [receives, RoundTrip.headerLoop, recv]
      have hscan := h.scan []
      rw [List.append_nil, List.append_nil, ht] at hscan
      refine .ended t rfl hscan ?_
      have hu := h.unbegun
      obtain ⟨head, hseen, hhead⟩ := h.head
      dsimp only
      unfold finalizeUpstreamRequest
      rw [if_pos hu.attached, if_neg (by decide)]
      refine ⟨rfl, ?_, head, [], fun _ => rfl, hhead, .inl ⟨hu.fed, ?_⟩⟩
      · simp [RoundTrip.result, Reader.result, finalizeRequest, errorStatus, hu.parse, hu.replyParsed,
          hu.keepalive, hparse, hfallback, Parse.init]
      · rw [List.append_nil]
        exact hseen
  | cons c chunks ih =>
    obtain ⟨hc, hchunks⟩ := not_or.mp (mt List.mem_cons.mpr hchunks)
    obtain ⟨b, hb⟩ := Option.isSome_iff_exists.mp hbuffer
    rw [List.flatten_cons, ← List.append_assoc] at hroom ⊢
    have hspace : (seen ++ c).length < conf.bufferSize := by
      rw [List.length_append] at hroom
      omega
    have hfits : c.length ≤ r.room := by
      have hsize := h.unbegun.size b hb
      have hlast := h.last b hb
      simp only [room, hb, Option.map_some, Option.getD_some, Buf.room]
      rw [List.length_append] at hspace
      omega
    rw [receives, RoundTrip.headerLoop, recv_data (Ne.symm hc) hsock hfits]
    -- What is promised of the whole stream is promised of this piece, and of those after it.
    have hsplit : Separated conf seen [c] ∧ Separated conf (seen ++ [c].flatten) chunks :=
      hseparated.append
    rw [List.flatten_singleton] at hsplit
    have hnext := h.withSock chunks.flatten
    dsimp only
    rcases hnext.processHeader hio.writes hbuffer hfits
      (fun pre post hpost hpre hscan => hsplit.1 [] c [] pre post rfl hpost hpre (by simpa using hscan))
      with ⟨r₂, hp, hr₂, hsock₂, hsome⟩ | ⟨r₂, hp, hr₂, hsock₂⟩ |
        ⟨rc, r₂, e, rest, hrc, hp, hscan, hr₂⟩
    · -- More is awaited, and there is room for it.
      rw [hp]
      obtain ⟨b₂, hb₂⟩ := Option.isSome_iff_exists.mp hsome
      have hleft : r₂.room ≠ 0 := by
        have hsize := hr₂.unbegun.size b₂ hb₂
        have hlast := hr₂.last b₂ hb₂
        simp only [room, hb₂, Option.map_some, Option.getD_some, Buf.room]
        omega
      dsimp only
      rw [if_neg hleft]
      exact ih hr₂ hsome hchunks hsock₂ hroom hsplit.2
    · rw [hp]
      exact hr₂.processResponse hio hchunks hsock₂ hroom
    · rw [hp]
      have hstopped := Scanner.scan_append_stopped hscan chunks.flatten
      rcases hrc with rfl | rfl
      · exact .stopped e _ hstopped (hr₂.append _)
      · exact .stopped e _ hstopped (hr₂.append _)

/-! ## Deliveries -/

/-- The buffer is allocated at the first read. -/
theorem Awaiting.alloc (h : Awaiting conf seen r) :
    Awaiting conf seen { r with buffer := some (r.buffer.getD (.alloc r.conf.bufferSize)) } := by
  have hu := h.unbegun
  cases hb : r.buffer with
  | some b =>
    have hsame : { r with buffer := some b } = r := by rw [← hb]
    rw [Option.getD_some, hsame]
    exact h
  | none =>
    have hempty : r.window = [] := by simp [RoundTrip.window, hb]
    have hhead := h.head
    have hwindow := h.window
    rw [hempty] at hhead hwindow
    refine ⟨⟨hu.attached, hu.location, hu.readHandler, hu.parse, hu.fed, hu.replyParsed, hu.keepalive,
      hu.readEof, hu.readError, ?_⟩, ?_, hhead, hwindow⟩
    · intro b hb'
      obtain rfl := Option.some.inj hb'
      exact congrArg LocConf.bufferSize hu.location
    · intro b hb'
      obtain rfl := Option.some.inj hb'
      exact ⟨rfl, Nat.zero_le _⟩

/-- A started round trip awaits the first byte. -/
theorem awaiting_start (conf : LocConf) (key : Bytes) : Awaiting conf [] (.start conf key) := by
  refine ⟨⟨rfl, rfl, rfl, rfl, rfl, rfl, rfl, rfl, rfl, nofun⟩, nofun, ⟨[], rfl, rfl⟩, _, rfl,
    Reader.fallback_start _ _, ?_⟩
  change (Reader.start (buildPrelude conf).length false).parse = Parse.init
  cases (buildPrelude conf).length <;> rfl

/-- When nothing fails the header handler reads. -/
theorem readHeaderHandler_good {io : Io} (hio : Good io) (r : RoundTrip) :
    r.readHeaderHandler io = headerLoop io io.recvs
      { r with buffer := some (r.buffer.getD (.alloc r.conf.bufferSize)) } := by
  simp [readHeaderHandler, hio.timedout, hio.connectError, hio.bufferAlloc]

/-- The pieces of one event are read. -/
theorem Reached.read (h : Reached conf seen false r) {chunks : List Bytes} {eof : Bool}
    {sends : List Send} (hsends : .error ∉ sends) (hchunks : [] ∉ chunks)
    (hroom : (seen ++ chunks.flatten).length < conf.bufferSize)
    (hseparated : Separated conf seen chunks) :
    Reached conf (seen ++ chunks.flatten) eof
      (r.run [.arrive chunks.flatten, .read (.good (receives chunks eof) sends)]) := by
  have hio := good (receives chunks eof) hsends
  change Reached conf (seen ++ chunks.flatten) eof
    ((r.step (.arrive chunks.flatten)).step (.read (.good (receives chunks eof) sends)))
  -- The bytes arrive, and then the handler of the state is called.
  cases h with
  | awaits h hsock =>
    have hu := h.unbegun
    rw [step_arrive hu.attached, hsock, List.nil_append]
    have hnext := h.withSock chunks.flatten
    rw [step_read_header hnext.unbegun.attached hnext.unbegun.readHandler,
      readHeaderHandler_good hio]
    exact hnext.alloc.headerLoop hio rfl hchunks rfl hroom hseparated
  | parses h hsock =>
    rw [step_arrive h.attached, hsock, List.nil_append]
    have hnext := h.withSock chunks.flatten
    rw [step_read_body hnext.attached hnext.readHandler]
    exact hnext.readBodyHandler hio hchunks rfl hroom
  | stopped e rest hscan h =>
    rw [step_detached h.attached, step_detached h.attached]
    exact .stopped e _ (Scanner.scan_append_stopped hscan _) (h.append _)
  | ended t heof => cases heof

/-- Sending more of the `EVAL` changes nothing of what is read. -/
theorem Reached.write (h : Reached conf seen false r) {sends : List Send} (hsends : .error ∉ sends) :
    Reached conf seen false (r.run [.write (.good [] sends)]) := by
  have hio := good [] hsends
  change Reached conf seen false (r.step (.write (.good [] sends)))
  -- Only a round trip that still sends its `EVAL` does anything on a write event.
  cases h with
  | awaits h hsock =>
    have hu := h.unbegun
    obtain ⟨bufs, handler, timer, hframe⟩ := sendLoop_frame (.good [] sends) sends r
    have hok := sendLoop_ok hio.writes.writeEvent sends hsends r
    by_cases hw : r.writeHandler = .sendEval
    · rw [step_write_eval hu.attached hw, sendEvalHandler, if_neg (by rw [hio.timedout]; decide),
        sendEval]
      have hresult : sendLoop (.good [] sends) sends r = (.ok, { r with
          requestBufs := bufs, writeHandler := handler, writeTimer := timer }) := Prod.ext hok hframe
      rw [show (Io.good [] sends).sends = sends from rfl, hresult]
      exact .awaits ⟨⟨hu.attached, hu.location, hu.readHandler, hu.parse, hu.fed, hu.replyParsed,
        hu.keepalive, hu.readEof, hu.readError, hu.size⟩, h.last, h.head, h.window⟩ hsock rfl
    · rw [step_write_other hw]
      exact .awaits h hsock rfl
  | parses h hsock =>
    rw [step_write_other (by rw [h.writeHandler]; decide)]
    exact .parses h hsock rfl
  | stopped e rest hscan h =>
    rw [step_detached h.attached]
    exact .stopped e rest hscan h
  | ended t heof => cases heof

/-- Any number of events before the end of the stream. -/
theorem Reached.arrivals {arrivals : List Arrival} (h : Reached conf seen false r)
    (hsends : ∀ a ∈ arrivals, .error ∉ a.sends)
    (hchunks : [] ∉ arrivals.flatMap Arrival.chunks)
    (hroom : (seen ++ (arrivals.flatMap Arrival.chunks).flatten).length < conf.bufferSize)
    (hseparated : Separated conf seen (arrivals.flatMap Arrival.chunks)) :
    Reached conf (seen ++ (arrivals.flatMap Arrival.chunks).flatten) false
      (r.run (arrivals.flatMap Arrival.events)) := by
  induction arrivals generalizing seen r with
  | nil => simpa [run] using h
  | cons a arrivals ih =>
    rw [List.flatMap_cons, List.mem_append, not_or] at hchunks
    rw [List.flatMap_cons, List.flatten_append, ← List.append_assoc] at hroom ⊢
    rw [List.flatMap_cons] at hseparated
    rw [List.flatMap_cons, run_append]
    have hspace : (seen ++ a.chunks.flatten).length < conf.bufferSize := by
      rw [List.length_append] at hroom
      omega
    refine ih ?_ (fun b hb => hsends b (List.mem_cons_of_mem _ hb)) hchunks.2 hroom hseparated.append.2
    -- One event, after which the induction goes on.
    cases a with
    | reads chunks sends =>
      exact h.read (hsends _ List.mem_cons_self) hchunks.1 hspace hseparated.append.1
    | writes sends =>
      rw [Arrival.chunks, List.flatten_nil, List.append_nil]
      exact h.write (hsends _ List.mem_cons_self)

/-- A round trip to which a stream is delivered comes to what the reader makes of the stream. -/
theorem run_delivery (conf : LocConf) (key : Bytes) {d : Delivery} (hd : d.Fits conf) :
    Finished conf d.stream (streamResult conf d.stream) ((start conf key).run d.events) := by
  have hstart : Reached conf [] false (start conf key) := .awaits (awaiting_start conf key) rfl rfl
  have hstream : d.stream = (d.arrivals.flatMap Arrival.chunks).flatten ++ d.last.flatten := by
    rw [Delivery.stream, Delivery.reads, List.flatten_append]
  have hnonempty := hd.nonempty
  have hseparated := hd.separated
  have hroom := hd.size
  rw [Delivery.reads, List.mem_append, not_or] at hnonempty
  rw [Delivery.reads] at hseparated
  rw [hstream] at hroom
  -- All events before the last one, and then the one that brings the end of the stream.
  have hbefore := hstart.arrivals hd.sends.1 hnonempty.1
    (by rw [List.length_append] at hroom; exact (Nat.le_add_right _ _).trans_lt hroom)
    hseparated.append.1
  have hlast : Reached conf _ true _ := hbefore.read hd.sends.2 hnonempty.2
    (by rw [List.nil_append]; exact hroom) hseparated.append.2
  rw [List.nil_append, ← hstream, ← run_append] at hlast
  unfold streamResult
  cases hlast with
  | awaits h hsock heof => cases heof
  | parses h hsock heof => cases heof
  | stopped e rest hscan h =>
    rw [hscan]
    exact h
  | ended t heof hscan h =>
    rw [hscan]
    exact h

/-- What has been read is examined. -/
theorem Reached.examined (h : Reached conf seen false r) : Examined conf seen r := by
  cases h with
  | awaits h hsock =>
    obtain ⟨head, hseen, hhead⟩ := h.head
    exact ⟨head, [], fun _ => rfl, hhead, .inl ⟨h.unbegun.fed, by rw [List.append_nil]; exact hseen⟩⟩
  | parses h hsock =>
    obtain ⟨head, hseen, hhead⟩ := h.head
    refine ⟨head, [], fun _ => rfl, ?_, .inr ⟨h.preludeReplies, ?_, ?_⟩⟩
    · rw [h.preludeReplies]
      exact hhead
    · rw [List.append_nil]
      exact hseen
    · rw [h.parse]
      rfl
  | stopped e rest hscan h => exact h.examined
  | ended t heof => cases heof

end RoundTrip

/-- A stream with which `EVAL` is not sent may be cut anywhere. -/
theorem separated_of_evalFallback {conf : LocConf} {reads : List Bytes}
    (h : (streamResult conf reads.flatten).evalFallback = false) : Separated conf [] reads := by
  intro before c after pre post hreads hc _ hscan
  have hbytes : reads.flatten = ([] ++ before.flatten ++ pre) ++ (post ++ after.flatten) := by
    rw [hreads, hc]
    simp
  unfold streamResult at h
  rw [hbytes, Scanner.scan_append hscan] at h
  -- After the line the reader knows that `EVAL` is sent, and does not forget it.
  cases hrest : reader.scan (.reply true) (post ++ after.flatten) with
  | reading t =>
    rw [hrest] at h
    exact absurd ((Reader.fallback_of_scan hrest rfl).symm.trans h) (by decide)
  | stopped e rest =>
    rw [hrest] at h
    exact absurd ((Reader.fallback_of_scan_stopped hrest rfl).symm.trans h) (by decide)

/-- Two deliveries of one stream, of which one may be all of it in one read, come to the same
result. On the way every byte that has come is examined once and in order, and in every run, also of
other events, the pointers of the buffer are in order. -/
theorem read_path_chunk_independent (conf : LocConf) (key : Bytes) {d d' : Delivery}
    (hd : d.Fits conf) (hd' : d'.Fits conf) (hstream : d.stream = d'.stream) :
    ((RoundTrip.start conf key).run d.events).attached = false ∧
    ((RoundTrip.start conf key).run d.events).result =
      ((RoundTrip.start conf key).run d'.events).result ∧
    (∀ before after, d.arrivals = before ++ after →
      Examined conf (before.flatMap Arrival.chunks).flatten
        ((RoundTrip.start conf key).run (before.flatMap Arrival.events))) ∧
    Examined conf d.stream ((RoundTrip.start conf key).run d.events) ∧
    ∀ events, ∀ b ∈ ((RoundTrip.start conf key).run events).buffer, b.Sound := by
  have hrun := RoundTrip.run_delivery conf key hd
  have hrun' := RoundTrip.run_delivery conf key hd'
  refine ⟨hrun.attached, ?_, ?_, hrun.examined, RoundTrip.sound_run conf key⟩
  · rw [hrun.result, hrun'.result, hstream]
  · intro before after harrivals
    have hreads : d.reads = before.flatMap Arrival.chunks ++
        (after.flatMap Arrival.chunks ++ d.last) := by
      rw [Delivery.reads, harrivals, List.flatMap_append, List.append_assoc]
    have hroom := hd.size
    have hnonempty := hd.nonempty
    have hseparated := hd.separated
    rw [Delivery.stream, hreads, List.flatten_append, List.length_append] at hroom
    rw [hreads, List.mem_append, not_or] at hnonempty
    rw [hreads] at hseparated
    have hstart : RoundTrip.Reached conf [] false (.start conf key) :=
      .awaits (RoundTrip.awaiting_start conf key) rfl rfl
    -- The events so far are a delivery that has not ended.
    have hbefore := hstart.arrivals
      (fun a ha => hd.sends.1 a (by rw [harrivals]; exact List.mem_append_left _ ha)) hnonempty.1
      (by rw [List.nil_append]; omega) hseparated.append.1
    rw [List.nil_append] at hbefore
    exact hbefore.examined

/-- An answer to `AUTH` and a reply, cut in the line and in a number, and in one read. -/
theorem read_path_chunk_independent_cut :
    let conf := { LocConf.ofZone ⟨.gcra, 5, 60, 0, ⟨[], []⟩⟩ (fun _ => ⟨[], []⟩) with
      password := text "secret" }
    let d : Delivery := ⟨[.reads [text "+O"] [], .reads [text "K\r\n*", text "5\r\n:0\r\n:1"] []],
      [text "0\r\n:9\r\n:-1\r\n:60\r\n"], []⟩
    ((RoundTrip.start conf []).run d.events).result =
      ((RoundTrip.start conf []).run (Delivery.atOnce d.stream).events).result := by
  intro conf d
  have hd : d.Fits conf := ⟨by decide +kernel, by decide +kernel, by decide +kernel,
    separated_of_evalFallback (by decide +kernel)⟩
  have hd' : (Delivery.atOnce d.stream).Fits conf := ⟨by decide +kernel, by decide +kernel,
    by decide +kernel, separated_of_evalFallback (by decide +kernel)⟩
  exact (read_path_chunk_independent conf [] hd hd' (by decide +kernel)).2.1

end NginxRatelimit
