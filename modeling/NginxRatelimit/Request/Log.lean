import NginxRatelimit.Request.Latch

/-!
# The error log

What a round trip writes into the error log of its worker. Three of the messages quote what the peer
has sent, through `sanitizeLogStr`, so that a message stays one line. In an event one message is
logged at most. It is that of the dummy handler, to which a write event means nothing, or the round
trip is finalized with it.
-/

namespace NginxRatelimit

/-! ## Quoted text -/

/-- `NGX_HTTP_RATELIMIT_LOG_SANITIZE_MAX`. -/
def logSanitizeMax : ℕ := 128

/-- The bytes that are quoted as they are. -/
def Printable (b : UInt8) : Prop := 0x20 ≤ b ∧ b < 0x7f

/-- Whether a byte is printable can be decided. -/
instance (b : UInt8) : Decidable (Printable b) := inferInstanceAs (Decidable (_ ∧ _))

/-- `ngx_http_ratelimit_sanitize_log_str`; without memory it is the empty string. -/
def sanitizeLogStr (alloc : Bool) (src : Bytes) : Bytes :=
  if alloc then (src.take logSanitizeMax).map fun b => if Printable b then b else ascii '.' else []

/-- `if (len > 0 && data[len - 1] == CR) len--`. -/
def stripCR (line : Bytes) : Bytes := if line.getLast? = some CR then line.dropLast else line

/-- A message that a round trip logs; what is printed at the "%V" is given. -/
inductive Message where
  | authSelect (reply : Bytes)
  | errorReply (reply : Bytes)
  | invalidResponse (reply : Bytes)
  | prematureClose
  | tooBigHeader
  | timedOut
  | connectFailed
  | dummyHandler
  deriving DecidableEq

namespace Message

/-- The text of a message. -/
def format : Message → Bytes
  | authSelect reply => text "ratelimit: redis auth/select error reply: \"" ++ reply ++ text "\""
  | errorReply reply => text "ratelimit: redis error reply: \"" ++ reply ++ text "\""
  | invalidResponse reply =>
    text "ratelimit: redis sent invalid response: \"" ++ reply ++ text "\""
  | prematureClose => text "redis prematurely closed connection"
  | tooBigHeader => text "redis sent too big header"
  | timedOut => text "redis timed out"
  | connectFailed => text "connect() failed"
  | dummyHandler =>
    text "ratelimit: ngx_http_ratelimit_dummy_handler should not be called by the upstream"

/-- What it quotes of the peer. -/
def quoted : Message → Option Bytes
  | authSelect reply | errorReply reply | invalidResponse reply => some reply
  | prematureClose | tooBigHeader | timedOut | connectFailed | dummyHandler => none

end Message

/-- A quotation is bounded, whatever was sent. -/
theorem length_sanitizeLogStr (alloc : Bool) (src : Bytes) :
    (sanitizeLogStr alloc src).length ≤ logSanitizeMax := by
  unfold sanitizeLogStr
  split
  · rw [List.length_map]
    exact List.length_take_le _ _
  · exact Nat.zero_le _

/-- And has no control characters. -/
theorem printable_sanitizeLogStr (alloc : Bool) (src : Bytes) :
    ∀ b ∈ sanitizeLogStr alloc src, Printable b := by
  intro b hb
  unfold sanitizeLogStr at hb
  split at hb
  · obtain ⟨a, -, rfl⟩ := List.mem_map.mp hb
    split
    · assumption
    · decide
  · cases hb

/-- Without its CR, a line is the beginning of itself. -/
theorem stripCR_isPrefix (line : Bytes) : stripCR line <+: line := by
  unfold stripCR
  split
  · exact List.dropLast_prefix line
  · exact List.prefix_rfl

/-- A message is one line, whatever it quotes. -/
theorem Message.format_printable {m : Message}
    (h : ∀ quote, m.quoted = some quote → ∀ b ∈ quote, Printable b) :
    ∀ b ∈ m.format, Printable b := by
  cases m with
  | authSelect reply | errorReply reply | invalidResponse reply =>
    rw [format, List.forall_mem_append, List.forall_mem_append]
    exact ⟨⟨by decide +kernel, h reply rfl⟩, by decide +kernel⟩
  | prematureClose | tooBigHeader | timedOut | connectFailed | dummyHandler => decide +kernel

/-- What is quoted is a beginning of these bytes, with the others made printable. -/
def Message.Quotes (m : Message) (alloc : Bool) (bytes : Bytes) : Prop :=
  ∃ src, src <+: bytes ∧ m.quoted = some (sanitizeLogStr alloc src)

/-- A quotation of bytes is one of longer bytes. -/
theorem Message.Quotes.mono {m : Message} {alloc : Bool} {bytes more : Bytes}
    (h : m.Quotes alloc bytes) (hmore : bytes <+: more) : m.Quotes alloc more := by
  obtain ⟨src, hsrc, hquoted⟩ := h
  exact ⟨src, hsrc.trans hmore, hquoted⟩

namespace RoundTrip

/-! ## What the handlers log -/

/-- What `consume_prelude_reply` logs of a reply that it refuses. -/
def preludeLogs (alloc : Bool) (r : RoundTrip) : List Message :=
  [.authSelect (sanitizeLogStr alloc (stripCR (r.window.takeWhile (· ≠ LF))))]

/-- What `process_header` logs after the prelude. -/
def typeLogs (alloc : Bool) (r : RoundTrip) : List Message :=
  match r.window with
  | [] => []
  | chr :: rest =>
    if chr = ascii '*' then []
    else if chr = ascii '-' then
      if LF ∉ rest then []
      else if !r.evalFallback && rest.take 8 = text "NOSCRIPT" then []
      else [.errorReply (sanitizeLogStr alloc (stripCR (chr :: rest.takeWhile (· ≠ LF))))]
    else [.invalidResponse (sanitizeLogStr alloc r.window)]

/-- What `process_header` logs. -/
def headerLogs (alloc : Bool) (r : RoundTrip) : List Message :=
  match consumePrelude r.preludeReplies r with
  | (.ok, r) => r.typeLogs alloc
  | (.error, r) => r.preludeLogs alloc
  | _ => []

/-- What it logs in the loop of `ngx_http_ratelimit_read_header_handler`. -/
def headerLoopLogs (alloc : Bool) (io : Io) : List Recv → RoundTrip → List Message
  | [], _ => []
  | x :: xs, r =>
    match r.recv r.room x with
    | (.bytes data, r) =>
      let r := { r with buffer := r.buffer.map fun b : Buf => b.fill data }
      r.headerLogs alloc ++
        match r.processHeader io with
        | (.again, r) => if r.room = 0 then [] else headerLoopLogs alloc io xs r
        | _ => []
    | _ => []

/-- What it logs in `ngx_http_ratelimit_read_header_handler`. -/
def readHeaderLogs (alloc : Bool) (io : Io) (r : RoundTrip) : List Message :=
  if io.timedout then []
  else if !io.requestSent && io.connectError then [.connectFailed]
  else if r.buffer.isNone && !io.bufferAlloc then []
  else
    headerLoopLogs alloc io io.recvs
      { r with buffer := some (r.buffer.getD (.alloc r.conf.bufferSize)) }

/-- What `read_body_handler` and `send_eval_handler` log of a timeout; `read_header_handler` does not
log it. -/
def timeoutLogs (io : Io) : List Message := if io.timedout then [.timedOut] else []

/-- What is logged where a round trip is finalized for this reason. -/
def exitLogs : Option Exit → List Message
  | some .eof => [.prematureClose]
  | some .tooBig => [.tooBigHeader]
  | _ => []

/-- What a handler logs, but for the reason of a finalization. -/
def handlerLogs (alloc : Bool) (r : RoundTrip) : Event → List Message
  | .arrive _ => []
  | .read io =>
    match r.readHandler with
    | .header => r.readHeaderLogs alloc io
    | .body => timeoutLogs io
  | .write io =>
    match r.writeHandler with
    | .sendEval => timeoutLogs io
    | .core => []
    -- `ngx_http_ratelimit_dummy_handler` does nothing else
    | .dummy => [.dummyHandler]

/-- What a round trip logs in an event. -/
def logs (alloc : Bool) (r : RoundTrip) (e : Event) : List Message :=
  if r.attached then r.handlerLogs alloc e ++ exitLogs (r.step e).exit else []

/-! ## At most one message -/

/-- A message of `process_header` is its only one, and it fails. -/
theorem typeLogs_cases (alloc : Bool) (io : Io) (r : RoundTrip) : r.typeLogs alloc = [] ∨
    (∃ m, r.typeLogs alloc = [m] ∧ m.Quotes alloc r.window) ∧
      ∃ rc, r.processType io = (rc, r) ∧ (rc = .error ∨ rc = .invalidHeader) := by
  unfold typeLogs processType
  cases hwindow : r.window with
  | nil => exact .inl rfl
  | cons chr rest =>
    dsimp only
    by_cases hstar : chr = ascii '*'
    · rw [if_pos hstar]
      exact .inl rfl
    rw [if_neg hstar, if_neg hstar]
    by_cases hminus : chr = ascii '-'
    · rw [if_pos hminus, if_pos hminus]
      by_cases hLF : LF ∉ rest
      · rw [if_pos hLF]
        exact .inl rfl
      rw [if_neg hLF, if_neg hLF]
      split
      · exact .inl rfl
      · refine .inr ⟨⟨_, rfl, stripCR (chr :: rest.takeWhile (· ≠ LF)), ?_, rfl⟩, _, rfl, .inl rfl⟩
        refine (stripCR_isPrefix _).trans ?_
        exact (List.prefix_cons_inj chr).mpr (List.takeWhile_prefix _)
    · rw [if_neg hminus, if_neg hminus]
      exact .inr ⟨⟨_, rfl, _, List.prefix_rfl, rfl⟩, _, rfl, .inr rfl⟩

/-- `process_header` logs one message at most, and only where it refuses the reply. -/
theorem headerLogs_cases (alloc : Bool) (io : Io) (r : RoundTrip) : r.headerLogs alloc = [] ∨
    (∃ m, r.headerLogs alloc = [m]) ∧
      ((r.processHeader io).1 = .error ∨ (r.processHeader io).1 = .invalidHeader) := by
  unfold headerLogs processHeader
  cases consumePrelude r.preludeReplies r with
  | mk rc r' =>
    cases rc with
    | ok =>
      dsimp only
      rcases r'.typeLogs_cases alloc io with hnone | ⟨⟨m, hm, -⟩, rc, hrc, hfails⟩
      · exact .inl hnone
      · refine .inr ⟨⟨m, hm⟩, ?_⟩
        rw [hrc]
        exact hfails
    | error => exact .inr ⟨⟨_, rfl⟩, .inl rfl⟩
    | _ => exact .inl rfl

/-- The loop logs once at most, and then the reply is refused. -/
theorem headerLoopLogs_cases (alloc : Bool) (io : Io) (xs : List Recv) {r : RoundTrip}
    (h : r.attached = true) : headerLoopLogs alloc io xs r = [] ∨
      (∃ m, headerLoopLogs alloc io xs r = [m]) ∧
        (headerLoop io xs r).attached = false ∧ (headerLoop io xs r).exit = some .refused := by
  induction xs generalizing r with
  | nil => exact .inl rfl
  | cons x xs ih =>
    rw [headerLoopLogs, headerLoop]
    cases hrecv : r.recv r.room x with
    | mk received r₁ =>
      cases received with
      | again => exact .inl rfl
      | zero => exact .inl rfl
      | error => exact .inl rfl
      | bytes data =>
        dsimp only
        obtain ⟨rest, -, -, -, rfl⟩ := recv_bytes hrecv
        generalize hfilled : ({ r with
          sock := rest, buffer := r.buffer.map fun b : Buf => b.fill data } : RoundTrip) = filled
        have hattached : filled.attached = true := by
          rw [← hfilled]
          exact h
        have hframe := (processHeader_frame io filled).1
        have hlogs := filled.headerLogs_cases alloc io
        have hcode := processHeader_rc io filled
        cases hresult : filled.processHeader io with
        | mk rc r₂ =>
          rw [hresult] at hframe hlogs hcode
          have hattached₂ : r₂.attached = true := hframe.trans hattached
          rcases hlogs with hnone | ⟨⟨m, hm⟩, hfails⟩
          · rw [hnone, List.nil_append]
            rcases hcode with rfl | rfl | rfl | rfl | rfl
            · exact .inl rfl
            · dsimp only
              split
              · exact .inl rfl
              · exact ih hattached₂
            · exact .inl rfl
            · exact .inl rfl
            · exact .inl rfl
          · -- The reply is refused where the message is logged.
            refine .inr ⟨⟨m, ?_⟩, ?_⟩
            · rw [hm]
              rcases hfails with rfl | rfl <;> rfl
            · rcases hfails with rfl | rfl
              · exact exit_finalizeUpstreamRequest hattached₂ _ _
              · exact exit_finalizeUpstreamRequest hattached₂ _ _

/-- What a handler logs that has finalized the round trip then, for a reason that is not logged. -/
def LogsOnce (logs : List Message) (r : RoundTrip) : Prop :=
  logs = [] ∨ (∃ m, logs = [m]) ∧ r.attached = false ∧ exitLogs r.exit = []

/-- The header handler logs a failed connect, or what the loop logs. -/
theorem readHeaderLogs_cases (alloc : Bool) (io : Io) {r : RoundTrip} (h : r.attached = true) :
    LogsOnce (r.readHeaderLogs alloc io) (r.readHeaderHandler io) := by
  unfold readHeaderLogs readHeaderHandler
  split
  · exact .inl rfl
  · split
    · obtain ⟨hdetached, hwhy⟩ := exit_finalizeUpstreamRequest h (.http 503) .connectError
      exact .inr ⟨⟨_, rfl⟩, hdetached, by rw [hwhy]; rfl⟩
    · split
      · exact .inl rfl
      · rcases headerLoopLogs_cases alloc io io.recvs
          (r := { r with buffer := some (r.buffer.getD (.alloc r.conf.bufferSize)) }) h with
          hnone | ⟨hm, hdetached, hwhy⟩
        · exact .inl hnone
        · exact .inr ⟨hm, hdetached, by rw [hwhy]; rfl⟩

/-- A timeout that is logged finalizes the round trip. -/
theorem timeoutLogs_cases (io : Io) {r r' : RoundTrip} (h : r.attached = true)
    (hr : io.timedout = true → r' = r.finalizeUpstreamRequest (.http 504) .timeout) :
    LogsOnce (timeoutLogs io) r' := by
  unfold timeoutLogs
  split
  · rename_i htimedout
    obtain ⟨hdetached, hwhy⟩ := exit_finalizeUpstreamRequest h (.http 504) .timeout
    rw [hr htimedout]
    exact .inr ⟨⟨_, rfl⟩, hdetached, by rw [hwhy]; rfl⟩
  · exact .inl rfl

/-- A write event for the dummy handler. -/
def CallsDummy (r : RoundTrip) (e : Event) : Prop := r.writeHandler = .dummy ∧ ∃ io, e = .write io

/-- The handlers finalize the round trip with their message, but for the dummy handler. -/
theorem handlerLogs_cases (alloc : Bool) {r : RoundTrip} (h : r.attached = true) (e : Event) :
    (r.CallsDummy e ∧ r.handlerLogs alloc e = [.dummyHandler] ∧ r.step e = r) ∨
      LogsOnce (r.handlerLogs alloc e) (r.step e) := by
  cases e with
  | arrive data => exact .inr (.inl rfl)
  | read io =>
    right
    unfold handlerLogs
    cases hhandler : r.readHandler with
    | header =>
      rw [step_read_header h hhandler]
      exact readHeaderLogs_cases alloc io h
    | body =>
      rw [step_read_body h hhandler]
      exact timeoutLogs_cases io h fun htimedout => if_pos htimedout
  | write io =>
    unfold handlerLogs
    cases hhandler : r.writeHandler with
    | sendEval =>
      rw [step_write_eval h hhandler]
      exact .inr (timeoutLogs_cases io h fun htimedout => if_pos htimedout)
    | core => exact .inr (.inl rfl)
    | dummy => exact .inl ⟨⟨hhandler, io, rfl⟩, rfl, step_write_other (by rw [hhandler]; decide) io⟩

/-- What an event logs, if it does not record an exit where the round trip goes on: a message of the
dummy handler, or one message at most that the round trip is finalized with. -/
theorem logs_once (alloc : Bool) {r : RoundTrip} (e : Event) (hnone : r.attached = true → r.exit = none)
    (h : (r.step e).attached = true → (r.step e).exit = none) :
    (r.CallsDummy e ∧ r.logs alloc e = [.dummyHandler] ∧ r.step e = r) ∨
      (r.logs alloc e).length ≤ 1 ∧ ∀ m ∈ r.logs alloc e, (r.step e).attached = false := by
  have hexit : (exitLogs (r.step e).exit).length ≤ 1 ∧
      (exitLogs (r.step e).exit ≠ [] → (r.step e).attached = false) := by
    constructor
    · unfold exitLogs
      split <;> simp
    · intro hne
      by_contra hattached
      rw [h (Bool.not_eq_false _ ▸ hattached)] at hne
      exact hne rfl
  unfold logs
  cases hattached : r.attached with
  | false => exact .inr ⟨Nat.zero_le 1, fun m hm => absurd hm List.not_mem_nil⟩
  | true =>
    rw [if_pos rfl]
    rcases handlerLogs_cases alloc hattached e with
      ⟨hdummy, hlogs, hsame⟩ | hlogs | ⟨⟨m, hm⟩, hdetached, hwhy⟩
    · left
      rw [hlogs, hsame, hnone hattached]
      exact ⟨hdummy, rfl, rfl⟩
    · right
      rw [hlogs]
      exact ⟨hexit.1, fun m hm => hexit.2 (List.ne_nil_of_mem hm)⟩
    · right
      rw [hm, hwhy]
      exact ⟨le_rfl, fun _ _ => hdetached⟩

/-- Only the header handler quotes the peer. -/
theorem mem_readHeaderLogs_of_quoted {alloc : Bool} {r : RoundTrip} {e : Event} {m : Message}
    {quote : Bytes} (hm : m ∈ r.logs alloc e) (hquote : m.quoted = some quote) :
    r.attached = true ∧ r.readHandler = .header ∧ ∃ io, e = .read io ∧
      m ∈ r.readHeaderLogs alloc io := by
  have hexit : m ∉ exitLogs (r.step e).exit := by
    intro hmem
    unfold exitLogs at hmem
    split at hmem
    · rw [List.mem_singleton.mp hmem] at hquote
      cases hquote
    · rw [List.mem_singleton.mp hmem] at hquote
      cases hquote
    · cases hmem
  have htimeout : ∀ io, m ∉ timeoutLogs io := by
    intro io hmem
    unfold timeoutLogs at hmem
    split at hmem
    · rw [List.mem_singleton.mp hmem] at hquote
      cases hquote
    · cases hmem
  unfold logs at hm
  split at hm
  · rename_i hattached
    have hhandler := (List.mem_append.mp hm).resolve_right hexit
    unfold handlerLogs at hhandler
    split at hhandler
    · cases hhandler
    · rename_i io
      split at hhandler
      · rename_i hheader
        exact ⟨hattached, hheader, io, rfl, hhandler⟩
      · exact absurd hhandler (htimeout io)
    · split at hhandler
      · exact absurd hhandler (htimeout _)
      · cases hhandler
      · rw [List.mem_singleton.mp hhandler] at hquote
        cases hquote
  · cases hm

end RoundTrip

end NginxRatelimit
