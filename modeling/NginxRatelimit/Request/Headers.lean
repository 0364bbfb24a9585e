import Mathlib.Data.List.TakeWhile
import NginxRatelimit.Request.Grammar
import NginxRatelimit.Request.Handler

/-!
# The rate headers

`finalize_request` runs before the status of a failure is stored, and looks at `reply_parsed`, at
the status of the reply and at the variables of the parser. The invariant `Bare` says that nothing
is added before; from there on the headers are those of the `Layout` that the parser was given, or
there are none (`Reported`). They are what is promised of them, except that an allowed reply with a
fourth integer other than -1 adds `Retry-After` too (`headers_truthful_iff`).
-/

namespace NginxRatelimit

open Library Resp

/-- `ngx_http_ratelimit_set_custom_header`: the name and the printed value. -/
def setCustomHeader (key : Header) (value : ℕ) : String × Bytes := (key.name, decimal value)

/-- The headers that are added to the response, as they are sent. -/
def RoundTrip.responseHeaders (r : RoundTrip) : List (String × Bytes) :=
  r.headersOut.map fun h => setCustomHeader h.1 h.2

namespace Layout

/-- The fourth integer, as the parser reads it. -/
def retry (l : Layout) : ℤ := retryFrom (-1) l.retryAfter

/-- The headers that `finalize_request` adds for a reply, with or without `ratelimit_headers`. -/
def added (l : Layout) (enableHeaders : Bool) : List (Header × ℕ) :=
  if l.status = ascii '1' ∨ enableHeaders then
    [(.limit, valueFrom 0 l.limit), (.remaining, valueFrom 0 l.remaining),
        (.reset, valueFrom 0 l.reset)] ++
      if l.retry ≠ -1 then [(.retryAfter, l.retry.toNat)] else []
  else []

/-- The headers that are promised: the counters of a rejection, and of an allowed reply with
`ratelimit_headers`, and `Retry-After` on a rejection only. -/
def promised (l : Layout) (enableHeaders : Bool) : List (String × Bytes) :=
  (if l.status = ascii '1' ∨ enableHeaders then
    [("X-RateLimit-Limit", decimal (valueFrom 0 l.limit)),
      ("X-RateLimit-Remaining", decimal (valueFrom 0 l.remaining)),
      ("X-RateLimit-Reset", decimal (valueFrom 0 l.reset))]
  else []) ++
    if l.status = ascii '1' ∧ l.retry ≠ -1 then [("Retry-After", integer l.retry)] else []

end Layout

/-- The fourth integer is -1 or a value of `ngx_int_t` that is not negative. -/
theorem Layout.retry_cases (l : Layout) : l.retry = -1 ∨ ∃ n ≤ maxIntT, l.retry = (n : ℤ) := by
  obtain ⟨pre, hpre, hw⟩ := l.retryAfter_loose
  have hnumber : l.retryAfter.takeWhile (· ≠ ascii '-') = pre := by
    have hnone : ∀ ch ∈ pre, decide (ch ≠ ascii '-') = true := by
      intro ch hch
      rw [decide_eq_true_eq]
      rintro rfl
      exact (hpre.1 _ hch).elim (by decide) (not_not.mpr (by decide))
    rcases hw with hw | ⟨n, hw⟩
    · rw [hw]
      rw [List.takeWhile_eq_self_iff]
      exact hnone
    · rw [hw, List.takeWhile_append_of_pos hnone]
      simp
  unfold retry retryFrom
  dsimp only
  rw [hnumber]
  split_ifs
  · exact .inl rfl
  · exact .inl rfl
  · exact .inr ⟨_, hpre.2, rfl⟩

/-- What is added is what is promised, unless the reply allows and has a fourth integer. -/
theorem Layout.added_eq_promised_iff (l : Layout) (enableHeaders : Bool) :
    ((l.added enableHeaders).map fun h => setCustomHeader h.1 h.2) = l.promised enableHeaders ↔
      ¬ (l.status = ascii '0' ∧ enableHeaders = true ∧ l.retry ≠ -1) := by
  unfold added promised
  rcases l.statusByte with hstatus | hstatus
  · -- An allowed reply is promised the counters at most.
    have hne : l.status ≠ ascii '1' := by
      rw [hstatus]
      decide
    cases enableHeaders with
    | false => simp [hne]
    | true =>
      by_cases hretry : l.retry = -1
      · simp [hne, hretry, setCustomHeader, Header.name]
      · refine iff_of_false ?_ (not_not.mpr ⟨hstatus, rfl, hretry⟩)
        intro h
        have hlength := congrArg List.length h
        simp [hne, hretry] at hlength
  · have hne : l.status ≠ ascii '0' := by
      rw [hstatus]
      decide
    refine iff_of_true ?_ fun h => hne h.1
    rcases l.retry_cases with hretry | ⟨n, -, hretry⟩
    · simp [hstatus, hretry, setCustomHeader, Header.name]
    · have hn : (n : ℤ) ≠ -1 := by omega
      simp [hstatus, hretry, hn, setCustomHeader, Header.name, integer]

/-! ## What a run adds -/

/-- A status leaves the parser fresh. -/
theorem Parse.Fresh.status {p : Parse} (h : p.Fresh) (status : ℕ) :
    Parse.Fresh { p with status := status } :=
  ⟨h.state, h.limit, h.remaining, h.reset, h.retryAfter⟩

namespace RoundTrip

/-- Nothing was added to the response: the request was not finalized. -/
structure Bare (conf : LocConf) (r : RoundTrip) : Prop where
  attached : r.attached = true
  conf : r.conf = conf
  finalized : r.finalized = false
  headersOut : r.headersOut = []

/-- The reply has not begun. -/
structure BareHeader (conf : LocConf) (r : RoundTrip) : Prop where
  bare : Bare conf r
  readHandler : r.readHandler = .header
  replyParsed : r.replyParsed = false
  parse : r.parse.Fresh
  fed : r.fed = []

/-- The parser is in the middle of the reply. -/
structure BareBody (conf : LocConf) (r : RoundTrip) : Prop where
  bare : Bare conf r
  readHandler : r.readHandler = .body
  writeHandler : r.writeHandler = .dummy
  length : r.length ≠ 0
  replyParsed : r.replyParsed = false
  parse : ∃ p : Parse, p.Fresh ∧ replyLoop p r.fed = .again r.parse

/-- The parser has read this reply to its end, and stored the values of its lines. -/
structure BareReplied (conf : LocConf) (r : RoundTrip) : Prop where
  bare : Bare conf r
  length : r.length = 0
  replyParsed : r.replyParsed = true
  layout : ∃ (l : Layout) (rest : Bytes), r.fed = l.bytesThen rest ∧
    { r.parse with state := .almostDone } = l.parse

/-- There is no reply. -/
structure BareFailed (conf : LocConf) (r : RoundTrip) : Prop where
  bare : Bare conf r
  replyParsed : r.replyParsed = false
  layout : ¬ ∃ (l : Layout) (rest : Bytes), r.fed = l.bytesThen rest

/-- The headers of a finalized request: those for the reply, or none. -/
def Reported (conf : LocConf) (r : RoundTrip) : Prop :=
  r.attached = false ∧
    ((∃ (l : Layout) (rest : Bytes), r.fed = l.bytesThen rest ∧ r.replyParsed = true ∧
        r.headersOut = l.added conf.enableHeaders) ∨
      (¬ ∃ (l : Layout) (rest : Bytes), r.fed = l.bytesThen rest) ∧ r.replyParsed = false ∧
        r.headersOut = [])

variable {conf : LocConf} {r : RoundTrip}

/-- Waiting may fail: no headers were added then. -/
theorem BareHeader.failed (h : BareHeader conf r) : BareFailed conf r := by
  refine ⟨h.bare, h.replyParsed, ?_⟩
  rintro ⟨l, rest, hl⟩
  exact absurd (h.fed.symm.trans hl) (List.cons_ne_nil _ _).symm

/-- So may reading. -/
theorem BareBody.failed (h : BareBody conf r) : BareFailed conf r := by
  refine ⟨h.bare, h.replyParsed, ?_⟩
  rintro ⟨l, rest, hl⟩
  obtain ⟨p, hp, hloop⟩ := h.parse
  rw [hl, replyLoop_layout hp] at hloop
  cases hloop

/-- `process_header` adds no headers. -/
theorem BareHeader.processHeader (h : BareHeader conf r) (io : Io) :
    BareHeader conf (r.processHeader io).2 := by
  have hbare := h.bare
  have hstep := processHeader_step io r
  generalize r.processHeader io = result at hstep
  cases hstep with
  | again left k t hstands =>
    exact ⟨⟨hbare.attached, hbare.conf, hbare.finalized, hbare.headersOut⟩, h.readHandler,
      h.replyParsed, h.parse, h.fed⟩
  | array k rest hstands hrest =>
    exact ⟨⟨hbare.attached, hbare.conf, hbare.finalized, hbare.headersOut⟩, h.readHandler,
      h.replyParsed, h.parse.status 200, h.fed⟩
  | refused rc left k rest hrc hstands =>
    exact ⟨⟨hbare.attached, hbare.conf, hbare.finalized, hbare.headersOut⟩, h.readHandler,
      h.replyParsed, h.parse, h.fed⟩
  | fallback k line rest hstands =>
    dsimp only
    rcases resendEval_cases io (r.moved 0 k) with hcase | ⟨rc, bufs, handler, timer, hcase⟩
    · rw [hcase]
      exact ⟨⟨hbare.attached, hbare.conf, hbare.finalized, hbare.headersOut⟩, h.readHandler,
        h.replyParsed, h.parse, h.fed⟩
    · rw [hcase]
      exact ⟨⟨hbare.attached, hbare.conf, hbare.finalized, hbare.headersOut⟩, h.readHandler,
        h.replyParsed, ⟨rfl, rfl, rfl, rfl, rfl⟩, h.fed⟩

/-- Nor does sending. -/
theorem BareHeader.sendLoop (h : BareHeader conf r) (io : Io) (sends : List Send) :
    BareHeader conf (RoundTrip.sendLoop io sends r).2 := by
  obtain ⟨bufs, handler, timer, hframe⟩ := sendLoop_frame io sends r
  have hbare := h.bare
  rw [hframe]
  exact ⟨⟨hbare.attached, hbare.conf, hbare.finalized, hbare.headersOut⟩, h.readHandler,
    h.replyParsed, h.parse, h.fed⟩

/-- The body begins with nothing given to the parser. -/
theorem BareHeader.enterBody (h : BareHeader conf r) : BareBody conf (enterBody r) := by
  have hbare := h.bare
  refine ⟨⟨hbare.attached, hbare.conf, hbare.finalized, hbare.headersOut⟩, rfl, rfl,
    (by decide : (-1 : ℤ) ≠ 0), h.replyParsed, r.parse, h.parse, ?_⟩
  show replyLoop r.parse r.fed = .again r.parse
  rw [h.fed]
  rfl

/-- `process_reply` goes on, or has read a layout to its end, or refuses what is none. -/
theorem BareBody.processReply (h : BareBody conf r) (bytes : Bytes) :
    Parses (BareBody conf) (BareReplied conf) (BareFailed conf) (r.processReply bytes).1
      (r.processReply bytes).2 := by
  have hbare := h.bare
  obtain ⟨p, hp, hfed⟩ := h.parse
  have happend := replyLoop_append p r.fed bytes
  rw [hfed] at happend
  unfold RoundTrip.processReply
  dsimp only at happend ⊢
  cases hloop : replyLoop r.parse bytes with
  | again q =>
    rw [hloop] at happend
    refine ⟨fun _ => ?_, nofun, nofun⟩
    exact ⟨⟨hbare.attached, hbare.conf, hbare.finalized, hbare.headersOut⟩, h.readHandler,
      h.writeHandler, h.length, h.replyParsed, p, hp, happend⟩
  | error q =>
    rw [hloop] at happend
    refine ⟨nofun, nofun, fun _ => ?_⟩
    refine ⟨⟨hbare.attached, hbare.conf, hbare.finalized, hbare.headersOut⟩, h.replyParsed, ?_⟩
    rintro ⟨l, rest, hl⟩
    have hl' : r.fed ++ bytes = l.bytesThen rest := hl
    rw [hl', replyLoop_layout hp] at happend
    cases happend
  | done q tail =>
    rw [hloop] at happend
    obtain ⟨l, rest, hl⟩ := (done_iff_layout hp).mp ⟨q, tail, happend⟩
    refine ⟨nofun, fun _ => ?_, nofun⟩
    refine ⟨⟨hbare.attached, hbare.conf, hbare.finalized, hbare.headersOut⟩, rfl, rfl, l, rest, hl,
      ?_⟩
    rw [hl, replyLoop_layout hp] at happend
    obtain ⟨rfl, -⟩ := Parsed.done.inj happend
    rfl

/-- The operations add no headers. -/
theorem headers_rules (io : Io) : Rules io (BareHeader conf) (BareHeader conf) (BareBody conf)
    (BareReplied conf) (BareFailed conf) where
  waiting h := ⟨h.bare.attached, h.readHandler⟩
  reading h := ⟨h.bare.attached, h.readHandler, h.writeHandler, h.length⟩
  replied h := ⟨h.bare.attached, h.length⟩
  failed h := h.bare.attached
  waiting_failed h := h.failed
  reading_failed h := h.failed
  alloc h := ⟨⟨h.bare.attached, h.bare.conf, h.bare.finalized, h.bare.headersOut⟩, h.readHandler,
    h.replyParsed, h.parse, h.fed⟩
  waiting_eof h := ⟨⟨h.bare.attached, h.bare.conf, h.bare.finalized, h.bare.headersOut⟩,
    h.replyParsed, h.failed.layout⟩
  waiting_error h := ⟨⟨h.bare.attached, h.bare.conf, h.bare.finalized, h.bare.headersOut⟩,
    h.replyParsed, h.failed.layout⟩
  header := by
    intro r r₁ x data h hx
    obtain ⟨rest, -, -, -, rfl⟩ := recv_bytes hx
    have hfill : BareHeader conf { r with
        sock := rest, buffer := r.buffer.map fun b : Buf => b.fill data } :=
      ⟨⟨h.bare.attached, h.bare.conf, h.bare.finalized, h.bare.headersOut⟩, h.readHandler,
        h.replyParsed, h.parse, h.fed⟩
    have hresult := hfill.processHeader io
    exact ⟨fun _ => hresult, fun _ => hresult, fun _ _ => hresult.failed⟩
  send h := ⟨fun _ => h.sendLoop io io.sends, fun _ => (h.sendLoop io io.sends).failed⟩
  body_failed h := by
    have hfail := h.enterBody.failed
    exact ⟨hfail, ⟨hfail.bare.attached, hfail.bare.conf, hfail.bare.finalized,
      hfail.bare.headersOut⟩, hfail.replyParsed, hfail.layout⟩
  body_bytes := by
    intro r h _
    have hbody := h.enterBody
    exact BareBody.processReply (r := { RoundTrip.enterBody r with
      buffer := r.buffer.map Buf.rewind }) ⟨⟨hbody.bare.attached, hbody.bare.conf,
        hbody.bare.finalized, hbody.bare.headersOut⟩, hbody.readHandler, hbody.writeHandler,
        hbody.length, hbody.replyParsed, hbody.parse⟩ r.window
  body_empty := by
    intro r h _
    have hbody := h.enterBody
    exact ⟨⟨hbody.bare.attached, hbody.bare.conf, hbody.bare.finalized, hbody.bare.headersOut⟩,
      hbody.readHandler, hbody.writeHandler, hbody.length, hbody.replyParsed, hbody.parse⟩
  clear h := ⟨⟨h.bare.attached, h.bare.conf, h.bare.finalized, h.bare.headersOut⟩, h.readHandler,
    h.writeHandler, h.length, h.replyParsed, h.parse⟩
  reading_eof h := ⟨⟨h.bare.attached, h.bare.conf, h.bare.finalized, h.bare.headersOut⟩,
    h.readHandler, h.writeHandler, h.length, h.replyParsed, h.parse⟩
  reading_error h := ⟨⟨h.bare.attached, h.bare.conf, h.bare.finalized, h.bare.headersOut⟩,
    h.readHandler, h.writeHandler, h.length, h.replyParsed, h.parse⟩
  reply := by
    intro r r₁ x data h hx
    obtain ⟨rest, -, -, -, rfl⟩ := recv_bytes hx
    exact BareBody.processReply (r := { r with sock := rest }) ⟨⟨h.bare.attached, h.bare.conf,
      h.bare.finalized, h.bare.headersOut⟩, h.readHandler, h.writeHandler, h.length, h.replyParsed,
      h.parse⟩ data

/-- What `finalize_request` adds for a reply. -/
theorem BareReplied.rateHeaders (h : BareReplied conf r) :
    ∃ (l : Layout) (rest : Bytes), r.fed = l.bytesThen rest ∧
      r.rateHeaders = l.added conf.enableHeaders := by
  obtain ⟨l, rest, hfed, hparse⟩ := h.layout
  refine ⟨l, rest, hfed, ?_⟩
  have hstatus : r.parse.status = statusFor l.status := congrArg Parse.status hparse
  have hlimit : r.parse.limit = valueFrom 0 l.limit := congrArg Parse.limit hparse
  have hremaining : r.parse.remaining = valueFrom 0 l.remaining := congrArg Parse.remaining hparse
  have hreset : r.parse.reset = valueFrom 0 l.reset := congrArg Parse.reset hparse
  have hretry : r.parse.retryAfter = l.retry := congrArg Parse.retryAfter hparse
  -- The cast to `ngx_uint_t` does not change a fourth integer that is sent.
  have hcast : l.retry ≠ -1 → (l.retry % uintT).toNat = l.retry.toNat := by
    intro hne
    rcases l.retry_cases with h | ⟨n, hn, h⟩
    · exact absurd h hne
    · have hsmall : (n : ℤ) < uintT := by exact_mod_cast hn.trans_lt (by decide)
      rw [h, Int.emod_eq_of_lt (Int.natCast_nonneg n) hsmall]
  have hone : ascii '0' ≠ ascii '1' := by decide
  unfold RoundTrip.rateHeaders Layout.added
  rw [h.replyParsed, hstatus, hlimit, hremaining, hreset, hretry, h.bare.conf]
  by_cases hne : l.retry = -1
  · rcases l.statusByte with hs | hs <;> simp [hs, hne, hone, statusFor]
  · rcases l.statusByte with hs | hs <;> simp [hs, hne, hone, statusFor, hcast hne]

/-- Finalization reports the reply, or nothing. -/
theorem headers_runRules : RunRules (BareHeader conf) (BareHeader conf) (BareBody conf)
    (BareReplied conf) (BareFailed conf) (Reported conf) where
  rules := headers_rules
  waiting_arrive _ h := ⟨⟨h.bare.attached, h.bare.conf, h.bare.finalized, h.bare.headersOut⟩,
    h.readHandler, h.replyParsed, h.parse, h.fed⟩
  reading_arrive _ h := ⟨⟨h.bare.attached, h.bare.conf, h.bare.finalized, h.bare.headersOut⟩,
    h.readHandler, h.writeHandler, h.length, h.replyParsed, h.parse⟩
  finalized h := h.1
  replied := by
    intro q h
    obtain ⟨l, rest, hfed, hheaders⟩ := h.rateHeaders
    rw [finalizeUpstreamRequest, if_pos h.bare.attached]
    refine ⟨rfl, .inl ⟨l, rest, hfed, h.replyParsed, ?_⟩⟩
    show q.headersOut ++ q.rateHeaders = _
    rw [h.bare.headersOut, List.nil_append, hheaders]
  failed := by
    intro q rc why h hexit
    have hnone : q.rateHeaders = [] := by
      rw [RoundTrip.rateHeaders, h.replyParsed]
      rfl
    obtain ⟨-, hok, hdone, hdeclined⟩ := hexit
    have hrc : ¬ (rc = .ok ∨ rc = .done ∨ rc = .declined) := by tauto
    rw [finalizeUpstreamRequest, if_pos h.bare.attached]
    simp only [if_neg hrc]
    refine ⟨rfl, .inr ⟨h.layout, h.replyParsed, ?_⟩⟩
    show q.headersOut ++ q.rateHeaders = _
    rw [h.bare.headersOut, hnone]
    rfl

/-- A finalized request reports its reply, or nothing. -/
theorem reported_of_finalized (conf : LocConf) (key : Bytes) (events : List Event)
    (h : ((start conf key).run events).finalized = true) :
    Reported conf ((start conf key).run events) := by
  have hstart : BareHeader conf (start conf key) :=
    ⟨⟨rfl, rfl, rfl, rfl⟩, rfl, rfl, ⟨rfl, rfl, rfl, rfl, rfl⟩, rfl⟩
  rcases headers_runRules.run (.inl hstart) events with hw | hr | he
  · exact absurd (hw.bare.finalized.symm.trans h) (by decide)
  · exact absurd (hr.bare.finalized.symm.trans h) (by decide)
  · exact he

/-- The headers are those that are promised for the reply, and none without one. -/
def Truthful (conf : LocConf) (q : RoundTrip) : Prop :=
  (∀ (l : Layout) (rest : Bytes), q.fed = l.bytesThen rest →
    q.responseHeaders = l.promised conf.enableHeaders) ∧
  ((¬ ∃ (l : Layout) (rest : Bytes), q.fed = l.bytesThen rest) → q.responseHeaders = [])

end RoundTrip

open RoundTrip

/-- The rate headers tell the truth, for every stream, split and failure: the reply is parsed to its
end just when the parser was given one, and then the headers are its values in decimal, as promised
by its status and `ratelimit_headers`; otherwise there are none. The exception are allowed replies
with a fourth integer other than -1 while `ratelimit_headers` is on. -/
theorem headers_truthful_iff (conf : LocConf) (key : Bytes) (events : List Event)
    (hfinal : ((start conf key).run events).finalized = true) :
    let q := (start conf key).run events
    (q.replyParsed = true ↔ ∃ (l : Layout) (rest : Bytes), q.fed = l.bytesThen rest) ∧
    (Truthful conf q ↔ ¬ ∃ (l : Layout) (rest : Bytes), q.fed = l.bytesThen rest ∧
      l.status = ascii '0' ∧ conf.enableHeaders = true ∧ l.retry ≠ -1) := by
  intro q
  obtain ⟨-, ⟨l, rest, hfed, hparsed, hheaders⟩ | ⟨hnone, hparsed, hheaders⟩⟩ :=
    reported_of_finalized conf key events hfinal
  · refine ⟨iff_of_true hparsed ⟨l, rest, hfed⟩, ?_⟩
    -- There is one layout to compare with.
    have hunique : ∀ (l' : Layout) (rest' : Bytes), q.fed = l'.bytesThen rest' → l' = l :=
      fun l' rest' h => Layout.unique (h.symm.trans hfed)
    have hsent : q.responseHeaders =
        (l.added conf.enableHeaders).map fun h => setCustomHeader h.1 h.2 :=
      congrArg (List.map _) hheaders
    have hpromise : Truthful conf q ↔ q.responseHeaders = l.promised conf.enableHeaders := by
      constructor
      · exact fun h => h.1 l rest hfed
      · intro h
        refine ⟨fun l' rest' h' => ?_, fun hno => absurd ⟨l, rest, hfed⟩ hno⟩
        rw [hunique l' rest' h']
        exact h
    rw [hpromise, hsent, l.added_eq_promised_iff]
    refine not_congr ⟨fun h => ⟨l, rest, hfed, h⟩, ?_⟩
    rintro ⟨l', rest', hfed', h⟩
    rw [← hunique l' rest' hfed']
    exact h
  · refine ⟨iff_of_false (by rw [hparsed]; decide) hnone, ?_⟩
    refine iff_of_true ⟨fun l rest h => absurd ⟨l, rest, h⟩ hnone, fun _ => ?_⟩ ?_
    · exact congrArg (List.map _) hheaders
    · exact fun ⟨l, rest, h, _⟩ => hnone ⟨l, rest, h⟩

/-- A rejection that arrives in two pieces is reported with its values, and truthfully. -/
theorem headers_truthful_iff_rejection :
    let conf := LocConf.ofZone ⟨.gcra, 5, 60, 0, ⟨[], []⟩⟩ fun _ => ⟨[], []⟩
    let q := (start conf (text "10.0.0.1")).run
      [.arrive (text "*5\r\n:1\r\n:5"), .read (Io.good [.data 4096] []),
        .arrive (text "\r\n:0\r\n:12\r\n:60\r\n"), .read (Io.good [.data 4096] [])]
    q.responseHeaders = [("X-RateLimit-Limit", text "5"), ("X-RateLimit-Remaining", text "0"),
      ("X-RateLimit-Reset", text "60"), ("Retry-After", text "12")] ∧ Truthful conf q :=
  ⟨by decide +kernel,
    (headers_truthful_iff (LocConf.ofZone ⟨.gcra, 5, 60, 0, ⟨[], []⟩⟩ fun _ => ⟨[], []⟩)
      (text "10.0.0.1")
      [.arrive (text "*5\r\n:1\r\n:5"), .read (Io.good [.data 4096] []),
        .arrive (text "\r\n:0\r\n:12\r\n:60\r\n"), .read (Io.good [.data 4096] [])]
      (by decide +kernel)).2.mpr fun ⟨_, _, _, _, hon, _⟩ => nomatch hon⟩

/-- With `ratelimit_headers on`, an allowed reply whose fourth integer is 7 is let through with
`Retry-After: 7`. -/
theorem allowed_with_retryAfter :
    let conf : LocConf :=
      { LocConf.ofZone ⟨.custom, 5, 60, 0, ⟨text "return {0,5,3,7,60}", []⟩⟩ fun _ => ⟨[], []⟩ with
        enableHeaders := true }
    let q := (start conf (text "10.0.0.1")).run
      [.arrive (text "*5\r\n:0\r\n:5\r\n:3\r\n:7\r\n:60\r\n"), .read (Io.good [.data 4096] [])]
    q.finalized = true ∧ verdict conf q.parse.status = .declined ∧
      ("Retry-After", text "7") ∈ q.responseHeaders ∧ ¬ Truthful conf q := by
  intro conf q
  refine ⟨by decide +kernel, by decide +kernel, by decide +kernel, fun htrue => ?_⟩
  have hpromise := htrue.1 ⟨1, 1, ascii '0', 1, text ":5", text ":3", text ":7", text ":60",
    by decide +kernel, by decide +kernel, by decide +kernel,
    ⟨text ":7", by decide +kernel, .inl rfl⟩, by decide +kernel⟩ [] rfl
  exact absurd (congrArg List.length hpromise) (by decide +kernel)

end NginxRatelimit
