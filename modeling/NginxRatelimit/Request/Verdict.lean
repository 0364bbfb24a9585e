import NginxRatelimit.Request.Handler
import NginxRatelimit.Request.Rules
import NginxRatelimit.Request.Status

/-!
# The verdict fails closed

A round trip has ended with a reply parsed to its end, and then `u->state->status` is that of the
reply's status byte, or for one of the other reasons, each with its own status. The invariant is
`Waiting`, `Reading` and `Ended`; it is proved by the rule for round trips. The handler looks at the
status alone, so that it decides on the reason.
-/

namespace NginxRatelimit

/-- The reasons that are transport failures: 503, 504 and 502. -/
def Exit.Transport (why : Exit) : Prop :=
  why = .connectError ∨ why = .timeout ∨ why = .eof ∨ why = .recvError ∨ why = .sendError

/-- Whether a reason is a transport failure can be decided. -/
instance (why : Exit) : Decidable why.Transport :=
  inferInstanceAs (Decidable (_ ∨ _ ∨ _ ∨ _ ∨ _))

namespace RoundTrip

/-- A round trip whose reply has not begun. -/
structure Waiting (r : RoundTrip) : Prop where
  attached : r.attached = true
  readHandler : r.readHandler = .header
  finalized : r.finalized = false
  replyParsed : r.replyParsed = false
  state : r.parse.state = .start
  fed : r.fed = []

/-- A round trip in the middle of its reply. -/
structure Reading (r : RoundTrip) : Prop where
  attached : r.attached = true
  readHandler : r.readHandler = .body
  writeHandler : r.writeHandler = .dummy
  finalized : r.finalized = false
  replyParsed : r.replyParsed = false
  length : r.length ≠ 0
  status : StatusKnown r.parse r.fed

/-- A round trip with its reply. -/
structure Replied (r : RoundTrip) : Prop where
  attached : r.attached = true
  length : r.length = 0
  replyParsed : r.replyParsed = true
  status : ∃ ch, statusByte r.fed = some ch ∧ StatusOfByte ch r.parse.status

/-- A round trip that fails. -/
structure Failed (r : RoundTrip) : Prop where
  attached : r.attached = true
  replyParsed : r.replyParsed = false

/-- A finalized round trip, with the status of its reply or of the reason it failed for. -/
def Ended (r : RoundTrip) : Prop :=
  r.attached = false ∧
    ((r.exit = some .replied ∧ r.replyParsed = true ∧
        ∃ ch, statusByte r.fed = some ch ∧ StatusOfByte ch r.parse.status) ∨
      ∃ why, r.exit = some why ∧ exitStatus why = some r.parse.status ∧ r.replyParsed = false)

/-- Waiting may fail: no reply was parsed then. -/
theorem Waiting.failed {r : RoundTrip} (h : Waiting r) : Failed r := ⟨h.attached, h.replyParsed⟩

/-- So may reading. -/
theorem Reading.failed {r : RoundTrip} (h : Reading r) : Failed r := ⟨h.attached, h.replyParsed⟩

/-! ## What the operations keep -/

/-- Sending goes on waiting. -/
theorem Waiting.sendLoop {r : RoundTrip} (h : Waiting r) (io : Io) (sends : List Send) :
    Waiting (sendLoop io sends r).2 := by
  obtain ⟨bufs, handler, timer, hframe⟩ := sendLoop_frame io sends r
  rw [hframe]
  exact ⟨h.attached, h.readHandler, h.finalized, h.replyParsed, h.state, h.fed⟩

/-- So does `resend_eval`, which resets the parser. -/
theorem Waiting.resendEval {r : RoundTrip} (h : Waiting r) (io : Io) :
    Waiting (r.resendEval io).2 := by
  rcases resendEval_cases io r with hcase | ⟨rc, bufs, handler, timer, hcase⟩
  · rw [hcase]
    exact ⟨h.attached, h.readHandler, h.finalized, h.replyParsed, h.state, h.fed⟩
  · rw [hcase]
    exact ⟨h.attached, h.readHandler, h.finalized, h.replyParsed, rfl, h.fed⟩

/-- The prelude's replies are not parsed as a reply. -/
theorem Waiting.consumePrelude {r : RoundTrip} (h : Waiting r) (n : ℕ) :
    Waiting (consumePrelude n r).2 := by
  induction n generalizing r with
  | zero => exact h
  | succ n ih =>
    have hreply : Waiting (r.consumePreludeReply).2 := by
      unfold consumePreludeReply
      dsimp only
      split
      · exact h
      · split
        · exact ⟨h.attached, h.readHandler, h.finalized, h.replyParsed, h.state, h.fed⟩
        · exact h
    rw [RoundTrip.consumePrelude]
    split
    · rename_i r' heq
      rw [heq] at hreply
      exact ih ⟨hreply.attached, hreply.readHandler, hreply.finalized, hreply.replyParsed,
        hreply.state, hreply.fed⟩
    · rename_i rc r' _ heq
      rw [heq] at hreply
      exact hreply

/-- Nor is anything before the array. -/
theorem Waiting.processType {r : RoundTrip} (h : Waiting r) (io : Io) :
    Waiting (r.processType io).2 := by
  have hresend := h.resendEval io
  unfold RoundTrip.processType
  repeat' split
  all_goals first | exact h | skip
  · exact ⟨h.attached, h.readHandler, h.finalized, h.replyParsed, h.state, h.fed⟩
  · rename_i heq
    rw [heq] at hresend
    exact hresend
  · rename_i heq
    rw [heq] at hresend
    exact hresend

/-- So `process_header` leaves the parser at its beginning. -/
theorem Waiting.processHeader {r : RoundTrip} (h : Waiting r) (io : Io) :
    Waiting (r.processHeader io).2 := by
  have hprelude := h.consumePrelude r.preludeReplies
  unfold RoundTrip.processHeader
  split
  · rename_i heq
    rw [heq] at hprelude
    exact hprelude.processType io
  · rename_i heq
    rw [heq] at hprelude
    exact hprelude

/-- `process_reply` goes on, fails, or has read the status with the reply. -/
theorem processReply_parses {r : RoundTrip} (h : Reading r) (bytes : Bytes) :
    Parses Reading Replied Failed (r.processReply bytes).1 (r.processReply bytes).2 := by
  unfold processReply
  dsimp only
  cases hloop : replyLoop r.parse bytes with
  | again p =>
    refine ⟨fun _ => ?_, nofun, nofun⟩
    exact ⟨h.attached, h.readHandler, h.writeHandler, h.finalized, h.replyParsed, h.length,
      statusKnown_again h.status hloop⟩
  | error p => exact ⟨nofun, nofun, fun _ => ⟨h.attached, h.replyParsed⟩⟩
  | done p rest =>
    have hstatus := statusKnown_done h.status hloop
    exact ⟨nofun, fun _ => ⟨h.attached, rfl, rfl, hstatus⟩, nofun⟩

/-- The body begins with nothing known of the status. -/
theorem Waiting.enterBody {r : RoundTrip} (h : Waiting r) : Reading (enterBody r) := by
  refine ⟨h.attached, rfl, rfl, h.finalized, h.replyParsed, (by decide : (-1 : ℤ) ≠ 0), ?_⟩
  have hstate : (RoundTrip.enterBody r).parse.state = .start := h.state
  have hfed : (RoundTrip.enterBody r).fed = [] := h.fed
  simp only [StatusKnown, hstate, hfed]
  simp

/-- The operations keep the verdict's invariant. -/
theorem verdict_rules (io : Io) : Rules io Waiting Waiting Reading Replied Failed where
  waiting h := ⟨h.attached, h.readHandler⟩
  reading h := ⟨h.attached, h.readHandler, h.writeHandler, h.length⟩
  replied h := ⟨h.attached, h.length⟩
  failed h := h.attached
  waiting_failed h := h.failed
  reading_failed h := h.failed
  alloc h := ⟨h.attached, h.readHandler, h.finalized, h.replyParsed, h.state, h.fed⟩
  waiting_eof h := ⟨h.attached, h.replyParsed⟩
  waiting_error h := ⟨h.attached, h.replyParsed⟩
  header := by
    intro r r₁ x data h hx
    obtain ⟨rest, -, -, -, rfl⟩ := recv_bytes hx
    have hresult := Waiting.processHeader (r := { r with
      sock := rest, buffer := r.buffer.map fun b : Buf => b.fill data })
      ⟨h.attached, h.readHandler, h.finalized, h.replyParsed, h.state, h.fed⟩ io
    exact ⟨fun _ => hresult, fun _ => hresult, fun _ _ => hresult.failed⟩
  send h := ⟨fun _ => h.sendLoop io io.sends, fun _ => (h.sendLoop io io.sends).failed⟩
  body_failed h := ⟨⟨h.attached, h.replyParsed⟩, ⟨h.attached, h.replyParsed⟩⟩
  body_bytes := by
    intro r h _
    -- The body begins with nothing parsed and `finalized` not set.
    have hbody := h.enterBody
    exact processReply_parses (r := { RoundTrip.enterBody r with
      buffer := r.buffer.map Buf.rewind }) ⟨hbody.attached, hbody.readHandler, hbody.writeHandler,
        hbody.finalized, hbody.replyParsed, hbody.length, hbody.status⟩ r.window
  body_empty := by
    intro r h _
    have hbody := h.enterBody
    exact ⟨hbody.attached, hbody.readHandler, hbody.writeHandler, hbody.finalized,
      hbody.replyParsed, hbody.length, hbody.status⟩
  clear h := ⟨h.attached, h.readHandler, h.writeHandler, h.finalized, h.replyParsed, h.length,
    h.status⟩
  reading_eof h := ⟨h.attached, h.readHandler, h.writeHandler, h.finalized, h.replyParsed,
    h.length, h.status⟩
  reading_error h := ⟨h.attached, h.readHandler, h.writeHandler, h.finalized, h.replyParsed,
    h.length, h.status⟩
  reply := by
    intro r r₁ x data h hx
    obtain ⟨rest, -, -, -, rfl⟩ := recv_bytes hx
    exact processReply_parses (r := { r with sock := rest }) ⟨h.attached, h.readHandler,
      h.writeHandler, h.finalized, h.replyParsed, h.length, h.status⟩ data

/-- What has ended stays so; what goes on has not been finalized. -/
def Inv (r : RoundTrip) : Prop := Waiting r ∨ Reading r ∨ Ended r

/-- Finalization ends a round trip with the status of its reply or of the failure. -/
theorem verdict_runRules : RunRules Waiting Waiting Reading Replied Failed Ended where
  rules := verdict_rules
  waiting_arrive _ h :=
    ⟨h.attached, h.readHandler, h.finalized, h.replyParsed, h.state, h.fed⟩
  reading_arrive _ h :=
    ⟨h.attached, h.readHandler, h.writeHandler, h.finalized, h.replyParsed, h.length, h.status⟩
  finalized h := h.1
  replied := by
    intro q h
    rw [finalizeUpstreamRequest, if_pos h.attached]
    exact ⟨rfl, .inl ⟨rfl, h.replyParsed, h.status⟩⟩
  failed := by
    intro q rc why h hexit
    obtain ⟨hstatus, hok, hdone, hdeclined⟩ := hexit
    have hrc : ¬ (rc = .ok ∨ rc = .done ∨ rc = .declined) := by tauto
    rw [finalizeUpstreamRequest, if_pos h.attached]
    simp only [if_neg hrc]
    exact ⟨rfl, .inr ⟨why, rfl, hstatus, h.replyParsed⟩⟩

/-- A started round trip has the invariant. -/
theorem inv_start (conf : LocConf) (key : Bytes) : Inv (start conf key) :=
  .inl ⟨rfl, rfl, rfl, rfl, rfl, rfl⟩

/-- The invariant holds after every run. -/
theorem inv_run {r : RoundTrip} (h : Inv r) (events : List Event) : Inv (r.run events) :=
  verdict_runRules.run h events

/-- So every finalized round trip has ended with a status that tells why. -/
theorem ended_of_finalized (conf : LocConf) (key : Bytes) (events : List Event)
    (h : ((start conf key).run events).finalized = true) : Ended ((start conf key).run events) := by
  rcases inv_run (inv_start conf key) events with hw | hr | he
  · exact absurd (hw.finalized.symm.trans h) (by decide)
  · exact absurd (hr.finalized.symm.trans h) (by decide)
  · exact he

end RoundTrip

/-! ## The verdict -/

open RoundTrip

/-- The statuses of transport failures are 502, 503 and 504, those of the others are 500. -/
theorem exitStatus_cases {why : Exit} {status : ℕ} (h : exitStatus why = some status) :
    (why.Transport ∧ IsTransportStatus status) ∨ (¬ why.Transport ∧ status = 500) := by
  cases why <;> cases h <;> decide

/-- The verdict on a failed round trip: the request is let through when `ratelimit_on_error allow`
is set and a transport failure was the reason, and gets the status of the reason otherwise. -/
theorem verdict_of_exit (conf : LocConf) {why : Exit} {status : ℕ}
    (h : exitStatus why = some status) :
    verdict conf status =
      if conf.onError = .allow ∧ why.Transport then .declined else .http status := by
  rcases exitStatus_cases h with ⟨htransport, hstatus⟩ | ⟨htransport, rfl⟩
  · have hbounds : status ≠ 429 ∧ status ≠ 200 ∧ 400 ≤ status := by
      rcases hstatus with rfl | rfl | rfl <;> decide
    rw [verdict, if_neg hbounds.1, if_neg hbounds.2.1, if_pos hbounds.2.2]
    simp only [hstatus, htransport, and_true]
  · have hnot : ¬ IsTransportStatus 500 := by decide
    simp [verdict, htransport, hnot]

/-- The reply was parsed to its end, and its status byte is `ch`. -/
def RepliedWith (q : RoundTrip) (ch : UInt8) : Prop :=
  q.replyParsed = true ∧ statusByte q.fed = some ch

/-- Whether a status byte was parsed to the end can be decided. -/
instance (q : RoundTrip) (ch : UInt8) : Decidable (RepliedWith q ch) :=
  inferInstanceAs (Decidable (_ ∧ _))

/-- The round trip ended for this reason before a reply was parsed to its end. -/
def FailedFor (q : RoundTrip) (why : Exit) : Prop :=
  q.replyParsed = false ∧ q.exit = some why

/-- The request is let through although there was no reply. -/
def FailedOpen (conf : LocConf) (q : RoundTrip) : Prop :=
  conf.onError = .allow ∧ ∃ why, FailedFor q why ∧ why.Transport

/-- The round trip failed with this status, and is not let through. -/
def FailedClosed (conf : LocConf) (q : RoundTrip) (status : ℕ) : Prop :=
  ∃ why, FailedFor q why ∧ exitStatus why = some status ∧
    ¬ (conf.onError = .allow ∧ why.Transport)

/-- The verdict on a round trip that has ended, in the four ways in which it can. -/
theorem verdict_of_ended (conf : LocConf) {q : RoundTrip} (h : Ended q) :
    (RepliedWith q (ascii '0') ∧ verdict conf q.parse.status = .declined) ∨
    (RepliedWith q (ascii '1') ∧ verdict conf q.parse.status = .http conf.statusCode) ∨
    (FailedOpen conf q ∧ verdict conf q.parse.status = .declined) ∨
    ∃ status, FailedClosed conf q status ∧ verdict conf q.parse.status = .http status := by
  obtain ⟨-, ⟨-, hparsed, ch, hch, hstatus⟩ | ⟨why, hexit, hstatus, hparsed⟩⟩ := h
  · rcases hstatus with ⟨rfl, hst⟩ | ⟨rfl, hst⟩
    · exact .inl ⟨⟨hparsed, hch⟩, by rw [hst]; rfl⟩
    · exact .inr (.inl ⟨⟨hparsed, hch⟩, by rw [hst]; rfl⟩)
  · have hverdict := verdict_of_exit conf hstatus
    by_cases hopen : conf.onError = .allow ∧ why.Transport
    · rw [if_pos hopen] at hverdict
      exact .inr (.inr (.inl ⟨⟨hopen.1, why, ⟨hparsed, hexit⟩, hopen.2⟩, hverdict⟩))
    · rw [if_neg hopen] at hverdict
      exact .inr (.inr (.inr ⟨_, ⟨why, ⟨hparsed, hexit⟩, hstatus, hopen⟩, hverdict⟩))

/-- The four ways exclude each other. -/
theorem RepliedWith.not_failedFor {q : RoundTrip} {ch : UInt8} {why : Exit}
    (h : RepliedWith q ch) : ¬ FailedFor q why :=
  fun hfail => absurd (h.1.symm.trans hfail.1) (by decide)

/-- A reply has one status byte. -/
theorem RepliedWith.eq {q : RoundTrip} {ch ch' : UInt8} (h : RepliedWith q ch)
    (h' : RepliedWith q ch') : ch = ch' :=
  Option.some.inj (h.2.symm.trans h'.2)

/-- A failure has one reason. -/
theorem FailedFor.eq {q : RoundTrip} {why why' : Exit} (h : FailedFor q why)
    (h' : FailedFor q why') : why = why' :=
  Option.some.inj (h.2.symm.trans h'.2)

/-- A request that is let through was not refused, and conversely. -/
theorem FailedOpen.not_failedClosed {conf : LocConf} {q : RoundTrip} {status : ℕ}
    (h : FailedOpen conf q) : ¬ FailedClosed conf q status := by
  obtain ⟨hallow, why, hfail, htransport⟩ := h
  rintro ⟨why', hfail', -, hclosed⟩
  exact hclosed ⟨hallow, hfail.eq hfail' ▸ htransport⟩

/-- And one status. -/
theorem FailedClosed.status_eq {conf : LocConf} {q : RoundTrip} {status status' : ℕ}
    (h : FailedClosed conf q status) (h' : FailedClosed conf q status') : status = status' := by
  obtain ⟨why, hfail, hstatus, -⟩ := h
  obtain ⟨why', hfail', hstatus', -⟩ := h'
  rw [hfail.eq hfail'] at hstatus
  exact Option.some.inj (hstatus.symm.trans hstatus')

/-- A failure has an error status. -/
theorem FailedClosed.error {conf : LocConf} {q : RoundTrip} {status : ℕ}
    (h : FailedClosed conf q status) : 400 ≤ status := by
  obtain ⟨why, -, hstatus, -⟩ := h
  rcases exitStatus_cases hstatus with ⟨-, h | h | h⟩ | ⟨-, h⟩ <;> omega

/-- A pass of the handler for a finalized round trip gives its verdict. -/
theorem handler_finalized {conf : LocConf} (env : Env) {r : HttpRequest} {q : RoundTrip}
    (htarget : (!conf.complexTarget && !conf.upstream) = false) (hq : r.roundTrip = some q)
    (hfinal : q.finalized = true) :
    (handler (some conf) env r).1 = verdict conf q.parse.status := by
  simp only [handler, htarget, hq, hfinal]
  rfl

/-- What the handler returns for a round trip that it started and that was finalized. The request is
let through just when the reply was parsed to its end and its status byte is '0', or
`ratelimit_on_error allow` is set and a transport failure ended the round trip before that. It gets
`ratelimit_status` when the status byte is '1', and the status of the failure when there was one,
which may be the same number. -/
theorem verdict_fails_closed (conf : LocConf) (env env' : Env) (r : HttpRequest) (rt : RoundTrip)
    (events : List Event) (hnew : r.roundTrip = none)
    (hstart : (handler (some conf) env r).2.roundTrip = some rt)
    (hfinal : (rt.run events).finalized = true) :
    let q := rt.run events
    let rc := (handler (some conf) env' { (handler (some conf) env r).2 with
      roundTrip := some q }).1
    (rc = .declined ↔ RepliedWith q (ascii '0') ∨ FailedOpen conf q) ∧
    (rc = .http conf.statusCode ↔
      RepliedWith q (ascii '1') ∨ FailedClosed conf q conf.statusCode) ∧
    (¬ RepliedWith q (ascii '0') → ¬ FailedOpen conf q → ¬ RepliedWith q (ascii '1') →
      ∃ status, 400 ≤ status ∧ FailedClosed conf q status ∧ rc = .http status) ∧
    (FailedFor q .refused → rc = .http 500) := by
  intro q rc
  obtain hnone | ⟨htarget, key, hkey⟩ := handler_roundTrip conf env hnew
  · exact absurd (hnone.symm.trans hstart) nofun
  have hrt : rt = .start conf key := Option.some.inj (hstart.symm.trans hkey)
  have hended : Ended q := by
    have hq : q = (start conf key).run events := congrArg (·.run events) hrt
    rw [hq]
    exact ended_of_finalized conf key events (hq ▸ hfinal)
  have hrc : rc = verdict conf q.parse.status := handler_finalized env' htarget rfl hfinal
  have hrefused : exitStatus .refused = some 500 ∧
      ¬ (conf.onError = .allow ∧ Exit.refused.Transport) := ⟨rfl, fun h => absurd h.2 (by decide)⟩
  have hne : ascii '0' ≠ ascii '1' := by decide
  rw [hrc]
  -- Allowed, rejected, failed and let through, or failed and refused: each excludes the others.
  rcases verdict_of_ended conf hended with
    ⟨h, hverdict⟩ | ⟨h, hverdict⟩ | ⟨h, hverdict⟩ | ⟨status, h, hverdict⟩
  · have hclosed : ¬ FailedClosed conf q conf.statusCode := fun ⟨_, h', _⟩ => h.not_failedFor h'
    refine ⟨⟨fun _ => .inl h, fun _ => hverdict⟩, ⟨?_, ?_⟩, fun h0 => absurd h h0, ?_⟩
    · exact fun h' => absurd (hverdict.symm.trans h') nofun
    · exact fun h' => (h'.elim (fun h1 => hne (h.eq h1)) hclosed).elim
    · exact fun h' => absurd h' h.not_failedFor
  · have hopen : ¬ FailedOpen conf q := fun ⟨_, _, h', _⟩ => h.not_failedFor h'
    refine ⟨⟨?_, ?_⟩, ⟨fun _ => .inl h, fun _ => hverdict⟩, fun _ _ h1 => absurd h h1, ?_⟩
    · exact fun h' => absurd (hverdict.symm.trans h') nofun
    · exact fun h' => (h'.elim (fun h0 => hne (h0.eq h)) hopen).elim
    · exact fun h' => absurd h' h.not_failedFor
  · have hreplied : ¬ RepliedWith q (ascii '1') :=
      fun h1 => h.2.elim fun _ hw => h1.not_failedFor hw.1
    refine ⟨⟨fun _ => .inr h, fun _ => hverdict⟩, ⟨?_, ?_⟩, fun _ ho => absurd h ho, ?_⟩
    · exact fun h' => absurd (hverdict.symm.trans h') nofun
    · exact fun h' => (h'.elim hreplied h.not_failedClosed).elim
    · exact fun h' => absurd ⟨_, h', hrefused⟩ h.not_failedClosed
  · have hreplied : ∀ ch, ¬ RepliedWith q ch := fun ch hr => h.elim fun _ hw => hr.not_failedFor hw.1
    refine ⟨⟨?_, ?_⟩, ⟨?_, ?_⟩, fun _ _ _ => ⟨status, h.error, h, hverdict⟩, ?_⟩
    · exact fun h' => absurd (hverdict.symm.trans h') nofun
    · exact fun h' => (h'.elim (hreplied _) fun ho => ho.not_failedClosed h).elim
    · intro h'
      have hstatus : status = conf.statusCode := Rc.http.inj (hverdict.symm.trans h')
      exact .inr (hstatus ▸ h)
    · rintro (h' | h')
      · exact absurd h' (hreplied _)
      · rw [hverdict, h.status_eq h']
    · intro h'
      rw [hverdict, h.status_eq ⟨_, h', hrefused⟩]

/-- A rejection that arrives in two pieces. -/
theorem verdict_fails_closed_rejection :
    let conf := LocConf.ofZone ⟨.gcra, 5, 60, 0, ⟨[], []⟩⟩ fun _ => ⟨[], []⟩
    let env := Env.good (text "10.0.0.1")
    let r : HttpRequest := ⟨false, none⟩
    let q := (start conf (text "10.0.0.1")).run
      [.arrive (text "*5\r\n:1\r\n:5"), .read (Io.good [.data 4096] []),
        .arrive (text "\r\n:0\r\n:12\r\n:60\r\n"), .read (Io.good [.data 4096] [])]
    (handler (some conf) env { (handler (some conf) env r).2 with roundTrip := some q }).1 =
      .http 429 :=
  (verdict_fails_closed (LocConf.ofZone ⟨.gcra, 5, 60, 0, ⟨[], []⟩⟩ fun _ => ⟨[], []⟩)
    (Env.good (text "10.0.0.1")) (Env.good (text "10.0.0.1")) ⟨false, none⟩
    (start (LocConf.ofZone ⟨.gcra, 5, 60, 0, ⟨[], []⟩⟩ fun _ => ⟨[], []⟩) (text "10.0.0.1"))
    [.arrive (text "*5\r\n:1\r\n:5"), .read (Io.good [.data 4096] []),
      .arrive (text "\r\n:0\r\n:12\r\n:60\r\n"), .read (Io.good [.data 4096] [])]
    rfl rfl (by decide +kernel)).2.1.mpr (.inl (by decide +kernel))

/-- With `ratelimit_status 503` a failed connect gives the configured status too, without a reply.
-/
theorem connectError_gives_statusCode :
    let conf : LocConf :=
      { LocConf.ofZone ⟨.gcra, 5, 60, 0, ⟨[], []⟩⟩ fun _ => ⟨[], []⟩ with statusCode := 503 }
    let env := Env.good (text "10.0.0.1")
    let r := (handler (some conf) env ⟨false, none⟩).2
    let q := (start conf (text "10.0.0.1")).run
      [.read { Io.good [] [] with requestSent := false, connectError := true }]
    r.roundTrip = some (start conf (text "10.0.0.1")) ∧ q.finalized = true ∧
      (handler (some conf) env { r with roundTrip := some q }).1 = .http conf.statusCode ∧
      ¬ RepliedWith q (ascii '1') :=
  ⟨rfl, rfl, rfl, by decide⟩

end NginxRatelimit
