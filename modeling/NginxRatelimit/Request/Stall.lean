import Mathlib.Data.List.Induction
import NginxRatelimit.Request.Buffer
import NginxRatelimit.Request.Verdict

/-!
# Room in the buffer

The header's reads and the body's share `u->buffer`. The loop of the body empties it before every
read but the first of an event, and the body begins in the middle of it, behind the bytes that came
with the '*'. Where a receive of the header handler fills the buffer to its end and brings a part of
the reply behind the '*', nothing empties it again: every later read event finds no room, and the
round trip hangs (`stalls_in_small_buffer`). `never_stalls_iff` says that this is the only way:
without such a receive there is room after every event, and a reply that has arrived ends the round
trip after as many reads as it has bytes.
-/

namespace NginxRatelimit

open Library

namespace RoundTrip

/-! ## The property -/

/-- There is room in the buffer, if it is allocated. -/
def Roomy (r : RoundTrip) : Prop := ∀ b ∈ r.buffer, b.last < b.size

/-- Whether there is room can be computed. -/
instance (r : RoundTrip) : Decidable r.Roomy :=
  inferInstanceAs (Decidable (∀ b ∈ r.buffer, b.last < b.size))

/-- A round trip that goes on without room. -/
def Stalled (r : RoundTrip) : Prop := r.attached = true ∧ ¬ r.Roomy

/-- And so can whether a round trip has stalled. -/
instance (r : RoundTrip) : Decidable r.Stalled := inferInstanceAs (Decidable (_ ∧ _))

/-- The reader when it has read the replies that are consumed. -/
def position (r : RoundTrip) : Reader :=
  match r.readHandler with
  | .header => .start r.preludeReplies r.evalFallback
  | .body => .body r.evalFallback r.parse

/-- The bytes that were received and not parsed. -/
def unparsed (r : RoundTrip) : Bytes :=
  match r.readHandler with
  | .header => r.window
  | .body => []

/-- All bytes of the reply have arrived: with what is on the socket the reader stops, and not after
another `EVAL`. -/
def Arrived (r : RoundTrip) : Prop :=
  ∃ e rest, reader.scan r.position (r.unparsed ++ r.sock) = .stopped e rest ∧
    e.fallback = r.evalFallback

/-- A read event whose first `recv` is given bytes, if there are any. -/
def finds : Event → Bool
  | .read io =>
    match io.recvs with
    | .data (_ + 1) :: _ => true
    | _ => false
  | .arrive _ | .write _ => false

/-- A run in which the reader never stalls: there is room whenever a handler has returned and the
round trip goes on, and a reply that has arrived ends it, with a verdict or with an error, when it is
read. -/
structure NeverStalls (conf : LocConf) (key : Bytes) (events : List Event) : Prop where
  /-- After every event there is room. -/
  room : ∀ before, before <+: events → ¬ Stalled ((start conf key).run before)
  /-- A reply is read in at most as many receives as it has bytes. -/
  ends : ∀ before more, before ++ more <+: events → Arrived ((start conf key).run before) →
    ((start conf key).run before).sock.length ≤ more.countP finds →
    Ended ((start conf key).run (before ++ more))

/-! ## The receive that stalls it -/

/-- The reader is behind the '*' of the reply and a byte more, and no other `EVAL` was sent. -/
def midReply (evalFallback : Bool) : Scanned Reader UInt8 Ending → Bool
  | .reading (.body fallback p) => fallback = evalFallback && p.state ≠ .start
  | .reading _ | .stopped _ _ => false

/-- The received bytes fill the buffer to its end, and what it holds then is the beginning of the
reply: its '*' and something behind it, but not all of it. -/
def fillsUp (r : RoundTrip) (data : Bytes) : Bool :=
  data.length = r.room &&
    midReply r.evalFallback
      (reader.scan (.start r.preludeReplies r.evalFallback) (r.window ++ data))

/-- There is such a receive in the loop of `ngx_http_ratelimit_read_header_handler`. -/
def headerLoopFillsUp (io : Io) : List Recv → RoundTrip → Bool
  | [], _ => false
  | x :: xs, r =>
    match r.recv r.room x with
    | (.bytes data, r₁) =>
      r.fillsUp data ||
        match { r₁ with buffer := r₁.buffer.map fun b : Buf => b.fill data }.processHeader io with
        | (.again, r₂) => r₂.room ≠ 0 && headerLoopFillsUp io xs r₂
        | _ => false
    | _ => false

/-- There is such a receive in an event, and nothing that fails ends the round trip. -/
def stalls (r : RoundTrip) : Event → Bool
  | .read io =>
    r.attached && r.readHandler = .header && !io.timedout && (io.requestSent || !io.connectError) &&
      (r.buffer.isSome || io.bufferAlloc) && io.nodelay && io.readEvent &&
      headerLoopFillsUp io io.recvs
        { r with buffer := some (r.buffer.getD (.alloc r.conf.bufferSize)) }
  | .arrive _ | .write _ => false

/-! ## What is known of the bytes to come -/

/-- A property of the reader and of the bytes that it has not read: `Q` before, and `Q'` after some
of them are received, also when `EVAL` is sent and the others of these are thrown away. -/
structure Carries (Q Q' : Reader → Bytes → Prop) : Prop where
  receive : ∀ {s t data rest}, data ≠ [] → Q s (data ++ rest) → reader.scan s data = .reading t →
    t.fallback = s.fallback → Q' t rest
  resend : ∀ {s pre post rest}, s.fallback = false → Q s (pre ++ post ++ rest) →
    reader.scan s pre = .reading (.reply true) → Q' (.reply true) rest

/-- A `NOSCRIPT` line ends in what is received, where the reader did not know it before. -/
theorem Carries.noScript {Q Q' : Reader → Bytes → Prop} (h : Carries Q Q') {s t : Reader}
    {seen data rest pre more : Bytes} (hseen : reader.scan s seen = .reading t)
    (hfirst : t.fallback = false) (hunread : Q t (data ++ rest)) (hall : seen ++ data = pre ++ more)
    (hpre : reader.scan s pre = .reading (.reply true)) : Q' (.reply true) rest := by
  rcases List.prefix_or_prefix_of_prefix (List.prefix_append seen data)
      (hall ▸ List.prefix_append pre more) with hprefix | hprefix
  · obtain ⟨line, rfl⟩ := hprefix
    rw [List.append_assoc] at hall
    obtain rfl := List.append_cancel_left hall
    rw [Scanner.scan_append hseen] at hpre
    exact h.resend hfirst hunread hpre
  · obtain ⟨post, rfl⟩ := hprefix
    rw [Scanner.scan_append hpre] at hseen
    exact absurd ((Reader.fallback_of_scan hseen rfl).symm.trans hfirst) (by decide)

/-- Nothing is known. -/
theorem carries_true : Carries (fun _ _ => True) (fun _ _ => True) :=
  ⟨fun _ _ _ _ => trivial, fun _ _ _ => trivial⟩

/-- Of the bytes, at most `k` more make the reader stop. -/
def Due (k : ℕ) (s : Reader) (sock : Bytes) : Prop :=
  ∃ w, w <+: sock ∧ w.length ≤ k ∧
    ∃ e rest, reader.scan s w = .stopped e rest ∧ e.fallback = s.fallback

/-- Every receive brings the end nearer. -/
theorem carries_due (k : ℕ) : Carries (Due k) (Due (k - 1)) where
  receive := by
    rintro s t data rest hdata ⟨w, hw, hk, e, more, hscan, hfallback⟩ hread hsame
    rcases List.prefix_or_prefix_of_prefix hw (List.prefix_append data rest) with h | h
    · -- The reader would have stopped in what was received.
      obtain ⟨post, rfl⟩ := h
      rw [Scanner.scan_append_stopped hscan] at hread
      cases hread
    · obtain ⟨w', rfl⟩ := h
      rw [Scanner.scan_append hread] at hscan
      refine ⟨w', (List.prefix_append_right_inj data).mp hw, ?_, e, more, hscan,
        hfallback.trans hsame.symm⟩
      have hpos := List.length_pos_iff.mpr hdata
      rw [List.length_append] at hk
      omega
  resend := by
    rintro s pre post rest hfirst ⟨w, hw, -, e, more, hscan, hfallback⟩ hread
    -- The reader does not stop before `EVAL` is sent, and knows afterwards that it was.
    rw [List.append_assoc] at hw
    rcases List.prefix_or_prefix_of_prefix hw (List.prefix_append pre _) with h | h
    · obtain ⟨post', rfl⟩ := h
      rw [Scanner.scan_append_stopped hscan] at hread
      cases hread
    · obtain ⟨w', rfl⟩ := h
      rw [Scanner.scan_append hread] at hscan
      have hset := Reader.fallback_of_scan_stopped hscan rfl
      exact absurd (hset.symm.trans (hfallback.trans hfirst)) (by decide)

/-- What is due within some bytes is due within more. -/
theorem Due.mono {k k' : ℕ} (hk : k ≤ k') {s : Reader} {sock : Bytes} (h : Due k s sock) :
    Due k' s sock := by
  obtain ⟨w, hw, hle, hstop⟩ := h
  exact ⟨w, hw, hle.trans hk, hstop⟩

/-- More bytes on the socket do not change that. -/
theorem Due.arrive {k : ℕ} {s : Reader} {sock : Bytes} (h : Due k s sock) (data : Bytes) :
    Due k s (sock ++ data) := by
  obtain ⟨w, hw, hstop⟩ := h
  exact ⟨w, hw.trans (List.prefix_append _ _), hstop⟩

/-- A reader that goes on needs a byte. -/
theorem Due.pos {k : ℕ} {s : Reader} {sock : Bytes} (h : Due k s sock) : 0 < k ∧ sock ≠ [] := by
  obtain ⟨w, hw, hle, e, rest, hscan, -⟩ := h
  have hne : w ≠ [] := by
    rintro rfl
    cases hscan
  refine ⟨(List.length_pos_iff.mpr hne).trans_le hle, ?_⟩
  rintro rfl
  exact hne (List.prefix_nil.mp hw)

/-- A waiting round trip, with `Q` of the bytes to come. -/
structure HeaderAt (Q : Reader → Bytes → Prop) (conf : LocConf) (key : Bytes) (r : RoundTrip) :
    Prop where
  live : LiveHeader conf key r
  parse : r.parse = .init
  unread : ∃ t, reader.scan (.start r.preludeReplies r.evalFallback) r.window = .reading t ∧
    t.fallback = r.evalFallback ∧ Q t r.sock

/-- One whose reply has begun, with its first bytes in the window. -/
structure BeginsAt (Q : Reader → Bytes → Prop) (conf : LocConf) (key : Bytes) (r : RoundTrip) :
    Prop where
  live : LiveHeader conf key r
  buffer : r.buffer.isSome = true
  parse : r.parse = .array
  unread : ∀ p, replyLoop .array r.window = .again p → Q (.body r.evalFallback p) r.sock

/-- One that reads its reply. -/
structure BodyAt (Q : Reader → Bytes → Prop) (conf : LocConf) (key : Bytes) (r : RoundTrip) :
    Prop where
  live : LiveBody conf key r
  buffer : r.buffer.isSome = true
  unread : Q (.body r.evalFallback r.parse) r.sock

variable {Q Q' : Reader → Bytes → Prop} {conf : LocConf} {key : Bytes} {r r₁ : RoundTrip}

/-- In an array the reader goes on as the parser does. -/
theorem scan_star {p : Parse} {rest : Bytes} (fallback : Bool)
    (h : replyLoop .array rest = .again p) :
    reader.scan (.start 0 fallback) (ascii '*' :: rest) = .reading (.body fallback p) :=
  (Scanner.scan_cons_inl rfl rest).trans (Reader.scan_body_again fallback h)

/-- One byte of the window is consumed after others. -/
theorem window_moved_succ (left : ℕ) {k : ℕ} {ch : UInt8} {more : Bytes}
    (h : r.window.drop k = ch :: more) : (r.moved left (k + 1)).window = more := by
  rw [window_moved, ← List.drop_drop, h]
  rfl

/-- A `NOSCRIPT` line in the window, with what precedes it, and what follows. -/
theorem Stands.noScript {k : ℕ} {line more : Bytes} (h : r.Stands 0 k)
    (hmore : r.window.drop k = ascii '-' :: (line ++ LF :: more)) (hfirst : r.evalFallback = false)
    (hscan : reader.scan (.reply false) (ascii '-' :: (line ++ [LF])) = .reading (.reply true)) :
    ∃ pre, r.window = pre ++ more ∧
      reader.scan (.start r.preludeReplies r.evalFallback) pre = .reading (.reply true) := by
  refine ⟨r.window.take k ++ ascii '-' :: (line ++ [LF]), ?_, ?_⟩
  · calc r.window
      _ = r.window.take k ++ r.window.drop k := (List.take_append_drop k r.window).symm
      _ = (r.window.take k ++ ascii '-' :: (line ++ [LF])) ++ more := by rw [hmore]; simp
  · rw [Scanner.scan_append h.scan, hfirst]
    exact hscan

/-- The bytes that are received come behind the window. -/
theorem HeaderAt.scan_fill (h : HeaderAt Q conf key r) {x : Recv} {data : Bytes}
    (hx : r.recv r.room x = (.bytes data, r₁)) :
    ∃ rest t, r.sock = data ++ rest ∧ data ≠ [] ∧ data.length ≤ r.room ∧
      r₁ = { r with sock := rest } ∧ t.fallback = r.evalFallback ∧ Q t (data ++ rest) ∧
      reader.scan (.start r.preludeReplies r.evalFallback) r.window = .reading t := by
  obtain ⟨rest, hsock, hdata, hlen, rfl⟩ := recv_bytes hx
  obtain ⟨t, hscan, hfallback, hQ⟩ := h.unread
  exact ⟨rest, t, hsock, hdata, hlen, rfl, hfallback, hsock ▸ hQ, hscan⟩

/-- What `process_header` makes of received bytes keeps what is known of those to come. -/
theorem HeaderAt.receive (h : HeaderAt Q conf key r) (hQ : Carries Q Q') (io : Io) {x : Recv}
    {data : Bytes} (hx : r.recv r.room x = (.bytes data, r₁)) :
    let result := { r₁ with buffer := r₁.buffer.map fun b : Buf => b.fill data }.processHeader io
    (result.1 = .again → HeaderAt Q' conf key result.2) ∧
      (result.1 = .ok → BeginsAt Q' conf key result.2) ∧
      (result.1 ≠ .again → result.1 ≠ .ok → Live conf key result.2) := by
  have hlive := (sound_rules io).header h.live hx
  obtain ⟨rest, t, hsock, hdata, hlen, rfl, hfallback, hunread, hscan⟩ := h.scan_fill hx
  dsimp only at hlive ⊢
  set q : RoundTrip := { r with
    sock := rest, buffer := r.buffer.map fun b : Buf => b.fill data } with hq
  have hwindow : q.window = r.window ++ data := window_fill r hlen
  have hstep := processHeader_step io q
  generalize q.processHeader io = result at hstep hlive
  cases hstep with
  | again left k u hstands hrest hsame hinit =>
    have hread := hstands.scan_window.trans hrest
    rw [hwindow, Scanner.scan_append hscan] at hread
    refine ⟨fun hrc => ⟨hlive.1 hrc, h.parse, u, ?_, hsame, ?_⟩, fun hrc => (by cases hrc),
      fun hrc => absurd rfl hrc⟩
    · rw [window_moved]
      exact hrest
    · exact hQ.receive hdata hunread hread (hsame.trans hfallback.symm)
  | array k more hstands hmore =>
    refine ⟨fun hrc => (by cases hrc), fun hrc => ⟨hlive.2.1 hrc, ?_, ?_, ?_⟩,
      fun _ hrc => absurd rfl hrc⟩
    · change ((q.moved 0 (k + 1)).buffer).isSome = true
      cases hb : q.buffer with
      | none =>
        rw [window, hb, Option.map_none, Option.getD_none, List.drop_nil] at hmore
        cases hmore
      | some b =>
        rw [moved, consume, hb]
        rfl
    · exact congrArg (fun p : Parse => { p with status := 200 }) h.parse
    · intro p hp
      rw [show window { q.moved 0 (k + 1) with parse.status := 200 } = more from
        window_moved_succ 0 hmore] at hp
      have hread := hstands.scan_window
      rw [hmore, scan_star _ hp] at hread
      rw [hwindow] at hread
      exact hQ.receive hdata hunread ((Scanner.scan_append hscan data).symm.trans hread)
        hfallback.symm
  | refused rc left k more hrc hstands hmore =>
    refine ⟨fun h => ?_, fun h => ?_, hlive.2.2⟩ <;> rcases hrc with rfl | rfl <;> cases h
  | fallback k line more hstands hmore hfirst hnoscript =>
    obtain ⟨line, hall, hline⟩ := hstands.noScript hmore hfirst hnoscript
    rw [hwindow] at hall
    have hnext : Q' (.reply true) rest :=
      hQ.noScript hscan (hfallback.trans hfirst) hunread hall hline
    rcases resendEval_cases io (q.moved 0 k) with hcase | ⟨rc, bufs, handler, timer, hcase⟩
    · rw [hcase] at hlive ⊢
      exact ⟨fun hrc => (by cases hrc), fun hrc => (by cases hrc), hlive.2.2⟩
    · rw [hcase] at hlive ⊢
      refine ⟨fun hrc => ⟨hlive.1 hrc, ?_, .reply true, ?_, rfl, hnext⟩, fun hrc => ?_, hlive.2.2⟩
      · exact congrArg (fun p : Parse => (⟨.start, p.status, 0, 0, -1, 0⟩ : Parse)) h.parse
      · have hempty : (((q.moved 0 k).buffer.map Buf.clear).map Buf.window).getD [] = [] := by
          cases (q.moved 0 k).buffer <;> rfl
        rw [window, hempty]
        rfl
      · dsimp only at hrc
        split at hrc
        · cases hrc
        · contradiction

/-- What `process_reply` makes of bytes keeps what is known of those to come, when it goes on. -/
theorem LiveBody.processReply_at (h : LiveBody conf key r) {bytes : Bytes}
    (hfits : ∀ b, r.buffer = some b → bytes.length ≤ b.room) (hbuffer : r.buffer.isSome = true)
    (hQ : ∀ p, replyLoop r.parse bytes = .again p → Q (.body r.evalFallback p) r.sock) :
    Parses (BodyAt Q conf key) (LiveReplied conf key) (Live conf key) (r.processReply bytes).1
      (r.processReply bytes).2 := by
  obtain ⟨hagain, hok, herror⟩ := h.processReply hfits
  refine ⟨fun hrc => ?_, hok, herror⟩
  have hlive := hagain hrc
  unfold RoundTrip.processReply at hrc hlive ⊢
  dsimp only at hrc hlive ⊢
  cases hloop : replyLoop r.parse bytes with
  | again p =>
    rw [hloop] at hlive
    refine ⟨hlive, ?_, hQ p hloop⟩
    simpa only [consume, Option.isSome_map] using hbuffer
  | error p => rw [hloop] at hrc; cases hrc
  | done p rest => rw [hloop] at hrc; cases hrc

/-- What is received in the body is given to the parser. -/
theorem BodyAt.receive (h : BodyAt Q conf key r) (hQ : Carries Q Q') {x : Recv} {data : Bytes}
    (hx : r.recv r.room x = (.bytes data, r₁)) :
    Parses (BodyAt Q' conf key) (LiveReplied conf key) (Live conf key) (r₁.processReply data).1
      (r₁.processReply data).2 := by
  obtain ⟨rest, hsock, hdata, hlen, rfl⟩ := recv_bytes hx
  have hunread := h.unread
  rw [hsock] at hunread
  have hnext : LiveBody conf key { r with sock := rest } :=
    ⟨⟨h.live.live.attached, h.live.live.sound, h.live.live.request⟩, h.live.readHandler,
      h.live.writeHandler, h.live.length⟩
  refine hnext.processReply_at ?_ h.buffer ?_
  · intro b hb
    rw [room, show r.buffer = some b from hb] at hlen
    exact hlen
  · intro p hp
    exact hQ.receive hdata hunread (Reader.scan_body_again _ hp) rfl

/-- The operations of a round trip keep what is known of the bytes to come. -/
theorem carries_rules (hQ : Carries Q Q) (io : Io) : Rules io (HeaderAt Q conf key)
    (BeginsAt Q conf key) (BodyAt Q conf key) (LiveReplied conf key) (Live conf key) where
  waiting h := ⟨h.live.live.attached, h.live.readHandler⟩
  reading h := ⟨h.live.live.attached, h.live.readHandler, h.live.writeHandler, h.live.length⟩
  replied h := ⟨h.live.attached, h.length⟩
  failed h := h.attached
  waiting_failed h := h.live.live
  reading_failed h := h.live.live
  alloc := by
    intro r h
    refine ⟨(sound_rules io).alloc h.live, h.parse, ?_⟩
    have hunread := h.unread
    cases hb : r.buffer with
    | some b =>
      have hsame : ({ r with buffer := some b } : RoundTrip) = r := by rw [← hb]
      rw [Option.getD_some, hsame]
      exact hunread
    | none =>
      have hempty : r.window = [] := by rw [window, hb]; rfl
      rw [hempty] at hunread
      exact hunread
  waiting_eof h := (sound_rules io).waiting_eof h.live
  waiting_error h := (sound_rules io).waiting_error h.live
  header h hx := h.receive hQ io hx
  send := by
    intro r h
    obtain ⟨bufs, handler, timer, hframe⟩ := sendLoop_frame io io.sends r
    have hsend := (sound_rules io).send h.live
    rw [sendEval, hframe] at hsend ⊢
    exact ⟨fun hrc => ⟨hsend.1 hrc, h.parse, h.unread⟩, hsend.2⟩
  body_failed h := (sound_rules io).body_failed h.live
  body_bytes := by
    intro r h hwindow
    have hrewind : LiveBody conf key { enterBody r with buffer := r.buffer.map Buf.rewind } :=
      ⟨⟨h.live.live.attached, h.live.live.sound.map fun b _ hsound => hsound.rewind.1,
        h.live.live.request⟩, rfl, rfl, (by decide : (-1 : ℤ) ≠ 0)⟩
    refine hrewind.processReply_at ?_ (by rw [Option.isSome_map]; exact h.buffer) ?_
    · intro b hb
      obtain ⟨b₀, hb₀, rfl⟩ := Option.map_eq_some_iff.mp hb
      rw [window, hb₀]
      exact (h.live.live.sound b₀ hb₀).rewind.2
    · intro p hp
      rw [show ({ enterBody r with buffer := r.buffer.map Buf.rewind } : RoundTrip).parse = .array
        from h.parse] at hp
      exact h.unread p hp
  body_empty := by
    intro r h hwindow
    refine ⟨(sound_rules io).body_empty h.live hwindow,
      by rw [clearBuffer, Option.isSome_map]; exact h.buffer, ?_⟩
    have hunread := h.unread .array (by rw [hwindow]; rfl)
    rw [← h.parse] at hunread
    exact hunread
  clear h := ⟨(sound_rules io).clear h.live, by rw [clearBuffer, Option.isSome_map]; exact h.buffer,
    h.unread⟩
  reading_eof h := ⟨(sound_rules io).reading_eof h.live, h.buffer, h.unread⟩
  reading_error h := ⟨(sound_rules io).reading_error h.live, h.buffer, h.unread⟩
  reply h hx := h.receive hQ hx

/-- What is known holds after every event, and of what arrives too. -/
theorem carries_runRules (hQ : Carries Q Q)
    (harrive : ∀ {s sock} data, Q s sock → Q s (sock ++ data)) :
    RunRules (HeaderAt Q conf key) (BeginsAt Q conf key) (BodyAt Q conf key) (LiveReplied conf key)
      (Live conf key) (Detached conf key) where
  rules := carries_rules hQ
  waiting_arrive data h := by
    obtain ⟨t, hscan, hfallback, hunread⟩ := h.unread
    exact ⟨sound_runRules.waiting_arrive data h.live, h.parse, t, hscan, hfallback,
      harrive data hunread⟩
  reading_arrive data h :=
    ⟨sound_runRules.reading_arrive data h.live, h.buffer, harrive data h.unread⟩
  finalized h := h.attached
  replied h := h.live.finalize _ _
  failed h _ := h.finalize _ _

/-- What is carried may be weakened. -/
theorem Carries.mono {Q'' : Reader → Bytes → Prop} (h : Carries Q Q')
    (himp : ∀ {s sock}, Q' s sock → Q'' s sock) : Carries Q Q'' :=
  ⟨fun hdata hQ hscan hsame => himp (h.receive hdata hQ hscan hsame),
    fun hfirst hQ hscan => himp (h.resend hfirst hQ hscan)⟩

/-- A reader that is due within `k` bytes stays so. -/
theorem carries_due_self (k : ℕ) : Carries (Due k) (Due k) :=
  (carries_due k).mono (Due.mono (Nat.sub_le k 1))

/-! ## Where there is room -/

/-- The buffer has a size. -/
def Sized (r : RoundTrip) : Prop := ∀ b ∈ r.buffer, 0 < b.size

/-- A buffer with room has a size. -/
theorem roomy_of_room (h : r.room ≠ 0) : r.Roomy ∧ r.Sized := by
  have hroom : ∀ b ∈ r.buffer, b.last < b.size := by
    intro b hb
    rw [room, Option.mem_def.mp hb] at h
    exact Nat.lt_of_sub_ne_zero h
  exact ⟨hroom, fun b hb => Nat.zero_lt_of_lt (hroom b hb)⟩

/-- What is finalized has not stalled. -/
theorem not_stalled_finalize (r : RoundTrip) (rc : Rc) (why : Exit) :
    ¬ Stalled (r.finalizeUpstreamRequest rc why) := by
  rintro ⟨hattached, -⟩
  by_cases h : r.attached = true
  · obtain ⟨headers, p, hframe, -⟩ := finalizeUpstreamRequest_frame h rc why
    rw [hframe] at hattached
    cases hattached
  · rw [finalizeUpstreamRequest, if_neg h] at hattached
    exact h hattached

/-- Nor has what waits with room. -/
theorem Roomy.not_stalled_waitForBody (h : r.Roomy) (io : Io) : ¬ Stalled (r.waitForBody io) := by
  unfold waitForBody
  split
  · exact fun hstalled => hstalled.2 h
  · exact not_stalled_finalize _ _ _

/-- An emptied buffer has room. -/
theorem Sized.clearBuffer (h : r.Sized) : r.clearBuffer.Roomy ∧ r.clearBuffer.Sized := by
  constructor
  all_goals
    intro b hb
    obtain ⟨b₀, hb₀, rfl⟩ := Option.map_eq_some_iff.mp hb
    exact h b₀ hb₀

/-- Parsing keeps the size of the buffer. -/
theorem Sized.processReply (h : r.Sized) (bytes : Bytes) : (r.processReply bytes).2.Sized := by
  have hadvance : Sized { r with buffer := r.buffer.map fun b : Buf => b.advance bytes } := by
    intro b hb
    obtain ⟨b₀, hb₀, rfl⟩ := Option.map_eq_some_iff.mp hb
    exact h b₀ hb₀
  have hconsume : ∀ n, Sized ({ r with
      buffer := r.buffer.map fun b : Buf => b.advance bytes, fed := r.fed ++ bytes }.consume n) := by
    intro n b hb
    obtain ⟨b₀, hb₀, rfl⟩ := Option.map_eq_some_iff.mp hb
    exact hadvance b₀ hb₀
  unfold RoundTrip.processReply
  dsimp only
  split
  · exact hconsume _
  · exact hadvance
  · exact hconsume _

/-- Once `do_write` has emptied the buffer, there is room. -/
theorem not_stalled_doWrite {write : Bool} {goOn : RoundTrip → RoundTrip}
    (h : write = true ∨ r.Roomy) (hsized : r.Sized)
    (hgo : ∀ r : RoundTrip, r.Roomy → r.Sized → ¬ Stalled (goOn r)) :
    ¬ Stalled (doWrite write r goOn) := by
  unfold doWrite
  cases write with
  | false => exact hgo r (h.resolve_left Bool.false_ne_true) hsized
  | true =>
    rw [if_pos rfl]
    repeat' split
    · exact not_stalled_finalize _ _ _
    · exact not_stalled_finalize _ _ _
    · exact not_stalled_finalize _ _ _
    · exact hgo _ hsized.clearBuffer.1 hsized.clearBuffer.2

/-- The loop of the body empties the buffer before every read but the first. -/
theorem not_stalled_redisLoop (io : Io) (recvs : List Recv) {write : Bool}
    (h : write = true ∨ r.Roomy) (hsized : r.Sized) : ¬ Stalled (redisLoop io write recvs r) := by
  induction recvs generalizing write r with
  | nil =>
    rw [redisLoop]
    exact not_stalled_doWrite h hsized fun r hr _ => hr.not_stalled_waitForBody io
  | cons x xs ih =>
    rw [redisLoop]
    refine not_stalled_doWrite h hsized fun r hr hsized => ?_
    split
    · exact hr.not_stalled_waitForBody io
    · cases hx : r.recv r.room x with
      | mk received r₁ =>
        cases received with
        | again =>
          rw [recv_again hx]
          exact hr.not_stalled_waitForBody io
        | bytes data =>
          obtain ⟨rest, -, -, -, rfl⟩ := recv_bytes hx
          have hnext := Sized.processReply (r := { r with sock := rest }) hsized data
          dsimp only
          split
          · exact not_stalled_finalize _ _ _
          · rename_i heq
            rw [heq] at hnext
            exact ih (.inl rfl) hnext
        | zero =>
          rw [recv_zero hx]
          exact ih (.inl rfl) hsized
        | error =>
          rw [recv_error hx]
          exact ih (.inl rfl) hsized

/-! ## Where there is none -/

/-- `process_reply` where the parser goes on. -/
theorem processReply_again {p : Parse} {bytes : Bytes} (h : replyLoop r.parse bytes = .again p) :
    r.processReply bytes = (.again, { ({ r with
      buffer := r.buffer.map fun b : Buf => b.advance bytes
      fed := r.fed ++ bytes } : RoundTrip).consume bytes.length with parse := p }) := by
  unfold RoundTrip.processReply
  dsimp only
  rw [h]

/-- `process_reply` where it does not. -/
theorem processReply_not_again {bytes : Bytes} (h : ¬ ∃ p, replyLoop r.parse bytes = .again p) :
    (r.processReply bytes).1 = .error ∨
      (r.processReply bytes).1 = .ok ∧ (r.processReply bytes).2.length = 0 := by
  unfold RoundTrip.processReply
  dsimp only
  cases hloop : replyLoop r.parse bytes with
  | again p => exact absurd ⟨p, hloop⟩ h
  | error p => exact .inl rfl
  | done p rest => exact .inr ⟨rfl, rfl⟩

/-- Where there is no room, the body's loop does not read. -/
theorem readBodyHandler_full {io : Io} (htimedout : io.timedout = false) (hlength : r.length ≠ 0)
    (hroom : r.room = 0) (recvs : List Recv) : r.readBodyHandler io recvs = r.waitForBody io := by
  have hwrite : (false || decide (r.length = 0)) = false := by
    rw [decide_eq_false hlength]
    rfl
  rw [readBodyHandler, htimedout, if_neg Bool.false_ne_true, processRedisResponse, hwrite]
  cases recvs with
  | nil => rw [redisLoop, doWrite, if_neg Bool.false_ne_true]
  | cons x xs => rw [redisLoop, doWrite, if_neg Bool.false_ne_true, if_pos hroom]

/-- The body handler stalls if and only if there is no room when it is called. -/
theorem stalled_readBodyHandler_iff (hattached : r.attached = true) (hlength : r.length ≠ 0)
    (hbuffer : r.buffer.isSome = true) (hsized : r.Sized) (io : Io) (recvs : List Recv) :
    Stalled (r.readBodyHandler io recvs) ↔
      (!io.timedout && io.readEvent) = true ∧ r.room = 0 := by
  cases htimedout : io.timedout with
  | true =>
    rw [readBodyHandler, htimedout, if_pos rfl]
    exact iff_of_false (not_stalled_finalize _ _ _) fun h => absurd h.1 Bool.false_ne_true
  | false =>
    by_cases hroom : r.room = 0
    · rw [readBodyHandler_full htimedout hlength hroom, waitForBody]
      cases hevent : io.readEvent with
      | false => simp [not_stalled_finalize]
      | true =>
        refine iff_of_true ⟨hattached, fun h => ?_⟩ ⟨rfl, hroom⟩
        obtain ⟨b, hb⟩ := Option.isSome_iff_exists.mp hbuffer
        rw [room, hb] at hroom
        exact absurd hroom (Nat.sub_ne_zero_of_lt (h b hb))
    · refine iff_of_false ?_ fun h => hroom h.2
      rw [readBodyHandler, htimedout, if_neg Bool.false_ne_true]
      exact not_stalled_redisLoop io recvs (.inr (roomy_of_room hroom).1) hsized

/-- So a read event leaves it as it is, whatever has arrived. -/
theorem BodyAt.read_stalled (h : BodyAt Q conf key r) (hstalled : Stalled r) {io : Io}
    (htimedout : io.timedout = false) (hevent : io.readEvent = true) :
    r.step (.read io) = r := by
  have hroom : r.room = 0 := not_not.mp fun hne => hstalled.2 (roomy_of_room hne).1
  rw [step_read_body h.live.live.attached h.live.readHandler,
    readBodyHandler_full htimedout h.live.length hroom, waitForBody, if_pos hevent]

/-- A window that is parsed where it is leaves the room behind it. -/
theorem stalled_parsed_iff {b : Buf} (hb : r.buffer = some b) (hsound : b.Sound)
    (hsized : r.Sized) {q : RoundTrip} (hattached : q.attached = true) (hlength : q.length ≠ 0)
    (hbuffer : q.buffer = some ((b.rewind.advance b.window).consume b.window.length)) (io : Io)
    (recvs : List Recv) :
    Stalled (q.readBodyHandler io recvs) ↔
      (!io.timedout && io.readEvent) = true ∧ r.room = 0 := by
  have hroom : q.room = r.room := by
    rw [room, room, hbuffer, hb]
    change b.size - (b.pos + b.window.length) = b.size - b.last
    rw [hsound.window]
  rw [← hroom]
  refine stalled_readBodyHandler_iff hattached hlength (by rw [hbuffer]; rfl) ?_ io recvs
  intro b' hb'
  rw [hbuffer] at hb'
  obtain rfl := Option.some.inj hb'
  exact hsized b hb

/-- The body begins without room if and only if the window ends with the buffer, and the parser
neither finishes nor refuses what is in it. -/
theorem BeginsAt.stalled_iff (h : BeginsAt Q conf key r) (hsized : r.Sized) (io : Io)
    (recvs : List Recv) :
    Stalled ({ r with length := -1 }.processResponse io recvs) ↔
      (!io.timedout && io.nodelay && io.readEvent) = true ∧ r.room = 0 ∧ r.window ≠ [] ∧
        ∃ p, replyLoop .array r.window = .again p := by
  obtain ⟨b, hb⟩ := Option.isSome_iff_exists.mp h.buffer
  have hsound := h.live.live.sound b hb
  have hwin : window { r with
      length := -1, readHandler := .body, writeHandler := .dummy } = r.window := rfl
  have hwindow : r.window = b.window := by rw [window, hb]; rfl
  unfold RoundTrip.processResponse
  dsimp only
  cases hnodelay : io.nodelay with
  | false => simp [not_stalled_finalize]
  | true =>
    rw [if_neg (by decide), hwin]
    by_cases hempty : r.window = []
    · -- The buffer is emptied first.
      rw [if_neg (not_not.mpr hempty)]
      refine iff_of_false ?_ fun hfills => hfills.2.2.1 hempty
      split
      · exact not_stalled_finalize _ _ _
      · unfold readBodyHandler
        split
        · exact not_stalled_finalize _ _ _
        · exact not_stalled_redisLoop io recvs (.inr (Sized.clearBuffer hsized).1)
            (Sized.clearBuffer hsized).2
    · rw [if_pos hempty]
      have hparse : ({ r with
          length := -1, readHandler := .body, writeHandler := .dummy
          buffer := r.buffer.map Buf.rewind } : RoundTrip).parse = .array := h.parse
      by_cases hagain : ∃ p, replyLoop .array r.window = .again p
      · obtain ⟨p, hp⟩ := hagain
        rw [← hparse] at hp
        rw [processReply_again hp]
        have hnonzero : (-1 : ℤ) ≠ 0 := by decide
        refine Iff.trans (Iff.of_eq (congrArg Stalled (if_neg hnonzero))) ?_
        refine Iff.trans (stalled_parsed_iff hb hsound hsized ?_ ?_ ?_ io recvs) ?_
        · exact h.live.live.attached
        · exact hnonzero
        · simp only [consume, hb, hwindow, Option.map_some]
        · rw [hparse] at hp
          simp [hempty, hp]
      · have hrc := processReply_not_again (by rw [hparse]; exact hagain)
        refine iff_of_false ?_ fun hfills => hagain hfills.2.2.2
        split
        · exact not_stalled_finalize _ _ _
        · rename_i heq
          rw [heq] at hrc
          rcases hrc with hrc | ⟨-, hlength⟩
          · exact absurd hrc (by assumption)
          · rw [if_pos hlength]
            exact not_stalled_finalize _ _ _

/-- No byte leads back to the first state. -/
theorem state_ne_start_of_next {p q : Parse} {ch : UInt8} (h : replyStep p ch = .next q) :
    q.state ≠ .start := by
  by_cases hlate : Late p.state
  · exact (late_of_next hlate h).1.1
  · cases hs : p.state with
    | start | crlf1 | arg1 =>
      simp only [replyStep, hs, readCRLF] at h
      repeat' split at h
      all_goals first | contradiction | skip
      all_goals
        cases h
        first | (dsimp only; decide) | (rw [hs]; decide)
    | crlf2 | arg2 | lf1 | arg3 | lf2 | arg4 | allowed | lf3 | arg5 | almostDone =>
      exact absurd (by rw [hs]; decide) hlate

/-- The parser does not come back to its first state. -/
theorem state_ne_start_of_again {p q : Parse} {w : Bytes} (hw : w ≠ [] ∨ p.state ≠ .start)
    (h : replyLoop p w = .again q) : q.state ≠ .start := by
  induction w generalizing p with
  | nil =>
    obtain rfl : p = q := Parsed.again.inj h
    exact hw.resolve_left fun hne => hne rfl
  | cons ch w ih =>
    cases hstep : replyStep p ch with
    | next p' =>
      rw [replyLoop_cons_next hstep] at h
      exact ih (.inr (state_ne_start_of_next hstep)) h
    | fail => rw [replyLoop_cons_fail hstep] at h; cases h
    | done => rw [replyLoop_cons_done hstep] at h; cases h

/-- The parser has left its first state if and only if it was given a byte. -/
theorem state_ne_start_iff {p : Parse} {w : Bytes} (h : replyLoop .array w = .again p) :
    p.state ≠ .start ↔ w ≠ [] := by
  refine ⟨?_, fun hw => state_ne_start_of_again (.inl hw) h⟩
  rintro hstate rfl
  obtain rfl : Parse.array = p := Parsed.again.inj h
  exact hstate rfl

/-- Consuming makes no room. -/
theorem room_moved (r : RoundTrip) (left k : ℕ) : (r.moved left k).room = r.room := by
  unfold moved consume room
  cases r.buffer <;> rfl

/-- And keeps the size. -/
theorem Sized.moved (h : r.Sized) (left k : ℕ) : (r.moved left k).Sized := by
  intro b hb
  obtain ⟨b₀, hb₀, rfl⟩ := Option.map_eq_some_iff.mp hb
  exact h b₀ hb₀

/-- So does `process_header`. -/
theorem Sized.processHeader (h : r.Sized) (io : Io) : (r.processHeader io).2.Sized := by
  have hstep := processHeader_step io r
  generalize r.processHeader io = result at hstep
  cases hstep with
  | again left k t => exact h.moved left k
  | array k rest => exact h.moved 0 (k + 1)
  | refused rc left k rest => exact h.moved left k
  | fallback k line rest =>
    dsimp only
    rcases resendEval_cases io (r.moved 0 k) with hcase | ⟨rc, bufs, handler, timer, hcase⟩
    · rw [hcase]
      exact h.moved 0 k
    · rw [hcase]
      exact (h.moved 0 k).clearBuffer.2

/-- A reader that has parsed nothing is not in the middle of a reply. -/
theorem midReply_of_parse {t : Reader} (h : t.parse = .init) (fallback : Bool) :
    midReply fallback (.reading t) = false := by
  cases t with
  | body fallback' p =>
    obtain rfl : p = .init := h
    simp [midReply, Parse.init]
  | prelude | reply | errorLine => rfl

/-- Nor is one that has another `EVAL` to wait for. -/
theorem midReply_of_fallback {t : Reader} {fallback : Bool} (h : t.fallback ≠ fallback) :
    midReply fallback (.reading t) = false := by
  cases t with
  | body fallback' p =>
    have hne : fallback' ≠ fallback := h
    simp [midReply, hne]
  | prelude | reply | errorLine => rfl

/-- The beginning of an array. -/
theorem midReply_star {fallback : Bool} {w : Bytes} :
    midReply fallback (reader.scan (.start 0 fallback) (ascii '*' :: w)) = true ↔
      w ≠ [] ∧ ∃ p, replyLoop .array w = .again p := by
  have hstar : reader.scan (.start 0 fallback) (ascii '*' :: w) =
      reader.scan (.body fallback .array) w := Scanner.scan_cons_inl rfl w
  rw [hstar]
  cases hloop : replyLoop .array w with
  | again p =>
    rw [Reader.scan_body_again fallback hloop]
    simp [midReply, ← state_ne_start_iff hloop]
  | error p =>
    obtain ⟨rest, hstop⟩ := Reader.scan_body_error fallback hloop
    rw [hstop]
    simp [midReply]
  | done p rest =>
    rw [Reader.scan_body_done fallback hloop]
    simp [midReply]

/-- The reader is in the middle of the reply where `process_header` leaves a part of one. -/
theorem midReply_iff (io : Io) (r : RoundTrip) :
    midReply r.evalFallback (reader.scan (.start r.preludeReplies r.evalFallback) r.window) = true ↔
      (r.processHeader io).1 = .ok ∧ (r.processHeader io).2.window ≠ [] ∧
        ∃ p, replyLoop .array (r.processHeader io).2.window = .again p := by
  have hstep := processHeader_step io r
  generalize r.processHeader io = result at hstep
  cases hstep with
  | again left k t hstands hrest hsame hinit =>
    rw [hstands.scan_window, hrest, midReply_of_parse hinit]
    simp
  | array k more hstands hmore =>
    rw [hstands.scan_window, hmore, midReply_star]
    have hwindow : window { r.moved 0 (k + 1) with parse.status := 200 } = more :=
      window_moved_succ 0 hmore
    rw [hwindow]
    exact (and_iff_right rfl).symm
  | refused rc left k more hrc hstands hmore =>
    rw [hstands.scan_window, hmore]
    refine iff_of_false Bool.false_ne_true ?_
    rintro ⟨rfl, -⟩
    rcases hrc with hrc | hrc <;> cases hrc
  | fallback k line more hstands hmore hfirst hnoscript =>
    -- The reader knows then that `EVAL` is sent, unlike the round trip before.
    obtain ⟨pre, hall, hpre⟩ := hstands.noScript hmore hfirst hnoscript
    refine iff_of_false ?_ ?_
    · rw [hall, Scanner.scan_append hpre, hfirst]
      cases hscan : reader.scan (.reply true) more with
      | stopped e rest => exact Bool.false_ne_true
      | reading t =>
        rw [midReply_of_fallback (by rw [Reader.fallback_of_scan hscan rfl]; decide)]
        exact Bool.false_ne_true
    · rintro ⟨hrc, -⟩
      dsimp only at hrc
      split at hrc
      · cases hrc
      · contradiction

/-- The header of a reply takes nothing of the room behind it. -/
theorem room_processHeader {io : Io} (h : (r.processHeader io).1 = .ok) :
    (r.processHeader io).2.room = r.room := by
  have hstep := processHeader_step io r
  generalize r.processHeader io = result at hstep h
  cases hstep with
  | again left k t => cases h
  | array k rest => exact room_moved r 0 (k + 1)
  | refused rc left k rest hrc =>
    obtain rfl : rc = .ok := h
    rcases hrc with hrc | hrc <;> cases hrc
  | fallback k line rest =>
    dsimp only at h
    split at h
    · cases h
    · contradiction

/-- A receive fills the buffer up if and only if the body begins with it, without room. -/
theorem HeaderAt.fillsUp_iff (h : HeaderAt Q conf key r) (io : Io) {x : Recv} {data : Bytes}
    (hx : r.recv r.room x = (.bytes data, r₁)) :
    let result := { r₁ with buffer := r₁.buffer.map fun b : Buf => b.fill data }.processHeader io
    r.fillsUp data = true ↔ result.1 = .ok ∧ result.2.room = 0 ∧ result.2.window ≠ [] ∧
      ∃ p, replyLoop .array result.2.window = .again p := by
  obtain ⟨rest, t, hsock, hdata, hlen, rfl, hfallback, hunread, hscan⟩ := h.scan_fill hx
  dsimp only
  set q : RoundTrip := { r with
    sock := rest, buffer := r.buffer.map fun b : Buf => b.fill data } with hq
  have hwindow : q.window = r.window ++ data := window_fill r hlen
  have hroom : q.room = r.room - data.length := by
    rw [hq, room, room]
    cases r.buffer with
    | none => exact (Nat.zero_sub _).symm
    | some b => exact (Nat.sub_sub b.size b.last data.length).symm
  have hmid := midReply_iff io q
  rw [hwindow] at hmid
  have hfull : data.length = r.room ↔ q.room = 0 := by omega
  rw [fillsUp, Bool.and_eq_true, decide_eq_true_eq, hfull]
  refine (and_congr_right fun _ => hmid).trans ⟨?_, ?_⟩
  · rintro ⟨hzero, hok, hrest⟩
    exact ⟨hok, (room_processHeader hok).trans hzero, hrest⟩
  · rintro ⟨hok, hzero, hrest⟩
    exact ⟨(room_processHeader hok).symm.trans hzero, hok, hrest⟩

/-- The loop of the header leaves no room if and only if one of its receives fills the buffer up. -/
theorem headerLoop_stalled_iff (io : Io) (recvs : List Recv) (h : HeaderAt (fun _ _ => True) conf key r)
    (hroom : r.room ≠ 0) :
    Stalled (headerLoop io recvs r) ↔
      (!io.timedout && io.nodelay && io.readEvent && headerLoopFillsUp io recvs r) = true := by
  have hwait : ∀ {r : RoundTrip}, r.Roomy → ¬ Stalled
      (if io.readEvent then r else r.finalizeUpstreamRequest (.http 500) .internal) := by
    intro r hr
    split
    · exact fun hstalled => hstalled.2 hr
    · exact not_stalled_finalize _ _ _
  induction recvs generalizing r with
  | nil =>
    refine iff_of_false (hwait (roomy_of_room hroom).1) ?_
    simp [headerLoopFillsUp]
  | cons x xs ih =>
    have hsized := (roomy_of_room hroom).2
    rw [headerLoop, headerLoopFillsUp]
    cases hx : r.recv r.room x with
    | mk received r₁ =>
      cases received with
      | again =>
        rw [recv_again hx]
        exact iff_of_false (hwait (roomy_of_room hroom).1) (by simp)
      | zero => exact iff_of_false (not_stalled_finalize _ _ _) (by simp)
      | error => exact iff_of_false (not_stalled_finalize _ _ _) (by simp)
      | bytes data =>
        obtain ⟨hagain, hok, -⟩ := h.receive carries_true io hx
        have hfills := h.fillsUp_iff io hx
        obtain ⟨rest, -, -, -, rfl⟩ := recv_bytes hx
        have hrc := processHeader_rc io { r with
          sock := rest, buffer := r.buffer.map fun b : Buf => b.fill data }
        have hsize : Sized { r with
            sock := rest, buffer := r.buffer.map fun b : Buf => b.fill data } := by
          intro b hb
          obtain ⟨b₀, hb₀, rfl⟩ := Option.map_eq_some_iff.mp hb
          exact hsized b₀ hb₀
        have hnext := hsize.processHeader io
        dsimp only at hagain hok hfills ⊢
        cases hp : processHeader io { r with
            sock := rest, buffer := r.buffer.map fun b : Buf => b.fill data } with
        | mk rc r₂ =>
          rw [hp] at hagain hok hfills hrc hnext
          rcases hrc with rfl | rfl | hrc
          · -- The reply begins, and with it the body.
            rw [Bool.or_false, Bool.and_eq_true, hfills]
            refine ((hok rfl).stalled_iff hnext io xs).trans (and_congr_right fun _ => ?_)
            exact (and_iff_right rfl).symm
          · have hnot : r.fillsUp data = false :=
              Bool.eq_false_iff.mpr fun hfill => by cases (hfills.mp hfill).1
            rw [hnot, Bool.false_or]
            dsimp only
            by_cases hleft : r₂.room = 0
            · rw [if_pos hleft]
              refine iff_of_false (not_stalled_finalize _ _ _) ?_
              simp [hleft]
            · rw [if_neg hleft]
              refine (ih (hagain rfl) hleft).trans ?_
              simp [hleft]
          · have hnot : r.fillsUp data = false := by
              refine Bool.eq_false_iff.mpr fun hfill => ?_
              have hok := (hfills.mp hfill).1
              rcases hrc with rfl | rfl | rfl <;> cases hok
            rw [hnot, Bool.false_or]
            rcases hrc with rfl | rfl | rfl
            · exact iff_of_false (not_stalled_finalize _ _ _) (by simp)
            · exact iff_of_false (not_stalled_finalize _ _ _) (by simp)
            · exact iff_of_false (not_stalled_finalize _ _ _) (by simp)

/-! ## Runs -/

/-- There is room in an allocated buffer that has not been filled. -/
theorem room_of_roomy (hbuffer : r.buffer.isSome = true) (h : r.Roomy) : r.room ≠ 0 := by
  obtain ⟨b, hb⟩ := Option.isSome_iff_exists.mp hbuffer
  rw [room, hb]
  exact Nat.sub_ne_zero_of_lt (h b hb)

/-- A round trip that has not stalled has room when it is about to read. -/
theorem HeaderAt.room_alloc (h : HeaderAt Q conf key r) (hsize : 1 ≤ conf.bufferSize)
    (hroom : ¬ Stalled r) :
    room { r with buffer := some (r.buffer.getD (.alloc r.conf.bufferSize)) } ≠ 0 := by
  have hroomy : r.Roomy := not_not.mp fun hnot => hroom ⟨h.live.live.attached, hnot⟩
  cases hb : r.buffer with
  | none =>
    rw [room, Option.map_some, Option.getD_some, Option.getD_none, h.live.live.request.1]
    exact Nat.sub_ne_zero_of_lt hsize
  | some b =>
    rw [room, Option.map_some, Option.getD_some, Option.getD_some]
    exact Nat.sub_ne_zero_of_lt (hroomy b hb)

/-- A body that has not stalled has room to read on. -/
theorem BodyAt.room (h : BodyAt Q conf key r) (hroom : ¬ Stalled r) : r.room ≠ 0 :=
  room_of_roomy h.buffer (not_not.mp fun hnot => hroom ⟨h.live.live.attached, hnot⟩)

/-- A write event leaves the buffer alone. -/
theorem HeaderAt.not_stalled_write (h : HeaderAt Q conf key r) (hroom : ¬ Stalled r) (io : Io) :
    ¬ Stalled (r.step (.write io)) := by
  by_cases hw : r.writeHandler = .sendEval
  · rw [step_write_eval h.live.live.attached hw, sendEvalHandler, sendEval]
    obtain ⟨bufs, handler, timer, hframe⟩ := sendLoop_frame io io.sends r
    have hsent : ¬ Stalled (sendLoop io io.sends r).2 := by
      rw [hframe]
      exact hroom
    split
    · exact not_stalled_finalize _ _ _
    · split
      · rename_i heq
        rw [heq] at hsent
        exact hsent
      · exact not_stalled_finalize _ _ _
      · exact not_stalled_finalize _ _ _
  · rw [step_write_other hw]
    exact hroom

/-- A read event of the header stalls the round trip if and only if it fills the buffer up. -/
theorem HeaderAt.stalled_read_iff (h : HeaderAt (fun _ _ => True) conf key r)
    (hsize : 1 ≤ conf.bufferSize) (hroom : ¬ Stalled r) (io : Io) :
    Stalled (r.step (.read io)) ↔ r.stalls (.read io) = true := by
  have hattached := h.live.live.attached
  have hloop := headerLoop_stalled_iff io io.recvs ((carries_rules carries_true io).alloc h)
    (h.room_alloc hsize hroom)
  -- The conditions of the handler are those of `stalls`.
  have hconnect : (io.requestSent || !io.connectError) = !(!io.requestSent && io.connectError) := by
    cases io.requestSent <;> cases io.connectError <;> rfl
  have halloc : (r.buffer.isSome || io.bufferAlloc) = !(r.buffer.isNone && !io.bufferAlloc) := by
    cases r.buffer <;> cases io.bufferAlloc <;> rfl
  rw [step_read_header hattached h.live.readHandler, readHeaderHandler, stalls]
  generalize { r with buffer := some (r.buffer.getD (.alloc r.conf.bufferSize)) } = q at hloop ⊢
  simp only [hattached, h.live.readHandler, decide_true, Bool.true_and, hconnect, halloc]
  cases htimedout : io.timedout with
  | true => simp [not_stalled_finalize]
  | false =>
    rw [if_neg Bool.false_ne_true]
    cases !io.requestSent && io.connectError with
    | true => simp [not_stalled_finalize]
    | false =>
      rw [if_neg Bool.false_ne_true]
      cases r.buffer.isNone && !io.bufferAlloc with
      | true => simp [not_stalled_finalize]
      | false =>
        rw [if_neg Bool.false_ne_true, hloop, htimedout]
        simp

/-- No event stalls a round trip that reads its reply with room for it. -/
theorem BodyAt.not_stalled_step (h : BodyAt Q conf key r) (hroom : ¬ Stalled r) (e : Event) :
    ¬ Stalled (r.step e) := by
  have hattached := h.live.live.attached
  cases e with
  | arrive data =>
    rw [step_arrive hattached]
    exact hroom
  | write io =>
    rw [step_write_other (by rw [h.live.writeHandler]; decide)]
    exact hroom
  | read io =>
    have hspace := h.room hroom
    rw [step_read_body hattached h.live.readHandler,
      stalled_readBodyHandler_iff hattached h.live.length h.buffer (roomy_of_room hspace).2]
    exact fun hfull => hspace hfull.2

/-- What goes on, with `Q` of the bytes to come, or has ended. -/
def Goes (Q : Reader → Bytes → Prop) (conf : LocConf) (key : Bytes) (r : RoundTrip) : Prop :=
  HeaderAt Q conf key r ∨ BodyAt Q conf key r ∨ Detached conf key r

/-- An event stalls a round trip if and only if it fills the buffer up. -/
theorem step_stalled_iff (h : Goes (fun _ _ => True) conf key r) (hsize : 1 ≤ conf.bufferSize)
    (hroom : ¬ Stalled r) (e : Event) : Stalled (r.step e) ↔ r.stalls e = true := by
  rcases h with h | h | h
  · cases e with
    | arrive data =>
      rw [step_arrive h.live.live.attached]
      exact iff_of_false hroom Bool.false_ne_true
    | write io => exact iff_of_false (h.not_stalled_write hroom io) Bool.false_ne_true
    | read io => exact h.stalled_read_iff hsize hroom io
  · refine iff_of_false (h.not_stalled_step hroom e) ?_
    cases e with
    | arrive data | write io => exact Bool.false_ne_true
    | read io => simp [stalls, h.live.readHandler]
  · rw [step_detached h.attached]
    refine iff_of_false hroom ?_
    cases e with
    | arrive data | write io => exact Bool.false_ne_true
    | read io => simp [stalls, h.attached]

/-- Every run goes on with the reader at the right place, or is over. -/
theorem goes_run (conf : LocConf) (key : Bytes) (events : List Event) :
    Goes (fun _ _ => True) conf key ((start conf key).run events) := by
  have hstart : HeaderAt (fun _ _ => True) conf key (start conf key) :=
    ⟨⟨⟨rfl, nofun, rfl, rfl⟩, rfl⟩, rfl, _, rfl, Reader.fallback_start _ _, trivial⟩
  exact (carries_runRules carries_true fun _ _ => trivial).run (.inl hstart) events

/-- There is room after every event of a run if and only if no event fills the buffer up. -/
theorem room_run_iff (conf : LocConf) (key : Bytes) (hsize : 1 ≤ conf.bufferSize)
    (events : List Event) :
    (∀ before, before <+: events → ¬ Stalled ((start conf key).run before)) ↔
      ∀ before e, before ++ [e] <+: events → ((start conf key).run before).stalls e = false := by
  have hgoes := goes_run conf key
  constructor
  · intro h before e hprefix
    have hroom := h before ((List.prefix_append _ _).trans hprefix)
    have hnext := h _ hprefix
    rw [run_append] at hnext
    have hnot := (step_stalled_iff (hgoes before) hsize hroom e).not.mp hnext
    exact Bool.eq_false_iff.mpr hnot
  · intro h before
    induction before using List.reverseRecOn with
    | nil => exact fun _ hstalled => hstalled.2 nofun
    | append_singleton before e ih =>
      intro hprefix
      have hroom := ih ((List.prefix_append _ _).trans hprefix)
      rw [run_append]
      exact (step_stalled_iff (hgoes before) hsize hroom e).not.mpr
        (Bool.eq_false_iff.mp (h before e hprefix))

/-- Where there are bytes and there is room, some are received. -/
theorem recv_finds (hsock : r.sock ≠ []) (hroom : r.room ≠ 0) (n : ℕ) :
    ∃ data r₁, r.recv r.room (.data (n + 1)) = (.bytes data, r₁) := by
  unfold recv
  dsimp only
  rw [if_neg hroom, if_neg (not_or.mpr ⟨by omega, hsock⟩)]
  exact ⟨_, _, rfl⟩

/-- A read brings the end nearer, where there is room for it. -/
theorem Goes.read {k : ℕ} (h : Goes (Due k) conf key r) (hsize : 1 ≤ conf.bufferSize)
    (hroom : ¬ Stalled r) {io : Io} {n : ℕ} {xs : List Recv} (hrecvs : io.recvs = .data (n + 1) :: xs) :
    Goes (Due (k - 1)) conf key (r.step (.read io)) := by
  have hruns : RunRules (HeaderAt (Due (k - 1)) conf key) (BeginsAt (Due (k - 1)) conf key)
      (BodyAt (Due (k - 1)) conf key) (LiveReplied conf key) (Live conf key) (Detached conf key) :=
    carries_runRules (carries_due_self (k - 1)) fun data hdue => hdue.arrive data
  have hrules := hruns.rules io
  rcases h with h | h | h
  · rw [step_read_header h.live.live.attached h.live.readHandler, readHeaderHandler]
    refine hruns.outcome ?_
    split
    · exact .fails r _ _ h.live.live (by decide) rfl
    · split
      · exact .fails r _ _ h.live.live (by decide) rfl
      · split
        · exact .fails r _ _ h.live.live (by decide) rfl
        · have hspace := h.room_alloc hsize hroom
          have hnext := (carries_rules (carries_due_self k) io).alloc h
          obtain ⟨t, -, -, hdue⟩ := hnext.unread
          obtain ⟨data, r₁, hx⟩ := recv_finds hdue.pos.2 hspace n
          rw [hrecvs]
          exact hrules.headerLoop_bytes (fun r hr => hrules.headerLoop_outcome xs hr) hx
            (hnext.receive (carries_due k) io hx)
  · rw [step_read_body h.live.live.attached h.live.readHandler, readBodyHandler]
    refine hruns.outcome ?_
    split
    · exact .fails r _ _ h.live.live (by decide) rfl
    · have hspace := h.room hroom
      obtain ⟨data, r₁, hx⟩ := recv_finds h.unread.pos.2 hspace n
      have hwrite : (false || decide (r.length = 0)) = false := by
        rw [decide_eq_false h.live.length]
        rfl
      rw [processRedisResponse, hwrite, hrecvs]
      exact redisLoop_bytes (fun r hr => hrules.redisLoop_outcome xs (hr.imp_right fun h => ⟨h, rfl⟩))
        hspace hx (h.receive (carries_due k) hx)
  · rw [step_detached h.attached]
    exact .inr (.inr h)

/-- An event does not take the end away, and a read that finds bytes brings it nearer. -/
theorem Goes.step {k : ℕ} (h : Goes (Due k) conf key r) (hsize : 1 ≤ conf.bufferSize)
    (hroom : ¬ Stalled r) (e : Event) :
    Goes (Due (k - if finds e then 1 else 0)) conf key (r.step e) := by
  cases hfinds : finds e with
  | false =>
    exact (carries_runRules (carries_due_self k) fun data hdue => hdue.arrive data).step h e
  | true =>
    unfold finds at hfinds
    split at hfinds
    · rename_i io
      split at hfinds
      · rename_i n xs hrecvs
        exact h.read hsize hroom hrecvs
      · cases hfinds
    · cases hfinds
    · cases hfinds

/-- A reply that is due is read by as many reads as it needs at most. -/
theorem Goes.run {k : ℕ} (h : Goes (Due k) conf key r) (hsize : 1 ≤ conf.bufferSize)
    {more : List Event} (hroom : ∀ before, before <+: more → ¬ Stalled (r.run before))
    (hk : k ≤ more.countP finds) : (r.run more).attached = false := by
  induction more generalizing r k with
  | nil =>
    obtain rfl : k = 0 := Nat.le_zero.mp hk
    rcases h with h | h | h
    · obtain ⟨t, -, -, hdue⟩ := h.unread
      exact absurd hdue.pos.1 (Nat.lt_irrefl 0)
    · exact absurd h.unread.pos.1 (Nat.lt_irrefl 0)
    · exact h.attached
  | cons e more ih =>
    have hnext := h.step hsize (hroom [] (List.nil_prefix)) e
    refine ih hnext ?_ ?_
    · intro before hprefix
      exact hroom (e :: before) (List.cons_prefix_cons.mpr ⟨rfl, hprefix⟩)
    · rw [List.countP_cons] at hk
      omega

/-- What has arrived is due. -/
theorem Arrived.due (harrived : Arrived r) (h : Goes (fun _ _ => True) conf key r) :
    Goes (Due r.sock.length) conf key r := by
  obtain ⟨e, rest, hscan, hfallback⟩ := harrived
  unfold position unparsed at hscan
  rcases h with h | h | h
  · obtain ⟨t, hwindow, hsame, -⟩ := h.unread
    rw [h.live.readHandler] at hscan
    dsimp only at hscan
    rw [Scanner.scan_append hwindow] at hscan
    exact .inl ⟨h.live, h.parse, t, hwindow, hsame, r.sock, List.prefix_rfl, le_rfl, e, rest, hscan,
      hfallback.trans hsame.symm⟩
  · rw [h.live.readHandler] at hscan
    exact .inr (.inl ⟨h.live, h.buffer, r.sock, List.prefix_rfl, le_rfl, e, rest, hscan, hfallback⟩)
  · exact .inr (.inr h)

/-- A round trip that was finalized has ended with a verdict or an error. -/
theorem ended_of_detached (conf : LocConf) (key : Bytes) {events : List Event}
    (h : ((start conf key).run events).attached = false) : Ended ((start conf key).run events) := by
  rcases inv_run (inv_start conf key) events with hw | hr | he
  · exact absurd (hw.attached.symm.trans h) (by decide)
  · exact absurd (hr.attached.symm.trans h) (by decide)
  · exact he

/-- A run of any events, for a buffer of any size, never stalls if and only if in none of its events
the header handler receives bytes that fill the buffer exactly to its end and with which it holds a
part of the reply behind the '*'. -/
theorem never_stalls_iff (conf : LocConf) (key : Bytes) (hsize : 1 ≤ conf.bufferSize)
    (events : List Event) :
    NeverStalls conf key events ↔
      ∀ before e, before ++ [e] <+: events → ((start conf key).run before).stalls e = false := by
  rw [← room_run_iff conf key hsize events]
  refine ⟨NeverStalls.room, fun hroom => ⟨hroom, ?_⟩⟩
  intro before more hprefix harrived hcount
  have hdue := harrived.due (goes_run conf key before)
  refine ended_of_detached conf key ?_
  rw [run_append]
  refine hdue.run hsize ?_ hcount
  intro more' hprefix'
  rw [← run_append]
  exact hroom _ (((List.prefix_append_right_inj before).mpr hprefix').trans hprefix)

/-- A reply is cut before the buffer is full, and the body empties it. -/
theorem never_stalls_cut :
    let conf := { LocConf.ofZone ⟨.gcra, 5, 60, 0, ⟨[], []⟩⟩ (fun _ => ⟨[], []⟩) with bufferSize := 8 }
    NeverStalls conf [] [.arrive (text "*5\r\n:0\r\n:100\r\n:9\r\n:-1\r\n:60\r\n"),
      .read (.good [.data 7, .data 100, .data 100, .data 100, .data 100] [])] := by
  intro conf
  refine (never_stalls_iff conf [] (by decide) _).mpr fun before e hprefix => ?_
  match before with
  | [] =>
    obtain ⟨rfl, -⟩ := List.cons_prefix_cons.mp hprefix
    rfl
  | [_] =>
    obtain ⟨rfl, hrest⟩ := List.cons_prefix_cons.mp hprefix
    obtain ⟨rfl, -⟩ := List.cons_prefix_cons.mp hrest
    decide +kernel
  | _ :: _ :: before =>
    have hlen := hprefix.length_le
    simp at hlen

/-- The first read fills a buffer of 8 bytes, and what arrives afterwards is never received. -/
theorem stalls_in_small_buffer :
    let conf := { LocConf.ofZone ⟨.gcra, 5, 60, 0, ⟨[], []⟩⟩ (fun _ => ⟨[], []⟩) with bufferSize := 8 }
    let rest := text ":100\r\n:9\r\n:-1\r\n:60\r\n"
    let first : List Event := [.arrive (text "*5\r\n:0\r\n"), .read (.good [.data 8] [])]
    let later : List Event := [.arrive rest, .read (.good [.data 100] []),
      .read (.good [.data 100] [])]
    ¬ NeverStalls conf [] (first ++ later) ∧
      ((start conf []).run (first ++ later)).attached = true ∧
      ((start conf []).run (first ++ later)).sock = rest := by
  intro conf rest first later
  refine ⟨fun h => ?_, by decide +kernel, by decide +kernel⟩
  exact h.room first (List.prefix_append _ _) (by decide +kernel)

end RoundTrip

end NginxRatelimit
