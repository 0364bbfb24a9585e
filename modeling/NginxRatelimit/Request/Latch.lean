import NginxRatelimit.Request.Reader

/-!
# The latch of the `EVAL` fallback

`ctx->eval_fallback` is set when `process_header` finds a `NOSCRIPT` error in the place of the reply
to `EVALSHA`, before `EVAL` is built, and nothing clears it. So a round trip builds `EVAL` once
(`builds_cases`), and only when the peer has sent the replies to the prelude and then that error
(`latchInv_step`). Both are invariants of one kind, a property of the round trip while it waits for
the header and of the latch from then on (`LatchProperty`).
-/

namespace NginxRatelimit

open Library

/-- The peer has answered the prelude's `n` commands with status lines, and the script's command
with an error line that begins with `NOSCRIPT`. -/
def NoScriptAnswer (n : ℕ) (w : Bytes) : Prop :=
  ∃ (lines : List Bytes) (line rest : Bytes), lines.length = n ∧
    (∀ l ∈ lines, l.head? = some (ascii '+') ∧ LF ∉ l) ∧
    LF ∉ line ∧ line.take 8 = text "NOSCRIPT" ∧
    w = lines.flatMap (· ++ [LF]) ++ ascii '-' :: (line ++ LF :: rest)

/-- More may follow. -/
theorem NoScriptAnswer.append {n : ℕ} {w : Bytes} (h : NoScriptAnswer n w) (more : Bytes) :
    NoScriptAnswer n (w ++ more) := by
  obtain ⟨lines, line, rest, hlen, hlines, hline, hnoscript, rfl⟩ := h
  exact ⟨lines, line, rest ++ more, hlen, hlines, hline, hnoscript, by simp⟩

/-- What arrives in an event. -/
def Event.bytes : Event → Bytes
  | arrive data => data
  | read _ | write _ => []

namespace Reader

/-- From the body there is no way back to a reply. -/
theorem scan_body_ne_reply (fallback : Bool) (p : Parse) (w : Bytes) :
    reader.scan (.body fallback p) w ≠ .reading (.reply true) := by
  cases hloop : replyLoop p w with
  | again q =>
    rw [scan_body_again fallback hloop]
    exact fun h => Reader.noConfusion (Scanned.reading.inj h)
  | error q =>
    obtain ⟨rest, hscan⟩ := scan_body_error fallback hloop
    rw [hscan]
    intro h
    cases h
  | done q rest =>
    rw [scan_body_done fallback hloop]
    intro h
    cases h

/-- The reader awaits the reply to `EVAL` behind such an answer only. -/
theorem noScriptAnswer_of_scan {n : ℕ} {w : Bytes}
    (h : reader.scan (.start n false) w = .reading (.reply true)) : NoScriptAnswer n w := by
  induction n generalizing w with
  | zero =>
    -- Of the script's reply, only an error line leads on.
    cases w with
    | nil => exact absurd (Scanned.reading.inj h) (by simp [start])
    | cons ch w =>
      cases hstep : reader.step (.reply false) ch with
      | inr e =>
        rw [start, Scanner.scan_cons_inr hstep] at h
        cases h
      | inl t =>
        rw [start, Scanner.scan_cons_inl hstep] at h
        simp only [reader, readerStep] at hstep
        split_ifs at hstep with hstar hminus
        · obtain rfl := Sum.inl.inj hstep
          exact absurd h (scan_body_ne_reply _ _ _)
        · obtain rfl := Sum.inl.inj hstep
          by_cases hLF : LF ∈ w
          · obtain ⟨line, rest, rfl, hline⟩ := List.eq_append_cons_of_mem hLF
            rw [scan_errorLine_line hline] at h
            split_ifs at h with hnoscript
            rw [Bool.not_false, Bool.true_and, decide_eq_true_eq, take_noScript] at hnoscript
            exact ⟨[], line, rest, rfl, by simp, hline, hnoscript, by rw [hminus]; rfl⟩
          · rw [scan_errorLine hLF] at h
            exact Reader.noConfusion (Scanned.reading.inj h)
  | succ n ih =>
    -- A status line of the prelude comes first.
    by_cases hLF : LF ∈ w
    · obtain ⟨pre, rest, rfl, hpre⟩ := List.eq_append_cons_of_mem hLF
      rw [scan_prelude_line hpre] at h
      split_ifs at h with hplus
      obtain ⟨lines, line, more, hlen, hlines, hline, hnoscript, rfl⟩ := ih h
      have hhead : pre.head? = some (ascii '+') := by
        cases pre with
        | nil => exact absurd (Option.some.inj hplus) (by decide : LF ≠ ascii '+')
        | cons ch pre => exact hplus
      refine ⟨pre :: lines, line, more, by rw [List.length_cons, hlen], ?_, hline, hnoscript,
        by simp⟩
      intro l hl
      rcases List.mem_cons.mp hl with rfl | hl
      · exact ⟨hhead, hpre⟩
      · exact hlines l hl
    · rw [start, scan_prelude hLF] at h
      exact Reader.noConfusion (Scanned.reading.inj h)

end Reader

namespace RoundTrip

/-! ## Properties of the latch -/

/-- `process_header` leaves the handlers and the connection alone. -/
theorem processHeader_frame (io : Io) (r : RoundTrip) :
    (r.processHeader io).2.attached = r.attached ∧
      (r.processHeader io).2.readHandler = r.readHandler := by
  have hstep := processHeader_step io r
  generalize r.processHeader io = result at hstep
  cases hstep with
  | again left k t h => exact ⟨rfl, rfl⟩
  | array k rest h => exact ⟨rfl, rfl⟩
  | refused rc left k rest hrc h => exact ⟨rfl, rfl⟩
  | fallback k line rest h =>
    dsimp only
    rcases resendEval_cases io (r.moved 0 k) with hcase | ⟨rc, bufs, handler, timer, hcase⟩ <;>
      rw [hcase] <;> exact ⟨rfl, rfl⟩

/-- A property `J` of a round trip that waits for the header, and what it leaves of the latch, `K`.
-/
structure LatchProperty (J : RoundTrip → Prop) (K : Bool → Prop) : Prop where
  /-- The latch has its property all the time. -/
  latch : ∀ {r}, J r → K r.evalFallback
  /-- What `J` depends on. -/
  frame : ∀ {r r' : RoundTrip}, r'.window = r.window → r'.sock = r.sock →
    r'.preludeReplies = r.preludeReplies → r'.evalFallback = r.evalFallback → J r → J r'
  /-- Bytes are received and given to `process_header`. -/
  header : ∀ (io : Io) {r r₁ : RoundTrip} {x : Recv} {data : Bytes}, J r →
    r.recv r.room x = (.bytes data, r₁) →
    let result := { r₁ with buffer := r₁.buffer.map fun b : Buf => b.fill data }.processHeader io
    (result.1 = .again → J result.2) ∧ K result.2.evalFallback

/-- A round trip that waits for the header. -/
structure LatchWaits (J : RoundTrip → Prop) (r : RoundTrip) : Prop where
  attached : r.attached = true
  readHandler : r.readHandler = .header
  holds : J r

/-- One that goes on to its body, or fails. -/
structure LatchOpen (K : Bool → Prop) (r : RoundTrip) : Prop where
  attached : r.attached = true
  latch : K r.evalFallback

/-- One that reads its body. -/
structure LatchReads (K : Bool → Prop) (r : RoundTrip) : Prop where
  attached : r.attached = true
  readHandler : r.readHandler = .body
  writeHandler : r.writeHandler = .dummy
  length : r.length ≠ 0
  latch : K r.evalFallback

/-- One that has got its reply. -/
structure LatchReplied (K : Bool → Prop) (r : RoundTrip) : Prop where
  attached : r.attached = true
  length : r.length = 0
  latch : K r.evalFallback

/-- One that was finalized. -/
structure LatchEnded (K : Bool → Prop) (r : RoundTrip) : Prop where
  attached : r.attached = false
  latch : K r.evalFallback

section

variable {J : RoundTrip → Prop} {K : Bool → Prop}

/-- Parsing a reply leaves the latch alone. -/
theorem LatchReads.processReply {r : RoundTrip} (h : LatchReads K r) (bytes : Bytes) :
    Parses (LatchReads K) (LatchReplied K) (LatchOpen K) (r.processReply bytes).1
      (r.processReply bytes).2 := by
  unfold RoundTrip.processReply
  dsimp only
  cases hloop : replyLoop r.parse bytes with
  | again p =>
    exact ⟨fun _ => ⟨h.attached, h.readHandler, h.writeHandler, h.length, h.latch⟩, nofun, nofun⟩
  | error p => exact ⟨nofun, nofun, fun _ => ⟨h.attached, h.latch⟩⟩
  | done p rest => exact ⟨nofun, fun _ => ⟨h.attached, rfl, h.latch⟩, nofun⟩

/-- Such a property is kept by the operations of a round trip. -/
theorem LatchProperty.rules (hJ : LatchProperty J K) (io : Io) :
    Rules io (LatchWaits J) (LatchOpen K) (LatchReads K) (LatchReplied K) (LatchOpen K) where
  waiting h := ⟨h.attached, h.readHandler⟩
  reading h := ⟨h.attached, h.readHandler, h.writeHandler, h.length⟩
  replied h := ⟨h.attached, h.length⟩
  failed h := h.attached
  waiting_failed h := ⟨h.attached, hJ.latch h.holds⟩
  reading_failed h := ⟨h.attached, h.latch⟩
  alloc := by
    intro r h
    refine ⟨h.attached, h.readHandler, hJ.frame (r := r) ?_ rfl rfl rfl h.holds⟩
    unfold window
    cases r.buffer <;> rfl
  waiting_eof := by
    intro r h
    have hlatch := hJ.latch h.holds
    exact ⟨h.attached, hlatch⟩
  waiting_error := by
    intro r h
    have hlatch := hJ.latch h.holds
    exact ⟨h.attached, hlatch⟩
  header := by
    intro r r₁ x data h hx
    obtain ⟨hagain, hlatch⟩ := hJ.header io h.holds hx
    -- The property itself says what `process_header` does to the latch.
    obtain ⟨hattached, hhandler⟩ := processHeader_frame io { r₁ with
      buffer := r₁.buffer.map fun b : Buf => b.fill data }
    obtain ⟨rest, -, -, -, rfl⟩ := recv_bytes hx
    exact ⟨fun hrc => ⟨hattached.trans h.attached, hhandler.trans h.readHandler, hagain hrc⟩,
      fun _ => ⟨hattached.trans h.attached, hlatch⟩,
      fun _ _ => ⟨hattached.trans h.attached, hlatch⟩⟩
  send := by
    intro r h
    obtain ⟨bufs, handler, timer, hframe⟩ := sendLoop_frame io io.sends r
    have hresult : LatchWaits J (r.sendEval io).2 := by
      rw [sendEval, hframe]
      exact ⟨h.attached, h.readHandler, hJ.frame (r := r) rfl rfl rfl rfl h.holds⟩
    exact ⟨fun _ => hresult, fun _ => ⟨hresult.attached, hJ.latch hresult.holds⟩⟩
  body_failed h := ⟨⟨h.attached, h.latch⟩, ⟨h.attached, h.latch⟩⟩
  body_bytes := by
    intro r h _
    exact LatchReads.processReply (r := { enterBody r with buffer := r.buffer.map Buf.rewind })
      ⟨h.attached, rfl, rfl, (by decide : (-1 : ℤ) ≠ 0), h.latch⟩ r.window
  body_empty h _ := ⟨h.attached, rfl, rfl, (by decide : (-1 : ℤ) ≠ 0), h.latch⟩
  clear h := ⟨h.attached, h.readHandler, h.writeHandler, h.length, h.latch⟩
  reading_eof h := ⟨h.attached, h.readHandler, h.writeHandler, h.length, h.latch⟩
  reading_error h := ⟨h.attached, h.readHandler, h.writeHandler, h.length, h.latch⟩
  reply := by
    intro r r₁ x data h hx
    obtain ⟨rest, -, -, -, rfl⟩ := recv_bytes hx
    exact LatchReads.processReply (r := { r with sock := rest })
      ⟨h.attached, h.readHandler, h.writeHandler, h.length, h.latch⟩ data

/-- So does finalization. -/
theorem LatchOpen.finalize {r : RoundTrip} (h : LatchOpen K r) (rc : Rc) (why : Exit) :
    LatchEnded K (r.finalizeUpstreamRequest rc why) := by
  obtain ⟨headers, p, hframe, -⟩ := finalizeUpstreamRequest_frame h.attached rc why
  rw [hframe]
  exact ⟨rfl, h.latch⟩

/-- What an event other than arriving bytes leaves. -/
theorem latch_outcome {r : RoundTrip}
    (h : Outcome (LatchWaits J) (LatchReads K) (LatchReplied K) (LatchOpen K) r) :
    LatchWaits J r ∨ LatchReads K r ∨ LatchEnded K r := by
  cases h with
  | waits h => exact .inl h
  | reads h => exact .inr (.inl h)
  | replied q h hr =>
    rw [hr]
    exact .inr (.inr (LatchOpen.finalize ⟨h.attached, h.latch⟩ _ _))
  | fails q rc why h hexit hr =>
    rw [hr]
    exact .inr (.inr (h.finalize _ _))

end

/-! ## What is known of the peer -/

/-- Once set, the latch stays set. -/
theorem latchProperty_set : LatchProperty (·.evalFallback = true) (· = true) where
  latch h := h
  frame _ _ _ hlatch h := hlatch.trans h
  header := by
    intro io r r₁ x data h hx
    obtain ⟨rest, -, -, -, rfl⟩ := recv_bytes hx
    have hstep := processHeader_step io { r with
      sock := rest, buffer := r.buffer.map fun b : Buf => b.fill data }
    dsimp only
    generalize processHeader io { r with
      sock := rest, buffer := r.buffer.map fun b : Buf => b.fill data } = result at hstep
    cases hstep with
    | again left k t _ => exact ⟨fun _ => h, h⟩
    | array k rest _ => exact ⟨fun _ => h, h⟩
    | refused rc left k rest _ _ => exact ⟨fun _ => h, h⟩
    | fallback k line rest _ _ hfirst => exact absurd (hfirst.symm.trans h) (by decide)

/-- A round trip waits for the header, after the bytes `arrived` on its connection, of which `n`
lines were for the prelude: until the latch is set it stands behind the lines that it has consumed.
-/
def Awaits (n : ℕ) (arrived : Bytes) (r : RoundTrip) : Prop :=
  (r.evalFallback = false ∧ ∃ consumed, arrived = consumed ++ (r.window ++ r.sock) ∧
      reader.scan (.start n false) consumed = .reading (.start r.preludeReplies false)) ∨
    (r.evalFallback = true ∧ NoScriptAnswer n arrived)

/-- The latch is set after such an answer only. -/
def SetByAnswer (n : ℕ) (arrived : Bytes) (latch : Bool) : Prop :=
  latch = true → NoScriptAnswer n arrived

/-- While the header is awaited, the latch is set only behind a `NOSCRIPT` answer. -/
theorem Awaits.setByAnswer {n : ℕ} {arrived : Bytes} {r : RoundTrip} (h : Awaits n arrived r) :
    SetByAnswer n arrived r.evalFallback := by
  rcases h with ⟨hlatch, -⟩ | ⟨-, hanswer⟩
  · intro hset
    exact absurd (hlatch.symm.trans hset) (by decide)
  · exact fun _ => hanswer

/-- `process_header` consumes lines of the prelude, and sets the latch behind the last one at a
`NOSCRIPT` line. -/
theorem Awaits.processHeader {n : ℕ} {arrived : Bytes} {r : RoundTrip} (h : Awaits n arrived r)
    (io : Io) : ((r.processHeader io).1 = .again → Awaits n arrived (r.processHeader io).2) ∧
      SetByAnswer n arrived (r.processHeader io).2.evalFallback := by
  have hstep := processHeader_step io r
  have hset := h.setByAnswer
  generalize r.processHeader io = result at hstep
  cases hstep with
  | again left k t hstands =>
    refine ⟨fun _ => ?_, hset⟩
    rcases h with ⟨hlatch, consumed, harrived, hscan⟩ | ⟨hlatch, hanswer⟩
    · -- The lines that were consumed are counted to those before them.
      refine .inl ⟨hlatch, consumed ++ r.window.take k, ?_, ?_⟩
      · have hcut := List.take_append_drop k r.window
        rw [harrived, window_moved, List.append_assoc, ← List.append_assoc (r.window.take k), hcut]
        rfl
      · have hlines := hstands.scan
        rw [hlatch] at hlines
        exact (Scanner.scan_append hscan _).trans hlines
    · exact .inr ⟨hlatch, hanswer⟩
  | array k rest hstands =>
    refine ⟨fun hagain => ?_, hset⟩
    cases hagain
  | refused rc left k rest hrc hstands =>
    refine ⟨fun hagain => ?_, hset⟩
    rcases hrc with rfl | rfl <;> cases hagain
  | fallback k line rest hstands hrest hfirst hline =>
    -- All that was consumed, and this line, is the answer.
    have hanswer : NoScriptAnswer n arrived := by
      rcases h with ⟨-, consumed, harrived, hscan⟩ | ⟨hlatch, -⟩
      · have hlines := hstands.scan
        rw [hfirst] at hlines
        have hread := (Scanner.scan_append hscan _).trans
          ((Scanner.scan_append hlines (ascii '-' :: (line ++ [LF]))).trans hline)
        have hrest' : r.window.drop k = (ascii '-' :: (line ++ [LF])) ++ rest := by
          rw [hrest]
          simp
        have hwindow := List.take_append_drop k r.window
        rw [hrest'] at hwindow
        rw [harrived, ← hwindow]
        have happend := (Reader.noScriptAnswer_of_scan hread).append (rest ++ r.sock)
        simpa only [List.append_assoc] using happend
      · exact absurd (hfirst.symm.trans hlatch) (by decide)
    have hlatch := resendEval_evalFallback io (r.moved 0 k)
    exact ⟨fun _ => .inr ⟨hlatch, hanswer⟩, fun _ => hanswer⟩

/-- Awaiting the header is a property of the latch. -/
theorem latchProperty_awaits (n : ℕ) (arrived : Bytes) :
    LatchProperty (Awaits n arrived) (SetByAnswer n arrived) where
  latch h := h.setByAnswer
  frame := by
    intro r r' hwindow hsock hprelude hlatch h
    unfold Awaits
    rw [hwindow, hsock, hprelude, hlatch]
    exact h
  header := by
    intro io r r₁ x data h hx
    obtain ⟨rest, hsock, -, hlen, rfl⟩ := recv_bytes hx
    refine Awaits.processHeader ?_ io
    -- What is received moves from the socket to the window.
    have hwindow := window_fill r hlen
    unfold Awaits
    rcases h with ⟨hlatch, consumed, harrived, hscan⟩ | ⟨hlatch, hanswer⟩
    · refine .inl ⟨hlatch, consumed, ?_, hscan⟩
      rw [show window { r with sock := rest, buffer := r.buffer.map fun b : Buf => b.fill data } =
        r.window ++ data from hwindow, harrived, hsock]
      simp only [List.append_assoc]
    · exact .inr ⟨hlatch, hanswer⟩

/-- The invariant of a round trip with respect to what has arrived. -/
def LatchInv (n : ℕ) (arrived : Bytes) (r : RoundTrip) : Prop :=
  LatchWaits (Awaits n arrived) r ∨ LatchReads (SetByAnswer n arrived) r ∨
    LatchEnded (SetByAnswer n arrived) r

/-- In every state the latch is set only behind a `NOSCRIPT` answer. -/
theorem LatchInv.setByAnswer {n : ℕ} {arrived : Bytes} {r : RoundTrip} (h : LatchInv n arrived r) :
    SetByAnswer n arrived r.evalFallback := by
  rcases h with h | h | h
  · exact h.holds.setByAnswer
  · exact h.latch
  · exact h.latch

/-- A started round trip has the invariant. -/
theorem latchInv_start (conf : LocConf) (key : Bytes) :
    LatchInv (buildPrelude conf).length [] (start conf key) :=
  .inl ⟨rfl, rfl, .inl ⟨rfl, [], rfl, rfl⟩⟩

/-- More bytes may arrive. -/
theorem LatchInv.arrive {n : ℕ} {arrived : Bytes} {r : RoundTrip} (h : LatchInv n arrived r)
    (data : Bytes) : LatchInv n (arrived ++ data) (r.step (.arrive data)) := by
  have hset : SetByAnswer n (arrived ++ data) r.evalFallback := fun hlatch =>
    (h.setByAnswer hlatch).append data
  rcases h with h | h | h
  · rw [step_arrive h.attached]
    refine .inl ⟨h.attached, h.readHandler, ?_⟩
    rcases h.holds with ⟨hlatch, consumed, harrived, hscan⟩ | ⟨hlatch, -⟩
    · refine .inl ⟨hlatch, consumed, ?_, hscan⟩
      rw [harrived, List.append_assoc, List.append_assoc]
      rfl
    · exact .inr ⟨hlatch, hset hlatch⟩
  · rw [step_arrive h.attached]
    exact .inr (.inl ⟨h.attached, h.readHandler, h.writeHandler, h.length, hset⟩)
  · rw [step_detached h.attached]
    exact .inr (.inr ⟨h.attached, hset⟩)

/-- Every event keeps it. -/
theorem latchInv_step {n : ℕ} {arrived : Bytes} {r : RoundTrip} (h : LatchInv n arrived r)
    (e : Event) : LatchInv n (arrived ++ e.bytes) (r.step e) := by
  have hrules := (latchProperty_awaits n arrived).rules
  cases e with
  | arrive data => exact h.arrive data
  | read io =>
    rw [Event.bytes, List.append_nil]
    rcases h with h | h | h
    · exact latch_outcome ((hrules io).read (.inl h))
    · exact latch_outcome ((hrules io).read (.inr h))
    · rw [step_detached h.attached]
      exact .inr (.inr h)
  | write io =>
    rw [Event.bytes, List.append_nil]
    rcases h with h | h | h
    · exact latch_outcome ((hrules io).write (.inl h))
    · exact latch_outcome ((hrules io).write (.inr h))
    · rw [step_detached h.attached]
      exact .inr (.inr h)

/-! ## The commands that are built -/

/-- `process_header` calls `resend_eval`. -/
def resends (r : RoundTrip) : Bool :=
  match consumePrelude r.preludeReplies r with
  | (.ok, r) =>
    match r.window with
    | [] => false
    | chr :: rest =>
      chr = ascii '-' && LF ∈ rest && !r.evalFallback && rest.take 8 = text "NOSCRIPT"
  | _ => false

/-- What `create_request` builds in a call of `process_header`. -/
def headerBuilds (io : Io) (r : RoundTrip) : List Command :=
  if r.resends && io.requestAlloc then [scriptCommand r.conf r.key true] else []

/-- Without a call of `resend_eval` nothing is built. -/
theorem headerBuilds_of_not_resends (io : Io) {r : RoundTrip} (h : r.resends = false) :
    headerBuilds io r = [] := by
  rw [headerBuilds, h]
  rfl

/-- What it builds in the loop of `ngx_http_ratelimit_read_header_handler`. -/
def headerLoopBuilds (io : Io) : List Recv → RoundTrip → List Command
  | [], _ => []
  | x :: xs, r =>
    match r.recv r.room x with
    | (.bytes data, r) =>
      let r := { r with buffer := r.buffer.map fun b : Buf => b.fill data }
      headerBuilds io r ++
        match r.processHeader io with
        | (.again, r) => if r.room = 0 then [] else headerLoopBuilds io xs r
        | _ => []
    | _ => []

/-- What it builds in `ngx_http_ratelimit_read_header_handler`. -/
def readHeaderBuilds (io : Io) (r : RoundTrip) : List Command :=
  if io.timedout then []
  else if !io.requestSent && io.connectError then []
  else if r.buffer.isNone && !io.bufferAlloc then []
  else
    headerLoopBuilds io io.recvs
      { r with buffer := some (r.buffer.getD (.alloc r.conf.bufferSize)) }

/-- What it builds in an event; the other handlers do not call it. -/
def builds (r : RoundTrip) : Event → List Command
  | .read io => if r.attached && r.readHandler = .header then r.readHeaderBuilds io else []
  | .arrive _ | .write _ => []

/-- The prelude's replies leave the latch alone. -/
theorem consumePrelude_evalFallback (n : ℕ) (r : RoundTrip) :
    (consumePrelude n r).2.evalFallback = r.evalFallback := by
  induction n generalizing r with
  | zero => rfl
  | succ n ih =>
    have hreply : (r.consumePreludeReply).2.evalFallback = r.evalFallback := by
      unfold consumePreludeReply
      dsimp only
      repeat' split
      all_goals rfl
    rw [consumePrelude]
    split
    · rename_i r' heq
      rw [heq] at hreply
      exact (ih { r' with preludeReplies := n }).trans hreply
    · rename_i rc r' _ heq
      rw [heq] at hreply
      exact hreply

/-- `resend_eval` is called before the latch is set, and sets it. -/
theorem resends_spec (io : Io) {r : RoundTrip} (h : r.resends = true) :
    r.evalFallback = false ∧ (r.processHeader io).2.evalFallback = true := by
  have hkeep := consumePrelude_evalFallback r.preludeReplies r
  unfold resends at h
  unfold processHeader
  generalize consumePrelude r.preludeReplies r = result at h hkeep
  obtain ⟨rc, q⟩ := result
  cases rc with
  | ok =>
    dsimp only at h hkeep ⊢
    cases hwindow : q.window with
    | nil =>
      rw [hwindow] at h
      cases h
    | cons chr rest =>
      rw [hwindow] at h
      simp only [Bool.and_eq_true, decide_eq_true_eq, Bool.not_eq_true'] at h
      obtain ⟨⟨⟨rfl, hLF⟩, hlatch⟩, hnoscript⟩ := h
      -- These are the conditions under which `process_header` calls `resend_eval`.
      refine ⟨hkeep.symm.trans hlatch, ?_⟩
      have hset := resendEval_evalFallback io q
      have hnostar : ascii '-' ≠ ascii '*' := by decide
      simp only [processType, hwindow, if_neg hnostar, if_true, hLF, not_true, if_false, hlatch,
        hnoscript, Bool.not_false, Bool.true_and, decide_true]
      split <;> rename_i heq <;> rw [heq] at hset <;> exact hset
  | error | again | done | declined | invalidHeader | http status => cases h

/-- Once the latch is set, nothing is built. -/
theorem headerBuilds_eq_nil (io : Io) {r : RoundTrip} (h : r.evalFallback = true) :
    headerBuilds io r = [] := by
  have hnot : r.resends = false := by
    rw [Bool.eq_false_iff]
    intro hresends
    exact absurd ((resends_spec io hresends).1.symm.trans h) (by decide)
  exact headerBuilds_of_not_resends io hnot

/-- Nor does the loop build anything then. -/
theorem headerLoopBuilds_eq_nil (io : Io) (recvs : List Recv) {r : RoundTrip}
    (h : r.evalFallback = true) : headerLoopBuilds io recvs r = [] := by
  induction recvs generalizing r with
  | nil => rfl
  | cons x xs ih =>
    rw [headerLoopBuilds]
    split
    · rename_i data r₁ hx
      -- No read builds anything, and each leaves the latch set for the next.
      obtain ⟨-, hset⟩ := latchProperty_set.header io (r := r) h hx
      obtain ⟨rest, -, -, -, rfl⟩ := recv_bytes hx
      have hnone := headerBuilds_eq_nil io (r := { r with
        sock := rest, buffer := r.buffer.map fun b : Buf => b.fill data }) h
      dsimp only at hset ⊢
      rw [hnone, List.nil_append]
      split
      · rename_i r₂ heq
        rw [heq] at hset
        split
        · rfl
        · exact ih hset
      · rfl
    · rfl

/-- Behind a fallback the loop builds nothing more. -/
theorem headerLoopBuilds_rest (io : Io) (xs : List Recv) {r : RoundTrip} (h : r.resends = true) :
    (match r.processHeader io with
      | (.again, r) => if r.room = 0 then [] else headerLoopBuilds io xs r
      | _ => []) = [] := by
  have hset := (resends_spec io h).2
  split
  · rename_i q heq
    rw [heq] at hset
    split
    · rfl
    · exact headerLoopBuilds_eq_nil io xs hset
  · rfl

/-- Finalization does not touch the latch. -/
theorem finalizeUpstreamRequest_evalFallback (r : RoundTrip) (rc : Rc) (why : Exit) :
    (r.finalizeUpstreamRequest rc why).evalFallback = r.evalFallback := by
  unfold finalizeUpstreamRequest
  split
  · split <;> rfl
  · rfl

/-- Handlers leave the latch set. -/
theorem evalFallback_of_outcome {r : RoundTrip}
    (h : Outcome (LatchWaits (·.evalFallback = true)) (LatchReads (· = true)) (LatchReplied (· = true))
      (LatchOpen (· = true)) r) : r.evalFallback = true := by
  rcases latch_outcome h with h | h | h
  · exact h.holds
  · exact h.latch
  · exact h.latch

/-- What the loop does after `process_header` has set the latch. -/
theorem headerLoop_latched (io : Io) {x : Recv} (xs : List Recv) {r r₁ : RoundTrip} {data : Bytes}
    (hx : r.recv r.room x = (.bytes data, r₁)) (hattached : r.attached = true)
    (hhandler : r.readHandler = .header)
    (h : ({ r₁ with
      buffer := r₁.buffer.map fun b : Buf => b.fill data }.processHeader io).2.evalFallback = true) :
    (headerLoop io (x :: xs) r).evalFallback = true := by
  have hrules := latchProperty_set.rules io
  have hframe := processHeader_frame io { r₁ with
    buffer := r₁.buffer.map fun b : Buf => b.fill data }
  refine evalFallback_of_outcome (hrules.headerLoop_bytes
    (fun q hq => hrules.headerLoop_outcome xs hq) hx ?_)
  obtain ⟨rest, -, -, -, rfl⟩ := recv_bytes hx
  -- Only the latch matters from here on.
  generalize processHeader io { r with
    sock := rest, buffer := r.buffer.map fun b : Buf => b.fill data } = result at h hframe
  have hopen : LatchOpen (· = true) result.2 := ⟨hframe.1.trans hattached, h⟩
  exact ⟨fun _ => ⟨hopen.attached, hframe.2.trans hhandler, h⟩, fun _ => hopen, fun _ _ => hopen⟩

/-- The loop builds `EVAL` at most once, and then sets the latch. -/
theorem headerLoopBuilds_cases (io : Io) (recvs : List Recv) {r : RoundTrip}
    (hattached : r.attached = true) (hhandler : r.readHandler = .header) :
    headerLoopBuilds io recvs r = [] ∨
      (∃ body key args, headerLoopBuilds io recvs r = [.eval body key args]) ∧
        r.evalFallback = false ∧ (headerLoop io recvs r).evalFallback = true := by
  induction recvs generalizing r with
  | nil => exact .inl rfl
  | cons x xs ih =>
    cases hx : r.recv r.room x with
    | mk received r₁ =>
      cases received with
      | again | zero | error =>
        left
        rw [headerLoopBuilds, hx]
      | bytes data =>
        have hlatched := headerLoop_latched io xs hx hattached hhandler
        have hframe := processHeader_frame io { r₁ with
          buffer := r₁.buffer.map fun b : Buf => b.fill data }
        obtain ⟨rest, -, -, -, rfl⟩ := recv_bytes hx
        set filled : RoundTrip := { r with
          sock := rest, buffer := r.buffer.map fun b : Buf => b.fill data } with hfilled
        have hbuilds : headerLoopBuilds io (x :: xs) r = headerBuilds io filled ++
            match filled.processHeader io with
            | (.again, r) => if r.room = 0 then [] else headerLoopBuilds io xs r
            | _ => [] := by
          rw [headerLoopBuilds, hx]
        rw [hbuilds]
        cases hresends : filled.resends with
        | true =>
          obtain ⟨hfirst, hset⟩ := resends_spec io hresends
          rw [headerLoopBuilds_rest io xs hresends, List.append_nil, headerBuilds, hresends]
          cases io.requestAlloc with
          | false => exact .inl rfl
          | true => exact .inr ⟨⟨_, _, _, rfl⟩, hfirst, hlatched hset⟩
        | false =>
          -- Nothing is built for this piece, and the loop may go on.
          have hnone := headerBuilds_of_not_resends io hresends
          rw [hnone, List.nil_append]
          split
          · rename_i q heq
            rw [heq] at hframe
            split
            · exact .inl rfl
            · rename_i hroom
              rcases ih (hframe.1.trans hattached) (hframe.2.trans hhandler) with
                hnil | ⟨hcommand, hfirst, hset⟩
              · exact .inl hnil
              · refine .inr ⟨hcommand, ?_, ?_⟩
                · -- The latch stays set, so it was not set before this piece either.
                  rw [← Bool.not_eq_true]
                  intro hlatch
                  obtain ⟨-, hkeep⟩ := latchProperty_set.header io (r := r) hlatch hx
                  dsimp only at hkeep
                  rw [← hfilled, heq] at hkeep
                  exact absurd (hfirst.symm.trans hkeep) (by decide)
                · rw [headerLoop, hx]
                  dsimp only
                  rw [← hfilled, heq]
                  dsimp only
                  rw [if_neg hroom]
                  exact hset
          · exact .inl rfl

/-- An event builds `EVAL` at most once, and then sets the latch. -/
theorem builds_cases (r : RoundTrip) (e : Event) :
    r.builds e = [] ∨
      (∃ body key args, r.builds e = [.eval body key args]) ∧ r.evalFallback = false ∧
        (r.step e).evalFallback = true := by
  cases e with
  | arrive data => exact .inl rfl
  | write io => exact .inl rfl
  | read io =>
    by_cases hreads : r.attached && r.readHandler = .header
    · rw [builds, if_pos hreads]
      rw [Bool.and_eq_true, decide_eq_true_eq] at hreads
      rw [step_read_header hreads.1 hreads.2]
      unfold readHeaderBuilds readHeaderHandler
      split
      · exact .inl rfl
      · split
        · exact .inl rfl
        · split
          · exact .inl rfl
          · exact headerLoopBuilds_cases io io.recvs (r := { r with
              buffer := some (r.buffer.getD (.alloc r.conf.bufferSize)) }) hreads.1 hreads.2
    · exact .inl (if_neg hreads)

end RoundTrip

end NginxRatelimit
