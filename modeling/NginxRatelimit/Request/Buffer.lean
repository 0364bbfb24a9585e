import NginxRatelimit.Request.Reader

/-!
# The bounds of the buffer

`Buf.Sound` says that the pointers of `u->buffer` are in order and that the window is what lies
between `pos` and `last`. Every operation of a round trip keeps it, because `recv` is offered no
more than the room that is left, and because what is consumed is in the window. So it holds in every
run (`sound_run`), whatever the peer sends and whatever fails. The location and the key of a round
trip stay the same (`request_run`).
-/

namespace NginxRatelimit

namespace Buf

/-- A new buffer is sound. -/
theorem sound_alloc (size : ℕ) : (alloc size).Sound := ⟨rfl, Nat.zero_le _⟩

variable {b : Buf}

/-- So is one that is emptied. -/
theorem sound_clear (b : Buf) : b.clear.Sound := ⟨rfl, Nat.zero_le _⟩

/-- What is received fits. -/
theorem Sound.fill (h : b.Sound) {data : Bytes} (hfits : data.length ≤ b.room) :
    (b.fill data).Sound := by
  have hwindow := h.window
  have hlast := h.last_le
  unfold room at hfits
  constructor
  · simp only [Buf.fill, List.length_append]
    omega
  · simp only [Buf.fill]
    omega

/-- What is consumed is there. -/
theorem Sound.consume (h : b.Sound) {n : ℕ} (hn : n ≤ b.window.length) : (b.consume n).Sound := by
  have hwindow := h.window
  refine ⟨?_, h.last_le⟩
  simp only [Buf.consume, List.length_drop]
  omega

/-- What the parser is given lies before the end. -/
theorem Sound.advance (h : b.Sound) {data : Bytes} (hfits : data.length ≤ b.room) :
    (b.advance data).Sound := by
  have hlast := h.last_le
  unfold room at hfits
  refine ⟨rfl, ?_⟩
  simp only [Buf.advance]
  omega

/-- The window fits behind itself. -/
theorem Sound.rewind (h : b.Sound) : b.rewind.Sound ∧ b.window.length ≤ b.rewind.room := by
  have hwindow := h.window
  have hlast := h.last_le
  simp only [Buf.rewind, room]
  refine ⟨⟨rfl, ?_⟩, ?_⟩
  · dsimp only
    omega
  · omega

end Buf

namespace RoundTrip

/-- The buffer of a round trip, once it has one, is sound. -/
def Sound (r : RoundTrip) : Prop := ∀ b ∈ r.buffer, b.Sound

variable {r : RoundTrip}

/-- An operation on the buffer. -/
theorem Sound.map (h : r.Sound) {f : Buf → Buf}
    (hf : ∀ b, r.buffer = some b → b.Sound → (f b).Sound) :
    ∀ b ∈ r.buffer.map f, b.Sound := by
  intro b hb
  obtain ⟨b', hb', rfl⟩ := Option.map_eq_some_iff.mp hb
  exact hf b' hb' (h b' hb')

/-- Bytes of the window are consumed. -/
theorem Sound.consume (h : r.Sound) {n : ℕ} (hn : n ≤ r.window.length) : (r.consume n).Sound := by
  refine h.map fun b hb hsound => hsound.consume ?_
  rw [window, hb] at hn
  exact hn

/-- Emptying the buffer of a round trip keeps it sound. -/
theorem Sound.clearBuffer (h : r.Sound) : r.clearBuffer.Sound :=
  h.map fun b _ _ => b.sound_clear

/-- A sound round trip for this location and key, which has not been finalized. -/
structure Live (conf : LocConf) (key : Bytes) (r : RoundTrip) : Prop where
  attached : r.attached = true
  sound : r.Sound
  request : r.conf = conf ∧ r.key = key

/-- One that is read by the header handler. -/
structure LiveHeader (conf : LocConf) (key : Bytes) (r : RoundTrip) : Prop where
  live : Live conf key r
  readHandler : r.readHandler = .header

/-- One that is read by the body handler. -/
structure LiveBody (conf : LocConf) (key : Bytes) (r : RoundTrip) : Prop where
  live : Live conf key r
  readHandler : r.readHandler = .body
  writeHandler : r.writeHandler = .dummy
  length : r.length ≠ 0

/-- One whose reply is parsed. -/
structure LiveReplied (conf : LocConf) (key : Bytes) (r : RoundTrip) : Prop where
  live : Live conf key r
  length : r.length = 0

/-- A round trip that was finalized. -/
structure Detached (conf : LocConf) (key : Bytes) (r : RoundTrip) : Prop where
  attached : r.attached = false
  sound : r.Sound
  request : r.conf = conf ∧ r.key = key

variable {conf : LocConf} {key : Bytes}

/-- `process_header` consumes bytes of the window, or empties the buffer. -/
theorem LiveHeader.processHeader (h : LiveHeader conf key r) (io : Io) :
    LiveHeader conf key (r.processHeader io).2 := by
  have hmoved : ∀ left k, k ≤ r.window.length → LiveHeader conf key (r.moved left k) :=
    fun left k hk => ⟨⟨h.live.attached, h.live.sound.consume hk, h.live.request⟩, h.readHandler⟩
  have hstep := processHeader_step io r
  generalize r.processHeader io = result at hstep
  cases hstep with
  | again left k t hstands => exact hmoved left k hstands.le
  | array k rest hstands hrest =>
    have hlen := congrArg List.length hrest
    rw [List.length_drop, List.length_cons] at hlen
    have hnext := hmoved 0 (k + 1) (by omega)
    exact ⟨⟨hnext.live.attached, hnext.live.sound, hnext.live.request⟩, hnext.readHandler⟩
  | refused rc left k rest hrc hstands => exact hmoved left k hstands.le
  | fallback k line rest hstands =>
    have hnext := hmoved 0 k hstands.le
    dsimp only
    rcases resendEval_cases io (r.moved 0 k) with hcase | ⟨rc, bufs, handler, timer, hcase⟩
    · rw [hcase]
      exact ⟨⟨hnext.live.attached, hnext.live.sound, hnext.live.request⟩, hnext.readHandler⟩
    · rw [hcase]
      exact ⟨⟨hnext.live.attached, hnext.live.sound.clearBuffer, hnext.live.request⟩,
        hnext.readHandler⟩

/-- `process_reply` moves over bytes that fit, and consumes no more of them. -/
theorem LiveBody.processReply (h : LiveBody conf key r) {bytes : Bytes}
    (hfits : ∀ b, r.buffer = some b → bytes.length ≤ b.room) :
    Parses (LiveBody conf key) (LiveReplied conf key) (Live conf key) (r.processReply bytes).1
      (r.processReply bytes).2 := by
  have hadvance : ∀ b ∈ r.buffer.map (fun b : Buf => b.advance bytes), b.Sound :=
    h.live.sound.map fun b hb hsound => hsound.advance (hfits b hb)
  have hconsume : ∀ n ≤ bytes.length, Sound ({ r with
      buffer := r.buffer.map fun b : Buf => b.advance bytes, fed := r.fed ++ bytes }.consume n) := by
    intro n hn b hb
    obtain ⟨b₁, hb₁, rfl⟩ := Option.map_eq_some_iff.mp hb
    refine (hadvance b₁ hb₁).consume ?_
    obtain ⟨b₀, -, rfl⟩ := Option.map_eq_some_iff.mp hb₁
    exact hn
  unfold RoundTrip.processReply
  dsimp only
  cases hloop : replyLoop r.parse bytes with
  | again q =>
    refine ⟨fun _ => ?_, nofun, nofun⟩
    exact ⟨⟨h.live.attached, hconsume _ le_rfl, h.live.request⟩, h.readHandler, h.writeHandler,
      h.length⟩
  | error q => exact ⟨nofun, nofun, fun _ => ⟨h.live.attached, hadvance, h.live.request⟩⟩
  | done q rest =>
    refine ⟨nofun, fun _ => ?_, nofun⟩
    exact ⟨⟨h.live.attached, hconsume _ (Nat.sub_le _ _), h.live.request⟩, rfl⟩

/-- The operations of a round trip keep its buffer sound. -/
theorem sound_rules (io : Io) : Rules io (LiveHeader conf key) (LiveHeader conf key)
    (LiveBody conf key) (LiveReplied conf key) (Live conf key) where
  waiting h := ⟨h.live.attached, h.readHandler⟩
  reading h := ⟨h.live.attached, h.readHandler, h.writeHandler, h.length⟩
  replied h := ⟨h.live.attached, h.length⟩
  failed h := h.attached
  waiting_failed h := h.live
  reading_failed h := h.live
  alloc := by
    intro r h
    refine ⟨⟨h.live.attached, ?_, h.live.request⟩, h.readHandler⟩
    intro b hb
    obtain rfl := Option.some.inj hb
    cases hbuffer : r.buffer with
    | none => exact Buf.sound_alloc _
    | some b => exact h.live.sound b hbuffer
  waiting_eof h := ⟨h.live.attached, h.live.sound, h.live.request⟩
  waiting_error h := ⟨h.live.attached, h.live.sound, h.live.request⟩
  header := by
    intro r r₁ x data h hx
    obtain ⟨rest, -, -, hlen, rfl⟩ := recv_bytes hx
    -- The bytes fit, as no more are received than there is room for.
    have hfill : LiveHeader conf key { r with
        sock := rest, buffer := r.buffer.map fun b : Buf => b.fill data } := by
      refine ⟨⟨h.live.attached, h.live.sound.map fun b hb hsound => hsound.fill ?_, h.live.request⟩,
        h.readHandler⟩
      rw [room, hb] at hlen
      exact hlen
    have hresult := hfill.processHeader io
    exact ⟨fun _ => hresult, fun _ => hresult, fun _ _ => hresult.live⟩
  send := by
    intro r h
    obtain ⟨bufs, handler, timer, hframe⟩ := sendLoop_frame io io.sends r
    have hresult : LiveHeader conf key (r.sendEval io).2 := by
      rw [sendEval, hframe]
      exact ⟨⟨h.live.attached, h.live.sound, h.live.request⟩, h.readHandler⟩
    exact ⟨fun _ => hresult, fun _ => hresult.live⟩
  body_failed h := ⟨⟨h.live.attached, h.live.sound, h.live.request⟩,
    ⟨h.live.attached, h.live.sound.clearBuffer, h.live.request⟩⟩
  body_bytes := by
    intro r h _
    -- The rewind leaves the window's bytes behind `last`, so there is room for them.
    have hrewind : LiveBody conf key { enterBody r with buffer := r.buffer.map Buf.rewind } :=
      ⟨⟨h.live.attached, h.live.sound.map fun b _ hsound => hsound.rewind.1, h.live.request⟩, rfl,
        rfl, (by decide : (-1 : ℤ) ≠ 0)⟩
    refine hrewind.processReply ?_
    intro b hb
    obtain ⟨b₀, hb₀, rfl⟩ := Option.map_eq_some_iff.mp hb
    rw [window, hb₀]
    exact (h.live.sound b₀ hb₀).rewind.2
  body_empty h _ := ⟨⟨h.live.attached, h.live.sound.clearBuffer, h.live.request⟩, rfl, rfl,
    (by decide : (-1 : ℤ) ≠ 0)⟩
  clear h := ⟨⟨h.live.attached, h.live.sound.clearBuffer, h.live.request⟩, h.readHandler,
    h.writeHandler, h.length⟩
  reading_eof h := ⟨⟨h.live.attached, h.live.sound, h.live.request⟩, h.readHandler, h.writeHandler,
    h.length⟩
  reading_error h := ⟨⟨h.live.attached, h.live.sound, h.live.request⟩, h.readHandler,
    h.writeHandler, h.length⟩
  reply := by
    intro r r₁ x data h hx
    obtain ⟨rest, -, -, hlen, rfl⟩ := recv_bytes hx
    have hnext : LiveBody conf key { r with sock := rest } :=
      ⟨⟨h.live.attached, h.live.sound, h.live.request⟩, h.readHandler, h.writeHandler, h.length⟩
    refine hnext.processReply ?_
    intro b hb
    rw [room, show r.buffer = some b from hb] at hlen
    exact hlen

/-- Finalization leaves the buffer alone. -/
theorem Live.finalize (h : Live conf key r) (rc : Rc) (why : Exit) :
    Detached conf key (r.finalizeUpstreamRequest rc why) := by
  obtain ⟨headers, p, hframe, -⟩ := finalizeUpstreamRequest_frame h.attached rc why
  rw [hframe]
  exact ⟨rfl, h.sound, h.request⟩

/-- The buffer is sound in every state that a run leads to. -/
theorem sound_runRules : RunRules (LiveHeader conf key) (LiveHeader conf key) (LiveBody conf key)
    (LiveReplied conf key) (Live conf key) (Detached conf key) where
  rules := sound_rules
  waiting_arrive _ h := ⟨⟨h.live.attached, h.live.sound, h.live.request⟩, h.readHandler⟩
  reading_arrive _ h :=
    ⟨⟨h.live.attached, h.live.sound, h.live.request⟩, h.readHandler, h.writeHandler, h.length⟩
  finalized h := h.attached
  replied h := h.live.finalize _ _
  failed h _ := h.finalize _ _

/-- After every run the buffer is sound, and the round trip is for its location and key. -/
theorem sound_request_run (conf : LocConf) (key : Bytes) (events : List Event) :
    ((start conf key).run events).Sound ∧ ((start conf key).run events).conf = conf ∧
      ((start conf key).run events).key = key := by
  have hstart : LiveHeader conf key (start conf key) := ⟨⟨rfl, nofun, rfl, rfl⟩, rfl⟩
  rcases sound_runRules.run (.inl hstart) events with h | h | h
  · exact ⟨h.live.sound, h.live.request⟩
  · exact ⟨h.live.sound, h.live.request⟩
  · exact ⟨h.sound, h.request⟩

/-- In particular the buffer is sound. -/
theorem sound_run (conf : LocConf) (key : Bytes) (events : List Event) :
    ((start conf key).run events).Sound := (sound_request_run conf key events).1

/-- And the location and the key are those of the start. -/
theorem request_run (conf : LocConf) (key : Bytes) (events : List Event) :
    ((start conf key).run events).conf = conf ∧ ((start conf key).run events).key = key :=
  (sound_request_run conf key events).2

end RoundTrip

end NginxRatelimit
