import NginxRatelimit.Pool.Exchange
import NginxRatelimit.Request.Whole

/-!
# A request in flight waits for something

The round trip that has a connection is a run of the request's (`Runs`), so all that is proved of
such runs holds of it. With the invariant of the connection it follows that it never waits in vain:
some command of it is not sent, or not answered, or some byte of an answer is not read, or its `EVAL`
is partly sent and a write event is armed for the rest (`waits_for_something`).
-/

namespace NginxRatelimit

open Library Resp RoundTrip

namespace Conn

variable {c : Conn}

/-- The round trip that has the connection is a run of the request's, whose `EVAL` counts as sent as
soon as all of it is. -/
def Runs (c : Conn) : Prop :=
  ∀ frame evalSent r, c.holder = .busy frame evalSent r →
    (∃ events, r = (RoundTrip.start c.sender.conf c.sender.key).run events) ∧
      (evalSent = false → r.evalFallback = true → drained r = false)

/-- A new connection is at the beginning of such a run. -/
theorem runs_dial (conf : LocConf) (key : Bytes) : (dial conf key).Runs := by
  intro frame evalSent r hbusy
  obtain ⟨-, -, rfl⟩ := Holder.busy.inj hbusy
  exact ⟨⟨[], rfl⟩, fun _ hlatch => absurd hlatch Bool.false_ne_true⟩

/-- One more event of the round trip. -/
theorem exists_run_step {conf : LocConf} {key : Bytes} {r : RoundTrip}
    (h : ∃ events, r = (RoundTrip.start conf key).run events) (e : Event) :
    ∃ events, r.step e = (RoundTrip.start conf key).run events := by
  obtain ⟨events, rfl⟩ := h
  exact ⟨events ++ [e], (run_append (RoundTrip.start conf key) events [e]).symm⟩

/-- What has no round trip. -/
theorem runs_of_not_busy (h : ∀ frame evalSent r, c.holder ≠ .busy frame evalSent r) : c.Runs :=
  fun frame evalSent r hbusy => absurd hbusy (h frame evalSent r)

/-- A connection that is released has no round trip. -/
theorem release_not_busy (c : Conn) (frame : List Command) (pool : Bool) (r : RoundTrip) :
    (c.release frame pool r).Runs := by
  refine runs_of_not_busy fun frame' evalSent q => ?_
  unfold release
  dsimp only
  split <;> exact nofun

/-- A read or write event. -/
theorem Runs.settle {frame : List Command} {evalSent : Bool} {r : RoundTrip} (pool : Bool)
    (h : ∃ events, r = (RoundTrip.start c.sender.conf c.sender.key).run events) :
    (c.settle frame evalSent pool r).Runs := by
  unfold Conn.settle
  dsimp only
  split
  · intro frame' evalSent' q hbusy
    obtain ⟨-, hsent, rfl⟩ := Holder.busy.inj hbusy
    refine ⟨h, fun hnot hlatch => ?_⟩
    rw [← hsent, Bool.or_eq_false_iff, decide_eq_false_iff_not, not_not] at hnot
    obtain ⟨rfl, hnone⟩ := hnot
    unfold evalOf at hnone
    cases hdrained : drained r with
    | false => rfl
    | true =>
      rw [hlatch, hdrained] at hnone
      cases hnone
  · exact release_not_busy _ _ _ _

/-- Every event keeps this. -/
theorem Runs.step (h : c.Runs) (hinv : c.Inv) {e : ConnEvent} {c' : Conn}
    (hc : c.step e = some c') : c'.Runs := by
  cases e with
  | answer v =>
    simp only [Conn.step, Conn.answer] at hc
    split at hc
    · cases hc
    · split at hc
      · cases hc
        intro frame evalSent r hbusy
        dsimp only at hbusy
        cases hholder : c.holder with
        | closed =>
          rw [hholder] at hbusy
          cases hbusy
        | idle unread =>
          rw [hholder] at hbusy
          cases hbusy
        | busy frame' evalSent' q =>
          rw [hholder] at hbusy
          obtain ⟨rfl, rfl, rfl⟩ := Holder.busy.inj hbusy
          obtain ⟨hrun, hunsent⟩ := h _ _ _ hholder
          refine ⟨exists_run_step hrun _, ?_⟩
          -- Bytes that arrive leave the rest of the round trip alone.
          unfold RoundTrip.step
          split
          · exact hunsent
          · exact hunsent
      · cases hc
  | flush =>
    simp only [Conn.step] at hc
    split at hc
    · rename_i cmd frame evalSent r hbusy
      cases hc
      intro frame' evalSent' q hq
      obtain ⟨-, rfl, rfl⟩ := Holder.busy.inj hq
      exact h _ _ _ hbusy
    · cases hc
  | read io pool =>
    simp only [Conn.step] at hc
    split at hc
    · rename_i hbusy
      cases hc
      exact Runs.settle pool (exists_run_step (h _ _ _ hbusy).1 _)
    · cases hc
  | write io pool =>
    simp only [Conn.step] at hc
    split at hc
    · rename_i hbusy
      cases hc
      exact Runs.settle pool (exists_run_step (h _ _ _ hbusy).1 _)
    · cases hc
  | abort pool =>
    simp only [Conn.step] at hc
    split at hc
    · cases hc
      exact release_not_busy _ _ _ _
    · cases hc
  | close =>
    simp only [Conn.step] at hc
    split at hc
    · cases hc
      refine runs_of_not_busy fun frame evalSent r hbusy => ?_
      cases hbusy
    · cases hc
  | reuse conf key =>
    simp only [Conn.step] at hc
    split at hc
    · rename_i unread hidle
      cases hc
      -- The request before has left nothing on the socket.
      have hunread : unread = [] := by
        have hstep := hinv.inStep
        rw [InStep, hidle] at hstep
        exact hstep.1
      intro frame evalSent r hbusy
      obtain ⟨-, -, rfl⟩ := Holder.busy.inj hbusy
      rw [hunread]
      exact ⟨⟨[], rfl⟩, fun _ hlatch => absurd hlatch Bool.false_ne_true⟩
    · cases hc

/-- It holds of every connection after every run. -/
theorem runs_of_pool {events : List PoolEvent} {conns : List Conn} (h : pool events = some conns) :
    ∀ c ∈ conns, c.Inv ∧ c.Runs :=
  Component.run_forall (C := connection) (P := fun c => c.Inv ∧ c.Runs)
    (fun k => ⟨inv_dial k.1 k.2, runs_dial k.1 k.2⟩)
    (fun _ _ _ hc hs => ⟨hc.1.step hs, hc.2.step hc.1 hs⟩) (by simp) h

/-! ## Nothing is waited for in vain -/

/-- What a round trip in flight waits for: a command that is not sent, an answer, bytes of one, or a
write event for the rest of its `EVAL`. -/
inductive WaitsFor (c : Conn) (frame : List Command) (evalSent : Bool) (r : RoundTrip) : Prop where
  | flush (h : frame ≠ [])
  | answer (h : c.queue ≠ [])
  | read (h : r.sock ≠ [])
  | write (left : Bytes) (hleft : left ≠ []) (hqueued : Queued left r) (hsent : evalSent = false)

/-- A round trip in flight waits for something that is there. -/
theorem waits_for_something (hinv : c.Inv) (hruns : c.Runs) {frame : List Command} {evalSent : Bool}
    {r : RoundTrip} (hbusy : c.holder = .busy frame evalSent r) : c.WaitsFor frame evalSent r := by
  obtain ⟨⟨events, hrun⟩, hunsent⟩ := hruns _ _ _ hbusy
  by_cases hframe : frame = []
  swap
  · exact .flush hframe
  by_cases hqueue : c.queue = []
  swap
  · exact .answer hqueue
  by_cases hsock : r.sock = []
  swap
  · exact .read hsock
  have hstep := hinv.inStep
  rw [InStep, hbusy] at hstep
  rcases hstep with hw | hr
  · obtain ⟨done, unread, ahead, haw⟩ := hw.awaits
    have hunsettled : r.Unsettled := by
      rw [hrun]
      exact unsettled_run _ _ events (hrun ▸ hw.current.attached) (hrun ▸ hw.readHandler)
    -- An answer that is not consumed would be a line in the buffer.
    obtain rfl : unread = [] := by
      cases unread with
      | nil => rfl
      | cons a unread =>
        have hbytes := haw.bytes
        rw [hsock, List.append_nil, List.map_cons, encodeAll] at hbytes
        refine absurd ?_ hunsettled.line
        rw [hbytes]
        exact List.mem_append_left _ (LF_mem_encode a.2)
    have hcommands := haw.commands
    rw [Traffic.unanswered, show (c.traffic frame evalSent).queue = c.queue.map Sent.cmd from rfl,
      show (c.traffic frame evalSent).frame = frame from rfl, hframe, hqueue] at hcommands
    -- So the script that is awaited is the `EVAL`, which is not sent.
    obtain ⟨hlatch, hsent⟩ : r.evalFallback = true ∧ evalSent = false := by
      unfold Traffic.pending at hcommands
      cases hlatch : r.evalFallback <;> cases hsent : evalSent <;>
        simp [traffic, hlatch, hsent] at hcommands ⊢
    have hnot := hunsent hsent hlatch
    have hsend := SendInv.run (sendInv_start c.sender.conf c.sender.key) events
    rw [← hrun] at hsend
    cases hsend with
    | unqueued h _ => exact absurd (hlatch.symm.trans h.evalFallback) (by decide)
    | finished h _ =>
      rcases h with h | h
      · exact absurd (hw.current.attached.symm.trans h) (by decide)
      · exact absurd (hw.readHandler.symm.trans h.readHandler) (by decide)
    | queued left h _ =>
      refine .write left ?_ h hsent
      rintro rfl
      rw [drained, h.sending.requestBufs] at hnot
      cases hnot
  · -- The parser would have seen all of the reply.
    obtain ⟨v, hlast, henc⟩ := hr.reply
    obtain ⟨p, hp, hloop⟩ := hr.parse
    rw [hsock, List.append_nil] at henc
    exact absurd hloop (not_again_of_encode hp henc)

end Conn

end NginxRatelimit
