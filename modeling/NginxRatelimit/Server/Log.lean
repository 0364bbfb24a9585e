import NginxRatelimit.Request.Log
import NginxRatelimit.Server.Own

/-!
# Whose text is logged

The error log of a worker is read by other people than those whose scripts run on the server. What a
request quotes there of the server is the answer to a command of its own (`logged_own`), in
printable characters that stay on one line, and it quotes one answer at most.
-/

namespace NginxRatelimit

open Library Resp RoundTrip

namespace Traffic

variable {t : Traffic} {r : RoundTrip}

/-- A message quotes one of the answers. -/
def Logged (t : Traffic) (alloc : Bool) (m : Message) : Prop :=
  ∃ a ∈ t.answers, m.Quotes alloc (encode a.2)

/-- A reply to the prelude that is refused is an answer to a command of the prelude. -/
theorem Waits.refusedLine (ht : ∀ a ∈ t.answers, Answers a.1 a.2) {n : ℕ} (h : t.Waits r)
    (hn : r.preludeReplies = n) (herror : (RoundTrip.consumePrelude n r).1 = .error) :
    ∃ a ∈ t.answers,
      (RoundTrip.consumePrelude n r).2.window.takeWhile (· ≠ LF) <+: encode a.2 := by
  induction n generalizing r with
  | zero => cases herror
  | succ n ih =>
    obtain ⟨hok, hother⟩ := h.consumePreludeReply ht hn
    rw [RoundTrip.consumePrelude] at herror ⊢
    split at herror
    · rename_i r' heq
      rw [heq] at hok
      exact ih (hok rfl) rfl herror
    · rename_i rc r' hne heq
      rw [heq] at hother
      obtain rfl : r' = r := hother hne
      -- The line has arrived in full, and a reply is awaited.
      have hfull : (r'.window.takeWhile (· ≠ LF)).length ≠ r'.window.length := by
        intro hpart
        unfold RoundTrip.consumePreludeReply at heq
        dsimp only at heq
        rw [if_pos hpart] at heq
        cases heq
        cases herror
      obtain ⟨done, unread, ahead, haw⟩ := h.awaits
      have hlen := haw.preludeReplies
      cases ahead with
      | nil =>
        rw [hn, List.length_nil] at hlen
        omega
      | cons cmd ahead =>
        obtain ⟨v, unread', rfl, hline, -, -⟩ := haw.line ht hfull
        have hmem : (cmd, v) ∈ t.answers := by
          rw [haw.answers]
          simp
        obtain ⟨line, hLF, henc⟩ := encode_line (ht _ hmem).1 hline
        have hbytes := haw.bytes
        rw [List.map_cons, encodeAll, henc, List.append_assoc, List.singleton_append] at hbytes
        refine ⟨(cmd, v), hmem, ?_⟩
        rw [(takeWhile_line hbytes hLF hfull).1, henc]
        exact List.prefix_append _ _

/-- What `process_header` logs quotes an answer. -/
theorem Waits.headerLogs (ht : ∀ a ∈ t.answers, Answers a.1 a.2) (h : t.Waits r) (alloc : Bool) :
    ∀ m ∈ r.headerLogs alloc, t.Logged alloc m := by
  intro m hm
  obtain ⟨hwaits, hcount⟩ := h.consumePrelude ht rfl
  have hrefused := h.refusedLine ht rfl
  unfold RoundTrip.headerLogs at hm
  cases hprelude : RoundTrip.consumePrelude r.preludeReplies r with
  | mk rc r' =>
    rw [hprelude] at hm hwaits hcount hrefused
    cases rc with
    | ok =>
      dsimp only at hm hwaits hcount
      have hlogs := r'.typeLogs_cases alloc (.good [] [])
      rcases hlogs with hnone | ⟨⟨m', hm', hquotes⟩, -⟩
      · rw [hnone] at hm
        cases hm
      · rw [hm'] at hm
        obtain rfl := List.mem_singleton.mp hm
        have hwindow : r'.window ≠ [] := by
          intro hnil
          unfold typeLogs at hm'
          rw [hnil] at hm'
          cases hm'
        obtain ⟨done, unread, ahead, haw⟩ := hwaits.awaits
        obtain ⟨v, -, hmem, henc⟩ := haw.last (hcount rfl) hwindow
        exact ⟨_, hmem, hquotes.mono (henc ▸ List.prefix_append _ _)⟩
    | error =>
      obtain ⟨a, ha, hprefix⟩ := hrefused rfl
      obtain rfl := List.mem_singleton.mp hm
      exact ⟨a, ha, _, (stripCR_isPrefix _).trans hprefix, rfl⟩
    | _ => cases hm

/-- So does what the header handler logs. -/
theorem Waits.headerLoopLogs (ht : ∀ a ∈ t.answers, Answers a.1 a.2) (h : t.Waits r)
    (alloc : Bool) (io : Io) (xs : List Recv) :
    ∀ m ∈ RoundTrip.headerLoopLogs alloc io xs r, t.Logged alloc m := by
  induction xs generalizing r with
  | nil => exact fun m hm => absurd hm List.not_mem_nil
  | cons x xs ih =>
    intro m hm
    rw [RoundTrip.headerLoopLogs] at hm
    split at hm
    · rename_i data r₁ hrecv
      have hfilled := h.receive hrecv
      rcases List.mem_append.mp hm with hm | hm
      · exact hfilled.headerLogs ht alloc m hm
      · obtain ⟨hagain, -, -⟩ := hfilled.processHeader ht io
        split at hm
        · rename_i r₂ hresult
          rw [hresult] at hagain
          split at hm
          · cases hm
          · exact ih (hagain rfl) m hm
        · cases hm
    · cases hm

/-- What a read event logs while the header is awaited is a failed connect, or quotes an answer to
the request's own command. -/
theorem Waits.readHeaderLogs (ht : ∀ a ∈ t.answers, Answers a.1 a.2) (h : t.Waits r)
    (alloc : Bool) (io : Io) :
    ∀ m ∈ r.readHeaderLogs alloc io, m = .connectFailed ∨ t.Logged alloc m := by
  intro m hm
  unfold RoundTrip.readHeaderLogs at hm
  split at hm
  · cases hm
  · split at hm
    · exact .inl (List.mem_singleton.mp hm)
    · split at hm
      · cases hm
      · exact .inr (((sync_rules ht io).alloc h).headerLoopLogs ht alloc io io.recvs m hm)

/-- A round trip that goes on after an event has no exit. -/
theorem exit_step (ht : ∀ a ∈ t.answers, Answers a.1 a.2) (h : t.Waits r ∨ t.Reads r) (e : Event)
    (hattached : (r.step e).attached = true) : (r.step e).exit = none := by
  have houtcome : ∀ {r' : RoundTrip},
      RoundTrip.Outcome t.Waits t.Reads t.Replied t.Fails r' → r'.attached = true →
        r'.exit = none := by
    intro r' houtcome hattached'
    cases houtcome with
    | waits h => exact h.current.exit
    | reads h => exact h.current.exit
    | replied q hq hr =>
      have hdetached := (exit_finalizeUpstreamRequest hq.current.attached .done .replied).1
      rw [← hr] at hdetached
      exact absurd (hattached'.symm.trans hdetached) nofun
    | fails q rc why hq hexit hr =>
      have hdetached := (exit_finalizeUpstreamRequest hq.current.attached rc why).1
      rw [← hr] at hdetached
      exact absurd (hattached'.symm.trans hdetached) nofun
  cases e with
  | arrive data =>
    have hcurrent : t.Current r := h.elim (·.current) (·.current)
    rw [step_arrive hcurrent.attached]
    exact hcurrent.exit
  | read io => exact houtcome ((sync_rules ht io).read h) hattached
  | write io => exact houtcome ((sync_rules ht io).write h) hattached

end Traffic

variable {V : Type} {S : Server V} {w : World V} {events : List (WorldEvent V)}

/-- A server that asks for a password. -/
def lockedServer : Server Unit := { constantServer with requirepass := some (text "secret") }

/-- A location without a password has sent its `SELECT` and its `EVALSHA`. -/
def lockedOut : List (WorldEvent Unit) :=
  [.dial constantLocation (text "a"), .on 0 .flush, .on 0 .flush, .serve 0 1000000,
    .serve 0 1000000]

/-- What a request logs when its answers are read. -/
def Conn.logsOnRead (c : Conn) : Option (List Message) :=
  match c.holder with
  | .busy _ _ r => some (r.logs true (.read (Io.good [.data 4096] [])))
  | .closed | .idle _ => none

end NginxRatelimit
