import NginxRatelimit.Pool.Conn
import NginxRatelimit.Request.Rules

/-!
# A round trip in step with its peer

`Traffic` is what has passed between a round trip and its peer. The invariant says how the two
agree: while the round trip waits for the reply of its script (`Waits`), the bytes that it has not
consumed are the answers to the first of the commands whose replies it still counts on; while it
reads that reply (`Reads`), the parser has seen a beginning of it, and nothing else is on the way.
`sync_rules` proves the invariant by the rule for round trips. At its end (`Replied`) all that the
peer has sent is consumed, and the five integers are those of the last answer, up to the fourth
elements that the parser takes for -1.
-/

namespace NginxRatelimit

open Library Resp RoundTrip

/-! ## Lines on the wire -/

/-- A line that has arrived in full is cut off at its LF. -/
theorem takeWhile_line {w s body more : Bytes} (h : w ++ s = body ++ LF :: more) (hbody : LF ∉ body)
    (hw : (w.takeWhile (· ≠ LF)).length ≠ w.length) :
    w.takeWhile (· ≠ LF) = body ∧ w.drop (body.length + 1) ++ s = more := by
  obtain ⟨pre, post, rfl, hpre⟩ := List.eq_append_cons_of_mem (mem_LF_of_takeWhile hw)
  rw [List.append_assoc, List.cons_append] at h
  -- Both sides are cut off at their first LF.
  have hcut := congrArg (List.takeWhile (· ≠ LF)) h
  rw [takeWhile_append_LF hpre, takeWhile_append_LF hbody] at hcut
  subst hcut
  have hmore : post ++ s = more := (List.cons.inj (List.append_cancel_left h)).2
  refine ⟨takeWhile_append_LF hpre post, ?_⟩
  rw [← hmore, List.drop_append, List.drop_eq_nil_of_le (by omega)]
  simp

/-- An error line that begins with NOSCRIPT does so before its end. -/
theorem isNoScript_of_take {line : Bytes} (h : (line ++ CRLF).take 8 = text "NOSCRIPT") :
    (Resp.error line).IsNoScript :=
  (take_append_cons_of_notMem (by decide : CR ∉ text "NOSCRIPT") line [LF]).mp h

/-- The bytes of a line end with its only LF. -/
theorem encode_line {v : Resp} (hv : v.WellFormed) (hline : v.IsLine) :
    ∃ line, LF ∉ v.typeByte :: (line ++ [CR]) ∧
      encode v = (v.typeByte :: (line ++ [CR])) ++ [LF] := by
  have hCR : LF ≠ CR := by decide
  cases v with
  | simple line =>
    rw [WellFormed] at hv
    refine ⟨line, ?_, by rw [encode, typeByte]; simp [CRLF]⟩
    have htype : LF ≠ ascii '+' := by decide
    simp [typeByte, htype, hv.2, hCR]
  | error line =>
    rw [WellFormed] at hv
    refine ⟨line, ?_, by rw [encode, typeByte]; simp [CRLF]⟩
    have htype : LF ≠ ascii '-' := by decide
    simp [typeByte, htype, hv.2, hCR]
  | _ => exact absurd hline id

/-! ## Traffic -/

/-- What has passed between a round trip and its peer. -/
structure Traffic where
  /-- The location's configuration. -/
  conf : LocConf
  /-- The request's key. -/
  key : Bytes
  /-- The answers to its commands. -/
  answers : List (Command × Resp)
  /-- The commands that have reached the peer and are not answered. -/
  queue : List Command
  /-- The commands of the first frame that are not sent. -/
  frame : List Command
  /-- The `EVAL` is sent. -/
  evalSent : Bool

/-- All of these answers are status lines. -/
def Accepts (answers : List (Command × Resp)) : Prop := ∀ a ∈ answers, ∃ line, a.2 = .simple line

/-- Answers that are consumed when those of `ahead` and then that of the script are awaited: the
ones to the beginning of the prelude, or after `NOSCRIPT` the ones to all of the first frame. -/
inductive Consumed (conf : LocConf) (key : Bytes) :
    List (Command × Resp) → List Command → Bool → Prop where
  | first {oks ahead} (hcmds : oks.map Prod.fst ++ ahead = buildPrelude conf)
      (hoks : Accepts oks) : Consumed conf key oks ahead false
  | fallback {oks v} (hcmds : oks.map Prod.fst = buildPrelude conf) (hoks : Accepts oks)
      (hv : v.IsNoScript) :
      Consumed conf key (oks ++ [(scriptCommand conf key false, v)]) [] true

/-- The prelude's commands are answered with lines. -/
theorem isPrelude_of_mem {conf : LocConf} {cmd : Command} (h : cmd ∈ buildPrelude conf) :
    cmd.IsPrelude := by
  rw [buildPrelude] at h
  rcases List.mem_append.mp h with h | h <;> split at h
  · rw [List.mem_singleton.mp h]
    trivial
  · cases h
  · rw [List.mem_singleton.mp h]
    trivial
  · cases h

/-- What is awaited of the prelude is of the prelude. -/
theorem Consumed.isPrelude {conf : LocConf} {key : Bytes} {answers : List (Command × Resp)}
    {ahead : List Command} {evalFallback : Bool} (h : Consumed conf key answers ahead evalFallback) :
    ∀ cmd ∈ ahead, cmd.IsPrelude := by
  intro cmd hcmd
  cases h with
  | fallback => cases hcmd
  | first hcmds => exact isPrelude_of_mem (hcmds ▸ List.mem_append_right _ hcmd)

/-- The commands of the consumed answers and of the awaited ones are all that the round trip has
sent or is to send. -/
theorem Consumed.commands {conf : LocConf} {key : Bytes}
    {done : List (Command × Resp)} {ahead : List Command} {evalFallback : Bool}
    (h : Consumed conf key done ahead evalFallback) :
    done.map Prod.fst ++ (ahead ++ [scriptCommand conf key evalFallback]) =
      firstFrame conf key ++ if evalFallback then [scriptCommand conf key true] else [] := by
  cases h with
  | first hcmds => simp [firstFrame, ← hcmds]
  | fallback hcmds => simp [firstFrame, ← hcmds]

/-- The first of the awaited answers is consumed when it is a status line. -/
theorem Consumed.next {conf : LocConf} {key : Bytes} {done : List (Command × Resp)} {cmd : Command}
    {ahead : List Command} {evalFallback : Bool} {line : Bytes}
    (h : Consumed conf key done (cmd :: ahead) evalFallback) :
    Consumed conf key (done ++ [(cmd, .simple line)]) ahead evalFallback := by
  cases h with
  | first hcmds hoks =>
    refine .first (by simpa using hcmds) fun a ha => ?_
    rcases List.mem_append.mp ha with ha | ha
    · exact hoks a ha
    · exact ⟨line, congrArg Prod.snd (List.mem_singleton.mp ha)⟩

namespace Traffic

/-- The `EVAL` that is still to be sent. -/
def pending (t : Traffic) (evalFallback : Bool) : List Command :=
  if evalFallback && !t.evalSent then [scriptCommand t.conf t.key true] else []

/-- The commands that are not answered. -/
def unanswered (t : Traffic) (evalFallback : Bool) : List Command :=
  t.queue ++ t.frame ++ t.pending evalFallback

/-- The answer to the script has come, and is the last of all. -/
structure Last (t : Traffic) (evalFallback : Bool) (v : Resp) : Prop where
  unanswered : t.unanswered evalFallback = []
  answers : ∃ done, t.answers = done ++ [(scriptCommand t.conf t.key evalFallback, v)] ∧
    Consumed t.conf t.key done [] evalFallback

/-- A round trip in use by the request. -/
structure Current (t : Traffic) (r : RoundTrip) : Prop where
  attached : r.attached = true
  exit : r.exit = none
  conf : r.conf = t.conf
  key : r.key = t.key
  evalSent : t.evalSent = true → r.evalFallback = true

/-- The replies that a round trip counts on: those in `unread` have come, and `ahead` is what it
still awaits of the prelude. -/
structure Awaits (t : Traffic) (r : RoundTrip) (done unread : List (Command × Resp))
    (ahead : List Command) : Prop where
  answers : t.answers = done ++ unread
  consumed : Consumed t.conf t.key done ahead r.evalFallback
  commands : unread.map Prod.fst ++ t.unanswered r.evalFallback =
    ahead ++ [scriptCommand t.conf t.key r.evalFallback]
  preludeReplies : r.preludeReplies = ahead.length
  bytes : r.window ++ r.sock = encodeAll (unread.map Prod.snd)

/-- A round trip that waits for the reply of its script. -/
structure Waits (t : Traffic) (r : RoundTrip) : Prop where
  current : t.Current r
  readHandler : r.readHandler = .header
  keepalive : r.keepalive = false
  parse : r.parse.Fresh
  fed : r.fed = []
  awaits : ∃ done unread ahead, t.Awaits r done unread ahead

/-- A round trip that has read the first byte of that reply. -/
structure Begins (t : Traffic) (r : RoundTrip) : Prop where
  current : t.Current r
  keepalive : r.keepalive = false
  parse : r.parse.Fresh
  fed : r.fed = []
  reply : ∃ v, t.Last r.evalFallback v ∧ encode v = ascii '*' :: (r.window ++ r.sock)

/-- A round trip in the middle of that reply. -/
structure Reads (t : Traffic) (r : RoundTrip) : Prop where
  current : t.Current r
  readHandler : r.readHandler = .body
  writeHandler : r.writeHandler = .dummy
  length : r.length ≠ 0
  keepalive : r.keepalive = false
  window : r.window = []
  parse : ∃ p : Parse, p.Fresh ∧ replyLoop p r.fed = .again r.parse
  reply : ∃ v, t.Last r.evalFallback v ∧ encode v = ascii '*' :: (r.fed ++ r.sock)

/-- A round trip at the end of that reply. -/
structure Replied (t : Traffic) (r : RoundTrip) : Prop where
  current : t.Current r
  length : r.length = 0
  keepalive : r.keepalive = true
  window : r.window = []
  sock : r.sock = []
  reply : ∃ v, t.Last r.evalFallback v ∧ (v = .array r.parse.reply.elements ↔ ¬ Misread v)

/-- A round trip that fails: its commands are the first of those that it sends at most. -/
structure Fails (t : Traffic) (r : RoundTrip) : Prop where
  current : t.Current r
  keepalive : r.keepalive = false
  commands : t.answers.map Prod.fst ++ t.queue ++ t.pending r.evalFallback <+:
    firstFrame t.conf t.key ++ [scriptCommand t.conf t.key true]

variable {t : Traffic} {r : RoundTrip}

/-- Being in use depends on few fields. -/
theorem Current.frame (h : t.Current r) {r' : RoundTrip} (hattached : r'.attached = r.attached)
    (hexit : r'.exit = r.exit) (hconf : r'.conf = r.conf) (hkey : r'.key = r.key)
    (hfallback : r'.evalFallback = r.evalFallback) : t.Current r' :=
  ⟨hattached.trans h.attached, hexit.trans h.exit, hconf.trans h.conf, hkey.trans h.key,
    fun hsent => hfallback.trans (h.evalSent hsent)⟩

/-! ## What fails -/

/-- A round trip may fail while it waits for the header. -/
theorem Waits.fails (h : t.Waits r) : t.Fails r := by
  refine ⟨h.current, h.keepalive, ?_⟩
  obtain ⟨done, unread, ahead, haw⟩ := h.awaits
  have hall : t.answers.map Prod.fst ++ t.unanswered r.evalFallback =
      firstFrame t.conf t.key ++
        if r.evalFallback then [scriptCommand t.conf t.key true] else [] := by
    rw [← haw.consumed.commands, ← haw.commands, haw.answers, List.map_append, List.append_assoc]
  cases hfallback : r.evalFallback with
  | false =>
    -- Before the fallback, what is left out is a part of the first frame.
    rw [hfallback] at hall
    simp only [unanswered, pending, Bool.false_and, Bool.false_eq_true, if_false,
      List.append_nil] at hall ⊢
    rw [← hall]
    exact ⟨t.frame ++ [scriptCommand t.conf t.key true], by simp⟩
  | true =>
    -- After it, one command at most is not consumed.
    obtain ⟨_, _, hcmds⟩ : ∃ oks v, done = oks ++ [(scriptCommand t.conf t.key false, v)] ∧
        ahead = [] := by
      have hconsumed := haw.consumed
      rw [hfallback] at hconsumed
      cases hconsumed with
      | fallback => exact ⟨_, _, rfl, rfl⟩
    have hone := congrArg List.length haw.commands
    rw [hfallback, hcmds.2] at hone
    rw [hfallback] at hall
    simp only [unanswered, List.length_append, List.length_map, List.nil_append, if_true,
      List.length_singleton] at hone hall
    cases hframe : t.frame with
    | nil =>
      rw [← hall, hframe]
      exact ⟨[], by simp⟩
    | cons cmd frame =>
      rw [hframe, List.length_cons] at hone
      have hqueue : t.queue = [] := List.eq_nil_of_length_eq_zero (by omega)
      have hpending : t.pending true = [] := List.eq_nil_of_length_eq_zero (by omega)
      rw [← hall, hqueue, hpending]
      exact ⟨t.frame, by simp⟩

/-- And when its last answer is there: its commands were sent in their order. -/
theorem Last.fails {evalFallback : Bool} {v : Resp} (h : t.Last evalFallback v) :
    t.answers.map Prod.fst ++ t.queue ++ t.pending evalFallback <+:
      firstFrame t.conf t.key ++ [scriptCommand t.conf t.key true] := by
  obtain ⟨done, hanswers, hconsumed⟩ := h.answers
  have hcmds := hconsumed.commands
  have hnone := h.unanswered
  simp only [Traffic.unanswered, List.append_eq_nil_iff] at hnone
  rw [hnone.1.1, hnone.2, hanswers, List.map_append, List.append_nil, List.append_nil]
  rw [List.nil_append] at hcmds
  rw [show List.map Prod.fst [(scriptCommand t.conf t.key evalFallback, v)] =
    [scriptCommand t.conf t.key evalFallback] from rfl, hcmds]
  cases evalFallback with
  | false => exact ⟨[scriptCommand t.conf t.key true], by simp⟩
  | true => exact ⟨[], by simp⟩

/-! ## The header -/

/-- A reply to the prelude that has arrived in full is that of the first awaited command. -/
theorem Awaits.line (ht : ∀ a ∈ t.answers, Answers a.1 a.2) {done unread : List (Command × Resp)}
    {cmd : Command} {ahead : List Command} (h : t.Awaits r done unread (cmd :: ahead))
    (hfull : (r.window.takeWhile (· ≠ LF)).length ≠ r.window.length) :
    ∃ v unread', unread = (cmd, v) :: unread' ∧ v.IsLine ∧ r.window.head? = some v.typeByte ∧
      r.window.drop ((r.window.takeWhile (· ≠ LF)).length + 1) ++ r.sock =
        encodeAll (unread'.map Prod.snd) := by
  have hbytes := h.bytes
  have hcommands := h.commands
  cases unread with
  | nil =>
    rw [List.map_nil, encodeAll, List.append_eq_nil_iff] at hbytes
    exact absurd (by rw [hbytes.1]; rfl) hfull
  | cons a unread =>
    obtain ⟨cmd', v⟩ := a
    obtain rfl : cmd' = cmd := (List.cons.inj hcommands).1
    have hv : Answers cmd' v := ht (cmd', v) (by rw [h.answers]; simp)
    have hline := hv.2 (h.consumed.isPrelude cmd' (by simp))
    obtain ⟨line, hLF, henc⟩ := encode_line hv.1 hline
    rw [List.map_cons, encodeAll, henc, List.append_assoc, List.singleton_append] at hbytes
    obtain ⟨hbody, hrest⟩ := takeWhile_line hbytes hLF hfull
    refine ⟨v, unread, rfl, hline, ?_, by rw [hbody]; exact hrest⟩
    obtain ⟨post, hpost⟩ := List.takeWhile_prefix (l := r.window) (· ≠ LF)
    rw [← hpost, hbody]
    rfl

/-- A '+' begins status lines only. -/
theorem exists_eq_simple {v : Resp} (hline : v.IsLine) (h : v.typeByte = ascii '+') :
    ∃ line, v = .simple line := by
  cases v with
  | simple line => exact ⟨line, rfl⟩
  | error line =>
    rw [typeByte] at h
    exact absurd h (by decide)
  | _ => exact absurd hline id

/-- Consuming a reply to the prelude. -/
theorem Waits.consumePreludeReply (ht : ∀ a ∈ t.answers, Answers a.1 a.2) (h : t.Waits r) {n : ℕ}
    (hn : r.preludeReplies = n + 1) :
    ((r.consumePreludeReply).1 = .ok →
      t.Waits { (r.consumePreludeReply).2 with preludeReplies := n }) ∧
    ((r.consumePreludeReply).1 ≠ .ok → (r.consumePreludeReply).2 = r) := by
  unfold RoundTrip.consumePreludeReply
  dsimp only
  split
  · exact ⟨nofun, fun _ => rfl⟩
  · rename_i hfull
    split
    · rename_i hplus
      refine ⟨fun _ => ?_, fun hne => absurd rfl hne⟩
      obtain ⟨done, unread, ahead, haw⟩ := h.awaits
      have hlen := haw.preludeReplies
      -- As a reply is awaited, the line in the window answers a command of the prelude.
      cases ahead with
      | nil =>
        rw [hn, List.length_nil] at hlen
        omega
      | cons cmd ahead =>
        obtain ⟨v, unread', rfl, hline, hhead, hrest⟩ := haw.line ht hfull
        obtain ⟨line, rfl⟩ := exists_eq_simple hline (Option.some.inj (hhead.symm.trans hplus))
        refine ⟨h.current.frame rfl rfl rfl rfl rfl, h.readHandler, h.keepalive, h.parse, h.fed,
          done ++ [(cmd, .simple line)], unread', ahead, ?_, haw.consumed.next, ?_, ?_, ?_⟩
        · rw [haw.answers, List.append_assoc]
          rfl
        · exact (List.cons.inj haw.commands).2
        · rw [hn, List.length_cons] at hlen
          exact Nat.succ.inj hlen
        · exact (congrArg (· ++ r.sock) (window_consume r _)).trans hrest
    · exact ⟨nofun, fun _ => rfl⟩

/-- The loop over the prelude's replies. -/
theorem Waits.consumePrelude (ht : ∀ a ∈ t.answers, Answers a.1 a.2) {n : ℕ} (h : t.Waits r)
    (hn : r.preludeReplies = n) :
    t.Waits (consumePrelude n r).2 ∧
      ((consumePrelude n r).1 = .ok → (consumePrelude n r).2.preludeReplies = 0) := by
  induction n generalizing r with
  | zero => exact ⟨h, fun _ => hn⟩
  | succ n ih =>
    obtain ⟨hok, hother⟩ := h.consumePreludeReply ht hn
    rw [RoundTrip.consumePrelude]
    split
    · rename_i r' heq
      rw [heq] at hok
      exact ih (hok rfl) rfl
    · rename_i rc r' hne heq
      rw [heq] at hother
      have hsame : r' = r := hother hne
      rw [hsame]
      exact ⟨h, fun hrc => absurd hrc hne⟩

/-- The first byte behind the prelude's replies is that of the last answer. -/
theorem Awaits.last {done unread : List (Command × Resp)} {ahead : List Command}
    (h : t.Awaits r done unread ahead) (hn : r.preludeReplies = 0) (hwindow : r.window ≠ []) :
    ∃ v, t.Last r.evalFallback v ∧ (scriptCommand t.conf t.key r.evalFallback, v) ∈ t.answers ∧
      encode v = r.window ++ r.sock := by
  obtain rfl : ahead = [] := List.eq_nil_of_length_eq_zero (h.preludeReplies.symm.trans hn)
  have hbytes := h.bytes
  have hcommands := h.commands
  cases unread with
  | nil =>
    rw [List.map_nil, encodeAll, List.append_eq_nil_iff] at hbytes
    exact absurd hbytes.1 hwindow
  | cons a unread =>
    obtain ⟨cmd, v⟩ := a
    obtain ⟨hcmd, hnone⟩ := List.cons.inj hcommands
    obtain ⟨hrest, hnone⟩ := List.append_eq_nil_iff.mp hnone
    obtain rfl := List.map_eq_nil_iff.mp hrest
    obtain rfl : cmd = scriptCommand t.conf t.key r.evalFallback := hcmd
    refine ⟨v, ⟨hnone, done, h.answers, h.consumed⟩, by rw [h.answers]; simp, ?_⟩
    rw [hbytes, List.map_cons, List.map_nil, encodeAll, encodeAll, List.append_nil]

/-- The script is sent again after `NOSCRIPT`: nothing of the first frame is on the way any more. -/
theorem Waits.resendEval (h : t.Waits r) (io : Io) {v : Resp} (hlast : t.Last false v)
    (hfirst : r.evalFallback = false) (hv : v.IsNoScript) (hsock : r.sock = []) :
    ((r.resendEval io).1 = .ok → t.Waits (r.resendEval io).2) ∧
      ((r.resendEval io).1 ≠ .ok → t.Fails (r.resendEval io).2) := by
  have hcurrent : ∀ r' : RoundTrip, r'.attached = r.attached → r'.exit = r.exit →
      r'.conf = r.conf → r'.key = r.key → r'.evalFallback = true → t.Current r' :=
    fun r' hattached hexit hconf hkey hlatch => ⟨hattached.trans h.current.attached,
      hexit.trans h.current.exit, hconf.trans h.current.conf, hkey.trans h.current.key,
      fun _ => hlatch⟩
  obtain ⟨done, hanswers, hconsumed⟩ := hlast.answers
  obtain ⟨hcmds, hoks⟩ : done.map Prod.fst = buildPrelude t.conf ∧ Accepts done := by
    cases hconsumed with
    | first hcmds hoks => exact ⟨by simpa using hcmds, hoks⟩
  have hnotSent : t.evalSent = false := by
    cases hsent : t.evalSent with
    | false => rfl
    | true => exact absurd (hfirst.symm.trans (h.current.evalSent hsent)) nofun
  have hpending : t.unanswered true = [scriptCommand t.conf t.key true] := by
    have hnone := hlast.unanswered
    simp only [unanswered, List.append_eq_nil_iff] at hnone
    simp [unanswered, pending, hnone.1.1, hnone.1.2, hnotSent]
  rcases resendEval_cases io r with hcase | ⟨rc, bufs, handler, timer, hcase⟩
  · -- The allocation fails, after the latch is set.
    rw [hcase]
    refine ⟨nofun, fun _ => ⟨hcurrent _ rfl rfl rfl rfl rfl, h.keepalive, ?_⟩⟩
    have hframe : t.frame = [] := by
      have hnone := hlast.unanswered
      simp only [Traffic.unanswered, List.append_eq_nil_iff] at hnone
      exact hnone.1.2
    have hall : t.answers.map Prod.fst ++ t.unanswered true =
        firstFrame t.conf t.key ++ [scriptCommand t.conf t.key true] := by
      rw [hpending, hanswers, List.map_append, hcmds, List.map_singleton, firstFrame]
    have hsent : t.answers.map Prod.fst ++ t.queue ++ t.pending true =
        firstFrame t.conf t.key ++ [scriptCommand t.conf t.key true] := by
      rw [← hall, Traffic.unanswered, hframe, List.append_nil, List.append_assoc]
    exact ⟨[], (List.append_nil _).trans hsent⟩
  · have hresult : t.Waits { r with
        evalFallback := true
        buffer := r.buffer.map Buf.clear
        parse := ⟨.start, r.parse.status, 0, 0, -1, 0⟩
        preludeReplies := 0
        requestBufs := bufs
        writeHandler := handler
        writeTimer := timer } := by
      refine ⟨hcurrent _ rfl rfl rfl rfl rfl, h.readHandler, h.keepalive,
        ⟨rfl, rfl, rfl, rfl, rfl⟩, h.fed, t.answers, [], [], ?_⟩
      refine ⟨(List.append_nil _).symm, ?_, hpending, rfl, ?_⟩
      · rw [hanswers]
        exact .fallback hcmds hoks hv
      · cases hb : r.buffer <;> simp [window, Buf.clear, hsock, encodeAll]
    rw [hcase]
    exact ⟨fun _ => hresult, fun _ => hresult.fails⟩

/-- An error line that has arrived is all that there is on the connection. -/
theorem sock_eq_nil {v : Resp} (hv : v.WellFormed) {w s : Bytes}
    (henc : encode v = ascii '-' :: (w ++ s)) (hLF : LF ∈ w) :
    s = [] ∧ ∃ line, v = .error line ∧ w = line ++ CRLF := by
  have htype : v.typeByte = ascii '-' := by
    obtain ⟨u, hu⟩ := exists_encode_eq_cons v
    exact (List.cons.inj (hu.symm.trans henc)).1
  cases v with
  | error line =>
    rw [WellFormed] at hv
    rw [encode] at henc
    have hbytes : w ++ s = (line ++ [CR]) ++ LF :: [] := by
      rw [← (List.cons.inj henc).2, List.append_assoc]
      rfl
    have hline : LF ∉ line ++ [CR] := by
      have hCR : LF ≠ CR := by decide
      simp [hv.2, hCR]
    -- The first line feed of an error line is its last byte.
    obtain ⟨pre, post, rfl, hpre⟩ := List.eq_append_cons_of_mem hLF
    have hcut := takeWhile_append_LF hpre post
    have hfull : ((pre ++ LF :: post).takeWhile (· ≠ LF)).length ≠ (pre ++ LF :: post).length := by
      rw [hcut, List.length_append, List.length_cons]
      omega
    obtain ⟨-, hrest⟩ := takeWhile_line hbytes hline hfull
    have hs := (List.append_eq_nil_iff.mp hrest).2
    refine ⟨hs, line, rfl, ?_⟩
    rw [hs, List.append_nil] at hbytes
    rw [hbytes, List.append_assoc]
    rfl
  | _ =>
    rw [typeByte] at htype
    exact absurd htype (by decide)

/-- What `process_header` makes of the bytes that have arrived. -/
def Heads (t : Traffic) (result : Rc × RoundTrip) : Prop :=
  (result.1 = .again → t.Waits result.2) ∧ (result.1 = .ok → t.Begins result.2) ∧
    (result.1 ≠ .again → result.1 ≠ .ok → t.Fails result.2)

/-- What follows the prelude is an answer to the script's command, and is taken as that. -/
theorem Waits.processType (ht : ∀ a ∈ t.answers, Answers a.1 a.2) (h : t.Waits r)
    (hn : r.preludeReplies = 0) (io : Io) : t.Heads (r.processType io) := by
  have hwait : t.Heads (.again, r) := ⟨fun _ => h, nofun, fun hne => absurd rfl hne⟩
  have hfail : ∀ rc, rc ≠ .again → rc ≠ .ok → t.Heads (rc, r) := fun rc h1 h2 =>
    ⟨fun heq => absurd heq h1, fun heq => absurd heq h2, fun _ _ => h.fails⟩
  unfold RoundTrip.processType
  split
  · exact hwait
  · rename_i chr rest hwindow
    obtain ⟨done, unread, ahead, haw⟩ := h.awaits
    obtain ⟨v, hlast, hmem, henc⟩ := haw.last hn (by rw [hwindow]; exact List.cons_ne_nil _ _)
    rw [hwindow, List.cons_append] at henc
    split
    · rename_i hstar
      refine ⟨nofun, fun _ => ?_, fun _ hne => absurd rfl hne⟩
      refine ⟨h.current.frame rfl rfl rfl rfl rfl, h.keepalive, ⟨h.parse.state,
        h.parse.limit, h.parse.remaining, h.parse.reset, h.parse.retryAfter⟩, h.fed, v, hlast, ?_⟩
      have hrest : (r.consume 1).window = rest := by rw [window_consume, hwindow]; rfl
      calc encode v = chr :: (rest ++ r.sock) := henc
        _ = ascii '*' :: ((r.consume 1).window ++ r.sock) := by rw [hstar, hrest]
    · split
      · rename_i hminus
        split
        · exact hwait
        · -- An error line is the last answer, so nothing is behind it on the connection.
          rename_i hLF
          rw [hminus] at henc
          obtain ⟨hsock, line, rfl, hline⟩ := sock_eq_nil (ht _ hmem).1 henc (not_not.mp hLF)
          split
          · rename_i hnoscript
            rw [Bool.and_eq_true, decide_eq_true_eq, hline, Bool.not_eq_true'] at hnoscript
            rw [hnoscript.1] at hlast
            obtain ⟨hok, hother⟩ := h.resendEval io hlast hnoscript.1
              (isNoScript_of_take hnoscript.2) hsock
            split
            · rename_i r' heq
              rw [heq] at hok
              exact ⟨fun _ => hok rfl, nofun, fun hne => absurd rfl hne⟩
            · rename_i rc r' hne heq
              have hrc := resendEval_rc io r
              rw [heq] at hother hrc
              refine ⟨fun heq => ?_, fun heq => absurd heq hne, fun _ _ => hother hne⟩
              rcases hrc with hrc | hrc | hrc <;> exact absurd (heq.symm.trans hrc) nofun
          · exact hfail .error nofun nofun
      · exact hfail .invalidHeader nofun nofun

/-- So `process_header` takes each answer as that of its own command. -/
theorem Waits.processHeader (ht : ∀ a ∈ t.answers, Answers a.1 a.2) (h : t.Waits r) (io : Io) :
    t.Heads (r.processHeader io) := by
  obtain ⟨hwaits, hcount⟩ := h.consumePrelude ht rfl
  have hrc := consumePrelude_rc r.preludeReplies r
  unfold RoundTrip.processHeader
  split
  · rename_i r' heq
    rw [heq] at hwaits hcount
    exact hwaits.processType ht (hcount rfl) io
  · rename_i rc r' hne heq
    rw [heq] at hwaits
    exact ⟨fun _ => hwaits, fun hrc => absurd hrc hne, fun _ _ => hwaits.fails⟩

/-! ## The body -/

/-- Only arrays are read to their end. -/
theorem exists_eq_array {p q : Parse} {w tail : Bytes} (hp : p.Fresh) {v : Resp}
    (henc : encode v = ascii '*' :: w) (h : replyLoop p w = .done q tail) :
    ∃ values, v = .array values ∧ w = encodeTail values := by
  have htype : v.typeByte = ascii '*' := by
    obtain ⟨u, hu⟩ := exists_encode_eq_cons v
    exact (List.cons.inj (hu.symm.trans henc)).1
  cases v with
  | array values =>
    rw [encode] at henc
    exact ⟨values, rfl, (List.cons.inj henc).2.symm⟩
  | nullArray =>
    rw [encode] at henc
    -- The null array has a '-' where the parser asks for the 5.
    have hw : w = ascii '-' :: text "1" ++ CRLF := (List.cons.inj henc).2.symm
    have hfail : replyStep p (ascii '-') = .fail := by
      simp only [replyStep, hp.state]
      rfl
    rw [hw] at h
    exact absurd h (not_done_of_fail hfail)
  | _ =>
    rw [typeByte] at htype
    exact absurd htype (by decide)

/-- The next bytes of the reply are given to the parser. -/
theorem processReply_parses (ht : ∀ a ∈ t.answers, Answers a.1 a.2) (hcurrent : t.Current r)
    (hread : r.readHandler = .body) (hwrite : r.writeHandler = .dummy) (hlength : r.length ≠ 0)
    (hkeep : r.keepalive = false) {p : Parse} (hp : p.Fresh)
    (hparse : replyLoop p r.fed = .again r.parse) {v : Resp} (hlast : t.Last r.evalFallback v)
    {bytes : Bytes} (henc : encode v = ascii '*' :: (r.fed ++ (bytes ++ r.sock))) :
    Parses t.Reads t.Replied t.Fails (r.processReply bytes).1 (r.processReply bytes).2 := by
  have hfed : replyLoop p (r.fed ++ bytes) = replyLoop r.parse bytes := by
    rw [replyLoop_append, hparse]
  unfold processReply
  dsimp only
  cases hloop : replyLoop r.parse bytes with
  | again q =>
    rw [← List.append_assoc] at henc
    refine ⟨fun _ => ?_, nofun, nofun⟩
    exact ⟨hcurrent.frame rfl rfl rfl rfl rfl, hread, hwrite, hlength, hkeep,
      window_advance { r with fed := r.fed ++ bytes } bytes _ le_rfl,
      ⟨p, hp, hfed.trans hloop⟩, v, hlast, henc⟩
  | error q =>
    exact ⟨nofun, nofun, fun _ => ⟨hcurrent.frame rfl rfl rfl rfl rfl, hkeep, hlast.fails⟩⟩
  | done q rest =>
    -- The parse ends with the last byte of the value, which is the last on the connection.
    have hdone : replyLoop p (r.fed ++ (bytes ++ r.sock)) = .done q (rest ++ r.sock) := by
      rw [← List.append_assoc, replyLoop_append, hfed, hloop]
    obtain ⟨values, rfl, hvalues⟩ := exists_eq_array hp henc hdone
    rw [hvalues] at hdone
    have hv : AllWellFormed values := by
      obtain ⟨done, hanswers, -⟩ := hlast.answers
      have hwell := (ht (scriptCommand t.conf t.key r.evalFallback, .array values)
        (by rw [hanswers]; simp)).1
      rw [WellFormed] at hwell
      exact hwell
    have hnothing := List.append_eq_nil_iff.mp (reply_of_done hp hv hdone).1
    have hiff := reply_iff_not_misread hp hv hdone
    refine ⟨nofun, fun _ => ?_, nofun⟩
    refine ⟨hcurrent.frame rfl rfl rfl rfl rfl, rfl, rfl, ?_, hnothing.2, _, hlast, hiff⟩
    refine window_advance { r with fed := r.fed ++ bytes } bytes _ ?_
    rw [hnothing.1]
    exact le_rfl

/-! ## The rules -/

/-- A round trip goes on waiting with its bytes at other places, and with the state of its writes
changed. -/
theorem Waits.moved (h : t.Waits r) {sock : Bytes} {buffer : Option Buf} {bufs : List Bytes}
    {handler : WriteHandler} {timer : Bool}
    (hbytes : window { r with buffer := buffer } ++ sock = r.window ++ r.sock) :
    t.Waits { r with
      sock := sock
      buffer := buffer
      requestBufs := bufs
      writeHandler := handler
      writeTimer := timer } := by
  obtain ⟨done, unread, ahead, haw⟩ := h.awaits
  exact ⟨h.current.frame rfl rfl rfl rfl rfl, h.readHandler, h.keepalive, h.parse, h.fed,
    done, unread, ahead, haw.answers, haw.consumed, haw.commands, haw.preludeReplies,
    hbytes.trans haw.bytes⟩

/-- It goes on waiting when it receives bytes. -/
theorem Waits.receive (h : t.Waits r) {x : Recv} {data : Bytes} {r₁ : RoundTrip}
    (hx : r.recv r.room x = (.bytes data, r₁)) :
    t.Waits { r₁ with buffer := r₁.buffer.map fun b : Buf => b.fill data } := by
  obtain ⟨rest, hsock, -, hlen, rfl⟩ := recv_bytes hx
  refine h.moved ?_
  calc _ = (r.window ++ data) ++ rest := congrArg (· ++ rest) (window_fill r hlen)
    _ = r.window ++ r.sock := by rw [List.append_assoc, ← hsock]

/-- The operations of a round trip keep it in step with its peer. -/
theorem sync_rules (ht : ∀ a ∈ t.answers, Answers a.1 a.2) (io : Io) :
    Rules io t.Waits t.Begins t.Reads t.Replied t.Fails where
  waiting h := ⟨h.current.attached, h.readHandler⟩
  reading h := ⟨h.current.attached, h.readHandler, h.writeHandler, h.length⟩
  replied h := ⟨h.current.attached, h.length⟩
  failed h := h.current.attached
  waiting_failed h := h.fails
  reading_failed h := by
    obtain ⟨v, hlast, -⟩ := h.reply
    exact ⟨h.current, h.keepalive, hlast.fails⟩
  -- Where the bytes are in the buffer and on the socket does not matter.
  alloc := by
    intro r h
    refine h.moved ?_
    cases hb : r.buffer <;> simp [window, hb, Buf.alloc]
  waiting_eof h := by
    have hfails := h.fails
    exact ⟨h.current.frame rfl rfl rfl rfl rfl, hfails.keepalive, hfails.commands⟩
  waiting_error h := by
    have hfails := h.fails
    exact ⟨h.current.frame rfl rfl rfl rfl rfl, hfails.keepalive, hfails.commands⟩
  header h hx := (h.receive hx).processHeader ht io
  send := by
    intro r h
    obtain ⟨bufs, handler, timer, hframe⟩ := sendLoop_frame io io.sends r
    have hwaits : t.Waits (r.sendEval io).2 := by
      rw [sendEval, hframe]
      exact h.moved rfl
    exact ⟨fun _ => hwaits, fun _ => hwaits.fails⟩
  body_failed h := by
    obtain ⟨v, hlast, -⟩ := h.reply
    exact ⟨⟨h.current.frame rfl rfl rfl rfl rfl, h.keepalive, hlast.fails⟩,
      h.current.frame rfl rfl rfl rfl rfl, h.keepalive, hlast.fails⟩
  -- The bytes behind the '*' are the first that the parser of the reply is given.
  body_bytes := by
    intro r h _
    obtain ⟨v, hlast, henc⟩ := h.reply
    refine processReply_parses (r := { enterBody r with buffer := r.buffer.map Buf.rewind }) ht
      (h.current.frame rfl rfl rfl rfl rfl) rfl rfl
      (by decide : (-1 : ℤ) ≠ 0) h.keepalive h.parse ?_ hlast ?_
    · exact congrArg (replyLoop r.parse) h.fed
    · exact henc.trans (congrArg (fun fed => ascii '*' :: (fed ++ _)) h.fed.symm)
  body_empty := by
    intro r h hwindow
    obtain ⟨v, hlast, henc⟩ := h.reply
    refine ⟨h.current.frame rfl rfl rfl rfl rfl, rfl, rfl,
      (by decide : (-1 : ℤ) ≠ 0), h.keepalive, ?_,
      ⟨r.parse, h.parse, congrArg (replyLoop r.parse) h.fed⟩, v, hlast, ?_⟩
    · cases hb : r.buffer <;> simp [window, clearBuffer, enterBody, hb, Buf.clear]
    · rw [hwindow] at henc
      exact henc.trans (congrArg (fun fed => ascii '*' :: (fed ++ _)) h.fed.symm)
  clear := by
    intro r h
    refine ⟨h.current.frame rfl rfl rfl rfl rfl, h.readHandler, h.writeHandler,
      h.length, h.keepalive, ?_, h.parse,
      h.reply⟩
    cases hb : r.buffer <;> simp [window, clearBuffer, hb, Buf.clear]
  reading_eof h := ⟨h.current.frame rfl rfl rfl rfl rfl, h.readHandler,
    h.writeHandler, h.length, h.keepalive, h.window, h.parse, h.reply⟩
  reading_error h := ⟨h.current.frame rfl rfl rfl rfl rfl, h.readHandler,
    h.writeHandler, h.length, h.keepalive, h.window, h.parse, h.reply⟩
  reply := by
    intro r r₁ x data h hx
    obtain ⟨rest, hsock, -, -, rfl⟩ := recv_bytes hx
    obtain ⟨p, hp, hparse⟩ := h.parse
    obtain ⟨v, hlast, henc⟩ := h.reply
    rw [hsock] at henc
    exact processReply_parses (r := { r with sock := rest }) ht
      (h.current.frame rfl rfl rfl rfl rfl) h.readHandler h.writeHandler h.length h.keepalive hp
      hparse hlast henc

end Traffic

end NginxRatelimit
