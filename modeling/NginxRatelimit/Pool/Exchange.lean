import NginxRatelimit.Pool.Sync

/-!
# Connections that are used again

`Conn.Inv` is the invariant of a connection through all of its uses. A request that has the
connection is in step with the peer, one that has given it to the pool has left nothing on it, and
so the next request starts like the first one. Its history says of every accepted reply which answer
it is, of every release with `u->keepalive` that nothing was outstanding, and of every script in
which session it was run.
-/

namespace NginxRatelimit

open Library Resp RoundTrip

/-- `v` is the answer to the request's own script: to its `EVALSHA`, or to its `EVAL` after the
answer to its `EVALSHA` was `NOSCRIPT`. Its other commands are answered with status lines, and these
are all answers to its commands. -/
def OwnReply (conf : LocConf) (key : Bytes) (answers : List (Command × Resp)) (v : Resp) : Prop :=
  ∃ oks, oks.map Prod.fst = buildPrelude conf ∧ Accepts oks ∧
    (answers = oks ++ [(scriptCommand conf key false, v)] ∨
      ∃ v', v'.IsNoScript ∧
        answers = oks ++ [(scriptCommand conf key false, v'), (scriptCommand conf key true, v)])

/-- The session after commands with their answers. -/
def Session.replay (s : Session) (answers : List (Command × Resp)) : Session :=
  answers.foldl (fun s a => s.exec a.1 a.2) s

/-- All commands that a request can send. -/
def allCommands (conf : LocConf) (key : Bytes) : List Command :=
  firstFrame conf key ++ [scriptCommand conf key true]

namespace Traffic

variable {t : Traffic} {r : RoundTrip}

/-- The last answer of a request is its own reply. -/
theorem Last.ownReply {evalFallback : Bool} {v : Resp} (h : t.Last evalFallback v) :
    OwnReply t.conf t.key t.answers v := by
  obtain ⟨done, hanswers, hconsumed⟩ := h.answers
  cases hconsumed with
  | first hcmds hoks => exact ⟨done, by simpa using hcmds, hoks, .inl hanswers⟩
  | fallback hcmds hoks hv =>
    refine ⟨_, hcmds, hoks, .inr ⟨_, hv, ?_⟩⟩
    rw [hanswers, List.append_assoc]
    rfl

/-- Where the body is read, the last answer is there. -/
theorem Reads.last (h : t.Reads r) : ∃ v, t.Last r.evalFallback v :=
  h.reply.imp fun _ h => h.1

/-- A request that has just got a connection without anything on it. -/
theorem waits_start (conf : LocConf) (key : Bytes) :
    Waits ⟨conf, key, [], [], firstFrame conf key, false⟩ (.start conf key) := by
  refine ⟨⟨rfl, rfl, rfl, rfl, nofun⟩, rfl, rfl, ⟨rfl, rfl, rfl, rfl, rfl⟩, rfl, [], [],
    buildPrelude conf, rfl, .first rfl (by simp [Accepts]), ?_, rfl, ?_⟩
  · simp [unanswered, pending, RoundTrip.start, firstFrame]
  · simp [window, RoundTrip.start, encodeAll]

/-- The next command of the first frame is sent. -/
theorem Waits.flush {cmd : Command} {frame : List Command} (h : t.Waits r)
    (hframe : t.frame = cmd :: frame) :
    Waits { t with queue := t.queue ++ [cmd], frame := frame } r := by
  obtain ⟨done, unread, ahead, haw⟩ := h.awaits
  refine ⟨⟨h.current.attached, h.current.exit, h.current.conf, h.current.key, h.current.evalSent⟩,
    h.readHandler, h.keepalive, h.parse, h.fed, done, unread, ahead, haw.answers, haw.consumed, ?_,
    haw.preludeReplies, haw.bytes⟩
  rw [← haw.commands]
  simp [unanswered, pending, hframe]

/-- The `EVAL` is sent. -/
theorem Waits.evalSent {t : Traffic} {r : RoundTrip} (h : t.Waits r)
    (hfallback : r.evalFallback = true) (hsent : t.evalSent = false) :
    Waits { t with queue := t.queue ++ [scriptCommand t.conf t.key true], evalSent := true } r := by
  obtain ⟨done, unread, ahead, haw⟩ := h.awaits
  have hpending : t.pending r.evalFallback = [scriptCommand t.conf t.key true] := by
    rw [pending, hfallback, hsent]
    rfl
  -- Nothing of the first frame is left, since one command alone is not consumed.
  have hframe : t.frame = [] := by
    have hconsumed := haw.consumed
    have hcommands := haw.commands
    rw [hfallback] at hconsumed
    cases hconsumed with
    | fallback =>
      have hlen := congrArg List.length hcommands
      simp only [unanswered, hpending, List.length_append, List.length_map, List.nil_append,
        List.length_singleton] at hlen
      exact List.eq_nil_of_length_eq_zero (by omega)
  refine ⟨⟨h.current.attached, h.current.exit, h.current.conf, h.current.key, fun _ => hfallback⟩,
    h.readHandler, h.keepalive, h.parse, h.fed, done, unread, ahead, haw.answers, haw.consumed, ?_,
    haw.preludeReplies, haw.bytes⟩
  rw [← haw.commands]
  simp [unanswered, hframe, pending, hfallback, hsent]

/-- The peer answers its next command. -/
theorem Waits.answer {cmd : Command} {queue : List Command} (h : t.Waits r)
    (hqueue : t.queue = cmd :: queue) (v : Resp) :
    Waits { t with answers := t.answers ++ [(cmd, v)], queue := queue }
      (r.step (.arrive (encode v))) := by
  obtain ⟨done, unread, ahead, haw⟩ := h.awaits
  rw [step_arrive h.current.attached]
  refine ⟨⟨h.current.attached, h.current.exit, h.current.conf, h.current.key, h.current.evalSent⟩,
    h.readHandler, h.keepalive, h.parse, h.fed, done, unread ++ [(cmd, v)], ahead, ?_, haw.consumed,
    ?_, haw.preludeReplies, ?_⟩
  · rw [haw.answers, List.append_assoc]
  · rw [← haw.commands]
    simp [unanswered, pending, hqueue]
  · rw [List.map_append, encodeAll_append, ← haw.bytes, List.append_assoc]
    simp [encodeAll, window]

end Traffic

namespace Conn

/-- What has passed on the connection for the request that uses it. -/
def traffic (c : Conn) (frame : List Command) (evalSent : Bool) : Traffic :=
  ⟨c.sender.conf, c.sender.key, answersOf c.answers c.sender.use, c.queue.map Sent.cmd, frame, evalSent⟩

/-- Whoever has the connection is in step with the peer. -/
def InStep (c : Conn) : Prop :=
  match c.holder with
  | .closed => True
  | .idle unread => unread = [] ∧ c.queue = []
  | .busy frame evalSent r =>
    (c.traffic frame evalSent).Waits r ∨ (c.traffic frame evalSent).Reads r

/-- What is known of an accepted reply: which answer it is, and that it was accepted last. -/
structure Accounted (c : Conn) (a : Accepted) : Prop where
  use_le : a.sender.use ≤ c.sender.use
  last : a.sender.use = c.sender.use → c.queue = [] ∧
    ∀ frame evalSent r, c.holder ≠ .busy frame evalSent r
  own : ∃ v, OwnReply a.sender.conf a.sender.key (answersOf c.answers a.sender.use) v ∧
    (v = .array a.reply.elements ↔ ¬ Misread v)

/-- What is known of a script that was run. -/
structure RunIn (x : Executed) : Prop where
  script : ¬ x.cmd.IsPrelude
  commands : x.before.map Prod.fst ++ [x.cmd] <+: allCommands x.sender.conf x.sender.key
  session : x.session = x.sender.inherited.replay x.before

/-- The invariant of a connection. -/
structure Inv (c : Conn) : Prop where
  inStep : c.InStep
  queue : ∀ e ∈ c.queue, e.sender = c.sender
  uses : ∀ a ∈ c.answers, a.use ≤ c.sender.use
  answers : ∀ a ∈ answersOf c.answers c.sender.use, Answers a.1 a.2
  commands : (answersOf c.answers c.sender.use).map Prod.fst ++ c.queue.map Sent.cmd <+:
    allCommands c.sender.conf c.sender.key
  session : c.session = c.sender.inherited.replay (answersOf c.answers c.sender.use)
  accepted : ∀ a ∈ c.accepted, c.Accounted a
  parked : ∀ p ∈ c.parked, p.queue = [] ∧ p.frame = [] ∧ p.unread = [] ∧ p.window = []
  executed : ∀ x ∈ c.executed, RunIn x

variable {c : Conn}

/-! ## What the events keep -/

/-- A failing round trip has sent some of its commands. -/
theorem commands_of_fails {frame : List Command} {evalSent : Bool} {r : RoundTrip}
    (h : (c.traffic frame evalSent).Fails r) :
    (answersOf c.answers c.sender.use).map Prod.fst ++ c.queue.map Sent.cmd <+:
      allCommands c.sender.conf c.sender.key :=
  (List.prefix_append _ _).trans h.commands

/-- A new connection has the invariant. -/
theorem inv_dial (conf : LocConf) (key : Bytes) : (dial conf key).Inv where
  inStep := .inl (Traffic.waits_start conf key)
  queue := by simp [dial]
  uses := by simp [dial]
  answers := by simp [dial, answersOf]
  commands := by simp [dial, answersOf]
  session := by simp [dial, answersOf, Session.replay]
  accepted := by simp [dial]
  parked := by simp [dial]
  executed := by simp [dial]

/-- While a round trip has the connection, its request has not got its reply. -/
theorem Accounted.use_lt {a : Accepted} (h : c.Accounted a) {frame : List Command}
    {evalSent : Bool} {r : RoundTrip} (hbusy : c.holder = .busy frame evalSent r) :
    a.sender.use < c.sender.use :=
  Nat.lt_of_le_of_ne h.use_le fun heq => (h.last heq).2 _ _ _ hbusy

/-- The commands of a request that goes on. -/
theorem commands_of_inStep {frame : List Command} {evalSent : Bool} {r : RoundTrip}
    (h : (c.traffic frame evalSent).Waits r ∨ (c.traffic frame evalSent).Reads r) :
    (answersOf c.answers c.sender.use).map Prod.fst ++ c.queue.map Sent.cmd <+:
      allCommands c.sender.conf c.sender.key := by
  rcases h with hwaits | hreads
  · exact commands_of_fails hwaits.fails
  · obtain ⟨v, hlast⟩ := hreads.last
    exact (List.prefix_append _ _).trans hlast.fails

/-- The request goes on, and may have sent more. -/
theorem Inv.goOn (h : c.Inv) {frame frame' : List Command} {evalSent evalSent' : Bool}
    {r r' : RoundTrip} (hbusy : c.holder = .busy frame evalSent r) {sent : List Sent}
    (hsent : ∀ e ∈ sent, e.sender = c.sender)
    (hin : (traffic { c with queue := c.queue ++ sent } frame' evalSent').Waits r' ∨
      (traffic { c with queue := c.queue ++ sent } frame' evalSent').Reads r') :
    Inv { c with queue := c.queue ++ sent, holder := .busy frame' evalSent' r' } := by
  refine ⟨hin, ?_, h.uses, h.answers, commands_of_inStep hin, h.session, ?_, h.parked, h.executed⟩
  · intro e he
    rcases List.mem_append.mp he with he | he
    · exact h.queue e he
    · exact hsent e he
  · intro a ha
    have hlt := (h.accepted a ha).use_lt hbusy
    exact ⟨hlt.le, fun heq => absurd heq hlt.ne, (h.accepted a ha).own⟩

/-- The next command of the first frame is sent. -/
theorem Inv.flush (h : c.Inv) {cmd : Command} {frame : List Command} {evalSent : Bool}
    {r : RoundTrip} (hbusy : c.holder = .busy (cmd :: frame) evalSent r) :
    Inv { c with queue := c.queue ++ [⟨c.sender, cmd⟩], holder := .busy frame evalSent r } := by
  have hwaits : (c.traffic (cmd :: frame) evalSent).Waits r := by
    have hstep := h.inStep
    rw [InStep, hbusy] at hstep
    refine hstep.resolve_right fun hreads => ?_
    obtain ⟨v, hlast⟩ := hreads.last
    simpa [Traffic.unanswered, traffic] using hlast.unanswered
  have htraffic : traffic { c with queue := c.queue ++ [⟨c.sender, cmd⟩] } frame evalSent =
      { c.traffic (cmd :: frame) evalSent with
        queue := c.queue.map Sent.cmd ++ [cmd], frame := frame } := by
    simp [traffic]
  refine h.goOn hbusy (by simp) (.inl ?_)
  rw [htraffic]
  exact hwaits.flush rfl

/-- Another answer is the last one of its use. -/
theorem answersOf_snoc (answers : List Answer) (a : Answer) (use : ℕ) :
    answersOf (answers ++ [a]) use =
      answersOf answers use ++ if a.use = use then [(a.cmd, a.value)] else [] := by
  by_cases h : a.use = use <;> simp [answersOf, h]

/-- The session after one more command. -/
theorem replay_append (s : Session) (answers : List (Command × Resp)) (cmd : Command) (v : Resp) :
    s.replay (answers ++ [(cmd, v)]) = (s.replay answers).exec cmd v := by
  simp [Session.replay]

/-- The peer answers its next command. -/
theorem Inv.answer (h : c.Inv) {v : Resp} {c' : Conn} (hc : c.answer v = some c') : c'.Inv := by
  unfold Conn.answer at hc
  split at hc
  · cases hc
  rename_i e queue hqueue
  by_cases hv : Answers e.cmd v
  swap
  · rw [if_neg hv] at hc
    cases hc
  rw [if_pos hv] at hc
  cases hc
  have he : e.sender = c.sender := h.queue e (by rw [hqueue]; exact List.mem_cons_self)
  have hown : answersOf (c.answers ++ [⟨e.sender.use, e.cmd, v⟩]) c.sender.use =
      answersOf c.answers c.sender.use ++ [(e.cmd, v)] := by
    rw [answersOf_snoc, he, if_pos rfl]
  have hnotEmpty : c.queue ≠ [] := by
    rw [hqueue]
    exact List.cons_ne_nil _ _
  have hcmds := h.commands
  rw [hqueue, List.map_cons] at hcmds
  refine ⟨?_, ?_, ?_, ?_, ?_, ?_, ?_, h.parked, ?_⟩
  · have hstep := h.inStep
    unfold InStep at hstep ⊢
    dsimp only
    cases hholder : c.holder with
    | closed => trivial
    | idle unread =>
      rw [hholder] at hstep
      exact absurd hstep.2 hnotEmpty
    | busy frame evalSent r =>
      rw [hholder] at hstep
      -- A request that reads its reply has no command left to be answered.
      rcases hstep with hwaits | hreads
      · have hnext : (c.traffic frame evalSent).queue = e.cmd :: queue.map Sent.cmd := by
          simp [traffic, hqueue]
        have hwaits' := hwaits.answer hnext v
        refine .inl ?_
        simp only [traffic, hown]
        exact hwaits'
      · obtain ⟨_, hlast⟩ := hreads.last
        have hnone := hlast.unanswered
        simp only [Traffic.unanswered, traffic, List.append_eq_nil_iff, List.map_eq_nil_iff] at hnone
        exact absurd hnone.1.1 hnotEmpty
  · intro e' he'
    exact h.queue e' (by rw [hqueue]; exact List.mem_cons_of_mem _ he')
  · intro a ha
    rcases List.mem_append.mp ha with ha | ha
    · exact h.uses a ha
    · rw [List.mem_singleton.mp ha, he]
  · intro a ha
    rw [hown] at ha
    rcases List.mem_append.mp ha with ha | ha
    · exact h.answers a ha
    · rw [List.mem_singleton.mp ha]
      exact hv
  · rw [hown]
    simpa using hcmds
  · rw [hown, replay_append, ← h.session]
  · -- A reply that was accepted is that of an earlier use.
    intro a ha
    have hne : a.sender.use ≠ c.sender.use := fun heq =>
      hnotEmpty ((h.accepted a ha).last heq).1
    refine ⟨(h.accepted a ha).use_le, fun heq => absurd heq hne, ?_⟩
    rw [answersOf_snoc, he, if_neg hne.symm, List.append_nil]
    exact (h.accepted a ha).own
  · intro x hx
    dsimp only at hx
    split at hx
    · exact h.executed x hx
    · rename_i hscript
      rcases List.mem_append.mp hx with hx | hx
      · exact h.executed x hx
      · rw [List.mem_singleton.mp hx, he]
        refine ⟨hscript, ?_, h.session⟩
        refine List.IsPrefix.trans ?_ hcmds
        exact ⟨queue.map Sent.cmd, by simp⟩

/-- The request gives the connection up. When it may be kept, nothing is left on it; when a reply
was accepted, it is the request's own. -/
theorem Inv.release (h : c.Inv) {frame : List Command} {evalSent : Bool} {r : RoundTrip}
    (hbusy : c.holder = .busy frame evalSent r) (r' : RoundTrip) (sent : List Sent)
    (hsent : ∀ e ∈ sent, e.sender = c.sender)
    (hcommands : (answersOf c.answers c.sender.use).map Prod.fst ++
      (c.queue ++ sent).map Sent.cmd <+: allCommands c.sender.conf c.sender.key)
    (hkeep : r'.keepalive = true →
      c.queue ++ sent = [] ∧ frame = [] ∧ r'.sock = [] ∧ r'.window = [])
    (hexit : r'.exit = some .replied → c.queue ++ sent = [] ∧
      ∃ v, OwnReply c.sender.conf c.sender.key (answersOf c.answers c.sender.use) v ∧
        (v = .array r'.parse.reply.elements ↔ ¬ Misread v)) (pool : Bool) :
    (Conn.release { c with queue := c.queue ++ sent } frame pool r').Inv := by
  refine ⟨?_, ?_, h.uses, h.answers, hcommands, h.session, ?_, ?_, h.executed⟩
  · unfold InStep Conn.release
    dsimp only
    by_cases hpool : (r'.keepalive && pool) = true
    · rw [if_pos hpool]
      have hnothing := hkeep (Bool.and_eq_true_iff.mp hpool).1
      exact ⟨hnothing.2.2.1, hnothing.1⟩
    · rw [if_neg hpool]
      trivial
  · intro e he
    rcases List.mem_append.mp he with he | he
    · exact h.queue e he
    · exact hsent e he
  · intro a ha
    -- A reply that was accepted before is accounted for as it was: its use is over.
    have hnotBusy : ∀ frame evalSent q,
        (Conn.release { c with queue := c.queue ++ sent } frame pool r').holder ≠
          .busy frame evalSent q := by
      intro _ _ _
      unfold Conn.release
      dsimp only
      split <;> exact nofun
    have hold : ∀ a ∈ c.accepted, Accounted
        (Conn.release { c with queue := c.queue ++ sent } frame pool r') a := by
      intro a ha
      have hlt := (h.accepted a ha).use_lt hbusy
      exact ⟨hlt.le, fun heq => absurd heq hlt.ne, (h.accepted a ha).own⟩
    unfold Conn.release at ha
    dsimp only at ha
    by_cases hreplied : r'.exit = some .replied
    · rw [if_pos hreplied] at ha
      -- The reply accepted now is the last answer to this use.
      rcases List.mem_append.mp ha with ha | ha
      · exact hold a ha
      · obtain ⟨hqueue, hown⟩ := hexit hreplied
        rw [List.mem_singleton.mp ha]
        exact ⟨le_rfl, fun _ => ⟨hqueue, hnotBusy⟩, hown⟩
    · rw [if_neg hreplied] at ha
      exact hold a ha
  · intro p hp
    unfold Conn.release at hp
    dsimp only at hp
    by_cases hk : r'.keepalive = true
    · rw [if_pos hk] at hp
      rcases List.mem_append.mp hp with hp | hp
      · exact h.parked p hp
      · rw [List.mem_singleton.mp hp]
        exact hkeep hk
    · rw [if_neg hk] at hp
      exact h.parked p hp

/-- The request has sent nothing, or its `EVAL`. -/
theorem evalOf_cases (c : Conn) (frame : List Command) (evalSent : Bool) {r : RoundTrip}
    (hconf : r.conf = c.sender.conf) (hkey : r.key = c.sender.key) :
    c.evalOf evalSent r = [] ∨
      (c.evalOf evalSent r = [⟨c.sender, scriptCommand c.sender.conf c.sender.key true⟩] ∧
        r.evalFallback = true ∧ evalSent = false ∧
        (c.traffic frame evalSent).pending r.evalFallback =
          [scriptCommand c.sender.conf c.sender.key true]) := by
  unfold evalOf
  split
  · rename_i hsent
    simp only [Bool.and_eq_true, Bool.not_eq_true'] at hsent
    refine .inr ⟨by rw [hconf, hkey], hsent.1.1, hsent.1.2, ?_⟩
    rw [Traffic.pending, hsent.1.1, traffic, hsent.1.2]
    rfl
  · exact .inl rfl

/-- It sends in its own name. -/
theorem evalOf_sender (c : Conn) (evalSent : Bool) (r : RoundTrip) :
    ∀ e ∈ c.evalOf evalSent r, e.sender = c.sender := by
  intro e he
  unfold evalOf at he
  split at he
  · rw [List.mem_singleton.mp he]
  · cases he

/-- When the last reply has come, nothing is to be sent and nothing to be answered. -/
theorem nothing_left {frame : List Command} {evalSent : Bool} {r : RoundTrip} {fallback : Bool}
    {v : Resp} (hlast : (c.traffic frame evalSent).Last fallback v)
    (hfallback : r.evalFallback = fallback) :
    c.evalOf evalSent r = [] ∧ c.queue = [] ∧ frame = [] := by
  have hunanswered := hlast.unanswered
  simp only [Traffic.unanswered, traffic, List.append_eq_nil_iff, List.map_eq_nil_iff]
    at hunanswered
  refine ⟨?_, hunanswered.1.1, hunanswered.1.2⟩
  have hpending := hunanswered.2
  unfold evalOf
  rw [Traffic.pending, ← hfallback] at hpending
  split
  · rename_i hall
    rw [Bool.and_eq_true] at hall
    rw [if_pos hall.1] at hpending
    cases hpending
  · rfl

/-- What an event of the round trip leads to. -/
theorem Inv.settle (h : c.Inv) {frame : List Command} {evalSent : Bool} {r r' : RoundTrip}
    (hbusy : c.holder = .busy frame evalSent r)
    (hout : Outcome (c.traffic frame evalSent).Waits (c.traffic frame evalSent).Reads
      (c.traffic frame evalSent).Replied (c.traffic frame evalSent).Fails r') (pool : Bool) :
    (c.settle frame evalSent pool r').Inv := by
  have hsent := evalOf_sender c evalSent r'
  unfold Conn.settle
  dsimp only
  cases hout with
  | waits hwaits =>
    rw [if_pos hwaits.current.attached]
    refine h.goOn hbusy hsent (.inl ?_)
    rcases evalOf_cases c frame evalSent hwaits.current.conf hwaits.current.key with
      heval | ⟨heval, hfallback, hnot, -⟩
    · rw [heval]
      simpa [traffic] using hwaits
    · have hwaits' := hwaits.evalSent hfallback hnot
      rw [heval]
      simpa [traffic, hnot] using hwaits'
  | reads hreads =>
    obtain ⟨v, hlast⟩ := hreads.last
    rw [if_pos hreads.current.attached]
    refine h.goOn hbusy hsent (.inr ?_)
    rw [(nothing_left hlast rfl).1]
    simpa [traffic] using hreads
  | replied q hq hr =>
    obtain ⟨headers, p, hframe, hparse⟩ :=
      finalizeUpstreamRequest_frame hq.current.attached .done .replied
    obtain ⟨v, hlast, hiff⟩ := hq.reply
    rw [hframe, hparse rfl] at hr
    obtain ⟨heval, hqueue, hnoframe⟩ := nothing_left (r := r') hlast (by rw [hr])
    have hempty : c.queue ++ c.evalOf evalSent r' = [] := by rw [heval, hqueue]; rfl
    rw [if_neg (by rw [hr]; exact Bool.false_ne_true)]
    refine h.release hbusy r' _ hsent ?_ (fun _ => ?_)
      (fun _ => ⟨hempty, v, hlast.ownReply, ?_⟩) pool
    · rw [hempty, ← hqueue]
      exact h.commands
    · rw [hr]
      exact ⟨hr ▸ hempty, hnoframe, hq.sock, hq.window⟩
    · rw [hr]
      exact hiff
  | fails q rc why hq hexit hr =>
    -- The connection is not kept, and no reply is accepted.
    obtain ⟨headers, p, hframe, -⟩ := finalizeUpstreamRequest_frame hq.current.attached rc why
    rw [hframe] at hr
    rw [if_neg (by rw [hr]; exact Bool.false_ne_true)]
    have hcommands := hq.commands
    refine h.release hbusy r' _ hsent ?_ (fun hkeep => ?_) (fun hreplied => ?_) pool
    · have hconf : r'.conf = c.sender.conf := by rw [hr]; exact hq.current.conf
      have hkey : r'.key = c.sender.key := by rw [hr]; exact hq.current.key
      rcases evalOf_cases c frame evalSent hconf hkey with heval | ⟨heval, -, -, hpending⟩
      · rw [heval, List.append_nil]
        exact h.commands
      · rw [hr] at hpending
        rw [hpending] at hcommands
        rw [heval, List.map_append, ← List.append_assoc]
        exact hcommands
    · rw [hr] at hkeep
      exact absurd (hq.keepalive.symm.trans hkeep) Bool.false_ne_true
    · rw [hr] at hreplied
      obtain rfl : why = .replied := Option.some.inj hreplied
      exact absurd hexit.1.symm (Option.some_ne_none _)

/-- The next request gets the pooled connection. -/
theorem Inv.reuse (h : c.Inv) {unread : Bytes} (hidle : c.holder = .idle unread) (conf : LocConf)
    (key : Bytes) :
    Inv { c with
      sender := ⟨c.sender.use + 1, conf, key, c.session⟩
      holder := .busy (firstFrame conf key) false { RoundTrip.start conf key with
        sock := unread } } := by
  -- The request before has left nothing on the connection.
  obtain ⟨hunread, hqueue⟩ : unread = [] ∧ c.queue = [] := by
    have hstep := h.inStep
    rw [InStep, hidle] at hstep
    exact hstep
  have hfresh : answersOf c.answers (c.sender.use + 1) = [] := by
    rw [answersOf, List.map_eq_nil_iff, List.filter_eq_nil_iff]
    intro a ha heq
    have hle := h.uses a ha
    rw [decide_eq_true_eq] at heq
    omega
  refine ⟨?_, ?_, ?_, ?_, ?_, ?_, ?_, h.parked, h.executed⟩
  · have hstart := Traffic.waits_start conf key
    refine .inl ?_
    simp only [traffic, hfresh, hqueue, hunread, List.map_nil]
    exact hstart
  · intro e he
    rw [hqueue] at he
    cases he
  · exact fun a ha => (h.uses a ha).trans (Nat.le_succ _)
  · intro a ha
    rw [hfresh] at ha
    cases ha
  · simp only [hfresh, hqueue, List.map_nil]
    exact List.nil_prefix
  · simp only [hfresh]
    rfl
  · intro a ha
    have hle := (h.accepted a ha).use_le
    refine ⟨hle.trans (Nat.le_succ _), fun heq => ?_, (h.accepted a ha).own⟩
    exact absurd (heq ▸ hle) (Nat.not_succ_le_self _)

/-- A request that is given up has neither set `u->keepalive` nor accepted a reply. -/
theorem Inv.abort (h : c.Inv) {frame : List Command} {evalSent : Bool} {r : RoundTrip}
    (hbusy : c.holder = .busy frame evalSent r)
    (hin : (c.traffic frame evalSent).Waits r ∨ (c.traffic frame evalSent).Reads r) (pool : Bool) :
    (c.release frame pool r).Inv := by
  obtain ⟨hkeep, hexit⟩ : r.keepalive = false ∧ r.exit = none := by
    rcases hin with hw | hr
    · exact ⟨hw.keepalive, hw.current.exit⟩
    · exact ⟨hr.keepalive, hr.current.exit⟩
  have hrelease := h.release hbusy r [] (by simp)
    (by rw [List.append_nil]; exact h.commands)
    (fun hk => absurd (hkeep.symm.trans hk) Bool.false_ne_true)
    (fun hx => absurd (hexit.symm.trans hx) (by simp)) pool
  rw [List.append_nil] at hrelease
  exact hrelease

/-- A pooled connection is closed. -/
theorem Inv.close (h : c.Inv) : Inv { c with holder := .closed } := by
  refine ⟨trivial, h.queue, h.uses, h.answers, h.commands, h.session, ?_, h.parked, h.executed⟩
  intro a ha
  refine ⟨(h.accepted a ha).use_le, fun heq => ⟨((h.accepted a ha).last heq).1, ?_⟩,
    (h.accepted a ha).own⟩
  exact fun _ _ _ => nofun

/-- Every event keeps the invariant. -/
theorem Inv.step (h : c.Inv) {e : ConnEvent} {c' : Conn} (hc : c.step e = some c') : c'.Inv := by
  have hrules : ∀ {frame evalSent r}, c.holder = .busy frame evalSent r → ∀ io,
      ((c.traffic frame evalSent).Waits r ∨ (c.traffic frame evalSent).Reads r) ∧
        Rules io (c.traffic frame evalSent).Waits (c.traffic frame evalSent).Begins
          (c.traffic frame evalSent).Reads (c.traffic frame evalSent).Replied
          (c.traffic frame evalSent).Fails := by
    intro frame evalSent r hbusy io
    have hstep := h.inStep
    rw [InStep, hbusy] at hstep
    exact ⟨hstep, Traffic.sync_rules h.answers io⟩
  -- The events of the request are those of `Rules`; the others are the connection's own.
  cases e with
  | answer v => exact h.answer hc
  | flush =>
    simp only [Conn.step] at hc
    split at hc
    · rename_i hbusy
      cases hc
      exact h.flush hbusy
    · cases hc
  | read io pool =>
    simp only [Conn.step] at hc
    split at hc
    · rename_i hbusy
      cases hc
      obtain ⟨hin, hr⟩ := hrules hbusy io
      exact h.settle hbusy (hr.read hin) pool
    · cases hc
  | write io pool =>
    simp only [Conn.step] at hc
    split at hc
    · rename_i hbusy
      cases hc
      obtain ⟨hin, hr⟩ := hrules hbusy io
      exact h.settle hbusy (hr.write hin) pool
    · cases hc
  | abort pool =>
    simp only [Conn.step] at hc
    split at hc
    · rename_i frame evalSent r hbusy
      cases hc
      exact h.abort hbusy (hrules hbusy (Io.good [] [])).1 pool
    · cases hc
  | close =>
    simp only [Conn.step] at hc
    split at hc
    · rename_i unread hidle
      cases hc
      exact h.close
    · cases hc
  | reuse conf key =>
    simp only [Conn.step] at hc
    split at hc
    · rename_i unread hidle
      cases hc
      exact h.reuse hidle conf key
    · cases hc

/-- The invariant holds of every connection after every run. -/
theorem inv_of_pool {events : List PoolEvent} {conns : List Conn} (h : pool events = some conns) :
    ∀ c ∈ conns, c.Inv :=
  Component.run_forall (C := connection) (P := Conn.Inv) (fun k => inv_dial k.1 k.2)
    (fun _ _ _ hc hs => hc.step hs) (by simp) h

end Conn

/-- On pooled connections no replies are mixed up. Whenever `u->keepalive` is set, no command of the
connection is unsent or unanswered, and no byte of an answer is unread or unconsumed. Every accepted
reply is the answer to the request's own script, and the five integers accepted are those of that
answer exactly when its fourth element is not one that is taken for -1. -/
theorem pooled_replies_own {events : List PoolEvent} {conns : List Conn}
    (h : pool events = some conns) : ∀ c ∈ conns,
      (∀ p ∈ c.parked, p.queue = [] ∧ p.frame = [] ∧ p.unread = [] ∧ p.window = []) ∧
      ∀ a ∈ c.accepted, ∃ v,
        OwnReply a.sender.conf a.sender.key (answersOf c.answers a.sender.use) v ∧
          (v = .array a.reply.elements ↔ ¬ Misread v) := by
  intro c hc
  have hinv := Conn.inv_of_pool h c hc
  exact ⟨hinv.parked, fun a ha => (hinv.accepted a ha).own⟩

/-- Two requests on one connection: the first one selects a database and falls back to `EVAL`, the
reply of the second one arrives in two reads. -/
def twoRequests : List PoolEvent :=
  [.start ({ LocConf.ofZone ⟨.gcra, 5, 60, 0, ⟨[], []⟩⟩ fun _ => ⟨[], []⟩ with database := 5 },
      text "a"),
    .on 0 .flush, .on 0 .flush,
    .on 0 (.answer (.simple (text "OK"))), .on 0 (.answer (.error (text "NOSCRIPT"))),
    .on 0 (.read (Io.good [.data 4096] [.sent 10, .again]) true),
    .on 0 (.write (Io.good [] [.sent 4096]) true),
    .on 0 (.answer (.array [.int 0, .int 5, .int 4, .int (-1), .int 60])),
    .on 0 (.read (Io.good [.data 4096] []) true),
    .on 0 (.reuse (LocConf.ofZone ⟨.gcra, 5, 60, 0, ⟨[], []⟩⟩ fun _ => ⟨[], []⟩) (text "b")),
    .on 0 .flush,
    .on 0 (.answer (.array [.int 1, .int 5, .int 0, .int 12, .int 60])),
    .on 0 (.read (Io.good [.data 7] []) true), .on 0 (.read (Io.good [.data 4096] []) true)]

/-- Two requests on one connection, the second of which is rejected: both have got their own
replies. -/
theorem pooled_replies_own_two_requests : ∃ conns, pool twoRequests = some conns ∧
    conns.map (fun c => c.accepted.map Accepted.reply) =
      [[⟨0, 5, 4, -1, 60⟩, ⟨1, 5, 0, 12, 60⟩]] ∧
    ∀ c ∈ conns, ∀ a ∈ c.accepted, ∃ v,
      OwnReply a.sender.conf a.sender.key (answersOf c.answers a.sender.use) v ∧
        (v = .array a.reply.elements ↔ ¬ Misread v) := by
  have hrun : (pool twoRequests).map
      (fun conns => conns.map fun c => c.accepted.map Accepted.reply) =
        some [[⟨0, 5, 4, -1, 60⟩, ⟨1, 5, 0, 12, 60⟩]] := by
    decide +kernel
  obtain ⟨conns, hconns, hreplies⟩ := Option.map_eq_some_iff.mp hrun
  exact ⟨conns, hconns, hreplies, fun c hc => (pooled_replies_own hconns c hc).2⟩

/-- The answer to the request's script is one of its answers. -/
theorem OwnReply.mem {conf : LocConf} {key : Bytes} {answers : List (Command × Resp)} {v : Resp}
    (h : OwnReply conf key answers v) : v ∈ answers.map Prod.snd := by
  obtain ⟨oks, -, -, rfl | ⟨v', -, rfl⟩⟩ := h <;> simp

/-- A reply with -11 in the fourth place is accepted as one with -1. -/
theorem minus_eleven_accepted_as_minus_one : ∃ c a,
    pool [.start (LocConf.ofZone ⟨.gcra, 5, 60, 0, ⟨[], []⟩⟩ fun _ => ⟨[], []⟩, text "a"),
      .on 0 .flush, .on 0 (.answer (.array [.int 0, .int 5, .int 4, .int (-11), .int 2])),
      .on 0 (.read (Io.good [.data 4096] []) true)] = some [c] ∧
    c.accepted = [a] ∧ a.reply = ⟨0, 5, 4, -1, 2⟩ ∧
    ¬ ∃ v, OwnReply a.sender.conf a.sender.key (answersOf c.answers a.sender.use) v ∧
      v = .array a.reply.elements := by
  have hrun : ∃ c a,
      pool [.start (LocConf.ofZone ⟨.gcra, 5, 60, 0, ⟨[], []⟩⟩ fun _ => ⟨[], []⟩, text "a"),
        .on 0 .flush, .on 0 (.answer (.array [.int 0, .int 5, .int 4, .int (-11), .int 2])),
        .on 0 (.read (Io.good [.data 4096] []) true)] = some [c] ∧
      c.accepted = [a] ∧ a.reply = ⟨0, 5, 4, -1, 2⟩ ∧
      (answersOf c.answers a.sender.use).map Prod.snd =
        [.array [.int 0, .int 5, .int 4, .int (-11), .int 2]] := ⟨_, _, rfl, rfl, rfl, rfl⟩
  obtain ⟨c, a, hpool, haccepted, hreply, hanswers⟩ := hrun
  refine ⟨c, a, hpool, haccepted, hreply, ?_⟩
  rintro ⟨v, hown, rfl⟩
  have hmem := hown.mem
  rw [hanswers, hreply, List.mem_singleton] at hmem
  simp [Reply.elements] at hmem

end NginxRatelimit
