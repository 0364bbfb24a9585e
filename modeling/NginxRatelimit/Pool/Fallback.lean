import NginxRatelimit.Pool.Exchange

/-!
# The fallback to `EVAL`

A request sends its script a second time, with `EVAL`, only when its `EVALSHA` was answered with
`NOSCRIPT`. `fallback_rules` proves it of a round trip by the rule for round trips, with what the
peer has answered in hand, and `Conn.tries_of_pool` of all uses of all connections. So at most one
of the scripts that a request sends can have run.
-/

namespace NginxRatelimit

open Library Resp RoundTrip

/-- The request's `EVALSHA` was answered with `NOSCRIPT`. -/
def Refusal (conf : LocConf) (key : Bytes) (answers : List (Command × Resp)) : Prop :=
  ∃ v, (scriptCommand conf key false, v) ∈ answers ∧ v.IsNoScript

/-- An answer stays among the answers. -/
theorem Refusal.mono {conf : LocConf} {key : Bytes} {answers : List (Command × Resp)}
    (h : Refusal conf key answers) (more : List (Command × Resp)) :
    Refusal conf key (answers ++ more) := by
  obtain ⟨v, hmem, hv⟩ := h
  exact ⟨v, List.mem_append_left _ hmem, hv⟩

namespace Traffic

variable {t : Traffic} {r : RoundTrip}

/-- The `EVALSHA` was answered with `NOSCRIPT`. -/
def Refused (t : Traffic) : Prop := Refusal t.conf t.key t.answers

/-- The latch is set only then. -/
def Justified (t : Traffic) (r : RoundTrip) : Prop := r.evalFallback = true → t.Refused

/-- It depends on the latch only. -/
theorem Justified.frame (h : t.Justified r) {r' : RoundTrip}
    (hfallback : r'.evalFallback = r.evalFallback) : t.Justified r' :=
  fun hlatch => h (hfallback ▸ hlatch)

/-- Where answers are consumed with the latch set, one of them was `NOSCRIPT`. -/
theorem refused_of_consumed {done rest : List (Command × Resp)} {ahead : List Command}
    (hanswers : t.answers = done ++ rest) (h : Consumed t.conf t.key done ahead true) :
    t.Refused := by
  cases h with
  | fallback hcmds hoks hv =>
    refine ⟨_, ?_, hv⟩
    rw [hanswers]
    simp

/-- The latch is justified while the header is awaited. -/
theorem Waits.justified (h : t.Waits r) : t.Justified r := by
  intro hlatch
  obtain ⟨done, unread, ahead, haw⟩ := h.awaits
  exact refused_of_consumed haw.answers (hlatch ▸ haw.consumed)

/-- It is when the last answer is there. -/
theorem Last.justified {v : Resp} (h : t.Last r.evalFallback v) : t.Justified r := by
  intro hlatch
  obtain ⟨done, hanswers, hconsumed⟩ := h.answers
  exact refused_of_consumed hanswers (hlatch ▸ hconsumed)

/-- So it is where the body begins. -/
theorem Begins.justified (h : t.Begins r) : t.Justified r := by
  obtain ⟨v, hlast, -⟩ := h.reply
  exact hlast.justified

/-- And while it is read. -/
theorem Reads.justified (h : t.Reads r) : t.Justified r := by
  obtain ⟨v, hlast⟩ := h.last
  exact hlast.justified

/-- Reading a reply does not touch the latch. -/
theorem processReply_evalFallback (r : RoundTrip) (bytes : Bytes) :
    (r.processReply bytes).2.evalFallback = r.evalFallback := by
  unfold processReply
  dsimp only
  split <;> rfl

/-- `process_header` sets the latch when it has read a `NOSCRIPT`, which is the peer's answer. -/
theorem Waits.processHeader_justified (ht : ∀ a ∈ t.answers, Answers a.1 a.2) (h : t.Waits r)
    (io : Io) : t.Justified (r.processHeader io).2 := by
  obtain ⟨hwaits, hcount⟩ := h.consumePrelude ht rfl
  unfold RoundTrip.processHeader
  split
  · rename_i q heq
    rw [heq] at hwaits hcount
    unfold RoundTrip.processType
    split
    · exact hwaits.justified
    · rename_i chr rest hwindow
      split
      · exact hwaits.justified.frame rfl
      · split
        · rename_i hminus
          split
          · exact hwaits.justified
          · rename_i hLF
            split
            · -- The bytes of the line are those of the last answer.
              rename_i hnoscript
              obtain ⟨done, unread, ahead, haw⟩ := hwaits.awaits
              obtain ⟨v, hlast, hmem, henc⟩ :=
                haw.last (hcount rfl) (by rw [hwindow]; exact List.cons_ne_nil _ _)
              rw [hwindow, List.cons_append, hminus] at henc
              obtain ⟨-, line, rfl, hline⟩ := sock_eq_nil (ht _ hmem).1 henc (not_not.mp hLF)
              rw [Bool.and_eq_true, decide_eq_true_eq, hline, Bool.not_eq_true'] at hnoscript
              have hrefused : t.Refused := by
                refine ⟨.error line, ?_, isNoScript_of_take hnoscript.2⟩
                rw [hnoscript.1] at hmem
                exact hmem
              split <;> exact fun _ => hrefused
            · exact hwaits.justified
        · exact hwaits.justified
  · rename_i rc q hne heq
    rw [heq] at hwaits
    exact hwaits.justified

/-- The operations of a round trip set the latch only after `NOSCRIPT`. -/
theorem fallback_rules (ht : ∀ a ∈ t.answers, Answers a.1 a.2) (io : Io) :
    Rules io t.Waits t.Begins t.Reads t.Replied fun r => t.Fails r ∧ t.Justified r :=
  have rules := sync_rules ht io
  have hparses : ∀ {q : RoundTrip} {bytes : Bytes}, t.Justified q →
      Parses t.Reads t.Replied t.Fails (q.processReply bytes).1 (q.processReply bytes).2 →
      Parses t.Reads t.Replied (fun r => t.Fails r ∧ t.Justified r) (q.processReply bytes).1
        (q.processReply bytes).2 :=
    fun hq hparse => ⟨hparse.1, hparse.2.1, fun hrc =>
      ⟨hparse.2.2 hrc, hq.frame (processReply_evalFallback _ _)⟩⟩
  { waiting := rules.waiting
    reading := rules.reading
    replied := rules.replied
    failed := fun h => rules.failed h.1
    waiting_failed := fun h => ⟨rules.waiting_failed h, h.justified⟩
    reading_failed := fun h => ⟨rules.reading_failed h, h.justified⟩
    alloc := rules.alloc
    waiting_eof := fun h => ⟨rules.waiting_eof h, h.justified.frame rfl⟩
    waiting_error := fun h => ⟨rules.waiting_error h, h.justified.frame rfl⟩
    header := by
      intro r r₁ x data h hx
      obtain ⟨hagain, hok, hother⟩ := rules.header h hx
      obtain ⟨rest, hsock, -, hlen, rfl⟩ := recv_bytes hx
      refine ⟨hagain, hok, fun h1 h2 => ⟨hother h1 h2, ?_⟩⟩
      refine Waits.processHeader_justified (r := { r with
        sock := rest, buffer := r.buffer.map fun b : Buf => b.fill data }) ht (h.moved ?_) io
      calc _ = (r.window ++ data) ++ rest := congrArg (· ++ rest) (window_fill r hlen)
        _ = r.window ++ r.sock := by rw [List.append_assoc, ← hsock]
    send := by
      intro r h
      obtain ⟨hok, hother⟩ := rules.send h
      obtain ⟨bufs, handler, timer, hframe⟩ := sendLoop_frame io io.sends r
      refine ⟨hok, fun hrc => ⟨hother hrc, h.justified.frame ?_⟩⟩
      rw [sendEval, hframe]
    body_failed := fun h => ⟨⟨(rules.body_failed h).1, h.justified.frame rfl⟩,
      (rules.body_failed h).2, h.justified.frame rfl⟩
    body_bytes := fun h hwindow => hparses (h.justified.frame rfl) (rules.body_bytes h hwindow)
    body_empty := rules.body_empty
    clear := rules.clear
    reading_eof := rules.reading_eof
    reading_error := rules.reading_error
    reply := by
      intro r r₁ x data h hx
      obtain ⟨rest, -, -, -, rfl⟩ := recv_bytes hx
      exact hparses (h.justified.frame rfl) (rules.reply h hx) }

/-- So whatever an event leaves has set it only then. -/
theorem justified_of_outcome
    (h : Outcome t.Waits t.Reads t.Replied (fun r => t.Fails r ∧ t.Justified r) r) :
    t.Justified r := by
  cases h with
  | waits h => exact h.justified
  | reads h => exact h.justified
  | replied q h hr =>
    obtain ⟨headers, p, hframe, -⟩ :=
      finalizeUpstreamRequest_frame h.current.attached .done .replied
    obtain ⟨v, hlast, -⟩ := h.reply
    rw [hr, hframe]
    exact hlast.justified.frame rfl
  | fails q rc why h hexit hr =>
    obtain ⟨headers, p, hframe, -⟩ := finalizeUpstreamRequest_frame h.1.current.attached rc why
    rw [hr, hframe]
    exact h.2.frame rfl

end Traffic

/-! ## All uses of a connection -/

/-- The answers to a request: to the first of its commands, and to its `EVAL` only after
`NOSCRIPT`. -/
structure TriedOnce (conf : LocConf) (key : Bytes) (answers : List (Command × Resp)) : Prop where
  commands : answers.map Prod.fst <+: allCommands conf key
  refused : scriptCommand conf key true ∈ answers.map Prod.fst → Refusal conf key answers

/-- Of these, at most one script was not refused. -/
theorem TriedOnce.countP_le {conf : LocConf} {key : Bytes} {answers : List (Command × Resp)}
    (h : TriedOnce conf key answers) :
    answers.countP (fun a => !a.1.IsPrelude && !a.2.IsNoScript) ≤ 1 := by
  have hprelude : (buildPrelude conf).countP (fun cmd => !decide cmd.IsPrelude) = 0 := by
    rw [List.countP_eq_zero]
    exact fun cmd hcmd => by simpa using isPrelude_of_mem hcmd
  have hscript : ∀ fallback, (!decide (scriptCommand conf key fallback).IsPrelude) = true := by
    intro fallback
    cases fallback <;> rfl
  have hframe : (firstFrame conf key).countP (fun cmd => !decide cmd.IsPrelude) = 1 := by
    rw [firstFrame, List.countP_append, hprelude, List.countP_singleton, if_pos (hscript false)]
  have hscripts : answers.countP (fun a => !decide a.1.IsPrelude) =
      (answers.map Prod.fst).countP fun cmd => !decide cmd.IsPrelude := by
    rw [List.countP_map]
    rfl
  rcases List.prefix_concat_iff.mp h.commands with hall | hfirst
  · -- Both scripts are answered, the first one with `NOSCRIPT`.
    obtain ⟨v, hmem, hv⟩ := h.refused (by rw [hall]; simp)
    have hboth : answers.countP (fun a => !decide a.1.IsPrelude) = 2 := by
      rw [hscripts, hall, List.countP_append, hframe, List.countP_singleton, if_pos (hscript true)]
    have hone : 0 < (answers.filter fun a => decide a.2.IsNoScript).countP
        (fun a => !decide a.1.IsPrelude) :=
      List.countP_pos_iff.mpr ⟨_, List.mem_filter.mpr ⟨hmem, by simpa using hv⟩, hscript false⟩
    have hsplit := List.countP_eq_countP_filter_add answers (fun a => !decide a.1.IsPrelude)
      fun a => decide a.2.IsNoScript
    have hrest : (answers.filter fun a => !decide a.2.IsNoScript).countP
        (fun a => !decide a.1.IsPrelude) =
          answers.countP fun a => !decide a.1.IsPrelude && !decide a.2.IsNoScript :=
      List.countP_filter
    omega
  · have hle := hfirst.sublist.countP_le (p := fun cmd => !decide cmd.IsPrelude)
    rw [hframe, ← hscripts] at hle
    refine (List.countP_mono_left fun a _ ha => ?_).trans hle
    exact (Bool.and_eq_true_iff.mp ha).1

namespace Conn

/-- The requests of a connection fall back only after `NOSCRIPT`. -/
structure Tries (c : Conn) : Prop where
  frame : ∀ frame evalSent r, c.holder = .busy frame evalSent r →
    ∀ cmd ∈ frame, cmd ∈ firstFrame c.sender.conf c.sender.key
  queued : scriptCommand c.sender.conf c.sender.key true ∈ c.queue.map Sent.cmd →
    Refusal c.sender.conf c.sender.key (answersOf c.answers c.sender.use)
  current : TriedOnce c.sender.conf c.sender.key (answersOf c.answers c.sender.use)
  past : ∀ use, ∃ conf key, TriedOnce conf key (answersOf c.answers use)

variable {c : Conn}

/-- The `EVAL` is not in the first frame. -/
theorem eval_notMem_firstFrame (conf : LocConf) (key : Bytes) :
    scriptCommand conf key true ∉ firstFrame conf key := by
  rw [firstFrame, List.mem_append, List.mem_singleton, not_or]
  refine ⟨fun h => absurd (isPrelude_of_mem h) id, fun h => ?_⟩
  simp only [scriptCommand] at h
  cases h

/-- A request without answers has tried nothing yet. -/
theorem triedOnce_nil (conf : LocConf) (key : Bytes) : TriedOnce conf key [] :=
  ⟨List.nil_prefix, nofun⟩

/-- A new connection has the invariant. -/
theorem tries_dial (conf : LocConf) (key : Bytes) : (dial conf key).Tries where
  frame := by
    rintro frame evalSent r hbusy cmd hcmd
    obtain rfl : firstFrame conf key = frame := (Holder.busy.inj hbusy).1
    exact hcmd
  queued := nofun
  current := triedOnce_nil conf key
  past := fun _ => ⟨conf, key, triedOnce_nil conf key⟩

/-- An event of nginx for the request that has the connection. -/
theorem Tries.of_eq (h : c.Tries) {c' : Conn} (hsender : c'.sender = c.sender)
    (hanswers : c'.answers = c.answers)
    (hframe : ∀ frame evalSent r, c'.holder = .busy frame evalSent r →
      ∀ cmd ∈ frame, cmd ∈ firstFrame c.sender.conf c.sender.key)
    (hqueued : scriptCommand c.sender.conf c.sender.key true ∈ c'.queue.map Sent.cmd →
      Refusal c.sender.conf c.sender.key (answersOf c.answers c.sender.use)) : c'.Tries := by
  refine ⟨?_, ?_, ?_, ?_⟩
  · rw [hsender]
    exact hframe
  · rw [hsender, hanswers]
    exact hqueued
  · rw [hsender, hanswers]
    exact h.current
  · rw [hanswers]
    exact h.past

/-- A released connection has no round trip. -/
theorem release_ne_busy (c : Conn) (frame : List Command) (pool : Bool) (r : RoundTrip)
    (frame' : List Command) (evalSent : Bool) (q : RoundTrip) :
    (c.release frame pool r).holder ≠ .busy frame' evalSent q := by
  unfold release
  dsimp only
  split <;> exact nofun

/-- A read or write event. -/
theorem Tries.settle (h : c.Tries) {frame : List Command} {evalSent : Bool} {r r' : RoundTrip}
    (hbusy : c.holder = .busy frame evalSent r)
    (hjustified : (c.traffic frame evalSent).Justified r') (pool : Bool) :
    (c.settle frame evalSent pool r').Tries := by
  have hqueued : scriptCommand c.sender.conf c.sender.key true ∈
      (c.queue ++ c.evalOf evalSent r').map Sent.cmd →
        Refusal c.sender.conf c.sender.key (answersOf c.answers c.sender.use) := by
    intro hmem
    rw [List.map_append, List.mem_append] at hmem
    rcases hmem with hmem | hmem
    · exact h.queued hmem
    · -- What is sent now is sent because the latch is set.
      unfold evalOf at hmem
      split at hmem
      · rename_i hsent
        rw [Bool.and_eq_true, Bool.and_eq_true] at hsent
        exact hjustified hsent.1.1
      · cases hmem
  unfold Conn.settle
  dsimp only
  split
  · refine h.of_eq rfl rfl ?_ hqueued
    intro frame' evalSent' q heq cmd hcmd
    obtain rfl : frame = frame' := (Holder.busy.inj heq).1
    exact h.frame _ _ _ hbusy cmd hcmd
  · refine h.of_eq rfl rfl ?_ hqueued
    exact fun frame' evalSent' q heq => absurd heq (release_ne_busy _ _ _ _ _ _ _)

/-- The peer answers the next command. -/
theorem Tries.answer (h : c.Tries) (hinv : c.Inv) {v : Resp} {c' : Conn}
    (hc : c.answer v = some c') : c'.Tries := by
  have hinv' := hinv.answer hc
  unfold Conn.answer at hc
  split at hc
  · cases hc
  rename_i e queue hqueue
  by_cases hv : Answers e.cmd v
  swap
  · rw [if_neg hv] at hc
    cases hc
  rw [if_pos hv] at hc
  have he : e.sender = c.sender := hinv.queue e (by rw [hqueue]; exact List.mem_cons_self)
  have hown : answersOf (c.answers ++ [⟨e.sender.use, e.cmd, v⟩]) c.sender.use =
      answersOf c.answers c.sender.use ++ [(e.cmd, v)] := by
    rw [answersOf_snoc, he, if_pos rfl]
  have hother : ∀ use, use ≠ c.sender.use →
      answersOf (c.answers ++ [⟨e.sender.use, e.cmd, v⟩]) use = answersOf c.answers use := by
    intro use hne
    rw [answersOf_snoc, he, if_neg (Ne.symm hne), List.append_nil]
  have hqueued := h.queued
  rw [hqueue, List.map_cons] at hqueued
  cases hc
  have hcurrent : TriedOnce c.sender.conf c.sender.key
      (answersOf c.answers c.sender.use ++ [(e.cmd, v)]) := by
    refine ⟨?_, fun hmem => ?_⟩
    · rw [← hown]
      exact (List.prefix_append _ _).trans hinv'.commands
    · rw [List.map_append, List.mem_append] at hmem
      rcases hmem with hmem | hmem
      · exact (h.current.refused hmem).mono _
      · rw [List.map_singleton, List.mem_singleton] at hmem
        exact (hqueued (by rw [hmem]; exact List.mem_cons_self)).mono _
  refine ⟨?_, ?_, ?_, ?_⟩
  · intro frame evalSent r heq cmd hcmd
    dsimp only at heq
    cases hholder : c.holder with
    | busy frame' evalSent' q =>
      rw [hholder] at heq
      obtain rfl : frame' = frame := (Holder.busy.inj heq).1
      exact h.frame _ _ _ hholder cmd hcmd
    | closed =>
      rw [hholder] at heq
      cases heq
    | idle unread =>
      rw [hholder] at heq
      cases heq
  · intro hmem
    dsimp only at hmem ⊢
    rw [hown]
    exact (hqueued (List.mem_cons_of_mem _ hmem)).mono _
  · dsimp only
    rw [hown]
    exact hcurrent
  · intro use
    dsimp only
    by_cases huse : use = c.sender.use
    · rw [huse, hown]
      exact ⟨_, _, hcurrent⟩
    · rw [hother use huse]
      exact h.past use

/-- The next request gets the pooled connection. -/
theorem Tries.reuse (h : c.Tries) (hinv : c.Inv) {unread : Bytes} (hidle : c.holder = .idle unread)
    (conf : LocConf) (key : Bytes) :
    Tries { c with
      sender := ⟨c.sender.use + 1, conf, key, c.session⟩
      holder := .busy (firstFrame conf key) false { RoundTrip.start conf key with
        sock := unread } } := by
  have hqueue : c.queue = [] := by
    have hstep := hinv.inStep
    rw [InStep, hidle] at hstep
    exact hstep.2
  have hfresh : answersOf c.answers (c.sender.use + 1) = [] := by
    rw [answersOf, List.map_eq_nil_iff, List.filter_eq_nil_iff]
    intro a ha heq
    have hle := hinv.uses a ha
    rw [decide_eq_true_eq] at heq
    omega
  refine ⟨?_, ?_, ?_, h.past⟩
  · intro frame evalSent r heq cmd hcmd
    obtain rfl : firstFrame conf key = frame := (Holder.busy.inj heq).1
    exact hcmd
  · intro hmem
    rw [hqueue] at hmem
    cases hmem
  · dsimp only
    rw [hfresh]
    exact triedOnce_nil conf key

/-- Every event keeps this. -/
theorem Tries.step (h : c.Tries) (hinv : c.Inv) {e : ConnEvent} {c' : Conn}
    (hc : c.step e = some c') : c'.Tries := by
  have hrules : ∀ {frame evalSent r}, c.holder = .busy frame evalSent r → ∀ io,
      ((c.traffic frame evalSent).Waits r ∨ (c.traffic frame evalSent).Reads r) ∧
        Rules io (c.traffic frame evalSent).Waits (c.traffic frame evalSent).Begins
          (c.traffic frame evalSent).Reads (c.traffic frame evalSent).Replied
          fun r => (c.traffic frame evalSent).Fails r ∧ (c.traffic frame evalSent).Justified r := by
    intro frame evalSent r hbusy io
    have hstep := hinv.inStep
    rw [InStep, hbusy] at hstep
    exact ⟨hstep, Traffic.fallback_rules hinv.answers io⟩
  cases e with
  | answer v => exact h.answer hinv hc
  | flush =>
    simp only [Conn.step] at hc
    split at hc
    · rename_i cmd frame evalSent r hbusy
      cases hc
      have hframe := h.frame _ _ _ hbusy
      refine h.of_eq rfl rfl ?_ ?_
      · intro frame' evalSent' q heq cmd' hcmd
        obtain rfl : frame = frame' := (Holder.busy.inj heq).1
        exact hframe cmd' (List.mem_cons_of_mem _ hcmd)
      · intro hmem
        dsimp only at hmem
        rw [List.map_append, List.mem_append, List.map_singleton, List.mem_singleton] at hmem
        rcases hmem with hmem | hmem
        · exact h.queued hmem
        · have heval : scriptCommand c.sender.conf c.sender.key true = cmd := hmem
          rw [← heval] at hframe
          exact absurd (hframe _ List.mem_cons_self) (eval_notMem_firstFrame _ _)
    · cases hc
  | read io pool =>
    simp only [Conn.step] at hc
    split at hc
    · rename_i hbusy
      cases hc
      obtain ⟨hin, hr⟩ := hrules hbusy io
      exact h.settle hbusy (Traffic.justified_of_outcome (hr.read hin)) pool
    · cases hc
  | write io pool =>
    simp only [Conn.step] at hc
    split at hc
    · rename_i hbusy
      cases hc
      obtain ⟨hin, hr⟩ := hrules hbusy io
      exact h.settle hbusy (Traffic.justified_of_outcome (hr.write hin)) pool
    · cases hc
  | abort pool =>
    simp only [Conn.step] at hc
    split at hc
    · cases hc
      exact h.of_eq rfl rfl (fun _ _ _ heq => absurd heq (release_ne_busy _ _ _ _ _ _ _)) h.queued
    · cases hc
  | close =>
    simp only [Conn.step] at hc
    split at hc
    · cases hc
      exact h.of_eq rfl rfl (fun _ _ _ heq => by cases heq) h.queued
    · cases hc
  | reuse conf key =>
    simp only [Conn.step] at hc
    split at hc
    · rename_i unread hidle
      cases hc
      exact h.reuse hinv hidle conf key
    · cases hc

/-- It holds of every connection after every run. -/
theorem tries_of_pool {events : List PoolEvent} {conns : List Conn} (h : pool events = some conns) :
    ∀ c ∈ conns, c.Tries := by
  have hboth : ∀ c ∈ conns, c.Inv ∧ c.Tries :=
    Component.run_forall (C := connection) (P := fun c => c.Inv ∧ c.Tries)
      (fun k => ⟨inv_dial k.1 k.2, tries_dial k.1 k.2⟩)
      (fun _ _ _ hc hs => ⟨hc.1.step hs, hc.2.step hc.1 hs⟩) (by simp) h
  exact fun c hc => (hboth c hc).2

end Conn

end NginxRatelimit
