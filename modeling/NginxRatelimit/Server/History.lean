import NginxRatelimit.Library.Backlog
import NginxRatelimit.Pool.Isolation
import NginxRatelimit.Server.World

/-!
# What the history says

The invariants of the system. `Conn.Told` is what the history says of one connection: whose answers
it has got, and what its round trips have come to. `Server.Ran` is what it says of one command, and
`Machine.Replays` of one key: as long as no other client writes it, the key is what the scripts that
ran on it have left, one after the other, from nothing.
-/

namespace NginxRatelimit

open Library Resp RoundTrip

/-- A command that was executed, as the connection sees it. -/
def Served.answer (x : Served) : Answer := ⟨x.sender.use, x.cmd, x.reply⟩

/-! ## One connection -/

namespace Conn

/-- What the history says of a connection. -/
structure Told (c : Conn) (served : List Served) (done : List Done) : Prop where
  inv : c.Inv
  trip : ∀ r, c.trip = some r → Waiting r ∨ Reading r
  answers : c.answers = served.map Served.answer
  sender : ∀ x ∈ served, x.sender.use = c.sender.use → x.sender = c.sender
  place : ∀ pre x post, served = pre ++ x :: post → ∀ y, x.run = some y →
    y.place.database =
      (x.sender.inherited.replay (answersOf (pre.map Served.answer) x.sender.use)).database
  doneUse : ∀ d ∈ done, d.sender.use ≤ c.sender.use
  doneSender : ∀ d ∈ done, d.sender.use = c.sender.use → d.sender = c.sender ∧ c.trip = none
  owner : ∀ d ∈ done, ∀ x ∈ served, x.sender.use = d.sender.use → x.sender = d.sender
  once : (done.map fun d => d.sender.use).Nodup
  ended : ∀ d ∈ done, Ended d.trip
  accepted : ∀ d ∈ done, d.trip.exit = some .replied →
    ⟨d.sender, d.trip.parse.reply⟩ ∈ c.accepted

variable {c : Conn} {served : List Served} {done : List Done}

/-- A connection in use has a round trip. -/
theorem trip_of_busy {frame : List Command} {evalSent : Bool} {r : RoundTrip}
    (h : c.holder = .busy frame evalSent r) : c.trip = some r := by
  rw [trip, h]

/-- Nobody has the connection after a release. -/
@[simp] theorem trip_release (c : Conn) (frame : List Command) (pool : Bool) (r : RoundTrip) :
    (c.release frame pool r).trip = none := by
  unfold release trip
  dsimp only
  split <;> first | rfl | (rename_i h; split at h <;> cases h)

/-- A release keeps the replies that were accepted before. -/
theorem mem_accepted_release {a : Accepted} (h : a ∈ c.accepted) (frame : List Command)
    (pool : Bool) (r : RoundTrip) : a ∈ (c.release frame pool r).accepted := by
  unfold release
  dsimp only
  split
  · exact List.mem_append_left _ h
  · exact h

/-- A round trip starts waiting, whatever lies on the socket. -/
theorem waiting_start (conf : LocConf) (key unread : Bytes) :
    Waiting { RoundTrip.start conf key with sock := unread } :=
  ⟨rfl, rfl, rfl, rfl, rfl, rfl⟩

/-- A new connection has nothing to tell. -/
theorem told_dial (conf : LocConf) (key : Bytes) : (dial conf key).Told [] [] where
  inv := inv_dial conf key
  trip := by
    intro r hr
    exact .inl (Option.some.inj hr ▸ waiting_start conf key [])
  answers := rfl
  sender := by simp
  place := by simp
  doneUse := by simp
  doneSender := by simp
  owner := by simp
  once := by simp
  ended := by simp
  accepted := by simp

/-- The last use of a connection that has a round trip is not done. -/
theorem Told.use_lt (h : c.Told served done) {r : RoundTrip} (hr : c.trip = some r) :
    ∀ d ∈ done, d.sender.use < c.sender.use := by
  intro d hd
  refine Nat.lt_of_le_of_ne (h.doneUse d hd) fun heq => ?_
  exact absurd (hr.symm.trans (h.doneSender d hd heq).2) nofun

/-- A round trip that goes on after an event waits or reads. -/
theorem Told.trip_step (h : c.Told served done) {r : RoundTrip} (hr : c.trip = some r)
    (event : Event) (hattached : (r.step event).attached = true) :
    Waiting (r.step event) ∨ Reading (r.step event) := by
  have hin : RoundTrip.Inv r := (h.trip r hr).imp_right .inl
  rcases verdict_runRules.step hin event with hw | hr | he
  · exact .inl hw
  · exact .inr hr
  · exact absurd (he.1.symm.trans hattached) Bool.false_ne_true

/-- One that does not has ended. -/
theorem Told.ended_step (h : c.Told served done) {r : RoundTrip} (hr : c.trip = some r)
    (event : Event) (hdetached : (r.step event).attached = false) : Ended (r.step event) := by
  have hin : RoundTrip.Inv r := (h.trip r hr).imp_right .inl
  rcases verdict_runRules.step hin event with hw | hr | he
  · exact absurd (hdetached.symm.trans hw.attached) Bool.false_ne_true
  · exact absurd (hdetached.symm.trans hr.attached) Bool.false_ne_true
  · exact he

/-- An event of nginx. -/
theorem Told.moved (h : c.Told served done) {e : ConnEvent} {c' : Conn} (hmoved : c.Moved e c')
    (hinv : c'.Inv) (i : ℕ) :
    c'.Told served (done ++ (c.finished e).toList.map (⟨i, c.sender, ·⟩)) := by
  cases hmoved with
  | @goesOn frame frame' evalSent evalSent' r r' sent hbusy hstep hnone =>
    have htrip := trip_of_busy hbusy
    rw [hnone, Option.toList_none, List.map_nil, List.append_nil]
    refine ⟨hinv, ?_, h.answers, h.sender, h.place, h.doneUse, ?_, h.owner, h.once, h.ended,
      h.accepted⟩
    · intro q hq
      obtain rfl : r' = q := Option.some.inj hq
      rcases hstep with rfl | ⟨hattached, event, rfl⟩
      · exact h.trip _ htrip
      · exact h.trip_step htrip event hattached
    · exact fun d hd heq => absurd heq (h.use_lt htrip d hd).ne
  | @ends frame evalSent r sent pool event hbusy hdetached hdone =>
    have htrip := trip_of_busy hbusy
    have hlt := h.use_lt htrip
    rw [hdone, Option.toList_some, List.map_singleton]
    -- The round trip is the only one of the current use.
    refine ⟨hinv, ?_, h.answers, h.sender, h.place, ?_, ?_, ?_, ?_, ?_, ?_⟩
    · simp
    · intro d hd
      rcases List.mem_append.mp hd with hd | hd
      · exact (hlt d hd).le
      · rw [List.mem_singleton.mp hd]
        exact le_rfl
    · intro d hd heq
      rcases List.mem_append.mp hd with hd | hd
      · exact absurd heq (hlt d hd).ne
      · rw [List.mem_singleton.mp hd]
        exact ⟨rfl, trip_release _ _ _ _⟩
    · intro d hd x hx heq
      rcases List.mem_append.mp hd with hd | hd
      · exact h.owner d hd x hx heq
      · rw [List.mem_singleton.mp hd] at heq ⊢
        exact h.sender x hx heq
    · rw [List.map_append, List.map_singleton, List.nodup_append]
      refine ⟨h.once, by simp, ?_⟩
      intro use huse use' huse' heq
      obtain ⟨d, hd, rfl⟩ := List.mem_map.mp huse
      rw [List.mem_singleton.mp huse'] at heq
      exact absurd heq (hlt d hd).ne
    · intro d hd
      rcases List.mem_append.mp hd with hd | hd
      · exact h.ended d hd
      · rw [List.mem_singleton.mp hd]
        exact h.ended_step htrip event hdetached
    · intro d hd hexit
      rcases List.mem_append.mp hd with hd | hd
      · exact mem_accepted_release (c := { c with queue := c.queue ++ sent })
          (h.accepted d hd hexit) _ _ _
      · rw [List.mem_singleton.mp hd] at hexit ⊢
        unfold release
        dsimp only at hexit ⊢
        rw [if_pos hexit]
        exact List.mem_append_right _ (List.mem_singleton_self _)
  | @aborts frame evalSent r pool hbusy hnone =>
    rw [hnone, Option.toList_none, List.map_nil, List.append_nil]
    refine ⟨hinv, by simp, h.answers, h.sender, h.place, h.doneUse, ?_, h.owner, h.once, h.ended, ?_⟩
    · exact fun d hd heq => ⟨(h.doneSender d hd heq).1, trip_release _ _ _ _⟩
    · exact fun d hd hexit => mem_accepted_release (h.accepted d hd hexit) _ _ _
  | @closes unread hidle hnone =>
    rw [hnone, Option.toList_none, List.map_nil, List.append_nil]
    refine ⟨hinv, by simp [Conn.trip], h.answers, h.sender, h.place, h.doneUse, ?_, h.owner, h.once,
      h.ended, h.accepted⟩
    exact fun d hd heq => ⟨(h.doneSender d hd heq).1, rfl⟩
  | @reuses unread conf key hevent hidle hnone =>
    rw [hnone, Option.toList_none, List.map_nil, List.append_nil]
    -- The next use has no history yet.
    refine ⟨hinv, ?_, h.answers, ?_, h.place, ?_, ?_, h.owner, h.once, h.ended, h.accepted⟩
    · intro r hr
      exact .inl (Option.some.inj hr ▸ waiting_start conf key unread)
    · intro x hx heq
      have hmem : x.answer ∈ c.answers := by
        rw [h.answers]
        exact List.mem_map_of_mem hx
      have hle : x.sender.use ≤ c.sender.use := h.inv.uses _ hmem
      exact absurd (heq.symm.trans_le hle) (Nat.not_succ_le_self _)
    · exact fun d hd => (h.doneUse d hd).trans (Nat.le_succ _)
    · intro d hd heq
      exact absurd (heq.symm.trans_le (h.doneUse d hd)) (Nat.not_succ_le_self _)

/-- What an answer changes. -/
theorem answer_cases {v : Resp} {c' : Conn} (h : c.answer v = some c') :
    ∃ e queue, c.queue = e :: queue ∧
      c'.answers = c.answers ++ [⟨e.sender.use, e.cmd, v⟩] ∧ c'.sender = c.sender ∧
      c'.accepted = c.accepted ∧ c'.trip = c.trip.map (·.step (.arrive (encode v))) := by
  unfold answer at h
  split at h
  · cases h
  · rename_i e queue hqueue
    by_cases hv : Answers e.cmd v
    · rw [if_pos hv] at h
      cases h
      refine ⟨e, queue, hqueue, rfl, rfl, rfl, ?_⟩
      unfold trip
      cases c.holder <;> rfl
    · rw [if_neg hv] at h
      cases h

/-- The server answers the next command. -/
theorem Told.answered (h : c.Told served done) {x : Sent} (hx : c.queue.head? = some x) {v : Resp}
    {c' : Conn} (hc : c.answer v = some c') {run : Option ScriptRun}
    (hrun : ∀ y, run = some y → y.place.database = c.session.database) (i : ℕ) :
    c'.Told (served ++ [⟨i, x.sender, x.cmd, v, run⟩]) done := by
  obtain ⟨e, queue, hqueue, hanswers, hsender, haccepted, htrip⟩ := answer_cases hc
  obtain rfl : e = x := by
    rw [hqueue] at hx
    exact Option.some.inj hx
  have hown : e.sender = c.sender := h.inv.queue e (by rw [hqueue]; exact List.mem_cons_self)
  refine ⟨h.inv.answer hc, ?_, ?_, ?_, ?_, ?_, ?_, ?_, h.once, h.ended, ?_⟩
  · intro r hr
    rw [htrip] at hr
    obtain ⟨q, hq, rfl⟩ := Option.map_eq_some_iff.mp hr
    have hattached : q.attached = true := (h.trip q hq).elim (·.attached) (·.attached)
    refine h.trip_step hq _ ?_
    rw [step_arrive hattached]
    exact hattached
  · rw [hanswers, h.answers, List.map_append]
    rfl
  · intro y hy heq
    rw [hsender] at heq ⊢
    rcases List.mem_append.mp hy with hy | hy
    · exact h.sender y hy heq
    · rw [List.mem_singleton.mp hy]
      exact hown
  · intro pre y post hsplit z hz
    rcases snoc_eq_append_cons hsplit with ⟨rfl, rfl, -⟩ | ⟨post', -, hbefore⟩
    · rw [hrun z hz, h.inv.session, h.answers]
      dsimp only
      rw [hown]
    · exact h.place pre y post' hbefore z hz
  · rw [hsender]
    exact h.doneUse
  · intro d hd heq
    rw [hsender] at heq ⊢
    obtain ⟨hd, hnone⟩ := h.doneSender d hd heq
    exact ⟨hd, by rw [htrip, hnone]; rfl⟩
  · intro d hd y hy heq
    rcases List.mem_append.mp hy with hy | hy
    · exact h.owner d hd y hy heq
    · rw [List.mem_singleton.mp hy] at heq ⊢
      dsimp only at heq ⊢
      rw [hown] at heq ⊢
      exact (h.doneSender d hd heq.symm).1.symm
  · rw [haccepted]
    exact h.accepted

end Conn

/-! ## One command -/

variable {V : Type} (S : Server V)

/-- What the history says of a command that was executed. -/
structure Server.Ran (x : Served) : Prop where
  command : x.cmd ∈ allCommands x.sender.conf x.sender.key
  asks : ∀ y, x.run = some y → S.Asks x.cmd y
  refused : x.run = none → ¬ x.cmd.IsPrelude → ∃ line, x.reply = .error line

/-- The next command of a connection is executed. -/
theorem Server.ran_exec {c : Conn} (h : c.Inv) {x : Sent} (hx : c.queue.head? = some x)
    (ρ : Redis V) (s : Session) (now i : ℕ) :
    S.Ran ⟨i, x.sender, x.cmd, (S.exec ρ s now x.cmd).2, S.runOf ρ s now x.cmd⟩ where
  command := by
    obtain ⟨queue, hqueue⟩ : ∃ queue, c.queue = x :: queue := by
      cases hq : c.queue with
      | nil =>
        rw [hq] at hx
        cases hx
      | cons e queue =>
        rw [hq] at hx
        exact ⟨queue, by rw [Option.some.inj hx]⟩
    have hown : x.sender = c.sender := h.queue x (by rw [hqueue]; exact List.mem_cons_self)
    have hcommands := h.commands
    rw [hqueue] at hcommands
    dsimp only
    rw [hown]
    exact hcommands.subset (by simp)
  asks := fun y hy => (Server.of_runOf hy).1
  refused := by
    intro hnone hcmd
    dsimp only at hnone ⊢
    rw [Server.exec_none hnone]
    exact Server.plainReply_eq_error hcmd

/-! ## The system -/

namespace World

/-- The invariant of the system. -/
structure Inv (w : World V) : Prop where
  told : ∀ (i : ℕ) (c : Conn), w.conns[i]? = some c → c.Told (w.servedOn i) (w.doneOn i)
  servedConn : ∀ x ∈ w.served, x.conn < w.conns.length
  doneConn : ∀ d ∈ w.done, d.conn < w.conns.length
  ran : ∀ x ∈ w.served, S.Ran x
  keys : ∀ p, p ∉ w.foreign → S.machine.Replays none (w.logAt p) (w.redis.keys p)

/-- One more run of a script is the last on its key. -/
theorem logAt_snoc (served : List Served) (x : Served) (w : World V) (p : Place) :
    logAt { w with served := served ++ [x] } p = logAt { w with served := served } p ++
      ((x.run.filter fun y => y.place = p).map fun y => (y, x.reply)).toList := by
  rw [logAt, logAt, List.filterMap_append]
  cases h : (x.run.filter fun y => y.place = p).map fun y => (y, x.reply) <;> simp [h]

variable {S} {w w' : World V}

/-- The system begins with the invariant. -/
theorem inv_start : (start : World V).Inv S where
  told := by simp [start]
  servedConn := by simp [start]
  doneConn := by simp [start]
  ran := by simp [start]
  keys := fun p _ => .nil none

/-- The server executes a command. -/
theorem Inv.serve (h : w.Inv S) {i now : ℕ} {c c' : Conn} {x : Sent} (hc : w.conns[i]? = some c)
    (hx : c.queue.head? = some x) (hc' : c.answer (S.exec w.redis c.session now x.cmd).2 = some c') :
    Inv S { w with
      conns := w.conns.set i c'
      redis := (S.exec w.redis c.session now x.cmd).1
      served := w.served ++ [⟨i, x.sender, x.cmd, (S.exec w.redis c.session now x.cmd).2,
        S.runOf w.redis c.session now x.cmd⟩] } := by
  have hi : i < w.conns.length := (List.getElem?_eq_some_iff.mp hc).1
  have htold := h.told i c hc
  refine ⟨?_, ?_, ?_, ?_, ?_⟩
  · intro j d hd
    rw [List.getElem?_set] at hd
    rw [servedOn, List.filter_append]
    split_ifs at hd with hij
    · -- The connection gets the answer.
      obtain rfl : c' = d := Option.some.inj hd
      subst hij
      rw [List.filter_cons_of_pos (by simp), List.filter_nil]
      exact htold.answered hx hc' (fun y hy => (Server.of_runOf hy).2.1) i
    · rw [List.filter_cons_of_neg (by simpa using hij), List.filter_nil, List.append_nil]
      exact h.told j d hd
  · intro y hy
    rw [List.length_set]
    rcases List.mem_append.mp hy with hy | hy
    · exact h.servedConn y hy
    · rw [List.mem_singleton.mp hy]
      exact hi
  · intro d hd
    rw [List.length_set]
    exact h.doneConn d hd
  · intro y hy
    rcases List.mem_append.mp hy with hy | hy
    · exact h.ran y hy
    · rw [List.mem_singleton.mp hy]
      exact S.ran_exec htold.inv hx _ _ _ _
  · intro p hp
    have hkey := h.keys p hp
    have hlog := logAt_snoc w.served ⟨i, x.sender, x.cmd, (S.exec w.redis c.session now x.cmd).2,
      S.runOf w.redis c.session now x.cmd⟩ w p
    cases hrun : S.runOf w.redis c.session now x.cmd with
    | none =>
      rw [hrun, Server.exec_none hrun] at hlog
      rw [Server.exec_none hrun]
      simp only [Option.filter_none, Option.map_none, Option.toList_none, List.append_nil] at hlog
      exact (congrArg (S.machine.Replays none · (w.redis.keys p)) hlog).mpr hkey
    | some y =>
      rw [hrun, Server.exec_some hrun] at hlog
      rw [Server.exec_some hrun]
      by_cases hyp : y.place = p
      · -- The script ran on this key.
        subst hyp
        simp only [Option.filter, decide_true, if_true, Option.map_some, Option.toList_some] at hlog
        dsimp only
        rw [Function.update_self]
        exact (congrArg (S.machine.Replays none · _) hlog).mpr (hkey.snoc y)
      · simp only [Option.filter, hyp, decide_false, Bool.false_eq_true, if_false, Option.map_none,
          Option.toList_none, List.append_nil] at hlog
        dsimp only
        rw [Function.update_of_ne (Ne.symm hyp)]
        exact (congrArg (S.machine.Replays none · _) hlog).mpr hkey

/-- A request opens a connection, which has no history. -/
theorem Inv.dial (h : w.Inv S) (conf : LocConf) (key : Bytes) :
    Inv S { w with conns := w.conns ++ [.dial conf key] } := by
  refine ⟨?_, ?_, ?_, h.ran, h.keys⟩
  · intro i c hc
    rcases Nat.lt_trichotomy i w.conns.length with hi | rfl | hi
    · rw [List.getElem?_append_left hi] at hc
      exact h.told i c hc
    · have hserved : servedOn w w.conns.length = [] := by
        refine List.filter_eq_nil_iff.mpr fun x hx => ?_
        simpa using (h.servedConn x hx).ne
      have hdone : doneOn w w.conns.length = [] := by
        refine List.filter_eq_nil_iff.mpr fun d hd => ?_
        simpa using (h.doneConn d hd).ne
      rw [List.getElem?_append_right le_rfl, Nat.sub_self, List.getElem?_cons_zero] at hc
      obtain rfl : Conn.dial conf key = c := Option.some.inj hc
      change (Conn.dial conf key).Told (servedOn w w.conns.length) (doneOn w w.conns.length)
      rw [hserved, hdone]
      exact Conn.told_dial conf key
    · rw [List.getElem?_eq_none (by simp; omega)] at hc
      cases hc
  · intro x hx
    rw [List.length_append]
    exact (h.servedConn x hx).trans_le (Nat.le_add_right _ _)
  · intro d hd
    rw [List.length_append]
    exact (h.doneConn d hd).trans_le (Nat.le_add_right _ _)

/-- An event of nginx on a connection. -/
theorem Inv.on (h : w.Inv S) {i : ℕ} {e : ConnEvent} {c c' : Conn} (hc : w.conns[i]? = some c)
    (hanswer : e.isAnswer = false) (hc' : c.step e = some c') :
    Inv S { w with
      conns := w.conns.set i c'
      done := w.done ++ (c.finished e).toList.map (⟨i, c.sender, ·⟩) } := by
  have hi : i < w.conns.length := (List.getElem?_eq_some_iff.mp hc).1
  have htold := h.told i c hc
  have hconn : ∀ d ∈ (c.finished e).toList.map (Done.mk i c.sender), d.conn = i := by
    intro d hd
    obtain ⟨r, -, rfl⟩ := List.mem_map.mp hd
    rfl
  refine ⟨?_, ?_, ?_, h.ran, h.keys⟩
  · intro j d hd
    rw [List.getElem?_set] at hd
    rw [doneOn, List.filter_append]
    split_ifs at hd with hij
    · obtain rfl : c' = d := Option.some.inj hd
      subst hij
      rw [(List.filter_eq_self (l := (c.finished e).toList.map (Done.mk i c.sender))).mpr
        fun d hd => by simpa using hconn d hd]
      exact htold.moved (Conn.moved_of_step hanswer hc') (htold.inv.step hc') i
    · rw [(List.filter_eq_nil_iff (l := (c.finished e).toList.map (Done.mk i c.sender))).mpr
        fun d hd => by simpa [hconn d hd] using hij, List.append_nil]
      exact h.told j d hd
  · intro x hx
    rw [List.length_set]
    exact h.servedConn x hx
  · intro d hd
    rw [List.length_set]
    rcases List.mem_append.mp hd with hd | hd
    · exact h.doneConn d hd
    · rw [hconn d hd]
      exact hi

/-- Another client writes a key. -/
theorem Inv.put (h : w.Inv S) (place : Place) (key : Key V) :
    Inv S { w with
      redis := { w.redis with keys := Function.update w.redis.keys place key }
      foreign := w.foreign ++ [place] } := by
  refine ⟨h.told, h.servedConn, h.doneConn, h.ran, fun p hp => ?_⟩
  rw [List.mem_append, List.mem_singleton, not_or] at hp
  dsimp only
  rw [Function.update_of_ne hp.2]
  exact h.keys p hp.1

/-- Every event keeps the invariant. -/
theorem Inv.step (h : w.Inv S) {e : WorldEvent V} (he : w.step S e = some w') : w'.Inv S := by
  cases e with
  | dial conf key =>
    cases he
    exact h.dial conf key
  | on i e =>
    cases hanswer : e.isAnswer with
    | true =>
      rw [World.step, hanswer] at he
      cases he
    | false =>
      rw [World.step, hanswer] at he
      obtain ⟨c, hc, he⟩ := Option.bind_eq_some_iff.mp he
      obtain ⟨c', hc', he⟩ := Option.bind_eq_some_iff.mp he
      cases he
      exact h.on hc hanswer hc'
  | serve i now =>
    obtain ⟨c, hc, he⟩ := Option.bind_eq_some_iff.mp he
    obtain ⟨x, hx, he⟩ := Option.bind_eq_some_iff.mp he
    obtain ⟨c', hc', he⟩ := Option.bind_eq_some_iff.mp he
    cases he
    exact h.serve hc hx hc'
  | put place key =>
    cases he
    exact h.put place key
  | load body =>
    cases he
    exact ⟨h.told, h.servedConn, h.doneConn, h.ran, h.keys⟩
  | scriptFlush =>
    cases he
    exact ⟨h.told, h.servedConn, h.doneConn, h.ran, h.keys⟩

/-- An event adds the command that the server executes to the history, if there is one. -/
theorem served_of_step {e : WorldEvent V} (he : w.step S e = some w') : w'.served = w.served ∨
    ∃ i now c x, w.conns[i]? = some c ∧ c.queue.head? = some x ∧
      w'.redis = (S.exec w.redis c.session now x.cmd).1 ∧
      w'.served = w.served ++ [⟨i, x.sender, x.cmd, (S.exec w.redis c.session now x.cmd).2,
        S.runOf w.redis c.session now x.cmd⟩] := by
  cases e with
  | dial conf key =>
    cases he
    exact .inl rfl
  | on i e =>
    rw [World.step] at he
    split at he
    · cases he
    · obtain ⟨c, hc, he⟩ := Option.bind_eq_some_iff.mp he
      obtain ⟨c', hc', he⟩ := Option.bind_eq_some_iff.mp he
      cases he
      exact .inl rfl
  | serve i now =>
    obtain ⟨c, hc, he⟩ := Option.bind_eq_some_iff.mp he
    obtain ⟨x, hx, he⟩ := Option.bind_eq_some_iff.mp he
    obtain ⟨c', hc', he⟩ := Option.bind_eq_some_iff.mp he
    cases he
    exact .inr ⟨i, now, c, x, hc, hx, rfl, rfl⟩
  | put place key =>
    cases he
    exact .inl rfl
  | load body =>
    cases he
    exact .inl rfl
  | scriptFlush =>
    cases he
    exact .inl rfl

/-- The rule for runs of the system. -/
theorem run_induction {P : World V → Prop} (h0 : P start)
    (hstep : ∀ w e w', P w → w.step S e = some w' → P w') {events : List (WorldEvent V)}
    (h : run S events = some w) : P w := by
  suffices hfold : ∀ v, P v → events.foldlM (World.step S) v = some w → P w from hfold _ h0 h
  clear h
  induction events with
  | nil =>
    rintro v hv h
    obtain rfl : v = w := Option.some.inj h
    exact hv
  | cons e events ih =>
    intro v hv h
    obtain ⟨v', he, h⟩ := Option.bind_eq_some_iff.mp h
    exact ih v' (hstep v e v' hv he) h

/-- The invariant holds after every run. -/
theorem inv_of_run {events : List (WorldEvent V)} (h : run S events = some w) : w.Inv S :=
  run_induction inv_start (fun _ _ _ hw he => hw.step he) h

end World

end NginxRatelimit
