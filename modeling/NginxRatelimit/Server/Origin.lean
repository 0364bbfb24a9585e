import NginxRatelimit.Server.Own

/-!
# Where the history comes from

The senders of the history are requests of the events, and the scripts that ran were loaded by other
clients or are those of locations that have sent requests. `World.Origin` says so of every run, so
that what is assumed of the locations and of the other clients is assumed of the events alone.
-/

namespace NginxRatelimit

open Library

variable {V : Type} {S : Server V} {w w' : World V}

/-- A location has sent a request with this key. -/
def Arrives (events : List (WorldEvent V)) (conf : LocConf) (key : Bytes) : Prop :=
  .dial conf key ∈ events ∨ ∃ i, .on i (.reuse conf key) ∈ events

/-- A text was loaded by another client, or is the script of a location that has sent a request. -/
def Brought (events : List (WorldEvent V)) (body : Bytes) : Prop :=
  .load body ∈ events ∨ ∃ conf key, Arrives events conf key ∧ (zoneScript conf).body = body

/-- The time at which a command is executed. -/
def WorldEvent.time : WorldEvent V → Option ℕ
  | .serve _ now => some now
  | .dial _ _ | .on _ _ | .put _ _ | .load _ | .scriptFlush => none

/-- The times of the scripts that were run. -/
def World.times (w : World V) : List ℕ := w.served.filterMap fun x => x.run.map ScriptRun.time

/-- What the history has of the events. -/
structure World.Origin (w : World V) (events : List (WorldEvent V)) : Prop where
  sender : ∀ c ∈ w.conns, Arrives events c.sender.conf c.sender.key
  served : ∀ x ∈ w.served, Arrives events x.sender.conf x.sender.key
  scripts : ∀ body ∈ w.redis.scripts, Brought events body
  run : ∀ x ∈ w.served, ∀ y, x.run = some y → Brought events y.body
  foreign : ∀ p ∈ w.foreign, ∃ key, .put p key ∈ events
  times : w.times.Sublist (events.filterMap WorldEvent.time)

variable {events : List (WorldEvent V)} {e : WorldEvent V}

/-- A request that has arrived is among more events. -/
theorem Arrives.snoc {conf : LocConf} {key : Bytes} (h : Arrives events conf key)
    (e : WorldEvent V) : Arrives (events ++ [e]) conf key := by
  rcases h with h | ⟨i, h⟩
  · exact .inl (List.mem_append_left _ h)
  · exact .inr ⟨i, List.mem_append_left _ h⟩

/-- So is a script that was brought. -/
theorem Brought.snoc {body : Bytes} (h : Brought events body) (e : WorldEvent V) :
    Brought (events ++ [e]) body := by
  rcases h with h | ⟨conf, key, h, hbody⟩
  · exact .inl (List.mem_append_left _ h)
  · exact .inr ⟨conf, key, h.snoc e, hbody⟩

namespace World.Origin

/-- What comes from the events comes from more of them. -/
theorem snoc (h : w.Origin events) (e : WorldEvent V) : w.Origin (events ++ [e]) where
  sender c hc := (h.sender c hc).snoc e
  served x hx := (h.served x hx).snoc e
  scripts body hbody := (h.scripts body hbody).snoc e
  run x hx y hy := (h.run x hx y hy).snoc e
  foreign p hp := (h.foreign p hp).imp fun _ hkey => List.mem_append_left _ hkey
  times := by
    rw [List.filterMap_append]
    exact h.times.trans (List.sublist_append_left _ _)

/-- Before the first event there is nothing. -/
theorem start : (World.start : World V).Origin [] where
  sender := by simp [World.start]
  served := by simp [World.start]
  scripts := by simp [World.start, Redis.empty]
  run := by simp [World.start]
  foreign := by simp [World.start]
  times := .slnil

end World.Origin

/-- An event of nginx leaves a connection to its sender, or gives it to the next request. -/
theorem Conn.Moved.sender {c c' : Conn} {e : ConnEvent} (h : c.Moved e c') :
    c'.sender = c.sender ∨ e = .reuse c'.sender.conf c'.sender.key := by
  cases h with
  | goesOn => exact .inl rfl
  | ends => exact .inl rfl
  | aborts => exact .inl rfl
  | closes => exact .inl rfl
  | reuses hevent => exact .inr hevent

/-- The only text that a request sends is the one of its location. -/
theorem body_of_mem_allCommands {conf : LocConf} {key body key' : Bytes} {args : List ℕ}
    (h : .eval body key' args ∈ allCommands conf key) : (zoneScript conf).body = body := by
  have hcommands : .eval body key' args ∈ buildPrelude conf ∨
      .eval body key' args = scriptCommand conf key false ∨
      .eval body key' args = scriptCommand conf key true := by
    simpa [allCommands, firstFrame] using h
  rcases hcommands with h | h | h
  · exact absurd (isPrelude_of_mem h) id
  · cases h
  · exact (Command.eval.inj h).1.symm

namespace World.Origin

/-- An event of nginx. -/
theorem on (h : w.Origin events) {i : ℕ} {e : ConnEvent} {c c' : Conn}
    (hc : w.conns[i]? = some c) (hmoved : c.Moved e c') (done : List Done) :
    Origin { w with conns := w.conns.set i c', done := done } (events ++ [.on i e]) := by
  have hmore := h.snoc (.on i e)
  refine ⟨fun d hd => ?_, hmore.served, hmore.scripts, hmore.run, hmore.foreign, hmore.times⟩
  rcases List.mem_or_eq_of_mem_set hd with hd | rfl
  · exact hmore.sender d hd
  · rcases hmoved.sender with hsame | hreuse
    · rw [hsame]
      exact hmore.sender c (List.mem_of_getElem? hc)
    · refine .inr ⟨i, List.mem_append_right _ ?_⟩
      rw [← hreuse]
      exact List.mem_singleton_self _

/-- The server executes a command. -/
theorem serve (h : w.Origin events) {i now : ℕ} {c c' : Conn} {x : Sent} {v : Resp}
    (hc : w.conns[i]? = some c) (hx : x.sender = c.sender)
    (hcmd : x.cmd ∈ allCommands x.sender.conf x.sender.key) (hc' : c'.sender = c.sender) :
    Origin { w with
      conns := w.conns.set i c'
      redis := (S.exec w.redis c.session now x.cmd).1
      served := w.served ++ [⟨i, x.sender, x.cmd, v, S.runOf w.redis c.session now x.cmd⟩] }
      (events ++ [.serve i now]) := by
  have hmore := h.snoc (.serve i now)
  have hown : Arrives (events ++ [.serve i now]) c.sender.conf c.sender.key :=
    hmore.sender c (List.mem_of_getElem? hc)
  have hbrought : ∀ {body key args}, x.cmd = .eval body key args →
      Brought (events ++ [.serve i now]) body := by
    intro body key args heval
    rw [heval, hx] at hcmd
    exact .inr ⟨_, _, hown, body_of_mem_allCommands hcmd⟩
  refine ⟨fun d hd => ?_, fun y hy => ?_, fun body hbody => ?_, fun y hy z hz => ?_,
    hmore.foreign, ?_⟩
  · rcases List.mem_or_eq_of_mem_set hd with hd | rfl
    · exact hmore.sender d hd
    · rw [hc']
      exact hown
  · rcases List.mem_append.mp hy with hy | hy
    · exact hmore.served y hy
    · rw [List.mem_singleton.mp hy]
      dsimp only
      rw [hx]
      exact hown
  · rcases Server.mem_scripts_exec hbody with hold | ⟨key, args, heval⟩
    · exact hmore.scripts body hold
    · exact hbrought heval
  · rcases List.mem_append.mp hy with hy | hy
    · exact hmore.run y hy z hz
    · rw [List.mem_singleton.mp hy] at hz
      rcases Server.body_of_runOf hz with hold | ⟨key, args, heval⟩
      · exact hmore.scripts _ hold
      · exact hbrought heval
  · -- The run, if there is one, has the time of the event.
    rw [World.times, List.filterMap_append, List.filterMap_append]
    refine h.times.append ?_
    cases hrun : S.runOf w.redis c.session now x.cmd with
    | none => simp
    | some z => simp [WorldEvent.time, (Server.of_runOf hrun).2.2]

/-- Every event keeps it. -/
theorem step (h : w.Origin events) (hinv : w.Inv S) {e : WorldEvent V}
    (he : w.step S e = some w') : w'.Origin (events ++ [e]) := by
  have hmore := h.snoc e
  cases e with
  | dial conf key =>
    cases he
    refine ⟨fun c hc => ?_, hmore.served, hmore.scripts, hmore.run, hmore.foreign, hmore.times⟩
    rcases List.mem_append.mp hc with hc | hc
    · exact hmore.sender c hc
    · rw [List.mem_singleton.mp hc]
      exact .inl (List.mem_append_right _ (List.mem_singleton_self _))
  | on i e =>
    cases hanswer : e.isAnswer with
    | true =>
      rw [World.step, hanswer] at he
      cases he
    | false =>
      rw [World.step, hanswer] at he
      obtain ⟨c, hc, he⟩ := Option.bind_eq_some_iff.mp he
      obtain ⟨c', hc', he⟩ := Option.bind_eq_some_iff.mp he
      cases he
      exact h.on hc (Conn.moved_of_step hanswer hc') _
  | serve i now =>
    obtain ⟨c, hc, he⟩ := Option.bind_eq_some_iff.mp he
    obtain ⟨x, hx, he⟩ := Option.bind_eq_some_iff.mp he
    obtain ⟨c', hc', he⟩ := Option.bind_eq_some_iff.mp he
    cases he
    have htold := hinv.told i c hc
    obtain ⟨y, queue, hqueue, -, hsender, -, -⟩ := Conn.answer_cases hc'
    obtain rfl : y = x := by
      rw [hqueue] at hx
      exact Option.some.inj hx
    refine h.serve hc (htold.inv.queue y (by rw [hqueue]; exact List.mem_cons_self)) ?_ hsender
    exact (S.ran_exec htold.inv hx w.redis c.session now i).command
  | put place key =>
    cases he
    refine ⟨hmore.sender, hmore.served, hmore.scripts, hmore.run, fun p hp => ?_, hmore.times⟩
    rcases List.mem_append.mp hp with hp | hp
    · exact hmore.foreign p hp
    · rw [List.mem_singleton.mp hp]
      exact ⟨key, List.mem_append_right _ (List.mem_singleton_self _)⟩
  | load body =>
    cases he
    refine ⟨hmore.sender, hmore.served, fun text htext => ?_, hmore.run, hmore.foreign, hmore.times⟩
    rcases List.mem_append.mp htext with htext | htext
    · exact hmore.scripts text htext
    · rw [List.mem_singleton.mp htext]
      exact .inl (List.mem_append_right _ (List.mem_singleton_self _))
  | scriptFlush =>
    cases he
    exact ⟨hmore.sender, hmore.served, by simp, hmore.run, hmore.foreign, hmore.times⟩

end World.Origin

/-- One more event of a run. -/
theorem World.run_snoc_iff : World.run S (events ++ [e]) = some w' ↔
    ∃ w, World.run S events = some w ∧ w.step S e = some w' := by
  rw [World.run, World.run, List.foldlM_append, Option.bind_eq_bind, Option.bind_eq_some_iff]
  simp

/-- The history of every run comes from its events. -/
theorem World.origin_of_run (h : World.run S events = some w) : w.Origin events := by
  induction events using List.reverseRecOn generalizing w with
  | nil =>
    obtain rfl : World.start = w := Option.some.inj h
    exact .start
  | append_singleton events e ih =>
    obtain ⟨v, hv, he⟩ := World.run_snoc_iff.mp h
    exact (ih hv).step (World.inv_of_run hv) he

end NginxRatelimit
