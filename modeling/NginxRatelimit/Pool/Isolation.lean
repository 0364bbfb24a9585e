import NginxRatelimit.Pool.Exchange

/-!
# The session of a script

A script runs in the session that the connection has by then. `script_session_own_iff` says when
that is the session which the request's own commands lead to on a new connection: exactly when the
request sets what earlier requests have set. A location without `ratelimit_database` sends no
`SELECT`, and one without `ratelimit_password` no `AUTH`, so they run wherever the connection was
left.
-/

namespace NginxRatelimit

open Library Resp

/-- A command that sets the database. -/
def SetsDatabase (cmd : Command) (v : Resp) : Prop := ∃ d line, cmd = .select d ∧ v = .simple line

/-- A command that sets the user. -/
def SetsUser (cmd : Command) (v : Resp) : Prop := ∃ p line, cmd = .auth p ∧ v = .simple line

namespace Session

/-- Of two sessions the same commands make sessions that agree in a field exactly when they agreed
in it before, or a command has set it. -/
theorem replay_get {α : Type} (get : Session → α) (Sets : Command → Resp → Prop)
    (hset : ∀ s s' cmd v, Sets cmd v → get (exec s cmd v) = get (exec s' cmd v))
    (hkeep : ∀ s cmd v, ¬ Sets cmd v → get (exec s cmd v) = get s) (s s' : Session)
    (answers : List (Command × Resp)) :
    get (s.replay answers) = get (s'.replay answers) ↔
      get s = get s' ∨ ∃ a ∈ answers, Sets a.1 a.2 := by
  induction answers generalizing s s' with
  | nil => simp [replay]
  | cons a answers ih =>
    have hstep : get (s.replay (a :: answers)) = get (s'.replay (a :: answers)) ↔
        get (s.exec a.1 a.2) = get (s'.exec a.1 a.2) ∨ ∃ a ∈ answers, Sets a.1 a.2 := ih _ _
    rw [hstep, List.exists_mem_cons_iff]
    by_cases ha : Sets a.1 a.2
    · simp [ha, hset s s' a.1 a.2 ha]
    · rw [hkeep s a.1 a.2 ha, hkeep s' a.1 a.2 ha]
      simp [ha]

/-- Behind a command that sets the database, what was selected before does not matter. -/
theorem exec_database_of_sets (s s' : Session) (cmd : Command) (v : Resp)
    (h : SetsDatabase cmd v) : (s.exec cmd v).database = (s'.exec cmd v).database := by
  obtain ⟨d, line, rfl, rfl⟩ := h
  rfl

/-- Other commands leave the database as it is. -/
theorem exec_database_of_not (s : Session) (cmd : Command) (v : Resp) (h : ¬ SetsDatabase cmd v) :
    (s.exec cmd v).database = s.database := by
  unfold exec
  split
  · rfl
  · exact absurd ⟨_, _, rfl, rfl⟩ h
  · rfl

/-- The same of the user that a connection is authenticated as. -/
theorem exec_user_of_sets (s s' : Session) (cmd : Command) (v : Resp) (h : SetsUser cmd v) :
    (s.exec cmd v).user = (s'.exec cmd v).user := by
  obtain ⟨p, line, rfl, rfl⟩ := h
  rfl

/-- And of the commands that do not set it. -/
theorem exec_user_of_not (s : Session) (cmd : Command) (v : Resp) (h : ¬ SetsUser cmd v) :
    (s.exec cmd v).user = s.user := by
  unfold exec
  split
  · exact absurd ⟨_, _, rfl, rfl⟩ h
  · rfl
  · rfl

/-- The session that one has is the one that the same commands lead to on a new connection exactly
when each field was new, or is set by a command. -/
theorem replay_eq_fresh_iff (s : Session) (answers : List (Command × Resp)) :
    s.replay answers = fresh.replay answers ↔
      (s.database = 0 ∨ ∃ a ∈ answers, SetsDatabase a.1 a.2) ∧
        (s.user = none ∨ ∃ a ∈ answers, SetsUser a.1 a.2) := by
  have hdatabase := replay_get database SetsDatabase exec_database_of_sets exec_database_of_not s
    fresh answers
  have huser := replay_get user SetsUser exec_user_of_sets exec_user_of_not s fresh answers
  have hext : ∀ a b : Session, a = b ↔ a.database = b.database ∧ a.user = b.user := by
    rintro ⟨d, u⟩ ⟨d', u'⟩
    simp
  rw [hext, hdatabase, huser]
  rfl

end Session

/-- A script is run after the prelude, and an `EVAL` after the `EVALSHA`. -/
theorem Conn.RunIn.before {x : Executed} (h : Conn.RunIn x) :
    (x.cmd = scriptCommand x.sender.conf x.sender.key false ∧
      x.before.map Prod.fst = buildPrelude x.sender.conf) ∨
    (x.cmd = scriptCommand x.sender.conf x.sender.key true ∧
      x.before.map Prod.fst =
        buildPrelude x.sender.conf ++ [scriptCommand x.sender.conf x.sender.key false]) := by
  obtain ⟨post, hpost⟩ := h.commands
  rw [allCommands, firstFrame, List.append_assoc, List.append_assoc] at hpost
  rcases List.append_eq_append_iff.mp hpost with ⟨as, hprelude, hrest⟩ | ⟨bs, hbefore, hrest⟩
  · cases as with
    | nil =>
      rw [List.append_nil] at hprelude
      exact .inl ⟨(List.cons.inj hrest).1, hprelude.symm⟩
    | cons cmd as =>
      -- The command would be one of the prelude.
      obtain rfl : x.cmd = cmd := (List.cons.inj hrest).1
      have hmem : x.cmd ∈ buildPrelude x.sender.conf := by
        rw [hprelude]
        exact List.mem_append_right _ List.mem_cons_self
      exact absurd (isPrelude_of_mem hmem) h.script
  · cases bs with
    | nil =>
      rw [List.append_nil] at hbefore
      exact .inl ⟨(List.cons.inj hrest).1.symm, hbefore⟩
    | cons b bs =>
      obtain ⟨rfl, hlast⟩ := List.cons.inj hrest
      cases bs with
      | nil => exact .inr ⟨(List.cons.inj hlast).1.symm, hbefore⟩
      | cons b bs =>
        have hlen := congrArg List.length (List.cons.inj hlast).2
        simp at hlen

/-- The session that a location is configured for. -/
def configured (conf : LocConf) : Session :=
  ⟨if 0 < conf.database then conf.database.toNat else 0,
    if 0 < conf.password.length then some conf.password else none⟩

/-- The prelude leads a new connection there when the peer accepts it. -/
theorem replay_prelude {conf : LocConf} {answers : List (Command × Resp)}
    (hcmds : answers.map Prod.fst = buildPrelude conf) (hoks : Accepts answers) :
    Session.fresh.replay answers = configured conf := by
  have hone : ∀ {cmd : Command} {answers : List (Command × Resp)} {rest : List Command},
      Accepts answers → answers.map Prod.fst = cmd :: rest →
        ∃ line answers', answers = (cmd, .simple line) :: answers' ∧ Accepts answers' ∧
          answers'.map Prod.fst = rest := by
    intro cmd answers rest hoks hmap
    obtain ⟨⟨cmd', v⟩, answers', rfl, rfl, hrest⟩ := List.map_eq_cons_iff.mp hmap
    obtain ⟨line, hline⟩ := hoks (cmd', v) List.mem_cons_self
    dsimp only at hline
    rw [hline]
    exact ⟨line, answers', rfl, fun a ha => hoks a (List.mem_cons_of_mem _ ha), hrest⟩
  -- Each command that is in the prelude sets its part of the session.
  rw [buildPrelude] at hcmds
  unfold configured
  by_cases hpassword : 0 < conf.password.length <;> by_cases hdatabase : 0 < conf.database
  · rw [if_pos hpassword, if_pos hdatabase] at hcmds
    obtain ⟨_, _, rfl, hoks, hcmds⟩ := hone hoks hcmds
    obtain ⟨_, _, rfl, -, hcmds⟩ := hone hoks hcmds
    rw [List.map_eq_nil_iff.mp hcmds, if_pos hpassword, if_pos hdatabase]
    rfl
  · rw [if_pos hpassword, if_neg hdatabase] at hcmds
    obtain ⟨_, _, rfl, -, hcmds⟩ := hone hoks hcmds
    rw [List.map_eq_nil_iff.mp hcmds, if_pos hpassword, if_neg hdatabase]
    rfl
  · rw [if_neg hpassword, if_pos hdatabase] at hcmds
    obtain ⟨_, _, rfl, -, hcmds⟩ := hone hoks hcmds
    rw [List.map_eq_nil_iff.mp hcmds, if_neg hpassword, if_pos hdatabase]
    rfl
  · rw [if_neg hpassword, if_neg hdatabase] at hcmds
    rw [List.map_eq_nil_iff.mp hcmds, if_neg hpassword, if_neg hdatabase]
    rfl

/-- So it does before a script. -/
theorem Conn.RunIn.configured {x : Executed} (h : Conn.RunIn x)
    (hoks : ∀ a ∈ x.before, a.1.IsPrelude → ∃ line, a.2 = .simple line) :
    Session.fresh.replay x.before = configured x.sender.conf := by
  have hprelude : ∀ answers : List (Command × Resp), answers.map Prod.fst =
      buildPrelude x.sender.conf → (∀ a ∈ answers, a ∈ x.before) →
        Session.fresh.replay answers = NginxRatelimit.configured x.sender.conf := by
    intro answers hcmds hmem
    refine replay_prelude hcmds fun a ha => hoks a (hmem a ha) ?_
    have hcmd : a.1 ∈ buildPrelude x.sender.conf := hcmds ▸ List.mem_map_of_mem ha
    exact isPrelude_of_mem hcmd
  rcases h.before with ⟨-, hcmds⟩ | ⟨-, hcmds⟩
  · exact hprelude _ hcmds fun _ ha => ha
  · -- The `EVALSHA` that was answered with `NOSCRIPT` leaves the session alone.
    obtain ⟨answers, rest, hbefore, hfirst, hlast⟩ := List.map_eq_append_iff.mp hcmds
    obtain ⟨⟨cmd, v⟩, answers', rfl, rfl, hnil⟩ := List.map_eq_cons_iff.mp hlast
    obtain rfl := List.map_eq_nil_iff.mp hnil
    have hscript : ∀ s : Session,
        s.exec (scriptCommand x.sender.conf x.sender.key false) v = s := fun s => rfl
    rw [hbefore, Conn.replay_append]
    rw [hprelude answers hfirst fun a ha => hbefore ▸ List.mem_append_left _ ha]
    exact hscript _

/-- A script runs in the database and as the user that the request's own `AUTH` and `SELECT` lead to
on a new connection exactly when it has selected a database or the connection was still in database
0, and has authenticated or nobody had on this connection. Where the peer accepts them, these are
the configured ones, and database 0 without a configured one. -/
theorem script_session_own_iff {events : List PoolEvent} {conns : List Conn}
    (h : pool events = some conns) : ∀ c ∈ conns, ∀ x ∈ c.executed,
      ((x.cmd = scriptCommand x.sender.conf x.sender.key false ∧
          x.before.map Prod.fst = buildPrelude x.sender.conf) ∨
        (x.cmd = scriptCommand x.sender.conf x.sender.key true ∧
          x.before.map Prod.fst =
            buildPrelude x.sender.conf ++ [scriptCommand x.sender.conf x.sender.key false])) ∧
      (x.session = Session.fresh.replay x.before ↔
        (x.sender.inherited.database = 0 ∨ ∃ a ∈ x.before, SetsDatabase a.1 a.2) ∧
          (x.sender.inherited.user = none ∨ ∃ a ∈ x.before, SetsUser a.1 a.2)) ∧
      ((∀ a ∈ x.before, a.1.IsPrelude → ∃ line, a.2 = .simple line) →
        Session.fresh.replay x.before = configured x.sender.conf) := by
  intro c hc x hx
  have hrun := (Conn.inv_of_pool h c hc).executed x hx
  refine ⟨hrun.before, ?_, hrun.configured⟩
  rw [hrun.session]
  exact Session.replay_eq_fresh_iff x.sender.inherited x.before

/-- Requests of two locations with their own databases on one connection. -/
def twoDatabases : List PoolEvent :=
  [.start ({ LocConf.ofZone ⟨.gcra, 5, 60, 0, ⟨[], []⟩⟩ fun _ => ⟨[], []⟩ with database := 5 },
      text "a"),
    .on 0 .flush, .on 0 .flush, .on 0 (.answer (.simple (text "OK"))),
    .on 0 (.answer (.array [.int 0, .int 5, .int 4, .int (-1), .int 60])),
    .on 0 (.read (Io.good [.data 4096] []) true),
    .on 0 (.reuse { LocConf.ofZone ⟨.gcra, 5, 60, 0, ⟨[], []⟩⟩ fun _ => ⟨[], []⟩ with database := 7 }
      (text "b")),
    .on 0 .flush, .on 0 .flush, .on 0 (.answer (.simple (text "OK"))),
    .on 0 (.answer (.array [.int 0, .int 5, .int 4, .int (-1), .int 60]))]

/-- Two requests on one connection that select databases of their own: their scripts run there. -/
theorem script_session_own_two_databases : ∃ conns, pool twoDatabases = some conns ∧
    conns.map (fun c => c.executed.map fun x => x.session.database) = [[5, 7]] ∧
    ∀ c ∈ conns, ∀ x ∈ c.executed, (x.session = Session.fresh.replay x.before ↔
      (x.sender.inherited.database = 0 ∨ ∃ a ∈ x.before, SetsDatabase a.1 a.2) ∧
        (x.sender.inherited.user = none ∨ ∃ a ∈ x.before, SetsUser a.1 a.2)) := by
  have hrun : (pool twoDatabases).map
      (fun conns => conns.map fun c => c.executed.map fun x => x.session.database) =
        some [[5, 7]] := by
    decide +kernel
  obtain ⟨conns, hconns, hsessions⟩ := Option.map_eq_some_iff.mp hrun
  exact ⟨conns, hconns, hsessions, fun c hc x hx => (script_session_own_iff hconns c hc x hx).2.1⟩

/-- A location without a database runs in the one that the connection's last user has selected. -/
theorem script_runs_in_left_database : ∃ c x,
    pool [.start ({ LocConf.ofZone ⟨.gcra, 5, 60, 0, ⟨[], []⟩⟩ fun _ => ⟨[], []⟩ with database := 5 },
        text "a"),
      .on 0 .flush, .on 0 .flush, .on 0 (.answer (.simple (text "OK"))),
      .on 0 (.answer (.array [.int 0, .int 5, .int 4, .int (-1), .int 60])),
      .on 0 (.read (Io.good [.data 4096] []) true),
      .on 0 (.reuse (LocConf.ofZone ⟨.gcra, 5, 60, 0, ⟨[], []⟩⟩ fun _ => ⟨[], []⟩) (text "b")),
      .on 0 .flush,
      .on 0 (.answer (.array [.int 0, .int 5, .int 4, .int (-1), .int 60]))] = some [c] ∧
    c.executed.getLast? = some x ∧ x.sender.conf.database = -1 ∧ x.before = [] ∧
    x.session.database = 5 ∧ x.session ≠ Session.fresh.replay x.before := by
  refine ⟨_, _, rfl, rfl, rfl, rfl, rfl, ?_⟩
  intro heq
  exact absurd (congrArg Session.database heq) (by decide)

end NginxRatelimit
