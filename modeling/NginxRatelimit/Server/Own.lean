import NginxRatelimit.Pool.Fallback
import NginxRatelimit.Server.History

/-!
# The script that a request runs

Requests of all connections run their scripts on one server, in sessions that other requests have
left, with `NOSCRIPT` and a second attempt in between, and with any of them lost or given up.
`runs_at_most_once` says that no request runs its script twice, `reply_of_own_run` that the reply
which a request reads is that of the only run of its own script, on its own key.
-/

namespace NginxRatelimit

open Library Resp RoundTrip

variable {V : Type} {S : Server V} {w : World V} {events : List (WorldEvent V)}

/-! ## Connections of the system -/

/-- One more event of a pool. -/
theorem pool_snoc {events : List PoolEvent} {conns conns' : List Conn} {e : PoolEvent}
    (h : pool events = some conns) (he : connection.fleetStep conns e = some conns') :
    pool (events ++ [e]) = some conns' := by
  have hfold : List.foldlM connection.fleetStep [] events = some conns := h
  rw [pool, Component.run, List.foldlM_append, hfold]
  simp [he]

/-- An event of one connection. -/
theorem fleetStep_on {conns : List Conn} {i : ℕ} {e : ConnEvent} {c c' : Conn}
    (hc : conns[i]? = some c) (hc' : c.step e = some c') :
    connection.fleetStep conns (.on i e) = some (conns.set i c') := by
  have hstep : connection.step c e = some c' := hc'
  simp [Component.fleetStep, hc, hstep]

/-- The connections are those of a pool, whose peer is the server. -/
theorem World.exists_pool (h : World.run S events = some w) : ∃ es, pool es = some w.conns := by
  refine World.run_induction (P := fun w => ∃ es, pool es = some w.conns) ⟨[], rfl⟩ ?_ h
  rintro w e w' ⟨es, hes⟩ he
  cases e with
  | dial conf key =>
    cases he
    exact ⟨_, pool_snoc (e := .start (conf, key)) hes rfl⟩
  | on i e =>
    rw [World.step] at he
    split at he
    · cases he
    · obtain ⟨c, hc, he⟩ := Option.bind_eq_some_iff.mp he
      obtain ⟨c', hc', he⟩ := Option.bind_eq_some_iff.mp he
      cases he
      exact ⟨_, pool_snoc hes (fleetStep_on hc hc')⟩
  | serve i now =>
    obtain ⟨c, hc, he⟩ := Option.bind_eq_some_iff.mp he
    obtain ⟨x, hx, he⟩ := Option.bind_eq_some_iff.mp he
    obtain ⟨c', hc', he⟩ := Option.bind_eq_some_iff.mp he
    cases he
    have hstep : c.step (.answer (S.exec w.redis c.session now x.cmd).2) = some c' := hc'
    exact ⟨_, pool_snoc hes (fleetStep_on hc hstep)⟩
  | put place key =>
    cases he
    exact ⟨es, hes⟩
  | load body =>
    cases he
    exact ⟨es, hes⟩
  | scriptFlush =>
    cases he
    exact ⟨es, hes⟩

/-- A request of the system: its connection, and which use of it. -/
abbrev RequestId := ℕ × ℕ

/-- The request that sent a command. -/
def Served.request (x : Served) : RequestId := (x.conn, x.sender.use)

/-- The request whose round trip was finalized. -/
def Done.request (d : Done) : RequestId := (d.conn, d.sender.use)

/-- The command ran a script, which did not say that it was not there. -/
def Served.Effective (x : Served) : Prop := x.run.isSome ∧ ¬ x.reply.IsNoScript

/-- Whether a command was effective can be decided. -/
instance (x : Served) : Decidable x.Effective := inferInstanceAs (Decidable (_ ∧ _))

/-- The answers to a request. -/
theorem Conn.Told.answersOf_eq {c : Conn} {served : List Served} {done : List Done}
    (h : c.Told served done) (use : ℕ) : answersOf c.answers use =
      (served.filter fun x => x.sender.use = use).map fun x => (x.cmd, x.reply) := by
  rw [answersOf, h.answers, List.filter_map, List.map_map]
  rfl

/-- The last of the answers to a request, and the commands before it. -/
theorem exists_served_of_answersOf {served : List Served} {use : ℕ}
    {before : List (Command × Resp)} {cmd : Command} {v : Resp}
    (h : answersOf (served.map Served.answer) use = before ++ [(cmd, v)]) :
    ∃ pre x post, served = pre ++ x :: post ∧ x.sender.use = use ∧ x.cmd = cmd ∧ x.reply = v ∧
      answersOf (pre.map Served.answer) use = before := by
  have hmap : ∀ l : List Served, answersOf (l.map Served.answer) use =
      (l.filter fun x => x.sender.use = use).map fun x => (x.cmd, x.reply) := by
    intro l
    rw [answersOf, List.filter_map, List.map_map]
    rfl
  rw [hmap] at h
  obtain ⟨l₁, l₂, hsplit, hbefore, hlast⟩ := List.map_eq_append_iff.mp h
  obtain ⟨x, l₃, rfl, hx, -⟩ := List.map_eq_cons_iff.mp hlast
  obtain ⟨pre, rest, rfl, rfl, hrest⟩ := List.filter_eq_append_iff.mp hsplit
  obtain ⟨mid, post, rfl, hmid, huse, -⟩ := List.filter_eq_cons_iff.mp hrest
  -- What stands between is of other uses.
  refine ⟨pre ++ mid, x, post, by simp, by simpa using huse, congrArg Prod.fst hx,
    congrArg Prod.snd hx, ?_⟩
  rw [hmap, List.filter_append, List.filter_eq_nil_iff.mpr hmid, List.append_nil]
  exact hbefore

/-! ## At most once -/

/-- Of the commands of a request, at most one is effective. -/
theorem runs_le_one (h : World.run S events = some w) (id : RequestId) :
    (w.served.filter fun x => x.request = id ∧ x.Effective).length ≤ 1 := by
  obtain ⟨es, hes⟩ := World.exists_pool h
  have hinv := World.inv_of_run h
  obtain ⟨i, use⟩ := id
  rw [← List.countP_eq_length_filter]
  have hon : w.served.countP (fun x => decide (x.request = (i, use) ∧ x.Effective)) ≤
      ((w.servedOn i).filter fun x => x.sender.use = use).countP fun x =>
        !decide x.cmd.IsPrelude && !decide x.reply.IsNoScript := by
    rw [World.servedOn, List.filter_filter, List.countP_filter]
    refine List.countP_mono_left fun x hx hid => ?_
    rw [decide_eq_true_eq] at hid
    obtain ⟨hid, hsome, hscript⟩ := hid
    obtain ⟨y, hy⟩ := Option.isSome_iff_exists.mp hsome
    have hcmd : ¬ x.cmd.IsPrelude := ((hinv.ran x hx).asks y hy).not_isPrelude
    obtain ⟨hconn, huse⟩ := Prod.mk.inj hid
    simp [hcmd, hscript, hconn, huse]
  refine hon.trans ?_
  cases hc : w.conns[i]? with
  | none =>
    -- There is no such connection.
    have hnone : w.servedOn i = [] := by
      refine List.filter_eq_nil_iff.mpr fun x hx => ?_
      have hlt := hinv.servedConn x hx
      have hge := List.getElem?_eq_none_iff.mp hc
      rw [decide_eq_true_eq]
      omega
    rw [hnone]
    exact Nat.zero_le 1
  | some c =>
    obtain ⟨conf, key, htried⟩ := (Conn.tries_of_pool hes c (List.mem_of_getElem? hc)).past use
    have hle := htried.countP_le
    rw [(hinv.told i c hc).answersOf_eq, List.countP_map] at hle
    exact hle

/-! ## The reply -/

/-- The location's script is named by its SHA1, as after `ngx_http_ratelimit_postconfiguration`. -/
def Server.Names (S : Server V) (conf : LocConf) : Prop :=
  (zoneScript conf).sha = S.sha1 (zoneScript conf).body

/-- A session in which the prelude was accepted has the configured database, if there is one. -/
theorem database_replay_prelude {conf : LocConf} {answers : List (Command × Resp)}
    (hcmds : answers.map Prod.fst = buildPrelude conf) (hoks : Accepts answers)
    (hdatabase : 0 < conf.database) (s : Session) :
    (s.replay answers).database = conf.database.toNat := by
  have hselect : Command.select conf.database.toNat ∈ answers.map Prod.fst := by
    rw [hcmds, buildPrelude, if_pos hdatabase]
    simp
  obtain ⟨⟨cmd, v⟩, hmem, hcmd⟩ := List.mem_map.mp hselect
  obtain ⟨line, hv⟩ := hoks _ hmem
  have hsets : ∃ a ∈ answers, SetsDatabase a.1 a.2 := ⟨_, hmem, _, line, hcmd, hv⟩
  rw [(Session.replay_get Session.database SetsDatabase Session.exec_database_of_sets
    Session.exec_database_of_not s .fresh answers).mpr (.inr hsets), replay_prelude hcmds hoks,
    configured, if_pos hdatabase]

/-- The answers to a request that has read its reply: the prelude was accepted, and the last answer
is that to its script. -/
theorem OwnReply.split {conf : LocConf} {key : Bytes} {answers : List (Command × Resp)} {v : Resp}
    (h : OwnReply conf key answers v) : ∃ before fallback,
      answers = before ++ [(scriptCommand conf key fallback, v)] ∧
        (0 < conf.database → ∀ s : Session,
          (s.replay before).database = conf.database.toNat) := by
  obtain ⟨oks, hcmds, hoks, hanswers | ⟨v', -, hanswers⟩⟩ := h
  · exact ⟨oks, false, hanswers, fun hdb s => database_replay_prelude hcmds hoks hdb s⟩
  · refine ⟨oks ++ [(scriptCommand conf key false, v')], true, by simpa using hanswers, ?_⟩
    intro hdb s
    rw [Conn.replay_append]
    exact database_replay_prelude hcmds hoks hdb s

/-- What the script of a location is run with. -/
structure Server.RunsFor (S : Server V) (conf : LocConf) (key : Bytes) (y : ScriptRun) : Prop where
  key : y.place.key = key
  args : y.args = scriptArgs conf
  sha1 : S.Names conf → S.sha1 y.body = S.sha1 (zoneScript conf).body

/-- A script that a location's command runs is its own. -/
theorem Server.Asks.runsFor {conf : LocConf} {key : Bytes} {fallback : Bool} {y : ScriptRun}
    (h : S.Asks (scriptCommand conf key fallback) y) : S.RunsFor conf key y := by
  cases fallback with
  | false =>
    rcases h with h | ⟨body, -, h⟩
    · obtain ⟨hsha, hkey, hargs⟩ := Command.evalsha.inj h
      exact ⟨hkey.symm, hargs.symm, fun hnames => hsha.symm.trans hnames⟩
    · cases h
  | true =>
    rcases h with h | ⟨body, hsha, h⟩
    · cases h
    · obtain ⟨hbody, hkey, hargs⟩ := Command.eval.inj h
      exact ⟨hkey.symm, hargs.symm, fun _ => by rw [hbody]; exact hsha⟩

/-- A script that a request runs is its location's. -/
theorem Server.Ran.runsFor {x : Served} (h : S.Ran x) {y : ScriptRun} (hy : x.run = some y) :
    S.RunsFor x.sender.conf x.sender.key y := by
  have hasks := h.asks y hy
  have hcommands : x.cmd ∈ buildPrelude x.sender.conf ∨
      x.cmd = scriptCommand x.sender.conf x.sender.key false ∨
      x.cmd = scriptCommand x.sender.conf x.sender.key true := by
    simpa [allCommands, firstFrame] using h.command
  rcases hcommands with hcmd | hcmd | hcmd
  · exact absurd (isPrelude_of_mem hcmd) hasks.not_isPrelude
  · rw [hcmd] at hasks
    exact hasks.runsFor
  · rw [hcmd] at hasks
    exact hasks.runsFor

/-- The answer that a request has read as its reply is that of its own run. -/
theorem World.Inv.exists_own_run (hinv : w.Inv S) {d : Done} (hd : d ∈ w.done)
    (hexit : d.trip.exit = some .replied) :
    ∃ x ∈ w.served, ∃ y, x.request = d.request ∧ x.sender = d.sender ∧ x.run = some y ∧
      S.RunsFor d.sender.conf d.sender.key y ∧
      (0 < d.sender.conf.database → y.place.database = d.sender.conf.database.toNat) ∧
      (∃ values, x.reply = .array values) ∧
      (x.reply = .array d.trip.parse.reply.elements ↔ ¬ Misread x.reply) := by
  have hlt := hinv.doneConn d hd
  have hc : w.conns[d.conn]? = some (w.conns[d.conn]) := List.getElem?_eq_getElem hlt
  generalize w.conns[d.conn] = c at hc
  have htold := hinv.told _ c hc
  have hdon : d ∈ w.doneOn d.conn := List.mem_filter.mpr ⟨hd, by simp⟩
  obtain ⟨v, hown, hread⟩ := (htold.inv.accepted _ (htold.accepted d hdon hexit)).own
  obtain ⟨before, fallback, hanswers, hdatabase⟩ := hown.split
  rw [htold.answers] at hanswers
  obtain ⟨pre, x, post, hsplit, huse, hcmd, hreply, hpre⟩ := exists_served_of_answersOf hanswers
  have hxon : x ∈ w.servedOn d.conn := by rw [hsplit]; simp
  obtain ⟨hx, hconn⟩ := List.mem_filter.mp hxon
  rw [decide_eq_true_eq] at hconn
  have hsender : x.sender = d.sender := htold.owner d hdon x hxon huse
  have hran := hinv.ran x hx
  -- Only an array is read as a reply, and what is not run is answered with an error.
  have harray : ∃ values, x.reply = .array values := by
    rw [hreply]
    by_cases hmis : Misread v
    · obtain ⟨e₁, e₂, e₃, e₄, e₅, rfl, -⟩ := hmis
      exact ⟨_, rfl⟩
    · exact ⟨_, hread.mpr hmis⟩
  have hscript : ¬ x.cmd.IsPrelude := by
    rw [hcmd]
    cases fallback <;> exact id
  cases hrun : x.run with
  | none =>
    obtain ⟨line, herror⟩ := hran.refused hrun hscript
    obtain ⟨values, hvalues⟩ := harray
    exact absurd (herror.symm.trans hvalues) nofun
  | some y =>
    refine ⟨x, hx, y, Prod.ext hconn huse, hsender, hrun, ?_, ?_, harray, ?_⟩
    · rw [← hsender]
      exact hran.runsFor hrun
    · intro hdb
      rw [htold.place pre x post hsplit y hrun, huse, hpre]
      exact hdatabase hdb _
    · rw [hreply]
      exact hread

/-- Each request runs its script at most once, whatever becomes of it: answered, lost or given up.
All that it runs is its location's script, on its own key, with its location's arguments. -/
theorem runs_at_most_once (h : World.run S events = some w) :
    (∀ id, (w.served.filter fun x => x.request = id ∧ x.Effective).length ≤ 1) ∧
      ∀ x ∈ w.served, ∀ y, x.run = some y → S.RunsFor x.sender.conf x.sender.key y :=
  ⟨runs_le_one h, fun x hx _ hy => ((World.inv_of_run h).ran x hx).runsFor hy⟩

/-- A server on which every script is answered with `{0, 5, 4, -1, 60}`. -/
def constantServer : Server Unit where
  requirepass := none
  databases := 16
  sha1 _ := text "71dfddf69ec027fcc1aeb9aa99c59031084470fa"
  lua _ _ _ _ k := (k, .array (Reply.elements ⟨0, 5, 4, -1, 60⟩))
  lua_wellFormed _ _ _ _ _ := by simp [Reply.elements, WellFormed, AllWellFormed]

/-- A location with a script of its own, in database 5. -/
def constantLocation : LocConf :=
  { LocConf.ofZone ⟨.custom, 5, 60, 0, ⟨text "return \x7b0, 5, 4, -1, 60\x7d",
      text "71dfddf69ec027fcc1aeb9aa99c59031084470fa"⟩⟩ fun _ => ⟨[], []⟩ with database := 5 }

/-- The first request finds that the script is not loaded, the second one uses its connection and
the script, and the third one is given up after its script was run. -/
def threeRequests : List (WorldEvent Unit) :=
  [.dial constantLocation (text "a"), .on 0 .flush, .on 0 .flush, .serve 0 1000000,
    .serve 0 1000000, .on 0 (.read (Io.good [.data 4096] [.sent 4096]) true),
    .serve 0 2000000, .on 0 (.read (Io.good [.data 4096] []) true),
    .on 0 (.reuse constantLocation (text "b")), .on 0 .flush, .on 0 .flush,
    .dial constantLocation (text "b"), .on 1 .flush, .on 1 .flush, .serve 1 3000000,
    .serve 0 3000000, .serve 1 3000000, .on 1 (.abort false), .serve 0 4000000,
    .on 0 (.read (Io.good [.data 4096] []) true)]

/-- The requests that have run their scripts, in which database and when, and how the round trips
have ended. -/
def World.summary (w : World V) : List (RequestId × ℕ × ℕ) × List (RequestId × Option Exit) :=
  (w.served.filterMap fun x => x.run.map fun y => (x.request, y.place.database, y.time),
    w.done.map fun d => (d.request, d.trip.exit))

/-- What happens to three requests, of which two share a connection. -/
theorem summary_threeRequests : (World.run constantServer threeRequests).map World.summary =
    some ([((0, 0), 5, 2000000), ((1, 0), 5, 3000000), ((0, 1), 5, 4000000)],
      [((0, 0), some .replied), ((0, 1), some .replied)]) := by
  decide +kernel

/-- Each of them has its script run once. -/
theorem runs_at_most_once_three_requests : ∃ w, World.run constantServer threeRequests = some w ∧
    w.summary.1 = [((0, 0), 5, 2000000), ((1, 0), 5, 3000000), ((0, 1), 5, 4000000)] ∧
    ∀ id, (w.served.filter fun x => x.request = id ∧ x.Effective).length ≤ 1 := by
  obtain ⟨w, hw, hsummary⟩ := Option.map_eq_some_iff.mp summary_threeRequests
  exact ⟨w, hw, congrArg Prod.fst hsummary, (runs_at_most_once hw).1⟩

/-- A list of at most one element that has a member holds it alone. -/
theorem eq_singleton_of_mem {α : Type*} {l : List α} {a : α} (hlen : l.length ≤ 1) (ha : a ∈ l) :
    l = [a] := by
  obtain ⟨b, rfl⟩ : ∃ b, l = [b] := by
    refine List.length_eq_one_iff.mp (Nat.le_antisymm hlen ?_)
    exact List.length_pos_of_mem ha
  rw [List.mem_singleton.mp ha]

/-- An effective command is the only one of its request. -/
theorem filter_effective_eq (h : World.run S events = some w) {x : Served} (hx : x ∈ w.served)
    (heffective : x.Effective) :
    (w.served.filter fun x' => x'.request = x.request ∧ x'.Effective) = [x] :=
  eq_singleton_of_mem (runs_le_one h x.request)
    (List.mem_filter.mpr ⟨hx, decide_eq_true ⟨rfl, heffective⟩⟩)

/-- A command that ran a script which answered with an array is effective. -/
theorem Served.effective_of_array {x : Served} {y : ScriptRun} {values : List Resp}
    (hrun : x.run = some y) (hreply : x.reply = .array values) : x.Effective := by
  refine ⟨by rw [hrun]; rfl, ?_⟩
  rw [hreply]
  exact id

/-- A request that has read a reply has run its own script exactly once: the one that its location
has by the SHA1, on its own key, with its location's arguments, and in its location's database if
that is configured; and what it has read is the reply of this run, unless that is misread. -/
theorem reply_of_own_run (h : World.run S events = some w) :
    ∀ d ∈ w.done, d.trip.exit = some .replied → ∃ x y,
      (w.served.filter fun x => x.request = d.request ∧ x.Effective) = [x] ∧
      x.sender = d.sender ∧ x.run = some y ∧ S.RunsFor d.sender.conf d.sender.key y ∧
      (0 < d.sender.conf.database → y.place.database = d.sender.conf.database.toNat) ∧
      (x.reply = .array d.trip.parse.reply.elements ↔ ¬ Misread x.reply) := by
  intro d hd hexit
  have hinv := World.inv_of_run h
  obtain ⟨x, hx, y, hid, hsender, hrun, hown, hdatabase, ⟨values, hvalues⟩, hread⟩ :=
    hinv.exists_own_run hd hexit
  refine ⟨x, y, ?_, hsender, hrun, hown, hdatabase, hread⟩
  rw [← hid]
  exact filter_effective_eq h hx (Served.effective_of_array hrun hvalues)

/-- And the last one its reply from its own run. -/
theorem reply_of_own_run_three_requests : ∃ w, World.run constantServer threeRequests = some w ∧
    ∃ d ∈ w.done, d.request = (0, 1) ∧ d.trip.exit = some .replied ∧ ∃ x y,
      (w.served.filter fun x => x.request = d.request ∧ x.Effective) = [x] ∧ x.run = some y ∧
        constantServer.RunsFor d.sender.conf d.sender.key y := by
  obtain ⟨w, hw, hsummary⟩ := Option.map_eq_some_iff.mp summary_threeRequests
  have hsecond : ((0, 1), some Exit.replied) ∈ w.summary.2 := by
    rw [hsummary]
    simp
  obtain ⟨d, hd, heq⟩ := List.mem_map.mp hsecond
  obtain ⟨hid, hexit⟩ := Prod.mk.inj heq
  obtain ⟨x, y, hx, -, hrun, hown, -⟩ := reply_of_own_run hw d hd hexit
  exact ⟨w, hw, d, hd, hid, hexit, x, y, hx, hrun, hown⟩

end NginxRatelimit
