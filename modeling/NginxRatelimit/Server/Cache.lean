import NginxRatelimit.Request.Once
import NginxRatelimit.Server.Order

/-!
# The script cache

A request sends the whole script only when the server has said that it does not know it. So while
the scripts are not flushed, a script that the server knows is sent again only by requests that were
refused before it did: `no_eval_when_loaded`.
-/

namespace NginxRatelimit

open Library Resp RoundTrip

variable {V : Type} {S : Server V} {w w' : World V} {events : List (WorldEvent V)}

/-! ## Known scripts -/

namespace Server

variable {ρ : Redis V} {s : Session} {now : ℕ} {cmd : Command} {sha : Bytes}

/-- The server knows a script by this SHA1. -/
def Knows (S : Server V) (ρ : Redis V) (sha : Bytes) : Prop :=
  ∃ body ∈ ρ.scripts, S.sha1 body = sha

/-- A SHA1 that is known finds a text. -/
theorem Knows.exists_known (h : S.Knows ρ sha) : ∃ body, S.known ρ sha = some body := by
  obtain ⟨body, hmem, hsha⟩ := h
  rw [← Option.isSome_iff_exists, known, List.find?_isSome]
  exact ⟨body, hmem, decide_eq_true hsha⟩

/-- A command leaves the scripts that are known. -/
theorem Knows.exec (h : S.Knows ρ sha) : S.Knows (S.exec ρ s now cmd).1 sha := by
  cases hrun : S.runOf ρ s now cmd with
  | none =>
    rw [exec_none hrun]
    exact h
  | some y =>
    rw [exec_some hrun]
    obtain ⟨body, hmem, hsha⟩ := h
    refine ⟨body, ?_, hsha⟩
    cases cmd with
    | auth password => exact hmem
    | select database => exact hmem
    | evalsha sha key args => exact hmem
    | eval body' key args =>
      dsimp only [learn]
      split
      · exact List.mem_append_left _ hmem
      · exact hmem

/-- No script says by itself that it is not there. -/
def Quiet (S : Server V) : Prop :=
  ∀ body key args now k, ¬ (S.lua body key args now k).2.IsNoScript

/-- A script that is known is not refused. -/
theorem Knows.not_noScript (h : S.Knows ρ sha) (hquiet : S.Quiet) (key : Bytes) (args : List ℕ) :
    ¬ (S.exec ρ s now (.evalsha sha key args)).2.IsNoScript := by
  obtain ⟨body, hknown⟩ := h.exists_known
  cases hrun : S.runOf ρ s now (.evalsha sha key args) with
  | some y =>
    rw [exec_some hrun]
    exact hquiet _ _ _ _ _
  | none =>
    -- Only the authentication is missing.
    have hunauthorized : ¬ S.authorized s = true := by
      intro hauthorized
      rw [runOf, if_pos hauthorized, hknown] at hrun
      cases hrun
    have hline : ¬ (Resp.error (text "NOAUTH Authentication required.")).IsNoScript := by
      decide +kernel
    rw [exec_none hrun, plainReply, if_neg hunauthorized]
    exact hline

end Server

/-- An event other than a flush leaves the scripts that are known. -/
theorem World.knows_of_step {sha : Bytes} (h : S.Knows w.redis sha) {e : WorldEvent V}
    (hflush : e ≠ .scriptFlush) (he : w.step S e = some w') : S.Knows w'.redis sha := by
  cases e with
  | dial conf key =>
    cases he
    exact h
  | on i e =>
    rw [World.step] at he
    split at he
    · cases he
    · obtain ⟨c, -, he⟩ := Option.bind_eq_some_iff.mp he
      obtain ⟨c', -, he⟩ := Option.bind_eq_some_iff.mp he
      cases he
      exact h
  | serve i now =>
    obtain ⟨c, -, he⟩ := Option.bind_eq_some_iff.mp he
    obtain ⟨x, -, he⟩ := Option.bind_eq_some_iff.mp he
    obtain ⟨c', -, he⟩ := Option.bind_eq_some_iff.mp he
    cases he
    exact h.exec
  | put place key =>
    cases he
    exact h
  | load body =>
    cases he
    obtain ⟨body', hmem, hsha⟩ := h
    exact ⟨body', List.mem_append_left _ hmem, hsha⟩
  | scriptFlush => exact absurd rfl hflush

/-- As long as the scripts are not flushed, a script that was known stays known, and is not
refused. -/
theorem World.not_noScript_of_knows {events₁ : List (WorldEvent V)} {w₁ : World V}
    (h₁ : World.run S events₁ = some w₁) (h : World.run S (events₁ ++ events) = some w)
    (hflush : .scriptFlush ∉ events) (hquiet : S.Quiet) {sha : Bytes}
    (hknows : S.Knows w₁.redis sha) : S.Knows w.redis sha ∧
      ∃ later, w.served = w₁.served ++ later ∧
        ∀ x ∈ later, ∀ key args, x.cmd = .evalsha sha key args → ¬ x.reply.IsNoScript := by
  induction events using List.reverseRecOn generalizing w with
  | nil =>
    rw [List.append_nil, h₁] at h
    cases h
    exact ⟨hknows, [], (List.append_nil _).symm, fun x hx => absurd hx List.not_mem_nil⟩
  | append_singleton events e ih =>
    rw [← List.append_assoc] at h
    obtain ⟨v, hv, he⟩ := World.run_snoc_iff.mp h
    rw [List.mem_append, List.mem_singleton, not_or] at hflush
    obtain ⟨hknown, later, hlater, hrefused⟩ := ih hv hflush.1
    refine ⟨World.knows_of_step hknown (Ne.symm hflush.2) he, ?_⟩
    rcases World.served_of_step he with hsame | ⟨i, now, c, x, -, -, -, hmoved⟩
    · exact ⟨later, hsame.trans hlater, hrefused⟩
    · refine ⟨later ++ [_], by rw [hmoved, hlater, List.append_assoc], fun y hy key args hcmd => ?_⟩
      rcases List.mem_append.mp hy with hy | hy
      · exact hrefused y hy key args hcmd
      · obtain rfl := List.mem_singleton.mp hy
        dsimp only at hcmd ⊢
        rw [hcmd]
        exact hknown.not_noScript hquiet key args

/-! ## Requests -/

/-- The commands of a request have one sender. -/
theorem World.sender_of_request (h : World.run S events = some w) :
    ∀ x ∈ w.served, ∀ y ∈ w.served, x.request = y.request → x.sender = y.sender := by
  induction events using List.reverseRecOn generalizing w with
  | nil =>
    obtain rfl : World.start = w := Option.some.inj h
    exact fun x hx => absurd hx List.not_mem_nil
  | append_singleton events e ih =>
    obtain ⟨v, hv, he⟩ := World.run_snoc_iff.mp h
    have hold := ih hv
    rcases World.served_of_step he with hsame | ⟨i, now, c, z, hc, hz, -, hmoved⟩
    · rwa [hsame]
    · have htold := (World.inv_of_run hv).told i c hc
      have hsender : z.sender = c.sender := htold.inv.queue z (List.mem_of_mem_head? hz)
      -- An older command of the connection in the same use is of the request that has it now.
      have hnew : ∀ x ∈ v.served, x.request = (i, z.sender.use) → x.sender = z.sender := by
        intro x hx hid
        obtain ⟨hconn, huse⟩ := Prod.mk.inj hid
        rw [hsender] at huse ⊢
        exact htold.sender x (List.mem_filter.mpr ⟨hx, decide_eq_true hconn⟩) huse
      rw [hmoved]
      intro x hx y hy hid
      rcases List.mem_append.mp hx with hx | hx
      · rcases List.mem_append.mp hy with hy | hy
        · exact hold x hx y hy hid
        · obtain rfl := List.mem_singleton.mp hy
          exact hnew x hx hid
      · obtain rfl := List.mem_singleton.mp hx
        rcases List.mem_append.mp hy with hy | hy
        · exact (hnew y hy hid.symm).symm
        · obtain rfl := List.mem_singleton.mp hy
          rfl

/-- The two commands with the script. -/
theorem eq_scriptCommand_of_mem {conf : LocConf} {key : Bytes} {cmd : Command}
    (h : cmd ∈ allCommands conf key) (hcmd : ¬ cmd.IsPrelude) :
    cmd = scriptCommand conf key cmd.isEval := by
  have hcommands : cmd ∈ buildPrelude conf ∨ cmd = scriptCommand conf key false ∨
      cmd = scriptCommand conf key true := by
    simpa [allCommands, firstFrame] using h
  rcases hcommands with h | h | h
  · exact absurd (isPrelude_of_mem h) hcmd
  · rw [h]
    rfl
  · rw [h]
    rfl

/-- A request sends an `EVAL` only after its `EVALSHA` was refused. -/
theorem World.exists_refused (h : World.run S events = some w) {x : Served} (hx : x ∈ w.served)
    (heval : x.cmd.isEval = true) : ∃ y ∈ w.served, y.request = x.request ∧
      y.cmd = scriptCommand x.sender.conf x.sender.key false ∧ y.reply.IsNoScript := by
  obtain ⟨es, hes⟩ := World.exists_pool h
  have hinv := World.inv_of_run h
  have hc := List.getElem?_eq_getElem (hinv.servedConn x hx)
  have htold := hinv.told _ _ hc
  obtain ⟨conf, key, htried⟩ :=
    (Conn.tries_of_pool hes _ (List.mem_of_getElem? hc)).past x.sender.use
  rw [htold.answersOf_eq] at htried
  have hon : x ∈ (w.servedOn x.conn).filter fun y => y.sender.use = x.sender.use :=
    List.mem_filter.mpr ⟨List.mem_filter.mpr ⟨hx, by simp⟩, by simp⟩
  have hcmd : ¬ x.cmd.IsPrelude := by
    intro hprelude
    cases hx : x.cmd with
    | auth password => simp [hx, Command.isEval] at heval
    | select database => simp [hx, Command.isEval] at heval
    | evalsha sha key args => simp [hx, Command.isEval] at heval
    | eval body key args => simp [hx, Command.IsPrelude] at hprelude
  -- The `EVAL` among the answers to the request.
  have hanswered : x.cmd ∈ (((w.servedOn x.conn).filter fun y =>
      y.sender.use = x.sender.use).map fun y => (y.cmd, y.reply)).map Prod.fst := by
    rw [List.map_map]
    exact List.mem_map_of_mem hon
  have hself := eq_scriptCommand_of_mem (htried.commands.subset hanswered) hcmd
  rw [heval] at hself
  obtain ⟨v, hv, hnoScript⟩ := htried.refused (hself ▸ hanswered)
  obtain ⟨y, hy, heq⟩ := List.mem_map.mp hv
  obtain ⟨hyserved, huse⟩ := List.mem_filter.mp hy
  obtain ⟨hyserved, hconn⟩ := List.mem_filter.mp hyserved
  obtain ⟨hycmd, hyreply⟩ := Prod.mk.inj heq
  have hrequest : y.request = x.request :=
    Prod.ext (of_decide_eq_true hconn) (of_decide_eq_true huse)
  refine ⟨y, hyserved, hrequest, ?_, hyreply ▸ hnoScript⟩
  have hycommand : ¬ y.cmd.IsPrelude := by
    rw [hycmd]
    exact id
  have hown := eq_scriptCommand_of_mem (hinv.ran y hyserved).command hycommand
  rw [World.sender_of_request h y hyserved x hx hrequest] at hown
  rw [hown, hycmd]
  rfl

/-- While the scripts are not flushed, a script that the server has come to know is sent only by
requests whose `EVALSHA` it had refused before: none that is begun later sends it. -/
theorem no_eval_when_loaded {events₁ : List (WorldEvent V)} {w₁ : World V}
    (h₁ : World.run S events₁ = some w₁) (h : World.run S (events₁ ++ events) = some w)
    (hflush : .scriptFlush ∉ events) (hquiet : S.Quiet) {sha : Bytes}
    (hknows : S.Knows w₁.redis sha) : ∃ later, w.served = w₁.served ++ later ∧
      ∀ x ∈ later, x.cmd.isEval = true → (zoneScript x.sender.conf).sha = sha →
        w₁.Begun x.request ∧ ∃ y ∈ w₁.served, y.request = x.request ∧
          y.cmd = scriptCommand x.sender.conf x.sender.key false ∧ y.reply.IsNoScript := by
  obtain ⟨-, later, hlater, hrefused⟩ :=
    World.not_noScript_of_knows h₁ h hflush hquiet hknows
  refine ⟨later, hlater, fun x hx heval hsha => ?_⟩
  have hxw : x ∈ w.served := by
    rw [hlater]
    exact List.mem_append_right _ hx
  obtain ⟨y, hy, hid, hcmd, hnoScript⟩ := World.exists_refused h hxw heval
  rw [hlater] at hy
  rcases List.mem_append.mp hy with hy | hy
  · exact ⟨hid ▸ (World.inv_of_run h₁).begun hy, y, hy, hid, hcmd, hnoScript⟩
  · -- Then its script was known.
    refine absurd hnoScript (hrefused y hy x.sender.key (scriptArgs x.sender.conf) ?_)
    rw [hcmd, ← hsha]
    rfl

/-- Two requests are refused, and one of them has loaded the script. -/
def twoRefused : List (WorldEvent Unit) :=
  [.dial constantLocation (text "a"), .on 0 .flush, .on 0 .flush, .serve 0 1000000,
    .serve 0 1000000, .dial constantLocation (text "b"), .on 1 .flush, .on 1 .flush,
    .serve 1 1000000, .serve 1 1000000,
    .on 0 (.read (Io.good [.data 4096] [.sent 4096]) true), .serve 0 2000000]

/-- The other one sends it as well, and a third one does not. -/
def afterRefusal : List (WorldEvent Unit) :=
  [.on 1 (.read (Io.good [.data 4096] [.sent 4096]) true), .serve 1 2000000,
    .dial constantLocation (text "c"), .on 2 .flush, .on 2 .flush, .serve 2 3000000,
    .serve 2 3000000]

/-- Two requests were refused before the script was loaded: both send their `EVAL`, and a third one
does not. -/
theorem no_eval_when_loaded_two_refused : ∃ w₁ w later,
    World.run constantServer twoRefused = some w₁ ∧
    World.run constantServer (twoRefused ++ afterRefusal) = some w ∧
    w.served = w₁.served ++ later ∧
    (later.filter fun x => x.cmd.isEval).map Served.request = [(1, 0)] ∧
    ∀ x ∈ later, x.cmd.isEval = true → (zoneScript x.sender.conf).sha = constantServer.sha1 [] →
      ∃ y ∈ w₁.served, y.request = x.request ∧ y.reply.IsNoScript := by
  have hfirst : (World.run constantServer twoRefused).map (fun w =>
      (w.served.length, w.redis.scripts.isEmpty)) = some (5, false) := by
    decide +kernel
  have hlast : (World.run constantServer (twoRefused ++ afterRefusal)).map (fun w =>
      ((w.served.drop 5).filter fun x => x.cmd.isEval).map Served.request) = some [(1, 0)] := by
    decide +kernel
  obtain ⟨w₁, h₁, hcounts⟩ := Option.map_eq_some_iff.mp hfirst
  obtain ⟨w, h, hevals⟩ := Option.map_eq_some_iff.mp hlast
  obtain ⟨hlength, hloaded⟩ := Prod.mk.inj hcounts
  have hflush : WorldEvent.scriptFlush ∉ afterRefusal := by simp [afterRefusal]
  have hquiet : constantServer.Quiet := fun _ _ _ _ _ => id
  have hknows : constantServer.Knows w₁.redis (constantServer.sha1 []) := by
    cases hscripts : w₁.redis.scripts with
    | nil => simp [hscripts] at hloaded
    | cons body bodies => exact ⟨body, by rw [hscripts]; exact List.mem_cons_self, rfl⟩
  obtain ⟨later, hlater, hrefused⟩ := no_eval_when_loaded h₁ h hflush hquiet hknows
  refine ⟨w₁, w, later, h₁, h, hlater, ?_, fun x hx heval hsha => ?_⟩
  · rw [hlater, ← hlength, List.drop_left] at hevals
    exact hevals
  · obtain ⟨-, y, hy, hid, -, hnoScript⟩ := hrefused x hx heval hsha
    exact ⟨y, hy, hid, hnoScript⟩

end NginxRatelimit
