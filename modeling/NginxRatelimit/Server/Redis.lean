import NginxRatelimit.Library.Replay
import NginxRatelimit.Pool.Conn
import NginxRatelimit.Redis

/-!
# The server

The commands that the module sends, as a Redis server executes them: `AUTH` and `SELECT` set the
connection's session, `EVALSHA` runs a script that the server knows by its SHA1, and `EVAL` makes it
known and runs it. Without authentication, where the server asks for it, nothing is executed but
`AUTH`. What a script does to its key and what it answers is `lua`, a parameter, and so is SHA1; a
script uses no other key.
-/

namespace NginxRatelimit

open Library Resp

/-- A key of a database. -/
structure Place where
  /-- The database. -/
  database : ℕ
  /-- The key. -/
  key : Bytes
  deriving DecidableEq

/-- A script that is run. -/
structure ScriptRun where
  /-- `KEYS[1]`, in the database of the session. -/
  place : Place
  /-- The Lua text. -/
  body : Bytes
  /-- `ARGV`. -/
  args : List ℕ
  /-- The server time. -/
  time : ℕ
  deriving DecidableEq

/-- The settings of a server whose keys hold values of type `V`, and its Lua interpreter. -/
structure Server (V : Type) where
  /-- `requirepass`, if it is set. -/
  requirepass : Option Bytes
  /-- The number of databases. -/
  databases : ℕ
  /-- The SHA1 of a text, in hex. -/
  sha1 : Bytes → Bytes
  /-- A Lua text, run on its key: from `KEYS[1]`, `ARGV`, the time and the key to the key that it
  leaves and its reply. -/
  lua : Bytes → Bytes → List ℕ → ℕ → Key V → Key V × Resp
  /-- A reply is a RESP value. -/
  lua_wellFormed : ∀ body key args now k, (lua body key args now k).2.WellFormed

/-- What a server keeps. -/
structure Redis (V : Type) where
  /-- The keys of all databases. -/
  keys : Place → Key V
  /-- The scripts that it knows, oldest first. -/
  scripts : List Bytes

variable {V : Type}

/-- A server without keys and scripts. -/
def Redis.empty : Redis V := ⟨fun _ => none, []⟩

namespace Server

variable (S : Server V) (ρ : Redis V) (s : Session) (now : ℕ)

/-- The runs of scripts on one key. -/
def machine : Machine (Key V) ScriptRun Resp where
  step k x := S.lua x.body x.place.key x.args x.time k

/-- The script with this SHA1. -/
def known (sha : Bytes) : Option Bytes := ρ.scripts.find? fun body => S.sha1 body = sha

/-- The session may execute commands. -/
def authorized : Bool := S.requirepass.all fun password => s.user = some password

/-- The script that a command runs, if it runs one. -/
def runOf : Command → Option ScriptRun
  | .auth _ | .select _ => none
  | .evalsha sha key args =>
    if S.authorized s then
      (S.known ρ sha).map fun body => ⟨⟨s.database, key⟩, body, args, now⟩
    else none
  | .eval body key args =>
    if S.authorized s then
      -- a text that has the SHA1 of a known one is taken for it
      some ⟨⟨s.database, key⟩, (S.known ρ (S.sha1 body)).getD body, args, now⟩
    else none

/-- The answer to a command that runs no script. -/
def plainReply : Command → Resp
  | .auth password =>
    match S.requirepass with
    | none => .error (text "ERR AUTH <password> called without any password configured")
    | some required =>
      if password = required then .simple (text "OK")
      else .error (text "WRONGPASS invalid username-password pair or user is disabled.")
  | .select database =>
    if !S.authorized s then .error (text "NOAUTH Authentication required.")
    else if database < S.databases then .simple (text "OK")
    else .error (text "ERR DB index is out of range")
  | .evalsha _ _ _ =>
    if S.authorized s then .error (text "NOSCRIPT No matching script.")
    else .error (text "NOAUTH Authentication required.")
  | .eval _ _ _ => .error (text "NOAUTH Authentication required.")

/-- The scripts that are known after a command. -/
def learn : Command → List Bytes
  | .eval body _ _ => if S.authorized s then ρ.scripts ++ [body] else ρ.scripts
  | .auth _ | .select _ | .evalsha _ _ _ => ρ.scripts

/-- A command is executed: what the server keeps then, and its answer. -/
def exec (cmd : Command) : Redis V × Resp :=
  match S.runOf ρ s now cmd with
  | none => (ρ, S.plainReply s cmd)
  | some x =>
    let (key, v) := S.machine.step (ρ.keys x.place) x
    (⟨Function.update ρ.keys x.place key, S.learn ρ s cmd⟩, v)

variable {S ρ s now} {cmd : Command}

/-- A command that runs no script changes no key, and has a reply of its own. -/
theorem exec_none (h : S.runOf ρ s now cmd = none) :
    S.exec ρ s now cmd = (ρ, S.plainReply s cmd) := by
  rw [exec, h]

/-- One that runs a script changes its place only, and the script is known from then on. -/
theorem exec_some {x : ScriptRun} (h : S.runOf ρ s now cmd = some x) :
    S.exec ρ s now cmd = (⟨Function.update ρ.keys x.place (S.machine.step (ρ.keys x.place) x).1,
      S.learn ρ s cmd⟩, (S.machine.step (ρ.keys x.place) x).2) := by
  rw [exec, h]

/-- What a command says of the script that it runs: its SHA1, its key and its arguments. -/
def Asks (S : Server V) (cmd : Command) (x : ScriptRun) : Prop :=
  cmd = .evalsha (S.sha1 x.body) x.place.key x.args ∨
    ∃ body, S.sha1 x.body = S.sha1 body ∧ cmd = .eval body x.place.key x.args

/-- A known script has the SHA1 by which it was found. -/
theorem sha1_of_known {sha body : Bytes} (h : S.known ρ sha = some body) : S.sha1 body = sha := by
  simpa using List.find?_some h

/-- The script that a command runs is the one it asks for, and runs in the session's database. -/
theorem of_runOf {x : ScriptRun} (h : S.runOf ρ s now cmd = some x) :
    S.Asks cmd x ∧ x.place.database = s.database ∧ x.time = now := by
  cases cmd with
  | auth password => cases h
  | select database => cases h
  | evalsha sha key args =>
    rw [runOf] at h
    split_ifs at h
    obtain ⟨body, hbody, rfl⟩ := Option.map_eq_some_iff.mp h
    exact ⟨.inl (by rw [← sha1_of_known hbody]), rfl, rfl⟩
  | eval body key args =>
    rw [runOf] at h
    split_ifs at h
    cases h
    refine ⟨.inr ⟨body, ?_, rfl⟩, rfl, rfl⟩
    cases hknown : S.known ρ (S.sha1 body) with
    | none => rfl
    | some body' => exact sha1_of_known hknown

/-- Only scripts are run. -/
theorem Asks.not_isPrelude {x : ScriptRun} (h : S.Asks cmd x) : ¬ cmd.IsPrelude := by
  rcases h with rfl | ⟨body, -, rfl⟩ <;> exact id

/-- The text that runs was known, or is that of the `EVAL`. -/
theorem body_of_runOf {x : ScriptRun} (h : S.runOf ρ s now cmd = some x) :
    x.body ∈ ρ.scripts ∨ ∃ key args, cmd = .eval x.body key args := by
  cases cmd with
  | auth password => cases h
  | select database => cases h
  | evalsha sha key args =>
    rw [runOf] at h
    split_ifs at h
    obtain ⟨body, hbody, rfl⟩ := Option.map_eq_some_iff.mp h
    exact .inl (List.mem_of_find?_eq_some hbody)
  | eval body key args =>
    rw [runOf] at h
    split_ifs at h
    cases h
    cases hknown : S.known ρ (S.sha1 body) with
    | none => exact .inr ⟨key, args, rfl⟩
    | some body' => exact .inl (List.mem_of_find?_eq_some hknown)

/-- A text that is known after a command was known before, or is that of the `EVAL`. -/
theorem mem_scripts_exec {body : Bytes} (h : body ∈ (S.exec ρ s now cmd).1.scripts) :
    body ∈ ρ.scripts ∨ ∃ key args, cmd = .eval body key args := by
  cases hrun : S.runOf ρ s now cmd with
  | none =>
    rw [exec_none hrun] at h
    exact .inl h
  | some x =>
    rw [exec_some hrun] at h
    cases cmd with
    | auth password => exact .inl h
    | select database => exact .inl h
    | evalsha sha key args => exact .inl h
    | eval body' key args =>
      simp only [learn] at h
      split_ifs at h
      · rcases List.mem_append.mp h with h | h
        · exact .inl h
        · rw [List.mem_singleton.mp h]
          exact .inr ⟨key, args, rfl⟩
      · exact .inl h

/-- A script that is not run is answered with an error. -/
theorem plainReply_eq_error (h : ¬ cmd.IsPrelude) : ∃ line, S.plainReply s cmd = .error line := by
  cases cmd with
  | auth password => exact absurd trivial h
  | select database => exact absurd trivial h
  | evalsha sha key args =>
    rw [plainReply]
    split_ifs
    · exact ⟨_, rfl⟩
    · exact ⟨_, rfl⟩
  | eval body key args => exact ⟨_, rfl⟩

/-- The answers are those that a peer may give. -/
theorem exec_answers : Answers cmd (S.exec ρ s now cmd).2 := by
  cases hrun : S.runOf ρ s now cmd with
  | some x =>
    rw [exec_some hrun]
    exact ⟨S.lua_wellFormed _ _ _ _ _, fun hcmd => absurd hcmd (of_runOf hrun).1.not_isPrelude⟩
  | none =>
    rw [exec_none hrun]
    -- The texts of the answers are lines.
    cases cmd <;> simp only [plainReply] <;> repeat' split
    all_goals exact ⟨by decide +kernel, fun _ => trivial⟩

end Server

end NginxRatelimit
