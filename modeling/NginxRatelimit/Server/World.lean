import NginxRatelimit.Pool.Exchange
import NginxRatelimit.Request.Verdict
import NginxRatelimit.Server.Redis

/-!
# The module and the server

All connections of all workers with one server. The server executes the commands of the connections
one after the other, in any order between connections; nginx reads and writes whenever it likes, and
may close a connection or give a request up at any time. Other clients of the server may write keys,
load scripts and flush them. The history keeps every command that was executed, with the script that
it ran, and every round trip that was finalized. `World.Inv` says how the history and the connections
agree.
-/

namespace NginxRatelimit

open Library Resp RoundTrip

/-! ## The system -/

/-- History: a command that the server has executed. -/
structure Served where
  /-- The index of the connection. -/
  conn : ℕ
  sender : Sender
  cmd : Command
  reply : Resp
  /-- The script that it ran, if it did. -/
  run : Option ScriptRun

/-- History: a request whose round trip was finalized. -/
structure Done where
  /-- The index of the connection. -/
  conn : ℕ
  sender : Sender
  /-- What the handler finds when it is entered again. -/
  trip : RoundTrip

/-- Connections to a server. -/
structure World (V : Type) where
  /-- All connections, those that are closed too. -/
  conns : List Conn
  /-- What the server keeps. -/
  redis : Redis V
  /-- History: all commands executed, in order. -/
  served : List Served
  /-- History: all round trips finalized, in order. -/
  done : List Done
  /-- History: the keys that other clients have written. -/
  foreign : List Place

/-- An event of the system. -/
inductive WorldEvent (V : Type) where
  /-- A request opens a connection. -/
  | dial (conf : LocConf) (key : Bytes)
  /-- An event of nginx on a connection. -/
  | on (i : ℕ) (e : ConnEvent)
  /-- The server executes the next command of a connection. -/
  | serve (i now : ℕ)
  /-- Another client writes or deletes a key. -/
  | put (place : Place) (key : Key V)
  /-- Another client loads a script. -/
  | load (body : Bytes)
  /-- `SCRIPT FLUSH`. -/
  | scriptFlush

namespace Conn

/-- The round trip that has the connection. -/
def trip (c : Conn) : Option RoundTrip :=
  match c.holder with
  | .busy _ _ r => some r
  | .closed | .idle _ => none

/-- The round trip that an event finalizes, if it does. -/
def finished (c : Conn) (e : ConnEvent) : Option RoundTrip :=
  match e with
  | .read io _ => (c.trip.map (·.step (.read io))).filter fun r => !r.attached
  | .write io _ => (c.trip.map (·.step (.write io))).filter fun r => !r.attached
  | .flush | .answer _ | .abort _ | .close | .reuse _ _ => none

end Conn

/-- Answers come from the server alone. -/
def ConnEvent.isAnswer : ConnEvent → Bool
  | .answer _ => true
  | .flush | .read _ _ | .write _ _ | .abort _ | .close | .reuse _ _ => false

variable {V : Type} (S : Server V)

namespace World

/-- The system before the first request. -/
def start : World V := ⟨[], .empty, [], [], []⟩

/-- An event. -/
def step (w : World V) : WorldEvent V → Option (World V)
  | .dial conf key => some { w with conns := w.conns ++ [.dial conf key] }
  | .on i e =>
    if e.isAnswer then none
    else do
      let c ← w.conns[i]?
      let c' ← c.step e
      return { w with
        conns := w.conns.set i c'
        done := w.done ++ (c.finished e).toList.map (⟨i, c.sender, ·⟩) }
  | .serve i now => do
    let c ← w.conns[i]?
    let x ← c.queue.head?
    let (redis, v) := S.exec w.redis c.session now x.cmd
    let c' ← c.answer v
    return { w with
      conns := w.conns.set i c'
      redis := redis
      served := w.served ++ [⟨i, x.sender, x.cmd, v, S.runOf w.redis c.session now x.cmd⟩] }
  | .put place key => some { w with
      redis := { w.redis with keys := Function.update w.redis.keys place key }
      foreign := w.foreign ++ [place] }
  | .load body => some { w with redis := { w.redis with scripts := w.redis.scripts ++ [body] } }
  | .scriptFlush => some { w with redis := { w.redis with scripts := [] } }

/-- The system after the events. -/
def run (events : List (WorldEvent V)) : Option (World V) := events.foldlM (step S) start

/-- The commands of a connection that were executed. -/
def servedOn (w : World V) (i : ℕ) : List Served := w.served.filter fun x => x.conn = i

/-- The round trips of a connection that were finalized. -/
def doneOn (w : World V) (i : ℕ) : List Done := w.done.filter fun d => d.conn = i

/-- The runs of scripts on a key with their replies. -/
def logAt (w : World V) (p : Place) : List (ScriptRun × Resp) :=
  w.served.filterMap fun x =>
    (x.run.filter fun y => y.place = p).map fun y => (y, x.reply)

end World

/-! ## Events of a connection -/

namespace Conn

/-- What an event of nginx makes of a connection. -/
inductive Moved (c : Conn) (e : ConnEvent) : Conn → Prop where
  /-- The round trip goes on, and may have sent more. -/
  | goesOn {frame frame' evalSent evalSent' r r' sent} (hbusy : c.holder = .busy frame evalSent r)
      (hstep : r' = r ∨ r'.attached = true ∧ ∃ event, r' = r.step event)
      (hnone : c.finished e = none) :
      Moved c e { c with queue := c.queue ++ sent, holder := .busy frame' evalSent' r' }
  /-- The round trip is finalized. -/
  | ends {frame evalSent r sent pool} (event) (hbusy : c.holder = .busy frame evalSent r)
      (hdetached : (r.step event).attached = false) (hdone : c.finished e = some (r.step event)) :
      Moved c e (release { c with queue := c.queue ++ sent } frame pool (r.step event))
  /-- The request is given up. -/
  | aborts {frame evalSent r pool} (hbusy : c.holder = .busy frame evalSent r)
      (hnone : c.finished e = none) : Moved c e (c.release frame pool r)
  /-- A pooled connection is closed. -/
  | closes {unread} (hidle : c.holder = .idle unread) (hnone : c.finished e = none) :
      Moved c e { c with holder := .closed }
  /-- A pooled connection is used by the next request. -/
  | reuses {unread conf key} (hevent : e = .reuse conf key) (hidle : c.holder = .idle unread)
      (hnone : c.finished e = none) : Moved c e { c with
        sender := ⟨c.sender.use + 1, conf, key, c.session⟩
        holder := .busy (firstFrame conf key) false { RoundTrip.start conf key with
          sock := unread } }

/-- A read or write event. -/
theorem moved_settle {c : Conn} {e : ConnEvent} {frame : List Command} {evalSent : Bool}
    {r : RoundTrip} (event : Event) (pool : Bool) (hbusy : c.holder = .busy frame evalSent r)
    (hfinished : c.finished e = (some (r.step event)).filter fun r => !r.attached) :
    c.Moved e (c.settle frame evalSent pool (r.step event)) := by
  unfold settle
  dsimp only
  cases hattached : (r.step event).attached with
  | true =>
    rw [if_pos rfl]
    refine .goesOn hbusy (.inr ⟨hattached, event, rfl⟩) ?_
    rw [hfinished]
    simp [Option.filter, hattached]
  | false =>
    rw [if_neg Bool.false_ne_true]
    refine .ends event hbusy hattached ?_
    rw [hfinished]
    simp [Option.filter, hattached]

/-- Every event of nginx is one of these. -/
theorem moved_of_step {c c' : Conn} {e : ConnEvent} (hanswer : e.isAnswer = false)
    (h : c.step e = some c') : c.Moved e c' := by
  have hbusy : ∀ {frame evalSent r}, c.holder = .busy frame evalSent r → c.trip = some r := by
    intro frame evalSent r hholder
    rw [trip, hholder]
  cases e with
  | answer v => exact absurd hanswer Bool.noConfusion
  | flush =>
    simp only [step] at h
    split at h
    · cases h
      rename_i hholder
      exact .goesOn hholder (.inl rfl) rfl
    · cases h
  | read io pool =>
    simp only [step] at h
    split at h
    · cases h
      rename_i hholder
      refine moved_settle (.read io) pool hholder ?_
      rw [finished, hbusy hholder, Option.map_some]
    · cases h
  | write io pool =>
    simp only [step] at h
    split at h
    · cases h
      rename_i hholder
      refine moved_settle (.write io) pool hholder ?_
      rw [finished, hbusy hholder, Option.map_some]
    · cases h
  | abort pool =>
    simp only [step] at h
    split at h
    · cases h
      rename_i hholder
      exact .aborts hholder rfl
    · cases h
  | close =>
    simp only [step] at h
    split at h
    · cases h
      rename_i hholder
      exact .closes hholder rfl
    · cases h
  | reuse conf key =>
    simp only [step] at h
    split at h
    · cases h
      rename_i hholder
      exact .reuses rfl hholder rfl
    · cases h

end Conn

end NginxRatelimit
