import NginxRatelimit.Library.Fleet
import NginxRatelimit.Request.RoundTrip

/-!
# Connections to the peer

A connection as both ends see it: the Redis session and the commands that the peer has not answered
yet, and the round trip that uses the connection, if any. One request after the other uses a
connection, with nginx's keepalive pool in between; which request gets a pooled connection, and
whether nginx pools one that may be kept, is left open. The peer answers every command with one
value, in order, and sends nothing else. Splits of its bytes are left to the reads, which may take
any number of them.

Commands reach the peer when their last byte is sent. The first frame is sent by nginx, one command
at a time here; the `EVAL` after `NOSCRIPT` has reached the peer when its buffer is empty.
-/

namespace NginxRatelimit

open Library Resp

/-! ## The peer -/

/-- What a Redis connection keeps from one command to the next. -/
structure Session where
  /-- The selected database. -/
  database : ℕ
  /-- The password of the last `AUTH`; `none` when there was none. -/
  user : Option Bytes
  deriving DecidableEq

/-- The session of a new connection. -/
def Session.fresh : Session := ⟨0, none⟩

/-- The session after a command that was answered with `v`: an `AUTH` or `SELECT` that is refused
changes nothing. -/
def Session.exec (s : Session) : Command → Resp → Session
  | .auth password, .simple _ => { s with user := some password }
  | .select database, .simple _ => { s with database := database }
  | _, _ => s

/-- Commands whose answer is a line. -/
def Command.IsPrelude : Command → Prop
  | auth _ | select _ => True
  | evalsha _ _ _ | eval _ _ _ => False

/-- Whether a command is one of the prelude is seen from its name. -/
instance : (cmd : Command) → Decidable cmd.IsPrelude
  | .auth _ | .select _ => isTrue trivial
  | .evalsha _ _ _ | .eval _ _ _ => isFalse id

/-- The values that a peer may answer a command with. -/
def Answers (cmd : Command) (v : Resp) : Prop := v.WellFormed ∧ (cmd.IsPrelude → v.IsLine)

/-- Whether a reply answers a command can be decided. -/
instance (cmd : Command) (v : Resp) : Decidable (Answers cmd v) :=
  inferInstanceAs (Decidable (_ ∧ _))

/-! ## Connections -/

/-- A request that uses a connection. -/
structure Sender where
  /-- How many requests have used the connection before. -/
  use : ℕ
  /-- The location's configuration. -/
  conf : LocConf
  /-- The request's key. -/
  key : Bytes
  /-- History: the session that the request found on the connection. -/
  inherited : Session

/-- A command with its sender. -/
structure Sent where
  sender : Sender
  cmd : Command

/-- History: an answer of the peer. -/
structure Answer where
  /-- The use of the connection that sent the command. -/
  use : ℕ
  cmd : Command
  value : Resp

/-- The answers to the commands of one use. -/
def answersOf (answers : List Answer) (use : ℕ) : List (Command × Resp) :=
  (answers.filter fun a => a.use = use).map fun a => (a.cmd, a.value)

/-- Who has the connection. -/
inductive Holder where
  /-- Nobody, it is closed. -/
  | closed
  /-- The keepalive pool; `unread` is what lies on the socket. -/
  | idle (unread : Bytes)
  /-- A round trip; of its first frame, the commands in `frame` are not sent yet, and `evalSent`
  says whether its `EVAL` is. -/
  | busy (frame : List Command) (evalSent : Bool) (req : RoundTrip)

/-- History: a reply that a request has accepted. -/
structure Accepted where
  sender : Sender
  reply : Reply

/-- History: what was left of a round trip that set `u->keepalive`. -/
structure Parked where
  /-- Commands that the peer has not answered. -/
  queue : List Sent
  /-- Commands that were not sent. -/
  frame : List Command
  /-- Bytes that were not read. -/
  unread : Bytes
  /-- Bytes that were not consumed. -/
  window : Bytes

/-- History: a script that was run. -/
structure Executed where
  sender : Sender
  cmd : Command
  /-- The answers to the sender's commands before. -/
  before : List (Command × Resp)
  /-- The session in which it was run. -/
  session : Session

/-- A connection. -/
structure Conn where
  /-- The Redis session. -/
  session : Session
  /-- The commands that have reached the peer and are not answered, in order. -/
  queue : List Sent
  /-- The request that uses the connection, or used it last. -/
  sender : Sender
  /-- Who has the connection. -/
  holder : Holder
  /-- History: all answers, in order. -/
  answers : List Answer
  /-- History: all accepted replies. -/
  accepted : List Accepted
  /-- History: all releases with `u->keepalive`. -/
  parked : List Parked
  /-- History: all scripts run. -/
  executed : List Executed

/-- An event of a connection. -/
inductive ConnEvent where
  /-- The next command of the first frame has reached the peer. -/
  | flush
  /-- The peer answers its next command. -/
  | answer (v : Resp)
  /-- A read event; `pool` is whether nginx pools the connection if it may. -/
  | read (io : Io) (pool : Bool)
  /-- A write event. -/
  | write (io : Io) (pool : Bool)
  /-- nginx gives the request up. -/
  | abort (pool : Bool)
  /-- nginx closes the pooled connection. -/
  | close
  /-- A request gets the pooled connection. -/
  | reuse (conf : LocConf) (key : Bytes)

namespace Conn

/-- The connection of a request that found none in the pool. -/
def dial (conf : LocConf) (key : Bytes) : Conn where
  session := .fresh
  queue := []
  sender := ⟨0, conf, key, .fresh⟩
  holder := .busy (firstFrame conf key) false (.start conf key)
  answers := []
  accepted := []
  parked := []
  executed := []

/-- The bytes of an answer reach whoever has the connection. -/
def deliver (data : Bytes) : Holder → Holder
  | .closed => .closed
  | .idle unread => .idle (unread ++ data)
  | .busy frame evalSent req => .busy frame evalSent (req.step (.arrive data))

/-- The peer executes its next command, and answers `v`. -/
def answer (c : Conn) (v : Resp) : Option Conn :=
  match c.queue with
  | [] => none
  | e :: queue =>
    if Answers e.cmd v then
      some { c with
        queue := queue
        session := c.session.exec e.cmd v
        holder := deliver (encode v) c.holder
        answers := c.answers ++ [⟨e.sender.use, e.cmd, v⟩]
        executed := if e.cmd.IsPrelude then c.executed
          else c.executed ++ [⟨e.sender, e.cmd, answersOf c.answers e.sender.use, c.session⟩] }
    else none

/-- The connection leaves the round trip: nginx pools it only if `u->keepalive` is set, and closes
it otherwise. -/
def release (c : Conn) (frame : List Command) (pool : Bool) (r : RoundTrip) : Conn :=
  { c with
    holder := if r.keepalive && pool then .idle r.sock else .closed
    accepted := if r.exit = some .replied then c.accepted ++ [⟨c.sender, r.parse.reply⟩]
      else c.accepted
    parked := if r.keepalive then c.parked ++ [⟨c.queue, frame, r.sock, r.window⟩]
      else c.parked }

/-- All of the first buffer of `u->request_bufs` is sent. -/
def drained (r : RoundTrip) : Bool :=
  match r.requestBufs with
  | [] | [] :: _ => true
  | (_ :: _) :: _ => false

/-- The `EVAL` that the round trip has just sent, if it has. -/
def evalOf (c : Conn) (evalSent : Bool) (r : RoundTrip) : List Sent :=
  if r.evalFallback && !evalSent && drained r then
    [⟨c.sender, scriptCommand r.conf r.key true⟩]
  else []

/-- What an event of the round trip leaves of the connection. -/
def settle (c : Conn) (frame : List Command) (evalSent pool : Bool) (r : RoundTrip) : Conn :=
  let sent := c.evalOf evalSent r
  let c := { c with queue := c.queue ++ sent }
  if r.attached then { c with holder := .busy frame (evalSent || sent ≠ []) r }
  else c.release frame pool r

/-- An event. -/
def step (c : Conn) : ConnEvent → Option Conn
  | .answer v => c.answer v
  | .flush =>
    match c.holder with
    | .busy (cmd :: frame) evalSent r =>
      some { c with
        queue := c.queue ++ [⟨c.sender, cmd⟩]
        holder := .busy frame evalSent r }
    | _ => none
  | .read io pool =>
    match c.holder with
    | .busy frame evalSent r => some (c.settle frame evalSent pool (r.step (.read io)))
    | _ => none
  | .write io pool =>
    match c.holder with
    | .busy frame evalSent r => some (c.settle frame evalSent pool (r.step (.write io)))
    | _ => none
  | .abort pool =>
    match c.holder with
    | .busy frame _ r => some (c.release frame pool r)
    | _ => none
  | .close =>
    match c.holder with
    | .idle _ => some { c with holder := .closed }
    | _ => none
  | .reuse conf key =>
    match c.holder with
    | .idle unread =>
      some { c with
        sender := ⟨c.sender.use + 1, conf, key, c.session⟩
        holder := .busy (firstFrame conf key) false { RoundTrip.start conf key with
          sock := unread } }
    | _ => none

end Conn

/-- Connections, each opened for a request of some location with some key. -/
def connection : Component (LocConf × Bytes) Conn ConnEvent where
  start k := .dial k.1 k.2
  step := Conn.step

/-- An event of a pool of connections. -/
abbrev PoolEvent := FleetEvent (LocConf × Bytes) ConnEvent

/-- The connections after the events. -/
def pool (events : List PoolEvent) : Option (List Conn) := connection.run [] events

end NginxRatelimit
