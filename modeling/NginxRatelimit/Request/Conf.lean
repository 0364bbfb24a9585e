import NginxRatelimit.Request.Parse

/-!
# Configuration and commands

What the request path reads of the configuration, after merging, and the commands that it builds
from it: the `AUTH` and `SELECT` of `build_prelude` and the `EVALSHA` or `EVAL` of `create_request`,
encoded by `build_command`.
-/

namespace NginxRatelimit

/-- `ngx_http_ratelimit_algo_t`. -/
inductive Algo where
  | fixedWindow | tokenBucket | gcra | slidingWindow | custom
  deriving DecidableEq, Repr

/-- A script with the SHA1 that names it. -/
structure Script where
  /-- The Lua text. -/
  body : Bytes
  /-- The SHA1 of the text, in hex. -/
  sha : Bytes

/-- `ngx_http_ratelimit_zone_t`. -/
structure Zone where
  /-- The algorithm. -/
  algo : Algo
  /-- Requests per period. -/
  requests : ℕ
  /-- The period in seconds. -/
  period : ℕ
  /-- The default burst. -/
  burst : ℕ
  /-- `script_body` and `script_sha`, of `algo=custom` only. -/
  script : Script

/-- `ratelimit_on_error`. -/
inductive OnError where
  | deny | allow
  deriving DecidableEq, Repr

/-- `ngx_http_ratelimit_loc_conf_t` of a location with a zone. -/
structure LocConf where
  /-- The zone. -/
  zone : Zone
  /-- The table `ngx_http_ratelimit_scripts`, the same in every location. -/
  scripts : Algo → Script
  /-- The location's own burst; -1 is `NGX_CONF_UNSET`. -/
  burst : ℤ
  /-- The target of `ratelimit_pass` has variables. -/
  complexTarget : Bool
  /-- `upstream.upstream` is set. -/
  upstream : Bool
  /-- The password for `AUTH`; empty disables it. -/
  password : Bytes
  /-- The database for `SELECT`; it is disabled unless positive. -/
  database : ℤ
  /-- `ratelimit_headers`. -/
  enableHeaders : Bool
  /-- `ratelimit_status`. -/
  statusCode : ℕ
  /-- `ratelimit_on_error`. -/
  onError : OnError
  /-- `ratelimit_prefix`. -/
  pfx : Bytes
  /-- `ratelimit_quantity`. -/
  quantity : ℕ
  /-- `ratelimit_buffer_size`. -/
  bufferSize : ℕ

/-- A location that sets nothing but its zone and a static target: the defaults of
`ngx_http_ratelimit_merge_loc_conf`, with pages of 4096 bytes. -/
def LocConf.ofZone (zone : Zone) (scripts : Algo → Script) : LocConf where
  zone := zone
  scripts := scripts
  burst := -1
  complexTarget := false
  upstream := true
  password := []
  database := -1
  enableHeaders := false
  statusCode := 429
  onError := .deny
  pfx := []
  quantity := 1
  bufferSize := 4096

/-- A Redis command that the module sends. -/
inductive Command where
  /-- `AUTH`. -/
  | auth (password : Bytes)
  /-- `SELECT`. -/
  | select (database : ℕ)
  /-- `EVALSHA` with one key. -/
  | evalsha (sha key : Bytes) (args : List ℕ)
  /-- `EVAL` with one key. -/
  | eval (body key : Bytes) (args : List ℕ)
  deriving DecidableEq

/-- The `argv` of a command. -/
def Command.argv : Command → List Bytes
  | auth password => [text "AUTH", password]
  | select database => [text "SELECT", decimal database]
  | evalsha sha key args => [text "EVALSHA", sha, text "1", key] ++ args.map decimal
  | eval body key args => [text "EVAL", body, text "1", key] ++ args.map decimal

/-- `ngx_http_ratelimit_build_command`: a RESP array of bulk strings. -/
def buildCommand (argv : List Bytes) : Bytes :=
  ascii '*' :: (decimal argv.length ++ CRLF ++
    argv.flatMap fun arg => ascii '$' :: (decimal arg.length ++ CRLF ++ arg ++ CRLF))

/-- `ngx_http_ratelimit_build_prelude`: the commands of `ctx->prelude_chain`, whose number is
`ctx->prelude_replies`. -/
def buildPrelude (conf : LocConf) : List Command :=
  (if 0 < conf.password.length then [.auth conf.password] else []) ++
    if 0 < conf.database then [.select conf.database.toNat] else []

/-- The burst in effect: a per-location burst overrides the zone default. -/
def effectiveBurst (conf : LocConf) : ℕ :=
  if conf.burst = -1 then conf.zone.burst else conf.burst.toNat

/-- `ARGV` of the script: the limit, the window and the quantity for the window algorithms, and the
rate, the burst and the quantity for the others. -/
def scriptArgs (conf : LocConf) : List ℕ :=
  match conf.zone.algo with
  | .fixedWindow | .slidingWindow =>
    [(conf.zone.requests + effectiveBurst conf) % uintT, conf.zone.period, conf.quantity]
  | .tokenBucket | .gcra | .custom =>
    [conf.zone.requests, conf.zone.period, effectiveBurst conf, conf.quantity]

/-- The script of the zone's algorithm: its own for `algo=custom`, otherwise the table's. -/
def zoneScript (conf : LocConf) : Script :=
  if conf.zone.algo = .custom then conf.zone.script else conf.scripts conf.zone.algo

/-- The command of `ngx_http_ratelimit_create_request`: `EVALSHA`, or `EVAL` once the server has
reported `NOSCRIPT`. -/
def scriptCommand (conf : LocConf) (key : Bytes) (evalFallback : Bool) : Command :=
  if evalFallback then .eval (zoneScript conf).body key (scriptArgs conf)
  else .evalsha (zoneScript conf).sha key (scriptArgs conf)

/-- All commands of the first frame. -/
def firstFrame (conf : LocConf) (key : Bytes) : List Command :=
  buildPrelude conf ++ [scriptCommand conf key false]

end NginxRatelimit
