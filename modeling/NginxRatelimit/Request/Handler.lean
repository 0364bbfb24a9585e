import NginxRatelimit.Request.RoundTrip

/-!
# The phase handler

`ngx_http_ratelimit_handler` runs in the preaccess phase. Its first pass for a main request starts
a round trip; it is entered again when the round trip was finalized, and then gives the verdict.
-/

namespace NginxRatelimit

/-- `NGX_HTTP_RATELIMIT_MAX_KEY_LEN`. -/
def maxKeyLen : ℕ := 65535

/-- What the handler reads and writes of the request. -/
structure HttpRequest where
  /-- `r->main->variables[rmcf->done_index].valid`: the limiter has decided for this request. -/
  done : Bool
  /-- The module's `ctx` with `r->upstream`; `none` when no `ctx` is registered. -/
  roundTrip : Option RoundTrip

/-- What one pass of the handler finds. -/
structure Env where
  /-- The allocation of `ctx` succeeds. -/
  ctxAlloc : Bool
  /-- The value of the zone's key; `none` when its evaluation fails. -/
  key : Option Bytes
  /-- The allocation for the prefixed key succeeds. -/
  keyAlloc : Bool
  /-- The allocations of `build_prelude` succeed. -/
  preludeAlloc : Bool
  /-- `ngx_http_upstream_create` succeeds. -/
  upstreamCreate : Bool
  /-- The value of the target, when it has variables; `none` when its evaluation fails. -/
  target : Option Bytes
  /-- `ngx_http_ratelimit_upstream_add` finds the target. -/
  upstreamFound : Bool

/-- A pass in which nothing fails, for a static target. -/
def Env.good (key : Bytes) : Env where
  ctxAlloc := true
  key := some key
  keyAlloc := true
  preludeAlloc := true
  upstreamCreate := true
  target := none
  upstreamFound := true

/-- The statuses of transport failures: 502, 503 and 504. -/
def IsTransportStatus (status : ℕ) : Prop := status = 502 ∨ status = 503 ∨ status = 504

/-- Whether a status is one of a transport failure can be decided. -/
instance (status : ℕ) : Decidable (IsTransportStatus status) :=
  inferInstanceAs (Decidable (_ ∨ _ ∨ _))

/-- The verdict on a finalized round trip. -/
def verdict (conf : LocConf) (status : ℕ) : Rc :=
  if status = 429 then .http conf.statusCode
  else if status = 200 then .declined
  else if 400 ≤ status then
    -- fail open on a transport failure, when "ratelimit_on_error allow" is set
    if conf.onError = .allow ∧ IsTransportStatus status then .declined else .http status
  else .http 500

/-- The key with the location's prefix. -/
def prefixedKey (conf : LocConf) (key : Bytes) : Bytes :=
  if 0 < conf.pfx.length then conf.pfx ++ ascii '_' :: key else key

/-- The end of the first pass: the target is found, and the round trip started. -/
def startRoundTrip (conf : LocConf) (env : Env) (key : Bytes) (r : HttpRequest) :
    Rc × HttpRequest :=
  let go : Rc × HttpRequest := (.again, { r with roundTrip := some (.start conf key) })
  if conf.complexTarget then
    match env.target with
    | none => (.error, r)
    | some [] => (.http 500, r)
    | some (_ :: _) => if env.upstreamFound then go else (.http 500, r)
  else go

/-- `ngx_http_ratelimit_handler`; a location without a zone has no `conf`. -/
def handler (conf : Option LocConf) (env : Env) (r : HttpRequest) : Rc × HttpRequest :=
  match conf with
  | none => (.declined, r)
  | some conf =>
    if !conf.complexTarget && !conf.upstream then (.http 500, r)
    else
      match r.roundTrip with
      | some rt => (if rt.finalized then verdict conf rt.parse.status else .again, r)
      | none =>
        if r.done then (.declined, r)
        else if !env.ctxAlloc then (.error, r)
        else
          match env.key with
          | none => (.error, r)
          | some [] => (.declined, r)
          | some (k :: ks) =>
            if 0 < conf.pfx.length && !env.keyAlloc then (.http 500, r)
            else
              let key := prefixedKey conf (k :: ks)
              if maxKeyLen < key.length then (.http 500, r)
              else
                let r := { r with done := true }
                if !env.preludeAlloc then (.http 500, r)
                else if !env.upstreamCreate then (.http 500, r)
                else startRoundTrip conf env key r

/-- The end of the first pass starts the round trip, or leaves the request as it was. -/
theorem startRoundTrip_cases (conf : LocConf) (env : Env) (key : Bytes) (r : HttpRequest) :
    (startRoundTrip conf env key r).2 = r ∨
      (startRoundTrip conf env key r).2 = { r with roundTrip := some (.start conf key) } := by
  unfold startRoundTrip
  split
  · split
    · exact .inl rfl
    · exact .inl rfl
    · split
      · exact .inr rfl
      · exact .inl rfl
  · exact .inr rfl

/-- A pass without a `ctx` leaves none, or the one of a round trip that it has just started, for a
target that the location has. -/
theorem handler_roundTrip (conf : LocConf) (env : Env) {r : HttpRequest}
    (hnone : r.roundTrip = none) :
    (handler (some conf) env r).2.roundTrip = none ∨
      (!conf.complexTarget && !conf.upstream) = false ∧
        ∃ key, (handler (some conf) env r).2.roundTrip = some (.start conf key) := by
  unfold handler
  dsimp only
  split
  · exact .inl hnone
  · rename_i htarget
    rw [hnone]
    dsimp only
    -- The failures on the way leave the request without a `ctx`.
    repeat' split
    all_goals first | exact .inl hnone | exact .inl rfl | skip
    rename_i k ks _ _ _ _ _
    rcases startRoundTrip_cases conf env (prefixedKey conf (k :: ks)) ⟨true, none⟩ with h | h
    · exact .inl (congrArg HttpRequest.roundTrip h)
    · exact .inr ⟨Bool.eq_false_iff.mpr htarget, _, congrArg HttpRequest.roundTrip h⟩

end NginxRatelimit
