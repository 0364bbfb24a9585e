import NginxRatelimit.Config.Context
import NginxRatelimit.Server.Limit

/-!
# From the configuration to the keys

The requests of a run are those that the handler starts in the locations of a loaded configuration.
When only locations of one zone have keys of this name, the key is used by that zone alone, with the
numbers that its directive says (`exclusive_of_loadConfig`). So the limit that is configured holds
for all workers together (`configured_limit`).
-/

namespace NginxRatelimit

open Library Resp

/-! ## What the handler starts -/

/-- A pass that starts a round trip has a key value, and sends it with the prefix. -/
theorem key_of_handler {conf : LocConf} {env : Env} {r : HttpRequest} {key : Bytes}
    (hnone : r.roundTrip = none)
    (h : (handler (some conf) env r).2.roundTrip = some (.start conf key)) :
    ∃ value, value ≠ [] ∧ prefixedKey conf value = key ∧ key.length ≤ maxKeyLen := by
  unfold handler at h
  dsimp only at h
  have hrest : ∀ {r' : HttpRequest}, r'.roundTrip = none →
      r'.roundTrip ≠ some (.start conf key) := by
    intro r' hr' hsome
    rw [hr'] at hsome
    cases hsome
  split at h
  · exact absurd h (hrest hnone)
  · rw [hnone] at h
    dsimp only at h
    -- All but the last branch leave the request without a round trip.
    repeat' split at h
    all_goals first | exact absurd h (hrest hnone) | exact absurd h (hrest rfl) | skip
    rename_i k ks _ _ hlength _ _
    refine ⟨k :: ks, List.cons_ne_nil k ks, ?_⟩
    rcases startRoundTrip_cases conf env (prefixedKey conf (k :: ks)) ⟨true, none⟩ with hcase | hcase
    · exact absurd ((congrArg HttpRequest.roundTrip hcase).symm.trans h) (hrest rfl)
    · have hstart := (congrArg HttpRequest.roundTrip hcase).symm.trans h
      have hkey : prefixedKey conf (k :: ks) = key :=
        congrArg RoundTrip.key (Option.some.inj hstart)
      exact ⟨hkey, hkey ▸ not_lt.mp hlength⟩

section

variable {U C V : Type}

/-- The configuration that a request reads, after other requests have written to it. -/
def Location.confAfter (sha1 : Bytes → Bytes) (l : Location U C) (zone : ZoneConf C)
    (envs : List (PassEnv U C)) : LocConf :=
  { l.conf with pass := passMachine.after l.conf.pass envs }.locConf zone (scriptInit sha1) sha1

/-- A pass of the handler in a location starts a round trip. -/
inductive Location.Starts (sha1 : Bytes → Bytes) (l : Location U C) : LocConf → Bytes → Prop where
  | pass {zone : ZoneConf C} (hzone : l.conf.zone = some zone) (envs : List (PassEnv U C))
      (env : Env) {r : HttpRequest} {key : Bytes} (hnone : r.roundTrip = none)
      (hstart : (handler (some (l.confAfter sha1 zone envs)) env r).2.roundTrip =
        some (.start (l.confAfter sha1 zone envs) key)) : Starts sha1 l (l.confAfter sha1 zone envs) key

/-- All requests of a run are started by the handler. -/
def Handled (sha1 : Bytes → Bytes) (locations : List (Location U C))
    (events : List (WorldEvent V)) : Prop :=
  ∀ conf key, Arrives events conf key → ∃ l ∈ locations, l.Starts sha1 conf key

/-- Requests of a location can have this key. -/
def Location.Names (l : Location U C) (key : Bytes) : Prop :=
  ∃ zone value, l.conf.zone = some zone ∧ value ≠ [] ∧
    prefixedKey (l.conf.locConf zone (scriptInit id) id) value = key

/-- A request that starts on this key is counted under it. -/
theorem Location.Starts.names {sha1 : Bytes → Bytes} {l : Location U C} {conf : LocConf}
    {key : Bytes} (h : l.Starts sha1 conf key) : l.Names key := by
  cases h with
  | pass hzone envs env hnone hstart =>
    obtain ⟨value, hvalue, hkey, -⟩ := key_of_handler hnone hstart
    exact ⟨_, value, hzone, hvalue, hkey⟩

/-- The numbers of a zone, with a burst up to `B` and a limit that doubles hold. -/
structure LocConf.OfZone (zone : ZoneConf C) (B : ℕ) (conf : LocConf) : Prop where
  requests : conf.zone.requests = zone.requests
  period : conf.zone.period = zone.period
  burst : effectiveBurst conf ≤ B
  safe : zone.requests + effectiveBurst conf < 2 ^ 53

/-- The texts that may be brought to the server: those of other clients, the built-in ones, and
those of the zones. -/
def Text (zones : List (ZoneConf C)) (events : List (WorldEvent V)) (body : Bytes) : Prop :=
  .load body ∈ events ∨ (∃ algo, body = scriptBody algo) ∨ ∃ zone ∈ zones, body = zone.scriptBody

end

section

variable {U C V : Type} {S : Server V} {w : World V} {events : List (WorldEvent V)}
variable {ngx : Nginx U C} {zoneDirectives : List (Bytes × List Bytes)} {http : Block}
  {zones : List (ZoneConf C)} {locations : List (Location U C)} {zone : ZoneConf C} {p : Place}

/-- The texts of handled requests are built-in ones, or those of zones. -/
theorem text_of_brought (hload : loadConfig ngx zoneDirectives http = .ok (zones, locations))
    (hhandled : Handled S.sha1 locations events) {body : Bytes} (h : Brought events body) :
    Text zones events body := by
  rcases h with h | ⟨conf, key, harrives, rfl⟩
  · exact .inl h
  · obtain ⟨l, hl, hstarts⟩ := hhandled conf key harrives
    cases hstarts with
    | pass hzone envs env hnone hstart =>
      unfold zoneScript
      split
      · exact .inr (.inr ⟨_, (((merged_of_loadConfig hload).2 l hl).zone _ hzone).1, rfl⟩)
      · exact .inr (.inl ⟨_, rfl⟩)

/-- A key whose name only locations of one zone can make is used by this zone alone, with the
numbers of its directive. -/
theorem exclusive_of_loadConfig
    (hload : loadConfig ngx zoneDirectives http = .ok (zones, locations))
    (hrun : World.run S events = some w) (hhandled : Handled S.sha1 locations events)
    (hkey : ∀ l ∈ locations, l.Names p.key → l.conf.zone = some zone) {B : ℕ}
    (hburst : ∀ l ∈ locations, l.conf.zone = some zone →
      effectiveBurst (l.conf.locConf zone (scriptInit S.sha1) S.sha1) ≤ B)
    (hput : ∀ key, .put p key ∉ events)
    (htimes : (events.filterMap WorldEvent.time).Pairwise (· ≤ ·))
    (hsha1 : ∀ body, Text zones events body → S.sha1 body = S.sha1 (scriptBody zone.algo) →
      body = scriptBody zone.algo) :
    w.Exclusive S p zone.algo (LocConf.OfZone zone B) := by
  refine World.exclusive_of_events hrun hput htimes (fun conf harrives => ?_)
    fun body hbody => hsha1 body (text_of_brought hload hhandled hbody)
  obtain ⟨hzones, hmerged⟩ := merged_of_loadConfig hload
  obtain ⟨l, hl, hstarts⟩ := hhandled conf p.key harrives
  have hzone := hkey l hl hstarts.names
  -- The load has checked the limit.
  have hsafe := (hmerged l hl).safe_effectiveBurst hzones hzone (scriptInit S.sha1) S.sha1
  unfold luaMaxSafeInt at hsafe
  cases hstarts with
  | pass hzone' envs env hnone hstart =>
    obtain rfl := Option.some.inj (hzone.symm.trans hzone')
    refine ⟨rfl, rfl, rfl, rfl, hburst l hl hzone, ?_⟩
    change zone.requests + effectiveBurst (l.conf.locConf zone (scriptInit S.sha1) S.sha1) < 2 ^ 53
    omega

/-- From the directives to the keys: the units that requests on a key of a zone are let through with
in any closed period, over all workers and whatever else happens, are at most twice the requests of
the zone's directive and the largest burst of its locations, but for the requests that fail open. -/
theorem configured_limit
    (hload : loadConfig ngx zoneDirectives http = .ok (zones, locations))
    (hrun : World.run S events = some w) (hhandled : Handled S.sha1 locations events)
    (hzone : zone ∈ zones) (halgo : zone.algo = .fixedWindow)
    (hkey : ∀ l ∈ locations, l.Names p.key → l.conf.zone = some zone) {B : ℕ}
    (hburst : ∀ l ∈ locations, l.conf.zone = some zone →
      effectiveBurst (l.conf.locConf zone (scriptInit S.sha1) S.sha1) ≤ B)
    (hput : ∀ key, .put p key ∉ events)
    (htimes : (events.filterMap WorldEvent.time).Pairwise (· ≤ ·))
    (hsha1 : ∀ body, Text zones events body → S.sha1 body = S.sha1 (scriptBody zone.algo) →
      body = scriptBody zone.algo) {store : ℕ → V}
    (hlua : S.Interprets WindowCall.Safe fixedWindowLua (fixedWindowMachine zone.period)
      (WindowCall.argv zone.period) store) (x : ℚ) :
    unitsIn (fun t => x ≤ luaNow t ∧ luaNow t ≤ x + zone.period)
      ((w.letThrough p).map Prod.snd) ≤ 2 * (zone.requests + B) := by
  have hok := (merged_of_loadConfig hload).1.ok zone hzone
  let R : Rate := ⟨zone.requests, zone.period, hok.requests_pos, hok.period_pos⟩
  have hexclusive := exclusive_of_loadConfig hload hrun hhandled hkey hburst hput htimes hsha1
  rw [halgo] at hexclusive
  have hwindow : w.Exclusive S p .fixedWindow (LocConf.HasSafeWindow R (zone.requests + B)) := by
    refine hexclusive.mono fun conf hconf => ⟨⟨hconf.period, ?_⟩, ?_⟩
    · rw [hconf.requests]
      exact Nat.add_le_add_left hconf.burst _
    · rw [hconf.requests]
      exact hconf.safe
  have hN := fixedWindow_limiter R (zone.requests + B)
  have hlimit := (hwindow.mono fun _ hC => hC.1).limit_le (.inl rfl) (World.inv_of_run hrun)
  calc unitsIn (FixedWindow.InPeriod R x) ((w.letThrough p).map Prod.snd)
      ≤ unitsIn (FixedWindow.InPeriod R x) (admissions ((fixedWindowMachine R.period).trace none
          (w.callsAt p ScriptRun.windowCall))) := hwindow.unitsIn_letThrough_le hrun hN hlua _
    _ ≤ 2 * (zone.requests + B) := FixedWindow.units_le R hlimit (hwindow.inOrder hN) x

end

/-- The fixed window of two seconds, with a SHA1 that tells all texts apart. -/
def configuredServer : Server ℕ :=
  { luaServer [] (fixedWindowMachine 2) ScriptRun.windowCall with sha1 := id }

/-- With limits of one and of two in two locations of one zone, two requests are let through. -/
theorem configured_limit_two_locations :
    let zone : ZoneConf Bytes := ⟨text "a", text "$remote_addr", 1, 2, 0, .fixedWindow, []⟩
    let conf (burst : ℤ) : ContextConf Bytes Bytes :=
      { zoneName := text "a", zone := some zone, burst := burst
        pass := ⟨some (text "redis"), none⟩, password := some [], database := some (-1)
        enableHeaders := some false, statusCode := some 429, onError := some .deny
        pfx := some [], quantity := some 1, bufferSize := some 4096 }
    let sent (burst : ℤ) : LocConf := (⟨[], conf burst⟩ : Location Bytes Bytes).confAfter id zone []
    ∃ w, World.run configuredServer (twoWorkers .fixedWindow (sent (-1)) (sent 1)) = some w ∧
      (w.letThrough ⟨0, text "a"⟩).map (fun e => (e.1, e.2.time)) =
        [((1, 0), 1500000), ((0, 0), 1000000)] ∧
      unitsIn (fun t => 1 ≤ luaNow t ∧ luaNow t ≤ 1 + (2 : ℕ))
        ((w.letThrough ⟨0, text "a"⟩).map Prod.snd) ≤ 2 * (1 + 1) := by
  intro zone conf sent
  have hload : loadConfig Nginx.plain
      [(text "a", [text "key=$remote_addr", text "requests=1", text "period=2"])]
      (.mk [.pass (text "redis")] [.mk [.ratelimit [text "zone=a"]] [],
        .mk [.ratelimit [text "zone=a", text "burst=1"]] []]) =
      .ok ([zone], [⟨[[.pass (text "redis")], [.ratelimit [text "zone=a"]]], conf (-1)⟩,
        ⟨[[.pass (text "redis")], [.ratelimit [text "zone=a", text "burst=1"]]], conf 1⟩]) := by
    decide +kernel
  have hrun : (World.run configuredServer (twoWorkers .fixedWindow (sent (-1)) (sent 1))).map
      (fun w => (w.letThrough ⟨0, text "a"⟩).map fun e => (e.1, e.2.time)) =
        some [((1, 0), 1500000), ((0, 0), 1000000)] := by
    decide +kernel
  obtain ⟨w, hw, hallowed⟩ := Option.map_eq_some_iff.mp hrun
  have hlua : (luaServer [] (fixedWindowMachine 2) ScriptRun.windowCall).Interprets WindowCall.Safe
      fixedWindowLua (fixedWindowMachine 2) (WindowCall.argv 2) id :=
    luaServer_interprets [] _ _ fun _ _ => rfl
  refine ⟨w, hw, hallowed, configured_limit hload hw (fun c key harrives => ?_)
    (List.mem_singleton_self zone) rfl (fun l hl _ => ?_) (fun l hl _ => ?_) ?_ ?_
    (fun body _ h => h) hlua 1⟩
  · -- Both locations start their requests with the value `a`.
    obtain ⟨hsent, rfl⟩ := arrives_twoWorkers harrives
    have hstarts : ∀ path burst, Location.Starts configuredServer.sha1
        (⟨path, conf burst⟩ : Location Bytes Bytes) (sent burst) (text "a") :=
      fun path burst => .pass (r := ⟨false, none⟩) rfl [] (.good (text "a")) rfl rfl
    rcases hsent with rfl | rfl
    · exact ⟨_, List.mem_cons_self, hstarts _ _⟩
    · exact ⟨_, List.mem_cons_of_mem _ (List.mem_singleton_self _), hstarts _ _⟩
  · rcases List.mem_pair.mp hl with rfl | rfl
    · rfl
    · rfl
  · rcases List.mem_pair.mp hl with rfl | rfl
    · exact Nat.zero_le 1
    · exact le_refl 1
  · simp [twoWorkers]
  · have htimes : (twoWorkers (V := ℕ) .fixedWindow (sent (-1)) (sent 1)).filterMap
        WorldEvent.time = [1000000, 1500000, 2000000] := rfl
    rw [htimes]
    decide

end NginxRatelimit
