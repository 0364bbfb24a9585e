import NginxRatelimit.Config.Zone
import NginxRatelimit.Request.Pass
import NginxRatelimit.Script.Namespace

/-!
# The contexts of a configuration

The directives of a context set fields of its `ngx_http_ratelimit_loc_conf_t`; when all is parsed,
every context below `http` is merged with the one around it, from the outermost inwards. A field
that a context has not set it takes from there, each field for itself. The checks are spread over
the directives and the merge of each level. `accepted_safe` says what they add up to in every
location of a configuration that is loaded, whatever the requests do to it later.
-/

namespace NginxRatelimit

open Library

section

variable {U V : Type}

/-! ## Directives -/

deriving instance DecidableEq for PassConf

/-- `ngx_http_ratelimit_loc_conf_t`; a field that may be unset is `none` then. -/
structure ContextConf (U V : Type) where
  /-- `zone_name`. -/
  zoneName : Bytes
  /-- `zone`. -/
  zone : Option (ZoneConf V)
  /-- `burst`; -1 is `NGX_CONF_UNSET`. -/
  burst : ℤ
  /-- `upstream.upstream` and `complex_target`. -/
  pass : PassConf U V
  /-- `password`. -/
  password : Option Bytes
  /-- `database`. -/
  database : Option ℤ
  /-- `enable_headers`. -/
  enableHeaders : Option Bool
  /-- `status_code`. -/
  statusCode : Option ℕ
  /-- `on_error`. -/
  onError : Option OnError
  /-- `prefix`. -/
  pfx : Option Bytes
  /-- `quantity`. -/
  quantity : Option ℕ
  /-- `upstream.buffer_size`. -/
  bufferSize : Option ℕ
  deriving DecidableEq

/-- `ngx_http_ratelimit_create_loc_conf`. -/
def ContextConf.create : ContextConf U V where
  zoneName := []
  zone := none
  burst := -1
  pass := .create
  password := none
  database := none
  enableHeaders := none
  statusCode := none
  onError := none
  pfx := none
  quantity := none
  bufferSize := none

/-- A directive with one argument that nginx itself parses and stores. -/
inductive Setting where
  | password (value : Bytes)
  | database (value : ℤ)
  | headers (value : Bool)
  | status (value : ℕ)
  | onError (value : OnError)
  | pfx (value : Bytes)
  | quantity (value : ℕ)
  | bufferSize (value : ℕ)
  deriving DecidableEq

/-- A directive of a context. -/
inductive Directive where
  /-- `ratelimit`, with its arguments. -/
  | ratelimit (args : List Bytes)
  /-- `ratelimit_pass`. -/
  | pass (target : Bytes)
  /-- Another one. -/
  | set (s : Setting)
  deriving DecidableEq

/-- How nginx stores an argument. -/
def setSlot {α : Type} (old : Option α) (new : α) : Except ConfError (Option α) :=
  if old.isSome then .error .duplicate else .ok (some new)

/-- The directives that nginx stores. -/
def setting (conf : ContextConf U V) : Setting → Except ConfError (ContextConf U V)
  | .password v => return { conf with password := ← setSlot conf.password v }
  | .database v => return { conf with database := ← setSlot conf.database v }
  | .headers v => return { conf with enableHeaders := ← setSlot conf.enableHeaders v }
  | .status v => return { conf with statusCode := ← setSlot conf.statusCode v }
  | .onError v => return { conf with onError := ← setSlot conf.onError v }
  | .pfx v => return { conf with pfx := ← setSlot conf.pfx v }
  | .quantity v => return { conf with quantity := ← setSlot conf.quantity v }
  | .bufferSize v => return { conf with bufferSize := ← setSlot conf.bufferSize v }

/-- One argument of `ratelimit`. -/
def ratelimitArg (ngx : Nginx U V) (conf : ContextConf U V) (word : Bytes) :
    Except ConfError (ContextConf U V) :=
  if strncmpEq word (text "zone=") 5 then
    if (word.drop 5).length = 0 then .error (.invalidZoneName word)
    else .ok { conf with zoneName := word.drop 5 }
  else if strncmpEq word (text "burst=") 6 then
    let burst := (ngx.atoi (word.drop 6)).val
    if burst < 0 then .error (.invalidBurst word) else .ok { conf with burst := burst }
  else if strncmpEq word (text "quantity=") 9 then
    let quantity := (ngx.atoi (word.drop 9)).val
    if quantity < 0 then .error (.invalidQuantity word)
    else .ok { conf with quantity := some quantity.toNat }
  else .error (.invalidParameter word)

/-- `ngx_http_ratelimit`. -/
def ratelimit (ngx : Nginx U V) (conf : ContextConf U V) (args : List Bytes) :
    Except ConfError (ContextConf U V) :=
  if conf.zoneName.length ≠ 0 then .error .duplicate
  else do
    let conf ← args.foldlM (ratelimitArg ngx) conf
    if conf.zoneName.length = 0 then .error .requiresZone else .ok conf

/-- `ngx_http_ratelimit_pass`, which is `ratelimitPass` for the target in its argument. -/
def passDirective (ngx : Nginx U V) (pass : PassConf U V) (target : Bytes) :
    Except ConfError (PassConf U V) :=
  if pass.upstream.isSome || pass.complexTarget.isSome then .error .duplicate
  else
    let parsed : Option (PassDirective U V) :=
      if ngx.hasVariables target then (ngx.compile target).map .complex
      else (ngx.upstreamAdd target).map .static
    match parsed.bind (ratelimitPass pass) with
    | none => .error .reported
    | some pass => .ok pass

/-- One directive. -/
def directive (ngx : Nginx U V) (conf : ContextConf U V) :
    Directive → Except ConfError (ContextConf U V)
  | .ratelimit args => ratelimit ngx conf args
  | .pass target => return { conf with pass := ← passDirective ngx conf.pass target }
  | .set s => setting conf s

/-- A context with its directives, in order. -/
def parseContext (ngx : Nginx U V) (ds : List Directive) : Except ConfError (ContextConf U V) :=
  ds.foldlM (directive ngx) .create

/-! ## Merging -/

/-- `ngx_conf_merge_value`, with the default `NGX_CONF_UNSET`. -/
def mergeValue (conf prev : ℤ) : ℤ :=
  if conf = -1 then (if prev = -1 then -1 else prev) else conf

/-- The other merges of values, with their defaults. -/
def mergeDefault {α : Type} (conf prev : Option α) (default : α) : Option α :=
  some ((conf.or prev).getD default)

/-- A context without `ratelimit` inherits the zone reference. -/
def inheritZone (prev conf : ContextConf U V) : ContextConf U V :=
  if conf.zoneName.length = 0 then { conf with zoneName := prev.zoneName, zone := prev.zone }
  else conf

/-- The name of the zone is looked up in the registry. -/
def resolveZone (zones : List (ZoneConf V)) (conf : ContextConf U V) :
    Except ConfError (ContextConf U V) :=
  if conf.zoneName.length ≠ 0 && conf.zone.isNone then
    match zones.find? fun z => sameName z.name conf.zoneName with
    | none => .error (.unknownZone conf.zoneName)
    | some zone => .ok { conf with zone := some zone }
  else .ok conf

/-- The check of the override: `(ngx_int_t) requests > MAX_SAFE_INT - burst`. -/
def burstUnsafe (conf : ContextConf U V) : Bool :=
  match conf.zone with
  | none => false
  | some zone =>
    conf.burst ≠ -1 && toIntT (luaMaxSafeInt - conf.burst) < toIntT zone.requests

/-- `ngx_http_ratelimit_merge_loc_conf`. -/
def mergeContext (ngx : Nginx U V) (zones : List (ZoneConf V)) (prev conf : ContextConf U V) :
    Except ConfError (ContextConf U V) := do
  let conf ← resolveZone zones (inheritZone prev conf)
  let conf := { conf with burst := mergeValue conf.burst prev.burst }
  if burstUnsafe conf then .error (.unsafeBurst conf.zoneName)
  else
    let conf := { conf with
      bufferSize := mergeDefault conf.bufferSize prev.bufferSize ngx.pageSize
      pass := mergeLocConf prev.pass conf.pass }
    if conf.zone.isSome && conf.pass.upstream.isNone && conf.pass.complexTarget.isNone then
      .error (.requiresPass conf.zoneName)
    else
      .ok { conf with
        enableHeaders := mergeDefault conf.enableHeaders prev.enableHeaders false
        statusCode := mergeDefault conf.statusCode prev.statusCode 429
        onError := mergeDefault conf.onError prev.onError .deny
        pfx := mergeDefault conf.pfx prev.pfx []
        quantity := mergeDefault conf.quantity prev.quantity 1
        password := mergeDefault conf.password prev.password []
        database := mergeDefault conf.database prev.database (-1) }

/-- A context with its directives and the contexts in it. -/
inductive Block where
  | mk (directives : List Directive) (blocks : List Block)

/-- A location, or a server, of a configuration that was loaded. -/
structure Location (U V : Type) where
  /-- History: the directives of the contexts around it and its own, from `http` inwards. -/
  path : List (List Directive)
  /-- Its merged configuration. -/
  conf : ContextConf U V
  deriving DecidableEq

mutual

/-- A context below `http`, and all contexts in it. -/
def mergeBlock (ngx : Nginx U V) (zones : List (ZoneConf V)) (outer : Location U V) :
    Block → Except ConfError (List (Location U V))
  | .mk directives blocks => do
    let own ← parseContext ngx directives
    let conf ← mergeContext ngx zones outer.conf own
    let location : Location U V := ⟨outer.path ++ [directives], conf⟩
    let inner ← mergeBlocks ngx zones location blocks
    return location :: inner

/-- The contexts in a context. -/
def mergeBlocks (ngx : Nginx U V) (zones : List (ZoneConf V)) (outer : Location U V) :
    List Block → Except ConfError (List (Location U V))
  | [] => .ok []
  | block :: blocks => do
    let first ← mergeBlock ngx zones outer block
    let rest ← mergeBlocks ngx zones outer blocks
    return first ++ rest

end

/-- A configuration is loaded: the registry, and all locations. The context of `http` itself is not
merged. Of several errors, which one is reported is not modelled. -/
def loadConfig (ngx : Nginx U V) (zoneDirectives : List (Bytes × List Bytes)) (http : Block) :
    Except ConfError (List (ZoneConf V) × List (Location U V)) := do
  let zones ← loadZones ngx zoneDirectives
  let .mk directives blocks := http
  let conf ← parseContext ngx directives
  let locations ← mergeBlocks ngx zones ⟨[directives], conf⟩ blocks
  return (zones, locations)

/-- The configuration of a location as requests read it. The SHA1 of a custom script is computed
after the load. -/
def ContextConf.locConf (conf : ContextConf U V) (zone : ZoneConf V) (scripts : Algo → Script)
    (sha1 : Bytes → Bytes) : LocConf where
  zone :=
    { algo := zone.algo
      requests := zone.requests
      period := zone.period
      burst := zone.burst
      script := ⟨zone.scriptBody, if zone.algo = .custom then sha1 zone.scriptBody else []⟩ }
  scripts := scripts
  burst := conf.burst
  complexTarget := conf.pass.complexTarget.isSome
  upstream := conf.pass.upstream.isSome
  password := conf.password.getD []
  database := conf.database.getD (-1)
  enableHeaders := conf.enableHeaders.getD false
  statusCode := conf.statusCode.getD 429
  onError := conf.onError.getD .deny
  pfx := conf.pfx.getD []
  quantity := conf.quantity.getD 1
  bufferSize := conf.bufferSize.getD 0

/-! ## What one merge guarantees -/

/-- What holds of the configuration of a context before and after it is merged. -/
structure ContextConf.Sound (zones : List (ZoneConf V)) (conf : ContextConf U V) : Prop where
  /-- The zone is the one that is named. -/
  zone : ∀ zone, conf.zone = some zone → zone ∈ zones ∧ sameName zone.name conf.zoneName = true
  /-- A burst is a count. -/
  burst : conf.burst ≠ -1 → 0 ≤ conf.burst ∧ conf.burst < 2 ^ 63

/-- What the checks add. -/
structure ContextConf.Merged (zones : List (ZoneConf V)) (conf : ContextConf U V) : Prop
    extends conf.Sound zones where
  /-- The override passes the check with the zone's requests. -/
  safe : ∀ zone, conf.zone = some zone → conf.burst ≠ -1 →
    toIntT zone.requests ≤ toIntT (luaMaxSafeInt - conf.burst)
  /-- A zone has a target. -/
  target : conf.zone.isSome = true →
    conf.pass.complexTarget.isSome = true ∨ conf.pass.upstream.isSome = true

/-- Directives leave the zone to the merge, and set counts. -/
structure ContextConf.Parsed (conf : ContextConf U V) : Prop where
  zone : conf.zone = none
  burst : conf.burst ≠ -1 → 0 ≤ conf.burst ∧ conf.burst < 2 ^ 63

/-- A context that was parsed has no zone before the merge, so that nothing can be wrong with
it. -/
theorem ContextConf.Parsed.sound {conf : ContextConf U V} (h : conf.Parsed)
    (zones : List (ZoneConf V)) : conf.Sound zones where
  zone zone hzone := by
    rw [h.zone] at hzone
    cases hzone
  burst := h.burst

/-- An argument of `ratelimit` keeps what parsing guarantees. -/
theorem ContextConf.Parsed.ratelimitArg {ngx : Nginx U V} {conf conf' : ContextConf U V}
    {word : Bytes} (h : conf.Parsed) (hstep : ratelimitArg ngx conf word = .ok conf') :
    conf'.Parsed := by
  unfold NginxRatelimit.ratelimitArg at hstep
  dsimp only at hstep
  split at hstep
  · split at hstep
    · cases hstep
    · obtain rfl := Except.ok.inj hstep
      exact ⟨h.zone, h.burst⟩
  split at hstep
  · split at hstep
    · cases hstep
    · rename_i hburst
      obtain rfl := Except.ok.inj hstep
      exact ⟨h.zone, fun _ => ⟨not_lt.mp hburst, NgxInt.val_lt _⟩⟩
  split at hstep
  · split at hstep
    · cases hstep
    · obtain rfl := Except.ok.inj hstep
      exact ⟨h.zone, h.burst⟩
  · cases hstep

/-- What nginx stores has no part in the zone and the burst. -/
theorem setting_frame {conf conf' : ContextConf U V} {s : Setting}
    (h : setting conf s = .ok conf') :
    conf'.zoneName = conf.zoneName ∧ conf'.zone = conf.zone ∧ conf'.burst = conf.burst := by
  cases s <;>
  · obtain ⟨_, -, hconf⟩ := bind_eq_ok.mp h
    obtain rfl := Except.ok.inj hconf
    exact ⟨rfl, rfl, rfl⟩

/-- So does every directive. -/
theorem ContextConf.Parsed.directive {ngx : Nginx U V} {conf conf' : ContextConf U V}
    {d : Directive} (h : conf.Parsed) (hstep : directive ngx conf d = .ok conf') :
    conf'.Parsed := by
  cases d with
  | ratelimit args =>
    change ratelimit ngx conf args = .ok conf' at hstep
    unfold ratelimit at hstep
    split at hstep
    · cases hstep
    · obtain ⟨conf₁, hargs, hstep⟩ := bind_eq_ok.mp hstep
      have h₁ : conf₁.Parsed := foldlM_ok_induction (fun _ _ _ h hstep => h.ratelimitArg hstep) h
        hargs
      split at hstep
      · cases hstep
      · obtain rfl := Except.ok.inj hstep
        exact h₁
  | pass target =>
    obtain ⟨_, -, hconf⟩ := bind_eq_ok.mp hstep
    obtain rfl := Except.ok.inj hconf
    exact ⟨h.zone, h.burst⟩
  | set s =>
    obtain ⟨-, hzone, hburst⟩ := setting_frame hstep
    exact ⟨hzone.trans h.zone, hburst ▸ h.burst⟩

/-- So a context that is accepted is as parsing leaves it. -/
theorem parseContext_parsed {ngx : Nginx U V} {ds : List Directive} {conf : ContextConf U V}
    (h : parseContext ngx ds = .ok conf) : conf.Parsed :=
  foldlM_ok_induction (fun _ _ _ h hstep => h.directive hstep)
    ⟨rfl, fun hburst => absurd rfl hburst⟩ h

/-- The zone reference of a merged context, by the look up. -/
theorem resolveZone_ok {zones : List (ZoneConf V)} {conf conf' : ContextConf U V}
    (h : resolveZone zones conf = .ok conf') :
    conf' = conf ∧ (conf.zoneName.length = 0 ∨ conf.zone.isSome = true) ∨
      conf.zoneName.length ≠ 0 ∧ ∃ zone ∈ zones, sameName zone.name conf.zoneName = true ∧
        conf' = { conf with zone := some zone } := by
  unfold resolveZone at h
  split at h
  · rename_i hlookup
    rw [Bool.and_eq_true, decide_eq_true_eq] at hlookup
    split at h
    · cases h
    · rename_i zone hfind
      obtain rfl := Except.ok.inj h
      have hname := List.find?_some hfind
      exact .inr ⟨hlookup.1, zone, List.mem_of_find?_eq_some hfind, hname, rfl⟩
  · rename_i hnot
    obtain rfl := Except.ok.inj h
    refine .inl ⟨rfl, ?_⟩
    cases hzone : conf.zone with
    | none => simpa [hzone] using hnot
    | some zone => exact .inr rfl

/-- A merge that succeeds, field by field. -/
structure MergeOk (ngx : Nginx U V) (zones : List (ZoneConf V))
    (prev own conf : ContextConf U V) : Prop where
  named : ∃ named, resolveZone zones (inheritZone prev own) = .ok named ∧
    conf.zoneName = named.zoneName ∧ conf.zone = named.zone
  burst : conf.burst = mergeValue own.burst prev.burst
  burstSafe : burstUnsafe conf = false
  pass : conf.pass = mergeLocConf prev.pass own.pass
  target : (conf.zone.isSome && conf.pass.upstream.isNone && conf.pass.complexTarget.isNone) = false

/-- A merge that succeeds has made all its checks. -/
theorem mergeContext_ok {ngx : Nginx U V} {zones : List (ZoneConf V)}
    {prev own conf : ContextConf U V} (h : mergeContext ngx zones prev own = .ok conf) :
    MergeOk ngx zones prev own conf := by
  obtain ⟨named, hnamed, h⟩ := bind_eq_ok.mp h
  -- What the look up leaves of the other fields.
  have hframe : named.burst = own.burst ∧ named.pass = own.pass := by
    have hinherit : (inheritZone prev own).burst = own.burst ∧
        (inheritZone prev own).pass = own.pass := by
      unfold inheritZone
      split <;> exact ⟨rfl, rfl⟩
    rcases resolveZone_ok hnamed with ⟨rfl, -⟩ | ⟨-, zone, -, -, rfl⟩
    · exact hinherit
    · exact hinherit
  dsimp only at h
  split at h
  · cases h
  · rename_i hsafe
    split at h
    · cases h
    · rename_i htarget
      obtain rfl := Except.ok.inj h
      refine ⟨⟨named, hnamed, rfl, rfl⟩, by rw [← hframe.1], Bool.eq_false_iff.mpr hsafe,
        by rw [← hframe.2], Bool.eq_false_iff.mpr htarget⟩

/-- The zone that a context has after the merge is registered, and is the one it names. -/
theorem inheritZone_sound {zones : List (ZoneConf V)} {prev own : ContextConf U V}
    (hprev : prev.Sound zones) (hown : own.Parsed) {zone : ZoneConf V}
    (h : (inheritZone prev own).zone = some zone) :
    zone ∈ zones ∧ sameName zone.name (inheritZone prev own).zoneName = true := by
  unfold inheritZone at h ⊢
  split
  · rename_i hlen
    rw [if_pos hlen] at h
    exact hprev.zone zone h
  · rename_i hlen
    rw [if_neg hlen, hown.zone] at h
    cases h

/-- A merge keeps what holds, and its checks add what they check. -/
theorem MergeOk.merged {ngx : Nginx U V} {zones : List (ZoneConf V)}
    {prev own conf : ContextConf U V} (h : MergeOk ngx zones prev own conf)
    (hprev : prev.Sound zones) (hown : own.Parsed) : conf.Merged zones where
  zone := by
    intro zone hzone
    obtain ⟨named, hnamed, hname, hzone'⟩ := h.named
    rw [hzone'] at hzone
    rw [hname]
    rcases resolveZone_ok hnamed with ⟨rfl, -⟩ | ⟨-, found, hmem, hsame, rfl⟩
    · exact inheritZone_sound hprev hown hzone
    · obtain rfl := Option.some.inj hzone
      exact ⟨hmem, hsame⟩
  burst := by
    intro hburst
    rw [h.burst] at hburst ⊢
    unfold mergeValue at hburst ⊢
    by_cases hown' : own.burst = -1
    · by_cases hprev' : prev.burst = -1
      · rw [if_pos hown', if_pos hprev'] at hburst
        exact absurd rfl hburst
      · rw [if_pos hown', if_neg hprev']
        exact hprev.burst hprev'
    · rw [if_neg hown']
      exact hown.burst hown'
  safe := by
    intro zone hzone hburst
    have hsafe := h.burstSafe
    simp only [burstUnsafe, hzone, Bool.and_eq_false_iff, decide_eq_false_iff_not] at hsafe
    rcases hsafe with hunset | hsafe
    · exact absurd hburst hunset
    · exact not_lt.mp hsafe
  target := by
    intro hzone
    have htarget := h.target
    rw [hzone, Bool.true_and] at htarget
    rw [Bool.and_eq_false_iff] at htarget
    rcases htarget with hupstream | hcomplex
    · exact .inr (by simpa using hupstream)
    · exact .inl (by simpa using hcomplex)

/-! ## All locations -/

/-- A location that was merged with a context around it. -/
structure MergedIn (ngx : Nginx U V) (zones : List (ZoneConf V)) (I : Location U V → Prop)
    (l : Location U V) (outer : Location U V) (ds : List Directive) (own : ContextConf U V) :
    Prop where
  around : I outer
  path : l.path = outer.path ++ [ds]
  parse : parseContext ngx ds = .ok own
  merge : mergeContext ngx zones outer.conf own = .ok l.conf

/-- Every merge keeps `I`. -/
def KeptByMerge (ngx : Nginx U V) (zones : List (ZoneConf V)) (I : Location U V → Prop) : Prop :=
  ∀ {l outer ds own}, MergedIn ngx zones I l outer ds own → I l

section

variable {ngx : Nginx U V} {zones : List (ZoneConf V)} {I : Location U V → Prop}

mutual

/-- What every merge keeps holds around every location. -/
theorem mergeBlock_forall (hkept : KeptByMerge ngx zones I) (block : Block)
    {outer : Location U V} (houter : I outer) {locations : List (Location U V)}
    (h : mergeBlock ngx zones outer block = .ok locations) :
    ∀ l ∈ locations, ∃ outer ds own, MergedIn ngx zones I l outer ds own := by
  match block with
  | .mk directives blocks =>
    rw [mergeBlock] at h
    obtain ⟨own, hown, h⟩ := bind_eq_ok.mp h
    obtain ⟨conf, hconf, h⟩ := bind_eq_ok.mp h
    obtain ⟨inner, hinner, h⟩ := bind_eq_ok.mp h
    obtain rfl := Except.ok.inj h
    have hmerged : MergedIn ngx zones I ⟨outer.path ++ [directives], conf⟩ outer directives own :=
      ⟨houter, rfl, hown, hconf⟩
    intro l hl
    rcases List.mem_cons.mp hl with rfl | hl
    · exact ⟨outer, directives, own, hmerged⟩
    · exact mergeBlocks_forall hkept blocks (hkept hmerged) hinner l hl

/-- And for every block in a list of them. -/
theorem mergeBlocks_forall (hkept : KeptByMerge ngx zones I) (blocks : List Block)
    {outer : Location U V} (houter : I outer) {locations : List (Location U V)}
    (h : mergeBlocks ngx zones outer blocks = .ok locations) :
    ∀ l ∈ locations, ∃ outer ds own, MergedIn ngx zones I l outer ds own := by
  match blocks with
  | [] =>
    rw [mergeBlocks] at h
    obtain rfl := Except.ok.inj h
    exact fun l hl => absurd hl List.not_mem_nil
  | block :: blocks =>
    rw [mergeBlocks] at h
    obtain ⟨first, hfirst, h⟩ := bind_eq_ok.mp h
    obtain ⟨rest, hrest, h⟩ := bind_eq_ok.mp h
    obtain rfl := Except.ok.inj h
    intro l hl
    rcases List.mem_append.mp hl with hl | hl
    · exact mergeBlock_forall hkept block houter hfirst l hl
    · exact mergeBlocks_forall hkept blocks houter hrest l hl

end

end

/-- The rule for all locations of a configuration: what holds of the context of `http`, and is kept
by every merge. -/
theorem loadConfig_forall {ngx : Nginx U V} {zoneDirectives : List (Bytes × List Bytes)}
    {http : Block} {zones : List (ZoneConf V)} {locations : List (Location U V)}
    (h : loadConfig ngx zoneDirectives http = .ok (zones, locations)) {I : Location U V → Prop}
    (hhttp : ∀ {ds conf}, parseContext ngx ds = .ok conf → I ⟨[ds], conf⟩)
    (hkept : KeptByMerge ngx zones I) :
    Registry zones ∧ ∀ l ∈ locations, ∃ outer ds own, MergedIn ngx zones I l outer ds own := by
  obtain ⟨zones', hzones, h⟩ := bind_eq_ok.mp h
  obtain ⟨directives, blocks⟩ := http
  obtain ⟨conf, hconf, h⟩ := bind_eq_ok.mp h
  obtain ⟨locations', hlocations, h⟩ := bind_eq_ok.mp h
  obtain ⟨rfl, rfl⟩ := Prod.mk.inj (Except.ok.inj h)
  exact ⟨loadZones_registry hzones, mergeBlocks_forall hkept blocks (hhttp hconf) hlocations⟩

/-- Every location that is loaded has what the checks guarantee. -/
theorem merged_of_loadConfig {ngx : Nginx U V} {zoneDirectives : List (Bytes × List Bytes)}
    {http : Block} {zones : List (ZoneConf V)} {locations : List (Location U V)}
    (h : loadConfig ngx zoneDirectives http = .ok (zones, locations)) :
    Registry zones ∧ ∀ l ∈ locations, l.conf.Merged zones := by
  have hmerged : ∀ {l outer ds own},
      MergedIn ngx zones (fun l => l.conf.Sound zones) l outer ds own → l.conf.Merged zones :=
    fun h => (mergeContext_ok h.merge).merged h.around (parseContext_parsed h.parse)
  obtain ⟨hzones, hlocations⟩ := loadConfig_forall h
    (fun hconf => (parseContext_parsed hconf).sound zones) (fun h => (hmerged h).toSound)
  refine ⟨hzones, fun l hl => ?_⟩
  obtain ⟨outer, ds, own, hin⟩ := hlocations l hl
  exact hmerged hin

/-! ## What a loaded configuration guarantees -/

/-- The numbers that a location sends are safe in Lua. -/
theorem ContextConf.Merged.safe_effectiveBurst {zones : List (ZoneConf V)} {conf : ContextConf U V}
    (h : conf.Merged zones) (hzones : Registry zones) {zone : ZoneConf V}
    (hzone : conf.zone = some zone) (scripts : Algo → Script) (sha1 : Bytes → Bytes) :
    ((zone.requests + effectiveBurst (conf.locConf zone scripts sha1) : ℕ) : ℤ) ≤
      luaMaxSafeInt := by
  have hok := (hzones.ok zone (h.zone zone hzone).1).safe
  unfold effectiveBurst
  change ((zone.requests + if conf.burst = -1 then zone.burst else conf.burst.toNat : ℕ) : ℤ) ≤ _
  split
  · -- The zone's own burst was checked by `ratelimit_zone`.
    exact_mod_cast hok
  · rename_i hburst
    have hsafe := h.safe zone hzone hburst
    obtain ⟨hnonneg, hlt⟩ := h.burst hburst
    have hrequests : toIntT zone.requests = zone.requests := by
      unfold toIntT
      unfold luaMaxSafeInt at hok
      apply Int.bmod_eq_of_le <;> omega
    rw [hrequests, toIntT_sub hnonneg hlt] at hsafe
    omega

/-- A location that has a target keeps one, whatever its requests find. -/
theorem target_after {pass : PassConf U V}
    (h : pass.complexTarget.isSome = true ∨ pass.upstream.isSome = true)
    (envs : List (PassEnv U V)) :
    (passMachine.after pass envs).complexTarget.isSome = true ∨
      (passMachine.after pass envs).upstream.isSome = true := by
  refine passMachine.after_induction
    (P := fun pass => pass.complexTarget.isSome = true ∨ pass.upstream.isSome = true) h ?_ envs
  intro pass env h
  cases hv : pass.complexTarget with
  | some v =>
    -- Only here the handler writes to the upstream, and the variables stay.
    refine .inl ?_
    change (passTarget env pass).2.complexTarget.isSome = true
    rw [(passTarget_complex env hv).2]
    rfl
  | none =>
    have hsame : (passMachine.step pass env).1 = pass :=
      congrArg Prod.snd (passTarget_static env hv)
    rw [hsame]
    exact h

/-- Every location with a zone of a configuration that is loaded: its zone is the only one of its
name; requests and period are positive; requests and the burst in effect make up a safe integer of
Lua, and the subtractions of the two checks do not overflow; the zone has a script if and only if it
is custom; and in every run of requests to the location, whatever the handler has written to its
configuration, the branch of the handler for a location without a target is not taken. -/
theorem accepted_safe {ngx : Nginx U V} {zoneDirectives : List (Bytes × List Bytes)} {http : Block}
    {zones : List (ZoneConf V)} {locations : List (Location U V)}
    (h : loadConfig ngx zoneDirectives http = .ok (zones, locations)) {l : Location U V}
    (hl : l ∈ locations) {zone : ZoneConf V} (hzone : l.conf.zone = some zone)
    (scripts : Algo → Script) (sha1 : Bytes → Bytes) :
    zones.filter (fun z => sameName z.name l.conf.zoneName) = [zone] ∧
    (0 ∉ l.conf.zoneName → zone.name = l.conf.zoneName) ∧
    1 ≤ zone.requests ∧ 1 ≤ zone.period ∧
    ((zone.requests + effectiveBurst (l.conf.locConf zone scripts sha1) : ℕ) : ℤ) ≤ luaMaxSafeInt ∧
    toIntT (luaMaxSafeInt - zone.burst) = luaMaxSafeInt - zone.burst ∧
    (l.conf.burst ≠ -1 →
      toIntT (luaMaxSafeInt - l.conf.burst) = luaMaxSafeInt - l.conf.burst) ∧
    (zone.scriptBody ≠ [] ↔ zone.algo = .custom) ∧
    ∀ envs : List (PassEnv U V),
      let conf :=
        { l.conf with pass := passMachine.after l.conf.pass envs }.locConf zone scripts sha1
      (!conf.complexTarget && !conf.upstream) = false := by
  obtain ⟨hzones, hmerged⟩ := merged_of_loadConfig h
  have hconf := hmerged l hl
  obtain ⟨hmem, hname⟩ := hconf.zone zone hzone
  have hok := hzones.ok zone hmem
  have hsafe := hok.safe
  have hburst_lt : (zone.burst : ℤ) < 2 ^ 63 := by
    unfold luaMaxSafeInt at hsafe
    omega
  refine ⟨hzones.filter_eq hmem hname, eq_of_sameName hname, hok.requests_pos, hok.period_pos,
    hconf.safe_effectiveBurst hzones hzone scripts sha1, toIntT_sub (by omega) hburst_lt,
    fun hburst => ?_, hok.script_iff, fun envs => ?_⟩
  · obtain ⟨hnonneg, hlt⟩ := hconf.burst hburst
    exact toIntT_sub hnonneg hlt
  · have htarget := hconf.target (by rw [hzone]; rfl)
    rcases target_after htarget envs with hcomplex | hupstream
    · simp [ContextConf.locConf, hcomplex]
    · simp [ContextConf.locConf, hupstream]

/-- A zone of 10 requests a minute, in a server without a target of its own, with an override. -/
theorem accepted_safe_override :
    let zone : ZoneConf Bytes := ⟨text "a", text "$remote_addr", 10, 60, 5, .fixedWindow, []⟩
    let conf : ContextConf Bytes Bytes :=
      { zoneName := text "a", zone := some zone, burst := 20, pass := ⟨some (text "redis"), none⟩
        password := some [], database := some (-1), enableHeaders := some false
        statusCode := some 429, onError := some .deny, pfx := some [], quantity := some 1
        bufferSize := some 4096 }
    [zone].filter (fun z => sameName z.name conf.zoneName) = [zone] ∧
      ((zone.requests + effectiveBurst (conf.locConf zone (fun _ => ⟨[], []⟩) id) : ℕ) : ℤ) ≤
        luaMaxSafeInt := by
  intro zone conf
  have hload : loadConfig Nginx.plain
      [(text "a", [text "key=$remote_addr", text "rate=10r/m", text "burst=5"])]
      (.mk [.pass (text "redis")] [.mk [.ratelimit [text "zone=a", text "burst=20"]] []]) =
      .ok ([zone], [⟨[[.pass (text "redis")], [.ratelimit [text "zone=a", text "burst=20"]]],
        conf⟩]) := by
    decide +kernel
  obtain ⟨hunique, -, -, -, hsafe, -⟩ := accepted_safe hload (List.mem_singleton_self _) rfl
    (fun _ => ⟨[], []⟩) id
  exact ⟨hunique, hsafe⟩

/-- A loaded location with a zone of the fixed window has the numbers that its script relies on. -/
def windowLocation {ngx : Nginx U V} {zoneDirectives : List (Bytes × List Bytes)} {http : Block}
    {zones : List (ZoneConf V)} {locations : List (Location U V)}
    (h : loadConfig ngx zoneDirectives http = .ok (zones, locations)) {l : Location U V}
    (hl : l ∈ locations) {zone : ZoneConf V} (hzone : l.conf.zone = some zone)
    (halgo : zone.algo = .fixedWindow) (scripts : Algo → Script) (sha1 : Bytes → Bytes) :
    WindowLocation where
  conf := l.conf.locConf zone scripts sha1
  algo_eq := halgo
  requests_pos := by
    obtain ⟨hzones, hmerged⟩ := merged_of_loadConfig h
    exact (hzones.ok zone ((hmerged l hl).zone zone hzone).1).requests_pos
  period_pos := by
    obtain ⟨hzones, hmerged⟩ := merged_of_loadConfig h
    exact (hzones.ok zone ((hmerged l hl).zone zone hzone).1).period_pos
  limit_lt := by
    obtain ⟨hzones, hmerged⟩ := merged_of_loadConfig h
    have hsafe := (hmerged l hl).safe_effectiveBurst hzones hzone scripts sha1
    unfold luaMaxSafeInt at hsafe
    change zone.requests + effectiveBurst (l.conf.locConf zone scripts sha1) < 2 ^ 53
    omega

end

end NginxRatelimit
