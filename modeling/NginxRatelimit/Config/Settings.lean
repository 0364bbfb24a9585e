import NginxRatelimit.Config.Burst

/-!
# The settings of a location

The settings besides the zone, its burst and the target are inherited too, each for itself, and one
that no context sets has its default. So what counts is the last directive on the path of a location
that says it (`setting_last`). A context has only one, but for `quantity=`, an argument of
`ratelimit` that overrides the `ratelimit_quantity` before it.
-/

namespace NginxRatelimit

open Library

section

variable {U V : Type}

/-! ## Settings by name -/

/-- A setting that nginx merges as a value. -/
inductive Field where
  | password | database | headers | status | onError | pfx | quantity | bufferSize
  deriving DecidableEq

/-- The one that a directive is for. -/
def Setting.field : Setting → Field
  | .password _ => .password
  | .database _ => .database
  | .headers _ => .headers
  | .status _ => .status
  | .onError _ => .onError
  | .pfx _ => .pfx
  | .quantity _ => .quantity
  | .bufferSize _ => .bufferSize

/-- What a context has for a setting. -/
def ContextConf.held (conf : ContextConf U V) : Field → Option Setting
  | .password => conf.password.map .password
  | .database => conf.database.map .database
  | .headers => conf.enableHeaders.map .headers
  | .status => conf.statusCode.map .status
  | .onError => conf.onError.map .onError
  | .pfx => conf.pfx.map .pfx
  | .quantity => conf.quantity.map .quantity
  | .bufferSize => conf.bufferSize.map .bufferSize

/-- What a request reads of it. -/
def LocConf.held (conf : LocConf) : Field → Setting
  | .password => .password conf.password
  | .database => .database conf.database
  | .headers => .headers conf.enableHeaders
  | .status => .status conf.statusCode
  | .onError => .onError conf.onError
  | .pfx => .pfx conf.pfx
  | .quantity => .quantity conf.quantity
  | .bufferSize => .bufferSize conf.bufferSize

/-- The defaults of `ngx_http_ratelimit_merge_loc_conf`. -/
def Field.default (ngx : Nginx U V) : Field → Setting
  | .password => .password []
  | .database => .database (-1)
  | .headers => .headers false
  | .status => .status 429
  | .onError => .onError .deny
  | .pfx => .pfx []
  | .quantity => .quantity 1
  | .bufferSize => .bufferSize ngx.pageSize

/-- The quantity in an argument of `ratelimit`. -/
def quantityArg (ngx : Nginx U V) (word : Bytes) : Option ℕ :=
  if strncmpEq word (text "zone=") 5 || strncmpEq word (text "burst=") 6 then none
  else if strncmpEq word (text "quantity=") 9 then some (ngx.atoi (word.drop 9)).val.toNat
  else none

/-- What an argument of `ratelimit` says of a setting. -/
def argTells (ngx : Nginx U V) (f : Field) (word : Bytes) : Option Setting :=
  if f = .quantity then (quantityArg ngx word).map .quantity else none

/-- What a directive says of it. -/
def Directive.tells (ngx : Nginx U V) (f : Field) : Directive → Option Setting
  | .ratelimit args => innermost (args.map (argTells ngx f))
  | .pass _ => none
  | .set s => if s.field = f then some s else none

/-! ## What a context has -/

/-- An argument of `ratelimit` replaces the setting that it tells, and keeps the others. -/
theorem ratelimitArg_held {ngx : Nginx U V} {conf conf' : ContextConf U V} {word : Bytes}
    (h : ratelimitArg ngx conf word = .ok conf') (f : Field) :
    conf'.held f = (argTells ngx f word).or (conf.held f) := by
  unfold ratelimitArg at h
  unfold argTells quantityArg
  dsimp only at h
  by_cases hzone : strncmpEq word (text "zone=") 5 = true
  · rw [if_pos hzone] at h
    split at h
    · cases h
    · obtain rfl := Except.ok.inj h
      rw [hzone]
      cases f <;> rfl
  rw [if_neg hzone] at h
  by_cases hburst : strncmpEq word (text "burst=") 6 = true
  · rw [if_pos hburst] at h
    split at h
    · cases h
    · obtain rfl := Except.ok.inj h
      rw [hburst, Bool.or_true]
      cases f <;> rfl
  rw [if_neg hburst] at h
  by_cases hquantity : strncmpEq word (text "quantity=") 9 = true
  · rw [if_pos hquantity] at h
    split at h
    · cases h
    · obtain rfl := Except.ok.inj h
      rw [Bool.not_eq_true] at hzone hburst
      rw [hzone, hburst, hquantity]
      cases f <;> rfl
  · rw [if_neg hquantity] at h
    cases h

/-- When each step of a fold that may fail replaces what it tells, the last one that tells counts. -/
theorem foldlM_held {ε σ α β : Type} {f : σ → α → Except ε σ} {held : σ → Option β}
    {tells : α → Option β} (hstep : ∀ s a s', f s a = .ok s' → held s' = (tells a).or (held s))
    {xs : List α} {s s' : σ} (h : xs.foldlM f s = .ok s') :
    held s' = (innermost (xs.map tells)).or (held s) := by
  induction xs generalizing s with
  | nil =>
    obtain rfl := Except.ok.inj h
    rfl
  | cons a xs ih =>
    rw [List.foldlM_cons] at h
    obtain ⟨s₁, hfirst, hrest⟩ := bind_eq_ok.mp h
    rw [ih hrest, hstep s a s₁ hfirst, List.map_cons, innermost_cons, Option.or_assoc]

/-- Of all arguments the last one that tells a setting is held. -/
theorem ratelimitArgs_held {ngx : Nginx U V} {args : List Bytes} {conf conf' : ContextConf U V}
    (h : args.foldlM (ratelimitArg ngx) conf = .ok conf') (f : Field) :
    conf'.held f = (innermost (args.map (argTells ngx f))).or (conf.held f) :=
  foldlM_held (fun _ _ _ hstep => ratelimitArg_held hstep f) h

/-- nginx stores a value that is not there yet. -/
theorem setSlot_ok {α : Type} {old new : Option α} {v : α} (h : setSlot old v = .ok new) :
    new = some v := by
  unfold setSlot at h
  split at h
  · cases h
  · exact (Except.ok.inj h).symm

/-- A directive with one value replaces its own setting, and keeps the others. -/
theorem setting_held {conf conf' : ContextConf U V} {s : Setting} (h : setting conf s = .ok conf')
    (f : Field) : conf'.held f = (if s.field = f then some s else none).or (conf.held f) := by
  cases s <;>
  · obtain ⟨new, hnew, hconf⟩ := bind_eq_ok.mp h
    obtain rfl := Except.ok.inj hconf
    obtain rfl := setSlot_ok hnew
    cases f <;> rfl

/-- A directive replaces what it says, and leaves the rest. -/
theorem directive_held {ngx : Nginx U V} {conf conf' : ContextConf U V} {d : Directive}
    (h : directive ngx conf d = .ok conf') (f : Field) :
    conf'.held f = (d.tells ngx f).or (conf.held f) := by
  cases d with
  | ratelimit args =>
    change ratelimit ngx conf args = .ok conf' at h
    unfold ratelimit at h
    split at h
    · cases h
    · obtain ⟨conf₁, hargs, h⟩ := bind_eq_ok.mp h
      split at h
      · cases h
      · obtain rfl := Except.ok.inj h
        exact ratelimitArgs_held hargs f
  | pass target =>
    obtain ⟨_, -, hconf⟩ := bind_eq_ok.mp h
    obtain rfl := Except.ok.inj hconf
    cases f <;> rfl
  | set s => exact setting_held h f

/-- Of all directives of a context the last one that tells a setting is held. -/
theorem directives_held {ngx : Nginx U V} {ds : List Directive} {conf conf' : ContextConf U V}
    (h : ds.foldlM (directive ngx) conf = .ok conf') (f : Field) :
    conf'.held f = (innermost (ds.map (Directive.tells ngx f))).or (conf.held f) :=
  foldlM_held (fun _ _ _ hstep => directive_held hstep f) h

/-- A context has what its last directive says. -/
theorem parseContext_held {ngx : Nginx U V} {ds : List Directive} {conf : ContextConf U V}
    (h : parseContext ngx ds = .ok conf) (f : Field) :
    conf.held f = innermost (ds.map (Directive.tells ngx f)) := by
  rw [directives_held h f]
  cases f <;> exact Option.or_none

/-! ## What a location has -/

/-- A merge takes what is missing from the context around, or the default. -/
theorem mergeContext_held {ngx : Nginx U V} {zones : List (ZoneConf V)}
    {prev own conf : ContextConf U V} (h : mergeContext ngx zones prev own = .ok conf) (f : Field) :
    conf.held f = some (((own.held f).or (prev.held f)).getD (f.default ngx)) := by
  obtain ⟨named, hnamed, h⟩ := bind_eq_ok.mp h
  -- The zone and its look up leave the settings.
  have hframe : ∀ f, named.held f = own.held f := by
    have hinherit : ∀ f, (inheritZone prev own).held f = own.held f := by
      intro f
      unfold inheritZone
      split <;> cases f <;> rfl
    rcases resolveZone_ok hnamed with ⟨rfl, -⟩ | ⟨-, zone, -, -, rfl⟩
    · exact hinherit
    · intro f
      rw [← hinherit f]
      cases f <;> rfl
  have hmerge : ∀ {α : Type} (mk : α → Setting) (own prev : Option α) (default : α),
      (mergeDefault own prev default).map mk =
        some (((own.map mk).or (prev.map mk)).getD (mk default)) := by
    intro α mk own prev default
    cases own <;> cases prev <;> rfl
  dsimp only at h
  split at h
  · cases h
  · split at h
    · cases h
    · obtain rfl := Except.ok.inj h
      rw [← hframe f]
      cases f <;> exact hmerge _ _ _ _

/-- A location has what the last directive on its path says, or the default. -/
def TellsLast (ngx : Nginx U V) (l : Location U V) : Prop :=
  ∀ f : Field, (l.conf.held f).getD (f.default ngx) =
    (innermost (l.path.flatten.map (Directive.tells ngx f))).getD (f.default ngx)

/-- The `http` block holds what it tells last. -/
theorem tellsLast_http {ngx : Nginx U V} {ds : List Directive} {conf : ContextConf U V}
    (h : parseContext ngx ds = .ok conf) : TellsLast ngx ⟨[ds], conf⟩ := by
  intro f
  rw [parseContext_held h f, List.flatten_singleton]

/-- A merge hands the settings down. -/
theorem MergedIn.held {ngx : Nginx U V} {zones : List (ZoneConf V)} {l outer : Location U V}
    {ds : List Directive} {own : ContextConf U V}
    (h : MergedIn ngx zones (TellsLast ngx) l outer ds own) (f : Field) :
    l.conf.held f = some
      ((innermost (l.path.flatten.map (Directive.tells ngx f))).getD (f.default ngx)) := by
  have houter := h.around f
  rw [mergeContext_held h.merge f, h.path, List.flatten_append, List.flatten_singleton,
    List.map_append, innermost_append, parseContext_held h.parse f]
  cases innermost (ds.map (Directive.tells ngx f)) with
  | some s => rfl
  | none => exact congrArg some houter

/-- What a request reads is what the location has. -/
theorem held_locConf {conf : ContextConf U V} {f : Field} {s : Setting} (h : conf.held f = some s)
    (zone : ZoneConf V) (scripts : Algo → Script) (sha1 : Bytes → Bytes) :
    (conf.locConf zone scripts sha1).held f = s := by
  cases f <;>
  · obtain ⟨v, hv, rfl⟩ := Option.map_eq_some_iff.mp h
    simp [ContextConf.locConf, LocConf.held, hv]

/-- In every location of a configuration that is loaded, requests read for each setting what the
last directive on its path says, from `http` inwards, and the default if no directive says it. -/
theorem setting_last {ngx : Nginx U V} {zoneDirectives : List (Bytes × List Bytes)} {http : Block}
    {zones : List (ZoneConf V)} {locations : List (Location U V)}
    (h : loadConfig ngx zoneDirectives http = .ok (zones, locations)) {l : Location U V}
    (hl : l ∈ locations) (zone : ZoneConf V) (scripts : Algo → Script) (sha1 : Bytes → Bytes)
    (f : Field) : (l.conf.locConf zone scripts sha1).held f =
      (innermost (l.path.flatten.map (Directive.tells ngx f))).getD (f.default ngx) := by
  obtain ⟨-, hlocations⟩ := loadConfig_forall h tellsLast_http fun hin f => by
    rw [hin.held f, Option.getD_some]
  obtain ⟨outer, ds, own, hin⟩ := hlocations l hl
  exact held_locConf (hin.held f) zone scripts sha1

/-- A location in a server with both forms of the quantity: that of `ratelimit` is the last one. -/
theorem setting_last_quantity :
    let zone : ZoneConf Bytes := ⟨text "a", text "$remote_addr", 10, 60, 0, .fixedWindow, []⟩
    let conf : ContextConf Bytes Bytes :=
      { zoneName := text "a", zone := some zone, burst := -1, pass := ⟨some (text "redis"), none⟩
        password := some [], database := some (-1), enableHeaders := some false
        statusCode := some 503, onError := some .deny, pfx := some [], quantity := some 3
        bufferSize := some 4096 }
    let http : List Directive := [.pass (text "redis"), .set (.quantity 5), .set (.status 503)]
    let server : List Directive := [.set (.quantity 2), .ratelimit [text "zone=a", text "quantity=3"]]
    ∀ f, (conf.locConf zone (fun _ => ⟨[], []⟩) id).held f =
      (innermost ([http, server, []].flatten.map (Directive.tells Nginx.plain f))).getD
        (f.default Nginx.plain) := by
  intro zone conf http server
  have hload : loadConfig Nginx.plain [(text "a", [text "key=$remote_addr", text "rate=10r/m"])]
      (.mk http [.mk server [.mk [] []]]) =
      .ok ([zone], [⟨[http, server], conf⟩, ⟨[http, server, []], conf⟩]) := by
    decide +kernel
  exact setting_last hload (List.mem_cons_of_mem _ (List.mem_singleton_self _)) zone
    (fun _ => ⟨[], []⟩) id

end

end NginxRatelimit
