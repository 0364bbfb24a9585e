import NginxRatelimit.Config.Context

/-!
# The burst of a location

`ratelimit zone=Z burst=B` overrides the burst of its zone. The zone that a location inherits is
that of the innermost `ratelimit` directive on its path. The burst is inherited for itself: it is
that of the innermost directive with `burst=`, which may have been written for another zone.
`burst_override_iff` says when the two are one.
-/

namespace NginxRatelimit

open Library

section

variable {U V : Type}

/-! ## What a directive says -/

/-- A `ratelimit` directive, as it is written. -/
structure Override where
  /-- `zone=`. -/
  zoneName : Bytes
  /-- `burst=`, if it is there. -/
  burst : Option ℤ
  deriving DecidableEq

/-- Of repeated arguments the last counts. -/
def overrideArg (ngx : Nginx U V) (o : Override) (word : Bytes) : Override :=
  if strncmpEq word (text "zone=") 5 then { o with zoneName := word.drop 5 }
  else if strncmpEq word (text "burst=") 6 then
    { o with burst := some (ngx.atoi (word.drop 6)).val }
  else o

/-- The directive with these arguments. -/
def overrideOf (ngx : Nginx U V) (args : List Bytes) : Override :=
  args.foldl (overrideArg ngx) ⟨[], none⟩

/-- The `ratelimit` directive of a context. -/
def ownOverride (ngx : Nginx U V) (ds : List Directive) : Option Override :=
  ds.findSome? fun d =>
    match d with
    | .ratelimit args => some (overrideOf ngx args)
    | .pass _ | .set _ => none

/-- The burst that a directive means for its zone. -/
def Override.meantBurst (o : Override) (zone : ZoneConf V) : ℤ := o.burst.getD zone.burst

/-! ## What a context stores of it -/

/-- A context stores what its directive says. -/
structure Stores (conf : ContextConf U V) (name : Bytes) (own : Option ℤ) : Prop where
  zoneName : conf.zoneName = name
  burst : conf.burst = own.getD (-1)
  nonneg : ∀ b, own = some b → 0 ≤ b

/-- An argument of `ratelimit` stores what `overrideArg` takes from it. -/
theorem Stores.ratelimitArg {ngx : Nginx U V} {conf conf' : ContextConf U V} {o : Override}
    {word : Bytes} (h : Stores conf o.zoneName o.burst)
    (hstep : ratelimitArg ngx conf word = .ok conf') :
    Stores conf' (overrideArg ngx o word).zoneName (overrideArg ngx o word).burst := by
  unfold NginxRatelimit.ratelimitArg at hstep
  unfold overrideArg
  dsimp only at hstep
  by_cases hzone : strncmpEq word (text "zone=") 5 = true
  · rw [if_pos hzone] at hstep ⊢
    split at hstep
    · cases hstep
    · obtain rfl := Except.ok.inj hstep
      exact ⟨rfl, h.burst, h.nonneg⟩
  · rw [if_neg hzone] at hstep ⊢
    by_cases hburst : strncmpEq word (text "burst=") 6 = true
    · rw [if_pos hburst] at hstep ⊢
      split at hstep
      · cases hstep
      · rename_i hnonneg
        obtain rfl := Except.ok.inj hstep
        refine ⟨h.zoneName, rfl, fun b hb => ?_⟩
        obtain rfl := Option.some.inj hb
        exact not_lt.mp hnonneg
    · rw [if_neg hburst] at hstep ⊢
      split at hstep
      · split at hstep
        · cases hstep
        · obtain rfl := Except.ok.inj hstep
          exact ⟨h.zoneName, h.burst, h.nonneg⟩
      · cases hstep

/-- So do all of its arguments, of which the last of a kind wins. -/
theorem Stores.ratelimitArgs {ngx : Nginx U V} {args : List Bytes} {conf conf' : ContextConf U V}
    {o : Override} (h : Stores conf o.zoneName o.burst)
    (hargs : args.foldlM (NginxRatelimit.ratelimitArg ngx) conf = .ok conf') :
    Stores conf' (args.foldl (overrideArg ngx) o).zoneName
      (args.foldl (overrideArg ngx) o).burst := by
  induction args generalizing conf o with
  | nil =>
    obtain rfl := Except.ok.inj hargs
    exact h
  | cons word args ih =>
    rw [List.foldlM_cons] at hargs
    obtain ⟨conf₁, hfirst, hrest⟩ := bind_eq_ok.mp hargs
    exact ih (h.ratelimitArg hfirst) hrest

/-- The fields after the directives of a context. -/
def StoresOwn (conf : ContextConf U V) (own : Option Override) : Prop :=
  Stores conf ((own.map Override.zoneName).getD []) (own.bind Override.burst) ∧
    ∀ o, own = some o → o.zoneName ≠ []

/-- The other directives leave the zone and the burst. -/
theorem directive_other {ngx : Nginx U V} {conf conf' : ContextConf U V} {d : Directive}
    (hd : ∀ args, d ≠ .ratelimit args) (h : directive ngx conf d = .ok conf') :
    conf'.zoneName = conf.zoneName ∧ conf'.burst = conf.burst := by
  cases d with
  | ratelimit args => exact absurd rfl (hd args)
  | pass target =>
    obtain ⟨_, -, hconf⟩ := bind_eq_ok.mp h
    obtain rfl := Except.ok.inj hconf
    exact ⟨rfl, rfl⟩
  | set s =>
    obtain ⟨hname, -, hburst⟩ := setting_frame h
    exact ⟨hname, hburst⟩

/-- A context has one `ratelimit` directive at most. -/
theorem directives_named {ngx : Nginx U V} {ds : List Directive} {conf conf' : ContextConf U V}
    (hname : conf.zoneName ≠ []) (h : ds.foldlM (directive ngx) conf = .ok conf') :
    conf'.zoneName = conf.zoneName ∧ conf'.burst = conf.burst := by
  refine foldlM_ok_induction
    (P := fun c : ContextConf U V => c.zoneName = conf.zoneName ∧ c.burst = conf.burst)
    (fun c d c' hc hstep => ?_) ⟨rfl, rfl⟩ h
  cases d with
  | ratelimit args =>
    change ratelimit ngx c args = .ok c' at hstep
    have hlen : c.zoneName.length ≠ 0 := by
      rw [hc.1, ne_eq, List.length_eq_zero_iff]
      exact hname
    rw [ratelimit, if_pos hlen] at hstep
    cases hstep
  | pass target =>
    obtain ⟨hname', hburst'⟩ := directive_other (d := .pass target) (fun _ => nofun) hstep
    exact ⟨hname'.trans hc.1, hburst'.trans hc.2⟩
  | set s =>
    obtain ⟨hname', hburst'⟩ := directive_other (d := .set s) (fun _ => nofun) hstep
    exact ⟨hname'.trans hc.1, hburst'.trans hc.2⟩

/-- A context that began with neither setting stores those of its own `ratelimit`. -/
theorem directives_store {ngx : Nginx U V} {ds : List Directive} {conf conf' : ContextConf U V}
    (hname : conf.zoneName = []) (hburst : conf.burst = -1)
    (h : ds.foldlM (directive ngx) conf = .ok conf') : StoresOwn conf' (ownOverride ngx ds) := by
  induction ds generalizing conf with
  | nil =>
    obtain rfl := Except.ok.inj h
    exact ⟨⟨hname, hburst, nofun⟩, nofun⟩
  | cons d ds ih =>
    rw [List.foldlM_cons] at h
    obtain ⟨conf₁, hfirst, hrest⟩ := bind_eq_ok.mp h
    cases d with
    | ratelimit args =>
      change ratelimit ngx conf args = .ok conf₁ at hfirst
      have hlen : ¬ conf.zoneName.length ≠ 0 := by simp [hname]
      rw [ratelimit, if_neg hlen] at hfirst
      obtain ⟨conf₂, hargs, hfirst⟩ := bind_eq_ok.mp hfirst
      have hstores : Stores conf₂ (overrideOf ngx args).zoneName (overrideOf ngx args).burst :=
        Stores.ratelimitArgs (o := ⟨[], none⟩) ⟨hname, hburst, nofun⟩ hargs
      split at hfirst
      · cases hfirst
      · rename_i hnamed
        obtain rfl := Except.ok.inj hfirst
        have hne : conf₂.zoneName ≠ [] := fun hnil => hnamed (by rw [hnil]; rfl)
        -- The directives after it are others.
        obtain ⟨hname', hburst'⟩ := directives_named hne hrest
        refine ⟨⟨hname'.trans hstores.zoneName, hburst'.trans hstores.burst, hstores.nonneg⟩, ?_⟩
        intro o ho
        obtain rfl := Option.some.inj ho
        rw [← hstores.zoneName]
        exact hne
    | pass target =>
      obtain ⟨hname', hburst'⟩ := directive_other (d := .pass target) (fun _ => nofun) hfirst
      exact ih (hname'.trans hname) (hburst'.trans hburst) hrest
    | set s =>
      obtain ⟨hname', hburst'⟩ := directive_other (d := .set s) (fun _ => nofun) hfirst
      exact ih (hname'.trans hname) (hburst'.trans hburst) hrest

/-- A parsed context stores the override that it writes, and nothing else. -/
theorem parseContext_stores {ngx : Nginx U V} {ds : List Directive} {conf : ContextConf U V}
    (h : parseContext ngx ds = .ok conf) : StoresOwn conf (ownOverride ngx ds) :=
  directives_store rfl rfl h

/-! ## What a location inherits -/

/-- The directives on a path. -/
def overrides (ngx : Nginx U V) (path : List (List Directive)) : List (Option Override) :=
  path.map (ownOverride ngx)

/-- The name and the burst that a context ends up with. -/
structure Inherits (ngx : Nginx U V) (l : Location U V) : Prop where
  stores : Stores l.conf (((innermost (overrides ngx l.path)).map Override.zoneName).getD [])
    (innermost ((overrides ngx l.path).map (·.bind Override.burst)))
  /-- A context has a zone only by the name that it inherits. -/
  named : l.conf.zone.isSome = true → l.conf.zoneName ≠ []

/-- The `http` block has nothing to inherit: it holds what it writes. -/
theorem inherits_http {ngx : Nginx U V} {ds : List Directive} {conf : ContextConf U V}
    (h : parseContext ngx ds = .ok conf) : Inherits ngx ⟨[ds], conf⟩ where
  stores := by
    rw [overrides, List.map_singleton, List.map_singleton, innermost_singleton, innermost_singleton]
    exact (parseContext_stores h).1
  named hzone := by
    rw [(parseContext_parsed h).zone] at hzone
    cases hzone

/-- Values are merged like any other field. -/
theorem mergeValue_getD {own outer : Option ℤ} (hown : ∀ b, own = some b → 0 ≤ b)
    (houter : ∀ b, outer = some b → 0 ≤ b) :
    mergeValue (own.getD (-1)) (outer.getD (-1)) = (own.or outer).getD (-1) := by
  unfold mergeValue
  cases own with
  | some b =>
    have hb := hown b rfl
    exact if_neg (by dsimp only [Option.getD_some]; omega)
  | none =>
    cases outer with
    | some b =>
      have hb := houter b rfl
      exact (if_pos rfl).trans (if_neg (by dsimp only [Option.getD_some]; omega))
    | none => rfl

/-- The name of the zone is inherited where none is written. -/
theorem inheritZone_zoneName (prev own : ContextConf U V) : (inheritZone prev own).zoneName =
    if own.zoneName.length = 0 then prev.zoneName else own.zoneName := by
  unfold inheritZone
  split <;> rfl

/-- The name of a merged context. -/
theorem MergeOk.zoneName_eq {ngx : Nginx U V} {zones : List (ZoneConf V)}
    {prev own conf : ContextConf U V} (h : MergeOk ngx zones prev own conf) :
    conf.zoneName = if own.zoneName.length = 0 then prev.zoneName else own.zoneName := by
  obtain ⟨named, hnamed, hname, -⟩ := h.named
  rw [hname, ← inheritZone_zoneName]
  rcases resolveZone_ok hnamed with ⟨rfl, -⟩ | ⟨-, zone, -, -, rfl⟩
  · rfl
  · rfl

/-- A merged context has a zone by its name only, if the one around it has. -/
theorem MergeOk.zone_named {ngx : Nginx U V} {zones : List (ZoneConf V)}
    {prev own conf : ContextConf U V} (h : MergeOk ngx zones prev own conf)
    (hprev : prev.zone.isSome = true → prev.zoneName ≠ []) (hzone : conf.zone.isSome = true) :
    conf.zoneName ≠ [] := by
  obtain ⟨named, hnamed, hname, hzone'⟩ := h.named
  rw [hzone'] at hzone
  rw [hname]
  rcases resolveZone_ok hnamed with ⟨rfl, -⟩ | ⟨hlen, zone, -, -, rfl⟩
  · unfold inheritZone at hzone ⊢
    split
    · rename_i hempty
      rw [if_pos hempty] at hzone
      exact hprev hzone
    · rename_i hnamed
      exact fun hnil => hnamed (by rw [hnil]; rfl)
  · exact fun hnil => hlen (by rw [← List.length_eq_zero_iff] at hnil; exact hnil)

/-- A merge hands down the name and the burst, each for itself. -/
theorem MergedIn.inherits {ngx : Nginx U V} {zones : List (ZoneConf V)} {l outer : Location U V}
    {ds : List Directive} {own : ContextConf U V}
    (h : MergedIn ngx zones (Inherits ngx) l outer ds own) : Inherits ngx l := by
  have hok := mergeContext_ok h.merge
  obtain ⟨hstores, hne⟩ := parseContext_stores h.parse
  have houter := h.around.stores
  have hpath : overrides ngx l.path = overrides ngx outer.path ++ [ownOverride ngx ds] := by
    rw [overrides, h.path, List.map_append]
    rfl
  refine ⟨⟨?_, ?_, ?_⟩, hok.zone_named h.around.named⟩
  · rw [hok.zoneName_eq, hpath, innermost_append_singleton, houter.zoneName, hstores.zoneName]
    cases hown : ownOverride ngx ds with
    | none => rfl
    | some o =>
      have hlen : ¬ o.zoneName.length = 0 := by
        rw [List.length_eq_zero_iff]
        exact hne o hown
      exact if_neg hlen
  · rw [hok.burst, hpath, List.map_append, List.map_singleton, innermost_append_singleton,
      houter.burst, hstores.burst]
    exact mergeValue_getD hstores.nonneg houter.nonneg
  · rw [hpath, List.map_append, List.map_singleton, innermost_append_singleton]
    intro b hb
    rcases Option.or_eq_some_iff.mp hb with hb | ⟨-, hb⟩
    · exact hstores.nonneg b hb
    · exact houter.nonneg b hb

/-- The burst of a location with a zone is what the innermost `ratelimit` directive on its path
means for that zone, which it names, if and only if this directive has `burst=`, or the innermost
`burst=` on the path, if there is any, is the zone's own burst. -/
theorem burst_override_iff {ngx : Nginx U V} {zoneDirectives : List (Bytes × List Bytes)}
    {http : Block} {zones : List (ZoneConf V)} {locations : List (Location U V)}
    (h : loadConfig ngx zoneDirectives http = .ok (zones, locations)) {l : Location U V}
    (hl : l ∈ locations) {zone : ZoneConf V} (hzone : l.conf.zone = some zone)
    (scripts : Algo → Script) (sha1 : Bytes → Bytes) :
    ∃ o, innermost (overrides ngx l.path) = some o ∧ sameName zone.name o.zoneName = true ∧
      ((effectiveBurst (l.conf.locConf zone scripts sha1) : ℤ) = o.meantBurst zone ↔
        o.burst.isSome = true ∨
          ∀ b, innermost ((overrides ngx l.path).map (·.bind Override.burst)) = some b →
            b = zone.burst) := by
  have hinherits : Inherits ngx l := by
    obtain ⟨-, hlocations⟩ := loadConfig_forall h inherits_http MergedIn.inherits
    obtain ⟨outer, ds, own, hin⟩ := hlocations l hl
    exact hin.inherits
  obtain ⟨hname, hburst, hnonneg⟩ := hinherits.stores
  have hnamed := hinherits.named (by rw [hzone]; rfl)
  have hsame := (((merged_of_loadConfig h).2 l hl).zone zone hzone).2
  cases ho : innermost (overrides ngx l.path) with
  | none =>
    rw [ho] at hname
    exact absurd hname hnamed
  | some o =>
    have hname' : l.conf.zoneName = o.zoneName := by rw [hname, ho]; rfl
    refine ⟨o, rfl, hname' ▸ hsame, ?_⟩
    have heffective : effectiveBurst (l.conf.locConf zone scripts sha1) =
        if l.conf.burst = -1 then zone.burst else l.conf.burst.toNat := rfl
    rw [heffective, hburst, Override.meantBurst]
    cases hown : o.burst with
    | some b =>
      -- Then it is the innermost burst as well.
      have hinner : innermost ((overrides ngx l.path).map (·.bind Override.burst)) = some b :=
        innermost_bind_of_innermost ho hown
      have hb := hnonneg b hinner
      rw [hinner, Option.getD_some, Option.getD_some, if_neg (by omega), Int.toNat_of_nonneg hb]
      simp
    | none =>
      rw [Option.getD_none]
      cases hinner : innermost ((overrides ngx l.path).map (·.bind Override.burst)) with
      | none => simp
      | some b =>
        -- It was written for another directive.
        have hb := hnonneg b hinner
        rw [Option.getD_some, if_neg (by omega), Int.toNat_of_nonneg hb]
        simp

/-- A server that inherits the zone with its override. -/
theorem burst_override_inherited :
    let zone : ZoneConf Bytes := ⟨text "a", text "$remote_addr", 10, 60, 5, .fixedWindow, []⟩
    let conf : ContextConf Bytes Bytes :=
      { zoneName := text "a", zone := some zone, burst := 20, pass := ⟨some (text "redis"), none⟩
        password := some [], database := some (-1), enableHeaders := some false
        statusCode := some 429, onError := some .deny, pfx := some [], quantity := some 1
        bufferSize := some 4096 }
    ∃ o, innermost (overrides Nginx.plain
        [[.pass (text "redis"), .ratelimit [text "zone=a", text "burst=20"]], []]) = some o ∧
      ((effectiveBurst (conf.locConf zone (fun _ => ⟨[], []⟩) id) : ℤ) = o.meantBurst zone ↔
        o.burst.isSome = true ∨ ∀ b, innermost ((overrides Nginx.plain
          [[.pass (text "redis"), .ratelimit [text "zone=a", text "burst=20"]], []]).map
            (·.bind Override.burst)) = some b → b = zone.burst) := by
  intro zone conf
  have hload : loadConfig Nginx.plain
      [(text "a", [text "key=$remote_addr", text "rate=10r/m", text "burst=5"])]
      (.mk [.pass (text "redis"), .ratelimit [text "zone=a", text "burst=20"]] [.mk [] []]) =
      .ok ([zone], [⟨[[.pass (text "redis"), .ratelimit [text "zone=a", text "burst=20"]], []],
        conf⟩]) := by
    decide +kernel
  obtain ⟨o, hinner, -, hiff⟩ := burst_override_iff hload (List.mem_singleton_self _) rfl
    (fun _ => ⟨[], []⟩) id
  exact ⟨o, hinner, hiff⟩

/-- The override of the zone `a` counts for the zone `b` in a server with a directive of its own. -/
theorem burst_of_other_zone :
    let a : ZoneConf Bytes := ⟨text "a", text "$remote_addr", 10, 60, 5, .fixedWindow, []⟩
    let b : ZoneConf Bytes := ⟨text "b", text "$remote_addr", 100, 60, 3, .gcra, []⟩
    let conf : ContextConf Bytes Bytes :=
      { zoneName := text "b", zone := some b, burst := 20, pass := ⟨some (text "redis"), none⟩
        password := some [], database := some (-1), enableHeaders := some false
        statusCode := some 429, onError := some .deny, pfx := some [], quantity := some 1
        bufferSize := some 4096 }
    let path : List (List Directive) :=
      [[.pass (text "redis"), .ratelimit [text "zone=a", text "burst=20"]],
        [.ratelimit [text "zone=b"]]]
    loadConfig Nginx.plain
        [(text "a", [text "key=$remote_addr", text "rate=10r/m", text "burst=5"]),
          (text "b", [text "key=$remote_addr", text "rate=100r/m", text "burst=3",
            text "algo=gcra"])]
        (.mk [.pass (text "redis"), .ratelimit [text "zone=a", text "burst=20"]]
          [.mk [.ratelimit [text "zone=b"]] []]) = .ok ([a, b], [⟨path, conf⟩]) ∧
      innermost (overrides Nginx.plain path) = some ⟨text "b", none⟩ ∧
      (effectiveBurst (conf.locConf b (fun _ => ⟨[], []⟩) id) : ℤ) ≠
        (⟨text "b", none⟩ : Override).meantBurst b := by
  decide +kernel

end

end NginxRatelimit
