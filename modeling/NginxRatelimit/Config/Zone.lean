import Mathlib.Data.List.TakeWhile
import NginxRatelimit.Request.Conf

/-!
# The zones of a configuration

`ratelimit_zone` takes its arguments one after the other, so that the last of a kind wins, checks
what they add up to, and appends the zone to the registry. `ZoneConf.Ok` is what its checks guarantee
of every zone, and `Registry` what they guarantee of all of them. Arithmetic is that of `ngx_int_t`.
The parts of nginx and of the file system that the load calls are an `Nginx`. Allocations that fail
end the load, and are left out.
-/

namespace NginxRatelimit

open Library

/-! ## What nginx provides -/

/-- `ngx_int_t`, of 64 bits. -/
structure NgxInt where
  /-- The value. -/
  val : ℤ
  /-- Its range. -/
  le_val : -2 ^ 63 ≤ val
  val_lt : val < 2 ^ 63

/-- The `ngx_int_t` with the low 64 bits of a number. -/
def toIntT (n : ℤ) : ℤ := n.bmod (2 ^ 64)

/-- What the system says of a file that was opened. -/
structure File where
  /-- `ngx_is_file`. -/
  regular : Bool
  /-- `ngx_file_size`. -/
  size : ℕ
  /-- What `ngx_read_file` reads of it; `none` when reading fails. -/
  read : Option Bytes

/-- What the load of a configuration calls, with upstreams `U` and complex values `V`. -/
structure Nginx (U V : Type) where
  /-- `ngx_atoi`. -/
  atoi : Bytes → NgxInt
  /-- `ngx_parse_time`, in seconds. -/
  parseTime : Bytes → NgxInt
  /-- `ngx_http_compile_complex_value`. -/
  compile : Bytes → Option V
  /-- `ngx_http_script_variables_count` is not 0. -/
  hasVariables : Bytes → Bool
  /-- `ngx_http_upstream_add`. -/
  upstreamAdd : Bytes → Option U
  /-- `ngx_conf_full_name`, which makes a path absolute. -/
  fullName : Bytes → Bytes
  /-- `ngx_open_file`, and `ngx_fd_info` of the file; `none` when they fail. -/
  openFile : Bytes → Option (Option File)
  /-- `ngx_pagesize`. -/
  pageSize : ℕ

/-- What `ngx_atoi` does: -1 is `NGX_ERROR`. -/
def ngxAtoi (w : Bytes) : NgxInt :=
  let value := decimalValue 0 (w.map fun ch => ch.toNat - 48)
  if h : w ≠ [] ∧ w.all (¬ NotDigit ·) ∧ value ≤ maxIntT then
    ⟨value, by omega, by have hmax := h.2.2; unfold maxIntT at hmax; omega⟩
  else ⟨-1, by decide, by decide⟩

/-- What `ngx_conf_full_name` does: a path that is not absolute is one below `dir`. -/
def ngxConfFullName (dir path : Bytes) : Bytes :=
  if path.head? = some (ascii '/') then path else dir ++ path

/-- An nginx for which every text is a complex value or names an upstream, every time is without a
unit, and there are no files. -/
def Nginx.plain : Nginx Bytes Bytes where
  atoi := ngxAtoi
  parseTime := ngxAtoi
  compile := some
  hasVariables w := ascii '$' ∈ w
  upstreamAdd := some
  fullName := ngxConfFullName (text "/etc/nginx/")
  openFile _ := none
  pageSize := 4096

/-- `ngx_strncmp(a, b, n) == 0`. -/
def strncmpEq (a b : Bytes) (n : ℕ) : Bool :=
  (a.take n).takeWhile (· ≠ 0) = (b.take n).takeWhile (· ≠ 0)

/-- How names of zones are compared. -/
def sameName (a b : Bytes) : Bool := a.length = b.length && strncmpEq a b b.length

/-- Why a configuration is not loaded; what is printed at the "%V" is given. -/
inductive ConfError where
  | duplicateZone (name : Bytes)
  | invalidRate (word : Bytes)
  | invalidRequests (word : Bytes)
  | invalidPeriod (word : Bytes)
  | invalidBurst (word : Bytes)
  | invalidQuantity (word : Bytes)
  | invalidAlgo (word : Bytes)
  | invalidScriptPath (word : Bytes)
  | invalidZoneName (word : Bytes)
  | invalidParameter (word : Bytes)
  | requiresKey (name : Bytes)
  | rateExclusive (name : Bytes)
  | requiresRate (name : Bytes)
  | customRequiresScript (name : Bytes)
  | scriptRequiresCustom (name : Bytes)
  | cannotOpenScript (name : Bytes)
  | scriptInfoFailed (name : Bytes)
  | scriptNotRegular (name : Bytes)
  | scriptEmpty (name : Bytes)
  | scriptTooLong (name : Bytes) (size : ℕ)
  | scriptReadFailed (name : Bytes)
  | scriptReadShort (name : Bytes) (read size : ℕ)
  | unsafeZone (name : Bytes)
  | requiresZone
  | unknownZone (name : Bytes)
  | unsafeBurst (name : Bytes)
  | requiresPass (name : Bytes)
  /-- A directive that must not be repeated. -/
  | duplicate
  /-- A function of nginx fails, and reports why. -/
  | reported
  deriving DecidableEq

/-- The formats of the messages, with the names that the system calls have on Linux. -/
def ConfError.format : ConfError → String
  | duplicateZone _ => "duplicate ratelimit zone \"%V\""
  | invalidRate _ => "invalid rate \"%V\""
  | invalidRequests _ => "invalid requests value \"%V\""
  | invalidPeriod _ => "invalid period time \"%V\""
  | invalidBurst _ => "invalid burst value \"%V\""
  | invalidQuantity _ => "invalid quantity value \"%V\""
  | invalidAlgo _ => "invalid algo \"%V\""
  | invalidScriptPath _ => "invalid script path \"%V\""
  | invalidZoneName _ => "invalid zone name \"%V\""
  | invalidParameter _ => "invalid parameter \"%V\""
  | requiresKey _ => "ratelimit_zone \"%V\" requires \"key=\""
  | rateExclusive _ =>
    "ratelimit_zone \"%V\": \"rate=\" is mutually exclusive with \"requests=\"/\"period=\""
  | requiresRate _ =>
    "ratelimit_zone \"%V\" requires \"rate=\" or both \"requests=\" and \"period=\""
  | customRequiresScript _ => "ratelimit_zone \"%V\": \"algo=custom\" requires \"script=\""
  | scriptRequiresCustom _ => "ratelimit_zone \"%V\": \"script=\" requires \"algo=custom\""
  | cannotOpenScript _ => "ratelimit: cannot open script \"%V\""
  | scriptInfoFailed _ => "ratelimit: fstat() \"%V\" failed"
  | scriptNotRegular _ => "ratelimit: script \"%V\" is not a regular file"
  | scriptEmpty _ => "ratelimit: script \"%V\" is empty"
  | scriptTooLong _ _ => "ratelimit: script \"%V\" is %O bytes, more than the %d byte limit"
  | scriptReadFailed _ => "ratelimit: pread() \"%V\" failed"
  | scriptReadShort _ _ _ => "ratelimit: script \"%V\" read %z of %uz bytes"
  | unsafeZone _ => "ratelimit_zone \"%V\": \"requests\" + \"burst\" must not exceed %i " ++
      "(Lua double-precision integer limit)"
  | requiresZone => "\"ratelimit\" requires \"zone=\""
  | unknownZone _ => "unknown ratelimit zone \"%V\""
  | unsafeBurst _ => "ratelimit zone \"%V\": \"requests\" + \"burst\" must not exceed %i " ++
      "(Lua double-precision integer limit)"
  | requiresPass _ => "ratelimit zone \"%V\" requires \"ratelimit_pass\""
  | duplicate => "is duplicate"
  | reported => ""

section

variable {U V : Type}

/-! ## `ratelimit_zone` -/

/-- `NGX_HTTP_RATELIMIT_LUA_MAX_SAFE_INT`. -/
def luaMaxSafeInt : ℤ := 9007199254740991

/-- `NGX_HTTP_RATELIMIT_MAX_SCRIPT_LEN`. -/
def maxScriptLen : ℕ := 65536

/-- `ngx_http_ratelimit_zone_t`, as it is configured. -/
structure ZoneConf (V : Type) where
  /-- `name`. -/
  name : Bytes
  /-- `key`. -/
  key : V
  /-- `requests`. -/
  requests : ℕ
  /-- `period`, in seconds. -/
  period : ℕ
  /-- `burst`. -/
  burst : ℕ
  /-- `algo`. -/
  algo : Algo
  /-- `script_body`. -/
  scriptBody : Bytes
  deriving DecidableEq

/-- What the arguments of `ratelimit_zone` have set so far. -/
structure ZoneArgs (V : Type) where
  /-- `zone->key`; `has_key` when there is one. -/
  key : Option V
  requests : ℤ
  period : ℤ
  burst : ℤ
  /-- `zone->algo`. -/
  algo : Algo
  /-- `zone->script_path`. -/
  scriptPath : Bytes
  hasRate : Bool
  hasRequests : Bool
  hasPeriod : Bool
  hasScript : Bool

/-- Before the first argument. -/
def ZoneArgs.init : ZoneArgs V := ⟨none, 0, 0, 0, .fixedWindow, [], false, false, false, false⟩

/-- The seconds of the unit of a rate. -/
def rateScale (unit : UInt8) : Option ℤ :=
  if unit = ascii 's' then some 1
  else if unit = ascii 'm' then some 60
  else if unit = ascii 'h' then some 3600
  else none

/-- `ngx_http_ratelimit_parse_rate`: requests and period. -/
def parseRate (ngx : Nginx U V) (word : Bytes) : Option (ℤ × ℤ) :=
  let p := word.drop 5
  let digits := p.takeWhile fun ch => ascii '0' ≤ ch && ch ≤ ascii '9'
  let requests := (ngx.atoi digits).val
  if requests ≤ 0 then none
  else
    match p.drop digits.length with
    | [r, slash, unit] =>
      if r ≠ ascii 'r' || slash ≠ ascii '/' then none
      else (rateScale unit).map fun scale => (requests, scale)
    | _ => none

/-- The names of the algorithms. -/
def parseAlgo (name : Bytes) : Option Algo :=
  if name = text "fixed_window" then some .fixedWindow
  else if name = text "token_bucket" then some .tokenBucket
  else if name = text "gcra" then some .gcra
  else if name = text "sliding_window" then some .slidingWindow
  else if name = text "custom" then some .custom
  else none

/-- One argument of `ratelimit_zone`. -/
def zoneArg (ngx : Nginx U V) (z : ZoneArgs V) (word : Bytes) : Except ConfError (ZoneArgs V) :=
  if strncmpEq word (text "key=") 4 then
    match ngx.compile (word.drop 4) with
    | none => .error .reported
    | some key => .ok { z with key := some key }
  else if strncmpEq word (text "rate=") 5 then
    match parseRate ngx word with
    | none => .error (.invalidRate word)
    | some (requests, period) =>
      .ok { z with requests := requests, period := period, hasRate := true }
  else if strncmpEq word (text "requests=") 9 then
    let requests := (ngx.atoi (word.drop 9)).val
    if requests ≤ 0 then .error (.invalidRequests word)
    else .ok { z with requests := requests, hasRequests := true }
  else if strncmpEq word (text "period=") 7 then
    let period := (ngx.parseTime (word.drop 7)).val
    if period ≤ 0 then .error (.invalidPeriod word)
    else .ok { z with period := period, hasPeriod := true }
  else if strncmpEq word (text "burst=") 6 then
    let burst := (ngx.atoi (word.drop 6)).val
    if burst < 0 then .error (.invalidBurst word) else .ok { z with burst := burst }
  else if strncmpEq word (text "algo=") 5 then
    match parseAlgo (word.drop 5) with
    | none => .error (.invalidAlgo word)
    | some algo => .ok { z with algo := algo }
  else if strncmpEq word (text "script=") 7 then
    if (word.drop 7).length = 0 then .error (.invalidScriptPath word)
    else .ok { z with scriptPath := word.drop 7, hasScript := true }
  else .error (.invalidParameter word)

/-- `ngx_http_ratelimit_script_read_file`; its messages print the full name. -/
def scriptReadFile (ngx : Nginx U V) (path : Bytes) : Except ConfError Bytes :=
  let name := ngx.fullName path
  match ngx.openFile name with
  | none => .error (.cannotOpenScript name)
  | some none => .error (.scriptInfoFailed name)
  | some (some file) =>
    if !file.regular then .error (.scriptNotRegular name)
    else if file.size = 0 then .error (.scriptEmpty name)
    else if maxScriptLen < file.size then .error (.scriptTooLong name file.size)
    else
      match file.read with
      | none => .error (.scriptReadFailed name)
      | some data =>
        if data.length ≠ file.size then .error (.scriptReadShort name data.length file.size)
        else .ok data

/-- The checks of `ratelimit_zone` after the last argument. -/
def finishZone (ngx : Nginx U V) (name : Bytes) (z : ZoneArgs V) :
    Except ConfError (ZoneConf V) :=
  match z.key with
  | none => .error (.requiresKey name)
  | some key =>
    if z.hasRate && (z.hasRequests || z.hasPeriod) then .error (.rateExclusive name)
    else if !z.hasRate && !(z.hasRequests && z.hasPeriod) then .error (.requiresRate name)
    else if z.algo = .custom && !z.hasScript then .error (.customRequiresScript name)
    else if z.algo ≠ .custom && z.hasScript then .error (.scriptRequiresCustom name)
    else
      match if z.hasScript then scriptReadFile ngx z.scriptPath else .ok [] with
      | .error e => .error e
      | .ok body =>
        -- The difference is one of `ngx_int_t`, which may not hold it.
        if toIntT (luaMaxSafeInt - z.burst) < z.requests then .error (.unsafeZone name)
        else .ok {
          name := name
          key := key
          requests := (z.requests % uintT).toNat
          period := (z.period % uintT).toNat
          burst := (z.burst % uintT).toNat
          algo := z.algo
          scriptBody := body }

/-- `ngx_http_ratelimit_zone`, with the registry before it. -/
def ratelimitZone (ngx : Nginx U V) (zones : List (ZoneConf V)) (name : Bytes)
    (args : List Bytes) : Except ConfError (List (ZoneConf V)) :=
  if zones.any fun z => sameName z.name name then .error (.duplicateZone name)
  else do
    let z ← args.foldlM (zoneArg ngx) .init
    let zone ← finishZone ngx name z
    return zones ++ [zone]

/-- All `ratelimit_zone` directives: the registry. -/
def loadZones (ngx : Nginx U V) (directives : List (Bytes × List Bytes)) :
    Except ConfError (List (ZoneConf V)) :=
  directives.foldlM (fun zones d => ratelimitZone ngx zones d.1 d.2) []

/-! ## What is registered -/

/-- A computation that succeeds has succeeded in its first part. -/
theorem bind_eq_ok {ε α β : Type} {x : Except ε α} {f : α → Except ε β} {b : β} :
    x >>= f = .ok b ↔ ∃ a, x = .ok a ∧ f a = .ok b := by
  cases x with
  | error e => exact ⟨nofun, nofun⟩
  | ok a =>
    constructor
    · exact fun h => ⟨a, rfl, h⟩
    · rintro ⟨a', ha, h⟩
      obtain rfl := Except.ok.inj ha
      exact h

/-- What every step of a fold keeps that may fail holds when it has succeeded. -/
theorem foldlM_ok_induction {ε α β : Type} {f : β → α → Except ε β} {P : β → Prop}
    (hstep : ∀ b a b', P b → f b a = .ok b' → P b') {xs : List α} {b b' : β} (hb : P b)
    (h : xs.foldlM f b = .ok b') : P b' := by
  induction xs generalizing b with
  | nil =>
    obtain rfl := Except.ok.inj h
    exact hb
  | cons a xs ih =>
    rw [List.foldlM_cons] at h
    obtain ⟨b₁, hfirst, hrest⟩ := bind_eq_ok.mp h
    exact ih (hstep b a b₁ hb hfirst) hrest

/-- What the arguments guarantee, one by one. -/
structure ZoneArgs.Inv (z : ZoneArgs V) : Prop where
  requests : z.hasRate = true ∨ z.hasRequests = true → 1 ≤ z.requests
  period : z.hasRate = true ∨ z.hasPeriod = true → 1 ≤ z.period
  requests_lt : z.requests < 2 ^ 63
  period_lt : z.period < 2 ^ 63
  burst_nonneg : 0 ≤ z.burst
  burst_lt : z.burst < 2 ^ 63

/-- The units of a rate are positive, and fit into `ngx_int_t`. -/
theorem rateScale_pos {unit : UInt8} {scale : ℤ} (h : rateScale unit = some scale) :
    1 ≤ scale ∧ scale < 2 ^ 63 := by
  unfold rateScale at h
  split_ifs at h <;> obtain rfl := Option.some.inj h <;> decide

/-- A rate that is accepted has positive requests and a positive period, and both fit. -/
theorem parseRate_pos {ngx : Nginx U V} {word : Bytes} {requests period : ℤ}
    (h : parseRate ngx word = some (requests, period)) :
    (1 ≤ requests ∧ requests < 2 ^ 63) ∧ 1 ≤ period ∧ period < 2 ^ 63 := by
  unfold parseRate at h
  dsimp only at h
  split at h
  · cases h
  · rename_i hpos
    split at h
    · split at h
      · cases h
      · obtain ⟨scale, hscale, heq⟩ := Option.map_eq_some_iff.mp h
        obtain ⟨rfl, rfl⟩ := Prod.mk.inj heq
        exact ⟨⟨by omega, NgxInt.val_lt _⟩, rateScale_pos hscale⟩
    · cases h

/-- Every argument keeps the invariant. -/
theorem ZoneArgs.Inv.zoneArg {ngx : Nginx U V} {z z' : ZoneArgs V} {word : Bytes} (h : z.Inv)
    (hstep : zoneArg ngx z word = .ok z') : z'.Inv := by
  unfold NginxRatelimit.zoneArg at hstep
  dsimp only at hstep
  split at hstep
  · -- key=
    split at hstep
    · cases hstep
    · obtain rfl := Except.ok.inj hstep
      exact ⟨h.requests, h.period, h.requests_lt, h.period_lt, h.burst_nonneg, h.burst_lt⟩
  split at hstep
  · -- rate=
    split at hstep
    · cases hstep
    · rename_i hrate
      obtain rfl := Except.ok.inj hstep
      obtain ⟨⟨hrequests, hrequests_lt⟩, hperiod, hperiod_lt⟩ := parseRate_pos hrate
      exact ⟨fun _ => hrequests, fun _ => hperiod, hrequests_lt, hperiod_lt, h.burst_nonneg,
        h.burst_lt⟩
  split at hstep
  · -- requests=
    split at hstep
    · cases hstep
    · obtain rfl := Except.ok.inj hstep
      exact ⟨fun _ => by dsimp only; omega, h.period, NgxInt.val_lt _, h.period_lt, h.burst_nonneg,
        h.burst_lt⟩
  split at hstep
  · -- period=
    split at hstep
    · cases hstep
    · obtain rfl := Except.ok.inj hstep
      exact ⟨h.requests, fun _ => by dsimp only; omega, h.requests_lt, NgxInt.val_lt _,
        h.burst_nonneg, h.burst_lt⟩
  split at hstep
  · -- burst=
    split at hstep
    · cases hstep
    · rename_i hburst
      obtain rfl := Except.ok.inj hstep
      exact ⟨h.requests, h.period, h.requests_lt, h.period_lt, not_lt.mp hburst, NgxInt.val_lt _⟩
  split at hstep
  · -- algo=
    split at hstep
    · cases hstep
    · obtain rfl := Except.ok.inj hstep
      exact ⟨h.requests, h.period, h.requests_lt, h.period_lt, h.burst_nonneg, h.burst_lt⟩
  split at hstep
  · -- script=
    split at hstep
    · cases hstep
    · obtain rfl := Except.ok.inj hstep
      exact ⟨h.requests, h.period, h.requests_lt, h.period_lt, h.burst_nonneg, h.burst_lt⟩
  · cases hstep

/-- It holds before the first argument. -/
theorem ZoneArgs.inv_init : (ZoneArgs.init : ZoneArgs V).Inv where
  requests h := by rcases h with h | h <;> cases h
  period h := by rcases h with h | h <;> cases h
  requests_lt := (by decide : (0 : ℤ) < 2 ^ 63)
  period_lt := (by decide : (0 : ℤ) < 2 ^ 63)
  burst_nonneg := Int.le_refl 0
  burst_lt := (by decide : (0 : ℤ) < 2 ^ 63)

/-- A script that was read is not empty. -/
theorem ne_nil_of_scriptReadFile {ngx : Nginx U V} {path body : Bytes}
    (h : scriptReadFile ngx path = .ok body) : body ≠ [] := by
  unfold scriptReadFile at h
  dsimp only at h
  split at h
  · cases h
  · cases h
  · split at h
    · cases h
    split at h
    · cases h
    rename_i hsize
    split at h
    · cases h
    split at h
    · cases h
    · split at h
      · cases h
      · rename_i hlen
        obtain rfl := Except.ok.inj h
        rintro rfl
        exact hsize (not_not.mp hlen).symm

/-- The subtraction of the check does not overflow. -/
theorem toIntT_sub {burst : ℤ} (hnonneg : 0 ≤ burst) (hlt : burst < 2 ^ 63) :
    toIntT (luaMaxSafeInt - burst) = luaMaxSafeInt - burst := by
  unfold toIntT luaMaxSafeInt
  apply Int.bmod_eq_of_le <;> omega

/-- What `ratelimit_zone` guarantees of a zone. -/
structure ZoneConf.Ok (z : ZoneConf V) : Prop where
  requests_pos : 1 ≤ z.requests
  period_pos : 1 ≤ z.period
  safe : (z.requests + z.burst : ℤ) ≤ luaMaxSafeInt
  script_iff : z.scriptBody ≠ [] ↔ z.algo = .custom

/-- A value of `ngx_int_t` that is not negative is the same in `ngx_uint_t`. -/
theorem toNat_emod_uintT {n : ℤ} (h0 : 0 ≤ n) (h1 : n < 2 ^ 63) :
    ((n % uintT).toNat : ℤ) = n := by
  have hmod : n % uintT = n := Int.emod_eq_of_lt h0 (h1.trans (by decide))
  rw [hmod, Int.toNat_of_nonneg h0]

/-- The body of a zone's script is empty where there is no script, and only there. -/
theorem scriptBody_ne_nil_iff {ngx : Nginx U V} {hasScript : Bool} {path body : Bytes}
    (h : (if hasScript then scriptReadFile ngx path else .ok []) = .ok body) :
    body ≠ [] ↔ hasScript = true := by
  cases hasScript with
  | true => exact iff_of_true (ne_nil_of_scriptReadFile h) rfl
  | false =>
    obtain rfl := Except.ok.inj h
    exact iff_of_false (absurd rfl) Bool.false_ne_true

/-- What the checks at the end of a directive leave. -/
theorem finishZone_eq_ok {ngx : Nginx U V} {name : Bytes} {z : ZoneArgs V} {zone : ZoneConf V}
    (h : finishZone ngx name z = .ok zone) :
    (z.hasRate = true ∨ z.hasRequests = true ∧ z.hasPeriod = true) ∧
      (z.hasScript = true ↔ z.algo = .custom) ∧
      z.requests ≤ toIntT (luaMaxSafeInt - z.burst) ∧
      ∃ key body, (if z.hasScript then scriptReadFile ngx z.scriptPath else .ok []) = .ok body ∧
        zone = {
          name := name
          key := key
          requests := (z.requests % uintT).toNat
          period := (z.period % uintT).toNat
          burst := (z.burst % uintT).toNat
          algo := z.algo
          scriptBody := body } := by
  unfold finishZone at h
  split at h
  · cases h
  split at h
  · cases h
  split at h
  · cases h
  split at h
  · cases h
  split at h
  · cases h
  split at h
  · cases h
  split at h
  · cases h
  rename_i key _ _ hrate hcustom hscript _ body hbody hsafe
  refine ⟨?_, ⟨?_, ?_⟩, not_lt.mp hsafe, key, body, hbody, (Except.ok.inj h).symm⟩
  · cases hr : z.hasRate with
    | true => exact .inl rfl
    | false =>
      rw [hr, Bool.not_false, Bool.true_and, Bool.not_eq_true', Bool.not_eq_false,
        Bool.and_eq_true] at hrate
      exact .inr hrate
  · intro hhas
    rw [hhas] at hscript
    simpa using hscript
  · intro halgo
    rw [halgo] at hcustom
    simpa using hcustom

/-- The checks at the end give what `ratelimit_zone` guarantees, under the name that was given. -/
theorem finishZone_ok {ngx : Nginx U V} {name : Bytes} {z : ZoneArgs V} {zone : ZoneConf V}
    (hz : z.Inv) (h : finishZone ngx name z = .ok zone) : zone.Ok ∧ zone.name = name := by
  obtain ⟨hset, hscript, hsafe, key, body, hbody, rfl⟩ := finishZone_eq_ok h
  -- One of the two ways to set the rate was taken.
  have hrequests : 1 ≤ z.requests := hz.requests (hset.imp_right And.left)
  have hperiod : 1 ≤ z.period := hz.period (hset.imp_right And.right)
  rw [toIntT_sub hz.burst_nonneg hz.burst_lt] at hsafe
  have hr := toNat_emod_uintT (Int.le_of_lt hrequests) hz.requests_lt
  have hp := toNat_emod_uintT (Int.le_of_lt hperiod) hz.period_lt
  have hb := toNat_emod_uintT hz.burst_nonneg hz.burst_lt
  refine ⟨⟨?_, ?_, ?_, (scriptBody_ne_nil_iff hbody).trans hscript⟩, rfl⟩
  · dsimp only
    omega
  · dsimp only
    omega
  · dsimp only
    omega

/-! ## Names -/

/-- Names are the same when their lengths are, and what is in front of a NUL. -/
theorem sameName_iff {a b : Bytes} : sameName a b = true ↔
    a.length = b.length ∧ a.takeWhile (· ≠ 0) = b.takeWhile (· ≠ 0) := by
  rw [sameName, Bool.and_eq_true, decide_eq_true_eq]
  refine and_congr_right fun hlen => ?_
  rw [strncmpEq, decide_eq_true_eq, List.take_of_length_le hlen.le, List.take_length]

/-- Sameness of names is symmetric. -/
theorem sameName_comm (a b : Bytes) : sameName a b = sameName b a := by
  rw [Bool.eq_iff_iff, sameName_iff, sameName_iff]
  exact and_congr eq_comm eq_comm

/-- And transitive. -/
theorem sameName_trans {a b c : Bytes} (hab : sameName a b = true) (hbc : sameName b c = true) :
    sameName a c = true := by
  obtain ⟨hlen, htake⟩ := sameName_iff.mp hab
  obtain ⟨hlen', htake'⟩ := sameName_iff.mp hbc
  exact sameName_iff.mpr ⟨hlen.trans hlen', htake.trans htake'⟩

/-- Without a NUL byte it is equality. -/
theorem eq_of_sameName {a b : Bytes} (h : sameName a b = true) (hb : 0 ∉ b) : a = b := by
  obtain ⟨hlen, htake⟩ := sameName_iff.mp h
  have hall : b.takeWhile (· ≠ 0) = b := by
    rw [List.takeWhile_eq_self_iff]
    intro ch hch
    exact decide_eq_true fun h0 => hb (h0 ▸ hch)
  rw [hall] at htake
  have hself : a.takeWhile (· ≠ 0) = a := by
    refine (List.takeWhile_prefix _).eq_of_length ?_
    rw [htake, hlen]
  rw [← hself, htake]

/-- What `ratelimit_zone` guarantees of the registry. -/
structure Registry (zones : List (ZoneConf V)) : Prop where
  ok : ∀ z ∈ zones, z.Ok
  names : zones.Pairwise fun a b => sameName a.name b.name = false

/-- A zone that is registered differs from those before it, and has passed its checks. -/
theorem ratelimitZone_registry {ngx : Nginx U V} {zones zones' : List (ZoneConf V)} {name : Bytes}
    {args : List Bytes} (hzones : Registry zones)
    (h : ratelimitZone ngx zones name args = .ok zones') : Registry zones' := by
  unfold ratelimitZone at h
  split at h
  · cases h
  · rename_i hnew
    obtain ⟨z, hargs, h⟩ := bind_eq_ok.mp h
    obtain ⟨zone, hfinish, h⟩ := bind_eq_ok.mp h
    obtain rfl := Except.ok.inj h
    have hz : z.Inv := foldlM_ok_induction (fun _ _ _ hz hstep => hz.zoneArg hstep)
      ZoneArgs.inv_init hargs
    obtain ⟨hok, rfl⟩ := finishZone_ok hz hfinish
    refine ⟨fun z' hz' => ?_, ?_⟩
    · rcases List.mem_append.mp hz' with hz' | hz'
      · exact hzones.ok z' hz'
      · obtain rfl := List.mem_singleton.mp hz'
        exact hok
    · rw [List.pairwise_append]
      refine ⟨hzones.names, List.pairwise_singleton _ _, fun a ha b hb => ?_⟩
      obtain rfl := List.mem_singleton.mp hb
      rw [Bool.eq_false_iff]
      exact fun hsame => hnew (List.any_eq_true.mpr ⟨a, ha, hsame⟩)

/-- Every list of directives that is accepted makes up a registry. -/
theorem loadZones_registry {ngx : Nginx U V} {directives : List (Bytes × List Bytes)}
    {zones : List (ZoneConf V)} (h : loadZones ngx directives = .ok zones) : Registry zones :=
  foldlM_ok_induction (fun _ _ _ hzones hstep => ratelimitZone_registry hzones hstep)
    ⟨fun _ hz => absurd hz List.not_mem_nil, .nil⟩ h

/-- A name has one zone at most. -/
theorem Registry.filter_eq {zones : List (ZoneConf V)} (h : Registry zones) {zone : ZoneConf V}
    (hmem : zone ∈ zones) {name : Bytes} (hname : sameName zone.name name = true) :
    zones.filter (fun z => sameName z.name name) = [zone] := by
  have hnames := h.names
  clear h
  induction zones with
  | nil => cases hmem
  | cons z zones ih =>
    obtain ⟨hfirst, hrest⟩ := List.pairwise_cons.mp hnames
    rcases List.mem_cons.mp hmem with rfl | hmem
    · -- No later zone has the name.
      have hnone : zones.filter (fun z => sameName z.name name) = [] := by
        rw [List.filter_eq_nil_iff]
        intro z' hz' hname'
        rw [sameName_comm] at hname'
        exact absurd ((hfirst z' hz').symm.trans (sameName_trans hname hname')) (by decide)
      rw [List.filter_cons, if_pos hname, hnone]
    · have hnot : ¬ sameName z.name name = true := by
        intro hz
        rw [sameName_comm] at hname
        have hsame := sameName_trans hz hname
        exact absurd ((hfirst zone hmem).symm.trans hsame) (by decide)
      rw [List.filter_cons, if_neg hnot]
      exact ih hmem hrest

end

end NginxRatelimit
