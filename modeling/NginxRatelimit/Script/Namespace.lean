import NginxRatelimit.Library.Unwinding
import NginxRatelimit.Request.Handler
import NginxRatelimit.Script.FixedWindow

/-!
# Namespaces of one database

Locations with zones of the fixed window share a database. A location names its keys by its
namespace, `<prefix>_` or nothing, before the key value, which the client chooses. Two locations
share a key when one namespace is a prefix of the other, which different prefixes do not exclude: an
empty one is a prefix of all, and `a_` is one of `a_b_`. `undisturbed_iff` says that only then, and
when the other location consumes, it can change the answers to the requests of a location.
-/

namespace NginxRatelimit

open Library

/-- A location with a zone of the fixed window, as the configuration load leaves it. -/
structure WindowLocation where
  /-- Its configuration. -/
  conf : LocConf
  /-- The zone counts in fixed windows. -/
  algo_eq : conf.zone.algo = .fixedWindow
  /-- `ratelimit_zone` rejects other rates. -/
  requests_pos : 1 ≤ conf.zone.requests
  /-- `ratelimit_zone` rejects other periods. -/
  period_pos : 1 ≤ conf.zone.period
  /-- `NGX_HTTP_RATELIMIT_LUA_MAX_SAFE_INT`, for the zone's burst and the location's own. -/
  limit_lt : conf.zone.requests + effectiveBurst conf < 2 ^ 53

namespace WindowLocation

variable (l m : WindowLocation)

/-- The zone's rate. -/
def rate : Rate := ⟨l.conf.zone.requests, l.conf.zone.period, l.requests_pos, l.period_pos⟩

/-- The limit that the script gets. -/
def limit : ℕ := l.conf.zone.requests + effectiveBurst l.conf

/-- The limit of a location admits something. -/
theorem limit_pos : 1 ≤ l.limit := l.requests_pos.trans (Nat.le_add_right _ _)

/-- The call of the script that a request makes. -/
def call (now : ℕ) : WindowCall := ⟨now, l.limit, l.conf.quantity⟩

/-- These are the numbers that the location's commands carry. -/
theorem scriptArgs_eq : scriptArgs l.conf = [l.limit, l.rate.period, l.conf.quantity] := by
  have hsafe : l.conf.zone.requests + effectiveBurst l.conf < uintT := l.limit_lt.trans (by decide)
  unfold scriptArgs limit rate
  rw [l.algo_eq, Nat.mod_eq_of_lt hsafe]

/-- What stands before the key value in the location's keys. -/
def keySpace : Bytes := if 0 < l.conf.pfx.length then l.conf.pfx ++ [ascii '_'] else []

/-- A key is the key space of its location, and the value. -/
theorem prefixedKey_eq (key : Bytes) : prefixedKey l.conf key = l.keySpace ++ key := by
  unfold prefixedKey keySpace
  split
  · rw [List.append_assoc, List.singleton_append]
  · rfl

/-- Two locations share a key: one namespace is a prefix of the other, and both leave room for a
value. -/
def SharesKey : Prop :=
  (l.keySpace <+: m.keySpace ∨ m.keySpace <+: l.keySpace) ∧ l.keySpace.length < maxKeyLen ∧
    m.keySpace.length < maxKeyLen

/-- Whether two locations share a key can be decided. -/
instance : Decidable (l.SharesKey m) := inferInstanceAs (Decidable (_ ∧ _ ∧ _))

/-- If it is so, clients of the two can choose values that make the same key. -/
theorem sharesKey_iff : l.SharesKey m ↔
    ∃ key key', key ≠ [] ∧ key' ≠ [] ∧ prefixedKey l.conf key = prefixedKey m.conf key' ∧
      (prefixedKey l.conf key).length ≤ maxKeyLen := by
  simp only [prefixedKey_eq]
  constructor
  · rintro ⟨⟨u, hu⟩ | ⟨u, hu⟩, hl, hm⟩
    · refine ⟨u ++ [0], [0], by simp, by simp, by rw [← hu, List.append_assoc], ?_⟩
      rw [← List.append_assoc, hu, List.length_append, List.length_singleton]
      omega
    · refine ⟨[0], u ++ [0], by simp, by simp, by rw [← hu, List.append_assoc], ?_⟩
      rw [List.length_append, List.length_singleton]
      omega
  · rintro ⟨key, key', hkey, hkey', heq, hle⟩
    have hpos := List.length_pos_iff.mpr hkey
    have hpos' := List.length_pos_iff.mpr hkey'
    have hle' : (m.keySpace ++ key').length ≤ maxKeyLen := heq ▸ hle
    rw [List.length_append] at hle hle'
    refine ⟨?_, by omega, by omega⟩
    exact List.prefix_or_prefix_of_prefix (heq ▸ List.prefix_append l.keySpace key)
      (List.prefix_append m.keySpace key')

/-- Its requests count, unless they peek or are over the limit by themselves. -/
def Consumes : Prop := 1 ≤ l.conf.quantity ∧ l.conf.quantity ≤ l.limit

/-- Whether a location consumes can be decided. -/
instance : Decidable l.Consumes := inferInstanceAs (Decidable (_ ∧ _))

/-- A location that does not consume writes nothing. -/
theorem step_key_of_not_consumes (h : ¬ l.Consumes) (key : Key ℕ) (now : ℕ) :
    ((fixedWindowMachine l.rate.period).step key (l.call now)).1 = key := by
  rcases Nat.eq_zero_or_pos l.conf.quantity with hq | hq
  · rw [FixedWindow.step_peek l.rate (c := l.call now) key hq]
  · have hover : l.limit < l.conf.quantity := by
      by_contra hle
      exact h ⟨hq, not_lt.mp hle⟩
    rw [FixedWindow.step_rejected l.rate (c := l.call now) key hq
      (hover.trans_le (Nat.le_add_left _ _))]

end WindowLocation

/-! ## Requests to locations of one database -/

/-- A request to one of several locations. -/
structure Visit (L : Type) where
  /-- The location. -/
  loc : L
  /-- The server time of the script. -/
  time : ℕ
  /-- The key value. -/
  key : Bytes
  /-- It is not empty. -/
  key_ne : key ≠ []

/-- What a request is answered. -/
structure VisitAnswer where
  /-- The script's reply, if it was called. -/
  reply : Option Reply
  /-- What the handler returns in the end. -/
  verdict : Rc
  deriving DecidableEq

/-- The keys of a database. -/
abbrev Database := Bytes → Key ℕ

variable {L : Type} (loc : L → WindowLocation)

/-- A request, whose reply sets the status of the round trip to 200 or 429. -/
def visitStep (db : Database) (v : Visit L) : Database × VisitAnswer :=
  let l := loc v.loc
  let name := prefixedKey l.conf v.key
  if maxKeyLen < name.length then (db, ⟨none, .http 500⟩)
  else
    let (key, reply) := (fixedWindowMachine l.rate.period).step (db name) (l.call v.time)
    (Function.update db name key,
      ⟨some reply, verdict l.conf (if reply.status = 0 then 200 else 429)⟩)

/-- The requests to a database. -/
def databaseMachine : Machine Database (Visit L) VisitAnswer := ⟨visitStep loc⟩

/-- The key of a request. -/
abbrev visitKey (v : Visit L) : Bytes := prefixedKey (loc v.loc).conf v.key

/-- The script's step for a request. -/
abbrev visitCall (db : Database) (v : Visit L) : Key ℕ × Reply :=
  (fixedWindowMachine (loc v.loc).rate.period).step (db (visitKey loc v)) ((loc v.loc).call v.time)

/-- A request whose key is too long fails by itself. -/
theorem step_long {v : Visit L} (h : maxKeyLen < (visitKey loc v).length) (db : Database) :
    (databaseMachine loc).step db v = (db, ⟨none, .http 500⟩) := if_pos h

/-- Another writes its key. -/
theorem step_called {v : Visit L} (h : (visitKey loc v).length ≤ maxKeyLen) (db : Database) :
    (databaseMachine loc).step db v =
      (Function.update db (visitKey loc v) (visitCall loc db v).1,
        ⟨some (visitCall loc db v).2,
          verdict (loc v.loc).conf (if (visitCall loc db v).2.status = 0 then 200 else 429)⟩) :=
  if_neg (not_lt.mpr h)

/-- This is what the first pass of the handler does with the key value. -/
theorem handler_visit (l : WindowLocation) (htarget : l.conf.complexTarget = false)
    (hupstream : l.conf.upstream = true) {key : Bytes} (hkey : key ≠ []) :
    handler (some l.conf) (.good key) ⟨false, none⟩ =
      if maxKeyLen < (prefixedKey l.conf key).length then (.http 500, ⟨false, none⟩)
      else (.again, ⟨true, some (.start l.conf (prefixedKey l.conf key))⟩) := by
  cases key with
  | nil => exact absurd rfl hkey
  | cons k ks => simp [handler, Env.good, startRoundTrip, htarget, hupstream]

/-- The databases that have the same keys of a location. -/
def SameKeys (l : WindowLocation) (db db' : Database) : Prop :=
  ∀ key, key ≠ [] → (prefixedKey l.conf key).length ≤ maxKeyLen →
    db (prefixedKey l.conf key) = db' (prefixedKey l.conf key)

/-- A request that does not write a key of a location leaves its keys the same. -/
theorem sameKeys_step {i : L} {v : Visit L}
    (h : (loc i).SharesKey (loc v.loc) → ¬ (loc v.loc).Consumes) (db : Database) :
    SameKeys (loc i) ((databaseMachine loc).step db v).1 db := by
  intro key hkey hle
  rcases lt_or_ge maxKeyLen (visitKey loc v).length with hlong | hshort
  · rw [step_long loc hlong]
  · rw [step_called loc hshort]
    dsimp only
    by_cases hname : prefixedKey (loc i).conf key = visitKey loc v
    · -- The key is written, by a location that leaves it as it is.
      have hshares := ((loc i).sharesKey_iff (loc v.loc)).mpr ⟨key, v.key, hkey, v.key_ne, hname, hle⟩
      rw [hname, Function.update_self]
      exact (loc v.loc).step_key_of_not_consumes (h hshares) _ _
    · exact Function.update_of_ne hname _ _

/-- The requests of a location depend on its keys alone. -/
theorem unwinding_sameKeys {i : L}
    (h : ∀ j, j ≠ i → (loc i).SharesKey (loc j) → ¬ (loc j).Consumes) :
    (databaseMachine loc).Unwinding (·.loc = i) (SameKeys (loc i)) where
  output := by
    rintro db db' v rfl hdb
    rcases lt_or_ge maxKeyLen (visitKey loc v).length with hlong | hshort
    · rw [step_long loc hlong, step_long loc hlong]
    · rw [step_called loc hshort, step_called loc hshort, visitCall, hdb v.key v.key_ne hshort]
  next := by
    rintro db db' v rfl hdb key hkey hle
    rcases lt_or_ge maxKeyLen (visitKey loc v).length with hlong | hshort
    · rw [step_long loc hlong, step_long loc hlong]
      exact hdb key hkey hle
    · rw [step_called loc hshort, step_called loc hshort, visitCall, hdb v.key v.key_ne hshort]
      dsimp only
      -- The request called the script on this key or on another.
      by_cases hname : prefixedKey (loc v.loc).conf key = visitKey loc v
      · rw [hname, Function.update_self, Function.update_self]
      · rw [Function.update_of_ne hname, Function.update_of_ne hname]
        exact hdb key hkey hle
  skip := by
    intro db db' v hv hdb key hkey hle
    exact (sameKeys_step loc (h v.loc hv) db key hkey hle).trans (hdb key hkey hle)

/-- A counter that has been raised shows in the next reply, while its window is open. -/
theorem FixedWindow.reply_ne (R : Rate) {c : WindowCall} (hlimit : 1 ≤ c.limit) {n expiry : ℕ}
    (hn : 1 ≤ n) (hopen : c.time < expiry) :
    ((fixedWindowMachine R.period).step none c).2 ≠
      ((fixedWindowMachine R.period).step (some ⟨n, some expiry⟩) c).2 := by
  have hzero : (Key.get (none : Key ℕ) c.time).getD 0 = 0 := rfl
  have hraised : (Key.get (some ⟨n, some expiry⟩) c.time).getD 0 = n := by
    rw [Key.get_some_some, if_pos hopen, Option.getD_some]
  intro heq
  -- A peek and a rejection show the counter, and so do two admissions.
  have hremaining := congrArg Reply.remaining heq
  have hstatus := congrArg Reply.status heq
  rcases Nat.eq_zero_or_pos c.quantity with hq | hq
  · rw [step_peek R _ hq, step_peek R _ hq, hzero, hraised] at hremaining
    simp only [atLeast_eq_max] at hremaining
    omega
  · rcases Nat.lt_or_ge c.limit c.quantity with hover | hroom
    · -- Both are rejected, with what the counter leaves.
      rw [step_rejected R _ hq (by rw [hzero]; omega), step_rejected R _ hq (by rw [hraised]; omega),
        hzero, hraised] at hremaining
      simp only [atLeast_eq_max] at hremaining
      omega
    · have hfirst : ((fixedWindowMachine R.period).step none c).2.remaining = c.limit - c.quantity ∧
          ((fixedWindowMachine R.period).step none c).2.status = 0 := by
        rw [step_admitted R _ hq (by rw [hzero]; omega)]
        simp only [Key.incrBy, Key.live_none, atLeast_eq_max, and_true]
        omega
      rcases Nat.lt_or_ge c.limit (n + c.quantity) with hfull | hboth
      · rw [hfirst.2, step_rejected R _ hq (by rw [hraised]; omega)] at hstatus
        exact zero_ne_one hstatus
      · rw [hfirst.1, step_admitted R _ hq (by rw [hraised]; omega)] at hremaining
        rw [Key.incrBy_some_some, if_pos hopen] at hremaining
        simp only [atLeast_eq_max] at hremaining
        omega

section

variable [DecidableEq L]

/-- A run answers the requests of a location as if no others had been made. -/
def Undisturbed (i : L) (db : Database) (visits : List (Visit L)) : Prop :=
  (databaseMachine loc).outputsAt (·.loc = i) db visits =
    (databaseMachine loc).outputs db (visits.filter (·.loc = i))

/-- A location that shares a key and consumes disturbs: after one of its requests, the first one of
the other finds its counter raised. -/
theorem exists_disturbed {i j : L} (hij : j ≠ i) (hshares : (loc i).SharesKey (loc j))
    (hconsumes : (loc j).Consumes) : ∃ visits, ¬ Undisturbed loc i (fun _ => none) visits := by
  obtain ⟨key, key', hkey, hkey', hname, hle⟩ := ((loc i).sharesKey_iff (loc j)).mp hshares
  set own : Visit L := ⟨i, 0, key, hkey⟩
  set other : Visit L := ⟨j, 0, key', hkey'⟩
  have hown : (visitKey loc own).length ≤ maxKeyLen := hle
  have hother : (visitKey loc other).length ≤ maxKeyLen := by
    rw [← congrArg List.length hname]
    exact hle
  refine ⟨[other, own], fun hundisturbed => ?_⟩
  -- The only answer is the one to `own`, with and without `other` before it.
  unfold Undisturbed at hundisturbed
  rw [Machine.outputsAt_cons_of_not_visible (x := other) _ (·.loc = i) hij,
    Machine.outputsAt_cons_of_visible (x := own) _ (·.loc = i) rfl, Machine.outputsAt_nil,
    List.filter_cons_of_neg (by simpa [other] using hij), List.filter_cons_of_pos (by simp [own]),
    List.filter_nil, Machine.outputs_cons, Machine.outputs_nil, List.cons.injEq,
    step_called loc hown, step_called loc hown, step_called loc hother] at hundisturbed
  have hreply := Option.some.inj (congrArg VisitAnswer.reply hundisturbed.1)
  have hwritten := FixedWindow.step_key_of_admitted (loc j).rate (w := none)
    (fun _ hv => by cases hv) (c := (loc j).call 0) hconsumes.1
    ((zero_add _).trans_le hconsumes.2)
  have hraised : Function.update (fun _ => none) (visitKey loc other)
      (visitCall loc (fun _ => none) other).1 (visitKey loc own) =
        some ⟨(loc j).conf.quantity, some (FixedWindow.windowEnd (loc j).rate
          ⟨0, (loc j).conf.quantity⟩)⟩ := by
    rw [show visitKey loc own = visitKey loc other from hname, Function.update_self]
    exact hwritten
  have hopen : ((loc i).call 0).time <
      FixedWindow.windowEnd (loc j).rate ⟨0, (loc j).conf.quantity⟩ := by
    have hperiod := (loc j).rate.period_pos
    simp only [WindowLocation.call, FixedWindow.windowEnd, second]
    omega
  refine FixedWindow.reply_ne (loc i).rate (c := (loc i).call 0) (loc i).limit_pos hconsumes.1 hopen ?_
  rw [← hraised]
  exact hreply.symm

/-- Namespaces keep locations of one database apart, in every run from any keys, just where no other
location shares a key and consumes. -/
theorem undisturbed_iff :
    (∀ i db visits, Undisturbed loc i db visits) ↔
      ∀ i j, j ≠ i → (loc i).SharesKey (loc j) → ¬ (loc j).Consumes := by
  constructor
  · intro h i j hij hshares hconsumes
    obtain ⟨visits, hdisturbed⟩ := exists_disturbed loc hij hshares hconsumes
    exact hdisturbed (h i _ visits)
  · intro h i db visits
    exact (unwinding_sameKeys loc (h i)).outputsAt_eq visits fun _ _ _ => rfl

end

/-- At one request a minute, a client of the location without a prefix takes the only request of a
client of the location with the prefix `a`. -/
theorem undisturbed_without_prefix :
    let zone : Zone := ⟨.fixedWindow, 1, 60, 0, ⟨[], []⟩⟩
    let conf (pfx : Bytes) : LocConf := { LocConf.ofZone zone fun _ => ⟨[], []⟩ with pfx := pfx }
    let loc : Bool → WindowLocation := fun prefixed =>
      ⟨conf (if prefixed then text "a" else []), by cases prefixed <;> rfl,
        by cases prefixed <;> decide, by cases prefixed <;> decide, by cases prefixed <;> decide⟩
    (loc true).conf.pfx ≠ (loc false).conf.pfx ∧
      ¬ Undisturbed loc true (fun _ => none)
        [⟨false, 1000000, text "a_x", by decide⟩, ⟨true, 2000000, text "x", by decide⟩] := by
  intro zone conf loc
  refine ⟨by decide, ?_⟩
  unfold Undisturbed
  decide +kernel

end NginxRatelimit
