import Mathlib.Data.Option.Basic
import Mathlib.Tactic.FieldSimp
import NginxRatelimit.Library.Grid

/-!
# What the scripts use of Redis and of its Lua

A key holds a value and may carry an expiry. The server clock counts microseconds, the resolution of
`TIME`. A key that was given `EXPIRE n` at `t` is there before `t + n` seconds and gone from then
on, which `Key.live` says; every command reads the key through it. Lua numbers are exact rationals,
and `fmt6` is `string.format('%.6f', x)` read back by `tonumber`.
-/

namespace NginxRatelimit

open Library

/-- Microseconds in a second. -/
def second : ℕ := 1000000

/-- The value of a key with the time at which it expires, if it does. -/
structure Entry (α : Type*) where
  /-- The value. -/
  val : α
  /-- The time from which the key is gone; `none` when it has no expiry. -/
  expireAt : Option ℕ
  deriving DecidableEq

/-- A key: `none` when it is absent. -/
abbrev Key (α : Type*) := Option (Entry α)

namespace Key

variable {α : Type*} (key : Key α) (now : ℕ)

/-- The key as a command at time `now` sees it. -/
def live : Key α := key.filter fun e => e.expireAt.all fun t => decide (now < t)

/-- `GET`, and `HMGET` of all fields. -/
def get : Option α := (key.live now).map Entry.val

/-- `SET`, which drops an expiry. -/
def set (v : α) : Key α := some ⟨v, none⟩

/-- `HSET` of all fields, which keeps an expiry. -/
def hset (v : α) : Key α := some ⟨v, (key.live now).bind Entry.expireAt⟩

/-- `EXPIRE n`; a count that is not positive deletes the key. -/
def expire (n : ℤ) : Key α :=
  (key.live now).bind fun e => if n ≤ 0 then none else some ⟨e.val, some (now + second * n.toNat)⟩

/-- `TTL`: the remaining time rounded to the nearest second, -1 without an expiry, and -2 when the
key is absent. -/
def ttl : ℤ :=
  match key.live now with
  | none => -2
  | some ⟨_, none⟩ => -1
  | some ⟨_, some t⟩ => ((t - now + second / 2) / second : ℕ)

/-- `INCRBY`, which keeps an expiry: the key and the new value. -/
def incrBy (key : Key ℕ) (now : ℕ) (n : ℕ) : Key ℕ × ℕ :=
  match key.live now with
  | none => (some ⟨n, none⟩, n)
  | some e => (some ⟨e.val + n, e.expireAt⟩, e.val + n)

/-- No key, and so no live one. -/
@[simp] theorem live_none : Key.live (none : Key α) now = none := rfl

/-- A key without an expiry is live for ever. -/
@[simp] theorem live_some_none (v : α) : Key.live (some ⟨v, none⟩) now = some ⟨v, none⟩ := rfl

/-- A key with an expiry is there exactly before it. -/
@[simp] theorem live_some_some (v : α) (t : ℕ) :
    Key.live (some ⟨v, some t⟩) now = if now < t then some ⟨v, some t⟩ else none := by
  by_cases h : now < t <;> simp [live, Option.filter, h]

/-- There is nothing to get of a key that is not there. -/
@[simp] theorem get_none : Key.get (none : Key α) now = none := rfl

/-- A key with an expiry has its value before that time only. -/
@[simp] theorem get_some_some (v : α) (t : ℕ) :
    Key.get (some ⟨v, some t⟩) now = if now < t then some v else none := by
  by_cases h : now < t <;> simp [get, h]

/-- What is there at a time was there before. -/
theorem get_of_le {key : Key α} {s t : ℕ} (h : s ≤ t) {v : α} (hget : Key.get key t = some v) :
    Key.get key s = some v := by
  rcases key with _ | ⟨w, _ | x⟩
  · exact hget
  · exact hget
  · rw [get_some_some] at hget ⊢
    split_ifs at hget with hx
    rw [if_pos (h.trans_lt hx)]
    exact hget

/-- `INCRBY` on a key with an expiry. -/
theorem incrBy_some_some (v now n : ℕ) {t : ℕ} :
    Key.incrBy (some ⟨v, some t⟩) now n =
      if now < t then (some ⟨v + n, some t⟩, v + n) else (some ⟨n, none⟩, n) := by
  unfold incrBy
  rw [live_some_some]
  split_ifs <;> rfl

/-- A key that is there with an expiry has a time to live that is not negative. -/
theorem ttl_nonneg (v : α) {t : ℕ} (h : now < t) : 0 ≤ Key.ttl (some ⟨v, some t⟩) now := by
  have hlive : Key.live (some ⟨v, some t⟩) now = some ⟨v, some t⟩ := by
    rw [live_some_some, if_pos h]
  unfold ttl
  rw [hlive]
  exact Int.natCast_nonneg _

/-- A key that was just written and then given a positive expiry. -/
@[simp] theorem expire_set (v : α) {n : ℤ} (h : 0 < n) :
    (Key.set v).expire now n = some ⟨v, some (now + second * n.toNat)⟩ := by
  simp [set, expire, h.not_ge]

/-- `EXPIRE` behind `HSET` sets the expiry, whatever was there before. -/
@[simp] theorem expire_hset (v : α) {n : ℤ} (h : 0 < n) :
    (key.hset now v).expire now n = some ⟨v, some (now + second * n.toNat)⟩ := by
  have hlive : (key.hset now v).live now = key.hset now v := by
    rcases key with _ | ⟨w, _ | t⟩
    · rfl
    · rfl
    · by_cases ht : now < t <;> simp [hset, ht]
  rw [expire, hlive]
  simp [hset, h.not_ge]

end Key

/-- The reply to `TIME`: seconds and microseconds. -/
def redisTime (now : ℕ) : ℕ × ℕ := (now / second, now % second)

/-- The scripts' `now`: `tonumber(t[1]) + tonumber(t[2]) / 1000000`. -/
def luaNow (now : ℕ) : ℚ := (redisTime now).1 + (redisTime now).2 / 1000000

/-- `now` is the clock in seconds. -/
theorem luaNow_eq (now : ℕ) : luaNow now = now / 1000000 := by
  have h : (1000000 * (now / 1000000) + now % 1000000 : ℕ) = now := Nat.div_add_mod now 1000000
  have h' : (1000000 : ℚ) * (now / 1000000 : ℕ) + (now % 1000000 : ℕ) = now := by exact_mod_cast h
  simp only [luaNow, redisTime, second]
  field_simp
  linarith

/-- The scripts see times in the order in which they are. -/
theorem luaNow_le {s t : ℕ} : luaNow s ≤ luaNow t ↔ s ≤ t := by
  rw [luaNow_eq, luaNow_eq, div_le_div_iff_of_pos_right (by norm_num), Nat.cast_le]

/-- And no negative ones. -/
theorem luaNow_nonneg (t : ℕ) : 0 ≤ luaNow t := by
  rw [luaNow_eq]
  positivity

/-- A whole number of seconds later. -/
theorem luaNow_add_seconds (t : ℕ) (n : ℕ) : luaNow (t + second * n) = luaNow t + n := by
  rw [luaNow_eq, luaNow_eq, second]
  push_cast
  ring

/-- `tonumber(string.format('%.6f', x))`. -/
def fmt6 (x : ℚ) : ℚ := toGrid 1000000 x

/-- The rationals with at most six decimals. -/
abbrev SixDecimals (x : ℚ) : Prop := OnGrid 1000000 x

/-- Times have six decimals: they are microseconds. -/
theorem sixDecimals_luaNow (t : ℕ) : SixDecimals (luaNow t) :=
  ⟨t, by rw [luaNow_eq]; push_cast; rfl⟩

/-- So has every integer. -/
theorem sixDecimals_intCast (n : ℤ) : SixDecimals n := onGrid_intCast (by norm_num) n

/-- Printing six decimals is off by at most half a millionth. -/
theorem abs_fmt6_sub_le (x : ℚ) : |fmt6 x - x| ≤ 5 / 10000000 := by
  have h := abs_toGrid_sub_le (k := 1000000) (by norm_num) x
  norm_num at h ⊢
  exact h

/-- Rounding to six decimals does not pass a number that has six. -/
theorem fmt6_le {x y : ℚ} (hy : SixDecimals y) (h : x ≤ y) : fmt6 x ≤ y :=
  toGrid_le (by norm_num) hy h

/-- From neither side. -/
theorem le_fmt6 {x y : ℚ} (hy : SixDecimals y) (h : y ≤ x) : y ≤ fmt6 x :=
  le_toGrid (by norm_num) hy h

/-- A server time is printed exactly. -/
@[simp] theorem fmt6_luaNow (t : ℕ) : fmt6 (luaNow t) = luaNow t :=
  toGrid_of_onGrid (by norm_num) (sixDecimals_luaNow t)

/-- A number with six decimals is written as it is. -/
theorem fmt6_of_sixDecimals {x : ℚ} (h : SixDecimals x) : fmt6 x = x :=
  toGrid_of_onGrid (by norm_num) h

/-- Nothing that is written gets negative by rounding. -/
theorem fmt6_nonneg {x : ℚ} (h : 0 ≤ x) : 0 ≤ fmt6 x := by
  exact_mod_cast le_fmt6 (sixDecimals_intCast 0) (by exact_mod_cast h)

end NginxRatelimit
