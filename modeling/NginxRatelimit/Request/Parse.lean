import NginxRatelimit.Resp

/-!
# The reply parser

`process_reply` reads the reply to the script after its first byte, one byte at a time, and keeps
its state between calls. `replyStep` is one pass of its loop and `replyLoop` the loop over the bytes
of one call, which ends at the `done` label, with an error, or at the end of the bytes.
-/

namespace NginxRatelimit

open Library

/-- `NGX_MAX_INT_T_VALUE` of a 64-bit build. -/
def maxIntT : ℕ := 9223372036854775807

/-- The values of `ngx_uint_t`, of 64 bits. -/
def uintT : ℕ := 18446744073709551616

/-- `ngx_http_ratelimit_accum_digit`: the value with one digit more; `none` is `NGX_ERROR`. -/
def accumDigit (val : ℕ) (ch : UInt8) : Option ℕ :=
  let d := ch.toNat - 48
  if (maxIntT - d) / 10 < val then none else some ((val * 10 + d) % uintT)

/-- The states of `process_reply`. -/
inductive Sw where
  | start | crlf1 | arg1 | crlf2 | arg2 | lf1 | arg3 | lf2 | arg4 | allowed | lf3 | arg5 | almostDone
  deriving DecidableEq, Repr

/-- What `process_reply` reads and writes while it parses: `ctx->state` and the variables parsed so
far. -/
structure Parse where
  /-- `ctx->state`. -/
  state : Sw
  /-- `u->state->status`. -/
  status : ℕ
  /-- `ctx->limit`. -/
  limit : ℕ
  /-- `ctx->remaining`. -/
  remaining : ℕ
  /-- `ctx->retry_after`. -/
  retryAfter : ℤ
  /-- `ctx->reset`. -/
  reset : ℕ
  deriving DecidableEq, Repr

/-- What one byte leads to. -/
inductive Pass where
  /-- The loop goes on. -/
  | next (p : Parse)
  /-- `NGX_ERROR`. -/
  | fail
  /-- The `done` label. -/
  | done
  deriving DecidableEq, Repr

/-- A byte that is not a decimal digit: `ch < '0' || ch > '9'`. -/
def NotDigit (ch : UInt8) : Prop := ch.toNat < 48 ∨ 57 < ch.toNat

/-- Whether a byte is no digit can be decided. -/
instance (ch : UInt8) : Decidable (NotDigit ch) := inferInstanceAs (Decidable (_ ∨ _))

/-- The states that read one unsigned variable: a ':' is skipped, CR ends it, and a digit is
accumulated. -/
def readUnsigned (p : Parse) (ch : UInt8) (val : ℕ) (set : ℕ → Parse) (after : Sw) : Pass :=
  if ch = ascii ':' then .next p
  else if ch = CR then .next { p with state := after }
  else if NotDigit ch then .fail
  else match accumDigit val ch with
    | none => .fail
    | some val => .next (set val)

/-- The states that expect LF after CR. -/
def readLF (p : Parse) (ch : UInt8) (after : Sw) : Pass :=
  if ch = LF then .next { p with state := after } else .fail

/-- The states that skip CR up to LF. -/
def readCRLF (p : Parse) (ch : UInt8) (after : Sw) : Pass :=
  if ch = CR then .next p
  else if ch = LF then .next { p with state := after }
  else .fail

/-- One pass of the loop of `process_reply`. -/
def replyStep (p : Parse) (ch : UInt8) : Pass :=
  match p.state with
  | .start =>
    -- our bulk length must always be 5
    if ch = ascii '5' then .next { p with state := .crlf1 } else .fail
  | .crlf1 => readCRLF p ch .arg1
  | .arg1 =>
    if ch = ascii ':' then .next p
    else if ch = ascii '0' then .next { p with status := 200, state := .crlf2 }
    else if ch = ascii '1' then .next { p with status := 429, state := .crlf2 }
    else .fail
  | .crlf2 => readCRLF p ch .arg2
  | .arg2 => readUnsigned p ch p.limit (fun v => { p with limit := v }) .lf1
  | .lf1 => readLF p ch .arg3
  | .arg3 => readUnsigned p ch p.remaining (fun v => { p with remaining := v }) .lf2
  | .lf2 => readLF p ch .arg4
  | .arg4 =>
    if ch = ascii ':' then .next p
    else if ch = ascii '-' then .next { p with state := .allowed }
    else if ch = CR then .next { p with state := .lf3 }
    else if NotDigit ch then .fail
    else
      -- the sentinel -1 is cleared before the first digit
      let retryAfter := if p.retryAfter < 0 then 0 else p.retryAfter
      match accumDigit retryAfter.toNat ch with
      | none => .fail
      | some v => .next { p with retryAfter := v }
  | .allowed =>
    if ch = ascii '1' then .next { p with retryAfter := -1 }
    else if ch = CR then .next { p with state := .lf3 }
    else .fail
  | .lf3 => readLF p ch .arg5
  | .arg5 => readUnsigned p ch p.reset (fun v => { p with reset := v }) .almostDone
  | .almostDone => if ch = LF then .done else .fail

/-- How the loop of `process_reply` ends. -/
inductive Parsed where
  /-- `NGX_AGAIN`: all bytes were examined. -/
  | again (p : Parse)
  /-- `NGX_ERROR`. -/
  | error (p : Parse)
  /-- The `done` label, with the bytes that were not examined. -/
  | done (p : Parse) (rest : Bytes)
  deriving DecidableEq, Repr

/-- The loop of `process_reply` over the bytes of one call. -/
def replyLoop (p : Parse) : Bytes → Parsed
  | [] => .again p
  | ch :: rest =>
    match replyStep p ch with
    | .next p => replyLoop p rest
    | .fail => .error p
    | .done => .done p rest

/-- At the end of its bytes the loop returns `NGX_AGAIN`. -/
@[simp] theorem replyLoop_nil (p : Parse) : replyLoop p [] = .again p := rfl

/-- A byte that the parser goes on after. -/
theorem replyLoop_cons_next {p q : Parse} {ch : UInt8} (h : replyStep p ch = .next q)
    (rest : Bytes) : replyLoop p (ch :: rest) = replyLoop q rest := by
  rw [replyLoop, h]

/-- A byte that is refused ends the loop. -/
theorem replyLoop_cons_fail {p : Parse} {ch : UInt8} (h : replyStep p ch = .fail)
    (rest : Bytes) : replyLoop p (ch :: rest) = .error p := by
  rw [replyLoop, h]

/-- And the last byte of a reply, with the rest unread. -/
theorem replyLoop_cons_done {p : Parse} {ch : UInt8} (h : replyStep p ch = .done)
    (rest : Bytes) : replyLoop p (ch :: rest) = .done p rest := by
  rw [replyLoop, h]

/-- The parse does not depend on how the bytes are split into calls. -/
theorem replyLoop_append (p : Parse) (xs ys : Bytes) :
    replyLoop p (xs ++ ys) =
      match replyLoop p xs with
      | .again q => replyLoop q ys
      | .error q => .error q
      | .done q rest => .done q (rest ++ ys) := by
  induction xs generalizing p with
  | nil => rfl
  | cons ch xs ih =>
    rw [List.cons_append]
    cases h : replyStep p ch with
    | next q => rw [replyLoop_cons_next h, replyLoop_cons_next h, ih]
    | fail => rw [replyLoop_cons_fail h, replyLoop_cons_fail h]
    | done => rw [replyLoop_cons_done h, replyLoop_cons_done h]

/-! ## Digits -/

/-- The digits are digits for the parser. -/
theorem not_notDigit_digit {d : ℕ} (h : d < 10) : ¬ NotDigit (digit d) := by
  rw [NotDigit, digit_toNat h]
  omega

/-- A byte that is a digit. -/
theorem exists_eq_digit {ch : UInt8} (h : ¬ NotDigit ch) : ∃ d, d < 10 ∧ ch = digit d := by
  rw [NotDigit, not_or] at h
  refine ⟨ch.toNat - 48, by omega, ?_⟩
  rw [digit, Nat.add_sub_cancel' (by omega), UInt8.ofNat_toNat]

/-- The guard of `accum_digit` refuses exactly the values above the maximum, so nothing wraps. -/
theorem accumDigit_digit (v : ℕ) {d : ℕ} (h : d < 10) :
    accumDigit v (digit d) = if v * 10 + d ≤ maxIntT then some (v * 10 + d) else none := by
  have hguard : (maxIntT - d) / 10 < v ↔ ¬ v * 10 + d ≤ maxIntT := by
    unfold maxIntT
    omega
  simp only [accumDigit, digit_toNat h, Nat.add_sub_cancel_left, hguard]
  by_cases hmax : v * 10 + d ≤ maxIntT
  · have hwrap : v * 10 + d < uintT := hmax.trans_lt (by decide)
    rw [if_neg (not_not.mpr hmax), if_pos hmax, Nat.mod_eq_of_lt hwrap]
  · rw [if_pos hmax, if_neg hmax]

/-- A variable that digits are accumulated in. -/
structure DigitReader where
  /-- The parser is reading the variable. -/
  ready : Parse → Prop
  /-- Its value. -/
  get : Parse → ℕ
  /-- Storing a value. -/
  set : Parse → ℕ → Parse
  /-- A digit is accumulated while the value stays within the maximum. -/
  step_digit : ∀ p d, ready p → d < 10 → replyStep p (digit d) =
    if get p * 10 + d ≤ maxIntT then .next (set p (get p * 10 + d)) else .fail
  /-- The parser goes on reading. -/
  ready_set : ∀ p v, ready p → ready (set p v)
  /-- A stored value is read back. -/
  get_set : ∀ p v, get (set p v) = v
  /-- The last stored value stays. -/
  set_set : ∀ p v w, set (set p v) w = set p w
  /-- Storing the value that is there changes nothing. -/
  set_get : ∀ p, ready p → set p (get p) = p

/-- Digits are read into their value, or refused when it exceeds the maximum. -/
theorem DigitReader.loop_digits (D : DigitReader) {p : Parse} (hp : D.ready p)
    (hv : D.get p ≤ maxIntT) (ds : List ℕ) (hds : ∀ d ∈ ds, d < 10) (rest : Bytes) :
    if decimalValue (D.get p) ds ≤ maxIntT then
      replyLoop p (ds.map digit ++ rest) = replyLoop (D.set p (decimalValue (D.get p) ds)) rest
    else ∃ q, replyLoop p (ds.map digit ++ rest) = .error q := by
  induction ds generalizing p with
  | nil => simp [hv, D.set_get p hp]
  | cons d ds ih =>
    have hstep := D.step_digit p d hp (hds d (by simp))
    have hle := le_decimalValue (D.get p * 10 + d) ds
    rw [decimalValue_cons, List.map_cons, List.cons_append]
    by_cases hmax : D.get p * 10 + d ≤ maxIntT
    · rw [if_pos hmax] at hstep
      rw [replyLoop_cons_next hstep]
      have hih := ih (p := D.set p (D.get p * 10 + d)) (D.ready_set p _ hp)
        (by rw [D.get_set]; exact hmax) fun e he => hds e (by simp [he])
      rw [D.get_set, D.set_set] at hih
      exact hih
    · rw [if_neg hmax] at hstep
      rw [if_neg (by omega)]
      exact ⟨p, replyLoop_cons_fail hstep _⟩

/-- One of the three unsigned variables with the states around it. -/
structure Variable where
  /-- The state that reads it. -/
  reading : Sw
  /-- The state after its CR. -/
  ended : Sw
  /-- Its value. -/
  get : Parse → ℕ
  /-- Storing a value. -/
  set : Parse → ℕ → Parse
  /-- The state reads this variable. -/
  step : ∀ p ch, p.state = reading → replyStep p ch = readUnsigned p ch (get p) (set p) ended
  /-- A stored value is read back. -/
  get_set : ∀ p v, get (set p v) = v
  /-- The last stored value stays. -/
  set_set : ∀ p v w, set (set p v) w = set p w
  /-- Storing keeps the state. -/
  state_set : ∀ p v, (set p v).state = p.state
  /-- Storing the value that is there changes nothing. -/
  set_get : ∀ p, set p (get p) = p

namespace Variable

/-- `ctx->limit`. -/
def limit : Variable where
  reading := .arg2
  ended := .lf1
  get := Parse.limit
  set p v := { p with limit := v }
  step := by rintro ⟨⟩ ch ⟨⟩; rfl
  get_set _ _ := rfl
  set_set _ _ _ := rfl
  state_set _ _ := rfl
  set_get _ := rfl

/-- `ctx->remaining`. -/
def remaining : Variable where
  reading := .arg3
  ended := .lf2
  get := Parse.remaining
  set p v := { p with remaining := v }
  step := by rintro ⟨⟩ ch ⟨⟩; rfl
  get_set _ _ := rfl
  set_set _ _ _ := rfl
  state_set _ _ := rfl
  set_get _ := rfl

/-- `ctx->reset`. -/
def reset : Variable where
  reading := .arg5
  ended := .almostDone
  get := Parse.reset
  set p v := { p with reset := v }
  step := by rintro ⟨⟩ ch ⟨⟩; rfl
  get_set _ _ := rfl
  set_set _ _ _ := rfl
  state_set _ _ := rfl
  set_get _ := rfl

/-- An unsigned variable accumulates digits. -/
def digitReader (V : Variable) : DigitReader where
  ready p := p.state = V.reading
  get := V.get
  set := V.set
  step_digit p d hp hd := by
    rw [V.step p _ hp, readUnsigned, if_neg (digit_ne hd (by decide)),
      if_neg (digit_ne hd (by decide)), if_neg (not_notDigit_digit hd), accumDigit_digit _ hd]
    split_ifs <;> rfl
  ready_set p v hp := (V.state_set p v).trans hp
  get_set := V.get_set
  set_set := V.set_set
  set_get p _ := V.set_get p

end Variable

/-- A digit of `retry_after`: the sentinel is cleared first. -/
theorem replyStep_arg4_digit {p : Parse} (hp : p.state = .arg4) {d : ℕ} (hd : d < 10) :
    replyStep p (digit d) =
      let v := (if p.retryAfter < 0 then 0 else p.retryAfter).toNat * 10 + d
      if v ≤ maxIntT then .next { p with retryAfter := v } else .fail := by
  simp only [replyStep, hp, if_neg (digit_ne hd (c := ascii ':') (by decide)),
    if_neg (digit_ne hd (c := ascii '-') (by decide)), if_neg (digit_ne hd (c := CR) (by decide)),
    if_neg (not_notDigit_digit hd), accumDigit_digit _ hd]
  split_ifs <;> rfl

/-- `ctx->retry_after`, once its first digit is read, accumulates digits too. -/
def retryAfterReader : DigitReader where
  ready p := p.state = .arg4 ∧ 0 ≤ p.retryAfter
  get p := p.retryAfter.toNat
  set p v := { p with retryAfter := v }
  step_digit p d hp hd := by
    rw [replyStep_arg4_digit hp.1 hd, if_neg (not_lt.mpr hp.2)]
  ready_set p v hp := ⟨hp.1, Int.natCast_nonneg v⟩
  get_set _ v := Int.toNat_natCast v
  set_set _ _ _ := rfl
  set_get p hp := by
    rw [Int.toNat_of_nonneg hp.2]

end NginxRatelimit
