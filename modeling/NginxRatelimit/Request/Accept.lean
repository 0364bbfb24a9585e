import NginxRatelimit.Request.Parse
import NginxRatelimit.Script.Lua

/-!
# The replies that the parser accepts

A script's reply of five integers is accepted with their values (`replyLoop_reply`). Of the
RESP values that a peer can send, the parser accepts nothing else, except in the fourth place: there
it takes for -1 also the other negative integers that are written with ones only, and error lines of
ones, `Repunit`. `reply_of_done` says so of every well-formed value, and that the accepted bytes
are the whole value.
-/

namespace NginxRatelimit

open Library Resp

/-- The first byte of a value, which tells its type. -/
def Resp.typeByte : Resp → UInt8
  | simple _ => ascii '+'
  | error _ => ascii '-'
  | int _ => ascii ':'
  | bulk _ | nullBulk => ascii '$'
  | nullArray | array _ => ascii '*'

/-- Every reply begins with the byte of its type. -/
theorem Resp.exists_encode_eq_cons (v : Resp) : ∃ w, encode v = v.typeByte :: w := by
  cases v with
  | simple line => exact ⟨line ++ CRLF, by rw [encode, typeByte]⟩
  | error line => exact ⟨line ++ CRLF, by rw [encode, typeByte]⟩
  | int n => exact ⟨integer n ++ CRLF, by rw [encode, typeByte]⟩
  | bulk data => exact ⟨_, by rw [encode, typeByte]⟩
  | nullBulk => exact ⟨text "-1" ++ CRLF, by rw [encode, typeByte]; rfl⟩
  | nullArray => exact ⟨text "-1" ++ CRLF, by rw [encode, typeByte]; rfl⟩
  | array values => exact ⟨_, by rw [encode, typeByte]⟩

/-- A type byte is no digit and no CR. -/
theorem Resp.typeByte_notDigit (v : Resp) : NotDigit v.typeByte ∧ v.typeByte ≠ CR := by
  cases v <;> rw [typeByte] <;> decide

/-- A ':' begins integers only. -/
theorem Resp.exists_eq_int {v : Resp} (h : v.typeByte = ascii ':') : ∃ n, v = int n := by
  cases v <;> first | exact ⟨_, rfl⟩ | (rw [typeByte] at h; exact absurd h (by decide))

/-- A fourth element that the parser takes for -1 though it is another one: a negative integer of
ones, or an error line of ones. -/
def Resp.Repunit : Resp → Prop
  | int (.negSucc n) => n ≠ 0 ∧ ∀ ch ∈ decimal (n + 1), ch = ascii '1'
  | error line => ∀ ch ∈ line, ch = ascii '1'
  | _ => False

/-- A reply whose fourth element is taken for -1. -/
def Resp.Misread (v : Resp) : Prop :=
  ∃ e₁ e₂ e₃ e₄ e₅, v = array [e₁, e₂, e₃, e₄, e₅] ∧ Repunit e₄

/-- The status that `sw_ARG1` stores. -/
def statusOf (s : ℤ) : ℕ := if s = 0 then 200 else 429

/-- The parser as it is before a reply: `ctx` as allocated, or as reset by `resend_eval`. -/
structure Parse.Fresh (p : Parse) : Prop where
  state : p.state = .start
  limit : p.limit = 0
  remaining : p.remaining = 0
  reset : p.reset = 0
  retryAfter : p.retryAfter = -1

/-! ## One element of the array -/

/-- A byte that ends the loop with an error does not lead to `done`. -/
theorem not_done_of_fail {p q : Parse} {ch : UInt8} {w rest : Bytes}
    (h : replyStep p ch = .fail) : replyLoop p (ch :: w) ≠ .done q rest := by
  rw [replyLoop_cons_fail h]
  exact Parsed.noConfusion

namespace Variable

variable (V : Variable) {p q : Parse} {rest tail : Bytes}

/-- A variable's line begins with a colon, which changes nothing. -/
theorem step_colon (hp : p.state = V.reading) : replyStep p (ascii ':') = .next p := by
  rw [V.step p _ hp, readUnsigned, if_pos rfl]

/-- A CR ends the line. -/
theorem step_CR (hp : p.state = V.reading) :
    replyStep p CR = .next { p with state := V.ended } := by
  rw [V.step p _ hp, readUnsigned, if_neg (by decide), if_pos rfl]

/-- All else but a digit is an error. -/
theorem step_other (hp : p.state = V.reading) {ch : UInt8} (h1 : ch ≠ ascii ':') (h2 : ch ≠ CR)
    (h3 : NotDigit ch) : replyStep p ch = .fail := by
  rw [V.step p _ hp, readUnsigned, if_neg h1, if_neg h2, if_pos h3]

/-- A non-negative integer is read into its variable, or refused when it exceeds the maximum. -/
theorem loop_nat (hp : p.state = V.reading) (h0 : V.get p = 0) (n : ℕ) (rest : Bytes) :
    if n ≤ maxIntT then
      replyLoop p (encode (int n) ++ rest) =
        replyLoop { V.set p n with state := V.ended } (LF :: rest)
    else ∃ q, replyLoop p (encode (int n) ++ rest) = .error q := by
  have hbytes : encode (int n) ++ rest =
      ascii ':' :: ((decimalDigits n).map digit ++ CR :: LF :: rest) := by
    simp [encode, integer, decimal, CRLF]
  have hloop := V.digitReader.loop_digits hp (show V.get p ≤ maxIntT by rw [h0]; decide)
    (decimalDigits n) (fun d hd => decimalDigits_lt hd) (CR :: LF :: rest)
  rw [show V.digitReader.get p = 0 from h0, decimalValue_decimalDigits] at hloop
  rw [hbytes, replyLoop_cons_next (V.step_colon hp)]
  split_ifs at hloop ⊢ with hmax
  · rw [hloop]
    exact replyLoop_cons_next (V.step_CR ((V.state_set p n).trans hp)) _
  · exact hloop

/-- Only such an integer is accepted there. -/
theorem of_done (hp : p.state = V.reading) (h0 : V.get p = 0) {v : Resp}
    (h : replyLoop p (encode v ++ rest) = .done q tail) :
    ∃ n : ℕ, v = int n ∧ n ≤ maxIntT ∧
      replyLoop { V.set p n with state := V.ended } (LF :: rest) = .done q tail := by
  have hcolon : v.typeByte = ascii ':' := by
    by_contra hne
    obtain ⟨w, hw⟩ := exists_encode_eq_cons v
    obtain ⟨hdigit, hCR⟩ := typeByte_notDigit v
    rw [hw, List.cons_append] at h
    exact not_done_of_fail (V.step_other hp hne hCR hdigit) h
  obtain ⟨n, rfl⟩ := exists_eq_int hcolon
  -- A negative integer has a '-' where a digit has to be.
  cases n with
  | ofNat n =>
    have hloop := V.loop_nat hp h0 n rest
    split_ifs at hloop with hmax
    · exact ⟨n, rfl, hmax, hloop.symm.trans h⟩
    · obtain ⟨r, hr⟩ := hloop
      exact absurd (hr.symm.trans h) Parsed.noConfusion
  | negSucc n =>
    rw [encode, integer, List.cons_append, List.cons_append, List.cons_append,
      replyLoop_cons_next (V.step_colon hp)] at h
    exact absurd h (not_done_of_fail (V.step_other hp (by decide) (by decide) (by decide)))

end Variable

variable {p q : Parse} {rest tail : Bytes}

/-- The line of `limit` ends, and that of `remaining` follows. -/
theorem replyLoop_lf1 (hp : p.state = .lf1) (w : Bytes) :
    replyLoop p (LF :: w) = replyLoop { p with state := .arg3 } w :=
  replyLoop_cons_next (by simp only [replyStep, hp, readLF, if_pos]) w

/-- That of `remaining` ends, and that of `retry_after` follows. -/
theorem replyLoop_lf2 (hp : p.state = .lf2) (w : Bytes) :
    replyLoop p (LF :: w) = replyLoop { p with state := .arg4 } w :=
  replyLoop_cons_next (by simp only [replyStep, hp, readLF, if_pos]) w

/-- That of `retry_after` ends, and that of `reset` follows. -/
theorem replyLoop_lf3 (hp : p.state = .lf3) (w : Bytes) :
    replyLoop p (LF :: w) = replyLoop { p with state := .arg5 } w :=
  replyLoop_cons_next (by simp only [replyStep, hp, readLF, if_pos]) w

/-- With the last LF the reply is parsed, and the rest is not looked at. -/
theorem replyLoop_almostDone (hp : p.state = .almostDone) (w : Bytes) :
    replyLoop p (LF :: w) = .done p w :=
  replyLoop_cons_done (by simp only [replyStep, hp, if_pos]) w

/-! ### The status -/

/-- The first element is read when it is 0 or 1. -/
theorem replyLoop_arg1 (hp : p.state = .arg1) {s : ℕ} (hs : s = 0 ∨ s = 1) (w : Bytes) :
    replyLoop p (encode (int s) ++ w) =
      replyLoop { p with status := statusOf s, state := .arg2 } w := by
  have hcolon : replyStep p (ascii ':') = .next p := by simp only [replyStep, hp, if_pos]
  have hend : ∀ r : Parse, r.state = .crlf2 →
      replyLoop r (CR :: LF :: w) = replyLoop { r with state := .arg2 } w := by
    intro r hr
    rw [replyLoop_cons_next (q := r) (by simp only [replyStep, hr, readCRLF, if_pos]),
      replyLoop_cons_next (by simp only [replyStep, hr, readCRLF]; rfl)]
  -- The digit sets the status, 200 or 429.
  rcases hs with rfl | rfl
  · have hbytes : encode (int (0 : ℕ)) ++ w = ascii ':' :: ascii '0' :: CR :: LF :: w := by
      rw [encode]
      rfl
    have hdigit : replyStep p (ascii '0') = .next { p with status := 200, state := .crlf2 } := by
      simp only [replyStep, hp]
      rfl
    rw [hbytes, replyLoop_cons_next hcolon, replyLoop_cons_next hdigit, hend _ rfl]
    rfl
  · have hbytes : encode (int (1 : ℕ)) ++ w = ascii ':' :: ascii '1' :: CR :: LF :: w := by
      rw [encode]
      rfl
    have hdigit : replyStep p (ascii '1') = .next { p with status := 429, state := .crlf2 } := by
      simp only [replyStep, hp]
      rfl
    rw [hbytes, replyLoop_cons_next hcolon, replyLoop_cons_next hdigit, hend _ rfl]
    rfl

/-- Only 0 and 1 are accepted there. -/
theorem arg1_of_done (hp : p.state = .arg1) {v : Resp}
    (h : replyLoop p (encode v ++ rest) = .done q tail) :
    ∃ s : ℕ, (s = 0 ∨ s = 1) ∧ v = int s ∧
      replyLoop { p with status := statusOf s, state := .arg2 } rest = .done q tail := by
  have hfail : ∀ ch, NotDigit ch → ch ≠ ascii ':' → replyStep p ch = .fail := by
    intro ch hch hne
    have h0 : ch ≠ ascii '0' := by rintro rfl; exact absurd hch (by decide)
    have h1 : ch ≠ ascii '1' := by rintro rfl; exact absurd hch (by decide)
    simp only [replyStep, hp, if_neg hne, if_neg h0, if_neg h1]
  have hcolon : replyStep p (ascii ':') = .next p := by simp only [replyStep, hp, if_pos]
  have htype : v.typeByte = ascii ':' := by
    by_contra hne
    obtain ⟨w, hw⟩ := exists_encode_eq_cons v
    rw [hw, List.cons_append] at h
    exact not_done_of_fail (hfail _ (typeByte_notDigit v).1 hne) h
  obtain ⟨n, rfl⟩ := exists_eq_int htype
  cases n with
  | negSucc n =>
    rw [encode, integer, List.cons_append, List.cons_append, List.cons_append,
      replyLoop_cons_next hcolon] at h
    exact absurd h (not_done_of_fail (hfail _ (by decide) (by decide)))
  | ofNat n =>
    suffices hn : n = 0 ∨ n = 1 from ⟨n, hn, rfl, (replyLoop_arg1 hp hn rest).symm.trans h⟩
    obtain ⟨d, ds, hds⟩ := exists_decimalDigits_eq_cons n
    have hlt : ∀ e ∈ d :: ds, e < 10 := fun e he => decimalDigits_lt (hds ▸ he)
    have hvalue := decimalValue_decimalDigits n
    rw [hds] at hvalue
    rw [encode, integer, decimal, hds, List.map_cons, List.cons_append, List.cons_append,
      List.cons_append, replyLoop_cons_next hcolon] at h
    -- The state knows no other digit.
    have hd : d = 0 ∨ d = 1 := by
      by_contra hne
      have hd := hlt d (by simp)
      have hne0 : digit d ≠ ascii '0' := fun heq =>
        hne (.inl (digit_inj hd (by decide : 0 < 10) heq))
      have hne1 : digit d ≠ ascii '1' := fun heq =>
        hne (.inr (digit_inj hd (by decide : 1 < 10) heq))
      have hcol := digit_ne hd (c := ascii ':') (by decide)
      refine not_done_of_fail ?_ h
      simp only [replyStep, hp, if_neg hcol, if_neg hne0, if_neg hne1]
    cases ds with
    | nil =>
      simp only [decimalValue_cons, decimalValue_nil] at hvalue
      omega
    | cons e es =>
      -- A second digit is neither CR nor LF.
      have he := hlt e (by simp)
      have hnext : ∃ r : Parse, r.state = .crlf2 ∧ replyStep p (digit d) = .next r := by
        rcases hd with rfl | rfl
        · exact ⟨{ p with status := 200, state := .crlf2 }, rfl, by simp only [replyStep, hp]; rfl⟩
        · exact ⟨{ p with status := 429, state := .crlf2 }, rfl, by simp only [replyStep, hp]; rfl⟩
      obtain ⟨r, hr, hstep⟩ := hnext
      rw [replyLoop_cons_next hstep, List.map_cons, List.cons_append, List.cons_append] at h
      refine absurd h (not_done_of_fail ?_)
      simp only [replyStep, hr, readCRLF, if_neg (digit_ne he (c := CR) (by decide)),
        if_neg (digit_ne he (c := LF) (by decide))]

/-! ### The seconds until a retry -/

/-- The line of `retry_after` begins with a colon, too. -/
theorem replyStep_arg4_colon (hp : p.state = .arg4) : replyStep p (ascii ':') = .next p := by
  simp only [replyStep, hp, if_pos]

/-- A minus begins its -1. -/
theorem replyStep_arg4_minus (hp : p.state = .arg4) :
    replyStep p (ascii '-') = .next { p with state := .allowed } := by
  simp only [replyStep, hp]
  rfl

/-- And a CR ends it. -/
theorem replyStep_arg4_CR (hp : p.state = .arg4) :
    replyStep p CR = .next { p with state := .lf3 } := by
  simp only [replyStep, hp]
  rfl

/-- A non-negative fourth element is read in place of the sentinel, or refused when it exceeds the
maximum. -/
theorem replyLoop_arg4_nat (hp : p.state = .arg4) (h1 : p.retryAfter = -1) (n : ℕ) (w : Bytes) :
    if n ≤ maxIntT then
      replyLoop p (encode (int n) ++ w) = replyLoop { p with retryAfter := n, state := .arg5 } w
    else ∃ r, replyLoop p (encode (int n) ++ w) = .error r := by
  obtain ⟨d, ds, hds⟩ := exists_decimalDigits_eq_cons n
  have hlt : ∀ e ∈ d :: ds, e < 10 := fun e he => decimalDigits_lt (hds ▸ he)
  have hd := hlt d (by simp)
  have hvalue := decimalValue_decimalDigits n
  rw [hds, decimalValue_cons, Nat.zero_mul, Nat.zero_add] at hvalue
  have hbytes : encode (int n) ++ w =
      ascii ':' :: digit d :: (ds.map digit ++ CR :: LF :: w) := by
    simp [encode, integer, decimal, CRLF, hds]
  have hmax : d ≤ maxIntT := by unfold maxIntT; omega
  -- The first digit takes the place of the -1, and the rest is accumulated onto it.
  have hstep : replyStep p (digit d) = .next { p with retryAfter := d } := by
    rw [replyStep_arg4_digit hp hd, h1]
    simp [hmax]
  have hloop := retryAfterReader.loop_digits (p := { p with retryAfter := d })
    ⟨hp, Int.natCast_nonneg d⟩ (by exact hmax) ds (fun e he => hlt e (by simp [he]))
    (CR :: LF :: w)
  rw [show retryAfterReader.get { p with retryAfter := d } = d from Int.toNat_natCast d,
    hvalue] at hloop
  rw [hbytes, replyLoop_cons_next (replyStep_arg4_colon hp), replyLoop_cons_next hstep]
  split_ifs at hloop ⊢ with hn
  · calc _ = replyLoop { p with retryAfter := (n : ℤ) } (CR :: LF :: w) := hloop
      _ = replyLoop { p with retryAfter := (n : ℤ), state := .lf3 } (LF :: w) :=
        replyLoop_cons_next (replyStep_arg4_CR (p := { p with retryAfter := (n : ℤ) }) hp) _
      _ = replyLoop { p with retryAfter := (n : ℤ), state := .arg5 } w := replyLoop_lf3 rfl w
  · exact hloop

/-- After a '-' only ones are accepted, and they stand for -1. -/
theorem allowed_of_done (hp : p.state = .allowed) (h1 : p.retryAfter = -1) {line : Bytes}
    (hCR : CR ∉ line) (h : replyLoop p (line ++ CR :: LF :: rest) = .done q tail) :
    (∀ ch ∈ line, ch = ascii '1') ∧
      replyLoop { p with state := .arg5 } rest = .done q tail := by
  induction line with
  | nil =>
    refine ⟨by simp, ?_⟩
    have hstep : replyStep p CR = .next { p with state := .lf3 } := by
      simp only [replyStep, hp]
      rfl
    rw [List.nil_append, replyLoop_cons_next hstep] at h
    exact (replyLoop_lf3 (p := { p with state := .lf3 }) rfl rest).symm.trans h
  | cons ch line ih =>
    rw [List.mem_cons, not_or] at hCR
    -- A '1' sets -1, which is there already.
    have hone : ch = ascii '1' := by
      by_contra hne
      refine not_done_of_fail ?_ h
      simp only [replyStep, hp, if_neg hne, if_neg (Ne.symm hCR.1)]
    have hstep : replyStep p ch = .next p := by
      simp only [replyStep, hp, if_pos hone, Pass.next.injEq]
      rw [← h1, ← hp]
    rw [List.cons_append, replyLoop_cons_next hstep] at h
    obtain ⟨hones, hrest⟩ := ih hCR.2 h
    refine ⟨?_, hrest⟩
    intro c hc
    rcases List.mem_cons.mp hc with rfl | hc
    · exact hone
    · exact hones c hc

/-- The sentinel is read as such. -/
theorem replyLoop_arg4_allowed (hp : p.state = .arg4) (h1 : p.retryAfter = -1) (w : Bytes) :
    replyLoop p (encode (int (-1)) ++ w) = replyLoop { p with state := .arg5 } w := by
  have hbytes : encode (int (-1)) ++ w =
      ascii ':' :: ascii '-' :: ascii '1' :: CR :: LF :: w := by
    rw [encode]
    rfl
  have hone : replyStep { p with state := .allowed } (ascii '1') =
      .next { p with state := .allowed } := by
    simp only [replyStep, if_pos, Pass.next.injEq]
    rw [← h1]
  have hend : replyStep { p with state := .allowed } CR = .next { p with state := .lf3 } := rfl
  rw [hbytes, replyLoop_cons_next (replyStep_arg4_colon hp),
    replyLoop_cons_next (replyStep_arg4_minus hp), replyLoop_cons_next hone,
    replyLoop_cons_next hend]
  exact replyLoop_lf3 rfl w

/-- The fourth element is accepted when it is -1 or a non-negative integer, which is then stored, or
when it is taken for -1. -/
theorem arg4_of_done (hp : p.state = .arg4) (h1 : p.retryAfter = -1) {v : Resp}
    (hv : v.WellFormed) (h : replyLoop p (encode v ++ rest) = .done q tail) :
    ∃ r : ℤ, (v = int r ∨ (Repunit v ∧ r = -1)) ∧ -1 ≤ r ∧ r ≤ maxIntT ∧
      replyLoop { p with retryAfter := r, state := .arg5 } rest = .done q tail := by
  have hallowed : ∀ line : Bytes, CR ∉ line →
      replyLoop { p with state := .allowed } (line ++ CR :: LF :: rest) = .done q tail →
        (∀ ch ∈ line, ch = ascii '1') ∧
          replyLoop { p with retryAfter := -1, state := .arg5 } rest = .done q tail := by
    intro line hline hdone
    rw [← h1]
    exact allowed_of_done (p := { p with state := .allowed }) rfl h1 hline hdone
  have hdecimal : ∀ n, CR ∉ decimal n := by
    intro n hmem
    obtain ⟨d, hd, hch⟩ := List.mem_map.mp hmem
    exact digit_ne (decimalDigits_lt hd) (by decide) hch
  cases v with
  | int n =>
    cases n with
    | ofNat n =>
      have hloop := replyLoop_arg4_nat hp h1 n rest
      split_ifs at hloop with hmax
      · refine ⟨n, .inl rfl, by omega, by exact_mod_cast hmax, hloop.symm.trans h⟩
      · obtain ⟨r, hr⟩ := hloop
        exact absurd (hr.symm.trans h) Parsed.noConfusion
    | negSucc n =>
      -- Behind '-' only ones are accepted, any number of them.
      have hbytes : encode (int (.negSucc n)) ++ rest =
          ascii ':' :: ascii '-' :: (decimal (n + 1) ++ CR :: LF :: rest) := by
        simp [encode, integer, CRLF]
      rw [hbytes, replyLoop_cons_next (replyStep_arg4_colon hp),
        replyLoop_cons_next (replyStep_arg4_minus hp)] at h
      obtain ⟨hones, hrest⟩ := hallowed _ (hdecimal _) h
      refine ⟨-1, ?_, le_rfl, by decide, hrest⟩
      rcases Nat.eq_zero_or_pos n with rfl | hn
      · exact .inl rfl
      · exact .inr ⟨⟨hn.ne', hones⟩, rfl⟩
  | error line =>
    have hbytes : encode (error line) ++ rest = ascii '-' :: (line ++ CR :: LF :: rest) := by
      simp [encode, CRLF]
    rw [hbytes, replyLoop_cons_next (replyStep_arg4_minus hp)] at h
    obtain ⟨hones, hrest⟩ := hallowed _ (by rw [WellFormed] at hv; exact hv.1) h
    refine ⟨-1, .inr ⟨hones, rfl⟩, le_rfl, by decide, hrest⟩
  | _ =>
    -- The other types begin with a byte that the state refuses.
    obtain ⟨w, hw⟩ := exists_encode_eq_cons _
    rw [hw, List.cons_append] at h
    refine absurd h (not_done_of_fail ?_)
    simp only [replyStep, hp, typeByte]
    rfl

/-! ## The whole reply -/

/-- The bytes of an array after its first one. -/
def Resp.encodeTail (values : List Resp) : Bytes :=
  decimal values.length ++ CRLF ++ encodeAll values

/-- An array of five is begun. -/
theorem replyLoop_start (hp : p.state = .start) (w : Bytes) :
    replyLoop p (ascii '5' :: CR :: LF :: w) = replyLoop { p with state := .arg1 } w := by
  have h1 : replyStep p (ascii '5') = .next { p with state := .crlf1 } := by
    simp only [replyStep, hp, if_pos]
  have h2 : replyStep { p with state := .crlf1 } CR = .next { p with state := .crlf1 } := rfl
  have h3 : replyStep { p with state := .crlf1 } LF = .next { p with state := .arg1 } := rfl
  rw [replyLoop_cons_next h1, replyLoop_cons_next h2, replyLoop_cons_next h3]

/-- Only arrays of five elements are read further. -/
theorem start_of_done (hp : p.state = .start) {values : List Resp}
    (h : replyLoop p (encodeTail values) = .done q tail) :
    values.length = 5 ∧
      replyLoop { p with state := .arg1 } (encodeAll values) = .done q tail := by
  obtain ⟨d, ds, hds⟩ := exists_decimalDigits_eq_cons values.length
  have hlt : ∀ e ∈ d :: ds, e < 10 := fun e he => decimalDigits_lt (hds ▸ he)
  have hvalue := decimalValue_decimalDigits values.length
  rw [hds] at hvalue
  rw [encodeTail, decimal, hds, List.map_cons, List.append_assoc, List.cons_append] at h
  have hd : d = 5 := by
    by_contra hne
    have h5 : digit d ≠ ascii '5' := fun heq =>
      hne (digit_inj (hlt d (by simp)) (by decide : 5 < 10) heq)
    refine not_done_of_fail ?_ h
    simp only [replyStep, hp, if_neg h5]
  subst hd
  -- A second digit is refused, as the line has to end.
  cases ds with
  | nil => exact ⟨hvalue.symm, (replyLoop_start hp _).symm.trans h⟩
  | cons e es =>
    have he := hlt e (by simp)
    have h1 : replyStep p (digit 5) = .next { p with state := .crlf1 } := by
      simp only [replyStep, hp]
      rfl
    rw [replyLoop_cons_next h1, List.map_cons, List.cons_append] at h
    refine absurd h (not_done_of_fail ?_)
    simp only [replyStep, readCRLF, if_neg (digit_ne he (c := CR) (by decide)),
      if_neg (digit_ne he (c := LF) (by decide))]

/-- The five integers as a script returns them. -/
def Reply.elements (r : Reply) : List Resp :=
  [int r.status, int r.limit, int r.remaining, int r.retryAfter, int r.reset]

/-- The five integers that the parser holds. -/
def Parse.reply (p : Parse) : Reply :=
  ⟨if p.status = 200 then 0 else 1, p.limit, p.remaining, p.retryAfter, p.reset⟩

/-- The replies that the parser reads: a status, and numbers that fit. -/
structure Reply.Readable (r : Reply) : Prop where
  status : r.status = 0 ∨ r.status = 1
  limit : 0 ≤ r.limit ∧ r.limit ≤ maxIntT
  remaining : 0 ≤ r.remaining ∧ r.remaining ≤ maxIntT
  retryAfter : -1 ≤ r.retryAfter ∧ r.retryAfter ≤ maxIntT
  reset : 0 ≤ r.reset ∧ r.reset ≤ maxIntT

/-- Whether a reply is readable can be decided. -/
instance (r : Reply) : Decidable r.Readable :=
  decidable_of_iff ((r.status = 0 ∨ r.status = 1) ∧ (0 ≤ r.limit ∧ r.limit ≤ maxIntT) ∧
      (0 ≤ r.remaining ∧ r.remaining ≤ maxIntT) ∧
      (-1 ≤ r.retryAfter ∧ r.retryAfter ≤ maxIntT) ∧ (0 ≤ r.reset ∧ r.reset ≤ maxIntT))
    ⟨fun ⟨h1, h2, h3, h4, h5⟩ => ⟨h1, h2, h3, h4, h5⟩,
      fun h => ⟨h.status, h.limit, h.remaining, h.retryAfter, h.reset⟩⟩

/-- The status byte is found again in the status that it gives. -/
theorem reply_statusOf (s : ℤ) (h : s = 0 ∨ s = 1) : (if statusOf s = 200 then 0 else 1) = s := by
  rcases h with rfl | rfl <;> rfl

/-- The bytes of a reply. -/
theorem encodeTail_elements (s l m a t : ℤ) : encodeTail (Reply.elements ⟨s, l, m, a, t⟩) =
    ascii '5' :: CR :: LF :: (encode (int s) ++ (encode (int l) ++ (encode (int m) ++
      (encode (int a) ++ encode (int t))))) := by
  have hfive : decimal 5 = [ascii '5'] := by decide
  rw [encodeTail, show (Reply.elements ⟨s, l, m, a, t⟩).length = 5 from rfl, hfive]
  simp only [Reply.elements, encodeAll, List.append_nil]
  rfl

/-- A readable reply is accepted, with its five integers. -/
theorem replyLoop_reply (hp : p.Fresh) {r : Reply} (hr : r.Readable) :
    ∃ q, replyLoop p (encodeTail r.elements) = .done q [] ∧ q.reply = r ∧
      q.status = statusOf r.status := by
  obtain ⟨status, limit, remaining, retryAfter, reset⟩ := r
  obtain ⟨hstatus, ⟨hl0, hl⟩, ⟨hm0, hm⟩, hra, ⟨ht0, ht⟩⟩ := hr
  dsimp only at hstatus hl0 hl hm0 hm hra ht0 ht
  obtain ⟨s, rfl⟩ : ∃ s : ℕ, status = s := ⟨status.toNat, by omega⟩
  obtain ⟨l, rfl⟩ := Int.eq_ofNat_of_zero_le hl0
  obtain ⟨m, rfl⟩ := Int.eq_ofNat_of_zero_le hm0
  obtain ⟨t, rfl⟩ := Int.eq_ofNat_of_zero_le ht0
  -- The parser's state after each of the lines.
  set p1 : Parse := { p with state := .arg1 } with hp1
  set p2 : Parse := { p1 with status := statusOf s, state := .arg2 } with hp2
  set p3 : Parse := { p2 with limit := l, state := .arg3 } with hp3
  set p4 : Parse := { p3 with remaining := m, state := .arg4 } with hp4
  set p5 : Parse := { p4 with retryAfter := retryAfter, state := .arg5 } with hp5
  set q : Parse := { p5 with reset := t, state := .almostDone } with hq
  refine ⟨q, ?_, ?_, rfl⟩
  · -- What one line does to it.
    have h1 : ∀ w, replyLoop p (ascii '5' :: CR :: LF :: w) = replyLoop p1 w :=
      replyLoop_start hp.state
    have h2 : ∀ w, replyLoop p1 (encode (int s) ++ w) = replyLoop p2 w :=
      replyLoop_arg1 rfl (by omega)
    have h3 : ∀ w, replyLoop p2 (encode (int l) ++ w) = replyLoop p3 w := by
      intro w
      have hloop := Variable.limit.loop_nat (p := p2) rfl hp.limit l w
      rw [if_pos (by omega)] at hloop
      exact hloop.trans (replyLoop_lf1 rfl w)
    have h4 : ∀ w, replyLoop p3 (encode (int m) ++ w) = replyLoop p4 w := by
      intro w
      have hloop := Variable.remaining.loop_nat (p := p3) rfl hp.remaining m w
      rw [if_pos (by omega)] at hloop
      exact hloop.trans (replyLoop_lf2 rfl w)
    have h5 : ∀ w, replyLoop p4 (encode (int retryAfter) ++ w) = replyLoop p5 w := by
      intro w
      rcases lt_or_ge retryAfter 0 with hneg | hnonneg
      · have hminus : retryAfter = -1 := by omega
        have hloop := replyLoop_arg4_allowed (p := p4) rfl hp.retryAfter w
        have hkeep : p5 = { p4 with state := .arg5 } := by
          rw [hp5, hminus, ← show p4.retryAfter = -1 from hp.retryAfter]
        rw [hminus, hkeep]
        exact hloop
      · obtain ⟨n, hn⟩ := Int.eq_ofNat_of_zero_le hnonneg
        have hloop := replyLoop_arg4_nat (p := p4) rfl hp.retryAfter n w
        rw [if_pos (by omega)] at hloop
        rw [hp5, hn]
        exact hloop
    have h6 : replyLoop p5 (encode (int t)) = .done q [] := by
      have hloop := Variable.reset.loop_nat (p := p5) rfl hp.reset t []
      rw [if_pos (by omega), List.append_nil] at hloop
      exact hloop.trans (replyLoop_almostDone rfl [])
    calc replyLoop p (encodeTail (Reply.elements ⟨s, l, m, retryAfter, t⟩))
        = replyLoop p (ascii '5' :: CR :: LF :: (encode (int s) ++ (encode (int l) ++
            (encode (int m) ++ (encode (int retryAfter) ++ encode (int t)))))) := by
          rw [encodeTail_elements]
      _ = .done q [] := by rw [h1, h2, h3, h4, h5, h6]
  · simp only [Parse.reply, Reply.mk.injEq]
    exact ⟨reply_statusOf s hstatus, rfl, rfl, rfl, rfl⟩

/-- Of all arrays of well-formed values, the parser accepts those of five integers that it holds at
the end, and those with a fourth element that it takes for -1; and it accepts all of their bytes. -/
theorem reply_of_done (hp : p.Fresh) {values : List Resp} (hv : AllWellFormed values)
    (h : replyLoop p (encodeTail values) = .done q tail) :
    tail = [] ∧ (q.status = 200 ∨ q.status = 429) ∧ -1 ≤ q.retryAfter ∧
      (values = q.reply.elements ∨
        ∃ v, Repunit v ∧ q.retryAfter = -1 ∧
          values = [int q.reply.status, int q.limit, int q.remaining, v, int q.reset]) := by
  obtain ⟨hlen, h⟩ := start_of_done hp.state h
  obtain ⟨v1, v2, v3, v4, v5, rfl⟩ : ∃ a b c d e, values = [a, b, c, d, e] :=
    match values, hlen with
    | [a, b, c, d, e], _ => ⟨a, b, c, d, e, rfl⟩
  simp only [AllWellFormed] at hv
  simp only [encodeAll, List.append_nil] at h
  -- Each variable ends where its own element ends, so the elements are read off in order.
  obtain ⟨s, hs, rfl, h1⟩ := arg1_of_done rfl h
  obtain ⟨l, rfl, -, h2⟩ := Variable.limit.of_done rfl (by exact hp.limit) h1
  rw [replyLoop_lf1 rfl] at h2
  obtain ⟨m, rfl, -, h3⟩ := Variable.remaining.of_done rfl (by exact hp.remaining) h2
  rw [replyLoop_lf2 rfl] at h3
  obtain ⟨r, hr, hmin, -, h4⟩ := arg4_of_done rfl (by exact hp.retryAfter) hv.2.2.2.1 h3
  rw [← List.append_nil (encode v5)] at h4
  obtain ⟨t, rfl, -, h5⟩ := Variable.reset.of_done rfl (by exact hp.reset) h4
  rw [replyLoop_almostDone rfl, Parsed.done.injEq] at h5
  obtain ⟨rfl, rfl⟩ := h5
  have hstatus : (if statusOf s = 200 then (0 : ℤ) else 1) = s := reply_statusOf s (by omega)
  refine ⟨rfl, ?_, hmin, ?_⟩
  · rcases hs with rfl | rfl
    · exact .inl rfl
    · exact .inr rfl
  · rcases hr with rfl | ⟨hrep, rfl⟩
    · left
      calc [int s, int l, int m, int r, int t]
          = Reply.elements ⟨if statusOf s = 200 then 0 else 1, l, m, r, t⟩ := by rw [hstatus]; rfl
        _ = _ := rfl
    · right
      refine ⟨v4, hrep, rfl, ?_⟩
      calc [int s, int l, int m, v4, int t]
          = [int (if statusOf s = 200 then 0 else 1), int l, int m, v4, int t] := by rw [hstatus]
        _ = _ := rfl

/-- The parser holds the five integers of the reply at its end, unless it has taken the fourth
element for -1. -/
theorem reply_iff_not_misread (hp : p.Fresh) {values : List Resp}
    (hv : AllWellFormed values) (h : replyLoop p (encodeTail values) = .done q tail) :
    Resp.array values = .array q.reply.elements ↔ ¬ Misread (.array values) := by
  obtain ⟨-, -, hmin, rfl | ⟨v, hrep, hretry, rfl⟩⟩ := reply_of_done hp hv h
  · refine ⟨fun _ => ?_, fun _ => rfl⟩
    rintro ⟨e₁, e₂, e₃, e₄, e₅, heq, hrep⟩
    obtain rfl : int q.retryAfter = e₄ := by
      simp only [Reply.elements, Resp.array.injEq, List.cons.injEq] at heq
      exact heq.2.2.2.1
    -- An exact fourth element is no misread one: a negative one is -1 itself.
    cases hr : q.retryAfter with
    | ofNat n =>
      rw [hr] at hrep
      exact hrep
    | negSucc n =>
      rw [hr] at hrep hmin
      exact hrep.1 (by omega)
  · refine ⟨fun heq => ?_, fun hnot => absurd ⟨_, _, _, v, _, rfl, hrep⟩ hnot⟩
    obtain rfl : v = int q.retryAfter := by
      simp only [Reply.elements, Resp.array.injEq, List.cons.injEq] at heq
      exact heq.2.2.2.1
    rw [hretry] at hrep
    exact absurd rfl hrep.1

end NginxRatelimit
