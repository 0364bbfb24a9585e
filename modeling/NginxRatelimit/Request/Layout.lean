import NginxRatelimit.Request.Decode

/-!
# What the reply parser takes for a reply

The parser is meant to accept replies of the form `*5\r\n:S\r\n:A\r\n:B\r\n:R\r\n:C\r\n`, the
`Grammar`, and nothing else. It accepts all of them, and some more: it skips any number of CRs at
the ends of the first two lines and any number of ':' in the elements, it reads a number without
digits, and it takes a '-' in the fourth element for -1 whatever ones follow. A `Layout` is a reply
as loosely written as that, and the parser reads to its end just what begins with one
(`done_iff_layout`). The grammar's replies are the `Exact` layouts, and no reply has two
(`Layout.unique`).
-/

namespace NginxRatelimit

open Library

/-! ## Numbers -/

/-- The value of a number, its colons left out, that is read after digits of value `v`. -/
def valueFrom (v : ℕ) (w : Bytes) : ℕ :=
  decimalValue v ((w.filter (· ≠ ascii ':')).map fun ch => ch.toNat - 48)

/-- What the line of `retry_after` leaves in place of `r`: -1 when something follows a '-', otherwise
the value of its digits, and `r` itself when it has none. -/
def retryFrom (r : ℤ) (w : Bytes) : ℤ :=
  let number := w.takeWhile (· ≠ ascii '-')
  if number.length + 1 < w.length then -1
  else if number.all (· = ascii ':') then r
  else valueFrom r.toNat number

/-- A decimal number that fits `ngx_int_t`. -/
def Number (w : Bytes) : Prop :=
  w ≠ [] ∧ (∀ ch ∈ w, ¬ NotDigit ch) ∧ valueFrom 0 w ≤ maxIntT

/-- Digits of such a number with colons anywhere, or none, after digits of value `v`. -/
def LooseFrom (v : ℕ) (w : Bytes) : Prop :=
  (∀ ch ∈ w, ch = ascii ':' ∨ ¬ NotDigit ch) ∧ valueFrom v w ≤ maxIntT

/-- The same, or a '-' and ones after it. -/
def LooseRetryFrom (v : ℕ) (w : Bytes) : Prop :=
  ∃ pre, LooseFrom v pre ∧ (w = pre ∨ ∃ n, w = pre ++ ascii '-' :: List.replicate n (ascii '1'))

/-- Whether bytes are a number can be decided. -/
instance (w : Bytes) : Decidable (Number w) := inferInstanceAs (Decidable (_ ∧ _ ∧ _))

/-- The same of a loosely written one. -/
instance (v : ℕ) (w : Bytes) : Decidable (LooseFrom v w) := inferInstanceAs (Decidable (_ ∧ _))

/-- The bytes begin with a reply of the contract. -/
def Grammar (s : Bytes) : Prop :=
  ∃ S A B R C rest, (S = text "0" ∨ S = text "1") ∧ Number A ∧ Number B ∧
    (Number R ∨ R = text "-1") ∧ Number C ∧
    s = text "*5\r\n:" ++ S ++ text "\r\n:" ++ A ++ text "\r\n:" ++ B ++ text "\r\n:" ++ R ++
      text "\r\n:" ++ C ++ text "\r\n" ++ rest

/-- A colon does not count. -/
theorem valueFrom_colon (v : ℕ) (w : Bytes) : valueFrom v (ascii ':' :: w) = valueFrom v w := by
  simp [valueFrom]

/-- A digit comes behind the value that was read. -/
theorem valueFrom_digit (v : ℕ) {d : ℕ} (hd : d < 10) (w : Bytes) :
    valueFrom v (digit d :: w) = valueFrom (v * 10 + d) w := by
  have hne : digit d ≠ ascii ':' := digit_ne hd (by decide)
  simp [valueFrom, hne, digit_toNat hd]

/-- Colons alone leave the value as it is. -/
theorem valueFrom_of_colons {v : ℕ} {w : Bytes} (h : ∀ ch ∈ w, ch = ascii ':') :
    valueFrom v w = v := by
  have hnone : w.filter (· ≠ ascii ':') = [] := by
    rw [List.filter_eq_nil_iff]
    intro ch hch
    simp [h ch hch]
  rw [valueFrom, hnone]
  rfl

/-- An empty line leaves `retry_after` as it is. -/
theorem retryFrom_nil (r : ℤ) : retryFrom r [] = r := by
  simp [retryFrom]

/-- Behind a '-' it is -1, whatever the line goes on with. -/
theorem retryFrom_minus (r : ℤ) (w : Bytes) :
    retryFrom r (ascii '-' :: w) = if w = [] then r else -1 := by
  cases w <;> simp [retryFrom]

/-- A colon does not count here either. -/
theorem retryFrom_colon (r : ℤ) (w : Bytes) :
    retryFrom r (ascii ':' :: w) = retryFrom r w := by
  have hne : ascii ':' ≠ ascii '-' := by decide
  simp [retryFrom, hne, valueFrom_colon]

/-- The first digit replaces the -1 that `retry_after` begins with, and the next ones come behind
it. -/
theorem retryFrom_digit (r : ℤ) {d : ℕ} (hd : d < 10) (w : Bytes) :
    retryFrom r (digit d :: w) = retryFrom ((r.toNat * 10 + d : ℕ) : ℤ) w := by
  have hminus : digit d ≠ ascii '-' := digit_ne hd (by decide)
  have hcolon : digit d ≠ ascii ':' := digit_ne hd (by decide)
  simp only [retryFrom]
  rw [List.takeWhile_cons_of_pos (by simpa using hminus)]
  simp only [List.length_cons, Nat.add_lt_add_iff_right, List.all_cons, hcolon, decide_false,
    Bool.false_and, Bool.false_eq_true, if_false, Int.toNat_natCast]
  -- Without more digits the value is what the digits so far give.
  split_ifs with _ hcolons
  · rfl
  · rw [valueFrom_digit _ hd, valueFrom_of_colons (by simpa using hcolons)]
  · rw [valueFrom_digit _ hd]

/-- More digits make no smaller value. -/
theorem le_valueFrom (v : ℕ) (w : Bytes) : v ≤ valueFrom v w := le_decimalValue v _

/-- Where a loose number ends, what was read has to fit. -/
theorem looseFrom_nil {v : ℕ} : LooseFrom v [] ↔ v ≤ maxIntT := by
  simp [LooseFrom, valueFrom]

/-- A colon may be anywhere in it. -/
theorem looseFrom_colon {v : ℕ} {w : Bytes} : LooseFrom v (ascii ':' :: w) ↔ LooseFrom v w := by
  simp [LooseFrom, valueFrom_colon]

/-- A digit counts. -/
theorem looseFrom_digit {v d : ℕ} (hd : d < 10) {w : Bytes} :
    LooseFrom v (digit d :: w) ↔ LooseFrom (v * 10 + d) w := by
  simp [LooseFrom, valueFrom_digit v hd, not_notDigit_digit hd]

/-- Nothing else is in it. -/
theorem not_looseFrom_cons {v : ℕ} {ch : UInt8} (hcolon : ch ≠ ascii ':') (hdigit : NotDigit ch)
    (w : Bytes) : ¬ LooseFrom v (ch :: w) := by
  intro h
  rcases h.1 ch (by simp) with h | h
  · exact hcolon h
  · exact h hdigit

/-- All that was read before fits, too. -/
theorem LooseFrom.le {v : ℕ} {w : Bytes} (h : LooseFrom v w) : v ≤ maxIntT :=
  (le_valueFrom v w).trans h.2

/-- A loose number has no CR, so its line ends behind it. -/
theorem LooseFrom.CR_notMem {v : ℕ} {w : Bytes} (h : LooseFrom v w) : CR ∉ w := by
  intro hCR
  rcases h.1 CR hCR with h | h
  · exact absurd h (by decide)
  · exact h (by decide)

/-- A loose number begins with a ':', a digit, or not at all. -/
theorem looseRetryFrom_cons {v : ℕ} {ch : UInt8} (hminus : ch ≠ ascii '-') {w : Bytes} :
    LooseRetryFrom v (ch :: w) ↔ ∃ pre, LooseFrom v (ch :: pre) ∧
      (w = pre ∨ ∃ n, w = pre ++ ascii '-' :: List.replicate n (ascii '1')) := by
  constructor
  · rintro ⟨pre, hpre, rfl | ⟨n, hn⟩⟩
    · exact ⟨w, hpre, .inl rfl⟩
    · cases pre with
      | nil => exact absurd (List.cons.inj hn).1 hminus
      | cons c pre =>
        obtain ⟨rfl, rfl⟩ := List.cons.inj hn
        exact ⟨pre, hpre, .inr ⟨n, rfl⟩⟩
  · rintro ⟨pre, hpre, rfl | ⟨n, rfl⟩⟩
    · exact ⟨ch :: w, hpre, .inl rfl⟩
    · exact ⟨ch :: pre, hpre, .inr ⟨n, rfl⟩⟩

/-- A '-' is followed by ones only, by any number of them. -/
theorem looseRetryFrom_minus {v : ℕ} (hv : v ≤ maxIntT) {w : Bytes} :
    LooseRetryFrom v (ascii '-' :: w) ↔ ∃ n, w = List.replicate n (ascii '1') := by
  constructor
  · rintro ⟨pre, hpre, rfl | ⟨n, hn⟩⟩
    · exact absurd hpre (not_looseFrom_cons (by decide) (by decide) w)
    · cases pre with
      | nil => exact ⟨n, (List.cons.inj hn).2⟩
      | cons c pre =>
        obtain ⟨rfl, -⟩ := List.cons.inj hn
        exact absurd hpre (not_looseFrom_cons (by decide) (by decide) pre)
  · rintro ⟨n, rfl⟩
    exact ⟨[], looseFrom_nil.mpr hv, .inr ⟨n, rfl⟩⟩

/-- Nor has the loose value of `retry_after` a CR. -/
theorem LooseRetryFrom.CR_notMem {v : ℕ} {w : Bytes} (h : LooseRetryFrom v w) : CR ∉ w := by
  obtain ⟨pre, hpre, rfl | ⟨n, rfl⟩⟩ := h
  · exact hpre.CR_notMem
  · have hminus : CR ≠ ascii '-' := by decide
    have hone : CR ≠ ascii '1' := by decide
    simp [hpre.CR_notMem, hminus, hone]

/-! ## Lines -/

variable {p q : Parse} {rest tail : Bytes}

/-- The line of an unsigned variable is read when it is loose, and refused otherwise. -/
theorem Variable.loop_line (V : Variable) (hp : p.state = V.reading) (hmax : V.get p ≤ maxIntT)
    {w : Bytes} (hCR : CR ∉ w) (rest : Bytes) :
    (LooseFrom (V.get p) w ∧ replyLoop p (w ++ CR :: rest) =
        replyLoop { V.set p (valueFrom (V.get p) w) with state := V.ended } rest) ∨
      (¬ LooseFrom (V.get p) w ∧ ∃ q, replyLoop p (w ++ CR :: rest) = .error q) := by
  induction w generalizing p with
  | nil =>
    refine .inl ⟨looseFrom_nil.mpr hmax, ?_⟩
    rw [show valueFrom (V.get p) [] = V.get p from rfl, V.set_get]
    exact replyLoop_cons_next (V.step_CR hp) rest
  | cons ch w ih =>
    rw [List.mem_cons, not_or] at hCR
    rw [List.cons_append]
    -- A colon is skipped, a digit accumulated, and anything else refused.
    by_cases hcolon : ch = ascii ':'
    · rw [hcolon, looseFrom_colon, valueFrom_colon, replyLoop_cons_next (V.step_colon hp)]
      exact ih hp hmax hCR.2
    by_cases hdigit : NotDigit ch
    · exact .inr ⟨not_looseFrom_cons hcolon hdigit w, p,
        replyLoop_cons_fail (V.step_other hp hcolon (Ne.symm hCR.1) hdigit) _⟩
    obtain ⟨d, hd, rfl⟩ := exists_eq_digit hdigit
    have hstep := V.digitReader.step_digit p d hp hd
    rw [show V.digitReader.get p = V.get p from rfl] at hstep
    rw [looseFrom_digit hd, valueFrom_digit _ hd]
    split_ifs at hstep with hle
    · rw [replyLoop_cons_next hstep]
      have hrest := ih (p := V.set p (V.get p * 10 + d)) ((V.state_set p _).trans hp)
        (by rw [V.get_set]; exact hle) hCR.2
      simp only [V.get_set, V.set_set] at hrest
      exact hrest
    · exact .inr ⟨fun h => hle h.le, p, replyLoop_cons_fail hstep _⟩

/-- After the '-' a line of ones is read. -/
theorem loop_allowed_line (hp : p.state = .allowed) {w : Bytes} (hCR : CR ∉ w) (rest : Bytes) :
    ((∃ n, w = List.replicate n (ascii '1')) ∧ replyLoop p (w ++ CR :: rest) =
        replyLoop { p with
          retryAfter := if w = [] then p.retryAfter else -1
          state := .lf3 } rest) ∨
      ((¬ ∃ n, w = List.replicate n (ascii '1')) ∧
        ∃ q, replyLoop p (w ++ CR :: rest) = .error q) := by
  induction w generalizing p with
  | nil =>
    refine .inl ⟨⟨0, rfl⟩, ?_⟩
    exact replyLoop_cons_next (by simp only [replyStep, hp]; rfl) rest
  | cons ch w ih =>
    rw [List.mem_cons, not_or] at hCR
    rw [List.cons_append]
    -- Any number of ones is read, and nothing else.
    by_cases hone : ch = ascii '1'
    · have hstep : replyStep p ch = .next { p with retryAfter := -1 } := by
        simp only [replyStep, hp, if_pos hone]
      rw [replyLoop_cons_next hstep]
      rcases ih (p := { p with retryAfter := -1 }) hp hCR.2 with ⟨⟨n, hn⟩, h⟩ | ⟨hnot, h⟩
      · refine .inl ⟨⟨n + 1, by rw [hn, hone, List.replicate_succ]⟩, ?_⟩
        rw [ite_self] at h
        exact h
      · refine .inr ⟨?_, h⟩
        rintro ⟨n, hn⟩
        cases n with
        | zero => cases hn
        | succ n => exact hnot ⟨n, (List.cons.inj hn).2⟩
    · have hstep : replyStep p ch = .fail := by
        simp only [replyStep, hp, if_neg hone, if_neg (Ne.symm hCR.1)]
      refine .inr ⟨?_, p, replyLoop_cons_fail hstep _⟩
      rintro ⟨n, hn⟩
      cases n with
      | zero => cases hn
      | succ n => exact hone (List.cons.inj hn).1

/-- The line of `retry_after`. -/
theorem loop_retry_line (hp : p.state = .arg4) (hmax : p.retryAfter.toNat ≤ maxIntT) {w : Bytes}
    (hCR : CR ∉ w) (rest : Bytes) :
    (LooseRetryFrom p.retryAfter.toNat w ∧ replyLoop p (w ++ CR :: rest) =
        replyLoop { p with retryAfter := retryFrom p.retryAfter w, state := .lf3 } rest) ∨
      (¬ LooseRetryFrom p.retryAfter.toNat w ∧ ∃ q, replyLoop p (w ++ CR :: rest) = .error q) := by
  induction w generalizing p with
  | nil =>
    refine .inl ⟨⟨[], looseFrom_nil.mpr hmax, .inl rfl⟩, ?_⟩
    rw [retryFrom_nil]
    exact replyLoop_cons_next (replyStep_arg4_CR hp) rest
  | cons ch w ih =>
    rw [List.mem_cons, not_or] at hCR
    rw [List.cons_append]
    by_cases hminus : ch = ascii '-'
    · rw [hminus, looseRetryFrom_minus hmax, retryFrom_minus,
        replyLoop_cons_next (replyStep_arg4_minus hp)]
      exact loop_allowed_line (p := { p with state := .allowed }) rfl hCR.2 rest
    -- Up to a '-' the line is like that of an unsigned variable.
    rw [looseRetryFrom_cons hminus]
    by_cases hcolon : ch = ascii ':'
    · rw [hcolon, retryFrom_colon, replyLoop_cons_next (replyStep_arg4_colon hp)]
      simp only [looseFrom_colon]
      exact ih hp hmax hCR.2
    by_cases hdigit : NotDigit ch
    · refine .inr ⟨?_, p, replyLoop_cons_fail ?_ _⟩
      · rintro ⟨pre, hpre, -⟩
        exact not_looseFrom_cons hcolon hdigit pre hpre
      · simp only [replyStep, hp, if_neg hcolon, if_neg hminus, if_neg (Ne.symm hCR.1), if_pos hdigit]
    obtain ⟨d, hd, rfl⟩ := exists_eq_digit hdigit
    have hstep := replyStep_arg4_digit hp hd
    -- The -1 of a new `ctx` counts as 0.
    have hclear : (if p.retryAfter < 0 then 0 else p.retryAfter).toNat = p.retryAfter.toNat := by
      split_ifs with hneg
      · exact (Int.toNat_of_nonpos hneg.le).symm
      · rfl
    simp only [hclear] at hstep
    simp only [looseFrom_digit hd, retryFrom_digit _ hd]
    split_ifs at hstep with hle
    · rw [replyLoop_cons_next hstep]
      exact ih (p := { p with retryAfter := ((p.retryAfter.toNat * 10 + d : ℕ) : ℤ) }) hp hle hCR.2
    · refine .inr ⟨?_, p, replyLoop_cons_fail hstep _⟩
      rintro ⟨pre, hpre, -⟩
      exact hle hpre.le

/-- The line of a variable that is 0 as it is in a new `ctx`. -/
theorem Variable.line (V : Variable) (hp : p.state = V.reading) (h0 : V.get p = 0) {w : Bytes}
    (hCR : CR ∉ w) (rest : Bytes) :
    (LooseFrom 0 w ∧ replyLoop p (w ++ CR :: rest) =
        replyLoop { V.set p (valueFrom 0 w) with state := V.ended } rest) ∨
      (¬ LooseFrom 0 w ∧ ∃ q, replyLoop p (w ++ CR :: rest) = .error q) := by
  have hline := V.loop_line hp (by rw [h0]; decide) hCR rest
  rw [h0] at hline
  exact hline

/-- The line of `retry_after` is taken if and only if it is written loosely, and refused otherwise.
-/
theorem retry_line (hp : p.state = .arg4) (h1 : p.retryAfter = -1) {w : Bytes} (hCR : CR ∉ w)
    (rest : Bytes) :
    (LooseRetryFrom 0 w ∧ replyLoop p (w ++ CR :: rest) =
        replyLoop { p with retryAfter := retryFrom (-1) w, state := .lf3 } rest) ∨
      (¬ LooseRetryFrom 0 w ∧ ∃ q, replyLoop p (w ++ CR :: rest) = .error q) := by
  have h0 : p.retryAfter.toNat = 0 := by
    rw [h1]
    rfl
  have hline := loop_retry_line hp (by rw [h0]; decide) hCR rest
  rw [h0, h1] at hline
  exact hline

/-- A loose line is read. -/
theorem Variable.loop_loose (V : Variable) (hp : p.state = V.reading) (h0 : V.get p = 0) {w : Bytes}
    (hw : LooseFrom 0 w) (rest : Bytes) :
    replyLoop p (w ++ CR :: rest) =
      replyLoop { V.set p (valueFrom 0 w) with state := V.ended } rest :=
  (V.line hp h0 hw.CR_notMem rest).elim And.right fun h => absurd hw h.1

/-- What is taken of a line that is written so. -/
theorem loop_retry_loose (hp : p.state = .arg4) (h1 : p.retryAfter = -1) {w : Bytes}
    (hw : LooseRetryFrom 0 w) (rest : Bytes) :
    replyLoop p (w ++ CR :: rest) =
      replyLoop { p with retryAfter := retryFrom (-1) w, state := .lf3 } rest :=
  (retry_line hp h1 hw.CR_notMem rest).elim And.right fun h => absurd hw h.1

/-- What is read to its end has a CR where the line ends. -/
theorem exists_line_of_done {P : Bytes → Prop} {I : Parse → Prop}
    (hline : ∀ text : Bytes, CR ∉ text → ∀ rest,
      (P text ∧ ∃ p', I p' ∧ replyLoop p (text ++ CR :: rest) = replyLoop p' rest) ∨
        ∃ q, replyLoop p (text ++ CR :: rest) = .error q)
    {w : Bytes} (h : replyLoop p w = .done q tail) :
    ∃ text rest p', w = text ++ CR :: rest ∧ P text ∧ I p' ∧ replyLoop p' rest = .done q tail := by
  by_cases hCR : CR ∈ w
  · obtain ⟨text, rest, rfl, hnot⟩ := List.eq_append_cons_of_mem hCR
    rcases hline text hnot rest with ⟨htext, p', hp', heq⟩ | ⟨q', herror⟩
    · exact ⟨text, rest, p', rfl, htext, hp', heq.symm.trans h⟩
    · exact absurd (herror.symm.trans h) Parsed.noConfusion
  · -- Without a CR the line goes on, and with one more it is not yet read to its end.
    have hmore : replyLoop p (w ++ CR :: []) = .done q (tail ++ [CR]) := by
      rw [replyLoop_append, h]
    rcases hline w hCR [] with ⟨-, p', -, heq⟩ | ⟨q', herror⟩
    · rw [heq] at hmore
      cases hmore
    · exact absurd (herror.symm.trans hmore) Parsed.noConfusion

/-- The line of an unsigned variable in a reply that is read to its end. -/
theorem Variable.exists_line (V : Variable) {w : Bytes} (h : replyLoop p w = .done q tail)
    (hp : p.state = V.reading) (h0 : V.get p = 0) :
    ∃ text rest v, w = text ++ CR :: rest ∧ LooseFrom 0 text ∧
      replyLoop { V.set p v with state := V.ended } rest = .done q tail := by
  have hline : ∀ text : Bytes, CR ∉ text → ∀ rest,
      (LooseFrom 0 text ∧ ∃ p' : Parse, (∃ v, p' = { V.set p v with state := V.ended }) ∧
        replyLoop p (text ++ CR :: rest) = replyLoop p' rest) ∨
        ∃ q, replyLoop p (text ++ CR :: rest) = .error q := by
    intro text hCR rest
    rcases V.line hp h0 hCR rest with ⟨hloose, heq⟩ | ⟨-, herror⟩
    · exact .inl ⟨hloose, _, ⟨_, rfl⟩, heq⟩
    · exact .inr herror
  obtain ⟨text, rest, p', hw, htext, ⟨v, rfl⟩, hrest⟩ := exists_line_of_done hline h
  exact ⟨text, rest, v, hw, htext, hrest⟩

/-- A reply that is taken has such a line. -/
theorem exists_retry_line {w : Bytes} (h : replyLoop p w = .done q tail) (hp : p.state = .arg4)
    (h1 : p.retryAfter = -1) :
    ∃ text rest r, w = text ++ CR :: rest ∧ LooseRetryFrom 0 text ∧
      replyLoop { p with retryAfter := r, state := .lf3 } rest = .done q tail := by
  have hline : ∀ text : Bytes, CR ∉ text → ∀ rest,
      (LooseRetryFrom 0 text ∧ ∃ p' : Parse,
        (∃ r, p' = { p with retryAfter := r, state := .lf3 }) ∧
        replyLoop p (text ++ CR :: rest) = replyLoop p' rest) ∨
        ∃ q, replyLoop p (text ++ CR :: rest) = .error q := by
    intro text hCR rest
    rcases retry_line hp h1 hCR rest with ⟨hloose, heq⟩ | ⟨-, herror⟩
    · exact .inl ⟨hloose, _, ⟨_, rfl⟩, heq⟩
    · exact .inr herror
  obtain ⟨text, rest, p', hw, htext, ⟨r, rfl⟩, hrest⟩ := exists_line_of_done hline h
  exact ⟨text, rest, r, hw, htext, hrest⟩

/-- A reply that is read to its end has the byte that a state asks for. -/
theorem exists_cons_of_done {ch : UInt8} {next : Parse} (hnext : replyStep p ch = .next next)
    (hfail : ∀ c, c ≠ ch → replyStep p c = .fail) {w : Bytes} (h : replyLoop p w = .done q tail) :
    ∃ rest, w = ch :: rest ∧ replyLoop next rest = .done q tail := by
  cases w with
  | nil => cases h
  | cons c w =>
    by_cases hc : c = ch
    · subst hc
      rw [replyLoop_cons_next hnext] at h
      exact ⟨w, rfl, h⟩
    · exact absurd h (not_done_of_fail (hfail c hc))

/-- The states that wait for LF. -/
theorem exists_LF_of_done {w : Bytes} (h : replyLoop p w = .done q tail) (after : Sw)
    (hstep : ∀ ch, replyStep p ch = readLF p ch after) :
    ∃ rest, w = LF :: rest ∧ replyLoop { p with state := after } rest = .done q tail :=
  exists_cons_of_done (by rw [hstep, readLF, if_pos rfl])
    (fun c hc => by rw [hstep, readLF, if_neg hc]) h

/-! ### The first two lines -/

/-- CRs are skipped up to LF. -/
theorem loop_CRLF (after : Sw) (hstep : ∀ ch, replyStep p ch = readCRLF p ch after)
    (n : ℕ) (rest : Bytes) :
    replyLoop p (List.replicate n CR ++ LF :: rest) = replyLoop { p with state := after } rest := by
  have hCR : replyStep p CR = .next p := by rw [hstep, readCRLF, if_pos rfl]
  have hLF : replyStep p LF = .next { p with state := after } := by
    rw [hstep, readCRLF, if_neg (by decide), if_pos rfl]
  induction n with
  | zero => exact replyLoop_cons_next hLF rest
  | succ n ih =>
    rw [List.replicate_succ, List.cons_append, replyLoop_cons_next hCR]
    exact ih

/-- A line end that is taken is an LF with CRs before it, or none. -/
theorem exists_CRLF_of_done {w : Bytes} (h : replyLoop p w = .done q tail) (after : Sw)
    (hstep : ∀ ch, replyStep p ch = readCRLF p ch after) :
    ∃ n rest, w = List.replicate n CR ++ LF :: rest ∧
      replyLoop { p with state := after } rest = .done q tail := by
  induction w with
  | nil => cases h
  | cons ch w ih =>
    by_cases hCR : ch = CR
    · have hnext : replyStep p ch = .next p := by rw [hstep, readCRLF, if_pos hCR]
      rw [replyLoop_cons_next hnext] at h
      obtain ⟨n, rest, rfl, hrest⟩ := ih h
      exact ⟨n + 1, rest, by rw [hCR, List.replicate_succ, List.cons_append], hrest⟩
    · by_cases hLF : ch = LF
      · have hnext : replyStep p ch = .next { p with state := after } := by
          rw [hstep, readCRLF, if_neg hCR, if_pos hLF]
        rw [replyLoop_cons_next hnext] at h
        exact ⟨0, w, by rw [hLF]; rfl, h⟩
      · refine absurd h (not_done_of_fail ?_)
        rw [hstep, readCRLF, if_neg hCR, if_neg hLF]

/-- The status byte of a reply. -/
def StatusByte (ch : UInt8) : Prop := ch = ascii '0' ∨ ch = ascii '1'

/-- Whether a byte is a status byte can be decided. -/
instance (ch : UInt8) : Decidable (StatusByte ch) := inferInstanceAs (Decidable (_ ∨ _))

/-- A status byte is no colon. -/
theorem StatusByte.ne_colon {ch : UInt8} (h : StatusByte ch) : ch ≠ ascii ':' := by
  rcases h with rfl | rfl <;> decide

/-- The status that is stored for a status byte. -/
def statusFor (ch : UInt8) : ℕ := if ch = ascii '1' then 429 else 200

/-- It is taken as the status. -/
theorem replyStep_status (hp : p.state = .arg1) {ch : UInt8} (h : StatusByte ch) :
    replyStep p ch = .next { p with status := statusFor ch, state := .crlf2 } := by
  rcases h with rfl | rfl
  · simp only [replyStep, hp]
    rfl
  · simp only [replyStep, hp]
    rfl

/-- Another byte in its place is refused, unless it is a colon. -/
theorem replyStep_not_status (hp : p.state = .arg1) {ch : UInt8} (hcolon : ch ≠ ascii ':')
    (h : ¬ StatusByte ch) : replyStep p ch = .fail := by
  rw [StatusByte, not_or] at h
  simp only [replyStep, hp, if_neg hcolon, if_neg h.1, if_neg h.2]

/-- Colons are skipped up to the status byte. -/
theorem loop_status (hp : p.state = .arg1) (n : ℕ) {ch : UInt8} (h : StatusByte ch) (rest : Bytes) :
    replyLoop p (List.replicate n (ascii ':') ++ ch :: rest) =
      replyLoop { p with status := statusFor ch, state := .crlf2 } rest := by
  have hcolon : replyStep p (ascii ':') = .next p := by simp only [replyStep, hp, if_pos]
  induction n with
  | zero => exact replyLoop_cons_next (replyStep_status hp h) rest
  | succ n ih =>
    rw [List.replicate_succ, List.cons_append, replyLoop_cons_next hcolon]
    exact ih

/-- A reply that is taken has a status byte behind colons. -/
theorem exists_status_of_done {w : Bytes} (h : replyLoop p w = .done q tail)
    (hp : p.state = .arg1) :
    ∃ n ch rest status, w = List.replicate n (ascii ':') ++ ch :: rest ∧ StatusByte ch ∧
      replyLoop { p with status := status, state := .crlf2 } rest = .done q tail := by
  induction w with
  | nil => cases h
  | cons ch w ih =>
    by_cases hcolon : ch = ascii ':'
    · have hnext : replyStep p ch = .next p := by simp only [replyStep, hp, if_pos hcolon]
      rw [replyLoop_cons_next hnext] at h
      obtain ⟨n, c, rest, status, rfl, hc, hrest⟩ := ih h
      exact ⟨n + 1, c, rest, status, by rw [hcolon, List.replicate_succ, List.cons_append], hc,
        hrest⟩
    · by_cases hstatus : StatusByte ch
      · rw [replyLoop_cons_next (replyStep_status hp hstatus)] at h
        exact ⟨0, ch, w, _, rfl, hstatus, h⟩
      · exact absurd h (not_done_of_fail (replyStep_not_status hp hcolon hstatus))

/-! ## Layouts -/

/-- A reply as loosely written as the parser takes it. -/
structure Layout where
  /-- CRs at the end of the first line. -/
  cr₁ : ℕ
  /-- Colons before the status. -/
  colons : ℕ
  /-- The status byte. -/
  status : UInt8
  /-- CRs at the end of the second line. -/
  cr₂ : ℕ
  /-- The other lines, up to their CRs. -/
  limit : Bytes
  remaining : Bytes
  retryAfter : Bytes
  reset : Bytes
  /-- The status is 0 or 1. -/
  statusByte : StatusByte status
  /-- The lines are loose. -/
  limit_loose : LooseFrom 0 limit
  remaining_loose : LooseFrom 0 remaining
  retryAfter_loose : LooseRetryFrom 0 retryAfter
  reset_loose : LooseFrom 0 reset

namespace Layout

/-- The bytes after the first one, and what follows them. -/
def bytesThen (l : Layout) (rest : Bytes) : Bytes :=
  ascii '5' :: (List.replicate l.cr₁ CR ++ LF :: (List.replicate l.colons (ascii ':') ++
    l.status :: (List.replicate l.cr₂ CR ++ LF :: (l.limit ++ CR :: LF :: (l.remaining ++ CR :: LF ::
      (l.retryAfter ++ CR :: LF :: (l.reset ++ CR :: LF :: rest)))))))

/-- The bytes of the reply. -/
def bytes (l : Layout) : Bytes := ascii '*' :: l.bytesThen []

/-- The bytes of a layout begin with the '*' that `process_header` takes. -/
theorem bytes_append (l : Layout) (rest : Bytes) : l.bytes ++ rest = ascii '*' :: l.bytesThen rest := by
  simp [bytes, bytesThen]

/-- The variables of the parser at its end. -/
def parse (l : Layout) : Parse where
  state := .almostDone
  status := statusFor l.status
  limit := valueFrom 0 l.limit
  remaining := valueFrom 0 l.remaining
  retryAfter := retryFrom (-1) l.retryAfter
  reset := valueFrom 0 l.reset

end Layout

/-- A layout leads the parser to its end, with the value of each line. -/
theorem replyLoop_layout (hp : p.Fresh) (l : Layout) (rest : Bytes) :
    replyLoop p (l.bytesThen rest) = .done l.parse rest := by
  have hfive : replyStep p (ascii '5') = .next { p with state := .crlf1 } := by
    simp only [replyStep, hp.state, if_pos]
  set p₁ : Parse := { p with state := .arg1 } with hp₁
  have h₁ := fun w => loop_CRLF (p := { p with state := .crlf1 }) .arg1 (fun _ => rfl) l.cr₁ w
  have h₂ := loop_status (p := p₁) rfl l.colons l.statusByte (List.replicate l.cr₂ CR ++
    LF :: (l.limit ++ CR :: LF :: (l.remaining ++ CR :: LF :: (l.retryAfter ++ CR :: LF ::
      (l.reset ++ CR :: LF :: rest)))))
  set p₂ : Parse := { p₁ with status := statusFor l.status, state := .arg2 } with hp₂
  have h₃ := fun w => loop_CRLF (p := { p₁ with status := statusFor l.status, state := .crlf2 })
    .arg2 (fun _ => rfl) l.cr₂ w
  have h₄ := Variable.limit.loop_loose (p := p₂) rfl hp.limit l.limit_loose (LF ::
    (l.remaining ++ CR :: LF :: (l.retryAfter ++ CR :: LF :: (l.reset ++ CR :: LF :: rest))))
  set p₃ : Parse := { p₂ with limit := valueFrom 0 l.limit, state := .arg3 } with hp₃
  have h₅ := Variable.remaining.loop_loose (p := p₃) rfl hp.remaining l.remaining_loose
    (LF :: (l.retryAfter ++ CR :: LF :: (l.reset ++ CR :: LF :: rest)))
  set p₄ : Parse := { p₃ with remaining := valueFrom 0 l.remaining, state := .arg4 } with hp₄
  have h₆ := loop_retry_loose (p := p₄) rfl hp.retryAfter l.retryAfter_loose
    (LF :: (l.reset ++ CR :: LF :: rest))
  set p₅ : Parse := { p₄ with retryAfter := retryFrom (-1) l.retryAfter, state := .arg5 } with hp₅
  have h₇ := Variable.reset.loop_loose (p := p₅) rfl hp.reset l.reset_loose (LF :: rest)
  calc replyLoop p (l.bytesThen rest) = replyLoop p₁ (List.replicate l.colons (ascii ':') ++ _) :=
        (replyLoop_cons_next hfive _).trans (h₁ _)
    _ = replyLoop p₂ (l.limit ++ _) := h₂.trans (h₃ _)
    _ = replyLoop p₃ (l.remaining ++ _) := h₄.trans (replyLoop_lf1 rfl _)
    _ = replyLoop p₄ (l.retryAfter ++ _) := h₅.trans (replyLoop_lf2 rfl _)
    _ = replyLoop p₅ (l.reset ++ _) := h₆.trans (replyLoop_lf3 rfl _)
    _ = .done l.parse rest := h₇.trans (replyLoop_almostDone rfl rest)

/-- The parser reads to its end what is loosely written, and nothing else. -/
theorem done_iff_layout (hp : p.Fresh) {w : Bytes} :
    (∃ q tail, replyLoop p w = .done q tail) ↔ ∃ (l : Layout) (rest : Bytes), w = l.bytesThen rest := by
  constructor
  · -- What is parsed to its end is taken apart, one state of the parser after the other.
    rintro ⟨q, tail, h⟩
    have hfive : replyStep p (ascii '5') = .next { p with state := .crlf1 } := by
      simp only [replyStep, hp.state, if_pos]
    obtain ⟨w, rfl, h₁⟩ := exists_cons_of_done hfive
      (fun c hc => by simp only [replyStep, hp.state, if_neg hc]) h
    obtain ⟨cr₁, w, rfl, h₂⟩ := exists_CRLF_of_done h₁ .arg1 fun _ => rfl
    obtain ⟨colons, ch, w, status, rfl, hch, h₃⟩ := exists_status_of_done h₂ rfl
    obtain ⟨cr₂, w, rfl, h₄⟩ := exists_CRLF_of_done h₃ .arg2 fun _ => rfl
    obtain ⟨limit, w, l, rfl, hlimit, h₅⟩ := Variable.limit.exists_line h₄ rfl hp.limit
    obtain ⟨w, rfl, h₆⟩ := exists_LF_of_done h₅ .arg3 fun _ => rfl
    obtain ⟨remaining, w, m, rfl, hremaining, h₇⟩ :=
      Variable.remaining.exists_line h₆ rfl hp.remaining
    obtain ⟨w, rfl, h₈⟩ := exists_LF_of_done h₇ .arg4 fun _ => rfl
    obtain ⟨retryAfter, w, r, rfl, hretryAfter, h₉⟩ := exists_retry_line h₈ rfl hp.retryAfter
    obtain ⟨w, rfl, h₁₀⟩ := exists_LF_of_done h₉ .arg5 fun _ => rfl
    obtain ⟨reset, w, t, rfl, hreset, h₁₁⟩ := Variable.reset.exists_line h₁₀ rfl hp.reset
    cases w with
    | nil => cases h₁₁
    | cons c w =>
      obtain rfl : c = LF := by
        by_contra hne
        refine not_done_of_fail ?_ h₁₁
        change (if c = LF then Pass.done else Pass.fail) = .fail
        rw [if_neg hne]
      exact ⟨⟨cr₁, colons, ch, cr₂, limit, remaining, retryAfter, reset, hch, hlimit, hremaining,
        hretryAfter, hreset⟩, w, rfl⟩
  · rintro ⟨l, rest, rfl⟩
    exact ⟨l.parse, rest, replyLoop_layout hp l rest⟩

/-! ## Exact layouts -/

/-- A layout as the grammar has it. -/
structure Layout.Exact (l : Layout) : Prop where
  cr₁ : l.cr₁ = 1
  colons : l.colons = 1
  cr₂ : l.cr₂ = 1
  limit : ∃ A, l.limit = ascii ':' :: A ∧ Number A
  remaining : ∃ B, l.remaining = ascii ':' :: B ∧ Number B
  retryAfter : ∃ R, l.retryAfter = ascii ':' :: R ∧ (Number R ∨ R = text "-1")
  reset : ∃ C, l.reset = ascii ':' :: C ∧ Number C

/-- A number of the grammar, with its colon, is also a loose one. -/
theorem Number.loose {w : Bytes} (h : Number w) : LooseFrom 0 (ascii ':' :: w) :=
  looseFrom_colon.mpr ⟨fun ch hch => .inr (h.2.1 ch hch), h.2.2⟩

/-- The grammar's replies are the exact layouts. -/
theorem grammar_iff_exact {s : Bytes} :
    Grammar s ↔ ∃ (l : Layout) (rest : Bytes), l.Exact ∧ s = ascii '*' :: l.bytesThen rest := by
  constructor
  · rintro ⟨S, A, B, R, C, rest, hS, hA, hB, hR, hC, rfl⟩
    obtain ⟨ch, rfl, hch⟩ : ∃ ch, S = [ch] ∧ StatusByte ch := by
      rcases hS with rfl | rfl
      · exact ⟨ascii '0', rfl, .inl rfl⟩
      · exact ⟨ascii '1', rfl, .inr rfl⟩
    have hloose : LooseRetryFrom 0 (ascii ':' :: R) := by
      rcases hR with hR | rfl
      · exact ⟨ascii ':' :: R, hR.loose, .inl rfl⟩
      · exact ⟨[ascii ':'], looseFrom_colon.mpr (looseFrom_nil.mpr (Nat.zero_le _)), .inr ⟨1, rfl⟩⟩
    refine ⟨⟨1, 1, ch, 1, ascii ':' :: A, ascii ':' :: B, ascii ':' :: R, ascii ':' :: C, hch, hA.loose,
      hB.loose, hloose, hC.loose⟩, rest, ⟨rfl, rfl, rfl, ⟨A, rfl, hA⟩, ⟨B, rfl, hB⟩, ⟨R, rfl, hR⟩,
      ⟨C, rfl, hC⟩⟩, ?_⟩
    simp [Layout.bytesThen, text, CR, LF, ascii]
  · -- What makes a layout exact is what the grammar asks for.
    rintro ⟨l, rest, hl, rfl⟩
    obtain ⟨A, hlimit, hA⟩ := hl.limit
    obtain ⟨B, hremaining, hB⟩ := hl.remaining
    obtain ⟨R, hretryAfter, hR⟩ := hl.retryAfter
    obtain ⟨C, hreset, hC⟩ := hl.reset
    refine ⟨[l.status], A, B, R, C, rest, ?_, hA, hB, hR, hC, ?_⟩
    · rcases l.statusByte with h | h
      · exact .inl (by rw [h]; rfl)
      · exact .inr (by rw [h]; rfl)
    · simp [Layout.bytesThen, hl.cr₁, hl.colons, hl.cr₂, hlimit, hremaining, hretryAfter, hreset,
        text, CR, LF, ascii]

/-- A text is cut in one way at its first symbol with `P`. -/
theorem append_cons_inj {α : Type*} {P : α → Prop} {a a' : α} {xs xs' ys ys' : List α}
    (hxs : ∀ x ∈ xs, ¬ P x) (hxs' : ∀ x ∈ xs', ¬ P x) (ha : P a) (ha' : P a')
    (h : xs ++ a :: ys = xs' ++ a' :: ys') : xs = xs' ∧ a = a' ∧ ys = ys' := by
  induction xs generalizing xs' with
  | nil =>
    cases xs' with
    | nil => exact ⟨rfl, List.cons.inj h⟩
    | cons x' xs' =>
      obtain ⟨rfl, -⟩ := List.cons.inj h
      exact absurd ha (hxs' a (by simp))
  | cons x xs ih =>
    cases xs' with
    | nil =>
      obtain ⟨rfl, -⟩ := List.cons.inj h
      exact absurd ha' (hxs x (by simp))
    | cons x' xs' =>
      obtain ⟨rfl, htail⟩ := List.cons.inj h
      obtain ⟨rfl, hrest⟩ := ih (fun y hy => hxs y (List.mem_cons_of_mem _ hy))
        (fun y hy => hxs' y (List.mem_cons_of_mem _ hy)) htail
      exact ⟨rfl, hrest⟩

/-- Repeated bytes end where another byte stands. -/
theorem replicate_cons_inj {a x y : UInt8} {m n : ℕ} {xs ys : Bytes} (hx : x ≠ a) (hy : y ≠ a)
    (h : List.replicate m a ++ x :: xs = List.replicate n a ++ y :: ys) :
    m = n ∧ x = y ∧ xs = ys := by
  have hall : ∀ k, ∀ c ∈ List.replicate k a, ¬ c ≠ a := fun k c hc =>
    not_not.mpr (List.eq_of_mem_replicate hc)
  obtain ⟨heq, hrest⟩ := append_cons_inj (P := (· ≠ a)) (hall m) (hall n) hx hy h
  exact ⟨(List.replicate_inj.mp heq).1, hrest⟩

/-- A line ends at its first CR. -/
theorem line_inj {w w' xs ys : Bytes} (hw : CR ∉ w) (hw' : CR ∉ w')
    (h : w ++ CR :: xs = w' ++ CR :: ys) : w = w' ∧ xs = ys := by
  obtain ⟨heq, -, hrest⟩ := append_cons_inj (P := (· = CR)) (fun c hc heq => hw (heq ▸ hc))
    (fun c hc heq => hw' (heq ▸ hc)) rfl rfl h
  exact ⟨heq, hrest⟩

/-- A reply has one layout. -/
theorem Layout.unique {l l' : Layout} {rest rest' : Bytes} (h : l.bytesThen rest = l'.bytesThen rest') :
    l = l' := by
  have hLF : LF ≠ CR := by decide
  obtain ⟨h₁, -, h⟩ := replicate_cons_inj hLF hLF (List.cons.inj h).2
  obtain ⟨h₂, h₃, h⟩ := replicate_cons_inj l.statusByte.ne_colon l'.statusByte.ne_colon h
  obtain ⟨h₄, -, h⟩ := replicate_cons_inj hLF hLF h
  obtain ⟨h₅, h⟩ := line_inj l.limit_loose.CR_notMem l'.limit_loose.CR_notMem h
  obtain ⟨h₆, h⟩ := line_inj l.remaining_loose.CR_notMem l'.remaining_loose.CR_notMem
    (List.cons.inj h).2
  obtain ⟨h₇, h⟩ := line_inj l.retryAfter_loose.CR_notMem l'.retryAfter_loose.CR_notMem
    (List.cons.inj h).2
  obtain ⟨h₈, -⟩ := line_inj l.reset_loose.CR_notMem l'.reset_loose.CR_notMem (List.cons.inj h).2
  cases l
  cases l'
  simp only at h₁ h₂ h₃ h₄ h₅ h₆ h₇ h₈
  subst h₁ h₂ h₃ h₄ h₅ h₆ h₇ h₈
  rfl

/-! ## Complete replies -/

/-- The bytes begin with an array of five lines. -/
def Complete (s : Bytes) : Prop :=
  ∃ l₁ l₂ l₃ l₄ l₅ rest, (∀ l ∈ [l₁, l₂, l₃, l₄, l₅], Resp.Line l) ∧
    s = text "*5\r\n" ++ l₁ ++ CRLF ++ l₂ ++ CRLF ++ l₃ ++ CRLF ++ l₄ ++ CRLF ++ l₅ ++ CRLF ++ rest

/-- The line of the status is read or refused. -/
theorem loop_status_line (hp : p.state = .arg1) {w : Bytes} (hw : Resp.Line w) (rest : Bytes) :
    (∃ status, replyLoop p (w ++ CR :: LF :: rest) =
        replyLoop { p with status := status, state := .arg2 } rest) ∨
      ∃ q, replyLoop p (w ++ CR :: LF :: rest) = .error q := by
  induction w with
  | nil =>
    have hCR : ¬ StatusByte CR := by decide
    exact .inr ⟨p, replyLoop_cons_fail (replyStep_not_status hp (by decide) hCR) _⟩
  | cons ch w ih =>
    obtain ⟨hCR, hLF⟩ := hw
    rw [List.mem_cons, not_or] at hCR hLF
    rw [List.cons_append]
    by_cases hcolon : ch = ascii ':'
    · have hnext : replyStep p ch = .next p := by simp only [replyStep, hp, if_pos hcolon]
      rw [replyLoop_cons_next hnext]
      exact ih ⟨hCR.2, hLF.2⟩
    by_cases hstatus : StatusByte ch
    · rw [replyLoop_cons_next (replyStep_status hp hstatus)]
      set status := statusFor ch
      -- The byte behind the status has to begin the end of the line.
      cases w with
      | nil =>
        exact .inl ⟨status, loop_CRLF (p := { p with status := status, state := .crlf2 }) .arg2
          (fun _ => rfl) 1 rest⟩
      | cons c w =>
        rw [List.mem_cons, not_or] at hCR hLF
        refine .inr ⟨_, replyLoop_cons_fail ?_ _⟩
        change readCRLF { p with status := status, state := .crlf2 } c .arg2 = .fail
        rw [readCRLF, if_neg (Ne.symm hCR.2.1), if_neg (Ne.symm hLF.2.1)]
    · exact .inr ⟨p, replyLoop_cons_fail (replyStep_not_status hp hcolon hstatus) _⟩

/-- A complete reply is read to its end or refused. -/
theorem done_or_error_of_complete (hp : p.Fresh) {w : Bytes} (h : Complete (ascii '*' :: w)) :
    (∃ q tail, replyLoop p w = .done q tail) ∨ ∃ q, replyLoop p w = .error q := by
  obtain ⟨l₁, l₂, l₃, l₄, l₅, rest, hlines, hbytes⟩ := h
  obtain ⟨hl₁, hl₂, hl₃, hl₄, hl₅⟩ : Resp.Line l₁ ∧ CR ∉ l₂ ∧ CR ∉ l₃ ∧ CR ∉ l₄ ∧ CR ∉ l₅ :=
    ⟨hlines l₁ (by simp), (hlines l₂ (by simp)).1, (hlines l₃ (by simp)).1, (hlines l₄ (by simp)).1,
      (hlines l₅ (by simp)).1⟩
  have hw : w = ascii '5' :: CR :: LF :: (l₁ ++ CR :: LF :: (l₂ ++ CR :: LF :: (l₃ ++ CR :: LF ::
      (l₄ ++ CR :: LF :: (l₅ ++ CR :: LF :: rest))))) := by
    have htail := congrArg List.tail hbytes
    simpa [text, CRLF, CR, LF, ascii] using htail
  -- Line by line: the next line is reached, or the parser has refused.
  rw [hw, replyLoop_start hp.state]
  set p₁ : Parse := { p with state := .arg1 } with hp₁
  rcases loop_status_line (p := p₁) rfl hl₁ (l₂ ++ CR :: LF :: (l₃ ++ CR :: LF :: (l₄ ++ CR :: LF ::
    (l₅ ++ CR :: LF :: rest)))) with ⟨status, h₁⟩ | h
  swap
  · exact .inr h
  set p₂ : Parse := { p₁ with status := status, state := .arg2 } with hp₂
  rcases Variable.limit.line (p := p₂) rfl hp.limit hl₂ (LF :: (l₃ ++ CR :: LF :: (l₄ ++ CR :: LF ::
    (l₅ ++ CR :: LF :: rest)))) with ⟨-, h₂⟩ | ⟨-, q, h⟩
  swap
  · exact .inr ⟨q, h₁.trans h⟩
  set p₃ : Parse := { p₂ with limit := valueFrom 0 l₂, state := .arg3 } with hp₃
  have h₂ := h₁.trans (h₂.trans (replyLoop_lf1 rfl _))
  rcases Variable.remaining.line (p := p₃) rfl hp.remaining hl₃ (LF :: (l₄ ++ CR :: LF ::
    (l₅ ++ CR :: LF :: rest))) with ⟨-, h₃⟩ | ⟨-, q, h⟩
  swap
  · exact .inr ⟨q, h₂.trans h⟩
  set p₄ : Parse := { p₃ with remaining := valueFrom 0 l₃, state := .arg4 } with hp₄
  have h₃ := h₂.trans (h₃.trans (replyLoop_lf2 rfl _))
  rcases retry_line (p := p₄) rfl hp.retryAfter hl₄ (LF :: (l₅ ++ CR :: LF :: rest))
    with ⟨-, h₄⟩ | ⟨-, q, h⟩
  swap
  · exact .inr ⟨q, h₃.trans h⟩
  set p₅ : Parse := { p₄ with retryAfter := retryFrom (-1) l₄, state := .arg5 } with hp₅
  have h₄ := h₃.trans (h₄.trans (replyLoop_lf3 rfl _))
  rcases Variable.reset.line (p := p₅) rfl hp.reset hl₅ (LF :: rest) with ⟨-, h₅⟩ | ⟨-, q, h⟩
  swap
  · exact .inr ⟨q, h₄.trans h⟩
  exact .inl ⟨_, rest, h₄.trans (h₅.trans (replyLoop_almostDone rfl rest))⟩

end NginxRatelimit
