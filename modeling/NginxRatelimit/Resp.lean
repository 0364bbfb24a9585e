import NginxRatelimit.Library.Decimal

/-!
# RESP values

The values that a Redis peer can answer with, and their bytes on the wire. Lines hold neither CR nor
LF; bulk strings hold any bytes. A command is an array of bulk strings, which `build_command`
writes.
-/

namespace NginxRatelimit

open Library

/-- A byte string. -/
abbrev Bytes := List UInt8

/-- The byte of an ASCII character. -/
def ascii (c : Char) : UInt8 := UInt8.ofNat c.toNat

/-- The bytes of an ASCII text. -/
def text (s : String) : Bytes := s.toList.map ascii

/-- Carriage return. -/
def CR : UInt8 := 13

/-- Line feed. -/
def LF : UInt8 := 10

/-- The end of a line. -/
def CRLF : Bytes := [CR, LF]

/-- The byte of a decimal digit. -/
def digit (d : ℕ) : UInt8 := UInt8.ofNat (48 + d)

/-- A number in decimal, as `ngx_sprintf` prints it with `%ui`. -/
def decimal (n : ℕ) : Bytes := (decimalDigits n).map digit

/-- The bytes of an integer. -/
def integer : ℤ → Bytes
  | .ofNat n => decimal n
  | .negSucc n => ascii '-' :: decimal (n + 1)

/-- A RESP value. -/
inductive Resp where
  /-- `+...`, a status line. -/
  | simple (line : Bytes)
  /-- `-...`, an error line. -/
  | error (line : Bytes)
  /-- `:n`. -/
  | int (n : ℤ)
  /-- `$n`, a byte string. -/
  | bulk (data : Bytes)
  /-- `$-1`. -/
  | nullBulk
  /-- `*-1`. -/
  | nullArray
  /-- `*n`, an array. -/
  | array (values : List Resp)

namespace Resp

mutual

/-- The bytes of a value. -/
def encode : Resp → Bytes
  | simple line => ascii '+' :: (line ++ CRLF)
  | error line => ascii '-' :: (line ++ CRLF)
  | int n => ascii ':' :: (integer n ++ CRLF)
  | bulk data => ascii '$' :: (decimal data.length ++ CRLF ++ data ++ CRLF)
  | nullBulk => text "$-1" ++ CRLF
  | nullArray => text "*-1" ++ CRLF
  | array values => ascii '*' :: (decimal values.length ++ CRLF ++ encodeAll values)

/-- The bytes of values one after the other. -/
def encodeAll : List Resp → Bytes
  | [] => []
  | v :: vs => encode v ++ encodeAll vs

end

/-- A text that fits on a line. -/
def Line (line : Bytes) : Prop := CR ∉ line ∧ LF ∉ line

/-- Whether bytes are a line can be decided. -/
instance (line : Bytes) : Decidable (Line line) := inferInstanceAs (Decidable (_ ∧ _))

mutual

/-- The lines of a value hold no line ends. -/
def WellFormed : Resp → Prop
  | simple line => Line line
  | error line => Line line
  | int _ => True
  | bulk _ => True
  | nullBulk => True
  | nullArray => True
  | array values => AllWellFormed values

/-- All of the values are well formed. -/
def AllWellFormed : List Resp → Prop
  | [] => True
  | v :: vs => WellFormed v ∧ AllWellFormed vs

end

/-- A value that answers `AUTH` or `SELECT`: a status or an error line. -/
def IsLine : Resp → Prop
  | simple _ => True
  | error _ => True
  | _ => False

/-- An error that says that the script is not loaded. -/
def IsNoScript : Resp → Prop
  | error line => line.take 8 = text "NOSCRIPT"
  | _ => False

/-- Whether a reply is a line is seen from its type. -/
instance : (v : Resp) → Decidable v.IsLine
  | simple _ | error _ => isTrue trivial
  | int _ | bulk _ | nullBulk | nullArray | array _ => isFalse id

/-- `NOSCRIPT` is seen from the first bytes of an error. -/
instance : (v : Resp) → Decidable v.IsNoScript
  | error line => inferInstanceAs (Decidable (line.take 8 = text "NOSCRIPT"))
  | simple _ | int _ | bulk _ | nullBulk | nullArray | array _ => isFalse id

mutual

/-- Well-formedness can be decided. -/
def decWellFormed : (v : Resp) → Decidable v.WellFormed
  | simple line => decidable_of_iff (Line line) (by rw [WellFormed])
  | error line => decidable_of_iff (Line line) (by rw [WellFormed])
  | int _ => isTrue (by rw [WellFormed]; trivial)
  | bulk _ => isTrue (by rw [WellFormed]; trivial)
  | nullBulk => isTrue (by rw [WellFormed]; trivial)
  | nullArray => isTrue (by rw [WellFormed]; trivial)
  | array values =>
    have := decAllWellFormed values
    decidable_of_iff (AllWellFormed values) (by rw [WellFormed])

/-- And so can that of a list of values. -/
def decAllWellFormed : (values : List Resp) → Decidable (AllWellFormed values)
  | [] => isTrue (by rw [AllWellFormed]; trivial)
  | v :: vs =>
    have := decWellFormed v
    have := decAllWellFormed vs
    decidable_of_iff (WellFormed v ∧ AllWellFormed vs) (by rw [AllWellFormed])

end

/-- Whether a reply is well formed can be decided. -/
instance (v : Resp) : Decidable v.WellFormed := decWellFormed v

/-- The encoding of a list of replies, in two parts. -/
theorem encodeAll_append (vs ws : List Resp) :
    encodeAll (vs ++ ws) = encodeAll vs ++ encodeAll ws := by
  induction vs with
  | nil => simp [encodeAll]
  | cons v vs ih => rw [List.cons_append, encodeAll, encodeAll, ih, List.append_assoc]

end Resp

/-! ## Bytes of digits -/

/-- A digit is its value behind the character 0. -/
theorem digit_toNat {d : ℕ} (h : d < 10) : (digit d).toNat = 48 + d := by
  rw [digit, UInt8.toNat_ofNat']
  omega

/-- A digit is no other character. -/
theorem digit_ne {d : ℕ} (h : d < 10) {c : UInt8} (hc : c.toNat < 48 ∨ 57 < c.toNat) :
    digit d ≠ c := by
  intro heq
  have hd := digit_toNat h
  rw [heq] at hd
  omega

/-- The bytes of two digits differ when the digits do. -/
theorem digit_inj {a b : ℕ} (ha : a < 10) (hb : b < 10) (h : digit a = digit b) : a = b := by
  have hnat := congrArg UInt8.toNat h
  rw [digit_toNat ha, digit_toNat hb] at hnat
  omega

/-! ## Lines -/

/-- No byte of a text without LF is one. -/
theorem ne_LF_of_notMem {w : Bytes} (h : LF ∉ w) : ∀ ch ∈ w, decide (ch ≠ LF) = true := by
  intro ch hch
  rw [decide_eq_true_eq]
  rintro rfl
  exact h hch

/-- The part up to the first LF. -/
theorem takeWhile_append_LF {pre : Bytes} (h : LF ∉ pre) (post : Bytes) :
    (pre ++ LF :: post).takeWhile (· ≠ LF) = pre := by
  rw [List.takeWhile_append_of_pos (ne_LF_of_notMem h), List.takeWhile_cons_of_neg (by simp),
    List.append_nil]

/-- A text is its own part up to the first LF only if it has none. -/
theorem mem_LF_of_takeWhile {w : Bytes} (h : (w.takeWhile (· ≠ LF)).length ≠ w.length) :
    LF ∈ w := by
  by_contra hnot
  have hall : (w ++ []).takeWhile (· ≠ LF) = w ++ [].takeWhile (· ≠ LF) :=
    List.takeWhile_append_of_pos (ne_LF_of_notMem hnot)
  rw [List.takeWhile_nil, List.append_nil] at hall
  exact h (congrArg List.length hall)

/-- A pattern without `x` at the beginning of a text is there before the first `x`. -/
theorem take_append_cons_of_notMem {pattern : Bytes} {x : UInt8} (hx : x ∉ pattern)
    (pre rest : Bytes) :
    (pre ++ x :: rest).take pattern.length = pattern ↔ pre.take pattern.length = pattern := by
  rcases Nat.lt_or_ge pre.length pattern.length with hlt | hge
  · -- A shorter text shows the `x` behind it.
    have hmem : x ∈ (pre ++ x :: rest).take pattern.length := by
      obtain ⟨k, hk⟩ : ∃ k, pattern.length - pre.length = k + 1 :=
        ⟨pattern.length - pre.length - 1, by omega⟩
      rw [List.take_append, hk, List.take_succ_cons]
      simp
    constructor
    · intro heq
      rw [heq] at hmem
      exact absurd hmem hx
    · intro heq
      have hlen := congrArg List.length heq
      rw [List.length_take] at hlen
      omega
  · rw [List.take_append_of_le_length hge]

end NginxRatelimit
