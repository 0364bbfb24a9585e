import NginxRatelimit.Library.Scanner
import NginxRatelimit.Request.Rules

/-!
# The reader of a stream

What a round trip makes of the bytes that its peer sends, one byte at a time: the replies to `AUTH`
and `SELECT`, each a line, then the reply to the script, or in its place an error line, after which
the reader starts again when the script was not loaded. This is what the handlers are for, without
buffers and reads. `process_header` on a window is the scan of the window (`processHeader_reads`).
-/

namespace NginxRatelimit

open Library

/-- The parser's state and variables in a new `ctx`. -/
def Parse.init : Parse := ⟨.start, 0, 0, 0, -1, 0⟩

/-- The same after the first byte of an array: `u->state->status = NGX_HTTP_OK`. -/
def Parse.array : Parse := { Parse.init with status := 200 }

/-- Where the reader is; `fallback` says whether `EVAL` has been sent. -/
inductive Reader where
  /-- In a line of the prelude, which began with `line`, with `left` more to come. -/
  | prelude (left : ℕ) (fallback : Bool) (line : Bytes)
  /-- Before the first byte of the script's reply. -/
  | reply (fallback : Bool)
  /-- In an error line, which began with '-' and `line`. -/
  | errorLine (fallback : Bool) (line : Bytes)
  /-- In an array, after its '*'. -/
  | body (fallback : Bool) (p : Parse)

/-- Whether `EVAL` has been sent. -/
def Reader.fallback : Reader → Bool
  | prelude _ fallback _ | reply fallback | errorLine fallback _ | body fallback _ => fallback

/-- What is parsed of the reply. -/
def Reader.parse : Reader → Parse
  | body _ p => p
  | prelude _ _ _ | reply _ | errorLine _ _ => .init

/-- How the reader stops. -/
structure Ending where
  /-- At the `done` label; otherwise the reply was refused. -/
  replied : Bool
  /-- Whether `EVAL` has been sent. -/
  fallback : Bool
  /-- What is parsed by then. -/
  parse : Parse

/-- The reader before the prelude's replies, or after them. -/
def Reader.start : ℕ → Bool → Reader
  | 0, fallback => .reply fallback
  | left + 1, fallback => .prelude left fallback []

/-- One byte. -/
def readerStep : Reader → UInt8 → Reader ⊕ Ending
  | .prelude left fallback line, ch =>
    if ch = LF then
      if (line ++ [LF]).head? = some (ascii '+') then .inl (.start left fallback)
      else .inr ⟨false, fallback, .init⟩
    else .inl (.prelude left fallback (line ++ [ch]))
  | .reply fallback, ch =>
    if ch = ascii '*' then .inl (.body fallback .array)
    else if ch = ascii '-' then .inl (.errorLine fallback [])
    else .inr ⟨false, fallback, .init⟩
  | .errorLine fallback line, ch =>
    if ch = LF then
      if !fallback && line.take 8 = text "NOSCRIPT" then .inl (.reply true)
      else .inr ⟨false, fallback, .init⟩
    else .inl (.errorLine fallback (line ++ [ch]))
  | .body fallback p, ch =>
    match replyStep p ch with
    | .next p => .inl (.body fallback p)
    | .fail => .inr ⟨false, fallback, p⟩
    | .done => .inr ⟨true, fallback, p⟩

/-- The reader as a scanner. -/
def reader : Scanner Reader UInt8 Ending := ⟨readerStep⟩

namespace Reader

/-! ## Scans of lines and of arrays -/

/-- Where the reader starts does not change whether `EVAL` has been sent. -/
@[simp] theorem fallback_start (left : ℕ) (fallback : Bool) :
    (start left fallback).fallback = fallback := by
  cases left <;> rfl

/-- `EVAL` is sent once and for all. -/
theorem fallback_of_step {s t : Reader} {ch : UInt8} (h : reader.step s ch = .inl t)
    (hs : s.fallback = true) : t.fallback = true := by
  cases s with
  | prelude left fallback line =>
    obtain rfl : fallback = true := hs
    simp only [reader, readerStep] at h
    split_ifs at h <;> obtain rfl := Sum.inl.inj h
    · exact fallback_start left true
    · rfl
  | reply fallback =>
    obtain rfl : fallback = true := hs
    simp only [reader, readerStep] at h
    split_ifs at h <;> obtain rfl := Sum.inl.inj h <;> rfl
  | errorLine fallback line =>
    obtain rfl : fallback = true := hs
    simp only [reader, readerStep] at h
    split_ifs at h <;> obtain rfl := Sum.inl.inj h <;> rfl
  | body fallback p =>
    obtain rfl : fallback = true := hs
    simp only [reader, readerStep] at h
    split at h <;> cases h
    rfl

/-- The reader stops as it is. -/
theorem fallback_of_stop {s : Reader} {ch : UInt8} {e : Ending} (h : reader.step s ch = .inr e) :
    e.fallback = s.fallback := by
  cases s with
  | prelude left fallback line =>
    simp only [reader, readerStep] at h
    split_ifs at h
    obtain rfl := Sum.inr.inj h
    rfl
  | reply fallback =>
    simp only [reader, readerStep] at h
    split_ifs at h
    obtain rfl := Sum.inr.inj h
    rfl
  | errorLine fallback line =>
    simp only [reader, readerStep] at h
    split_ifs at h
    obtain rfl := Sum.inr.inj h
    rfl
  | body fallback p =>
    simp only [reader, readerStep] at h
    split at h <;> cases h <;> rfl

/-- Nor is it forgotten while bytes are read. -/
theorem fallback_of_scan {s t : Reader} {w : Bytes} (h : reader.scan s w = .reading t)
    (hs : s.fallback = true) : t.fallback = true := by
  induction w generalizing s with
  | nil =>
    obtain rfl : s = t := Scanned.reading.inj h
    exact hs
  | cons ch w ih =>
    cases hstep : reader.step s ch with
    | inl u =>
      rw [Scanner.scan_cons_inl hstep] at h
      exact ih h (fallback_of_step hstep hs)
    | inr e =>
      rw [Scanner.scan_cons_inr hstep] at h
      cases h

/-- Nor where the reader stops. -/
theorem fallback_of_scan_stopped {s : Reader} {e : Ending} {w rest : Bytes}
    (h : reader.scan s w = .stopped e rest) (hs : s.fallback = true) : e.fallback = true := by
  induction w generalizing s with
  | nil => cases h
  | cons ch w ih =>
    cases hstep : reader.step s ch with
    | inl u =>
      rw [Scanner.scan_cons_inl hstep] at h
      exact ih h (fallback_of_step hstep hs)
    | inr e' =>
      rw [Scanner.scan_cons_inr hstep] at h
      obtain ⟨rfl, -⟩ := Scanned.stopped.inj h
      exact (fallback_of_stop hstep).trans hs

/-- A line of the prelude that has not arrived in full. -/
theorem scan_prelude {w : Bytes} (h : LF ∉ w) (left : ℕ) (fallback : Bool) (line : Bytes) :
    reader.scan (.prelude left fallback line) w = .reading (.prelude left fallback (line ++ w)) := by
  induction w generalizing line with
  | nil => simp
  | cons ch w ih =>
    obtain ⟨hch, hw⟩ := not_or.mp (mt List.mem_cons.mpr h)
    have hstep : reader.step (.prelude left fallback line) ch =
        .inl (.prelude left fallback (line ++ [ch])) := if_neg (Ne.symm hch)
    rw [Scanner.scan_cons_inl hstep, ih hw, List.append_assoc]
    rfl

/-- A line of the prelude that has. -/
theorem scan_prelude_line {pre : Bytes} (h : LF ∉ pre) (left : ℕ) (fallback : Bool) (rest : Bytes) :
    reader.scan (.start (left + 1) fallback) (pre ++ LF :: rest) =
      if (pre ++ LF :: rest).head? = some (ascii '+') then reader.scan (.start left fallback) rest
      else .stopped ⟨false, fallback, .init⟩ rest := by
  have hhead : (pre ++ LF :: rest).head? = (pre ++ [LF]).head? := by cases pre <;> rfl
  have hpre := scan_prelude h left fallback []
  have hstep : reader.step (.prelude left fallback pre) LF =
      if (pre ++ [LF]).head? = some (ascii '+') then .inl (.start left fallback)
      else .inr ⟨false, fallback, .init⟩ := by
    simp only [reader, readerStep, if_true]
  rw [List.nil_append] at hpre
  rw [start, Scanner.scan_append hpre, hhead]
  split_ifs with hplus
  · rw [if_pos hplus] at hstep
    exact Scanner.scan_cons_inl hstep rest
  · rw [if_neg hplus] at hstep
    exact Scanner.scan_cons_inr hstep rest

/-- An error line that has not arrived in full. -/
theorem scan_errorLine {w : Bytes} (h : LF ∉ w) (fallback : Bool) (line : Bytes) :
    reader.scan (.errorLine fallback line) w = .reading (.errorLine fallback (line ++ w)) := by
  induction w generalizing line with
  | nil => simp
  | cons ch w ih =>
    obtain ⟨hch, hw⟩ := not_or.mp (mt List.mem_cons.mpr h)
    have hstep : reader.step (.errorLine fallback line) ch =
        .inl (.errorLine fallback (line ++ [ch])) := if_neg (Ne.symm hch)
    rw [Scanner.scan_cons_inl hstep, ih hw, List.append_assoc]
    rfl

/-- The `NOSCRIPT` of an error line is there before its LF. -/
theorem take_noScript (pre rest : Bytes) :
    (pre ++ LF :: rest).take 8 = text "NOSCRIPT" ↔ pre.take 8 = text "NOSCRIPT" :=
  take_append_cons_of_notMem (by decide : LF ∉ text "NOSCRIPT") pre rest

/-- An error line that has. -/
theorem scan_errorLine_line {pre : Bytes} (h : LF ∉ pre) (fallback : Bool) (rest : Bytes) :
    reader.scan (.errorLine fallback []) (pre ++ LF :: rest) =
      if !fallback && (pre ++ LF :: rest).take 8 = text "NOSCRIPT" then
        reader.scan (.reply true) rest
      else .stopped ⟨false, fallback, .init⟩ rest := by
  have hpre := scan_errorLine h fallback []
  have hstep : reader.step (.errorLine fallback pre) LF =
      if !fallback && pre.take 8 = text "NOSCRIPT" then .inl (.reply true)
      else .inr ⟨false, fallback, .init⟩ := by
    simp only [reader, readerStep, if_true]
  rw [List.nil_append] at hpre
  rw [Scanner.scan_append hpre]
  simp only [take_noScript]
  split_ifs with hnoscript
  · rw [if_pos hnoscript] at hstep
    exact Scanner.scan_cons_inl hstep rest
  · rw [if_neg hnoscript] at hstep
    exact Scanner.scan_cons_inr hstep rest

/-- In an array the reader is the parser. -/
theorem scan_body_again {p q : Parse} {w : Bytes} (fallback : Bool)
    (h : replyLoop p w = .again q) :
    reader.scan (.body fallback p) w = .reading (.body fallback q) := by
  induction w generalizing p with
  | nil =>
    obtain rfl : p = q := Parsed.again.inj h
    rfl
  | cons ch w ih =>
    cases hstep : replyStep p ch with
    | next p' =>
      rw [replyLoop_cons_next hstep] at h
      rw [Scanner.scan_cons_inl (t := .body fallback p') (by simp only [reader, readerStep, hstep])]
      exact ih h
    | fail => rw [replyLoop_cons_fail hstep] at h; cases h
    | done => rw [replyLoop_cons_done hstep] at h; cases h

/-- Where the parser refuses a byte, the reader stops without a reply. -/
theorem scan_body_error {p q : Parse} {w : Bytes} (fallback : Bool)
    (h : replyLoop p w = .error q) :
    ∃ rest, reader.scan (.body fallback p) w = .stopped ⟨false, fallback, q⟩ rest := by
  induction w generalizing p with
  | nil => cases h
  | cons ch w ih =>
    cases hstep : replyStep p ch with
    | next p' =>
      rw [replyLoop_cons_next hstep] at h
      rw [Scanner.scan_cons_inl (t := .body fallback p') (by simp only [reader, readerStep, hstep])]
      exact ih h
    | fail =>
      rw [replyLoop_cons_fail hstep] at h
      obtain rfl : p = q := Parsed.error.inj h
      exact ⟨w, Scanner.scan_cons_inr (by simp only [reader, readerStep, hstep]) w⟩
    | done => rw [replyLoop_cons_done hstep] at h; cases h

/-- Where the parser is done, it stops with one, and the rest is unread. -/
theorem scan_body_done {p q : Parse} {w rest : Bytes} (fallback : Bool)
    (h : replyLoop p w = .done q rest) :
    reader.scan (.body fallback p) w = .stopped ⟨true, fallback, q⟩ rest := by
  induction w generalizing p with
  | nil => cases h
  | cons ch w ih =>
    cases hstep : replyStep p ch with
    | next p' =>
      rw [replyLoop_cons_next hstep] at h
      rw [Scanner.scan_cons_inl (t := .body fallback p') (by simp only [reader, readerStep, hstep])]
      exact ih h
    | fail => rw [replyLoop_cons_fail hstep] at h; cases h
    | done =>
      rw [replyLoop_cons_done hstep] at h
      obtain ⟨rfl, rfl⟩ := Parsed.done.inj h
      exact Scanner.scan_cons_inr (by simp only [reader, readerStep, hstep]) w

end Reader

/-! ## The header -/

/-- Bytes are consumed one after the other. -/
theorem Buf.consume_consume (b : Buf) (m n : ℕ) : (b.consume m).consume n = b.consume (m + n) := by
  simp only [consume, List.drop_drop, Nat.add_assoc]

namespace RoundTrip

/-- Bytes of the buffer are consumed one after the other. -/
theorem consume_consume (r : RoundTrip) (m n : ℕ) :
    (r.consume m).consume n = r.consume (m + n) := by
  cases h : r.buffer with
  | none => simp [consume, h]
  | some b => simp [consume, h, Buf.consume_consume]

/-- Consuming nothing changes nothing. -/
theorem consume_zero (r : RoundTrip) : r.consume 0 = r := by
  have h : (r.buffer.map fun b : Buf => b.consume 0) = r.buffer := by
    cases r.buffer <;> rfl
  rw [consume, h]

/-- A window is cut at its first LF, unless there is none. -/
theorem takeWhile_cases (w : Bytes) :
    (LF ∉ w ∧ (w.takeWhile (· ≠ LF)).length = w.length) ∨
      ∃ pre rest, w = pre ++ LF :: rest ∧ LF ∉ pre ∧ w.takeWhile (· ≠ LF) = pre := by
  by_cases h : LF ∈ w
  · obtain ⟨pre, rest, rfl, hpre⟩ := List.eq_append_cons_of_mem h
    exact .inr ⟨pre, rest, rfl, hpre, takeWhile_append_LF hpre rest⟩
  · exact .inl ⟨h, Classical.byContradiction fun hne => h (mem_LF_of_takeWhile hne)⟩

/-- `k` bytes of the window are consumed, and `left` replies of the prelude are to come. -/
def moved (r : RoundTrip) (left k : ℕ) : RoundTrip := { r.consume k with preludeReplies := left }

/-- What is consumed is gone from the window. -/
theorem window_moved (r : RoundTrip) (left k : ℕ) : (r.moved left k).window = r.window.drop k :=
  window_consume r k

/-- Two moves are one. -/
theorem moved_moved (r : RoundTrip) (left left' k k' : ℕ) :
    (r.moved left k).moved left' k' = r.moved left' (k + k') := by
  unfold moved
  rw [← consume_consume]
  rfl

/-- So are a move and what is consumed after it. -/
theorem moved_consume (r : RoundTrip) (left k n : ℕ) :
    (r.moved left k).consume n = r.moved left (k + n) := by
  unfold moved
  rw [← consume_consume]
  rfl

/-- No move. -/
theorem moved_zero (r : RoundTrip) : r.moved r.preludeReplies 0 = r := by
  unfold moved
  rw [consume_zero]

/-- The reader stands there after those bytes. -/
structure Stands (r : RoundTrip) (left k : ℕ) : Prop where
  le : k ≤ r.window.length
  scan : reader.scan (.start r.preludeReplies r.evalFallback) (r.window.take k) =
    .reading (.start left r.evalFallback)

/-- The reader goes on there with the rest of the window. -/
theorem Stands.scan_window {r : RoundTrip} {left k : ℕ} (h : r.Stands left k) :
    reader.scan (.start r.preludeReplies r.evalFallback) r.window =
      reader.scan (.start left r.evalFallback) (r.window.drop k) := by
  conv_lhs => rw [← List.take_append_drop k r.window]
  exact Scanner.scan_append h.scan _

/-- It starts where nothing is consumed. -/
theorem stands_zero (r : RoundTrip) : r.Stands r.preludeReplies 0 :=
  ⟨Nat.zero_le _, by rw [List.take_zero]; rfl⟩

/-- Standing somewhere in what is left of the window. -/
theorem Stands.moved {r : RoundTrip} {left left' k k' : ℕ} (h : r.Stands left k)
    (h' : (r.moved left k).Stands left' k') : r.Stands left' (k + k') := by
  have hle := h'.le
  rw [window_moved, List.length_drop] at hle
  refine ⟨by have := h.le; omega, ?_⟩
  rw [List.take_add, Scanner.scan_append h.scan, ← window_moved r left]
  exact h'.scan

/-- What the prelude's replies in the window come to. -/
inductive PreludeStep (r : RoundTrip) : Rc × RoundTrip → Prop where
  | ok (k : ℕ) (h : r.Stands 0 k) : PreludeStep r (.ok, r.moved 0 k)
  | again (left k : ℕ) (h : r.Stands (left + 1) k) (hLF : LF ∉ r.window.drop k) :
      PreludeStep r (.again, r.moved (left + 1) k)
  | error (left k : ℕ) (rest : Bytes) (h : r.Stands left k)
      (hrest : reader.scan (.start left r.evalFallback) (r.window.drop k) =
        .stopped ⟨false, r.evalFallback, .init⟩ rest) :
      PreludeStep r (.error, r.moved left k)

/-- A reply of the prelude that is consumed. -/
theorem stands_line {r : RoundTrip} {n : ℕ} (hn : r.preludeReplies = n + 1) {pre rest : Bytes}
    (hwindow : r.window = pre ++ LF :: rest) (hpre : LF ∉ pre)
    (hplus : r.window.head? = some (ascii '+')) : r.Stands n (pre.length + 1) := by
  have htake : r.window.take (pre.length + 1) = pre ++ LF :: [] := by
    rw [hwindow, List.take_append, List.take_of_length_le (by omega)]
    simp
  refine ⟨by rw [hwindow, List.length_append, List.length_cons]; omega, ?_⟩
  have hhead : (pre ++ LF :: []).head? = some (ascii '+') := by
    rw [← hplus, hwindow]
    cases pre <;> rfl
  rw [htake, hn, Reader.scan_prelude_line hpre, if_pos hhead]
  rfl

/-- `process_header` consumes the prelude's replies as the reader reads them. -/
theorem consumePrelude_step (n : ℕ) {r : RoundTrip} (hn : r.preludeReplies = n) :
    PreludeStep r (consumePrelude n r) := by
  induction n generalizing r with
  | zero =>
    have hr : r.moved 0 0 = r := hn ▸ moved_zero r
    have hstart : r.Stands 0 0 := hn ▸ stands_zero r
    have hok := PreludeStep.ok 0 hstart
    rw [hr] at hok
    exact hok
  | succ n ih =>
    have hr : r.moved (n + 1) 0 = r := hn ▸ moved_zero r
    have hstart : r.Stands (n + 1) 0 := hn ▸ stands_zero r
    rw [consumePrelude, consumePreludeReply]
    rcases takeWhile_cases r.window with ⟨hLF, hlen⟩ | ⟨pre, rest, hwindow, hpre, htake⟩
    · rw [if_pos hlen]
      have hagain := PreludeStep.again n 0 hstart hLF
      rw [hr] at hagain
      exact hagain
    · have hlen : (r.window.takeWhile (· ≠ LF)).length ≠ r.window.length := by
        rw [htake, hwindow, List.length_append, List.length_cons]
        omega
      rw [if_neg hlen, htake]
      split_ifs with hplus
      · -- The rest of the prelude is looked for in what is left of the window.
        have hnext := stands_line hn hwindow hpre hplus
        have hrest := ih (r := r.moved n (pre.length + 1)) rfl
        change PreludeStep r (consumePrelude n (r.moved n (pre.length + 1)))
        generalize consumePrelude n (r.moved n (pre.length + 1)) = result at hrest
        cases hrest with
        | ok k h =>
          rw [moved_moved]
          exact .ok _ (hnext.moved h)
        | again left k h hLF =>
          rw [window_moved, List.drop_drop] at hLF
          rw [moved_moved]
          exact .again left _ (hnext.moved h) hLF
        | error left k rest' h hstop =>
          rw [window_moved, List.drop_drop] at hstop
          rw [moved_moved]
          exact .error left _ rest' (hnext.moved h) hstop
      · have herror := PreludeStep.error (n + 1) 0 rest hstart (by
          rw [List.drop_zero, hwindow, Reader.scan_prelude_line hpre, ← hwindow, if_neg hplus])
        rw [hr] at herror
        exact herror

/-- What `process_header` makes of its window: more is awaited, the array has begun, the reply is
refused, or it is a `NOSCRIPT` line and `EVAL` is sent. -/
inductive HeaderStep (io : Io) (r : RoundTrip) : Rc × RoundTrip → Prop where
  | again (left k : ℕ) (t : Reader) (h : r.Stands left k)
      (hrest : reader.scan (.start left r.evalFallback) (r.window.drop k) = .reading t)
      (hfallback : t.fallback = r.evalFallback) (hparse : t.parse = .init) :
      HeaderStep io r (.again, r.moved left k)
  | array (k : ℕ) (rest : Bytes) (h : r.Stands 0 k)
      (hrest : r.window.drop k = ascii '*' :: rest) :
      HeaderStep io r (.ok, { r.moved 0 (k + 1) with parse.status := 200 })
  | refused (rc : Rc) (left k : ℕ) (rest : Bytes) (hrc : rc = .error ∨ rc = .invalidHeader)
      (h : r.Stands left k)
      (hrest : reader.scan (.start left r.evalFallback) (r.window.drop k) =
        .stopped ⟨false, r.evalFallback, .init⟩ rest) :
      HeaderStep io r (rc, r.moved left k)
  | fallback (k : ℕ) (line rest : Bytes) (h : r.Stands 0 k)
      (hrest : r.window.drop k = ascii '-' :: (line ++ LF :: rest)) (hfirst : r.evalFallback = false)
      (hscan : reader.scan (.reply false) (ascii '-' :: (line ++ [LF])) = .reading (.reply true)) :
      HeaderStep io r (if ((r.moved 0 k).resendEval io).1 = .ok then .again
        else ((r.moved 0 k).resendEval io).1, ((r.moved 0 k).resendEval io).2)

/-- After them it takes what the reader takes: an array, an error line, or neither. -/
theorem processType_step (io : Io) {r : RoundTrip} {k : ℕ} (h : r.Stands 0 k) :
    HeaderStep io r ((r.moved 0 k).processType io) := by
  have hwindow := window_moved r 0 k
  unfold processType
  rw [hwindow]
  cases hdrop : r.window.drop k with
  | nil => exact .again 0 k (.reply r.evalFallback) h (by rw [hdrop]; rfl) rfl rfl
  | cons chr rest =>
    dsimp only
    by_cases hstar : chr = ascii '*'
    · -- An array: its first byte is consumed, and `process_reply` reads the others.
      rw [if_pos hstar]
      have hmoved : ({ (r.moved 0 k).consume 1 with parse.status := 200 } : RoundTrip) =
          { r.moved 0 (k + 1) with parse.status := 200 } := by
        rw [moved_consume]
      rw [hmoved]
      exact .array k rest h (by rw [hdrop, hstar])
    · rw [if_neg hstar]
      by_cases hminus : chr = ascii '-'
      · -- An error line, which may not be there in full.
        subst hminus
        rw [if_pos rfl]
        have hline : reader.step (.reply r.evalFallback) (ascii '-') =
            .inl (.errorLine r.evalFallback []) := rfl
        by_cases hLF : LF ∈ rest
        · rw [if_neg (not_not.mpr hLF)]
          obtain ⟨line, more, rfl, hnot⟩ := List.eq_append_cons_of_mem hLF
          have hscan := Reader.scan_errorLine_line hnot r.evalFallback more
          change HeaderStep io r (if !r.evalFallback && (line ++ LF :: more).take 8 =
            text "NOSCRIPT" then _ else _)
          split_ifs with hnoscript
          · rw [Bool.and_eq_true, decide_eq_true_eq, Bool.not_eq_true'] at hnoscript
            have hshort : (line ++ LF :: []).take 8 = text "NOSCRIPT" :=
              (Reader.take_noScript line []).mpr ((Reader.take_noScript line more).mp hnoscript.2)
            have hreply : reader.scan (.reply false) (ascii '-' :: (line ++ [LF])) =
                .reading (.reply true) := by
              have hempty := Reader.scan_errorLine_line hnot false []
              rw [if_pos (by rw [hshort]; decide)] at hempty
              exact (Scanner.scan_cons_inl rfl _).trans hempty
            have hfallback : HeaderStep io r _ :=
              .fallback k line more h hdrop hnoscript.1 hreply
            -- `NGX_AGAIN` when `EVAL` is sent, and the code of `resend_eval` otherwise.
            split
            · rename_i r' heq
              rw [heq] at hfallback
              exact hfallback
            · rename_i rc r' hne heq
              rw [heq, if_neg hne] at hfallback
              exact hfallback
          · rw [if_neg hnoscript] at hscan
            refine .refused .error 0 k more (.inl rfl) h ?_
            rw [hdrop]
            exact (Scanner.scan_cons_inl hline _).trans hscan
        · rw [if_pos hLF]
          refine .again 0 k (.errorLine r.evalFallback ([] ++ rest)) h ?_ rfl rfl
          rw [hdrop]
          exact (Scanner.scan_cons_inl hline _).trans (Reader.scan_errorLine hLF _ _)
      · -- No type of reply begins so.
        rw [if_neg hminus]
        refine .refused .invalidHeader 0 k rest (.inr rfl) h ?_
        rw [hdrop]
        refine Scanner.scan_cons_inr ?_ rest
        change readerStep (.reply r.evalFallback) chr = _
        rw [readerStep, if_neg hstar, if_neg hminus]

/-- So it is the reader's work on the window, and what `resend_eval` does. -/
theorem processHeader_step (io : Io) (r : RoundTrip) : HeaderStep io r (r.processHeader io) := by
  have hstep := consumePrelude_step r.preludeReplies (r := r) rfl
  unfold processHeader
  generalize consumePrelude r.preludeReplies r = result at hstep
  cases hstep with
  | ok k h => exact processType_step io h
  | again left k h hLF =>
    exact .again (left + 1) k _ h (Reader.scan_prelude hLF left r.evalFallback []) rfl rfl
  | error left k rest h hrest => exact .refused .error left k rest (.inl rfl) h hrest

end RoundTrip

end NginxRatelimit
