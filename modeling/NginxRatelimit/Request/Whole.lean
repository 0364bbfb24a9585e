import NginxRatelimit.Request.Resend
import NginxRatelimit.Request.Stall

/-!
# Nothing waits behind a whole reply

Every reply ends with a line end, and so does every line that a round trip waits for. A round trip
that waits for the header holds no line end in its buffer (`unsettled_run`), and the parser has not
gone through a whole RESP value without an end or an error (`not_again_of_encode`): an array has a
line end for each of its elements and one more, and the parser is done at the sixth. So a round trip
that goes on after an event lacks bytes that have not arrived.
-/

namespace NginxRatelimit

open Library Resp

/-! ## The parser counts lines -/

/-- How many line ends the parser has read in this state. -/
def Sw.lines : Sw → ℕ
  | .start | .crlf1 => 0
  | .arg1 | .crlf2 => 1
  | .arg2 | .lf1 => 2
  | .arg3 | .lf2 => 3
  | .arg4 | .allowed | .lf3 => 4
  | .arg5 | .almostDone => 5

/-- A reply has five lines before its last. -/
theorem Sw.lines_le (s : Sw) : s.lines ≤ 5 := by
  cases s <;> decide

variable {p q : Parse} {ch : UInt8}

/-- A byte other than LF leaves the parser on its line. -/
theorem lines_same (hne : ch ≠ LF) (h : q.state.lines = p.state.lines) :
    q.state.lines = p.state.lines + if ch = LF then 1 else 0 := by
  rw [if_neg hne, h, Nat.add_zero]

/-- An unsigned variable is read on one line. -/
theorem lines_readUnsigned {val : ℕ} {set : ℕ → Parse} {after : Sw}
    (h : readUnsigned p ch val set after = .next q) (hset : ∀ v, (set v).state = p.state)
    (hafter : after.lines = p.state.lines) :
    q.state.lines = p.state.lines + if ch = LF then 1 else 0 := by
  unfold readUnsigned at h
  split_ifs at h with hcolon hCR hdigit
  · cases h
    exact lines_same (by rw [hcolon]; decide) rfl
  · cases h
    exact lines_same (by rw [hCR]; decide) hafter
  · split at h
    · cases h
    · cases h
      exact lines_same (fun hLF => hdigit (by rw [hLF]; decide)) (by rw [hset])

/-- A state that takes an LF counts it. -/
theorem lines_readLF {after : Sw} (hafter : after.lines = p.state.lines + 1)
    (h : readLF p ch after = .next q) :
    q.state.lines = p.state.lines + if ch = LF then 1 else 0 := by
  unfold readLF at h
  split_ifs at h with hLF
  cases h
  rw [if_pos hLF]
  exact hafter

/-- So does one that takes a CR and an LF. -/
theorem lines_readCRLF {after : Sw} (hafter : after.lines = p.state.lines + 1)
    (h : readCRLF p ch after = .next q) :
    q.state.lines = p.state.lines + if ch = LF then 1 else 0 := by
  unfold readCRLF at h
  split_ifs at h with hCR hLF
  · cases h
    exact lines_same (by rw [hCR]; decide) rfl
  · cases h
    rw [if_pos hLF]
    exact hafter

/-- A byte that the parser goes on after moves it to the next line exactly if it is LF. -/
theorem lines_of_next (h : replyStep p ch = .next q) :
    q.state.lines = p.state.lines + if ch = LF then 1 else 0 := by
  obtain ⟨s, status, limit, remaining, retryAfter, reset⟩ := p
  cases s with
  | crlf1 => exact lines_readCRLF rfl h
  | crlf2 => exact lines_readCRLF rfl h
  | lf1 => exact lines_readLF rfl h
  | lf2 => exact lines_readLF rfl h
  | lf3 => exact lines_readLF rfl h
  | arg2 => exact lines_readUnsigned h (fun _ => rfl) rfl
  | arg3 => exact lines_readUnsigned h (fun _ => rfl) rfl
  | arg5 => exact lines_readUnsigned h (fun _ => rfl) rfl
  | start =>
    simp only [replyStep] at h
    split_ifs at h with h5
    cases h
    exact lines_same (by rw [h5]; decide) rfl
  | arg1 =>
    simp only [replyStep] at h
    split_ifs at h with hcolon h0 h1
    · cases h
      exact lines_same (by rw [hcolon]; decide) rfl
    · cases h
      exact lines_same (by rw [h0]; decide) rfl
    · cases h
      exact lines_same (by rw [h1]; decide) rfl
  | arg4 =>
    simp only [replyStep] at h
    split_ifs at h with hcolon hminus hCR hdigit
    · cases h
      exact lines_same (by rw [hcolon]; decide) rfl
    · cases h
      exact lines_same (by rw [hminus]; decide) rfl
    · cases h
      exact lines_same (by rw [hCR]; decide) rfl
    all_goals
      have hne : ch ≠ LF := fun hLF => hdigit (by rw [hLF]; decide)
      split at h
      · cases h
      · cases h
        exact lines_same hne rfl
  | allowed =>
    simp only [replyStep] at h
    split_ifs at h with h1 hCR
    · cases h
      exact lines_same (by rw [h1]; decide) rfl
    · cases h
      exact lines_same (by rw [hCR]; decide) rfl
  | almostDone =>
    simp only [replyStep] at h
    split_ifs at h

/-- A parser that waits has read as many line ends as its state says. -/
theorem lines_of_again {w : Bytes} (h : replyLoop p w = .again q) :
    q.state.lines = p.state.lines + w.count LF := by
  induction w generalizing p with
  | nil =>
    cases h
    rw [List.count_nil, Nat.add_zero]
  | cons ch w ih =>
    cases hstep : replyStep p ch with
    | next p' =>
      rw [replyLoop_cons_next hstep] at h
      rw [ih h, lines_of_next hstep, List.count_cons]
      simp only [beq_iff_eq]
      omega
    | fail =>
      rw [replyLoop_cons_fail hstep] at h
      cases h
    | done =>
      rw [replyLoop_cons_done hstep] at h
      cases h

/-! ## Whole values -/

/-- Every value holds a line end. -/
theorem LF_mem_encode (v : Resp) : LF ∈ encode v := by
  cases v with
  | nullBulk => decide
  | nullArray => decide
  | _ => simp [encode, CRLF]

/-- Values that follow each other hold a line end each. -/
theorem length_le_count_encodeAll (values : List Resp) :
    values.length ≤ (encodeAll values).count LF := by
  induction values with
  | nil => exact Nat.zero_le _
  | cons v values ih =>
    have hv : 0 < (encode v).count LF := List.count_pos_iff.mpr (LF_mem_encode v)
    rw [encodeAll, List.count_append, List.length_cons]
    omega

/-- A parser that waits behind the bytes of an array has read the length 5. -/
theorem start_of_again (hp : p.state = .start) {values : List Resp}
    (h : replyLoop p (encodeTail values) = .again q) : values.length = 5 := by
  obtain ⟨d, ds, hds⟩ := exists_decimalDigits_eq_cons values.length
  have hlt : ∀ e ∈ d :: ds, e < 10 := fun e he => decimalDigits_lt (hds ▸ he)
  have hvalue := decimalValue_decimalDigits values.length
  rw [hds] at hvalue
  rw [encodeTail, decimal, hds, List.map_cons, List.append_assoc, List.cons_append] at h
  have hd : d = 5 := by
    by_contra hne
    have h5 : digit d ≠ ascii '5' := fun heq =>
      hne (digit_inj (hlt d (by simp)) (by decide : 5 < 10) heq)
    have hfail : replyStep p (digit d) = .fail := by simp only [replyStep, hp, if_neg h5]
    rw [replyLoop_cons_fail hfail] at h
    cases h
  subst hd
  cases ds with
  | nil => exact hvalue.symm
  | cons e es =>
    have he := hlt e (by simp)
    have h1 : replyStep p (digit 5) = .next { p with state := .crlf1 } := by
      simp only [replyStep, hp]
      rfl
    have h2 : replyStep { p with state := .crlf1 } (digit e) = .fail := by
      simp only [replyStep, readCRLF, if_neg (digit_ne he (c := CR) (by decide)),
        if_neg (digit_ne he (c := LF) (by decide))]
    rw [replyLoop_cons_next h1, List.map_cons, List.cons_append, replyLoop_cons_fail h2] at h
    cases h

/-- The parser does not wait behind a whole value. -/
theorem not_again_of_encode (hp : p.Fresh) {v : Resp} {w : Bytes}
    (henc : encode v = ascii '*' :: w) : replyLoop p w ≠ .again q := by
  intro h
  have htype : v.typeByte = ascii '*' := by
    obtain ⟨u, hu⟩ := exists_encode_eq_cons v
    exact (List.cons.inj (hu.symm.trans henc)).1
  cases v with
  | array values =>
    rw [encode] at henc
    obtain rfl : encodeTail values = w := (List.cons.inj henc).2
    have hlength := start_of_again hp.state h
    have hcount := lines_of_again h
    have hall := length_le_count_encodeAll values
    have hmost := q.state.lines_le
    rw [hp.state, encodeTail, List.count_append, List.count_append] at hcount
    have hCRLF : CRLF.count LF = 1 := by decide
    have hstart : Sw.start.lines = 0 := rfl
    omega
  | nullArray =>
    rw [encode] at henc
    have hw : w = ascii '-' :: text "1" ++ CRLF := (List.cons.inj henc).2.symm
    have hfail : replyStep p (ascii '-') = .fail := by
      simp only [replyStep, hp.state]
      rfl
    rw [hw, List.cons_append, replyLoop_cons_fail hfail] at h
    cases h
  | _ =>
    rw [typeByte] at htype
    exact absurd htype (by decide)

/-! ## The buffer while the header is awaited -/

namespace RoundTrip

/-- The buffer holds no whole line, and does not begin with the type of an array. -/
structure Unsettled (r : RoundTrip) : Prop where
  line : LF ∉ r.window
  array : r.preludeReplies = 0 → r.window.head? ≠ some (ascii '*')

/-- An empty buffer holds no line. -/
theorem unsettled_of_empty {r : RoundTrip} (h : r.window = []) : r.Unsettled := by
  refine ⟨?_, fun _ => ?_⟩
  · rw [h]
    exact List.not_mem_nil
  · rw [h]
    exact nofun

/-- Where more of the script's reply is awaited, its line has not ended. -/
theorem unsettled_processType (io : Io) {r : RoundTrip} (h : (r.processType io).1 = .again) :
    (r.processType io).2.Unsettled := by
  unfold processType at h ⊢
  split at h
  · exact unsettled_of_empty ‹_›
  · rename_i chr rest hwindow
    split_ifs at h ⊢ with hstar hminus hLF hnoscript
    · -- `EVAL` is sent, and the buffer is emptied.
      have hrc := resendEval_rc io r
      rcases resendEval_cases io r with hcase | ⟨rc, bufs, handler, timer, hcase⟩
      · rw [hcase] at h
        cases h
      · rw [hcase] at h hrc ⊢
        rcases hrc with rfl | rfl | rfl
        · refine unsettled_of_empty ?_
          cases r.buffer <;> simp [window, Buf.clear]
        · cases h
        · cases h
    · -- An error line that is not complete.
      refine ⟨?_, fun _ => ?_⟩
      · rw [hwindow, hminus, List.mem_cons, not_or]
        exact ⟨by decide, hLF⟩
      · rw [hwindow, List.head?_cons, hminus]
        decide

/-- What `process_header` waits behind is not a whole line. -/
theorem unsettled_processHeader (io : Io) {r : RoundTrip} (h : (r.processHeader io).1 = .again) :
    (r.processHeader io).2.Unsettled := by
  have hstep := consumePrelude_step r.preludeReplies (r := r) rfl
  unfold processHeader at h ⊢
  generalize consumePrelude r.preludeReplies r = result at hstep h ⊢
  cases hstep with
  | ok k hstands => exact unsettled_processType io h
  | again left k hstands hLF =>
    dsimp only
    rw [← window_moved r (left + 1) k] at hLF
    exact ⟨hLF, fun hzero => absurd hzero (Nat.succ_ne_zero left)⟩
  | error left k rest hstands hrest => cases h

/-- It is a property of waiting, whatever the latch is. -/
theorem latchProperty_unsettled : LatchProperty Unsettled fun _ => True where
  latch _ := trivial
  frame hwindow _ hprelude _ h :=
    ⟨hwindow ▸ h.line, fun hzero => hwindow ▸ h.array (hprelude ▸ hzero)⟩
  header io _ _ _ _ _ _ := ⟨unsettled_processHeader io, trivial⟩

/-- A round trip that waits for the header waits for the end of a line. -/
theorem unsettled_run (conf : LocConf) (key : Bytes) (events : List Event)
    (hattached : ((start conf key).run events).attached = true)
    (hhandler : ((start conf key).run events).readHandler = .header) :
    ((start conf key).run events).Unsettled := by
  have rules : RunRules (LatchWaits Unsettled) (LatchOpen fun _ => True)
      (LatchReads fun _ => True) (LatchReplied fun _ => True) (LatchOpen fun _ => True)
      (LatchEnded fun _ => True) :=
    { rules := latchProperty_unsettled.rules
      waiting_arrive := fun _ h => ⟨h.attached, h.readHandler, h.holds.line, h.holds.array⟩
      reading_arrive := fun _ h => ⟨h.attached, h.readHandler, h.writeHandler, h.length, trivial⟩
      finalized := fun h => h.attached
      replied := fun h => LatchOpen.finalize ⟨h.attached, trivial⟩ _ _
      failed := fun h _ => h.finalize _ _ }
  have hstart : LatchWaits Unsettled (start conf key) := ⟨rfl, rfl, unsettled_of_empty rfl⟩
  rcases rules.run (.inl hstart) events with h | h | h
  · exact h.holds
  · exact absurd (hhandler.symm.trans h.readHandler) (by decide)
  · exact absurd (hattached.symm.trans h.attached) (by decide)

/-! ## Reading byte by byte -/

/-- A read event that receives one byte, if there is one. -/
def oneByte : Io := .good [.data 1] []

/-- At most `k` bytes are to be read. -/
def Short (k : ℕ) (_ : Reader) (sock : Bytes) : Prop := sock.length ≤ k

/-- A byte that is read is one of those to be read. -/
theorem carries_short (k : ℕ) : Carries (Short (k + 1)) (Short k) where
  receive := by
    intro s t data rest hdata hQ _ _
    have hpos := List.length_pos_iff.mpr hdata
    rw [Short, List.length_append] at hQ
    rw [Short]
    omega
  resend := by
    intro s pre post rest hfirst hQ hscan
    -- The line that is thrown away is not empty, as the reader knows more behind it.
    have hpre : pre ≠ [] := by
      rintro rfl
      obtain rfl : s = .reply true := Scanned.reading.inj hscan
      cases hfirst
    have hpos := List.length_pos_iff.mpr hpre
    rw [Short, List.length_append, List.length_append] at hQ
    rw [Short]
    omega

/-- And no bytes are added by reading. -/
theorem carries_short_self (k : ℕ) : Carries (Short k) (Short k) where
  receive := by
    intro s t data rest _ hQ _ _
    rw [Short, List.length_append] at hQ
    rw [Short]
    omega
  resend := by
    intro s pre post rest _ hQ _
    rw [Short, List.length_append, List.length_append] at hQ
    rw [Short]
    omega

section

variable {Q Q' : Reader → Bytes → Prop} {conf : LocConf} {key : Bytes} {r : RoundTrip}

/-- What an event leaves goes on or has ended. -/
theorem goes_of_outcome
    (h : Outcome (HeaderAt Q conf key) (BodyAt Q conf key) (LiveReplied conf key) (Live conf key) r) :
    Goes Q conf key r := by
  cases h with
  | waits h => exact .inl h
  | reads h => exact .inr (.inl h)
  | replied q h hr =>
    rw [hr]
    exact .inr (.inr (h.live.finalize _ _))
  | fails q rc why h hexit hr =>
    rw [hr]
    exact .inr (.inr (h.finalize _ _))

/-- A read of one byte takes it from the socket. -/
theorem Goes.read_byte {k : ℕ} (h : Goes (Short (k + 1)) conf key r) (hsize : 1 ≤ conf.bufferSize)
    (hroom : ¬ Stalled r) (hsock : r.sock ≠ []) :
    Goes (Short k) conf key (r.step (.read oneByte)) := by
  have hrules : Rules oneByte (HeaderAt (Short k) conf key) (BeginsAt (Short k) conf key)
      (BodyAt (Short k) conf key) (LiveReplied conf key) (Live conf key) :=
    carries_rules (carries_short_self k) oneByte
  rcases h with h | h | h
  · rw [step_read_header h.live.live.attached h.live.readHandler, readHeaderHandler]
    refine goes_of_outcome ?_
    split
    · exact .fails r _ _ h.live.live (by decide) rfl
    · split
      · exact .fails r _ _ h.live.live (by decide) rfl
      · split
        · exact .fails r _ _ h.live.live (by decide) rfl
        · have hspace := h.room_alloc hsize hroom
          have hnext := (carries_rules (carries_short_self (k + 1)) oneByte).alloc h
          obtain ⟨data, r₁, hx⟩ := recv_finds (r := { r with
            buffer := some (r.buffer.getD (.alloc r.conf.bufferSize)) }) hsock hspace 0
          exact hrules.headerLoop_bytes (fun r hr => hrules.headerLoop_outcome [] hr) hx
            (hnext.receive (carries_short k) oneByte hx)
  · rw [step_read_body h.live.live.attached h.live.readHandler, readBodyHandler]
    refine goes_of_outcome ?_
    split
    · exact .fails r _ _ h.live.live (by decide) rfl
    · have hspace := h.room hroom
      obtain ⟨data, r₁, hx⟩ := recv_finds hsock hspace 0
      have hwrite : (false || decide (r.length = 0)) = false := by
        rw [decide_eq_false h.live.length]
        rfl
      rw [processRedisResponse, hwrite]
      exact redisLoop_bytes (fun r hr => hrules.redisLoop_outcome [] (hr.imp_right fun h => ⟨h, rfl⟩))
        hspace hx (h.receive (carries_short k) hx)
  · rw [step_detached h.attached]
    exact .inr (.inr h)

/-- A reader outside of an array is not in the middle of one after a byte. -/
theorem midReply_of_byte {t : Reader} (ht : ∀ fallback p, t ≠ .body fallback p) (fallback : Bool)
    (ch : UInt8) : midReply fallback (reader.scan t [ch]) = false := by
  cases hstep : reader.step t ch with
  | inr e =>
    rw [Scanner.scan_cons_inr hstep]
    rfl
  | inl s =>
    rw [Scanner.scan_cons_inl hstep, Scanner.scan_nil]
    cases s with
    | prelude | reply | errorLine => rfl
    | body fallback' p =>
      -- Only the '*' leads into an array, to its beginning.
      have hp : p.state = .start := by
        cases t with
        | body fallback'' p' => exact absurd rfl (ht fallback'' p')
        | prelude left fallback'' line =>
          simp only [reader, readerStep] at hstep
          split_ifs at hstep
          · cases left <;> cases hstep
          · cases hstep
        | reply fallback'' =>
          simp only [reader, readerStep] at hstep
          split_ifs at hstep
          · cases hstep
            rfl
          · cases hstep
        | errorLine fallback'' line =>
          simp only [reader, readerStep] at hstep
          split_ifs at hstep
          · cases hstep
          · cases hstep
      simp [midReply, hp]

/-- One byte behind an unsettled window is not the middle of a reply. -/
theorem Unsettled.not_midReply (h : r.Unsettled) (fallback : Bool) (ch : UInt8) :
    midReply fallback (reader.scan (.start r.preludeReplies fallback) (r.window ++ [ch])) =
      false := by
  have hline := h.line
  cases hn : r.preludeReplies with
  | succ n =>
    rw [Reader.start, Scanner.scan_append (Reader.scan_prelude hline n fallback [])]
    exact midReply_of_byte (by rintro _ _ ⟨⟩) fallback ch
  | zero =>
    have hhead := h.array hn
    cases hwindow : r.window with
    | nil => exact midReply_of_byte (by rintro _ _ ⟨⟩) fallback ch
    | cons c w =>
      rw [hwindow] at hline hhead
      have hstar : c ≠ ascii '*' := fun heq => hhead (congrArg some heq)
      have hw : LF ∉ w := fun hmem => hline (List.mem_cons_of_mem _ hmem)
      rw [List.cons_append, Reader.start]
      by_cases hminus : c = ascii '-'
      · have hstep : reader.step (.reply fallback) c = .inl (.errorLine fallback []) := by
          simp only [reader, readerStep, if_neg hstar, if_pos hminus]
        rw [Scanner.scan_cons_inl hstep, Scanner.scan_append (Reader.scan_errorLine hw fallback [])]
        exact midReply_of_byte (by rintro _ _ ⟨⟩) fallback ch
      · have hstep : reader.step (.reply fallback) c = .inr ⟨false, fallback, .init⟩ := by
          simp only [reader, readerStep, if_neg hstar, if_neg hminus]
        rw [Scanner.scan_cons_inr hstep]
        rfl

/-- One byte does not fill the buffer in the middle of a reply: the header takes its first byte. -/
theorem headerLoopFillsUp_oneByte (h : r.Unsettled) :
    headerLoopFillsUp oneByte [.data 1] r = false := by
  rw [headerLoopFillsUp]
  cases hx : r.recv r.room (.data 1) with
  | mk received r₁ =>
    cases received with
    | again | zero | error => rfl
    | bytes data =>
      obtain ⟨ch, rfl⟩ : ∃ ch, data = [ch] := by
        obtain ⟨rest, -, hne, -, -⟩ := recv_bytes hx
        have hlen : data.length ≤ 1 := by
          rw [recv] at hx
          split_ifs at hx
          · cases hx
          · cases hx
          · cases hx
            rw [List.length_take]
            omega
        have hpos := List.length_pos_iff.mpr hne
        exact List.length_eq_one_iff.mp (by omega)
      have hfull : r.fillsUp [ch] = false := by
        rw [fillsUp, h.not_midReply, Bool.and_false]
      dsimp only
      rw [hfull, Bool.false_or]
      split
      · rw [headerLoopFillsUp, Bool.and_false]
      · rfl

/-- So a read of one byte leaves room behind it. -/
theorem not_stalls_oneByte (h : r.attached = true → r.readHandler = .header → r.Unsettled) :
    r.stalls (.read oneByte) = false := by
  rw [stalls]
  cases hattached : r.attached with
  | false => rfl
  | true =>
    by_cases hhandler : r.readHandler = .header
    · have hunsettled := h hattached hhandler
      have hwindow : window { r with
          buffer := some (r.buffer.getD (.alloc r.conf.bufferSize)) } = r.window := by
        unfold window
        cases r.buffer <;> rfl
      rw [oneByte, ← hattached]
      refine (congrArg (_ && ·) (headerLoopFillsUp_oneByte ?_)).trans (Bool.and_false _)
      exact latchProperty_unsettled.frame hwindow rfl rfl rfl hunsettled
    · rw [decide_eq_false hhandler]
      rfl

/-- What is known of the bytes on the socket is their number. -/
theorem Goes.short (h : Goes (fun _ _ => True) conf key r) :
    Goes (Short r.sock.length) conf key r := by
  rcases h with h | h | h
  · obtain ⟨t, hscan, hfallback, -⟩ := h.unread
    exact .inl ⟨h.live, h.parse, t, hscan, hfallback, le_refl r.sock.length⟩
  · exact .inr (.inl ⟨h.live, h.buffer, le_refl r.sock.length⟩)
  · exact .inr (.inr h)

/-- A round trip that goes on has at most that many bytes on the socket. -/
theorem Goes.length_le {k : ℕ} (h : Goes (Short k) conf key r) (hattached : r.attached = true) :
    r.sock.length ≤ k := by
  rcases h with h | h | h
  · obtain ⟨t, -, -, hle⟩ := h.unread
    exact hle
  · exact h.unread
  · exact absurd (hattached.symm.trans h.attached) (by decide)

/-- A round trip that goes on keeps its latch. -/
theorem Goes.evalFallback_read (h : Goes Q conf key r) (io : Io) (hlatch : r.evalFallback = true) :
    (r.step (.read io)).evalFallback = true := by
  have hrules := latchProperty_set.rules io
  have hlatched : ∀ {q : RoundTrip}, LatchWaits (·.evalFallback = true) q ∨
      LatchReads (· = true) q ∨ LatchEnded (· = true) q → q.evalFallback = true := by
    rintro q (h | h | h)
    · exact h.holds
    · exact h.latch
    · exact h.latch
  rcases h with h | h | h
  · exact hlatched (latch_outcome (hrules.read
      (.inl ⟨h.live.live.attached, h.live.readHandler, hlatch⟩)))
  · exact hlatched (latch_outcome (hrules.read
      (.inr ⟨h.live.live.attached, h.live.readHandler, h.live.writeHandler, h.live.length, hlatch⟩)))
  · rw [step_detached h.attached]
    exact hlatch

/-- In a run of a request, a read of one byte leaves room, and a byte less on the socket. -/
theorem run_oneByte (events : List Event) (hr : r = (start conf key).run events)
    (hsize : 1 ≤ conf.bufferSize) (hroom : ¬ Stalled r) (hsock : r.sock ≠ []) :
    ¬ Stalled (r.step (.read oneByte)) ∧
      ((r.step (.read oneByte)).attached = true →
        (r.step (.read oneByte)).sock.length < r.sock.length) ∧
      (r.evalFallback = true → (r.step (.read oneByte)).evalFallback = true) := by
  have hgoes : Goes (fun _ _ => True) conf key r := hr ▸ goes_run conf key events
  refine ⟨?_, fun hattached => ?_, hgoes.evalFallback_read oneByte⟩
  · rw [step_stalled_iff hgoes hsize hroom, not_stalls_oneByte]
    · exact Bool.false_ne_true
    · intro hattached hhandler
      rw [hr] at hattached hhandler ⊢
      exact unsettled_run conf key events hattached hhandler
  · obtain ⟨k, hk⟩ := Nat.exists_eq_succ_of_ne_zero
      (Nat.pos_iff_ne_zero.mp (List.length_pos_iff.mpr hsock))
    have hshort := hgoes.short
    rw [hk] at hshort
    have hle := (hshort.read_byte hsize hroom hsock).length_le hattached
    omega

end

end RoundTrip

end NginxRatelimit
