import NginxRatelimit.Request.Reader

/-!
# The reply of a script, read back

A script answers with five integers, and `process_header` and `process_reply` read them back from
the bytes in the buffer. `decode_encode` says that they get exactly these integers, or refuse them
when one is too large to be counted in `ngx_int_t`; that no sum wraps on the way; and that nothing
shorter than the whole reply is taken for one.
-/

namespace NginxRatelimit

open Library Resp

/-- A digit is accumulated as it is, or refused: the guard keeps the sum from wrapping. -/
theorem accumDigit_eq_some {val v : ℕ} {ch : UInt8} (hch : ¬ NotDigit ch)
    (h : accumDigit val ch = some v) : v = val * 10 + (ch.toNat - 48) ∧ v ≤ maxIntT := by
  obtain ⟨d, hd, rfl⟩ := exists_eq_digit hch
  rw [accumDigit_digit val hd] at h
  split_ifs at h with hmax
  obtain rfl := Option.some.inj h
  exact ⟨by rw [digit_toNat hd, Nat.add_sub_cancel_left], hmax⟩

/-- Five integers of which one is too large are refused. -/
theorem replyLoop_overflow {p : Parse} (hp : p.Fresh) {r : Reply}
    (hstatus : r.status = 0 ∨ r.status = 1) (hlimit : 0 ≤ r.limit) (hremaining : 0 ≤ r.remaining)
    (hretryAfter : -1 ≤ r.retryAfter) (hreset : 0 ≤ r.reset) (hr : ¬ r.Readable) :
    ∃ q, replyLoop p (encodeTail r.elements) = .error q := by
  obtain ⟨status, limit, remaining, retryAfter, reset⟩ := r
  dsimp only at hstatus hlimit hremaining hretryAfter hreset
  obtain ⟨s, rfl⟩ : ∃ s : ℕ, status = s := ⟨status.toNat, by omega⟩
  obtain ⟨l, rfl⟩ := Int.eq_ofNat_of_zero_le hlimit
  obtain ⟨m, rfl⟩ := Int.eq_ofNat_of_zero_le hremaining
  obtain ⟨t, rfl⟩ := Int.eq_ofNat_of_zero_le hreset
  rw [encodeTail_elements, replyLoop_start hp.state, replyLoop_arg1 rfl (by omega)]
  -- The first of the four numbers that does not fit is where the parser stops.
  generalize hp2 : ({ { p with state := .arg1 } with
    status := statusOf s, state := .arg2 } : Parse) = p2
  have hp2limit : p2.limit = 0 := by rw [← hp2]; exact hp.limit
  have hp2remaining : p2.remaining = 0 := by rw [← hp2]; exact hp.remaining
  have hp2retryAfter : p2.retryAfter = -1 := by rw [← hp2]; exact hp.retryAfter
  have hp2reset : p2.reset = 0 := by rw [← hp2]; exact hp.reset
  have hloopLimit := Variable.limit.loop_nat (p := p2) (by rw [← hp2]; rfl) hp2limit l
    (encode (int m) ++ (encode (int retryAfter) ++ encode (int t)))
  split_ifs at hloopLimit with hl
  swap
  · exact hloopLimit
  rw [hloopLimit, replyLoop_lf1 rfl]
  generalize hp3 : ({ { Variable.limit.set p2 l with state := Variable.limit.ended } with
    state := .arg3 } : Parse) = p3
  have hloopRemaining := Variable.remaining.loop_nat (p := p3) (by rw [← hp3]; rfl)
    (by rw [← hp3]; exact hp2remaining) m (encode (int retryAfter) ++ encode (int t))
  split_ifs at hloopRemaining with hm
  swap
  · exact hloopRemaining
  rw [hloopRemaining, replyLoop_lf2 rfl]
  generalize hp4 : ({ { Variable.remaining.set p3 m with state := Variable.remaining.ended } with
    state := .arg4 } : Parse) = p4
  have hp4state : p4.state = .arg4 := by rw [← hp4]
  have hp4retryAfter : p4.retryAfter = -1 := by rw [← hp4, ← hp3]; exact hp2retryAfter
  have hp4reset : p4.reset = 0 := by rw [← hp4, ← hp3]; exact hp2reset
  have hlast : ∀ p5 : Parse, p5.state = .arg5 → p5.reset = 0 → ¬ t ≤ maxIntT →
      ∃ q, replyLoop p5 (encode (int t)) = .error q := by
    intro p5 hstate h0 ht
    have hloop := Variable.reset.loop_nat (p := p5) hstate h0 t []
    rw [if_neg ht, List.append_nil] at hloop
    exact hloop
  have hreadable : ∀ n : ℤ, retryAfter = n → n ≤ maxIntT → ¬ t ≤ maxIntT := by
    intro n hn hmax ht
    refine hr ⟨hstatus, ⟨hlimit, ?_⟩, ⟨hremaining, ?_⟩, ⟨hretryAfter, ?_⟩, ⟨hreset, ?_⟩⟩ <;>
      dsimp only <;> omega
  rcases lt_or_ge retryAfter 0 with hneg | hnonneg
  · obtain rfl : retryAfter = -1 := by omega
    rw [replyLoop_arg4_allowed hp4state hp4retryAfter]
    exact hlast _ rfl hp4reset (hreadable (-1) rfl (by decide))
  · obtain ⟨n, rfl⟩ := Int.eq_ofNat_of_zero_le hnonneg
    have hloop := replyLoop_arg4_nat hp4state hp4retryAfter n (encode (int t))
    split_ifs at hloop with hn
    · rw [hloop]
      exact hlast _ rfl hp4reset (hreadable n rfl (by exact_mod_cast hn))
    · exact hloop

/-- The parser stops at the last byte of five integers, or refuses them. -/
theorem replyLoop_elements {p : Parse} (hp : p.Fresh) {r : Reply}
    (hstatus : r.status = 0 ∨ r.status = 1) (hlimit : 0 ≤ r.limit) (hremaining : 0 ≤ r.remaining)
    (hretryAfter : -1 ≤ r.retryAfter) (hreset : 0 ≤ r.reset) :
    ∃ q, replyLoop p (encodeTail r.elements) = .done q [] ∨
      replyLoop p (encodeTail r.elements) = .error q := by
  by_cases hreadable : r.Readable
  · obtain ⟨q, hloop, -⟩ := replyLoop_reply hp hreadable
    exact ⟨q, .inl hloop⟩
  · obtain ⟨q, hloop⟩ :=
      replyLoop_overflow hp hstatus hlimit hremaining hretryAfter hreset hreadable
    exact ⟨q, .inr hloop⟩

/-- What is accepted is accepted with its last byte. -/
theorem not_done_of_prefix {p q q' : Parse} {w w' rest : Bytes}
    (h : replyLoop p (w ++ w') = .done q [] ∨ replyLoop p (w ++ w') = .error q) (hne : w' ≠ []) :
    replyLoop p w ≠ .done q' rest := by
  intro hdone
  rw [replyLoop_append, hdone] at h
  rcases h with h | h
  · obtain ⟨-, hnil⟩ := Parsed.done.inj h
    exact hne (List.append_eq_nil_iff.mp hnil).2
  · cases h

namespace RoundTrip

/-! ## The whole reply in the buffer -/

/-- `process_header`, and then `process_reply` on what it leaves in the window, as
`read_header_handler` and `process_response` call them. -/
def readReply (io : Io) (r : RoundTrip) : Rc × RoundTrip :=
  match r.processHeader io with
  | (.ok, r) => { enterBody r with buffer := r.buffer.map Buf.rewind }.processReply r.window
  | (rc, r) => (rc, r)

/-- `ctx` is as `ngx_http_ratelimit_handler` allocates it, or as `resend_eval` has reset it. -/
inductive Ready (r : RoundTrip) : Prop where
  | start (conf : LocConf) (key : Bytes) (hparse : r.parse = (start conf key).parse)
    (hprelude : r.preludeReplies = (start conf key).preludeReplies)
  | resent (io : Io) (q : RoundTrip) (hok : (q.resendEval io).1 = .ok)
    (hparse : r.parse = (q.resendEval io).2.parse)
    (hprelude : r.preludeReplies = (q.resendEval io).2.preludeReplies)

/-- A parser that is ready for a reply has read nothing of one. -/
theorem Ready.fresh {r : RoundTrip} (h : Ready r) : r.parse.Fresh := by
  cases h with
  | start conf key hparse hprelude =>
    rw [hparse]
    exact ⟨rfl, rfl, rfl, rfl, rfl⟩
  | resent io q hok hparse hprelude =>
    rw [hparse]
    rcases resendEval_cases io q with hcase | ⟨rc, bufs, handler, timer, hcase⟩
    · rw [hcase] at hok
      cases hok
    · rw [hcase]
      exact ⟨rfl, rfl, rfl, rfl, rfl⟩

/-- The replies of the prelude are consumed. -/
theorem consumePrelude_simple {lines : List Bytes} (hlines : ∀ line ∈ lines, Line line)
    {r : RoundTrip} (hcount : r.preludeReplies = lines.length) {w : Bytes}
    (hwindow : r.window = encodeAll (lines.map .simple) ++ w) :
    consumePrelude lines.length r =
      (.ok, r.moved 0 (encodeAll (lines.map .simple)).length) := by
  induction lines generalizing r with
  | nil =>
    have hr : r.moved 0 0 = r := (show r.preludeReplies = 0 from hcount) ▸ moved_zero r
    rw [List.map_nil, encodeAll, List.length_nil, List.length_nil, hr]
    rfl
  | cons line lines ih =>
    have hLF : LF ∉ ascii '+' :: (line ++ [CR]) := by
      have hline := (hlines line (by simp)).2
      have hplus : LF ≠ ascii '+' := by decide
      have hCR : LF ≠ CR := by decide
      simp [hline, hplus, hCR]
    have hbytes : encode (.simple line) = (ascii '+' :: (line ++ [CR])) ++ [LF] := by
      rw [encode]
      simp [CRLF]
    have hcut : r.window = (ascii '+' :: (line ++ [CR])) ++
        LF :: (encodeAll (lines.map .simple) ++ w) := by
      rw [hwindow, List.map_cons, encodeAll, hbytes]
      simp
    -- The line feed that the code looks for is the one that ends this line.
    have htake := takeWhile_append_LF hLF (encodeAll (lines.map .simple) ++ w)
    rw [← hcut] at htake
    have hconsume : r.consumePreludeReply = (.ok, r.consume (encode (.simple line)).length) := by
      have hfull : (ascii '+' :: (line ++ [CR])).length ≠ r.window.length := by
        rw [hcut, List.length_append, List.length_cons (a := LF)]
        omega
      unfold consumePreludeReply
      dsimp only
      rw [htake, if_neg hfull, if_pos (by rw [hcut]; rfl), hbytes, List.length_append,
        List.length_singleton]
    have hrest : (r.moved lines.length (encode (.simple line)).length).window =
        encodeAll (lines.map .simple) ++ w := by
      rw [window_moved, hwindow, List.map_cons, encodeAll, List.append_assoc, List.drop_left]
    -- The next lines are consumed from there.
    have hnext := ih (fun l hl => hlines l (List.mem_cons_of_mem _ hl))
      (r := r.moved lines.length (encode (.simple line)).length) rfl hrest
    rw [List.length_cons, consumePrelude, hconsume, List.map_cons, encodeAll, List.length_append]
    exact hnext.trans (by rw [moved_moved])

/-- `process_header` gets behind the first byte of the reply. -/
theorem processHeader_array (io : Io) {lines : List Bytes} (hlines : ∀ line ∈ lines, Line line)
    {r : RoundTrip} (hcount : r.preludeReplies = lines.length) {w : Bytes}
    (hwindow : r.window = encodeAll (lines.map .simple) ++ ascii '*' :: w) :
    ∃ q, r.processHeader io = (.ok, q) ∧ q.window = w ∧ q.parse = { r.parse with status := 200 } ∧
      q.replyParsed = r.replyParsed ∧ q.evalFallback = r.evalFallback := by
  set k := (encodeAll (lines.map .simple)).length with hk
  have hmoved : (r.moved 0 k).window = ascii '*' :: w := by
    rw [window_moved, hwindow, hk, List.drop_left]
  have htype : (r.moved 0 k).processType io =
      (.ok, { (r.moved 0 k).consume 1 with parse.status := 200 }) := by
    unfold processType
    rw [hmoved]
    rfl
  refine ⟨{ (r.moved 0 k).consume 1 with parse.status := 200 }, ?_, ?_, rfl, rfl, rfl⟩
  · unfold processHeader
    rw [hcount, consumePrelude_simple hlines hcount hwindow]
    exact htype
  · exact (window_consume (r.moved 0 k) 1).trans (by rw [hmoved]; rfl)

/-- The first byte of an array is taken by `process_header`, the others by `process_reply`. -/
theorem readReply_array (io : Io) {lines : List Bytes} (hlines : ∀ line ∈ lines, Line line)
    {r : RoundTrip} (hcount : r.preludeReplies = lines.length) (hfresh : r.parse.Fresh) {w : Bytes}
    (hwindow : r.window = encodeAll (lines.map .simple) ++ ascii '*' :: w) :
    ∃ b : RoundTrip, readReply io r = b.processReply w ∧ b.parse.Fresh ∧
      b.replyParsed = r.replyParsed := by
  obtain ⟨q, hheader, hrest, hparse, hparsed, -⟩ := processHeader_array io hlines hcount hwindow
  refine ⟨{ enterBody q with buffer := q.buffer.map Buf.rewind }, ?_, ?_, hparsed⟩
  · rw [readReply, hheader]
    exact congrArg (processReply { enterBody q with buffer := q.buffer.map Buf.rewind }) hrest
  · have hparse' : (enterBody q).parse = { r.parse with status := 200 } := hparse
    change (enterBody q).parse.Fresh
    rw [hparse']
    exact ⟨hfresh.state, hfresh.limit, hfresh.remaining, hfresh.reset, hfresh.retryAfter⟩

/-- Behind the prelude's replies nothing has come yet. -/
theorem readReply_nil (io : Io) {lines : List Bytes} (hlines : ∀ line ∈ lines, Line line)
    {r : RoundTrip} (hcount : r.preludeReplies = lines.length)
    (hwindow : r.window = encodeAll (lines.map .simple)) :
    (readReply io r).1 = .again ∧ (readReply io r).2.replyParsed = r.replyParsed := by
  have hmoved : (r.moved 0 (encodeAll (lines.map .simple)).length).window = [] := by
    rw [window_moved, hwindow, List.drop_length]
  have hheader : r.processHeader io =
      (.again, r.moved 0 (encodeAll (lines.map .simple)).length) := by
    unfold processHeader processType
    rw [hcount, consumePrelude_simple hlines hcount (w := [])
      (by rw [hwindow, List.append_nil])]
    simp only [hmoved]
  rw [readReply, hheader]
  exact ⟨rfl, rfl⟩

/-- What `process_reply` returns and leaves. -/
theorem processReply_done {r : RoundTrip} {w rest : Bytes} {q : Parse}
    (h : replyLoop r.parse w = .done q rest) :
    (r.processReply w).1 = .ok ∧ (r.processReply w).2.parse = { q with state := r.parse.state } ∧
      (r.processReply w).2.replyParsed = true ∧ (r.processReply w).2.length = 0 := by
  simp only [processReply, h, and_self]

/-- An error of the parser is one of `process_reply`. -/
theorem processReply_error {r : RoundTrip} {w : Bytes} {q : Parse}
    (h : replyLoop r.parse w = .error q) : (r.processReply w).1 = .error := by
  simp only [processReply, h]

/-- Without the end of the reply, nothing is marked as parsed. -/
theorem processReply_not_done {r : RoundTrip} {w : Bytes}
    (h : ∀ q rest, replyLoop r.parse w ≠ .done q rest) :
    (r.processReply w).1 ≠ .ok ∧ (r.processReply w).2.replyParsed = r.replyParsed := by
  unfold processReply
  dsimp only
  cases hloop : replyLoop r.parse w with
  | again q => exact ⟨(by decide : Rc.again ≠ .ok), rfl⟩
  | error q => exact ⟨(by decide : Rc.error ≠ .ok), rfl⟩
  | done q rest => exact absurd hloop (h q rest)

end RoundTrip

open RoundTrip

/-- Five integers of a script are read back from their bytes, behind the replies to `AUTH` and
`SELECT`: as they are when the parser can count so far, and not at all otherwise. No sum wraps on
the way, and no proper prefix is taken for the whole. -/
theorem decode_encode (io : Io) {r : RoundTrip} (hr : r.Ready) {lines : List Bytes}
    (hlines : ∀ line ∈ lines, Line line) (hcount : r.preludeReplies = lines.length) {reply : Reply}
    (hstatus : reply.status = 0 ∨ reply.status = 1) (hlimit : 0 ≤ reply.limit)
    (hremaining : 0 ≤ reply.remaining) (hretryAfter : -1 ≤ reply.retryAfter)
    (hreset : 0 ≤ reply.reset) {w w' : Bytes} (hbytes : encode (.array reply.elements) = w ++ w')
    (hwindow : r.window = encodeAll (lines.map .simple) ++ w) :
    let q := (readReply io r).2
    (w' = [] → reply.Readable → (readReply io r).1 = .ok ∧
      q.parse.status = (if reply.status = 0 then 200 else 429) ∧ (q.parse.limit : ℤ) = reply.limit ∧
      (q.parse.remaining : ℤ) = reply.remaining ∧ q.parse.retryAfter = reply.retryAfter ∧
      (q.parse.reset : ℤ) = reply.reset ∧ q.replyParsed = true ∧ q.length = 0) ∧
    (w' = [] → ¬ reply.Readable → (readReply io r).1 = .error) ∧
    (w' ≠ [] → (readReply io r).1 ≠ .ok ∧ q.replyParsed = r.replyParsed) ∧
    ∀ val ch v, ¬ NotDigit ch → accumDigit val ch = some v →
      v = val * 10 + (ch.toNat - 48) ∧ v ≤ maxIntT := by
  intro q
  have hfresh := hr.fresh
  have harray : encode (.array reply.elements) = ascii '*' :: encodeTail reply.elements := by
    rw [encode, encodeTail]
  refine ⟨?_, ?_, ?_, fun val ch v => accumDigit_eq_some⟩
  · intro hw' hreadable
    rw [hw', List.append_nil] at hbytes
    rw [← hbytes, harray] at hwindow
    obtain ⟨b, hb, hp, -⟩ := readReply_array io hlines hcount hfresh hwindow
    obtain ⟨p, hloop, hreply, hst⟩ := replyLoop_reply hp hreadable
    obtain ⟨hok, hparse, hparsed, hlength⟩ := processReply_done hloop
    have hq : q = (b.processReply (encodeTail reply.elements)).2 := congrArg Prod.snd hb
    rw [hq, hparse, hb]
    refine ⟨hok, hst, ?_, ?_, ?_, ?_, hparsed, hlength⟩
    · exact congrArg Reply.limit hreply
    · exact congrArg Reply.remaining hreply
    · exact congrArg Reply.retryAfter hreply
    · exact congrArg Reply.reset hreply
  · intro hw' hreadable
    rw [hw', List.append_nil] at hbytes
    rw [← hbytes, harray] at hwindow
    obtain ⟨b, hb, hp, -⟩ := readReply_array io hlines hcount hfresh hwindow
    obtain ⟨p, hloop⟩ :=
      replyLoop_overflow hp hstatus hlimit hremaining hretryAfter hreset hreadable
    rw [hb]
    exact processReply_error hloop
  · intro hw'
    cases w with
    | nil =>
      rw [List.append_nil] at hwindow
      obtain ⟨hagain, hkeep⟩ := readReply_nil io hlines hcount hwindow
      exact ⟨by rw [hagain]; decide, hkeep⟩
    | cons ch w₁ =>
      -- What is missing makes the parser stop at its last byte, so it does not stop before.
      rw [harray, List.cons_append] at hbytes
      obtain ⟨rfl, htail⟩ := List.cons.inj hbytes
      obtain ⟨b, hb, hp, hparsed⟩ := readReply_array io hlines hcount hfresh hwindow
      obtain ⟨p, hend⟩ := replyLoop_elements hp hstatus hlimit hremaining hretryAfter hreset
      rw [htail] at hend
      obtain ⟨hne, hkeep⟩ := processReply_not_done fun q rest => not_done_of_prefix hend hw'
      have hq : q = (b.processReply w₁).2 := congrArg Prod.snd hb
      rw [hq, hb]
      exact ⟨hne, hkeep.trans hparsed⟩

/-- A rejection read after `NOSCRIPT`, and one that is too large to be read in a new `ctx`. -/
theorem decode_encode_rejection :
    let conf := LocConf.ofZone ⟨.gcra, 5, 60, 0, ⟨[], []⟩⟩ fun _ => ⟨[], []⟩
    let window : Bytes → Buf := fun bytes => ⟨4096, 0, bytes.length, bytes⟩
    let q := ((start conf []).resendEval (.good [] [])).2
    let reply : Reply := ⟨1, 5, 0, 12, 60⟩
    let large : Reply := ⟨0, 5, 4, -1, maxIntT + 1⟩
    (readReply (.good [] []) { q with
      buffer := some (window (encode (.array reply.elements))) }).1 = .ok ∧
    (readReply (.good [] []) { start conf [] with
      buffer := some (window (encode (.array large.elements))) }).1 = .error := by
  intro conf window q reply large
  have hlines : ∀ line ∈ ([] : List Bytes), Line line := by decide
  constructor
  · have hstatus : reply.status = 0 ∨ reply.status = 1 := by decide
    exact ((decode_encode (.good [] [])
      (r := { q with buffer := some (window (encode (.array reply.elements))) })
      (.resent (.good [] []) (start conf []) rfl rfl rfl) hlines rfl hstatus (by decide) (by decide)
      (by decide) (by decide) (List.append_nil (encode (.array reply.elements))).symm rfl).1 rfl
      (by decide)).1
  · have hstatus : large.status = 0 ∨ large.status = 1 := by decide
    exact (decode_encode (.good [] [])
      (r := { start conf [] with buffer := some (window (encode (.array large.elements))) })
      (.start conf [] rfl rfl) hlines rfl hstatus (by decide) (by decide) (by decide) (by decide)
      (List.append_nil (encode (.array large.elements))).symm rfl).2.1 rfl (by decide)

end NginxRatelimit
