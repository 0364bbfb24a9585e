import NginxRatelimit.Request.Layout

/-!
# The language of the reply parser

`process_header` and `process_reply` are given the reply in pieces. Together they accept it when it
is a `Layout`, and refuse every other complete array (`takesReply_iff_layout`). So they do what the
grammar asks for just where the bytes do not begin with a layout that is not exact
(`reply_grammar_iff`).
-/

namespace NginxRatelimit

open Library

/-! ## Replies in pieces -/

/-- What `process_reply` returns at the end of its loop. -/
def Parsed.rc : Parsed → Rc
  | again _ => .again
  | error _ => .error
  | done _ _ => .ok

namespace RoundTrip

/-- `process_reply` is called for one piece after the other, while it returns `NGX_AGAIN`. -/
def feed : List Bytes → RoundTrip → Rc × RoundTrip
  | [], r => (.again, r)
  | c :: pieces, r =>
    match r.processReply c with
    | (.again, r) => feed pieces r
    | result => result

/-- Pieces are received and given to `process_header` while it returns `NGX_AGAIN`, and when the
array has begun, what is left of the window and the later pieces to `process_reply`. -/
def readPieces (io : Io) : List Bytes → RoundTrip → Rc × RoundTrip
  | [], r => (.again, r)
  | c :: pieces, r =>
    match { r with buffer := r.buffer.map fun b : Buf => b.fill c }.processHeader io with
    | (.again, r) => readPieces io pieces r
    | (.ok, r) =>
      feed (r.window :: pieces) { enterBody r with buffer := r.buffer.map Buf.rewind }
    | result => result

variable {r : RoundTrip}

/-- The pieces do not matter to the parser. -/
theorem feed_eq (pieces : List Bytes) :
    (feed pieces r).1 = (replyLoop r.parse pieces.flatten).rc ∧
      (feed pieces r).2.evalFallback = r.evalFallback := by
  induction pieces generalizing r with
  | nil => exact ⟨rfl, rfl⟩
  | cons c pieces ih =>
    rw [List.flatten_cons, replyLoop_append, feed]
    unfold processReply
    dsimp only
    cases hloop : replyLoop r.parse c with
    | again p => exact ih
    | error p => exact ⟨rfl, rfl⟩
    | done p rest => exact ⟨rfl, rfl⟩

/-- `EVAL` stays sent. -/
theorem evalFallback_processHeader (io : Io) (h : r.evalFallback = true) :
    (r.processHeader io).2.evalFallback = true := by
  have hstep := processHeader_step io r
  generalize r.processHeader io = result at hstep
  cases hstep with
  | again left k t hstands => exact h
  | array k rest hstands => exact h
  | refused rc left k rest hrc hstands => exact h
  | fallback k line rest hstands => exact resendEval_evalFallback io (r.moved 0 k)

/-- Once `EVAL` has been sent, no piece changes that. -/
theorem evalFallback_readPieces (io : Io) (pieces : List Bytes) (h : r.evalFallback = true) :
    (readPieces io pieces r).2.evalFallback = true := by
  induction pieces generalizing r with
  | nil => exact h
  | cons c pieces ih =>
    have hheader := evalFallback_processHeader (r := { r with
      buffer := r.buffer.map fun b : Buf => b.fill c }) io h
    rw [readPieces]
    split
    · rename_i r' heq
      rw [heq] at hheader
      exact ih hheader
    · rename_i r' heq
      rw [heq] at hheader
      exact (feed_eq _).2.trans hheader
    · exact hheader

/-- A round trip to which the reply is to come: the prelude's replies are consumed, and nothing more
has come. -/
structure Expecting (r : RoundTrip) : Prop where
  parse : r.parse.Fresh
  preludeReplies : r.preludeReplies = 0
  buffer : ∃ b, r.buffer = some b ∧ b.window = []

/-- An array is read by the parser, however it is cut. -/
theorem readPieces_array (io : Io) (h : Expecting r) {pieces : List Bytes} {w : Bytes}
    (hpieces : pieces.flatten = ascii '*' :: w) :
    (readPieces io pieces r).1 = (replyLoop { r.parse with status := 200 } w).rc ∧
      (readPieces io pieces r).2.evalFallback = r.evalFallback := by
  induction pieces generalizing r with
  | nil => cases hpieces
  | cons c pieces ih =>
    obtain ⟨b, hb, hwindow⟩ := h.buffer
    set filled : RoundTrip := { r with buffer := r.buffer.map fun b : Buf => b.fill c } with hfilled
    have hfill : filled.window = c := by
      simp [hfilled, window, hb, Buf.fill, hwindow]
    rw [readPieces]
    -- An empty piece leaves the handler waiting; the first byte of another is the '*'.
    cases c with
    | nil =>
      have hheader : filled.processHeader io = (.again, filled) := by
        unfold processHeader processType
        rw [show filled.preludeReplies = 0 from h.preludeReplies, consumePrelude]
        simp only [hfill]
      rw [hheader]
      refine ih ⟨h.parse, h.preludeReplies, b.fill [], ?_, ?_⟩ hpieces
      · rw [hfilled, hb]
        rfl
      · simp [Buf.fill, hwindow]
    | cons ch c =>
      rw [List.flatten_cons, List.cons_append] at hpieces
      obtain ⟨rfl, rfl⟩ := List.cons.inj hpieces
      obtain ⟨q, hheader, hrest, hparse, -, hfallback⟩ := processHeader_array io
        (List.forall_mem_nil Resp.Line) (r := filled) h.preludeReplies hfill
      rw [hheader]
      dsimp only
      -- From here on the pieces are fed to the parser.
      have hfeed := feed_eq (r := { enterBody q with buffer := q.buffer.map Buf.rewind })
        (q.window :: pieces)
      have hq : (enterBody q).parse = { r.parse with status := 200 } := hparse
      rw [show ({ enterBody q with buffer := q.buffer.map Buf.rewind } : RoundTrip).parse =
        { r.parse with status := 200 } from hq, List.flatten_cons, hrest] at hfeed
      exact ⟨by rw [hrest]; exact hfeed.1, by rw [hrest]; exact hfeed.2.trans hfallback⟩

/-- The reply to the command that was sent is parsed to its end. -/
def TakesReply (io : Io) (pieces : List Bytes) (r : RoundTrip) : Prop :=
  (readPieces io pieces r).1 = .ok ∧ (readPieces io pieces r).2.evalFallback = r.evalFallback

/-- Whether a reply is taken can be computed. -/
instance (io : Io) (pieces : List Bytes) (r : RoundTrip) : Decidable (TakesReply io pieces r) :=
  inferInstanceAs (Decidable (_ ∧ _))

/-- Nothing else is: an error line is refused, or leads to `EVAL` and another reply. -/
theorem not_takesReply_of_not_array (io : Io) {pieces : List Bytes} (hprelude : r.preludeReplies = 0)
    {b : Buf} (hb : r.buffer = some b) (hne : ∀ w, b.window ++ pieces.flatten ≠ ascii '*' :: w) :
    ¬ TakesReply io pieces r := by
  induction pieces generalizing r b with
  | nil => exact fun h => (by decide : Rc.again ≠ .ok) h.1
  | cons c pieces ih =>
    set filled : RoundTrip := { r with buffer := r.buffer.map fun b : Buf => b.fill c } with hfilled
    have hfill : filled.buffer = some (b.fill c) := by
      rw [hfilled, hb]
      rfl
    have hnext : ∀ w, (b.fill c).window ++ pieces.flatten ≠ ascii '*' :: w := by
      intro w hw
      refine hne w ?_
      rw [← hw]
      simp [Buf.fill]
    have hmore : ¬ TakesReply io pieces filled := ih hprelude hfill hnext
    have hheader : filled.processHeader io = filled.processType io := by
      unfold processHeader
      rw [show filled.preludeReplies = 0 from hprelude]
      rfl
    have hwindow : filled.window = b.window ++ c := by
      simp [window, hfill, Buf.fill]
    unfold TakesReply readPieces
    rw [← hfilled, hheader]
    unfold processType
    -- As `process_header` goes by the first byte, so does the proof.
    cases hw : filled.window with
    | nil => exact hmore
    | cons chr rest =>
      have hstar : chr ≠ ascii '*' := by
        rintro rfl
        refine hne (rest ++ pieces.flatten) ?_
        rw [List.flatten_cons, ← List.append_assoc, ← hwindow, hw]
        rfl
      dsimp only
      rw [if_neg hstar]
      by_cases hminus : chr = ascii '-'
      · rw [if_pos hminus]
        by_cases hLF : LF ∈ rest
        · rw [if_neg (not_not.mpr hLF)]
          split_ifs with hnoscript
          · rw [Bool.and_eq_true, Bool.not_eq_true'] at hnoscript
            have hfirst : r.evalFallback = false := hnoscript.1
            have hlatched := resendEval_evalFallback io filled
            have hrc := resendEval_rc io filled
            cases hresend : filled.resendEval io with
            | mk rc r₂ =>
              rw [hresend] at hlatched hrc
              rintro ⟨hok, hfallback⟩
              rcases hrc with hrc | hrc | hrc
              · -- What is accepted afterwards is the reply to `EVAL`.
                rw [show rc = .ok from hrc] at hfallback
                have hend := evalFallback_readPieces io pieces hlatched
                exact absurd (hend.symm.trans (hfallback.trans hfirst)) (by decide)
              · rw [show rc = .error from hrc] at hok
                cases hok
              · rw [show rc = .http 502 from hrc] at hok
                cases hok
          · rintro ⟨hok, -⟩
            cases hok
        · rw [if_pos hLF]
          exact hmore
      · rw [if_neg hminus]
        rintro ⟨hok, -⟩
        cases hok

/-- What is accepted is what the layouts describe. -/
theorem takesReply_iff_layout (io : Io) (h : Expecting r) (pieces : List Bytes) :
    TakesReply io pieces r ↔
      ∃ (l : Layout) (rest : Bytes), pieces.flatten = ascii '*' :: l.bytesThen rest := by
  -- An array is read by the parser, and nothing else is accepted.
  by_cases harray : ∃ w, pieces.flatten = ascii '*' :: w
  · obtain ⟨w, hw⟩ := harray
    obtain ⟨hrc, hfallback⟩ := readPieces_array io h hw
    have hfresh : Parse.Fresh { r.parse with status := 200 } :=
      ⟨h.parse.state, h.parse.limit, h.parse.remaining, h.parse.reset, h.parse.retryAfter⟩
    have hdone : TakesReply io pieces r ↔
        ∃ q tail, replyLoop { r.parse with status := 200 } w = .done q tail := by
      unfold TakesReply
      rw [hrc]
      cases hloop : replyLoop { r.parse with status := 200 } w with
      | again q =>
        refine ⟨fun htakes => absurd htakes.1 (by decide : Rc.again ≠ .ok), ?_⟩
        rintro ⟨_, _, hq⟩
        cases hq
      | error q =>
        refine ⟨fun htakes => absurd htakes.1 (by decide : Rc.error ≠ .ok), ?_⟩
        rintro ⟨_, _, hq⟩
        cases hq
      | done q tail => exact ⟨fun _ => ⟨q, tail, rfl⟩, fun _ => ⟨rfl, hfallback⟩⟩
    rw [hdone, done_iff_layout hfresh, hw]
    constructor
    · rintro ⟨l, rest, rfl⟩
      exact ⟨l, rest, rfl⟩
    · rintro ⟨l, rest, heq⟩
      exact ⟨l, rest, (List.cons.inj heq).2⟩
  · obtain ⟨b, hb, hwindow⟩ := h.buffer
    constructor
    · intro htakes
      refine absurd htakes (not_takesReply_of_not_array io h.preludeReplies hb ?_)
      intro w hw
      rw [hwindow, List.nil_append] at hw
      exact harray ⟨w, hw⟩
    · rintro ⟨l, rest, heq⟩
      exact absurd ⟨_, heq⟩ harray

end RoundTrip

open RoundTrip

/-- The parser accepts the replies of the grammar and refuses other complete replies, just where the
bytes do not begin with a reply that is loosely written. -/
theorem reply_grammar_iff (io : Io) {r : RoundTrip} (h : Expecting r) (pieces : List Bytes) :
    ((TakesReply io pieces r ↔ Grammar pieces.flatten) ∧
      (Complete pieces.flatten → ¬ Grammar pieces.flatten → (readPieces io pieces r).1 = .error)) ↔
    ¬ ∃ (l : Layout), ¬ l.Exact ∧ l.bytes <+: pieces.flatten := by
  have htakes := takesReply_iff_layout io h pieces
  constructor
  · -- The bytes are accepted by this layout, and would be by an exact one, but the two are the same.
    rintro ⟨hiff, -⟩ ⟨l, hexact, rest, hbytes⟩
    rw [Layout.bytes_append] at hbytes
    obtain ⟨l', rest', hexact', hbytes'⟩ := grammar_iff_exact.mp
      (hiff.mp (htakes.mpr ⟨l, rest, hbytes.symm⟩))
    have hsame := Layout.unique (List.cons.inj (hbytes.trans hbytes')).2
    exact hexact (hsame ▸ hexact')
  · intro hnone
    have hiff : TakesReply io pieces r ↔ Grammar pieces.flatten := by
      rw [htakes, grammar_iff_exact]
      constructor
      · rintro ⟨l, rest, hbytes⟩
        refine ⟨l, rest, ?_, hbytes⟩
        by_contra hexact
        exact hnone ⟨l, hexact, rest, by rw [Layout.bytes_append, hbytes]⟩
      · rintro ⟨l, rest, -, hbytes⟩
        exact ⟨l, rest, hbytes⟩
    refine ⟨hiff, fun hcomplete hnot => ?_⟩
    obtain ⟨w, hw⟩ : ∃ w, pieces.flatten = ascii '*' :: w := by
      obtain ⟨l₁, l₂, l₃, l₄, l₅, rest, -, hbytes⟩ := hcomplete
      exact ⟨_, by rw [hbytes]; rfl⟩
    obtain ⟨hrc, hfallback⟩ := readPieces_array io h hw
    have hfresh : Parse.Fresh { r.parse with status := 200 } :=
      ⟨h.parse.state, h.parse.limit, h.parse.remaining, h.parse.reset, h.parse.retryAfter⟩
    rw [hw] at hcomplete
    rcases done_or_error_of_complete hfresh hcomplete with ⟨q, tail, hloop⟩ | ⟨q, hloop⟩
    · rw [hloop] at hrc
      exact absurd (hiff.mp ⟨hrc, hfallback⟩) hnot
    · rw [hloop] at hrc
      exact hrc

/-- A rejection of the contract, cut in the middle of a number. -/
theorem reply_grammar_iff_rejection :
    let r := { start (LocConf.ofZone ⟨.gcra, 5, 60, 0, ⟨[], []⟩⟩ fun _ => ⟨[], []⟩) [] with
      buffer := some (.alloc 4096) }
    let pieces := [text "*5\r\n:1\r\n:5", text "\r\n:0\r\n:12\r\n:60\r\n"]
    TakesReply (.good [] []) pieces r ∧ ¬ ∃ (l : Layout), ¬ l.Exact ∧ l.bytes <+: pieces.flatten := by
  intro r pieces
  have hr : Expecting r := ⟨⟨rfl, rfl, rfl, rfl, rfl⟩, rfl, .alloc 4096, rfl, rfl⟩
  have hgrammar : Grammar pieces.flatten :=
    ⟨text "1", text "5", text "0", text "12", text "60", [], .inr rfl, by decide +kernel,
      by decide +kernel, .inl (by decide +kernel), by decide +kernel, by decide +kernel⟩
  have htakes : TakesReply (.good [] []) pieces r := by decide +kernel
  exact ⟨htakes, (reply_grammar_iff (.good [] []) hr pieces).mp
    ⟨⟨fun _ => hgrammar, fun _ => htakes⟩, fun _ hnot => absurd hgrammar hnot⟩⟩

/-- The fourth element -11 is accepted. -/
theorem takesReply_repunit :
    let r := { start (LocConf.ofZone ⟨.gcra, 5, 60, 0, ⟨[], []⟩⟩ fun _ => ⟨[], []⟩) [] with
      buffer := some (.alloc 4096) }
    let pieces := [text "*5\r\n:1\r\n:5\r\n:0\r\n:-11\r\n:60\r\n"]
    ¬ (TakesReply (.good [] []) pieces r ↔ Grammar pieces.flatten) := by
  intro r pieces
  have htakes : TakesReply (.good [] []) pieces r := by decide +kernel
  have hretry : LooseRetryFrom 0 (text ":-11") :=
    ⟨[ascii ':'], by decide +kernel, .inr ⟨2, by decide +kernel⟩⟩
  set l : Layout := ⟨1, 1, ascii '1', 1, text ":5", text ":0", text ":-11", text ":60",
    by decide +kernel, by decide +kernel, by decide +kernel, hretry, by decide +kernel⟩ with hl
  intro hiff
  obtain ⟨l', rest', hexact, hbytes⟩ := grammar_iff_exact.mp (hiff.mp htakes)
  have hlayout : pieces.flatten = ascii '*' :: l.bytesThen [] := rfl
  obtain rfl : l = l' := Layout.unique (List.cons.inj (hlayout.symm.trans hbytes)).2
  obtain ⟨R, hR, hcases⟩ := hexact.retryAfter
  obtain rfl : text "-11" = R := (List.cons.inj hR).2
  exact absurd hcases (by decide +kernel)

end NginxRatelimit
