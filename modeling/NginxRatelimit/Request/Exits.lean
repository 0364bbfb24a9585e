import NginxRatelimit.Request.Reader
import NginxRatelimit.Request.Verdict

/-!
# Why a round trip ends

`Exit` is a label that the handlers record when they finalize. `Saw` says what each label stands
for, in terms of what the handlers were told in the event: a `recv` that returned 0, an error of
`process_header` or of `process_reply`, a `send` that failed. `finalized_saw` says that the label is
right in every run: in some read or write event the handlers saw what it says, and finalized the
round trip for it.
-/

namespace NginxRatelimit

namespace RoundTrip

/-! ## What is seen -/

/-- What an event has to show for a reason to finalize; `q` is the state that is finalized. -/
def Saw (io : Io) (q : RoundTrip) : Exit → Prop
  | .replied => ∃ q₀ bytes, processReply q₀ bytes = (.ok, q)
  | .connectError => io.requestSent = false ∧ io.connectError = true
  | .timeout => io.timedout = true
  | .eof => ∃ q₀, ∃ x ∈ io.recvs, recv q₀ q₀.room x = (.zero, q)
  | .recvError => ∃ q₀, ∃ x ∈ io.recvs, recv q₀ q₀.room x = (.error, q)
  | .sendError => .error ∈ io.sends ∧ ∃ q₀, sendEval io q₀ = (.http 502, q)
  | .refused => (∃ q₀ rc, (rc = .error ∨ rc = .invalidHeader) ∧ processHeader io q₀ = (rc, q)) ∨
      ∃ q₀ bytes, processReply q₀ bytes = (.error, q)
  | .tooBig => q.room = 0 ∧ ∃ q₀, processHeader io q₀ = (.again, q)
  | .internal => io.bufferAlloc = false ∨ io.readEvent = false ∨ io.writeEvent = false ∨
      io.nodelay = false ∨ io.flush = false

/-- A round trip that goes on: it has no exit, and nothing of its connection is left to notice. -/
structure Open (r : RoundTrip) : Prop where
  attached : r.attached = true
  exit : r.exit = none
  readEof : r.readEof = false
  readError : r.readError = false
  length : r.readHandler = .body → r.length ≠ 0

/-- What an event leaves: a round trip that goes on, or one that is finalized for what it saw. -/
inductive Exits (io : Io) (r : RoundTrip) : Prop where
  | goesOn (h : Open r)
  | ends (q : RoundTrip) (rc : Rc) (why : Exit) (hattached : q.attached = true)
    (hsaw : Saw io q why) (hr : r = q.finalizeUpstreamRequest rc why)

/-- What the body's loop is about to notice. -/
structure Noticed (io : Io) (r : RoundTrip) : Prop where
  attached : r.attached = true
  replied : r.length = 0 → Saw io r .replied
  eof : r.length ≠ 0 → r.readEof = true → Saw io r .eof
  recvError : r.length ≠ 0 → r.readEof = false → Saw io r .recvError
  flag : r.length ≠ 0 → r.readEof = false → r.readError = true

variable {io : Io}

/-! ## Sending -/

/-- `send_eval` returns 502 when a `send` failed, an error when no write event was registered. -/
theorem sendLoop_saw (io : Io) (sends : List Send) (r : RoundTrip) :
    ((sendLoop io sends r).1 = .http 502 → .error ∈ sends) ∧
      ((sendLoop io sends r).1 = .error → io.writeEvent = false) := by
  fun_induction sendLoop io sends r with
  | case8 _ _ _ _ _ n sends ih => exact ⟨fun h => List.mem_cons_of_mem _ (ih.1 h), ih.2⟩
  | _ => simp_all

/-- So does `resend_eval`. -/
theorem resendEval_saw {r q : RoundTrip} (h : r.resendEval io = (.http 502, q)) :
    Saw io q .sendError := by
  unfold resendEval at h
  split at h
  · rename_i r₁ _
    refine ⟨?_, _, h⟩
    have hsend := (sendLoop_saw io io.sends { r₁ with
      buffer := r₁.buffer.map Buf.clear
      parse := ⟨.start, r₁.parse.status, 0, 0, -1, 0⟩
      preludeReplies := 0 }).1
    exact hsend (congrArg Prod.fst h)
  · cases h

/-- `process_header` returns 502 for nothing else. -/
theorem processHeader_saw {r q : RoundTrip} (h : r.processHeader io = (.http 502, q)) :
    Saw io q .sendError := by
  have hstep := processHeader_step io r
  rw [h] at hstep
  generalize hresult : ((.http 502, q) : Rc × RoundTrip) = result at hstep
  cases hstep with
  | again left k t _ => cases hresult
  | array k rest _ => cases hresult
  | refused rc left k rest hrc _ =>
    obtain ⟨rfl, -⟩ := Prod.mk.inj hresult
    exact absurd hrc (by decide)
  | fallback k line rest _ =>
    obtain ⟨hrc, hq⟩ := Prod.mk.inj hresult
    split_ifs at hrc
    exact resendEval_saw (r := r.moved 0 k) (Prod.ext hrc.symm hq.symm)

/-! ## The handlers -/

/-- `process_header` finalizes nothing and touches no flag of the connection. -/
theorem Open.processHeader {r : RoundTrip} (h : Open r) (io : Io) :
    Open (r.processHeader io).2 := by
  have hstep := processHeader_step io r
  generalize r.processHeader io = result at hstep
  cases hstep with
  | again left k t _ => exact ⟨h.attached, h.exit, h.readEof, h.readError, h.length⟩
  | array k rest _ => exact ⟨h.attached, h.exit, h.readEof, h.readError, h.length⟩
  | refused rc left k rest _ _ => exact ⟨h.attached, h.exit, h.readEof, h.readError, h.length⟩
  | fallback k line rest _ =>
    dsimp only
    rcases resendEval_cases io (r.moved 0 k) with hcase | ⟨rc, bufs, handler, timer, hcase⟩
    · rw [hcase]
      exact ⟨h.attached, h.exit, h.readEof, h.readError, h.length⟩
    · rw [hcase]
      exact ⟨h.attached, h.exit, h.readEof, h.readError, h.length⟩

/-- A call of `process_reply` in the body, and what it leaves. -/
theorem Open.processReply {r : RoundTrip} (h : Open r) (hlength : r.length ≠ 0) (bytes : Bytes) :
    (r.processReply bytes).2.attached = true ∧
      ((r.processReply bytes).1 = .again →
        Open (r.processReply bytes).2 ∧ (r.processReply bytes).2.length ≠ 0) ∧
      ((r.processReply bytes).1 = .ok → (r.processReply bytes).2.length = 0) := by
  unfold RoundTrip.processReply
  dsimp only
  split
  · exact ⟨h.attached, fun _ => ⟨⟨h.attached, h.exit, h.readEof, h.readError, h.length⟩, hlength⟩,
      nofun⟩
  · exact ⟨h.attached, nofun, nofun⟩
  · exact ⟨h.attached, nofun, fun _ => rfl⟩

/-- A reply that was parsed to its end is about to be noticed. -/
theorem Noticed.of_replied {r q : RoundTrip} {bytes : Bytes} (h : Open r) (hlength : r.length ≠ 0)
    (hq : r.processReply bytes = (.ok, q)) : Noticed io q := by
  obtain ⟨hattached, -, hdone⟩ := h.processReply hlength bytes
  rw [hq] at hattached hdone
  have hzero := hdone rfl
  exact ⟨hattached, fun _ => ⟨r, bytes, hq⟩, fun hne => absurd hzero hne,
    fun hne => absurd hzero hne, fun hne => absurd hzero hne⟩

/-- A `recv` of 0 sets the flag that the next turn of the loop notices. -/
theorem Noticed.of_eof {r q : RoundTrip} {x : Recv} (h : Open r) (hlength : r.length ≠ 0)
    (hx : x ∈ io.recvs) (hq : r.recv r.room x = (.zero, q)) : Noticed io q := by
  obtain rfl : q = { r with readEof := true } := recv_zero hq
  exact ⟨h.attached, fun hzero => absurd hzero hlength, fun _ _ => ⟨r, x, hx, hq⟩,
    fun _ heof => Bool.noConfusion heof, fun _ heof => Bool.noConfusion heof⟩

/-- So does a `recv` that fails. -/
theorem Noticed.of_recvError {r q : RoundTrip} {x : Recv} (h : Open r) (hlength : r.length ≠ 0)
    (hx : x ∈ io.recvs) (hq : r.recv r.room x = (.error, q)) : Noticed io q := by
  obtain rfl : q = { r with readError := true } := recv_error hq
  exact ⟨h.attached, fun hzero => absurd hzero hlength,
    fun _ heof => absurd (h.readEof.symm.trans heof) Bool.false_ne_true,
    fun _ _ => ⟨r, x, hx, hq⟩, fun _ _ => rfl⟩

/-- The end of the body's loop. -/
theorem waitForBody_exits {r : RoundTrip} (h : Open r) : Exits io (r.waitForBody io) := by
  unfold waitForBody
  split
  · exact .goesOn h
  · rename_i hevent
    exact .ends r _ .internal h.attached (.inr (.inl (Bool.eq_false_of_not_eq_true hevent))) rfl

/-- What precedes a read of the loop finalizes for what the read before it has shown. -/
theorem doWrite_exits {write : Bool} {r : RoundTrip} {goOn : RoundTrip → RoundTrip}
    (h : (Open r ∧ r.length ≠ 0) ∨ (Noticed io r ∧ write = true))
    (hgo : ∀ r, Open r → r.length ≠ 0 → Exits io (goOn r)) : Exits io (doWrite write r goOn) := by
  unfold doWrite
  rcases h with ⟨hopen, hlength⟩ | ⟨hnoticed, rfl⟩
  · rw [if_neg hlength, hopen.readEof, hopen.readError]
    split
    · exact hgo _ ⟨hopen.attached, hopen.exit, hopen.readEof, hopen.readError, hopen.length⟩ hlength
    · exact hgo r hopen hlength
  · rw [if_pos rfl]
    split_ifs with hzero heof herror
    · exact .ends r _ .replied hnoticed.attached (hnoticed.replied hzero) rfl
    · exact .ends r _ .eof hnoticed.attached (hnoticed.eof hzero heof) rfl
    · exact .ends r _ .recvError hnoticed.attached
        (hnoticed.recvError hzero (Bool.eq_false_of_not_eq_true heof)) rfl
    · exact absurd (hnoticed.flag hzero (Bool.eq_false_of_not_eq_true heof)) herror

/-- The loop of the body. -/
theorem redisLoop_exits {recvs : List Recv} (hrecvs : ∀ x ∈ recvs, x ∈ io.recvs) {write : Bool}
    {r : RoundTrip} (h : (Open r ∧ r.length ≠ 0) ∨ (Noticed io r ∧ write = true)) :
    Exits io (redisLoop io write recvs r) := by
  induction recvs generalizing write r with
  | nil =>
    rw [redisLoop]
    exact doWrite_exits h fun r hr _ => waitForBody_exits hr
  | cons x xs ih =>
    rw [redisLoop]
    refine doWrite_exits h fun r hr hlength => ?_
    obtain ⟨hx, hxs⟩ := List.forall_mem_cons.mp hrecvs
    split
    · exact waitForBody_exits hr
    · cases hrecv : r.recv r.room x with
      | mk received r₁ =>
        cases received with
        | again =>
          obtain rfl := recv_again hrecv
          exact waitForBody_exits hr
        | zero => exact ih hxs (.inr ⟨.of_eof hr hlength hx hrecv, rfl⟩)
        | error => exact ih hxs (.inr ⟨.of_recvError hr hlength hx hrecv, rfl⟩)
        | bytes data =>
          obtain ⟨rest, -, -, -, rfl⟩ := recv_bytes hrecv
          have hopen : Open { r with sock := rest } :=
            ⟨hr.attached, hr.exit, hr.readEof, hr.readError, hr.length⟩
          obtain ⟨hattached, hagain, -⟩ := hopen.processReply hlength data
          have hrc := processReply_rc { r with sock := rest } data
          dsimp only
          cases hp : processReply { r with sock := rest } data with
          | mk rc r₂ =>
            rw [hp] at hattached hagain hrc
            rcases hrc with rfl | rfl | rfl
            · exact ih hxs (.inr ⟨.of_replied hopen hlength hp, rfl⟩)
            · exact ih hxs (.inl (hagain rfl))
            · exact .ends r₂ _ .refused hattached (.inr ⟨_, data, hp⟩) rfl

/-- `read_body_handler`. -/
theorem readBodyHandler_exits {recvs : List Recv} (hrecvs : ∀ x ∈ recvs, x ∈ io.recvs)
    {r : RoundTrip} (h : Open r) (hlength : r.length ≠ 0) :
    Exits io (r.readBodyHandler io recvs) := by
  unfold readBodyHandler
  split
  · rename_i htimedout
    exact .ends r _ .timeout h.attached htimedout rfl
  · exact redisLoop_exits hrecvs (.inl ⟨h, hlength⟩)

/-- `process_response`, as `read_header_handler` calls it. -/
theorem processResponse_exits {recvs : List Recv} (hrecvs : ∀ x ∈ recvs, x ∈ io.recvs)
    {r : RoundTrip} (h : Open r) : Exits io ({ r with length := -1 }.processResponse io recvs) := by
  have hlength : (-1 : ℤ) ≠ 0 := by decide
  have hbody : ∀ buffer, Open { enterBody r with buffer := buffer } := fun buffer =>
    ⟨h.attached, h.exit, h.readEof, h.readError, fun _ => hlength⟩
  unfold processResponse
  dsimp only
  split
  · rename_i hnodelay
    rw [Bool.not_eq_true'] at hnodelay
    exact .ends (enterBody r) _ .internal h.attached (.inr (.inr (.inr (.inl hnodelay)))) rfl
  · split
    · -- The bytes behind the '*' are parsed at once.
      have hopen := hbody (r.buffer.map Buf.rewind)
      obtain ⟨hattached, hagain, hdone⟩ := hopen.processReply hlength r.window
      have hrc := processReply_rc { enterBody r with buffer := r.buffer.map Buf.rewind } r.window
      have hwindow : window { r with
          length := -1, readHandler := .body, writeHandler := .dummy } = r.window := rfl
      simp only [enterBody] at hattached hagain hdone hrc
      rw [hwindow]
      cases hp : RoundTrip.processReply { r with
          length := -1, readHandler := .body, writeHandler := .dummy
          buffer := r.buffer.map Buf.rewind } r.window with
      | mk rc r₂ =>
        rw [hp] at hattached hagain hdone hrc
        rcases hrc with rfl | rfl | rfl
        · dsimp only
          rw [if_pos (hdone rfl)]
          exact .ends r₂ _ .replied hattached ⟨_, r.window, hp⟩ rfl
        · dsimp only
          rw [if_neg (hagain rfl).2]
          exact readBodyHandler_exits hrecvs (hagain rfl).1 (hagain rfl).2
        · exact .ends r₂ _ .refused hattached (.inr ⟨_, r.window, hp⟩) rfl
    · split
      · rename_i hflush
        rw [Bool.not_eq_true'] at hflush
        exact .ends (enterBody r).clearBuffer _ .internal h.attached
          (.inr (.inr (.inr (.inr hflush)))) rfl
      · exact readBodyHandler_exits hrecvs (hbody (r.buffer.map Buf.clear)) hlength

/-- The loop of the header. -/
theorem headerLoop_exits {recvs : List Recv} (hrecvs : ∀ x ∈ recvs, x ∈ io.recvs) {r : RoundTrip}
    (h : Open r) : Exits io (headerLoop io recvs r) := by
  have hwait : ∀ {r : RoundTrip}, Open r → Exits io
      (if io.readEvent then r else r.finalizeUpstreamRequest (.http 500) .internal) := by
    intro r h
    split
    · exact .goesOn h
    · rename_i hevent
      exact .ends r _ .internal h.attached (.inr (.inl (Bool.eq_false_of_not_eq_true hevent))) rfl
  induction recvs generalizing r with
  | nil =>
    rw [headerLoop]
    exact hwait h
  | cons x xs ih =>
    obtain ⟨hx, hxs⟩ := List.forall_mem_cons.mp hrecvs
    rw [headerLoop]
    cases hrecv : r.recv r.room x with
    | mk received r₁ =>
      cases received with
      | again =>
        obtain rfl := recv_again hrecv
        exact hwait h
      | zero =>
        have hattached : r₁.attached = true := by
          rw [recv_zero hrecv]
          exact h.attached
        exact .ends r₁ _ .eof hattached ⟨r, x, hx, hrecv⟩ rfl
      | error =>
        have hattached : r₁.attached = true := by
          rw [recv_error hrecv]
          exact h.attached
        exact .ends r₁ _ .recvError hattached ⟨r, x, hx, hrecv⟩ rfl
      | bytes data =>
        obtain ⟨rest, -, -, -, rfl⟩ := recv_bytes hrecv
        have hopen : Open { r with
            sock := rest, buffer := r.buffer.map fun b : Buf => b.fill data } :=
          ⟨h.attached, h.exit, h.readEof, h.readError, h.length⟩
        have hafter := hopen.processHeader io
        have hrc := processHeader_rc io { r with
          sock := rest, buffer := r.buffer.map fun b : Buf => b.fill data }
        dsimp only
        cases hp : processHeader io { r with
            sock := rest, buffer := r.buffer.map fun b : Buf => b.fill data } with
        | mk rc r₂ =>
          rw [hp] at hafter hrc
          rcases hrc with rfl | rfl | rfl | rfl | rfl
          · exact processResponse_exits hxs hafter
          · dsimp only
            split
            · rename_i hroom
              exact .ends r₂ _ .tooBig hafter.attached ⟨hroom, _, hp⟩ rfl
            · exact ih hxs hafter
          · exact .ends r₂ _ .refused hafter.attached (.inl ⟨_, _, .inl rfl, hp⟩) rfl
          · exact .ends r₂ _ .refused hafter.attached (.inl ⟨_, _, .inr rfl, hp⟩) rfl
          · exact .ends r₂ _ .sendError hafter.attached (processHeader_saw hp) rfl

/-- `read_header_handler`. -/
theorem readHeaderHandler_exits {r : RoundTrip} (h : Open r) :
    Exits io (r.readHeaderHandler io) := by
  unfold readHeaderHandler
  split_ifs with htimedout hconnect halloc
  · exact .ends r _ .timeout h.attached htimedout rfl
  · rw [Bool.and_eq_true, Bool.not_eq_true'] at hconnect
    exact .ends r _ .connectError h.attached hconnect rfl
  · rw [Bool.and_eq_true, Bool.not_eq_true'] at halloc
    exact .ends r _ .internal h.attached (.inl halloc.2) rfl
  · exact headerLoop_exits (fun _ hx => hx) ⟨h.attached, h.exit, h.readEof, h.readError, h.length⟩

/-- `send_eval_handler`. -/
theorem sendEvalHandler_exits {r : RoundTrip} (h : Open r) : Exits io (r.sendEvalHandler io) := by
  obtain ⟨bufs, handler, timer, hframe⟩ := sendLoop_frame io io.sends r
  obtain ⟨hfailed, hinternal⟩ := sendLoop_saw io io.sends r
  have hrc := sendLoop_rc io io.sends r
  have hopen : Open (sendLoop io io.sends r).2 := by
    rw [hframe]
    exact ⟨h.attached, h.exit, h.readEof, h.readError, h.length⟩
  unfold sendEvalHandler
  split
  · rename_i htimedout
    exact .ends r _ .timeout h.attached htimedout rfl
  · cases hp : r.sendEval io with
    | mk rc r₂ =>
      have hloop : sendLoop io io.sends r = (rc, r₂) := hp
      rw [hloop] at hopen hrc hfailed hinternal
      rcases hrc with rfl | rfl | rfl
      · exact .goesOn hopen
      · exact .ends r₂ _ .internal hopen.attached (.inr (.inr (.inl (hinternal rfl)))) rfl
      · exact .ends r₂ _ .sendError hopen.attached ⟨hfailed rfl, r, hp⟩ rfl

/-! ## Runs -/

/-- What the handlers learn in an event that runs one. -/
def Event.Runs (e : Event) (io : Io) : Prop := e = .read io ∨ e = .write io

/-- An event finalizes only for what it saw. -/
theorem Open.step {r : RoundTrip} (h : Open r) (e : Event) :
    Open (r.step e) ∨ ∃ io, Event.Runs e io ∧ Exits io (r.step e) := by
  cases e with
  | arrive data =>
    rw [step_arrive h.attached]
    exact .inl ⟨h.attached, h.exit, h.readEof, h.readError, h.length⟩
  | read io =>
    refine .inr ⟨io, .inl rfl, ?_⟩
    cases hhandler : r.readHandler with
    | header =>
      rw [step_read_header h.attached hhandler]
      exact readHeaderHandler_exits h
    | body =>
      rw [step_read_body h.attached hhandler]
      exact readBodyHandler_exits (fun _ hx => hx) h (h.length hhandler)
  | write io =>
    by_cases hhandler : r.writeHandler = .sendEval
    · rw [step_write_eval h.attached hhandler]
      exact .inr ⟨io, .inr rfl, sendEvalHandler_exits h⟩
    · rw [step_write_other hhandler]
      exact .inl h

/-- The round trip goes on until an event of the run, in which the handlers saw what the reason
says and finalized it. -/
def EndsFor (r : RoundTrip) (events : List Event) (why : Exit) : Prop :=
  ∃ earlier e later io q rc, events = earlier ++ e :: later ∧ Event.Runs e io ∧
    Open (r.run earlier) ∧ q.attached = true ∧ Saw io q why ∧
    (r.run earlier).step e = q.finalizeUpstreamRequest rc why

/-- The event may be a later one. -/
theorem EndsFor.cons {r : RoundTrip} {e : Event} {events : List Event} {why : Exit}
    (h : (r.step e).EndsFor events why) : r.EndsFor (e :: events) why := by
  obtain ⟨earlier, e', later, io, q, rc, rfl, hruns, hopen, hrest⟩ := h
  exact ⟨e :: earlier, e', later, io, q, rc, rfl, hruns, hopen, hrest⟩

/-- The reason that is recorded was seen. -/
theorem Open.endsFor {r : RoundTrip} (h : Open r) {events : List Event} {why : Exit}
    (hexit : (r.run events).exit = some why) : r.EndsFor events why := by
  induction events generalizing r with
  | nil => exact absurd (h.exit.symm.trans hexit) nofun
  | cons e events ih =>
    rcases h.step e with hopen | ⟨io, hruns, hexits⟩
    · exact (ih hopen hexit).cons
    · cases hexits with
      | goesOn hopen => exact (ih hopen hexit).cons
      | ends q rc why' hattached hsaw hr =>
        -- Nothing happens after the finalization, so the reason is that of this event.
        obtain ⟨hdetached, hwhy⟩ := exit_finalizeUpstreamRequest hattached rc why'
        rw [← hr] at hdetached hwhy
        have hsame : r.run (e :: events) = r.step e := run_detached hdetached events
        rw [hsame, hwhy] at hexit
        obtain rfl := Option.some.inj hexit
        exact ⟨[], e, events, io, q, rc, rfl, hruns, h, hattached, hsaw, hr⟩

/-- A started round trip goes on. -/
theorem open_start (conf : LocConf) (key : Bytes) : Open (start conf key) :=
  ⟨rfl, rfl, rfl, rfl, nofun⟩

/-- Every round trip that is finalized was finalized in an event, for a reason that the handlers saw
in this event. Its status is that of the reason, or that of the reply. -/
theorem finalized_saw (conf : LocConf) (key : Bytes) (events : List Event)
    (h : ((start conf key).run events).finalized = true) :
    ∃ why, (start conf key).EndsFor events why ∧
      (exitStatus why = some ((start conf key).run events).parse.status ∨
        why = .replied ∧ ((start conf key).run events).replyParsed = true) := by
  obtain ⟨-, ⟨hexit, hparsed, -⟩ | ⟨why, hexit, hstatus, -⟩⟩ := ended_of_finalized conf key events h
  · exact ⟨.replied, (open_start conf key).endsFor hexit, .inr ⟨rfl, hparsed⟩⟩
  · exact ⟨why, (open_start conf key).endsFor hexit, .inl hstatus⟩

end RoundTrip

end NginxRatelimit
