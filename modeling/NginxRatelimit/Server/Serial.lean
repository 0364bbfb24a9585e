import NginxRatelimit.Script.Bounds
import NginxRatelimit.Script.Contract
import NginxRatelimit.Script.Source
import NginxRatelimit.Server.Origin

/-!
# One script on one key

On a key that only locations of one algorithm use, the runs of the script, whatever workers and
connections they come from, are one run of its machine (`World.Inv.serial`). Every request that is
let through by its reply has its own admission in that run (`World.allowed_subset`), and no request
has two. These are all that the handler lets through (`World.letThrough`), but for the requests that
fail open.
-/

namespace NginxRatelimit

open Library Resp RoundTrip ScriptCall

variable {V : Type} {S : Server V} {w : World V} {events : List (WorldEvent V)}

/-- A key with its value stored in another way. -/
def Key.map {α β : Type} (store : α → β) (key : Key α) : Key β :=
  Option.map (fun e => ⟨store e.val, e.expireAt⟩) key

/-- What is picked from a list, and named as it is there, has the names of the list in its order. -/
theorem sublist_map_filterMap {α β γ : Type*} {g : α → Option β} {name : β → γ} {f : α → Option γ}
    {l : List α} (h : ∀ a ∈ l, ∀ b, g a = some b → f a = some (name b)) :
    ((l.filterMap g).map name).Sublist (l.filterMap f) := by
  induction l with
  | nil => exact .slnil
  | cons a l ih =>
    have ih := ih fun b hb => h b (List.mem_cons_of_mem a hb)
    cases hg : g a with
    | none =>
      rw [List.filterMap_cons_none hg]
      exact ih.trans ((List.sublist_cons_self a l).filterMap f)
    | some b =>
      rw [List.filterMap_cons_some hg, List.map_cons,
        List.filterMap_cons_some (h a List.mem_cons_self b hg)]
      exact ih.cons_cons _

/-- Effective commands are of different requests, whatever is picked of them. -/
theorem World.nodup_of_effective (h : World.run S events = some w) {β : Type*}
    {g : Served → Option β} {name : β → RequestId}
    (hg : ∀ x ∈ w.served, ∀ b, g x = some b → x.Effective ∧ name b = x.request) :
    ((w.served.filterMap g).map name).Nodup := by
  have hnodup : ((w.served.filter fun x => x.Effective).map Served.request).Nodup := by
    rw [List.nodup_iff_count_le_one]
    intro id
    rw [List.count, List.countP_map, List.countP_filter, List.countP_eq_length_filter]
    refine le_of_eq_of_le (congrArg List.length (List.filter_congr fun x _ => ?_)) (runs_le_one h id)
    simp [Bool.decide_and, beq_eq_decide]
  rw [← List.filterMap_eq_map (f := Served.request), List.filterMap_filter] at hnodup
  refine hnodup.sublist (sublist_map_filterMap fun x hx b hb => ?_)
  obtain ⟨heffective, hname⟩ := hg x hx b hb
  rw [if_pos (decide_eq_true heffective), hname]
  rfl

/-! ## Locations of one algorithm -/

/-- A key that only locations with `C` use, whose scripts are those of the table, and that no other
client writes. The server's clock does not go back, and no other text has the SHA1 of the script. -/
structure World.Exclusive (S : Server V) (w : World V) (p : Place) (algo : Algo)
    (C : LocConf → Prop) : Prop where
  untouched : p ∉ w.foreign
  ordered : (w.logAt p).Pairwise fun a b => a.1.time ≤ b.1.time
  location : ∀ x ∈ w.served, ∀ y, x.run = some y → y.place = p →
    x.sender.conf.zone.algo = algo ∧ x.sender.conf.scripts algo = scriptInit S.sha1 algo ∧
      C x.sender.conf
  distinct : ∀ x ∈ w.served, ∀ y, x.run = some y → y.place = p →
    S.sha1 y.body = S.sha1 (scriptBody algo) → y.body = scriptBody algo

/-- What the locations have can be weakened. -/
theorem World.Exclusive.mono {p : Place} {algo : Algo} {C C' : LocConf → Prop}
    (h : w.Exclusive S p algo C) (hC : ∀ conf, C conf → C' conf) : w.Exclusive S p algo C' where
  untouched := h.untouched
  ordered := h.ordered
  location x hx y hy hplace :=
    have hx' := h.location x hx y hy hplace
    ⟨hx'.1, hx'.2.1, hC _ hx'.2.2⟩
  distinct := h.distinct

/-- A run of the log with the command that it belongs to. -/
theorem World.exists_served_of_logAt {p : Place} {e : ScriptRun × Resp} (he : e ∈ w.logAt p) :
    ∃ x ∈ w.served, x.run = some e.1 ∧ e.1.place = p ∧ x.reply = e.2 := by
  obtain ⟨x, hx, hrun⟩ := List.mem_filterMap.mp he
  obtain ⟨y, hy, rfl⟩ := Option.map_eq_some_iff.mp hrun
  obtain ⟨hy, hplace⟩ := Option.filter_eq_some_iff.mp hy
  exact ⟨x, hx, hy, of_decide_eq_true hplace, rfl⟩

/-- And a command that has run a script on the key is in its log. -/
theorem World.mem_logAt {p : Place} {x : Served} (hx : x ∈ w.served) {y : ScriptRun}
    (hy : x.run = some y) (hplace : y.place = p) : (y, x.reply) ∈ w.logAt p := by
  refine List.mem_filterMap.mpr ⟨x, hx, ?_⟩
  rw [hy, Option.filter_some, if_pos (decide_eq_true hplace), Option.map_some]

/-- On such a key only the algorithm's script runs, with the arguments of its location. -/
theorem World.Exclusive.run {p : Place} {algo : Algo} {C : LocConf → Prop}
    (h : w.Exclusive S p algo C) (hinv : w.Inv S) (halgo : algo ≠ .custom) {x : Served}
    (hx : x ∈ w.served) {y : ScriptRun} (hy : x.run = some y) (hplace : y.place = p) :
    y.body = scriptBody algo ∧ y.args = scriptArgs x.sender.conf ∧
      x.sender.conf.zone.algo = algo ∧ C x.sender.conf := by
  obtain ⟨hzone, hscript, hC⟩ := h.location x hx y hy hplace
  have hown := (hinv.ran x hx).runsFor hy
  have hzoneScript : zoneScript x.sender.conf = scriptInit S.sha1 algo := by
    rw [zoneScript, hzone, if_neg halgo, hscript]
  refine ⟨h.distinct x hx y hy hplace ?_, hown.args, hzone, hC⟩
  have hsha := hown.sha1
  rw [Server.Names, hzoneScript] at hsha
  exact hsha rfl

/-- A key is so when other clients do not write it, all locations with this key are of the algorithm
and no other text that is brought to the server has the SHA1. -/
theorem World.exclusive_of_events (h : World.run S events = some w) {p : Place} {algo : Algo}
    {C : LocConf → Prop} (hput : ∀ key, .put p key ∉ events)
    (htimes : (events.filterMap WorldEvent.time).Pairwise (· ≤ ·))
    (hlocation : ∀ conf, Arrives events conf p.key → conf.zone.algo = algo ∧
      conf.scripts algo = scriptInit S.sha1 algo ∧ C conf)
    (htext : ∀ body, Brought events body → S.sha1 body = S.sha1 (scriptBody algo) →
      body = scriptBody algo) : w.Exclusive S p algo C := by
  have horigin := World.origin_of_run h
  refine ⟨fun hp => ?_, ?_, fun x hx y hy hplace => ?_, fun x hx y hy _ => ?_⟩
  · obtain ⟨key, hkey⟩ := horigin.foreign p hp
    exact hput key hkey
  · have hlog : ((w.logAt p).map fun e => e.1.time).Sublist w.times := by
      refine sublist_map_filterMap fun x _ e he => ?_
      obtain ⟨y, hy, rfl⟩ := Option.map_eq_some_iff.mp he
      rw [(Option.filter_eq_some_iff.mp hy).1]
      rfl
    exact List.pairwise_map.mp (htimes.sublist (hlog.trans horigin.times))
  · have hkey := ((World.inv_of_run h).ran x hx).runsFor hy
    refine hlocation _ ?_
    rw [← hplace, hkey.key]
    exact horigin.served x hx
  · exact htext _ (horigin.run x hx y hy)

/-! ## The runs of a script -/

section Serial

variable {α ι : Type} [ScriptCall ι] {N : Machine (Key α) ι Reply} {argv : ι → List ℕ}
  {store : α → V} {body : Bytes} {call : ScriptRun → ι} {p : Place} {Q : ι → Prop}

/-- The interpreter runs a text as the calls of a machine, whose values it stores in its own way;
`argv` is `ARGV` of a call. It is asked to do so for calls with `Q` after calls with `Q`. The
machines compute exactly: where `Q` does not keep the numbers of a script to those that doubles hold,
this is Lua with exact numbers. -/
def Server.Interprets (S : Server V) (Q : ι → Prop) (body : Bytes) (N : Machine (Key α) ι Reply)
    (argv : ι → List ℕ) (store : α → V) : Prop :=
  ∀ key xs c, (∀ x ∈ xs, Q x) → Q c →
    S.lua body key (argv c) (time c) ((N.after none xs).map store) =
      ((N.step (N.after none xs) c).1.map store, .array (N.step (N.after none xs) c).2.elements)

/-- The run of a text with the arguments of a call. -/
structure ScriptRun.Is (y : ScriptRun) (body : Bytes) (argv : ι → List ℕ) (c : ι) : Prop where
  body : y.body = body
  args : y.args = argv c
  time : y.time = ScriptCall.time c

/-- The calls that the runs on a key are. -/
def World.callsAt (w : World V) (p : Place) (call : ScriptRun → ι) : List ι :=
  (w.logAt p).map fun e => call e.1

/-- The runs on a key are one run of the machine, from nothing, with its answers. -/
theorem World.Inv.serial (hinv : w.Inv S) (hlua : S.Interprets Q body N argv store)
    (huntouched : p ∉ w.foreign)
    (hcalls : ∀ e ∈ w.logAt p, e.1.Is body argv (call e.1) ∧ Q (call e.1)) :
    w.redis.keys p = (N.after none (w.callsAt p call)).map store ∧
      List.Forall₂ (fun e x => x.1 = call e.1 ∧ e.2 = .array x.2.elements) (w.logAt p)
        (N.exchanges none (w.callsAt p call)) := by
  have hkeys : S.machine.Replays (Key.map store (none : Key α)) (w.logAt p) (w.redis.keys p) :=
    hinv.keys p huntouched
  refine hkeys.simulate (Key.map store) call (fun r : Reply => .array r.elements) fun pre e he => ?_
  have hsub := he.subset
  obtain ⟨⟨hbody, hargs, htime⟩, hQ⟩ := hcalls e (hsub (by simp))
  have hpre : ∀ c ∈ pre.map fun e => call e.1, Q c := by
    intro c hc
    obtain ⟨e', he', rfl⟩ := List.mem_map.mp hc
    exact (hcalls e' (hsub (List.mem_append_left _ he'))).2
  change S.lua e.1.body e.1.place.key e.1.args e.1.time _ = _
  rw [hbody, hargs, htime]
  exact hlua _ _ _ hpre hQ

end Serial

/-! ## The requests that are let through -/

/-- The script that a request has run. -/
def World.ranFor (w : World V) (id : RequestId) : Option ScriptRun :=
  (w.served.filter fun x => x.request = id ∧ x.Effective).head?.bind Served.run

/-- The requests that were let through by a reply to a script on the key, with what they consumed
there and when. -/
def World.allowed (w : World V) (p : Place) : List (RequestId × Stamp ℕ) :=
  w.done.filterMap fun d =>
    if RepliedWith d.trip (ascii '0') ∧ 0 < d.sender.conf.quantity then
      ((w.ranFor d.request).filter fun y => y.place = p).map fun y =>
        (d.request, ⟨y.time, d.sender.conf.quantity⟩)
    else none

/-- The handler lets the request through, and not because the transport to the server failed. -/
def Done.Passes (d : Done) : Prop :=
  verdict d.sender.conf d.trip.parse.status = .declined ∧
    ¬ (d.sender.conf.onError = .allow ∧ IsTransportStatus d.trip.parse.status)

/-- Whether a request passes can be decided. -/
instance (d : Done) : Decidable d.Passes := inferInstanceAs (Decidable (_ ∧ _))

/-- The requests that the handler lets through, those aside that fail open, with what their scripts
consumed on the key and when. -/
def World.letThrough (w : World V) (p : Place) : List (RequestId × Stamp ℕ) :=
  w.done.filterMap fun d =>
    if d.Passes ∧ 0 < d.sender.conf.quantity then
      ((w.ranFor d.request).filter fun y => y.place = p).map fun y =>
        (d.request, ⟨y.time, d.sender.conf.quantity⟩)
    else none

/-- A request passes without failing open exactly when it has read a reply with the status 0. -/
theorem Done.passes_iff {d : Done} (h : Ended d.trip) :
    d.Passes ↔ RepliedWith d.trip (ascii '0') := by
  obtain ⟨-, ⟨-, hparsed, ch, hch, hstatus⟩ | ⟨why, -, hstatus, hparsed⟩⟩ := h
  · rcases hstatus with ⟨rfl, hst⟩ | ⟨rfl, hst⟩
    · exact iff_of_true ⟨by rw [hst]; rfl, by rw [hst]; exact fun h => absurd h.2 (by decide)⟩
        ⟨hparsed, hch⟩
    · refine iff_of_false (fun hpasses => ?_) fun hreplied => ?_
      · rw [Done.Passes, hst] at hpasses
        cases hpasses.1
      · exact absurd (Option.some.inj (hch.symm.trans hreplied.2)) (by decide)
  · refine iff_of_false (fun hpasses => ?_) fun hreplied => ?_
    · obtain ⟨hdeclined, hclosed⟩ := hpasses
      rw [verdict_of_exit d.sender.conf hstatus] at hdeclined
      split_ifs at hdeclined with hopen
      rcases exitStatus_cases hstatus with ⟨-, htransport⟩ | ⟨hno, -⟩
      · exact hclosed ⟨hopen.1, htransport⟩
      · exact hno hopen.2
    · exact absurd (hparsed.symm.trans hreplied.1) Bool.false_ne_true

/-- Round trips are finalized once. -/
theorem World.Inv.nodup_done (hinv : w.Inv S) : (w.done.map Done.request).Nodup := by
  rw [List.Nodup, List.pairwise_map, List.pairwise_iff_forall_sublist]
  intro d d' hsub heq
  obtain ⟨hconn, huse⟩ := Prod.mk.inj heq
  have hd : d ∈ w.done := hsub.subset (by simp)
  have hc := List.getElem?_eq_getElem (hinv.doneConn d hd)
  have honce := (hinv.told _ _ hc).once
  have hon : [d, d'].Sublist (w.doneOn d.conn) := by
    have hfilter := hsub.filter fun e => decide (e.conn = d.conn)
    rw [List.filter_eq_self.mpr (by simp [hconn])] at hfilter
    exact hfilter
  have hpair := (hon.map fun e => e.sender.use).nodup honce
  simp [huse] at hpair

/-- A finalized round trip has ended. -/
theorem World.Inv.ended (hinv : w.Inv S) {d : Done} (hd : d ∈ w.done) : Ended d.trip :=
  have hc := List.getElem?_eq_getElem (hinv.doneConn d hd)
  (hinv.told _ _ hc).ended d (List.mem_filter.mpr ⟨hd, by simp⟩)

/-- So the requests that pass are those that were let through by a reply that they have read. -/
theorem World.Inv.letThrough_eq (hinv : w.Inv S) (p : Place) : w.letThrough p = w.allowed p := by
  refine List.filterMap_congr fun d hd => ?_
  simp only [Done.passes_iff (hinv.ended hd)]

/-- No request is let through twice. -/
theorem World.Inv.nodup_allowed (hinv : w.Inv S) (p : Place) :
    ((w.allowed p).map Prod.fst).Nodup := by
  refine hinv.nodup_done.sublist ?_
  rw [← List.filterMap_eq_map (f := Done.request)]
  refine sublist_map_filterMap fun d _ b hb => ?_
  split_ifs at hb
  obtain ⟨y, -, rfl⟩ := Option.map_eq_some_iff.mp hb
  rfl

section Admitted

variable {α ι : Type} [ScriptCall ι] {N : Machine (Key α) ι Reply} {argv : ι → List ℕ}
  {store : α → V} {body : Bytes} {call : ScriptRun → ι} {p : Place}

/-- The status of a reply, if it has one. -/
def replyStatus : Resp → Option ℤ
  | .array (.int status :: _) => some status
  | _ => none

/-- What the runs on a key have admitted, with the requests that they belong to. -/
def World.admitted (w : World V) (p : Place) (call : ScriptRun → ι) :
    List (RequestId × Stamp ℕ) :=
  w.served.filterMap fun x =>
    (x.run.filter fun y => y.place = p).bind fun y =>
      if 0 < quantity (call y) ∧ replyStatus x.reply = some 0 then
        some (x.request, ⟨time (call y), quantity (call y)⟩)
      else none

/-- These are the admissions of the machine. -/
theorem World.map_admitted (h : List.Forall₂ (fun e x => x.1 = call e.1 ∧ e.2 = .array x.2.elements)
    (w.logAt p) (N.exchanges none (w.callsAt p call))) :
    (w.admitted p call).map Prod.snd = admissions (N.trace none (w.callsAt p call)) := by
  have hlog : (w.admitted p call).map Prod.snd = (w.logAt p).filterMap fun e =>
      if 0 < quantity (call e.1) ∧ replyStatus e.2 = some 0 then
        some ⟨time (call e.1), quantity (call e.1)⟩
      else none := by
    rw [World.admitted, World.logAt, List.map_filterMap, List.filterMap_filterMap]
    refine List.filterMap_congr fun x _ => ?_
    cases x.run.filter fun y => y.place = p with
    | none => rfl
    | some y =>
      simp only [Option.bind_some, Option.map_some]
      split_ifs <;> rfl
  rw [hlog]
  rw [Machine.exchanges, List.forall₂_map_right_iff] at h
  generalize w.logAt p = log at h ⊢
  generalize N.trace none (w.callsAt p call) = trace at h ⊢
  induction h with
  | nil => rfl
  | @cons e t log trace he _ ih =>
    obtain ⟨hcall, hreply⟩ := he
    have hstatus : replyStatus e.2 = some t.2.2.status := by rw [hreply]; rfl
    by_cases hadm : Admitted t
    · have hpick : 0 < quantity (call e.1) ∧ replyStatus e.2 = some 0 := by
        rw [hstatus, ← hcall]
        exact ⟨hadm.1, congrArg some hadm.2⟩
      rw [admissions_cons_of_admitted hadm, List.filterMap_cons, if_pos hpick, ih, hcall]
    · have hpick : ¬ (0 < quantity (call e.1) ∧ replyStatus e.2 = some 0) := by
        rw [hstatus, ← hcall]
        exact fun h => hadm ⟨h.1, Option.some.inj h.2⟩
      rw [admissions_cons_of_not_admitted hadm, List.filterMap_cons, if_neg hpick, ih]

/-- The elements tell the reply. -/
theorem Reply.elements_injective {r r' : Reply} (h : r.elements = r'.elements) : r = r' := by
  cases r
  cases r'
  simpa [Reply.elements] using h

/-- A reply whose fourth integer is not below -1 is not misread. -/
theorem not_misread_elements {r : Reply} (h : -1 ≤ r.retryAfter) :
    ¬ Misread (.array r.elements) := by
  rintro ⟨e₁, e₂, e₃, e₄, e₅, heq, hones⟩
  obtain rfl : e₄ = .int r.retryAfter := by
    simp only [Reply.elements, Resp.array.injEq, List.cons.injEq] at heq
    exact heq.2.2.2.1.symm
  cases hr : r.retryAfter with
  | ofNat n =>
    rw [hr] at hones
    exact hones
  | negSucc n =>
    rw [hr] at hones h
    obtain ⟨hne, -⟩ := hones
    omega

/-- A request that was let through by its reply has read one with the status 0. -/
theorem replied_of_ended {d : Done} (h : Ended d.trip) (hreplied : RepliedWith d.trip (ascii '0')) :
    d.trip.exit = some .replied ∧ d.trip.parse.reply.status = 0 := by
  obtain ⟨-, ⟨hexit, -, ch, hch, hstatus⟩ | ⟨why, -, -, hparsed⟩⟩ := h
  · refine ⟨hexit, ?_⟩
    obtain rfl : ascii '0' = ch := Option.some.inj (hreplied.2.symm.trans hch)
    rcases hstatus with ⟨-, hst⟩ | ⟨hne, -⟩
    · simp [Parse.reply, hst]
    · exact absurd hne (by decide)
  · exact absurd (hreplied.1.symm.trans hparsed) Bool.noConfusion

/-- The only run of a request is the one that an effective command of it has run. -/
theorem World.ranFor_eq (h : World.run S events = some w) {x : Served} (hx : x ∈ w.served)
    (heffective : x.Effective) : w.ranFor x.request = x.run := by
  rw [World.ranFor, filter_effective_eq h hx heffective]
  rfl

omit [ScriptCall ι] in
/-- A request whose script ran on the key has read the reply of this run. -/
theorem World.exists_reply_at (h : World.run S events = some w)
    (hserial : List.Forall₂ (fun e x => x.1 = call e.1 ∧ e.2 = .array x.2.elements) (w.logAt p)
      (N.exchanges none (w.callsAt p call)))
    (hretry : ∀ key c, -1 ≤ (N.step key c).2.retryAfter) {d : Done} (hd : d ∈ w.done)
    (hexit : d.trip.exit = some .replied) {y : ScriptRun} (hy : w.ranFor d.request = some y)
    (hplace : y.place = p) : ∃ x ∈ w.served, x.request = d.request ∧ x.sender = d.sender ∧
      x.run = some y ∧ x.reply = .array d.trip.parse.reply.elements := by
  obtain ⟨x, hx, y', hid, hsender, hrun, -, -, ⟨values, hvalues⟩, hread⟩ :=
    (World.inv_of_run h).exists_own_run hd hexit
  obtain rfl : y' = y := by
    rw [← hid, World.ranFor_eq h hx (Served.effective_of_array hrun hvalues), hrun] at hy
    exact Option.some.inj hy
  obtain ⟨t, ht, -, htreply⟩ := exists_mem_of_forall₂ hserial (World.mem_logAt hx hrun hplace)
  obtain ⟨key, hanswer⟩ := N.exists_state_of_mem_exchanges ht
  have hsentinel : -1 ≤ t.2.retryAfter := hanswer ▸ hretry key t.1
  have hreply : x.reply = .array t.2.elements := htreply
  refine ⟨x, hx, hid, hsender, hrun, hread.mpr ?_⟩
  rw [hreply]
  exact not_misread_elements hsentinel

/-- And one that has read a reply with the status 0 is let through by it. -/
theorem repliedWith_of_ended {d : Done} (h : Ended d.trip) (hexit : d.trip.exit = some .replied)
    (hstatus : d.trip.parse.reply.status = 0) : RepliedWith d.trip (ascii '0') := by
  obtain ⟨-, ⟨-, hparsed, ch, hch, hbyte⟩ | ⟨why, hwhy, hexitStatus, -⟩⟩ := h
  · rcases hbyte with ⟨rfl, -⟩ | ⟨-, hst⟩
    · exact ⟨hparsed, hch⟩
    · simp [Parse.reply, hst] at hstatus
  · obtain rfl : why = .replied := Option.some.inj (hwhy.symm.trans hexit)
    cases hexitStatus

/-- Each request that was let through by its reply has its own admission. -/
theorem World.allowed_subset (h : World.run S events = some w)
    (hserial : List.Forall₂ (fun e x => x.1 = call e.1 ∧ e.2 = .array x.2.elements) (w.logAt p)
      (N.exchanges none (w.callsAt p call)))
    (hcall : ∀ x ∈ w.served, ∀ y, x.run = some y → y.place = p →
      time (call y) = y.time ∧ quantity (call y) = x.sender.conf.quantity)
    (hretry : ∀ key c, -1 ≤ (N.step key c).2.retryAfter) : w.allowed p ⊆ w.admitted p call := by
  intro b hb
  obtain ⟨d, hd, hb⟩ := List.mem_filterMap.mp hb
  split_ifs at hb with hallowed
  obtain ⟨hreplied, hquantity⟩ := hallowed
  obtain ⟨y, hy, rfl⟩ := Option.map_eq_some_iff.mp hb
  obtain ⟨hy, hplace⟩ := Option.filter_eq_some_iff.mp hy
  rw [decide_eq_true_eq] at hplace
  obtain ⟨hexit, hstatus⟩ := replied_of_ended ((World.inv_of_run h).ended hd) hreplied
  obtain ⟨x, hx, hid, hsender, hrun, hread⟩ :=
    World.exists_reply_at h hserial hretry hd hexit hy hplace
  have hreply : replyStatus x.reply = some 0 := by
    rw [hread]
    exact congrArg some hstatus
  obtain ⟨htime, hunits⟩ := hcall x hx y hrun hplace
  rw [← hsender] at hquantity ⊢
  refine List.mem_filterMap.mpr ⟨x, hx, ?_⟩
  rw [hrun, Option.filter_some, if_pos (decide_eq_true hplace), Option.bind_some, hunits, htime,
    if_pos ⟨hquantity, hreply⟩, hid]

/-- No request is charged twice. -/
theorem World.nodup_admitted (h : World.run S events = some w) :
    ((w.admitted p call).map Prod.fst).Nodup := by
  refine World.nodup_of_effective h fun x _ b hb => ?_
  obtain ⟨y, hy, hb⟩ := Option.bind_eq_some_iff.mp hb
  split_ifs at hb with hadm
  cases hb
  refine ⟨⟨?_, fun hnoscript => ?_⟩, rfl⟩
  · rw [(Option.filter_eq_some_iff.mp hy).1]
    rfl
  · -- A reply with a status is not `NOSCRIPT`.
    cases hreply : x.reply <;> rw [hreply] at hadm hnoscript <;>
      first | exact hnoscript | cases hadm.2

end Admitted

/-! ## Limiters -/

section Limiter

variable {α ι : Type} [ScriptCall ι] {N : Machine (Key α) ι Reply} {argv : ι → List ℕ}
  {store : α → V} {call : ScriptRun → ι} {p : Place} {algo : Algo} {C : LocConf → Prop}
  {Q : ι → Prop}

/-- The algorithm of the locations with `C` is the machine `N`: their runs are its calls, with `Q`,
and its replies are not misread. -/
structure Limiter (algo : Algo) (C : LocConf → Prop) (Q : ι → Prop) (N : Machine (Key α) ι Reply)
    (argv : ι → List ℕ) (call : ScriptRun → ι) : Prop where
  builtin : algo ≠ .custom
  time : ∀ y, ScriptCall.time (call y) = y.time
  asked : ∀ conf y, conf.zone.algo = algo → C conf → y.args = scriptArgs conf → Q (call y)
  call : ∀ conf y, conf.zone.algo = algo → C conf → y.args = scriptArgs conf →
    argv (call y) = y.args ∧ quantity (call y) = conf.quantity
  retryAfter : ∀ key c, -1 ≤ (N.step key c).2.retryAfter

/-- The runs on a key of such locations are one run of the machine. -/
theorem World.Exclusive.serial (h : w.Exclusive S p algo C) (hinv : w.Inv S)
    (hN : Limiter algo C Q N argv call) (hlua : S.Interprets Q (scriptBody algo) N argv store) :
    w.redis.keys p = (N.after none (w.callsAt p call)).map store ∧
      List.Forall₂ (fun e x => x.1 = call e.1 ∧ e.2 = .array x.2.elements) (w.logAt p)
        (N.exchanges none (w.callsAt p call)) := by
  refine hinv.serial hlua h.untouched fun e he => ?_
  obtain ⟨x, hx, hrun, hplace, -⟩ := World.exists_served_of_logAt he
  obtain ⟨hbody, hargs, hzone, hC⟩ := h.run hinv hN.builtin hx hrun hplace
  exact ⟨⟨hbody, (hN.call _ _ hzone hC hargs).1.symm, (hN.time e.1).symm⟩,
    hN.asked _ _ hzone hC hargs⟩

/-- Its calls come in order. -/
theorem World.Exclusive.inOrder (h : w.Exclusive S p algo C) (hN : Limiter algo C Q N argv call) :
    InOrder (w.callsAt p call) := by
  rw [InOrder, World.callsAt, List.pairwise_map]
  refine h.ordered.imp fun hle => ?_
  rw [hN.time, hN.time]
  exact hle

omit [ScriptCall ι] in
/-- They are those of the locations. -/
theorem World.Exclusive.forall_calls (h : w.Exclusive S p algo C) (hinv : w.Inv S)
    (halgo : algo ≠ .custom) {Q : ι → Prop}
    (hQ : ∀ conf y, conf.zone.algo = algo → C conf → y.args = scriptArgs conf → Q (call y)) :
    ∀ c ∈ w.callsAt p call, Q c := by
  intro c hc
  obtain ⟨e, he, rfl⟩ := List.mem_map.mp hc
  obtain ⟨x, hx, hrun, hplace, -⟩ := World.exists_served_of_logAt he
  obtain ⟨-, hargs, hzone, hC⟩ := h.run hinv halgo hx hrun hplace
  exact hQ _ _ hzone hC hargs

/-- What is let through is not more than what the machine admits. -/
theorem World.Exclusive.unitsIn_letThrough_le (h : w.Exclusive S p algo C)
    (hw : World.run S events = some w) (hN : Limiter algo C Q N argv call)
    (hlua : S.Interprets Q (scriptBody algo) N argv store) (P : ℕ → Prop) [DecidablePred P] :
    unitsIn P ((w.letThrough p).map Prod.snd) ≤
      unitsIn P (admissions (N.trace none (w.callsAt p call))) := by
  have hinv := World.inv_of_run hw
  rw [hinv.letThrough_eq]
  obtain ⟨-, hserial⟩ := h.serial hinv hN hlua
  rw [← World.map_admitted hserial]
  refine unitsIn_le_of_subset P (hinv.nodup_allowed p)
    (World.allowed_subset hw hserial ?_ hN.retryAfter)
  intro x hx y hy hplace
  obtain ⟨-, hargs, hzone, hC⟩ := h.run hinv hN.builtin hx hy hplace
  exact ⟨hN.time y, (hN.call _ _ hzone hC hargs).2⟩

end Limiter

/-! ## Two workers -/

/-- A server that runs one text, of this SHA1, as the calls of a machine. -/
def luaServer {ι : Type} (sha : Bytes) (N : Machine (Key V) ι Reply) (call : ScriptRun → ι) :
    Server V where
  requirepass := none
  databases := 16
  sha1 _ := sha
  lua body key args now k :=
    let (k, r) := N.step k (call ⟨⟨0, key⟩, body, args, now⟩)
    (k, .array r.elements)
  lua_wellFormed _ _ _ _ _ := by simp [Reply.elements, WellFormed, AllWellFormed]

/-- A key whose values are not translated. -/
@[simp] theorem Key.map_id (key : Key V) : Key.map id key = key := by
  cases key <;> rfl

/-- Such a server interprets its text as the machine does, for all calls. -/
theorem luaServer_interprets {ι : Type} [ScriptCall ι] (sha body : Bytes)
    (N : Machine (Key V) ι Reply) {call : ScriptRun → ι} {argv : ι → List ℕ} {Q : ι → Prop}
    (h : ∀ key c, call ⟨⟨0, key⟩, body, argv c, time c⟩ = c) :
    (luaServer sha N call).Interprets Q body N argv id := by
  intro key xs c _ _
  simp [luaServer, h]

/-- The location of a rate with its own burst, if it is not -1. -/
def rateLocation (S : Server V) (algo : Algo) (requests period : ℕ) (burst : ℤ) : LocConf :=
  { LocConf.ofZone ⟨algo, requests, period, 0, ⟨[], []⟩⟩ (scriptInit S.sha1) with burst := burst }

/-- The requests of two locations, on two connections, for one key. -/
def twoWorkers (algo : Algo) (conf conf' : LocConf) : List (WorldEvent V) :=
  [.load (scriptBody algo),
    .dial conf (text "a"), .on 0 .flush, .serve 0 1000000,
    .dial conf' (text "a"), .on 1 .flush, .serve 1 1500000,
    .on 1 (.read (Io.good [.data 4096] []) true), .on 0 (.read (Io.good [.data 4096] []) true),
    .on 0 (.reuse conf (text "a")), .on 0 .flush, .serve 0 2000000,
    .on 0 (.read (Io.good [.data 4096] []) true)]

/-- The requests are those of the two locations, with one key. -/
theorem arrives_twoWorkers {algo : Algo} {conf conf' c : LocConf} {key : Bytes}
    (h : Arrives (twoWorkers (V := V) algo conf conf') c key) :
    (c = conf ∨ c = conf') ∧ key = text "a" := by
  rcases h with h | ⟨i, h⟩
  · simp only [twoWorkers, List.mem_cons, List.not_mem_nil, WorldEvent.dial.injEq, reduceCtorEq,
      false_or, or_false] at h
    exact ⟨h.imp And.left And.left, by tauto⟩
  · simp only [twoWorkers, List.mem_cons, List.not_mem_nil, WorldEvent.on.injEq, reduceCtorEq,
      ConnEvent.reuse.injEq, and_false, false_or, or_false] at h
    exact ⟨.inl h.2.1, h.2.2⟩

/-- Only they use the key, and with the script of the algorithm. -/
theorem exclusive_twoWorkers {algo : Algo} {requests period : ℕ} {burst burst' : ℤ}
    {C : LocConf → Prop}
    (h : World.run S (twoWorkers algo (rateLocation S algo requests period burst)
      (rateLocation S algo requests period burst')) = some w) (halgo : algo ≠ .custom)
    (hC : C (rateLocation S algo requests period burst))
    (hC' : C (rateLocation S algo requests period burst')) :
    w.Exclusive S ⟨0, text "a"⟩ algo C := by
  generalize hconf : rateLocation S algo requests period burst = conf at h hC
  generalize hconf' : rateLocation S algo requests period burst' = conf' at h hC'
  have harrives : ∀ {c key}, Arrives (twoWorkers (V := V) algo conf conf') c key →
      c.zone.algo = algo ∧ c.scripts algo = scriptInit S.sha1 algo ∧ C c := by
    intro c key hc
    rcases (arrives_twoWorkers hc).1 with rfl | rfl
    · exact ⟨by rw [← hconf]; rfl, by rw [← hconf]; rfl, hC⟩
    · exact ⟨by rw [← hconf']; rfl, by rw [← hconf']; rfl, hC'⟩
  have htimes : (twoWorkers (V := V) algo conf conf').filterMap WorldEvent.time =
      [1000000, 1500000, 2000000] := rfl
  refine World.exclusive_of_events h ?_ ?_ (fun c hc => harrives hc) ?_
  · simp [twoWorkers]
  · rw [htimes]
    decide
  · rintro body (hbody | ⟨c, key, hc, rfl⟩) -
    · simpa [twoWorkers] using hbody
    · obtain ⟨hzone, hscript, -⟩ := harrives hc
      rw [zoneScript, hzone, if_neg halgo, hscript, scriptInit]

end NginxRatelimit
