import NginxRatelimit.Server.Limit

/-!
# The order of the runs

What the requests on one key see is one sequential limiter. The server's order of their runs is that
of the calls (`linearizable`): each reply is that of the calls before it, and a request that has read
its reply before another one got its connection is before it. A request that was given up may still
take effect later. What is taken from the key is taken by
one request each, and all of it is accounted for (`charged_once`).
-/

namespace NginxRatelimit

open Library Resp RoundTrip ScriptCall

variable {V : Type} {S : Server V} {w w₁ : World V} {events events₁ : List (WorldEvent V)}
  {p : Place}

/-! ## Requests in the server's order -/

/-- The runs of scripts on a key with the requests that they belong to. -/
def World.orderAt (w : World V) (p : Place) : List (RequestId × ScriptRun) :=
  w.served.filterMap fun x =>
    (x.run.filter fun y => y.place = p).map fun y => (x.request, y)

/-- A request has a connection, or has had one. -/
def World.Begun (w : World V) (id : RequestId) : Prop :=
  ∃ c, w.conns[id.1]? = some c ∧ id.2 ≤ c.sender.use

/-- Commands are those of requests that have begun. -/
theorem World.Inv.begun (hinv : w.Inv S) {x : Served} (hx : x ∈ w.served) : w.Begun x.request := by
  have hc := List.getElem?_eq_getElem (hinv.servedConn x hx)
  have htold := hinv.told _ _ hc
  refine ⟨_, hc, htold.inv.uses x.answer ?_⟩
  rw [htold.answers]
  exact List.mem_map_of_mem (List.mem_filter.mpr ⟨hx, by simp⟩)

/-- The history only grows. -/
theorem World.served_append (h₁ : World.run S events₁ = some w₁)
    (h : World.run S (events₁ ++ events) = some w) : ∃ more, w.served = w₁.served ++ more := by
  induction events using List.reverseRecOn generalizing w with
  | nil =>
    rw [List.append_nil, h₁] at h
    cases h
    exact ⟨[], (List.append_nil _).symm⟩
  | append_singleton events e ih =>
    rw [← List.append_assoc] at h
    obtain ⟨v, hv, he⟩ := World.run_snoc_iff.mp h
    obtain ⟨more, hmore⟩ := ih hv
    rcases World.served_of_step he with hsame | ⟨i, now, c, x, -, -, -, hmoved⟩
    · exact ⟨more, hsame.trans hmore⟩
    · exact ⟨more ++ [_], by rw [hmoved, hmore, List.append_assoc]⟩

/-! ## Linearizability -/

section

variable {α ι : Type} [ScriptCall ι] {N : Machine (Key α) ι Reply} {argv : ι → List ℕ}
  {store : α → V} {call : ScriptRun → ι} {algo : Algo} {C : LocConf → Prop} {Q : ι → Prop}

/-- The requests on a key see one sequential limiter, in the order in which the server has run their
scripts. A request has one run there; it reads the reply of the limiter after the calls of the runs
before its own; and when it has read it before another request got its connection, its run is before
that of the other one, whatever becomes of that. -/
theorem linearizable (h : World.run S events = some w) (hkey : w.Exclusive S p algo C)
    (hN : Limiter algo C Q N argv call) (hlua : S.Interprets Q (scriptBody algo) N argv store) :
    ((w.orderAt p).map Prod.fst).Nodup ∧
      (∀ d ∈ w.done, d.trip.exit = some .replied → ∀ y, w.ranFor d.request = some y →
        y.place = p → ∃ pre post, w.orderAt p = pre ++ (d.request, y) :: post ∧
          d.trip.parse.reply =
            (N.step (N.after none (pre.map fun e => call e.2)) (call y)).2) ∧
      ∀ events₁ events₂ w₁, events = events₁ ++ events₂ → World.run S events₁ = some w₁ →
        ∀ d ∈ w₁.done, d.trip.exit = some .replied → ∀ y, w.ranFor d.request = some y →
          y.place = p → ∀ b ∈ w.orderAt p, ¬ w₁.Begun b.1 →
            [(d.request, y), b].Sublist (w.orderAt p) := by
  have hinv := World.inv_of_run h
  obtain ⟨-, hserial⟩ := hkey.serial hinv hN hlua
  refine ⟨?_, fun d hd hexit y hy hplace => ?_, ?_⟩
  · refine World.nodup_of_effective h fun x hx b hb => ?_
    obtain ⟨y, hy, rfl⟩ := Option.map_eq_some_iff.mp hb
    obtain ⟨hy, hplace⟩ := Option.filter_eq_some_iff.mp hy
    obtain ⟨t, -, -, hreply⟩ :=
      exists_mem_of_forall₂ hserial (World.mem_logAt hx hy (of_decide_eq_true hplace))
    exact ⟨Served.effective_of_array hy hreply, rfl⟩
  · obtain ⟨x, hx, hid, -, hrun, hreply⟩ :=
      World.exists_reply_at h hserial hN.retryAfter hd hexit hy hplace
    obtain ⟨before, after, hserved⟩ := List.append_of_mem hx
    have hpick : (x.run.filter fun y => y.place = p) = some y := by
      rw [hrun, Option.filter_some, if_pos (decide_eq_true hplace)]
    -- The log and the order of the requests split at the same command.
    rw [World.callsAt, World.logAt, hserved, List.filterMap_append,
      List.filterMap_cons_some (by rw [hpick, Option.map_some])] at hserial
    rw [World.orderAt, hserved, List.filterMap_append,
      List.filterMap_cons_some (by rw [hpick, Option.map_some]), ← hid]
    refine ⟨_, _, rfl, ?_⟩
    have hanswer := (N.answer_of_forall₂ hserial).2
    have hcalls : ((before.filterMap fun x =>
        (x.run.filter fun y => y.place = p).map fun y => (x.request, y)).map fun e => call e.2) =
        (before.filterMap fun x =>
          (x.run.filter fun y => y.place = p).map fun y => (y, x.reply)).map fun e => call e.1 := by
      rw [List.map_filterMap, List.map_filterMap]
      refine List.filterMap_congr fun x _ => ?_
      rw [Option.map_map, Option.map_map]
      rfl
    rw [hreply] at hanswer
    rw [hcalls]
    exact Reply.elements_injective (Resp.array.inj hanswer)
  · rintro events₁ events₂ w₁ rfl h₁ d hd hexit y hy hplace b hb hnew
    obtain ⟨more, hmore⟩ := World.served_append h₁ h
    have hinv₁ := World.inv_of_run h₁
    -- The first request had run its script before, and the second one had sent nothing.
    obtain ⟨x, hx, z, hid, -, hrun, -, -, ⟨values, hvalues⟩, -⟩ := hinv₁.exists_own_run hd hexit
    have hxw : x ∈ w.served := by
      rw [hmore]
      exact List.mem_append_left _ hx
    rw [← hid, World.ranFor_eq h hxw (Served.effective_of_array hrun hvalues)] at hy
    rw [World.orderAt, hmore, List.filterMap_append] at hb ⊢
    have hbmore := (List.mem_append.mp hb).resolve_left fun hb => hnew ?_
    · refine (List.singleton_sublist.mpr (List.mem_filterMap.mpr ⟨x, hx, ?_⟩)).append
        (List.singleton_sublist.mpr hbmore)
      rw [hy, Option.filter_some, if_pos (decide_eq_true hplace), Option.map_some, hid]
    · obtain ⟨x', hx', hpick⟩ := List.mem_filterMap.mp hb
      obtain ⟨y', -, rfl⟩ := Option.map_eq_some_iff.mp hpick
      exact hinv₁.begun hx'

/-- The third request of two workers is the last of the three on the key. -/
theorem linearizable_two_workers :
    let conf := rateLocation fixedWindowServer .fixedWindow 1 2
    ∃ w, World.run fixedWindowServer (twoWorkers .fixedWindow (conf 0) (conf 1)) = some w ∧
      (w.orderAt ⟨0, text "a"⟩).map Prod.fst = [(0, 0), (1, 0), (0, 1)] ∧
      ∃ d ∈ w.done, d.request = (0, 1) ∧ ∃ pre y post,
        w.orderAt ⟨0, text "a"⟩ = pre ++ (d.request, y) :: post ∧
          d.trip.parse.reply = ((fixedWindowMachine 2).step ((fixedWindowMachine 2).after none
            (pre.map fun e => e.2.windowCall)) y.windowCall).2 := by
  intro conf
  have hrun : (World.run fixedWindowServer (twoWorkers .fixedWindow (conf 0) (conf 1))).map
      (fun w => (w.orderAt ⟨0, text "a"⟩).map Prod.fst) = some [(0, 0), (1, 0), (0, 1)] := by
    decide +kernel
  have hthird : (World.run fixedWindowServer (twoWorkers .fixedWindow (conf 0) (conf 1))).map
      (fun w => w.done[2]?.map fun d =>
        (d.request, d.trip.exit, (w.ranFor d.request).map ScriptRun.place)) =
        some (some ((0, 1), some .replied, some ⟨0, text "a"⟩)) := by
    decide +kernel
  obtain ⟨w, hw, horder⟩ := Option.map_eq_some_iff.mp hrun
  rw [hw] at hthird
  obtain ⟨d, hd, heq⟩ := Option.map_eq_some_iff.mp (Option.some.inj hthird)
  simp only [Prod.mk.injEq] at heq
  obtain ⟨hid, hexit, hran⟩ := heq
  obtain ⟨y, hy, hplace⟩ := Option.map_eq_some_iff.mp hran
  obtain ⟨pre, post, hsplit, hreply⟩ := (linearizable hw
    (exclusive_fixedWindowServer hw) (fixedWindow_limiter ⟨1, 2, by decide, by decide⟩ 2)
    fixedWindowServer_interprets).2.1 d (List.mem_of_getElem? hd) hexit
    y hy hplace
  exact ⟨w, hw, horder, d, List.mem_of_getElem? hd, hid, pre, y, post, hsplit, hreply⟩

/-- What is taken from the key is taken by one request each, and is all accounted for: the key is
what the admissions of the requests leave, no request is charged twice, and one that is charged is
let through if it reads its reply. -/
theorem charged_once (h : World.run S events = some w) (hkey : w.Exclusive S p algo C)
    (hN : Limiter algo C Q N argv call) (hlua : S.Interprets Q (scriptBody algo) N argv store) :
    w.redis.keys p = (N.after none (w.callsAt p call)).map store ∧
      (w.admitted p call).map Prod.snd = admissions (N.trace none (w.callsAt p call)) ∧
      ((w.admitted p call).map Prod.fst).Nodup ∧
      ∀ b ∈ w.admitted p call, b ∈ w.allowed p ∨
        ∀ d ∈ w.done, d.request = b.1 → d.trip.exit ≠ some .replied := by
  have hinv := World.inv_of_run h
  obtain ⟨hstored, hserial⟩ := hkey.serial hinv hN hlua
  refine ⟨hstored, World.map_admitted hserial, World.nodup_admitted h, fun b hb => ?_⟩
  by_cases hreplied : ∃ d ∈ w.done, d.request = b.1 ∧ d.trip.exit = some .replied
  · obtain ⟨d, hd, hid, hexit⟩ := hreplied
    left
    obtain ⟨x, hx, hb⟩ := List.mem_filterMap.mp hb
    obtain ⟨y, hy, hb⟩ := Option.bind_eq_some_iff.mp hb
    obtain ⟨hrun, hplace⟩ := Option.filter_eq_some_iff.mp hy
    rw [decide_eq_true_eq] at hplace
    split_ifs at hb with hadm
    cases hb
    obtain ⟨t, -, -, hanswer⟩ := exists_mem_of_forall₂ hserial (World.mem_logAt hx hrun hplace)
    have heffective := Served.effective_of_array hrun hanswer
    have hran : w.ranFor d.request = some y := by
      rw [hid]
      exact (World.ranFor_eq h hx heffective).trans hrun
    -- The request has read the reply of this very command.
    obtain ⟨x', hx', hid', hsender, hrun', hreply⟩ :=
      World.exists_reply_at h hserial hN.retryAfter hd hexit hran hplace
    obtain rfl : x' = x := by
      have hone := filter_effective_eq h hx heffective
      have hone' := filter_effective_eq h hx' (Served.effective_of_array hrun' hreply)
      rw [hid', hid] at hone'
      exact List.singleton_inj.mp (hone'.symm.trans hone)
    obtain ⟨-, hargs, hzone, hC⟩ := hkey.run hinv hN.builtin hx hrun hplace
    have hquantity := (hN.call _ y hzone hC hargs).2
    have hstatus : d.trip.parse.reply.status = 0 := by
      rw [hreply] at hadm
      exact Option.some.inj hadm.2
    rw [hquantity, hN.time]
    rw [hquantity, hsender] at hadm
    refine List.mem_filterMap.mpr ⟨d, hd, ?_⟩
    rw [if_pos ⟨repliedWith_of_ended (hinv.ended hd) hexit hstatus, hadm.1⟩, hran,
      Option.filter_some, if_pos (decide_eq_true hplace), Option.map_some, hid, hsender]
  · exact .inr fun d hd hid hexit => hreplied ⟨d, hd, hid, hexit⟩

/-- Two workers with one key: their runs are charged to them, each once. -/
theorem charged_once_two_workers :
    let conf := rateLocation fixedWindowServer .fixedWindow 1 2
    ∃ w, World.run fixedWindowServer (twoWorkers .fixedWindow (conf 0) (conf 1)) = some w ∧
      (w.admitted ⟨0, text "a"⟩ ScriptRun.windowCall).map Prod.fst = [(0, 0), (1, 0)] ∧
      w.redis.keys ⟨0, text "a"⟩ = ((fixedWindowMachine 2).after none
        (w.callsAt ⟨0, text "a"⟩ ScriptRun.windowCall)).map id := by
  intro conf
  have hrun : (World.run fixedWindowServer (twoWorkers .fixedWindow (conf 0) (conf 1))).map
      (fun w => (w.admitted ⟨0, text "a"⟩ ScriptRun.windowCall).map Prod.fst) =
        some [(0, 0), (1, 0)] := by
    decide +kernel
  obtain ⟨w, hw, hadmitted⟩ := Option.map_eq_some_iff.mp hrun
  exact ⟨w, hw, hadmitted, (charged_once hw (exclusive_fixedWindowServer hw)
    (fixedWindow_limiter ⟨1, 2, by decide, by decide⟩ 2) fixedWindowServer_interprets).1⟩

end

end NginxRatelimit
