import NginxRatelimit.Library.Inherit
import NginxRatelimit.Library.Run
import NginxRatelimit.Request.Handler

/-!
# The target of a location

`ratelimit_pass` names an upstream, or has variables that are evaluated for each request. A
location's configuration keeps the two kinds in two fields, which it inherits one by one, and the
handler asks for the variables first. So a static target does not win against variables further out
(`innermost_pass_iff`). For variables the handler also writes to the location's configuration, which
later requests find so.
-/

namespace NginxRatelimit

open Library

section Pass

variable {U V : Type}

/-- A `ratelimit_pass` directive: an upstream, or a complex value. -/
inductive PassDirective (U V : Type) where
  | static (u : U)
  | complex (v : V)

/-- The target in `ngx_http_ratelimit_loc_conf_t`. -/
structure PassConf (U V : Type) where
  /-- `upstream.upstream`. -/
  upstream : Option U
  /-- `complex_target`. -/
  complexTarget : Option V

/-- The target after `ngx_http_ratelimit_create_loc_conf`. -/
def PassConf.create : PassConf U V := ⟨none, none⟩

/-- `ngx_http_ratelimit_pass`; `none` is "is duplicate". -/
def ratelimitPass (conf : PassConf U V) (d : PassDirective U V) : Option (PassConf U V) :=
  if conf.upstream.isSome || conf.complexTarget.isSome then none
  else
    match d with
    | .complex v => some { conf with complexTarget := some v }
    | .static u => some { conf with complexTarget := none, upstream := some u }

/-- A context with its directives, in order. -/
def loadContext (ds : List (PassDirective U V)) : Option (PassConf U V) :=
  ds.foldlM ratelimitPass .create

/-- `ngx_http_ratelimit_merge_loc_conf`. -/
def mergeLocConf (prev conf : PassConf U V) : PassConf U V where
  upstream := conf.upstream.or prev.upstream
  complexTarget := conf.complexTarget.or prev.complexTarget

/-- The configuration of the last context of a path that begins with `http`. -/
def mergePath : List (PassConf U V) → PassConf U V
  | [] => .create
  | conf :: path => path.foldl mergeLocConf conf

/-- What a request finds: the values of complex values, `none` when their evaluation fails, and what
`ngx_http_ratelimit_upstream_add` finds. -/
structure PassEnv (U V : Type) where
  value : V → Option Bytes
  find : Bytes → Option U

/-- The part of `ngx_http_ratelimit_handler` that chooses the target: the upstream, or the code that
it returns, and the location's configuration afterwards. -/
def passTarget (env : PassEnv U V) (conf : PassConf U V) : Except Rc U × PassConf U V :=
  match conf.complexTarget, conf.upstream with
  | none, none => (.error (.http 500), conf)
  | none, some u => (.ok u, conf)
  | some v, _ =>
    match env.value v with
    | none => (.error .error, conf)
    | some [] => (.error (.http 500), conf)
    | some (c :: cs) =>
      let conf := { conf with upstream := env.find (c :: cs) }
      match conf.upstream with
      | none => (.error (.http 500), conf)
      | some u => (.ok u, conf)

/-- The requests to a location. -/
def passMachine : Machine (PassConf U V) (PassEnv U V) (Except Rc U) :=
  ⟨fun conf env => ((passTarget env conf).2, (passTarget env conf).1)⟩

/-- The target that a directive means. -/
def PassDirective.resolve (env : PassEnv U V) : PassDirective U V → Except Rc U
  | static u => .ok u
  | .complex v =>
    match env.value v with
    | none => .error .error
    | some [] => .error (.http 500)
    | some (c :: cs) =>
      match env.find (c :: cs) with
      | none => .error (.http 500)
      | some u => .ok u

/-- The target of a location with this innermost directive. -/
def resolveInnermost (d : Option (PassDirective U V)) (env : PassEnv U V) : Except Rc U :=
  match d with
  | none => .error (.http 500)
  | some d => d.resolve env

/-! ## Loading and merging -/

/-- The upstream that a directive names. -/
def PassDirective.upstream? : PassDirective U V → Option U
  | static u => some u
  | .complex _ => none

/-- The variables that it has. -/
def PassDirective.complex? : PassDirective U V → Option V
  | static _ => none
  | .complex v => some v

/-- A context with one directive, or none. -/
def contextConf (own : Option (PassDirective U V)) : PassConf U V :=
  (loadContext own.toList).getD .create

/-- A context has one `ratelimit_pass` at most, and this is what it stores. -/
theorem loadContext_toList (own : Option (PassDirective U V)) : loadContext own.toList =
    some ⟨own.bind PassDirective.upstream?, own.bind PassDirective.complex?⟩ := by
  cases own with
  | none => rfl
  | some d => cases d <;> rfl

/-- Loaded alone, a context has its own target or none. -/
theorem contextConf_eq (own : Option (PassDirective U V)) :
    contextConf own = ⟨own.bind PassDirective.upstream?, own.bind PassDirective.complex?⟩ := by
  rw [contextConf, loadContext_toList]
  rfl

/-- A context loads when it has no more than one. -/
theorem loadContext_eq_some {ds : List (PassDirective U V)} {conf : PassConf U V} :
    loadContext ds = some conf ↔ ∃ own : Option (PassDirective U V), ds = own.toList ∧
      conf = contextConf own := by
  have hload : ∀ own : Option (PassDirective U V), loadContext own.toList = some (contextConf own) := by
    intro own
    rw [contextConf_eq, loadContext_toList]
  constructor
  · intro h
    match ds, h with
    | [], h => exact ⟨none, rfl, Option.some.inj (h.symm.trans (hload none))⟩
    | [d], h => exact ⟨some d, rfl, Option.some.inj (h.symm.trans (hload (some d)))⟩
    | d :: e :: ds, h => cases d <;> cases h
  · rintro ⟨own, rfl, rfl⟩
    exact hload own

/-- The two fields are inherited one by one. -/
theorem mergePath_eq (path : List (Option (PassDirective U V))) :
    mergePath (path.map contextConf) =
      ⟨innermost (path.map (·.bind PassDirective.upstream?)),
        innermost (path.map (·.bind PassDirective.complex?))⟩ := by
  rw [← inherited_eq_innermost, ← inherited_eq_innermost]
  induction path using List.reverseRecOn with
  | nil => rfl
  | append_singleton path own ih =>
    have hlast : mergePath ((path ++ [own]).map contextConf) =
        mergeLocConf (mergePath (path.map contextConf)) (contextConf own) := by
      cases path with
      | nil => simp [mergePath, mergeLocConf, PassConf.create]
      | cons c path => simp [mergePath]
    rw [hlast, ih, contextConf_eq]
    simp [mergeLocConf]

/-! ## Requests -/

/-- Variables are evaluated for every request, whatever an earlier one has written. -/
theorem passTarget_complex (env : PassEnv U V) {conf : PassConf U V} {v : V}
    (h : conf.complexTarget = some v) :
    (passTarget env conf).1 = (PassDirective.complex v).resolve env ∧
      (passTarget env conf).2.complexTarget = some v := by
  simp only [passTarget, h, PassDirective.resolve]
  split
  · exact ⟨rfl, h⟩
  · exact ⟨rfl, h⟩
  · rename_i c cs _
    cases hfind : env.find (c :: cs) <;> exact ⟨rfl, rfl⟩

/-- With a complex target every request resolves it. -/
theorem outputs_complex (envs : List (PassEnv U V)) {conf : PassConf U V} {v : V}
    (h : conf.complexTarget = some v) :
    passMachine.outputs conf envs = envs.map (PassDirective.complex v).resolve := by
  induction envs generalizing conf with
  | nil => rfl
  | cons env envs ih =>
    obtain ⟨hresult, hnext⟩ := passTarget_complex env h
    rw [Machine.outputs_cons, List.map_cons]
    exact congrArg₂ List.cons hresult (ih hnext)

/-- A location without variables keeps its upstream. -/
theorem passTarget_static (env : PassEnv U V) {conf : PassConf U V} (h : conf.complexTarget = none) :
    passTarget env conf = (resolveInnermost (conf.upstream.map .static) env, conf) := by
  simp only [passTarget, h]
  cases hu : conf.upstream <;> simp only [resolveInnermost, Option.map, PassDirective.resolve]

/-- Without one, every request goes to the upstream, if there is one. -/
theorem outputs_static (envs : List (PassEnv U V)) {conf : PassConf U V}
    (h : conf.complexTarget = none) :
    passMachine.outputs conf envs = envs.map (resolveInnermost (conf.upstream.map .static)) := by
  induction envs with
  | nil => rfl
  | cons env envs ih =>
    have hstep := passTarget_static env h
    rw [Machine.outputs_cons, List.map_cons]
    refine congrArg₂ List.cons (congrArg Prod.fst hstep) ?_
    rw [← ih]
    exact congrArg (passMachine.outputs · envs) (congrArg Prod.snd hstep)

/-- This is what the handler of a request does with it. -/
theorem startRoundTrip_eq_passTarget {conf : LocConf} {env : Env} {pass : PassConf U V}
    {penv : PassEnv U V} (hcomplex : conf.complexTarget = pass.complexTarget.isSome)
    (hconf : pass.complexTarget = none → pass.upstream.isSome = true)
    (htarget : env.target = pass.complexTarget.bind penv.value)
    (hfound : env.upstreamFound = (env.target.bind penv.find).isSome) (key : Bytes) (r : HttpRequest) :
    (startRoundTrip conf env key r).1 =
      match (passTarget penv pass).1 with
      | .ok _ => .again
      | .error rc => rc := by
  unfold startRoundTrip passTarget
  -- The handler looks at `complex_target` first.
  cases hv : pass.complexTarget with
  | none =>
    obtain ⟨u, hu⟩ := Option.isSome_iff_exists.mp (hconf hv)
    rw [hcomplex, hv, hu]
    rfl
  | some v =>
    rw [hv, Option.bind_some] at htarget
    rw [hcomplex, hv, htarget]
    cases hvalue : penv.value v with
    | none => simp only [hvalue, Option.isSome_some, if_true]
    | some name =>
      rw [htarget, hvalue, Option.bind_some] at hfound
      cases name with
      | nil => simp only [hvalue, Option.isSome_some, if_true]
      | cons c cs =>
        simp only [hvalue, hfound, Option.isSome_some, if_true]
        cases hfind : penv.find (c :: cs) <;> rfl

/-- In every run of requests a location uses the target that the innermost directive on its path
means, just where this directive has variables, or none on the path has. -/
theorem innermost_pass_iff (path : List (Option (PassDirective U V))) :
    (∀ envs, passMachine.outputs (mergePath (path.map contextConf)) envs =
      envs.map (resolveInnermost (innermost path))) ↔
    (∃ v, innermost path = some (.complex v)) ∨ ∀ v, some (.complex v) ∉ path := by
  rw [mergePath_eq]
  constructor
  · intro h
    by_contra hnot
    rw [not_or, not_forall] at hnot
    obtain ⟨hinner, v, hv⟩ := hnot
    obtain ⟨w, hw⟩ := Option.isSome_iff_exists.mp
      (innermost_bind_isSome (f := PassDirective.complex?) (not_not.mp hv) rfl)
    obtain ⟨d, hd⟩ : ∃ d, innermost path = some d := by
      rw [← Option.isSome_iff_exists, Option.isSome_iff_ne_none, ne_eq, innermost_eq_none, not_forall]
      exact ⟨_, hv⟩
    -- A request that cannot evaluate the variables tells the two apart.
    have hrun := h [⟨fun _ => none, fun _ => none⟩]
    rw [outputs_complex _ hw, hd] at hrun
    cases d with
    | static u => cases (List.cons.inj hrun).1
    | complex v' => exact hinner ⟨v', hd⟩
  · rintro (⟨v, hv⟩ | hnone) envs
    · have hw := innermost_bind_of_innermost (f := PassDirective.complex?) hv rfl
      rw [outputs_complex envs hw, hv]
      rfl
    · have hw : innermost (path.map (·.bind PassDirective.complex?)) = none := by
        rw [innermost_eq_none]
        intro v hv
        obtain ⟨own, hown, heq⟩ := List.mem_map.mp hv
        cases own with
        | none => cases heq
        | some d =>
          cases d with
          | static u => cases heq
          | complex v' => exact hnone v' hown
      rw [outputs_static envs hw]
      congr 1
      funext env
      cases hd : innermost path with
      | none =>
        have hu : innermost (path.map (·.bind PassDirective.upstream?)) = none := by
          rw [innermost_eq_none] at hd ⊢
          intro u hu
          obtain ⟨own, hown, heq⟩ := List.mem_map.mp hu
          cases own with
          | none => cases heq
          | some d => exact hd d hown
        simp only [hu, Option.map_none]
      | some d =>
        cases d with
        | static u =>
          have hu := innermost_bind_of_innermost (f := PassDirective.upstream?) hd rfl
          simp only [hu, Option.map_some]
        | complex v => exact absurd (innermost_mem hd) (hnone v)

/-- A static target inside a context with variables. -/
theorem static_inside_variable :
    let path : List (Option (PassDirective Bytes Bytes)) :=
      [some (.complex (text "$redis")), none, some (.static (text "cache"))]
    let env : PassEnv Bytes Bytes := ⟨fun _ => some (text "other"), some⟩
    passMachine.outputs (mergePath (path.map contextConf)) [env] ≠
      [env].map (resolveInnermost (innermost path)) := by
  intro path env h
  have hhead := (List.cons.inj h).1
  have hvalue := Except.ok.inj hhead
  exact absurd hvalue (by decide)

end Pass

end NginxRatelimit
