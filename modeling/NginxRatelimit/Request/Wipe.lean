import NginxRatelimit.Request.Frame
import NginxRatelimit.Request.Once

/-!
# The password in memory

`build_prelude` writes the password of `AUTH` into a buffer of the request pool. Two places zero
that buffer: `finalize_request`, when the round trip ends, and a cleanup handler of the pool. The
handler is registered after the buffer was filled and linked, and each of these allocations may fail.
`Pool.Covered` says that every such buffer has its handler; this is what the memory looks like when
the pool is destroyed (`Pool.destroy_zeroed_iff`).
-/

namespace NginxRatelimit

open Library

/-! ## The request pool -/

/-- A temporary buffer. -/
structure TempBuf where
  /-- History: the command that `build_command` wrote. -/
  argv : List Bytes
  /-- The bytes from `start` to `end`. -/
  bytes : Bytes

namespace TempBuf

/-- The buffer was filled with the `AUTH` command. -/
def IsAuth (b : TempBuf) : Prop := b.argv.head? = some (text "AUTH")

/-- It is zeroed over its whole range. -/
def Zeroed (b : TempBuf) : Prop := ∀ ch ∈ b.bytes, ch = 0

/-- Whether a buffer is for `AUTH` is seen from its command. -/
instance (b : TempBuf) : Decidable b.IsAuth := inferInstanceAs (Decidable (_ = _))

/-- Whether it is zeroed can be decided. -/
instance (b : TempBuf) : Decidable b.Zeroed := inferInstanceAs (Decidable (∀ _ ∈ _, _))

/-- `ngx_memzero(b->start, b->end - b->start)`. -/
def zero (b : TempBuf) : TempBuf := { b with bytes := List.replicate b.bytes.length 0 }

/-- A buffer with a command in it. -/
def command (argv : List Bytes) : TempBuf := ⟨argv, buildCommand argv⟩

/-- To wipe twice is to wipe once. -/
theorem zero_zero (b : TempBuf) : b.zero.zero = b.zero := by
  simp [zero]

/-- A wiped buffer is zeroed. -/
theorem zeroed_zero (b : TempBuf) : b.zero.Zeroed := fun _ hch => List.eq_of_mem_replicate hch

/-- A command begins with '*'. -/
theorem not_zeroed_command (argv : List Bytes) : ¬ (command argv).Zeroed := fun h =>
  absurd (h (ascii '*') List.mem_cons_self) (by decide)

end TempBuf

/-- `r->pool`, as far as temporary buffers go. A buffer's place in `bufs` stands for its address. -/
structure Pool where
  /-- The buffers of `ngx_create_temp_buf`. -/
  bufs : List TempBuf
  /-- `pool->cleanup`: the `data` of each handler, which is `ngx_http_ratelimit_wipe_auth`. -/
  cleanups : List ℕ

/-- Which allocations of `ngx_http_ratelimit_build_prelude` succeed. -/
structure PreludeAllocs where
  /-- `ngx_create_temp_buf` for `AUTH`. -/
  authBuf : Bool
  /-- `ngx_alloc_chain_link` for it. -/
  authLink : Bool
  /-- `ngx_pool_cleanup_add`. -/
  cleanup : Bool
  /-- `ngx_pnalloc` for the number of the database. -/
  databaseArg : Bool
  /-- `ngx_create_temp_buf` for `SELECT`. -/
  selectBuf : Bool
  /-- `ngx_alloc_chain_link` for it. -/
  selectLink : Bool

/-- What `ngx_http_ratelimit_build_prelude` leaves in the `ctx`. -/
structure Prelude where
  /-- `ctx->auth_buf`. -/
  authBuf : Option ℕ
  /-- The buffers of `ctx->prelude_chain`; their number is `ctx->prelude_replies`. -/
  chain : List ℕ

namespace Pool

/-- `ngx_http_ratelimit_wipe_auth`. -/
def wipe (p : Pool) (i : ℕ) : Pool := { p with bufs := p.bufs.modify i TempBuf.zero }

/-- `ngx_destroy_pool` runs the handlers. -/
def destroy (p : Pool) : Pool := p.cleanups.foldl wipe p

/-- `ngx_http_ratelimit_build_command`; the buffer is filled before the check. -/
def buildCommand (tempBuf : Bool) (argv : List Bytes) (p : Pool) : Option ℕ × Pool :=
  if !tempBuf then (none, p)
  else
    let filled := { p with bufs := p.bufs ++ [⟨argv, (commandWrites argv).flatten⟩] }
    if (commandWrites argv).flatten.length ≠ commandLength argv then (none, filled)
    else (some p.bufs.length, filled)

/-- `ngx_http_ratelimit_append_command`. -/
def appendCommand (tempBuf link : Bool) (argv : List Bytes) (p : Pool) : Option ℕ × Pool :=
  match p.buildCommand tempBuf argv with
  | (none, p) => (none, p)
  | (some i, p) => if link then (some i, p) else (none, p)

/-- The part of `ngx_http_ratelimit_build_prelude` for `AUTH`. -/
def buildAuth (conf : LocConf) (allocs : PreludeAllocs) (p : Pool) : Option Prelude × Pool :=
  if 0 < conf.password.length then
    match p.appendCommand allocs.authBuf allocs.authLink (Command.auth conf.password).argv with
    | (none, p) => (none, p)
    | (some i, p) =>
      if allocs.cleanup then (some ⟨some i, [i]⟩, { p with cleanups := i :: p.cleanups })
      else (none, p)
  else (some ⟨none, []⟩, p)

/-- `ngx_http_ratelimit_build_prelude`. -/
def buildPrelude (conf : LocConf) (allocs : PreludeAllocs) (p : Pool) : Option Prelude × Pool :=
  match p.buildAuth conf allocs with
  | (none, p) => (none, p)
  | (some prelude, p) =>
    if 0 < conf.database then
      if !allocs.databaseArg then (none, p)
      else
        match p.appendCommand allocs.selectBuf allocs.selectLink
          (Command.select conf.database.toNat).argv with
        | (none, p) => (none, p)
        | (some i, p) => (some { prelude with chain := prelude.chain ++ [i] }, p)
    else (some prelude, p)

/-! ## What is zeroed -/

/-- A buffer with a command is allocated. -/
def push (argv : List Bytes) (p : Pool) : Pool :=
  { p with bufs := p.bufs ++ [TempBuf.command argv] }

/-- Handlers are for buffers that exist, and a buffer without one keeps its command. -/
structure Wf (p : Pool) : Prop where
  lt : ∀ {i}, i ∈ p.cleanups → i < p.bufs.length
  kept : ∀ {i b}, p.bufs[i]? = some b → i ∉ p.cleanups → b = .command b.argv

/-- Every buffer with an `AUTH` command has its handler. -/
def Covered (p : Pool) : Prop := ∀ i b, p.bufs[i]? = some b → b.IsAuth → i ∈ p.cleanups

/-- The check at the end of `build_command` does not fail. -/
theorem buildCommand_eq (tempBuf : Bool) (argv : List Bytes) (p : Pool) :
    p.buildCommand tempBuf argv =
      if tempBuf then (some p.bufs.length, p.push argv) else (none, p) := by
  cases tempBuf with
  | false => rfl
  | true =>
    have hlen := length_buildCommand argv
    rw [buildCommand, flatten_commandWrites, if_neg (by decide), if_neg (not_not.mpr hlen),
      if_pos rfl]
    rfl

/-- Wiping zeroes one buffer, and leaves the others. -/
theorem getElem?_wipe (p : Pool) (i j : ℕ) :
    (p.wipe i).bufs[j]? = p.bufs[j]?.map fun b => if i = j then b.zero else b := by
  simp only [wipe, List.getElem?_modify]
  split <;> rfl

/-- The buffers when handlers have run. -/
theorem getElem?_foldl_wipe (l : List ℕ) (p : Pool) (j : ℕ) :
    (l.foldl wipe p).bufs[j]? = p.bufs[j]?.map fun b => if j ∈ l then b.zero else b := by
  induction l generalizing p with
  | nil => simp
  | cons i l ih =>
    rw [List.foldl_cons, ih, getElem?_wipe, Option.map_map]
    congr 1
    funext b
    by_cases hi : i = j
    · by_cases hj : j ∈ l <;> simp [hi, hj, TempBuf.zero_zero]
    · have hi' : ¬ j = i := fun h => hi h.symm
      by_cases hj : j ∈ l <;> simp [hi, hi', hj]

/-- When the pool is destroyed, the `AUTH` buffers are zeroed if and only if each has its handler.
-/
theorem destroy_zeroed_iff {p : Pool} (h : p.Wf) :
    (∀ b ∈ p.destroy.bufs, b.IsAuth → b.Zeroed) ↔ p.Covered := by
  have hbufs := getElem?_foldl_wipe p.cleanups p
  constructor
  · intro hzeroed i b hb hauth
    by_contra hnot
    have hmem : b ∈ p.destroy.bufs := by
      refine List.mem_of_getElem? (i := i) ?_
      rw [destroy, hbufs, hb, Option.map_some, if_neg hnot]
    have hb' := hzeroed b hmem hauth
    rw [h.kept hb hnot] at hb'
    exact TempBuf.not_zeroed_command _ hb'
  · intro hcovered b hmem hauth
    obtain ⟨i, hi⟩ := List.mem_iff_getElem?.mp hmem
    rw [destroy, hbufs] at hi
    obtain ⟨b', hb', hmap⟩ := Option.map_eq_some_iff.mp hi
    have hauth' : b'.IsAuth := by
      rw [← hmap] at hauth
      split at hauth <;> exact hauth
    rw [if_pos (hcovered i b' hb' hauth')] at hmap
    rw [← hmap]
    exact b'.zeroed_zero

/-- The buffers after a new one. -/
theorem getElem?_push {p : Pool} {argv : List Bytes} {i : ℕ} {b : TempBuf}
    (h : (p.push argv).bufs[i]? = some b) :
    p.bufs[i]? = some b ∨ i = p.bufs.length ∧ b = .command argv := by
  rw [push, List.getElem?_append] at h
  split at h
  · exact .inl h
  · obtain ⟨hi, hb⟩ := List.getElem?_eq_some_iff.mp h
    rw [List.length_singleton] at hi
    refine .inr ⟨by omega, ?_⟩
    rw [← hb, List.getElem_singleton]

/-- The buffers that were there keep their places. -/
theorem getElem?_push_old {p : Pool} {i : ℕ} {b : TempBuf} (h : p.bufs[i]? = some b)
    (argv : List Bytes) : (p.push argv).bufs[i]? = some b := by
  obtain ⟨hi, -⟩ := List.getElem?_eq_some_iff.mp h
  rw [push, List.getElem?_append_left hi, h]

/-- The new one is the last. -/
theorem getElem?_push_new (p : Pool) (argv : List Bytes) :
    (p.push argv).bufs[p.bufs.length]? = some (.command argv) :=
  List.getElem?_concat_length

/-- There is one more. -/
theorem length_push (p : Pool) (argv : List Bytes) :
    (p.push argv).bufs.length = p.bufs.length + 1 := by
  rw [push, List.length_append, List.length_singleton]

/-- A pool stays well formed when a buffer is made. -/
theorem Wf.push {p : Pool} (h : p.Wf) (argv : List Bytes) : (p.push argv).Wf where
  lt := by
    intro i hi
    rw [length_push]
    exact Nat.lt_succ_of_lt (h.lt hi)
  kept := by
    intro i b hb hi
    rcases getElem?_push hb with hb | ⟨-, rfl⟩
    · exact h.kept hb hi
    · rfl

/-- A new buffer has no handler, so its command must not be `AUTH`. -/
theorem Wf.covered_push {p : Pool} (h : p.Wf) (argv : List Bytes) :
    (p.push argv).Covered ↔ p.Covered ∧ argv.head? ≠ some (text "AUTH") := by
  constructor
  · intro hcovered
    refine ⟨fun i b hb => hcovered i b (getElem?_push_old hb argv), fun hauth => ?_⟩
    have hmem := hcovered _ _ (getElem?_push_new p argv) hauth
    exact Nat.lt_irrefl _ (h.lt hmem)
  · rintro ⟨hcovered, hnot⟩ i b hb hauth
    rcases getElem?_push hb with hb | ⟨-, rfl⟩
    · exact hcovered i b hb hauth
    · exact absurd hauth hnot

/-- The handler of the new buffer is registered. -/
def cover (p : Pool) (argv : List Bytes) : Pool :=
  { p.push argv with cleanups := p.bufs.length :: p.cleanups }

/-- So it does when the buffer gets its handler, too. -/
theorem Wf.cover {p : Pool} (h : p.Wf) (argv : List Bytes) : (p.cover argv).Wf where
  lt := by
    intro i hi
    have hlen : (p.cover argv).bufs.length = p.bufs.length + 1 := length_push p argv
    rw [hlen]
    rcases List.mem_cons.mp hi with rfl | hi
    · exact Nat.lt_succ_self _
    · exact Nat.lt_succ_of_lt (h.lt hi)
  kept := by
    intro i b hb hi
    exact (h.push argv).kept hb fun hmem => hi (List.mem_cons_of_mem _ hmem)

/-- A buffer with its handler leaves nothing uncovered. -/
theorem covered_cover (p : Pool) (argv : List Bytes) :
    (p.cover argv).Covered ↔ p.Covered := by
  constructor
  · intro hcovered i b hb hauth
    obtain ⟨hi, -⟩ := List.getElem?_eq_some_iff.mp hb
    rcases List.mem_cons.mp (hcovered i b (getElem?_push_old hb argv) hauth) with rfl | hmem
    · exact absurd hi (Nat.lt_irrefl _)
    · exact hmem
  · intro hcovered i b hb hauth
    rcases getElem?_push hb with hb | ⟨rfl, -⟩
    · exact List.mem_cons_of_mem _ (hcovered i b hb hauth)
    · exact List.mem_cons_self

/-- A buffer that has a handler may be zeroed at any time. -/
theorem Wf.wipe {p : Pool} (h : p.Wf) {i : ℕ} (hi : i ∈ p.cleanups) : (p.wipe i).Wf where
  lt := by
    intro j hj
    rw [Pool.wipe, List.length_modify]
    exact h.lt hj
  kept := by
    intro j b hb hj
    rw [getElem?_wipe] at hb
    obtain ⟨b', hb', rfl⟩ := Option.map_eq_some_iff.mp hb
    have hne : ¬ i = j := by
      rintro rfl
      exact hj hi
    rw [if_neg hne]
    exact h.kept hb' hj

/-- Wiping covers nothing, and uncovers nothing. -/
theorem covered_wipe (p : Pool) (i : ℕ) : (p.wipe i).Covered ↔ p.Covered := by
  have hauth : ∀ {b : TempBuf} {j : ℕ}, (if i = j then b.zero else b).IsAuth ↔ b.IsAuth := by
    intro b j
    split <;> exact Iff.rfl
  constructor
  · intro hcovered j b hb hb'
    exact hcovered j _ (by rw [getElem?_wipe, hb]; rfl) (hauth.mpr hb')
  · intro hcovered j b hb hb'
    rw [getElem?_wipe] at hb
    obtain ⟨b₀, hb₀, rfl⟩ := Option.map_eq_some_iff.mp hb
    exact hcovered j b₀ hb₀ (hauth.mp hb')

/-! ## The prelude in memory -/

/-- The `AUTH` command gets its buffer, and the buffer its link and its handler. -/
def AuthCovered (conf : LocConf) (allocs : PreludeAllocs) : Prop :=
  0 < conf.password.length → allocs.authBuf = true →
    allocs.authLink = true ∧ allocs.cleanup = true

/-- Whether the `AUTH` command is covered can be decided. -/
instance (conf : LocConf) (allocs : PreludeAllocs) : Decidable (AuthCovered conf allocs) :=
  inferInstanceAs (Decidable (_ → _ → _))

/-- What `build_prelude` does for `AUTH`: nothing, or a buffer without a handler, or one that has
it. -/
theorem buildAuth_cases (conf : LocConf) (allocs : PreludeAllocs) (p : Pool) :
    (AuthCovered conf allocs ∧ (p.buildAuth conf allocs = (none, p) ∨
        conf.password.length = 0 ∧ p.buildAuth conf allocs = (some ⟨none, []⟩, p))) ∨
      (¬ AuthCovered conf allocs ∧
        p.buildAuth conf allocs = (none, p.push (Command.auth conf.password).argv)) ∨
      (AuthCovered conf allocs ∧ 0 < conf.password.length ∧ p.buildAuth conf allocs =
        (some ⟨some p.bufs.length, [p.bufs.length]⟩,
          p.cover (Command.auth conf.password).argv)) := by
  by_cases hpassword : 0 < conf.password.length
  · rw [buildAuth, if_pos hpassword, appendCommand, buildCommand_eq]
    cases hbuf : allocs.authBuf with
    | false => exact .inl ⟨fun _ h => absurd (hbuf.symm.trans h) (by decide), .inl rfl⟩
    | true =>
      cases hlink : allocs.authLink with
      | false =>
        refine .inr (.inl ⟨fun h => ?_, rfl⟩)
        exact absurd (hlink.symm.trans (h hpassword hbuf).1) (by decide)
      | true =>
        cases hcleanup : allocs.cleanup with
        | false =>
          refine .inr (.inl ⟨fun h => ?_, rfl⟩)
          exact absurd (hcleanup.symm.trans (h hpassword hbuf).2) (by decide)
        | true => exact .inr (.inr ⟨fun _ _ => ⟨hlink, hcleanup⟩, hpassword, rfl⟩)
  · rw [buildAuth, if_neg hpassword]
    exact .inl ⟨fun h => absurd h hpassword, .inr ⟨by omega, rfl⟩⟩

/-- `SELECT` adds a buffer at most. -/
theorem buildPrelude_cases (conf : LocConf) (allocs : PreludeAllocs) (p : Pool) :
    (p.buildPrelude conf allocs).2 = (p.buildAuth conf allocs).2 ∨
      (p.buildPrelude conf allocs).2 =
        (p.buildAuth conf allocs).2.push (Command.select conf.database.toNat).argv := by
  unfold buildPrelude
  generalize p.buildAuth conf allocs = result
  obtain ⟨prelude, q⟩ := result
  cases prelude with
  | none => exact .inl rfl
  | some prelude =>
    dsimp only
    split
    · split
      · exact .inl rfl
      · rw [appendCommand, buildCommand_eq]
        cases allocs.selectBuf with
        | false => exact .inl rfl
        | true =>
          cases allocs.selectLink with
          | false => exact .inr rfl
          | true => exact .inr rfl
    · exact .inl rfl

/-- What is built for `AUTH` keeps the pool well formed, and covered if and only if its allocations
give it a handler. -/
theorem Wf.buildAuth {p : Pool} (h : p.Wf) (conf : LocConf) (allocs : PreludeAllocs) :
    (p.buildAuth conf allocs).2.Wf ∧
      ((p.buildAuth conf allocs).2.Covered ↔ p.Covered ∧ AuthCovered conf allocs) := by
  have hauth : ∀ argv : List Bytes, (Command.auth conf.password).argv = argv →
      argv.head? = some (text "AUTH") := by
    rintro _ rfl
    rfl
  rcases buildAuth_cases conf allocs p with ⟨hok, hcase | ⟨-, hcase⟩⟩ | ⟨hnot, hcase⟩ |
    ⟨hok, -, hcase⟩
  · rw [hcase]
    exact ⟨h, (and_iff_left hok).symm⟩
  · rw [hcase]
    exact ⟨h, (and_iff_left hok).symm⟩
  · rw [hcase]
    refine ⟨h.push _, fun hcovered => ?_, fun hand => absurd hand.2 hnot⟩
    exact absurd (hauth _ rfl) ((h.covered_push _).mp hcovered).2
  · rw [hcase]
    exact ⟨h.cover _, (covered_cover p _).trans (and_iff_left hok).symm⟩

/-- What a call of `build_prelude` leaves. -/
theorem Wf.buildPrelude {p : Pool} (h : p.Wf) (conf : LocConf) (allocs : PreludeAllocs) :
    (p.buildPrelude conf allocs).2.Wf ∧
      ((p.buildPrelude conf allocs).2.Covered ↔ p.Covered ∧ AuthCovered conf allocs) := by
  obtain ⟨hwf, hcovered⟩ := h.buildAuth conf allocs
  have hselect : (Command.select conf.database.toNat).argv.head? ≠ some (text "AUTH") := by
    rw [show (Command.select conf.database.toNat).argv.head? = some (text "SELECT") from rfl]
    decide +kernel
  rcases buildPrelude_cases conf allocs p with hcase | hcase
  · rw [hcase]
    exact ⟨hwf, hcovered⟩
  · rw [hcase]
    exact ⟨hwf.push _, (hwf.covered_push _).trans ((and_iff_left hselect).trans hcovered)⟩

/-- A call that succeeds, for both commands. -/
theorem buildPrelude_some {conf : LocConf} {allocs : PreludeAllocs} {p : Pool} {prelude : Prelude}
    (h : (p.buildPrelude conf allocs).1 = some prelude) :
    ∃ first, (p.buildAuth conf allocs).1 = some first ∧ prelude.authBuf = first.authBuf ∧
      (¬ 0 < conf.database ∧ prelude.chain = first.chain ∧
          (p.buildPrelude conf allocs).2 = (p.buildAuth conf allocs).2 ∨
        0 < conf.database ∧
          prelude.chain = first.chain ++ [(p.buildAuth conf allocs).2.bufs.length] ∧
          (p.buildPrelude conf allocs).2 =
            (p.buildAuth conf allocs).2.push (Command.select conf.database.toNat).argv) := by
  unfold buildPrelude at h ⊢
  generalize p.buildAuth conf allocs = result at h ⊢
  obtain ⟨first, q⟩ := result
  cases first with
  | none => cases h
  | some first =>
    refine ⟨first, rfl, ?_⟩
    dsimp only at h ⊢
    split at h
    · rename_i hdatabase
      rw [if_pos hdatabase]
      split at h
      · cases h
      · rename_i harg
        rw [if_neg harg]
        rw [appendCommand, buildCommand_eq] at h ⊢
        cases hbuf : allocs.selectBuf with
        | false =>
          rw [hbuf] at h
          cases h
        | true =>
          cases hlink : allocs.selectLink with
          | false =>
            rw [hbuf, hlink] at h
            cases h
          | true =>
            rw [hbuf, hlink] at h
            obtain rfl := Option.some.inj h
            exact ⟨rfl, .inr ⟨hdatabase, rfl, rfl⟩⟩
    · rename_i hdatabase
      obtain rfl := Option.some.inj h
      rw [if_neg hdatabase]
      exact ⟨rfl, .inl ⟨hdatabase, rfl, rfl⟩⟩

/-- `SELECT` registers no handler. -/
theorem cleanups_buildPrelude_eq (conf : LocConf) (allocs : PreludeAllocs) (p : Pool) :
    (p.buildPrelude conf allocs).2.cleanups = (p.buildAuth conf allocs).2.cleanups := by
  rcases buildPrelude_cases conf allocs p with hcase | hcase
  · rw [hcase]
  · rw [hcase]
    rfl

/-- The handlers stay registered. -/
theorem cleanups_buildPrelude (conf : LocConf) (allocs : PreludeAllocs) (p : Pool) {i : ℕ}
    (hi : i ∈ p.cleanups) : i ∈ (p.buildPrelude conf allocs).2.cleanups := by
  rw [cleanups_buildPrelude_eq]
  rcases buildAuth_cases conf allocs p with ⟨-, hcase | ⟨-, hcase⟩⟩ | ⟨-, hcase⟩ | ⟨-, -, hcase⟩
  · rw [hcase]
    exact hi
  · rw [hcase]
    exact hi
  · rw [hcase]
    exact hi
  · rw [hcase]
    exact List.mem_cons_of_mem _ hi

/-- The buffer that the `ctx` remembers has its handler. -/
theorem authBuf_buildPrelude {conf : LocConf} {allocs : PreludeAllocs} {p : Pool}
    {prelude : Prelude} (h : (p.buildPrelude conf allocs).1 = some prelude) {i : ℕ}
    (hi : prelude.authBuf = some i) : i ∈ (p.buildPrelude conf allocs).2.cleanups := by
  obtain ⟨first, hfirst, hbuf, -⟩ := buildPrelude_some h
  rw [hbuf] at hi
  rw [cleanups_buildPrelude_eq]
  rcases buildAuth_cases conf allocs p with ⟨-, hcase | ⟨-, hcase⟩⟩ | ⟨-, hcase⟩ | ⟨-, -, hcase⟩
  · rw [hcase] at hfirst
    cases hfirst
  · rw [hcase] at hfirst
    obtain rfl := Option.some.inj hfirst
    cases hi
  · rw [hcase] at hfirst
    cases hfirst
  · rw [hcase] at hfirst ⊢
    obtain rfl := Option.some.inj hfirst
    obtain rfl := Option.some.inj hi
    exact List.mem_cons_self

/-- In memory the prelude is the commands that it is made of. -/
theorem chain_buildPrelude {conf : LocConf} {allocs : PreludeAllocs} {p : Pool} {prelude : Prelude}
    (h : (p.buildPrelude conf allocs).1 = some prelude) :
    prelude.chain.map (fun i => (p.buildPrelude conf allocs).2.bufs[i]?) =
      (NginxRatelimit.buildPrelude conf).map fun cmd => some (.command cmd.argv) := by
  obtain ⟨first, hfirst, -, hselect⟩ := buildPrelude_some h
  -- The chain of the first part, and that it stays in what follows.
  have hauth : first.chain.map (fun i => (p.buildAuth conf allocs).2.bufs[i]?) =
      (if 0 < conf.password.length then [Command.auth conf.password] else []).map
        fun cmd => some (TempBuf.command cmd.argv) := by
    rcases buildAuth_cases conf allocs p with ⟨-, hcase | ⟨hempty, hcase⟩⟩ | ⟨-, hcase⟩ |
      ⟨-, hpassword, hcase⟩
    · rw [hcase] at hfirst
      cases hfirst
    · rw [hcase] at hfirst
      obtain rfl := Option.some.inj hfirst
      rw [if_neg (by omega)]
      rfl
    · rw [hcase] at hfirst
      cases hfirst
    · rw [hcase] at hfirst ⊢
      obtain rfl := Option.some.inj hfirst
      rw [if_pos hpassword, List.map_singleton, List.map_singleton]
      exact congrArg (· :: []) (getElem?_push_new p _)
  rw [NginxRatelimit.buildPrelude, List.map_append, ← hauth]
  rcases hselect with ⟨hdatabase, hchain, hpool⟩ | ⟨hdatabase, hchain, hpool⟩
  · rw [hchain, hpool, if_neg hdatabase, List.map_nil, List.append_nil]
  · rw [hchain, hpool, if_pos hdatabase, List.map_append, List.map_singleton, List.map_singleton,
      getElem?_push_new]
    congr 1
    refine List.map_congr_left fun i hi => ?_
    -- The buffers of the chain are there, so they are before the new one.
    have hmem := List.mem_map_of_mem (f := fun i => (p.buildAuth conf allocs).2.bufs[i]?) hi
    rw [hauth] at hmem
    obtain ⟨cmd, -, hcmd⟩ := List.mem_map.mp hmem
    rw [getElem?_push_old hcmd.symm]
    exact hcmd

end Pool

/-! ## The life of a request -/

/-- The location in which a pass of the handler comes to `build_prelude`. -/
def reachesPrelude (conf : Option LocConf) (env : Env) (r : HttpRequest) : Option LocConf :=
  match conf with
  | none => none
  | some conf =>
    if !conf.complexTarget && !conf.upstream then none
    else if r.roundTrip.isSome || r.done || !env.ctxAlloc then none
    else
      match env.key with
      | none | some [] => none
      | some (k :: ks) =>
        if 0 < conf.pfx.length && !env.keyAlloc then none
        else if maxKeyLen < (prefixedKey conf (k :: ks)).length then none
        else some conf

/-- Any other pass does not depend on what it would find there. -/
theorem handler_of_not_reaches {conf : Option LocConf} {env : Env} {r : HttpRequest}
    (h : reachesPrelude conf env r = none) (preludeAlloc : Bool) :
    handler conf { env with preludeAlloc := preludeAlloc } r = handler conf env r := by
  cases conf with
  | none => rfl
  | some conf =>
    unfold reachesPrelude at h
    unfold handler
    dsimp only at h ⊢
    -- The two functions take the same branches as far as the call.
    repeat' split
    all_goals first | rfl | simp_all

/-- A main request with its memory. -/
structure Memory where
  /-- The request. -/
  request : MainRequest
  /-- `ctx->auth_buf` of each round trip. -/
  authBufs : List (Option ℕ)
  /-- `r->pool`, which subrequests share. -/
  pool : Pool

/-- What happens to it. -/
inductive MemoryEvent where
  /-- The handler is entered. -/
  | pass (id : ℕ) (conf : Option LocConf) (env : Env) (allocs : PreludeAllocs)
  /-- An internal redirect wipes `r->ctx`. -/
  | redirect (id : ℕ)
  /-- An event on the connection of the `k`th round trip. -/
  | io (k : ℕ) (e : Event)
  /-- nginx itself finalizes the upstream request of the `k`th round trip. -/
  | close (k : ℕ)

/-- `ngx_http_upstream_finalize_request`, which calls `ngx_http_ratelimit_finalize_request`. -/
def Trip.close (t : Trip) : Trip :=
  if !t.roundTrip.attached then t
  else
    let r := if t.wiped then t.roundTrip else t.roundTrip.finalizeRequest
    { t with roundTrip := { r with attached := false } }

namespace Memory

/-- A request at its beginning. -/
def fresh : Memory := ⟨.fresh, [], ⟨[], []⟩⟩

/-- The request as the handler finds it. -/
def http (m : Memory) (id : ℕ) : HttpRequest := ⟨m.request.done, m.request.ctx id⟩

/-- The handler is entered; `build_prelude` decides whether its allocations have succeeded. -/
def pass (m : Memory) (id : ℕ) (conf : Option LocConf) (env : Env) (allocs : PreludeAllocs) :
    Memory × Option Rc :=
  match reachesPrelude conf env (m.http id) with
  | none =>
    let next := m.request.pass id conf env
    ({ m with request := next.1 }, next.2)
  | some loc =>
    let prelude := m.pool.buildPrelude loc allocs
    let next := m.request.pass id conf { env with preludeAlloc := prelude.1.isSome }
    let started := next.1.trips.drop m.request.trips.length
    ({ request := next.1
       authBufs := m.authBufs ++ started.map fun _ => prelude.1.bind Prelude.authBuf
       pool := prelude.2 }, next.2)

/-- The end of `ngx_http_ratelimit_finalize_request` for the `k`th round trip. -/
def wipeAuth (m : Memory) (k : ℕ) : Memory :=
  match m.authBufs[k]? with
  | some (some i) => { m with authBufs := m.authBufs.set k none, pool := m.pool.wipe i }
  | _ => m

/-- The `k`th round trip was finalized. -/
def finalized (m : Memory) (k : ℕ) : Bool :=
  (m.request.trips[k]?.map fun t => t.roundTrip.finalized).getD false

/-- The `k`th round trip moves on, and its password is wiped when that finalized it. -/
def advance (m : Memory) (k : ℕ) (request : MainRequest) : Memory :=
  let next := { m with request := request }
  if next.finalized k && !m.finalized k then next.wipeAuth k else next

end Memory

/-- The life of a main request with its memory. -/
def memoryMachine : Machine Memory MemoryEvent (Option Rc) where
  step m
    | .pass id conf env allocs => m.pass id conf env allocs
    | .redirect id => ({ m with request := (mainMachine.step m.request (.redirect id)).1 }, none)
    | .io k e => (m.advance k (mainMachine.step m.request (.io k e)).1, none)
    | .close k =>
      (m.advance k { m.request with trips := m.request.trips.modify k Trip.close }, none)

namespace Memory

/-- The invariant of the memory. -/
structure Inv (m : Memory) : Prop where
  pool : m.pool.Wf
  /-- What a `ctx` remembers has its handler. -/
  authBufs : ∀ i, some i ∈ m.authBufs → i ∈ m.pool.cleanups

/-- A new request has the invariant. -/
theorem inv_fresh : fresh.Inv := ⟨⟨nofun, nofun⟩, nofun⟩

/-- And nothing to cover. -/
theorem covered_fresh : fresh.pool.Covered := nofun

/-- Wiping early changes nothing for the end. -/
theorem Inv.wipeAuth {m : Memory} (h : m.Inv) (k : ℕ) :
    (m.wipeAuth k).Inv ∧ ((m.wipeAuth k).pool.Covered ↔ m.pool.Covered) := by
  unfold Memory.wipeAuth
  split
  · rename_i i hk
    have hi := h.authBufs i (List.mem_of_getElem? hk)
    refine ⟨⟨h.pool.wipe hi, fun j hj => ?_⟩, Pool.covered_wipe m.pool i⟩
    rcases List.mem_or_eq_of_mem_set hj with hj | hj
    · exact h.authBufs j hj
    · cases hj
  · exact ⟨h, Iff.rfl⟩

/-- An event of a round trip keeps the invariant and what is covered. -/
theorem Inv.advance {m : Memory} (h : m.Inv) (k : ℕ) (request : MainRequest) :
    (m.advance k request).Inv ∧ ((m.advance k request).pool.Covered ↔ m.pool.Covered) := by
  have hnext : ({ m with request := request } : Memory).Inv := ⟨h.pool, h.authBufs⟩
  unfold Memory.advance
  dsimp only
  split
  · exact hnext.wipeAuth k
  · exact ⟨hnext, Iff.rfl⟩

/-- What a step has to meet: where the handler builds the prelude, `AUTH` gets no buffer, or the
buffer gets its link and its handler. -/
def StepCovered (m : Memory) : MemoryEvent → Prop
  | .pass id conf env allocs =>
    ∀ loc, reachesPrelude conf env (m.http id) = some loc → Pool.AuthCovered loc allocs
  | .redirect _ | .io _ _ | .close _ => True

/-- A pass keeps the invariant, and covers what it builds if and only if it meets its condition. -/
theorem Inv.pass {m : Memory} (h : m.Inv) (id : ℕ) (conf : Option LocConf) (env : Env)
    (allocs : PreludeAllocs) :
    (m.pass id conf env allocs).1.Inv ∧ ((m.pass id conf env allocs).1.pool.Covered ↔
      m.pool.Covered ∧ m.StepCovered (.pass id conf env allocs)) := by
  unfold Memory.pass StepCovered
  dsimp only
  cases reachesPrelude conf env (m.http id) with
  | none =>
    have hnone : ∀ loc, none = some loc → Pool.AuthCovered loc allocs := by
      intro loc hloc
      cases hloc
    exact ⟨⟨h.pool, h.authBufs⟩, (and_iff_left hnone).symm⟩
  | some loc =>
    obtain ⟨hwf, hcovered⟩ := h.pool.buildPrelude loc allocs
    refine ⟨⟨hwf, fun i hi => ?_⟩, ?_⟩
    · rcases List.mem_append.mp hi with hi | hi
      · exact Pool.cleanups_buildPrelude loc allocs m.pool (h.authBufs i hi)
      · obtain ⟨t, -, ht⟩ := List.mem_map.mp hi
        obtain ⟨prelude, hprelude, hbuf⟩ := Option.bind_eq_some_iff.mp ht
        exact Pool.authBuf_buildPrelude hprelude hbuf
    · refine hcovered.trans (and_congr_right fun _ => ?_)
      refine ⟨fun hstep loc' hloc => ?_, fun hstep => hstep loc rfl⟩
      obtain rfl := Option.some.inj hloc
      exact hstep

/-- Every step keeps the invariant, and covers the buffers if and only if it meets the condition. -/
theorem Inv.step {m : Memory} (h : m.Inv) (e : MemoryEvent) :
    (memoryMachine.step m e).1.Inv ∧
      ((memoryMachine.step m e).1.pool.Covered ↔ m.pool.Covered ∧ m.StepCovered e) := by
  cases e with
  | pass id conf env allocs => exact h.pass id conf env allocs
  | redirect id => exact ⟨⟨h.pool, h.authBufs⟩, (and_iff_left trivial).symm⟩
  | io k e =>
    obtain ⟨hinv, hcovered⟩ := h.advance k (mainMachine.step m.request (.io k e)).1
    exact ⟨hinv, hcovered.trans (and_iff_left trivial).symm⟩
  | close k =>
    obtain ⟨hinv, hcovered⟩ := h.advance k
      { m.request with trips := m.request.trips.modify k Trip.close }
    exact ⟨hinv, hcovered.trans (and_iff_left trivial).symm⟩

/-- When the pool of a request is destroyed, after any run, the buffers with `AUTH` commands are
zeroed if and only if in every pass that came to `build_prelude` the location had no password, or
the buffer for `AUTH` was not allocated, or both its chain link and its cleanup handler were. -/
theorem password_wiped_iff (events : List MemoryEvent) :
    (∀ b ∈ (memoryMachine.after fresh events).pool.destroy.bufs, b.IsAuth → b.Zeroed) ↔
      ∀ e ∈ memoryMachine.trace fresh events, e.1.StepCovered e.2.1 := by
  have hinv : (memoryMachine.after fresh events).Inv :=
    memoryMachine.after_induction inv_fresh (fun m e h => (Inv.step h e).1) events
  have hrun := memoryMachine.after_iff (P := fun m : Memory => m.pool.Covered)
    (fun m e h => (Inv.step h e).1) (fun m e h => (Inv.step h e).2) inv_fresh events
  rw [Pool.destroy_zeroed_iff hinv.pool, hrun]
  exact and_iff_right covered_fresh

/-- The chain link of `AUTH` is not allocated, and the password stays. -/
theorem password_not_wiped :
    let conf := { LocConf.ofZone ⟨.gcra, 5, 60, 0, ⟨[], []⟩⟩ (fun _ => ⟨[], []⟩) with
      password := text "secret" }
    let events : List MemoryEvent :=
      [.pass 0 (some conf) (.good (text "k")) ⟨true, false, true, true, true, true⟩]
    let bufs := (memoryMachine.after fresh events).pool.destroy.bufs
    (¬ ∀ b ∈ bufs, b.IsAuth → b.Zeroed) ∧
      bufs.map TempBuf.bytes = [text "*2\r\n$4\r\nAUTH\r\n$6\r\nsecret\r\n"] := by
  decide +kernel

end Memory

end NginxRatelimit
