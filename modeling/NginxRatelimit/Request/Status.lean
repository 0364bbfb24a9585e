import NginxRatelimit.Request.Parse

/-!
# The status byte of a reply

`process_reply` stores the status when it reads the first element, halfway through the parse, and
leaves it alone afterwards. `statusByte` is that byte by the bytes of the reply alone, and
`statusKnown_done` says that a reply parsed to its end has left the status of its status byte.
-/

namespace NginxRatelimit

/-- The bytes of a reply after its first line. -/
def afterFirstLine (fed : Bytes) : Bytes := (fed.dropWhile (· ≠ LF)).drop 1

/-- The status byte of a reply: the first byte after the first line that is not a ':'. -/
def statusByte (fed : Bytes) : Option UInt8 := (afterFirstLine fed).find? (· ≠ ascii ':')

/-- The status that the parser stores for a status byte. -/
def StatusOfByte (ch : UInt8) (status : ℕ) : Prop :=
  (ch = ascii '0' ∧ status = 200) ∨ (ch = ascii '1' ∧ status = 429)

/-- The first line of a reply ends at its first LF. -/
theorem afterFirstLine_eq {pre : Bytes} (h : LF ∉ pre) (w : Bytes) :
    afterFirstLine (pre ++ LF :: w) = w := by
  rw [afterFirstLine, List.dropWhile_append_of_pos (ne_LF_of_notMem h),
    List.dropWhile_cons_of_neg (by simp)]
  rfl

/-- Once the first line is there, later bytes only matter while there is no status byte. -/
theorem statusByte_append {fed : Bytes} (h : LF ∈ fed) (w : Bytes) :
    statusByte (fed ++ w) = (statusByte fed).or (w.find? (· ≠ ascii ':')) := by
  obtain ⟨pre, post, rfl, hpre⟩ := List.eq_append_cons_of_mem h
  rw [List.append_assoc, List.cons_append, statusByte, statusByte, afterFirstLine_eq hpre,
    afterFirstLine_eq hpre, List.find?_append]

/-- What the parser knows of the status after the bytes `fed`: nothing before the end of the first
line and up to the status byte, then the status of that byte. -/
def StatusKnown (p : Parse) (fed : Bytes) : Prop :=
  match p.state with
  | .start | .crlf1 => LF ∉ fed
  | .arg1 => LF ∈ fed ∧ statusByte fed = none
  | _ => LF ∈ fed ∧ ∃ ch, statusByte fed = some ch ∧ StatusOfByte ch p.status

/-- The states behind the status byte. -/
def Late (s : Sw) : Prop := s ≠ .start ∧ s ≠ .crlf1 ∧ s ≠ .arg1

/-- Whether a state is behind the status byte can be decided. -/
instance (s : Sw) : Decidable (Late s) := inferInstanceAs (Decidable (_ ∧ _ ∧ _))

/-- There the status is that of the status byte. -/
theorem statusKnown_late {p : Parse} {fed : Bytes} (hp : Late p.state) :
    StatusKnown p fed ↔ LF ∈ fed ∧ ∃ ch, statusByte fed = some ch ∧ StatusOfByte ch p.status := by
  obtain ⟨h1, h2, h3⟩ := hp
  unfold StatusKnown
  split <;> first | rfl | contradiction

/-- Behind the status byte the parser does not touch the status. -/
theorem late_of_next {p q : Parse} {ch : UInt8} (hp : Late p.state)
    (h : replyStep p ch = .next q) : Late q.state ∧ q.status = p.status := by
  obtain ⟨h1, h2, h3⟩ := hp
  -- The three unsigned variables are read in the same way.
  have hunsigned : ∀ (V : Variable), replyStep p ch = readUnsigned p ch (V.get p) (V.set p) V.ended →
      Late V.ended → (∀ v, (V.set p v).status = p.status ∧ Late (V.set p v).state) →
      Late q.state ∧ q.status = p.status := by
    intro V hstep hended hset
    rw [hstep, readUnsigned] at h
    split_ifs at h
    · cases h
      exact ⟨⟨h1, h2, h3⟩, rfl⟩
    · cases h
      exact ⟨hended, rfl⟩
    · split at h
      · cases h
      · cases h
        exact ⟨(hset _).2, (hset _).1⟩
  -- The other states are gone through one by one.
  have hlate : ∀ s, p.state = s → Late s := fun s hs => hs ▸ ⟨h1, h2, h3⟩
  cases hs : p.state with
  | start => exact absurd hs h1
  | crlf1 => exact absurd hs h2
  | arg1 => exact absurd hs h3
  | arg2 =>
    exact hunsigned .limit (Variable.limit.step p ch hs) (by decide) fun v => ⟨rfl, hlate _ rfl⟩
  | arg3 =>
    exact hunsigned .remaining (Variable.remaining.step p ch hs) (by decide)
      fun v => ⟨rfl, hlate _ rfl⟩
  | arg5 =>
    exact hunsigned .reset (Variable.reset.step p ch hs) (by decide) fun v => ⟨rfl, hlate _ rfl⟩
  | crlf2 | lf1 | lf2 | lf3 | allowed | arg4 | almostDone =>
    simp only [replyStep, hs, readCRLF, readLF] at h
    repeat' split at h
    all_goals first | contradiction | skip
    all_goals
      cases h
      refine ⟨?_, rfl⟩
      first | exact ⟨h1, h2, h3⟩ | (dsimp only; decide)

/-- The reply ends in the last state only. -/
theorem almostDone_of_done {p : Parse} {ch : UInt8} (h : replyStep p ch = .done) :
    p.state = .almostDone := by
  cases hs : p.state with
  | almostDone => rfl
  | _ =>
    simp only [replyStep, hs, readCRLF, readLF, readUnsigned] at h
    repeat' split at h
    all_goals contradiction

/-- One byte more keeps what the parser knows of the status. -/
theorem statusKnown_next {p q : Parse} {fed : Bytes} {ch : UInt8} (h : StatusKnown p fed)
    (hstep : replyStep p ch = .next q) : StatusKnown q (fed ++ [ch]) := by
  by_cases hlate : Late p.state
  · obtain ⟨hLF, c, hc, hstatus⟩ := (statusKnown_late hlate).mp h
    obtain ⟨hq, hkeep⟩ := late_of_next hlate hstep
    rw [statusKnown_late hq, statusByte_append hLF, hc, hkeep]
    exact ⟨List.mem_append_left _ hLF, c, rfl, hstatus⟩
  · -- The status byte becomes known in the first line behind `*5`.
    have hfirst : LF ∉ fed → StatusKnown { p with state := .arg1 } (fed ++ [LF]) := by
      intro hLF
      refine ⟨by simp, ?_⟩
      rw [statusByte, afterFirstLine_eq hLF]
      rfl
    have hfound : LF ∈ fed → statusByte fed = none → ch ≠ ascii ':' →
        LF ∈ fed ++ [ch] ∧ statusByte (fed ++ [ch]) = some ch := by
      intro hLF hnone hne
      refine ⟨List.mem_append_left _ hLF, ?_⟩
      rw [statusByte_append hLF, hnone, Option.none_or, List.find?_cons_of_pos (by simpa using hne)]
    cases hs : p.state with
    | start =>
      simp only [StatusKnown, hs] at h
      simp only [replyStep, hs] at hstep
      split_ifs at hstep with h5
      cases hstep
      simpa [StatusKnown, h, h5] using (by decide : LF ≠ ascii '5')
    | crlf1 =>
      simp only [StatusKnown, hs] at h
      simp only [replyStep, hs, readCRLF] at hstep
      split_ifs at hstep with hCR hLF <;> cases hstep
      · simpa [StatusKnown, hs, h, hCR] using (by decide : LF ≠ CR)
      · rw [hLF]
        exact hfirst h
    | arg1 =>
      simp only [StatusKnown, hs] at h
      obtain ⟨hLF, hnone⟩ := h
      simp only [replyStep, hs] at hstep
      split_ifs at hstep with hcolon h0 h1 <;> cases hstep
      · simp only [StatusKnown, hs]
        refine ⟨List.mem_append_left _ hLF, ?_⟩
        rw [statusByte_append hLF, hnone, hcolon]
        rfl
      · obtain ⟨hmem, hbyte⟩ := hfound hLF hnone (by rw [h0]; decide)
        exact ⟨hmem, ch, hbyte, .inl ⟨h0, rfl⟩⟩
      · obtain ⟨hmem, hbyte⟩ := hfound hLF hnone (by rw [h1]; decide)
        exact ⟨hmem, ch, hbyte, .inr ⟨h1, rfl⟩⟩
    | _ => exact absurd (hs ▸ by decide) hlate

/-- Bytes that the parser goes on after. -/
theorem statusKnown_again {p q : Parse} {fed w : Bytes} (h : StatusKnown p fed)
    (hloop : replyLoop p w = .again q) : StatusKnown q (fed ++ w) := by
  induction w generalizing p fed with
  | nil =>
    cases hloop
    simpa using h
  | cons ch w ih =>
    cases hstep : replyStep p ch with
    | next r =>
      rw [replyLoop_cons_next hstep] at hloop
      simpa using ih (statusKnown_next h hstep) hloop
    | fail =>
      rw [replyLoop_cons_fail hstep] at hloop
      cases hloop
    | done =>
      rw [replyLoop_cons_done hstep] at hloop
      cases hloop

/-- At the end of a reply its status byte is known. -/
theorem statusKnown_done {p q : Parse} {fed w rest : Bytes} (h : StatusKnown p fed)
    (hloop : replyLoop p w = .done q rest) :
    ∃ ch, statusByte (fed ++ w) = some ch ∧ StatusOfByte ch q.status := by
  induction w generalizing p fed with
  | nil => cases hloop
  | cons ch w ih =>
    cases hstep : replyStep p ch with
    | next r =>
      rw [replyLoop_cons_next hstep] at hloop
      simpa using ih (statusKnown_next h hstep) hloop
    | fail =>
      rw [replyLoop_cons_fail hstep] at hloop
      cases hloop
    | done =>
      -- Only the last state ends the reply, and it is behind the status byte.
      have hlate : Late p.state := by
        rw [almostDone_of_done hstep]
        decide
      rw [replyLoop_cons_done hstep] at hloop
      cases hloop
      obtain ⟨hLF, c, hc, hstatus⟩ := (statusKnown_late hlate).mp h
      exact ⟨c, by rw [statusByte_append hLF, hc]; rfl, hstatus⟩

end NginxRatelimit
