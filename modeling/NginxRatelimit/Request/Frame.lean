import NginxRatelimit.Library.Decoder
import NginxRatelimit.Request.Buffer

/-!
# The commands on the wire

A command is an array of bulk strings, each with its length before it, so that a peer takes the
commands apart again whatever bytes they hold. `readCommands` is such a peer. `command_framing` says
what it gets from the first frame and from the fallback, and that `build_command` writes as many
bytes as it has counted.
-/

namespace NginxRatelimit

open Library

/-! ## Reading commands -/

/-- A decimal number with the end of its line. -/
def numberLine : Decoder UInt8 ℕ :=
  (Decoder.span fun ch => decide ¬ NotDigit ch).bind fun ds =>
    if ds = [] then .fail
    else (Decoder.literal CRLF).bind fun _ =>
      .pure (decimalValue 0 (ds.map fun ch => ch.toNat - 48))

/-- A bulk string. -/
def bulkString : Decoder UInt8 Bytes :=
  (Decoder.literal [ascii '$']).bind fun _ => numberLine.bind fun n =>
    (Decoder.field n).bind fun data => (Decoder.literal CRLF).bind fun _ => .pure data

/-- An array of bulk strings. -/
def bulkArray : Decoder UInt8 (List Bytes) :=
  (Decoder.literal [ascii '*']).bind fun _ => numberLine.bind fun n => bulkString.times n

/-- All commands of a stream, with nothing left over. -/
def readCommands (stream : Bytes) : Option (List (List Bytes)) := bulkArray.whole stream

/-- The bytes of a bulk string. -/
def encodeBulk (data : Bytes) : Bytes :=
  ascii '$' :: (decimal data.length ++ CRLF ++ data ++ CRLF)

/-- The values of decimal digits. -/
theorem map_decimal (n : ℕ) : (decimal n).map (fun ch => ch.toNat - 48) = decimalDigits n := by
  have hdigit : ∀ d ∈ decimalDigits n, ((fun ch : UInt8 => ch.toNat - 48) ∘ digit) d = id d := by
    intro d hd
    simp [digit_toNat (decimalDigits_lt hd)]
  rw [decimal, List.map_map, List.map_congr_left hdigit, List.map_id]

/-- A number is read back from its digits. -/
theorem numberLine_reads : numberLine.Reads fun n => decimal n ++ CRLF := by
  intro n rest
  have hdigits : ∀ ch ∈ decimal n, (decide ¬ NotDigit ch) = true := by
    intro ch hch
    obtain ⟨d, hd, rfl⟩ := List.mem_map.mp hch
    exact decide_eq_true (not_notDigit_digit (decimalDigits_lt hd))
  have hne : decimal n ≠ [] := by
    rw [decimal, ne_eq, List.map_eq_nil_iff]
    exact decimalDigits_ne_nil n
  have hspan := Decoder.span_append hdigits (x := CR) (by decide) (LF :: rest)
  have hbytes : decimal n ++ CRLF ++ rest = decimal n ++ CR :: LF :: rest := by simp [CRLF]
  rw [hbytes, numberLine, Decoder.bind_eq hspan, if_neg hne, map_decimal, decimalValue_decimalDigits]
  exact Decoder.bind_eq (Decoder.literal_append CRLF rest)

/-- A bulk string is read back from its length and its bytes. -/
theorem bulkString_reads : bulkString.Reads encodeBulk := by
  intro data rest
  have hbytes : encodeBulk data ++ rest =
      [ascii '$'] ++ (decimal data.length ++ CRLF ++ (data ++ (CRLF ++ rest))) := by
    simp [encodeBulk]
  rw [hbytes, bulkString, Decoder.bind_eq (Decoder.literal_append _ _),
    Decoder.bind_eq (numberLine_reads data.length _), Decoder.bind_eq (Decoder.field_append data _),
    Decoder.bind_eq (Decoder.literal_append CRLF rest)]
  rfl

/-- A command is read back from what `build_command` writes. -/
theorem bulkArray_reads : bulkArray.Reads buildCommand := by
  intro argv rest
  have hbytes : buildCommand argv ++ rest =
      [ascii '*'] ++ (decimal argv.length ++ CRLF ++ (argv.flatMap encodeBulk ++ rest)) := by
    change ascii '*' :: (decimal argv.length ++ CRLF ++ argv.flatMap encodeBulk) ++ rest = _
    simp
  rw [hbytes, bulkArray, Decoder.bind_eq (Decoder.literal_append _ _),
    Decoder.bind_eq (numberLine_reads argv.length _)]
  exact bulkString_reads.times argv rest

/-- Commands are taken apart again. -/
theorem readCommands_flatten (cmds : List Command) :
    readCommands (cmds.map fun cmd => buildCommand cmd.argv).flatten =
      some (cmds.map Command.argv) := by
  have hbytes : (cmds.map fun cmd => buildCommand cmd.argv).flatten =
      (cmds.map Command.argv).flatMap buildCommand := by
    rw [List.flatMap_map, List.flatMap_def]
  have hne : ∀ argv, buildCommand argv ≠ [] := fun argv => List.cons_ne_nil _ _
  rw [hbytes]
  exact bulkArray_reads.whole hne _

/-! ## Writing commands -/

/-- `ngx_http_ratelimit_get_num_size`. -/
def getNumSize (i : ℕ) : ℕ := if i / 10 = 0 then 1 else getNumSize (i / 10) + 1
  decreasing_by omega

/-- The first pass of `ngx_http_ratelimit_build_command`: the length of the buffer. -/
def commandLength (argv : List Bytes) : ℕ :=
  1 + getNumSize argv.length + 2 +
    (argv.map fun arg => 1 + getNumSize arg.length + 2 + arg.length + 2).sum

/-- The second pass: what is written to the buffer, in order. -/
def commandWrites (argv : List Bytes) : List Bytes :=
  [[ascii '*'], decimal argv.length, [CR], [LF]] ++
    argv.flatMap fun arg => [[ascii '$'], decimal arg.length, [CR], [LF], arg, [CR], [LF]]

/-- Both passes, with the check at the end; `tempBuf` says whether the buffer is allocated. -/
def buildCommandPasses (tempBuf : Bool) (argv : List Bytes) : Option Bytes :=
  if !tempBuf then none
  else if (commandWrites argv).flatten.length ≠ commandLength argv then none
  else some (commandWrites argv).flatten

/-- The size of a number is the number of its digits. -/
theorem getNumSize_eq (i : ℕ) : getNumSize i = (decimal i).length := by
  rw [decimal, List.length_map]
  induction i using Nat.strong_induction_on with
  | _ i ih =>
    rw [getNumSize, length_decimalDigits]
    split_ifs with h
    · rfl
    · rw [ih (i / 10) (by omega)]

/-- The pieces that the second pass writes are the command. -/
theorem flatten_commandWrites (argv : List Bytes) :
    (commandWrites argv).flatten = buildCommand argv := by
  have hargs : (argv.flatMap fun arg => [[ascii '$'], decimal arg.length, [CR], [LF], arg, [CR],
      [LF]]).flatten =
      argv.flatMap fun arg => ascii '$' :: (decimal arg.length ++ CRLF ++ arg ++ CRLF) := by
    induction argv with
    | nil => rfl
    | cons arg argv ih =>
      rw [List.flatMap_cons, List.flatten_append, ih, List.flatMap_cons]
      simp [CRLF]
  rw [commandWrites, List.flatten_append, hargs, buildCommand]
  simp [CRLF]

/-- As many bytes are written as were counted. -/
theorem length_buildCommand (argv : List Bytes) : (buildCommand argv).length = commandLength argv := by
  have hargs : (argv.flatMap fun arg =>
      ascii '$' :: (decimal arg.length ++ CRLF ++ arg ++ CRLF)).length =
      (argv.map fun arg => 1 + getNumSize arg.length + 2 + arg.length + 2).sum := by
    induction argv with
    | nil => rfl
    | cons arg argv ih =>
      rw [List.flatMap_cons, List.length_append, ih, List.map_cons, List.sum_cons, getNumSize_eq]
      simp only [CRLF, List.length_cons, List.length_append, List.length_nil]
      omega
  rw [buildCommand, List.length_cons, List.length_append, hargs, commandLength, getNumSize_eq]
  simp only [CRLF, List.length_cons, List.length_append, List.length_nil]
  omega

/-- No write goes beyond the end of the buffer. -/
theorem length_take_commandWrites (argv : List Bytes) (k : ℕ) :
    ((commandWrites argv).take k).flatten.length ≤ commandLength argv := by
  rw [← length_buildCommand, ← flatten_commandWrites]
  conv_rhs => rw [← List.take_append_drop k (commandWrites argv), List.flatten_append,
    List.length_append]
  exact Nat.le_add_right _ _

/-- So the passes agree, and `build_command` writes the command when the buffer is allocated. -/
theorem buildCommandPasses_eq (argv : List Bytes) :
    buildCommandPasses true argv = some (buildCommand argv) := by
  unfold buildCommandPasses
  rw [flatten_commandWrites, length_buildCommand]
  simp

/-! ## The framing -/

/-- The prelude of a location. -/
theorem map_argv_buildPrelude (conf : LocConf) : (buildPrelude conf).map Command.argv =
    (if 0 < conf.password.length then [[text "AUTH", conf.password]] else []) ++
      if 0 < conf.database then [[text "SELECT", decimal conf.database.toNat]] else [] := by
  rw [buildPrelude, List.map_append]
  split_ifs <;> rfl

/-- What a peer reads from the first frame are the commands of the prelude, of which
`prelude_replies` is the number, and the `EVALSHA`; what it reads from the fallback is the `EVAL`
with the same key and arguments. In `build_command` no write goes beyond the buffer, and the check
at its end never fails. -/
theorem command_framing (conf : LocConf) (key : Bytes) (events : List Event) (io : Io) :
    let args := (scriptArgs conf).map decimal
    let prelude := (if 0 < conf.password.length then [[text "AUTH", conf.password]] else []) ++
      if 0 < conf.database then [[text "SELECT", decimal conf.database.toNat]] else []
    let resent := RoundTrip.createRequest io
      { (RoundTrip.start conf key).run events with evalFallback := true }
    readCommands (RoundTrip.start conf key).requestBufs.flatten =
      some (prelude ++ [[text "EVALSHA", (zoneScript conf).sha, text "1", key] ++ args]) ∧
    (RoundTrip.start conf key).preludeReplies = prelude.length ∧
    (resent.1 = .ok → readCommands resent.2.requestBufs.flatten =
      some [[text "EVAL", (zoneScript conf).body, text "1", key] ++ args]) ∧
    ∀ argv, (∀ k, ((commandWrites argv).take k).flatten.length ≤ commandLength argv) ∧
      buildCommandPasses true argv = some (buildCommand argv) := by
  intro args prelude resent
  have hprelude : (buildPrelude conf).map Command.argv = prelude := map_argv_buildPrelude conf
  -- The fallback is built from the configuration and the key that the round trip started with.
  obtain ⟨hconf, hkey⟩ := RoundTrip.request_run conf key events
  refine ⟨?_, ?_, ?_, fun argv => ⟨length_take_commandWrites argv, buildCommandPasses_eq argv⟩⟩
  · have hargv : (firstFrame conf key).map Command.argv =
        prelude ++ [[text "EVALSHA", (zoneScript conf).sha, text "1", key] ++ args] := by
      rw [firstFrame, List.map_append, hprelude]
      rfl
    rw [← hargv]
    exact readCommands_flatten (firstFrame conf key)
  · have hlen := congrArg List.length hprelude
    rw [List.length_map] at hlen
    exact hlen
  · intro hok
    have halloc : io.requestAlloc = true := by
      by_contra hnot
      simp only [resent, RoundTrip.createRequest, if_neg hnot, reduceCtorEq] at hok
    simp only [resent, RoundTrip.createRequest, halloc, if_true, hconf, hkey]
    exact readCommands_flatten [scriptCommand conf key true]

/-- A key that looks like the end of a command and the beginning of another. -/
theorem command_framing_injection :
    let conf :=
      { LocConf.ofZone ⟨.gcra, 5, 60, 0, ⟨[], []⟩⟩ (fun _ => ⟨text "return 1", text "e0"⟩) with
        password := text "secret" }
    let key := text "a\r\n*1\r\n$8\r\nFLUSHALL\r\n"
    readCommands (RoundTrip.start conf key).requestBufs.flatten =
      some [[text "AUTH", text "secret"],
        [text "EVALSHA", text "e0", text "1", key, text "5", text "60", text "0", text "1"]] := by
  intro conf key
  exact (command_framing conf key [] (.good [] [])).1

end NginxRatelimit
