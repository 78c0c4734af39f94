import Mathlib
import JenKea.Lib.Lines

/-!
# Following the daemon's log

A `LogCursor` reads what is written to the log after it was made, over a rotation by renaming. What the daemon
writes is a `Stream`: the lines that have ended, where the end of a file ends a line too, and the tail.
-/

namespace JenKea.Helper

/-- The end of a line. -/
def newline : UInt8 := 10

/-! ## The cursor -/

/-- A file of the log. -/
structure LogFile where
  /-- `(st_dev, st_ino)`. -/
  ident : ℕ
  bytes : List UInt8
  deriving DecidableEq, Repr

/-- The log, and the file that it was before its last rotation. -/
structure Log where
  current : Option LogFile
  previous : Option LogFile
  deriving DecidableEq, Repr

/-- `_LOG_READ_MAX`. -/
def LOG_READ_MAX : ℕ := 2 ^ 20

theorem readMax_pos : 0 < LOG_READ_MAX := by decide

/-- `_LOG_SCAN_MAX`. -/
def LOG_SCAN_MAX : ℕ := 64 * 2 ^ 20

/-- `_LogCursor`. -/
structure LogCursor where
  ident : Option ℕ
  pos : ℕ
  scanned : ℕ := 0
  exhausted : Bool := false
  partial_ : List UInt8 := []
  deriving DecidableEq, Repr

namespace LogCursor

/-- `__init__`. -/
def make (log : Log) : LogCursor where
  ident := log.current.map LogFile.ident
  pos := match log.current with
    | some file => file.bytes.length
    | none => 0

/-- The bytes past `start`, as many as one read takes. -/
def chunkOf (file : LogFile) (start : ℕ) : List UInt8 := (file.bytes.drop start).take LOG_READ_MAX

theorem length_chunkOf (file : LogFile) (start : ℕ) :
    (chunkOf file start).length = min LOG_READ_MAX (file.bytes.length - start) := by
  rw [chunkOf, List.length_take, List.length_drop]

/-- `_read`: what is read is counted. -/
def read (c : LogCursor) (file : LogFile) (start : ℕ) : LogCursor :=
  { c with scanned := c.scanned + (chunkOf file start).length }

section

-- the text of a line: `decode("utf-8", "replace").rstrip("\r")`
variable (text : List UInt8 → String)

/-- `_split`. -/
def split (c : LogCursor) (data : List UInt8) (final : Bool) : List String × LogCursor :=
  let lines := linesOf newline (c.partial_ ++ data)
  let tail := tailOf newline (c.partial_ ++ data)
  if final = true ∧ tail ≠ [] then ((lines ++ [tail]).map text, { c with partial_ := [] })
  else (lines.map text, { c with partial_ := tail })

/-- What is left of the file that was rotated away. -/
def finish (c : LogCursor) (file : LogFile) (start : ℕ) : List UInt8 × LogCursor :=
  if chunkOf file start = [] then ([], c.read file start)
  else if (chunkOf file start).length < LOG_READ_MAX then (chunkOf file start, c.read file start)
  else
    let (rest, c) := (c.read file start).finish file (start + (chunkOf file start).length)
    (chunkOf file start ++ rest, c)
  termination_by file.bytes.length - start
  decreasing_by
    have hlength := length_chunkOf file start
    have hmax := readMax_pos
    omega

/-- The loop at the end of `new_lines`. -/
def follow (c : LogCursor) (file : LogFile) : List String × LogCursor :=
  let (lines, c') := (c.read file c.pos).split text (chunkOf file c.pos) false
  if LOG_SCAN_MAX ≤ c'.scanned then
    (lines, { c' with pos := c.pos + (chunkOf file c.pos).length, exhausted := true })
  else if (chunkOf file c.pos).length < LOG_READ_MAX then
    (lines, { c' with pos := c.pos + (chunkOf file c.pos).length })
  else
    let (more, c') := { c' with pos := c.pos + (chunkOf file c.pos).length }.follow file
    (lines ++ more, c')
  termination_by file.bytes.length - c.pos
  decreasing_by
    have hlength := length_chunkOf file c.pos
    have hmax := readMax_pos
    omega

/-- `new_lines`: nothing where the log cannot be read. -/
def newLines (c : LogCursor) (log : Log) : Option (List String) × LogCursor :=
  if c.exhausted then (some [], c)
  else match log.current with
  | none => (none, c)
  | some file =>
    let (before, c) :=
      if c.ident ≠ none ∧ some file.ident ≠ c.ident then
        -- rotated: what is left of the old file, and then the new one from its start
        let (rest, c') := match log.previous with
          | some old => if some old.ident = c.ident then c.finish old c.pos else ([], c)
          | none => ([], c)
        let (lines, c') := c'.split text rest true
        (lines, { c' with ident := some file.ident, pos := 0 })
      else if file.bytes.length < c.pos then
        let (lines, c') := c.split text [] true
        (lines, { c' with pos := 0 })
      else ([], c)
    let (after, c) := c.follow text file
    (some (before ++ after), c)

end

/-! ## What is read -/

variable {text : List UInt8 → String} {c : LogCursor} {file : LogFile}

theorem split_false (c : LogCursor) (data : List UInt8) :
    c.split text data false = ((linesOf newline (c.partial_ ++ data)).map text,
      { c with partial_ := tailOf newline (c.partial_ ++ data) }) := by
  unfold split
  exact if_neg (by simp)

/-- The old file is read to its end. -/
theorem finish_eq (c : LogCursor) (file : LogFile) (start : ℕ) : c.finish file start =
    (file.bytes.drop start, { c with scanned := c.scanned + (file.bytes.length - start) }) := by
  have hlength := length_chunkOf file start
  rw [finish]
  dsimp only
  by_cases hnil : chunkOf file start = []
  · rw [hnil, List.length_nil] at hlength
    have hmax := readMax_pos
    have hend : file.bytes.length - start = 0 := by omega
    rw [if_pos hnil, List.drop_eq_nil_of_le (by omega), read, hnil, hend]
    rfl
  · rw [if_neg hnil]
    by_cases hshort : (chunkOf file start).length < LOG_READ_MAX
    · have hall : chunkOf file start = file.bytes.drop start :=
        List.take_of_length_le (by rw [List.length_drop]; omega)
      rw [if_pos hshort, read, hall, List.length_drop]
    · have hrest := finish_eq (c.read file start) file (start + (chunkOf file start).length)
      have hread : chunkOf file start ++ file.bytes.drop (start + (chunkOf file start).length) =
          file.bytes.drop start := by
        have hfull : (chunkOf file start).length = LOG_READ_MAX := by omega
        rw [hfull, ← List.drop_drop, chunkOf, List.take_append_drop]
      have hcount : c.scanned + (chunkOf file start).length +
          (file.bytes.length - (start + (chunkOf file start).length)) =
            c.scanned + (file.bytes.length - start) := by omega
      rw [if_neg hshort, hrest, hread]
      show (_, { c with scanned := c.scanned + (chunkOf file start).length + _ }) = _
      rw [hcount]
  termination_by file.bytes.length - start
  decreasing_by
    have hmax := readMax_pos
    omega

/-- The file is read to its end, and cut into lines, where less is read than the limit. -/
theorem follow_eq (c : LogCursor) (file : LogFile) (hpos : c.pos ≤ file.bytes.length)
    (hlimit : c.scanned + (file.bytes.length - c.pos) < LOG_SCAN_MAX) : c.follow text file =
      ((linesOf newline (c.partial_ ++ file.bytes.drop c.pos)).map text,
        { c with
          pos := file.bytes.length
          scanned := c.scanned + (file.bytes.length - c.pos)
          partial_ := tailOf newline (c.partial_ ++ file.bytes.drop c.pos) }) := by
  have hlength := length_chunkOf file c.pos
  rw [follow]
  dsimp only
  rw [split_false]
  dsimp only [read]
  have hbelow : ¬ LOG_SCAN_MAX ≤ c.scanned + (chunkOf file c.pos).length := by omega
  refine (if_neg hbelow).trans ?_
  by_cases hshort : (chunkOf file c.pos).length < LOG_READ_MAX
  · have hall : chunkOf file c.pos = file.bytes.drop c.pos :=
      List.take_of_length_le (by rw [List.length_drop]; omega)
    have hend : c.pos + (file.bytes.length - c.pos) = file.bytes.length := by omega
    rw [if_pos hshort, hall, List.length_drop, hend]
  · have hfull : (chunkOf file c.pos).length = LOG_READ_MAX := by omega
    have hread : chunkOf file c.pos ++ file.bytes.drop (c.pos + LOG_READ_MAX) = file.bytes.drop c.pos := by
      rw [← List.drop_drop, chunkOf, List.take_append_drop]
    have hcount : c.scanned + LOG_READ_MAX + (file.bytes.length - (c.pos + LOG_READ_MAX)) =
        c.scanned + (file.bytes.length - c.pos) := by omega
    rw [if_neg hshort, follow_eq _ file (by dsimp only; omega) (by dsimp only; omega)]
    dsimp only
    rw [hfull, hcount]
    -- the second chunk is cut behind the tail of the first
    obtain ⟨hlines, htail⟩ := lines_append newline (c.partial_ ++ chunkOf file c.pos)
      (file.bytes.drop (c.pos + LOG_READ_MAX))
    rw [List.append_assoc, hread] at hlines htail
    rw [hlines, htail, List.map_append]
  termination_by file.bytes.length - c.pos
  decreasing_by
    have hmax := readMax_pos
    omega

end LogCursor

/-! ## What the daemon writes -/

/-- The lines that have ended, and the tail of the file. -/
structure Stream where
  lines : List (List UInt8)
  tail : List UInt8
  deriving DecidableEq, Repr

namespace Stream

def append (s : Stream) (data : List UInt8) : Stream where
  lines := s.lines ++ linesOf newline (s.tail ++ data)
  tail := tailOf newline (s.tail ++ data)

/-- The end of a file ends its last line. -/
def endFile (s : Stream) : Stream where
  lines := if s.tail = [] then s.lines else s.lines ++ [s.tail]
  tail := []

theorem append_append (s : Stream) (first rest : List UInt8) :
    (s.append first).append rest = s.append (first ++ rest) := by
  obtain ⟨hlines, htail⟩ := lines_append newline (s.tail ++ first) rest
  unfold append
  dsimp only
  rw [← List.append_assoc s.tail, hlines, htail, List.append_assoc]

end Stream

/-- What happens to the log, and the calls of the cursor. -/
inductive Event where
  | append (data : List UInt8)
  /-- The log is renamed to what it was before. -/
  | rotate
  /-- A new file takes the log's name. -/
  | create (ident : ℕ)
  | call
  deriving DecidableEq, Repr

/-- The log, the cursor, and the lines that it has returned; and what was written since the cursor was made. -/
structure Following where
  log : Log
  cursor : LogCursor
  returned : List String
  stream : Stream
  written : List UInt8
  /-- The rotations since a call found the log. -/
  rotations : ℕ
  /-- No file was rotated away with a line that had not ended. -/
  whole : Bool
  deriving DecidableEq, Repr

/-- The cursor is made. -/
def Following.start (log : Log) : Following where
  log := log
  cursor := .make log
  returned := []
  stream := ⟨[], []⟩
  written := []
  rotations := 0
  whole := true

/-- One event. Nothing is written to a log that is not there, and no two files have one identity. -/
def Following.step (text : List UInt8 → String) (s : Following) : Event → Following
  | .append data => match s.log.current with
    | none => s
    | some file => { s with
        log := { s.log with current := some { file with bytes := file.bytes ++ data } }
        stream := s.stream.append data
        written := s.written ++ data }
  | .rotate => match s.log.current with
    | none => s
    | some file => { s with
        log := ⟨none, some file⟩
        stream := s.stream.endFile
        rotations := s.rotations + 1
        whole := s.whole && s.stream.tail.isEmpty }
  | .create ident => match s.log.current with
    | some _ => s
    | none => if s.log.previous.map LogFile.ident = some ident then s
      else { s with log := { s.log with current := some ⟨ident, []⟩ } }
  | .call =>
    let (lines, cursor) := s.cursor.newLines text s.log
    { s with
      cursor := cursor
      returned := s.returned ++ lines.getD []
      rotations := if s.log.current.isSome then 0 else s.rotations }

/-- At most one rotation since a call found the log, and less written than is scanned. -/
def Following.Within (s : Following) : Prop := s.rotations ≤ 1 ∧ s.written.length < LOG_SCAN_MAX

/-- The state after some events. -/
def Following.run (text : List UInt8 → String) (s : Following) (events : List Event) : Following :=
  events.foldl (Following.step text) s

/-! ## What the cursor returns -/

section Following

variable {text : List UInt8 → String} {s : Following} {lines : List (List UInt8)}

/-- The lines of a file that will not grow any more. -/
theorem split_true (c : LogCursor) (data : List UInt8) : c.split text data true =
    (((Stream.mk [] c.partial_).append data).endFile.lines.map text, { c with partial_ := [] }) := by
  unfold LogCursor.split Stream.append Stream.endFile
  dsimp only
  by_cases htail : tailOf newline (c.partial_ ++ data) = []
  · rw [if_neg (by simp [htail]), if_pos htail, htail]
    rfl
  · rw [if_pos ⟨rfl, htail⟩, if_neg htail]
    rfl

/-- The cursor is in the log's file. -/
structure SameFile (s : Following) (lines : List (List UInt8)) (file : LogFile) : Prop where
  current : s.log.current = some file
  ident : s.cursor.ident = some file.ident
  pos : s.cursor.pos ≤ file.bytes.length
  stream : s.stream = (Stream.mk lines s.cursor.partial_).append (file.bytes.drop s.cursor.pos)
  scanned : s.cursor.scanned + (file.bytes.length - s.cursor.pos) = s.written.length

/-- What stands in the log's own file. -/
def Log.bytes (log : Log) : List UInt8 := (log.current.map LogFile.bytes).getD []

/-- The cursor is in the file that the log was before its rotation. -/
structure Rotated (s : Following) (lines : List (List UInt8)) (old : LogFile) : Prop where
  previous : s.log.previous = some old
  ident : s.cursor.ident = some old.ident
  isNew : ∀ file, s.log.current = some file → file.ident ≠ old.ident
  pos : s.cursor.pos ≤ old.bytes.length
  rotations : s.rotations = 1
  stream : s.stream = ((Stream.mk lines s.cursor.partial_).append
    (old.bytes.drop s.cursor.pos)).endFile.append s.log.bytes
  scanned : s.cursor.scanned + (old.bytes.length - s.cursor.pos) + s.log.bytes.length = s.written.length

/-- What is returned are lines of the stream, and the rest of it is still to be read. -/
def Caught (text : List UInt8 → String) (s : Following) : Prop :=
  ∃ lines, s.returned = lines.map text ∧ s.cursor.exhausted = false ∧
    ((∃ file, SameFile s lines file) ∨ ∃ old, Rotated s lines old)

theorem caught_start {log : Log} {file : LogFile} (h : log.current = some file) :
    Caught text (.start log) := by
  have hpos : (LogCursor.make log).pos = file.bytes.length := by
    unfold LogCursor.make
    rw [h]
  refine ⟨[], rfl, rfl, .inl ⟨file, h, ?_, Nat.le_of_eq hpos, ?_, ?_⟩⟩
  · show log.current.map LogFile.ident = _
    rw [h]
    rfl
  · show Stream.mk [] [] = (Stream.mk [] []).append (file.bytes.drop (LogCursor.make log).pos)
    rw [hpos, List.drop_length]
    unfold Stream.append
    rw [List.append_nil, lines_nil.1, lines_nil.2]
    rfl
  · show 0 + (file.bytes.length - (LogCursor.make log).pos) = 0
    omega

theorem caught_append {data : List UInt8} (h : Caught text s) : Caught text (s.step text (.append data)) := by
  obtain ⟨lines, hreturned, hexhausted, ⟨file, hsame⟩ | ⟨old, hrotated⟩⟩ := h
  · have hstep : s.step text (.append data) = { s with
        log := { s.log with current := some { file with bytes := file.bytes ++ data } }
        stream := s.stream.append data
        written := s.written ++ data } := by
      unfold Following.step
      rw [hsame.current]
    rw [hstep]
    have hpos := hsame.pos
    have hscanned := hsame.scanned
    refine ⟨lines, hreturned, hexhausted, .inl ⟨_, rfl, hsame.ident, ?_, ?_, ?_⟩⟩
    · show s.cursor.pos ≤ (file.bytes ++ data).length
      rw [List.length_append]
      omega
    · show s.stream.append data = (Stream.mk lines s.cursor.partial_).append ((file.bytes ++ data).drop s.cursor.pos)
      rw [hsame.stream, Stream.append_append, List.drop_append_of_le_length hpos]
    · show s.cursor.scanned + ((file.bytes ++ data).length - s.cursor.pos) = (s.written ++ data).length
      rw [List.length_append, List.length_append]
      omega
  · cases hcurrent : s.log.current with
    | none =>
      have hstep : s.step text (.append data) = s := by
        unfold Following.step
        rw [hcurrent]
      rw [hstep]
      exact ⟨lines, hreturned, hexhausted, .inr ⟨old, hrotated⟩⟩
    | some file =>
      have hstep : s.step text (.append data) = { s with
          log := { s.log with current := some { file with bytes := file.bytes ++ data } }
          stream := s.stream.append data
          written := s.written ++ data } := by
        unfold Following.step
        rw [hcurrent]
      have hbytes : s.log.bytes = file.bytes := by
        unfold Log.bytes
        rw [hcurrent]
        rfl
      have hscanned := hrotated.scanned
      rw [hbytes] at hscanned
      rw [hstep]
      refine ⟨lines, hreturned, hexhausted, .inr ⟨old, hrotated.previous, hrotated.ident, ?_, hrotated.pos,
        hrotated.rotations, ?_, ?_⟩⟩
      · rintro file' hfile'
        rw [← Option.some.inj hfile']
        exact hrotated.isNew file hcurrent
      · show s.stream.append data = (Stream.endFile _).append (file.bytes ++ data)
        rw [hrotated.stream, hbytes, Stream.append_append]
      · show s.cursor.scanned + (old.bytes.length - s.cursor.pos) + (file.bytes ++ data).length =
          (s.written ++ data).length
        rw [List.length_append, List.length_append]
        omega

theorem append_nil (s : Stream) (h : s.tail = []) : s.append [] = s := by
  obtain ⟨lines, tail⟩ := s
  obtain rfl : tail = [] := h
  unfold Stream.append
  rw [List.append_nil, lines_nil.1, lines_nil.2, List.append_nil]

theorem endFile_nil (s : Stream) (h : s.tail = []) : s.endFile = s := by
  obtain ⟨lines, tail⟩ := s
  obtain rfl : tail = [] := h
  rfl

theorem caught_rotate (h : Caught text s) (hwithin : (s.step text .rotate).Within) :
    Caught text (s.step text .rotate) := by
  cases hcurrent : s.log.current with
  | none =>
    have hstep : s.step text .rotate = s := by
      unfold Following.step
      rw [hcurrent]
    rw [hstep]
    exact h
  | some file =>
    have hstep : s.step text .rotate = { s with
        log := ⟨none, some file⟩
        stream := s.stream.endFile
        rotations := s.rotations + 1
        whole := s.whole && s.stream.tail.isEmpty } := by
      unfold Following.step
      rw [hcurrent]
    rw [hstep] at hwithin ⊢
    have hrotations : s.rotations + 1 ≤ 1 := hwithin.1
    obtain ⟨lines, hreturned, hexhausted, ⟨file', hsame⟩ | ⟨old, hrotated⟩⟩ := h
    · obtain rfl : file = file' := Option.some.inj (hcurrent.symm.trans hsame.current)
      refine ⟨lines, hreturned, hexhausted, .inr ⟨file, rfl, hsame.ident, nofun, hsame.pos, ?_, ?_, ?_⟩⟩
      · show s.rotations + 1 = 1
        omega
      · show s.stream.endFile = (Stream.endFile _).append []
        rw [append_nil _ rfl, hsame.stream]
      · exact hsame.scanned
    · -- the file before was rotated away already, and no call has found the log since
      have hone := hrotated.rotations
      omega

theorem caught_create {ident : ℕ} (h : Caught text s) : Caught text (s.step text (.create ident)) := by
  obtain ⟨lines, hreturned, hexhausted, ⟨file, hsame⟩ | ⟨old, hrotated⟩⟩ := h
  · have hstep : s.step text (.create ident) = s := by
      unfold Following.step
      rw [hsame.current]
    rw [hstep]
    exact ⟨lines, hreturned, hexhausted, .inl ⟨file, hsame⟩⟩
  · cases hcurrent : s.log.current with
    | some file =>
      have hstep : s.step text (.create ident) = s := by
        unfold Following.step
        rw [hcurrent]
      rw [hstep]
      exact ⟨lines, hreturned, hexhausted, .inr ⟨old, hrotated⟩⟩
    | none =>
      unfold Following.step
      rw [hcurrent]
      dsimp only
      split_ifs with hident
      · exact ⟨lines, hreturned, hexhausted, .inr ⟨old, hrotated⟩⟩
      · have hbytes : s.log.bytes = [] := by
          unfold Log.bytes
          rw [hcurrent]
          rfl
        refine ⟨lines, hreturned, hexhausted, .inr ⟨old, hrotated.previous, hrotated.ident, ?_, hrotated.pos,
          hrotated.rotations, ?_, ?_⟩⟩
        · rintro file hfile heq
          rw [← Option.some.inj hfile] at heq
          rw [hrotated.previous] at hident
          exact hident (congrArg some heq.symm)
        · exact hbytes ▸ hrotated.stream
        · exact hbytes ▸ hrotated.scanned

/-- A call in the log's own file returns the rest of its lines. -/
theorem newLines_same {file : LogFile} (hsame : SameFile s lines file) (hexhausted : s.cursor.exhausted = false)
    (hlimit : s.written.length < LOG_SCAN_MAX) : s.cursor.newLines text s.log =
      (some ((linesOf newline (s.cursor.partial_ ++ file.bytes.drop s.cursor.pos)).map text),
        { s.cursor with
          pos := file.bytes.length
          scanned := s.written.length
          partial_ := tailOf newline (s.cursor.partial_ ++ file.bytes.drop s.cursor.pos) }) := by
  have hscanned := hsame.scanned
  have hfollow := @LogCursor.follow_eq text s.cursor file hsame.pos (by omega)
  have hident : ¬ (s.cursor.ident ≠ none ∧ some file.ident ≠ s.cursor.ident) := by
    rw [hsame.ident]
    exact fun h => h.2 rfl
  unfold LogCursor.newLines
  rw [hexhausted, hsame.current]
  dsimp only
  rw [if_neg (by decide), if_neg hident, if_neg (Nat.not_lt.mpr hsame.pos)]
  dsimp only
  rw [hfollow, hscanned]
  rfl

/-- A call that finds the log rotated returns the rest of the old file, and then the lines of the new one. -/
theorem newLines_rotated {old file : LogFile} (hrotated : Rotated s lines old) (hcurrent : s.log.current = some file)
    (hexhausted : s.cursor.exhausted = false) (hlimit : s.written.length < LOG_SCAN_MAX) :
    s.cursor.newLines text s.log =
      (some (((Stream.mk [] s.cursor.partial_).append (old.bytes.drop s.cursor.pos)).endFile.lines.map text ++
          (linesOf newline file.bytes).map text),
        { s.cursor with
          ident := some file.ident
          pos := file.bytes.length
          scanned := s.written.length
          partial_ := tailOf newline file.bytes }) := by
  have hbytes : s.log.bytes = file.bytes := by
    unfold Log.bytes
    rw [hcurrent]
    rfl
  have hscanned := hrotated.scanned
  rw [hbytes] at hscanned
  have hident : s.cursor.ident ≠ none ∧ some file.ident ≠ s.cursor.ident := by
    rw [hrotated.ident]
    exact ⟨nofun, fun h => hrotated.isNew file hcurrent (Option.some.inj h)⟩
  -- the new file is read from its start
  have hfollow := @LogCursor.follow_eq text { s.cursor with
    ident := some file.ident, pos := 0, partial_ := []
    scanned := s.cursor.scanned + (old.bytes.length - s.cursor.pos) } file (Nat.zero_le _)
    (by dsimp only; omega)
  have hcount : s.cursor.scanned + (old.bytes.length - s.cursor.pos) + (file.bytes.length - 0) =
      s.written.length := by omega
  unfold LogCursor.newLines
  rw [hexhausted, hcurrent, hrotated.previous]
  dsimp only
  rw [if_neg (by decide), if_pos hident, if_pos hrotated.ident.symm, LogCursor.finish_eq]
  dsimp only
  rw [split_true]
  dsimp only
  rw [hfollow]
  dsimp only
  rw [hcount, List.nil_append, List.drop_zero]

/-- Nothing is left to read: the lines are those of the stream. -/
theorem sameFile_read {s : Following} {file : LogFile} (hcurrent : s.log.current = some file)
    (hident : s.cursor.ident = some file.ident) (hpos : s.cursor.pos = file.bytes.length)
    (hscanned : s.cursor.scanned = s.written.length) (htail : s.cursor.partial_ = s.stream.tail)
    (hended : tailOf newline s.stream.tail = s.stream.tail ∧ linesOf newline s.stream.tail = []) :
    SameFile s s.stream.lines file := by
  refine ⟨hcurrent, hident, Nat.le_of_eq hpos, ?_, by omega⟩
  rw [hpos, List.drop_length, htail]
  unfold Stream.append
  rw [List.append_nil, hended.1, hended.2, List.append_nil]

/-- A call that finds the log has returned every line of the stream. -/
theorem returned_call {file : LogFile} (h : Caught text s) (hwithin : s.Within)
    (hcurrent : s.log.current = some file) : (s.step text .call).returned = s.stream.lines.map text ∧
      Caught text (s.step text .call) := by
  have hlimit := hwithin.2
  obtain ⟨lines, hreturned, hexhausted, ⟨file', hsame⟩ | ⟨old, hrotated⟩⟩ := h
  · obtain rfl : file = file' := Option.some.inj (hcurrent.symm.trans hsame.current)
    have hcall := @newLines_same text s lines file hsame hexhausted hlimit
    have hlines : (s.step text .call).returned = s.stream.lines.map text := by
      show s.returned ++ (s.cursor.newLines text s.log).1.getD [] = _
      rw [hcall, hreturned, hsame.stream]
      exact (List.map_append ..).symm
    refine ⟨hlines, _, hlines, ?_, .inl ⟨file, sameFile_read hcurrent ?_ ?_ ?_ ?_ ?_⟩⟩
    · show (s.cursor.newLines text s.log).2.exhausted = false
      rw [hcall]
      exact hexhausted
    · show (s.cursor.newLines text s.log).2.ident = _
      rw [hcall]
      exact hsame.ident
    · show (s.cursor.newLines text s.log).2.pos = _
      rw [hcall]
    · show (s.cursor.newLines text s.log).2.scanned = _
      rw [hcall]
      rfl
    · show (s.cursor.newLines text s.log).2.partial_ = s.stream.tail
      rw [hcall, hsame.stream]
      rfl
    · show tailOf newline s.stream.tail = s.stream.tail ∧ linesOf newline s.stream.tail = []
      rw [hsame.stream]
      exact (lines_tailOf ..).symm
  · have hcall := @newLines_rotated text s lines old file hrotated hcurrent hexhausted hlimit
    have hbytes : s.log.bytes = file.bytes := by
      unfold Log.bytes
      rw [hcurrent]
      rfl
    have hstream := hrotated.stream
    rw [hbytes] at hstream
    have hold : ((Stream.mk lines s.cursor.partial_).append (old.bytes.drop s.cursor.pos)).endFile.lines =
        lines ++ ((Stream.mk [] s.cursor.partial_).append (old.bytes.drop s.cursor.pos)).endFile.lines := by
      unfold Stream.append Stream.endFile
      dsimp only
      split_ifs <;> simp
    have hlines : (s.step text .call).returned = s.stream.lines.map text := by
      show s.returned ++ (s.cursor.newLines text s.log).1.getD [] = _
      have happend : ∀ t : Stream, (t.endFile.append file.bytes).lines =
          t.endFile.lines ++ linesOf newline file.bytes := fun _ => rfl
      rw [hcall, hreturned, hstream, happend, hold, List.map_append, List.map_append, List.append_assoc]
      rfl
    refine ⟨hlines, _, hlines, ?_, .inl ⟨file, sameFile_read hcurrent ?_ ?_ ?_ ?_ ?_⟩⟩
    · show (s.cursor.newLines text s.log).2.exhausted = false
      rw [hcall]
      exact hexhausted
    · show (s.cursor.newLines text s.log).2.ident = _
      rw [hcall]
    · show (s.cursor.newLines text s.log).2.pos = _
      rw [hcall]
    · show (s.cursor.newLines text s.log).2.scanned = _
      rw [hcall]
      rfl
    · show (s.cursor.newLines text s.log).2.partial_ = s.stream.tail
      rw [hcall, hstream]
      rfl
    · show tailOf newline s.stream.tail = s.stream.tail ∧ linesOf newline s.stream.tail = []
      rw [hstream]
      exact (lines_tailOf ..).symm

theorem caught_call (h : Caught text s) (hwithin : s.Within) : Caught text (s.step text .call) := by
  cases hcurrent : s.log.current with
  | some file => exact (returned_call h hwithin hcurrent).2
  | none =>
    obtain ⟨lines, hreturned, hexhausted, ⟨file, hsame⟩ | ⟨old, hrotated⟩⟩ := h
    · exact nomatch hcurrent.symm.trans hsame.current
    · have hcall : s.cursor.newLines text s.log = (none, s.cursor) := by
        unfold LogCursor.newLines
        rw [hexhausted, hcurrent]
        rfl
      have hstep : s.step text .call = s := by
        show { s with
          cursor := (s.cursor.newLines text s.log).2
          returned := s.returned ++ (s.cursor.newLines text s.log).1.getD []
          rotations := if s.log.current.isSome then 0 else s.rotations } = s
        rw [hcall, hcurrent, Option.getD_none, List.append_nil]
        rfl
      rw [hstep]
      exact ⟨lines, hreturned, hexhausted, .inr ⟨old, hrotated⟩⟩

theorem caught_step {e : Event} (h : Caught text s) (hwithin : s.Within) (hwithin' : (s.step text e).Within) :
    Caught text (s.step text e) := by
  cases e with
  | append data => exact caught_append h
  | rotate => exact caught_rotate h hwithin'
  | create ident => exact caught_create h
  | call => exact caught_call h hwithin

/-- The states of a history stay within the limits. -/
def Following.AllWithin (text : List UInt8 → String) (s : Following) (events : List Event) : Prop :=
  ∀ before, before <+: events → (s.run text before).Within

theorem caught_run {events : List Event} (h : Caught text s) (hwithin : s.AllWithin text events) :
    Caught text (s.run text events) := by
  induction events using List.reverseRecOn with
  | nil => exact h
  | append_singleton events e ih =>
    have hbefore : s.AllWithin text events := fun before hpre => hwithin before (hpre.trans (List.prefix_append ..))
    have hlast := hwithin (events ++ [e]) (List.prefix_refl _)
    unfold Following.run at hlast ⊢
    rw [List.foldl_append] at hlast ⊢
    exact caught_step (ih hbefore) (hwithin events (List.prefix_append ..)) hlast

/-! ## The lines are whole -/

/-- Where no file was rotated away within a line, the stream is what was written, cut at its ends of line. -/
def Cut (s : Following) : Prop :=
  s.whole = true → s.stream = ⟨linesOf newline s.written, tailOf newline s.written⟩

theorem cut_step {e : Event} (h : Cut s) : Cut (s.step text e) := by
  cases e with
  | append data =>
    unfold Following.step
    dsimp only
    split
    · exact h
    · intro hwhole
      obtain ⟨hlines, htail⟩ := lines_append newline s.written data
      show s.stream.append data = _
      rw [h hwhole, hlines, htail]
      rfl
  | rotate =>
    unfold Following.step
    dsimp only
    split
    · exact h
    · intro hwhole
      obtain ⟨hbefore, htail⟩ := Bool.and_eq_true_iff.mp hwhole
      have hnil : s.stream.tail = [] := List.isEmpty_iff.mp htail
      show s.stream.endFile = ⟨linesOf newline s.written, tailOf newline s.written⟩
      rw [endFile_nil _ hnil, h hbefore]
  | create ident =>
    unfold Following.step
    dsimp only
    split
    · exact h
    · split_ifs
      · exact h
      · exact h
  | call => exact h

theorem cut_run {events : List Event} (h : Cut s) : Cut (s.run text events) := by
  induction events generalizing s with
  | nil => exact h
  | cons e events ih => exact ih (cut_step h)

/-- The text of a line of ASCII. -/
def asciiText (line : List UInt8) : String := String.ofList (line.map fun b => Char.ofNat b.toNat)

/-- A log whose file ends in a line that has not ended. -/
def sampleLog : Log := ⟨some ⟨1, [97, 10, 98]⟩, none⟩

/-- The line ends, the log is rotated, and a line is written to the new file. -/
def sampleEvents : List Event := [.append [99, 10], .call, .rotate, .create 2, .append [100, 10]]

/-- Limits that hold of a list of states. -/
theorem allWithin_of_inits {events : List Event}
    (h : ∀ before ∈ events.inits, (s.run text before).Within) : s.AllWithin text events :=
  fun before hpre => h before ((List.mem_inits ..).mpr hpre)

end Following

end JenKea.Helper
