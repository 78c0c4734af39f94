import JenKea.Lib.Aead
import JenKea.Lib.Bytes

/-!
# The recovery bundle

The bundle format of `services/recovery.py`: a header, and the tar in chunks, each encrypted with the header,
its number and whether it is the last as associated data. The tar writer's writes are taken as they come, and
so are the reads of the file that the bundle comes from, which may be short. AES-GCM and Scrypt are the
parameters.
-/

namespace JenKea.Recovery

open Bytes

abbrev MAGIC : List UInt8 := "JENREC1".toUTF8.data.toList
abbrev MAGIC2 : List UInt8 := "JENREC2".toUTF8.data.toList
abbrev FORMAT_VERSION : UInt8 := 1
abbrev SALT_LEN : ℕ := 16
abbrev TAG_LEN : ℕ := 16
abbrev MIN_CHUNK_SIZE : ℕ := 4 * 1024
abbrev MAX_CHUNK_SIZE : ℕ := 64 * 1024 * 1024
abbrev NONCE_PREFIX_LEN : ℕ := 8
abbrev COUNTER_LEN : ℕ := 4
abbrev TRAILER_LEN : ℕ := 8
abbrev HEADER2_LEN : ℕ := 36
abbrev SIZE_CAP_BYTES : ℕ := 2 * 1024 * 1024 * 1024

/-- The length of a chunk, within its bounds. -/
abbrev ChunkSize : Type := {n : ℕ // MIN_CHUNK_SIZE ≤ n ∧ n ≤ MAX_CHUNK_SIZE}

/-- AES-GCM and Scrypt. -/
structure Crypto (Key : Type) extends Aead Key where
  scrypt : ByteArray → List UInt8 → Key
  tagLen_eq : tagLen = TAG_LEN

variable {Key : Type} (C : Crypto Key)

/-- `_derive_key`. -/
def deriveKey (passphrase : String) (salt : List UInt8) : Key := C.scrypt passphrase.toUTF8 salt

/-- `_chunk_aad`. -/
def chunkAad (header : List UInt8) (counter : ℕ) (isLast : Bool) : List UInt8 :=
  header ++ (pack 4 counter ++ [if isLast then 1 else 0])

/-- `_chunk_nonce`. -/
def chunkNonce (noncePrefix : List UInt8) (counter : ℕ) : List UInt8 := noncePrefix ++ pack 4 counter

/-- `header[-NONCE_PREFIX_LEN:]`. -/
def noncePrefixOf (header : List UInt8) : List UInt8 := header.drop (header.length - NONCE_PREFIX_LEN)

/-- What is encrypted for a chunk. -/
def chunkMessage (key : Key) (header : List UInt8) (counter : ℕ) (plaintext : List UInt8) (isLast : Bool) :
    Message Key :=
  { key := key
    nonce := chunkNonce (noncePrefixOf header) counter
    aad := chunkAad header counter isLast
    plain := plaintext }

/-! ## The writer -/

/-- `BundleTooLarge`. -/
structure BundleTooLarge where
  text : String
  deriving DecidableEq

/-- `_ChunkWriter`, with the messages that it had encrypted. -/
structure ChunkWriter (Key : Type) where
  key : Key
  header : List UInt8
  chunk : ChunkSize
  cap : ℕ
  buf : List UInt8 := []
  counter : ℕ := 0
  plainLen : ℕ := 0
  out : List UInt8
  messages : List (Message Key) := []

namespace ChunkWriter

variable {C} (w : ChunkWriter Key)

/-- `_emit`. -/
def emit (C : Crypto Key) (plaintext : List UInt8) (isLast : Bool) : Except BundleTooLarge (ChunkWriter Key) :=
  if w.counter ≥ 2 ^ 32 then .error ⟨"recovery bundle has too many chunks"⟩
  else
    let message := chunkMessage w.key w.header w.counter plaintext isLast
    .ok { w with
      out := w.out ++ C.cipherOf message
      counter := w.counter + 1
      messages := w.messages ++ [message] }

theorem emit_buf {w w' : ChunkWriter Key} {plaintext : List UInt8} {isLast : Bool}
    (h : w.emit C plaintext isLast = .ok w') : w'.buf = w.buf ∧ w'.chunk = w.chunk := by
  unfold emit at h
  split_ifs at h
  obtain rfl := Except.ok.inj h
  exact ⟨rfl, rfl⟩

/-- The loop of `write`: a chunk is encrypted while more than one is waiting. What was written before a
refusal stays written. -/
def drain (C : Crypto Key) (w : ChunkWriter Key) : ChunkWriter Key × Option BundleTooLarge :=
  if hlong : w.buf.length > w.chunk.1 then
    match hemit : w.emit C (w.buf.take w.chunk.1) false with
    | .error e => (w, some e)
    | .ok w' => drain C { w' with buf := w'.buf.drop w'.chunk.1 }
  else (w, none)
termination_by w.buf.length
decreasing_by
  obtain ⟨hbuf, hchunk⟩ := emit_buf hemit
  have hpos := w.chunk.2.1
  have hlength : (w'.buf.drop w'.chunk.1).length = w.buf.length - w.chunk.1 := by
    rw [hbuf, hchunk, List.length_drop]
  have hmin : 0 < MIN_CHUNK_SIZE := by decide
  show (w'.buf.drop w'.chunk.1).length < w.buf.length
  omega

/-- `write`. -/
def write (C : Crypto Key) (data : List UInt8) : ChunkWriter Key × Option BundleTooLarge :=
  let w := { w with plainLen := w.plainLen + data.length }
  if w.plainLen > w.cap then (w, some ⟨s!"recovery bundle is over the {w.cap} byte cap"⟩)
  else drain C { w with buf := w.buf ++ data }

/-- The writes of the tar writer, in order, with the first refusal. The tar writer may write again after one,
as it closes. -/
def writeAll (C : Crypto Key) (w : ChunkWriter Key) : List (List UInt8) → ChunkWriter Key × Option BundleTooLarge
  | [] => (w, none)
  | data :: rest =>
    let (w, refusal) := w.write C data
    let (w, later) := w.writeAll C rest
    (w, refusal <|> later)

/-- `finish`. -/
def finish (C : Crypto Key) : Except BundleTooLarge (ChunkWriter Key) := do
  let w ← w.emit C (w.buf ++ pack 8 w.plainLen) true
  return { w with buf := [] }

end ChunkWriter

/-- A run of `build_stream` after its checks: what it drew, and what the tar writer wrote. `completes` is
whether the tar writer came to its end without an error of its own. -/
structure Attempt where
  passphrase : String
  salt : {bs : List UInt8 // bs.length = SALT_LEN}
  chunkSize : ChunkSize
  noncePrefix : {bs : List UInt8 // bs.length = NONCE_PREFIX_LEN}
  writes : List (List UInt8)
  completes : Bool
  deriving DecidableEq

namespace Attempt

variable (a : Attempt)

def header : List UInt8 :=
  MAGIC2 ++ ([FORMAT_VERSION] ++ (a.salt.1 ++ (pack 4 a.chunkSize.1 ++ a.noncePrefix.1)))

/-- `build_stream` up to the end of the tar. -/
def written : ChunkWriter Key × Option BundleTooLarge :=
  ChunkWriter.writeAll C
    { key := deriveKey C a.passphrase a.salt.1
      header := a.header
      chunk := a.chunkSize
      cap := SIZE_CAP_BYTES
      out := a.header } a.writes

/-- `build_stream`: the writer when it returns or is left. -/
def run : Except BundleTooLarge (ChunkWriter Key) :=
  match (a.written C).2 with
  | some e => .error e
  | none => (a.written C).1.finish C

/-- The bundle, if there is one. -/
def bundle : Option (List UInt8) :=
  match a.run C with
  | .ok w => if a.completes then some w.out else none
  | .error _ => none

/-- What was encrypted for the bundle, or for the part of it that was written. -/
def messages : List (Message Key) :=
  match a.run C with
  | .ok w => if a.completes then w.messages else (a.written C).1.messages
  | .error _ => (a.written C).1.messages

end Attempt

/-- A run of `encrypt`, which writes the older format. -/
structure OldBundle where
  passphrase : String
  salt : List UInt8
  nonce : List UInt8
  tar : List UInt8

/-- What was encrypted for a bundle of the older format. -/
def OldBundle.message (b : OldBundle) : Message Key :=
  { key := deriveKey C b.passphrase b.salt, nonce := b.nonce, aad := MAGIC, plain := b.tar }

/-- Everything that was encrypted. -/
def log (attempts : List Attempt) (old : List OldBundle) : List (Message Key) :=
  attempts.flatMap (Attempt.messages C) ++ old.map (OldBundle.message C)

/-! ## The reader -/

/-- `BadPassphrase`. -/
structure BadPassphrase where
  text : String
  deriving DecidableEq

/-- A file that is read: what is left of it, and how many bytes more than one each of the next reads gives at
most. -/
structure Source where
  rest : List UInt8
  grants : List ℕ
  deriving DecidableEq

/-- `fp.read(n)`. -/
def Source.read (s : Source) (n : ℕ) : List UInt8 × Source :=
  match s.grants with
  | [] => (s.rest.take n, ⟨s.rest.drop n, []⟩)
  | g :: grants => (s.rest.take (min n (g + 1)), ⟨s.rest.drop (min n (g + 1)), grants⟩)

/-- `_read_exact`. -/
def readExact (s : Source) (n : ℕ) : List UInt8 × Source :=
  if n = 0 then ([], s)
  else
    let (b, t) := s.read n
    if b = [] then ([], t)
    else
      let (more, u) := readExact t (n - b.length)
      (b ++ more, u)
termination_by n
decreasing_by
  have hlength : 0 < b.length := List.length_pos_iff.mpr ‹_›
  omega

/-- What one read takes is the front of the file. -/
theorem read_spec (s : Source) (n : ℕ) : ∃ k ≤ n, (n = 0 ∨ 0 < k) ∧
    (s.read n).1 = s.rest.take k ∧ (s.read n).2.rest = s.rest.drop k := by
  unfold Source.read
  cases s.grants with
  | nil => exact ⟨n, le_refl n, by omega, rfl, rfl⟩
  | cons g grants => exact ⟨min n (g + 1), by omega, by omega, rfl, rfl⟩

/-- Short reads or not, the bytes asked for are read, or all that there are. -/
theorem readExact_spec (s : Source) (n : ℕ) :
    (readExact s n).1 = s.rest.take n ∧ (readExact s n).2.rest = s.rest.drop n := by
  induction n using Nat.strong_induction_on generalizing s with
  | _ n ih =>
    rw [readExact]
    split_ifs with hzero
    · subst hzero
      exact ⟨rfl, rfl⟩
    · obtain ⟨k, hk, hpos, hread, hrest⟩ := read_spec s n
      have hkpos : 0 < k := hpos.resolve_left hzero
      dsimp only
      split_ifs with hnone
      · have hempty : s.rest = [] := by
          rw [hread] at hnone
          rcases List.take_eq_nil_iff.mp hnone with h | h
          · omega
          · exact h
        dsimp only
        rw [hrest, hempty, List.take_nil, List.drop_nil, List.drop_nil]
        exact ⟨rfl, rfl⟩
      · have hlength : (s.read n).1.length ≤ n := by
          rw [hread, List.length_take]
          omega
        have hpositive := List.length_pos_iff.mpr hnone
        obtain ⟨hmore, hleft⟩ := ih (n - (s.read n).1.length) (by omega) (s.read n).2
        dsimp only
        rw [hmore, hleft, hrest, hread, List.drop_drop, List.length_take]
        constructor
        · rcases Nat.le_total k s.rest.length with h | h
          · rw [Nat.min_eq_left h, ← List.take_add, Nat.add_sub_cancel' hk]
          · rw [Nat.min_eq_right h, List.drop_eq_nil_of_le h, List.take_nil, List.append_nil,
              List.take_of_length_le h, List.take_of_length_le (by omega)]
        · rcases Nat.le_total k s.rest.length with h | h
          · rw [Nat.min_eq_left h, Nat.add_sub_cancel' hk]
          · rw [Nat.min_eq_right h, List.drop_eq_nil_of_le (by omega), List.drop_eq_nil_of_le (by omega)]

/-- Nothing of the file is lost between what was read and what is left. -/
theorem readExact_append (s : Source) (n : ℕ) : (readExact s n).1 ++ (readExact s n).2.rest = s.rest := by
  rw [(readExact_spec s n).1, (readExact_spec s n).2, List.take_append_drop]

def refused : BadPassphrase := ⟨"wrong passphrase, or the bundle is corrupted or was tampered with"⟩

/-- The last record of `_decrypt_stream`: its plaintext ends with the length of the tar. -/
def lastRecord (key : Key) (header record : List UInt8) (counter total : ℕ) (out : List UInt8) :
    Except BadPassphrase ℕ × List UInt8 :=
  match C.decrypt key (chunkNonce (noncePrefixOf header) counter) record (chunkAad header counter true) with
  | none => (.error refused, out)
  | some plain =>
    if plain.length < TRAILER_LEN then (.error refused, out)
    else
      let body := plain.take (plain.length - TRAILER_LEN)
      let trailer := plain.drop (plain.length - TRAILER_LEN)
      if unpack trailer ≠ total + body.length then
        (.error ⟨"the bundle's length trailer does not match its contents"⟩, out ++ body)
      else (.ok (total + body.length), out ++ body)

/-- Every record but the last. -/
abbrev full (chunk : ChunkSize) : ℕ := chunk.1 + TAG_LEN

/-- The last record at most: it carries the trailer too. -/
abbrev maxLast (chunk : ChunkSize) : ℕ := full chunk + TRAILER_LEN

/-- The loop of `_decrypt_stream`, with what was written so far. If more than a last record's worth is
available, the front of it is another record. -/
def decryptLoop (key : Key) (header : List UInt8) (chunk : ChunkSize) (s : Source) (pending : List UInt8)
    (counter total : ℕ) (out : List UInt8) : Except BadPassphrase ℕ × List UInt8 :=
  match hread : readExact s (maxLast chunk + 1 - pending.length) with
  | (more, s') =>
    if pending ++ more = [] then (.error refused, out)
    else if hlast : (pending ++ more).length ≤ maxLast chunk then
      if counter ≥ 2 ^ 32 then (.error refused, out)
      else lastRecord C key header (pending ++ more) counter total out
    else
      if counter ≥ 2 ^ 32 then (.error refused, out)
      else
        match C.decrypt key (chunkNonce (noncePrefixOf header) counter) ((pending ++ more).take (full chunk))
            (chunkAad header counter false) with
        | none => (.error refused, out)
        | some plain =>
          decryptLoop key header chunk s' ((pending ++ more).drop (full chunk)) (counter + 1)
            (total + plain.length) (out ++ plain)
termination_by pending.length + s.rest.length
decreasing_by
  have hkept := congrArg List.length (readExact_append s (maxLast chunk + 1 - pending.length))
  rw [hread, List.length_append] at hkept
  have hpos : 0 < full chunk := Nat.add_pos_right _ (by decide)
  rw [List.length_append] at hlast
  rw [List.length_drop, List.length_append]
  dsimp only at hkept
  omega

/-- `_decrypt_stream`. -/
def decryptStreamInner (s : Source) (passphrase : String) (out : List UInt8) :
    Except BadPassphrase ℕ × List UInt8 :=
  let (header, s) := readExact s HEADER2_LEN
  if header.length < HEADER2_LEN ∨ ¬ MAGIC2 <+: header then
    (.error ⟨"not a Jen recovery bundle (missing or wrong header)"⟩, out)
  else if header[MAGIC2.length]? ≠ some FORMAT_VERSION then
    (.error ⟨"this recovery bundle is a newer format than this Jen can read"⟩, out)
  else
    let o := MAGIC2.length + 1
    let salt := (header.drop o).take SALT_LEN
    let chunkSize := unpack ((header.drop (o + SALT_LEN)).take 4)
    if h : MIN_CHUNK_SIZE ≤ chunkSize ∧ chunkSize ≤ MAX_CHUNK_SIZE then
      decryptLoop C (deriveKey C passphrase salt) header ⟨chunkSize, h⟩ s [] 0 0 out
    else (.error refused, out)

/-- `decrypt_stream` into a file that can seek: what a refusal leaves is discarded. -/
def decryptStream (s : Source) (passphrase : String) (out : List UInt8) :
    Except BadPassphrase ℕ × List UInt8 :=
  match decryptStreamInner C s passphrase out with
  | (.ok n, out) => (.ok n, out)
  | (.error e, _) => (.error e, [])

end JenKea.Recovery
