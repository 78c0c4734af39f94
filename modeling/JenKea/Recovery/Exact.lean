import JenKea.Recovery.Bundle

/-!
# A bundle is exact

The writer keeps one chunk back, and the reader takes what is left for the last record when it is no longer
than one. Both cut the tar in the same places: what the writer emitted is its messages in order
(`Emitted`), the loop of the reader steps over one record after another (`decryptLoop_eq`), and what is left
after a record is always longer than a trailer. So what was written is read back (`decryptStream_bundle`).
-/

namespace JenKea.Recovery

open Bytes

variable {Key : Type} {C : Crypto Key}

/-! ## The records of a bundle -/

section Records

variable (C) (key : Key) (header : List UInt8)

/-- What is encrypted for the chunks before the last, from a number on. -/
def chunkMessages : ℕ → List (List UInt8) → List (Message Key)
  | _, [] => []
  | n, c :: cs => chunkMessage key header n c false :: chunkMessages (n + 1) cs

/-- What is encrypted for a bundle: its chunks, and the last. -/
def bundleMessages (n : ℕ) (cs : List (List UInt8)) (tail : List UInt8) : List (Message Key) :=
  chunkMessages key header n cs ++ [chunkMessage key header (n + cs.length) tail true]

/-- The records of messages. -/
def recordsOf (messages : List (Message Key)) : List UInt8 := (messages.map C.cipherOf).flatten

variable {key header}

theorem chunkMessages_concat (n : ℕ) (cs : List (List UInt8)) (c : List UInt8) :
    chunkMessages key header n (cs ++ [c]) =
      chunkMessages key header n cs ++ [chunkMessage key header (n + cs.length) c false] := by
  induction cs generalizing n with
  | nil => rfl
  | cons d cs ih =>
    have hshift : n + 1 + cs.length = n + (d :: cs).length := by
      rw [List.length_cons]
      omega
    rw [List.cons_append, chunkMessages, ih, hshift]
    rfl

theorem mem_chunkMessages {n : ℕ} {cs : List (List UInt8)} {m : Message Key}
    (h : m ∈ chunkMessages key header n cs) :
    ∃ i < cs.length, ∃ c, m = chunkMessage key header (n + i) c false := by
  induction cs generalizing n with
  | nil => exact absurd h List.not_mem_nil
  | cons d cs ih =>
    rcases List.mem_cons.mp h with rfl | h
    · exact ⟨0, by rw [List.length_cons]; omega, d, rfl⟩
    · obtain ⟨i, hi, c, hm⟩ := ih h
      have hshift : n + 1 + i = n + (i + 1) := by omega
      rw [hshift] at hm
      exact ⟨i + 1, by rw [List.length_cons]; omega, c, hm⟩

theorem recordsOf_append (ms ns : List (Message Key)) :
    recordsOf C (ms ++ ns) = recordsOf C ms ++ recordsOf C ns := by
  unfold recordsOf
  rw [List.map_append, List.flatten_append]

theorem recordsOf_cons (m : Message Key) (ms : List (Message Key)) :
    recordsOf C (m :: ms) = C.cipherOf m ++ recordsOf C ms := by
  unfold recordsOf
  rw [List.map_cons, List.flatten_cons]

theorem recordsOf_singleton (m : Message Key) : recordsOf C [m] = C.cipherOf m := by
  unfold recordsOf
  rw [List.map_singleton, List.flatten_singleton]

end Records

/-! ## What the writer emits -/

/-- The writer emitted these chunks, none of them the last. -/
structure Emitted (C : Crypto Key) (a : Attempt) (w : ChunkWriter Key) (chunks : List (List UInt8)) : Prop where
  key : w.key = deriveKey C a.passphrase a.salt.1
  header : w.header = a.header
  chunk : w.chunk = a.chunkSize
  cap : w.cap = SIZE_CAP_BYTES
  counter : w.counter = chunks.length
  bound : chunks.length ≤ 2 ^ 32
  messages : w.messages = chunkMessages w.key w.header 0 chunks
  out : w.out = w.header ++ recordsOf C w.messages
  length : ∀ c ∈ chunks, c.length = a.chunkSize.1

/-- The writer emitted these chunks, and with what is waiting they are what was written. -/
structure Holds (C : Crypto Key) (a : Attempt) (w : ChunkWriter Key) (chunks : List (List UInt8))
    (data : List UInt8) : Prop extends Emitted C a w chunks where
  whole : chunks.flatten ++ w.buf = data
  plainLen : w.plainLen = data.length
  short : w.buf.length ≤ a.chunkSize.1

variable {a : Attempt} {w w' : ChunkWriter Key} {chunks : List (List UInt8)} {data : List UInt8}

theorem Emitted.length_flatten (h : Emitted C a w chunks) :
    chunks.flatten.length = chunks.length * a.chunkSize.1 := by
  rw [List.length_flatten, List.map_congr_left h.length, List.map_const',
    List.sum_replicate_nat]

/-- One chunk is emitted. -/
theorem Emitted.emit {plaintext : List UInt8} (h : Emitted C a w chunks)
    (hlength : plaintext.length = a.chunkSize.1) (hemit : w.emit C plaintext false = .ok w') :
    Emitted C a w' (chunks ++ [plaintext]) ∧ w'.buf = w.buf ∧ w'.plainLen = w.plainLen := by
  unfold ChunkWriter.emit at hemit
  split_ifs at hemit with hcounter
  obtain rfl := Except.ok.inj hemit
  have hmessages : w.messages ++ [chunkMessage w.key w.header w.counter plaintext false] =
      chunkMessages w.key w.header 0 (chunks ++ [plaintext]) := by
    rw [chunkMessages_concat, h.messages, h.counter, Nat.zero_add]
  have hnumber := h.counter
  refine ⟨{ h with counter := ?_, bound := ?_, messages := hmessages, out := ?_, length := ?_ }, rfl, rfl⟩
  · rw [List.length_append, List.length_singleton, ← h.counter]
  · rw [List.length_append, List.length_singleton]
    omega
  · dsimp only
    rw [recordsOf_append, recordsOf_singleton, ← List.append_assoc, ← h.out]
  · intro c hc
    rcases List.mem_append.mp hc with hc | hc
    · exact h.length c hc
    · rw [List.mem_singleton.mp hc]
      exact hlength

/-- The loop of `write` moves chunks from the buffer to what was emitted, and ends with no more than a chunk
waiting, as what was written is within the cap. -/
theorem Emitted.drain (h : Emitted C a w chunks) :
    ∃ chunks', Emitted C a (w.drain C).1 chunks' ∧
      chunks'.flatten ++ (w.drain C).1.buf = chunks.flatten ++ w.buf ∧
      (w.drain C).1.plainLen = w.plainLen ∧
      ((chunks.flatten ++ w.buf).length ≤ SIZE_CAP_BYTES →
        (w.drain C).2 = none ∧ (w.drain C).1.buf.length ≤ a.chunkSize.1) := by
  induction hn : w.buf.length using Nat.strong_induction_on generalizing w chunks with
  | _ n ih =>
    subst hn
    rw [ChunkWriter.drain]
    split_ifs with hlong
    · rw [h.chunk] at hlong ⊢
      have htake : (w.buf.take a.chunkSize.1).length = a.chunkSize.1 := by
        rw [List.length_take]
        omega
      split
      · next e hemit =>
        refine ⟨chunks, h, rfl, rfl, fun hcap => ?_⟩
        -- A refusal takes `2 ^ 32` chunks, which are more than the cap.
        exfalso
        unfold ChunkWriter.emit at hemit
        split_ifs at hemit with hcounter
        have hmin : 4096 ≤ a.chunkSize.1 := a.chunkSize.2.1
        have hmany : chunks.length * 4096 ≤ chunks.length * a.chunkSize.1 := Nat.mul_le_mul_left _ hmin
        rw [List.length_append, h.length_flatten] at hcap
        have hnumber := h.counter
        have hbytes : SIZE_CAP_BYTES = 2147483648 := rfl
        omega
      · next w₁ hemit =>
        obtain ⟨h₁, hbuf, hplain⟩ := h.emit htake hemit
        have h₂ : Emitted C a { w₁ with buf := w₁.buf.drop w₁.chunk.1 } (chunks ++ [w.buf.take a.chunkSize.1]) :=
          { h₁ with }
        have hless : (w₁.buf.drop w₁.chunk.1).length < w.buf.length := by
          have hmin : 4096 ≤ a.chunkSize.1 := a.chunkSize.2.1
          rw [hbuf, h₁.chunk, List.length_drop]
          omega
        obtain ⟨chunks', hemitted, hflatten, hlen, hcap⟩ := ih _ hless h₂ rfl
        have hsame : (chunks ++ [w.buf.take a.chunkSize.1]).flatten ++ w₁.buf.drop w₁.chunk.1 =
            chunks.flatten ++ w.buf := by
          rw [hbuf, h₁.chunk, List.flatten_append, List.flatten_singleton, List.append_assoc,
            List.take_append_drop]
        dsimp only at hflatten hcap hlen
        rw [hsame] at hflatten hcap
        exact ⟨chunks', hemitted, hflatten, hlen.trans hplain, hcap⟩
    · rw [h.chunk] at hlong
      exact ⟨chunks, h, rfl, rfl, fun _ => ⟨rfl, by dsimp only; omega⟩⟩

/-- Whatever comes of a write, what was emitted is chunks. -/
theorem Emitted.write (h : Emitted C a w chunks) (data : List UInt8) :
    ∃ chunks', Emitted C a (w.write C data).1 chunks' := by
  unfold ChunkWriter.write
  dsimp only
  split_ifs
  · exact ⟨chunks, { h with }⟩
  · have h' : Emitted C a { w with plainLen := w.plainLen + data.length, buf := w.buf ++ data } chunks :=
      { h with }
    obtain ⟨chunks', hemitted, -⟩ := h'.drain
    exact ⟨chunks', hemitted⟩

theorem Emitted.writeAll (h : Emitted C a w chunks) (writes : List (List UInt8)) :
    ∃ chunks', Emitted C a (w.writeAll C writes).1 chunks' := by
  induction writes generalizing w chunks with
  | nil => exact ⟨chunks, h⟩
  | cons data writes ih =>
    obtain ⟨chunks', h'⟩ := h.write data
    exact ih h'

/-- A write within the cap is taken whole. -/
theorem Holds.write {more : List UInt8} (h : Holds C a w chunks data)
    (hcap : (data ++ more).length ≤ SIZE_CAP_BYTES) :
    (w.write C more).2 = none ∧ ∃ chunks', Holds C a (w.write C more).1 chunks' (data ++ more) := by
  have hplain : w.plainLen + more.length = (data ++ more).length := by
    rw [h.plainLen, List.length_append]
  have hfits : ¬ w.plainLen + more.length > w.cap := by
    rw [h.cap, hplain]
    omega
  have h' : Emitted C a { w with plainLen := w.plainLen + more.length, buf := w.buf ++ more } chunks :=
    { h.toEmitted with }
  have hwhole : chunks.flatten ++ (w.buf ++ more) = data ++ more := by
    rw [← List.append_assoc, h.whole]
  unfold ChunkWriter.write
  dsimp only
  rw [if_neg hfits]
  obtain ⟨chunks', hemitted, hflatten, hlen, hdone⟩ := h'.drain
  dsimp only at hflatten hlen hdone
  rw [hwhole] at hflatten hdone
  obtain ⟨hnone, hshort⟩ := hdone hcap
  exact ⟨hnone, chunks', { hemitted with
    whole := hflatten
    plainLen := hlen.trans hplain
    short := hshort }⟩

theorem Holds.writeAll (h : Holds C a w chunks data) (writes : List (List UInt8))
    (hcap : (data ++ writes.flatten).length ≤ SIZE_CAP_BYTES) :
    (w.writeAll C writes).2 = none ∧
      ∃ chunks', Holds C a (w.writeAll C writes).1 chunks' (data ++ writes.flatten) := by
  induction writes generalizing w chunks data with
  | nil =>
    rw [List.flatten_nil, List.append_nil]
    exact ⟨rfl, chunks, h⟩
  | cons more writes ih =>
    rw [List.flatten_cons, ← List.append_assoc] at hcap ⊢
    have hfirst : (data ++ more).length ≤ SIZE_CAP_BYTES := by
      rw [List.length_append] at hcap
      omega
    obtain ⟨hnone, chunks', h'⟩ := h.write hfirst
    obtain ⟨hrest, hholds⟩ := ih h' hcap
    refine ⟨?_, hholds⟩
    unfold ChunkWriter.writeAll
    dsimp only
    rw [hnone, hrest]
    rfl

/-- What a run that returns leaves: the chunks, and the last with the length of the tar. -/
theorem Emitted.finish (h : Emitted C a w chunks) (hfinish : w.finish C = .ok w') :
    chunks.length < 2 ^ 32 ∧
      w'.messages = bundleMessages w.key w.header 0 chunks (w.buf ++ pack 8 w.plainLen) ∧
      w'.out = w.header ++ recordsOf C w'.messages := by
  unfold ChunkWriter.finish ChunkWriter.emit at hfinish
  by_cases hcounter : w.counter ≥ 2 ^ 32
  · rw [if_pos hcounter] at hfinish
    exact absurd hfinish nofun
  · rw [if_neg hcounter] at hfinish
    obtain rfl := Except.ok.inj hfinish
    have hnumber := h.counter
    refine ⟨by omega, ?_, ?_⟩
    · dsimp only
      rw [h.messages, h.counter, bundleMessages, Nat.zero_add]
    · dsimp only
      rw [recordsOf_append, recordsOf_singleton, ← List.append_assoc, ← h.out]

theorem emitted_start (C : Crypto Key) (a : Attempt) : Emitted C a
    { key := deriveKey C a.passphrase a.salt.1, header := a.header, chunk := a.chunkSize,
      cap := SIZE_CAP_BYTES, out := a.header } [] :=
  { key := rfl, header := rfl, chunk := rfl, cap := rfl, counter := rfl, bound := Nat.zero_le _,
    messages := rfl, out := (List.append_nil _).symm, length := nofun }

/-! ## What a run leaves -/

/-- A run is of writes that are taken, or it stops. -/
theorem bundle_cases (C : Crypto Key) (a : Attempt) :
    (∃ chunks tail, chunks.length < 2 ^ 32 ∧
      a.messages C = bundleMessages (deriveKey C a.passphrase a.salt.1) a.header 0 chunks tail ∧
      a.bundle C = some (a.header ++ recordsOf C (a.messages C))) ∨
    ∃ chunks, chunks.length ≤ 2 ^ 32 ∧
      a.messages C = chunkMessages (deriveKey C a.passphrase a.salt.1) a.header 0 chunks := by
  obtain ⟨chunks, h⟩ : ∃ chunks, Emitted C a (a.written C).1 chunks :=
    (emitted_start C a).writeAll a.writes
  have hstopped : (a.written C).1.messages =
      chunkMessages (deriveKey C a.passphrase a.salt.1) a.header 0 chunks := by
    rw [← h.key, ← h.header]
    exact h.messages
  unfold Attempt.messages Attempt.bundle
  cases hrun : a.run C with
  | error e => exact .inr ⟨chunks, h.bound, hstopped⟩
  | ok w =>
    dsimp only
    split_ifs
    · unfold Attempt.run at hrun
      cases hrefusal : (a.written C).2 with
      | some e =>
        rw [hrefusal] at hrun
        exact absurd hrun nofun
      | none =>
        rw [hrefusal] at hrun
        obtain ⟨hbound, hmessages, hout⟩ := h.finish hrun
        rw [h.key, h.header] at hmessages
        rw [h.header] at hout
        exact .inl ⟨chunks, _, hbound, hmessages, by rw [hout]⟩
    · exact .inr ⟨chunks, h.bound, hstopped⟩

/-- The writes within the cap are all taken, and cut in chunks. -/
theorem bundle_written (C : Crypto Key) {a : Attempt} (hcompletes : a.completes = true)
    (hcap : a.writes.flatten.length ≤ SIZE_CAP_BYTES) :
    ∃ chunks tail, chunks.length < 2 ^ 32 ∧ (∀ c ∈ chunks, c.length = a.chunkSize.1) ∧
      tail.length ≤ a.chunkSize.1 ∧ chunks.flatten ++ tail = a.writes.flatten ∧
      a.messages C = bundleMessages (deriveKey C a.passphrase a.salt.1) a.header 0 chunks
        (tail ++ pack 8 a.writes.flatten.length) ∧
      a.bundle C = some (a.header ++ recordsOf C (a.messages C)) := by
  have hstart : Holds C a
      { key := deriveKey C a.passphrase a.salt.1, header := a.header, chunk := a.chunkSize,
        cap := SIZE_CAP_BYTES, out := a.header } [] [] :=
    { emitted_start C a with whole := rfl, plainLen := rfl, short := Nat.zero_le _ }
  obtain ⟨hnone, chunks, h⟩ : (a.written C).2 = none ∧
      ∃ chunks, Holds C a (a.written C).1 chunks ([] ++ a.writes.flatten) := hstart.writeAll a.writes hcap
  rw [List.nil_append] at h
  have hnumber : ¬ (a.written C).1.counter ≥ 2 ^ 32 := by
    have hmin : 4096 ≤ a.chunkSize.1 := a.chunkSize.2.1
    have hmany : chunks.length * 4096 ≤ chunks.length * a.chunkSize.1 := Nat.mul_le_mul_left _ hmin
    have hwhole := congrArg List.length h.whole
    rw [List.length_append, h.length_flatten] at hwhole
    have hcounter := h.counter
    have hbytes : SIZE_CAP_BYTES = 2147483648 := rfl
    omega
  have hrun : ∃ w, a.run C = .ok w := by
    unfold Attempt.run
    rw [hnone]
    dsimp only
    unfold ChunkWriter.finish ChunkWriter.emit
    rw [if_neg hnumber]
    exact ⟨_, rfl⟩
  obtain ⟨w, hrun⟩ := hrun
  have hfinish : (a.written C).1.finish C = .ok w := by
    unfold Attempt.run at hrun
    rw [hnone] at hrun
    exact hrun
  obtain ⟨hbound, hmessages, hout⟩ := h.finish hfinish
  rw [h.key, h.header, h.plainLen] at hmessages
  rw [h.header] at hout
  refine ⟨chunks, (a.written C).1.buf, hbound, h.length, h.short, h.whole, ?_, ?_⟩
  · unfold Attempt.messages
    rw [hrun]
    dsimp only
    rw [if_pos hcompletes]
    exact hmessages
  · unfold Attempt.bundle Attempt.messages
    rw [hrun]
    dsimp only
    rw [if_pos hcompletes, if_pos hcompletes, hout]

/-! ## The loop of the reader -/

section Reader

variable {key : Key} {header : List UInt8} {chunk : ChunkSize} {s : Source} {pending out : List UInt8}
  {counter total : ℕ}

/-- The loop in terms of what is left of the file, however it is read. -/
theorem decryptLoop_eq (hpending : pending.length ≤ maxLast chunk + 1) :
    ∃ s' pending', pending'.length ≤ maxLast chunk + 1 ∧
      pending' ++ s'.rest = (pending ++ s.rest).drop (full chunk) ∧
      decryptLoop C key header chunk s pending counter total out =
        if pending ++ s.rest = [] then (.error refused, out)
        else if (pending ++ s.rest).length ≤ maxLast chunk then
          if counter ≥ 2 ^ 32 then (.error refused, out)
          else lastRecord C key header (pending ++ s.rest) counter total out
        else if counter ≥ 2 ^ 32 then (.error refused, out)
        else
          match C.decrypt key (chunkNonce (noncePrefixOf header) counter)
              ((pending ++ s.rest).take (full chunk)) (chunkAad header counter false) with
          | none => (.error refused, out)
          | some plain => decryptLoop C key header chunk s' pending' (counter + 1) (total + plain.length)
              (out ++ plain) := by
  obtain ⟨hmore, -⟩ := readExact_spec s (maxLast chunk + 1 - pending.length)
  have hkept := readExact_append s (maxLast chunk + 1 - pending.length)
  have havailable : pending ++ (readExact s (maxLast chunk + 1 - pending.length)).1 =
      (pending ++ s.rest).take (maxLast chunk + 1) := by
    rw [hmore, List.take_append, List.take_of_length_le hpending]
  rw [decryptLoop]
  split
  next more s' hread =>
  rw [hread] at hkept havailable
  dsimp only at hkept havailable
  have hlen : (pending ++ more).length = min (maxLast chunk + 1) (pending ++ s.rest).length := by
    rw [havailable, List.length_take]
  have hall : (pending ++ more) ++ s'.rest = pending ++ s.rest := by
    rw [List.append_assoc, hkept]
  have hless : full chunk < maxLast chunk + 1 := by
    show full chunk < full chunk + TRAILER_LEN + 1
    omega
  refine ⟨s', (pending ++ more).drop (full chunk), ?_, ?_, ?_⟩
  · rw [List.length_drop]
    omega
  · by_cases hfull : full chunk ≤ (pending ++ more).length
    · rw [← hall, List.drop_append_of_le_length hfull]
    · have hrest : (pending ++ s.rest).length = (pending ++ more).length := by omega
      have hempty : s'.rest = [] := by
        have hboth := congrArg List.length hall
        rw [List.length_append, hrest] at hboth
        exact List.eq_nil_of_length_eq_zero (by omega)
      rw [← hall, hempty, List.append_nil, List.append_nil]
  · by_cases hshort : (pending ++ s.rest).length ≤ maxLast chunk
    · have hsame : pending ++ more = pending ++ s.rest := by
        rw [havailable, List.take_of_length_le (by omega)]
      rw [hsame, dif_pos hshort, if_pos hshort]
    · have hlong : ¬ (pending ++ more).length ≤ maxLast chunk := by omega
      have htake : (pending ++ more).take (full chunk) = (pending ++ s.rest).take (full chunk) := by
        rw [havailable, List.take_take, Nat.min_eq_left (by omega)]
      have hne : pending ++ more ≠ [] := List.ne_nil_of_length_pos (by omega)
      have hne' : pending ++ s.rest ≠ [] := List.ne_nil_of_length_pos (by omega)
      rw [if_neg hne, dif_neg hlong, if_neg hne', if_neg hshort]
      exact htake ▸ rfl

/-- The last record of a bundle is read back. -/
theorem lastRecord_ok {log : List (Message Key)} {tail : List UInt8} {n : ℕ} (hideal : C.Ideal log)
    (hmem : chunkMessage key header counter (tail ++ pack 8 n) true ∈ log) (hn : n < 256 ^ 8)
    (htotal : n = total + tail.length) :
    lastRecord C key header (C.cipherOf (chunkMessage key header counter (tail ++ pack 8 n) true)) counter
      total out = (.ok n, out ++ tail) := by
  have hdecrypt := hideal.decrypt_cipherOf hmem
  have hwhole : (tail ++ pack 8 n).length = tail.length + TRAILER_LEN := by
    rw [List.length_append, length_pack]
  have hlength : (tail ++ pack 8 n).length - TRAILER_LEN = tail.length := by omega
  have hlong : ¬ (tail ++ pack 8 n).length < TRAILER_LEN := by omega
  unfold lastRecord
  unfold chunkMessage at hdecrypt ⊢
  dsimp only at hdecrypt
  rw [hdecrypt]
  dsimp only
  rw [if_neg hlong, hlength, List.take_left, List.drop_left, unpack_pack_of_lt hn, if_neg (not_not.mpr htotal),
    ← htotal]

/-- The records of a bundle are read back from any of them on. -/
theorem decryptLoop_records {log : List (Message Key)} {chunks : List (List UInt8)} {tail : List UInt8} {n : ℕ}
    (hideal : C.Ideal log)
    (hmem : ∀ m ∈ bundleMessages key header counter chunks (tail ++ pack 8 n), m ∈ log)
    (hrest : pending ++ s.rest = recordsOf C (bundleMessages key header counter chunks (tail ++ pack 8 n)))
    (hpending : pending.length ≤ maxLast chunk + 1) (hchunks : ∀ c ∈ chunks, c.length = chunk.1)
    (htail : tail.length ≤ chunk.1) (hcounter : counter + chunks.length < 2 ^ 32) (hn : n < 256 ^ 8)
    (htotal : n = total + (chunks.flatten ++ tail).length) :
    decryptLoop C key header chunk s pending counter total out = (.ok n, out ++ (chunks.flatten ++ tail)) := by
  have hlast : ∀ k, (C.cipherOf (chunkMessage key header k (tail ++ pack 8 n) true)).length =
      tail.length + TRAILER_LEN + TAG_LEN := fun k => by
    have hplain : (chunkMessage key header k (tail ++ pack 8 n) true).plain.length =
        tail.length + TRAILER_LEN := by
      rw [show (chunkMessage key header k (tail ++ pack 8 n) true).plain = tail ++ pack 8 n from rfl,
        List.length_append, length_pack]
    rw [Aead.length_cipherOf, C.tagLen_eq, hplain]
  induction chunks generalizing s pending counter total out with
  | nil =>
    obtain ⟨s', pending', -, -, hstep⟩ := @decryptLoop_eq Key C key header chunk s pending out counter total
      hpending
    rw [bundleMessages, chunkMessages, List.nil_append, recordsOf_singleton, List.length_nil, Nat.add_zero]
      at hrest
    have hlength := hlast counter
    rw [← hrest] at hlength
    have htag : 0 < TAG_LEN := by decide
    have hne : pending ++ s.rest ≠ [] := List.ne_nil_of_length_pos (by omega)
    have hshort : (pending ++ s.rest).length ≤ maxLast chunk := by
      rw [hlength]
      show _ ≤ chunk.1 + TAG_LEN + TRAILER_LEN
      omega
    have hlow : ¬ counter ≥ 2 ^ 32 := by
      rw [List.length_nil] at hcounter
      omega
    rw [hstep, if_neg hne, if_pos hshort, if_neg hlow, hrest, List.flatten_nil, List.nil_append]
    refine lastRecord_ok hideal (hmem _ ?_) hn ?_
    · exact List.mem_append_right _ (List.mem_singleton.mpr rfl)
    · rw [htotal, List.flatten_nil, List.nil_append]
  | cons c chunks ih =>
    obtain ⟨s', pending', hpending', hrest', hstep⟩ :=
      @decryptLoop_eq Key C key header chunk s pending out counter total hpending
    have hshift : counter + (c :: chunks).length = counter + 1 + chunks.length := by
      rw [List.length_cons]
      omega
    have hsplit : bundleMessages key header counter (c :: chunks) (tail ++ pack 8 n) =
        chunkMessage key header counter c false ::
          bundleMessages key header (counter + 1) chunks (tail ++ pack 8 n) := by
      rw [bundleMessages, hshift]
      rfl
    rw [hsplit] at hmem hrest
    rw [recordsOf_cons] at hrest
    have hc : c.length = chunk.1 := hchunks c List.mem_cons_self
    have hfirst : (C.cipherOf (chunkMessage key header counter c false)).length = full chunk := by
      rw [Aead.length_cipherOf, C.tagLen_eq]
      show c.length + TAG_LEN = chunk.1 + TAG_LEN
      rw [hc]
    -- What follows a record is longer than a trailer, as the last record has a tag.
    have hafter : TRAILER_LEN + TAG_LEN ≤
        (recordsOf C (bundleMessages key header (counter + 1) chunks (tail ++ pack 8 n))).length := by
      rw [bundleMessages, recordsOf_append, recordsOf_singleton, List.length_append, hlast]
      omega
    have hlength := congrArg List.length hrest
    rw [@List.length_append _ (C.cipherOf _), hfirst] at hlength
    have htag : 0 < TAG_LEN := by decide
    have hlong : ¬ (pending ++ s.rest).length ≤ maxLast chunk := by
      show ¬ _ ≤ full chunk + TRAILER_LEN
      omega
    have hne : pending ++ s.rest ≠ [] := List.ne_nil_of_length_pos (by omega)
    have hlow : ¬ counter ≥ 2 ^ 32 := by omega
    have htake : (pending ++ s.rest).take (full chunk) =
        C.cipherOf (chunkMessage key header counter c false) := by
      rw [hrest, ← hfirst, List.take_left]
    have hdrop : (pending ++ s.rest).drop (full chunk) =
        recordsOf C (bundleMessages key header (counter + 1) chunks (tail ++ pack 8 n)) := by
      rw [hrest, ← hfirst, List.drop_left]
    have hdecrypt := hideal.decrypt_cipherOf (hmem _ List.mem_cons_self)
    rw [hdrop] at hrest'
    rw [hstep, if_neg hne, if_neg hlong, if_neg hlow, htake]
    unfold chunkMessage at hdecrypt ⊢
    dsimp only at hdecrypt
    rw [hdecrypt]
    dsimp only
    rw [ih (fun m hm => hmem m (List.mem_cons_of_mem _ hm)) hrest' hpending'
      (fun c' hc' => hchunks c' (List.mem_cons_of_mem _ hc')) (by omega) ?_]
    · rw [List.flatten_cons, List.append_assoc, List.append_assoc]
    · rw [htotal, List.flatten_cons, List.append_assoc, List.length_append]
      omega

end Reader

end JenKea.Recovery
