import Mathlib
import JenKea.Recovery.Exact

/-!
# A bundle is tamper-evident

What the reader accepts is one record after another, each decrypted with its number, and the last as the last
(`Opens`). The cipher decrypts only what was encrypted, and the associated data of the last record is that of
the last chunk of some bundle with this header and this key, so that bundle has as many chunks. Each record
before has the key and the nonce of a chunk of that bundle, and so is that chunk (`records_of_opens`). The
stream is the bundle (`bundle_of_ok`), and whatever is not one is refused and discarded.
-/

namespace JenKea.Recovery

open Bytes

variable {Key : Type} {C : Crypto Key}

/-! ## What the reader accepts -/

/-- The records are decrypted, from a number on, the last as the last. -/
def Opens (C : Crypto Key) (key : Key) (header : List UInt8) : ℕ → List (List UInt8) → List UInt8 → Prop
  | n, [], last => n < 2 ^ 32 ∧
      (C.decrypt key (chunkNonce (noncePrefixOf header) n) last (chunkAad header n true)).isSome
  | n, r :: rs, last => n < 2 ^ 32 ∧
      (C.decrypt key (chunkNonce (noncePrefixOf header) n) r (chunkAad header n false)).isSome ∧
        Opens C key header (n + 1) rs last

section Reader

variable {key : Key} {header : List UInt8} {chunk : ChunkSize} {s : Source} {pending out : List UInt8}
  {counter total : ℕ}

theorem decrypt_of_lastRecord {record out' : List UInt8} {n : ℕ}
    (h : lastRecord C key header record counter total out = (.ok n, out')) :
    (C.decrypt key (chunkNonce (noncePrefixOf header) counter) record (chunkAad header counter true)).isSome := by
  unfold lastRecord at h
  split at h
  · exact absurd (Prod.mk.inj h).1 (by rintro ⟨⟩)
  · next plain hplain =>
    rw [hplain]
    rfl

/-- What the loop accepts are records that are decrypted. -/
theorem opens_of_ok {out' : List UInt8} {n : ℕ} (hpending : pending.length ≤ maxLast chunk + 1)
    (h : decryptLoop C key header chunk s pending counter total out = (.ok n, out')) :
    ∃ rs last, pending ++ s.rest = rs.flatten ++ last ∧ Opens C key header counter rs last := by
  induction hlen : (pending ++ s.rest).length using Nat.strong_induction_on
    generalizing s pending counter total out with
  | _ len ih =>
    obtain ⟨s', pending', hpending', hrest, hstep⟩ :=
      @decryptLoop_eq Key C key header chunk s pending out counter total hpending
    rw [hstep] at h
    split_ifs at h with hnil hshort hhigh hhigh
    · exact absurd (Prod.mk.inj h).1 nofun
    · exact absurd (Prod.mk.inj h).1 nofun
    · refine ⟨[], pending ++ s.rest, rfl, by omega, decrypt_of_lastRecord h⟩
    · exact absurd (Prod.mk.inj h).1 nofun
    · split at h
      · exact absurd (Prod.mk.inj h).1 nofun
      · next plain hplain =>
        have hless : (pending' ++ s'.rest).length < len := by
          have hpos : 0 < full chunk := Nat.add_pos_right _ (by decide)
          have hmax : maxLast chunk = full chunk + TRAILER_LEN := rfl
          rw [hrest, List.length_drop]
          omega
        obtain ⟨rs, last, hsplit, hopens⟩ := ih _ hless hpending' h rfl
        refine ⟨(pending ++ s.rest).take (full chunk) :: rs, last, ?_, by omega, ?_, hopens⟩
        · rw [List.flatten_cons, List.append_assoc, ← hsplit, hrest, List.take_append_drop]
        · rw [hplain]
          rfl

end Reader

/-! ## Which records they are -/

section Records

variable {key : Key} {header : List UInt8} {log : List (Message Key)}

/-- The last record is decrypted under the number of records before it. -/
theorem Opens.last {n : ℕ} {rs : List (List UInt8)} {last : List UInt8} (h : Opens C key header n rs last) :
    n + rs.length < 2 ^ 32 ∧
      (C.decrypt key (chunkNonce (noncePrefixOf header) (n + rs.length)) last
        (chunkAad header (n + rs.length) true)).isSome := by
  induction rs generalizing n with
  | nil => exact h
  | cons r rs ih =>
    have hshift : n + (r :: rs).length = n + 1 + rs.length := by
      rw [List.length_cons]
      omega
    rw [hshift]
    exact ih h.2.2

/-- A record that is decrypted under the key and the nonce of a chunk is that chunk's. -/
theorem record_eq (hideal : C.Ideal log) (honce : Aead.NonceOnce log) {n : ℕ} {c r : List UInt8}
    {isLast isLast' : Bool} (hmem : chunkMessage key header n c isLast ∈ log)
    (h : (C.decrypt key (chunkNonce (noncePrefixOf header) n) r (chunkAad header n isLast')).isSome) :
    r = C.cipherOf (chunkMessage key header n c isLast) := by
  obtain ⟨plain, hplain⟩ := Option.isSome_iff_exists.mp h
  obtain ⟨m, hm, hkey, hnonce, -, hr⟩ := hideal.of_decrypt hplain
  rw [hr, honce m hm _ hmem hkey hnonce]

/-- The records are those of a bundle with as many chunks. -/
theorem records_of_opens (hideal : C.Ideal log) (honce : Aead.NonceOnce log) {n : ℕ} {rs : List (List UInt8)}
    {chunks : List (List UInt8)} {tail last : List UInt8} (hlength : chunks.length = rs.length)
    (hmem : ∀ m ∈ bundleMessages key header n chunks tail, m ∈ log) (h : Opens C key header n rs last) :
    rs.flatten ++ last = recordsOf C (bundleMessages key header n chunks tail) := by
  induction rs generalizing n chunks with
  | nil =>
    obtain rfl := List.eq_nil_of_length_eq_zero hlength
    rw [bundleMessages, chunkMessages, List.nil_append, recordsOf_singleton]
    exact record_eq hideal honce (hmem _ List.mem_cons_self) h.2
  | cons r rs ih =>
    cases chunks with
    | nil => exact absurd hlength (by simp)
    | cons c chunks =>
      have hshift : n + (c :: chunks).length = n + 1 + chunks.length := by
        rw [List.length_cons]
        omega
      have hsplit : bundleMessages key header n (c :: chunks) tail =
          chunkMessage key header n c false :: bundleMessages key header (n + 1) chunks tail := by
        rw [bundleMessages, hshift]
        rfl
      rw [hsplit] at hmem ⊢
      have hfirst := record_eq hideal honce (hmem _ List.mem_cons_self) h.2.1
      have hrest := ih (Nat.succ.inj hlength) (fun m hm => hmem m (List.mem_cons_of_mem _ hm)) h.2.2
      rw [List.flatten_cons, List.append_assoc, hrest, recordsOf_cons, hfirst]

end Records

/-! ## The header and the associated data -/

theorem length_header (a : Attempt) : a.header.length = HEADER2_LEN := by
  have hmagic : MAGIC2.length = 7 := by decide
  unfold Attempt.header
  rw [List.length_append, List.length_append, List.length_append, List.length_append, hmagic,
    List.length_singleton, a.salt.2, length_pack, a.noncePrefix.2]
  rfl

theorem drop_header (a : Attempt) : a.header.drop (MAGIC2.length + 1) =
    a.salt.1 ++ (pack 4 a.chunkSize.1 ++ a.noncePrefix.1) := by
  unfold Attempt.header
  rw [← List.append_assoc, List.drop_left' (by rw [List.length_append, List.length_singleton])]

/-- The associated data holds the header, the number and whether the record is the last. -/
theorem chunkAad_inj {h h' : List UInt8} {m n : ℕ} {l l' : Bool} (hlength : h.length = h'.length)
    (hm : m < 2 ^ 32) (hn : n < 2 ^ 32) (heq : chunkAad h m l = chunkAad h' n l') :
    h = h' ∧ m = n ∧ l = l' := by
  unfold chunkAad at heq
  obtain ⟨hheader, hrest⟩ := List.append_inj heq hlength
  obtain ⟨hnumber, hlast⟩ := List.append_inj hrest (by rw [length_pack, length_pack])
  have hbound : (2 : ℕ) ^ 32 = 256 ^ 4 := by norm_num
  refine ⟨hheader, pack_inj (by omega) (by omega) hnumber, ?_⟩
  cases l <;> cases l' <;> simp_all

/-- What is left of the file after the header, and the salt and the chunk size in it. -/
theorem inner_eq {a : Attempt} {s : Source} {out rest : List UInt8} (passphrase : String)
    (hrest : s.rest = a.header ++ rest) :
    ∃ s', s'.rest = rest ∧ decryptStreamInner C s passphrase out =
      decryptLoop C (deriveKey C passphrase a.salt.1) a.header a.chunkSize s' [] 0 0 out := by
  obtain ⟨hread, hleft⟩ := readExact_spec s HEADER2_LEN
  rw [hrest, ← length_header a, List.take_left] at hread
  rw [hrest, ← length_header a, List.drop_left] at hleft
  refine ⟨(readExact s HEADER2_LEN).2, by rw [← length_header a]; exact hleft, ?_⟩
  have hmagic : MAGIC2 <+: a.header := List.prefix_append _ _
  have hversion : a.header[MAGIC2.length]? = some FORMAT_VERSION := by
    unfold Attempt.header
    rw [List.getElem?_append_right (le_refl _), Nat.sub_self]
    rfl
  have hsalt : (a.header.drop (MAGIC2.length + 1)).take SALT_LEN = a.salt.1 := by
    rw [drop_header, List.take_left' a.salt.2]
  have hsize : unpack ((a.header.drop (MAGIC2.length + 1 + SALT_LEN)).take 4) = a.chunkSize.1 := by
    have hmax : a.chunkSize.1 ≤ 64 * 1024 * 1024 := a.chunkSize.2.2
    rw [← List.drop_drop, drop_header, List.drop_left' a.salt.2, List.take_left' (length_pack _ _),
      unpack_pack_of_lt (by norm_num; omega)]
  unfold decryptStreamInner
  rw [← length_header a]
  dsimp only
  rw [hread, if_neg (by simp [hmagic]), if_neg (not_not.mpr hversion)]
  simp only [hsalt, hsize]
  exact dif_pos a.chunkSize.2

/-! ## What was written is read back -/

/-- Everything that is encrypted for a bundle is in the log. -/
theorem mem_log {attempts : List Attempt} {old : List OldBundle} {a : Attempt} {m : Message Key}
    (ha : a ∈ attempts) (hm : m ∈ a.messages C) : m ∈ log C attempts old :=
  List.mem_append_left _ (List.mem_flatMap.mpr ⟨a, ha, hm⟩)

/-- A bundle is read back as what was written. -/
theorem decryptStream_bundle {attempts : List Attempt} {old : List OldBundle} {a : Attempt}
    (hideal : C.Ideal (log C attempts old)) (ha : a ∈ attempts) (hcompletes : a.completes = true)
    (hcap : a.writes.flatten.length ≤ SIZE_CAP_BYTES) :
    ∃ bytes, a.bundle C = some bytes ∧ ∀ s : Source, s.rest = bytes → ∀ out,
      decryptStream C s a.passphrase out = (.ok a.writes.flatten.length, out ++ a.writes.flatten) := by
  obtain ⟨chunks, tail, hbound, hchunks, htail, hwhole, hmessages, hbundle⟩ :=
    bundle_written C hcompletes hcap
  refine ⟨_, hbundle, fun s hrest out => ?_⟩
  obtain ⟨s', hs', hinner⟩ := @inner_eq Key C a s out _ a.passphrase hrest
  have hmem : ∀ m ∈ bundleMessages (deriveKey C a.passphrase a.salt.1) a.header 0 chunks
      (tail ++ pack 8 a.writes.flatten.length), m ∈ log C attempts old := fun m hm =>
    mem_log ha (hmessages ▸ hm)
  have hsmall : a.writes.flatten.length < 256 ^ 8 := by
    have hcapLt : SIZE_CAP_BYTES < 256 ^ 8 := by decide
    omega
  have hrecords : [] ++ s'.rest = recordsOf C (bundleMessages (deriveKey C a.passphrase a.salt.1) a.header 0
      chunks (tail ++ pack 8 a.writes.flatten.length)) := by
    rw [List.nil_append, hs', hmessages]
  have htotal : a.writes.flatten.length = 0 + (chunks.flatten ++ tail).length := by
    rw [hwhole, Nat.zero_add]
  have hloop := @decryptLoop_records Key C _ a.header a.chunkSize s' [] out 0 0 _ chunks tail _ hideal hmem
    hrecords (Nat.zero_le _) hchunks htail (by omega) hsmall htotal
  unfold decryptStream
  rw [hinner, hloop, hwhole]

/-! ## What is not a bundle is refused -/

/-- The passphrase and the salt are in the key. -/
theorem passphrase_of_key (hscrypt : Function.Injective2 C.scrypt) {p p' : String} {salt salt' : List UInt8}
    (h : deriveKey C p salt = deriveKey C p' salt') : p = p' := by
  obtain ⟨hbytes, -⟩ := hscrypt h
  exact String.toByteArray_inj.mp hbytes

/-- The message of a last record is that of the last chunk of a bundle with its header. -/
theorem exists_bundle (hscrypt : Function.Injective2 C.scrypt) {attempts : List Attempt}
    {old : List OldBundle} {passphrase : String} {salt header : List UInt8} {n : ℕ}
    (hlength : header.length = HEADER2_LEN) (hn : n < 2 ^ 32) {m : Message Key}
    (hm : m ∈ log C attempts old) (hkey : m.key = deriveKey C passphrase salt)
    (haad : m.aad = chunkAad header n true) :
    ∃ a ∈ attempts, a.passphrase = passphrase ∧ a.header = header ∧
      deriveKey C a.passphrase a.salt.1 = deriveKey C passphrase salt ∧ ∃ chunks tail, chunks.length = n ∧
        a.messages C = bundleMessages (deriveKey C passphrase salt) header 0 chunks tail ∧
        a.bundle C = some (header ++ recordsOf C (a.messages C)) := by
  rcases List.mem_append.mp hm with hnew | hold
  · obtain ⟨a, ha, hma⟩ := List.mem_flatMap.mp hnew
    have hsame : a.header.length = header.length := by rw [length_header, hlength]
    -- A chunk before the last has other associated data.
    have hnot : ∀ chunks, chunks.length ≤ 2 ^ 32 →
        m ∉ chunkMessages (deriveKey C a.passphrase a.salt.1) a.header 0 chunks := by
      intro chunks hbound hmem
      obtain ⟨i, hi, c, rfl⟩ := mem_chunkMessages hmem
      obtain ⟨-, -, hlast⟩ := chunkAad_inj hsame (by omega) hn haad
      exact absurd hlast (by decide)
    rcases bundle_cases C a with ⟨chunks, tail, hbound, hmessages, hbundle⟩ | ⟨chunks, hbound, hmessages⟩
    · have hma' := hma
      rw [hmessages] at hma'
      rcases List.mem_append.mp hma' with hearlier | hlast
      · exact absurd hearlier (hnot chunks (by omega))
      · obtain rfl := List.mem_singleton.mp hlast
        rw [Nat.zero_add] at haad
        obtain ⟨hheader, hcount, -⟩ := chunkAad_inj hsame hbound hn haad
        have hsameKey : deriveKey C a.passphrase a.salt.1 = deriveKey C passphrase salt := hkey
        rw [hsameKey] at hmessages
        rw [← hheader]
        exact ⟨a, ha, passphrase_of_key hscrypt hsameKey, rfl, hsameKey, chunks, tail, hcount, hmessages,
          hbundle⟩
    · rw [hmessages] at hma
      exact absurd hma (hnot chunks hbound)
  · -- The older format has its magic bytes as associated data.
    obtain ⟨b, -, rfl⟩ := List.mem_map.mp hold
    have hbytes := congrArg List.length haad
    have hmagic : MAGIC.length = 7 := by decide
    rw [show (OldBundle.message C b).aad = MAGIC from rfl, hmagic] at hbytes
    unfold chunkAad at hbytes
    rw [List.length_append, hlength] at hbytes
    have hheader : HEADER2_LEN = 36 := rfl
    omega

/-- What is accepted is a bundle that was written under the passphrase. -/
theorem bundle_of_ok (hscrypt : Function.Injective2 C.scrypt) {attempts : List Attempt} {old : List OldBundle}
    (hideal : C.Ideal (log C attempts old)) (honce : Aead.NonceOnce (log C attempts old)) {s : Source}
    {passphrase : String} {out out' : List UInt8} {n : ℕ}
    (h : decryptStreamInner C s passphrase out = (.ok n, out')) :
    ∃ a ∈ attempts, a.passphrase = passphrase ∧ a.bundle C = some s.rest := by
  obtain ⟨hread, hleft⟩ := readExact_spec s HEADER2_LEN
  have hkept := readExact_append s HEADER2_LEN
  unfold decryptStreamInner at h
  dsimp only at h
  generalize hheader : (readExact s HEADER2_LEN).1 = header at h hread hkept
  generalize (readExact s HEADER2_LEN).2 = s' at h hleft hkept
  split_ifs at h with hmagic hversion hsize
  · exact absurd (Prod.mk.inj h).1 nofun
  · exact absurd (Prod.mk.inj h).1 nofun
  · have hlength : header.length = HEADER2_LEN := by
      have hshort := congrArg List.length hread
      rw [List.length_take] at hshort
      have hlong : ¬ header.length < HEADER2_LEN := fun hlt => hmagic (.inl hlt)
      omega
    obtain ⟨rs, last, hsplit, hopens⟩ := opens_of_ok (Nat.zero_le _) h
    obtain ⟨hbound, hlast⟩ := hopens.last
    rw [Nat.zero_add] at hbound hlast
    obtain ⟨plain, hplain⟩ := Option.isSome_iff_exists.mp hlast
    obtain ⟨m, hm, hkey, -, haad, -⟩ := hideal.of_decrypt hplain
    obtain ⟨a, ha, hpassphrase, -, -, chunks, tail, hcount, hmessages, hbundle⟩ :=
      exists_bundle hscrypt hlength hbound hm hkey haad
    have hrecords := records_of_opens hideal honce hcount
      (fun m' hm' => mem_log ha (hmessages ▸ hm')) hopens
    rw [List.nil_append] at hsplit
    refine ⟨a, ha, hpassphrase, ?_⟩
    rw [hbundle, hmessages, ← hrecords, ← hsplit, hkept]
  · exact absurd (Prod.mk.inj h).1 nofun

/-- With AES-GCM ideal for what was encrypted, no nonce used twice with a key, and the passphrase and the salt
in the key: whatever was written is read back, and whatever is no bundle under the passphrase is refused with
nothing left in the output. -/
theorem exact_and_tamperEvident (C : Crypto Key) (attempts : List Attempt) (old : List OldBundle)
    (hscrypt : Function.Injective2 C.scrypt) (hideal : C.Ideal (log C attempts old))
    (honce : Aead.NonceOnce (log C attempts old)) :
    (∀ a ∈ attempts, a.completes = true → a.writes.flatten.length ≤ SIZE_CAP_BYTES →
      ∃ bytes, a.bundle C = some bytes ∧ ∀ s : Source, s.rest = bytes → ∀ out,
        decryptStream C s a.passphrase out = (.ok a.writes.flatten.length, out ++ a.writes.flatten)) ∧
    ∀ (s : Source) (passphrase : String) (out : List UInt8),
      (∀ a ∈ attempts, a.passphrase = passphrase → a.bundle C ≠ some s.rest) →
        ∃ e : BadPassphrase, decryptStream C s passphrase out = (.error e, []) := by
  refine ⟨fun a ha hcompletes hcap => decryptStream_bundle hideal ha hcompletes hcap,
    fun s passphrase out hnone => ?_⟩
  unfold decryptStream
  cases hinner : decryptStreamInner C s passphrase out with
  | mk result out' =>
    cases result with
    | error e => exact ⟨e, rfl⟩
    | ok n =>
      obtain ⟨a, ha, hpassphrase, hbundle⟩ := bundle_of_ok hscrypt hideal honce hinner
      exact absurd hbundle (hnone a ha hpassphrase)

/-! ## A small bundle -/

/-- Two writes of three bytes, in one record. -/
def sampleAttempt : Attempt :=
  { passphrase := "correct horse battery"
    salt := ⟨List.replicate 16 7, by decide⟩
    chunkSize := ⟨4096, by decide⟩
    noncePrefix := ⟨List.replicate 8 9, by decide⟩
    writes := [[1, 2], [3]]
    completes := true }

/-- What is encrypted for it, the key being the passphrase and the salt. -/
def sampleMessage : Message (ByteArray × List UInt8) :=
  chunkMessage ("correct horse battery".toUTF8, List.replicate 16 7) sampleAttempt.header 0
    ([1, 2, 3] ++ pack 8 3) true

/-- A cipher that leaves the plaintext as it is, and knows what it encrypted. -/
def sampleCrypto : Crypto (ByteArray × List UInt8) :=
  { toAead := Aead.table
      { encrypt := fun _ _ plain _ => plain ++ List.replicate 16 0
        decrypt := fun _ _ _ _ => none
        tagLen := 16
        length_encrypt := fun _ _ _ _ => List.length_append.trans (by rw [List.length_replicate]) }
      [sampleMessage]
    scrypt := Prod.mk
    tagLen_eq := rfl }

theorem log_sample : log sampleCrypto [sampleAttempt] [] = [sampleMessage] := by
  have hcap : sampleAttempt.writes.flatten.length ≤ SIZE_CAP_BYTES := by decide
  obtain ⟨chunks, tail, -, hchunks, -, hwhole, hmessages, -⟩ := bundle_written sampleCrypto rfl hcap
  have hthree : chunks.flatten ++ tail = [1, 2, 3] := hwhole
  have hnil : chunks = [] := by
    cases chunks with
    | nil => rfl
    | cons c chunks =>
      have hlength := congrArg List.length hthree
      have hc : c.length = 4096 := hchunks c List.mem_cons_self
      rw [List.length_append, List.flatten_cons, List.length_append, hc, List.length_cons] at hlength
      simp only [List.length_cons, List.length_nil] at hlength
      omega
  rw [hnil, List.flatten_nil, List.nil_append] at hthree
  rw [hnil, hthree] at hmessages
  unfold log
  rw [List.flatMap_singleton, hmessages]
  rfl

/-- The bundle is read back, and refused under another passphrase. -/
theorem exact_and_tamperEvident_sample :
    ∃ bytes, sampleAttempt.bundle sampleCrypto = some bytes ∧
      decryptStream sampleCrypto ⟨bytes, []⟩ "correct horse battery" [] = (.ok 3, [1, 2, 3]) ∧
      ∃ e : BadPassphrase, decryptStream sampleCrypto ⟨bytes, []⟩ "wrong horse battery" [] = (.error e, []) := by
  have honce : Aead.NonceOnce [sampleMessage] := by
    intro m hm n hn _ _
    rw [List.mem_singleton.mp hm, List.mem_singleton.mp hn]
  have hinjective : Function.Injective2 sampleCrypto.scrypt := fun _ _ _ _ h => Prod.mk.inj h
  have hideal : sampleCrypto.Ideal (log sampleCrypto [sampleAttempt] []) := by
    rw [log_sample]
    exact Aead.ideal_table _ honce
  have honce' : Aead.NonceOnce (log sampleCrypto [sampleAttempt] []) := by rwa [log_sample]
  obtain ⟨hexact, htamper⟩ :=
    exact_and_tamperEvident sampleCrypto [sampleAttempt] [] hinjective hideal honce'
  obtain ⟨bytes, hbundle, hread⟩ := hexact sampleAttempt List.mem_cons_self rfl (by decide)
  refine ⟨bytes, hbundle, hread ⟨bytes, []⟩ rfl [], htamper _ _ _ fun a ha hpassphrase => ?_⟩
  rw [List.mem_singleton.mp ha] at hpassphrase
  exact absurd hpassphrase (by decide)

end JenKea.Recovery
