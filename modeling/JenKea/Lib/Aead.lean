import Mathlib.Data.List.Basic

/-!
# Authenticated encryption, taken as ideal

A cipher that authenticates what it decrypts, with associated data. It is ideal for the messages of a log
when it decrypts what was encrypted and nothing else, and that can be had for any log in which a key and a
nonce are used once (`ideal_table`).
-/

namespace JenKea

/-- A message that was encrypted: under which key and nonce, and with which associated data. -/
structure Message (Key : Type*) where
  key : Key
  nonce : List UInt8
  aad : List UInt8
  plain : List UInt8
  deriving DecidableEq

/-- A cipher with associated data. -/
structure Aead (Key : Type*) where
  encrypt : Key → List UInt8 → List UInt8 → List UInt8 → List UInt8
  decrypt : Key → List UInt8 → List UInt8 → List UInt8 → Option (List UInt8)
  tagLen : ℕ
  length_encrypt : ∀ key nonce plain aad, (encrypt key nonce plain aad).length = plain.length + tagLen

namespace Aead

variable {Key : Type*}

/-- What a message is encrypted to. -/
def cipherOf (A : Aead Key) (m : Message Key) : List UInt8 := A.encrypt m.key m.nonce m.plain m.aad

/-- What was encrypted is decrypted, and nothing else. -/
def Ideal (A : Aead Key) (log : List (Message Key)) : Prop :=
  ∀ key nonce cipher aad plain, A.decrypt key nonce cipher aad = some plain ↔
    ⟨key, nonce, aad, plain⟩ ∈ log ∧ cipher = A.cipherOf ⟨key, nonce, aad, plain⟩

/-- No nonce is used twice with a key. -/
def NonceOnce (log : List (Message Key)) : Prop :=
  ∀ m ∈ log, ∀ n ∈ log, m.key = n.key → m.nonce = n.nonce → m = n

variable {A : Aead Key} {log : List (Message Key)}

theorem length_cipherOf (m : Message Key) : (A.cipherOf m).length = m.plain.length + A.tagLen :=
  A.length_encrypt _ _ _ _

theorem Ideal.decrypt_cipherOf (h : A.Ideal log) {m : Message Key} (hm : m ∈ log) :
    A.decrypt m.key m.nonce (A.cipherOf m) m.aad = some m.plain :=
  (h _ _ _ _ _).mpr ⟨hm, rfl⟩

theorem Ideal.of_decrypt (h : A.Ideal log) {key : Key} {nonce cipher aad plain : List UInt8}
    (hdecrypt : A.decrypt key nonce cipher aad = some plain) :
    ∃ m ∈ log, m.key = key ∧ m.nonce = nonce ∧ m.aad = aad ∧ cipher = A.cipherOf m := by
  obtain ⟨hmem, hcipher⟩ := (h _ _ _ _ _).mp hdecrypt
  exact ⟨_, hmem, rfl, rfl, rfl, hcipher⟩

/-- The cipher that finds a message in the log. -/
def table [DecidableEq Key] (A : Aead Key) (log : List (Message Key)) : Aead Key :=
  { A with
    decrypt := fun key nonce cipher aad =>
      (log.find? fun m => m.key = key ∧ m.nonce = nonce).bind fun m =>
        if m.aad = aad ∧ cipher = A.cipherOf m then some m.plain else none }

/-- The cipher that finds a message in the log is ideal for it. -/
theorem ideal_table [DecidableEq Key] (A : Aead Key) (honce : NonceOnce log) : (A.table log).Ideal log := by
  intro key nonce cipher aad plain
  change (log.find? fun m => m.key = key ∧ m.nonce = nonce).bind _ = some plain ↔ _
  constructor
  · intro h
    obtain ⟨m, hfind, hm⟩ := Option.bind_eq_some_iff.mp h
    have hmem := List.mem_of_find?_eq_some hfind
    have hfound := List.find?_some hfind
    rw [decide_eq_true_eq] at hfound
    obtain ⟨rfl, rfl⟩ := hfound
    split_ifs at hm with hboth
    obtain ⟨rfl, rfl⟩ := hboth
    obtain rfl := Option.some.inj hm
    exact ⟨hmem, rfl⟩
  · intro ⟨hmem, hcipher⟩
    refine Option.bind_eq_some_iff.mpr ⟨⟨key, nonce, aad, plain⟩, ?_, if_pos ⟨rfl, hcipher⟩⟩
    cases hfind : log.find? fun m => m.key = key ∧ m.nonce = nonce with
    | none => exact absurd (decide_eq_true ⟨rfl, rfl⟩) (List.find?_eq_none.mp hfind _ hmem)
    | some m =>
      have hfound := List.find?_some hfind
      rw [decide_eq_true_eq] at hfound
      rw [honce m (List.mem_of_find?_eq_some hfind) _ hmem hfound.1 hfound.2]

end Aead

end JenKea
