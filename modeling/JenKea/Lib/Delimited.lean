import Mathlib.Data.List.Basic

/-!
# Records that end where they say

A codec writes a record as a list of symbols, and reads the first record of a list, which says itself where it
ends. So a list of records can be written one after the other: `readAll` reads the records of a list as far as
there are such, which are the longest list of records that the list starts with.
-/

namespace JenKea

/-- A way to write records of `α` in symbols of `β`. -/
structure Delimited (α β : Type) where
  write : α → List β
  /-- The first record of a list, and what follows it. -/
  read : List β → Option (α × List β)
  read_write : ∀ a rest, read (write a ++ rest) = some (a, rest)
  write_of_read : ∀ {symbols a rest}, read symbols = some (a, rest) → symbols = write a ++ rest
  write_ne_nil : ∀ a, write a ≠ []

namespace Delimited

variable {α β : Type} (codec : Delimited α β)

/-- Records, one after the other. -/
def writeAll (records : List α) : List β := records.flatMap codec.write

/-- What follows a record is shorter. -/
theorem length_lt {symbols rest : List β} {a : α} (h : codec.read symbols = some (a, rest)) :
    rest.length < symbols.length := by
  have hpos := List.length_pos_iff.mpr (codec.write_ne_nil a)
  rw [codec.write_of_read h, List.length_append]
  omega

/-- The records that a list starts with, and what is left, which starts with none. -/
def readAll (symbols : List β) : List α × List β :=
  match h : codec.read symbols with
  | none => ([], symbols)
  | some (a, rest) =>
    have := codec.length_lt h
    let (records, left) := readAll rest
    (a :: records, left)
  termination_by symbols.length

variable {codec} {symbols rest : List β} {a : α} {records : List α}

theorem readAll_of_none (h : codec.read symbols = none) : codec.readAll symbols = ([], symbols) := by
  rw [readAll]
  split
  · rfl
  · next heq => exact absurd (h.symm.trans heq) (by simp)

theorem readAll_of_some (h : codec.read symbols = some (a, rest)) :
    codec.readAll symbols = (a :: (codec.readAll rest).1, (codec.readAll rest).2) := by
  rw [readAll]
  split
  · next heq => exact absurd (h.symm.trans heq) (by simp)
  · next heq =>
    rw [h, Option.some.injEq, Prod.mk.injEq] at heq
    obtain ⟨rfl, rfl⟩ := heq
    rfl

/-- The list is the records that are read and what is left, and no record is left. -/
theorem readAll_spec (symbols : List β) :
    symbols = codec.writeAll (codec.readAll symbols).1 ++ (codec.readAll symbols).2 ∧
      codec.read (codec.readAll symbols).2 = none := by
  cases h : codec.read symbols with
  | none =>
    rw [readAll_of_none h]
    exact ⟨rfl, h⟩
  | some found =>
    obtain ⟨a, rest⟩ := found
    have hlt := codec.length_lt h
    obtain ⟨hrest, hnone⟩ := readAll_spec rest
    rw [readAll_of_some h]
    refine ⟨?_, hnone⟩
    calc symbols = codec.write a ++ rest := codec.write_of_read h
      _ = codec.write a ++ (codec.writeAll (codec.readAll rest).1 ++ (codec.readAll rest).2) :=
        congrArg (codec.write a ++ ·) hrest
      _ = codec.writeAll (a :: (codec.readAll rest).1) ++ (codec.readAll rest).2 := by
        rw [writeAll, writeAll, List.flatMap_cons, List.append_assoc]
  termination_by symbols.length

/-- The records that a list starts with are read first. -/
theorem readAll_append (records : List α) (rest : List β) :
    codec.readAll (codec.writeAll records ++ rest) =
      (records ++ (codec.readAll rest).1, (codec.readAll rest).2) := by
  induction records with
  | nil => rfl
  | cons a records ih =>
    have hread : codec.read (codec.writeAll (a :: records) ++ rest) =
        some (a, codec.writeAll records ++ rest) := by
      rw [writeAll, List.flatMap_cons, List.append_assoc]
      exact codec.read_write a _
    rw [readAll_of_some hread, ih]
    rfl

/-- Records that are written are read back. -/
theorem readAll_writeAll (hnil : codec.read [] = none) (records : List α) :
    codec.readAll (codec.writeAll records) = (records, []) := by
  have h : codec.readAll (codec.writeAll records ++ []) =
      (records ++ (codec.readAll []).1, (codec.readAll []).2) := readAll_append records []
  rw [List.append_nil, readAll_of_none hnil, List.append_nil] at h
  exact h

/-- No longer list of records starts the list. -/
theorem prefix_readAll (h : codec.writeAll records <+: symbols) :
    records <+: (codec.readAll symbols).1 := by
  obtain ⟨rest, rfl⟩ := h
  rw [readAll_append]
  exact List.prefix_append ..

end Delimited

end JenKea
