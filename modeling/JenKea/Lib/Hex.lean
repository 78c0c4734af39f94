import Mathlib.Data.List.Basic
import JenKea.Lib.Text

/-!
# Hexadecimal digits

The digits of a number to the base sixteen in either case, and the bytes that pairs of them write, as
`bytes.fromhex` reads them.
-/

namespace JenKea.Text

/-- A digit of a hexadecimal number. -/
def isHexDigit (c : Char) : Bool :=
  c.isDigit || (97 ≤ c.toNat && c.toNat ≤ 102) || (65 ≤ c.toNat && c.toNat ≤ 70)

/-- The value of a digit of a hexadecimal number. -/
def hexValue (c : Char) : ℕ :=
  if c.toNat ≤ 57 then c.toNat - 48 else if c.toNat ≤ 70 then c.toNat - 55 else c.toNat - 87

/-- `bytes.fromhex(digits)`, which refuses what is no pair of digits. -/
def fromHex : List Char → Option (List UInt8)
  | [] => some []
  | [_] => none
  | a :: b :: cs =>
    if isHexDigit a && isHexDigit b then
      (fromHex cs).map fun bytes => UInt8.ofNat (16 * hexValue a + hexValue b) :: bytes
    else none

/-! ## Digits and bytes -/

theorem isHexDigit_mem {c : Char} (h : isHexDigit c = true) :
    c ∈ "0123456789abcdefABCDEF".toList := by
  have hcode : (48 ≤ c.toNat ∧ c.toNat ≤ 57) ∨ (97 ≤ c.toNat ∧ c.toNat ≤ 102) ∨
      (65 ≤ c.toNat ∧ c.toNat ≤ 70) := by
    unfold isHexDigit at h
    simp only [Bool.or_eq_true, Bool.and_eq_true, decide_eq_true_eq] at h
    have hzero : '0'.toNat = 48 := rfl
    have hnine : '9'.toNat = 57 := rfl
    rcases h with (h | h) | h
    · obtain ⟨hlow, hhigh⟩ := Char.isDigit_iff_toNat.mp h
      omega
    · omega
    · omega
  have hofNat : c = Char.ofNat c.toNat := (Char.ofNat_toNat c).symm
  rw [hofNat]
  generalize c.toNat = n at hcode
  have hall : ∀ n < 103, (48 ≤ n ∧ n ≤ 57) ∨ (97 ≤ n ∧ n ≤ 102) ∨ (65 ≤ n ∧ n ≤ 70) →
      Char.ofNat n ∈ "0123456789abcdefABCDEF".toList := by decide
  exact hall n (by omega) hcode

/-- A digit counts the same in lower case. -/
theorem hexValue_toLower {c : Char} (h : isHexDigit c = true) :
    isHexDigit c.toLower = true ∧ hexValue c.toLower = hexValue c := by
  have hall : ("0123456789abcdefABCDEF".toList.all fun c =>
      isHexDigit c.toLower && hexValue c.toLower == hexValue c) = true := by decide
  have hc := List.all_eq_true.mp hall c (isHexDigit_mem h)
  rwa [Bool.and_eq_true, beq_iff_eq] at hc

theorem fromHex_toLower : ∀ {cs : List Char}, (∀ c ∈ cs, isHexDigit c = true) →
    fromHex (cs.map Char.toLower) = fromHex cs
  | [], _ => rfl
  | [_], _ => rfl
  | a :: b :: cs, h => by
    have hcs := fromHex_toLower fun c hc => h c (List.mem_cons_of_mem a (List.mem_cons_of_mem b hc))
    have ha := h a List.mem_cons_self
    have hb := h b (List.mem_cons_of_mem a List.mem_cons_self)
    obtain ⟨hdigit, hvalue⟩ := hexValue_toLower ha
    obtain ⟨hdigit', hvalue'⟩ := hexValue_toLower hb
    rw [List.map_cons, List.map_cons, fromHex, fromHex, hcs, ha, hb, hdigit, hdigit', hvalue, hvalue']

/-- Pairs of digits are bytes. -/
theorem exists_fromHex : ∀ {cs : List Char}, (∀ c ∈ cs, isHexDigit c = true) → cs.length % 2 = 0 →
    ∃ bytes, fromHex cs = some bytes ∧ cs.length = 2 * bytes.length
  | [], _, _ => ⟨[], rfl, rfl⟩
  | [_], _, heven => absurd heven (by simp)
  | a :: b :: cs, h, heven => by
    rw [List.length_cons, List.length_cons] at heven
    obtain ⟨bytes, hbytes, hlength⟩ := exists_fromHex
      (fun c hc => h c (List.mem_cons_of_mem a (List.mem_cons_of_mem b hc))) (by omega)
    have ha := h a List.mem_cons_self
    have hb := h b (List.mem_cons_of_mem a List.mem_cons_self)
    refine ⟨UInt8.ofNat (16 * hexValue a + hexValue b) :: bytes, ?_, ?_⟩
    · rw [fromHex, ha, hb, hbytes]
      rfl
    · rw [List.length_cons, List.length_cons, List.length_cons, hlength]
      omega

/-- The digits of bytes come in pairs. -/
theorem length_of_fromHex : ∀ {cs : List Char} {bytes : List UInt8}, fromHex cs = some bytes →
    cs.length = 2 * bytes.length
  | [], bytes, h => by
    obtain rfl := Option.some.inj h
    rfl
  | [_], _, h => by cases h
  | a :: b :: cs, bytes, h => by
    rw [fromHex] at h
    split_ifs at h with hdigits
    obtain ⟨rest, hrest, rfl⟩ := Option.map_eq_some_iff.mp h
    have hlength := length_of_fromHex hrest
    simp only [List.length_cons]
    omega

/-- The digits of bytes. -/
theorem fromHex_hex (bytes : List UInt8) :
    (∀ c ∈ (Text.hex bytes).toList, isHexDigit c = true) ∧
      fromHex (Text.hex bytes).toList = some bytes := by
  have hdigits : ∀ b : UInt8, ∃ x y, (Text.hexByte b).toList = [x, y] ∧ isHexDigit x = true ∧
      isHexDigit y = true ∧ UInt8.ofNat (16 * hexValue x + hexValue y) = b := by
    intro b
    have hdigit : ∀ n < 16, isHexDigit (Nat.digitChar n) = true ∧ hexValue (Nat.digitChar n) = n := by
      decide
    have hlt : b.toNat < 256 := b.toNat_lt
    obtain ⟨hx, hxvalue⟩ := hdigit (b.toNat / 16) (by omega)
    obtain ⟨hy, hyvalue⟩ := hdigit (b.toNat % 16) (by omega)
    refine ⟨_, _, String.toList_ofList, hx, hy, ?_⟩
    rw [hxvalue, hyvalue, Nat.div_add_mod]
    exact UInt8.ofNat_toNat
  have hchars : (Text.hex bytes).toList = bytes.flatMap fun b => (Text.hexByte b).toList := by
    rw [Text.hex, String.toList_join, List.flatMap_map]
  rw [hchars]
  induction bytes with
  | nil => exact ⟨nofun, rfl⟩
  | cons b bytes ih =>
    obtain ⟨x, y, hxy, hx, hy, hb⟩ := hdigits b
    have hchars' : (Text.hex bytes).toList = bytes.flatMap fun b => (Text.hexByte b).toList := by
      rw [Text.hex, String.toList_join, List.flatMap_map]
    obtain ⟨hall, hfrom⟩ := ih hchars'
    rw [List.flatMap_cons, hxy]
    refine ⟨fun c hc => ?_, ?_⟩
    · rcases List.mem_append.mp hc with hc | hc
      · rcases List.mem_cons.mp hc with rfl | hc
        · exact hx
        · rw [List.mem_singleton.mp hc]
          exact hy
      · exact hall c hc
    · rw [List.cons_append, List.cons_append, List.nil_append, fromHex, hx, hy, hfrom, hb]
      rfl

end JenKea.Text
