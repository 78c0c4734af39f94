import Mathlib.Data.Nat.Digits.Defs

/-!
# IPv4 addresses, as Python's `ipaddress` reads and writes them

The number of a dotted quad (`int(ipaddress.IPv4Address(text))`, with `none` for the exception) and
the dotted quad of a number (`str(ipaddress.IPv4Address(n))`). What is written is read back.
-/

namespace JenKea.Ipv4

/-- The value of decimal digits. -/
def decimal (cs : List Char) : ℕ := cs.foldl (fun n c => 10 * n + (c.toNat - 48)) 0

/-- An octet: one to three digits without a leading zero, at most 255. -/
def octet (cs : List Char) : Option ℕ :=
  if cs ≠ [] ∧ cs.all Char.isDigit ∧ cs.length ≤ 3 ∧ (cs = ['0'] ∨ cs.head? ≠ some '0') ∧
    decimal cs ≤ 255 then some (decimal cs) else none

/-- The number of a dotted quad. -/
def parse (text : String) : Option ℤ :=
  match text.toList.splitOn '.' with
  | [a, b, c, d] => do
    let a ← octet a
    let b ← octet b
    let c ← octet c
    let d ← octet d
    return a * 2 ^ 24 + b * 2 ^ 16 + c * 2 ^ 8 + d
  | _ => none

/-- The dotted quad of a number, which has 32 bits at most. -/
def toText (n : ℤ) : Option String :=
  if 0 ≤ n ∧ n < 2 ^ 32 then
    let octets := [n.toNat / 2 ^ 24, n.toNat / 2 ^ 16 % 256, n.toNat / 2 ^ 8 % 256, n.toNat % 256]
    some (String.ofList (['.'].intercalate (octets.map (Nat.toDigits 10))))
  else none

/-- An octet that is written is read back. -/
theorem octet_toDigits {n : ℕ} (h : n < 256) : octet (Nat.toDigits 10 n) = some n := by
  have hall : ∀ n : Fin 256, octet (Nat.toDigits 10 n.1) = some n.1 := by decide +kernel
  exact hall ⟨n, h⟩

theorem dot_notMem_toDigits (n : ℕ) : '.' ∉ Nat.toDigits 10 n := by
  intro h
  have := Nat.isDigit_of_mem_toDigits (by norm_num) (by norm_num) h
  simp at this

/-- A number that is written is read back. -/
theorem parse_toText {n : ℤ} {text : String} (h : toText n = some text) : parse text = some n := by
  unfold toText at h
  split_ifs at h with hn
  have hsplit : (['.'].intercalate ([n.toNat / 2 ^ 24, n.toNat / 2 ^ 16 % 256,
      n.toNat / 2 ^ 8 % 256, n.toNat % 256].map (Nat.toDigits 10))).splitOn '.' =
      [n.toNat / 2 ^ 24, n.toNat / 2 ^ 16 % 256, n.toNat / 2 ^ 8 % 256, n.toNat % 256].map
        (Nat.toDigits 10) := by
    refine List.splitOn_intercalate '.' (fun l hl => ?_) (by simp)
    obtain ⟨m, -, rfl⟩ := List.mem_map.mp hl
    exact dot_notMem_toDigits m
  rw [← Option.some.inj h, parse, String.toList_ofList, hsplit]
  have hlt : n.toNat / 2 ^ 24 < 256 := by omega
  simp only [List.map_cons, List.map_nil, octet_toDigits hlt,
    octet_toDigits (Nat.mod_lt _ (by norm_num : 256 > 0)), Option.bind_eq_bind, Option.bind_some,
    Option.pure_def, Option.some.injEq]
  omega

/-- A number that is read has 32 bits at most. -/
theorem parse_bounds {text : String} {n : ℤ} (h : parse text = some n) : 0 ≤ n ∧ n < 2 ^ 32 := by
  have hoctet : ∀ cs m, octet cs = some m → m ≤ 255 := by
    intro cs m hm
    unfold octet at hm
    split_ifs at hm with hcs
    rw [← Option.some.inj hm]
    exact hcs.2.2.2.2
  unfold parse at h
  split at h
  · simp only [Option.bind_eq_bind, Option.bind_eq_some_iff, Option.pure_def,
      Option.some.injEq] at h
    obtain ⟨a, ha, b, hb, c, hc, d, hd, rfl⟩ := h
    have ha := hoctet _ _ ha
    have hb := hoctet _ _ hb
    have hc := hoctet _ _ hc
    have hd := hoctet _ _ hd
    constructor <;> omega
  · cases h

/-- What is written has digits and dots. -/
theorem isDigit_of_mem_toText {n : ℤ} {text : String} (h : toText n = some text) {c : Char}
    (hc : c ∈ text.toList) : c.isDigit ∨ c = '.' := by
  have hdigit : ∀ m, c ∈ Nat.toDigits 10 m → c.isDigit ∨ c = '.' :=
    fun m hm => .inl (Nat.isDigit_of_mem_toDigits (by norm_num) (by norm_num) hm)
  unfold toText at h
  split_ifs at h with hn
  rw [← Option.some.inj h, String.toList_ofList] at hc
  simp only [List.map_cons, List.map_nil, List.intercalate, List.intersperse, List.flatten_cons,
    List.flatten_nil, List.append_nil, List.mem_append, List.mem_singleton] at hc
  rcases hc with hc | hc | hc | hc | hc | hc | hc
  · exact hdigit _ hc
  · exact .inr hc
  · exact hdigit _ hc
  · exact .inr hc
  · exact hdigit _ hc
  · exact .inr hc
  · exact hdigit _ hc

/-- A number of 32 bits is written. -/
theorem exists_toText {n : ℤ} (h : 0 ≤ n ∧ n < 2 ^ 32) : ∃ text, toText n = some text :=
  ⟨_, if_pos h⟩

/-- What is read has digits and dots, and is not empty. -/
theorem chars_of_parse {text : String} (h : (parse text).isSome) :
    text.toList ≠ [] ∧ ∀ c ∈ text.toList, c.isDigit = true ∨ c = '.' := by
  have hoctet : ∀ cs m, octet cs = some m → ∀ c ∈ cs, c.isDigit = true := by
    intro cs m hm
    unfold octet at hm
    split_ifs at hm with hcs
    exact List.all_eq_true.mp hcs.2.1
  obtain ⟨n, hn⟩ := Option.isSome_iff_exists.mp h
  unfold parse at hn
  split at hn
  · next x y z u hsplit =>
    simp only [Option.bind_eq_bind, Option.bind_eq_some_iff, Option.pure_def,
      Option.some.injEq] at hn
    obtain ⟨a, ha, b, hb, c, hc, d, hd, -⟩ := hn
    have htext : text.toList = ['.'].intercalate [x, y, z, u] := by
      rw [← hsplit, List.intercalate_splitOn]
    rw [htext]
    refine ⟨by simp [List.intercalate], fun c' hmem => ?_⟩
    simp only [List.intercalate, List.intersperse, List.flatten_cons, List.flatten_nil,
      List.append_nil, List.mem_append, List.mem_singleton] at hmem
    rcases hmem with hmem | hmem | hmem | hmem | hmem | hmem | hmem
    · exact .inl (hoctet x a ha c' hmem)
    · exact .inr hmem
    · exact .inl (hoctet y b hb c' hmem)
    · exact .inr hmem
    · exact .inl (hoctet z c hc c' hmem)
    · exact .inr hmem
    · exact .inl (hoctet u d hd c' hmem)
  · cases hn

/-- The digits of an octet. -/
theorem toNat_of_isDigit {c : Char} (h : c.isDigit = true) : 48 ≤ c.toNat ∧ c.toNat ≤ 57 := by
  simp only [Char.isDigit, Bool.and_eq_true, decide_eq_true_eq, ge_iff_le, UInt32.le_iff_toNat_le] at h
  exact ⟨h.1, h.2⟩

/-- An octet is read from one text. -/
theorem octet_inj {cs ds : List Char} {n : ℕ} (h : octet cs = some n) (h' : octet ds = some n) : cs = ds := by
  -- an octet is one, two or three digits, the first of which is no zero where there are more
  have hshape : ∀ {cs : List Char}, octet cs = some n →
      (∃ a, cs = [a] ∧ 48 ≤ a.toNat ∧ a.toNat ≤ 57 ∧ a.toNat - 48 = n) ∨
      (∃ a b, cs = [a, b] ∧ 49 ≤ a.toNat ∧ a.toNat ≤ 57 ∧ 48 ≤ b.toNat ∧ b.toNat ≤ 57 ∧
        10 * (a.toNat - 48) + (b.toNat - 48) = n) ∨
      (∃ a b c, cs = [a, b, c] ∧ 49 ≤ a.toNat ∧ a.toNat ≤ 57 ∧ 48 ≤ b.toNat ∧ b.toNat ≤ 57 ∧
        48 ≤ c.toNat ∧ c.toNat ≤ 57 ∧ 10 * (10 * (a.toNat - 48) + (b.toNat - 48)) + (c.toNat - 48) = n) := by
    intro cs hcs
    unfold octet at hcs
    split_ifs at hcs with hread
    obtain ⟨hne, hdigits, hlen, hzero, -⟩ := hread
    have hvalue := Option.some.inj hcs
    have hlead : ∀ a : Char, a ≠ '0' → a.toNat ≠ 48 := fun a ha heq => ha (Char.toNat_inj.mp heq)
    match cs with
    | [] => exact absurd rfl hne
    | [a] =>
      have ha := toNat_of_isDigit (List.all_eq_true.mp hdigits a (by simp))
      refine .inl ⟨a, rfl, ha.1, ha.2, ?_⟩
      simpa [decimal] using hvalue
    | [a, b] =>
      have ha := toNat_of_isDigit (List.all_eq_true.mp hdigits a (by simp))
      have hb := toNat_of_isDigit (List.all_eq_true.mp hdigits b (by simp))
      have ha0 := hlead a (by simpa using hzero)
      refine .inr (.inl ⟨a, b, rfl, by omega, ha.2, hb.1, hb.2, ?_⟩)
      simpa [decimal] using hvalue
    | [a, b, c] =>
      have ha := toNat_of_isDigit (List.all_eq_true.mp hdigits a (by simp))
      have hb := toNat_of_isDigit (List.all_eq_true.mp hdigits b (by simp))
      have hc := toNat_of_isDigit (List.all_eq_true.mp hdigits c (by simp))
      have ha0 := hlead a (by simpa using hzero)
      refine .inr (.inr ⟨a, b, c, rfl, by omega, ha.2, hb.1, hb.2, hc.1, hc.2, ?_⟩)
      simpa [decimal] using hvalue
    | _ :: _ :: _ :: _ :: _ =>
      simp only [List.length_cons] at hlen
      omega
  have hchar : ∀ a b : Char, a.toNat = b.toNat → a = b := fun a b => Char.toNat_inj.mp
  rcases hshape h with ⟨a, rfl, ha⟩ | ⟨a, b, rfl, ha⟩ | ⟨a, b, c, rfl, ha⟩ <;>
    rcases hshape h' with ⟨a', rfl, ha'⟩ | ⟨a', b', rfl, ha'⟩ | ⟨a', b', c', rfl, ha'⟩
  · rw [hchar a a' (by omega)]
  · omega
  · omega
  · omega
  · rw [hchar a a' (by omega), hchar b b' (by omega)]
  · omega
  · omega
  · omega
  · rw [hchar a a' (by omega), hchar b b' (by omega), hchar c c' (by omega)]

/-- An address is read from one text. -/
theorem parse_inj {a b : String} {n : ℤ} (h : parse a = some n) (h' : parse b = some n) : a = b := by
  have hoctets : ∀ {text : String}, parse text = some n → ∃ w x y z : List Char,
      text.toList.splitOn '.' = [w, x, y, z] ∧ ∃ p q r s : ℕ, octet w = some p ∧ octet x = some q ∧
        octet y = some r ∧ octet z = some s ∧ (p : ℤ) * 2 ^ 24 + q * 2 ^ 16 + r * 2 ^ 8 + s = n ∧
          q ≤ 255 ∧ r ≤ 255 ∧ s ≤ 255 := by
    intro text htext
    have hbound : ∀ cs m, octet cs = some m → m ≤ 255 := by
      intro cs m hm
      unfold octet at hm
      split_ifs at hm with hcs
      rw [← Option.some.inj hm]
      exact hcs.2.2.2.2
    unfold parse at htext
    split at htext
    · next w x y z hsplit =>
      simp only [Option.bind_eq_bind, Option.bind_eq_some_iff, Option.pure_def, Option.some.injEq] at htext
      obtain ⟨p, hp, q, hq, r, hr, s, hs, hsum⟩ := htext
      exact ⟨w, x, y, z, hsplit, p, q, r, s, hp, hq, hr, hs, hsum, hbound _ _ hq, hbound _ _ hr, hbound _ _ hs⟩
    · cases htext
  obtain ⟨w, x, y, z, hsplit, p, q, r, s, hp, hq, hr, hs, hsum, hq255, hr255, hs255⟩ := hoctets h
  obtain ⟨w', x', y', z', hsplit', p', q', r', s', hp', hq', hr', hs', hsum', hq255', hr255', hs255'⟩ := hoctets h'
  obtain rfl : p = p' := by omega
  obtain rfl : q = q' := by omega
  obtain rfl : r = r' := by omega
  obtain rfl : s = s' := by omega
  have hlists : a.toList.splitOn '.' = b.toList.splitOn '.' := by
    rw [hsplit, hsplit', octet_inj hp hp', octet_inj hq hq', octet_inj hr hr', octet_inj hs hs']
  have htoList : a.toList = b.toList :=
    calc a.toList = ['.'].intercalate (a.toList.splitOn '.') := (List.intercalate_splitOn '.').symm
      _ = ['.'].intercalate (b.toList.splitOn '.') := by rw [hlists]
      _ = b.toList := List.intercalate_splitOn '.'
  exact String.toList_inj.mp htoList

end JenKea.Ipv4
