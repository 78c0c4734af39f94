import Mathlib.Algebra.Order.Ring.Nat
import Mathlib.Data.List.Induction
import JenKea.Lib.Items

/-!
# Numbers, as Python reads them

`int` of a text: the decimal digits of every script, single underscores between them, a sign before them, and
blanks around them.
-/

namespace JenKea.Text

/-- The zero of every kind of decimal digits. -/
def zeros : List ℕ :=
  [0x30, 0x660, 0x6f0, 0x7c0, 0x966, 0x9e6, 0xa66, 0xae6, 0xb66, 0xbe6, 0xc66, 0xce6, 0xd66, 0xde6, 0xe50,
    0xed0, 0xf20, 0x1040, 0x1090, 0x17e0, 0x1810, 0x1946, 0x19d0, 0x1a80, 0x1a90, 0x1b50, 0x1bb0, 0x1c40,
    0x1c50, 0xa620, 0xa8d0, 0xa900, 0xa9d0, 0xa9f0, 0xaa50, 0xabf0, 0xff10, 0x104a0, 0x10d30, 0x11066,
    0x110f0, 0x11136, 0x111d0, 0x112f0, 0x11450, 0x114d0, 0x11650, 0x116c0, 0x11730, 0x118e0, 0x11950,
    0x11c50, 0x11d50, 0x11da0, 0x16a60, 0x16ac0, 0x16b50, 0x1d7ce, 0x1d7d8, 0x1d7e2, 0x1d7ec, 0x1d7f6,
    0x1e140, 0x1e2f0, 0x1e950, 0x1fbf0]

/-- The value of a decimal digit. -/
def digitOf (c : Char) : Option ℕ :=
  (zeros.find? fun z => z ≤ c.toNat ∧ c.toNat < z + 10).map (c.toNat - ·)

/-- `sys.get_int_max_str_digits()`. -/
def digitLimit : ℕ := 4300

/-- The number that decimal digits write. -/
def ofDigits (digits : List ℕ) : ℕ := digits.foldl (fun n d => 10 * n + d) 0

/-- The digits of a number, single underscores between them. -/
def digitsOf : List Char → Option (List ℕ)
  | [] => none
  | [c] => (digitOf c).map fun d => [d]
  | c :: c' :: cs => do
    let d ← digitOf c
    let ds ← if c' = '_' then digitsOf cs else digitsOf (c' :: cs)
    return d :: ds

/-- The number without its sign. -/
def natOf (cs : List Char) : Option ℕ :=
  (digitsOf cs).bind fun digits => if digitLimit < digits.length then none else some (ofDigits digits)

/-- `int(text)`, which raises `ValueError` where there is no number. -/
def toInt (text : String) : Option ℤ :=
  match (strip text).toList with
  | '-' :: cs => (natOf cs).map fun n => -(n : ℤ)
  | '+' :: cs => (natOf cs).map Int.ofNat
  | cs => (natOf cs).map Int.ofNat

example : toInt " +4_000 " = some 4000 := by decide

/-! ## Writing -/

/-- `str(n)`, which raises `ValueError` where there are too many digits. -/
def strOf (n : ℤ) : Option String :=
  if digitLimit < (Nat.toDigits 10 n.natAbs).length then none else some (toString n)

section Writing

variable {n : ℤ} {k : ℕ} {cs : List Char} {c : Char} {text : String} {digits : List ℕ}

theorem digitOf_of_isDigit (h : c.isDigit = true) : digitOf c = some (c.toNat - 48) := by
  simp only [Char.isDigit, Bool.and_eq_true, decide_eq_true_eq, ge_iff_le, UInt32.le_iff_toNat_le] at h
  have hlow : 48 ≤ c.toNat := h.1
  have hhigh : c.toNat < 58 := Nat.lt_succ_of_le h.2
  have hfind : zeros.find? (fun z => z ≤ c.toNat ∧ c.toNat < z + 10) = some 48 :=
    List.find?_cons_of_pos (by simpa using ⟨hlow, hhigh⟩)
  rw [digitOf, hfind]
  rfl

theorem digitsOf_cons_cons (c c' : Char) (cs : List Char) :
    digitsOf (c :: c' :: cs) =
      (digitOf c).bind fun d => (digitsOf (if c' = '_' then cs else c' :: cs)).map (d :: ·) := by
  rw [digitsOf]
  cases digitOf c with
  | none => rfl
  | some d =>
    by_cases hc' : c' = '_'
    · rw [if_pos hc']
      dsimp only [Option.bind_some, bind, Option.bind]
      rw [if_pos hc']
      cases digitsOf cs <;> rfl
    · rw [if_neg hc']
      dsimp only [Option.bind_some, bind, Option.bind]
      rw [if_neg hc']
      cases digitsOf (c' :: cs) <;> rfl

theorem digitsOf_of_isDigit (hne : cs ≠ []) (h : ∀ c ∈ cs, c.isDigit = true) :
    digitsOf cs = some (cs.map fun c => c.toNat - 48) := by
  induction cs with
  | nil => exact absurd rfl hne
  | cons c cs ih =>
    have hc := digitOf_of_isDigit (h c List.mem_cons_self)
    cases cs with
    | nil => rw [digitsOf, hc]; rfl
    | cons c' cs =>
      have hc' : c' ≠ '_' := by
        rintro rfl
        exact absurd (h '_' (List.mem_cons_of_mem c List.mem_cons_self)) (by decide)
      rw [digitsOf_cons_cons, hc, if_neg hc',
        ih (List.cons_ne_nil c' cs) fun d hd => h d (List.mem_cons_of_mem c hd)]
      rfl

/-- The digits of a number are read as the number. -/
theorem natOf_toDigits (h : (Nat.toDigits 10 k).length ≤ digitLimit) : natOf (Nat.toDigits 10 k) = some k := by
  have hdigits := @digitsOf_of_isDigit (Nat.toDigits 10 k) Nat.toDigits_ne_nil
    fun c hc => Nat.isDigit_of_mem_toDigits (by decide) (by decide) hc
  have hnumber : ofDigits ((Nat.toDigits 10 k).map fun c => c.toNat - 48) = k := by
    unfold ofDigits
    rw [List.foldl_map]
    exact Nat.ofDigitChars_ten_toDigits
  rw [natOf, hdigits, Option.bind_some, List.length_map, if_neg (by omega), hnumber]

/-- The characters of a number. -/
theorem toList_toString (n : ℤ) :
    (toString n).toList = if 0 ≤ n then Nat.toDigits 10 n.natAbs else '-' :: Nat.toDigits 10 n.natAbs := by
  rw [Int.toString_eq_repr, Int.repr_eq_if]
  by_cases hn : 0 ≤ n
  · have hnat : n.toNat = n.natAbs := by omega
    rw [if_pos hn, if_pos hn, Nat.toList_repr, hnat]
  · have hnat : (-n).toNat = n.natAbs := by omega
    rw [if_neg hn, if_neg hn, String.toList_append, Nat.toList_repr, hnat]
    rfl

theorem of_mem_toString (h : c ∈ (toString n).toList) : c = '-' ∨ c.isDigit = true := by
  rw [toList_toString] at h
  split_ifs at h
  · exact Or.inr (Nat.isDigit_of_mem_toDigits (by decide) (by decide) h)
  · rcases List.mem_cons.mp h with h | h
    · exact Or.inl h
    · exact Or.inr (Nat.isDigit_of_mem_toDigits (by decide) (by decide) h)

theorem toString_ne_empty (n : ℤ) : toString n ≠ "" := by
  intro h
  have hlist := toList_toString n
  rw [h] at hlist
  split_ifs at hlist
  · exact Nat.toDigits_ne_nil hlist.symm
  · cases hlist

/-- What is written of a number is read as the number. -/
theorem toInt_of_strOf (h : strOf n = some text) : toInt text = some n := by
  unfold strOf at h
  split_ifs at h with hlimit
  obtain rfl := Option.some.inj h
  have hnat := natOf_toDigits (k := n.natAbs) (by omega)
  have hblank : ∀ c ∈ (toString n).toList, isSpace c = false := by
    intro c hc
    rcases of_mem_toString hc with rfl | hdigit
    · decide
    · exact isSpace_of_isDigit hdigit
  have hstrip : strip (toString n) = toString n := strip_of_all hblank
  unfold toInt
  rw [hstrip, toList_toString]
  by_cases hn : 0 ≤ n
  · rw [if_pos hn]
    obtain ⟨d, ds, hds⟩ := List.exists_cons_of_ne_nil (Nat.toDigits_ne_nil (n := n.natAbs) (b := 10))
    have hd : d.isDigit = true :=
      Nat.isDigit_of_mem_toDigits (b := 10) (n := n.natAbs) (by decide) (by decide) (hds ▸ List.mem_cons_self)
    rw [hds] at hnat ⊢
    split
    · next heq =>
      obtain ⟨rfl, _⟩ := List.cons.inj heq
      exact absurd hd (by decide)
    · next heq =>
      obtain ⟨rfl, _⟩ := List.cons.inj heq
      exact absurd hd (by decide)
    · rw [hnat, Option.map_some]
      exact congrArg some (Int.natAbs_of_nonneg hn)
  · rw [if_neg hn]
    split
    · next heq =>
      obtain ⟨_, rfl⟩ := List.cons.inj heq
      rw [hnat]
      have hneg : -(n.natAbs : ℤ) = n := by omega
      exact congrArg some hneg
    · next heq => exact absurd (List.cons.inj heq).1 (by decide)
    · next hdash _ => exact absurd rfl (hdash _)

/-- A number with too many digits is not written. -/
theorem strOf_ten_pow (h : digitLimit ≤ k) : strOf (10 ^ k) = none := by
  have habs : ((10 : ℤ) ^ k).natAbs = 10 ^ k := Int.natAbs_pow 10 k
  have hlength : ¬ (Nat.toDigits 10 (10 ^ k)).length ≤ digitLimit := by
    rw [Nat.length_toDigits_le_iff (by decide) (by decide)]
    exact Nat.not_lt.mpr (Nat.pow_le_pow_right (by decide) h)
  unfold strOf
  rw [habs]
  exact if_pos (by omega)

theorem lt_of_digitOf (h : digitOf c = some k) : k < 10 := by
  obtain ⟨z, hz, rfl⟩ := Option.map_eq_some_iff.mp h
  have hrange := List.find?_some hz
  simp only [decide_eq_true_eq] at hrange
  omega

theorem lt_of_digitsOf (h : digitsOf cs = some digits) : ∀ d ∈ digits, d < 10 := by
  induction cs using digitsOf.induct generalizing digits with
  | case1 => cases h
  | case2 c =>
    obtain ⟨d, hd, rfl⟩ := Option.map_eq_some_iff.mp h
    intro d' hd'
    rw [List.mem_singleton.mp hd']
    exact lt_of_digitOf hd
  | case3 c c' cs ih₁ ih₂ =>
    rw [digitsOf_cons_cons] at h
    obtain ⟨d, hd, h⟩ := Option.bind_eq_some_iff.mp h
    obtain ⟨ds, hds, rfl⟩ := Option.map_eq_some_iff.mp h
    intro d' hd'
    rcases List.mem_cons.mp hd' with rfl | hd'
    · exact lt_of_digitOf hd
    · split_ifs at hds with hc'
      · exact ih₁ hds d' hd'
      · exact ih₂ hds d' hd'

theorem ofDigits_lt (h : ∀ d ∈ digits, d < 10) : ofDigits digits < 10 ^ digits.length := by
  induction digits using List.reverseRecOn with
  | nil => decide
  | append_singleton digits d ih =>
    have hlast := h d (by simp)
    have hfirst := ih fun d' hd' => h d' (List.mem_append_left _ hd')
    unfold ofDigits at hfirst ⊢
    rw [List.foldl_append, List.length_append, List.length_singleton, pow_succ]
    simp only [List.foldl_cons, List.foldl_nil]
    omega

/-- A number that is read can be written. -/
theorem length_of_natOf (h : natOf cs = some k) : (Nat.toDigits 10 k).length ≤ digitLimit := by
  obtain ⟨digits, hdigits, h⟩ := Option.bind_eq_some_iff.mp h
  split_ifs at h with hlimit
  obtain rfl := Option.some.inj h
  have hpow : 10 ^ digits.length ≤ 10 ^ digitLimit := Nat.pow_le_pow_right (by decide) (by omega)
  exact (Nat.length_toDigits_le_iff (by decide) (by decide)).mpr
    (lt_of_lt_of_le (ofDigits_lt (lt_of_digitsOf hdigits)) hpow)

theorem strOf_of_toInt (h : toInt text = some n) : strOf n = some (toString n) := by
  have hlimit : (Nat.toDigits 10 n.natAbs).length ≤ digitLimit := by
    unfold toInt at h
    split at h
    · obtain ⟨m, hm, rfl⟩ := Option.map_eq_some_iff.mp h
      obtain ⟨k, hk, hm⟩ := Option.bind_eq_some_iff.mp hm
      obtain rfl := Option.some.inj hm
      rw [Int.natAbs_neg, Int.natAbs_natCast]
      exact length_of_natOf hk
    · obtain ⟨k, hk, rfl⟩ := Option.map_eq_some_iff.mp h
      exact length_of_natOf hk
    · obtain ⟨k, hk, rfl⟩ := Option.map_eq_some_iff.mp h
      exact length_of_natOf hk
  exact if_neg (by omega)

end Writing

end JenKea.Text
