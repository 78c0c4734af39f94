import Mathlib.Data.List.Basic
import Mathlib.Data.Int.Order.Basic
import Mathlib.Data.Set.Basic

/-!
# Lists of ranges of integers

A `Range` is a pair of a first and a last integer, and holds what lies between them. The number of
ranges of a list that hold a whole stretch `[p, q]` (`hits`) says all that a partition is about: the
ranges of a list are disjoint when no integer is held twice, and their union is what is held at all.

`cut` takes a block out of a range, as a program does that compares the ends of the two: where the
block is inverted (its first is above its last) the pieces that remain overlap or touch.
-/

namespace JenKea.Interval

/-- A first and a last integer. -/
abbrev Range := ℤ × ℤ

/-- The range holds the stretch from `p` to `q`. -/
def Holds (r : Range) (p q : ℤ) : Prop := r.1 ≤ p ∧ q ≤ r.2

instance (r : Range) (p q : ℤ) : Decidable (Holds r p q) :=
  inferInstanceAs (Decidable (_ ∧ _))

/-- The stretch from `p` to `q` lies on one side of the block. -/
def Misses (b : Range) (p q : ℤ) : Prop := q < b.1 ∨ b.2 < p

instance (b : Range) (p q : ℤ) : Decidable (Misses b p q) :=
  inferInstanceAs (Decidable (_ ∨ _))

/-- The first is not above the last. -/
def Proper (r : Range) : Prop := r.1 ≤ r.2

instance (r : Range) : Decidable (Proper r) := inferInstanceAs (Decidable (_ ≤ _))

/-- How many ranges hold the stretch from `p` to `q`. -/
def hits (l : List Range) (p q : ℤ) : ℕ := l.countP fun r => decide (Holds r p q)

section Hits

variable {l l' : List Range} {r b : Range} {p q x : ℤ}

@[simp] theorem hits_nil : hits [] p q = 0 := rfl

@[simp] theorem hits_cons :
    hits (r :: l) p q = hits l p q + if Holds r p q then 1 else 0 := by
  simp [hits, List.countP_cons]

@[simp] theorem hits_append : hits (l ++ l') p q = hits l p q + hits l' p q :=
  List.countP_append

theorem hits_pos : 0 < hits l p q ↔ ∃ r ∈ l, Holds r p q := by
  simp [hits, List.countP_pos_iff]

theorem hits_perm (h : l.Perm l') : hits l p q = hits l' p q := h.countP_eq _

/-- The ranges that are not proper hold nothing. -/
theorem hits_filter (h : p ≤ q) :
    hits (l.filter fun r => decide (r.1 ≤ r.2)) p q = hits l p q := by
  rw [hits, List.countP_filter]
  refine List.countP_congr fun r _ => ?_
  simp only [Bool.and_eq_true, decide_eq_true_eq]
  exact ⟨And.left, fun hr => ⟨hr, hr.1.trans (h.trans hr.2)⟩⟩

/-- What holds a stretch holds all of its integers. -/
theorem Holds.mid (h : Holds r p q) (hp : p ≤ x) (hq : x ≤ q) : Holds r x x :=
  ⟨h.1.trans hp, hq.trans h.2⟩

end Hits

/-! ## Partitions -/

/-- Two ranges have no integer in common. -/
def Disjoint (r r' : Range) : Prop := ∀ x, ¬ (Holds r x x ∧ Holds r' x x)

/-- The ranges are not empty, no two of them overlap, and together they are `A`. -/
structure Partition (l : List Range) (A : ℤ → Prop) : Prop where
  proper : ∀ r ∈ l, Proper r
  disjoint : l.Pairwise Disjoint
  union : ∀ x, (∃ r ∈ l, Holds r x x) ↔ A x

theorem pairwise_disjoint_iff {l : List Range} :
    l.Pairwise Disjoint ↔ ∀ x, hits l x x ≤ 1 := by
  induction l with
  | nil => simp
  | cons r l ih =>
    rw [List.pairwise_cons, ih]
    constructor
    · rintro ⟨hr, hl⟩ x
      have hx := hl x
      rw [hits_cons]
      split_ifs with hrx
      · -- no other range holds what the head holds
        have hnone : ¬ 0 < hits l x x := by
          rw [hits_pos]
          rintro ⟨r', hr', hx'⟩
          exact hr r' hr' x ⟨hrx, hx'⟩
        omega
      · omega
    · intro h
      refine ⟨fun r' hr' x ⟨hx, hx'⟩ => ?_, fun x => ?_⟩
      · have hpos : 0 < hits l x x := hits_pos.mpr ⟨r', hr', hx'⟩
        have hle := h x
        rw [hits_cons, if_pos hx] at hle
        omega
      · have hle := h x
        rw [hits_cons] at hle
        omega

/-! ## Taking a block out of a range -/

/-- What is left of a range without a block. -/
def cut (b r : Range) : List Range :=
  if b.2 < r.1 ∨ r.2 < b.1 then [r]
  else (if r.1 < b.1 then [(r.1, b.1 - 1)] else []) ++ if b.2 < r.2 then [(b.2 + 1, r.2)] else []

section Cut

variable {b r : Range} {p q x : ℤ}

/-- The pieces of proper ranges are proper. -/
theorem proper_of_mem_cut {r' : Range} (hr : Proper r) (h : r' ∈ cut b r) : Proper r' := by
  unfold cut at h
  unfold Proper at hr ⊢
  split_ifs at h <;> simp only [List.nil_append, List.append_nil, List.cons_append,
    List.mem_cons, List.not_mem_nil, or_false] at h
  · rw [h]
    exact hr
  · rcases h with rfl | rfl
    · dsimp only
      omega
    · dsimp only
      omega
  · rw [h]
    dsimp only
    omega
  · rw [h]
    dsimp only
    omega

/-- How many pieces hold a stretch of the range: one for each side of the block that it lies on, and
one alone where the block lies beside the range. -/
theorem hits_cut (h : p ≤ q) : hits (cut b r) p q =
    if ¬ Holds r p q then 0
    else if b.2 < r.1 ∨ r.2 < b.1 then 1
    else (if q < b.1 then 1 else 0) + if b.2 < p then 1 else 0 := by
  by_cases hbeside : b.2 < r.1 ∨ r.2 < b.1
  · rw [cut, if_pos hbeside, hits_cons, hits_nil]
    by_cases hr : Holds r p q <;> simp [hr, hbeside]
  · have hleft : hits (if r.1 < b.1 then [(r.1, b.1 - 1)] else []) p q =
        if r.1 ≤ p ∧ q < b.1 then 1 else 0 := by
      split_ifs <;> simp only [hits_cons, hits_nil, Holds] <;> grind
    have hright : hits (if b.2 < r.2 then [(b.2 + 1, r.2)] else []) p q =
        if b.2 < p ∧ q ≤ r.2 then 1 else 0 := by
      split_ifs <;> simp only [hits_cons, hits_nil, Holds] <;> grind
    rw [cut, if_neg hbeside, if_neg hbeside, hits_append, hleft, hright]
    unfold Holds
    grind

/-- A piece holds what the range held on one side of the block. -/
theorem hits_cut_pos (h : p ≤ q) : 0 < hits (cut b r) p q ↔ Holds r p q ∧ Misses b p q := by
  rw [hits_cut h]
  unfold Holds Misses
  grind

/-- An integer is in two pieces when the block is inverted around it and lies within the range. -/
theorem one_lt_hits_cut :
    1 < hits (cut b r) x x ↔ Holds r b.2 b.1 ∧ b.2 < x ∧ x < b.1 := by
  rw [hits_cut le_rfl]
  unfold Holds
  grind

end Cut

/-! ## Taking many blocks out of many ranges -/

/-- What is left of the ranges without a list of blocks, one after the other. -/
def split (l : List Range) (bs : List Range) : List Range :=
  bs.foldl (fun l b => l.flatMap (cut b)) l

/-- Some block is inverted within a range, no earlier block touches it, and an integer inside it is
in no later block: the blocks leave that integer in two pieces. -/
def Doubled (l : List Range) (bs : List Range) : Prop :=
  ∃ before b after, bs = before ++ b :: after ∧ 0 < hits l b.2 b.1 ∧
    (∀ e ∈ before, Misses e b.2 b.1) ∧ ∃ x, b.2 < x ∧ x < b.1 ∧ ∀ e ∈ after, Misses e x x

section Split

variable {l bs : List Range} {b : Range} {p q x : ℤ}

theorem hits_flatMap_pos (h : p ≤ q) :
    0 < hits (l.flatMap (cut b)) p q ↔ 0 < hits l p q ∧ Misses b p q := by
  induction l with
  | nil => simp
  | cons r l ih =>
    have hr := hits_cut_pos (b := b) (r := r) h
    rw [List.flatMap_cons, hits_append, hits_cons]
    split_ifs <;> grind

/-- An integer is in two pieces when it was in two ranges, or the block is inverted around it. -/
theorem one_lt_hits_flatMap : 1 < hits (l.flatMap (cut b)) x x ↔
    1 < hits l x x ∧ Misses b x x ∨ 0 < hits l b.2 b.1 ∧ b.2 < x ∧ x < b.1 := by
  induction l with
  | nil => simp
  | cons r l ih =>
    have hone := one_lt_hits_cut (b := b) (r := r) (x := x)
    have hr := hits_cut_pos (b := b) (r := r) (le_refl x)
    have hl := hits_flatMap_pos (b := b) (l := l) (le_refl x)
    have hmid : 0 < hits l b.2 b.1 → b.2 < x → x < b.1 → 0 < hits l x x := by
      rw [hits_pos, hits_pos]
      rintro ⟨r', hr', h⟩ h₁ h₂
      exact ⟨r', hr', h.mid h₁.le h₂.le⟩
    rw [List.flatMap_cons, hits_append, hits_cons, hits_cons]
    by_cases hrx : Holds r x x
    · by_cases hrb : Holds r b.2 b.1
      · rw [if_pos hrx, if_pos hrb]
        unfold Misses at *
        grind
      · rw [if_pos hrx, if_neg hrb]
        unfold Misses at *
        grind
    · have hrb : Holds r b.2 b.1 → b.2 < x → ¬ x < b.1 := fun h h₁ h₂ => hrx (h.mid h₁.le h₂.le)
      rw [if_neg hrx]
      split_ifs <;> grind

@[simp] theorem split_nil : split l [] = l := rfl

theorem split_cons : split l (b :: bs) = split (l.flatMap (cut b)) bs := rfl

/-- What is left holds what the ranges held beside every block. -/
theorem hits_split_pos (h : p ≤ q) :
    0 < hits (split l bs) p q ↔ 0 < hits l p q ∧ ∀ b ∈ bs, Misses b p q := by
  induction bs generalizing l with
  | nil => simp
  | cons b bs ih =>
    rw [split_cons, ih, hits_flatMap_pos h, List.forall_mem_cons]
    tauto

/-- The first block doubles an integer, or a later one. -/
theorem doubled_cons : Doubled l (b :: bs) ↔
    (0 < hits l b.2 b.1 ∧ ∃ x, b.2 < x ∧ x < b.1 ∧ ∀ e ∈ bs, Misses e x x) ∨
      Doubled (l.flatMap (cut b)) bs := by
  constructor
  · rintro ⟨before, b', after, heq, hpos, hbefore, x, h₁, h₂, hafter⟩
    cases before with
    | nil =>
      obtain ⟨rfl, rfl⟩ := List.cons.inj heq
      exact .inl ⟨hpos, x, h₁, h₂, hafter⟩
    | cons e before =>
      obtain ⟨rfl, rfl⟩ := List.cons.inj heq
      rw [List.forall_mem_cons] at hbefore
      refine .inr ⟨before, b', after, rfl, ?_, hbefore.2, x, h₁, h₂, hafter⟩
      exact (hits_flatMap_pos (by omega)).mpr ⟨hpos, hbefore.1⟩
  · rintro (⟨hpos, x, h₁, h₂, hafter⟩ | ⟨before, b', after, rfl, hpos, hbefore, x, h₁, h₂, hafter⟩)
    · exact ⟨[], b, bs, rfl, hpos, by simp, x, h₁, h₂, hafter⟩
    · rw [hits_flatMap_pos (by omega)] at hpos
      refine ⟨b :: before, b', after, rfl, hpos.1, ?_, x, h₁, h₂, hafter⟩
      exact List.forall_mem_cons.mpr ⟨hpos.2, hbefore⟩

/-- An integer is left twice exactly when it was there twice, or some block doubles one. -/
theorem exists_one_lt_hits_split : (∃ x, 1 < hits (split l bs) x x) ↔
    (∃ x, 1 < hits l x x ∧ ∀ b ∈ bs, Misses b x x) ∨ Doubled l bs := by
  induction bs generalizing l with
  | nil => simp [Doubled]
  | cons b bs ih =>
    rw [split_cons, ih, doubled_cons]
    simp only [one_lt_hits_flatMap, List.forall_mem_cons]
    constructor
    · rintro (⟨x, ⟨h, hb⟩ | ⟨h, h₁, h₂⟩, hbs⟩ | h)
      · exact .inl ⟨x, h, hb, hbs⟩
      · exact .inr (.inl ⟨h, x, h₁, h₂, hbs⟩)
      · exact .inr (.inr h)
    · rintro (⟨x, h, hb, hbs⟩ | ⟨h, x, h₁, h₂, hbs⟩ | h)
      · exact .inl ⟨x, .inl ⟨h, hb⟩, hbs⟩
      · exact .inl ⟨x, .inr ⟨h, h₁, h₂⟩, hbs⟩
      · exact .inr h

/-- Blocks that are proper double nothing. -/
theorem not_doubled (h : ∀ b ∈ bs, Proper b) : ¬ Doubled l bs := by
  rintro ⟨before, b, after, rfl, -, -, x, h₁, h₂, -⟩
  have hb := h b (by simp)
  unfold Proper at hb
  omega

/-- What is left of proper ranges is proper. -/
theorem proper_of_mem_split (h : ∀ r ∈ l, Proper r) {r : Range} (hr : r ∈ split l bs) :
    Proper r := by
  induction bs generalizing l with
  | nil => exact h r hr
  | cons b bs ih =>
    refine ih (fun r' hr' => ?_) hr
    obtain ⟨r₀, hr₀, hr'⟩ := List.mem_flatMap.mp hr'
    exact proper_of_mem_cut (h r₀ hr₀) hr'

end Split

/-! ## Taking a range out of the one that holds it -/

section Carve

variable {l₁ l₂ : List Range} {g r : Range} {p q x : ℤ}

variable (l₁ l₂) in
/-- A range that is taken out of another holds what the pieces no longer hold. -/
theorem hits_carve (hr : Proper r) (hg : Holds g r.1 r.2) (x : ℤ) :
    hits (l₁ ++ l₂ ++ cut r g) x x + (if Holds r x x then 1 else 0) =
      hits (l₁ ++ g :: l₂) x x := by
  rw [hits_append, hits_append, hits_append, hits_cons, hits_cut le_rfl]
  unfold Holds at *
  unfold Proper at hr
  grind

/-- In disjoint ranges the pieces hold what the ranges held beside the one that is taken out. -/
theorem hits_carve_pos (hr : Proper r) (hg : Holds g r.1 r.2)
    (honce : ∀ x, hits (l₁ ++ g :: l₂) x x ≤ 1) (h : p ≤ q) :
    0 < hits (l₁ ++ l₂ ++ cut r g) p q ↔ 0 < hits (l₁ ++ g :: l₂) p q ∧ Misses r p q := by
  -- a range that is not `g` holds nothing of what `g` holds, so it lies beside `r`
  have hother : 0 < hits (l₁ ++ l₂) p q → Misses r p q := by
    intro hpos
    by_contra hmiss
    have hx := honce (max p r.1)
    have hholds : 0 < hits (l₁ ++ l₂) (max p r.1) (max p r.1) := by
      obtain ⟨r', hr', hpq⟩ := hits_pos.mp hpos
      refine hits_pos.mpr ⟨r', hr', hpq.mid (le_max_left p r.1) ?_⟩
      unfold Misses at hmiss
      unfold Proper at hr
      omega
    have hmid : Holds g (max p r.1) (max p r.1) := by
      unfold Misses at hmiss
      unfold Holds Proper at *
      omega
    rw [hits_append, hits_cons, if_pos hmid] at hx
    rw [hits_append] at hholds
    omega
  have hcut := hits_cut_pos (b := r) (r := g) h
  rw [hits_append] at hother
  rw [hits_append, hits_append, hits_append, hits_cons]
  split_ifs <;> grind

end Carve

/-! ## Disjoint ranges, by the stretches that they hold -/

/-- Disjoint ranges, none of them empty, that hold exactly the stretches that are free. -/
structure Splits (l : List Range) (Free : ℤ → ℤ → Prop) : Prop where
  proper : ∀ r ∈ l, Proper r
  once : ∀ x, hits l x x ≤ 1
  free : ∀ p q, p ≤ q → (0 < hits l p q ↔ Free p q)

/-- The stretches of a range that lie beside every block. -/
def Beside (r : Range) (bs : List Range) (p q : ℤ) : Prop :=
  Holds r p q ∧ ∀ b ∈ bs, Misses b p q

/-- The stretches that stay free when a range is taken. -/
def Without (Free : ℤ → ℤ → Prop) (r : Range) (p q : ℤ) : Prop := Free p q ∧ Misses r p q

/-- Some range that holds the free stretches reaches from the first of `r` to its last: a proper `r`
is free itself, and of an inverted one some integer between its ends is. -/
def Fits (Free : ℤ → ℤ → Prop) (r : Range) : Prop :=
  if r.1 ≤ r.2 then Free r.1 r.2 else ∃ x, r.2 ≤ x ∧ x ≤ r.1 ∧ Free x x

section Splits

variable {l l₁ l₂ bs : List Range} {Free : ℤ → ℤ → Prop} {g r : Range}

/-- What is left of one range is disjoint, unless some block doubles an integer. -/
theorem splits_split (h : ¬ Doubled [r] bs) :
    Splits ((split [r] bs).filter fun g => decide (g.1 ≤ g.2)) (Beside r bs) where
  proper g hg := of_decide_eq_true (List.mem_filter.mp hg).2
  once x := by
    rw [hits_filter le_rfl]
    by_contra hlt
    have htwice := exists_one_lt_hits_split.mp ⟨x, not_le.mp hlt⟩
    rcases htwice with ⟨y, hy, -⟩ | hdoubled
    · rw [hits_cons, hits_nil] at hy
      split_ifs at hy <;> omega
    · exact h hdoubled
  free p q hpq := by
    rw [hits_filter hpq, hits_split_pos hpq, hits_pos]
    simp [Beside]

/-- Disjoint ranges are a partition of the integers that are free. -/
theorem Splits.partition (h : Splits l Free) : Partition l fun x => Free x x where
  proper := h.proper
  disjoint := pairwise_disjoint_iff.mpr h.once
  union x := by rw [← hits_pos, h.free x x le_rfl]

/-- A range fits when one of the ranges reaches from its first to its last. -/
theorem Splits.exists_iff_fits (h : Splits l Free) :
    (∃ g ∈ l, g.1 ≤ r.1 ∧ r.2 ≤ g.2) ↔ Fits Free r := by
  unfold Fits
  split_ifs with hr
  · rw [← h.free r.1 r.2 hr, hits_pos]
    rfl
  · constructor
    · rintro ⟨g, hg, h₁, h₂⟩
      have hproper : g.1 ≤ g.2 := h.proper g hg
      refine ⟨max g.1 r.2, le_max_right _ _, by omega, (h.free _ _ le_rfl).mp ?_⟩
      exact hits_pos.mpr ⟨g, hg, le_max_left _ _, max_le hproper h₂⟩
    · rintro ⟨x, h₁, h₂, hfree⟩
      obtain ⟨g, hg, hx⟩ := hits_pos.mp ((h.free x x le_rfl).mpr hfree)
      exact ⟨g, hg, hx.1.trans h₂, h₁.trans hx.2⟩

/-- Taking a proper range out of the one that holds it leaves disjoint ranges. -/
theorem Splits.carve (h : Splits (l₁ ++ g :: l₂) Free) (hr : Proper r) (hg : Holds g r.1 r.2) :
    Splits (l₁ ++ l₂ ++ cut r g) (Without Free r) where
  proper r' hr' := by
    rcases List.mem_append.mp hr' with hr' | hr'
    · refine h.proper r' ?_
      rcases List.mem_append.mp hr' with hr' | hr'
      · exact List.mem_append_left _ hr'
      · exact List.mem_append_right _ (List.mem_cons_of_mem _ hr')
    · exact proper_of_mem_cut (h.proper g (by simp)) hr'
  once x := by
    have hcount := hits_carve l₁ l₂ hr hg x
    have hle := h.once x
    omega
  free p q hpq := by
    rw [hits_carve_pos hr hg h.once hpq, h.free p q hpq]
    rfl

end Splits

/-! ## Separated ranges and the gaps between them -/

/-- Ranges in ascending order, none of them empty, and each with a gap to the next. -/
structure Separated (l : List Range) : Prop where
  proper : ∀ r ∈ l, Proper r
  apart : l.Pairwise fun r r' => r.2 + 1 < r'.1

/-- What lies between each range and the next. -/
def gaps (l : List Range) : List Range := l.zipWith (fun r r' => (r.2 + 1, r'.1 - 1)) l.tail

section Gaps

variable {a r b : Range} {l : List Range} {x : ℤ}

theorem Separated.tail (h : Separated (a :: l)) : Separated l :=
  ⟨fun r hr => h.proper r (List.mem_cons_of_mem _ hr), h.apart.of_cons⟩

theorem gaps_cons_cons : gaps (a :: b :: l) = (a.2 + 1, b.1 - 1) :: gaps (b :: l) := rfl

/-- A gap lies above the first range, and is not empty. -/
theorem Separated.gap (h : Separated (a :: l)) {g : Range} (hg : g ∈ gaps (a :: l)) :
    a.2 < g.1 ∧ Proper g := by
  induction l generalizing a with
  | nil => simp [gaps] at hg
  | cons b l ih =>
    rw [gaps_cons_cons] at hg
    have hab : a.2 + 1 < b.1 := List.rel_of_pairwise_cons h.apart (by simp)
    rcases List.mem_cons.mp hg with rfl | hg
    · unfold Proper
      dsimp only
      omega
    · obtain ⟨hbelow, hproper⟩ := ih h.tail hg
      have hb : b.1 ≤ b.2 := h.proper b (by simp)
      exact ⟨by omega, hproper⟩

/-- From the first to the last of separated ranges, what lies in no gap lies in a range. -/
theorem Separated.holds_iff (h : Separated (a :: l)) :
    (Holds (a.1, ((a :: l).getLast (List.cons_ne_nil a l)).2) x x ∧ ∀ g ∈ gaps (a :: l), ¬ Holds g x x) ↔
      ∃ r ∈ a :: l, Holds r x x := by
  induction l generalizing a with
  | nil => simp [gaps]
  | cons b l ih =>
    have hab : a.2 + 1 < b.1 := List.rel_of_pairwise_cons h.apart (by simp)
    have ha : a.1 ≤ a.2 := h.proper a (by simp)
    have hb : b.1 ≤ b.2 := h.proper b (by simp)
    have hlast : (a :: b :: l).getLast (List.cons_ne_nil a (b :: l)) =
        (b :: l).getLast (List.cons_ne_nil b l) := List.getLast_cons (List.cons_ne_nil b l)
    have hcons : (∃ r ∈ a :: b :: l, Holds r x x) ↔
        Holds a x x ∨ ∃ r ∈ b :: l, Holds r x x := List.exists_mem_cons_iff ..
    have hrest := ih h.tail
    have habove : ∀ g ∈ gaps (b :: l), x ≤ b.2 → ¬ Holds g x x := by
      intro g hg hx hholds
      have := (h.tail.gap hg).1
      unfold Holds at hholds
      omega
    have hlastle : b.2 ≤ ((b :: l).getLast (List.cons_ne_nil b l)).2 := by
      rcases List.mem_cons.mp (List.getLast_mem (List.cons_ne_nil b l)) with heq | hmem
      · rw [heq]
      · have hlt := List.rel_of_pairwise_cons h.tail.apart hmem
        have hproper : _ ≤ _ := h.tail.proper _ (List.mem_cons_of_mem _ hmem)
        omega
    rw [hlast, gaps_cons_cons, List.forall_mem_cons, hcons, ← hrest]
    unfold Holds at *
    dsimp only at *
    constructor
    · rintro ⟨⟨h₁, h₂⟩, hgap, hgaps⟩
      by_cases hx : x ≤ a.2
      · exact .inl ⟨h₁, hx⟩
      · exact .inr ⟨⟨by omega, h₂⟩, hgaps⟩
    · rintro (⟨h₁, h₂⟩ | ⟨⟨h₁, h₂⟩, hgaps⟩)
      · exact ⟨⟨h₁, by omega⟩, by omega, fun g hg => habove g hg (by omega)⟩
      · exact ⟨⟨by omega, h₂⟩, by omega, hgaps⟩

end Gaps

end JenKea.Interval
