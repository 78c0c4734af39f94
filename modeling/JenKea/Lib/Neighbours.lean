import Mathlib.Data.List.Infix
import Mathlib.Data.List.Perm.Basic
import JenKea.Lib.Interval

/-!
# Neighbours among sorted ranges

Entries with ranges, sorted by the first numbers. An entry that shares a number with a later one shares one with
the entry right after it too; with an earlier one it may share a number and meet neither of its neighbours.
-/

namespace JenKea.Interval

/-- The entries of a list, each with the one right after it. -/
def neighbours {α : Type} : List α → List (α × α)
  | a :: b :: l => (a, b) :: neighbours (b :: l)
  | _ => []

/-- Two ranges have a number in common. -/
def Share (r r' : Range) : Prop := ∃ x, Holds r x x ∧ Holds r' x x

theorem share_iff {r r' : Range} (hr : Proper r) (hr' : Proper r') : Share r r' ↔ r.1 ≤ r'.2 ∧ r'.1 ≤ r.2 := by
  constructor
  · rintro ⟨x, hx, hx'⟩
    exact ⟨hx.1.trans hx'.2, hx'.1.trans hx.2⟩
  · rintro ⟨h, h'⟩
    refine ⟨max r.1 r'.1, ⟨le_max_left _ _, max_le hr h'⟩, le_max_right _ _, max_le h hr'⟩

theorem Share.symm {r r' : Range} (h : Share r r') : Share r' r := by
  obtain ⟨x, hx, hx'⟩ := h
  exact ⟨x, hx', hx⟩

variable {α : Type} (range : α → Range)

/-- The entry shares a number with another one of the list. -/
def Overlaps (l : List α) (a : α) : Prop := ∃ rest, l.Perm (a :: rest) ∧ ∃ b ∈ rest, Share (range a) (range b)

/-- The entry, and the one right after it, of which the second starts before the first ends. -/
def Meets (p : α × α) : Prop := (range p.2).1 ≤ (range p.1).2

/-- The ranges of a list are not empty, and stand in the order of their first numbers. -/
structure Ordered (l : List α) : Prop where
  proper : ∀ a ∈ l, Proper (range a)
  sorted : l.Pairwise fun a b => (range a).1 ≤ (range b).1

section Lists

variable {range} {l l' : List α} {a b : α}

theorem mem_neighbours : (a, b) ∈ neighbours l ↔ ∃ l₁ l₂, l = l₁ ++ a :: b :: l₂ := by
  induction l with
  | nil =>
    refine iff_of_false List.not_mem_nil ?_
    rintro ⟨l₁, l₂, h⟩
    exact List.append_ne_nil_of_right_ne_nil l₁ (List.cons_ne_nil _ _) h.symm
  | cons c l ih =>
    cases l with
    | nil =>
      refine iff_of_false List.not_mem_nil ?_
      rintro ⟨l₁, l₂, h⟩
      have hlength := congrArg List.length h
      simp only [List.length_append, List.length_cons, List.length_nil] at hlength
      omega
    | cons d l =>
      rw [neighbours, List.mem_cons, ih]
      constructor
      · rintro (heq | ⟨l₁, l₂, h⟩)
        · obtain ⟨rfl, rfl⟩ := Prod.mk.inj heq
          exact ⟨[], l, rfl⟩
        · exact ⟨c :: l₁, l₂, congrArg (c :: ·) h⟩
      · rintro ⟨l₁, l₂, h⟩
        cases l₁ with
        | nil =>
          obtain ⟨hfirst, hrest⟩ := List.cons.inj h
          exact .inl (by rw [hfirst, (List.cons.inj hrest).1])
        | cons c' l₁ => exact .inr ⟨l₁, l₂, (List.cons.inj h).2⟩

theorem Overlaps.of_perm (h : l.Perm l') (ho : Overlaps range l a) : Overlaps range l' a := by
  obtain ⟨rest, hperm, hshare⟩ := ho
  exact ⟨rest, h.symm.trans hperm, hshare⟩

/-- In a list with more entries there is no less overlap. -/
theorem Overlaps.append_right (ho : Overlaps range l a) : Overlaps range (l ++ l') a := by
  obtain ⟨rest, hperm, b, hb, hshare⟩ := ho
  exact ⟨rest ++ l', hperm.append_right l', b, List.mem_append_left l' hb, hshare⟩

theorem Overlaps.append_left (ho : Overlaps range l a) : Overlaps range (l' ++ l) a :=
  ho.append_right.of_perm List.perm_append_comm

/-- An entry overlaps where it stands before or after one that it shares a number with. -/
theorem overlaps_of_append {l₁ l₂ : List α} (ha : a ∈ l₁) (hb : b ∈ l₂) (hshare : Share (range a) (range b)) :
    Overlaps range (l₁ ++ l₂) a ∧ Overlaps range (l₁ ++ l₂) b := by
  obtain ⟨s, t, rfl⟩ := List.append_of_mem ha
  obtain ⟨u, v, rfl⟩ := List.append_of_mem hb
  constructor
  · refine ⟨s ++ t ++ (u ++ b :: v), ?_, b, ?_, hshare⟩
    · rw [List.append_assoc, List.cons_append, List.append_assoc]
      exact List.perm_middle
    · exact List.mem_append_right _ (List.mem_append_right _ List.mem_cons_self)
  · refine ⟨s ++ a :: t ++ (u ++ v), ?_, a, ?_, hshare.symm⟩
    · rw [← List.append_assoc, ← List.append_assoc]
      exact List.perm_middle
    · exact List.mem_append_left _ (List.mem_append_right _ List.mem_cons_self)

/-- What overlaps shares a number with an entry before it, or with one after it. -/
theorem exists_of_overlaps (h : Overlaps range l a) :
    (∃ l₁ l₂ l₃ b, l = l₁ ++ a :: l₂ ++ b :: l₃ ∧ Share (range a) (range b)) ∨
      ∃ l₁ l₂ l₃ b, l = l₁ ++ b :: l₂ ++ a :: l₃ ∧ Share (range a) (range b) := by
  obtain ⟨rest, hperm, b, hb, hshare⟩ := h
  obtain ⟨s, t, rfl⟩ := List.append_of_mem (hperm.mem_iff.mpr List.mem_cons_self)
  have hrest : (s ++ t).Perm rest := (List.perm_middle.symm.trans hperm).cons_inv
  rcases List.mem_append.mp (hrest.mem_iff.mpr hb) with hb | hb
  · obtain ⟨u, v, rfl⟩ := List.append_of_mem hb
    exact .inr ⟨u, v, t, b, rfl, hshare⟩
  · obtain ⟨u, v, rfl⟩ := List.append_of_mem hb
    refine .inl ⟨s, u, v, b, ?_, hshare⟩
    rw [List.append_assoc, List.cons_append]

/-- Where neighbours meet, they share a number. -/
theorem share_of_meets (h : Ordered range l) {p : α × α} (hp : p ∈ neighbours l) (hmeets : Meets range p) :
    Share (range p.1) (range p.2) := by
  obtain ⟨l₁, l₂, rfl⟩ := mem_neighbours.mp hp
  have hsorted := (List.pairwise_append.mp h.sorted).2.1
  have hle := (List.pairwise_cons.mp hsorted).1 p.2 List.mem_cons_self
  have hfirst := h.proper p.1 (List.mem_append_right l₁ List.mem_cons_self)
  have hsecond := h.proper p.2 (List.mem_append_right l₁ (List.mem_cons_of_mem _ List.mem_cons_self))
  exact (share_iff hfirst hsecond).mpr ⟨hle.trans hsecond, hmeets⟩

/-- An entry that shares a number with a later one meets its neighbour. -/
theorem exists_meets {l₁ l₂ l₃ : List α} (h : Ordered range (l₁ ++ a :: l₂ ++ b :: l₃))
    (hshare : Share (range a) (range b)) :
    ∃ c, (a, c) ∈ neighbours (l₁ ++ a :: l₂ ++ b :: l₃) ∧ Meets range (a, c) := by
  obtain ⟨x, hxa, hxb⟩ := hshare
  cases l₂ with
  | nil =>
    refine ⟨b, mem_neighbours.mpr ⟨l₁, l₃, ?_⟩, hxb.1.trans hxa.2⟩
    rw [List.append_assoc]
    rfl
  | cons c l₂ =>
    have hsplit : l₁ ++ a :: (c :: l₂) ++ b :: l₃ = l₁ ++ a :: c :: (l₂ ++ b :: l₃) := by
      rw [List.append_assoc]
      rfl
    -- the neighbour starts no later than the other one
    have hsorted := h.sorted
    rw [hsplit] at hsorted ⊢
    have hafter := (List.pairwise_cons.mp (List.pairwise_append.mp hsorted).2.1).2
    have hle := (List.pairwise_cons.mp hafter).1 b (List.mem_append_right l₂ List.mem_cons_self)
    exact ⟨c, mem_neighbours.mpr ⟨l₁, l₂ ++ b :: l₃, rfl⟩, hle.trans (hxb.1.trans hxa.2)⟩

/-- Some neighbours meet just where some entry overlaps. -/
theorem exists_meets_iff (h : Ordered range l) :
    (∃ p ∈ neighbours l, Meets range p) ↔ ∃ a, Overlaps range l a := by
  constructor
  · rintro ⟨p, hp, hmeets⟩
    have hshare := share_of_meets h hp hmeets
    obtain ⟨l₁, l₂, rfl⟩ := mem_neighbours.mp hp
    refine ⟨p.1, ?_⟩
    rw [List.append_cons]
    exact (overlaps_of_append (List.mem_append_right l₁ List.mem_cons_self) List.mem_cons_self hshare).1
  · rintro ⟨a, ha⟩
    rcases exists_of_overlaps ha with ⟨l₁, l₂, l₃, b, rfl, hshare⟩ | ⟨l₁, l₂, l₃, b, rfl, hshare⟩
    · obtain ⟨c, hc, hmeets⟩ := exists_meets h hshare
      exact ⟨(a, c), hc, hmeets⟩
    · obtain ⟨c, hc, hmeets⟩ := exists_meets h hshare.symm
      exact ⟨(b, c), hc, hmeets⟩

/-- Some entry overlaps just where not every two ranges are apart. -/
theorem exists_overlaps_iff :
    (∃ a, Overlaps range l a) ↔ ¬ l.Pairwise fun a b => ¬ Share (range a) (range b) := by
  constructor
  · rintro ⟨a, ha⟩ hapart
    have hlist : ∀ {l₁ l₂ l₃ : List α} {a b : α}, l = l₁ ++ a :: l₂ ++ b :: l₃ → ¬ Share (range a) (range b) := by
      intro l₁ l₂ l₃ a b hsplit
      rw [hsplit, List.pairwise_append] at hapart
      exact hapart.2.2 a (List.mem_append_right l₁ List.mem_cons_self) b List.mem_cons_self
    rcases exists_of_overlaps ha with ⟨l₁, l₂, l₃, b, hsplit, hshare⟩ | ⟨l₁, l₂, l₃, b, hsplit, hshare⟩
    · exact hlist hsplit hshare
    · exact hlist hsplit hshare.symm
  · intro h
    rw [List.pairwise_iff_forall_sublist] at h
    push Not at h
    obtain ⟨a, b, hsublist, hshare⟩ := h
    obtain ⟨l₁, l₂, rfl, ha, hb⟩ := List.cons_sublist_iff.mp hsublist
    exact ⟨a, (overlaps_of_append ha (List.singleton_sublist.mp hb) hshare).1⟩

end Lists

end JenKea.Interval
