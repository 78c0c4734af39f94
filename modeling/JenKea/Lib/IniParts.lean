import JenKea.Lib.IniValues

/-!
# The parts of a value

A value may be a list in one text, with a separator between its parts. The parts of a value that a file gives back are
those of the value, each given back likewise, and where a file holds the value it holds its parts.
-/

namespace JenKea

open Text

namespace Ini

section Parts

variable {a b cs u w : List Char} {ls ms : Lines} {c d : Char}

theorem intercalate_head (ms : Lines) :
    ['\n'].intercalate ((u ++ w) :: ms) = u ++ ['\n'].intercalate (w :: ms) := by
  cases ms with
  | nil => rw [List.intercalate_singleton, List.intercalate_singleton]
  | cons m ms =>
    rw [List.intercalate_cons_cons, List.intercalate_cons_cons, List.append_assoc, List.append_assoc,
      List.append_assoc]

/-- Lines, cut inside one of them. -/
theorem intercalate_cut (ls ms : Lines) :
    ['\n'].intercalate (ls ++ (u ++ w) :: ms) =
      ['\n'].intercalate (ls ++ [u]) ++ ['\n'].intercalate (w :: ms) := by
  by_cases hls : ls = []
  · rw [hls, List.nil_append, List.nil_append, intercalate_head, List.intercalate_singleton]
  · rw [intercalate_append hls (List.cons_ne_nil _ _), intercalate_append hls (List.cons_ne_nil _ _),
      intercalate_head, List.intercalate_singleton, List.append_assoc, List.cons_append]

/-- The lines of a text that is cut at no line end: the cut is inside one of them. -/
theorem splitOn_cut (hd : d ≠ '\n') (a b : List Char) : ∃ ls x y ms,
    a.splitOn '\n' = ls ++ [x] ∧ b.splitOn '\n' = y :: ms ∧
      (a ++ d :: b).splitOn '\n' = ls ++ (x ++ d :: y) :: ms := by
  induction a with
  | nil =>
    obtain ⟨y, ms, hb⟩ := List.exists_cons_of_ne_nil (List.splitOn_ne_nil '\n' b)
    refine ⟨[], [], y, ms, rfl, hb, ?_⟩
    rw [List.nil_append, List.splitOn_cons_eq_if_modifyHead, if_neg (by simpa using hd), hb]
    rfl
  | cons e a ih =>
    obtain ⟨ls, x, y, ms, ha, hb, hab⟩ := ih
    rw [List.cons_append, List.splitOn_cons_eq_if_modifyHead, List.splitOn_cons_eq_if_modifyHead, ha, hab]
    by_cases he : (e == '\n') = true
    · rw [if_pos he, if_pos he]
      exact ⟨[] :: ls, x, y, ms, rfl, hb, rfl⟩
    · rw [if_neg he, if_neg he]
      cases ls with
      | nil => exact ⟨[], e :: x, y, ms, rfl, hb, rfl⟩
      | cons l ls => exact ⟨(e :: l) :: ls, x, y, ms, rfl, hb, rfl⟩

theorem exists_append_strip (cs : List Char) :
    ∃ blanks, rstrip cs = blanks ++ strip cs ∧ ∀ c ∈ blanks, isSpace c = true := by
  by_cases hcs : strip cs = []
  · have hall := strip_eq_nil.mp hcs
    exact ⟨[], by rw [rstrip_eq_nil.mpr hall, hcs]; rfl, fun c hc => absurd hc List.not_mem_nil⟩
  · refine ⟨cs.takeWhile isSpace, ?_, fun c hc => List.mem_takeWhile_imp hc⟩
    have hsplit : cs = cs.takeWhile isSpace ++ lstrip cs := List.takeWhile_append_dropWhile.symm
    calc rstrip cs = rstrip (cs.takeWhile isSpace ++ lstrip cs) := congrArg rstrip hsplit
      _ = cs.takeWhile isSpace ++ strip cs := rstrip_append hcs

theorem rstrip_cons (hd : isSpace d = false) (cs : List Char) : rstrip (d :: cs) = d :: rstrip cs := by
  by_cases hcs : rstrip cs = []
  · have hone : rstrip [d] = [d] := rstrip_of_last fun c hc => by
      obtain rfl := Option.some.inj hc
      exact hd
    rw [hcs, ← hone]
    exact rstrip_blanks (a := [d]) (rstrip_eq_nil.mp hcs)
  · exact rstrip_append (a := [d]) hcs

theorem lstrip_cut (hd : isSpace d = false) (a b : List Char) : lstrip (a ++ d :: b) = lstrip a ++ d :: b := by
  by_cases ha : lstrip a = []
  · rw [lstrip_blanks (lstrip_eq_nil.mp ha), ha]
    exact List.dropWhile_cons_of_neg (by simp [hd])
  · exact lstrip_append ha

/-- A value with a separator, as a file gives it back: white space may stand at the separator. -/
theorem trimLines_cut (hd : isSpace d = false) (a b : List Char) : ∃ s t,
    (∀ c ∈ s, isSpace c = true) ∧ (∀ c ∈ t, isSpace c = true) ∧
      trimLines (a ++ d :: b) = trimLines a ++ s ++ d :: (t ++ trimLines b) := by
  have hline : d ≠ '\n' := by
    rintro rfl
    exact absurd hd (by decide)
  obtain ⟨ls, x, y, ms, ha, hb, hab⟩ := splitOn_cut hline a b
  obtain ⟨s, hs, hblanks⟩ := exists_rstrip_append (lstrip x)
  obtain ⟨t, ht, hblankt⟩ := exists_append_strip y
  have hne : rstrip (d :: y) ≠ [] := by
    rw [rstrip_cons hd]
    exact List.cons_ne_nil _ _
  have hstrip : strip (x ++ d :: y) = strip x ++ ((s ++ d :: t) ++ strip y) :=
    calc strip (x ++ d :: y) = lstrip x ++ rstrip (d :: y) := by rw [strip, lstrip_cut hd, rstrip_append hne]
      _ = (strip x ++ s) ++ (d :: (t ++ strip y)) := by rw [rstrip_cons hd, ht, hs]; rfl
      _ = strip x ++ ((s ++ d :: t) ++ strip y) := by simp
  refine ⟨s, t, hblanks, hblankt, ?_⟩
  rw [trimLines, trimLines, trimLines, hab, ha, hb, List.map_append, List.map_append, List.map_cons,
    List.map_cons, List.map_cons, hstrip, intercalate_cut, intercalate_head]
  simp

theorem strip_append_blanks (hs : ∀ c ∈ u, isSpace c = true) : strip (cs ++ u) = strip cs := by
  have h := @strip_blanks [] u cs (fun c hc => absurd hc List.not_mem_nil) hs
  rwa [List.nil_append] at h

theorem strip_blanks_append (hs : ∀ c ∈ u, isSpace c = true) : strip (u ++ cs) = strip cs := by
  have h := @strip_blanks u [] cs hs fun c hc => absurd hc List.not_mem_nil
  rwa [List.append_nil] at h

theorem notMem_of_blanks (hd : isSpace d = false) (hs : ∀ c ∈ u, isSpace c = true) : d ∉ u := by
  intro hmem
  rw [hs d hmem] at hd
  cases hd

theorem notMem_trimLines (hd : isSpace d = false) (h : d ∉ cs) : d ∉ trimLines cs := by
  intro hmem
  rcases mem_intercalate hmem with rfl | ⟨l, hl, hd'⟩
  · exact absurd hd (by decide)
  · obtain ⟨m, hm, rfl⟩ := List.mem_map.mp hl
    exact h (of_mem_splitOn m hm d (mem_of_mem_strip hd')).1

/-- White space in front of a text is in front of the first of its parts. -/
theorem strip_splitOn_blanks (hd : isSpace d = false) (hs : ∀ c ∈ u, isSpace c = true) (cs : List Char) :
    ((u ++ cs).splitOn d).map strip = (cs.splitOn d).map strip := by
  induction u with
  | nil => rfl
  | cons e u ih =>
    have he := hs e List.mem_cons_self
    have hne : e ≠ d := by
      rintro rfl
      rw [he] at hd
      cases hd
    have hu := ih fun c hc => hs c (List.mem_cons_of_mem e hc)
    obtain ⟨p, ps, hps⟩ := List.exists_cons_of_ne_nil (List.splitOn_ne_nil d (u ++ cs))
    rw [← hu, List.cons_append, List.splitOn_cons_eq_if_modifyHead, if_neg (by simpa using hne), hps,
      List.modifyHead_cons, List.map_cons, List.map_cons, strip_cons_of_isSpace he]

/-- The parts of a value that a file gives back are those of the value, each as a file gives it back. -/
theorem splitOn_trimLines_strip (hd : isSpace d = false) (cs : List Char) :
    ((trimLines cs).splitOn d).map strip = (cs.splitOn d).map fun l => strip (trimLines l) := by
  generalize hn : (cs.splitOn d).length = n
  induction n generalizing cs with
  | zero => exact absurd (List.length_eq_zero_iff.mp hn) (List.splitOn_ne_nil d cs)
  | succ n ih =>
    by_cases hmem : d ∈ cs
    · obtain ⟨a, b, rfl, ha⟩ := List.eq_append_cons_of_mem hmem
      obtain ⟨s, t, hs, ht, heq⟩ := trimLines_cut hd a b
      rw [List.splitOn_append_cons_self_of_not_mem ha, List.length_cons] at hn
      have hrest := ih b (Nat.succ.inj hn)
      have hfront : d ∉ trimLines a ++ s := fun h => (List.mem_append.mp h).elim (notMem_trimLines hd ha)
        (notMem_of_blanks hd hs)
      rw [heq, List.splitOn_append_cons_self_of_not_mem hfront, List.splitOn_append_cons_self_of_not_mem ha,
        List.map_cons, List.map_cons, strip_append_blanks hs, strip_splitOn_blanks hd ht, hrest]
    · rw [List.splitOn_eq_singleton (notMem_trimLines hd hmem), List.splitOn_eq_singleton hmem]
      rfl

/-- A blank in front of a value goes. -/
theorem trimLines_cons (hc : isSpace c = true) (hline : c ≠ '\n') (cs : List Char) :
    trimLines (c :: cs) = trimLines cs := by
  obtain ⟨first, rest, hfirst⟩ := List.exists_cons_of_ne_nil (List.splitOn_ne_nil '\n' cs)
  have hcons : (c :: cs).splitOn '\n' = (c :: first) :: rest := by
    rw [List.splitOn_cons_eq_if_modifyHead, if_neg (by simpa using hline), hfirst]
    rfl
  rw [trimLines, trimLines, hfirst, hcons, List.map_cons, List.map_cons, strip_cons_of_isSpace hc]

theorem trimLines_newline (cs : List Char) : trimLines ('\n' :: cs) = '\n' :: trimLines cs := by
  have hcons : ('\n' :: cs).splitOn '\n' = [] :: cs.splitOn '\n' := by
    rw [List.splitOn_cons_eq_if_modifyHead, if_pos (by decide)]
  obtain ⟨first, rest, hfirst⟩ := List.exists_cons_of_ne_nil (List.splitOn_ne_nil '\n' cs)
  rw [trimLines, trimLines, hcons, hfirst, List.map_cons, List.map_cons, List.intercalate_cons_cons]
  rfl

/-- White space in front of a value leaves none but in front. -/
theorem strip_trimLines_blanks (hu : ∀ c ∈ u, isSpace c = true) (cs : List Char) :
    strip (trimLines (u ++ cs)) = strip (trimLines cs) := by
  induction u with
  | nil => rfl
  | cons c u ih =>
    have hrest := ih fun d hd => hu d (List.mem_cons_of_mem c hd)
    by_cases hc : c = '\n'
    · rw [hc, List.cons_append, trimLines_newline, strip_cons_of_isSpace (by decide), hrest]
    · rw [List.cons_append, trimLines_cons (hu c List.mem_cons_self) hc, hrest]

theorem strip_trimLines_concat (hc : isSpace c = true) (cs : List Char) :
    strip (trimLines (cs ++ [c])) = strip (trimLines cs) := by
  obtain ⟨ls, last, hlast⟩ : ∃ ls last, cs.splitOn '\n' = ls ++ [last] :=
    ⟨_, _, (List.dropLast_append_getLast (List.splitOn_ne_nil '\n' cs)).symm⟩
  by_cases hline : c = '\n'
  · have hsplit : (cs ++ ['\n']).splitOn '\n' = cs.splitOn '\n' ++ [[]] := List.splitOn_append_cons_self cs []
    have hne : (cs.splitOn '\n').map strip ≠ [] := fun h => List.splitOn_ne_nil '\n' cs (List.map_eq_nil_iff.mp h)
    rw [hline, trimLines, hsplit, List.map_append, List.map_singleton, intercalate_append hne (by simp)]
    exact strip_append_blanks fun d hd => by
      rw [List.mem_singleton.mp hd]
      decide
  · have hsplit : (cs ++ [c]).splitOn '\n' = ls ++ [last ++ [c]] := by
      obtain ⟨ls', x, y, ms, hcs, hnil, hcut⟩ := splitOn_cut hline cs []
      rw [List.splitOn_nil] at hnil
      obtain ⟨rfl, rfl⟩ := List.cons.inj hnil
      rw [hlast] at hcs
      obtain ⟨rfl, hx⟩ := List.append_inj' hcs rfl
      rw [hcut, (List.cons.inj hx).1]
    have hblank : strip (last ++ [c]) = strip last := strip_append_blanks fun d hd => by
      rw [List.mem_singleton.mp hd]
      exact hc
    rw [trimLines, trimLines, hsplit, hlast, List.map_append, List.map_append, List.map_singleton,
      List.map_singleton, hblank]

theorem strip_trimLines_append (hu : ∀ c ∈ u, isSpace c = true) (cs : List Char) :
    strip (trimLines (cs ++ u)) = strip (trimLines cs) := by
  induction u using List.reverseRecOn with
  | nil => rw [List.append_nil]
  | append_singleton u c ih =>
    rw [← List.append_assoc, strip_trimLines_concat (hu c (by simp)),
      ih fun d hd => hu d (List.mem_append_left _ hd)]

/-- White space around a value leaves none but around it. -/
theorem strip_trimLines_strip (cs : List Char) : strip (trimLines (strip cs)) = strip (trimLines cs) := by
  obtain ⟨blanks, hback, hblanks⟩ := exists_rstrip_append (lstrip cs)
  have hsplit : cs = cs.takeWhile isSpace ++ lstrip cs := List.takeWhile_append_dropWhile.symm
  calc strip (trimLines (strip cs)) = strip (trimLines (strip cs ++ blanks)) :=
        (strip_trimLines_append hblanks _).symm
    _ = strip (trimLines (lstrip cs)) := by rw [hback]; rfl
    _ = strip (trimLines (cs.takeWhile isSpace ++ lstrip cs)) :=
        (strip_trimLines_blanks (fun c hc => List.mem_takeWhile_imp hc) _).symm
    _ = strip (trimLines cs) := by rw [← hsplit]

/-- A part of a value that a file holds is given back as it is. -/
theorem RegularValue.strip_trimLines (h : RegularValue cs) (hd : isSpace d = false) {l : List Char}
    (hl : l ∈ cs.splitOn d) : strip (trimLines (strip l)) = strip l := by
  have hparts := splitOn_trimLines_strip hd cs
  rw [h.trimLines_eq] at hparts
  rw [strip_trimLines_strip]
  exact (List.map_inj_left.mp hparts l hl).symm

theorem infix_of_mem_splitOn {l : List Char} (h : l ∈ cs.splitOn d) : l <:+: cs := by
  have hinfix : ∀ ls : Lines, l ∈ ls → l <:+: [d].intercalate ls := by
    intro ls hmem
    induction ls with
    | nil => cases hmem
    | cons m ls ih =>
      cases ls with
      | nil =>
        have hwhole : [d].intercalate [m] = m := List.intercalate_singleton
        obtain rfl := List.mem_singleton.mp hmem
        exact hwhole.symm ▸ List.infix_rfl
      | cons m' ls =>
        rw [List.intercalate_cons_cons]
        rcases List.mem_cons.mp hmem with rfl | hmem
        · rw [List.append_assoc]
          exact (List.prefix_append _ _).isInfix
        · exact (ih hmem).trans (List.suffix_append _ _).isInfix
  have hwhole := hinfix _ h
  rwa [List.intercalate_splitOn] at hwhole

theorem strip_inside (cs : List Char) : strip cs <:+: cs :=
  (strip_start_lstrip cs).isInfix.trans (List.dropWhile_suffix _).isInfix

/-- A part of a value that a file holds is quiet. -/
theorem RegularValue.quiet_part (h : RegularValue cs) {l : List Char} (hl : l ∈ cs.splitOn d) : Quiet (strip l) := by
  obtain ⟨x, y, heq⟩ := (strip_inside l).trans (infix_of_mem_splitOn hl)
  have hquiet := h.quiet
  rw [← heq] at hquiet
  exact hquiet.of_infix (trimmed_strip l).2

/-- One line without white space around it. -/
theorem regularValue_of_oneLine (hline : '\n' ∉ cs ∧ '\r' ∉ cs) (htrimmed : Trimmed cs) : RegularValue cs := by
  have hone : cs.splitOn '\n' = [cs] := List.splitOn_eq_singleton hline.1
  refine ⟨hline.2, ?_, ?_, htrimmed.2⟩
  · intro l hl
    rw [hone] at hl
    rwa [List.mem_singleton.mp hl]
  · intro l hl
    rw [hone] at hl
    cases hl

end Parts

end Ini

end JenKea
