import Mathlib.Data.List.Forall2
import JenKea.Helper.Private

/-!
# A set of files

`commitFileSet` gives every member of a set its new content, or puts back what stood there. What a failure finds
is in `Locals`, as Python's local names are when an exception is raised.
-/

namespace JenKea.Helper

open DiskRun (finally_ suppress)

/-! ## The commit -/

/-- A member of a set. -/
structure Member where
  path : String
  data : List UInt8
  uid : Option ℕ
  gid : Option ℕ
  mode : ℕ
  deriving DecidableEq, Repr

/-- The local names of `_commit_file_set`. -/
structure Locals where
  staged : List (String × Name) := []
  snapshots : String → Option Stored := fun _ => none
  replaced : List String := []

/-- `_exists_at`. -/
def existsAt (path : String) : Run Bool := do
  match ← Prog.attempt (DiskRun.lstat (.live path)) with
  | .ok _ => pure true
  | .error e => if e.errno = .noEntry then pure false else throw e

/-- A symlink at a live path is refused. -/
def refuseLink (path : String) : Run Unit := do
  if ← existsAt path then
    let entry ← DiskRun.lstat (.live path)
    if entry = .link then throw ⟨.loop, "refusing to replace a symlink"⟩

/-- A pass of a loop: what it raises leaves the loop. -/
def pass {α : Type} (locals : Locals) (p : Run α) (next : α → Run (Locals ⊕ Locals × OsError)) :
    Run (Locals ⊕ Locals × OsError) := do
  match ← Prog.attempt p with
  | .ok a => next a
  | .error e => pure (.inr (locals, e))

/-- A new file for a member. -/
def stage (m : Member) (locals : Locals) : Run (Locals ⊕ Locals × OsError) :=
  pass locals (do refuseLink m.path; privateTempfile m.path) fun tmp =>
    let locals := { locals with staged := locals.staged ++ [(m.path, tmp)] }
    pass locals (do writeAll tmp m.data; finishPrivate tmp m.uid m.gid m.mode) fun () => pure (.inl locals)

/-- What stands at a live path, which is a regular file or nothing. -/
def snapshot (path : String) : Run (Option Stored) := do
  match ← Prog.attempt (DiskRun.openRead (.live path)) with
  | .error e => if e.errno = .noEntry then pure none else throw e
  | .ok () => finally_ (do
      match ← DiskRun.fstat (.live path) with
      | .file st =>
        let data ← DiskRun.read (.live path)
        pure (some { st with data := data })
      | _ => throw ⟨.other, "refusing to replace what is not a regular file"⟩) (DiskRun.close (.live path))

def keepSnapshot (member : String × Name) (locals : Locals) : Run (Locals ⊕ Locals × OsError) :=
  pass locals (snapshot member.1) fun snap =>
    pure (.inl { locals with snapshots := Function.update locals.snapshots member.1 snap })

def replaceStaged (member : String × Name) (locals : Locals) : Run (Locals ⊕ Locals × OsError) :=
  pass locals (DiskRun.replace member.2 (.live member.1)) fun () =>
    pure (.inl { locals with replaced := locals.replaced ++ [member.1] })

/-- The body of the `try`: what is staged and replaced, and what was raised. -/
def install (members : List Member) : Run (Locals × Option OsError) := do
  match ← Prog.loop stage members {} with
  | .inr (locals, e) => pure (locals, some e)
  | .inl locals => match ← Prog.loop keepSnapshot locals.staged locals with
    | .inr (locals, e) => pure (locals, some e)
    | .inl locals => match ← Prog.loop replaceStaged locals.staged locals with
      | .inr (locals, e) => pure (locals, some e)
      | .inl locals => pure (locals, none)

/-- A live path is put back. -/
def restore (locals : Locals) (path : String) : Run Unit :=
  match locals.snapshots path with
  | none => DiskRun.unlink (.live path)
  | some snap => installPrivate path snap.data (some snap.uid) (some snap.gid) snap.mode

/-- What was replaced is put back, in reverse; the paths that cannot be, and why. -/
def rollBack (locals : Locals) : Run (List (String × OsError)) :=
  Prog.fold (fun path wrong => do
    match ← Prog.attempt (restore locals path) with
    | .ok () => pure wrong
    | .error e => pure (wrong ++ [(path, e)])) locals.replaced.reverse []

/-- What is staged is removed. -/
def removeStaged (locals : Locals) : Run Unit :=
  Prog.fold (fun member () => suppress (DiskRun.unlink member.2)) locals.staged ()

/-- `os.path.join`. -/
def joinPath (directory name : String) : String :=
  if name.toList.head? = some '/' then name
  else if directory = "" ∨ directory.toList.getLast? = some '/' then directory ++ name
  else directory ++ "/" ++ name

/-- The error that names what is now wrong. -/
def notPutBack (labelDir : Option String) (wrong : List (String × OsError)) : OsError :=
  { errno := .other
    text := "the set could not be put back; these paths are now wrong: " ++ String.intercalate ", "
      (wrong.map fun (path, e) => match labelDir with
        | none => path ++ " (" ++ e.text ++ ")"
        | some directory => joinPath directory path ++ " (" ++ e.text ++ ")") }

/-- `_commit_file_set`. -/
def commitFileSet (members : List Member) (labelDir : Option String) : Run Unit := do
  let (locals, raised) ← install members
  match raised with
  | none => removeStaged locals
  | some original =>
    let wrong ← rollBack locals
    removeStaged locals
    if wrong = [] then throw original else throw (notPutBack labelDir wrong)

/-! ## What stands on the way -/

section Specs

open DiskRun

variable {who : Account} {w : Host}

variable {members : List Member} {locals : Locals} {t : Host}

/-- What a member is to hold. -/
def Member.stored (who : Account) (m : Member) : Stored := finished who m.data m.uid m.gid m.mode

/-- What a live path holds once the members are installed: the last of those with this path counts. -/
def installed (who : Account) (w : Host) (members : List Member) (path : String) : Option DiskEntry :=
  match members.reverse.find? (·.path = path) with
  | some m => some (.file (m.stored who))
  | none => w.disk (.live path)

/-- A member and what is staged for it. -/
def IsStaged (who : Account) (t : Host) (m : Member) (member : String × Name) : Prop :=
  member.1 = m.path ∧ t.disk member.2 = some (.file (m.stored who))

/-- Only what is staged and what is replaced is not as it was. -/
structure Touched (locals : Locals) (w t : Host) : Prop where
  isNew : ∀ member ∈ locals.staged, (∃ token, member.2 = .temp member.1 token) ∧ w.disk member.2 = none
  off : ∀ name, name ∉ locals.staged.map Prod.snd → name ∉ locals.replaced.map Name.live →
    t.disk name = w.disk name
  stuck : t.stuck = w.stuck

/-- The first members are staged, and nothing is replaced. -/
structure Staging (who : Account) (members : List Member) (locals : Locals) (w t : Host) : Prop
    extends Touched locals w t where
  staged : List.Forall₂ (IsStaged who t) members locals.staged
  nodup : (locals.staged.map Prod.snd).Nodup
  unreplaced : locals.replaced = []

/-! ## Staging -/

theorem refuseLink_spec {path : String} {R : Except OsError Unit → Host → Prop} (h : ∀ r, R r w) :
    (refuseLink path : Run Unit).EndsIn who R w := by
  refine ends_bind (ends_bind (ends_attempt (ends_lstat (fun e _ => ?_) fun entry _ => ?_)))
  · dsimp only
    split_ifs
    · exact h (.ok ())
    · exact h _
  · refine ends_bind (ends_lstat (fun e _ => h _) fun entry _ => ?_)
    dsimp only
    split_ifs
    · exact h _
    · exact h _

/-- How a pass over the members ends: it goes on, or leaves with what was raised. -/
def Passed (go : Locals → Host → Prop) (leave : Locals → Host → Prop) :
    Except OsError (Locals ⊕ Locals × OsError) → Host → Prop
  | .ok (.inl locals), t => go locals t
  | .ok (.inr (locals, _)), t => leave locals t
  | .error _, _ => False

theorem pass_spec {α : Type} {p : Run α} {next : α → Run (Locals ⊕ Locals × OsError)}
    {R : Except OsError (Locals ⊕ Locals × OsError) → Host → Prop}
    (hp : p.EndsIn who (fun r u => match r with
      | .ok a => (next a).EndsIn who R u
      | .error e => R (.ok (.inr (locals, e))) u) t) : (pass locals p next).EndsIn who R t := by
  refine ends_bind (ends_attempt (ends_mono hp fun r u hr => ?_))
  cases r with
  | ok a => exact hr
  | error e => exact hr

/-- What is staged is there. -/
theorem present {staged : List (String × Name)} (h : List.Forall₂ (IsStaged who t) members staged) :
    ∀ member ∈ staged, t.disk member.2 ≠ none := by
  induction h with
  | nil => exact fun _ hmem => nomatch hmem
  | cons hfirst _ ih =>
    intro member hmem
    rcases List.mem_cons.mp hmem with rfl | hmem
    · rw [hfirst.2]
      nofun
    · exact ih member hmem

/-- What is staged stays so where its names are left alone. -/
theorem staged_of_same {staged : List (String × Name)} {u : Host}
    (h : List.Forall₂ (IsStaged who t) members staged)
    (hsame : ∀ name ∈ staged.map Prod.snd, u.disk name = t.disk name) :
    List.Forall₂ (IsStaged who u) members staged := by
  induction h with
  | nil => exact .nil
  | cons hfirst _ ih =>
    refine .cons ⟨hfirst.1, ?_⟩ (ih fun name hname => hsame name (List.mem_cons_of_mem _ hname))
    rw [hsame _ List.mem_cons_self]
    exact hfirst.2

theorem stage_spec {m : Member} (h : Staging who members locals w t) :
    (stage m locals : Run _).EndsIn who (Passed (fun l u => Staging who (members ++ [m]) l w u)
      fun l u => Touched l w u ∧ l.replaced = []) t := by
  refine pass_spec (ends_bind (refuseLink_spec fun r => ?_))
  cases r with
  | error e => exact ⟨h.toTouched, h.unreplaced⟩
  | ok _ =>
    refine privateTempfile_spec (fun e => ⟨h.toTouched, h.unreplaced⟩) fun token hnew => ?_
    -- what is staged is there, so the new name is none of these
    have hfresh : Name.temp m.path token ∉ locals.staged.map Prod.snd := by
      intro hmem
      obtain ⟨member, hmember, heq⟩ := List.mem_map.mp hmem
      exact present h.staged member hmember (heq ▸ hnew)
    have hnone : w.disk (.temp m.path token) = none := by
      rw [← h.off _ hfresh (by rw [h.unreplaced]; exact List.not_mem_nil)]
      exact hnew
    have hisNew : ∀ member ∈ locals.staged ++ [(m.path, Name.temp m.path token)],
        (∃ token, member.2 = .temp member.1 token) ∧ w.disk member.2 = none := by
      intro member hmember
      rcases List.mem_append.mp hmember with hmember | hmember
      · exact h.isNew member hmember
      · rw [List.mem_singleton.mp hmember]
        exact ⟨⟨token, rfl⟩, hnone⟩
    -- a world that differs in the new file alone
    have htouched : ∀ u, OffName (.temp m.path token) t u →
        Touched { locals with staged := locals.staged ++ [(m.path, .temp m.path token)] } w u := by
      intro u hu
      refine ⟨hisNew, fun name hname hreplaced => ?_, hu.2.trans h.stuck⟩
      rw [List.map_append, List.mem_append, not_or] at hname
      have hne : name ≠ .temp m.path token := fun heq => hname.2 (by rw [heq]; exact List.mem_singleton_self _)
      exact (hu.1 name hne).trans (h.off name hname.1 hreplaced)
    have hput := offName_put (.temp m.path token) (some (.file ⟨[], who.uid, who.gid, 0o600⟩)) t
    refine pass_spec (ends_bind (writeAll_spec (World.put_self ..) (fun e u hu => ?_) ?_))
    · exact ⟨htouched u (hput.trans hu), h.unreplaced⟩
    have hwritten := hput.trans
      (offName_put (.temp m.path token) (some (.file ⟨m.data, who.uid, who.gid, 0o600⟩)) _)
    refine finishPrivate_spec (World.put_self ..) (fun e u hu => ?_) fun u hu hfile => ?_
    · exact ⟨htouched u (hwritten.trans hu), h.unreplaced⟩
    have hoff := hwritten.trans hu
    refine { htouched u hoff with staged := ?_, nodup := ?_, unreplaced := h.unreplaced }
    · refine List.rel_append (staged_of_same h.staged fun name hname => ?_) (.cons ⟨rfl, hfile⟩ .nil)
      exact hoff.1 name fun heq => hfresh (heq ▸ hname)
    · rw [List.map_append]
      refine List.nodup_append.mpr ⟨h.nodup, List.nodup_cons.mpr ⟨List.not_mem_nil, .nil⟩, ?_⟩
      intro name hname other hother heq
      have hother' : other = .temp m.path token := List.mem_singleton.mp hother
      exact hfresh (hother' ▸ heq ▸ hname)

/-! ## Snapshots -/

/-- What stood at some live paths is kept. -/
def Kept (locals : Locals) (w : Host) (paths : List String) : Prop :=
  ∀ path ∈ paths, w.disk (.live path) = (locals.snapshots path).map DiskEntry.file

theorem snapshot_spec {path : String} {R : Except OsError (Option Stored) → Host → Prop}
    (herror : ∀ e, R (.error e) t)
    (hok : ∀ snap : Option Stored, t.disk (.live path) = snap.map DiskEntry.file → R (.ok snap) t) :
    (snapshot path : Run _).EndsIn who R t := by
  refine ends_bind (ends_attempt (ends_openRead (fun e he => ?_) fun _ => ?_))
  · dsimp only
    split_ifs with hno
    · refine hok none ?_
      by_contra h
      exact he h hno
    · exact herror e
  · have hbody : ∀ r : Except OsError (Option Stored),
        (∀ snap, r = .ok snap → t.disk (.live path) = snap.map DiskEntry.file) →
        (DiskRun.close (.live path) >>= fun _ => Prog.ofExcept r : Run _).EndsIn who R t := by
      intro r hr
      refine ends_bind (ends_close (fun e => herror e) ?_)
      cases r with
      | ok snap => exact hok snap (hr snap rfl)
      | error e => exact herror e
    refine ends_bind (ends_attempt (ends_bind (ends_fstat (fun e => hbody _ (by rintro _ ⟨⟩)) fun entry hentry => ?_)))
    cases entry with
    | file st =>
      refine ends_bind (ends_read hentry (fun e => hbody _ (by rintro _ ⟨⟩)) (hbody _ fun snap hsnap => ?_))
      rw [← Except.ok.inj hsnap]
      exact hentry
    | link | dir | special => exact hbody _ (by rintro _ ⟨⟩)

/-! ## Replacing -/

/-- The first members are replaced, and the rest is staged. -/
structure Replacing (who : Account) (done rest : List Member) (restStaged : List (String × Name))
    (locals : Locals) (w t : Host) : Prop extends Touched locals w t where
  staged : List.Forall₂ (IsStaged who t) rest restStaged
  nodup : (restStaged.map Prod.snd).Nodup
  subset : restStaged ⊆ locals.staged
  live : ∀ path, t.disk (.live path) = installed who w done path

theorem installed_append (done : List Member) (m : Member) (path : String) :
    installed who w (done ++ [m]) path =
      if m.path = path then some (.file (m.stored who)) else installed who w done path := by
  unfold installed
  rw [List.reverse_append, List.reverse_singleton, List.singleton_append, List.find?_cons]
  by_cases h : m.path = path
  · simp [h]
  · simp [h]

theorem replaceStaged_spec {m : Member} {done rest : List Member} {member : String × Name}
    {restStaged : List (String × Name)}
    (h : Replacing who done (m :: rest) (member :: restStaged) locals w t) :
    (replaceStaged member locals : Run _).EndsIn who
      (Passed (fun l u => l = { locals with replaced := locals.replaced ++ [member.1] } ∧
          Replacing who (done ++ [m]) rest restStaged l w u)
        fun l u => l = locals ∧ Touched l w u) t := by
  obtain ⟨⟨hpath, hfile⟩, hrest⟩ := List.forall₂_cons.mp h.staged
  obtain ⟨hnot, hnodup⟩ := List.nodup_cons.mp h.nodup
  obtain ⟨⟨token, htemp⟩, hnew⟩ := h.isNew member (h.subset List.mem_cons_self)
  refine pass_spec (ends_replace hfile (fun e => ⟨rfl, h.toTouched⟩) fun _ => ⟨rfl, ?_⟩)
  have hoff : ∀ name, name ≠ member.2 → name ≠ .live member.1 →
      ((t.put member.2 none).put (.live member.1) (some (.file (m.stored who)))).disk name = t.disk name := by
    intro name hne hne'
    rw [World.put_ne _ _ hne', World.put_ne _ _ hne]
  refine {
    isNew := h.isNew, stuck := h.stuck, off := ?_, staged := ?_, nodup := hnodup
    subset := fun x hx => h.subset (List.mem_cons_of_mem _ hx), live := ?_ }
  · intro name hname hreplaced
    rw [List.map_append, List.mem_append, not_or] at hreplaced
    have hne : name ≠ member.2 := fun heq =>
      hname (heq ▸ List.mem_map_of_mem (h.subset List.mem_cons_self))
    have hne' : name ≠ .live member.1 := fun heq => hreplaced.2 (by simp [heq])
    exact (hoff name hne hne').trans (h.off name hname hreplaced.1)
  · refine staged_of_same hrest fun name hname => hoff name (fun heq => hnot (heq ▸ hname)) ?_
    -- what is staged is no live path
    obtain ⟨other, hother, heq⟩ := List.mem_map.mp hname
    obtain ⟨⟨token', htemp'⟩, -⟩ := h.isNew other (h.subset (List.mem_cons_of_mem _ hother))
    rw [← heq, htemp']
    nofun
  · intro path
    rw [installed_append, ← hpath]
    by_cases hsame : member.1 = path
    · rw [if_pos hsame, hsame, World.put_self]
    · rw [if_neg hsame, hoff _ (by rw [htemp]; nofun) fun heq => hsame (Name.live.inj heq).symm]
      exact h.live path

/-! ## The whole set -/

/-- What a failure finds, and what a success has done. -/
def Installed (who : Account) (members : List Member) (w : Host) :
    Except OsError (Locals × Option OsError) → Host → Prop
  | .ok (locals, raised), u => Touched locals w u ∧ Kept locals w locals.replaced ∧
      (raised = none → ∀ path, u.disk (.live path) = installed who w members path)
  | .error _, _ => False

theorem kept_nil (h : locals.replaced = []) : Kept locals w locals.replaced := by
  rw [h]
  exact fun _ hmem => nomatch hmem

/-- Nothing that stands at a live path is changed while the members are staged. -/
theorem live_of_staging (h : Staging who members locals w t) (path : String) :
    t.disk (.live path) = w.disk (.live path) := by
  refine h.off _ (fun hmem => ?_) (by rw [h.unreplaced]; exact List.not_mem_nil)
  obtain ⟨member, hmember, heq⟩ := List.mem_map.mp hmem
  obtain ⟨⟨token, htemp⟩, -⟩ := h.isNew member hmember
  rw [htemp] at heq
  exact nomatch heq

theorem replaceAll_spec {snapshots : String → Option Stored} (hstaging : Staging who members locals w t)
    (hkept : Kept { locals with snapshots := snapshots } w (locals.staged.map Prod.fst)) :
    EndsIn who (Prog.loop replaceStaged locals.staged { locals with snapshots := snapshots } : Run _)
      (Passed (fun l u => Installed who members w (.ok (l, none)) u)
        fun l u => Touched l w u ∧ Kept l w l.replaced) t := by
  have hdisk : ∀ path, t.disk (.live path) = installed who w [] path := live_of_staging hstaging
  -- the paths that are replaced are of what is staged
  let Inv : List (String × Name) → Locals → Host → Prop := fun rest l u => ∃ replaced done restMembers,
    l = { locals with snapshots := snapshots, replaced := replaced } ∧
      replaced ⊆ locals.staged.map Prod.fst ∧ members = done ++ restMembers ∧
      Replacing who done restMembers rest l w u
  refine Prog.wp_loop Inv ?_ ?_ ⟨locals.replaced, [], members, rfl, ?_, rfl, ?_⟩
  · rintro member rest l u ⟨replaced, done, restMembers, rfl, hsubset, rfl, hreplacing⟩
    obtain ⟨m, restMembers, rfl⟩ : ∃ m ms, restMembers = m :: ms := by
      cases hreplacing.staged with
      | cons _ _ => exact ⟨_, _, rfl⟩
    refine ends_mono (replaceStaged_spec hreplacing) fun r v hr => ?_
    match r with
    | .error _ => exact hr.elim
    | .ok (.inl l') =>
      obtain ⟨rfl, hnext⟩ := hr
      refine ⟨replaced ++ [member.1], done ++ [m], restMembers, rfl, ?_, by simp, hnext⟩
      refine List.append_subset.mpr ⟨hsubset, List.cons_subset.mpr ⟨?_, List.nil_subset _⟩⟩
      exact List.mem_map_of_mem (hreplacing.subset List.mem_cons_self)
    | .ok (.inr (l', _)) =>
      obtain ⟨rfl, htouched⟩ := hr
      exact ⟨htouched, fun path hpath => hkept path (hsubset hpath)⟩
  · rintro l u ⟨replaced, done, restMembers, rfl, hsubset, rfl, hreplacing⟩
    have hnil : restMembers = [] := by
      cases hreplacing.staged with
      | nil => rfl
    refine ⟨hreplacing.toTouched, fun path hpath => hkept path (hsubset hpath), fun _ path => ?_⟩
    rw [hnil, List.append_nil]
    exact hreplacing.live path
  · rw [hstaging.unreplaced]
    exact List.nil_subset _
  · exact {
      isNew := hstaging.isNew, off := hstaging.off, stuck := hstaging.stuck, staged := hstaging.staged
      nodup := hstaging.nodup, subset := List.Subset.refl _, live := hdisk }

theorem install_spec : (install members : Run _).EndsIn who (Installed who members w) w := by
  refine ends_bind (ends_mono (R := Passed (fun l u => Staging who members l w u)
    fun l u => Touched l w u ∧ l.replaced = []) ?_ ?_)
  · refine Prog.wp_loop (fun rest l u => ∃ done, members = done ++ rest ∧ Staging who done l w u) ?_ ?_
      ⟨[], rfl, ?_⟩
    · rintro m rest l u ⟨done, rfl, hstaging⟩
      refine ends_mono (stage_spec hstaging) fun r v hr => ?_
      match r with
      | .error _ => exact hr.elim
      | .ok (.inl l') => exact ⟨done ++ [m], by simp, hr⟩
      | .ok (.inr _) => exact hr
    · rintro l u ⟨done, rfl, hstaging⟩
      show Staging who _ l w u
      rw [List.append_nil]
      exact hstaging
    · exact {
        isNew := fun _ hmem => (nomatch hmem), off := fun _ _ _ => rfl, stuck := rfl, staged := .nil
        nodup := .nil, unreplaced := rfl }
  · intro r u hr
    match r with
    | .error _ => exact hr.elim
    | .ok (.inr (l, e)) => exact ⟨hr.1, kept_nil hr.2, nofun⟩
    | .ok (.inl l) =>
      have hstaging : Staging who members l w u := hr
      refine ends_bind (ends_mono (R := Passed (fun l' v => v = u ∧ ∃ snapshots,
          l' = { l with snapshots := snapshots } ∧ Kept l' w (l.staged.map Prod.fst))
        fun l' v => v = u ∧ ∃ snapshots, l' = { l with snapshots := snapshots }) ?_ ?_)
      · refine Prog.wp_loop (fun rest l' v => v = u ∧ ∃ done snapshots, l.staged = done ++ rest ∧
          l' = { l with snapshots := snapshots } ∧ Kept l' w (done.map Prod.fst)) ?_ ?_
          ⟨rfl, [], l.snapshots, rfl, rfl, fun _ hmem => nomatch hmem⟩
        · rintro member rest l' v ⟨rfl, done, snapshots, hsplit, rfl, hkept⟩
          have hmember : member ∈ l.staged := by simp [hsplit]
          have hsame : v.disk (.live member.1) = w.disk (.live member.1) := live_of_staging hstaging _
          refine pass_spec (snapshot_spec (fun e => ⟨rfl, _, rfl⟩) fun snap hsnap => ?_)
          refine ⟨rfl, done ++ [member], _, by simp [hsplit], rfl, fun path hpath => ?_⟩
          rw [List.map_append, List.mem_append] at hpath
          show w.disk (.live path) = (Function.update snapshots member.1 snap path).map DiskEntry.file
          by_cases heq : path = member.1
          · rw [heq, ← hsame, hsnap, Function.update_self]
          · rw [Function.update_of_ne heq]
            refine hkept path (hpath.resolve_right fun hmem => heq ?_)
            exact List.mem_singleton.mp hmem
        · rintro l' v ⟨rfl, done, snapshots, hsplit, rfl, hkept⟩
          rw [List.append_nil] at hsplit
          exact ⟨rfl, snapshots, rfl, hsplit ▸ hkept⟩
      · intro r' v hr'
        match r' with
        | .error _ => exact hr'.elim
        | .ok (.inr (l', e)) =>
          obtain ⟨rfl, snapshots, rfl⟩ := hr'
          refine ⟨⟨hstaging.isNew, hstaging.off, hstaging.stuck⟩, kept_nil hstaging.unreplaced, nofun⟩
        | .ok (.inl l') =>
          obtain ⟨rfl, snapshots, rfl, hkept⟩ := hr'
          have hreplace := replaceAll_spec hstaging hkept
          refine ends_bind (ends_mono hreplace fun r'' x hr'' => ?_)
          match r'' with
          | .error _ => exact hr''.elim
          | .ok (.inl l'') => exact hr''
          | .ok (.inr (l'', e)) => exact ⟨hr''.1, hr''.2, nofun⟩

/-! ## The way back -/

/-- The new files are those that are staged, or could not be removed. -/
structure NewFiles (staged : List (String × Name)) (w t : Host) : Prop where
  temp : ∀ path token, .temp path token ∉ staged.map Prod.snd →
    t.disk (.temp path token) = w.disk (.temp path token) ∨ .temp path token ∈ t.stuck
  stuck : w.stuck ⊆ t.stuck

theorem NewFiles.of_left {staged : List (String × Name)} {w t u : Host} (h : NewFiles staged w t)
    (hleft : Left t u) : NewFiles staged w u := by
  refine ⟨fun path token hnot => ?_, List.Subset.trans h.stuck hleft.stuck⟩
  rcases hleft.temp path token with hsame | hstuck
  · rw [hsame]
    exact (h.temp path token hnot).imp_right fun hmem => hleft.stuck hmem
  · exact .inr hstuck

/-- Something is put at a live path, and the rest is as it was. -/
theorem NewFiles.of_offName {staged : List (String × Name)} {path : String} {w t u : Host}
    (h : NewFiles staged w t) (hoff : OffName (.live path) t u) : NewFiles staged w u := by
  refine ⟨fun path' token hnot => ?_, hoff.2 ▸ h.stuck⟩
  rw [hoff.1 (.temp path' token) nofun, hoff.2]
  exact h.temp path' token hnot

/-- What a restore does: the live path is as it was, or nothing is changed. -/
theorem restore_spec {path : String} {R : Except OsError Unit → Host → Prop}
    (hsnap : w.disk (.live path) = (locals.snapshots path).map DiskEntry.file)
    (herror : ∀ e u, Left t u → R (.error e) u)
    (hok : ∀ u, OffName (.live path) t u → u.disk (.live path) = w.disk (.live path) → R (.ok ()) u) :
    (restore locals path : Run Unit).EndsIn who R t := by
  unfold restore
  cases hcase : locals.snapshots path with
  | none =>
    refine ends_unlink (fun e _ => ?_) (fun e _ => herror e t (.refl t)) fun _ => ?_
    · exact herror e _ ⟨fun _ => rfl, fun _ _ => .inl rfl, List.subset_cons_self _ _⟩
    · refine hok _ (offName_put ..) ?_
      rw [World.put_self, hsnap, hcase]
      rfl
  | some snap =>
    refine installPrivate_spec herror fun u hoff hfile => hok u hoff ?_
    rw [hfile, hsnap, hcase]
    rfl

theorem rollBack_spec (hkept : Kept locals w locals.replaced) (hnew : NewFiles locals.staged w t)
    (hlive : ∀ path, path ∉ locals.replaced → t.disk (.live path) = w.disk (.live path)) :
    (rollBack locals : Run _).EndsIn who (fun r u => ∃ wrong, r = .ok wrong ∧
      NewFiles locals.staged w u ∧
      ∀ path, u.disk (.live path) = w.disk (.live path) ∨ path ∈ wrong.map Prod.fst) t := by
  -- the paths that are still to come are not judged
  let Inv : List String → List (String × OsError) → Host → Prop := fun rest wrong u =>
    rest ⊆ locals.replaced ∧ NewFiles locals.staged w u ∧
      ∀ path, path ∉ rest → u.disk (.live path) = w.disk (.live path) ∨ path ∈ wrong.map Prod.fst
  refine Prog.wp_fold Inv ?_ ?_ ⟨?_, hnew, ?_⟩
  · rintro path rest wrong u ⟨hsubset, hfiles, hback⟩
    have hsnap := hkept path (hsubset List.mem_cons_self)
    have hrest : rest ⊆ locals.replaced := fun p hp => hsubset (List.mem_cons_of_mem _ hp)
    refine ends_bind (ends_attempt (restore_spec hsnap (fun e v hleft => ?_) fun v hoff hsame => ?_))
    · refine ⟨hrest, hfiles.of_left hleft, fun path' hnot => ?_⟩
      rw [hleft.live, List.map_append, List.mem_append]
      by_cases heq : path' = path
      · exact .inr (.inr (by simp [heq]))
      · exact (hback path' (by simp [heq, hnot])).imp_right .inl
    · refine ⟨hrest, hfiles.of_offName hoff, fun path' hnot => ?_⟩
      by_cases heq : path' = path
      · exact .inl (heq ▸ hsame)
      · rw [hoff.1 _ fun hname => heq (Name.live.inj hname)]
        exact hback path' (by simp [heq, hnot])
  · rintro wrong u ⟨-, hfiles, hback⟩
    exact ⟨wrong, rfl, hfiles, fun path => hback path List.not_mem_nil⟩
  · exact fun path hpath => List.mem_reverse.mp hpath
  · exact fun path hnot => .inl (hlive path fun hmem => hnot (List.mem_reverse.mpr hmem))

/-- What is staged and still there is removed, where that can be. -/
theorem removeStaged_spec (hisNew : ∀ member ∈ locals.staged,
      (∃ token, member.2 = .temp member.1 token) ∧ w.disk member.2 = none)
    (hnew : NewFiles locals.staged w t) {R : Except OsError Unit → Host → Prop}
    (h : ∀ u, NewFiles [] w u → (∀ path, u.disk (.live path) = t.disk (.live path)) → R (.ok ()) u) :
    (removeStaged locals : Run Unit).EndsIn who R t := by
  let Inv : List (String × Name) → Unit → Host → Prop := fun rest _ u =>
    rest ⊆ locals.staged ∧ NewFiles rest w u ∧ ∀ path, u.disk (.live path) = t.disk (.live path)
  refine Prog.wp_fold Inv ?_ ?_ ⟨List.Subset.refl _, hnew, fun _ => rfl⟩
  · rintro ⟨path, name⟩ rest ⟨⟩ u ⟨hsubset, hfiles, hlive⟩
    obtain ⟨⟨token, htemp⟩, hnone⟩ := hisNew _ (hsubset List.mem_cons_self)
    obtain rfl : name = .temp path token := htemp
    have hrest : rest ⊆ locals.staged := fun m hm => hsubset (List.mem_cons_of_mem _ hm)
    have hother : ∀ path' token', Name.temp path' token' ≠ .temp path token →
        .temp path' token' ∉ rest.map Prod.snd →
        u.disk (.temp path' token') = w.disk (.temp path' token') ∨ .temp path' token' ∈ u.stuck :=
      fun path' token' hne hnot => hfiles.temp path' token' (by simp_all)
    refine (Prog.wp_handle _ _ _).mpr (ends_unlink (fun e _ => ?_) (fun e habsent => ?_) fun _ => ?_)
    · refine ⟨hrest, ⟨fun path' token' hnot => ?_, fun n hn => List.mem_cons_of_mem _ (hfiles.stuck hn)⟩, hlive⟩
      by_cases heq : Name.temp path' token' = .temp path token
      · exact .inr (heq ▸ List.mem_cons_self)
      · exact (hother path' token' heq hnot).imp_right fun hmem => List.mem_cons_of_mem _ hmem
    · refine ⟨hrest, ⟨fun path' token' hnot => ?_, hfiles.stuck⟩, hlive⟩
      by_cases heq : Name.temp path' token' = .temp path token
      · exact .inl (by rw [heq, habsent]; exact hnone.symm)
      · exact hother path' token' heq hnot
    · refine ⟨hrest, ⟨fun path' token' hnot => ?_, hfiles.stuck⟩, fun path' => ?_⟩
      · by_cases heq : Name.temp path' token' = .temp path token
        · exact .inl (by rw [heq, World.put_self]; exact hnone.symm)
        · rw [World.put_ne _ _ heq]
          exact hother path' token' heq hnot
      · rw [World.put_ne u none (by nofun : Name.live path' ≠ .temp path token)]
        exact hlive path'
  · rintro ⟨⟩ u ⟨-, hfiles, hlive⟩
    exact h u hfiles hlive

/-! ## All or nothing -/

/-- How a commit ends. -/
def Committed (who : Account) (members : List Member) (labelDir : Option String) (w : Host) :
    Except OsError Unit → Host → Prop
  | .ok (), u => NewFiles [] w u ∧ ∀ path, u.disk (.live path) = installed who w members path
  | .error e, u => NewFiles [] w u ∧ ((∀ path, u.disk (.live path) = w.disk (.live path)) ∨
      ∃ wrong, wrong ≠ [] ∧ e = notPutBack labelDir wrong ∧
        ∀ path, u.disk (.live path) ≠ w.disk (.live path) → path ∈ wrong.map Prod.fst)

theorem commitFileSet_spec (labelDir : Option String) :
    (commitFileSet members labelDir : Run Unit).EndsIn who (Committed who members labelDir w) w := by
  refine ends_bind (ends_mono install_spec fun r t hr => ?_)
  match r with
  | .error _ => exact hr.elim
  | .ok (locals, raised) =>
    obtain ⟨htouched, hkept, hdone⟩ := hr
    have hnew : NewFiles locals.staged w t := by
      refine ⟨fun path token hnot => .inl (htouched.off _ hnot fun hmem => ?_), htouched.stuck ▸ List.Subset.refl _⟩
      obtain ⟨_, -, heq⟩ := List.mem_map.mp hmem
      exact nomatch heq
    cases raised with
    | none =>
      refine removeStaged_spec htouched.isNew hnew fun u hfiles hlive => ⟨hfiles, fun path => ?_⟩
      rw [hlive path, hdone rfl path]
    | some original =>
      have hlive : ∀ path, path ∉ locals.replaced → t.disk (.live path) = w.disk (.live path) := by
        intro path hnot
        refine htouched.off _ (fun hmem => ?_) fun hmem => ?_
        · obtain ⟨member, hmember, heq⟩ := List.mem_map.mp hmem
          obtain ⟨⟨token, htemp⟩, -⟩ := htouched.isNew member hmember
          exact nomatch htemp.symm.trans heq
        · obtain ⟨path', hpath', heq⟩ := List.mem_map.mp hmem
          exact hnot (Name.live.inj heq ▸ hpath')
      refine ends_bind (ends_mono (rollBack_spec hkept hnew hlive) fun r u hr => ?_)
      obtain ⟨wrong, rfl, hfiles, hback⟩ := hr
      refine ends_bind (removeStaged_spec htouched.isNew hfiles fun v hfiles' hlive' => ?_)
      dsimp only
      split_ifs with hwrong
      · refine ⟨hfiles', .inl fun path => ?_⟩
        rw [hlive' path]
        exact (hback path).resolve_right (by simp [hwrong])
      · refine ⟨hfiles', .inr ⟨wrong, hwrong, rfl, fun path hne => ?_⟩⟩
        rw [hlive' path] at hne
        exact (hback path).resolve_left hne

/-- Whatever fails: a set that is committed has its content at every live path, a set that is not has changed
none, or the error names those that are not as they were; and of the new files only those that could not be
removed are left. -/
theorem commitFileSet_all_or_nothing (who : Account) (members : List Member) (labelDir : Option String)
    (decisions : ℕ → DiskDecision) (w : Host) :
    let ended := (commitFileSet members labelDir : Run Unit).run (diskOps who) decisions w
    Committed who members labelDir w ended.result ended.state :=
  (Prog.wp_sound (commitFileSet_spec labelDir) decisions).1

/-- A run in which the fifth call, the change of the owner, fails, and the seventh, the removal of the new file. -/
def unremoved : ℕ → DiskDecision := fun n =>
  { fails := if n = 4 ∨ n = 6 then some "[Errno 5] Input/output error" else none
    part := [], token := 7 }

def root : Account := ⟨0, 0⟩

def emptyHost : Host := ⟨fun _ => none, []⟩

/-- A set that fails can leave a new file, though nothing had to be put back. -/
theorem not_all_removed : ¬ ∀ (members : List Member) (decisions : ℕ → DiskDecision) (w : Host),
    let ended := (commitFileSet members none : Run Unit).run (diskOps root) decisions w
    ∀ e, ended.result = .error e → (∀ path, ended.state.disk (.live path) = w.disk (.live path)) →
      ∀ path token, ended.state.disk (.temp path token) = w.disk (.temp path token) := by
  intro h
  have hrun := h [⟨"server.key", [1], some 0, some 0, 0o640⟩] unremoved emptyHost
    ⟨.other, "[Errno 5] Input/output error"⟩ rfl fun _ => rfl
  exact absurd (hrun "server.key" 7) (by decide)

end Specs

end JenKea.Helper
