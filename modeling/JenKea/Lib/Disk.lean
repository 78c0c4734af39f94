import Mathlib.Logic.Function.Basic
import JenKea.Lib.Calls

/-!
# Files and the calls on them

A disk has entries under names. The calls on it are those of the kernel: each may fail with an error, and does
what it is asked for or nothing, but for a write, which may leave any part of the data. Each call has a rule for
`Prog.wp`, and these are all that a proof about a program needs.

`World.stuck` is no part of the disk: it is the names that could not be removed.
-/

namespace JenKea

/-! ## The disk -/

/-- A regular file. -/
structure Stored where
  data : List UInt8
  uid : ℕ
  gid : ℕ
  mode : ℕ
  deriving DecidableEq, Repr

/-- What stands under a name. -/
inductive DiskEntry where
  | file (stored : Stored)
  | link
  | dir
  /-- A device, a pipe, or a socket. -/
  | special
  deriving DecidableEq, Repr

/-- The errors that callers tell apart. -/
inductive Errno where
  | noEntry
  | exists_
  | loop
  | other
  deriving DecidableEq, Repr

/-- An `OSError`, with its text. -/
structure OsError where
  errno : Errno
  text : String
  deriving DecidableEq, Repr

/-- The entries, and the names that could not be removed. -/
structure World (N : Type) where
  disk : N → Option DiskEntry
  stuck : List N

/-- The account that creates a file. -/
structure Account where
  uid : ℕ
  gid : ℕ

/-! ## The calls -/

/-- The calls on a disk of names `N`. -/
inductive DiskOp (N : Type) where
  /-- A random number. -/
  | token
  | lstat (name : N)
  /-- A new file, which nobody else reads. -/
  | create (name : N)
  /-- A file is opened to be written, and emptied. -/
  | openWrite (name : N)
  | write (name : N) (data : List UInt8)
  | chown (name : N) (uid gid : Option ℕ)
  | chmod (name : N) (mode : ℕ)
  /-- A file is opened to be read; a link is not followed. -/
  | openRead (name : N)
  | fstat (name : N)
  | read (name : N)
  | close (name : N)
  /-- The first name becomes the second. -/
  | replace (src dst : N)
  | unlink (name : N)

/-- The calls with their answers. -/
def DiskOps (N : Type) : Interface where
  Op := DiskOp N
  Ans
    | .token => ℕ
    | .lstat _ | .fstat _ => Except OsError DiskEntry
    | .read _ => Except OsError (List UInt8)
    | _ => Except OsError Unit

/-- What the environment decides at a call: whether it fails, which is for none of the errors that say what
stands there. -/
structure DiskDecision where
  fails : Option String
  /-- What a write that fails leaves. -/
  part : List UInt8
  token : ℕ

section Calls

variable {N : Type} [DecidableEq N]

/-- The world with an entry changed. -/
def World.put (w : World N) (name : N) (entry : Option DiskEntry) : World N :=
  { w with disk := Function.update w.disk name entry }

@[simp] theorem World.put_stuck (w : World N) (name : N) (entry : Option DiskEntry) :
    (w.put name entry).stuck = w.stuck := rfl

@[simp] theorem World.put_self (w : World N) (name : N) (entry : Option DiskEntry) :
    (w.put name entry).disk name = entry := Function.update_self ..

@[simp] theorem World.put_ne (w : World N) {name other : N} (entry : Option DiskEntry) (h : other ≠ name) :
    (w.put name entry).disk other = w.disk other := Function.update_of_ne h ..

/-- A change of a file, which fails where there is none. -/
def onFile (w : World N) (name : N) (f : Stored → Stored) : Except OsError Unit × World N :=
  match w.disk name with
  | some (.file stored) => (.ok (), w.put name (some (.file (f stored))))
  | _ => (.error ⟨.noEntry, "No such file or directory"⟩, w)

/-- What a call does where it does not fail. -/
def perform (who : Account) (c : DiskDecision) : (o : DiskOp N) → World N →
    (DiskOps N).Ans o × World N
  | .token, w => (c.token, w)
  | .lstat name, w | .fstat name, w => (match w.disk name with
    | some entry => .ok entry
    | none => .error ⟨.noEntry, "No such file or directory"⟩, w)
  | .create name, w => match w.disk name with
    | some _ => (.error ⟨.exists_, "File exists"⟩, w)
    | none => (.ok (), w.put name (some (.file ⟨[], who.uid, who.gid, 0o600⟩)))
  | .openWrite name, w => match w.disk name with
    | none => (.ok (), w.put name (some (.file ⟨[], who.uid, who.gid, 0o644⟩)))
    | some (.file stored) => (.ok (), w.put name (some (.file { stored with data := [] })))
    | some _ => (.error ⟨.other, "Is a directory"⟩, w)
  | .write name data, w => onFile w name fun stored => { stored with data := data }
  | .chown name uid gid, w => onFile w name fun stored =>
    { stored with uid := uid.getD stored.uid, gid := gid.getD stored.gid }
  | .chmod name mode, w => onFile w name fun stored => { stored with mode := mode }
  | .openRead name, w => (match w.disk name with
    | some .link => .error ⟨.loop, "Too many levels of symbolic links"⟩
    | some _ => .ok ()
    | none => .error ⟨.noEntry, "No such file or directory"⟩, w)
  | .read name, w => (match w.disk name with
    | some (.file stored) => .ok stored.data
    | _ => .error ⟨.other, "Is a directory"⟩, w)
  | .close _, w => (.ok (), w)
  | .replace src dst, w => match w.disk src, w.disk dst with
    | none, _ => (.error ⟨.noEntry, "No such file or directory"⟩, w)
    | some _, some .dir => (.error ⟨.other, "Is a directory"⟩, w)
    | some entry, _ => (.ok (), (w.put src none).put dst (some entry))
  | .unlink name, w => match w.disk name with
    | none => (.error ⟨.noEntry, "No such file or directory"⟩, w)
    | some .dir => (.error ⟨.other, "Is a directory"⟩, { w with stuck := name :: w.stuck })
    | some _ => (.ok (), w.put name none)

/-- What a call that fails does. -/
def fail (c : DiskDecision) (text : String) : (o : DiskOp N) → World N →
    (DiskOps N).Ans o × World N
  | .token, w => (c.token, w)
  | .write name _, w => (.error ⟨.other, text⟩, (onFile w name fun stored => { stored with data := c.part }).2)
  | .unlink name, w => (.error ⟨.other, text⟩,
    if w.disk name = none then w else { w with stuck := name :: w.stuck })
  | .lstat _, w | .fstat _, w | .read _, w | .create _, w | .openWrite _, w | .chown _ _ _, w | .chmod _ _, w
  | .openRead _, w | .close _, w | .replace _ _, w => (.error ⟨.other, text⟩, w)

/-- The calls on a disk. -/
def diskOps (who : Account) : Handler (DiskOps N) (DiskDecision) (World N) :=
  fun o c w => match c.fails with
  | some text => fail c text o w
  | none => perform who c o w

end Calls

/-! ## Programs -/

/-- A program on a disk. -/
abbrev DiskRun (N α : Type) := Prog (DiskOps N) OsError α

namespace DiskRun

variable {N α β : Type}

def token : DiskRun N ℕ := Prog.op (I := DiskOps N) .token

def lstat (name : N) : DiskRun N DiskEntry := Prog.op (I := DiskOps N) (.lstat name) >>= Prog.ofExcept

def create (name : N) : DiskRun N Unit := Prog.op (I := DiskOps N) (.create name) >>= Prog.ofExcept

def openWrite (name : N) : DiskRun N Unit := Prog.op (I := DiskOps N) (.openWrite name) >>= Prog.ofExcept

def write (name : N) (data : List UInt8) : DiskRun N Unit :=
  Prog.op (I := DiskOps N) (.write name data) >>= Prog.ofExcept

def chown (name : N) (uid gid : Option ℕ) : DiskRun N Unit :=
  Prog.op (I := DiskOps N) (.chown name uid gid) >>= Prog.ofExcept

def chmod (name : N) (mode : ℕ) : DiskRun N Unit :=
  Prog.op (I := DiskOps N) (.chmod name mode) >>= Prog.ofExcept

def openRead (name : N) : DiskRun N Unit := Prog.op (I := DiskOps N) (.openRead name) >>= Prog.ofExcept

def fstat (name : N) : DiskRun N DiskEntry := Prog.op (I := DiskOps N) (.fstat name) >>= Prog.ofExcept

def read (name : N) : DiskRun N (List UInt8) := Prog.op (I := DiskOps N) (.read name) >>= Prog.ofExcept

def close (name : N) : DiskRun N Unit := Prog.op (I := DiskOps N) (.close name) >>= Prog.ofExcept

def replace (src dst : N) : DiskRun N Unit := Prog.op (I := DiskOps N) (.replace src dst) >>= Prog.ofExcept

def unlink (name : N) : DiskRun N Unit := Prog.op (I := DiskOps N) (.unlink name) >>= Prog.ofExcept

/-- `contextlib.suppress(OSError)`. -/
def suppress (p : DiskRun N Unit) : DiskRun N Unit := p.handle fun _ => pure ()

/-- `finally`: the second program runs however the first one ends. -/
def finally_ (p : DiskRun N α) (q : DiskRun N Unit) : DiskRun N α := do
  let r ← Prog.attempt p
  q
  Prog.ofExcept r

/-- Where the program raises, the second one runs before that goes on. -/
def onError (p : DiskRun N α) (q : DiskRun N Unit) : DiskRun N α :=
  p.handle fun e => do
    q
    throw e

/-! ## The rules -/

section Rules

variable [DecidableEq N] {who : Account} {w : World N} {name : N}

/-- Whatever the environment decides, the program ends with `R`. -/
abbrev EndsIn (who : Account) (p : DiskRun N α) (R : Except OsError α → World N → Prop) (w : World N) : Prop :=
  p.wp (diskOps who) (fun _ => True) R w

variable {R : Except OsError α → World N → Prop}

/-- A call ends as its answer says, where it fails and where it does not. -/
theorem ends_call {o : DiskOp N} {f : (DiskOps N).Ans o → DiskRun N α}
    (hfail : ∀ c : DiskDecision, ∀ text, (f (fail c text o w).1).EndsIn who R (fail c text o w).2)
    (hdone : ∀ c : DiskDecision, (f (perform who c o w).1).EndsIn who R (perform who c o w).2) :
    (Prog.op (I := DiskOps N) o >>= f : DiskRun N α).EndsIn who R w := by
  refine (Prog.wp_bind _ _ _).mpr fun c => ⟨trivial, ?_⟩
  cases hc : c.fails with
  | some text =>
    have hstep : diskOps who o c w = fail c text o w := by
      unfold diskOps
      rw [hc]
    rw [hstep]
    exact hfail c text
  | none =>
    have hstep : diskOps who o c w = perform who c o w := by
      unfold diskOps
      rw [hc]
    rw [hstep]
    exact hdone c

theorem ends_bind {p : DiskRun N β} {f : β → DiskRun N α}
    (h : p.EndsIn who (fun r t => match r with
      | .ok b => (f b).EndsIn who R t
      | .error e => R (.error e) t) w) : (p >>= f).EndsIn who R w := by
  refine (Prog.wp_bind p f _).mpr (Prog.wp_mono ?_ h)
  rintro (e | b) t hr
  · exact hr
  · exact hr

theorem ends_mono {R' : Except OsError α → World N → Prop} {p : DiskRun N α} (hp : p.EndsIn who R w)
    (h : ∀ r t, R r t → R' r t) : p.EndsIn who R' w := Prog.wp_mono h hp

theorem ends_attempt {R : Except OsError (Except OsError α) → World N → Prop} {p : DiskRun N α}
    (h : p.EndsIn who (fun r t => R (.ok r) t) w) :
    EndsIn who (Prog.attempt p : DiskRun N (Except OsError α)) R w := Prog.wp_attempt.mpr h

theorem ends_token {f : ℕ → DiskRun N α} (h : ∀ n, (f n).EndsIn who R w) :
    (token >>= f).EndsIn who R w := ends_call (fun c _ => h c.token) fun c => h c.token

theorem ends_lstat {R : Except OsError DiskEntry → World N → Prop}
    (herror : ∀ e, (w.disk name ≠ none → e.errno ≠ .noEntry) → R (.error e) w)
    (hok : ∀ entry, w.disk name = some entry → R (.ok entry) w) :
    (lstat name : DiskRun N DiskEntry).EndsIn who R w := by
  refine ends_call (fun _ _ => herror _ fun _ => nofun) fun c => ?_
  cases hentry : w.disk name with
  | none =>
    simp only [perform, hentry]
    exact herror _ fun h => absurd hentry h
  | some entry =>
    simp only [perform, hentry]
    exact hok entry hentry

theorem ends_fstat {R : Except OsError DiskEntry → World N → Prop} (herror : ∀ e, R (.error e) w)
    (hok : ∀ entry, w.disk name = some entry → R (.ok entry) w) :
    (fstat name : DiskRun N DiskEntry).EndsIn who R w := by
  refine ends_call (fun _ _ => herror _) fun c => ?_
  cases hentry : w.disk name with
  | none =>
    simp only [perform, hentry]
    exact herror _
  | some entry =>
    simp only [perform, hentry]
    exact hok entry hentry

theorem ends_openRead {R : Except OsError Unit → World N → Prop}
    (herror : ∀ e, (w.disk name ≠ none → e.errno ≠ .noEntry) → R (.error e) w)
    (hok : w.disk name ≠ none → R (.ok ()) w) :
    (openRead name : DiskRun N Unit).EndsIn who R w := by
  refine ends_call (fun _ _ => herror _ fun _ => nofun) fun c => ?_
  cases hentry : w.disk name with
  | none =>
    simp only [perform, hentry]
    exact herror _ fun h => absurd hentry h
  | some entry =>
    have hsome : w.disk name ≠ none := by simp [hentry]
    cases entry with
    | link =>
      simp only [perform, hentry]
      exact herror _ fun _ => nofun
    | file | dir | special =>
      simp only [perform, hentry]
      exact hok hsome

theorem ends_read {R : Except OsError (List UInt8) → World N → Prop} {stored : Stored}
    (hfile : w.disk name = some (.file stored)) (herror : ∀ e, R (.error e) w)
    (hok : R (.ok stored.data) w) : (read name : DiskRun N (List UInt8)).EndsIn who R w := by
  refine ends_call (fun _ _ => herror _) fun c => ?_
  simp only [perform, hfile]
  exact hok

theorem ends_create {R : Except OsError Unit → World N → Prop} (herror : ∀ e, R (.error e) w)
    (hok : w.disk name = none → R (.ok ()) (w.put name (some (.file ⟨[], who.uid, who.gid, 0o600⟩)))) :
    (create name : DiskRun N Unit).EndsIn who R w := by
  refine ends_call (fun _ _ => herror _) fun c => ?_
  cases hentry : w.disk name with
  | none =>
    simp only [perform, hentry]
    exact hok hentry
  | some entry =>
    simp only [perform, hentry]
    exact herror _

theorem ends_openWrite {R : Except OsError Unit → World N → Prop} (herror : ∀ e, R (.error e) w)
    (hok : ∀ stored : Stored, stored.data = [] → R (.ok ()) (w.put name (some (.file stored)))) :
    (openWrite name : DiskRun N Unit).EndsIn who R w := by
  refine ends_call (fun _ _ => herror _) fun c => ?_
  cases hentry : w.disk name with
  | none =>
    simp only [perform, hentry]
    exact hok _ rfl
  | some entry =>
    cases entry with
    | file stored =>
      simp only [perform, hentry]
      exact hok _ rfl
    | link | dir | special =>
      simp only [perform, hentry]
      exact herror _

variable {R : Except OsError Unit → World N → Prop} {stored : Stored}

theorem ends_write {data : List UInt8} (hfile : w.disk name = some (.file stored))
    (herror : ∀ e part, R (.error e) (w.put name (some (.file { stored with data := part }))))
    (hok : R (.ok ()) (w.put name (some (.file { stored with data := data })))) :
    (write name data : DiskRun N Unit).EndsIn who R w := by
  refine ends_call (fun c text => ?_) fun c => ?_
  · simp only [fail, onFile, hfile]
    exact herror _ c.part
  · simp only [perform, onFile, hfile]
    exact hok

theorem ends_chown {uid gid : Option ℕ} (hfile : w.disk name = some (.file stored))
    (herror : ∀ e, R (.error e) w)
    (hok : R (.ok ()) (w.put name
      (some (.file { stored with uid := uid.getD stored.uid, gid := gid.getD stored.gid })))) :
    (chown name uid gid : DiskRun N Unit).EndsIn who R w := by
  refine ends_call (fun _ _ => herror _) fun c => ?_
  simp only [perform, onFile, hfile]
  exact hok

theorem ends_chmod {mode : ℕ} (hfile : w.disk name = some (.file stored)) (herror : ∀ e, R (.error e) w)
    (hok : R (.ok ()) (w.put name (some (.file { stored with mode := mode })))) :
    (chmod name mode : DiskRun N Unit).EndsIn who R w := by
  refine ends_call (fun _ _ => herror _) fun c => ?_
  simp only [perform, onFile, hfile]
  exact hok

theorem ends_close (herror : ∀ e, R (.error e) w) (hok : R (.ok ()) w) :
    (close name : DiskRun N Unit).EndsIn who R w :=
  ends_call (fun _ _ => herror _) fun _ => hok

theorem ends_replace {src dst : N} {entry : DiskEntry} (hentry : w.disk src = some entry)
    (herror : ∀ e, R (.error e) w)
    (hok : w.disk dst ≠ some .dir → R (.ok ()) ((w.put src none).put dst (some entry))) :
    (replace src dst : DiskRun N Unit).EndsIn who R w := by
  refine ends_call (fun _ _ => herror _) fun c => ?_
  by_cases hdir : w.disk dst = some .dir
  · simp only [perform, hentry, hdir]
    exact herror _
  · have hstep : perform who c (.replace src dst) w =
        (.ok (), (w.put src none).put dst (some entry)) := by
      simp only [perform, hentry]
    rw [hstep]
    exact hok hdir

theorem ends_unlink
    (herror : ∀ e, w.disk name ≠ none → R (.error e) { w with stuck := name :: w.stuck })
    (habsent : ∀ e, w.disk name = none → R (.error e) w)
    (hok : w.disk name ≠ none → R (.ok ()) (w.put name none)) :
    (unlink name : DiskRun N Unit).EndsIn who R w := by
  refine ends_call (fun _ _ => ?_) fun c => ?_
  · by_cases hnone : w.disk name = none
    · simp only [fail, if_pos hnone]
      exact habsent _ hnone
    · simp only [fail, if_neg hnone]
      exact herror _ hnone
  · cases hentry : w.disk name with
    | none =>
      simp only [perform, hentry]
      exact habsent _ hentry
    | some entry =>
      have hsome : w.disk name ≠ none := by simp [hentry]
      cases entry with
      | dir =>
        simp only [perform, hentry]
        exact herror _ hsome
      | file | link | special =>
        simp only [perform, hentry]
        exact hok hsome

end Rules

end DiskRun

end JenKea
