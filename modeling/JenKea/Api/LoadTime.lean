import Mathlib.Data.Rat.Floor
import JenKea.Lib.Clock
import JenKea.Api.Model

/-!
# The times of a file and its daemon

What a host answers of the time of a file and of the daemon's last commit, and how far Jen may rely on it:
the host rounds the first up and its clock down, the daemon counts whole seconds, and Jen subtracts.
-/

namespace JenKea.Api

variable {K : Type} [Field K] [LinearOrder K] [FloorRing K] {H : Type}

/-- What there is to read when a host is asked for the times, on its clock. -/
structure Moment (K : Type) [LE K] where
  /-- When the file was last modified. -/
  modified : K
  /-- The clock, read before the daemon is asked. -/
  asked : K
  /-- When the daemon replies. -/
  replied : K
  /-- When the daemon last committed a configuration. -/
  committed : K
  asked_le : asked ≤ replied

/-- What `status-get` comes to. -/
inductive StatusGet where
  | noSocket (note : String)
  | silent
  | refused (result : ℤ)
  | answered (uptime : Option ℤ)
  deriving DecidableEq, Repr

/-- An age that the helper passes on. -/
def plausibleAge (age : ℤ) : Option ℤ := if 0 ≤ age ∧ age < 4000000000 then some age else none

/-- The age of the daemon's last commit, in whole seconds. -/
def Moment.reload (m : Moment K) : ℤ := ⌊m.replied - m.committed⌋

/-- `op_config_loaded`, of a file that was read: `mtime` is rounded up, and `now` is rounded down before the
daemon is asked. -/
def Moment.times (m : Moment K) (status : StatusGet) : Times :=
  let answer (daemon : Option DaemonTimes) (note : String) : Times :=
    { mtime := some ⌈m.modified⌉, now := some ⌊m.asked⌋, daemon := daemon, socketNote := note }
  match status with
  | .noSocket note =>
    answer none (Text.orElse note "no control socket in the config")
  | .silent => answer none "the socket did not answer"
  | .refused result => answer none s!"status-get answered {result}"
  | .answered uptime => match plausibleAge m.reload with
    | none => answer none "status-get carries no reload"
    | some reload => answer (some ⟨uptime.bind plausibleAge, some reload⟩) ""

/-- The time of the file is no later than that of the daemon's last commit, as Jen compares them. -/
def FileRead.loadedInTime (f : FileRead H) : Bool :=
  f.mtime.any fun mtime => f.loadedAt.any fun loadedAt => mtime ≤ loadedAt

/-- This is the comparison before the daemon is asked for what it runs. -/
theorem liveOnceLoaded_eq (server : Server) (service : Service) (f : FileRead H) (r : OnRecord) :
    liveOnceLoaded server service f r = if f.loadedInTime ∧ r = .nothing then do
      let got ← get server service
      return got.toOption.map Prod.fst
    else return none := rfl

/-- A daemon that the helper gives the age of was asked, and answered it. -/
theorem reload_of_daemon {m : Moment K} {status : StatusGet} {daemon : DaemonTimes}
    (h : (m.times status).daemon = some daemon) : daemon.reload = some m.reload := by
  cases status with
  | noSocket note => cases h
  | silent => cases h
  | refused result => cases h
  | answered uptime =>
    unfold Moment.times plausibleAge at h
    split_ifs at h with hage
    obtain rfl := Option.some.inj h
    rfl

/-- The times that Jen compares are the host's, as it rounded them. -/
theorem ceil_le_of_loadedInTime {m : Moment K} {status : StatusGet} {f : FileRead H}
    (htimes : f.times = some (m.times status)) (h : f.loadedInTime = true) :
    ⌈m.modified⌉ ≤ ⌊m.asked⌋ - ⌊m.replied - m.committed⌋ := by
  unfold FileRead.loadedInTime FileRead.mtime FileRead.loadedAt at h
  rw [htimes, Option.bind_some, Option.bind_some] at h
  obtain ⟨mtime, hmtime, hle⟩ := (Option.any_eq_true ..).mp h
  obtain ⟨loadedAt, hloaded, hle⟩ := (Option.any_eq_true ..).mp hle
  have hm : (m.times status).mtime = some ⌈m.modified⌉ := by
    cases status with
    | answered uptime =>
      unfold Moment.times plausibleAge
      split_ifs <;> rfl
    | _ => rfl
  have hn : (m.times status).now = some ⌊m.asked⌋ := by
    cases status with
    | answered uptime =>
      unfold Moment.times plausibleAge
      split_ifs <;> rfl
    | _ => rfl
  unfold Times.loadedAt at hloaded
  simp only [Option.bind_eq_bind, Option.bind_eq_some_iff, Option.pure_def, Option.some.injEq] at hloaded
  obtain ⟨daemon, hdaemon, now, hnow, reload, hreload, rfl⟩ := hloaded
  have hmtime' := (Option.filter_eq_some_iff.mp hmtime).1
  have hnow' := (Option.filter_eq_some_iff.mp hnow).1
  have hreload' := (Option.filter_eq_some_iff.mp hreload).1
  rw [hm, Option.some.injEq] at hmtime'
  rw [hn, Option.some.injEq] at hnow'
  rw [reload_of_daemon hdaemon, Option.some.injEq] at hreload'
  rw [hmtime', hnow', show ⌊m.replied - m.committed⌋ = reload from hreload']
  exact of_decide_eq_true hle

/-- A file whose time is accepted was modified less than a second after the daemon's last commit. -/
theorem modified_lt_of_loadedInTime [IsStrictOrderedRing K] (m : Moment K) (status : StatusGet)
    (f : FileRead H) (htimes : f.times = some (m.times status)) (h : f.loadedInTime = true) :
    m.modified < m.committed + 1 :=
  Clock.lt_of_ceil_le m.asked_le (ceil_le_of_loadedInTime htimes h)

/-- A commit at 19.5, seen at 30.9 with an age of eleven seconds, and a file of 18.2. -/
def sampleMoment : Moment ℚ := ⟨182 / 10, 309 / 10, 31, 195 / 10, by norm_num⟩

theorem modified_lt_of_loadedInTime_sample :
    sampleMoment.modified < sampleMoment.committed + 1 :=
  modified_lt_of_loadedInTime (H := Unit) sampleMoment (.answered none)
    ⟨[], (), some (sampleMoment.times (.answered none))⟩ rfl (by decide +kernel)

end JenKea.Api
