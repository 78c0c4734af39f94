import JenKea.Lib.SingleFlight
import Mathlib.Data.List.Basic

/-!
# One read of a log for all who watch it

`services/log_tail.py`: `tail` answers from a read of the last seconds where it can, and of several callers that ask for
one log at one time one reads and the others wait; `path_for` does the same for the path of the log. Both are single
flights, whatever the order in which the callers' steps, the answers of the hosts, the clock and `clear` come.

Times are in milliseconds. What a host answers is a function of the moment, of the call, and of what is asked.
-/

namespace JenKea.LogTail

open SingleFlight

/-- What of a server the module reads. -/
structure Server where
  id : Option String
  sshHost : Option String
  sshUser : Option String
  keaConf : Option String
  deriving DecidableEq

/-- `identity`. -/
def identity (server : Server) : Option String × Option String × Option String :=
  (server.sshHost, server.sshUser, server.keaConf)

/-- A call of `tail`. -/
structure Ask where
  server : Server
  path : String
  lines : ℕ
  timeout : Option ℕ
  lines_pos : 0 < lines

/-- The endpoint and the log that a read belongs to. -/
structure Key where
  who : Option String × Option String × Option String
  id : Option String
  path : String
  deriving DecidableEq

/-- `key`. -/
def Ask.key (ask : Ask) : Key := ⟨identity ask.server, ask.server.id, ask.path⟩

/-- What `kea_host.tail_log` answers. -/
inductive Answer
  | ok (lines : List String)
  | failed (code detail : String)
  deriving DecidableEq

/-- The newest lines. -/
def newest (n : ℕ) (l : List String) : List String := l.drop (l.length - n)

/-- `_slice`. -/
def slice (res : Answer) (lines : ℕ) : Answer :=
  match res with
  | .ok got => if lines < got.length then .ok (newest lines got) else res
  | .failed _ _ => res

/-- `TTL_S`. -/
def TTL : ℕ := 3000

/-- `tail`. -/
def tail : Rule Key Key Ask Answer where
  flight := Ask.key
  slot := Ask.key
  fresh age asked _ ask := age < TTL && ask.lines ≤ asked.lines
  cut res ask := slice res ask.lines
  room := 64

/-- `PATH_TTL_S`. -/
def PATH_TTL : ℕ := 120000

/-- `FAIL_TTL_S`. -/
def FAIL_TTL : ℕ := 15000

/-- What `log_path_for` says, and whether the configuration could be read. -/
structure Found where
  path : String
  read : Bool

/-- `path_for`. -/
def pathFor : Rule (Option String × Option String × Option String × Option String) (Option String) Server Found where
  flight server := (server.id, identity server)
  slot server := server.id
  fresh age asked found server := identity asked = identity server && age < (if found.read then PATH_TTL else FAIL_TTL)
  cut found _ := found
  room := 64

/-! ## The newest lines of a log -/

section Newest

variable {n m : ℕ} {l : List String}

/-- The newest of the newest. -/
theorem newest_newest (h : n ≤ m) : newest n (newest m l) = newest n l := by
  unfold newest
  rw [List.drop_drop, List.length_drop]
  congr 1
  omega

theorem newest_of_length_le (h : l.length ≤ n) : newest n l = l := by
  unfold newest
  rw [Nat.sub_eq_zero_of_le h, List.drop_zero]

/-- What `_slice` leaves of an answer. -/
theorem slice_ok : slice (.ok l) n = .ok (newest n l) := by
  unfold slice
  by_cases hn : n < l.length
  · exact if_pos hn
  · rw [newest_of_length_le (Nat.le_of_not_lt hn)]
    exact if_neg hn

theorem slice_failed {code detail : String} : slice (.failed code detail) n = .failed code detail := rfl

end Newest

/-! ## What the callers are told -/

/-- A host that answers lines answers the newest of the log. -/
def Tails (log : ℕ → Key → List String) (host : ℕ → ℕ → Ask → Option Answer) : Prop :=
  ∀ moment call ask lines, host moment call ask = some (.ok lines) → lines = newest ask.lines (log moment ask.key)

/-- An answer is what one read of the endpoint's own log gave: as many of its newest lines as were asked for, or its
failure. The read began after every `clear` before the call, and what is from the cache was kept less than `TTL` before
it was found. -/
structure Told (log : ℕ → Key → List String) (given : Given Ask Answer) : Prop where
  own : given.read.ask.key = given.ask.key
  lines : ∀ l, given.value = .ok l → l = newest given.ask.lines (log given.read.moment given.ask.key)
  failed : ∀ code detail, given.value = .failed code detail ↔ given.read.result = .failed code detail
  since : given.since ≤ given.read.generation
  recent : ∀ x ∈ given.found, given.read.moment ≤ x.1 ∧ x.1 ≤ x.2 ∧ x.2 < x.1 + TTL

section Told

variable {log : ℕ → Key → List String} {host : ℕ → ℕ → Ask → Option Answer} {given : Given Ask Answer}

theorem told_of_sound (hlog : Tails log host) (h : Sound tail host given) : Told log given := by
  have hread : ∀ l, given.read.result = .ok l → l = newest given.read.ask.lines (log given.read.moment given.read.ask.key) :=
    fun l hl => hlog _ _ _ l (by rw [h.real.result, hl])
  cases hfound : given.found with
  | none =>
    obtain ⟨hask, hvalue⟩ := h.own hfound
    refine ⟨congrArg Ask.key hask, fun l hl => ?_, fun code detail => by rw [hvalue], h.since, fun x hx => ?_⟩
    · rw [hvalue] at hl
      rw [← hask]
      exact hread l hl
    · rw [hfound] at hx
      cases hx
  | some x =>
    obtain ⟨hslot, hvalue, hmoment, hkept, hfresh⟩ := h.kept x hfound
    have hslot' : given.read.ask.key = given.ask.key := hslot
    have hfresh' : x.2 - x.1 < TTL ∧ given.ask.lines ≤ given.read.ask.lines := by
      have hboth := (Bool.and_eq_true _ _).mp hfresh
      exact ⟨of_decide_eq_true hboth.1, of_decide_eq_true hboth.2⟩
    have hcut : given.value = slice given.read.result given.ask.lines := hvalue
    refine ⟨hslot', fun l hl => ?_, fun code detail => ?_, h.since, fun y hy => ?_⟩
    · cases hresult : given.read.result with
      | ok got =>
        rw [hcut, hresult, slice_ok] at hl
        rw [← Answer.ok.inj hl, hread got hresult, hslot', newest_newest hfresh'.2]
      | failed code detail =>
        rw [hcut, hresult, slice_failed] at hl
        cases hl
    · rw [hcut]
      cases hresult : given.read.result with
      | ok got =>
        rw [slice_ok]
        exact ⟨fun hl => (by cases hl), fun hl => (by cases hl)⟩
      | failed code' detail' => rw [slice_failed]
    · rw [hfound] at hy
      obtain rfl := Option.some.inj hy
      exact ⟨hmoment, hkept, by omega⟩

end Told

/-- Whatever the callers, the hosts, the clock and `clear` do, and in whatever order: an answer of `tail` is of the log
that was asked for, and is what a read of it of the last seconds would have answered. -/
theorem told_of_answer (log : ℕ → Key → List String) (host : ℕ → ℕ → Ask → Option Answer) (hlog : Tails log host)
    (acts : List (Act Ask)) (call : ℕ) (given : Given Ask Answer)
    (hgiven : ((run tail host .start acts).calls call).answer = some given) : Told log given :=
  told_of_sound hlog (inv_run.sound hgiven)

/-- A server. -/
def kea1 : Server := ⟨some "1", some "kea-1", some "jen", none⟩

/-- A call for the newest lines of it. -/
def ask (n : ℕ) (h : 0 < n) : Ask := ⟨kea1, "/var/log/kea/kea-dhcp4.log", n, none, h⟩

/-- A log of three lines, and a host that tells it. -/
def threeLines (_ : ℕ) (_ : Key) : List String := ["a", "b", "c"]

/-- The host that tells it. -/
def tells (moment _ : ℕ) (ask : Ask) : Option Answer := some (.ok (newest ask.lines (threeLines moment ask.key)))

/-- A caller that reads two lines, and one that finds the newest of them a second later. -/
theorem told_of_answer_second : Told threeLines
    ⟨ask 1 Nat.one_pos, 0, .ok ["c"], ⟨0, ask 2 Nat.two_pos, 0, 0, .ok ["b", "c"]⟩, some (500, 1500)⟩ := by
  have htails : Tails threeLines tells := by
    intro moment call ask lines h
    exact (Answer.ok.inj (Option.some.inj h)).symm
  exact told_of_answer threeLines tells htails
    [.call 0 (ask 2 Nat.two_pos), .look 0, .answer 0, .tick 500, .keep 0, .leave 0, .signal 0, .tick 1000,
      .call 1 (ask 1 Nat.one_pos), .look 1] 1 _ rfl

/-- The path of a log is the server's own. -/
structure Placed (given : Given Server Found) : Prop where
  own : given.read.ask.id = given.ask.id ∧ identity given.read.ask = identity given.ask
  value : given.value = given.read.result
  since : given.since ≤ given.read.generation
  recent : ∀ x ∈ given.found, given.read.moment ≤ x.1 ∧ x.1 ≤ x.2 ∧
    x.2 < x.1 + (if given.value.read then PATH_TTL else FAIL_TTL)

/-- A server that is edited to point elsewhere is not told the path of the log where it pointed before, nor is any server
told one of before the last `clear`; one that could not be read is told for the shorter time. -/
theorem placed_of_answer (host : ℕ → ℕ → Server → Option Found) (acts : List (Act Server)) (call : ℕ)
    (given : Given Server Found) (hgiven : ((run pathFor host .start acts).calls call).answer = some given) :
    Placed given := by
  have h : Sound pathFor host given := inv_run.sound hgiven
  cases hfound : given.found with
  | none =>
    obtain ⟨hask, hvalue⟩ := h.own hfound
    refine ⟨⟨congrArg Server.id hask, congrArg identity hask⟩, hvalue, h.since, fun x hx => ?_⟩
    rw [hfound] at hx
    cases hx
  | some x =>
    obtain ⟨hslot, hvalue, hmoment, hkept, hfresh⟩ := h.kept x hfound
    have hboth := (Bool.and_eq_true _ _).mp hfresh
    have hvalue' : given.value = given.read.result := hvalue
    refine ⟨⟨hslot, of_decide_eq_true hboth.1⟩, hvalue, h.since, fun y hy => ?_⟩
    rw [hfound] at hy
    obtain rfl := Option.some.inj hy
    have hage : x.2 - x.1 < if given.read.result.read then PATH_TTL else FAIL_TTL := of_decide_eq_true hboth.2
    rw [hvalue']
    exact ⟨hmoment, hkept, by omega⟩

/-- A configuration that cannot be read, for a server that is edited in the meantime. -/
def unread (_ _ : ℕ) (_ : Server) : Option Found := some ⟨"/var/log/kea-dhcp4.log", false⟩

/-- The server, pointed elsewhere. -/
def kea1Moved : Server := { kea1 with sshHost := some "kea-2" }

/-- A server that was edited is not told what was kept for it before. -/
theorem placed_of_answer_moved : Placed
    ⟨kea1Moved, 0, ⟨"/var/log/kea-dhcp4.log", false⟩, ⟨1, kea1Moved, 0, 1000, ⟨"/var/log/kea-dhcp4.log", false⟩⟩, none⟩ :=
  placed_of_answer unread
    [.call 0 kea1, .look 0, .answer 0, .keep 0, .leave 0, .signal 0, .tick 1000,
      .call 1 kea1Moved, .look 1, .answer 1, .keep 1] 1 _ rfl

/-- At every time one call reads a log, and one a configuration; a call waits for a read of what it asked for only, and
none waits for good. -/
theorem orderly (host : ℕ → ℕ → Ask → Option Answer) (hostPath : ℕ → ℕ → Server → Option Found) (acts : List (Act Ask))
    (actsPath : List (Act Server)) :
    Orderly tail host (run tail host .start acts) ∧ Orderly pathFor hostPath (run pathFor hostPath .start actsPath) :=
  ⟨orderly_run, orderly_run⟩

end JenKea.LogTail
