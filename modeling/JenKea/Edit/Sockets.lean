import JenKea.Lib.PyEq

/-!
# Control sockets

The editors of a daemon's control sockets in `jen/services/kea_config_edit.py`, and the compensation that a
failed setup runs with the sockets it read before. A daemon has a list of sockets, or in the older spelling one
socket alone, which an editor rewrites as a list.
-/

namespace JenKea.Edit

open Json

/-! ## The editors -/

/-- What an editor reports. -/
inductive Code where
  | ok
  | nochange
  | multiple
  | unsupported
  deriving DecidableEq

/-- The key of the list. -/
def manySockets : String := "control-sockets"

/-- The key of one socket alone. -/
def oneSocket : String := "control-socket"

/-- `_DAEMON_KEY`. -/
def daemonKey : String → Option String
  | "dhcp4" => some "Dhcp4"
  | "dhcp6" => some "Dhcp6"
  | "d2" => some "DhcpDdns"
  | _ => none

/-- `_daemon_section`, with its key. -/
def daemonBlock (cfg : Fields) (service : String) : Option (String × Fields) :=
  (daemonKey service).bind fun key =>
    match lookup key cfg with
    | some (.obj block) => some (key, block)
    | _ => none

/-- `_replace_key_in_place`, where the new key is not there yet. -/
def replaceKeyInPlace (old new : String) (v : Json) (block : Fields) : Fields :=
  block.map fun f => if f.1 = old then (new, v) else f

/-- `_control_sockets`: the block with its sockets as a list, and the list. -/
def socketList (block : Fields) : Option (Fields × List Json) :=
  match lookup manySockets block with
  | some (.arr sockets) => some (block, sockets)
  | some _ => none
  | none =>
    match lookup oneSocket block with
    | some (.obj single) =>
      some (replaceKeyInPlace oneSocket manySockets (.arr [.obj single]) block, [.obj single])
    | some _ => none
    | none => some (set manySockets (.arr []) block, [])

/-- The value of a key of an entry, `None` where it has none. -/
def fieldOf (key : String) : Json → Json
  | .obj fields => valueOf key fields
  | _ => .null

/-- `_is_api_socket`. -/
def isApiSocket (entry : Json) : Bool :=
  fieldOf "socket-type" entry == .str "http" || fieldOf "socket-type" entry == .str "https"

/-- The configuration with other sockets in a block. -/
def putSockets (cfg : Fields) (key : String) (block : Fields) (sockets : List Json) : Fields :=
  set key (.obj (set manySockets (.arr sockets) block)) cfg

/-- `set_control_socket`. -/
def setControlSocket (cfg : Fields) (service : String) (socket : Json) : Fields × Code :=
  match daemonBlock cfg service with
  | none => (cfg, .unsupported)
  | some (key, block) =>
    match socketList block with
    | none => (cfg, .unsupported)
    | some (block, sockets) =>
      if 1 < sockets.countP isApiSocket then (putSockets cfg key block sockets, .multiple)
      else
        match sockets.find? isApiSocket with
        | some existing =>
          if existing.pyEq socket then (putSockets cfg key block sockets, .nochange)
          else (putSockets cfg key block (sockets.set (sockets.findIdx isApiSocket) socket), .ok)
        | none => (putSockets cfg key block (sockets ++ [socket]), .ok)

/-- The entry that is named: with an address and a port it is the socket there, and else any API socket. -/
def isNamed (address port : Json) (entry : Json) : Bool :=
  isApiSocket entry && (address == .null && port == .null ||
    (fieldOf "socket-address" entry).pyEq address && (fieldOf "socket-port" entry).pyEq port)

/-- `remove_control_socket`. -/
def removeControlSocket (cfg : Fields) (service : String) (address port : Json) : Fields × Code :=
  match daemonBlock cfg service with
  | none => (cfg, .unsupported)
  | some (key, block) =>
    if lookup manySockets block = none ∧ lookup oneSocket block = none then (cfg, .nochange)
    else
      match socketList block with
      | none => (cfg, .unsupported)
      | some (block, sockets) =>
        if address = .null ∧ port = .null ∧ 1 < sockets.countP isApiSocket then
          (putSockets cfg key block sockets, .multiple)
        else if sockets.any (isNamed address port) then
          (putSockets cfg key block (sockets.filter fun s => !isNamed address port s), .ok)
        else (putSockets cfg key block sockets, .nochange)

/-! ## The snapshot and the compensation -/

/-- The sockets of a block, as a list. -/
def socketsOf (block : Fields) : List Json :=
  match lookup manySockets block with
  | some (.arr sockets) => sockets
  | some _ => []
  | none =>
    match lookup oneSocket block with
    | some (.obj single) => [.obj single]
    | _ => []

/-- `control_sockets`. -/
def controlSockets (cfg : Fields) (service : String) : List Json :=
  (daemonBlock cfg service).elim [] fun found => socketsOf found.2

/-- A dictionary. -/
def isMap : Json → Bool
  | .obj _ => true
  | _ => false

/-- A list. -/
def isList : Json → Bool
  | .arr _ => true
  | _ => false

/-- A block that `restore_control_sockets` writes: a list, or one socket that is a map, or neither. -/
def isRestorable (block : Fields) : Bool :=
  (lookup manySockets block).all isList &&
    ((lookup oneSocket block).isNone || (lookup manySockets block).isNone && (lookup oneSocket block).all isMap)

/-- The block with the snapshot. An empty one is no key at all. -/
def restoreBlock (block : Fields) (snapshot : List Json) : Fields :=
  if (lookup oneSocket block).isSome then
    if snapshot = [] then pop oneSocket block
    else replaceKeyInPlace oneSocket manySockets (.arr snapshot) block
  else if snapshot = [] then pop manySockets block
  else set manySockets (.arr snapshot) block

/-- `restore_control_sockets`. -/
def restoreControlSockets (cfg : Fields) (service : String) (snapshot : List Json) : Fields × Code :=
  match daemonBlock cfg service with
  | none => (cfg, .unsupported)
  | some (key, block) =>
    if snapshot.all isMap && isRestorable block then
      if (Json.arr (socketsOf block)).pyEq (.arr snapshot) && (lookup oneSocket block).isNone then
        (cfg, .nochange)
      else (set key (.obj (restoreBlock block snapshot)) cfg, .ok)
    else (cfg, .unsupported)

/-! ## An edit -/

/-- One of the two editors, with its arguments. -/
inductive SocketEdit where
  | set (socket : Json)
  | remove (address port : Json)

/-- The editor. -/
def SocketEdit.apply (edit : SocketEdit) (cfg : Fields) (service : String) : Fields × Code :=
  match edit with
  | .set socket => setControlSocket cfg service socket
  | .remove address port => removeControlSocket cfg service address port

/-- No dictionary of the socket has a key twice. -/
def SocketEdit.WF : SocketEdit → Prop
  | .set socket => socket.WF
  | .remove _ _ => True

/-- The keys of a block other than those of its sockets. -/
def otherKeys (block : Fields) : Fields := pop oneSocket (pop manySockets block)

/-- An edit that was made, as the compensation finds it. -/
structure Edited (cfg : Fields) (service : String) (changed : Fields) (key : String) (block : Fields)
    (sockets sockets' : List Json) : Prop where
  found : daemonBlock cfg service = some (key, block)
  listed : ∃ block', socketList block = some (block', sockets) ∧
    changed = putSockets cfg key block' sockets'
  differs : (Json.arr sockets').pyEq (.arr sockets) = false

section Edit

variable {cfg : Fields} {service key : String} {block block' : Fields} {sockets sockets' : List Json}

theorem pyEqList_length {xs ys : List Json} (h : pyEqList xs ys = true) : xs.length = ys.length := by
  induction xs generalizing ys with
  | nil =>
    cases ys with
    | nil => rfl
    | cons y ys => cases h
  | cons x xs ih =>
    cases ys with
    | nil => cases h
    | cons y ys =>
      rw [pyEqList, Bool.and_eq_true] at h
      rw [List.length_cons, List.length_cons, ih h.2]

theorem pyEqList_getElem {xs ys : List Json} (h : pyEqList xs ys = true) {i : ℕ} {x y : Json}
    (hx : xs[i]? = some x) (hy : ys[i]? = some y) : x.pyEq y = true := by
  induction xs generalizing ys i with
  | nil => cases hx
  | cons x' xs ih =>
    cases ys with
    | nil => cases hy
    | cons y' ys =>
      rw [pyEqList, Bool.and_eq_true] at h
      cases i with
      | zero =>
        obtain rfl := Option.some.inj hx
        obtain rfl := Option.some.inj hy
        exact h.1
      | succ i => exact ih h.2 hx hy

theorem wf_of_lookup {fs : Fields} {k : String} {v : Json} (hfs : WF (.obj fs)) (h : lookup k fs = some v) :
    WF v := wfFields_iff.mp hfs.2 (k, v) (mem_of_lookup h)

theorem lookup_of_daemonBlock (h : daemonBlock cfg service = some (key, block)) :
    daemonKey service = some key ∧ lookup key cfg = some (.obj block) := by
  obtain ⟨key', hkey, h⟩ := Option.bind_eq_some_iff.mp h
  cases hlookup : lookup key' cfg with
  | none =>
    rw [hlookup] at h
    cases h
  | some v =>
    cases v with
    | obj block' =>
      rw [hlookup] at h
      obtain ⟨rfl, rfl⟩ := Prod.mk.inj (Option.some.inj h)
      exact ⟨hkey, hlookup⟩
    | _ =>
      rw [hlookup] at h
      cases h

theorem daemonBlock_set {v : Fields} (h : daemonBlock cfg service = some (key, block)) :
    daemonBlock (set key (.obj v) cfg) service = some (key, v) := by
  obtain ⟨hkey, -⟩ := lookup_of_daemonBlock h
  unfold daemonBlock
  rw [hkey, Option.bind_some, lookup_set_self]

/-- Every socket of the list is well formed. -/
theorem wf_socketList (hcfg : WF (.obj cfg)) (hfound : daemonBlock cfg service = some (key, block))
    (hlist : socketList block = some (block', sockets)) : ∀ s ∈ sockets, WF s := by
  have hblock : WF (.obj block) := wf_of_lookup hcfg (lookup_of_daemonBlock hfound).2
  unfold socketList at hlist
  cases hmany : lookup manySockets block with
  | some v =>
    rw [hmany] at hlist
    cases v with
    | arr xs =>
      obtain ⟨-, rfl⟩ := Prod.mk.inj (Option.some.inj hlist)
      exact wfList_iff.mp (wf_of_lookup hblock hmany)
    | _ => cases hlist
  | none =>
    rw [hmany] at hlist
    cases hone : lookup oneSocket block with
    | some v =>
      rw [hone] at hlist
      cases v with
      | obj single =>
        obtain ⟨-, rfl⟩ := Prod.mk.inj (Option.some.inj hlist)
        intro s hs
        rw [List.mem_singleton.mp hs]
        exact wf_of_lookup hblock hone
      | _ => cases hlist
    | none =>
      rw [hone] at hlist
      obtain ⟨-, rfl⟩ := Prod.mk.inj (Option.some.inj hlist)
      exact fun s hs => absurd hs List.not_mem_nil

/-- A socket in the place of another one that is not equal to it makes another list. -/
theorem set_differs {i : ℕ} {existing socket : Json} (hexisting : sockets[i]? = some existing)
    (hwf : WF existing) (hwf' : WF socket) (hne : existing.pyEq socket = false) :
    (Json.arr (sockets.set i socket)).pyEq (.arr sockets) = false := by
  rw [Bool.eq_false_iff]
  intro h
  have hi : i < sockets.length := (List.getElem?_eq_some_iff.mp hexisting).1
  have hsocket : (sockets.set i socket)[i]? = some socket := List.getElem?_set_self hi
  have hsame := pyEqList_getElem h hsocket hexisting
  rw [pyEq_symm hwf' hwf hsame] at hne
  cases hne

theorem length_differs (h : sockets'.length ≠ sockets.length) :
    (Json.arr sockets').pyEq (.arr sockets) = false := by
  rw [Bool.eq_false_iff]
  exact fun heq => h (pyEqList_length heq)

theorem edited_set {socket : Json} (hcfg : WF (.obj cfg)) (hsocket : WF socket)
    (hok : (setControlSocket cfg service socket).2 = .ok) :
    ∃ key block sockets sockets',
      Edited cfg service (setControlSocket cfg service socket).1 key block sockets sockets' := by
  unfold setControlSocket at hok ⊢
  cases hfound : daemonBlock cfg service with
  | none =>
    rw [hfound] at hok
    cases hok
  | some found =>
    obtain ⟨key, block⟩ := found
    rw [hfound] at hok
    dsimp only at hok ⊢
    cases hlist : socketList block with
    | none =>
      rw [hlist] at hok
      cases hok
    | some listed =>
      obtain ⟨block', sockets⟩ := listed
      rw [hlist] at hok
      dsimp only at hok ⊢
      split_ifs at hok ⊢ with hmany
      cases hfind : sockets.find? isApiSocket with
      | none =>
        refine ⟨key, block, sockets, sockets ++ [socket], hfound, ⟨block', hlist, rfl⟩, length_differs ?_⟩
        rw [List.length_append, List.length_singleton]
        omega
      | some existing =>
        rw [hfind] at hok
        dsimp only at hok ⊢
        split_ifs at hok ⊢ with hsame
        have hmem : existing ∈ sockets := List.mem_of_find?_eq_some hfind
        have hindex : sockets[sockets.findIdx isApiSocket]? = some existing := by
          rw [← List.find?_eq_getElem?_findIdx]
          exact hfind
        exact ⟨key, block, sockets, _, hfound, ⟨block', hlist, rfl⟩,
          set_differs hindex (wf_socketList hcfg hfound hlist existing hmem) hsocket
            (Bool.eq_false_iff.mpr hsame)⟩

theorem edited_remove {address port : Json} (hok : (removeControlSocket cfg service address port).2 = .ok) :
    ∃ key block sockets sockets',
      Edited cfg service (removeControlSocket cfg service address port).1 key block sockets sockets' := by
  unfold removeControlSocket at hok ⊢
  cases hfound : daemonBlock cfg service with
  | none =>
    rw [hfound] at hok
    cases hok
  | some found =>
    obtain ⟨key, block⟩ := found
    rw [hfound] at hok
    dsimp only at hok ⊢
    split_ifs at hok ⊢ with hnone
    cases hlist : socketList block with
    | none =>
      rw [hlist] at hok
      cases hok
    | some listed =>
      obtain ⟨block', sockets⟩ := listed
      rw [hlist] at hok
      dsimp only at hok ⊢
      split_ifs at hok ⊢ with hmany hnamed
      refine ⟨key, block, sockets, _, hfound, ⟨block', hlist, rfl⟩, length_differs ?_⟩
      obtain ⟨s, hs, hsnamed⟩ := List.any_eq_true.mp hnamed
      have hlt : (sockets.filter fun s => !isNamed address port s).length < sockets.length :=
        List.length_filter_lt_length_iff_exists.mpr ⟨s, hs, by rw [hsnamed]; exact Bool.false_ne_true⟩
      omega

/-! ### The compensation finds the edit -/

theorem pop_pop {k : String} (fs : Fields) : pop k (pop k fs) = pop k fs := by
  unfold pop
  rw [List.filter_filter]
  simp only [Bool.and_self]

/-- The list of an editor is the snapshot. -/
theorem socketsOf_of_socketList (hlist : socketList block = some (block', sockets)) :
    socketsOf block = sockets := by
  unfold socketList at hlist
  unfold socketsOf
  cases hmany : lookup manySockets block with
  | some v =>
    rw [hmany] at hlist
    cases v with
    | arr xs => exact (Prod.mk.inj (Option.some.inj hlist)).2
    | _ => cases hlist
  | none =>
    rw [hmany] at hlist
    cases hone : lookup oneSocket block with
    | some v =>
      rw [hone] at hlist
      cases v with
      | obj single => exact (Prod.mk.inj (Option.some.inj hlist)).2
      | _ => cases hlist
    | none =>
      rw [hone] at hlist
      exact (Prod.mk.inj (Option.some.inj hlist)).2

theorem lookup_replaceKeyInPlace {old new : String} {v : Json} (hne : new ≠ old) (block : Fields) :
    lookup old (replaceKeyInPlace old new v block) = none := by
  induction block with
  | nil => rfl
  | cons f fs ih =>
    obtain ⟨k, w⟩ := f
    unfold replaceKeyInPlace at ih ⊢
    rw [List.map_cons]
    by_cases hk : k = old
    · rw [if_pos hk, lookup_cons, if_neg hne]
      exact ih
    · rw [if_neg hk, lookup_cons, if_neg hk]
      exact ih

theorem otherKeys_replaceKeyInPlace {v : Json} (block : Fields) :
    otherKeys (replaceKeyInPlace oneSocket manySockets v block) = otherKeys block := by
  induction block with
  | nil => rfl
  | cons f fs ih =>
    obtain ⟨k, w⟩ := f
    unfold otherKeys pop replaceKeyInPlace at ih ⊢
    rw [List.map_cons]
    by_cases hk : k = oneSocket
    · subst hk
      exact ih
    · have hk' : (k != oneSocket) = true := bne_iff_ne.mpr hk
      simp only [if_neg hk, List.filter_cons]
      split_ifs with hmany
      · simp only [List.filter_cons, hk', if_true]
        rw [ih]
      · exact ih

/-- The list form of a block has the other keys of the block, and no socket in the older spelling where the
block did not have both. -/
theorem otherKeys_of_socketList (hlist : socketList block = some (block', sockets)) :
    otherKeys block' = otherKeys block ∧
      ((lookup oneSocket block').isSome = true ↔
        (lookup oneSocket block).isSome = true ∧ (lookup manySockets block).isSome = true) := by
  unfold socketList at hlist
  cases hmany : lookup manySockets block with
  | some v =>
    rw [hmany] at hlist
    cases v with
    | arr xs =>
      obtain ⟨rfl, -⟩ := Prod.mk.inj (Option.some.inj hlist)
      exact ⟨rfl, by simp⟩
    | _ => cases hlist
  | none =>
    rw [hmany] at hlist
    cases hone : lookup oneSocket block with
    | some v =>
      rw [hone] at hlist
      cases v with
      | obj single =>
        obtain ⟨rfl, -⟩ := Prod.mk.inj (Option.some.inj hlist)
        refine ⟨otherKeys_replaceKeyInPlace block, ?_⟩
        rw [lookup_replaceKeyInPlace (by decide)]
        simp
      | _ => cases hlist
    | none =>
      rw [hone] at hlist
      obtain ⟨rfl, -⟩ := Prod.mk.inj (Option.some.inj hlist)
      have hsame : otherKeys (set manySockets (.arr []) block) = otherKeys block := by
        unfold otherKeys
        rw [pop_set_self]
      refine ⟨hsame, ?_⟩
      rw [lookup_set_ne (by decide), hone]
      simp

/-- What is written back into a block with a list. -/
theorem socketsOf_restoreBlock (sockets : List Json) (hnone : lookup oneSocket block = none) :
    socketsOf (restoreBlock block sockets) = sockets ∧
      otherKeys (restoreBlock block sockets) = otherKeys block := by
  have hisSome : ¬ (lookup oneSocket block).isSome = true := by
    rw [hnone]
    exact Bool.false_ne_true
  unfold restoreBlock
  rw [if_neg hisSome]
  by_cases hempty : sockets = []
  · subst hempty
    rw [if_pos rfl]
    have hmany : lookup manySockets (pop manySockets block) = none := by rw [lookup_pop, if_pos rfl]
    have hone : lookup oneSocket (pop manySockets block) = none := by
      rw [lookup_pop, hnone, if_neg (by decide)]
    constructor
    · unfold socketsOf
      rw [hmany, hone]
    · unfold otherKeys
      rw [pop_pop]
  · rw [if_neg hempty]
    have hmany : lookup manySockets (set manySockets (.arr sockets) block) = some (.arr sockets) :=
      lookup_set_self
    constructor
    · unfold socketsOf
      rw [hmany]
    · unfold otherKeys
      rw [pop_set_self]

end Edit

/-- The sockets can be put back: every entry is a map, and they are written in one spelling. -/
def isUndoable (cfg : Fields) (service : String) : Bool :=
  (controlSockets cfg service).all isMap &&
    (daemonBlock cfg service).all fun found =>
      !((lookup oneSocket found.2).isSome && (lookup manySockets found.2).isSome)

/-- The configuration is the other one but for how the sockets of the daemon are spelled: the sockets are the
same, and so are the other keys of the block and the other blocks. -/
structure SameButSpelling (cfg restored : Fields) (service : String) : Prop where
  sockets : controlSockets restored service = controlSockets cfg service
  others : ∃ key block block', daemonBlock cfg service = some (key, block) ∧
    daemonBlock restored service = some (key, block') ∧ otherKeys block' = otherKeys block ∧
    pop key restored = pop key cfg

theorem Edited.restored {cfg changed : Fields} {service key : String} {block : Fields}
    {sockets sockets' : List Json} (h : Edited cfg service changed key block sockets sockets') :
    if isUndoable cfg service then
      (restoreControlSockets changed service (controlSockets cfg service)).2 = .ok ∧
        SameButSpelling cfg (restoreControlSockets changed service (controlSockets cfg service)).1 service
    else restoreControlSockets changed service (controlSockets cfg service) = (changed, .unsupported) := by
  obtain ⟨block', hlist, rfl⟩ := h.listed
  obtain ⟨hothers, hspelled⟩ := otherKeys_of_socketList hlist
  have hsnapshot : controlSockets cfg service = sockets := by
    unfold controlSockets
    rw [h.found]
    exact socketsOf_of_socketList hlist
  -- the block as the editor left it
  have hfound : daemonBlock (putSockets cfg key block' sockets') service =
      some (key, set manySockets (.arr sockets') block') := daemonBlock_set h.found
  have hmany : lookup manySockets (set manySockets (.arr sockets') block') = some (.arr sockets') :=
    lookup_set_self
  have hone : lookup oneSocket (set manySockets (.arr sockets') block') = lookup oneSocket block' :=
    lookup_set_ne (by decide)
  have hsockets' : socketsOf (set manySockets (.arr sockets') block') = sockets' := by
    unfold socketsOf
    rw [hmany]
  have hundoable : isUndoable cfg service =
      (sockets.all isMap && isRestorable (set manySockets (.arr sockets') block')) := by
    unfold isUndoable isRestorable
    rw [hsnapshot, h.found, hmany, hone]
    have hbool : ((lookup oneSocket block).isSome && (lookup manySockets block).isSome) =
        (lookup oneSocket block').isSome := by
      rw [Bool.eq_iff_iff, Bool.and_eq_true]
      exact hspelled.symm
    simp only [Option.all_some, isList, hbool, Option.isNone_some, Bool.false_and, Bool.or_false,
      Bool.true_and, Option.not_isSome]
  unfold restoreControlSockets
  rw [hfound, hsnapshot]
  dsimp only
  rw [hundoable, hsockets', h.differs, Bool.false_and]
  by_cases hwrites : (sockets.all isMap && isRestorable (set manySockets (.arr sockets') block')) = true
  · rw [if_pos hwrites, if_pos hwrites, if_neg Bool.false_ne_true]
    have hnone : lookup oneSocket (set manySockets (.arr sockets') block') = none := by
      rw [Bool.and_eq_true] at hwrites
      have hrestorable := hwrites.2
      unfold isRestorable at hrestorable
      rw [hmany] at hrestorable
      simpa [isList] using hrestorable
    have hrestored : daemonBlock (set key (.obj (restoreBlock (set manySockets (.arr sockets') block') sockets))
        (putSockets cfg key block' sockets')) service =
        some (key, restoreBlock (set manySockets (.arr sockets') block') sockets) := daemonBlock_set hfound
    obtain ⟨hback, hkeys⟩ := socketsOf_restoreBlock sockets hnone
    refine ⟨rfl, ?_, key, block, _, h.found, hrestored, ?_, ?_⟩
    · show controlSockets (set key _ (putSockets cfg key block' sockets')) service = _
      unfold controlSockets
      rw [hrestored, h.found]
      exact hback.trans (socketsOf_of_socketList hlist).symm
    · rw [hkeys, ← hothers]
      unfold otherKeys
      rw [pop_set_self]
    · show pop key (set key _ (set key _ cfg)) = pop key cfg
      rw [pop_set_self, pop_set_self]
  · rw [if_neg hwrites, if_neg hwrites]

/-- The compensation of an edit that was made is exact where it runs: it runs where every entry of the
snapshot is a map and the sockets were written in one spelling, and then the sockets are those of the snapshot
and everything else is as it was. Elsewhere it says that it does not, and changes nothing. -/
theorem restored_controlSockets (cfg : Fields) (service : String) (edit : SocketEdit)
    (hcfg : WF (.obj cfg)) (hedit : edit.WF) (hok : (edit.apply cfg service).2 = .ok) :
    if isUndoable cfg service then
      (restoreControlSockets (edit.apply cfg service).1 service (controlSockets cfg service)).2 = .ok ∧
        SameButSpelling cfg
          (restoreControlSockets (edit.apply cfg service).1 service (controlSockets cfg service)).1 service
    else restoreControlSockets (edit.apply cfg service).1 service (controlSockets cfg service) =
      ((edit.apply cfg service).1, .unsupported) := by
  have hedited : ∃ key block sockets sockets',
      Edited cfg service (edit.apply cfg service).1 key block sockets sockets' := by
    cases edit with
    | set socket => exact edited_set hcfg hedit hok
    | remove address port => exact edited_remove hok
  obtain ⟨key, block, sockets, sockets', hedited⟩ := hedited
  exact hedited.restored

/-! ### A socket of each spelling -/

/-- A daemon with one socket in the older spelling. -/
def olderConfig : Fields :=
  [("Dhcp4", .obj [("valid-lifetime", .int 4000),
    ("control-socket", .obj [("socket-type", .str "unix"), ("socket-name", .str "/run/kea/kea4-ctrl-socket")]),
    ("subnet4", .arr [])])]

/-- An API socket. -/
def apiSocket : Json :=
  .obj [("socket-type", .str "http"), ("socket-address", .str "127.0.0.1"), ("socket-port", .int 8000)]

theorem restored_olderConfig :
    (restoreControlSockets (setControlSocket olderConfig "dhcp4" apiSocket).1 "dhcp4"
        (controlSockets olderConfig "dhcp4")).2 = .ok ∧
      SameButSpelling olderConfig
        (restoreControlSockets (setControlSocket olderConfig "dhcp4" apiSocket).1 "dhcp4"
          (controlSockets olderConfig "dhcp4")).1 "dhcp4" := by
  have hcfg : WF (.obj olderConfig) := by simp [olderConfig, WF, WFFields, WFList]
  have hsocket : WF apiSocket := by simp [apiSocket, WF, WFFields]
  have hrestored := restored_controlSockets olderConfig "dhcp4" (.set apiSocket) hcfg hsocket
    (by decide)
  have hundoable : isUndoable olderConfig "dhcp4" = true := by decide
  rw [if_pos hundoable] at hrestored
  exact hrestored

/-- A list with an entry that is no map is edited, and not put back. -/
theorem not_restored_controlSockets :
    (setControlSocket [("Dhcp4", .obj [("control-sockets", .arr [.str "unix"])])] "dhcp4" apiSocket).2 = .ok ∧
      (restoreControlSockets
        (setControlSocket [("Dhcp4", .obj [("control-sockets", .arr [.str "unix"])])] "dhcp4" apiSocket).1
        "dhcp4" (controlSockets [("Dhcp4", .obj [("control-sockets", .arr [.str "unix"])])] "dhcp4")).2 =
        .unsupported := by
  decide

end JenKea.Edit
