import TcpIp.Lib.Ledger
import TcpIp.Machine

/-!
# Setting the device up (`tun_init` of `src/tun_device.c`)

`tun_alloc` opens one descriptor for each queue of the TAP device, and closes those that it has when
a call fails. Then `tun_init` runs two commands with the name of the interface.

* `TunCalls`: what the system calls give. `TunState`: the open descriptors and `tun_fds`.
* `tunAllocLoop_spec`: the loop up to its end or its first failure.
* `tun_init_outcome`: no descriptor is closed twice and none is lost. `err` is set by `ioctl` only, so
  after a failed `open` the result of `tun_alloc` is that of an earlier call, and `tun_init` goes on
  with closed descriptors.
-/

namespace TcpIp

/-! ## The model -/

/-- What the calls to the system give. -/
structure TunCalls where
  /-- The descriptor of an `open` that succeeds, when these are open. -/
  fresh : List Nat → Nat
  /-- Whether the `open` for queue `i` succeeds. -/
  opens : Nat → Bool
  /-- What the `ioctl` for queue `i` returns. -/
  ioctl : Nat → Int
  /-- `ifr.ifr_name` after the last `ioctl`. -/
  ifrName : List Char
  /-- What `system` returns. -/
  system : List Char → Int

/-- The open descriptors of the process, `tun_fds`, and `err`, which is not initialised. -/
structure TunState where
  held : List Nat
  fds : List Nat
  err : Int

/-- The loop of `tun_alloc` from queue `i` on, `n` queues to go: its end, or the queue of the failure.
`none`: a descriptor is closed that is not open. -/
def tunAllocLoop (calls : TunCalls) : Nat → Nat → TunState → Option (Except Nat Unit × TunState)
  | 0, _, s => some (.ok (), s)
  | n + 1, i, s =>
    if calls.opens i then
      let fd := calls.fresh s.held
      let s : TunState := { s with held := fd :: s.held, err := calls.ioctl i }
      if s.err ≠ 0 then
        (Ledger.give s.held fd).map fun held => (.error i, { s with held })
      else tunAllocLoop calls n (i + 1) { s with fds := s.fds.set i fd }
    else some (.error i, s)

/-- `for (--i; i >= 0; i--) close(fds[i])`. -/
def tunCloseLoop : Nat → TunState → Option TunState
  | 0, s => some s
  | i + 1, s => do
    let held ← Ledger.give s.held (s.fds.getD i 0)
    tunCloseLoop i { s with held }

/-- The result and `dev` after the call. -/
def tunAlloc (calls : TunCalls) (dev : Option (List Char)) (queues : Nat) (s : TunState) :
    Option ((Int × Option (List Char)) × TunState) :=
  if dev = none then some ((-1, dev), s)
  else do
    let (r, s) ← tunAllocLoop calls queues 0 s
    match r with
    | .ok _ => return ((0, some calls.ifrName), s)
    | .error i => do
      let s ← tunCloseLoop i s
      return ((s.err, dev), s)

def CMDBUFLEN : Nat := 100

/-- `vsnprintf` keeps a place for the terminating zero. -/
def runCmd (calls : TunCalls) (cmd : List Char) : Int := calls.system (cmd.take (CMDBUFLEN - 1))

def setInterfaceRoute (calls : TunCalls) (dev cidr : List Char) : Int :=
  runCmd calls ("ip route add dev ".toList ++ dev ++ " ".toList ++ cidr)

def setInterfaceUp (calls : TunCalls) (dev : List Char) : Int :=
  runCmd calls ("ip link set dev ".toList ++ dev ++ " up".toList)

/-- `tun_init` of a `dev` that is not `NULL`. -/
def tunInit (calls : TunCalls) (dev : List Char) (s : TunState) :
    Option (Except Stop (List Char) × TunState) := do
  let ((err, dev'), s) ← tunAlloc calls (some dev) TUN_QUEUES s
  let dev := dev'.getD []
  if err ≠ 0 then return (.error .abort, s)
  else if setInterfaceUp calls dev ≠ 0 then return (.error .abort, s)
  else if setInterfaceRoute calls dev "10.0.0.0/24".toList ≠ 0 then return (.error .abort, s)
  else return (.ok dev, s)

/-! ## The loops -/

/-- Both calls for queue `i` succeed. -/
def TunCalls.Good (calls : TunCalls) (i : Nat) : Prop := calls.opens i = true ∧ calls.ioctl i = 0

/-- Queue `i` is the first one with a call that fails. -/
structure TunCalls.FirstFailure (calls : TunCalls) (queues i : Nat) : Prop where
  lt : i < queues
  bad : ¬ calls.Good i
  before : ∀ j, j < i → calls.Good j

/-- The descriptors of the first `i` queues are open, each another one. -/
structure TunState.Opened (held₀ : List Nat) (i : Nat) (s : TunState) : Prop where
  held : s.held.Perm (s.fds.take i ++ held₀)
  nodup : s.held.Nodup
  room : i ≤ s.fds.length

section Loops

variable {calls : TunCalls} {held₀ : List Nat} {s : TunState} {i : Nat}

/-- One more queue. -/
theorem TunState.Opened.next (h : s.Opened held₀ i) (hroom : i < s.fds.length) {fd : Nat}
    (hfd : fd ∉ s.held) (err : Int) :
    TunState.Opened held₀ (i + 1) { held := fd :: s.held, fds := s.fds.set i fd, err } := by
  refine ⟨?_, List.nodup_cons.mpr ⟨hfd, h.nodup⟩, by rwa [List.length_set]⟩
  have htake : (s.fds.set i fd).take (i + 1) = s.fds.take i ++ [fd] := by
    rw [List.take_add_one, List.take_set_of_le (Nat.le_refl i)]
    simp [hroom]
  show (fd :: s.held).Perm ((s.fds.set i fd).take (i + 1) ++ held₀)
  rw [htake, List.append_assoc]
  exact (h.held.cons fd).trans List.perm_middle.symm

/-- The loop ends, or stops at the first failure with what it has opened before. -/
theorem tunAllocLoop_spec (hfresh : ∀ held, calls.fresh held ∉ held) {n : Nat}
    (h : s.Opened held₀ i) (hroom : i + n ≤ s.fds.length) :
    (∃ s', tunAllocLoop calls n i s = some (.ok (), s') ∧ s'.Opened held₀ (i + n) ∧
        s'.fds.length = s.fds.length ∧ ∀ j, i ≤ j → j < i + n → calls.Good j) ∨
      ∃ j s', i ≤ j ∧ j < i + n ∧ tunAllocLoop calls n i s = some (.error j, s') ∧
        s'.Opened held₀ j ∧ s'.fds.length = s.fds.length ∧ ¬ calls.Good j ∧
        (∀ k, i ≤ k → k < j → calls.Good k) ∧
        s'.err = if calls.opens j then calls.ioctl j else if j = i then s.err else 0 := by
  induction n generalizing i s with
  | zero => exact Or.inl ⟨s, rfl, h, rfl, fun j h1 h2 => absurd h2 (by omega)⟩
  | succ n ih =>
    by_cases hopen : calls.opens i
    · by_cases hioctl : calls.ioctl i = 0
      · -- The queue is set up.
        have hgood : calls.Good i := ⟨hopen, hioctl⟩
        have hstep : tunAllocLoop calls (n + 1) i s = tunAllocLoop calls n (i + 1)
            { held := calls.fresh s.held :: s.held, fds := s.fds.set i (calls.fresh s.held),
              err := calls.ioctl i } := by
          simp [tunAllocLoop, hopen, hioctl]
        rw [hstep]
        have hnext := h.next (by omega) (hfresh s.held) (calls.ioctl i)
        rcases ih hnext (by simp only [List.length_set]; omega) with
          ⟨s', hrun, hopened, hlen, hall⟩ | ⟨j, s', hij, hj, hrun, hopened, hlen, hbad, hall, herr⟩
        · refine Or.inl ⟨s', hrun, by rwa [Nat.add_assoc, Nat.add_comm 1] at hopened,
            by simpa using hlen, fun j h1 h2 => ?_⟩
          rcases Nat.eq_or_lt_of_le h1 with rfl | h1
          · exact hgood
          · exact hall j h1 (by omega)
        · refine Or.inr ⟨j, s', by omega, by omega, hrun, hopened, by simpa using hlen, hbad,
            fun k h1 h2 => ?_, ?_⟩
          · rcases Nat.eq_or_lt_of_le h1 with rfl | h1
            · exact hgood
            · exact hall k h1 h2
          · rw [herr, if_neg (show j ≠ i by omega)]
            simp only [hioctl, ite_self]
      · -- The descriptor of this queue is closed again.
        refine Or.inr ⟨i, { s with err := calls.ioctl i }, Nat.le_refl i, by omega, ?_,
          ⟨h.held, h.nodup, h.room⟩, rfl, fun hgood => hioctl hgood.2, fun k h1 h2 => by omega, ?_⟩
        · simp [tunAllocLoop, hopen, hioctl, Ledger.give]
        · rw [if_pos hopen]
    · refine Or.inr ⟨i, s, Nat.le_refl i, by omega, by simp [tunAllocLoop, hopen], h, rfl,
        fun hgood => hopen hgood.1, fun k h1 h2 => by omega, ?_⟩
      rw [if_neg hopen, if_pos rfl]

/-- After a failure the descriptors are closed again, the last one first. -/
theorem tunCloseLoop_spec (h : s.Opened held₀ i) :
    ∃ held, tunCloseLoop i s = some { s with held } ∧ held.Perm held₀ := by
  induction i generalizing s with
  | zero => exact ⟨s.held, rfl, by simpa using h.held⟩
  | succ i ih =>
    have hroom := h.room
    have htake : s.fds.take (i + 1) = s.fds.take i ++ [s.fds.getD i 0] := by
      rw [List.take_add_one]
      simp [List.getD_eq_getElem?_getD, show i < s.fds.length by omega]
    have hheld : s.held.Perm (s.fds.getD i 0 :: (s.fds.take i ++ held₀)) := by
      refine h.held.trans ?_
      rw [htake, List.append_assoc]
      exact List.perm_middle
    obtain ⟨held', hgive, hperm⟩ := Ledger.give_of_perm hheld
    have hnodup : held'.Nodup :=
      hperm.nodup_iff.mpr (List.nodup_cons.mp (hheld.nodup_iff.mp h.nodup)).2
    obtain ⟨held, hrun, hheld⟩ := ih (s := { s with held := held' })
      ⟨hperm, hnodup, Nat.le_of_succ_le hroom⟩
    exact ⟨held, by rw [tunCloseLoop, hgive]; exact hrun, hheld⟩

/-- The first failure, where a call fails. -/
theorem TunCalls.FirstFailure.unique {queues j : Nat} (hi : calls.FirstFailure queues i)
    (hj : calls.FirstFailure queues j) : i = j := by
  rcases Nat.lt_trichotomy i j with h | h | h
  · exact absurd (hj.before i h) hi.bad
  · exact h
  · exact absurd (hi.before j h) hj.bad

/-- `tun_alloc` opens a descriptor for each queue, or none. -/
theorem tunAlloc_spec (hfresh : ∀ held, calls.fresh held ∉ held) {queues : Nat}
    (hfds : queues ≤ s.fds.length) (hnodup : s.held.Nodup) (dev : List Char) :
    (∃ s', tunAlloc calls (some dev) queues s = some ((0, some calls.ifrName), s') ∧
        s'.Opened s.held queues ∧ s'.fds.length = s.fds.length ∧
        ∀ j, j < queues → calls.Good j) ∨
      ∃ i s', calls.FirstFailure queues i ∧
        tunAlloc calls (some dev) queues s =
          some ((if calls.opens i then calls.ioctl i else if i = 0 then s.err else 0, some dev), s') ∧
        s'.held.Perm s.held ∧ ∀ fd ∈ s'.fds.take i, fd ∉ s'.held := by
  have hstart : s.Opened s.held 0 := ⟨by simp, hnodup, Nat.zero_le _⟩
  rcases tunAllocLoop_spec hfresh hstart (n := queues) (by omega) with
    ⟨s', hrun, hopened, hlen, hall⟩ | ⟨i, s₁, -, hi, hrun, hopened, hlen, hbad, hall, herr⟩
  · rw [Nat.zero_add] at hopened
    refine Or.inl ⟨s', ?_, hopened, hlen, fun j hj => hall j (Nat.zero_le j) (by omega)⟩
    simp [tunAlloc, hrun]
  · obtain ⟨held, hclose, hheld⟩ := tunCloseLoop_spec hopened
    have hfirst : calls.FirstFailure queues i :=
      ⟨by omega, hbad, fun j hj => hall j (Nat.zero_le j) hj⟩
    refine Or.inr ⟨i, { s₁ with held }, hfirst, ?_, hheld, fun fd hfd hmem => ?_⟩
    · simp [tunAlloc, hrun, hclose, herr]
    · -- What was opened was not open before.
      have hdisjoint := List.disjoint_of_nodup_append (hopened.held.nodup_iff.mp hopened.nodup)
      exact hdisjoint hfd (hheld.mem_iff.mp hmem)

end Loops

/-! ## The outcome -/

/-- `IFNAMSIZ` of the kernel: the size of `ifr.ifr_name`. -/
def IFNAMSIZ : Nat := 16

/-- Both commands for an interface with this name succeed. -/
def TunCalls.Accepts (calls : TunCalls) (dev : List Char) : Prop :=
  calls.system ("ip link set dev ".toList ++ dev ++ " up".toList) = 0 ∧
    calls.system ("ip route add dev ".toList ++ dev ++ " 10.0.0.0/24".toList) = 0

instance (calls : TunCalls) (dev : List Char) : Decidable (calls.Accepts dev) :=
  inferInstanceAs (Decidable (_ ∧ _))

section Outcome

variable {calls : TunCalls} {s : TunState} {dev : List Char}

theorem runCmd_short (calls : TunCalls) {cmd : List Char} (h : cmd.length < CMDBUFLEN) :
    runCmd calls cmd = calls.system cmd := by
  rw [runCmd, List.take_of_length_le (by omega)]

/-- The two commands are run whole. -/
theorem accepts_iff (calls : TunCalls) (hdev : dev.length < IFNAMSIZ) :
    calls.Accepts dev ↔ setInterfaceUp calls dev = 0 ∧
      setInterfaceRoute calls dev "10.0.0.0/24".toList = 0 := by
  simp only [IFNAMSIZ] at hdev
  rw [setInterfaceUp, setInterfaceRoute, runCmd_short calls (by simp [CMDBUFLEN]; omega),
    runCmd_short calls (by simp [CMDBUFLEN]; omega), List.append_assoc _ " ".toList]
  rfl

/-- `tun_init` after `tun_alloc`. -/
theorem tunInit_of_alloc {err : Int} {dev' : List Char} {s' : TunState}
    (halloc : tunAlloc calls (some dev) TUN_QUEUES s = some ((err, some dev'), s'))
    (hdev : dev'.length < IFNAMSIZ) :
    tunInit calls dev s =
      some (if err = 0 ∧ calls.Accepts dev' then .ok dev' else .error .abort, s') := by
  simp only [tunInit, halloc, Option.bind_eq_bind, Option.bind_some, Option.getD_some,
    accepts_iff calls hdev]
  generalize setInterfaceUp calls dev' = up
  generalize setInterfaceRoute calls dev' "10.0.0.0/24".toList = route
  by_cases herr : err = 0
  · by_cases hup : up = 0
    · by_cases hroute : route = 0
      · simp [herr, hup, hroute]
      · simp [herr, hup, hroute]
    · simp [herr, hup]
  · simp [herr]

/-- **What `tun_init` leaves.** Whatever the system calls do, no descriptor is closed that is not
open. If all calls for the queues succeed, each of the queues has an open descriptor of its own, and
the result is that of the commands. If one fails, no more descriptors are open than before, those in
`tun_fds` included; the process aborts, unless the call was an `open` and `err` is zero from the
`ioctl` before it (for the first queue: from the stack). -/
theorem tun_init_outcome (hfresh : ∀ held, calls.fresh held ∉ held)
    (hfds : s.fds.length = TUN_QUEUES) (hnodup : s.held.Nodup)
    (hname : calls.ifrName.length < IFNAMSIZ) (hdev : dev.length < IFNAMSIZ) :
    ∃ r s', tunInit calls dev s = some (r, s') ∧
      ((∀ i, i < TUN_QUEUES → calls.Good i) →
        r = (if calls.Accepts calls.ifrName then .ok calls.ifrName else .error .abort) ∧
        s'.fds.length = TUN_QUEUES ∧ s'.held.Perm (s'.fds ++ s.held) ∧ s'.held.Nodup) ∧
      ∀ i, calls.FirstFailure TUN_QUEUES i →
        r = (if calls.opens i = false ∧ (i = 0 → s.err = 0) ∧ calls.Accepts dev then .ok dev
          else .error .abort) ∧
        s'.held.Perm s.held ∧ ∀ fd ∈ s'.fds.take i, fd ∉ s'.held := by
  rcases tunAlloc_spec hfresh (show TUN_QUEUES ≤ s.fds.length by omega) hnodup dev
    with ⟨s', halloc, hopened, hlen, hall⟩ | ⟨i, s', hfirst, halloc, hheld, hclosed⟩
  · refine ⟨_, s', tunInit_of_alloc halloc hname, fun _ => ⟨by simp, by omega, ?_,
      hopened.nodup⟩, fun i hi => absurd (hall i hi.lt) hi.bad⟩
    have htake := hopened.held
    rwa [List.take_of_length_le (by omega)] at htake
  · refine ⟨_, s', tunInit_of_alloc halloc hdev, fun hall => absurd (hall i hfirst.lt) hfirst.bad,
      fun j hj => ?_⟩
    obtain rfl := hfirst.unique hj
    refine ⟨?_, hheld, hclosed⟩
    have hbad := hfirst.bad
    cases hopen : calls.opens i with
    | true =>
      have hioctl : calls.ioctl i ≠ 0 := fun h => hbad ⟨hopen, h⟩
      simp [hioctl]
    | false => simp

end Outcome

/-- All calls succeed for the interface `tap0`. -/
theorem tun_init_outcome_tap0 :
    ∃ (calls : TunCalls) (s' : TunState), (∀ i, i < TUN_QUEUES → calls.Good i) ∧
      tunInit calls [] { held := [2, 1, 0], fds := List.replicate TUN_QUEUES 0, err := -1 } =
        some (.ok "tap0".toList, s') ∧
      s'.fds.length = TUN_QUEUES ∧ s'.held.Perm (s'.fds ++ [2, 1, 0]) ∧ s'.held.Nodup := by
  let calls : TunCalls :=
    { fresh := fun held => held.foldr max 0 + 1, opens := fun _ => true, ioctl := fun _ => 0
      ifrName := "tap0".toList, system := fun _ => 0 }
  have hmax : ∀ held : List Nat, ∀ fd ∈ held, fd ≤ held.foldr max 0 := by
    intro held fd hfd
    induction held with
    | nil => cases hfd
    | cons b held ih =>
      rcases List.mem_cons.mp hfd with rfl | hfd
      · exact Nat.le_max_left _ _
      · exact Nat.le_trans (ih hfd) (Nat.le_max_right _ _)
  have hgood : ∀ i, i < TUN_QUEUES → calls.Good i := fun _ _ => ⟨rfl, rfl⟩
  have hfresh : ∀ held, calls.fresh held ∉ held := fun held hmem =>
    Nat.not_succ_le_self _ (hmax held _ hmem)
  obtain ⟨r, s', hrun, hall, -⟩ := tun_init_outcome
    (s := { held := [2, 1, 0], fds := List.replicate TUN_QUEUES 0, err := -1 }) hfresh (by decide)
    (by decide) (by decide) (show ([] : List Char).length < IFNAMSIZ by decide)
  obtain ⟨hr, hopened⟩ := hall hgood
  rw [if_pos ⟨rfl, rfl⟩] at hr
  exact ⟨calls, s', hgood, by rw [hrun, hr], hopened⟩

/-- The third `open` fails, and `tun_alloc` returns the zero of the second `ioctl`. -/
example :
    (tunAlloc
      { fresh := List.length, opens := (· < 2), ioctl := fun _ => 0, ifrName := []
        system := fun _ => 1 } (some []) TUN_QUEUES
      { held := [2, 1, 0], fds := List.replicate TUN_QUEUES 0, err := -1 }).map
        (fun r => (r.1.1, r.2.held)) = some (0, [2, 1, 0]) := by
  decide

end TcpIp
