import TcpIp.Lib.Locked
import TcpIp.QueueConc

/-!
# The lock of the queue status (`mut_status` of `src/tun_device.c`)

`available` and `set_busy` take `mut_status` and access `busy_status` one element at a time; no other
function accesses it. `QueueConc` treats each of the two as one step. Here the steps are those of the
code, and the interleavings of `QueueConc` are what they amount to (`Locked.simulates`).

* `queueLocks`: the threads with their critical sections.
* `queue_scan_locked`: with at most `TUN_QUEUES` threads, every flag that is read is one of
  `busy_status`, no call finds every queue busy, and the owner releases the lock soon.
-/

namespace TcpIp

open Locked

/-! ## Sections -/

/-- How far a critical section has come. -/
inductive QueueSection where
  /-- `available` is about to read the flag `i`. -/
  | scan (i : Nat)
  /-- It has left the loop at `i`. -/
  | scanned (i : Nat)
  /-- `set_busy` is about to write the flag `fi`. -/
  | set (fi : Nat) (busy : Bool)
  | written
deriving Repr, DecidableEq

/-- What the threads share beside the flags. The flags in `net` are not used. -/
structure QueueRest where
  net : NetInterface
  aborted : Bool
  refused : Bool

/-- The section that a thread is about to enter. -/
def queueBegins : QueueTask → Option QueueSection
  | .read .ready | .send _ .ready => some (.scan 0)
  | .read (.handed fi) | .send _ (.swapped fi) => some (.set fi true)
  | .read (.read fi) | .send _ (.written fi) => some (.set fi false)
  | _ => none

/-- `static bool busy_status[TUN_QUEUES]`. -/
abbrev BusyStatus := Vector Bool TUN_QUEUES

/-- The next access. Past the last flag the scan ends, as in `availableLoop`. -/
def queueAccess (flags : BusyStatus) : QueueSection → BusyStatus × QueueSection
  | .scan i => (flags, if flags[i]? = some true then .scan (i + 1) else .scanned i)
  | .set fi busy => (flags.setIfInBounds fi busy, .written)
  | k => (flags, k)

/-- What the section returns: the queue that `available` has found. -/
def queueResult : QueueSection → Option (Option Nat)
  | .scanned i => some (if i ≥ TUN_QUEUES then none else some i)
  | .written => some none
  | _ => none

/-- What follows the section. -/
def queueResume (rest : QueueRest) (task : QueueTask) (found : Option Nat) :
    QueueRest × QueueTask :=
  match task with
  | .read .ready =>
    match found with
    | none => ({ rest with refused := true }, .idle)
    | some fi => (rest, .read (.handed fi))
  | .read (.handed fi) => (rest, .read (.busy fi))
  | .read (.read _) => (rest, .idle)
  | .send c .ready =>
    match found with
    | none => ({ rest with aborted := true }, task)
    | some fi => (rest, .send c (.handed fi))
  | .send c (.swapped fi) => (rest, .send c (.busy fi))
  | .send c (.written _) => (rest, .send c .done)
  | _ => (rest, task)

/-- What a thread does without the lock: it calls, or takes the next step of its call. -/
inductive QueueFree where
  | read
  | send (c : SendCall)
  | step

def queueFree (rest : QueueRest) (task : QueueTask) : QueueFree → Option (QueueRest × QueueTask)
  | .read =>
    match task with
    | .idle => some (rest, .read .ready)
    | _ => none
  | .send c =>
    match task with
    | .idle => some (rest, .send c .ready)
    | _ => none
  | .step =>
    match task with
    | .read (.busy fi) => some (rest, .read (.read fi))
    | .send c (.handed fi) =>
      some ({ rest with net := ensureHasSize fi c.totalSize rest.net }, .send c (.sized fi))
    | .send c (.sized fi) =>
      some ({ rest with net := fillBuffer fi c.protocol c.dstMac c.payload rest.net },
        .send c (.filled fi))
    | .send c (.filled fi) =>
      some ({ rest with net := bufferHton fi rest.net }, .send c (.swapped fi))
    | .send c (.busy fi) => some (rest, .send c (.written fi))
    | .send _ .done => some (rest, .idle)
    | _ => none

def queueLocks : System BusyStatus QueueRest QueueTask QueueSection (Option Nat) QueueFree where
  begins := queueBegins
  access := queueAccess
  result := queueResult
  resume := queueResume
  free := queueFree
  halted := QueueRest.aborted

/-- The state with the flags and the threads. -/
abbrev LockedQueue := State BusyStatus QueueRest QueueTask QueueSection

/-- `n` threads on a fresh interface, nobody holding the lock. -/
def LockedQueue.start (ip : UInt32) (mac : Mac) (n : Nat) : LockedQueue :=
  { prot := Vector.replicate TUN_QUEUES false
    rest := { net := netInterfaceStart ip mac, aborted := false, refused := false }
    parties := List.replicate n .idle
    owner := none }

/-! ## Sections on their own -/

/-- What a section does in one step. -/
def queueBody (flags : BusyStatus) : QueueTask → Option (BusyStatus × Option Nat)
  | .read .ready | .send _ .ready => some (flags, availableLoop flags.toList 0)
  | .read (.handed fi) | .send _ (.swapped fi) => some (flags.setIfInBounds fi true, none)
  | .read (.read fi) | .send _ (.written fi) => some (flags.setIfInBounds fi false, none)
  | _ => none

namespace QueueSection

variable {flags₀ flags : BusyStatus} {k₀ k : QueueSection}

/-- `available` reads the flags up to the first one that is not set. -/
theorem reaches_scan (h : queueLocks.Reaches flags₀ (.scan 0) flags k) :
    flags = flags₀ ∧ ∃ i, (∀ j, j < i → flags₀[j]? = some true) ∧
      (k = .scan i ∨ k = .scanned i ∧ flags₀[i]? ≠ some true) := by
  induction h with
  | start => exact ⟨rfl, 0, fun j hj => absurd hj (Nat.not_lt_zero j), Or.inl rfl⟩
  | access _ hk ih =>
    obtain ⟨rfl, i, hset, rfl | ⟨rfl, -⟩⟩ := ih
    · refine ⟨rfl, ?_⟩
      simp only [queueLocks, queueAccess]
      split
      · rename_i hi
        refine ⟨i + 1, fun j hj => ?_, Or.inl rfl⟩
        rcases Nat.lt_succ_iff_lt_or_eq.mp hj with hj | rfl
        · exact hset j hj
        · exact hi
      · rename_i hi
        exact ⟨i, hset, Or.inr ⟨rfl, hi⟩⟩
    · cases hk

/-- `set_busy` writes one flag. -/
theorem reaches_set {fi : Nat} {busy : Bool} (h : queueLocks.Reaches flags₀ (.set fi busy) flags k) :
    flags = flags₀ ∧ k = .set fi busy ∨ flags = flags₀.setIfInBounds fi busy ∧ k = .written := by
  induction h with
  | start => exact Or.inl ⟨rfl, rfl⟩
  | access _ hk ih =>
    obtain ⟨rfl, rfl⟩ | ⟨rfl, rfl⟩ := ih
    · exact Or.inr ⟨rfl, rfl⟩
    · cases hk

end QueueSection

/-- The scan ends at the first flag that is not set. -/
theorem availableLoop_of_first {flags : List Bool} {i : Nat}
    (hset : ∀ j, j < i → flags[j]? = some true) (hi : flags[i]? ≠ some true) (n : Nat) :
    availableLoop flags n = if i < flags.length then some (n + i) else none := by
  induction flags generalizing i n with
  | nil => rfl
  | cons busy rest ih =>
    cases i with
    | zero =>
      have hbusy : busy = false := by simpa using hi
      simp [availableLoop, hbusy]
    | succ i =>
      obtain rfl : busy = true := by simpa using hset 0 (Nat.zero_lt_succ i)
      have hrest : ∀ j, j < i → rest[j]? = some true := fun j hj => by
        simpa using hset (j + 1) (Nat.succ_lt_succ hj)
      rw [availableLoop, if_pos rfl, ih hrest (by simpa using hi)]
      simp only [List.length_cons, Nat.add_lt_add_iff_right]
      split
      · congr 1
        omega
      · rfl

theorem queueLocks_implements : queueLocks.Implements queueBody := by
  intro task k₀ flags₀ flags k found hbegins hreach hresult
  have hscan : k₀ = .scan 0 → flags = flags₀ ∧ availableLoop flags₀.toList 0 = found := by
    rintro rfl
    obtain ⟨rfl, i, hset, rfl | ⟨rfl, hi⟩⟩ := QueueSection.reaches_scan hreach
    · cases hresult
    · have hfound : (if i ≥ TUN_QUEUES then none else some i) = found := Option.some.inj hresult
      refine ⟨rfl, ?_⟩
      rw [availableLoop_of_first (i := i) (by simpa using hset) (by simpa using hi), ← hfound,
        Vector.length_toList, Nat.zero_add]
      split
      · rw [if_neg (by omega)]
      · rw [if_pos (by omega)]
  have hwrite : ∀ fi busy, k₀ = .set fi busy →
      flags = flags₀.setIfInBounds fi busy ∧ found = none := by
    rintro fi busy rfl
    obtain ⟨rfl, rfl⟩ | ⟨rfl, rfl⟩ := QueueSection.reaches_set hreach
    · cases hresult
    · exact ⟨rfl, (Option.some.inj hresult).symm⟩
  unfold queueLocks queueBegins at hbegins
  dsimp only at hbegins
  split at hbegins
  all_goals cases hbegins
  · obtain ⟨rfl, rfl⟩ := hscan rfl
    rfl
  · obtain ⟨rfl, rfl⟩ := hscan rfl
    rfl
  all_goals
    obtain ⟨rfl, rfl⟩ := hwrite _ _ rfl
    rfl

/-! ## Atomic sections -/

/-- The state of `QueueConc`. -/
def QueueState.ofAtomic (t : Atomic BusyStatus QueueRest QueueTask) : QueueState :=
  { net := { t.rest.net with busyStatus := t.prot.toList }
    threads := t.parties, aborted := t.rest.aborted, refused := t.rest.refused }

/-- The event of `QueueConc`. -/
def queueEvent : AtomicEvent QueueFree → QueueEvent
  | .critical i | .free i .step => .step i
  | .free i .read => .read i
  | .free i (.send c) => .send i c

theorem ensureHasSize_withFlags (fi size : Nat) (net : NetInterface) (flags : List Bool) :
    ensureHasSize fi size { net with busyStatus := flags } =
      { ensureHasSize fi size net with busyStatus := flags } := by
  unfold ensureHasSize
  split <;> rfl

theorem setBusy_withFlags (fi : Nat) (busy : Bool) (net : NetInterface) (flags : BusyStatus) :
    setBusy fi busy { net with busyStatus := flags.toList } =
      { net with busyStatus := (flags.setIfInBounds fi busy).toList } := by
  rw [setBusy, Vector.toList_setIfInBounds]

section

variable {t t' : Atomic BusyStatus QueueRest QueueTask}

/-- A section is one step of `QueueConc`. -/
theorem queueStep_of_critical {i : Nat}
    (hstep : queueLocks.atomicStep queueBody t (.critical i) = some t') :
    queueStep (.ofAtomic t) (.step i) = some (.ofAtomic t') := by
  unfold System.atomicStep at hstep
  split at hstep
  · cases hstep
  rename_i hgo
  simp only [Option.bind_eq_bind, Option.bind_eq_some_iff] at hstep
  obtain ⟨task, hi, ⟨flags, found⟩, hbody, ht'⟩ := hstep
  obtain rfl := Option.some.inj ht'
  have hgo' : ¬ (QueueState.ofAtomic t).aborted = true := hgo
  have hi' : (QueueState.ofAtomic t).threads[i]? = some task := hi
  have hav : available (QueueState.ofAtomic t).net = availableLoop t.prot.toList 0 := rfl
  unfold queueStep
  rw [if_neg hgo']
  dsimp only
  rw [hi']
  unfold queueBody at hbody
  split at hbody
  all_goals cases hbody
  · simp only [queueStepRead, hav]
    cases availableLoop t.prot.toList 0 with
    | none => rfl
    | some fi => rfl
  · simp only [queueStepSend, hav]
    cases availableLoop t.prot.toList 0 with
    | none =>
      -- The call stays where it is.
      obtain ⟨hlt, hget⟩ := List.getElem?_eq_some_iff.mp hi
      have hstay := List.set_getElem_self hlt
      rw [hget] at hstay
      simp only [queueLocks, queueResume, QueueState.ofAtomic, hstay]
    | some fi => rfl
  all_goals
    simp only [queueStepRead, queueStepSend, QueueState.move, QueueState.ofAtomic,
      setBusy_withFlags]
    rfl

/-- A step without the lock is the same step of `QueueConc`. -/
theorem queueStep_of_free {i : Nat} {e : QueueFree}
    (hstep : queueLocks.atomicStep queueBody t (.free i e) = some t') :
    queueStep (.ofAtomic t) (queueEvent (.free i e)) = some (.ofAtomic t') := by
  unfold System.atomicStep at hstep
  split at hstep
  · cases hstep
  rename_i hgo
  simp only [Option.bind_eq_bind, Option.bind_eq_some_iff] at hstep
  obtain ⟨task, hi, ⟨rest, task'⟩, hfree, ht'⟩ := hstep
  obtain rfl := Option.some.inj ht'
  have hgo' : ¬ (QueueState.ofAtomic t).aborted = true := hgo
  have hi' : (QueueState.ofAtomic t).threads[i]? = some task := hi
  unfold queueStep
  rw [if_neg hgo']
  change queueFree t.rest task e = some (rest, task') at hfree
  unfold queueFree at hfree
  split at hfree
  all_goals
    split at hfree
    all_goals cases hfree
    all_goals
      dsimp only [queueEvent]
      rw [hi']
      simp only [queueStepRead, queueStepSend, QueueState.move, QueueState.ofAtomic,
        ensureHasSize_withFlags]
      try rfl

end

/-- An interleaving with atomic sections is one of `QueueConc`. -/
theorem queueStep_of_atomic {t t' : Atomic BusyStatus QueueRest QueueTask}
    {e : AtomicEvent QueueFree} (hstep : queueLocks.atomicStep queueBody t e = some t') :
    queueStep (.ofAtomic t) (queueEvent e) = some (.ofAtomic t') := by
  cases e with
  | critical i => exact queueStep_of_critical hstep
  | free i e => exact queueStep_of_free hstep

/-! ## Release -/

/-- The accesses that a section has left. -/
def QueueSection.left : QueueSection → Nat
  | .scan i => TUN_QUEUES - i + 1
  | .set _ _ => 1
  | .scanned _ | .written => 0

theorem QueueSection.left_le (k : QueueSection) : k.left ≤ TUN_QUEUES + 1 := by
  cases k with
  | scan i => exact Nat.succ_le_succ (Nat.sub_le TUN_QUEUES i)
  | scanned i => exact Nat.zero_le _
  | set fi busy => exact Nat.succ_le_succ (Nat.zero_le _)
  | written => exact Nat.zero_le _

theorem QueueSection.left_access (flags : BusyStatus) {k : QueueSection}
    (hk : queueLocks.result k = none) : (queueLocks.access flags k).2.left < k.left := by
  cases k with
  | scan i =>
    simp only [queueLocks, queueAccess]
    split
    · rename_i hi
      obtain ⟨hlt, -⟩ := Vector.getElem?_eq_some_iff.mp hi
      simp only [left]
      omega
    · exact Nat.zero_lt_succ _
  | scanned i => cases hk
  | set fi busy => exact Nat.zero_lt_one
  | written => cases hk

/-! ## The code's interleavings -/

/-- A thread that is about to scan has no queue marked. -/
theorem queueBegins_eq {task : QueueTask} {k₀ : QueueSection} (h : queueBegins task = some k₀) :
    k₀ = .scan 0 ∧ task.marked = none ∨ ∃ fi busy, k₀ = .set fi busy := by
  unfold queueBegins at h
  split at h
  all_goals cases h
  · exact Or.inl ⟨rfl, rfl⟩
  · exact Or.inl ⟨rfl, rfl⟩
  all_goals exact Or.inr ⟨_, _, rfl⟩

/-- A scan has not passed the clear flag. -/
theorem QueueState.Inv.scan_bound {t : Atomic BusyStatus QueueRest QueueTask}
    (h : (QueueState.ofAtomic t).Inv) {i j : Nat} {task : QueueTask} {k₀ : QueueSection}
    {flags : BusyStatus} (hi : t.parties[i]? = some task) (hbegins : queueBegins task = some k₀)
    (hreach : queueLocks.Reaches t.prot k₀ flags (.scan j)) : j < TUN_QUEUES := by
  obtain ⟨rfl, hmarked⟩ | ⟨fi, busy, rfl⟩ := queueBegins_eq hbegins
  · obtain ⟨fi, hscan⟩ := h.scan (i := i) hi hmarked
    obtain ⟨-, j', hset, hj | ⟨hj, -⟩⟩ := QueueSection.reaches_scan hreach
    · obtain rfl : j = j' := QueueSection.scan.inj hj
      have hfree : t.prot[fi]? = some false := by simpa [QueueState.ofAtomic] using hscan.free
      have hle : j ≤ fi := by
        refine Nat.le_of_not_lt fun hlt => ?_
        have htrue := hset fi hlt
        rw [hfree] at htrue
        cases htrue
      exact Nat.lt_of_le_of_lt hle hscan.bound
    · cases hj
  · obtain ⟨-, hk⟩ | ⟨-, hk⟩ := QueueSection.reaches_set hreach
    · cases hk
    · cases hk

/-- **The status lock makes the scan atomic.** At most `TUN_QUEUES` threads read and send, in any
interleaving of their accesses to `busy_status`: the run is one of `QueueConc` once each section is
moved to its release, every flag that `available` reads is one of `busy_status`, no read is refused
and no send aborts, and the owner of the lock releases it within its own next steps. -/
theorem queue_scan_locked (ip : UInt32) (mac : Mac) {n : Nat} (hn : n ≤ TUN_QUEUES)
    {es : List (Event QueueFree)} {s : LockedQueue}
    (hrun : Trace.run queueLocks.step (LockedQueue.start ip mac n) es = some s) :
    (∃ q, Trace.run queueStep (QueueState.start ip mac n)
        ((es.filterMap Event.atomic).map queueEvent) = some q ∧ q.threads = s.parties ∧
        (s.owner = none → q.net = { s.rest.net with busyStatus := s.prot.toList })) ∧
      s.rest.aborted = false ∧ s.rest.refused = false ∧
      ∀ i k, s.owner = some (i, k) → (∀ j, k = .scan j → j < TUN_QUEUES) ∧
        ∃ m s', m ≤ TUN_QUEUES + 1 ∧
          Trace.run queueLocks.step s (List.replicate m (.access i) ++ [.unlock i]) = some s' ∧
          s'.owner = none := by
  obtain ⟨t, ht, hfollows⟩ := Locked.simulates queueLocks_implements
    (Follows.start queueLocks { prot := Vector.replicate TUN_QUEUES false
                                rest := ⟨netInterfaceStart ip mac, false, false⟩
                                parties := List.replicate n .idle }) hrun
  obtain ⟨hq, -⟩ := Trace.run_map (I := fun _ => True) (f := QueueState.ofAtomic)
    (fun _ _ _ _ hstep => ⟨queueStep_of_atomic hstep, trivial⟩) trivial ht
  have hinv : (QueueState.ofAtomic t).Inv :=
    Trace.run_invariant (I := QueueState.Inv) (fun _ _ _ h hstep => h.step hstep)
      (QueueState.Inv.start ip mac hn) hq
  have hgoing : s.rest.aborted = false := by
    rw [hfollows.rest]
    exact hinv.going
  refine ⟨⟨.ofAtomic t, hq, hfollows.parties.symm, fun hfree => ?_⟩, hgoing, ?_,
    fun i k howner => ?_⟩
  · rw [hfollows.rest, hfollows.unlocked hfree]
    rfl
  · rw [hfollows.rest]
    exact hinv.served
  · obtain ⟨task, k₀, hi, hbegins, hreach⟩ := hfollows.locked i k howner
    constructor
    · rintro j rfl
      exact hinv.scan_bound (hfollows.parties ▸ hi) hbegins hreach
    · obtain ⟨m, s', hm, hrelease, hfree⟩ := Locked.releases (S := queueLocks)
        (fun _ k => k.left) (fun flags _ hk => QueueSection.left_access flags hk) hgoing
        (List.getElem?_eq_some_iff.mp hi).1 howner
      exact ⟨m, s', Nat.le_trans hm k.left_le, hrelease, hfree⟩

/-- The second thread is in its scan when the first one has marked queue `0`. -/
theorem queue_scan_locked_pair :
    ∃ s, Trace.run queueLocks.step (LockedQueue.start 0x0100000a (sampleMac 1) 2)
        [.free 0 .read, .free 1 .read, .lock 0, .access 0, .unlock 0, .lock 0, .access 0, .unlock 0,
          .lock 1, .access 1] = some s ∧
      s.owner = some (1, .scan 1) ∧
      ∃ m s', m ≤ TUN_QUEUES + 1 ∧
        Trace.run queueLocks.step s (List.replicate m (.access 1) ++ [.unlock 1]) = some s' ∧
        s'.owner = none := by
  have hview : (Trace.run queueLocks.step (LockedQueue.start 0x0100000a (sampleMac 1) 2)
      [.free 0 .read, .free 1 .read, .lock 0, .access 0, .unlock 0, .lock 0, .access 0, .unlock 0,
        .lock 1, .access 1]).map (·.owner) = some (some (1, .scan 1)) := rfl
  obtain ⟨s, hrun, howner⟩ := Option.map_eq_some_iff.mp hview
  obtain ⟨-, -, -, hsections⟩ := queue_scan_locked 0x0100000a (sampleMac 1) (by decide) hrun
  exact ⟨s, hrun, howner, (hsections 1 _ howner).2⟩

end TcpIp
