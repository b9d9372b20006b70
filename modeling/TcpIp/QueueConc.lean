import TcpIp.Main
import TcpIp.SendConc

/-!
# The queue scan under concurrency

A fixed number of threads, each of which reads and sends again and again, in any interleaving of the
atomic steps of `net_interface_read` and `net_interface_send`. Nothing keeps two threads from being
handed the same queue, and then one of them clears the flag under the other; so a flag does not say
how many threads use its queue. What remains true is that a set flag belongs to some thread between
its `set_busy(fi, true)` and its `set_busy(fi, false)` (`QueueState.Inv.owned`). A thread that runs
`available` is not between the two, so with at most `TUN_QUEUES` threads some flag is clear
(`QueueState.Inv.scan`): the scan ends inside `busy_status`.
-/

namespace TcpIp

/-- How far a call of `net_interface_read` has come; the name says what it did last. -/
inductive ReadPhase where
  | ready
  | handed (fi : Nat)
  | busy (fi : Nat)
  | read (fi : Nat)
deriving Repr, DecidableEq

/-- What a thread is doing. -/
inductive QueueTask where
  | idle
  | read (phase : ReadPhase)
  | send (c : SendCall) (phase : SendPhase)

namespace QueueTask

/-- The thread is about to run `available`. -/
def scans : QueueTask → Bool
  | .read .ready | .send _ .ready => true
  | _ => false

/-- The queue that the thread has marked as busy and not released yet. -/
def marked : QueueTask → Option Nat
  | .read (.busy fi) | .read (.read fi) | .send _ (.busy fi) | .send _ (.written fi) => some fi
  | _ => none

end QueueTask

/-- The interface and the threads. `aborted`: a send found no queue; `refused`: a read has returned
`-1` because it found none. -/
structure QueueState where
  net : NetInterface
  threads : List QueueTask
  aborted : Bool
  refused : Bool

def QueueState.start (ip : UInt32) (mac : Mac) (n : Nat) : QueueState :=
  { net := netInterfaceStart ip mac, threads := List.replicate n .idle, aborted := false,
    refused := false }

inductive QueueEvent where
  /-- Thread `i` calls `net_interface_read`. -/
  | read (i : Nat)
  /-- Thread `i` calls `net_interface_send`. -/
  | send (i : Nat) (c : SendCall)
  /-- Thread `i` takes the next step of its call. -/
  | step (i : Nat)

/-- Thread `i` moves on to `task`, and the interface to `net`. -/
def QueueState.move (s : QueueState) (i : Nat) (task : QueueTask) (net : NetInterface) :
    QueueState :=
  { s with net, threads := s.threads.set i task }

/-- The next step of a read. The bytes that arrive are not followed here. -/
def queueStepRead (s : QueueState) (i : Nat) : ReadPhase → QueueState
  | .ready =>
    match available s.net with
    | none => { s.move i .idle s.net with refused := true }
    | some fi => s.move i (.read (.handed fi)) s.net
  | .handed fi => s.move i (.read (.busy fi)) (setBusy fi true s.net)
  | .busy fi => s.move i (.read (.read fi)) s.net
  | .read fi => s.move i .idle (setBusy fi false s.net)

/-- The next step of a send. -/
def queueStepSend (s : QueueState) (i : Nat) (c : SendCall) : SendPhase → QueueState
  | .ready =>
    match available s.net with
    | none => { s with aborted := true }
    | some fi => s.move i (.send c (.handed fi)) s.net
  | .handed fi => s.move i (.send c (.sized fi)) (ensureHasSize fi c.totalSize s.net)
  | .sized fi =>
    s.move i (.send c (.filled fi)) (fillBuffer fi c.protocol c.dstMac c.payload s.net)
  | .filled fi => s.move i (.send c (.swapped fi)) (bufferHton fi s.net)
  | .swapped fi => s.move i (.send c (.busy fi)) (setBusy fi true s.net)
  | .busy fi => s.move i (.send c (.written fi)) s.net
  | .written fi => s.move i (.send c .done) (setBusy fi false s.net)
  | .done => s.move i .idle s.net

def queueStep (s : QueueState) (e : QueueEvent) : Option QueueState :=
  if s.aborted then none
  else match e with
    | .read i =>
      match s.threads[i]? with
      | some .idle => some (s.move i (.read .ready) s.net)
      | _ => none
    | .send i c =>
      match s.threads[i]? with
      | some .idle => some (s.move i (.send c .ready) s.net)
      | _ => none
    | .step i =>
      match s.threads[i]? with
      | some (.read phase) => some (queueStepRead s i phase)
      | some (.send c phase) => some (queueStepSend s i c phase)
      | _ => none

/-- The elements of `busy_status` that the scan reads: past the last flag it goes on. -/
def availableReads : List Bool → Nat → List Nat
  | [], i => [i]
  | busy :: rest, i => i :: if busy then availableReads rest (i + 1) else []

/-! ## The sequential functions -/

/-- The sequential `net_interface_read` is a run of one call without interruption. -/
theorem netInterfaceRead_eq_run {w : World} {fi : Nat} (hav : available w.net = some fi)
    (buffer : Ptr) (len : Nat) (input : ReadResult) :
    ∃ s, Trace.run queueStep ⟨w.net, [.idle], false, false⟩
        (.read 0 :: List.replicate 4 (.step 0)) = some s ∧
      (netInterfaceRead buffer len input w).2.net = s.net := by
  refine ⟨⟨setBusy fi false (setBusy fi true w.net), [.idle], false, false⟩, ?_, ?_⟩
  · simp [Trace.run, List.replicate, queueStep, queueStepRead, hav, QueueState.move]
  · simp only [netInterfaceRead, gets_bind, hav]
    cases input with
    | none => rfl
    | some frame => rfl

/-- So is `net_interface_send`. -/
theorem netInterfaceSend_eq_queueRun {w : World} {fi : Nat} (hav : available w.net = some fi)
    (content : Ptr) (c : SendCall) (hc : w.bytes content c.payload.length = c.payload) :
    ∃ s, Trace.run queueStep ⟨w.net, [.idle], false, false⟩
        (.send 0 c :: List.replicate 8 (.step 0)) = some s ∧
      (netInterfaceSend content c.payload.length c.dstMac c.protocol w).2.net = s.net := by
  obtain ⟨s, w', hrun, hsend, hnet, -⟩ := netInterfaceSend_eq_run hav content c hc
  refine ⟨⟨s.net, [.idle], false, false⟩, ?_, by rw [hsend]; exact hnet⟩
  simp [Trace.run, List.replicate, sendStep, sendStepCall, hav, SendState.move] at hrun
  subst hrun
  simp [Trace.run, List.replicate, queueStep, queueStepSend, hav, QueueState.move]

/-! ## The scan -/

/-- The scan stops at the first clear flag, and reads no flag past it. -/
theorem availableLoop_first {l : List Bool} (h : false ∈ l) (i : Nat) :
    ∃ k, k < l.length ∧ availableLoop l i = some (i + k) ∧ l[k]? = some false ∧
      (∀ j, j < k → l[j]? = some true) ∧ ∀ j ∈ availableReads l i, j ≤ i + k := by
  induction l generalizing i with
  | nil => cases h
  | cons busy rest ih =>
    cases busy with
    | false =>
      refine ⟨0, Nat.zero_lt_succ _, rfl, rfl, nofun, fun j hj => ?_⟩
      obtain rfl : j = i := by simpa [availableReads] using hj
      exact Nat.le_refl _
    | true =>
      have hrest : false ∈ rest := by simpa using h
      obtain ⟨k, hk, hloop, hfree, hbefore, hreads⟩ := ih hrest (i + 1)
      refine ⟨k + 1, Nat.succ_lt_succ hk, ?_, hfree, fun j hj => ?_, fun j hj => ?_⟩
      · rw [availableLoop, if_pos rfl, hloop]
        congr 1
        omega
      · cases j with
        | zero => rfl
        | succ j => exact hbefore j (by omega)
      · rw [availableReads, if_pos rfl, List.mem_cons] at hj
        rcases hj with rfl | hj
        · omega
        · have := hreads j hj
          omega

/-! ## The invariant -/

/-- A set flag belongs to a thread that has set it and not cleared it yet. -/
structure QueueState.Inv (s : QueueState) : Prop where
  flags : s.net.busyStatus.length = TUN_QUEUES
  few : s.threads.length ≤ TUN_QUEUES
  owned : ∀ fi, s.net.busyStatus[fi]? = some true → ∃ t ∈ s.threads, t.marked = some fi
  going : s.aborted = false
  served : s.refused = false

/-- What `available` does for a thread that runs it. -/
structure QueueState.Scans (s : QueueState) (fi : Nat) : Prop where
  result : available s.net = some fi
  bound : fi < TUN_QUEUES
  free : s.net.busyStatus[fi]? = some false
  first : ∀ j, j < fi → s.net.busyStatus[j]? = some true
  reads : ∀ j ∈ availableReads s.net.busyStatus 0, j < TUN_QUEUES

namespace QueueState.Inv

variable {s : QueueState} {i : Nat} {t t' : QueueTask} {net : NetInterface}

/-- A thread that has no queue marked leaves one flag clear. -/
theorem scan (h : s.Inv) (hi : s.threads[i]? = some t) (ht : t.marked = none) :
    ∃ fi, s.Scans fi := by
  obtain ⟨k, hk, hfree⟩ := Trace.exists_unowned QueueTask.marked h.few hi ht
  have hclear : false ∈ s.net.busyStatus := by
    have hlen : k < s.net.busyStatus.length := by rwa [h.flags]
    cases hb : s.net.busyStatus[k] with
    | false =>
      rw [← hb]
      exact List.getElem_mem hlen
    | true =>
      obtain ⟨u, hu, hmark⟩ := h.owned k (by rw [List.getElem?_eq_getElem hlen, hb])
      exact absurd hmark (hfree u hu)
  obtain ⟨fi, hfi, hloop, hget, hbefore, hreads⟩ := availableLoop_first hclear 0
  rw [h.flags] at hfi
  rw [Nat.zero_add] at hloop hreads
  exact ⟨fi, hloop, hfi, hget, hbefore, fun j hj => Nat.lt_of_le_of_lt (hreads j hj) hfi⟩

/-- A thread moves on: every flag that is set now is its own, or was set and is not its own. -/
theorem move (h : s.Inv) (hi : s.threads[i]? = some t)
    (hflags : net.busyStatus.length = s.net.busyStatus.length)
    (howned : ∀ fi, net.busyStatus[fi]? = some true →
      t'.marked = some fi ∨ s.net.busyStatus[fi]? = some true ∧ t.marked ≠ some fi) :
    (s.move i t' net).Inv := by
  refine ⟨hflags.trans h.flags, ?_, fun fi hfi => ?_, h.going, h.served⟩
  · rw [QueueState.move, List.length_set]
    exact h.few
  · have hlt : i < s.threads.length := (List.getElem?_eq_some_iff.mp hi).1
    rcases howned fi hfi with hmark | ⟨hbusy, hother⟩
    · exact ⟨t', List.mem_set hlt t', hmark⟩
    · obtain ⟨u, hu, hmark⟩ := h.owned fi hbusy
      obtain ⟨j, hj⟩ := List.mem_iff_getElem?.mp hu
      have hji : j ≠ i := by
        rintro rfl
        obtain rfl := Option.some.inj (hi.symm.trans hj)
        exact hother hmark
      refine ⟨u, List.mem_iff_getElem?.mpr ⟨j, ?_⟩, hmark⟩
      rw [QueueState.move, List.getElem?_set_ne hji.symm]
      exact hj

/-- A step that leaves the flags alone. -/
theorem stay (h : s.Inv) (hi : s.threads[i]? = some t) (hb : net.busyStatus = s.net.busyStatus)
    (hm : t'.marked = t.marked) : (s.move i t' net).Inv := by
  refine h.move hi (by rw [hb]) fun fi hfi => ?_
  by_cases hown : t.marked = some fi
  · exact Or.inl (hm.trans hown)
  · exact Or.inr ⟨by rwa [← hb], hown⟩

/-- `set_busy(fi, true)`. -/
theorem mark (h : s.Inv) (hi : s.threads[i]? = some t) (ht : t.marked = none) {fi : Nat}
    (hm : t'.marked = some fi) : (s.move i t' (setBusy fi true s.net)).Inv := by
  refine h.move hi List.length_set fun k hk => ?_
  by_cases hki : k = fi
  · exact Or.inl (by rw [hki, hm])
  · refine Or.inr ⟨?_, by rw [ht]; nofun⟩
    rwa [setBusy, List.getElem?_set_ne (Ne.symm hki)] at hk

/-- `set_busy(fi, false)`. -/
theorem release (h : s.Inv) (hi : s.threads[i]? = some t) {fi : Nat} (ht : t.marked = some fi) :
    (s.move i t' (setBusy fi false s.net)).Inv := by
  refine h.move hi List.length_set fun k hk => Or.inr ?_
  have hki : k ≠ fi := by
    rintro rfl
    obtain ⟨_, hget⟩ := List.getElem?_eq_some_iff.mp hk
    simp [setBusy] at hget
  refine ⟨?_, fun heq => hki ?_⟩
  · rwa [setBusy, List.getElem?_set_ne (Ne.symm hki)] at hk
  · exact (Option.some.inj (ht.symm.trans heq)).symm

theorem stepRead (h : s.Inv) {phase : ReadPhase} (hi : s.threads[i]? = some (.read phase)) :
    (queueStepRead s i phase).Inv := by
  cases phase with
  | ready =>
    obtain ⟨fi, hscan⟩ := h.scan hi rfl
    rw [queueStepRead, hscan.result]
    exact h.stay hi rfl rfl
  | handed fi => exact h.mark hi rfl rfl
  | busy fi => exact h.stay hi rfl rfl
  | read fi => exact h.release hi rfl

theorem stepSend (h : s.Inv) {c : SendCall} {phase : SendPhase}
    (hi : s.threads[i]? = some (.send c phase)) : (queueStepSend s i c phase).Inv := by
  cases phase with
  | ready =>
    obtain ⟨fi, hscan⟩ := h.scan hi rfl
    rw [queueStepSend, hscan.result]
    exact h.stay hi rfl rfl
  | handed fi => exact h.stay hi (ensureHasSize_busyStatus _) rfl
  | sized fi => exact h.stay hi rfl rfl
  | filled fi => exact h.stay hi rfl rfl
  | swapped fi => exact h.mark hi rfl rfl
  | busy fi => exact h.stay hi rfl rfl
  | written fi => exact h.release hi rfl
  | done => exact h.stay hi rfl rfl

theorem step (h : s.Inv) {e : QueueEvent} {s' : QueueState} (hstep : queueStep s e = some s') :
    s'.Inv := by
  unfold queueStep at hstep
  rw [if_neg (by rw [h.going]; exact Bool.false_ne_true)] at hstep
  cases e with
  | read i =>
    dsimp only at hstep
    split at hstep
    · rename_i hi
      obtain rfl := Option.some.inj hstep
      exact h.stay hi rfl rfl
    · cases hstep
  | send i c =>
    dsimp only at hstep
    split at hstep
    · rename_i hi
      obtain rfl := Option.some.inj hstep
      exact h.stay hi rfl rfl
    · cases hstep
  | step i =>
    dsimp only at hstep
    split at hstep
    · rename_i hi
      obtain rfl := Option.some.inj hstep
      exact h.stepRead hi
    · rename_i hi
      obtain rfl := Option.some.inj hstep
      exact h.stepSend hi
    · cases hstep

theorem start (ip : UInt32) (mac : Mac) {n : Nat} (hn : n ≤ TUN_QUEUES) :
    (QueueState.start ip mac n).Inv := by
  refine ⟨List.length_replicate, ?_, fun fi hfi => ?_, rfl, rfl⟩
  · rw [QueueState.start, List.length_replicate]
    exact hn
  · have := List.eq_of_mem_replicate (List.mem_of_getElem? hfi)
    cases this

end QueueState.Inv

/-- **The queue scan always finds a free queue.** At most `TUN_QUEUES` threads read and send, in any
interleaving: whenever a thread runs `available`, some flag is clear and the scan stops at the first
one, inside `busy_status`; no read is refused, and no send aborts. -/
theorem queue_scan_succeeds (ip : UInt32) (mac : Mac) {n : Nat} (hn : n ≤ TUN_QUEUES)
    {es : List QueueEvent} {s : QueueState}
    (hrun : Trace.run queueStep (QueueState.start ip mac n) es = some s) :
    (∀ (i : Nat) (t : QueueTask), s.threads[i]? = some t → t.scans = true → ∃ fi, s.Scans fi) ∧
      s.aborted = false ∧ s.refused = false := by
  have h : s.Inv := Trace.run_invariant (I := QueueState.Inv) (fun _ _ _ h hstep => h.step hstep)
    (QueueState.Inv.start ip mac hn) hrun
  refine ⟨fun i t hi ht => h.scan hi ?_, h.going, h.served⟩
  unfold QueueTask.scans at ht
  split at ht
  · rfl
  · rfl
  · cases ht

/-- Two threads are handed queue `0` and mark it; the first one releases it under the second one,
and a third one scans. -/
theorem queue_scan_succeeds_shared :
    ∃ s, Trace.run queueStep (QueueState.start 0x0100000a #v[2, 0, 0, 0, 0, 1] 3)
        [.read 0, .read 1, .step 0, .step 1, .step 0, .step 1, .step 0, .step 0, .read 2] = some s ∧
      ∃ fi, s.Scans fi := by
  have hview : (Trace.run queueStep (QueueState.start 0x0100000a #v[2, 0, 0, 0, 0, 1] 3)
      [.read 0, .read 1, .step 0, .step 1, .step 0, .step 1, .step 0, .step 0, .read 2]).map
      (·.threads) = some [.idle, .read (.busy 0), .read .ready] := rfl
  obtain ⟨s, hrun, hthreads⟩ := Option.map_eq_some_iff.mp hview
  refine ⟨s, hrun, (queue_scan_succeeds _ _ (by decide) hrun).1 2 (.read .ready) ?_ rfl⟩
  rw [hthreads]
  rfl

end TcpIp
