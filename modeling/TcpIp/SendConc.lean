import TcpIp.Lib.Trace
import TcpIp.Machine

/-!
# Concurrent sends

Any number of calls of `net_interface_send` on the shared interface, in any interleaving of their
atomic steps: `available`, `ensure_has_size`, the fill of `buffers[fi]`, `eth_header_hton`,
`set_busy(fi, true)`, `tun_write` and `set_busy(fi, false)`. The steps are the functions of
`NetInterface` that the sequential `net_interface_send` is made of.

`available` hands out a queue without marking it, and the call marks it only after the fill. Until
then a second call can be handed the same queue (`sends_collide`). `sends_whole_iff` is the exact
condition on a run: no call is handed a queue that another call has been handed and has not marked
yet.
-/

namespace TcpIp

open Bytes

/-! ## Calls and their steps -/

/-- The arguments of a call. A caller passes at most 65535 bytes. -/
structure SendCall where
  dstMac : Mac
  protocol : UInt16
  payload : List UInt8
  fits : payload.length + sizeofEthHeader < 2 ^ 32

def SendCall.totalSize (c : SendCall) : Nat := (c.payload.length + sizeofEthHeader) % 2 ^ 32

/-- The frame that a call has to write. -/
def SendCall.frame (c : SendCall) (mac : Mac) : Frame :=
  ethFrame c.dstMac mac c.protocol c.payload

/-- How far a call has come; the name says what it did last. -/
inductive SendPhase where
  | ready
  | handed (fi : Nat)
  | sized (fi : Nat)
  | filled (fi : Nat)
  | swapped (fi : Nat)
  | busy (fi : Nat)
  | written (fi : Nat)
  | done
deriving Repr, DecidableEq

namespace SendPhase

/-- The queue that a call holds, from its return by `available` to its release. -/
def queue : SendPhase → Option Nat
  | ready | done => none
  | handed fi | sized fi | filled fi | swapped fi | busy fi | written fi => some fi

/-- The queue that a call holds and has not marked as busy yet. -/
def unmarked : SendPhase → Option Nat
  | handed fi | sized fi | filled fi | swapped fi => some fi
  | ready | busy _ | written _ | done => none

end SendPhase

/-- The interface, the calls made so far, and the frames passed to `tun_write` with the call that
wrote each. -/
structure SendState where
  net : NetInterface
  calls : List (SendCall × SendPhase)
  wire : List (Nat × Frame)
  aborted : Bool

def SendState.start (ip : UInt32) (mac : Mac) : SendState :=
  { net := netInterfaceStart ip mac, calls := [], wire := [], aborted := false }

inductive SendEvent where
  /-- A thread calls `net_interface_send`. -/
  | call (c : SendCall)
  /-- Call `i` takes its next step. -/
  | step (i : Nat)

/-- Call `i` moves on to `phase`, and the interface to `net`. -/
def SendState.move (s : SendState) (i : Nat) (c : SendCall) (phase : SendPhase)
    (net : NetInterface) : SendState :=
  { s with net, calls := s.calls.set i (c, phase) }

/-- The next step of call `i`. When `available` finds no queue the process aborts. -/
def sendStepCall (s : SendState) (i : Nat) (c : SendCall) : SendPhase → Option SendState
  | .ready =>
    match available s.net with
    | none => some { s with aborted := true }
    | some fi => some (s.move i c (.handed fi) s.net)
  | .handed fi => some (s.move i c (.sized fi) (ensureHasSize fi c.totalSize s.net))
  | .sized fi =>
    some (s.move i c (.filled fi) (fillBuffer fi c.protocol c.dstMac c.payload s.net))
  | .filled fi => some (s.move i c (.swapped fi) (bufferHton fi s.net))
  | .swapped fi => some (s.move i c (.busy fi) (setBusy fi true s.net))
  | .busy fi => some { s.move i c (.written fi) s.net with
      wire := s.wire ++ [(i, tunWrite fi c.totalSize s.net)] }
  | .written fi => some (s.move i c .done (setBusy fi false s.net))
  | .done => none

def sendStep (s : SendState) (e : SendEvent) : Option SendState :=
  if s.aborted then none
  else match e with
    | .call c => some { s with calls := s.calls ++ [(c, .ready)] }
    | .step i => (s.calls[i]?).bind fun (c, phase) => sendStepCall s i c phase

/-- The sequential `net_interface_send` is a run of one call without interruption. -/
theorem netInterfaceSend_eq_run {w : World} {fi : Nat} (hav : available w.net = some fi)
    (content : Ptr) (c : SendCall) (hc : w.bytes content c.payload.length = c.payload) :
    ∃ s w', Trace.run sendStep ⟨w.net, [], [], false⟩ (.call c :: List.replicate 7 (.step 0)) =
        some s ∧
      netInterfaceSend content c.payload.length c.dstMac c.protocol w = (.ok (), w') ∧
      w'.net = s.net ∧ w'.wire = w.wire ++ s.wire.map Prod.snd := by
  let net := setBusy fi true (bufferHton fi (fillBuffer fi c.protocol c.dstMac c.payload
    (ensureHasSize fi c.totalSize w.net)))
  let frame := tunWrite fi c.totalSize net
  refine ⟨⟨setBusy fi false net, [(c, .done)], [(0, frame)], false⟩, { w.touch content
    c.payload.length with net := setBusy fi false net, wire := w.wire ++ [frame] }, ?_, ?_, rfl, rfl⟩
  · simp [Trace.run, List.replicate, sendStep, sendStepCall, hav, SendState.move, net, frame]
  · have hbytes : ∀ net, World.bytes { w with net } content c.payload.length = c.payload :=
      fun _ => hc
    have htotal : (c.payload.length + sizeofEthHeader) % 2 ^ 32 = c.totalSize := rfl
    simp only [netInterfaceSend, gets_bind, hav, modifyNet_bind, loadBytes_bind, emit_bind,
      modifyNet_apply, hbytes, htotal]
    rfl

/-! ## The property -/

/-- Call `i` is `c` and has come as far as `p`. -/
def SendState.At (s : SendState) (i : Nat) (c : SendCall) (p : SendPhase) : Prop :=
  s.calls[i]? = some (c, p)

/-- Every frame written is that of its call, and no two calls hold the same queue. -/
structure SendState.Whole (s : SendState) : Prop where
  frames : ∀ i frame, (i, frame) ∈ s.wire → ∃ c p, s.At i c p ∧ frame = c.frame s.net.mac
  exclusive : ∀ {i j c c' p p' fi}, s.At i c p → s.At j c' p' →
    p.queue = some fi → p'.queue = some fi → i = j

/-- The queue that `available` would return has not been handed to a call that has not marked it
yet. -/
def SendState.Unclaimed (s : SendState) : Prop :=
  ∀ fi, available s.net = some fi → ∀ i c p, s.At i c p → p.unmarked ≠ some fi

/-- A call that runs `available` finds the queue it is handed unclaimed. -/
def SendGuard (s : SendState) : SendEvent → Prop
  | .call _ => True
  | .step i => ∀ c, s.At i c .ready → s.Unclaimed

/-! ## The invariant -/

/-- What holds of a call that was not disturbed. -/
structure SendCall.Sound (c : SendCall) (net : NetInterface) (p : SendPhase) : Prop where
  bound : ∀ fi, p.queue = some fi → fi < TUN_QUEUES
  /-- From the mark on the queue is busy. -/
  marked : ∀ fi, p = .busy fi ∨ p = .written fi → net.busyStatus[fi]? = some true
  room : ∀ fi, p = .sized fi → 14 + c.payload.length ≤ (net.buffer fi).length
  filled : ∀ fi, p = .filled fi → net.Holds fi c.dstMac c.protocol c.payload
  swapped : ∀ fi, p = .swapped fi ∨ p = .busy fi →
    net.Holds fi c.dstMac (swap16 c.protocol) c.payload

/-- The state of a run in which no call disturbed another. -/
structure SendState.Inv (s : SendState) : Prop extends s.Whole where
  sized : s.net.Sized
  sound : ∀ {i c p}, s.At i c p → c.Sound s.net p

section Steps

variable {s : SendState} {i j : Nat} {c c' : SendCall} {p p' q : SendPhase} {net : NetInterface}

theorem at_move (hi : s.At i c p) :
    (s.move i c p' net).At j c' q ↔ if j = i then c' = c ∧ q = p' else s.At j c' q := by
  unfold SendState.At SendState.move
  rw [Trace.getElem?_moved hi, Prod.mk.injEq]

theorem at_move_self (hi : s.At i c p) : (s.move i c p' net).At i c p' :=
  (at_move hi).mpr (by rw [if_pos rfl]; exact ⟨rfl, rfl⟩)

/-- A call sees only its own queue. -/
theorem SendCall.Sound.congr (h : c.Sound s.net p) (hmac : net.mac = s.net.mac)
    (hq : ∀ fi, p.queue = some fi →
      net.buffer fi = s.net.buffer fi ∧ net.busyStatus[fi]? = s.net.busyStatus[fi]?) :
    c.Sound net p := by
  refine ⟨h.bound, ?_, ?_, ?_, ?_⟩
  · intro fi hp
    rw [(hq fi (by rcases hp with rfl | rfl <;> rfl)).2]
    exact h.marked fi hp
  · intro fi hp
    rw [(hq fi (by rw [hp]; rfl)).1]
    exact h.room fi hp
  · intro fi hp
    unfold NetInterface.Holds
    rw [(hq fi (by rw [hp]; rfl)).1, hmac]
    exact h.filled fi hp
  · intro fi hp
    unfold NetInterface.Holds
    rw [(hq fi (by rcases hp with rfl | rfl <;> rfl)).1, hmac]
    exact h.swapped fi hp

/-- One call moves, and changes nothing but its own queue. -/
theorem SendState.Inv.move (h : s.Inv) (hi : s.At i c p) (hsized : net.Sized)
    (hmac : net.mac = s.net.mac)
    (hframe : ∀ fi, p.queue ≠ some fi →
      net.buffer fi = s.net.buffer fi ∧ net.busyStatus[fi]? = s.net.busyStatus[fi]?)
    (hqueue : ∀ fi, p'.queue = some fi →
      p.queue = some fi ∨ ∀ j c' q, s.At j c' q → q.queue ≠ some fi)
    (hsound : c.Sound net p') : (s.move i c p' net).Inv := by
  -- Another call holds another queue, before and after.
  have hother : ∀ {j c' q fi}, j ≠ i → s.At j c' q → q.queue = some fi → p.queue ≠ some fi :=
    fun hji hj hq hp => hji (h.exclusive hj hi hq hp)
  have hnew : ∀ {j c' q fi}, j ≠ i → s.At j c' q → q.queue = some fi → p'.queue ≠ some fi := by
    intro j c' q fi hji hj hq hp
    rcases hqueue fi hp with hold | hfree
    · exact hother hji hj hq hold
    · exact hfree j c' q hj hq
  refine ⟨⟨?_, ?_⟩, hsized, ?_⟩
  · intro j frame hf
    have hmac' : (s.move i c p' net).net.mac = s.net.mac := hmac
    obtain ⟨c', q, hj, rfl⟩ := h.frames j frame hf
    rw [hmac']
    by_cases hji : j = i
    · subst hji
      obtain ⟨rfl, rfl⟩ : c' = c ∧ q = p := by simpa using hj.symm.trans hi
      exact ⟨c', p', at_move_self hi, rfl⟩
    · exact ⟨c', q, (at_move hi).mpr (by rwa [if_neg hji]), rfl⟩
  · intro j k c₁ c₂ q₁ q₂ fi hj hk hq₁ hq₂
    rw [at_move hi] at hj hk
    by_cases hji : j = i
    · by_cases hki : k = i
      · rw [hji, hki]
      · rw [if_pos hji] at hj
        rw [if_neg hki] at hk
        rw [hj.2] at hq₁
        exact absurd hq₁ (hnew hki hk hq₂)
    · rw [if_neg hji] at hj
      by_cases hki : k = i
      · rw [if_pos hki] at hk
        rw [hk.2] at hq₂
        exact absurd hq₂ (hnew hji hj hq₁)
      · rw [if_neg hki] at hk
        exact h.exclusive hj hk hq₁ hq₂
  · intro j c' q hj
    rw [at_move hi] at hj
    by_cases hji : j = i
    · rw [if_pos hji] at hj
      rw [hj.1, hj.2]
      exact hsound
    · rw [if_neg hji] at hj
      exact (h.sound hj).congr hmac fun fi hq => hframe fi (hother hji hj hq)

theorem availableLoop_spec {fi : Nat} (l : List Bool) (k : Nat) (h : availableLoop l k = some fi) :
    k ≤ fi ∧ l[fi - k]? = some false := by
  induction l generalizing k with
  | nil => cases h
  | cons busy rest ih =>
    unfold availableLoop at h
    cases busy with
    | true =>
      obtain ⟨hle, hget⟩ := ih (k + 1) h
      exact ⟨by omega, by rw [show fi - k = fi - (k + 1) + 1 by omega]; exact hget⟩
    | false =>
      obtain rfl : k = fi := by simpa using h
      exact ⟨Nat.le_refl k, by simp⟩

/-- A queue that `available` returns is there and not busy. -/
theorem available_spec {net : NetInterface} {fi : Nat} (h : available net = some fi) :
    net.busyStatus[fi]? = some false := (availableLoop_spec net.busyStatus 0 h).2

theorem SendCall.totalSize_eq (c : SendCall) : c.totalSize = 14 + c.payload.length := by
  have := c.fits
  simp only [SendCall.totalSize, sizeofEthHeader] at this ⊢
  omega

/-- A queue that is unclaimed and not busy is held by no call. -/
theorem SendState.Inv.free (h : s.Inv) (hu : s.Unclaimed) {fi : Nat}
    (hfi : available s.net = some fi) : ∀ j c' q, s.At j c' q → q.queue ≠ some fi := by
  intro j c' q hj hq
  have hidle := available_spec hfi
  have hclaim := hu fi hfi j c' q hj
  have hmarked := (h.sound hj).marked fi
  cases q with
  | ready => cases hq
  | done => cases hq
  | handed | sized | filled | swapped => exact hclaim hq
  | busy k =>
    cases hq
    rw [hmarked (Or.inl rfl)] at hidle
    cases hidle
  | written k =>
    cases hq
    rw [hmarked (Or.inr rfl)] at hidle
    cases hidle

/-- A step that leaves the other queues alone, as the frame condition of `Inv.move`. -/
theorem frame_modifyBuffer {net : NetInterface} (hn : net.Sized) {fi : Nat} (hfi : fi < TUN_QUEUES)
    (f : List UInt8 → List UInt8) {k : Nat} (hk : some fi ≠ some k) :
    (net.modifyBuffer fi f).buffer k = net.buffer k ∧
      (net.modifyBuffer fi f).busyStatus[k]? = net.busyStatus[k]? := by
  refine ⟨?_, rfl⟩
  rw [buffer_modifyBuffer (by rw [hn.buffers]; exact hfi), if_neg]
  rintro rfl
  exact hk rfl

theorem frame_setBusy {net : NetInterface} {fi : Nat} (b : Bool) {k : Nat} (hk : some fi ≠ some k) :
    (setBusy fi b net).buffer k = net.buffer k ∧
      (setBusy fi b net).busyStatus[k]? = net.busyStatus[k]? := by
  refine ⟨rfl, List.getElem?_set_ne ?_⟩
  rintro rfl
  exact hk rfl

/-- An unclaimed queue is handed out. -/
theorem SendState.Inv.hand (h : s.Inv) (hi : s.At i c .ready) (hu : s.Unclaimed) {fi : Nat}
    (hav : available s.net = some fi) : (s.move i c (.handed fi) s.net).Inv := by
  refine h.move hi h.sized rfl (fun _ _ => ⟨rfl, rfl⟩) ?_ ⟨?_, nofun, nofun, nofun, nofun⟩
  · rintro k ⟨⟩
    exact Or.inr (h.free hu hav)
  · rintro k ⟨⟩
    rw [← h.sized.status]
    exact (List.getElem?_eq_some_iff.mp (available_spec hav)).1

/-- `tun_write` of a queue that was not disturbed writes the frame of its call. -/
theorem SendState.Inv.write (h : s.Inv) {fi : Nat} (hi : s.At i c (.busy fi)) :
    SendState.Inv { s.move i c (.written fi) s.net with
      wire := s.wire ++ [(i, tunWrite fi c.totalSize s.net)] } := by
  have hsound := h.sound hi
  have hmarked : ∀ k, SendPhase.written fi = .busy k ∨ SendPhase.written fi = .written k →
      s.net.busyStatus[k]? = some true := by
    intro k hk
    obtain rfl : fi = k := by simpa using hk
    exact hsound.marked fi (Or.inl rfl)
  have hmove : (s.move i c (.written fi) s.net).Inv := h.move hi h.sized rfl
    (fun _ _ => ⟨rfl, rfl⟩) (fun k hk => Or.inl hk) ⟨hsound.bound, hmarked, nofun, nofun, nofun⟩
  refine ⟨⟨?_, hmove.exclusive⟩, hmove.sized, hmove.sound⟩
  intro j frame hf
  rcases List.mem_append.mp hf with hold | hnew
  · exact hmove.frames j frame hold
  · cases List.mem_singleton.mp hnew
    have hat : (s.move i c (.written fi) s.net).At i c (.written fi) := at_move_self hi
    refine ⟨c, .written fi, hat, ?_⟩
    rw [c.totalSize_eq]
    exact tunWrite_holds (hsound.swapped fi (Or.inr rfl))

/-- A step of a call keeps the invariant, when a queue that is handed out is unclaimed. -/
theorem SendState.Inv.step {s' : SendState} (h : s.Inv) (hi : s.At i c p)
    (hguard : p = .ready → s.Unclaimed) (hstep : sendStepCall s i c p = some s') : s'.Inv := by
  have hsound := h.sound hi
  have hn := h.sized
  -- A step within one queue claims no new one.
  have hsame : ∀ {fi k : Nat}, some fi = some k → some fi = some k ∨
      ∀ j c' q, s.At j c' q → SendPhase.queue q ≠ some k := fun hk => Or.inl hk
  cases p with
  | ready =>
    unfold sendStepCall at hstep
    cases hav : available s.net with
    | none =>
      rw [hav] at hstep
      cases hstep
      exact ⟨⟨h.frames, h.exclusive⟩, hn, h.sound⟩
    | some fi =>
      rw [hav] at hstep
      cases hstep
      exact h.hand hi (hguard rfl) hav
  | handed fi =>
    cases hstep
    have hbound := hsound.bound fi rfl
    obtain ⟨hsized, hroom, hrest⟩ := ensureHasSize_spec hn hbound c.totalSize
    refine h.move hi hsized (ensureHasSize_mac _) ?_ (fun k => hsame)
      ⟨hsound.bound, nofun, ?_, nofun, nofun⟩
    · intro k hk
      refine ⟨hrest k ?_, by rw [ensureHasSize_busyStatus]⟩
      rintro rfl
      exact hk rfl
    · rintro k ⟨⟩
      rw [← c.totalSize_eq]
      exact hroom
  | sized fi =>
    cases hstep
    have hbound := hsound.bound fi rfl
    have hroom := hsound.room fi rfl
    refine h.move hi (fillBuffer_sized hn hbound _ _ hroom) rfl
      (fun k hk => frame_modifyBuffer hn hbound _ hk) (fun k => hsame)
      ⟨hsound.bound, nofun, nofun, ?_, nofun⟩
    rintro k ⟨⟩
    exact fillBuffer_holds hn hbound _ _ hroom
  | filled fi =>
    cases hstep
    have hbound := hsound.bound fi rfl
    have hholds := hsound.filled fi rfl
    have hlen : 14 ≤ (s.net.buffer fi).length := by
      obtain ⟨rest, hbuf⟩ := hholds
      rw [hbuf]
      simp only [List.length_append, Vector.length_toList, length_bytes16]
      omega
    refine h.move hi (bufferHton_sized hn hbound hlen) rfl
      (fun k hk => frame_modifyBuffer hn hbound _ hk) (fun k => hsame)
      ⟨hsound.bound, nofun, nofun, nofun, ?_⟩
    intro k hk
    obtain rfl : fi = k := by simpa using hk
    exact bufferHton_holds hn hbound hholds
  | swapped fi =>
    cases hstep
    have hbound := hsound.bound fi rfl
    refine h.move hi (setBusy_sized hn true) rfl (fun k hk => frame_setBusy true hk)
      (fun k => hsame) ⟨hsound.bound, ?_, nofun, nofun, ?_⟩
    · intro k hk
      obtain rfl : fi = k := by simpa using hk
      exact List.getElem?_set_self (by rw [hn.status]; exact hbound)
    · intro k hk
      obtain rfl : fi = k := by simpa using hk
      exact hsound.swapped fi (Or.inl rfl)
  | busy fi =>
    cases hstep
    exact h.write hi
  | written fi =>
    cases hstep
    refine h.move hi (setBusy_sized hn false) rfl (fun k hk => frame_setBusy false hk) nofun
      ⟨nofun, nofun, nofun, nofun, nofun⟩
  | done => cases hstep

end Steps

/-! ## Runs -/

theorem SendState.start_inv (ip : UInt32) (mac : Mac) : (SendState.start ip mac).Inv :=
  ⟨⟨nofun, nofun⟩, (netInterfaceStart_ready ip mac).toSized, nofun⟩

/-- A new call holds nothing. -/
theorem SendState.Inv.call {s : SendState} (h : s.Inv) (c : SendCall) :
    SendState.Inv { s with calls := s.calls ++ [(c, .ready)] } := by
  have hat : ∀ {i c' p}, SendState.At { s with calls := s.calls ++ [(c, .ready)] } i c' p →
      s.At i c' p ∨ p = .ready := by
    intro i c' p hi
    rcases Trace.getElem?_joined hi with hold | hnew
    · exact Or.inl hold
    · exact Or.inr (congrArg Prod.snd hnew)
  refine ⟨⟨?_, ?_⟩, h.sized, ?_⟩
  · intro i frame hf
    obtain ⟨c', p, hi, hframe⟩ := h.frames i frame hf
    exact ⟨c', p, Trace.getElem?_stays hi, hframe⟩
  · intro i j c₁ c₂ p₁ p₂ fi hi hj hp₁ hp₂
    rcases hat hi with hi | rfl
    · rcases hat hj with hj | rfl
      · exact h.exclusive hi hj hp₁ hp₂
      · cases hp₂
    · cases hp₁
  · intro i c' p hi
    rcases hat hi with hi | rfl
    · exact h.sound hi
    · exact ⟨nofun, nofun, nofun, nofun, nofun⟩

theorem sendStep_inv (s : SendState) (e : SendEvent) (s' : SendState) (h : s.Inv)
    (hg : SendGuard s e) (hstep : sendStep s e = some s') : s'.Inv := by
  unfold sendStep at hstep
  split at hstep
  · cases hstep
  · cases e with
    | call c =>
      cases hstep
      exact h.call c
    | step i =>
      obtain ⟨⟨c, p⟩, hi, hstep⟩ := Option.bind_eq_some_iff.mp hstep
      refine h.step hi ?_ hstep
      rintro rfl
      exact hg c hi

/-- A call that is handed a claimed queue holds it together with the other call. -/
theorem sendStep_collides (s : SendState) (e : SendEvent) (s' : SendState)
    (hstep : sendStep s e = some s') (hg : ¬ SendGuard s e) : ¬ s'.Whole := by
  cases e with
  | call c => exact absurd trivial hg
  | step i =>
    simp only [SendGuard, SendState.Unclaimed, not_forall, not_not] at hg
    obtain ⟨c, hi, fi, hav, j, c', p, hj, hp⟩ := hg
    have hs' : s' = s.move i c (.handed fi) s.net := by
      unfold sendStep at hstep
      split at hstep
      · cases hstep
      · have hi' : s.calls[i]? = some (c, .ready) := hi
        simp only [hi', Option.bind_some, sendStepCall, hav, Option.some.injEq] at hstep
        exact hstep.symm
    have hji : j ≠ i := by
      rintro rfl
      have hready : p = .ready := by simpa using congrArg Prod.snd (Option.some.inj (hj.symm.trans hi))
      rw [hready] at hp
      cases hp
    have hqueue : p.queue = some fi := by
      cases p <;> first | exact hp | cases hp
    intro hw
    subst hs'
    exact hji (hw.exclusive ((at_move hi).mpr (by rwa [if_neg hji])) (at_move_self hi) hqueue rfl)

/-- **When concurrent sends keep frames whole.** In a run of calls of `net_interface_send`, every
frame passed to `tun_write` is that of its call and no two calls ever hold the same queue, if and
only if no call is handed a queue that another call has been handed and has not marked yet. -/
theorem sends_whole_iff (ip : UInt32) (mac : Mac) (es : List SendEvent) :
    Trace.Along sendStep SendState.Whole (SendState.start ip mac) es ↔
      Trace.Guarded sendStep SendGuard (SendState.start ip mac) es :=
  Trace.along_iff_guarded (fun _ h => h.toWhole) sendStep_inv
    (fun s e s' _ hstep hg => sendStep_collides s e s' hstep hg) (SendState.start_inv ip mac) es

/-- Two calls are handed queue `0`; the second one fills the buffer before the first one writes
it. -/
def collision : List SendEvent :=
  [.call ⟨#v[2, 0, 0, 0, 0, 2], 0x0800, [1], by decide⟩,
   .call ⟨#v[2, 0, 0, 0, 0, 3], 0x0806, [2], by decide⟩,
   .step 0, .step 1, .step 0, .step 0, .step 1, .step 1, .step 0, .step 0, .step 0]

/-- The first call of `collision` writes the frame of the second one. -/
theorem sends_collide :
    ∃ s, Trace.run sendStep (SendState.start 0x0100000a #v[2, 0, 0, 0, 0, 1]) collision = some s ∧
      ¬ s.Whole := by
  obtain ⟨s, hs⟩ : ∃ s, Trace.run sendStep (SendState.start 0x0100000a #v[2, 0, 0, 0, 0, 1])
      collision = some s := Option.isSome_iff_exists.mp (by decide)
  have hview : (Trace.run sendStep (SendState.start 0x0100000a #v[2, 0, 0, 0, 0, 1])
      collision).map (fun s => (s.wire, s.calls[0]?.map fun x => x.1.frame s.net.mac)) =
      some ([(0, [2, 0, 0, 0, 0, 3, 2, 0, 0, 0, 0, 1, 0x08, 0x06, 2])],
        some [2, 0, 0, 0, 0, 2, 2, 0, 0, 0, 0, 1, 0x08, 0x00, 1]) := by decide
  rw [hs, Option.map_some, Option.some.injEq, Prod.mk.injEq] at hview
  obtain ⟨hwire, hcall⟩ := hview
  refine ⟨s, hs, fun hw => ?_⟩
  obtain ⟨c, p, hi, hframe⟩ := hw.frames 0 _ (by rw [hwire]; exact List.mem_singleton_self _)
  have hi' : s.calls[0]? = some (c, p) := hi
  rw [hi', Option.map_some, Option.some.injEq, ← hframe] at hcall
  exact absurd hcall (by decide)

end TcpIp
