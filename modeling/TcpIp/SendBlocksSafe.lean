import TcpIp.SendBlocks

/-!
# Concurrent sends that use the block of their queue

What `SendBlocks` gives for the frames on the wire and for the accesses to the heap.

* `blockStep_refines`, `send_blocks_refines`: a step is one of `SendConc`, or changes nothing that is
  seen there. No guard is needed: an access behind a pointer that dangles is not possible, and any
  other pointer is that of its queue.
* `send_blocks_stuck`: so the pointers that a longer send has made dangle are all that goes wrong.
* `send_blocks_safe`: they do not occur where no call is handed a queue that another call holds
  unmarked, which is the condition of `SendConc` for whole frames.
-/

namespace TcpIp

open Blocks Bytes

theorem length_fill {block : List UInt8} {c : SendCall} {mac : Mac}
    (h : sizeofEthHeader + c.payload.length ≤ block.length) :
    (overwrite (overwrite (overwrite (overwrite block 12 (bytes16 c.protocol)) 0 c.dstMac.toList)
      6 mac.toList) 14 c.payload).length = block.length := by
  simp only [sizeofEthHeader] at h
  rw [fill_eq _ _ _ h]
  simp only [List.length_append, Vector.length_toList, length_bytes16, List.length_drop]
  omega

theorem length_hton {block : List UInt8} {protocol : UInt16} (h : sizeofEthHeader ≤ block.length) :
    (overwrite block 12 (bytes16 protocol)).length = block.length :=
  length_overwrite (by simpa [sizeofEthHeader] using h)

namespace BlockNet

variable {g : BlockNet} {fi b size : Nat} {content : List UInt8} {heap : Heap UInt8}

/-- A block that is too small is reallocated; from `NULL` this is `calloc`. -/
theorem ensureHasSize_tooSmall (net : NetInterface)
    (hsmall : size > net.buffersSize.getD fi 0 ∨ net.buffersSize.getD fi 0 = 0) :
    ensureHasSize fi size net = { net with
      buffers := net.buffers.set fi (some (reallocBytes (net.buffer fi) size))
      buffersSize := net.buffersSize.set fi size } := by
  unfold ensureHasSize NetInterface.buffer
  rw [if_pos hsmall]
  cases net.buffers.getD fi none with
  | none => simp [reallocBytes]
  | some old => rfl

/-- `ensure_has_size` of a block that is too small, one level up. -/
theorem toNet_store (hn : g.Sized) (hsmall : g.TooSmall fi size)
    (hrep : g.heap.Replaced g.buffers fi heap b (reallocBytes (g.toNet.buffer fi) size)) :
    ((g.put heap g.busyStatus).store fi b size).toNet = ensureHasSize fi size g.toNet := by
  rw [ensureHasSize_tooSmall g.toNet hsmall]
  show ({ g.toNet with
    buffers := heap.contents (g.buffers.set fi (some b))
    buffersSize := g.buffersSize.set fi size } : NetInterface) = _
  rw [Heap.contents_replaced hn.owned hrep]
  rfl

theorem toNet_roomy (hroomy : ¬ g.TooSmall fi size) : ensureHasSize fi size g.toNet = g.toNet :=
  if_neg hroomy

end BlockNet

/-! ## Refinement -/

/-- What `SendConc` shows of a state that settles as `g`. -/
def BlockState.toSend (s : BlockState) (g : BlockNet) : SendState :=
  { net := g.toNet
    calls := s.calls.map fun x => (x.1, x.2.toSend)
    wire := s.wire
    aborted := s.aborted }

def BlockEvent.toSend : BlockEvent → SendEvent
  | call c => .call c
  | step i _ => .step i

section Refinement

variable {s s' : BlockState} {g : BlockNet} {i : Nat} {c : SendCall} {p p' : BlockPhase}
  {moves : Bool}

theorem toSend_at {q : SendPhase} :
    (s.toSend g).At i c q ↔ ∃ p, s.At i c p ∧ p.toSend = q := by
  unfold SendState.At BlockState.toSend BlockState.At
  rw [List.getElem?_map, Option.map_eq_some_iff]
  constructor
  · rintro ⟨x, hx, hq⟩
    obtain ⟨rfl, rfl⟩ := Prod.mk.inj hq
    exact ⟨x.2, hx, rfl⟩
  · rintro ⟨p, hp, rfl⟩
    exact ⟨_, hp, rfl⟩

theorem toSend_move (p' : BlockPhase) (g' net : BlockNet) :
    (s.move i c p' net).toSend g' = (s.toSend g).move i c p'.toSend g'.toNet := by
  unfold BlockState.move BlockState.toSend SendState.move
  rw [List.map_set]

theorem toSend_same (p' : BlockPhase) (hi : s.At i c p) (hp : p'.toSend = p.toSend)
    (net : BlockNet) : (s.move i c p' net).toSend g = s.toSend g := by
  rw [toSend_move p' g net]
  unfold SendState.move
  have hcalls : (s.toSend g).calls.set i (c, p'.toSend) = (s.toSend g).calls := by
    have hget : (s.toSend g).calls[i]? = some (c, p'.toSend) := toSend_at.mpr ⟨p, hi, hp.symm⟩
    rw [← (List.getElem?_eq_some_iff.mp hget).2, List.set_getElem_self]
  rw [hcalls]
  rfl

/-- The state after a step of call `i` in phase `p`: for some interface, the step is one of the call
one level up, or is not seen there, and only a resized buffer has another block. -/
def BlockState.StepsTo (s : BlockState) (g : BlockNet) (i : Nat) (c : SendCall) (p : BlockPhase)
    (s' : BlockState) : Prop :=
  ∃ g', s'.Sane g' ∧
    (g'.buffers = g.buffers ∨ ∃ fi b, p = .handed fi ∧ g'.buffers = g.buffers.set fi (some b)) ∧
    (s'.toSend g' = s.toSend g ∨
      sendStepCall (s.toSend g) i c p.toSend = some (s'.toSend g'))

/-- `available` reads the same flags. -/
theorem BlockState.Sane.step_ready (h : s.Sane g) (hi : s.At i c .ready)
    (hstep : blockStepCall s i c moves .ready = some s') : s.StepsTo g i c .ready s' := by
  obtain ⟨-, hstatus⟩ := h.settles.same
  have hav : available (s.toSend g).net = availableLoop s.net.busyStatus 0 :=
    congrArg (availableLoop · 0) hstatus
  cases hloop : availableLoop s.net.busyStatus 0 with
  | none =>
    simp only [blockStepCall, hloop] at hstep
    obtain rfl := Option.some.inj hstep
    refine ⟨g, ⟨h.sized, ⟨h.settles.free, h.settles.held, h.settles.holder⟩, h.table, h.grows,
      h.sound, h.origin⟩, Or.inl rfl, Or.inr ?_⟩
    rw [hloop] at hav
    simp only [BlockPhase.toSend, sendStepCall, hav]
    rfl
  | some fi =>
    simp only [blockStepCall, hloop] at hstep
    obtain rfl := Option.some.inj hstep
    have hbound : fi < TUN_QUEUES := by
      rw [← h.sized.status]
      exact (List.getElem?_eq_some_iff.mp (available_spec (hav.trans hloop))).1
    have hnew : BlockPhase.Sound (.handed fi) c s.net g := by
      refine .of_pointer_none ?_ (by rintro _ ⟨⟩) rfl
      rintro k ⟨⟩
      exact hbound
    refine ⟨g, h.stay (.handed fi) hi rfl rfl hnew, Or.inl rfl, Or.inr ?_⟩
    rw [hloop] at hav
    simp only [BlockPhase.toSend, sendStepCall, hav]
    exact congrArg some (toSend_move (.handed fi) g s.net).symm

/-- `ensure_has_size` up to the result of `realloc`: one level up the buffer has its new size. -/
theorem BlockState.Sane.step_handed {fi : Nat} (h : s.Sane g) (hi : s.At i c (.handed fi))
    (hstep : blockStepCall s i c moves (.handed fi) = some s') :
    s.StepsTo g i c (.handed fi) s' := by
  have hsound := h.sound hi
  simp only [blockStepCall] at hstep
  split at hstep
  · cases hstep
  rename_i hlock
  have hmut : s.mutBuffer = none := Option.not_isSome_iff_eq_none.mp hlock
  obtain rfl := h.settles.free hmut
  have hup : sendStepCall (s.toSend s.net) i c (.handed fi) = some ((s.toSend s.net).move i c
    (.sized fi) (ensureHasSize fi c.totalSize s.net.toNet)) := rfl
  split at hstep
  · rename_i hsmall
    obtain ⟨x, hre, rfl⟩ := Option.map_eq_some_iff.mp hstep
    refine ⟨_, h.resize hi hmut hsmall hre, Or.inr ⟨fi, x.2, rfl, rfl⟩, Or.inr ?_⟩
    rw [BlockPhase.toSend, hup, ← BlockNet.toNet_store h.sized hsmall
      (h.sized.reallocate (hsound.bound fi rfl) hre)]
    exact congrArg some (toSend_move (.resized fi x.2) _ s.net).symm
  · rename_i hroomy
    obtain rfl := Option.some.inj hstep
    refine ⟨_, h.stay (.sized fi) hi rfl rfl ⟨hsound.bound, ?_, by rintro _ _ ⟨⟩⟩, Or.inl rfl,
      Or.inr ?_⟩
    · rintro k ⟨⟩
      exact h.sized.room (hsound.bound fi rfl) hroomy
    · rw [BlockPhase.toSend, hup, BlockNet.toNet_roomy hroomy, toSend_move]
      rfl

/-- A `write` from a block that was not freed is from the buffer of the queue. -/
theorem BlockState.Sane.step_busy {fi : Nat} {header : Option Nat} (h : s.Sane g)
    (hi : s.At i c (.busy fi header))
    (hstep : blockStepCall s i c moves (.busy fi header) = some s') :
    s.StepsTo g i c (.busy fi header) s' := by
  obtain ⟨hheap, -⟩ := h.settles.same
  have hsound := h.sound hi
  obtain ⟨frame, hload, rfl⟩ := Option.map_eq_some_iff.mp hstep
  obtain ⟨b, rfl, hpoints⟩ := hsound.points fi header rfl
  rw [← hheap] at hload
  obtain ⟨hcur, hle⟩ : g.buffers[fi]? = some (some b) ∧ c.totalSize ≤ g.size fi := by
    rcases hpoints with hcur | ⟨hfreed, -⟩
    · exact hcur
    · rw [hfreed.load] at hload
      cases hload
  obtain ⟨content, hcontent⟩ := h.sized.owned.live hcur
  have hlen : c.totalSize ≤ content.length := (h.sized.length hcur hcontent).symm ▸ hle
  rw [Heap.load_eq hcontent hlen] at hload
  obtain rfl := Option.some.inj hload
  have hstay : (s.move i c (.written fi) s.net).Sane g :=
    h.stay (.written fi) hi rfl rfl (.of_pointer_none hsound.bound (by rintro _ ⟨⟩) rfl)
  refine ⟨g, ⟨hstay.sized, ⟨hstay.settles.free, hstay.settles.held, hstay.settles.holder⟩,
    hstay.table, hstay.grows, hstay.sound, hstay.origin⟩, Or.inl rfl, Or.inr ?_⟩
  have hframe : tunWrite fi c.totalSize g.toNet = content.take c.totalSize := by
    rw [tunWrite, BlockNet.buffer_eq hcur hcontent]
  have hup : sendStepCall (s.toSend g) i c (.busy fi) = some
      { (s.toSend g).move i c (.written fi) g.toNet with
        wire := s.wire ++ [(i, tunWrite fi c.totalSize g.toNet)] } := rfl
  rw [BlockPhase.toSend, hup, hframe]
  exact congrArg (fun t : SendState => some { t with
    wire := s.wire ++ [(i, content.take c.totalSize)] }) (toSend_move (.written fi) g s.net).symm

/-- One step of a call is a step one level up, or is not seen there. -/
theorem BlockState.Sane.step (h : s.Sane g) (hi : s.At i c p)
    (hstep : blockStepCall s i c moves p = some s') : s.StepsTo g i c p s' := by
  obtain ⟨-, hstatus⟩ := h.settles.same
  have hsound := h.sound hi
  cases p with
  | ready => exact h.step_ready hi hstep
  | handed fi => exact h.step_handed hi hstep
  | resized fi b =>
    obtain rfl := Option.some.inj hstep
    exact ⟨g, (h.store hi).2, Or.inl rfl, Or.inl (toSend_same (.sized fi) hi rfl s.net)⟩
  | sized fi =>
    obtain rfl := Option.some.inj hstep
    obtain ⟨⟨b, hb⟩, hroom⟩ := hsound.room fi rfl
    have hpoints : g.Points fi b c.totalSize := (h.table hb).mono hroom
    have hread : s.net.buffers.getD fi none = some b := by
      rw [List.getD_eq_getElem?_getD, hb, Option.getD_some]
    exact ⟨g, h.stay (.held fi _) hi rfl rfl (.of_pointer rfl (hsound.bound fi rfl)
      ⟨b, hread, hpoints⟩), Or.inl rfl, Or.inl (toSend_same (.held fi _) hi rfl _)⟩
  | held fi header =>
    obtain ⟨heap, hfill, rfl⟩ := Option.map_eq_some_iff.mp hstep
    obtain ⟨hsane, hnet⟩ :=
      h.update (.filled fi header) hi rfl rfl (fun block hn => length_fill hn) hfill
    refine ⟨_, hsane, Or.inl rfl, Or.inr ?_⟩
    rw [toSend_move, hnet, ← h.settles.mac]
    rfl
  | filled fi header =>
    obtain ⟨heap, hhton, rfl⟩ := Option.map_eq_some_iff.mp hstep
    obtain ⟨hsane, hnet⟩ :=
      h.update (.swapped fi header) hi rfl rfl (fun block hn => length_hton hn) hhton
    refine ⟨_, hsane, Or.inl rfl, Or.inr ?_⟩
    rw [toSend_move, hnet]
    rfl
  | swapped fi header =>
    obtain rfl := Option.some.inj hstep
    refine ⟨_, h.flag (.busy fi header) hi rfl rfl (.of_pointer rfl (hsound.bound fi rfl)
      (hsound.points fi header rfl)) fi true, Or.inl rfl, Or.inr ?_⟩
    rw [toSend_move, ← hstatus]
    rfl
  | busy fi header => exact h.step_busy hi hstep
  | written fi =>
    obtain rfl := Option.some.inj hstep
    refine ⟨_, h.flag .done hi rfl rfl (.of_pointer_none (by rintro _ ⟨⟩) (by rintro _ ⟨⟩) rfl)
      fi false, Or.inl rfl, Or.inr ?_⟩
    rw [toSend_move, ← hstatus]
    rfl
  | done => cases hstep

/-- A new call has no queue yet. -/
theorem BlockState.Sane.call (h : s.Sane g) (c : SendCall) :
    BlockState.Sane { s with calls := s.calls ++ [(c, .ready)] } g := by
  have hat : ∀ {i c' p}, BlockState.At { s with calls := s.calls ++ [(c, .ready)] } i c' p →
      s.At i c' p ∨ p = .ready := by
    intro i c' p hi
    rcases Trace.getElem?_joined hi with hold | hnew
    · exact Or.inl hold
    · exact Or.inr (congrArg Prod.snd hnew)
  refine ⟨h.sized, ⟨h.settles.free, fun {i c' fi b} hi => ?_, fun {i} hmut => ?_⟩, h.table, h.grows,
    fun {i c' p} hi => ?_, fun fi => ?_⟩
  · rcases hat hi with hi | hready
    · exact h.settles.held hi
    · cases hready
  · obtain ⟨c', fi, b, hi⟩ := h.settles.holder hmut
    exact ⟨c', fi, b, Trace.getElem?_stays hi⟩
  · rcases hat hi with hi | rfl
    · exact h.sound hi
    · exact .of_pointer_none (by rintro _ ⟨⟩) (by rintro _ ⟨⟩) rfl
  · rcases h.origin fi with hzero | ⟨i, c', p, hi, hsize⟩
    · exact Or.inl hzero
    · exact Or.inr ⟨i, c', p, Trace.getElem?_stays hi, hsize⟩

theorem toSend_call (c : SendCall) :
    BlockState.toSend { s with calls := s.calls ++ [(c, .ready)] } g =
      { s.toSend g with calls := (s.toSend g).calls ++ [(c, .ready)] } := by
  unfold BlockState.toSend
  rw [List.map_append]
  rfl

theorem blockStep_refines {e : BlockEvent} (h : s.Sane g) (hstep : blockStep s e = some s') :
    ∃ g', s'.Sane g' ∧
      (s'.toSend g' = s.toSend g ∨ sendStep (s.toSend g) e.toSend = some (s'.toSend g')) := by
  unfold blockStep at hstep
  split at hstep
  · cases hstep
  · rename_i hlive
    have hlive' : ¬ (s.toSend g).aborted = true := hlive
    cases e with
    | call c =>
      obtain rfl := Option.some.inj hstep
      refine ⟨g, h.call c, Or.inr ?_⟩
      unfold sendStep
      rw [if_neg hlive', toSend_call]
      rfl
    | step i moves =>
      obtain ⟨⟨c, p⟩, hi, hstep⟩ := Option.bind_eq_some_iff.mp hstep
      obtain ⟨g', hsane, -, hup⟩ := h.step hi hstep
      refine ⟨g', hsane, hup.imp_right fun hup => ?_⟩
      have hi' : (s.toSend g).calls[i]? = some (c, p.toSend) := toSend_at.mpr ⟨p, hi, rfl⟩
      unfold sendStep
      rw [if_neg hlive']
      show ((s.toSend g).calls[i]?).bind _ = _
      rw [hi', Option.bind_some]
      exact hup

theorem start_sane (ip : UInt32) (mac : Mac) :
    (BlockState.start ip mac).Sane (.start ip mac) := by
  have hnull : ∀ {fi : Nat} {ptr}, (List.replicate TUN_QUEUES (none : Option Nat))[fi]? = some ptr →
      ptr = none := fun h => List.eq_of_mem_replicate (List.mem_of_getElem? h)
  have hsize : ∀ fi, (BlockNet.start ip mac).size fi = 0 := by
    intro fi
    simp only [BlockNet.size, BlockNet.start, List.getD_eq_getElem?_getD, List.getElem?_replicate]
    split <;> rfl
  have hempty : ∀ b, Heap.block (⟨[]⟩ : Heap UInt8) b = none := fun _ => rfl
  have howned : Heap.Owned (⟨[]⟩ : Heap UInt8) (List.replicate TUN_QUEUES none) := by
    refine ⟨fun h => absurd (hnull h) (Option.some_ne_none _),
      fun h => absurd (hnull h) (Option.some_ne_none _), fun {b content} h => ?_⟩
    rw [hempty] at h
    cases h
  have hnone : ∀ {i c p}, ¬ (BlockState.start ip mac).At i c p := by
    intro i c p hi
    cases hi
  refine ⟨⟨rfl, rfl, rfl, howned, fun h => absurd (hnull h) (Option.some_ne_none _),
    fun _ => hsize _⟩, ⟨fun _ => rfl, (absurd · hnone), (absurd ·.symm (Option.some_ne_none _))⟩,
    fun h => absurd (hnull h) (Option.some_ne_none _), fun _ => Nat.le_refl _, (absurd · hnone),
    fun fi => Or.inl (hsize fi)⟩

theorem toSend_start (ip : UInt32) (mac : Mac) :
    (BlockState.start ip mac).toSend (.start ip mac) = SendState.start ip mac := rfl

/-- Every run is one of `SendConc`, in a sane state. -/
theorem blockRun_refines {es : List BlockEvent} (h : s.Sane g)
    (hrun : Trace.run blockStep s es = some s') :
    ∃ g' es', s'.Sane g' ∧ es'.Sublist (es.map BlockEvent.toSend) ∧
      Trace.run sendStep (s.toSend g) es' = some (s'.toSend g') := by
  have hstep : ∀ (s : BlockState) (t : SendState) (e : BlockEvent) (s' : BlockState),
      (∃ g, s.Sane g ∧ t = s.toSend g) → blockStep s e = some s' →
      (∃ g', s'.Sane g' ∧ t = s'.toSend g') ∨
        ∃ t', sendStep t e.toSend = some t' ∧ ∃ g', s'.Sane g' ∧ t' = s'.toSend g' := by
    rintro s t e s' ⟨g, hg, rfl⟩ hstep
    obtain ⟨g', hg', hsame | hup⟩ := blockStep_refines hg hstep
    · exact Or.inl ⟨g', hg', hsame.symm⟩
    · exact Or.inr ⟨_, hup, g', hg', rfl⟩
  obtain ⟨es', t', hsub, hrun', g', hsane, rfl⟩ := Trace.run_stutters hstep ⟨g, h, rfl⟩ hrun
  exact ⟨g', es', hsane, hsub, hrun'⟩

end Refinement

/-- **Sends with pointers.** Whatever the calls and their order, also where they collide on a
queue, and whichever blocks `realloc` moves: a run with pointers writes the frames of a run of
`SendConc` in which the same calls take the same steps. While no call is in `ensure_has_size`, the
interface is that of this run, each block belongs to one queue, and none is lost. -/
theorem send_blocks_refines {ip : UInt32} {mac : Mac} {es : List BlockEvent} {s : BlockState}
    (hrun : Trace.run blockStep (.start ip mac) es = some s) :
    ∃ es' t, es'.Sublist (es.map BlockEvent.toSend) ∧
      Trace.run sendStep (.start ip mac) es' = some t ∧ t.wire = s.wire ∧
      t.calls = s.calls.map (fun x => (x.1, x.2.toSend)) ∧ t.aborted = s.aborted ∧
      (s.mutBuffer = none → t.net = s.net.toNet ∧ s.net.heap.Owned s.net.buffers) := by
  obtain ⟨g, es', hsane, hsub, hrun'⟩ := blockRun_refines (start_sane ip mac) hrun
  rw [toSend_start] at hrun'
  refine ⟨es', _, hsub, hrun', rfl, rfl, rfl, fun hmut => ?_⟩
  obtain rfl := hsane.settles.free hmut
  exact ⟨rfl, hsane.sized.owned⟩

/-- A call with at most 1500 bytes. -/
def sendOf (payload : List UInt8) : SendCall :=
  { dstMac := sampleMac 2, protocol := 0x0800, payload := payload.take 1500
    fits := by
      have := List.length_take_le 1500 payload
      unfold sizeofEthHeader
      omega }

/-- Two calls collide on queue `0` with frames of one length; the first one writes the frame of the
second. -/
def colliding : List BlockEvent :=
  [.call (sendOf [1]), .call (sendOf [2]), .step 0 true, .step 1 true] ++
    List.replicate 4 (.step 0 true) ++ List.replicate 3 (.step 1 true) ++
    List.replicate 3 (.step 0 true)

theorem send_blocks_refines_colliding :
    ∃ s es' t, Trace.run blockStep (.start 0x0100000a (sampleMac 1)) colliding = some s ∧
      Trace.run sendStep (.start 0x0100000a (sampleMac 1)) es' = some t ∧ t.wire = s.wire ∧
      s.wire = [(0, (sendOf [2]).frame (sampleMac 1))] ∧ s.net.heap.Owned s.net.buffers := by
  have hview : (Trace.run blockStep (.start 0x0100000a (sampleMac 1)) colliding).map
      (fun s => (s.wire, s.mutBuffer)) = some ([(0, (sendOf [2]).frame (sampleMac 1))], none) := by
    decide +kernel
  obtain ⟨s, hrun, hs⟩ := Option.map_eq_some_iff.mp hview
  obtain ⟨hwire, hmut⟩ := Prod.mk.inj hs
  obtain ⟨es', t, -, hrun', hsame, -, -, hfree⟩ := send_blocks_refines hrun
  exact ⟨s, es', t, hrun, hrun', hsame, hwire, (hfree hmut).2⟩

/-! ## Pointers that dangle -/

section Dangling

variable {s : BlockState} {g : BlockNet} {i : Nat} {c : SendCall} {p : BlockPhase}

/-- A call at the entry of `ensure_has_size` waits for `mut_buffer`. -/
def BlockState.Waits (s : BlockState) (p : BlockPhase) : Prop :=
  (∃ fi, p = .handed fi) ∧ s.mutBuffer.isSome

/-- The next step of a call uses a block that was freed. -/
def BlockState.Dangles (s : BlockState) (p : BlockPhase) : Prop :=
  ∃ fi b, p.accesses = some (fi, some b) ∧ s.net.heap.Freed b

theorem BlockPhase.pointer_of_accesses {x : Nat × Option Nat} (h : p.accesses = some x) :
    p.pointer = some x := by
  cases p with
  | held | filled | busy => exact h
  | ready | handed | resized | sized | swapped | written | done => cases h

/-- A call that has to access a block can, or its pointer dangles. -/
theorem BlockState.Sane.access (h : s.Sane g) (hi : s.At i c p) {fi : Nat} {header : Option Nat}
    (hp : p.accesses = some (fi, header)) :
    s.Dangles p ∨ ∃ b content, header = some b ∧ s.net.heap.block b = some content ∧
      c.totalSize ≤ content.length := by
  obtain ⟨b, rfl, hpoints⟩ := (h.sound hi).points fi header (BlockPhase.pointer_of_accesses hp)
  have hheap := h.settles.same.1
  rcases hpoints with ⟨hcur, hle⟩ | ⟨hfreed, -⟩
  · obtain ⟨content, hcontent⟩ := h.sized.owned.live hcur
    refine Or.inr ⟨b, content, rfl, hheap ▸ hcontent, ?_⟩
    rw [h.sized.length hcur hcontent]
    exact hle
  · exact Or.inl ⟨fi, b, hp, hheap ▸ hfreed⟩

/-- A call that waits, or whose pointer dangles, cannot go on. -/
theorem BlockState.stuck_of (h : s.Waits p ∨ s.Dangles p) (moves : Bool) :
    blockStepCall s i c moves p = none := by
  rcases h with ⟨⟨fi, rfl⟩, hlock⟩ | ⟨fi, b, haccess, hfreed⟩
  · exact if_pos hlock
  · cases p with
    | held fi header =>
      obtain ⟨rfl, rfl⟩ := Prod.mk.inj (Option.some.inj haccess)
      rw [blockStepCall, BlockNet.fill, hfreed.update]
      rfl
    | filled fi header =>
      obtain ⟨rfl, rfl⟩ := Prod.mk.inj (Option.some.inj haccess)
      rw [blockStepCall, BlockNet.hton, hfreed.update]
      rfl
    | busy fi header =>
      obtain ⟨rfl, rfl⟩ := Prod.mk.inj (Option.some.inj haccess)
      rw [blockStepCall, hfreed.load]
      rfl
    | ready | handed | resized | sized | swapped | written | done => cases haccess

/-- Every other call can. -/
theorem BlockState.Sane.waits_or_dangles (h : s.Sane g) (hi : s.At i c p) (hp : p ≠ .done)
    (hfalse : blockStepCall s i c false p = none) : s.Waits p ∨ s.Dangles p := by
  cases p with
  | ready =>
    simp only [blockStepCall] at hfalse
    split at hfalse <;> cases hfalse
  | handed fi =>
    simp only [blockStepCall] at hfalse
    split at hfalse
    · rename_i hlock
      exact Or.inl ⟨⟨fi, rfl⟩, hlock⟩
    · rename_i hlock
      obtain rfl := h.settles.free (Option.not_isSome_iff_eq_none.mp hlock)
      split at hfalse
      · obtain ⟨x, hx⟩ := h.sized.exists_reallocate ((h.sound hi).bound fi rfl) c.totalSize false
        rw [hx] at hfalse
        cases hfalse
      · cases hfalse
  | resized | sized | swapped | written => cases hfalse
  | held fi header =>
    rcases h.access hi rfl with hdangles | ⟨b, content, rfl, hcontent, hlen⟩
    · exact Or.inr hdangles
    · have hroom : sizeofEthHeader + c.payload.length ≤ content.length := c.totalSize_eq ▸ hlen
      obtain ⟨heap, hup⟩ := Heap.exists_update hcontent hroom _
      rw [blockStepCall, BlockNet.fill, hup] at hfalse
      cases hfalse
  | filled fi header =>
    rcases h.access hi rfl with hdangles | ⟨b, content, rfl, hcontent, hlen⟩
    · exact Or.inr hdangles
    · have hroom : sizeofEthHeader ≤ content.length := by
        rw [c.totalSize_eq] at hlen
        unfold sizeofEthHeader
        omega
      obtain ⟨heap, hup⟩ := Heap.exists_update hcontent hroom _
      rw [blockStepCall, BlockNet.hton, hup] at hfalse
      cases hfalse
  | busy fi header =>
    rcases h.access hi rfl with hdangles | ⟨b, content, rfl, hcontent, hlen⟩
    · exact Or.inr hdangles
    · rw [blockStepCall, Heap.load_eq hcontent hlen] at hfalse
      cases hfalse
  | done => exact absurd rfl hp

/-- A call that is not done stops for these two reasons only. -/
theorem BlockState.Sane.stuck_iff (h : s.Sane g) (hi : s.At i c p) (hp : p ≠ .done) :
    (∀ moves, blockStepCall s i c moves p = none) ↔ s.Waits p ∨ s.Dangles p :=
  ⟨fun hnone => h.waits_or_dangles hi hp (hnone false), stuck_of⟩

/-- The block that took the place of a dangling one was allocated for a longer frame. -/
theorem BlockState.Sane.longer (h : s.Sane g) (hi : s.At i c p) (hdangles : s.Dangles p) :
    ∃ j c' q, s.At j c' q ∧ c.payload.length < c'.payload.length := by
  obtain ⟨fi, b, haccess, hfreed⟩ := hdangles
  have hpointer := BlockPhase.pointer_of_accesses haccess
  obtain ⟨b', hb, hpoints⟩ := (h.sound hi).points fi _ hpointer
  obtain rfl := Option.some.inj hb
  rcases hpoints with ⟨hcur, -⟩ | ⟨-, hlt⟩
  · exact absurd (h.settles.same.1 ▸ hfreed) (h.sized.owned.not_freed hcur)
  · rcases h.origin fi with hzero | ⟨j, c', q, hj, hsize⟩
    · omega
    · refine ⟨j, c', q, hj, ?_⟩
      rw [← hsize, c.totalSize_eq, c'.totalSize_eq] at hlt
      omega

end Dangling

theorem blockStep_at {s : BlockState} {i : Nat} {c : SendCall} {p : BlockPhase}
    (hlive : s.aborted = false) (hi : s.At i c p) (moves : Bool) :
    blockStep s (.step i moves) = blockStepCall s i c moves p := by
  have hi' : s.calls[i]? = some (c, p) := hi
  simp only [blockStep, hlive, Bool.false_eq_true, if_false, hi', Option.bind_some]

/-- **The only bad access.** In any run, a call that is not done cannot go on if and only if it
waits for `mut_buffer`, whose holder can go on, or its `eth_header` points to a block that was freed.
No access goes past the end of a block or behind `NULL`, and where a pointer dangles there is a call
with a longer frame: sends of frames of one length never use a block that was freed. -/
theorem send_blocks_stuck {ip : UInt32} {mac : Mac} {es : List BlockEvent} {s : BlockState}
    (hrun : Trace.run blockStep (.start ip mac) es = some s) (hlive : s.aborted = false)
    {i : Nat} {c : SendCall} {p : BlockPhase} (hi : s.At i c p) (hp : p ≠ .done) :
    ((∀ moves, blockStep s (.step i moves) = none) ↔ s.Waits p ∨ s.Dangles p) ∧
      (s.Waits p → ∃ j s', s.mutBuffer = some j ∧ blockStep s (.step j false) = some s') ∧
      (s.Dangles p → ∃ j c' q, s.At j c' q ∧ c.payload.length < c'.payload.length) := by
  obtain ⟨g, es', hsane, -⟩ := blockRun_refines (start_sane ip mac) hrun
  refine ⟨?_, fun hwaits => ?_, hsane.longer hi⟩
  · rw [← hsane.stuck_iff hi hp]
    exact forall_congr' fun moves => by rw [blockStep_at hlive hi]
  · obtain ⟨j, hmut⟩ := Option.isSome_iff_exists.mp hwaits.2
    obtain ⟨c', fi, b, hj⟩ := hsane.settles.holder hmut
    exact ⟨j, _, hmut, blockStep_at hlive hj false⟩

/-- The second call has the longer frame, and reallocates the block that the first one is about to
fill. -/
def moving : List BlockEvent :=
  [.call (sendOf [1]), .call (sendOf [2, 3]), .step 0 true, .step 1 true] ++
    List.replicate 3 (.step 0 true) ++ [.step 1 true]

theorem send_blocks_stuck_moving :
    ∃ s, Trace.run blockStep (.start 0x0100000a (sampleMac 1)) moving = some s ∧
      (∀ moves, blockStep s (.step 0 moves) = none) ∧
      ∃ j c' q, s.At j c' q ∧ 1 < c'.payload.length := by
  have hview : (Trace.run blockStep (.start 0x0100000a (sampleMac 1)) moving).map
      (fun s => (s.aborted, s.calls[0]?.map fun x => (x.1.payload.length, x.2),
        s.net.heap.blocks.length, s.net.heap.block 0)) =
      some (false, some (1, .held 0 (some 0)), 2, none) := by decide +kernel
  obtain ⟨s, hrun, hs⟩ := Option.map_eq_some_iff.mp hview
  obtain ⟨hlive, hs⟩ := Prod.mk.inj hs
  obtain ⟨hcall, hs⟩ := Prod.mk.inj hs
  obtain ⟨hblocks, hblock⟩ := Prod.mk.inj hs
  obtain ⟨⟨c, p⟩, hi, hc⟩ := Option.map_eq_some_iff.mp hcall
  obtain ⟨hlen, rfl⟩ := Prod.mk.inj hc
  have hfreed : s.net.heap.Freed 0 := ⟨by rw [hblocks]; decide, hblock⟩
  have hdangles : s.Dangles (.held 0 (some 0)) := ⟨0, 0, rfl, hfreed⟩
  obtain ⟨hstuck, -, hlonger⟩ := send_blocks_stuck hrun hlive hi (by rintro ⟨⟩)
  exact ⟨s, hrun, hstuck.mpr (Or.inr hdangles), hlen ▸ hlonger hdangles⟩

/-! ## Sends that do not collide -/

/-- The guard of `SendConc`: no call is handed a queue that another call has been handed and has not
marked yet. -/
def BlockGuard (s : BlockState) : BlockEvent → Prop
  | .call _ => True
  | .step i _ => (s.calls[i]?).map Prod.snd = some .ready → ∀ x ∈ s.calls,
      x.2.toSend.unmarked = none ∨ x.2.toSend.unmarked ≠ availableLoop s.net.busyStatus 0

instance (s : BlockState) : (e : BlockEvent) → Decidable (BlockGuard s e)
  | .call _ => isTrue trivial
  | .step _ _ => inferInstanceAs (Decidable (_ → ∀ _ ∈ _, _ ∨ _))

/-- Each frame is that of its call, no pointer dangles, and no two calls have a pointer to one
block. -/
structure BlockState.Safe (s : BlockState) : Prop where
  frames : ∀ i frame, (i, frame) ∈ s.wire → ∃ c p, s.At i c p ∧ frame = c.frame s.net.mac
  live : ∀ {i c p}, s.At i c p → ¬ s.Dangles p
  apart : ∀ {i j c c' p q fi fj header}, s.At i c p → s.At j c' q →
    p.pointer = some (fi, header) → q.pointer = some (fj, header) → i = j

/-- The invariant of `SendConc`, and the pointer of a call is still that of its queue. -/
structure BlockState.Tidy (s : BlockState) (g : BlockNet) : Prop where
  sane : s.Sane g
  inv : (s.toSend g).Inv
  current : ∀ {i c p fi header}, s.At i c p → p.pointer = some (fi, header) →
    g.buffers[fi]? = some header

section Guarded

variable {s s' : BlockState} {g : BlockNet} {i j fi : Nat} {c c' : SendCall} {p q : BlockPhase}
  {moves : Bool}

theorem BlockState.Tidy.exclusive (h : s.Tidy g) (hi : s.At i c p) (hj : s.At j c' q)
    (hp : p.toSend.queue = some fi) (hq : q.toSend.queue = some fi) : i = j :=
  h.inv.exclusive (toSend_at.mpr ⟨p, hi, rfl⟩) (toSend_at.mpr ⟨q, hj, rfl⟩) hp hq

theorem BlockState.Tidy.safe (h : s.Tidy g) : s.Safe := by
  have hsane := h.sane
  refine ⟨fun i frame hframe => ?_, fun {i c p} hi hdangles => ?_, ?_⟩
  · obtain ⟨c, q, hi, rfl⟩ := h.inv.frames i frame hframe
    obtain ⟨p, hi', -⟩ := toSend_at.mp hi
    refine ⟨c, p, hi', ?_⟩
    rw [← hsane.settles.mac]
    rfl
  · obtain ⟨fi, b, haccess, hfreed⟩ := hdangles
    have hcur := h.current hi (BlockPhase.pointer_of_accesses haccess)
    exact hsane.sized.owned.not_freed hcur (hsane.settles.same.1 ▸ hfreed)
  · intro i j c c' p q fi fj header hi hj hp hq
    obtain ⟨b, rfl, -⟩ := (hsane.sound hi).points fi header hp
    obtain rfl := hsane.sized.owned.unique (h.current hi hp) (h.current hj hq)
    exact h.exclusive hi hj (BlockPhase.queue_of_pointer hp) (BlockPhase.queue_of_pointer hq)

/-- What a step does to the pointer of its call. -/
theorem blockStepCall_pointer (hstep : blockStepCall s i c moves p = some s') :
    s'.calls = s.calls ∨ ∃ p', s'.calls = s.calls.set i (c, p') ∧
      (p'.pointer = none ∨ p'.pointer = p.pointer ∨
        ∃ fi, p = .sized fi ∧ p' = .held fi (s.net.buffers.getD fi none)) := by
  cases p with
  | ready =>
    simp only [blockStepCall] at hstep
    split at hstep
    · obtain rfl := Option.some.inj hstep
      exact Or.inl rfl
    · obtain rfl := Option.some.inj hstep
      exact Or.inr ⟨_, rfl, Or.inl rfl⟩
  | handed fi =>
    simp only [blockStepCall] at hstep
    split at hstep
    · cases hstep
    · split at hstep
      · obtain ⟨x, -, rfl⟩ := Option.map_eq_some_iff.mp hstep
        exact Or.inr ⟨_, rfl, Or.inl rfl⟩
      · obtain rfl := Option.some.inj hstep
        exact Or.inr ⟨_, rfl, Or.inl rfl⟩
  | sized fi =>
    obtain rfl := Option.some.inj hstep
    exact Or.inr ⟨_, rfl, Or.inr (Or.inr ⟨fi, rfl, rfl⟩)⟩
  | resized | written =>
    obtain rfl := Option.some.inj hstep
    exact Or.inr ⟨_, rfl, Or.inl rfl⟩
  | held | filled =>
    obtain ⟨heap, -, rfl⟩ := Option.map_eq_some_iff.mp hstep
    exact Or.inr ⟨_, rfl, Or.inr (Or.inl rfl)⟩
  | swapped =>
    obtain rfl := Option.some.inj hstep
    exact Or.inr ⟨_, rfl, Or.inr (Or.inl rfl)⟩
  | busy =>
    obtain ⟨frame, -, rfl⟩ := Option.map_eq_some_iff.mp hstep
    exact Or.inr ⟨_, rfl, Or.inl rfl⟩
  | done => cases hstep

/-- The pointer that a call reads outside the lock is that of its queue: nobody else reallocates
it. -/
theorem BlockState.Tidy.read (h : s.Tidy g) (hi : s.At i c (.sized fi)) :
    g.buffers[fi]? = some (s.net.buffers.getD fi none) := by
  obtain ⟨⟨b, hb⟩, -⟩ := (h.sane.sound hi).room fi rfl
  rw [List.getD_eq_getElem?_getD, hb, Option.getD_some]
  cases hmut : s.mutBuffer with
  | none =>
    rw [h.sane.settles.free hmut]
    exact hb
  | some j =>
    obtain ⟨c', fj, b', hj⟩ := h.sane.settles.holder hmut
    have hne : fj ≠ fi := by
      rintro rfl
      obtain rfl := h.exclusive hi hj rfl rfl
      cases congrArg Prod.snd (Option.some.inj (hi.symm.trans hj))
    rw [(h.sane.settles.held hj).2]
    exact (List.getElem?_set_ne hne).trans hb

theorem BlockState.Tidy.step (h : s.Tidy g) (hi : s.At i c p)
    (hguard : p = .ready → (s.toSend g).Unclaimed)
    (hstep : blockStepCall s i c moves p = some s') : ∃ g', s'.Tidy g' := by
  obtain ⟨g', hsane', hbuffers, hup⟩ := h.sane.step hi hstep
  have hinv : (s'.toSend g').Inv := by
    rcases hup with hsame | hup
    · rw [hsame]
      exact h.inv
    · refine h.inv.step (toSend_at.mpr ⟨p, hi, rfl⟩) (fun hready => hguard ?_) hup
      cases p with
      | ready => rfl
      | handed | resized | sized | held | filled | swapped | busy | written | done => cases hready
  -- A pointer from before the step is that of a queue that nobody else reallocates.
  have hkeep : ∀ {j c' q fj header}, s.At j c' q → q.pointer = some (fj, header) →
      g'.buffers[fj]? = some header := by
    intro j c' q fj header hj hq
    rcases hbuffers with hsame | ⟨fi, b, rfl, hset⟩
    · rw [hsame]
      exact h.current hj hq
    · have hne : fi ≠ fj := by
        rintro rfl
        obtain rfl := h.exclusive hi hj rfl (BlockPhase.queue_of_pointer hq)
        obtain rfl : BlockPhase.handed fi = q :=
          congrArg Prod.snd (Option.some.inj (hi.symm.trans hj))
        cases hq
      rw [hset, List.getElem?_set_ne hne]
      exact h.current hj hq
  refine ⟨g', hsane', hinv, fun {j c' q fj header} hj hq => ?_⟩
  rcases blockStepCall_pointer hstep with hcalls | ⟨p', hcalls, hp'⟩
  · unfold BlockState.At at hj
    rw [hcalls] at hj
    exact hkeep hj hq
  · unfold BlockState.At at hj
    rw [hcalls, Trace.getElem?_moved hi, Prod.mk.injEq] at hj
    by_cases hji : j = i
    · rw [if_pos hji] at hj
      obtain ⟨-, rfl⟩ := hj
      rcases hp' with hnone | hsame | ⟨fi, rfl, rfl⟩
      · rw [hnone] at hq
        cases hq
      · exact hkeep hi (hsame.symm.trans hq)
      · obtain ⟨rfl, rfl⟩ := Prod.mk.inj (Option.some.inj hq)
        rcases hbuffers with hsame | ⟨fi', b, hphase, -⟩
        · rw [hsame]
          exact h.read hi
        · cases hphase
    · rw [if_neg hji] at hj
      exact hkeep hj hq

theorem blockStep_tidy {e : BlockEvent} (h : s.Tidy g) (hguard : BlockGuard s e)
    (hstep : blockStep s e = some s') : ∃ g', s'.Tidy g' := by
  unfold blockStep at hstep
  split at hstep
  · cases hstep
  · cases e with
    | call c =>
      obtain rfl := Option.some.inj hstep
      refine ⟨g, h.sane.call c, ?_, fun {j c' q fj header} hj hq => ?_⟩
      · rw [toSend_call]
        exact h.inv.call c
      · rcases Trace.getElem?_joined hj with hj | hnew
        · exact h.current hj hq
        · obtain rfl : q = .ready := congrArg Prod.snd hnew
          cases hq
    | step i moves =>
      obtain ⟨⟨c, p⟩, hi, hstep⟩ := Option.bind_eq_some_iff.mp hstep
      refine h.step hi ?_ hstep
      rintro rfl fi hav j c' q hj hq
      obtain ⟨q', hj', rfl⟩ := toSend_at.mp hj
      rcases hguard (by rw [hi]; rfl) _ (List.mem_of_getElem? hj') with hnone | hne
      · rw [hnone] at hq
        cases hq
      · have hav' : availableLoop s.net.busyStatus 0 = some fi :=
          (congrArg (availableLoop · 0) h.sane.settles.same.2).symm.trans hav
        exact hne (hq.trans hav'.symm)

theorem start_tidy (ip : UInt32) (mac : Mac) : (BlockState.start ip mac).Tidy (.start ip mac) :=
  ⟨start_sane ip mac, toSend_start ip mac ▸ SendState.start_inv ip mac, by rintro _ _ _ _ _ ⟨⟩⟩

end Guarded

/-- **Sends that do not collide.** In a run in which no call is handed a queue that another call
has and has not marked yet: each frame is that of its call, no call uses a block that was freed,
whichever blocks `realloc` moves, and no two calls have a pointer to one block. -/
theorem send_blocks_safe (ip : UInt32) (mac : Mac) {es : List BlockEvent}
    (hguard : Trace.Guarded blockStep BlockGuard (.start ip mac) es) :
    Trace.Along blockStep BlockState.Safe (.start ip mac) es := by
  have hsafe : ∀ s : BlockState, (∃ g, s.Tidy g) → s.Safe := by
    rintro s ⟨g, hg⟩
    exact hg.safe
  have hstep : ∀ (s : BlockState) (e : BlockEvent) (s' : BlockState), (∃ g, s.Tidy g) →
      BlockGuard s e → blockStep s e = some s' → ∃ g, s'.Tidy g := by
    rintro s e s' ⟨g, hg⟩ hguard hstep
    exact blockStep_tidy hg hguard hstep
  exact Trace.along_of_guarded hsafe hstep ⟨_, start_tidy ip mac⟩ hguard

/-- The second call starts when the first one has marked queue `0`, and the third one moves the
block of that queue while the second one is still busy. -/
def interleaved : List BlockEvent :=
  [.call (sendOf [1]), .call (sendOf [2]), .call (sendOf [3, 4])] ++
    List.replicate 7 (.step 0 true) ++ List.replicate 7 (.step 1 true) ++
    List.replicate 2 (.step 0 true) ++ List.replicate 9 (.step 2 true) ++
    List.replicate 2 (.step 1 true)

theorem send_blocks_safe_interleaved :
    ∃ s, Trace.run blockStep (.start 0x0100000a (sampleMac 1)) interleaved = some s ∧
      s.net.heap.blocks.map Option.isSome = [false, true, true] ∧ s.wire.length = 3 ∧
      Trace.Along blockStep BlockState.Safe (.start 0x0100000a (sampleMac 1)) interleaved := by
  have hview : (Trace.run blockStep (.start 0x0100000a (sampleMac 1)) interleaved).map
      (fun s => (s.net.heap.blocks.map Option.isSome, s.wire.length)) =
      some ([false, true, true], 3) := by decide +kernel
  obtain ⟨s, hrun, hs⟩ := Option.map_eq_some_iff.mp hview
  obtain ⟨hheap, hwire⟩ := Prod.mk.inj hs
  exact ⟨s, hrun, hheap, hwire, send_blocks_safe _ _ (by decide +kernel)⟩

end TcpIp
