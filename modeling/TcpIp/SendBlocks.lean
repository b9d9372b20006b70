import TcpIp.Lib.Blocks
import TcpIp.SendConc

/-!
# Concurrent sends and the blocks of `buffers`

The calls of `SendConc` one level down: `buffers` holds pointers into a heap. `ensure_has_size`
calls `realloc` under `mut_buffer` and then assigns the result. `net_interface_send` reads
`buffers[fi]` once, without the lock, and uses that pointer from the fill to the write; in between
another call that was handed the same queue may have had the block moved.

* `blockStep`: the steps. A step that would access a block that is freed, or past its end, or behind
  `NULL`, is not possible.
* `BlockNet.Points`: a pointer that a call has taken is that of its queue's block, with room for the
  frame, or dangles, and then the block that replaced it is larger than the frame.
* `BlockState.Sane`: the invariant of all runs, with or without such calls; one lemma for each kind
  of step (`Sane.stay`, `Sane.flag`, `Sane.update`, `Sane.resize`, `Sane.store`). It is about the
  interface as it will be when the holder of `mut_buffer` has made its assignments
  (`BlockState.Settles`).
-/

namespace TcpIp

open Blocks Bytes

/-! ## The interface -/

/-- `NetInterface` with the pointers of `buffers` and their heap. -/
structure BlockNet where
  ip : UInt32
  mac : Mac
  /-- `none` is `NULL`. -/
  buffers : List (Option Nat)
  buffersSize : List Nat
  busyStatus : List Bool
  heap : Heap UInt8

namespace BlockNet

def start (ip : UInt32) (mac : Mac) : BlockNet :=
  { ip, mac
    buffers := List.replicate TUN_QUEUES none
    buffersSize := List.replicate TUN_QUEUES 0
    busyStatus := List.replicate TUN_QUEUES false
    heap := ⟨[]⟩ }

/-- The interface with the blocks in the place of the pointers. -/
def toNet (net : BlockNet) : NetInterface :=
  { ip := net.ip, mac := net.mac
    buffers := net.heap.contents net.buffers
    buffersSize := net.buffersSize
    busyStatus := net.busyStatus }

def size (net : BlockNet) (fi : Nat) : Nat := net.buffersSize.getD fi 0

/-- The condition of `ensure_has_size`. -/
def TooSmall (net : BlockNet) (fi size : Nat) : Prop := size > net.size fi ∨ net.size fi = 0

instance (net : BlockNet) (fi size : Nat) : Decidable (net.TooSmall fi size) :=
  inferInstanceAs (Decidable (_ ∨ _))

/-- Its `realloc`, or `calloc` for the first block. -/
def reallocate (fi size : Nat) (moves : Bool) (net : BlockNet) : Option (Heap UInt8 × Nat) :=
  match net.buffers.getD fi none with
  | some b => net.heap.realloc b (fun old => reallocBytes old size) moves
  | none => some (net.heap.alloc (List.replicate size 0))

/-- Its two assignments. -/
def store (fi b size : Nat) (net : BlockNet) : BlockNet :=
  { net with buffers := net.buffers.set fi (some b), buffersSize := net.buffersSize.set fi size }

/-- Another content of the heap and other flags. -/
def put (net : BlockNet) (heap : Heap UInt8) (busyStatus : List Bool) : BlockNet :=
  { net with heap, busyStatus }

/-- The fill through `eth_header`, as in `fillBuffer`. -/
def fill (header : Option Nat) (c : SendCall) (net : BlockNet) : Option (Heap UInt8) :=
  net.heap.update header (sizeofEthHeader + c.payload.length) fun block =>
    overwrite (overwrite (overwrite (overwrite block 12 (bytes16 c.protocol)) 0 c.dstMac.toList)
      6 net.mac.toList) 14 c.payload

/-- `eth_header_hton(eth_header)`, as in `bufferHton`. -/
def hton (header : Option Nat) (net : BlockNet) : Option (Heap UInt8) :=
  net.heap.update header sizeofEthHeader fun block =>
    overwrite block 12 (bytes16 (swap16 (le16 (block.getD 12 0) (block.getD 13 0))))

end BlockNet

/-! ## Calls and their steps -/

/-- How far a call has come; from `held` on it has its `eth_header`. -/
inductive BlockPhase where
  | ready
  | handed (fi : Nat)
  /-- In `ensure_has_size`, with the result of `realloc` not assigned yet. -/
  | resized (fi b : Nat)
  | sized (fi : Nat)
  | held (fi : Nat) (header : Option Nat)
  | filled (fi : Nat) (header : Option Nat)
  | swapped (fi : Nat) (header : Option Nat)
  | busy (fi : Nat) (header : Option Nat)
  | written (fi : Nat)
  | done
deriving Repr, DecidableEq

namespace BlockPhase

/-- The phase of `SendConc`: `ensure_has_size` is one step there, and the pointer is not read. -/
def toSend : BlockPhase → SendPhase
  | ready => .ready
  | handed fi => .handed fi
  | resized fi _ | sized fi | held fi _ => .sized fi
  | filled fi _ => .filled fi
  | swapped fi _ => .swapped fi
  | busy fi _ => .busy fi
  | written fi => .written fi
  | done => .done

/-- In `ensure_has_size`, after the `realloc`. -/
def locked : BlockPhase → Bool
  | resized .. => true
  | ready | handed _ | sized _ | held .. | filled .. | swapped .. | busy .. | written _ | done => false

/-- The pointer of a call, until it has used it for the last time. -/
def pointer : BlockPhase → Option (Nat × Option Nat)
  | held fi header | filled fi header | swapped fi header | busy fi header => some (fi, header)
  | ready | handed _ | resized .. | sized _ | written _ | done => none

/-- The pointer that the next step of a call uses. -/
def accesses : BlockPhase → Option (Nat × Option Nat)
  | held fi header | filled fi header | busy fi header => some (fi, header)
  | ready | handed _ | resized .. | sized _ | swapped .. | written _ | done => none

theorem queue_of_pointer {p : BlockPhase} {fi : Nat} {header : Option Nat}
    (hp : p.pointer = some (fi, header)) : p.toSend.queue = some fi := by
  cases p with
  | ready | handed | resized | sized | written | done => cases hp
  | held | filled | swapped | busy => exact congrArg (Option.map Prod.fst) hp

end BlockPhase

structure BlockState where
  net : BlockNet
  /-- The call that holds `mut_buffer` and has called `realloc`. -/
  mutBuffer : Option Nat
  calls : List (SendCall × BlockPhase)
  wire : List (Nat × Frame)
  aborted : Bool

def BlockState.start (ip : UInt32) (mac : Mac) : BlockState :=
  { net := .start ip mac, mutBuffer := none, calls := [], wire := [], aborted := false }

inductive BlockEvent where
  /-- A thread calls `net_interface_send`. -/
  | call (c : SendCall)
  /-- Call `i` takes its next step; if that is a `realloc`, it moves the block or not. -/
  | step (i : Nat) (moves : Bool)

/-- Call `i` moves on to `phase`, and the interface to `net`. -/
def BlockState.move (s : BlockState) (i : Nat) (c : SendCall) (phase : BlockPhase)
    (net : BlockNet) : BlockState :=
  { s with net, calls := s.calls.set i (c, phase) }

/-- The next step of call `i`. `buffers_size` is used under the lock only, so that the assignments
of `ensure_has_size` are one step with the release. -/
def blockStepCall (s : BlockState) (i : Nat) (c : SendCall) (moves : Bool) :
    BlockPhase → Option BlockState
  | .ready =>
    match availableLoop s.net.busyStatus 0 with
    | none => some { s with aborted := true }
    | some fi => some (s.move i c (.handed fi) s.net)
  | .handed fi =>
    if s.mutBuffer.isSome then none
    else if s.net.TooSmall fi c.totalSize then
      (s.net.reallocate fi c.totalSize moves).map fun x =>
        { s.move i c (.resized fi x.2) (s.net.put x.1 s.net.busyStatus) with mutBuffer := some i }
    else some (s.move i c (.sized fi) s.net)
  | .resized fi b =>
    some { s.move i c (.sized fi) (s.net.store fi b c.totalSize) with mutBuffer := none }
  | .sized fi => some (s.move i c (.held fi (s.net.buffers.getD fi none)) s.net)
  | .held fi header =>
    (s.net.fill header c).map fun heap =>
      s.move i c (.filled fi header) (s.net.put heap s.net.busyStatus)
  | .filled fi header =>
    (s.net.hton header).map fun heap =>
      s.move i c (.swapped fi header) (s.net.put heap s.net.busyStatus)
  | .swapped fi header =>
    some (s.move i c (.busy fi header) (s.net.put s.net.heap (s.net.busyStatus.set fi true)))
  | .busy fi header =>
    (s.net.heap.load header c.totalSize).map fun frame =>
      { s.move i c (.written fi) s.net with wire := s.wire ++ [(i, frame)] }
  | .written fi =>
    some (s.move i c .done (s.net.put s.net.heap (s.net.busyStatus.set fi false)))
  | .done => none

def blockStep (s : BlockState) (e : BlockEvent) : Option BlockState :=
  if s.aborted then none
  else match e with
    | .call c => some { s with calls := s.calls ++ [(c, .ready)] }
    | .step i moves => (s.calls[i]?).bind fun x => blockStepCall s i x.1 moves x.2

/-! ## The invariant -/

/-- Call `i` is `c` and has come as far as `p`. -/
def BlockState.At (s : BlockState) (i : Nat) (c : SendCall) (p : BlockPhase) : Prop :=
  s.calls[i]? = some (c, p)

/-- `buffers` owns the heap, and each block has its recorded size. -/
structure BlockNet.Sized (net : BlockNet) : Prop where
  buffers : net.buffers.length = TUN_QUEUES
  sizes : net.buffersSize.length = TUN_QUEUES
  status : net.busyStatus.length = TUN_QUEUES
  owned : net.heap.Owned net.buffers
  length : ∀ {fi b content}, net.buffers[fi]? = some (some b) → net.heap.block b = some content →
    content.length = net.size fi
  null : ∀ {fi}, net.buffers[fi]? = some none → net.size fi = 0

/-- `b` is the block of queue `fi` and has room for `size` bytes, or it was freed and the block that
the queue has now is larger. -/
def BlockNet.Points (net : BlockNet) (fi b size : Nat) : Prop :=
  net.buffers[fi]? = some (some b) ∧ size ≤ net.size fi ∨ net.heap.Freed b ∧ size < net.size fi

/-- The interface is `g` when the holder of `mut_buffer` has made its assignments. -/
structure BlockState.Settles (s : BlockState) (g : BlockNet) : Prop where
  free : s.mutBuffer = none → g = s.net
  held : ∀ {i c fi b}, s.At i c (.resized fi b) →
    s.mutBuffer = some i ∧ g = s.net.store fi b c.totalSize
  holder : ∀ {i}, s.mutBuffer = some i → ∃ c fi b, s.At i c (.resized fi b)

/-- What holds of a call, in the interface `net` that settles as `g`. -/
structure BlockPhase.Sound (p : BlockPhase) (c : SendCall) (net g : BlockNet) : Prop where
  bound : ∀ fi, p.toSend.queue = some fi → fi < TUN_QUEUES
  room : ∀ fi, p = .sized fi →
    (∃ b, net.buffers[fi]? = some (some b)) ∧ c.totalSize ≤ net.size fi
  points : ∀ fi header, p.pointer = some (fi, header) →
    ∃ b, header = some b ∧ g.Points fi b c.totalSize

structure BlockState.Sane (s : BlockState) (g : BlockNet) : Prop where
  sized : g.Sized
  settles : s.Settles g
  table : ∀ {fi b}, s.net.buffers[fi]? = some (some b) → g.Points fi b (s.net.size fi)
  grows : ∀ fi, s.net.size fi ≤ g.size fi
  sound : ∀ {i c p}, s.At i c p → p.Sound c s.net g
  /-- Each block was allocated for one of the calls. -/
  origin : ∀ fi, g.size fi = 0 ∨ ∃ i c p, s.At i c p ∧ c.totalSize = g.size fi

section Interface

variable {net : BlockNet} {fi fj b size : Nat} {content : List UInt8}

theorem BlockNet.buffer_eq (hb : net.buffers[fi]? = some (some b))
    (hcontent : net.heap.block b = some content) : net.toNet.buffer fi = content := by
  simp [NetInterface.buffer, BlockNet.toNet, Heap.contents, hb, hcontent]

/-- A rewritten block, one level up. -/
theorem BlockNet.toNet_update (hn : net.Sized) (hcur : net.buffers[fi]? = some (some b))
    (hcontent : net.heap.block b = some content) {heap : Heap UInt8} {f : List UInt8 → List UInt8}
    (hrep : net.heap.Replaced net.buffers fi heap b (f content)) :
    (net.put heap net.busyStatus).toNet = net.toNet.modifyBuffer fi f := by
  have hset : net.buffers.set fi (some b) = net.buffers := by
    rw [← (List.getElem?_eq_some_iff.mp hcur).2, List.set_getElem_self]
  have hcontents := Heap.contents_replaced hn.owned hrep
  rw [hset] at hcontents
  unfold NetInterface.modifyBuffer
  rw [net.buffer_eq hcur hcontent]
  show ({ net.toNet with buffers := heap.contents net.buffers } : NetInterface) = _
  rw [hcontents]
  rfl

namespace BlockNet.Sized

theorem size_store (hn : net.Sized) (hfi : fi < TUN_QUEUES) (heap : Heap UInt8)
    (busyStatus : List Bool) (b size : Nat) :
    BlockNet.size ((net.put heap busyStatus).store fi b size) fj =
      if fj = fi then size else net.size fj := by
  have hlt : fi < net.buffersSize.length := by rw [hn.sizes]; exact hfi
  by_cases hji : fj = fi
  · subst hji
    simp [BlockNet.size, BlockNet.store, BlockNet.put, hlt]
  · simp [BlockNet.size, BlockNet.store, BlockNet.put, hji, Ne.symm hji]

/-- The `realloc` or `calloc` of `ensure_has_size`. -/
theorem reallocate (hn : net.Sized) (hfi : fi < TUN_QUEUES) {moves : Bool} {x : Heap UInt8 × Nat}
    (hre : net.reallocate fi size moves = some x) :
    net.heap.Replaced net.buffers fi x.1 x.2 (reallocBytes (net.toNet.buffer fi) size) := by
  have hlt : fi < net.buffers.length := by rw [hn.buffers]; exact hfi
  have hget : net.buffers[fi]? = some (net.buffers.getD fi none) := by
    rw [List.getD_eq_getElem?_getD, List.getElem?_eq_getElem hlt, Option.getD_some]
  unfold BlockNet.reallocate at hre
  split at hre
  · rename_i b hb
    rw [hb] at hget
    obtain ⟨content, hcontent, hrep⟩ := Heap.replaced_realloc hget hre
    rw [net.buffer_eq hget hcontent]
    exact hrep
  · rename_i hb
    rw [hb] at hget
    obtain rfl := Option.some.inj hre
    have hbuffer : net.toNet.buffer fi = [] := by
      simp [NetInterface.buffer, BlockNet.toNet, Heap.contents, hget]
    rw [hbuffer]
    simpa [reallocBytes] using Heap.replaced_alloc (h := net.heap) hget (List.replicate size 0)

theorem exists_reallocate (hn : net.Sized) (hfi : fi < TUN_QUEUES) (size : Nat) (moves : Bool) :
    ∃ x, net.reallocate fi size moves = some x := by
  have hlt : fi < net.buffers.length := by rw [hn.buffers]; exact hfi
  have hget : net.buffers[fi]? = some (net.buffers.getD fi none) := by
    rw [List.getD_eq_getElem?_getD, List.getElem?_eq_getElem hlt, Option.getD_some]
  unfold BlockNet.reallocate
  split
  · rename_i b hb
    rw [hb] at hget
    obtain ⟨content, hcontent⟩ := hn.owned.live hget
    exact Heap.exists_realloc hcontent _ moves
  · exact ⟨_, rfl⟩

/-- The interface with the new block and its size. -/
theorem stored (hn : net.Sized) (hfi : fi < TUN_QUEUES) {heap : Heap UInt8}
    (hrep : net.heap.Replaced net.buffers fi heap b content) (hlen : content.length = size) :
    BlockNet.Sized ((net.put heap net.busyStatus).store fi b size) := by
  have hlt : fi < net.buffers.length := by rw [hn.buffers]; exact hfi
  have hset : ∀ {fj}, fj ≠ fi → (net.buffers.set fi (some b))[fj]? = net.buffers[fj]? := fun hji =>
    List.getElem?_set_ne (Ne.symm hji)
  refine ⟨List.length_set.trans hn.buffers, List.length_set.trans hn.sizes, hn.status,
    hn.owned.replaced hlt hrep, ?_, ?_⟩
  · intro fj b' content' hj hb'
    rw [hn.size_store hfi]
    by_cases hji : fj = fi
    · subst hji
      obtain rfl : b = b' :=
        Option.some.inj (Option.some.inj ((List.getElem?_set_self hlt).symm.trans hj))
      obtain rfl : content = content' := Option.some.inj (hrep.block.symm.trans hb')
      rw [if_pos rfl, hlen]
    · have hj' : net.buffers[fj]? = some (some b') := (hset hji).symm.trans hj
      rw [if_neg hji]
      exact hn.length hj' ((hrep.other hn.owned hji hj').2.symm.trans hb')
  · intro fj hj
    rw [hn.size_store hfi]
    by_cases hji : fj = fi
    · subst hji
      cases (List.getElem?_set_self hlt).symm.trans hj
    · rw [if_neg hji]
      exact hn.null ((hset hji).symm.trans hj)

/-- A buffer that is large enough is not `NULL`. -/
theorem room (hn : net.Sized) (hfi : fi < TUN_QUEUES) (hroomy : ¬ net.TooSmall fi size) :
    (∃ b, net.buffers[fi]? = some (some b)) ∧ size ≤ net.size fi := by
  unfold BlockNet.TooSmall at hroomy
  have hlt : fi < net.buffers.length := by rw [hn.buffers]; exact hfi
  have hget := List.getElem?_eq_getElem hlt
  cases hptr : net.buffers[fi] with
  | none =>
    rw [hptr] at hget
    exact absurd (Or.inr (hn.null hget)) hroomy
  | some b =>
    rw [hptr] at hget
    exact ⟨⟨b, hget⟩, by omega⟩

end BlockNet.Sized

end Interface

section Steps

variable {s s' : BlockState} {g g' net net' : BlockNet} {i j fi b : Nat} {c c' : SendCall}
  {p p' q : BlockPhase} {moves : Bool}

theorem blockAt_move (net : BlockNet) (hi : s.At i c p) :
    (s.move i c p' net).At j c' q ↔ if j = i then c' = c ∧ q = p' else s.At j c' q := by
  unfold BlockState.At BlockState.move
  rw [Trace.getElem?_moved hi, Prod.mk.injEq]

theorem BlockPhase.Sound.mono (h : q.Sound c' net g)
    (hbuffers : ∀ {fi b : Nat}, net.buffers[fi]? = some (some b) →
      ∃ b : Nat, net'.buffers[fi]? = some (some b))
    (hsize : ∀ fi, net.size fi ≤ net'.size fi)
    (hpoints : ∀ {fi b size}, g.Points fi b size → g'.Points fi b size) : q.Sound c' net' g' := by
  refine ⟨h.bound, fun fi hq => ?_, fun fi header hq => ?_⟩
  · obtain ⟨⟨b, hb⟩, hle⟩ := h.room fi hq
    exact ⟨hbuffers hb, Nat.le_trans hle (hsize fi)⟩
  · obtain ⟨b, hheader, hb⟩ := h.points fi header hq
    exact ⟨b, hheader, hpoints hb⟩

/-- A call without a pointer that has not just left `ensure_has_size`. -/
theorem BlockPhase.Sound.of_pointer_none (hbound : ∀ fi, p.toSend.queue = some fi → fi < TUN_QUEUES)
    (hsized : ∀ fi, p ≠ .sized fi) (hp : p.pointer = none) : p.Sound c net g := by
  refine ⟨hbound, fun fi h => absurd h (hsized fi), fun fi header h => ?_⟩
  rw [hp] at h
  cases h

/-- A call that has its pointer. -/
theorem BlockPhase.Sound.of_pointer {header : Option Nat} (hp : p.pointer = some (fi, header))
    (hbound : fi < TUN_QUEUES) (hpoints : ∃ b, header = some b ∧ g.Points fi b c.totalSize) :
    p.Sound c net g := by
  refine ⟨fun k hk => ?_, ?_, fun k header' hk => ?_⟩
  · rw [queue_of_pointer hp] at hk
    exact Option.some.inj hk ▸ hbound
  · rintro k rfl
    cases hp
  · obtain ⟨rfl, rfl⟩ := Prod.mk.inj (Option.some.inj (hp.symm.trans hk))
    exact hpoints

/-- One call moves on. All other calls see of it are pointers that stay sound. -/
theorem BlockState.Sane.moved (h : s.Sane g) (hi : s.At i c p) (hsized : g'.Sized)
    (hcalls : s'.calls = s.calls.set i (c, p')) (hsettles : s'.Settles g')
    (htable : ∀ {fi b : Nat}, s'.net.buffers[fi]? = some (some b) → g'.Points fi b (s'.net.size fi))
    (hgrows : ∀ fi, s'.net.size fi ≤ g'.size fi)
    (hbuffers : ∀ {fi b : Nat}, s.net.buffers[fi]? = some (some b) →
      ∃ b : Nat, s'.net.buffers[fi]? = some (some b))
    (hsize : ∀ fi, s.net.size fi ≤ s'.net.size fi)
    (hpoints : ∀ {fi b size}, g.Points fi b size → g'.Points fi b size)
    (hsound : p'.Sound c s'.net g')
    (horigin : ∀ fi, g'.size fi = g.size fi ∨ g'.size fi = c.totalSize) : s'.Sane g' := by
  have hat : ∀ {j c' q}, s'.At j c' q ↔ if j = i then c' = c ∧ q = p' else s.At j c' q := by
    intro j c' q
    unfold BlockState.At
    rw [hcalls, Trace.getElem?_moved hi, Prod.mk.injEq]
  have hself : s'.At i c p' := hat.mpr (by rw [if_pos rfl]; exact ⟨rfl, rfl⟩)
  refine ⟨hsized, hsettles, htable, hgrows, ?_, fun fi => ?_⟩
  · intro j c' q hj
    rw [hat] at hj
    by_cases hji : j = i
    · rw [if_pos hji] at hj
      rw [hj.1, hj.2]
      exact hsound
    · rw [if_neg hji] at hj
      exact (h.sound hj).mono hbuffers hsize hpoints
  · rcases horigin fi with hsame | hnew
    · rcases h.origin fi with hzero | ⟨j, c', q, hj, hsize⟩
      · exact Or.inl (hsame.trans hzero)
      · refine Or.inr ?_
        by_cases hji : j = i
        · subst hji
          obtain ⟨rfl, rfl⟩ : c' = c ∧ q = p := by simpa using hj.symm.trans hi
          exact ⟨j, c', p', hself, hsize.trans hsame.symm⟩
        · exact ⟨j, c', q, hat.mpr (by rwa [if_neg hji]), hsize.trans hsame.symm⟩
    · exact Or.inr ⟨i, c, p', hself, hnew.symm⟩

theorem BlockState.Settles.moved (h : s.Settles g) (hi : s.At i c p)
    (hp : p.locked = false) (hp' : p'.locked = false)
    (hfree : g = s.net → g' = net')
    (hstore : ∀ fi b size, g = s.net.store fi b size → g' = net'.store fi b size) :
    (s.move i c p' net').Settles g' := by
  refine ⟨fun hmut => hfree (h.free hmut), fun {j c' fi b} hj => ?_, fun {j} hmut => ?_⟩
  · rw [blockAt_move net' hi] at hj
    by_cases hji : j = i
    · rw [if_pos hji] at hj
      rw [← hj.2] at hp'
      cases hp'
    · rw [if_neg hji] at hj
      exact ⟨(h.held hj).1, hstore fi b _ (h.held hj).2⟩
  · obtain ⟨c', fi, b, hj⟩ := h.holder hmut
    refine ⟨c', fi, b, (blockAt_move net' hi).mpr ?_⟩
    rw [if_neg]
    · exact hj
    · rintro rfl
      have hq : BlockPhase.resized fi b = p := by
        simpa using congrArg Prod.snd (Option.some.inj (hj.symm.trans hi))
      rw [← hq] at hp
      cases hp

/-- The holder of `mut_buffer` has nothing more to do with the heap and the flags. -/
theorem BlockState.Settles.same (h : s.Settles g) :
    g.heap = s.net.heap ∧ g.busyStatus = s.net.busyStatus := by
  cases hmut : s.mutBuffer with
  | none =>
    rw [h.free hmut]
    exact ⟨rfl, rfl⟩
  | some i =>
    obtain ⟨c, fi, b, hi⟩ := h.holder hmut
    rw [(h.held hi).2]
    exact ⟨rfl, rfl⟩

theorem BlockState.Settles.mac (h : s.Settles g) : g.mac = s.net.mac := by
  cases hmut : s.mutBuffer with
  | none => rw [h.free hmut]
  | some i =>
    obtain ⟨c, fi, b, hi⟩ := h.holder hmut
    rw [(h.held hi).2]
    rfl

/-- A call moves on without a change of the interface. -/
theorem BlockState.Sane.stay (h : s.Sane g) (p' : BlockPhase) (hi : s.At i c p)
    (hp : p.locked = false) (hp' : p'.locked = false)
    (hsound : p'.Sound c s.net g) : (s.move i c p' s.net).Sane g :=
  h.moved hi h.sized rfl (h.settles.moved hi hp hp' (fun hg => hg) fun _ _ _ hg => hg) h.table
    h.grows (fun hb => ⟨_, hb⟩) (fun _ => Nat.le_refl _) (fun hb => hb) hsound fun _ => Or.inl rfl

/-- A call sets a flag. -/
theorem BlockState.Sane.flag (h : s.Sane g) (p' : BlockPhase) (hi : s.At i c p)
    (hp : p.locked = false) (hp' : p'.locked = false)
    (hsound : p'.Sound c s.net g) (fi : Nat) (busy : Bool) :
    (s.move i c p' (s.net.put s.net.heap (s.net.busyStatus.set fi busy))).Sane
      (g.put g.heap (s.net.busyStatus.set fi busy)) := by
  obtain ⟨hheap, hstatus⟩ := h.settles.same
  have hsized := h.sized
  refine h.moved hi ⟨hsized.buffers, hsized.sizes, ?_, hsized.owned, hsized.length, hsized.null⟩ rfl
    (h.settles.moved hi hp hp' ?_ ?_) h.table h.grows (fun hb => ⟨_, hb⟩) (fun _ => Nat.le_refl _)
    (fun hb => hb) ⟨hsound.bound, hsound.room, hsound.points⟩ fun _ => Or.inl rfl
  · have hlen : s.net.busyStatus.length = TUN_QUEUES := hstatus ▸ hsized.status
    exact List.length_set.trans hlen
  · rintro rfl
    rfl
  · intro fj b size hg
    subst hg
    rfl

/-- A call rewrites the block behind its pointer: that of its queue, as a block that dangles is not
accessed. -/
theorem BlockState.Sane.update (h : s.Sane g) (p' : BlockPhase) {header : Option Nat}
    (hi : s.At i c p) (hp : p.pointer = some (fi, header)) (hp' : p'.pointer = some (fi, header))
    {n : Nat} {f : List UInt8 → List UInt8} {heap : Heap UInt8}
    (hf : ∀ block, n ≤ block.length → (f block).length = block.length)
    (hup : s.net.heap.update header n f = some heap) :
    (s.move i c p' (s.net.put heap s.net.busyStatus)).Sane (g.put heap s.net.busyStatus) ∧
      (g.put heap s.net.busyStatus).toNet = g.toNet.modifyBuffer fi f := by
  obtain ⟨hheap, hstatus⟩ := h.settles.same
  have hsized := h.sized
  rw [← hheap] at hup
  obtain ⟨b, rfl, hpoints⟩ := (h.sound hi).points fi header hp
  obtain ⟨hcur, hle⟩ : g.buffers[fi]? = some (some b) ∧ c.totalSize ≤ g.size fi := by
    rcases hpoints with hcur | ⟨hfreed, -⟩
    · exact hcur
    · rw [hfreed.update] at hup
      cases hup
  obtain ⟨content, hcontent, hn, hrep⟩ := Heap.replaced_update hcur hup
  have hlt : fi < g.buffers.length := (List.getElem?_eq_some_iff.mp hcur).1
  have hset : g.buffers.set fi (some b) = g.buffers := by
    rw [← (List.getElem?_eq_some_iff.mp hcur).2, List.set_getElem_self]
  have howned := hsized.owned.replaced hlt hrep
  rw [hset] at howned
  have hmono : ∀ {fj b' size}, g.Points fj b' size →
      (g.put heap s.net.busyStatus).Points fj b' size := by
    rintro fj b' size (hcur' | ⟨hfreed, hlt⟩)
    · exact Or.inl hcur'
    · exact Or.inr ⟨hfreed.replaced hsized.owned hrep, hlt⟩
  have hnot : ∀ {q : BlockPhase}, q.pointer = some (fi, some b) → q.locked = false := by
    intro q hq
    cases q with
    | resized => cases hq
    | ready | handed | sized | held | filled | swapped | busy | written | done => rfl
  refine ⟨h.moved hi ?_ rfl
    (h.settles.moved hi (hnot hp) (hnot hp') ?_ ?_) (fun hb => hmono (h.table hb))
    h.grows (fun hb => ⟨_, hb⟩) (fun _ => Nat.le_refl _) hmono ?_ fun _ => Or.inl rfl,
    hstatus ▸ BlockNet.toNet_update hsized hcur hcontent hrep⟩
  · refine ⟨hsized.buffers, hsized.sizes, hstatus ▸ hsized.status, howned, ?_, hsized.null⟩
    intro fj b' content' hj hb'
    by_cases hji : fj = fi
    · subst hji
      obtain rfl : b = b' := Option.some.inj (Option.some.inj (hcur.symm.trans hj))
      obtain rfl : f content = content' := Option.some.inj (hrep.block.symm.trans hb')
      exact (hf content hn).trans (hsized.length hcur hcontent)
    · have hother := (hrep.other hsized.owned hji hj).2
      exact hsized.length hj (hother.symm.trans hb')
  · rintro rfl
    rfl
  · intro fj b size hg
    subst hg
    rfl
  · exact .of_pointer hp' (hsized.buffers ▸ hlt) ⟨b, rfl, hmono hpoints⟩

/-- `ensure_has_size` reallocates the block of its queue. -/
theorem BlockState.Sane.resize (h : s.Sane g) (hi : s.At i c (.handed fi))
    (hmut : s.mutBuffer = none) (hsmall : s.net.TooSmall fi c.totalSize) {x : Heap UInt8 × Nat}
    (hre : s.net.reallocate fi c.totalSize moves = some x) :
    BlockState.Sane { s.move i c (.resized fi x.2) (s.net.put x.1 s.net.busyStatus) with
      mutBuffer := some i } ((s.net.put x.1 s.net.busyStatus).store fi x.2 c.totalSize) := by
  obtain rfl := h.settles.free hmut
  have hfi : fi < TUN_QUEUES := (h.sound hi).bound fi rfl
  have hrep := h.sized.reallocate hfi hre
  have hlt : s.net.size fi < c.totalSize := by
    have hpos := c.totalSize_eq
    unfold BlockNet.TooSmall at hsmall
    omega
  have hmono : ∀ {fj b size}, s.net.Points fj b size →
      BlockNet.Points ((s.net.put x.1 s.net.busyStatus).store fi x.2 c.totalSize) fj b size := by
    intro fj b size hb
    unfold BlockNet.Points
    rw [h.sized.size_store hfi]
    rcases hb with ⟨hcur, hle⟩ | ⟨hfreed, hlt'⟩
    · by_cases hji : fj = fi
      · subst hji
        rw [if_pos rfl]
        by_cases hb : b = x.2
        · subst hb
          exact Or.inl ⟨List.getElem?_set_self (h.sized.buffers.symm ▸ hfi), by omega⟩
        · exact Or.inr ⟨hrep.old hcur hb, by omega⟩
      · rw [if_neg hji]
        exact Or.inl ⟨(List.getElem?_set_ne (Ne.symm hji)).trans hcur, hle⟩
    · refine Or.inr ⟨hfreed.replaced h.sized.owned hrep, ?_⟩
      split
      · rename_i hji
        subst hji
        omega
      · exact hlt'
  refine h.moved hi (h.sized.stored hfi hrep (length_reallocBytes _ _)) rfl ?_
    (fun hb => hmono (h.table hb)) (fun fj => ?_) (fun hb => ⟨_, hb⟩) (fun _ => Nat.le_refl _) hmono
    (.of_pointer_none (fun k hk => ?_) (by rintro _ ⟨⟩) rfl) fun fj => ?_
  · refine ⟨(absurd · (Option.some_ne_none i)), fun {j c' fj b} hj => ?_, fun {j} hj => ?_⟩
    · have hj' := (blockAt_move (s.net.put x.1 s.net.busyStatus) hi).mp hj
      by_cases hji : j = i
      · rw [if_pos hji] at hj'
        obtain ⟨rfl, hphase⟩ := hj'
        cases hphase
        exact ⟨congrArg some hji.symm, rfl⟩
      · rw [if_neg hji] at hj'
        cases (h.settles.held hj').1.symm.trans hmut
    · obtain rfl := Option.some.inj hj
      refine ⟨c, fi, x.2, (blockAt_move s.net hi).mpr ?_⟩
      rw [if_pos rfl]
      exact ⟨rfl, rfl⟩
  · rw [h.sized.size_store hfi]
    split
    · rename_i hji
      subst hji
      exact Nat.le_of_lt hlt
    · exact Nat.le_refl _
  · cases hk
    exact hfi
  · rw [h.sized.size_store hfi]
    split
    · exact Or.inr rfl
    · exact Or.inl rfl

/-- `ensure_has_size` assigns the block and its size, and releases the lock. -/
theorem BlockState.Sane.store (h : s.Sane g) (hi : s.At i c (.resized fi b)) :
    g = s.net.store fi b c.totalSize ∧
      BlockState.Sane { s.move i c (.sized fi) (s.net.store fi b c.totalSize) with
        mutBuffer := none } g := by
  obtain ⟨hmut, rfl⟩ := h.settles.held hi
  have hfi : fi < TUN_QUEUES := (h.sound hi).bound fi rfl
  have hlt : fi < s.net.buffers.length := by
    rw [← h.sized.buffers, BlockNet.store, List.length_set] at hfi
    exact hfi
  have hself : (s.net.buffers.set fi (some b))[fi]? = some (some b) := List.getElem?_set_self hlt
  have htable : ∀ {fj b' : Nat}, (s.net.store fi b c.totalSize).buffers[fj]? = some (some b') →
      (s.net.store fi b c.totalSize).Points fj b' ((s.net.store fi b c.totalSize).size fj) :=
    fun hb => Or.inl ⟨hb, Nat.le_refl _⟩
  have hroom : c.totalSize ≤ (s.net.store fi b c.totalSize).size fi := by
    have hsizes : fi < s.net.buffersSize.length := by
      rw [← h.sized.sizes, BlockNet.store, List.length_set] at hfi
      exact hfi
    simp [BlockNet.size, BlockNet.store, hsizes]
  refine ⟨rfl, h.moved hi h.sized rfl ?_ htable (fun _ => Nat.le_refl _) (fun {fj b'} hb => ?_)
    h.grows (fun hb => hb) ⟨fun k hk => ?_, fun k hk => ?_, by rintro _ _ ⟨⟩⟩
    fun _ => Or.inl rfl⟩
  · refine ⟨fun _ => rfl, fun {j c' fj b'} hj => ?_, (absurd ·.symm (Option.some_ne_none _))⟩
    have hj' := (blockAt_move (s.net.store fi b c.totalSize) hi).mp hj
    by_cases hji : j = i
    · rw [if_pos hji] at hj'
      cases hj'.2
    · rw [if_neg hji] at hj'
      exact absurd (Option.some.inj ((h.settles.held hj').1.symm.trans hmut)) hji
  · by_cases hji : fj = fi
    · exact ⟨b, hji ▸ hself⟩
    · exact ⟨b', (List.getElem?_set_ne (Ne.symm hji)).trans hb⟩
  · cases hk
    exact hfi
  · cases hk
    exact ⟨⟨b, hself⟩, hroom⟩

theorem BlockNet.Points.mono {size size' : Nat} (h : net.Points fi b size) (hle : size' ≤ size) :
    net.Points fi b size' := by
  rcases h with ⟨hcur, hroom⟩ | ⟨hfreed, hlt⟩
  · exact Or.inl ⟨hcur, Nat.le_trans hle hroom⟩
  · exact Or.inr ⟨hfreed, Nat.lt_of_le_of_lt hle hlt⟩

end Steps

end TcpIp
