import Mathlib.Tactic.Common
import TcpIp.Basic

/-!
# The network interface (`src/net_interface.c`, `src/tun_device.c`)

The static variables of the two files: our address, the transmit buffer of each queue of the TAP
device and the busy flag of each queue. Each function here is one critical section or one memory
operation of the source, so that the sequential `net_interface_send` (`Machine`) and its
interleavings (`SendConc`) are built from the same steps.

`NetInterface.Holds` says that a buffer begins with the frame of a send; the `*_holds` lemmas follow
it from the fill to the write.
-/

namespace TcpIp

open Bytes

def TUN_QUEUES : Nat := 10

/-- `sizeof(struct eth_header)`. -/
def sizeofEthHeader : Nat := 14

/-- The static variables of `net_interface.c` and `tun_device.c`. -/
structure NetInterface where
  /-- The IPv4 address in network byte order, as the native `uint32_t` the code stores. -/
  ip : UInt32
  mac : Mac
  /-- The transmit buffer of each queue; `none` is `NULL`. -/
  buffers : List (Option (List UInt8))
  buffersSize : List Nat
  busyStatus : List Bool

namespace NetInterface

/-- The block `buffers[fi]` points to. -/
def buffer (net : NetInterface) (fi : Nat) : List UInt8 := (net.buffers.getD fi none).getD []

def modifyBuffer (net : NetInterface) (fi : Nat) (f : List UInt8 → List UInt8) : NetInterface :=
  { net with buffers := net.buffers.set fi (some (f (net.buffer fi))) }

end NetInterface

/-- The program's state before any traffic: no buffer allocated, no queue busy. -/
def netInterfaceStart (ip : UInt32) (mac : Mac) : NetInterface :=
  { ip, mac
    buffers := List.replicate TUN_QUEUES none
    buffersSize := List.replicate TUN_QUEUES 0
    busyStatus := List.replicate TUN_QUEUES false }

/-! ## Queue status -/

def setBusy (fi : Nat) (busy : Bool) (net : NetInterface) : NetInterface :=
  { net with busyStatus := net.busyStatus.set fi busy }

/-- The scan of `available`: the first queue that is not busy. `none`: every queue is busy and the
scan leaves `busy_status`; where it stops at all, the result is `-1`. -/
def availableLoop : List Bool → Nat → Option Nat
  | [], _ => none
  | busy :: rest, i => if busy then availableLoop rest (i + 1) else some i

def available (net : NetInterface) : Option Nat := availableLoop net.busyStatus 0

/-! ## Transmit buffers -/

/-- `realloc`: the bytes past the old block are unspecified, here zero. -/
def reallocBytes (old : List UInt8) (size : Nat) : List UInt8 :=
  old.take size ++ List.replicate (size - old.length) 0

def ensureHasSize (fi size : Nat) (net : NetInterface) : NetInterface :=
  if size > net.buffersSize.getD fi 0 ∨ net.buffersSize.getD fi 0 = 0 then
    { net with
      buffers := net.buffers.set fi (some (match net.buffers.getD fi none with
        | some old => reallocBytes old size
        | none => List.replicate size 0))
      buffersSize := net.buffersSize.set fi size }
  else net

/-- `memcpy` of `bytes` to offset `off` of a block. -/
def overwrite (block : List UInt8) (off : Nat) (bytes : List UInt8) : List UInt8 :=
  block.take off ++ bytes ++ block.drop (off + bytes.length)

/-- Fill `buffers[fi]`: the protocol in host order, both addresses and the payload. -/
def fillBuffer (fi : Nat) (protocol : UInt16) (dstMac : Mac) (payload : List UInt8)
    (net : NetInterface) : NetInterface :=
  net.modifyBuffer fi fun block =>
    overwrite (overwrite (overwrite (overwrite block 12 (bytes16 protocol)) 0 dstMac.toList)
      6 net.mac.toList) 14 payload

/-- `eth_header_hton` of the header in `buffers[fi]`. -/
def bufferHton (fi : Nat) (net : NetInterface) : NetInterface :=
  net.modifyBuffer fi fun block =>
    overwrite block 12 (bytes16 (swap16 (le16 (block.getD 12 0) (block.getD 13 0))))

/-- The bytes `tun_write(fi, buffers[fi], total_size)` hands to the device. -/
def tunWrite (fi totalSize : Nat) (net : NetInterface) : Frame := (net.buffer fi).take totalSize

/-! ## One send -/

/-- The frame of a send: destination, our address, the protocol in network order, the payload. -/
def ethFrame (dstMac srcMac : Mac) (protocol : UInt16) (payload : List UInt8) : Frame :=
  dstMac.toList ++ srcMac.toList ++ bytes16 (swap16 protocol) ++ payload

/-- The `ether_type` of a frame. -/
def etherType (frame : Frame) : UInt16 := le16 (frame.getD 13 0) (frame.getD 12 0)

@[simp] theorem etherType_ethFrame (dstMac srcMac : Mac) (protocol : UInt16)
    (payload : List UInt8) : etherType (ethFrame dstMac srcMac protocol payload) = protocol := by
  simp [etherType, ethFrame, Mac.toList_eq, bytes16]

/-- The queues are all there and each buffer has its recorded size. -/
structure NetInterface.Sized (net : NetInterface) : Prop where
  buffers : net.buffers.length = TUN_QUEUES
  sizes : net.buffersSize.length = TUN_QUEUES
  status : net.busyStatus.length = TUN_QUEUES
  size_eq : ∀ fi, (net.buffer fi).length = net.buffersSize.getD fi 0

/-- Between calls of one thread: no queue is busy. -/
structure NetInterface.Ready (net : NetInterface) : Prop extends net.Sized where
  idle : net.busyStatus = List.replicate TUN_QUEUES false

section

variable {net : NetInterface} {fi : Nat}

theorem buffer_modifyBuffer (h : fi < net.buffers.length) (f : List UInt8 → List UInt8) (j : Nat) :
    (net.modifyBuffer fi f).buffer j = if j = fi then f (net.buffer fi) else net.buffer j := by
  simp only [NetInterface.buffer, NetInterface.modifyBuffer, List.getD_eq_getElem?_getD,
    List.getElem?_set, h, if_true]
  by_cases hij : fi = j
  · subst hij; simp
  · simp [hij, Ne.symm hij]

theorem length_overwrite {block bytes : List UInt8} {off : Nat}
    (h : off + bytes.length ≤ block.length) : (overwrite block off bytes).length = block.length := by
  simp only [overwrite, List.length_append, List.length_take, List.length_drop]
  omega

/-- Overwriting the middle part of a block. -/
theorem overwrite_append {x y z bytes : List UInt8} {off : Nat} (hx : x.length = off)
    (hy : y.length = bytes.length) : overwrite (x ++ (y ++ z)) off bytes = x ++ (bytes ++ z) := by
  subst hx
  rw [overwrite, List.take_left, List.append_assoc, ← List.append_assoc x y z, ← hy,
    List.drop_left' (by simp)]

theorem overwrite_head {y z bytes : List UInt8} (hy : y.length = bytes.length) :
    overwrite (y ++ z) 0 bytes = bytes ++ z := by
  simpa using overwrite_append (x := []) (z := z) rfl hy

theorem length_reallocBytes (old : List UInt8) (size : Nat) :
    (reallocBytes old size).length = size := by
  simp only [reallocBytes, List.length_append, List.length_take, List.length_replicate]
  omega

theorem setBusy_sized (hn : net.Sized) (busy : Bool) : (setBusy fi busy net).Sized :=
  ⟨hn.buffers, hn.sizes, by simpa [setBusy] using hn.status, hn.size_eq⟩

/-- A buffer rewritten at its length keeps the recorded sizes. -/
theorem modifyBuffer_sized (hn : net.Sized) (hfi : fi < TUN_QUEUES)
    {f : List UInt8 → List UInt8} (hf : (f (net.buffer fi)).length = (net.buffer fi).length) :
    (net.modifyBuffer fi f).Sized := by
  refine ⟨by simpa [NetInterface.modifyBuffer] using hn.buffers, hn.sizes, hn.status, fun j => ?_⟩
  rw [buffer_modifyBuffer (by rw [hn.buffers]; exact hfi)]
  split
  · rename_i hj; subst hj; rw [hf]; exact hn.size_eq j
  · exact hn.size_eq j

/-- `ensure_has_size` makes room in one buffer. -/
theorem ensureHasSize_spec (hn : net.Sized) (hfi : fi < TUN_QUEUES) (size : Nat) :
    (ensureHasSize fi size net).Sized ∧
      size ≤ ((ensureHasSize fi size net).buffer fi).length ∧
      ∀ j, j ≠ fi → (ensureHasSize fi size net).buffer j = net.buffer j := by
  have hb : fi < net.buffers.length := by rw [hn.buffers]; exact hfi
  have hs : fi < net.buffersSize.length := by rw [hn.sizes]; exact hfi
  unfold ensureHasSize
  split
  · generalize hblock : (match net.buffers.getD fi none with
        | some old => reallocBytes old size
        | none => List.replicate size 0) = block
    have hlen : block.length = size := by
      rw [← hblock]
      split
      · exact length_reallocBytes _ _
      · exact List.length_replicate
    have hget : ∀ j, NetInterface.buffer { net with
        buffers := net.buffers.set fi (some block)
        buffersSize := net.buffersSize.set fi size } j =
          if j = fi then block else net.buffer j :=
      fun j => buffer_modifyBuffer hb (fun _ => block) j
    refine ⟨⟨by simpa using hn.buffers, by simpa using hn.sizes, hn.status, fun j => ?_⟩,
      by rw [hget, if_pos rfl]; exact Nat.le_of_eq hlen.symm,
      fun j hj => by rw [hget, if_neg hj]⟩
    rw [hget]
    by_cases hj : j = fi
    · subst hj
      rw [if_pos rfl, hlen]
      simp [hs]
    · rw [if_neg hj, hn.size_eq]
      simp [Ne.symm hj]
  · rename_i hsize
    refine ⟨hn, ?_, fun _ _ => rfl⟩
    rw [hn.size_eq]
    omega

/-- The block after the fill: the frame with the protocol in host order, then what was there. -/
theorem fill_eq {block payload : List UInt8} (dstMac srcMac : Mac) (protocol : UInt16)
    (h : 14 + payload.length ≤ block.length) :
    overwrite (overwrite (overwrite (overwrite block 12 (bytes16 protocol)) 0 dstMac.toList)
        6 srcMac.toList) 14 payload =
      (dstMac.toList ++ srcMac.toList) ++
        (bytes16 protocol ++ (payload ++ block.drop (14 + payload.length))) := by
  obtain ⟨a, b, c, d, hblock, ha, hb, hc, hd⟩ : ∃ a b c d : List UInt8,
      block = a ++ (b ++ (c ++ (d ++ block.drop (14 + payload.length)))) ∧ a.length = 6 ∧
        b.length = 6 ∧ c.length = 2 ∧ d.length = payload.length := by
    refine ⟨block.take 6, (block.drop 6).take 6, (block.drop 12).take 2,
      (block.drop 14).take payload.length, ?_, by simp; omega, by simp; omega, by simp; omega,
      by simp; omega⟩
    have step : ∀ i n, (block.drop i).take n ++ block.drop (i + n) = block.drop i := fun i n => by
      rw [← List.drop_drop, List.take_append_drop]
    rw [step 14 payload.length, step 12 2, step 6 6]
    exact (List.take_append_drop 6 block).symm
  generalize block.drop (14 + payload.length) = e at hblock ⊢
  subst hblock
  have hmac : ∀ m : Mac, m.toList.length = 6 := fun m => m.length_toList
  rw [← List.append_assoc a b, overwrite_append (by simp [ha, hb]) (by simp [hc]),
    List.append_assoc a b, overwrite_head (by rw [ha, hmac]),
    overwrite_append (hmac _) (by rw [hb, hmac]), ← List.append_assoc dstMac.toList,
    ← List.append_assoc _ (bytes16 protocol), overwrite_append (by simp) hd, List.append_assoc]

/-- The block after `eth_header_hton`. -/
theorem hton_eq (x rest : List UInt8) (hx : x.length = 12) (protocol : UInt16) :
    overwrite (x ++ (bytes16 protocol ++ rest)) 12
        (bytes16 (swap16 (le16 ((x ++ (bytes16 protocol ++ rest)).getD 12 0)
          ((x ++ (bytes16 protocol ++ rest)).getD 13 0)))) =
      x ++ (bytes16 (swap16 protocol) ++ rest) := by
  have h12 : (x ++ (bytes16 protocol ++ rest)).getD 12 0 = byte16 protocol 0 := by
    rw [List.getD_append_right _ _ _ _ (by omega), hx]; rfl
  have h13 : (x ++ (bytes16 protocol ++ rest)).getD 13 0 = byte16 protocol 1 := by
    rw [List.getD_append_right _ _ _ _ (by omega), hx]; rfl
  rw [h12, h13, le16_bytes, overwrite_append hx (by simp)]

theorem length_ethFrame (dstMac srcMac : Mac) (protocol : UInt16) (payload : List UInt8) :
    (ethFrame dstMac srcMac protocol payload).length = 14 + payload.length := by
  simp [ethFrame]; omega

/-- `buffers[fi]` begins with the frame of a send, the protocol swapped or not. -/
def NetInterface.Holds (net : NetInterface) (fi : Nat) (dstMac : Mac) (protocol : UInt16)
    (payload : List UInt8) : Prop :=
  ∃ rest, net.buffer fi =
    (dstMac.toList ++ net.mac.toList) ++ (bytes16 protocol ++ (payload ++ rest))

theorem fillBuffer_holds (hn : net.Sized) (hfi : fi < TUN_QUEUES) (protocol : UInt16)
    (dstMac : Mac) {payload : List UInt8} (h : 14 + payload.length ≤ (net.buffer fi).length) :
    (fillBuffer fi protocol dstMac payload net).Holds fi dstMac protocol payload := by
  refine ⟨(net.buffer fi).drop (14 + payload.length), ?_⟩
  rw [fillBuffer, buffer_modifyBuffer (by rw [hn.buffers]; exact hfi), if_pos rfl, fill_eq _ _ _ h]
  rfl

theorem bufferHton_holds (hn : net.Sized) (hfi : fi < TUN_QUEUES) {protocol : UInt16}
    {dstMac : Mac} {payload : List UInt8} (h : net.Holds fi dstMac protocol payload) :
    (bufferHton fi net).Holds fi dstMac (swap16 protocol) payload := by
  obtain ⟨rest, hbuf⟩ := h
  refine ⟨rest, ?_⟩
  rw [bufferHton, buffer_modifyBuffer (by rw [hn.buffers]; exact hfi), if_pos rfl, hbuf,
    hton_eq _ _ (by simp)]
  rfl

/-- `tun_write` of a filled and swapped buffer writes the frame of the send. -/
theorem tunWrite_holds {protocol : UInt16} {dstMac : Mac} {payload : List UInt8}
    (h : net.Holds fi dstMac (swap16 protocol) payload) :
    tunWrite fi (14 + payload.length) net = ethFrame dstMac net.mac protocol payload := by
  obtain ⟨rest, hbuf⟩ := h
  rw [tunWrite, hbuf, ← List.append_assoc _ payload, ← List.append_assoc, ← List.append_assoc,
    List.take_left' (by simp; omega)]
  rfl

theorem fillBuffer_sized (hn : net.Sized) (hfi : fi < TUN_QUEUES) (protocol : UInt16)
    (dstMac : Mac) {payload : List UInt8} (h : 14 + payload.length ≤ (net.buffer fi).length) :
    (fillBuffer fi protocol dstMac payload net).Sized := by
  apply modifyBuffer_sized hn hfi
  rw [fill_eq _ _ _ h]
  simp only [List.length_append, Vector.length_toList, length_bytes16, List.length_drop]
  omega

theorem bufferHton_sized (hn : net.Sized) (hfi : fi < TUN_QUEUES)
    (h : 14 ≤ (net.buffer fi).length) : (bufferHton fi net).Sized :=
  modifyBuffer_sized hn hfi (length_overwrite (by simpa using h))

theorem netInterfaceStart_ready (ip : UInt32) (mac : Mac) : (netInterfaceStart ip mac).Ready := by
  refine ⟨⟨by simp [netInterfaceStart], by simp [netInterfaceStart], by simp [netInterfaceStart],
    fun fi => ?_⟩, rfl⟩
  simp only [NetInterface.buffer, netInterfaceStart, List.getD_eq_getElem?_getD,
    List.getElem?_replicate]
  split <;> rfl

theorem available_ready (hr : net.Ready) : available net = some 0 := by
  unfold available
  rw [hr.idle]
  rfl

@[simp] theorem ensureHasSize_ip (size : Nat) : (ensureHasSize fi size net).ip = net.ip := by
  unfold ensureHasSize; split <;> rfl

@[simp] theorem ensureHasSize_mac (size : Nat) : (ensureHasSize fi size net).mac = net.mac := by
  unfold ensureHasSize; split <;> rfl

@[simp] theorem ensureHasSize_busyStatus (size : Nat) :
    (ensureHasSize fi size net).busyStatus = net.busyStatus := by
  unfold ensureHasSize; split <;> rfl

/-- The interface when a send of `payload` through queue `0` reaches `tun_write`. -/
def writtenNet (protocol : UInt16) (dstMac : Mac) (payload : List UInt8) (net : NetInterface) :
    NetInterface :=
  setBusy 0 true (bufferHton 0 (fillBuffer 0 protocol dstMac payload
    (ensureHasSize 0 (14 + payload.length) net)))

theorem writtenNet_ip (protocol : UInt16) (dstMac : Mac) (payload : List UInt8) :
    (writtenNet protocol dstMac payload net).ip = net.ip := ensureHasSize_ip _

theorem writtenNet_mac (protocol : UInt16) (dstMac : Mac) (payload : List UInt8) :
    (writtenNet protocol dstMac payload net).mac = net.mac := ensureHasSize_mac _

/-- The steps of an undisturbed send put its frame on the wire and free the queue again. -/
theorem writtenNet_spec (hr : net.Ready) (protocol : UInt16) (dstMac : Mac)
    (payload : List UInt8) :
    tunWrite 0 (14 + payload.length) (writtenNet protocol dstMac payload net) =
        ethFrame dstMac net.mac protocol payload ∧
      (setBusy 0 false (writtenNet protocol dstMac payload net)).Ready := by
  have h0 : 0 < TUN_QUEUES := by decide
  obtain ⟨hn₁, hroom, -⟩ := ensureHasSize_spec hr.toSized h0 (14 + payload.length)
  have hn₂ := fillBuffer_sized hn₁ h0 protocol dstMac hroom
  have hh₂ := fillBuffer_holds hn₁ h0 protocol dstMac hroom
  have hlen₂ : 14 ≤ ((fillBuffer 0 protocol dstMac payload
      (ensureHasSize 0 (14 + payload.length) net)).buffer 0).length := by
    obtain ⟨rest, hbuf⟩ := hh₂
    rw [hbuf]
    simp only [List.length_append, Vector.length_toList, length_bytes16]
    omega
  have hn₃ := bufferHton_sized hn₂ h0 hlen₂
  constructor
  · have hframe := tunWrite_holds (bufferHton_holds hn₂ h0 hh₂)
    have hmac : (bufferHton 0 (fillBuffer 0 protocol dstMac payload
        (ensureHasSize 0 (14 + payload.length) net))).mac = net.mac := ensureHasSize_mac _
    rw [hmac] at hframe
    exact hframe
  · refine ⟨setBusy_sized (setBusy_sized hn₃ true) false, ?_⟩
    show ((ensureHasSize 0 (14 + payload.length) net).busyStatus.set 0 true).set 0 false = _
    rw [ensureHasSize_busyStatus, hr.idle]
    rfl

end

end TcpIp
