import TcpIp.Lib.Trace
import TcpIp.Protocols.ArpNetwork
import TcpIp.Protocols.IpRoundTrip
import TcpIp.RxBuffer

/-!
# A network of whole stacks

Every host runs the process of `main.c`: threads that read into buffers of their own and handle what
these hold, and callers of `arp_resolve_ipv4` and `ip_send`. A read gives a frame that some host sent
earlier, or it fails, and then the handlers run on what the last round left in the buffer. A call
that ends the process ends it for good.

* `Node`, `StackNet.step`: the state of a host and one call of one host.
* `OwnedFrame`: an IPv4 frame that goes to the host its packet is for.
* `Node.Honest`: the invariant. Tables and frames are true, and so is the ARP message in a buffer, if
  there is one, whether the type before it has been swapped or not.
* `stackNet_tables_true`, `stackNet_frames_owned`: ARP tables stay true and no packet is sent to a
  wrong host.
-/

namespace TcpIp

open Bytes Prog World

/-! ## Hosts -/

/-- The process of a host. -/
structure Node where
  world : World
  /-- The receive buffer of each thread. -/
  buffers : Nat → Nat → UInt8
  /-- No call has ended the process. -/
  running : Bool

namespace Node

/-- The process after `net_interface_init` and `arp_init`, the buffers from `calloc`. -/
def boot (mem : Obj → Nat → UInt8) (host : ArpHost) (cache : ArpCache) : Node :=
  { world := World.boot mem host cache, buffers := fun _ _ => 0, running := true }

/-- The result of a call. -/
def finish {α : Type} (node : Node) (r : Except Stop α × World) : Node :=
  { node with world := r.2, running := r.1.isOk }

/-- What thread `t` has at the address of its buffer. Past the end the memory is anything. -/
def rxMemory (node : Node) (t : Nat) (beyond : Nat → UInt8) : Nat → UInt8 :=
  fun i => if i < BUFLEN then node.buffers t i else beyond i

/-- A round of thread `t`. -/
def round (node : Node) (t : Nat) (input : ReadResult) (beyond : Nat → UInt8) : Node :=
  let r := processIoBody input (node.world.withRx (node.rxMemory t beyond))
  { node.finish r with buffers := Function.update node.buffers t (r.2.mem .rx) }

end Node

/-- What happens next in the network. -/
inductive NetEvent (ι : Type) where
  /-- Thread `t` of host `i` does a round: the read fails, or gives the frame with the number in
  `source` on the wire of the host there. -/
  | round (i : ι) (t : Nat) (source : Option (ι × Nat)) (beyond : Nat → UInt8)
  /-- Host `i` calls `arp_resolve_ipv4`. -/
  | resolve (i : ι) (ip : UInt32)
  /-- Host `i` calls `ip_send`. -/
  | send (i : ι) (dst : UInt32) (payload : List UInt8) (protocol : UInt32)

/-- The state of each host. -/
abbrev StackNet (ι : Type) := ι → Node

namespace StackNet

variable {ι : Type} [DecidableEq ι]

def boot (mem : ι → Obj → Nat → UInt8) (host : ι → ArpHost) (cache : ArpCache) : StackNet ι :=
  fun i => Node.boot (mem i) (host i) cache

/-- One call of a running host; `none` where there is no such frame or the process has ended. -/
def step (net : StackNet ι) : NetEvent ι → Option (StackNet ι)
  | .round i t source beyond =>
    if (net i).running then
      match source with
      | none => some (Function.update net i ((net i).round t none beyond))
      | some (j, k) => (net j).world.wire[k]?.map fun frame =>
          Function.update net i ((net i).round t (some frame) beyond)
    else none
  | .resolve i ip =>
    if (net i).running then
      some (Function.update net i ((net i).finish (arpResolveIpv4 ip (net i).world)))
    else none
  | .send i dst payload protocol =>
    if (net i).running then
      some (Function.update net i ((net i).finish (ipSend dst payload protocol (net i).world)))
    else none

end StackNet

/-! ## Frames with a packet -/

def frameDstMac (frame : Frame) : Mac := Vector.ofFn fun i => frame.getD i 0

def frameSrcMac (frame : Frame) : Mac := Vector.ofFn fun i => frame.getD (6 + i) 0

/-- The source address of the packet in a frame, as the raw word. -/
def frameSrcIp (frame : Frame) : UInt32 :=
  le32 (frame.getD 26 0) (frame.getD 27 0) (frame.getD 28 0) (frame.getD 29 0)

/-- Its destination address. -/
def frameDstIp (frame : Frame) : UInt32 :=
  le32 (frame.getD 30 0) (frame.getD 31 0) (frame.getD 32 0) (frame.getD 33 0)

/-- A frame with a packet that host `i` sends: unless it ends inside the header of the packet, the
source is `i`, and the frame goes to the host that has the destination address. -/
structure OwnedFrame {ι : Type} (host : ι → ArpHost) (i : ι) (frame : Frame) : Prop where
  long : 14 ≤ frame.length
  type : etherType frame = ETH_P_IP
  srcMac : frameSrcMac frame = (host i).mac
  owner : 34 ≤ frame.length → frameSrcIp frame = (host i).ip ∧
    ∃ j, host j = ⟨frameDstIp frame, frameDstMac frame⟩

section Frames

variable (dstMac srcMac : Mac) (protocol : UInt16) (payload : List UInt8)

theorem frameDstMac_ethFrame : frameDstMac (ethFrame dstMac srcMac protocol payload) = dstMac := by
  ext i hi
  simp only [frameDstMac, ethFrame, List.append_assoc, Vector.getElem_ofFn]
  rw [List.getD_append _ _ _ _ (by simpa using hi), List.getD_eq_getElem _ _ (by simpa using hi)]
  simp

theorem frameSrcMac_ethFrame : frameSrcMac (ethFrame dstMac srcMac protocol payload) = srcMac := by
  ext i hi
  simp only [frameSrcMac, ethFrame, List.append_assoc, Vector.getElem_ofFn]
  rw [List.getD_append_right _ _ _ _ (by simp), List.getD_append _ _ _ _ (by simpa using hi),
    List.getD_eq_getElem _ _ (by simpa using hi)]
  simp

/-- The bytes of the payload. -/
theorem getD_ethFrame (i : Nat) :
    (ethFrame dstMac srcMac protocol payload).getD (14 + i) 0 = payload.getD i 0 := by
  rw [ethFrame, List.getD_append_right _ _ _ _ (by simp)]
  congr 1
  simp only [List.length_append, Vector.length_toList, length_bytes16]
  omega

/-- A complete header in the payload gives the addresses. -/
theorem frame_addresses {pre : List UInt8} (hpre : pre.length = 10) {src dst : UInt32}
    (h : payload.take 20 = sealHeader pre (bytes32 src ++ bytes32 dst)) :
    frameSrcIp (ethFrame dstMac srcMac protocol payload) = src ∧
      frameDstIp (ethFrame dstMac srcMac protocol payload) = dst := by
  have hget : ∀ k, k < 8 → (ethFrame dstMac srcMac protocol payload).getD (14 + (12 + k)) 0 =
      (bytes32 src ++ bytes32 dst).getD k 0 := by
    intro k hk
    have htake : payload.getD (12 + k) 0 = (payload.take 20).getD (12 + k) 0 := by
      rw [List.getD_eq_getElem?_getD, List.getD_eq_getElem?_getD, List.getElem?_take,
        if_pos (by omega)]
    rw [getD_ethFrame, htake, h, sealHeader, ← List.append_assoc,
      List.getD_append_right _ _ _ _ (by simp [hpre])]
    congr 1
    simp only [List.length_append, length_bytes16, hpre]
    omega
  have hsrc := hget 0 (by decide)
  have hdst := hget 4 (by decide)
  simp only [Nat.reduceAdd, bytes32, List.cons_append, List.nil_append] at hget hsrc hdst
  constructor
  · rw [frameSrcIp, hsrc, hget 1 (by decide), hget 2 (by decide), hget 3 (by decide)]
    exact le32_bytes src
  · rw [frameDstIp, hdst, hget 5 (by decide), hget 6 (by decide), hget 7 (by decide)]
    exact le32_bytes dst

end Frames

/-! ## What a call sends -/

/-- An entry of the cache is true if a host has these addresses. -/
def ArpCache.True {ι : Type} (host : ι → ArpHost) (cache : ArpCache) : Prop :=
  ∀ ip mac, cache.lookup ip = some mac → ∃ j, host j = ⟨ip, mac⟩

section Sends

variable {ι : Type} {host : ι → ArpHost} {i : ι} {w : World}

theorem ownedFrame_packet {j : ι} {dst : UInt32} {mac : Mac} (hj : host j = ⟨dst, mac⟩)
    {packet : List UInt8} (pre : List UInt8) (hpre : pre.length = 10) (hpacket : 20 ≤ packet.length →
      packet.take 20 = sealHeader pre (bytes32 (host i).ip ++ bytes32 dst)) :
    OwnedFrame host i (ethFrame mac (host i).mac ETH_P_IP packet) := by
  refine ⟨by rw [length_ethFrame]; omega, etherType_ethFrame _ _ _ _, frameSrcMac_ethFrame _ _ _ _,
    fun hlen => ?_⟩
  rw [length_ethFrame] at hlen
  obtain ⟨hsrc, hdst⟩ := frame_addresses mac (host i).mac ETH_P_IP packet hpre (hpacket (by omega))
  exact ⟨hsrc, j, by rw [hdst, frameDstMac_ethFrame, hj]⟩

/-- The reply to the packet in a buffer goes back to the address it came from. -/
theorem take_bufferReply (ip : UInt32) (m : Nat → UInt8) (h : 20 ≤ (bufferReply ip m).length) :
    (bufferReply ip m).take 20 =
      sealHeader (readN m 14 10) (bytes32 ip ++ bytes32 (bufferSrc m)) := by
  have haddr : readN m 26 4 = bytes32 (bufferSrc m) := (bytes32_le32 _ _ _ _).symm
  unfold bufferReply at h ⊢
  split
  · rename_i hL
    have hpre : (bufferPacket m).take 10 = readN m 14 10 := take_readN _ _ (by omega)
    have hsrc : ((bufferPacket m).drop 12).take 4 = readN m 26 4 := by
      rw [bufferPacket, drop_readN _ _ (by omega), take_readN _ _ (by omega)]
    rw [echoReply, hpre, hsrc, haddr, List.take_left' (by simp [length_sealHeader])]
  · rename_i hL
    rw [if_neg hL, List.length_take] at h
    omega

/-- A round with a true cache and a true ARP message in the buffer: frames and cache are true. -/
theorem reaction_owned {cache : ArpCache} {m : Nat → UInt8} (hv : cache.Valid)
    (htrue : cache.True host) (hm : bufferType m = ETH_P_ARP → ∃ j, host j = bufferSender m) :
    (∀ frame ∈ (reaction (host i) cache m).1, HonestFrame host frame ∨ OwnedFrame host i frame) ∧
      (reaction (host i) cache m).2.True host := by
  by_cases harp : bufferType m = ETH_P_ARP
  · obtain ⟨j, hj⟩ := hm harp
    obtain ⟨cache', hmerge, -, hlook⟩ := hv.exists_merge (host i).ip (.ofBytes m 14)
    rw [reaction, if_pos harp, hmerge]
    refine ⟨fun frame hframe => Or.inl ?_, fun ip mac h => ?_⟩
    · simp only [ArpHost.replies] at hframe
      split at hframe
      · rw [List.mem_singleton.mp hframe]
        exact honestFrame_ipv4 host i _ _ _ _
      · cases hframe
    · have h' : cache'.lookup ip = some mac := h
      rw [hlook] at h'
      split at h'
      · rename_i hmsg
        exact ⟨j, by rw [hj, bufferSender, hmsg.2.2, Option.some.inj h']⟩
      · exact htrue ip mac h'
  · rw [reaction, if_neg harp]
    split
    · cases hlook : cache.lookup (bufferSrc m) with
      | some mac =>
        obtain ⟨j, hj⟩ := htrue _ _ hlook
        refine ⟨fun frame hframe => Or.inr ?_, htrue⟩
        rw [List.mem_singleton.mp hframe]
        exact ownedFrame_packet hj _ (length_readN _ _ _) (take_bufferReply _ m)
      | none =>
        refine ⟨fun frame hframe => Or.inl ?_, htrue⟩
        rw [List.mem_singleton.mp hframe]
        exact honestFrame_ipv4 host i _ _ _ _
    · exact ⟨by simp, htrue⟩

/-- `ip_send`, also for a payload that does not fit a datagram. -/
theorem ipSend_owned (hw : w.Up (host i)) (htrue : w.cache.True host) (dst : UInt32)
    (payload : List UInt8) (protocol : UInt32) :
    ∃ frames, (ipSend dst payload protocol w).2.wire = w.wire ++ frames ∧
      ∀ frame ∈ frames, HonestFrame host frame ∨ OwnedFrame host i frame := by
  obtain ⟨q, W, h, hsend⟩ := ipSend_packet w dst payload protocol
  have hs := h.statics
  obtain ⟨hr, hhost, hv⟩ := hs.up hw
  have hip : W.net.ip = (host i).ip := congrArg ArpHost.ip hhost
  have hmac : W.net.mac = (host i).mac := congrArg ArpHost.mac hhost
  rw [hsend, ← hs.wire]
  cases hlook : W.cache.lookup (htonl (W.u32 (q + 16))) with
  | none =>
    obtain ⟨w', hrun, -, hserves⟩ := ipSendPacket_miss hr hv hlook
    rw [hrun]
    refine ⟨_, hserves.wire, fun frame hframe => Or.inl ?_⟩
    rw [List.mem_singleton.mp hframe, hhost]
    exact honestFrame_ipv4 host i _ _ _ _
  | some mac =>
    rw [h.dst, hs.cache] at hlook
    obtain ⟨j, hj⟩ := htrue _ _ hlook
    obtain ⟨w₁, w', hmem, hrun, -, hserves⟩ := ipSendPacket_cached (w := W) (q := q) hr hv
      (by rw [h.dst, hs.cache]; exact hlook)
    rw [hrun]
    refine ⟨_, hserves.wire, fun frame hframe => Or.inr ?_⟩
    rw [List.mem_singleton.mp hframe, hmac]
    refine ownedFrame_packet hj (w₁.bytes q 2 ++ bytes16 (htons (w₁.u16 (q + 2))) ++
      w₁.bytes (q + 4) 6) (by simp [World.bytes]) fun hlen => ?_
    rw [World.bytes, length_readN] at hlen
    rw [World.bytes, take_readN _ _ hlen]
    have hheader := ipSealed_header w₁ q
    have hnet : w.net.ip = (host i).ip := congrArg ArpHost.ip hw.host
    have hback : ntohl (ntohl w.net.ip) = (host i).ip := by rw [← hnet]; exact htonl_ntohl _
    rw [u32_congr hmem, u32_congr hmem, h.src, h.dst, hback] at hheader
    exact hheader

end Sends

/-! ## The invariant -/

/-- If the type in a buffer is ARP, in either byte order, a host has the sender's addresses. -/
def HonestBuffer {ι : Type} (host : ι → ArpHost) (m : Nat → UInt8) : Prop :=
  m 12 = 0x08 ∧ m 13 = 0x06 ∨ m 12 = 0x06 ∧ m 13 = 0x08 → ∃ j, host j = bufferSender m

/-- Table, buffers and frames of host `i` are true. -/
structure Node.Honest {ι : Type} (host : ι → ArpHost) (i : ι) (node : Node) : Prop where
  up : node.world.Up (host i)
  table : node.world.cache.True host
  buffers : ∀ t, HonestBuffer host (node.buffers t)
  wire : ∀ frame ∈ node.world.wire, HonestFrame host frame ∨ OwnedFrame host i frame

section Invariant

variable {ι : Type} {host : ι → ArpHost} {i : ι} {node : Node} {m : Nat → UInt8}

theorem bufferType_arp (h : bufferType m = ETH_P_ARP) : m 12 = 0x08 ∧ m 13 = 0x06 := by
  have hbytes : [m 13, m 12] = [0x06, 0x08] := by
    rw [← bytes16_le16]
    exact congrArg bytes16 h
  have hcons := List.cons.inj hbytes
  exact ⟨(List.cons.inj hcons.2).1, hcons.1⟩

theorem bufferType_ip (h : bufferType m = ETH_P_IP) : m 12 = 0x08 ∧ m 13 = 0x00 := by
  have hbytes : [m 13, m 12] = [0x00, 0x08] := by
    rw [← bytes16_le16]
    exact congrArg bytes16 h
  have hcons := List.cons.inj hbytes
  exact ⟨(List.cons.inj hcons.2).1, hcons.1⟩

/-- The type and the sender are inside the buffer. -/
theorem HonestBuffer.congr {m' : Nat → UInt8} (h : HonestBuffer host m)
    (hm : ∀ k, k < 32 → m' k = m k) : HonestBuffer host m' := by
  intro htype
  rw [hm 12 (by decide), hm 13 (by decide)] at htype
  rw [bufferSender_congr fun k _ hk => hm k hk]
  exact h htype

/-- The first bytes of a buffer after a read. -/
theorem bufferAfter_some {buffer : Nat → UInt8} {frame : Frame} {k : Nat} (hk : k < frame.length)
    (hlt : k < BUFLEN) : bufferAfter buffer (some frame) k = frame.getD k 0 := by
  rw [bufferAfter, bytesRead, writeL_apply_in (Nat.zero_le _) (by simp; omega),
    List.getD_eq_getElem _ _ hk]
  simp

/-- A frame of the network puts an honest message into the buffer, or no message. -/
theorem HonestBuffer.read {buffer : Nat → UInt8} {frame : Frame}
    (h : HonestFrame host frame ∨ OwnedFrame host i frame) :
    HonestBuffer host (bufferAfter buffer (some frame)) := by
  intro htype
  rcases h with h | h
  · obtain ⟨j, hj⟩ := h.sender
    have hlong := h.long
    refine ⟨j, hj.trans (bufferSender_congr fun k _ hk => ?_).symm⟩
    exact bufferAfter_some (by omega) (by rw [BUFLEN]; omega)
  · have hlong := h.long
    have hip : bufferType (bufferAfter buffer (some frame)) = ETH_P_IP := by
      rw [bufferType, bufferAfter_some (by omega) (by decide),
        bufferAfter_some (by omega) (by decide)]
      exact h.type
    obtain ⟨h12, h13⟩ := bufferType_ip hip
    rw [h12, h13] at htype
    simp at htype

/-- A round keeps the process honest. -/
theorem Node.Honest.round (h : node.Honest host i) (t : Nat) (input : ReadResult)
    (hinput : ∀ frame, input = some frame → ∃ j, HonestFrame host frame ∨ OwnedFrame host j frame)
    (beyond : Nat → UInt8) : (node.round t input beyond).Honest host i := by
  generalize hmem : node.rxMemory t beyond = buffer
  have hbuffer : HonestBuffer host (bufferAfter buffer input) := by
    cases input with
    | none =>
      refine (h.buffers t).congr fun k hk => ?_
      rw [← hmem]
      show node.rxMemory t beyond k = _
      rw [Node.rxMemory, if_pos (by rw [BUFLEN]; omega)]
    | some frame =>
      obtain ⟨j, hframe⟩ := hinput frame rfl
      exact HonestBuffer.read hframe
  obtain ⟨hwire, hcache⟩ := processIoBody_reaction h.up buffer input
  obtain ⟨hframes, htable⟩ := reaction_owned (i := i) h.up.valid h.table fun harp =>
    hbuffer (Or.inl (bufferType_arp harp))
  obtain ⟨h12, h13, hsender⟩ := processIoBody_rx h.up buffer input rfl rfl
  rw [Node.round, hmem]
  refine ⟨(h.up.withRx buffer).round_snd input, ?_, fun t' => ?_, fun frame hframe => ?_⟩
  · rw [← hcache] at htable
    exact htable
  · show HonestBuffer host (Function.update node.buffers t _ t')
    by_cases ht : t' = t
    · subst ht
      rw [Function.update_self]
      intro htype
      rw [h12, h13] at htype
      obtain ⟨j, hj⟩ := hbuffer (htype.symm.imp And.symm And.symm)
      rcases hsender fun hip => by
        obtain ⟨h12', h13'⟩ := bufferType_ip hip
        rw [h12', h13'] at htype
        simp at htype with hsame | hown
      · exact ⟨j, hj.trans hsame.symm⟩
      · exact ⟨i, hown.symm⟩
    · rw [Function.update_of_ne ht]
      exact h.buffers t'
  · rw [show (Node.finish node _).world.wire = _ from hwire, List.mem_append] at hframe
    exact hframe.elim (h.wire frame) (hframes frame)

/-- So does any other call that keeps the stack up and the cache as it is. -/
theorem Node.Honest.finish (h : node.Honest host i) {α : Type} {r : Except Stop α × World}
    (frames : List Frame) (hup : r.2.Up (host i)) (hcache : r.2.cache = node.world.cache)
    (hwire : r.2.wire = node.world.wire ++ frames)
    (hframes : ∀ frame ∈ frames, HonestFrame host frame ∨ OwnedFrame host i frame) :
    (node.finish r).Honest host i := by
  refine ⟨hup, ?_, h.buffers, fun frame hframe => ?_⟩
  · show r.2.cache.True host
    rw [hcache]
    exact h.table
  · rw [show (node.finish r).world.wire = _ from hwire, List.mem_append] at hframe
    exact hframe.elim (h.wire frame) (hframes frame)

theorem Node.Honest.resolve (h : node.Honest host i) (ip : UInt32) :
    (node.finish (arpResolveIpv4 ip node.world)).Honest host i := by
  obtain ⟨-, -, hcache⟩ := Upkeeps.arpResolveIpv4 ip node.world h.up.ready
  have hup := h.up.keep (Upkeeps.arpResolveIpv4 ip)
  cases hlook : node.world.cache.lookup ip with
  | some mac =>
    obtain ⟨cell, hrun, -⟩ := arpResolveIpv4_hit h.up.valid hlook
    refine h.finish [] hup hcache ?_ (by simp)
    rw [hrun, List.append_nil]
  | none =>
    obtain ⟨w', hrun, -, hserves⟩ := arpResolveIpv4_miss h.up.ready h.up.valid hlook
    refine h.finish _ hup hcache (by rw [hrun]; exact hserves.wire) fun frame hframe => Or.inl ?_
    rw [List.mem_singleton.mp hframe, h.up.host]
    exact honestFrame_ipv4 host i _ _ _ _

theorem Node.Honest.send (h : node.Honest host i) (dst : UInt32) (payload : List UInt8)
    (protocol : UInt32) : (node.finish (ipSend dst payload protocol node.world)).Honest host i := by
  obtain ⟨-, -, hcache⟩ := Upkeeps.ipSend dst payload protocol node.world h.up.ready
  obtain ⟨frames, hwire, hframes⟩ := ipSend_owned h.up h.table dst payload protocol
  exact h.finish frames (h.up.keep (Upkeeps.ipSend dst payload protocol)) hcache hwire hframes

end Invariant

/-! ## Runs -/

section Runs

variable {ι : Type} [DecidableEq ι] {host : ι → ArpHost} {net net' : StackNet ι}

omit [DecidableEq ι] in
theorem StackNet.boot_honest (mem : ι → Obj → Nat → UInt8) {cache : ArpCache}
    (hinit : arpInit = some cache) (i : ι) : (StackNet.boot mem host cache i).Honest host i := by
  obtain ⟨cache', hinit', -, hempty⟩ := arpInit_spec
  obtain rfl : cache = cache' := Option.some.inj (hinit.symm.trans hinit')
  refine ⟨(World.Reachable.boot (mem i) hinit).up, fun ip mac h => ?_, fun t htype => ?_,
    fun frame hframe => by cases hframe⟩
  · rw [show (StackNet.boot mem host cache i).world.cache = cache from rfl, hempty] at h
    cases h
  · simp [StackNet.boot, Node.boot] at htype

/-- One call of one host keeps every host honest. -/
theorem StackNet.step_honest (h : ∀ i, (net i).Honest host i) {e : NetEvent ι}
    (hstep : net.step e = some net') (i : ι) : (net' i).Honest host i := by
  -- The host that runs is replaced by an honest one.
  have hupdate : ∀ {j node}, Node.Honest host j node → ∀ i,
      (Function.update net j node i).Honest host i := by
    intro j node hnode i
    by_cases hij : i = j
    · subst hij
      rwa [Function.update_self]
    · rw [Function.update_of_ne hij]
      exact h i
  cases e with
  | round j t source beyond =>
    simp only [StackNet.step] at hstep
    split at hstep
    · rcases source with _ | ⟨k, n⟩
      · obtain rfl := Option.some.inj hstep
        exact hupdate ((h j).round t none (by simp) beyond) i
      · obtain ⟨frame, hframe, rfl⟩ := Option.map_eq_some_iff.mp hstep
        refine hupdate ((h j).round t (some frame) (fun f hf => ?_) beyond) i
        obtain rfl := Option.some.inj hf
        exact ⟨k, (h k).wire _ (List.mem_of_getElem? hframe)⟩
    · cases hstep
  | resolve j ip =>
    simp only [StackNet.step] at hstep
    split at hstep
    · obtain rfl := Option.some.inj hstep
      exact hupdate ((h j).resolve ip) i
    · cases hstep
  | send j dst payload protocol =>
    simp only [StackNet.step] at hstep
    split at hstep
    · obtain rfl := Option.some.inj hstep
      exact hupdate ((h j).send dst payload protocol) i
    · cases hstep

theorem StackNet.run_honest {mem : ι → Obj → Nat → UInt8} {cache : ArpCache}
    (hinit : arpInit = some cache) {es : List (NetEvent ι)}
    (hrun : Trace.run StackNet.step (StackNet.boot mem host cache) es = some net) :
    ∀ i, (net i).Honest host i :=
  Trace.run_invariant (I := fun net : StackNet ι => ∀ i, (net i).Honest host i)
    (fun _ _ _ h hstep => StackNet.step_honest h hstep) (StackNet.boot_honest mem hinit) hrun

/-- **ARP tables stay true** in a network of whole stacks, whatever is lost, repeated, cut, read
again after a failure or sent by `ip_send`: what `arp_resolve_ipv4` finds is the address of the host
that has the protocol address. -/
theorem stackNet_tables_true {mem : ι → Obj → Nat → UInt8} {cache : ArpCache}
    (hinit : arpInit = some cache) {es : List (NetEvent ι)}
    (hrun : Trace.run StackNet.step (StackNet.boot mem host cache) es = some net) {i : ι}
    {x : UInt32} {cell : Nat} {w' : World}
    (hres : arpResolveIpv4 x (net i).world = (.ok (some cell), w')) :
    ∃ j, (host j).ip = x ∧ derefMac cell w' = (.ok (host j).mac, w') := by
  have h := StackNet.run_honest hinit hrun i
  cases hlook : (net i).world.cache.lookup x with
  | none =>
    obtain ⟨_, hmiss, -⟩ := arpResolveIpv4_miss h.up.ready h.up.valid hlook
    rw [hmiss] at hres
    cases hres
  | some mac =>
    obtain ⟨cell', hhit, hderef⟩ := arpResolveIpv4_hit h.up.valid hlook
    rw [hhit] at hres
    cases hres
    obtain ⟨j, hj⟩ := h.table x mac hlook
    exact ⟨j, by rw [hj], by rw [hderef _ rfl, hj]⟩

/-- **No packet goes to a wrong host.** In a network of whole stacks, every frame with the type of
IPv4 comes from the MAC address of the host that sent it. If its IPv4 header is complete, it also
comes from the IP address of that host and goes to the MAC address of the host that has the
destination address. -/
theorem stackNet_frames_owned (hip : Function.Injective fun i => (host i).ip)
    {mem : ι → Obj → Nat → UInt8} {cache : ArpCache} (hinit : arpInit = some cache)
    {es : List (NetEvent ι)}
    (hrun : Trace.run StackNet.step (StackNet.boot mem host cache) es = some net) {i : ι}
    {frame : Frame} (hsent : frame ∈ (net i).world.wire) (htype : etherType frame = ETH_P_IP) :
    frameSrcMac frame = (host i).mac ∧
      (34 ≤ frame.length → frameSrcIp frame = (host i).ip ∧
        ∃ j, (host j).ip = frameDstIp frame ∧ (∀ k, (host k).ip = frameDstIp frame → k = j) ∧
          (host j).mac = frameDstMac frame) := by
  rcases (StackNet.run_honest hinit hrun i).wire frame hsent with h | h
  · rw [h.type] at htype
    exact absurd htype (by decide)
  · refine ⟨h.srcMac, fun hlong => ?_⟩
    obtain ⟨hsrc, j, hj⟩ := h.owner hlong
    have hjip : (host j).ip = frameDstIp frame := by rw [hj]
    exact ⟨hsrc, j, hjip, fun k hk => hip (hk.trans hjip.symm), by rw [hj]⟩

end Runs

/-! ## Two hosts -/

/-- The first host resolves the second and sends it three bytes; the second host's next read
fails. -/
def pairTraffic : List (NetEvent Bool) :=
  [.resolve false 0x0200000a, .round true 0 (some (false, 0)) (fun _ => 0),
    .round false 0 (some (true, 0)) (fun _ => 0), .send false (htonl 0x0200000a) [1, 2, 3] 17,
    .round true 0 none (fun _ => 0)]

/-- What can be seen of the network after it. -/
theorem pairTraffic_run {α : Type} (view : StackNet Bool → α) {a : α}
    (h : (arpInit.bind fun cache => (Trace.run StackNet.step
      (StackNet.boot (fun _ _ _ => 0) pairHost cache) pairTraffic).map view) = some a) :
    ∃ cache net, arpInit = some cache ∧ Trace.run StackNet.step
      (StackNet.boot (fun _ _ _ => 0) pairHost cache) pairTraffic = some net ∧ view net = a := by
  obtain ⟨cache, hinit, hmap⟩ := Option.bind_eq_some_iff.mp h
  obtain ⟨net, hrun, hview⟩ := Option.map_eq_some_iff.mp hmap
  exact ⟨cache, net, hinit, hrun, hview⟩

theorem stackNet_tables_true_pair :
    ∃ cache net cell w', arpInit = some cache ∧
      Trace.run StackNet.step (StackNet.boot (fun _ _ _ => 0) pairHost cache) pairTraffic = some net ∧
      arpResolveIpv4 0x0200000a (net false).world = (.ok (some cell), w') ∧
      ∃ j, (pairHost j).ip = 0x0200000a ∧ derefMac cell w' = (.ok (pairHost j).mac, w') := by
  obtain ⟨cache, net, hinit, hrun, hview⟩ := pairTraffic_run
    (fun net => (arpResolveIpv4 0x0200000a (net false).world).1.toOption)
    (a := some (some 0)) (by decide +kernel)
  rcases hres : arpResolveIpv4 0x0200000a (net false).world with ⟨_ | cell, w'⟩
  · rw [hres] at hview
    cases hview
  · rw [hres] at hview
    obtain rfl : cell = some 0 := Option.some.inj hview
    exact ⟨cache, net, 0, w', hinit, hrun, hres, stackNet_tables_true hinit hrun hres⟩

theorem stackNet_frames_owned_pair :
    Function.Injective (fun i => (pairHost i).ip) ∧
      ∃ cache net frame, arpInit = some cache ∧
        Trace.run StackNet.step (StackNet.boot (fun _ _ _ => 0) pairHost cache) pairTraffic =
          some net ∧
        frame ∈ (net false).world.wire ∧ etherType frame = ETH_P_IP ∧ 34 ≤ frame.length ∧
        frameSrcMac frame = (pairHost false).mac ∧ frameSrcIp frame = (pairHost false).ip ∧
        ∃ j, (pairHost j).ip = frameDstIp frame ∧
          (∀ k, (pairHost k).ip = frameDstIp frame → k = j) ∧
          (pairHost j).mac = frameDstMac frame := by
  have hip : Function.Injective (fun i => (pairHost i).ip) := by decide
  obtain ⟨cache, net, hinit, hrun, hview⟩ := pairTraffic_run
    (fun net => (net false).world.wire[1]?)
    (a := some (ethFrame (sampleMac 2) (sampleMac 1) ETH_P_IP
      (sentPacket 0x0100000a (htonl 0x0200000a) [1, 2, 3] 17))) (by decide +kernel)
  have hsent := List.mem_of_getElem? hview
  obtain ⟨hmac, howner⟩ := stackNet_frames_owned hip hinit hrun hsent (by decide)
  exact ⟨hip, cache, net, _, hinit, hrun, hsent, by decide, by decide, hmac,
    howner (by decide)⟩

end TcpIp
