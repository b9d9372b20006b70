import TcpIp.Reaction

/-!
# What a round leaves in the receive buffer

`process_io` does not look at the result of the read: after a failure the handlers run once more on
what the last round left in the buffer. They work in place, so this is not the frame that arrived.

* `World.HeadKept`: the code does not write before the payload. `ip_receive` does not.
* `World.SenderKept`: the sender of the ARP message in the buffer is as before, or it is us.
  `arp_receive` keeps it, because `arp_reply` puts our addresses in the place of the sender's.
* `processIoBody_rx`: a round swaps the two bytes of the type, and unless the buffer holds an IPv4
  packet the sender is kept in this sense.
-/

namespace TcpIp

open Bytes Prog World

/-! ## The bytes before the payload -/

/-- The interface stays ready, and the Ethernet header in the receive buffer is the same. -/
def World.HeadKept (w w' : World) : Prop :=
  w.net.Ready → w'.net.Ready ∧ ∀ i, i < 14 → w'.mem .rx i = w.mem .rx i

theorem World.HeadKept.refl (w : World) : w.HeadKept w := fun hr => ⟨hr, fun _ _ => rfl⟩

theorem World.HeadKept.trans {w w' w'' : World} (h : w.HeadKept w') (h' : w'.HeadKept w'') :
    w.HeadKept w'' := by
  intro hr
  obtain ⟨hr', hmem⟩ := h hr
  obtain ⟨hr'', hmem'⟩ := h' hr'
  exact ⟨hr'', fun i hi => (hmem' i hi).trans (hmem i hi)⟩

/-- A pointer to the payload of the frame in the receive buffer, or to another object. -/
def Ptr.InPayload (p : Ptr) : Prop := p.obj = .rx → 14 ≤ p.off

theorem Ptr.InPayload.add {p : Ptr} (h : p.InPayload) (n : Nat) : (p + n).InPayload :=
  fun ho => Nat.le_trans (h ho) (Nat.le_add_right _ _)

/-- A write to the payload. -/
theorem write_head {p : Ptr} (hp : p.InPayload) (w : World) (l : List UInt8) {i : Nat}
    (hi : i < 14) : (w.write p l).mem .rx i = w.mem .rx i := by
  by_cases ho : Obj.rx = p.obj
  · have hoff := hp ho.symm
    rw [write_mem_same _ _ _ ho, ← ho]
    exact writeL_apply_out (by omega)
  · rw [write_mem_ne _ _ _ ho]

/-- The code works behind the Ethernet header. -/
abbrev KeepsHead {α : Type} (x : M α) : Prop := Keeps World.HeadKept x

namespace KeepsHead

variable {α β : Type} {p : Ptr}

theorem bind {x : M α} {f : α → M β} (hx : KeepsHead x) (hf : ∀ a, KeepsHead (f a)) :
    KeepsHead (x >>= f) :=
  Keeps.bind (R := World.HeadKept) (fun h h' => h.trans h') hx hf

theorem pure (a : α) : KeepsHead (Pure.pure a) := Keeps.pure World.HeadKept.refl a

theorem stop (e : Stop) : KeepsHead (Prog.stop e : M α) := Keeps.stop World.HeadKept.refl e

theorem gets (f : World → α) : KeepsHead (Prog.gets f) := Keeps.gets World.HeadKept.refl f

theorem touch (p : Ptr) (n : Nat) : KeepsHead (TcpIp.touch p n) := fun _ hr => ⟨hr, fun _ _ => rfl⟩

theorem loadU8 (p : Ptr) : KeepsHead (TcpIp.loadU8 p) := fun _ hr => ⟨hr, fun _ _ => rfl⟩

theorem loadU16 (p : Ptr) : KeepsHead (TcpIp.loadU16 p) := fun _ hr => ⟨hr, fun _ _ => rfl⟩

theorem loadU32 (p : Ptr) : KeepsHead (TcpIp.loadU32 p) := fun _ hr => ⟨hr, fun _ _ => rfl⟩

theorem loadBytes (p : Ptr) (n : Nat) : KeepsHead (TcpIp.loadBytes p n) :=
  fun _ hr => ⟨hr, fun _ _ => rfl⟩

theorem storeBytes (hp : p.InPayload) (l : List UInt8) : KeepsHead (TcpIp.storeBytes p l) :=
  fun w hr => ⟨hr, fun _ hi => write_head hp (w.touch p l.length) l hi⟩

theorem callocObj {o : Obj} (ho : o ≠ .rx) : KeepsHead (TcpIp.callocObj o) := by
  refine fun w hr => ⟨hr, fun i _ => ?_⟩
  show Function.update w.mem o _ .rx i = _
  rw [Function.update_of_ne ho.symm]

theorem cacheQuery (f : ArpCache → Option α) : KeepsHead (TcpIp.cacheQuery f) := by
  intro w hr
  unfold TcpIp.cacheQuery
  split
  · exact ⟨hr, fun _ _ => rfl⟩
  · exact ⟨hr, fun _ _ => rfl⟩

theorem swapField16 (hp : p.InPayload) : KeepsHead (TcpIp.swapField16 p) :=
  (loadU16 p).bind fun _ => storeBytes hp _

theorem swapField32 (hp : p.InPayload) : KeepsHead (TcpIp.swapField32 p) :=
  (loadU32 p).bind fun _ => storeBytes hp _

theorem swapField32As16 (hp : p.InPayload) : KeepsHead (TcpIp.swapField32As16 p) :=
  (loadU32 p).bind fun _ => storeBytes hp _

theorem netInterfaceSend (content : Ptr) {len : Nat} (hlen : len + 14 < 2 ^ 32) (dstMac : Mac)
    (protocol : UInt16) : KeepsHead (TcpIp.netInterfaceSend content len dstMac protocol) := by
  intro w hr
  obtain ⟨w', hrun, hserves, -, hmem⟩ := netInterfaceSend_spec hr content hlen dstMac protocol
  rw [hrun]
  exact ⟨hserves.ready, fun i _ => by rw [hmem]⟩

/-- The request is built in a block of its own. -/
theorem arpRequest (ipv4 : UInt32) : KeepsHead (TcpIp.arpRequest ipv4) := by
  have hp : Ptr.InPayload ⟨.request, 0⟩ := nofun
  exact (callocObj (by decide)).bind fun _ => (storeBytes hp _).bind fun _ =>
    (storeBytes (hp.add 4) _).bind fun _ => (storeBytes (hp.add 2) _).bind fun _ =>
      (storeBytes (hp.add 5) _).bind fun _ => (storeBytes (hp.add 6) _).bind fun _ =>
        ((swapField16 (hp.add 6)).bind fun _ => (swapField16 hp).bind fun _ =>
            swapField16 (hp.add 2)).bind fun _ =>
          (storeBytes ((hp.add 8).add 16) _).bind fun _ =>
            (storeBytes ((hp.add 8).add 10) _).bind fun _ => (gets _).bind fun _ =>
              (storeBytes ((hp.add 8).add 6) _).bind fun _ => (gets _).bind fun _ =>
                (storeBytes (hp.add 8) _).bind fun _ => netInterfaceSend _ (by decide) _ _

theorem arpResolveIpv4 (ipv4 : UInt32) : KeepsHead (TcpIp.arpResolveIpv4 ipv4) :=
  (cacheQuery _).bind fun _ =>
    Keeps.ite (cacheQuery _) ((arpRequest ipv4).bind fun _ => pure _)

theorem ipHeaderNtoh (hp : p.InPayload) : KeepsHead (TcpIp.ipHeaderNtoh p) :=
  (swapField32 (hp.add 12)).bind fun _ => (swapField32 (hp.add 16)).bind fun _ =>
    swapField16 (hp.add 2)

theorem ipSendPacket (hp : p.InPayload) : KeepsHead (TcpIp.ipSendPacket p) := by
  refine (loadU32 _).bind fun dst => (loadU16 _).bind fun len =>
    (arpResolveIpv4 _).bind fun cell => ?_
  cases cell with
  | none => exact (touch _ _).bind fun _ => stop _
  | some cell =>
    have hlen := len.toNat_lt
    have hsum : KeepsHead (ipHeaderUpdateChecksum p) :=
      (storeBytes (hp.add 10) _).bind fun _ => (loadBytes _ _).bind fun _ =>
        storeBytes (hp.add 10) _
    exact bind (ipHeaderNtoh hp) fun _ => hsum.bind fun _ => (gets _).bind fun mac =>
      netInterfaceSend _ (by omega) _ _

theorem icmpReceive (hp : p.InPayload) : KeepsHead (TcpIp.icmpReceive p) := by
  have hecho : KeepsHead (receiveEchoRequest p (p + 20)) :=
    (loadU16 _).bind fun _ => (storeBytes (hp.add 20) _).bind fun _ =>
      (storeBytes ((hp.add 20).add 2) _).bind fun _ => (loadBytes _ _).bind fun _ =>
        (storeBytes ((hp.add 20).add 2) _).bind fun _ => (loadU32 _).bind fun _ =>
          (storeBytes (hp.add 16) _).bind fun _ => (gets _).bind fun _ =>
            (storeBytes (hp.add 12) _).bind fun _ => ipSendPacket hp
  refine (loadU16 _).bind fun len => bind ((loadBytes _ _).bind fun _ => pure _) fun valid =>
    Keeps.ite ?_ (pure ())
  exact (loadU8 _).bind fun type => Keeps.ite hecho (touch _ _)

theorem tcpReceive (hp : p.InPayload) : KeepsHead (TcpIp.tcpReceive p) := by
  have hsum : Ptr.InPayload ⟨.sum, 0⟩ := nofun
  have hcheck : KeepsHead (tcpHeaderCheck p (p + 20)) :=
    (loadU16 _).bind fun _ => (loadBytes _ _).bind fun _ => (loadU32 _).bind fun _ =>
      (loadU32 _).bind fun _ => (storeBytes hsum _).bind fun _ => (loadBytes _ _).bind fun _ =>
        pure _
  have hntoh : KeepsHead (tcpHeaderNtoh (p + 20)) :=
    (swapField32As16 ((hp.add 20).add 4)).bind fun _ =>
      (swapField32As16 ((hp.add 20).add 8)).bind fun _ =>
        (swapField16 ((hp.add 20).add 2)).bind fun _ => swapField16 (hp.add 20)
  exact hcheck.bind fun valid => Keeps.ite
    (hntoh.bind fun _ => (touch _ _).bind fun _ => (loadU16 _).bind fun _ => pure _)
    ((touch _ _).bind fun _ => pure _)

/-- `ip_receive` leaves the Ethernet header alone, whatever it receives. -/
theorem ipReceive : KeepsHead (TcpIp.ipReceive rxBuffer) := by
  have hp : (rxBuffer + 14).InPayload := fun _ => Nat.le_refl 14
  refine bind ((loadBytes _ _).bind fun _ => pure _) fun valid => Keeps.ite ?_ ?_
  · exact (ipHeaderNtoh hp).bind fun _ => (loadU8 _).bind fun _ =>
      Keeps.ite ((tcpReceive hp).bind fun _ => pure _)
        (Keeps.ite (touch _ _) (Keeps.ite (icmpReceive hp) (touch _ _)))
  · exact (touch _ _).bind fun _ => touch _ _

end KeepsHead

/-! ## The sender of the ARP message -/

/-- The sender of the ARP message at `p`. -/
def World.senderAt (w : World) (p : Ptr) : ArpHost := ⟨w.u32 (p + 14), w.mac (p + 8)⟩

/-- The interface keeps its addresses, the Ethernet header in the receive buffer is the same, and the
sender of the message in it is the same or has become us. -/
def World.SenderKept (w w' : World) : Prop :=
  w.net.Ready → w'.net.Ready ∧ w'.net.host = w.net.host ∧
    (∀ i, i < 14 → w'.mem .rx i = w.mem .rx i) ∧
    (w'.senderAt (rxBuffer + 14) = w.senderAt (rxBuffer + 14) ∨
      w'.senderAt (rxBuffer + 14) = w.net.host)

theorem World.SenderKept.trans {w w' w'' : World} (h : w.SenderKept w') (h' : w'.SenderKept w'') :
    w.SenderKept w'' := by
  intro hr
  obtain ⟨hr', hhost, hmem, hsender⟩ := h hr
  obtain ⟨hr'', hhost', hmem', hsender'⟩ := h' hr'
  refine ⟨hr'', hhost'.trans hhost, fun i hi => (hmem' i hi).trans (hmem i hi), ?_⟩
  rw [hhost] at hsender'
  rcases hsender' with heq | hown
  · rwa [heq]
  · exact Or.inr hown

/-- Code that leaves the interface and the memory alone. -/
theorem World.SenderKept.of_mem {w w' : World} (hnet : w'.net = w.net) (hmem : w'.mem = w.mem) :
    w.SenderKept w' := by
  refine fun hr => ⟨by rwa [hnet], by rw [hnet], fun i _ => by rw [hmem], Or.inl ?_⟩
  simp only [senderAt, World.u32, World.mac, World.u8, hmem]

theorem World.SenderKept.refl (w : World) : w.SenderKept w := .of_mem rfl rfl

/-- The code keeps the sender or makes it us. -/
abbrev KeepsSender {α : Type} (x : M α) : Prop := Keeps World.SenderKept x

namespace KeepsSender

variable {α β : Type}

theorem bind {x : M α} {f : α → M β} (hx : KeepsSender x) (hf : ∀ a, KeepsSender (f a)) :
    KeepsSender (x >>= f) :=
  Keeps.bind (R := World.SenderKept) (fun h h' => h.trans h') hx hf

theorem pure (a : α) : KeepsSender (Pure.pure a) := Keeps.pure World.SenderKept.refl a

theorem gets (f : World → α) : KeepsSender (Prog.gets f) := Keeps.gets World.SenderKept.refl f

theorem touch (p : Ptr) (n : Nat) : KeepsSender (TcpIp.touch p n) := fun _ => .of_mem rfl rfl

theorem loadU8 (p : Ptr) : KeepsSender (TcpIp.loadU8 p) := fun _ => .of_mem rfl rfl

theorem loadU16 (p : Ptr) : KeepsSender (TcpIp.loadU16 p) := fun _ => .of_mem rfl rfl

theorem loadU32 (p : Ptr) : KeepsSender (TcpIp.loadU32 p) := fun _ => .of_mem rfl rfl

theorem loadMac (p : Ptr) : KeepsSender (TcpIp.loadMac p) := fun _ => .of_mem rfl rfl

theorem cacheQuery (f : ArpCache → Option α) : KeepsSender (TcpIp.cacheQuery f) := by
  intro w
  unfold TcpIp.cacheQuery
  split
  · exact .of_mem rfl rfl
  · exact .of_mem rfl rfl

theorem cacheUpdate (f : ArpCache → Except Stop ArpCache) : KeepsSender (TcpIp.cacheUpdate f) := by
  intro w
  unfold TcpIp.cacheUpdate
  split
  · exact .of_mem rfl rfl
  · exact .of_mem rfl rfl

/-- One of the first four words of the message. -/
theorem swapField16 {n : Nat} (hn : n + 2 ≤ 8) :
    KeepsSender (TcpIp.swapField16 (rxBuffer + 14 + n)) := by
  intro w hr
  refine ⟨hr, rfl, fun i hi => ?_, Or.inl ?_⟩
  · exact write_head (fun _ => Nat.le_add_right 14 n) _ _ hi
  · simp only [swapField16_apply, senderAt]
    rw [write_u32_ne (by simp only [Ptr.apart_add_add, length_bytes16]; omega),
      write_mac_ne (by simp only [Ptr.apart_add_add, length_bytes16]; omega)]
    rfl

/-- `arp_header_hton` and `arp_header_ntoh`. -/
theorem arpHeaderNtoh : KeepsSender (TcpIp.arpHeaderNtoh (rxBuffer + 14)) :=
  (swapField16 (n := 6) (by decide)).bind fun _ => (swapField16 (n := 0) (by decide)).bind fun _ =>
    swapField16 (n := 2) (by decide)

/-- `arp_reply` puts us in the place of the sender. -/
theorem arpReply : KeepsSender (TcpIp.arpReply (rxBuffer + 14)) := by
  intro w hr
  simp only [TcpIp.arpReply, arpHeaderHton, bind_assoc, loadU32_bind, storeU32_bind, loadMac_bind,
    storeMac_bind, netInterfaceGetIp_bind, netInterfaceGetMac_bind, storeU16_bind,
    arpHeaderFprint_bind, swapField16_bind]
  generalize hW : World.touch _ (rxBuffer + 14 + 8 + 10) 6 = W
  have hnet : W.net = w.net := by subst hW; rfl
  obtain ⟨w', hsend, hserves, -, hmem⟩ := netInterfaceSend_spec (w := W) (by rwa [hnet])
    (rxBuffer + 14) (show sizeofArpMessage + 14 < 2 ^ 32 by decide)
    (W.mac (rxBuffer + 14 + 8 + 10)) ETH_P_ARP
  have hhead : ∀ i, i < 14 → W.mem .rx i = w.mem .rx i := by
    have hp : (rxBuffer + 14).InPayload := fun _ => Nat.le_refl 14
    intro i hi
    subst hW
    simp only [touch_mem, write_head hp _ _ hi, write_head (hp.add _) _ _ hi,
      write_head ((hp.add _).add _) _ _ hi]
  have hsender : W.senderAt (rxBuffer + 14) = w.net.host := by
    subst hW
    simp [senderAt, NetInterface.host]
  have hrun : TcpIp.netInterfaceSend (rxBuffer + 14) sizeofArpMessage
      (W.mac (rxBuffer + 14 + 8 + 10)) ETH_P_ARP W = (.ok (), w') := hsend
  subst hW
  simp only [touch_mac] at hrun
  rw [hrun]
  refine ⟨hserves.ready, ?_, fun i hi => by rw [hmem]; exact hhead i hi, Or.inr ?_⟩
  · simp only [NetInterface.host, hserves.ip, hserves.mac, hnet]
  · rw [← hsender]
    simp only [senderAt, World.u32, World.mac, World.u8, hmem]

/-- `arp_receive` keeps the sender or makes it us. -/
theorem arpReceive : KeepsSender (TcpIp.arpReceive rxBuffer) := by
  have hopcode : KeepsSender (arpReceiveOpcode (rxBuffer + 14)) :=
    (loadU16 _).bind fun _ => Keeps.ite arpReply (Keeps.ite (pure _) (touch _ _))
  have htarget : ∀ proType srcIp mergeFlag,
      KeepsSender (arpReceiveTarget (rxBuffer + 14) proType srcIp mergeFlag) := by
    intro proType srcIp mergeFlag
    refine (loadU32 _).bind fun _ => (gets _).bind fun _ => Keeps.ite ?_ (pure _)
    cases mergeFlag with
    | true => exact (pure _).bind fun _ => hopcode
    | false =>
      exact (touch _ _).bind fun _ => (loadMac _).bind fun _ => (cacheUpdate _).bind fun _ => hopcode
  have hipv4 : ∀ proType, KeepsSender (arpReceiveIpv4 (rxBuffer + 14) proType) := fun proType =>
    (loadU32 _).bind fun _ => (cacheQuery _).bind fun _ =>
      Keeps.ite ((loadMac _).bind fun _ => (cacheUpdate _).bind fun _ => htarget _ _ _)
        (htarget _ _ _)
  have hprotocol : KeepsSender (arpReceiveProtocol (rxBuffer + 14)) :=
    (loadU16 _).bind fun _ => (loadU8 _).bind fun _ => Keeps.ite (hipv4 _) (touch _ _)
  exact arpHeaderNtoh.bind fun _ => bind (touch _ _) fun _ => (loadU16 _).bind fun _ =>
    (loadU8 _).bind fun _ => Keeps.ite hprotocol (touch _ _)

end KeepsSender

/-! ## A round -/

/-- The sender of the ARP message in a buffer. -/
def bufferSender (m : Nat → UInt8) : ArpHost :=
  ⟨(ArpMessage.ofBytes m 14).srcIp, (ArpMessage.ofBytes m 14).srcMac⟩

/-- Only its ten bytes matter. -/
theorem bufferSender_congr {m m' : Nat → UInt8} (h : ∀ i, 22 ≤ i → i < 32 → m' i = m i) :
    bufferSender m' = bufferSender m := by
  have hmac : (Vector.ofFn fun i : Fin 6 => m' (14 + 8 + i)) =
      Vector.ofFn fun i : Fin 6 => m (14 + 8 + i) :=
    congrArg Vector.ofFn (funext fun i => h _ (by omega) (by have := i.isLt; omega))
  simp only [bufferSender, ArpMessage.ofBytes, hmac, h 28 (by decide) (by decide),
    h 29 (by decide) (by decide), h 30 (by decide) (by decide), h 31 (by decide) (by decide)]

theorem senderAt_rx (w : World) : w.senderAt (rxBuffer + 14) = bufferSender (w.mem .rx) := rfl

/-- The buffer after the read. -/
theorem deliver_rx (w : World) (buffer : Nat → UInt8) (input : ReadResult) :
    ((w.withRx buffer).deliver input).mem .rx = bufferAfter buffer input := by
  cases input with
  | none => simp [deliver, World.withRx, bufferAfter, bytesRead]
  | some frame => exact deliver_withRx_mem w buffer frame

/-- The type after `eth_header_ntoh`. -/
theorem ethNtoh_type (w : World) :
    w.ethNtoh.mem .rx 12 = w.mem .rx 13 ∧ w.ethNtoh.mem .rx 13 = w.mem .rx 12 := by
  have hbytes : w.ethNtoh.bytes (rxBuffer + 12) 2 = [w.mem .rx 13, w.mem .rx 12] := by
    rw [bytes_two, ethNtoh_etherType, ntohs, World.u16, swap16_le16, bytes16_le16]
    rfl
  have h := List.cons.inj hbytes
  exact ⟨h.1, (List.cons.inj h.2).1⟩

/-- **What a round leaves in the buffer**: the bytes of the type change places, and after anything
but an IPv4 packet the ARP sender is as before or is us. -/
theorem processIoBody_rx {host : ArpHost} {w : World} (hw : w.Up host) (buffer : Nat → UInt8)
    (input : ReadResult) {m m' : Nat → UInt8} (hm : bufferAfter buffer input = m)
    (hm' : (processIoBody input (w.withRx buffer)).2.mem .rx = m') :
    m' 12 = m 13 ∧ m' 13 = m 12 ∧
      (bufferType m ≠ ETH_P_IP → bufferSender m' = bufferSender m ∨ bufferSender m' = host) := by
  obtain ⟨hr, rfl, -⟩ := hw
  generalize hv : (w.withRx buffer).deliver input = v at *
  have hrx : v.mem .rx = m := by rw [← hv, deliver_rx, hm]
  have hnet : v.ethNtoh.net = w.net := by rw [← hv]; simp
  have hrv : v.ethNtoh.net.Ready := by rwa [hnet]
  obtain ⟨h12, h13⟩ := ethNtoh_type v
  rw [hrx] at h12 h13
  have hsame : bufferSender (v.ethNtoh.mem .rx) = bufferSender m := by
    rw [← hrx]
    exact bufferSender_congr fun i h1 _ => ethNtoh_mem v (Or.inr (by omega))
  have htype : v.ethNtoh.u16 (rxBuffer + 12) = bufferType m := by
    rw [ethNtoh_etherType, ← hrx]
    exact swap16_le16 _ _
  have hbody : (processIoBody input (w.withRx buffer)).2 = (handleFrame rxBuffer v.ethNtoh).2 := by
    rw [processIoBody_spec (w := w.withRx buffer) hr, hv]
    exact bind_snd (fun _ _ => rfl) _
  rw [hbody] at hm'
  by_cases harp : bufferType m = ETH_P_ARP
  · rw [handleFrame_arp (htype.trans harp), bind_snd fun _ _ => rfl] at hm'
    obtain ⟨-, -, hhead, hsender⟩ := KeepsSender.arpReceive (v.ethNtoh.touch (rxBuffer + 12) 2) hrv
    rw [senderAt_rx, senderAt_rx, hm', touch_mem, hsame, touch_net, hnet] at hsender
    rw [hm'] at hhead
    exact ⟨(hhead 12 (by decide)).trans h12, (hhead 13 (by decide)).trans h13, fun _ => hsender⟩
  · by_cases hip : bufferType m = ETH_P_IP
    · rw [handleFrame_ip (htype.trans hip), bind_snd fun _ _ => rfl] at hm'
      obtain ⟨-, hhead⟩ := KeepsHead.ipReceive (v.ethNtoh.touch (rxBuffer + 12) 2) hrv
      rw [hm'] at hhead
      exact ⟨(hhead 12 (by decide)).trans h12, (hhead 13 (by decide)).trans h13,
        fun h => absurd hip h⟩
    · rw [handleFrame_other (by rwa [htype]) (by rwa [htype])] at hm'
      subst hm'
      exact ⟨h12, h13, fun _ => Or.inl hsame⟩

end TcpIp
