import TcpIp.Reception

/-!
# Bounds of the receive buffer

`Within P x` says that the accesses of `x` satisfy `P`; it is shown for the code's parts with
`Prog.Keeps`, given that `P` covers the bytes of the structures they work on. Only two places take
their length from the wire: the checks of ICMP and TCP read the payload, and an echo reply is copied
out as long as its total length says.

`rxInBounds_iff` is the exact condition for a round to stay inside the buffer: where a payload is
read, the total length is from 20 to 86. Nothing in the code checks it.
-/

namespace TcpIp

open Bytes Prog World

/-! ## Accesses -/

/-- The accesses only grow, by accesses that satisfy `P`. -/
structure World.Touches (P : Ptr → Prop) (w w' : World) : Prop where
  grow : w.touched ⊆ w'.touched
  only : ∀ p ∈ w'.touched, p ∈ w.touched ∨ P p

/-- `P` holds of the `n` bytes from `p` on. -/
def Covers (P : Ptr → Prop) (p : Ptr) (n : Nat) : Prop := ∀ i, i < n → P (p + i)

section Touches

variable {P : Ptr → Prop} {w w' w'' : World} {p : Ptr} {n : Nat}

theorem Covers.sub (h : Covers P p n) {a k : Nat} (hk : a + k ≤ n) : Covers P (p + a) k := by
  intro i hi
  rw [Ptr.add_add]
  exact h (a + i) (by omega)

theorem Covers.take (h : Covers P p n) {k : Nat} (hk : k ≤ n) : Covers P p k :=
  fun i hi => h i (by omega)

theorem World.Touches.of_eq (h : w'.touched = w.touched) : w.Touches P w' :=
  ⟨by rw [h]; exact List.Subset.refl _, fun p hp => Or.inl (by rwa [h] at hp)⟩

theorem World.Touches.refl (w : World) : w.Touches P w := .of_eq rfl

theorem World.Touches.trans (h : w.Touches P w') (h' : w'.Touches P w'') : w.Touches P w'' := by
  refine ⟨List.Subset.trans h.grow h'.grow, fun p hp => ?_⟩
  rcases h'.only p hp with hp' | hp'
  · exact h.only p hp'
  · exact Or.inr hp'

theorem mem_touch {q : Ptr} : q ∈ (w.touch p n).touched ↔ q ∈ w.touched ∨ ∃ i < n, p + i = q := by
  simp [World.touch]

theorem World.Touches.touch (h : w.Touches P w') (hc : Covers P p n) :
    w.Touches P (w'.touch p n) := by
  refine ⟨fun q hq => mem_touch.mpr (Or.inl (h.grow hq)), fun q hq => ?_⟩
  rcases mem_touch.mp hq with hq | ⟨i, hi, rfl⟩
  · exact h.only q hq
  · exact Or.inr (hc i hi)

theorem World.Touches.write (h : w.Touches P w') (l : List UInt8) :
    w.Touches P (w'.write p l) :=
  h.trans (.of_eq rfl)

end Touches

/-! ## Rules -/

/-- The accesses of the code satisfy `P`. -/
abbrev Within (P : Ptr → Prop) {α : Type} (x : M α) : Prop := Keeps (World.Touches P) x

namespace Within

variable {α β : Type} {P : Ptr → Prop} {p : Ptr} {n : Nat}

theorem pure (a : α) : Within P (Pure.pure a : M α) := Keeps.pure World.Touches.refl a

theorem stop (e : Stop) : Within P (Prog.stop e : M α) := Keeps.stop World.Touches.refl e

theorem gets (f : World → α) : Within P (Prog.gets f) := Keeps.gets World.Touches.refl f

theorem bind {x : M α} {f : α → M β} (hx : Within P x) (hf : ∀ a, Within P (f a)) :
    Within P (x >>= f) :=
  Keeps.bind (R := World.Touches P) (fun h h' => h.trans h') hx hf

theorem touch (h : Covers P p n) : Within P (TcpIp.touch p n) := fun w => (World.Touches.refl w).touch h

theorem loadU8 (h : Covers P p 1) : Within P (TcpIp.loadU8 p) := fun w => (World.Touches.refl w).touch h

theorem loadU16 (h : Covers P p 2) : Within P (TcpIp.loadU16 p) := fun w => (World.Touches.refl w).touch h

theorem loadU32 (h : Covers P p 4) : Within P (TcpIp.loadU32 p) := fun w => (World.Touches.refl w).touch h

theorem loadMac (h : Covers P p 6) : Within P (TcpIp.loadMac p) := fun w => (World.Touches.refl w).touch h

theorem loadBytes (h : Covers P p n) : Within P (TcpIp.loadBytes p n) := fun w => (World.Touches.refl w).touch h

theorem storeBytes {l : List UInt8} (h : Covers P p l.length) : Within P (TcpIp.storeBytes p l) :=
  fun w => ((World.Touches.refl w).touch h).write l

theorem storeU8 {v : UInt8} (h : Covers P p 1) : Within P (TcpIp.storeU8 p v) := storeBytes h

theorem storeU16 {v : UInt16} (h : Covers P p 2) : Within P (TcpIp.storeU16 p v) := storeBytes h

theorem storeU32 {v : UInt32} (h : Covers P p 4) : Within P (TcpIp.storeU32 p v) := storeBytes h

theorem storeMac {m : Mac} (h : Covers P p 6) : Within P (TcpIp.storeMac p m) :=
  storeBytes (by rwa [m.length_toList])

/-- Code that does not touch memory. -/
theorem of_touched {x : M α} (h : ∀ w, (x w).2.touched = w.touched) : Within P x :=
  fun w => .of_eq (h w)

theorem cacheQuery (f : ArpCache → Option α) : Within P (TcpIp.cacheQuery f) := by
  refine of_touched fun w => ?_
  unfold TcpIp.cacheQuery
  split <;> rfl

theorem cacheUpdate (f : ArpCache → Except Stop ArpCache) : Within P (TcpIp.cacheUpdate f) := by
  refine of_touched fun w => ?_
  unfold TcpIp.cacheUpdate
  split <;> rfl

theorem netInterfaceSend (h : Covers P p n) (dstMac : Mac) (protocol : UInt16) :
    Within P (TcpIp.netInterfaceSend p n dstMac protocol) := by
  have hnet : ∀ f, Within P (modifyNet f) := fun f => of_touched fun _ => rfl
  have hemit : ∀ frame, Within P (emit frame) := fun frame => of_touched fun _ => rfl
  refine (gets _).bind fun net => ?_
  cases available net with
  | none => exact stop _
  | some fi =>
    exact (hnet _).bind fun _ => (loadBytes h).bind fun _ => (hnet _).bind fun _ =>
      (hnet _).bind fun _ => (hnet _).bind fun _ => (gets _).bind fun _ => (hemit _).bind fun _ =>
        hnet _

theorem swapField16 (h : Covers P p 2) : Within P (TcpIp.swapField16 p) :=
  (loadU16 h).bind fun _ => storeU16 h

theorem swapField32 (h : Covers P p 4) : Within P (TcpIp.swapField32 p) :=
  (loadU32 h).bind fun _ => storeU32 h

/-! ## ARP -/

theorem arpHeaderHton (h : Covers P p 8) : Within P (TcpIp.arpHeaderHton p) :=
  (swapField16 (h.sub (by omega))).bind fun _ => (swapField16 (h.take (by omega))).bind fun _ =>
    swapField16 (h.sub (by omega))

theorem arpReply (h : Covers P p 28) : Within P (TcpIp.arpReply p) := by
  have hc : Covers P (p + 8) 20 := h.sub (by omega)
  refine (loadU32 (hc.sub (by omega))).bind fun _ => (storeU32 (hc.sub (by omega))).bind fun _ => ?_
  refine (loadMac (hc.take (by omega))).bind fun _ => (storeMac (hc.sub (by omega))).bind fun _ => ?_
  refine (gets _).bind fun _ => (storeU32 (hc.sub (by omega))).bind fun _ => ?_
  refine (gets _).bind fun _ => (storeMac (hc.take (by omega))).bind fun _ => ?_
  refine (storeU16 (h.sub (by omega))).bind fun _ => (touch (h.take (by omega))).bind fun _ => ?_
  exact (arpHeaderHton (h.take (by omega))).bind fun _ => (loadMac (hc.sub (by omega))).bind fun _ =>
    netInterfaceSend h _ _

theorem arpReceiveTarget (h : Covers P p 28) (proType : UInt16) (srcIp : UInt32)
    (mergeFlag : Bool) : Within P (TcpIp.arpReceiveTarget p proType srcIp mergeFlag) := by
  have hc : Covers P (p + 8) 20 := h.sub (by omega)
  have hopcode : Within P (arpReceiveOpcode p) :=
    (loadU16 (h.sub (by omega))).bind fun _ => Keeps.ite (arpReply h)
      (Keeps.ite (pure ()) (touch (h.sub (by omega))))
  refine (loadU32 (hc.sub (by omega))).bind fun _ => (gets _).bind fun _ => Keeps.ite ?_ (pure ())
  apply Keeps.ite ((pure ()).bind fun _ => hopcode)
  exact (touch (hc.sub (by omega))).bind fun _ => (loadMac (hc.take (by omega))).bind fun _ =>
    (cacheUpdate _).bind fun _ => hopcode

theorem arpReceive (h : Covers P (p + 14) 28) : Within P (TcpIp.arpReceive p) := by
  have hc : Covers P (p + 14 + 8) 20 := h.sub (by omega)
  have hipv4 : ∀ t, Within P (arpReceiveIpv4 (p + 14) t) := by
    intro t
    refine (loadU32 (hc.sub (by omega))).bind fun _ => (cacheQuery _).bind fun _ => Keeps.ite ?_ ?_
    · exact (loadMac (hc.take (by omega))).bind fun _ => (cacheUpdate _).bind fun _ =>
        arpReceiveTarget h _ _ _
    · exact arpReceiveTarget h _ _ _
  have hprotocol : Within P (arpReceiveProtocol (p + 14)) :=
    (loadU16 (h.sub (by omega))).bind fun _ => (loadU8 (h.sub (by omega))).bind fun _ =>
      Keeps.ite (hipv4 _) (touch (h.take (by omega)))
  refine bind (arpHeaderHton (h.take (by omega))) fun _ => ?_
  refine (touch (h.take (by omega))).bind fun _ => (loadU16 (h.take (by omega))).bind fun _ => ?_
  exact (loadU8 (h.sub (by omega))).bind fun _ => Keeps.ite hprotocol (touch (h.take (by omega)))

theorem arpResolveIpv4 (h : Covers P ⟨.request, 0⟩ 28) (ip : UInt32) :
    Within P (TcpIp.arpResolveIpv4 ip) := by
  have hc : Covers P ((⟨.request, 0⟩ : Ptr) + 8) 20 := h.sub (by omega)
  have hrequest : Within P (arpRequest ip) := by
    refine (of_touched fun _ => rfl).bind fun _ => ?_
    refine (storeU16 (h.take (by omega))).bind fun _ => (storeU8 (h.sub (by omega))).bind fun _ => ?_
    refine (storeU16 (h.sub (by omega))).bind fun _ => (storeU8 (h.sub (by omega))).bind fun _ => ?_
    refine (storeU16 (h.sub (by omega))).bind fun _ => ?_
    refine (arpHeaderHton (h.take (by omega))).bind fun _ => ?_
    refine (storeU32 (hc.sub (by omega))).bind fun _ => (storeMac (hc.sub (by omega))).bind fun _ => ?_
    refine (gets _).bind fun _ => (storeU32 (hc.sub (by omega))).bind fun _ => ?_
    exact (gets _).bind fun _ => (storeMac (hc.take (by omega))).bind fun _ => netInterfaceSend h _ _
  exact (cacheQuery _).bind fun _ => Keeps.ite (cacheQuery _) (hrequest.bind fun _ => pure _)

/-! ## IPv4 -/

theorem ipHeaderNtoh (h : Covers P p 20) : Within P (TcpIp.ipHeaderNtoh p) :=
  (swapField32 (h.sub (by omega))).bind fun _ => (swapField32 (h.sub (by omega))).bind fun _ =>
    swapField16 (h.sub (by omega))

theorem tcpHeaderNtoh (h : Covers P p 24) : Within P (TcpIp.tcpHeaderNtoh p) := by
  have hswap : ∀ {q}, Covers P q 4 → Within P (swapField32As16 q) := fun hq =>
    (loadU32 hq).bind fun _ => storeU32 hq
  exact (hswap (h.sub (by omega))).bind fun _ => (hswap (h.sub (by omega))).bind fun _ =>
    (swapField16 (h.sub (by omega))).bind fun _ => swapField16 (h.take (by omega))

end Within

section Ip

variable {P : Ptr → Prop} {w : World} {q : Ptr} {len : Nat}

/-- `ip_send_packet` reads the header, and as many bytes as the total length says when the address
is cached. -/
theorem ipSendPacket_touches (hreq : Covers P ⟨.request, 0⟩ 28) (h : Covers P q 20)
    (hlen : Covers P q (w.u16 (q + 2)).toNat) : w.Touches P (ipSendPacket q w).2 := by
  unfold ipSendPacket
  rw [loadU32_bind, loadU16_bind]
  have hloads : w.Touches P ((w.touch (q + 16) 4).touch (q + 2) 2) :=
    ((World.Touches.refl w).touch (h.sub (by omega))).touch (h.sub (by omega))
  apply hloads.trans
  refine (Within.arpResolveIpv4 hreq _).bind (fun cell => ?_) _
  cases cell with
  | none => exact (Within.touch (h.sub (by omega))).bind fun _ => Within.stop _
  | some cell =>
    have hsum : Within P (ipHeaderUpdateChecksum q) :=
      (Within.storeU16 (h.sub (by omega))).bind fun _ => (Within.loadBytes h).bind fun _ =>
        Within.storeU16 (h.sub (by omega))
    exact (Within.ipHeaderNtoh h).bind fun _ => hsum.bind fun _ => (Within.gets _).bind fun mac =>
      Within.netInterfaceSend hlen _ _

theorem echoed_touches (h : Covers P q 24) (hlen : Covers P (q + 20) len) :
    w.Touches P (w.echoed q len) := by
  unfold World.echoed
  -- From the last access back to the first.
  refine .write (.touch ?_ (h.sub (by omega))) _
  refine .write (.touch (.touch ?_ (h.sub (by omega))) (h.sub (by omega))) _
  refine .write (.touch (.touch ?_ hlen) (h.sub (by omega))) _
  refine .write (.touch ?_ (h.sub (by omega))) _
  exact .write (.touch (.touch (.refl w) (h.sub (by omega))) (h.sub (by omega))) _

/-- `receive_echo_request` reads the message, and then sends it. -/
theorem receiveEchoRequest_touches (hreq : Covers P ⟨.request, 0⟩ 28) (h : Covers P q 24)
    (hlen : payloadLength32 (w.u16 (q + 2)) = len) (hicmp : Covers P (q + 20) len)
    (hsend : Covers P q (w.u16 (q + 2)).toNat) :
    w.Touches P (receiveEchoRequest q (q + 20) w).2 := by
  rw [receiveEchoRequest_eq hlen]
  refine (echoed_touches h hicmp).trans (ipSendPacket_touches hreq (h.take (by omega)) ?_)
  rwa [echoed_len]

/-- `icmp_receive` reads the payload first. -/
theorem icmpReceive_touches (hreq : Covers P ⟨.request, 0⟩ 28) (h : Covers P q 24)
    (hlen : payloadLength32 (w.u16 (q + 2)) = len) (hicmp : Covers P (q + 20) len)
    (hsend : Covers P q (w.u16 (q + 2)).toNat) :
    ((w.touch (q + 2) 2).touch (q + 20) len).Touches P (icmpReceive q w).2 := by
  simp only [icmpReceive, icmpCheck, bind_assoc, loadU16_bind, hlen, loadBytes_bind, pure_bind]
  split
  · rw [loadU8_bind]
    have htype := fun w : World => (World.Touches.refl w).touch (h.sub (show 20 + 1 ≤ 24 by omega))
    apply (htype _).trans
    split
    · exact receiveEchoRequest_touches hreq h hlen hicmp hsend
    · exact htype _
  · exact .refl _

/-- `tcp_receive` reads the payload first. -/
theorem tcpReceive_touches (hsum : Covers P ⟨.sum, 0⟩ 4) (h : Covers P q 44)
    (hlen : payloadLength32 (w.u16 (q + 2)) = len) :
    ((w.touch (q + 2) 2).touch (q + 20) len).Touches P (tcpReceive q w).2 := by
  have ht : Covers P (q + 20) 24 := h.sub (by omega)
  simp only [tcpReceive, tcpHeaderCheck, bind_assoc, loadU16_bind, hlen, loadBytes_bind,
    loadU32_bind, storeU32_bind, pure_bind]
  refine World.Touches.trans (.touch (.write (.touch (.touch (.touch (.refl _) (h.sub ?_))
    (h.sub ?_)) hsum) _) hsum) (Keeps.ite (R := World.Touches P) ?_ ?_ _)
  · omega
  · omega
  · exact (Within.tcpHeaderNtoh ht).bind fun _ => (Within.touch ht).bind fun _ =>
      (Within.loadU16 (ht.sub (by omega))).bind fun _ => Within.pure _
  · exact (Within.touch ht).bind fun _ => Within.pure _

theorem ipHanded_touches (h : Covers P q 20) : w.Touches P (w.ipHanded q) := by
  have hntoh := Within.ipHeaderNtoh h (w.touch q 20)
  rw [ipHeaderNtoh_apply] at hntoh
  exact (((World.Touches.refl w).touch h).trans hntoh).touch (h.sub (by omega))

/-- The packet has a good header and a protocol whose handler reads the payload. -/
def World.ReadsPayload (w : World) (q : Ptr) : Prop :=
  internetChecksum (w.bytes q 20) = 0 ∧
    (w.u8 (q + 9) = PROTOCOL_ICMP ∨ w.u8 (q + 9) = PROTOCOL_TCP)

variable {p : Ptr}

/-- The accesses of `ip_receive`, when those to the payload satisfy `P`. -/
theorem ipReceive_touches (hreq : Covers P ⟨.request, 0⟩ 28) (hsum : Covers P ⟨.sum, 0⟩ 4)
    (h : Covers P (p + 14) 44) (hlen : payloadLength32 (ntohs (w.u16 (p + 14 + 2))) = len)
    (hpayload : w.ReadsPayload (p + 14) →
      Covers P (p + 14 + 20) len ∧ Covers P (p + 14) (w.totalLength (p + 14))) :
    w.Touches P (ipReceive p w).2 := by
  by_cases hheader : internetChecksum (w.bytes (p + 14) 20) = 0
  · have hlen' : payloadLength32 ((w.ipHanded (p + 14)).u16 (p + 14 + 2)) = len :=
      (congrArg payloadLength32 (ipHanded_len w (p + 14))).trans hlen
    have htotal : ((w.ipHanded (p + 14)).u16 (p + 14 + 2)).toNat = w.totalLength (p + 14) :=
      congrArg UInt16.toNat (ipHanded_len w (p + 14))
    rw [ipReceive_good hheader]
    apply (ipHanded_touches (h.take (by omega))).trans
    have hload := fun w : World => (World.Touches.refl w).touch (h.sub (show 2 + 2 ≤ 44 by omega))
    split
    · rename_i htcp
      have hcov := (hpayload ⟨hheader, Or.inr htcp⟩).1
      rw [bind_snd fun _ _ => rfl]
      exact ((hload _).touch hcov).trans (tcpReceive_touches hsum h hlen')
    · split
      · exact (World.Touches.refl _).touch (h.sub (by omega))
      · split
        · rename_i hicmp
          obtain ⟨hcov, hsend⟩ := hpayload ⟨hheader, Or.inl hicmp⟩
          exact ((hload _).touch hcov).trans (icmpReceive_touches hreq (h.take (by omega)) hlen' hcov
            (by rwa [htotal]))
        · exact (World.Touches.refl _).touch (h.sub (by omega))
  · simp only [ipReceive, ipHeaderCheck, bind_assoc, loadBytes_bind, pure_bind, sizeofIpHeader]
    rw [if_neg (fun hb => hheader (beq_iff_eq.mp hb)), touch_bind]
    have h20 : Covers P (p + 14) 20 := h.take (by omega)
    exact (((World.Touches.refl w).touch h20).touch (h.sub (by omega))).touch h20

/-- `ip_receive` reads every byte of the payload that it reads at all. -/
theorem ipReceive_reaches (hlen : payloadLength32 (ntohs (w.u16 (p + 14 + 2))) = len)
    (hread : w.ReadsPayload (p + 14)) {i : Nat} (hi : i < len) :
    p + 14 + 20 + i ∈ (ipReceive p w).2.touched := by
  obtain ⟨hheader, hprotocol⟩ := hread
  have hall : ∀ q n, Covers (fun _ => True) q n := fun _ _ _ _ => trivial
  have hlen' : payloadLength32 ((w.ipHanded (p + 14)).u16 (p + 14 + 2)) = len :=
    (congrArg payloadLength32 (ipHanded_len w (p + 14))).trans hlen
  rw [ipReceive_good hheader]
  rcases hprotocol with hp | hp
  · rw [if_neg (by rw [hp]; decide), if_neg (by rw [hp]; decide), if_pos hp]
    exact (icmpReceive_touches (hall _ _) (hall _ _) hlen' (hall _ _) (hall _ _)).grow
      (mem_touch.mpr (Or.inr ⟨i, hi, rfl⟩))
  · rw [if_pos hp, bind_snd fun _ _ => rfl]
    exact (tcpReceive_touches (hall _ _) (hall _ _) hlen').grow
      (mem_touch.mpr (Or.inr ⟨i, hi, rfl⟩))

end Ip

/-! ## Rounds -/

/-- An access to the receive buffer is inside it. -/
def InRx (p : Ptr) : Prop := p.obj = .rx → p.off < BUFLEN

theorem covers_rx {a k : Nat} (h : a + k ≤ BUFLEN) : Covers InRx (rxBuffer + a) k := by
  intro i hi _
  show 0 + a + i < BUFLEN
  omega

theorem covers_other {p : Ptr} (h : p.obj ≠ .rx) (n : Nat) : Covers InRx p n :=
  fun _ _ hobj => absurd hobj h

/-- The world with no access recorded yet. -/
def World.untouched (w : World) : World := { w with touched := [] }

/-- The bytes that a round of `process_io` reads and writes after the read from the device. -/
def roundAccesses (w : World) (buffer : Nat → UInt8) (frame : Frame) : List Ptr :=
  (processIoBody (some frame) (w.untouched.withRx buffer)).2.touched

/-- The buffer holds an IPv4 packet whose payload is read: the header is good, and the protocol is
ICMP or TCP. -/
def bufferReadsPayload (m : Nat → UInt8) : Prop :=
  bufferType m = ETH_P_IP ∧ internetChecksum (readN m 14 20) = 0 ∧
    (m 23 = PROTOCOL_ICMP ∨ m 23 = PROTOCOL_TCP)

instance (m : Nat → UInt8) : Decidable (bufferReadsPayload m) :=
  inferInstanceAs (Decidable (_ ∧ _ ∧ _))

/-- The bytes of the payload that the handlers read lie in the buffer exactly for these lengths. A
shorter length wraps around. -/
theorem payloadLength32_le_iff (len : UInt16) :
    payloadLength32 len ≤ 66 ↔ 20 ≤ len.toNat ∧ len.toNat ≤ 86 := by
  have := len.toNat_lt
  simp only [payloadLength32, ipHeaderGetPayloadLength, sizeofIpHeader]
  omega

/-- The world in which the handler of a received frame runs. -/
def World.handed (w : World) (buffer : Nat → UInt8) (frame : Frame) : World :=
  ((w.untouched.withRx buffer).deliver (some frame)).ethNtoh

section Round

variable {w : World} (buffer : Nat → UInt8) (frame : Frame)

/-- What the handler finds past the type is what the read left. -/
theorem handed_mem {i : Nat} (h : 14 ≤ i) :
    (w.handed buffer frame).mem .rx i = seenBuffer buffer frame i := by
  unfold handed
  rw [ethNtoh_mem _ (Or.inr h), deliver_withRx_mem]

theorem handed_type :
    (w.handed buffer frame).u16 (rxBuffer + 12) = bufferType (seenBuffer buffer frame) := by
  have hmem := deliver_withRx_mem w.untouched buffer frame
  unfold handed
  rw [ethNtoh_etherType, bufferType, ← hmem]
  exact swap16_le16 _ _

theorem handed_accesses : ∀ p ∈ (w.handed buffer frame).touched, InRx p := by
  have hcov : Covers InRx (rxBuffer + 12) 2 := covers_rx (by decide)
  have hread : w.untouched.Touches InRx ((w.untouched.withRx buffer).deliver (some frame)) :=
    .of_eq rfl
  have h : w.untouched.Touches InRx (w.handed buffer frame) :=
    ((hread.touch hcov).touch hcov).write _
  intro p hp
  rcases h.only p hp with hp | hp
  · cases hp
  · exact hp

theorem roundAccesses_eq (hr : w.net.Ready) : roundAccesses w buffer frame =
    (handleFrame rxBuffer (w.handed buffer frame)).2.touched := by
  unfold roundAccesses
  rw [processIoBody_spec (by exact hr), bind_snd fun _ _ => rfl]
  rfl

/-- The handler selected by the type reads the payload when the packet in the buffer says so. -/
theorem handed_readsPayload (k : Nat) :
    ((w.handed buffer frame).touch (rxBuffer + 12) k).ReadsPayload (rxBuffer + 14) ↔
      internetChecksum (readN (seenBuffer buffer frame) 14 20) = 0 ∧
        (seenBuffer buffer frame 23 = PROTOCOL_ICMP ∨ seenBuffer buffer frame 23 = PROTOCOL_TCP) := by
  have hbytes : (w.handed buffer frame).bytes (rxBuffer + 14) 20 =
      readN (seenBuffer buffer frame) 14 20 :=
    readN_congr fun i h1 _ => handed_mem buffer frame h1
  have h23 : (w.handed buffer frame).u8 (rxBuffer + 14 + 9) = seenBuffer buffer frame 23 :=
    handed_mem buffer frame (i := 23) (by decide)
  unfold ReadsPayload
  rw [touch_bytes, touch_u8, hbytes, h23]

theorem handed_length : ntohs ((w.handed buffer frame).u16 (rxBuffer + 14 + 2)) =
    le16 (seenBuffer buffer frame 17) (seenBuffer buffer frame 16) := by
  have h16 : (w.handed buffer frame).u8 (rxBuffer + 14 + 2) = seenBuffer buffer frame 16 :=
    handed_mem buffer frame (i := 16) (by decide)
  have h17 : (w.handed buffer frame).u8 (rxBuffer + 14 + 2 + 1) = seenBuffer buffer frame 17 :=
    handed_mem buffer frame (i := 17) (by decide)
  unfold u16
  rw [h16, h17]
  exact swap16_le16 _ _

/-- The accesses of a round stay inside the buffer when the payload that is read does. -/
theorem roundAccesses_inRx (hr : w.net.Ready)
    (h : bufferReadsPayload (seenBuffer buffer frame) → 20 ≤ bufferLength (seenBuffer buffer frame) ∧
      bufferLength (seenBuffer buffer frame) ≤ 86) :
    ∀ p ∈ roundAccesses w buffer frame, InRx p := by
  rw [roundAccesses_eq buffer frame hr]
  generalize hv : w.handed buffer frame = v
  have htype := handed_type (w := w) buffer frame
  rw [hv] at htype
  have htouch : v.Touches InRx (v.touch (rxBuffer + 12) 2) :=
    .touch (.refl v) (covers_rx (by decide))
  suffices hall : v.Touches InRx (handleFrame rxBuffer v).2 by
    intro p hp
    rcases hall.only p hp with hp | hp
    · rw [← hv] at hp
      exact handed_accesses buffer frame p hp
    · exact hp
  by_cases harp : v.u16 (rxBuffer + 12) = ETH_P_ARP
  · rw [handleFrame_arp harp, bind_snd fun _ _ => rfl]
    exact htouch.trans (Within.arpReceive (covers_rx (by decide)) _)
  by_cases hip : v.u16 (rxBuffer + 12) = ETH_P_IP
  · rw [handleFrame_ip hip, bind_snd fun _ _ => rfl]
    refine htouch.trans (ipReceive_touches (covers_other (by decide) _) (covers_other (by decide) _)
      (covers_rx (by decide)) rfl fun hread => ?_)
    subst hv
    obtain ⟨h20, h86⟩ := h ⟨htype.symm.trans hip, (handed_readsPayload buffer frame 2).mp hread⟩
    have hlen := handed_length (w := w) buffer frame
    rw [touch_u16, totalLength, touch_u16, hlen]
    have h66 := (payloadLength32_le_iff _).mpr ⟨h20, h86⟩
    refine ⟨?_, covers_rx ?_⟩
    · rw [Ptr.add_add]
      exact covers_rx (Nat.add_le_add_left h66 34)
    · exact Nat.add_le_add_left h86 14
  · rw [handleFrame_other harp hip]
    exact htouch

/-- A payload that does not lie in the buffer takes the round past its end. -/
theorem roundAccesses_past (hr : w.net.Ready)
    (hread : bufferReadsPayload (seenBuffer buffer frame))
    (h : ¬ (20 ≤ bufferLength (seenBuffer buffer frame) ∧
      bufferLength (seenBuffer buffer frame) ≤ 86)) :
    rxBuffer + BUFLEN ∈ roundAccesses w buffer frame := by
  obtain ⟨hip, hread⟩ := hread
  rw [roundAccesses_eq buffer frame hr, handleFrame_ip ((handed_type buffer frame).trans hip),
    bind_snd fun _ _ => rfl]
  have hlen : 66 < payloadLength32 (le16 (seenBuffer buffer frame 17) (seenBuffer buffer frame 16)) :=
    not_le.mp fun hle => h ((payloadLength32_le_iff _).mp hle)
  rw [← handed_length (w := w) buffer frame] at hlen
  exact ipReceive_reaches rfl ((handed_readsPayload buffer frame 2).mpr hread) hlen

end Round

/-- **When received lengths stay in bounds.** In every reachable state, for every frame and whatever
the buffer held before: the accesses of the handlers to the buffer are below `BUFLEN` and the
payload length does not wrap, if and only if the total length of a packet whose payload is read is
from 20 to 86. -/
theorem rxInBounds_iff {host : ArpHost} {w : World} (hw : w.Reachable host) (buffer : Nat → UInt8)
    (frame : Frame) :
    ((∀ p ∈ roundAccesses w buffer frame, p.obj = .rx → p.off < BUFLEN) ∧
      (bufferReadsPayload (seenBuffer buffer frame) →
        (ipHeaderGetPayloadLength (le16 (seenBuffer buffer frame 17) (seenBuffer buffer frame 16)) :
          Int) = bufferLength (seenBuffer buffer frame) - 20)) ↔
      (bufferReadsPayload (seenBuffer buffer frame) →
        20 ≤ bufferLength (seenBuffer buffer frame) ∧
          bufferLength (seenBuffer buffer frame) ≤ 86) := by
  have hr := hw.up.ready
  constructor
  · rintro ⟨hacc, -⟩ hread
    by_contra hlen
    have hpast := hacc _ (roundAccesses_past buffer frame hr hread hlen) rfl
    exact absurd hpast (by decide)
  · intro h
    refine ⟨roundAccesses_inRx buffer frame hr h, fun hread => ?_⟩
    obtain ⟨h20, -⟩ := h hread
    simp only [bufferLength] at h20 ⊢
    have hlt := (le16 (seenBuffer buffer frame 17) (seenBuffer buffer frame 16)).toNat_lt
    simp only [ipHeaderGetPayloadLength, sizeofIpHeader]
    omega

/-- A round with `sampleEcho`, whose total length is 29, stays inside the buffer. -/
theorem rxInBounds_iff_sample :
    ∃ (host : ArpHost) (w : World), w.Reachable host ∧
      ∀ p ∈ roundAccesses w (fun _ => 0) sampleEcho, p.obj = .rx → p.off < BUFLEN := by
  obtain ⟨cache, hinit, -⟩ := arpInit_spec
  have hw : World.Reachable ⟨0x0100000a, #v[2, 0, 0, 0, 0, 1]⟩ _ := .boot (fun _ _ => 0) hinit
  exact ⟨_, _, hw, ((rxInBounds_iff hw (fun _ => 0) sampleEcho).mpr fun _ => by decide).1⟩

/-- An echo request of total length 87, as the read of 100 bytes leaves it. -/
def oversizedEcho : Frame :=
  [2, 0, 0, 0, 0, 1, 2, 0, 0, 0, 0, 2, 0x08, 0x00,
   0x45, 0, 0, 87, 0, 1, 0, 0, 64, 1, 0x66, 0xa3, 10, 0, 0, 2, 10, 0, 0, 1,
   8, 0, 0xf7, 0xfd, 0, 1, 0, 1] ++ List.replicate 58 0

/-- `oversizedEcho` takes the handlers one byte past the end of the buffer. -/
theorem oversizedEcho_outOfBounds :
    oversizedEcho.length ≤ BUFLEN ∧ ∃ (host : ArpHost) (w : World), w.Reachable host ∧
      ¬ ∀ p ∈ roundAccesses w (fun _ => 0) oversizedEcho, p.obj = .rx → p.off < BUFLEN := by
  obtain ⟨cache, hinit, -⟩ := arpInit_spec
  have hw : World.Reachable ⟨0x0100000a, #v[2, 0, 0, 0, 0, 1]⟩ _ := .boot (fun _ _ => 0) hinit
  refine ⟨by decide, _, _, hw, fun hacc => ?_⟩
  have hread : bufferReadsPayload (seenBuffer (fun _ => 0) oversizedEcho) := by decide +kernel
  have hpast := hacc _ (roundAccesses_past _ _ hw.up.ready hread (by decide)) rfl
  exact absurd hpast (by decide)

end TcpIp
