import TcpIp.Bounds
import TcpIp.Lib.Reactive
import TcpIp.Ping
import TcpIp.StackNetwork
import TcpIp.Storm

/-!
# The stack as a table that answers

Seen from outside, a host is its ARP table and the frames it sends: `ArpHost.answer` has neither a
memory nor a hash map nor transmit buffers. What it answers to is the receive buffer after a read:
the bytes of the frame, and behind them what the round before has left.

* `HostCall`: a round of `process_io`, with the leftover in the buffer and the result of the read, and
  the calls of `arp_resolve_ipv4` and `ip_send`. A call carries its bound: no total length leads a
  check past the end of the buffer (`ChecksFit`), and a payload fits a datagram. Beyond these bounds
  the accesses of the code are outside its buffers, and nothing is said.
* `HostCall.refines`: a call of the code gives the answer of the table.
* `stack_refines_host`: so do runs of calls, the last of which may end the process.
* `FormedFrame`, `stack_frames_formed`: what the stack sends is well formed, whatever it receives.
-/

namespace TcpIp

open Bytes Prog World Reactive

/-! ## The receive buffer -/

/-- The memory from the address of a receive buffer on. -/
def bufferMemory (buffer : Vector UInt8 BUFLEN) (beyond : Nat → UInt8) : Nat → UInt8 :=
  fun i => if h : i < BUFLEN then buffer[i] else beyond i

/-- The bytes of the buffer alone. -/
abbrev bufferBytes (buffer : Vector UInt8 BUFLEN) : Nat → UInt8 := bufferMemory buffer fun _ => 0

/-- The buffer after a read, also a failed one. -/
def bufferRead (buffer : Vector UInt8 BUFLEN) (input : ReadResult) : Vector UInt8 BUFLEN :=
  Vector.ofFn fun i => (bytesRead input).getD i buffer[i]

/-- Where the payload of a packet is read, its total length leaves it in the buffer
(`rxInBounds_iff`). -/
def ChecksFit (buffer : Vector UInt8 BUFLEN) : Prop :=
  bufferReadsPayload (bufferBytes buffer) →
    20 ≤ bufferLength (bufferBytes buffer) ∧ bufferLength (bufferBytes buffer) ≤ 86

instance (buffer : Vector UInt8 BUFLEN) : Decidable (ChecksFit buffer) :=
  inferInstanceAs (Decidable (_ → _))

/-- The echo request of total length 29 fits, that of total length 87 does not. -/
example : ChecksFit (bufferRead (.replicate BUFLEN 0) (some sampleEcho)) ∧
    ¬ ChecksFit (bufferRead (.replicate BUFLEN 0) (some oversizedEcho)) := by decide +kernel

theorem length_bytesRead (input : ReadResult) : (bytesRead input).length ≤ BUFLEN := by
  cases input with
  | none => exact Nat.zero_le _
  | some frame => exact List.length_take_le _ _

/-- A read stays in the buffer. -/
theorem bufferAfter_memory (buffer : Vector UInt8 BUFLEN) (beyond : Nat → UInt8)
    (input : ReadResult) :
    bufferAfter (bufferMemory buffer beyond) input =
      bufferMemory (bufferRead buffer input) beyond := by
  funext i
  have hlen := length_bytesRead input
  unfold bufferAfter writeL bufferMemory bufferRead
  rw [if_pos (Nat.zero_le _), Nat.sub_zero]
  by_cases hi : i < BUFLEN
  · rw [dif_pos hi, dif_pos hi, Vector.getElem_ofFn]
    rfl
  · rw [dif_neg hi, dif_neg hi, List.getD_eq_default _ _ (by omega)]

/-! ## Calls -/

/-- What happens to a host. -/
inductive HostCall where
  /-- A round of `process_io` on a buffer, with some memory behind it. -/
  | round (buffer : Vector UInt8 BUFLEN) (beyond : Nat → UInt8) (input : ReadResult)
    (fits : ChecksFit (bufferRead buffer input))
  /-- A call of `arp_resolve_ipv4`. -/
  | resolve (ip : UInt32)
  /-- A call of `ip_send` with a payload that fits a datagram. -/
  | send (dst : UInt32) (payload : List UInt8) (protocol : UInt32) (fits : payload.length ≤ 65515)

def HostCall.run : HostCall → M Unit
  | round buffer beyond input _ => do
    Prog.modify (·.withRx (bufferMemory buffer beyond))
    processIoBody input
  | resolve ip => do
    let _ ← arpResolveIpv4 ip
    pure ()
  | send dst payload protocol _ => ipSend dst payload protocol

/-- Calls one after another. -/
def hostCalls (calls : List HostCall) : M Unit := calls.forM HostCall.run

/-! ## The abstract host -/

namespace ArpHost

/-- The answer to what is in memory. The process ends when a peer that is not in the table sends an
echo request. -/
def hearMemory (host : ArpHost) (table : ArpTable) (m : Nat → UInt8) : Answer ArpTable Frame :=
  if bufferType m = ETH_P_ARP then
    ⟨host.replies (.ofBytes m 14), host.merge (.ofBytes m 14) table, true⟩
  else if bufferType m = ETH_P_IP ∧ BufferEcho m then
    match table.lookup (bufferSrc m) with
    | some mac => ⟨[ethFrame mac host.mac ETH_P_IP (bufferReply host.ip m)], table, true⟩
    | none => ⟨[host.request (bufferSrc m)], table, false⟩
  else ⟨[], table, true⟩

/-- The answer to what is in the buffer. -/
def hearBuffer (host : ArpHost) (table : ArpTable) (buffer : Vector UInt8 BUFLEN) :
    Answer ArpTable Frame :=
  host.hearMemory table (bufferBytes buffer)

/-- The answer to a call of `ip_send`. -/
def sendTo (host : ArpHost) (table : ArpTable) (dst : UInt32) (payload : List UInt8)
    (protocol : UInt32) : Answer ArpTable Frame :=
  match table.lookup (htonl dst) with
  | some mac => ⟨[ethFrame mac host.mac ETH_P_IP (sentPacket host.ip dst payload protocol)], table,
      true⟩
  | none => ⟨[host.request (htonl dst)], table, false⟩

def answer (host : ArpHost) (table : ArpTable) : HostCall → Answer ArpTable Frame
  | .round buffer _ input _ => host.hearBuffer table (bufferRead buffer input)
  | .resolve ip => ⟨host.asks ip table, table, true⟩
  | .send dst payload protocol _ => host.sendTo table dst payload protocol

end ArpHost

/-! ## Inside the buffer -/

section Inside

variable {buffer : Vector UInt8 BUFLEN} (beyond : Nat → UInt8)

theorem bufferMemory_of_lt {i : Nat} (hi : i < BUFLEN) :
    bufferMemory buffer beyond i = bufferBytes buffer i := by
  unfold bufferBytes bufferMemory
  rw [dif_pos hi, dif_pos hi]

theorem readN_bufferMemory {p n : Nat} (h : p + n ≤ BUFLEN) :
    readN (bufferMemory buffer beyond) p n = readN (bufferBytes buffer) p n :=
  readN_congr fun _ _ hi => bufferMemory_of_lt beyond (Nat.lt_of_lt_of_le hi h)

/-- The fields of a frame are in the buffer. -/
theorem bufferFields_memory :
    bufferType (bufferMemory buffer beyond) = bufferType (bufferBytes buffer) ∧
      bufferLength (bufferMemory buffer beyond) = bufferLength (bufferBytes buffer) ∧
      bufferSrc (bufferMemory buffer beyond) = bufferSrc (bufferBytes buffer) ∧
      ArpMessage.ofBytes (bufferMemory buffer beyond) 14 = .ofBytes (bufferBytes buffer) 14 := by
  have h : ∀ i, i < 42 → bufferMemory buffer beyond i = bufferBytes buffer i := fun i hi =>
    bufferMemory_of_lt beyond (Nat.lt_trans hi (by decide))
  refine ⟨?_, ?_, ?_, ?_⟩
  · simp only [bufferType, h 12 (by decide), h 13 (by decide)]
  · simp only [bufferLength, h 16 (by decide), h 17 (by decide)]
  · simp only [bufferSrc, h 26 (by decide), h 27 (by decide), h 28 (by decide), h 29 (by decide)]
  · have hbyte : ∀ i, i < 28 → bufferMemory buffer beyond (14 + i) = bufferBytes buffer (14 + i) :=
      fun i hi => h _ (by omega)
    simp only [ArpMessage.ofBytes, ArpMessage.mk.injEq]
    refine ⟨?_, ?_, hbyte 4 (by decide), hbyte 5 (by decide), ?_, ?_, ?_, ?_, ?_⟩
    · rw [hbyte 1 (by decide), h 14 (by decide)]
    · rw [hbyte 3 (by decide), hbyte 2 (by decide)]
    · rw [hbyte 7 (by decide), hbyte 6 (by decide)]
    · congr 1
      funext i
      exact h _ (by omega)
    · rw [hbyte 14 (by decide), hbyte 15 (by decide), hbyte 16 (by decide), hbyte 17 (by decide)]
    · congr 1
      funext i
      exact h _ (by omega)
    · rw [hbyte 24 (by decide), hbyte 25 (by decide), hbyte 26 (by decide), hbyte 27 (by decide)]

/-- The test of an echo request reads the buffer alone. -/
theorem bufferEcho_memory (hfits : ChecksFit buffer)
    (htype : bufferType (bufferBytes buffer) = ETH_P_IP) :
    BufferEcho (bufferMemory buffer beyond) ↔ BufferEcho (bufferBytes buffer) := by
  have hheader : readN (bufferMemory buffer beyond) 14 20 = readN (bufferBytes buffer) 14 20 :=
    readN_bufferMemory beyond (by decide)
  have hbyte : ∀ i, i < 42 → bufferMemory buffer beyond i = bufferBytes buffer i := fun i hi =>
    bufferMemory_of_lt beyond (Nat.lt_trans hi (by decide))
  have hicmp (hread : bufferReadsPayload (bufferBytes buffer)) :
      readN (bufferMemory buffer beyond) 34 (payloadLength32
          (le16 (bufferMemory buffer beyond 17) (bufferMemory buffer beyond 16))) =
        readN (bufferBytes buffer) 34 (payloadLength32
          (le16 (bufferBytes buffer 17) (bufferBytes buffer 16))) := by
    rw [hbyte 17 (by decide), hbyte 16 (by decide)]
    exact readN_bufferMemory beyond
      (Nat.add_le_add_left ((payloadLength32_le_iff _).mpr (hfits hread)) 34)
  constructor
  · rintro ⟨h1, h2, h3, h4⟩
    rw [hheader] at h1
    rw [hbyte 23 (by decide)] at h2
    rw [hicmp ⟨htype, h1, Or.inl h2⟩] at h3
    rw [hbyte 34 (by decide)] at h4
    exact ⟨h1, h2, h3, h4⟩
  · rintro ⟨h1, h2, h3, h4⟩
    refine ⟨by rw [hheader, h1], by rw [hbyte 23 (by decide), h2], ?_, by
      rw [hbyte 34 (by decide), h4]⟩
    rw [hicmp ⟨htype, h1, Or.inl h2⟩, h3]

/-- An echo request in the buffer holds its total length. -/
theorem ChecksFit.echo (hfits : ChecksFit buffer)
    (htype : bufferType (bufferBytes buffer) = ETH_P_IP) (hecho : BufferEcho (bufferBytes buffer)) :
    20 ≤ bufferLength (bufferBytes buffer) ∧ bufferLength (bufferBytes buffer) ≤ 86 :=
  hfits ⟨htype, hecho.header, Or.inl hecho.protocol⟩

/-- The answer does not depend on the memory behind the buffer. -/
theorem hearMemory_eq (host : ArpHost) (table : ArpTable) (hfits : ChecksFit buffer) :
    host.hearMemory table (bufferMemory buffer beyond) = host.hearBuffer table buffer := by
  obtain ⟨htype, hlength, hsrc, hmsg⟩ := @bufferFields_memory buffer beyond
  unfold ArpHost.hearBuffer ArpHost.hearMemory
  rw [htype, hsrc, hmsg]
  by_cases harp : bufferType (bufferBytes buffer) = ETH_P_ARP
  · rw [if_pos harp, if_pos harp]
  · rw [if_neg harp, if_neg harp]
    by_cases hip : bufferType (bufferBytes buffer) = ETH_P_IP
    · have hiff := bufferEcho_memory beyond hfits hip
      by_cases hecho : BufferEcho (bufferBytes buffer)
      · obtain ⟨h20, h86⟩ := hfits.echo hip hecho
        have hreply : bufferReply host.ip (bufferMemory buffer beyond) =
            bufferReply host.ip (bufferBytes buffer) := by
          unfold bufferReply bufferPacket
          rw [hlength, if_pos h20, if_pos h20, readN_bufferMemory beyond (Nat.add_le_add_left h86 14)]
        rw [if_pos ⟨hip, hiff.mpr hecho⟩, if_pos ⟨hip, hecho⟩, hreply]
      · rw [if_neg fun h => hecho (hiff.mp h.2), if_neg fun h => hecho h.2]
    · rw [if_neg fun h => hip h.1, if_neg fun h => hip h.1]

end Inside

/-! ## One call -/

section Calls

variable {host : ArpHost} {table : ArpTable} {w : World} {m : Nat → UInt8}

/-- The call gives the answer. The only way to end is the `exit(1)` of `ip_send_packet`. -/
abbrev HostCall.Answers (host : ArpHost) (x : M Unit) (w : World) (a : Answer ArpTable Frame) :
    Prop :=
  Gives World.wire (fun w table => w.Tracks host table) (.exit 1) x w a

/-- Whether a packet ends the process. -/
theorem ipReceive_outcome (hr : w.net.Ready) (hv : w.cache.Valid)
    (hm : ∀ i, 14 ≤ i → w.mem .rx i = m i) :
    (ipReceive rxBuffer w).1 =
      if BufferEcho m ∧ w.cache.lookup (bufferSrc m) = none then .error (.exit 1) else .ok () := by
  obtain ⟨htotal, -, hsrc, htest⟩ := rx_fields hm
  by_cases hecho : BufferEcho m
  · cases hlook : w.cache.lookup (bufferSrc m) with
    | none =>
      obtain ⟨w', hrun, -⟩ := ipReceive_unknown hr hv (htest.mpr hecho) (by rw [hsrc]; exact hlook)
      rw [hrun, if_pos ⟨hecho, rfl⟩]
    | some mac =>
      rw [if_neg fun h => nomatch h.2]
      by_cases hL : 20 ≤ bufferLength m
      · have hL' : 20 ≤ w.totalLength (rxBuffer + 14) := by rwa [htotal]
        obtain ⟨w', hrun, -⟩ := ipReceive_hit hr hv hL' ((echoTest_iff hL').mp (htest.mpr hecho))
          (by rw [packetSrc_packet hL', hsrc]; exact hlook)
        rw [hrun]
      · obtain ⟨w', hrun, -⟩ := ipReceive_short hr hv (by rw [htotal]; omega) (htest.mpr hecho)
          (by rw [hsrc]; exact hlook)
        rw [hrun]
  · obtain ⟨w', hrun, -⟩ := ipReceive_ignored (p := rxBuffer) fun h => hecho (htest.mp h)
    rw [hrun, if_neg fun h => hecho h.1]

/-- Whether a round ends the process. -/
theorem processIoBody_outcome (hw : w.Up host) (buffer : Nat → UInt8) (input : ReadResult)
    (hb : bufferAfter buffer input = m) :
    (processIoBody input (w.withRx buffer)).1 =
      if (bufferType m = ETH_P_IP ∧ BufferEcho m) ∧ w.cache.lookup (bufferSrc m) = none then
        .error (.exit 1)
      else .ok () := by
  obtain ⟨hr, rfl, hv⟩ := hw
  have hmem : ((w.withRx buffer).deliver input).mem .rx = m := by
    subst hb
    cases input with
    | none => simp [deliver, World.withRx, bufferAfter, bytesRead]
    | some frame => exact deliver_withRx_mem w buffer frame
  have htype : ntohs (((w.withRx buffer).deliver input).u16 (rxBuffer + 12)) = bufferType m := by
    rw [← hmem]
    exact swap16_le16 _ _
  by_cases hip : bufferType m = ETH_P_IP
  · rw [processIoBody_ip (w := w.withRx buffer) hr (htype.trans hip)]
    have hout := ipReceive_outcome (m := m)
      (w := ((w.withRx buffer).deliver input).ethNtoh.touch (rxBuffer + 12) 2)
      (by simpa using hr) (by simpa using hv)
      (fun i hi => by rw [touch_mem, ethNtoh_mem _ (Or.inr hi), hmem])
    generalize hw₁ : ((w.withRx buffer).deliver input).ethNtoh.touch (rxBuffer + 12) 2 = w₁
      at hout ⊢
    have hcache : w₁.cache = w.cache := by
      subst hw₁
      simp
    rw [hcache] at hout
    simp only [hip, true_and]
    rcases hrun : ipReceive rxBuffer w₁ with ⟨r | r, w'⟩
    · rw [hrun] at hout
      rw [bind_error hrun, ← hout]
    · rw [hrun] at hout
      rw [bind_ok hrun, ← hout]
      rfl
  · rw [if_neg fun h => hip h.1.1]
    by_cases harp : bufferType m = ETH_P_ARP
    · obtain ⟨cache', hm, -, -⟩ := hv.exists_merge w.net.ip
        (((w.withRx buffer).deliver input).arpMessage (rxBuffer + 14))
      obtain ⟨w', hrun, -⟩ := processIoBody_arp (w := w.withRx buffer) hr (htype.trans harp) hm
      rw [hrun]
    · obtain ⟨w', hrun, -⟩ := processIoBody_other (w := w.withRx buffer) hr (by rwa [htype])
        (by rwa [htype])
      rw [hrun]

/-- The answer of the table is the reaction of a cache with its entries. -/
theorem reaction_hearMemory (host : ArpHost) {cache : ArpCache} (hv : cache.Valid)
    (hlook : ∀ ip, cache.lookup ip = table.lookup ip) (m : Nat → UInt8) :
    (reaction host cache m).1 = (host.hearMemory table m).out ∧
      (∀ ip, (reaction host cache m).2.lookup ip = (host.hearMemory table m).next.lookup ip) ∧
      ((host.hearMemory table m).goes = false ↔
        (bufferType m = ETH_P_IP ∧ BufferEcho m) ∧ cache.lookup (bufferSrc m) = none) := by
  unfold reaction ArpHost.hearMemory
  by_cases harp : bufferType m = ETH_P_ARP
  · obtain ⟨cache', hmerge, -, hlook'⟩ := hv.merge hlook host (.ofBytes m 14)
    rw [if_pos harp, if_pos harp, hmerge]
    have hne : bufferType m ≠ ETH_P_IP := by
      rw [harp]
      decide
    exact ⟨rfl, hlook', by simp [hne]⟩
  · rw [if_neg harp, if_neg harp]
    by_cases hecho : bufferType m = ETH_P_IP ∧ BufferEcho m
    · rw [if_pos hecho, if_pos hecho, ← hlook]
      cases hmac : cache.lookup (bufferSrc m) with
      | none => exact ⟨rfl, hlook, by simp [hecho]⟩
      | some mac => exact ⟨rfl, hlook, by simp⟩
    · rw [if_neg hecho, if_neg hecho]
      exact ⟨rfl, hlook, by simp [hecho]⟩

/-- `ip_send` to an address that is not cached. -/
theorem ipSend_miss (hr : w.net.Ready) (hv : w.cache.Valid) {dst : UInt32}
    (hlook : w.cache.lookup (htonl dst) = none) (payload : List UInt8) (protocol : UInt32) :
    ∃ w', ipSend dst payload protocol w = (.error (.exit 1), w') ∧ w'.cache = w.cache ∧
      w.Serves w' [w.net.host.request (htonl dst)] := by
  obtain ⟨q, W, h, hsend⟩ := ipSend_packet w dst payload protocol
  have hs := h.statics
  obtain ⟨w', hrun, hcache, hserves⟩ := ipSendPacket_miss (w := W) (q := q) (by rwa [hs.net])
    (by rwa [hs.cache]) (by rwa [h.dst, hs.cache])
  rw [h.dst, hs.net] at hserves
  exact ⟨w', hsend.trans hrun, hcache.trans hs.cache, hserves.start hs.net hs.wire⟩

/-- A round gives the answer of the table. -/
theorem HostCall.refines_round (h : w.Tracks host table) (buffer : Vector UInt8 BUFLEN)
    (beyond : Nat → UInt8) (input : ReadResult) (fits : ChecksFit (bufferRead buffer input)) :
    HostCall.Answers host (HostCall.run (.round buffer beyond input fits)) w
      (host.hearBuffer table (bufferRead buffer input)) := by
  obtain ⟨hr, rfl, hv, hlook⟩ := h
  have hw : w.Up w.net.host := ⟨hr, rfl, hv⟩
  rw [← hearMemory_eq beyond _ _ fits, ← bufferAfter_memory]
  have hrun : HostCall.run (.round buffer beyond input fits) w =
      processIoBody input (w.withRx (bufferMemory buffer beyond)) := rfl
  generalize bufferMemory buffer beyond = mem at hrun ⊢
  have hup := (hw.withRx mem).round_snd input
  obtain ⟨hwire, hcache⟩ := processIoBody_reaction hw mem input
  have houtcome := processIoBody_outcome hw mem input rfl
  obtain ⟨hout, hnext, hgoes⟩ :=
    reaction_hearMemory w.net.host hv hlook (bufferAfter mem input)
  refine ⟨?_, ?_, ?_⟩
  · rw [hrun, houtcome]
    cases hg : (w.net.host.hearMemory table (bufferAfter mem input)).goes with
    | true =>
      refine if_neg fun hstop => ?_
      rw [hgoes.mpr hstop] at hg
      cases hg
    | false => exact if_pos (hgoes.mp hg)
  · rw [hrun, hwire, hout]
  · rw [hrun]
    exact ⟨hup.ready, hup.host, hup.valid, fun ip => by rw [hcache]; exact hnext ip⟩

theorem HostCall.refines_resolve (h : w.Tracks host table) (ip : UInt32) :
    HostCall.Answers host (HostCall.run (.resolve ip)) w ⟨host.asks ip table, table, true⟩ := by
  obtain ⟨hr, rfl, hv, hlook⟩ := h
  have hmem : ip ∈ table ↔ (w.cache.lookup ip).isSome := by
    rw [hlook, Finmap.lookup_isSome]
  cases hip : w.cache.lookup ip with
  | some mac =>
    obtain ⟨cell, hhit, -⟩ := arpResolveIpv4_hit hv hip
    have hrun : HostCall.run (.resolve ip) w = (.ok (), w) := bind_ok hhit
    have hasks : w.net.host.asks ip table = [] := if_pos (hmem.mpr (by rw [hip]; rfl))
    refine ⟨by rw [hrun]; rfl, ?_, ?_⟩
    · rw [hrun]
      show w.wire = w.wire ++ w.net.host.asks ip table
      rw [hasks, List.append_nil]
    · rw [hrun]
      exact ⟨hr, rfl, hv, hlook⟩
  | none =>
    obtain ⟨w', hmiss, hcache, hserves⟩ := arpResolveIpv4_miss hr hv hip
    have hrun : HostCall.run (.resolve ip) w = (.ok (), w') := bind_ok hmiss
    have hasks : w.net.host.asks ip table = [w.net.host.request ip] :=
      if_neg fun hin => by simp [hip] at hmem; exact hmem hin
    refine ⟨by rw [hrun]; rfl, ?_, ?_⟩
    · rw [hrun]
      show w'.wire = w.wire ++ w.net.host.asks ip table
      rw [hasks, hserves.wire]
    · rw [hrun]
      exact ⟨hserves.ready, hserves.host_eq, by rw [hcache]; exact hv,
        fun ip => by rw [hcache]; exact hlook ip⟩

theorem HostCall.refines_send (h : w.Tracks host table) (dst : UInt32) {payload : List UInt8}
    (protocol : UInt32) (fits : payload.length ≤ 65515) :
    HostCall.Answers host (ipSend dst payload protocol) w
      (host.sendTo table dst payload protocol) := by
  obtain ⟨hr, rfl, hv, hlook⟩ := h
  unfold ArpHost.sendTo
  rw [← hlook]
  cases hmac : w.cache.lookup (htonl dst) with
  | some mac =>
    obtain ⟨w', hrun, hcache, hserves⟩ := ipSend_spec hr hv hmac fits protocol
    refine ⟨by rw [hrun]; rfl, by rw [hrun]; exact hserves.wire, ?_⟩
    rw [hrun]
    exact ⟨hserves.ready, hserves.host_eq, by rw [hcache]; exact hv,
      fun ip => by rw [hcache]; exact hlook ip⟩
  | none =>
    obtain ⟨w', hrun, hcache, hserves⟩ := ipSend_miss hr hv hmac payload protocol
    refine ⟨by rw [hrun]; rfl, by rw [hrun]; exact hserves.wire, ?_⟩
    rw [hrun]
    exact ⟨hserves.ready, hserves.host_eq, by rw [hcache]; exact hv,
      fun ip => by rw [hcache]; exact hlook ip⟩

/-- A call of the code gives the answer of the table. -/
theorem HostCall.refines (h : w.Tracks host table) (call : HostCall) :
    HostCall.Answers host call.run w (host.answer table call) := by
  cases call with
  | round buffer beyond input fits => exact HostCall.refines_round h buffer beyond input fits
  | resolve ip => exact HostCall.refines_resolve h ip
  | send dst payload protocol fits => exact HostCall.refines_send h dst protocol fits

end Calls

/-! ## Runs -/

/-- **The stack is a table that answers.** For any calls from the boot of a host, with anything left
in the buffers, any memory behind them and any frames read: the frames sent and the entries of the
ARP table are those of the abstract host, which knows the buffer after each read and its table, and
the process ends where that one ends, with `exit(1)`. -/
theorem stack_refines_host (mem : Obj → Nat → UInt8) (host : ArpHost) (calls : List HostCall) :
    ∃ cache, arpInit = some cache ∧
      (hostCalls calls (World.boot mem host cache)).1 =
        (if (Reactive.run host.answer ∅ calls).goes then .ok () else .error (.exit 1)) ∧
      (hostCalls calls (World.boot mem host cache)).2.wire =
        (Reactive.run host.answer ∅ calls).out ∧
      ∀ ip, (hostCalls calls (World.boot mem host cache)).2.cache.lookup ip =
        (Reactive.run host.answer ∅ calls).next.lookup ip := by
  obtain ⟨cache, hinit, htracks⟩ := boot_tracks mem host
  obtain ⟨houtcome, hout, hrel⟩ :=
    run_refines (fun _ _ call h => HostCall.refines h call) htracks calls
  exact ⟨cache, hinit, houtcome, hout, hrel.lookup⟩

/-! ## What is sent -/

/-- A frame that a peer can read: a request or a reply of this host, or a packet with a header that
verifies, our address as its source and its own length as the total length. -/
inductive FormedFrame (host : ArpHost) : Frame → Prop where
  | request (ip : UInt32) : FormedFrame host (host.request ip)
  | reply (peer : ArpHost) : FormedFrame host (host.reply peer)
  | packet (mac : Mac) {header payload : List UInt8} (long : header.length = 20)
      (checks : internetChecksum header = 0) (source : packetSrc header = host.ip)
      (total : be16 header 2 = (header ++ payload).length) :
      FormedFrame host (ethFrame mac host.mac ETH_P_IP (header ++ payload))

section Frames

variable {host : ArpHost} {pre : List UInt8}

theorem sealHeader_formed (hpre : pre.length = 10) {rest : List UInt8} (hrest : rest.length = 4)
    {payload : List UInt8} (htotal : be16 pre 2 = 20 + payload.length) (mac : Mac) :
    FormedFrame host (ethFrame mac host.mac ETH_P_IP
      (sealHeader pre (bytes32 host.ip ++ rest) ++ payload)) := by
  have hlen : (sealHeader pre (bytes32 host.ip ++ rest)).length = 20 := by
    simp [length_sealHeader, hpre, hrest]
  have hget : ∀ k, k < 4 → (sealHeader pre (bytes32 host.ip ++ rest)).getD (12 + k) 0 =
      (bytes32 host.ip).getD k 0 := by
    intro k hk
    rw [sealHeader, List.getD_append_right _ _ _ _ (by omega),
      List.getD_append_right _ _ _ _ (by rw [hpre, length_bytes16]; omega),
      List.getD_append _ _ _ _ (by rw [hpre, length_bytes16, length_bytes32]; omega)]
    congr 1
    simp only [hpre, length_bytes16]
    omega
  refine .packet mac hlen (sealHeader_checksum hpre (by simp [hrest])) ?_ ?_
  · have h0 := hget 0 (by decide)
    have h1 := hget 1 (by decide)
    have h2 := hget 2 (by decide)
    have h3 := hget 3 (by decide)
    simp only [Nat.reduceAdd] at h0 h1 h2 h3
    rw [packetSrc, h0, h1, h2, h3]
    exact le32_bytes host.ip
  · have hstart : ∀ k, k < 10 →
        (sealHeader pre (bytes32 host.ip ++ rest)).getD k 0 = pre.getD k 0 := fun k hk => by
      rw [sealHeader, List.getD_append _ _ _ _ (by omega)]
    rw [List.length_append, hlen, ← htotal, be16, be16, hstart 2 (by decide), hstart 3 (by decide)]

/-- What a host sends for what is in the buffer. -/
theorem hearBuffer_formed (table : ArpTable) {buffer : Vector UInt8 BUFLEN}
    (hfits : ChecksFit buffer) :
    ∀ frame ∈ (host.hearBuffer table buffer).out, FormedFrame host frame := by
  intro frame hframe
  unfold ArpHost.hearBuffer ArpHost.hearMemory at hframe
  split at hframe
  · obtain ⟨peer, rfl⟩ := reply_of_mem_replies hframe
    exact .reply peer
  · split at hframe
    · rename_i hecho
      have hL := (hfits.echo hecho.1 hecho.2).1
      generalize bufferBytes buffer = m at hL hframe
      split at hframe
      · rename_i mac _
        obtain rfl := List.mem_singleton.mp hframe
        unfold bufferReply
        rw [if_pos hL]
        have hlen : (bufferPacket m).length = bufferLength m := length_readN _ _ _
        refine sealHeader_formed (by simp [hlen]; omega) (by simp [hlen]; omega) ?_ mac
        have hget : ∀ k, k < 10 → ((bufferPacket m).take 10).getD k 0 = m (14 + k) := by
          intro k hk
          rw [bufferPacket, take_readN _ _ (by omega), getD_readN hk]
        have hicmp : (icmpReply ((bufferPacket m).drop 20)).length = bufferLength m - 20 := by
          simp [icmpReply, hlen]
        rw [be16, show ((bufferPacket m).take 10).getD 2 0 = m 16 from hget 2 (by decide),
          show ((bufferPacket m).take 10).getD (2 + 1) 0 = m 17 from hget 3 (by decide), hicmp]
        have htotal : bufferLength m = (m 17).toNat + 256 * (m 16).toNat := le16_toNat _ _
        omega
      · obtain rfl := List.mem_singleton.mp hframe
        exact .request _
    · cases hframe

/-- What `ip_send` sends. -/
theorem sendTo_formed (table : ArpTable) (dst : UInt32) {payload : List UInt8}
    (hlen : payload.length ≤ 65515) (protocol : UInt32) :
    ∀ frame ∈ (host.sendTo table dst payload protocol).out, FormedFrame host frame := by
  intro frame hframe
  unfold ArpHost.sendTo at hframe
  split at hframe
  · rename_i mac _
    obtain rfl := List.mem_singleton.mp hframe
    refine sealHeader_formed (length_headerStart _ _) (length_bytes32 _) ?_ mac
    have htotal : (UInt16.ofNat (20 + payload.length)).toNat = 20 + payload.length := by
      rw [UInt16.toNat_ofNat', Nat.mod_eq_of_lt (by omega)]
    exact (be16_append (l := [0x45, 0]) rfl (UInt16.ofNat (20 + payload.length)) _).trans htotal
  · obtain rfl := List.mem_singleton.mp hframe
    exact .request _

/-- **The stack sends well-formed frames.** For any calls from the boot of a host, whatever it
receives, every frame sent is an ARP request or reply of this host, or a packet with a complete
header that verifies, our source address and the right total length. -/
theorem stack_frames_formed (mem : Obj → Nat → UInt8) (host : ArpHost) (calls : List HostCall) :
    ∃ cache, arpInit = some cache ∧
      ∀ frame ∈ (hostCalls calls (World.boot mem host cache)).2.wire, FormedFrame host frame := by
  obtain ⟨cache, hinit, htracks⟩ := boot_tracks mem host
  have hgives := run_refines (fun _ _ call h => HostCall.refines h call) htracks calls
  refine ⟨cache, hinit, ?_⟩
  show ∀ frame ∈ (calls.forM HostCall.run (World.boot mem host cache)).2.wire, _
  rw [hgives.out]
  refine run_out calls (fun table call _ frame hframe => ?_) ∅
  cases call with
  | round buffer beyond input fits => exact hearBuffer_formed table fits frame hframe
  | resolve ip =>
    have hframe' : frame ∈ host.asks ip table := hframe
    unfold ArpHost.asks at hframe'
    split at hframe'
    · cases hframe'
    · obtain rfl := List.mem_singleton.mp hframe'
      exact .request ip
  | send dst payload protocol fits => exact sendTo_formed table dst fits protocol frame hframe

end Frames

end TcpIp
