import TcpIp.Reaction

/-!
# What a round takes from earlier frames

The receive buffer of a thread is reused, and the number of received bytes is not passed on. Two
rounds with the same result of the read can therefore differ when the handlers look past the
received bytes. `Isolated input` says that they do not: from the same host and cache, whatever the
two buffers held before, the same frames go out and the same cache is left.

`isolated_iff` is the exact condition on the received bytes: they are `Whole`, that is, they hold
all that the handlers read for their type and length, or no way to complete them to a buffer `Acts`.
The proof compares `reaction` on the two buffers; where the condition fails, one changed byte past
the received ones makes the difference.
-/

namespace TcpIp

open Bytes Prog World

/-! ## Buffers over the same received bytes -/

/-- The buffer starts with the bytes `l`. -/
def Extends (m : Nat → UInt8) (l : List UInt8) : Prop := ∀ i, i < l.length → m i = l.getD i 0

/-- A round with this buffer has an effect: a supported ARP message, or a packet that is answered. -/
def Acts (m : Nat → UInt8) : Prop :=
  bufferType m = ETH_P_ARP ∧ (ArpMessage.ofBytes m 14).Supported ∨
    bufferType m = ETH_P_IP ∧ BufferEcho m

/-- The bytes fill the buffer, or hold a whole ARP message, or a whole IPv4 packet. -/
def Whole (l : List UInt8) : Prop :=
  BUFLEN ≤ l.length ∨ etherType l = ETH_P_ARP ∧ 42 ≤ l.length ∨
    etherType l = ETH_P_IP ∧ 34 ≤ l.length ∧ 20 ≤ frameLength l ∧ frameLength l + 14 ≤ l.length

instance (l : List UInt8) : Decidable (Whole l) := inferInstanceAs (Decidable (_ ∨ _ ∨ _))

section Extends

variable {m m' : Nat → UInt8} {l : List UInt8}

theorem extends_bufferAfter (buffer : Nat → UInt8) (input : ReadResult) :
    Extends (bufferAfter buffer input) (bytesRead input) := by
  intro i hi
  unfold bufferAfter
  rw [writeL_apply_in (Nat.zero_le i) (by omega), List.getD_eq_getElem _ _ hi]
  rfl

theorem bufferAfter_past (buffer : Nat → UInt8) {input : ReadResult} {i : Nat} (h : BUFLEN ≤ i) :
    bufferAfter buffer input i = buffer i := by
  have hlen : (bytesRead input).length ≤ BUFLEN := by
    cases input with
    | none => exact Nat.zero_le _
    | some frame => exact List.length_take_le _ _
  exact writeL_apply_out (by omega)

/-- Reading the bytes a buffer already starts with leaves it as it is. -/
theorem bufferAfter_eq {input : ReadResult} (h : Extends m (bytesRead input)) :
    bufferAfter m input = m := by
  funext i
  by_cases hi : i < (bytesRead input).length
  · rw [extends_bufferAfter m input i hi, h i hi]
  · exact writeL_apply_out (by omega)

theorem Extends.agree (h : Extends m l) (h' : Extends m' l) {i : Nat} (hi : i < l.length) :
    m i = m' i := (h i hi).trans (h' i hi).symm

theorem Extends.update (h : Extends m l) {i : Nat} (hi : l.length ≤ i) (b : UInt8) :
    Extends (Function.update m i b) l := by
  intro j hj
  rw [Function.update_of_ne (by omega)]
  exact h j hj

theorem Extends.type (h : Extends m l) (hl : 14 ≤ l.length) : bufferType m = etherType l := by
  unfold bufferType
  rw [etherType, h 13 (by omega), h 12 (by omega)]

theorem Extends.length (h : Extends m l) (hl : 18 ≤ l.length) : bufferLength m = frameLength l := by
  unfold bufferLength
  rw [frameLength, h 17 (by omega), h 16 (by omega)]

end Extends

/-- A buffer that does not act has no effect. -/
theorem reaction_idle {m : Nat → UInt8} (h : ¬ Acts m) (host : ArpHost) (cache : ArpCache) :
    reaction host cache m = ([], cache) := by
  unfold reaction
  by_cases harp : bufferType m = ETH_P_ARP
  · have hs : ¬ (ArpMessage.ofBytes m 14).Supported := fun hs => h (Or.inl ⟨harp, hs⟩)
    rw [if_pos harp, ArpHost.replies_nil fun hs' => absurd hs' hs, arpMerge, if_neg hs]
    rfl
  · rw [if_neg harp, if_neg fun hecho => h (Or.inr hecho)]

/-- A packet that is answered gives one frame. -/
theorem reaction_echo {m : Nat → UInt8} (htype : bufferType m = ETH_P_IP) (h : BufferEcho m)
    (host : ArpHost) (cache : ArpCache) : (reaction host cache m).1 ≠ [] := by
  rw [reaction, if_neg (by rw [htype]; decide), if_pos ⟨htype, h⟩]
  split
  · exact List.cons_ne_nil _ _
  · exact List.cons_ne_nil _ _

/-- For a total length of at least 20 the test is about the packet. -/
theorem bufferEcho_iff {m : Nat → UInt8} (hL : 20 ≤ bufferLength m) :
    BufferEcho m ↔ IsEchoRequest (bufferPacket m) := by
  obtain ⟨cache, -⟩ := arpInit_spec
  obtain ⟨htotal, hpacket, -, htest⟩ := rx_fields (m := m)
    (w := World.boot (fun _ => m) ⟨0, Vector.replicate 6 0⟩ cache) fun _ _ => rfl
  rw [← htest, ← hpacket]
  exact echoTest_iff (by rwa [htotal])

/-! ## Whole frames -/

section Whole

variable {m m' : Nat → UInt8} {l : List UInt8}

/-- Two buffers with the same IPv4 packet inside the received bytes. -/
theorem reaction_packet (h : Extends m l) (h' : Extends m' l) (htype : etherType l = ETH_P_IP)
    (hl : 34 ≤ l.length) (h20 : 20 ≤ frameLength l) (hin : frameLength l + 14 ≤ l.length)
    (host : ArpHost) (cache : ArpCache) : reaction host cache m = reaction host cache m' := by
  have ht : bufferType m = ETH_P_IP := (h.type (by omega)).trans htype
  have ht' : bufferType m' = ETH_P_IP := (h'.type (by omega)).trans htype
  have hlen := h.length (by omega)
  have hlen' := h'.length (by omega)
  have hpacket : bufferPacket m = bufferPacket m' := by
    unfold bufferPacket
    rw [hlen, hlen']
    exact readN_congr fun i _ hi => h.agree h' (by omega)
  have hsrc : bufferSrc m = bufferSrc m' := by
    simp only [bufferSrc, h.agree h' (show 26 < l.length by omega),
      h.agree h' (show 27 < l.length by omega), h.agree h' (show 28 < l.length by omega),
      h.agree h' (show 29 < l.length by omega)]
  have hecho : BufferEcho m ↔ BufferEcho m' := by
    rw [bufferEcho_iff (by omega), bufferEcho_iff (by omega), hpacket]
  have hreply : bufferReply host.ip m = bufferReply host.ip m' := by
    unfold bufferReply
    rw [if_pos (by omega), if_pos (by omega), hpacket]
  have hne : ETH_P_IP ≠ ETH_P_ARP := by decide
  simp only [reaction, ht, ht', hne, if_false, hsrc, hecho, hreply]

/-- Whole received bytes decide the reaction. -/
theorem reaction_whole (h : Extends m l) (h' : Extends m' l)
    (hpast : ∀ i, BUFLEN ≤ i → m i = m' i) (hl : Whole l) (host : ArpHost) (cache : ArpCache) :
    reaction host cache m = reaction host cache m' := by
  rcases hl with hfull | ⟨htype, hlen⟩ | ⟨htype, hlen, h20, hin⟩
  · have heq : m = m' := by
      funext i
      by_cases hi : i < l.length
      · exact h.agree h' hi
      · exact hpast i (by omega)
    rw [heq]
  · have hmsg : ArpMessage.ofBytes m 14 = ArpMessage.ofBytes m' 14 :=
      ArpMessage.ofBytes_congr fun i _ hi => h.agree h' (by omega)
    have ht := (h.type (by omega)).trans htype
    have ht' := (h'.type (by omega)).trans htype
    unfold reaction
    rw [if_pos ht, if_pos ht', hmsg]
  · exact reaction_packet h h' htype hlen h20 hin host cache

end Whole

/-! ## One byte past the received ones -/

section Change

variable {m : Nat → UInt8} {l : List UInt8}

theorem readN_update {p i : Nat} (h : p ≤ i) (n : Nat) (b : UInt8) :
    readN (Function.update m i b) p n = (readN m p n).set (i - p) b := by
  apply List.ext_getElem
  · simp
  · intro j hj1 hj2
    rw [getElem_readN, List.getElem_set, getElem_readN]
    by_cases hij : i - p = j
    · rw [if_pos hij, show p + j = i by omega, Function.update_self]
    · rw [if_neg hij, Function.update_of_ne (by omega)]

/-- A supported ARP message that is not whole: the last byte of the target address decides whether
the sender is learned. -/
theorem leak_arp (hl : l.length < 42) (hm : Extends m l) (htype : bufferType m = ETH_P_ARP)
    (hs : (ArpMessage.ofBytes m 14).Supported) :
    ∃ m', Extends m' l ∧ (∀ i, BUFLEN ≤ i → m i = m' i) ∧ ∃ host : ArpHost, ∀ cache : ArpCache,
      cache.Valid → (∀ ip, cache.lookup ip = none) →
        reaction host cache m ≠ reaction host cache m' := by
  generalize hm' : Function.update m 41 (m 41 + 1) = m'
  have hsame : ∀ i, i ≠ 41 → m' i = m i := fun i hi => by rw [← hm', Function.update_of_ne hi]
  have htype' : bufferType m' = ETH_P_ARP := by
    unfold bufferType
    rw [hsame 13 (by decide), hsame 12 (by decide)]
    exact htype
  have hdst : (ArpMessage.ofBytes m' 14).dstIp ≠ (ArpMessage.ofBytes m 14).dstIp := by
    intro heq
    have hb := congrArg bytes32 heq
    simp only [ArpMessage.ofBytes, Nat.reduceAdd, bytes32_le32, List.cons.injEq] at hb
    have h41 := hb.2.2.2.1
    rw [← hm', Function.update_self] at h41
    simp at h41
  refine ⟨m', hm' ▸ hm.update (by omega) _, fun i hi => ?_,
    ⟨(ArpMessage.ofBytes m 14).dstIp, Vector.replicate 6 0⟩, fun cache hv hempty heq => ?_⟩
  · exact (hsame i (by simp only [BUFLEN] at hi; omega)).symm
  · obtain ⟨cache₁, hm₁, -, hlook₁⟩ := hv.exists_merge (ArpMessage.ofBytes m 14).dstIp (.ofBytes m 14)
    obtain ⟨cache₂, hm₂, -, hlook₂⟩ :=
      hv.exists_merge (ArpMessage.ofBytes m 14).dstIp (.ofBytes m' 14)
    unfold reaction at heq
    rw [if_pos htype, if_pos htype', hm₁, hm₂] at heq
    have hcache : cache₁ = cache₂ := congrArg Prod.snd heq
    have h1 := hlook₁ (ArpMessage.ofBytes m 14).srcIp
    have h2 := hlook₂ (ArpMessage.ofBytes m 14).srcIp
    rw [if_pos ⟨hs, Or.inr rfl, rfl⟩] at h1
    rw [if_neg (by
      rintro ⟨-, hknown | hours, -⟩
      · rw [hempty] at hknown
        cases hknown
      · exact hdst hours), hempty] at h2
    rw [hcache, h2] at h1
    cases h1

/-- An answered packet, and one missing byte whose change breaks the test without touching the
type. -/
theorem leak_of_break (hm : Extends m l) (htype : bufferType m = ETH_P_IP) (hecho : BufferEcho m)
    {i : Nat} {b : UInt8} (hil : l.length ≤ i) (hi : i < BUFLEN) (h14 : 14 ≤ i)
    (hbreak : ¬ BufferEcho (Function.update m i b)) :
    ∃ m', Extends m' l ∧ (∀ i, BUFLEN ≤ i → m i = m' i) ∧ ∀ (host : ArpHost) (cache : ArpCache),
      reaction host cache m ≠ reaction host cache m' := by
  have htype' : bufferType (Function.update m i b) = ETH_P_IP := by
    unfold bufferType
    rw [Function.update_of_ne (by omega), Function.update_of_ne (by omega)]
    exact htype
  refine ⟨_, hm.update hil b, fun j hj => (Function.update_of_ne (by omega) _ _).symm, ?_⟩
  intro host cache heq
  have hidle : reaction host cache (Function.update m i b) = ([], cache) := by
    refine reaction_idle ?_ host cache
    rintro (⟨harp, -⟩ | ⟨-, hecho'⟩)
    · rw [htype'] at harp
      exact absurd harp (by decide)
    · exact hbreak hecho'
  rw [hidle] at heq
  exact reaction_echo htype hecho host cache (congrArg Prod.fst heq)

/-- A packet that is answered and is not whole: a byte under one of the checksums is missing. -/
theorem leak_echo (hl : ¬ Whole l) (hm : Extends m l) (htype : bufferType m = ETH_P_IP)
    (hecho : BufferEcho m) :
    ∃ m', Extends m' l ∧ (∀ i, BUFLEN ≤ i → m i = m' i) ∧ ∀ (host : ArpHost) (cache : ArpCache),
      reaction host cache m ≠ reaction host cache m' := by
  have hlen : l.length < BUFLEN := not_le.mp fun h => hl (Or.inl h)
  by_cases h34 : l.length < 34
  · -- The last byte of the header.
    obtain ⟨b, hb⟩ := exists_set_internetChecksum_ne hecho.header (show 19 < _ by simp)
    refine leak_of_break hm htype hecho (i := 33) (b := b) (by omega) (by decide) (by decide)
      fun h => hb ?_
    rw [← h.header, readN_update (by omega)]
  · -- The first missing byte, which belongs to the payload.
    have hin : l.length - 34 < payloadLength32 (le16 (m 17) (m 16)) := by
      have hfl := hm.length (by omega)
      have hcut : ¬ (20 ≤ frameLength l ∧ frameLength l + 14 ≤ l.length) := fun h =>
        hl (Or.inr (Or.inr ⟨(hm.type (by omega)).symm.trans htype, by omega, h⟩))
      rw [bufferLength] at hfl
      have hlt := (le16 (m 17) (m 16)).toNat_lt
      simp only [BUFLEN] at hlen
      simp only [payloadLength32, ipHeaderGetPayloadLength, sizeofIpHeader]
      omega
    obtain ⟨b, hb⟩ := exists_set_internetChecksum_ne hecho.icmp (by rwa [length_readN])
    refine leak_of_break hm htype hecho (b := b) le_rfl hlen (by omega) fun h => hb ?_
    have hicmp := h.icmp
    rw [Function.update_of_ne (by omega), Function.update_of_ne (by omega),
      readN_update (by omega)] at hicmp
    exact hicmp

end Change

/-! ## Isolation -/

/-- Two rounds with this result of the read, from states with the same host and the same cache, emit
the same frames and leave the same cache, whatever their buffers held before; and a failed read has
no effect. Past the end of the buffer the memory is the same in both. -/
def Isolated (input : ReadResult) : Prop :=
  ∀ (host : ArpHost) (w₁ w₂ : World), w₁.Reachable host → w₂.Reachable host → w₁.cache = w₂.cache →
    ∀ b₁ b₂ : Nat → UInt8, (∀ i, BUFLEN ≤ i → b₁ i = b₂ i) →
      (∃ r, w₁.Outcome (processIoBody input (w₁.withRx b₁)).2 r ∧
        w₂.Outcome (processIoBody input (w₂.withRx b₂)).2 r) ∧
      (input = none → w₁.Outcome (processIoBody input (w₁.withRx b₁)).2 ([], w₁.cache))

theorem World.Outcome.unique {w w' : World} {r r' : List Frame × ArpCache} (h : w.Outcome w' r)
    (h' : w.Outcome w' r') : r = r' := by
  refine Prod.ext ?_ (h.2.symm.trans h'.2)
  exact List.append_cancel_left (h.1.symm.trans h'.1)

/-- Two buffers with different reactions are not kept apart. -/
theorem not_isolated {input : ReadResult} {m m' : Nat → UInt8} (hm : Extends m (bytesRead input))
    (hm' : Extends m' (bytesRead input)) (hpast : ∀ i, BUFLEN ≤ i → m i = m' i) {host : ArpHost}
    (hdiff : ∀ cache : ArpCache, cache.Valid → (∀ ip, cache.lookup ip = none) →
      reaction host cache m ≠ reaction host cache m') : ¬ Isolated input := by
  intro hiso
  obtain ⟨cache, hinit, hv, hempty⟩ := arpInit_spec
  have hw : World.Reachable host _ := .boot (fun _ _ => 0) hinit
  obtain ⟨⟨r, h1, h2⟩, -⟩ := hiso host _ _ hw hw rfl m m' hpast
  have hr1 := h1.unique (processIoBody_reaction hw.up m input)
  have hr2 := h2.unique (processIoBody_reaction hw.up m' input)
  rw [bufferAfter_eq hm] at hr1
  rw [bufferAfter_eq hm'] at hr2
  exact hdiff cache hv hempty (hr1.symm.trans hr2)

/-- **When frames do not leak into one another.** The rounds with a result of the read are isolated
if and only if the received bytes are whole, or no buffer that starts with them acts. -/
theorem isolated_iff (input : ReadResult) :
    Isolated input ↔
      Whole (bytesRead input) ∨ ∀ m, Extends m (bytesRead input) → ¬ Acts m := by
  constructor
  · intro hiso
    by_contra hnot
    obtain ⟨hwhole, hacts⟩ := not_or.mp hnot
    push Not at hacts
    obtain ⟨m, hm, ⟨htype, hs⟩ | ⟨htype, hecho⟩⟩ := hacts
    · have hl : (bytesRead input).length < 42 := by
        by_contra hl
        exact hwhole (Or.inr (Or.inl ⟨(hm.type (by omega)).symm.trans htype, by omega⟩))
      obtain ⟨m', hm', hpast, host, hdiff⟩ := leak_arp hl hm htype hs
      exact not_isolated hm hm' hpast hdiff hiso
    · obtain ⟨m', hm', hpast, hdiff⟩ := leak_echo hwhole hm htype hecho
      exact not_isolated hm hm' hpast (fun cache _ _ => hdiff ⟨0, Vector.replicate 6 0⟩ cache) hiso
  · intro h host w₁ w₂ hw₁ hw₂ hcache b₁ b₂ hpast
    have hout₁ := processIoBody_reaction hw₁.up b₁ input
    have hout₂ := processIoBody_reaction hw₂.up b₂ input
    rw [← hcache] at hout₂
    have hext₁ := extends_bufferAfter b₁ input
    have hext₂ := extends_bufferAfter b₂ input
    rcases h with hwhole | hidle
    · refine ⟨⟨_, hout₁, ?_⟩, fun hfail => ?_⟩
      · rw [reaction_whole hext₁ hext₂ (fun i hi => by
          rw [bufferAfter_past b₁ hi, bufferAfter_past b₂ hi, hpast i hi]) hwhole]
        exact hout₂
      · -- A failed read delivers no bytes, and these are not whole.
        subst hfail
        exact absurd hwhole (by decide)
    · rw [reaction_idle (hidle _ hext₁)] at hout₁
      rw [reaction_idle (hidle _ hext₂)] at hout₂
      exact ⟨⟨_, hout₁, hout₂⟩, fun _ => hout₁⟩

/-- The bytes of an ARP request from `10.0.0.2` for `10.0.0.1`. -/
def staleRequest : Frame :=
  [0xff, 0xff, 0xff, 0xff, 0xff, 0xff, 2, 0, 0, 0, 0, 2, 0x08, 0x06,
   0, 1, 8, 0, 6, 4, 0, 1, 2, 0, 0, 0, 0, 2, 10, 0, 0, 2, 0, 0, 0, 0, 0, 0, 10, 0, 0, 1]

/-- A failed read over `staleRequest` sends a reply to it; over zeros it sends nothing. -/
theorem failedRead_leaks :
    ∃ (host : ArpHost) (w : World) (stale : Nat → UInt8), w.Reachable host ∧
      (∀ i, BUFLEN ≤ i → stale i = 0) ∧
      (processIoBody none (w.withRx stale)).2.wire ≠ w.wire ∧
      (processIoBody none (w.withRx fun _ => 0)).2.wire = w.wire := by
  obtain ⟨cache, hinit, -⟩ := arpInit_spec
  have hw : World.Reachable ⟨0x0100000a, #v[2, 0, 0, 0, 0, 1]⟩ _ := .boot (fun _ _ => 0) hinit
  refine ⟨_, _, fun i => staleRequest.getD i 0, hw, fun i hi => ?_, fun hwire => ?_, ?_⟩
  · exact List.getD_eq_default _ _ (Nat.le_trans (by decide) hi)
  · have hout := processIoBody_reaction hw.up (fun i => staleRequest.getD i 0) none
    rw [bufferAfter_eq fun _ hi => absurd hi (Nat.not_lt_zero _), reaction, if_pos (by decide)] at hout
    have hframes : ArpHost.replies ⟨0x0100000a, #v[2, 0, 0, 0, 0, 1]⟩
        (.ofBytes (fun i => staleRequest.getD i 0) 14) = [] :=
      List.append_right_eq_self.mp (hout.1.symm.trans hwire)
    exact absurd hframes (by decide)
  · have hout := processIoBody_reaction hw.up (fun _ => 0) none
    rw [bufferAfter_eq fun _ hi => absurd hi (Nat.not_lt_zero _), reaction, if_neg (by decide),
      if_neg fun h => absurd h.1 (by decide)] at hout
    rw [hout.1, List.append_nil]

end TcpIp
