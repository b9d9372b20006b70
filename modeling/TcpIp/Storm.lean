import TcpIp.Isolation
import TcpIp.Protocols.ArpResolution

/-!
# No packet storms

What the stack emits in answer to a frame is one of three: an ARP request (the sender of an echo
request is not cached), an ARP reply or an echo reply (`Emitted`, `Reception.emitted`). Any host, in
any state, answers the first with an ARP reply at most, and the other two not at all
(`Emitted.answered`, `not_answers_reply`).

`Cascade r n f`: `f` is a frame of generation `n` among the answers to the reception `r`. Every frame
may be received by any host in any state, any number of times, so the hosts' states are not followed;
`StormNet` is a network that follows them, in which hosts also go on with other work and exit.
-/

namespace TcpIp

open Bytes Prog World

/-- The frames that a round emits when `frame` is read into `buffer`. -/
def World.answers (w : World) (buffer : Nat → UInt8) (frame : Frame) : List Frame :=
  (processIoBody (some frame) (w.withRx buffer)).2.wire.drop w.wire.length

/-- Some host, in some state, emits `g` when it receives `f`. -/
def Answers (f g : Frame) : Prop :=
  ∃ (host : ArpHost) (w : World) (buffer : Nat → UInt8),
    w.Reachable host ∧ g ∈ w.answers buffer f

/-- An answer to the reception `r`. -/
def Reception.Answered (r : Reception) (g : Frame) : Prop :=
  ∃ (host : ArpHost) (w : World), w.Reachable host ∧ g ∈ w.answers r.buffer r.frame

section Answers

variable {host : ArpHost} {w : World}

theorem answers_eq (hw : w.Up host) (buffer : Nat → UInt8) (frame : Frame) :
    (processIoBody (some frame) (w.withRx buffer)).2.wire = w.wire ++ w.answers buffer frame ∧
      w.answers buffer frame = (reaction host w.cache (seenBuffer buffer frame)).1 := by
  have hwire := (processIoBody_reaction hw buffer (some frame)).1
  have hdrop : w.answers buffer frame = (reaction host w.cache (seenBuffer buffer frame)).1 := by
    rw [answers, hwire, List.drop_left]
    rfl
  exact ⟨by rw [hdrop]; exact hwire, hdrop⟩

theorem replies_length (host : ArpHost) (msg : ArpMessage) : (host.replies msg).length ≤ 1 := by
  unfold ArpHost.replies
  split
  · exact Nat.le_refl _
  · exact Nat.zero_le _

/-- A round emits at most one frame. -/
theorem reaction_length (host : ArpHost) (cache : ArpCache) (m : Nat → UInt8) :
    (reaction host cache m).1.length ≤ 1 := by
  unfold reaction
  split
  · exact replies_length host _
  · split
    · split
      · exact Nat.le_refl _
      · exact Nat.le_refl _
    · exact Nat.zero_le _

end Answers

/-! ## What is emitted -/

/-- An echo reply, as far as its receiver looks. -/
structure EchoAnswer (f : Frame) : Prop where
  type : etherType f = ETH_P_IP
  long : 35 ≤ f.length
  icmp : f.getD 34 0 = ICMP_ECHO_REPLY

/-- The frames that the stack emits in answer to a frame. -/
inductive Emitted : Frame → Prop where
  | request (host : ArpHost) (ip : UInt32) : Emitted (host.request ip)
  | reply (host peer : ArpHost) : Emitted (host.reply peer)
  | echo {f : Frame} (h : EchoAnswer f) : Emitted f

theorem reply_of_mem_replies {host : ArpHost} {msg : ArpMessage} {f : Frame}
    (h : f ∈ host.replies msg) : ∃ peer, f = host.reply peer := by
  unfold ArpHost.replies at h
  split at h
  · exact ⟨⟨msg.srcIp, msg.srcMac⟩, List.mem_singleton.mp h⟩
  · cases h

/-- The empty message does not verify. -/
theorem isEchoRequest_length {packet : List UInt8} (h : IsEchoRequest packet) : 21 ≤ packet.length := by
  by_contra hlt
  have hempty : packet.drop 20 = [] := List.drop_eq_nil_of_le (by omega)
  have := h.icmp
  rw [hempty] at this
  exact absurd this (by decide +kernel)

/-- The reply to an echo request has type 0. -/
theorem echoAnswer_echoReply (mac srcMac : Mac) (ip : UInt32) {packet : List UInt8}
    (h : IsEchoRequest packet) :
    EchoAnswer (ethFrame mac srcMac ETH_P_IP (echoReply ip packet)) := by
  have hlen := isEchoRequest_length h
  have hheader : (sealHeader (packet.take 10)
      (bytes32 ip ++ (packet.drop 12).take 4)).length = 20 := by
    rw [length_sealHeader, List.length_take, List.length_append, length_bytes32, List.length_take,
      List.length_drop]
    omega
  obtain ⟨t, rest, hicmp⟩ : ∃ t rest, packet.drop 20 = t :: rest :=
    List.exists_cons_of_length_pos (by rw [List.length_drop]; omega)
  have htype : (icmpReply (packet.drop 20)).getD 0 0 = ICMP_ECHO_REPLY := by
    rw [hicmp]
    simp [icmpReply, overlay]
  have hlong : 1 ≤ (icmpReply (packet.drop 20)).length := by
    rw [icmpReply, length_overlay, length_overlay, length_overlay, List.length_drop]
    omega
  refine ⟨etherType_ethFrame _ _ _ _, ?_, ?_⟩
  · rw [length_ethFrame, echoReply, List.length_append, hheader]
    omega
  · rw [ethFrame, List.getD_append_right _ _ _ _ (by simp), echoReply,
      List.getD_append_right _ _ _ _ (by rw [hheader]; simp), hheader]
    simpa using htype

/-- What a reception triggers. -/
theorem Reception.emitted (r : Reception) {g : Frame} (h : r.Answered g) : Emitted g := by
  obtain ⟨host, w, hw, hg⟩ := h
  rw [(answers_eq hw.up r.buffer r.frame).2, reaction] at hg
  split at hg
  · obtain ⟨peer, rfl⟩ := reply_of_mem_replies hg
    exact .reply host peer
  · split at hg
    · rename_i hip
      split at hg
      · rw [List.mem_singleton.mp hg]
        have hL := (r.inBounds hip.1).1
        rw [bufferReply, if_pos hL]
        exact .echo (echoAnswer_echoReply _ _ _ ((bufferEcho_iff hL).mp hip.2))
      · rw [List.mem_singleton.mp hg]
        exact .request host _
    · cases hg

/-! ## How it is answered -/

theorem seenBuffer_apply (buffer : Nat → UInt8) {f : Frame} {i : Nat} (h : i < f.length)
    (hi : i < BUFLEN) : seenBuffer buffer f i = f.getD i 0 := by
  have hlen : i < (f.take BUFLEN).length := by
    rw [List.length_take]
    omega
  unfold seenBuffer
  rw [writeL_apply_in (Nat.zero_le i) (by omega), List.getElem_take, List.getD_eq_getElem _ _ h]
  rfl

theorem bufferType_seen (buffer : Nat → UInt8) {f : Frame} (h : 14 ≤ f.length) :
    bufferType (seenBuffer buffer f) = etherType f := by
  unfold bufferType
  rw [etherType, seenBuffer_apply buffer (by omega) (by decide),
    seenBuffer_apply buffer (by omega) (by decide)]

/-- A frame with an ARP message is answered as the message says. -/
theorem reaction_arp (host : ArpHost) (cache : ArpCache) (buffer : Nat → UInt8) (dst src : Mac)
    (msg : ArpMessage) :
    (reaction host cache (seenBuffer buffer (ethFrame dst src 0x0806 msg.encode))).1 =
      host.replies msg := by
  have hlen : (ethFrame dst src 0x0806 msg.encode).length = 42 := by
    rw [length_ethFrame, ArpMessage.length_encode]
  have htype : bufferType (seenBuffer buffer (ethFrame dst src 0x0806 msg.encode)) = ETH_P_ARP :=
    (bufferType_seen buffer (by omega)).trans (etherType_ethFrame dst src 0x0806 msg.encode)
  have hmsg : ArpMessage.ofBytes (seenBuffer buffer (ethFrame dst src 0x0806 msg.encode)) 14 =
      msg := by
    refine Eq.trans ?_ (ArpMessage.ofFrame_ethFrame dst src 0x0806 msg)
    exact ArpMessage.ofBytes_congr fun i _ hi =>
      seenBuffer_apply buffer (by rw [hlen]; omega) (by simp only [BUFLEN]; omega)
  rw [reaction, if_pos htype, hmsg]

/-- An echo reply has no effect. -/
theorem reaction_echoAnswer {f : Frame} (h : EchoAnswer f) (host : ArpHost) (cache : ArpCache)
    (buffer : Nat → UInt8) : (reaction host cache (seenBuffer buffer f)).1 = [] := by
  have hlong := h.long
  have htype := bufferType_seen buffer (f := f) (by omega)
  have h34 := seenBuffer_apply buffer (f := f) (i := 34) (by omega) (by decide)
  rw [reaction_idle]
  rintro (⟨harp, -⟩ | ⟨-, hecho⟩)
  · rw [htype, h.type] at harp
    exact absurd harp (by decide)
  · have := hecho.type
    rw [h34, h.icmp] at this
    exact absurd this (by decide)

/-- Nobody answers an ARP reply. -/
theorem not_answers_reply (host peer : ArpHost) (g : Frame) : ¬ Answers (host.reply peer) g := by
  rintro ⟨host', w, buffer, hw, hg⟩
  have hop : (2 : UInt16) ≠ 1 := by decide
  rw [(answers_eq hw.up buffer _).2, ArpHost.reply, reaction_arp,
    ArpHost.replies_nil fun _ _ => hop] at hg
  cases hg

/-- What is emitted in answer to a frame is answered with an ARP reply, if at all. -/
theorem Emitted.answered {f g : Frame} (h : Emitted f) (hg : Answers f g) :
    ∃ host peer : ArpHost, g = host.reply peer := by
  cases h with
  | request host ip =>
    obtain ⟨host', w, buffer, hw, hg⟩ := hg
    rw [(answers_eq hw.up buffer _).2, ArpHost.request, reaction_arp] at hg
    exact ⟨host', reply_of_mem_replies hg⟩
  | reply host peer => exact absurd hg (not_answers_reply host peer g)
  | echo h =>
    obtain ⟨host', w, buffer, hw, hg⟩ := hg
    rw [(answers_eq hw.up buffer _).2, reaction_echoAnswer h] at hg
    cases hg

/-! ## Cascades -/

/-- `f` is in generation `n` of the frames that the reception `r` triggers. -/
inductive Cascade (r : Reception) : Nat → Frame → Prop where
  | first {g : Frame} (h : r.Answered g) : Cascade r 1 g
  | next {n : Nat} {f g : Frame} (h : Cascade r n f) (hg : Answers f g) : Cascade r (n + 1) g

/-- The frames of a cascade, by generation. -/
theorem Cascade.generations {r : Reception} {n : Nat} {f : Frame} (h : Cascade r n f) :
    n = 1 ∧ Emitted f ∨ n = 2 ∧ ∃ host peer : ArpHost, f = host.reply peer := by
  induction h with
  | first h => exact Or.inl ⟨rfl, r.emitted h⟩
  | next _ hg ih =>
    rcases ih with ⟨rfl, hf⟩ | ⟨rfl, host, peer, rfl⟩
    · exact Or.inr ⟨rfl, hf.answered hg⟩
    · exact absurd hg (not_answers_reply host peer _)

theorem Cascade.le_two {r : Reception} {n : Nat} {f : Frame} (h : Cascade r n f) : n ≤ 2 := by
  rcases h.generations with ⟨rfl, -⟩ | ⟨rfl, -⟩
  · decide
  · decide

/-! ## Networks -/

/-- The hosts, `none` for a process that has exited, and the frames emitted in answer to the initial
frame, each with its generation. -/
structure StormNet (ι : Type) where
  hosts : ι → Option World
  frames : List (Nat × Frame)

/-- The host after a round. -/
def World.after (w : World) (buffer : Nat → UInt8) (frame : Frame) : Option World :=
  match processIoBody (some frame) (w.withRx buffer) with
  | (.ok (), w') => some w'
  | (.error _, _) => none

/-- Host `i`, in state `w`, receives a frame of generation `n`. -/
def StormNet.receive {ι : Type} [DecidableEq ι] (s : StormNet ι) (i : ι) (w : World)
    (buffer : Nat → UInt8) (n : Nat) (f : Frame) : StormNet ι where
  hosts := Function.update s.hosts i (w.after buffer f)
  frames := s.frames ++ (w.answers buffer f).map fun g => (n + 1, g)

/-- What the network can do when `initial` may be received anywhere, any number of times. -/
inductive StormNet.Reachable {ι : Type} [DecidableEq ι] (host : ι → ArpHost) (initial : Frame) :
    StormNet ι → Prop where
  | start (net : ι → World) (h : ∀ i, (net i).Reachable (host i)) :
      Reachable host initial ⟨fun i => some (net i), []⟩
  /-- The initial frame is received. -/
  | initial {s : StormNet ι} {i : ι} {w : World} (r : Reception) (h : Reachable host initial s)
      (hw : s.hosts i = some w) (hr : r.frame = initial) :
      Reachable host initial (s.receive i w r.buffer 0 r.frame)
  /-- A frame emitted earlier is received, not necessarily for the first time. -/
  | deliver {s : StormNet ι} {i : ι} {w : World} {n : Nat} {f : Frame} (buffer : Nat → UInt8)
      (h : Reachable host initial s) (hw : s.hosts i = some w) (hf : (n, f) ∈ s.frames) :
      Reachable host initial (s.receive i w buffer n f)
  /-- A host is restarted, or goes on with other work. -/
  | other {s : StormNet ι} {i : ι} {w : World} (h : Reachable host initial s)
      (hw : w.Reachable (host i)) :
      Reachable host initial { s with hosts := Function.update s.hosts i (some w) }

/-- Hosts are in reachable states, and the frames are those of cascades. -/
structure StormNet.Bounded {ι : Type} (host : ι → ArpHost) (initial : Frame) (s : StormNet ι) :
    Prop where
  hosts : ∀ i w, s.hosts i = some w → w.Reachable (host i)
  frames : ∀ n f, (n, f) ∈ s.frames → ∃ r : Reception, r.frame = initial ∧ Cascade r n f

section Network

variable {ι : Type} [DecidableEq ι] {host : ι → ArpHost} {initial : Frame} {s : StormNet ι}

theorem World.Reachable.after {host : ArpHost} {w w' : World} (h : w.Reachable host)
    {buffer : Nat → UInt8} {frame : Frame} (hw : w.after buffer frame = some w') :
    w'.Reachable host := by
  unfold World.after at hw
  split at hw
  · rename_i hrun
    obtain rfl := Option.some.inj hw
    exact h.round buffer (some frame) hrun
  · cases hw

theorem reachable_update {hosts : ι → Option World}
    (h : ∀ i w, hosts i = some w → w.Reachable (host i)) {i : ι} {x : Option World}
    (hx : ∀ w, x = some w → w.Reachable (host i)) (j : ι) (w : World)
    (hw : Function.update hosts i x j = some w) : w.Reachable (host j) := by
  by_cases hj : j = i
  · subst hj
    rw [Function.update_self] at hw
    exact hx w hw
  · rw [Function.update_of_ne hj] at hw
    exact h j w hw

/-- A reception whose answers belong to the next generation. -/
theorem StormNet.Bounded.receive (h : s.Bounded host initial) {i : ι} {w : World}
    (hw : s.hosts i = some w) (buffer : Nat → UInt8) {n : Nat} {f : Frame}
    (hg : ∀ g, g ∈ w.answers buffer f → ∃ r : Reception, r.frame = initial ∧ Cascade r (n + 1) g) :
    (s.receive i w buffer n f).Bounded host initial := by
  refine ⟨reachable_update h.hosts fun w' hw' => (h.hosts _ _ hw).after hw', fun m g hmem => ?_⟩
  rcases List.mem_append.mp hmem with hmem | hmem
  · exact h.frames m g hmem
  · obtain ⟨g', hg', heq⟩ := List.mem_map.mp hmem
    obtain ⟨rfl, rfl⟩ := Prod.mk.inj heq
    exact hg g' hg'

theorem StormNet.Reachable.bounded (h : s.Reachable host initial) : s.Bounded host initial := by
  induction h with
  | start net hnet =>
    refine ⟨fun i w hw => ?_, fun n f hmem => by cases hmem⟩
    obtain rfl := Option.some.inj hw
    exact hnet i
  | @initial _ i w r _ hw hr ih =>
    exact ih.receive hw r.buffer fun g hg => ⟨r, hr, .first ⟨host i, w, ih.hosts _ _ hw, hg⟩⟩
  | @deliver _ i w n f buffer _ hw hf ih =>
    obtain ⟨r, hr, hcascade⟩ := ih.frames n f hf
    exact ih.receive hw buffer fun g hg =>
      ⟨r, hr, hcascade.next ⟨host i, w, buffer, ih.hosts _ _ hw, hg⟩⟩
  | other _ hw ih =>
    refine ⟨reachable_update ih.hosts fun w' hw' => ?_, ih.frames⟩
    obtain rfl := Option.some.inj hw'
    exact hw

end Network

/-- **No packet storms.** A round emits at most one frame. An answer to an answer to the initial
frame is never answered, whatever the hosts and their states; so in a network where every frame
may be received any number of times, no frame is past the second generation. -/
theorem no_packet_storm :
    (∀ (host : ArpHost) (w : World) (buffer : Nat → UInt8) (frame : Frame), w.Reachable host →
      ∃ out : List Frame, (processIoBody (some frame) (w.withRx buffer)).2.wire = w.wire ++ out ∧
        out.length ≤ 1) ∧
    (∀ (r : Reception) (f g : Frame), r.Answered f → Answers f g → ∀ h, ¬ Answers g h) ∧
    (∀ (ι : Type) [DecidableEq ι] (host : ι → ArpHost) (initial : Frame) (s : StormNet ι),
      s.Reachable host initial → ∀ n f, (n, f) ∈ s.frames → n ≤ 2) := by
  refine ⟨?_, ?_, ?_⟩
  · intro host w buffer frame hw
    obtain ⟨hwire, hout⟩ := answers_eq hw.up buffer frame
    exact ⟨_, hwire, by rw [hout]; exact reaction_length _ _ _⟩
  · intro r f g hf hg h hh
    have := (((Cascade.first hf).next hg).next hh).le_two
    omega
  · intro ι _ host initial s hs n f hmem
    obtain ⟨r, -, hcascade⟩ := hs.bounded.frames n f hmem
    exact hcascade.le_two

/-- `sampleEcho` at the host of `10.0.0.1` that does not know its sender: the request it broadcasts
is answered by the host of `10.0.0.2`, and nobody answers that. -/
theorem no_packet_storm_echo :
    ∃ (r : Reception) (f g : Frame), r.frame = sampleEcho ∧ r.Answered f ∧ Answers f g ∧
      ∀ h, ¬ Answers g h := by
  let host : ArpHost := ⟨0x0100000a, #v[2, 0, 0, 0, 0, 1]⟩
  let peer : ArpHost := ⟨0x0200000a, #v[2, 0, 0, 0, 0, 2]⟩
  let r : Reception := ⟨fun _ => 0, sampleEcho, by decide⟩
  obtain ⟨cache, hinit, -, hempty⟩ := arpInit_spec
  have hw : World.Reachable host _ := .boot (fun _ _ => 0) hinit
  have hv : World.Reachable peer _ := .boot (fun _ _ => 0) hinit
  have hecho : BufferEcho r.seen := by decide +kernel
  have hsrc : bufferSrc r.seen = peer.ip := by decide
  have hf : r.Answered (host.request peer.ip) := by
    refine ⟨host, _, hw, ?_⟩
    have hlook : (World.boot (fun _ _ => 0) host cache).cache.lookup
        (bufferSrc (seenBuffer r.buffer r.frame)) = none := hempty _
    rw [(answers_eq hw.up r.buffer r.frame).2, reaction, if_neg (by decide),
      if_pos ⟨by decide, hecho⟩]
    simp only [hlook]
    rw [← hsrc]
    exact List.mem_singleton_self _
  have hg : Answers (host.request peer.ip) (peer.reply host) := by
    refine ⟨peer, _, fun _ => 0, hv, ?_⟩
    rw [(answers_eq hv.up _ _).2, ArpHost.request, reaction_arp,
      ArpHost.replies_request ⟨⟨rfl, rfl⟩, rfl, rfl⟩ rfl rfl]
    exact List.mem_singleton_self _
  exact ⟨r, _, _, rfl, hf, hg, no_packet_storm.2.1 r _ _ hf hg⟩

end TcpIp
