import TcpIp.Protocols.IpRoundTrip
import TcpIp.Reaction

/-!
# The configured MAC address

`net_interface_init` gets both addresses as text. The IPv4 text goes through `inet_pton`; the MAC
text is copied as it is, so the stored address is its first six characters.

* `parseOctets`: what a textual MAC address says, two hexadecimal digits for each octet.
* `StackCall.run_emits`: every frame of every call carries the stored address, as its source and as
  the sender of an ARP message.
* `showsMac_iff`: the stored address is the one the text denotes for one address only,
  `33:33:3a:33:33:3a`, where `33` is the code of `3` and `3a` that of the colon.
-/

namespace TcpIp

open Bytes Prog World

/-! ## Initialisation -/

/-- `memcpy(mac, src_mac, 6)`: the first six characters. -/
def copyMac (srcMac : List UInt8) : Mac := Vector.ofFn fun i => srcMac.getD i 0

/-- `inetPton` is `inet_pton(AF_INET, ..)`; `none` is a result other than 1. -/
def netInterfaceInit (inetPton : List UInt8 → Option UInt32) (srcIp srcMac : List UInt8) :
    Except Stop NetInterface :=
  let mac := copyMac srcMac
  match inetPton srcIp with
  | some ip => .ok (netInterfaceStart ip mac)
  | none => .error (.exit 1)

/-- `net_interface_init` and `arp_init` as `main` calls them; the strings are parameters. -/
def mainInit (inetPton : List UInt8 → Option UInt32) (srcIp srcMac : List UInt8)
    (mem : Obj → Nat → UInt8) : Except Stop World := do
  let net ← netInterfaceInit inetPton srcIp srcMac
  match arpInit with
  | some cache => return { mem, touched := [], net, cache, wire := [] }
  | none => .error .hang

/-! ## Textual MAC addresses -/

/-- The value of a hexadecimal digit, of either case. -/
def hexDigit (c : UInt8) : Option Nat :=
  if 0x30 ≤ c.toNat ∧ c.toNat ≤ 0x39 then some (c.toNat - 0x30)
  else if 0x41 ≤ c.toNat ∧ c.toNat ≤ 0x46 then some (c.toNat - 0x41 + 10)
  else if 0x61 ≤ c.toNat ∧ c.toNat ≤ 0x66 then some (c.toNat - 0x61 + 10)
  else none

def hexOctet (high low : UInt8) : Option UInt8 := do
  let h ← hexDigit high
  let l ← hexDigit low
  return UInt8.ofNat (16 * h + l)

/-- Two-digit octets joined by colons. -/
def parseOctets : List UInt8 → Option (List UInt8)
  | [high, low] => do return [← hexOctet high low]
  | high :: low :: colon :: rest =>
    if colon = 0x3a then do return (← hexOctet high low) :: (← parseOctets rest) else none
  | _ => none

/-- The text is six octets joined by colons, those of `mac`. -/
def DenotesMac (text : List UInt8) (mac : Mac) : Prop := parseOctets text = some mac.toList

instance (text : List UInt8) (mac : Mac) : Decidable (DenotesMac text mac) :=
  inferInstanceAs (Decidable (_ = _))

section Text

variable {a b : UInt8}

theorem hexDigit_lt {v : Nat} (h : hexDigit a = some v) : v < 16 := by
  unfold hexDigit at h
  grind

/-- The code of a digit has the high half 3; that of a letter has 4 or 6. -/
theorem hexDigit_high {l : Nat} (hl : l < 16) {v : Nat} (h : hexDigit a = some v)
    (ha : a.toNat = 16 * v + l) : a = 0x33 := by
  apply UInt8.toNat_inj.mp
  unfold hexDigit at h
  grind

theorem hexDigit_three (h : hexDigit a = some 3) : a = 0x33 := by
  apply UInt8.toNat_inj.mp
  unfold hexDigit at h
  grind

/-- An octet and the digits it is read from. -/
theorem hexOctet_some {octet : UInt8} (h : hexOctet a b = some octet) :
    ∃ v l, hexDigit a = some v ∧ hexDigit b = some l ∧ octet.toNat = 16 * v + l := by
  simp only [hexOctet, Option.pure_def, Option.bind_eq_bind, Option.bind_eq_some_iff] at h
  obtain ⟨v, hv, l, hl, hvl⟩ := h
  have hv16 := hexDigit_lt hv
  have hl16 := hexDigit_lt hl
  refine ⟨v, l, hv, hl, ?_⟩
  rw [← Option.some.inj hvl, UInt8.toNat_ofNat', Nat.mod_eq_of_lt (by omega)]

/-- Only `33` denotes the code of the digit 3. -/
theorem hexOctet_three (h : hexOctet a b = some 0x33) : a = 0x33 ∧ b = 0x33 := by
  obtain ⟨v, l, hv, hl, hvl⟩ := hexOctet_some h
  have hl16 := hexDigit_lt hl
  have hsum : 0x33 = 16 * v + l := hvl
  obtain rfl : v = 3 := by omega
  obtain rfl : l = 3 := by omega
  exact ⟨hexDigit_three hv, hexDigit_three hl⟩

/-- No other octet is the code of its own first digit. -/
theorem hexOctet_self (h : hexOctet a b = some a) : a = 0x33 ∧ b = 0x33 := by
  obtain ⟨v, l, hv, hl, hvl⟩ := hexOctet_some h
  obtain rfl := hexDigit_high (hexDigit_lt hl) hv hvl
  exact hexOctet_three h

/-- The first octet of a text with more than one. -/
theorem parseOctets_cons {text rest : List UInt8} {octet octet' : UInt8}
    (h : parseOctets text = some (octet :: octet' :: rest)) :
    ∃ a b tail, text = a :: b :: 0x3a :: tail ∧ hexOctet a b = some octet ∧
      parseOctets tail = some (octet' :: rest) := by
  rcases text with _ | ⟨a, _ | ⟨b, _ | ⟨colon, tail⟩⟩⟩
  · cases h
  · cases h
  · simp [parseOctets, Option.bind_eq_some_iff] at h
  · rw [parseOctets] at h
    split at h
    · rename_i hcolon
      subst hcolon
      simp only [Option.pure_def, Option.bind_eq_bind, Option.bind_eq_some_iff,
        Option.some.injEq, List.cons.injEq] at h
      obtain ⟨o, ho, os, hos, rfl, rfl⟩ := h
      exact ⟨a, b, tail, rfl, ho, hos⟩
    · cases h

/-- The six characters that are copied: the digits of two octets with their colons. -/
theorem DenotesMac.start {text : List UInt8} {octets : Mac} (h : DenotesMac text octets) :
    ∃ a b c d tail octet octet' rest, text = a :: b :: 0x3a :: c :: d :: 0x3a :: tail ∧
      octets.toList = octet :: octet' :: rest ∧ hexOctet a b = some octet ∧
      hexOctet c d = some octet' := by
  have hoctets := Mac.toList_eq octets
  unfold DenotesMac at h
  rw [hoctets] at h
  obtain ⟨a, b, tail₁, rfl, hab, h⟩ := parseOctets_cons h
  obtain ⟨c, d, tail, rfl, hcd, -⟩ := parseOctets_cons h
  exact ⟨a, b, c, d, tail, _, _, _, rfl, hoctets, hab, hcd⟩

/-- The copied characters are the denoted octets for `33:33:3a:33:33:3a` only. -/
theorem copyMac_eq_iff {text : List UInt8} {octets : Mac} (h : DenotesMac text octets) :
    copyMac text = octets ↔ octets.toList = [0x33, 0x33, 0x3a, 0x33, 0x33, 0x3a] := by
  obtain ⟨a, b, c, d, tail, octet, octet', rest, rfl, hoctets, hab, hcd⟩ := h.start
  have hcopy : (copyMac (a :: b :: 0x3a :: c :: d :: 0x3a :: tail)).toList =
      [a, b, 0x3a, c, d, 0x3a] := by
    simp [copyMac, Mac.toList_eq]
  constructor
  · rintro rfl
    -- The first octet is the code of its own first digit; the second is that of the second digit.
    obtain ⟨rfl, hrest⟩ := List.cons.inj (hcopy.symm.trans hoctets)
    obtain ⟨rfl, -⟩ := List.cons.inj hrest
    obtain ⟨rfl, rfl⟩ := hexOctet_self hab
    obtain ⟨rfl, rfl⟩ := hexOctet_three hcd
    exact hcopy
  · intro hfixed
    obtain ⟨rfl, hrest⟩ := List.cons.inj (hoctets.symm.trans hfixed)
    obtain ⟨rfl, -⟩ := List.cons.inj hrest
    obtain ⟨rfl, rfl⟩ := hexOctet_three hab
    obtain ⟨rfl, rfl⟩ := hexOctet_three hcd
    exact Vector.toList_inj.mp (hcopy.trans hfixed.symm)

end Text

/-! ## Frames -/

/-- The frame shows `mac` as the address it comes from, and an ARP message in it also as its
sender. -/
structure CarriesMac (mac : Mac) (frame : Frame) : Prop where
  source : (frame.drop 6).take 6 = mac.toList
  sender : etherType frame = ETH_P_ARP → (ArpMessage.ofFrame frame).srcMac = mac

section Frames

variable {mac : Mac}

theorem ethFrame_source (dstMac : Mac) (protocol : UInt16) (payload : List UInt8) :
    ((ethFrame dstMac mac protocol payload).drop 6).take 6 = mac.toList := by
  simp only [ethFrame, List.append_assoc]
  rw [List.drop_left' dstMac.length_toList, List.take_left' mac.length_toList]

theorem carriesMac_arp (dstMac : Mac) {msg : ArpMessage} (h : msg.srcMac = mac) :
    CarriesMac mac (ethFrame dstMac mac ETH_P_ARP msg.encode) :=
  ⟨ethFrame_source _ _ _, fun _ => by rw [ArpMessage.ofFrame_ethFrame, h]⟩

theorem carriesMac_ip (dstMac : Mac) (payload : List UInt8) :
    CarriesMac mac (ethFrame dstMac mac ETH_P_IP payload) := by
  refine ⟨ethFrame_source _ _ _, fun htype => ?_⟩
  rw [etherType_ethFrame] at htype
  exact absurd htype (by decide)

theorem carriesMac_request (host : ArpHost) (ip : UInt32) :
    CarriesMac host.mac (host.request ip) := carriesMac_arp _ rfl

/-- What a round emits. -/
theorem carriesMac_reaction {host : ArpHost} {cache : ArpCache} {m : Nat → UInt8} {frame : Frame}
    (h : frame ∈ (reaction host cache m).1) : CarriesMac host.mac frame := by
  unfold reaction at h
  split at h
  · unfold ArpHost.replies at h
    split at h
    · rw [List.mem_singleton.mp h]
      exact carriesMac_arp _ rfl
    · cases h
  · split at h
    · split at h
      · rw [List.mem_singleton.mp h]
        exact carriesMac_ip _ _
      · rw [List.mem_singleton.mp h]
        exact carriesMac_request _ _
    · cases h

end Frames

/-! ## Calls -/

/-- The calls that can emit a frame: a round of `process_io`, and the functions of `arp.c` and
`ip.c` that send, on any header. -/
inductive StackCall where
  | processIo (input : ReadResult)
  | arpReply (header : Ptr)
  | arpResolveIpv4 (ipv4 : UInt32)
  | ipSendPacket (header : Ptr)
  | ipSend (dst : UInt32) (payload : List UInt8) (protocol : UInt32)

def StackCall.run : StackCall → M Unit
  | processIo input => processIoBody input
  | arpReply header => TcpIp.arpReply header
  | arpResolveIpv4 ipv4 => do
    let _ ← TcpIp.arpResolveIpv4 ipv4
    pure ()
  | ipSendPacket header => TcpIp.ipSendPacket header
  | ipSend dst payload protocol => TcpIp.ipSend dst payload protocol

/-- Calls one after another, each with the memory its caller prepared, until one of them ends the
process. -/
def stackRun : List ((Obj → Nat → UInt8) × StackCall) → World → World
  | [], w => w
  | (mem, call) :: calls, w =>
    match call.run { w with mem } with
    | (.ok _, w') => stackRun calls w'
    | (.error _, w') => w'

/-- The step from `w` to `w'` emits frames with `mac` only. -/
def World.Emits (mac : Mac) (w w' : World) : Prop :=
  ∃ frames, w'.wire = w.wire ++ frames ∧ ∀ frame ∈ frames, CarriesMac mac frame

section Calls

variable {host : ArpHost} {w w' : World}

theorem World.Serves.emits {frame : Frame} {mac : Mac} (h : w.Serves w' [frame])
    (hf : CarriesMac mac frame) : w.Emits mac w' :=
  ⟨[frame], h.wire, fun f hmem => by rwa [List.mem_singleton.mp hmem]⟩

theorem ipSendPacket_emits (hw : w.Up host) (header : Ptr) :
    w.Emits host.mac (TcpIp.ipSendPacket header w).2 := by
  obtain ⟨hr, rfl, hv⟩ := hw
  cases hlook : w.cache.lookup (htonl (w.u32 (header + 16))) with
  | some mac =>
    obtain ⟨_, w', -, hrun, -, hserves⟩ := ipSendPacket_cached hr hv hlook
    rw [hrun]
    exact hserves.emits (carriesMac_ip _ _)
  | none =>
    obtain ⟨w', hrun, -, hserves⟩ := ipSendPacket_miss hr hv hlook
    rw [hrun]
    exact hserves.emits (carriesMac_request w.net.host _)

theorem arpResolveIpv4_emits (hw : w.Up host) (ipv4 : UInt32) :
    w.Emits host.mac (TcpIp.arpResolveIpv4 ipv4 w).2 := by
  obtain ⟨hr, rfl, hv⟩ := hw
  cases hlook : w.cache.lookup ipv4 with
  | some mac =>
    obtain ⟨cell, hrun, -⟩ := arpResolveIpv4_hit hv hlook
    rw [hrun]
    exact ⟨[], (List.append_nil _).symm, by simp⟩
  | none =>
    obtain ⟨w', hrun, -, hserves⟩ := arpResolveIpv4_miss hr hv hlook
    rw [hrun]
    exact hserves.emits (carriesMac_request w.net.host _)

/-- One call emits frames with the stored address only. -/
theorem StackCall.run_emits (hw : w.Up host) (call : StackCall) :
    w.Emits host.mac (call.run w).2 := by
  cases call with
  | processIo input =>
    obtain ⟨hwire, -⟩ := processIoBody_reaction hw (w.mem .rx) input
    have hself : w.withRx (w.mem .rx) = w := by simp [World.withRx]
    rw [hself] at hwire
    exact ⟨_, hwire, fun frame => carriesMac_reaction⟩
  | arpReply header =>
    obtain ⟨w', hrun, -, hserves⟩ := arpReply_serves hw.ready header
    have hmac : w.net.mac = host.mac := congrArg ArpHost.mac hw.host
    show w.Emits host.mac (TcpIp.arpReply header w).2
    rw [hrun, ← hmac]
    exact hserves.emits (carriesMac_arp _ rfl)
  | arpResolveIpv4 ipv4 =>
    have hsnd : (StackCall.run (.arpResolveIpv4 ipv4) w).2 = (TcpIp.arpResolveIpv4 ipv4 w).2 :=
      bind_snd (fun _ _ => rfl) w
    rw [hsnd]
    exact arpResolveIpv4_emits hw ipv4
  | ipSendPacket header => exact ipSendPacket_emits hw header
  | ipSend dst payload protocol =>
    obtain ⟨q, W, hpacket, hsend⟩ := ipSend_packet w dst payload protocol
    obtain ⟨frames, hwire, hcarries⟩ := ipSendPacket_emits (hpacket.statics.up hw) q
    refine ⟨frames, ?_, hcarries⟩
    show (TcpIp.ipSend dst payload protocol w).2.wire = _
    rw [hsend, hwire, hpacket.statics.wire]

/-- A call that returns leaves the stack up. -/
theorem StackCall.run_up (hw : w.Up host) {call : StackCall}
    (hrun : call.run w = (.ok (), w')) : w'.Up host := by
  have hkeep : ∀ {α : Type} {x : M α}, Upkeeps x → (x w).2 = w' → w'.Up host :=
    fun hx hw' => hw' ▸ hw.keep hx
  cases call with
  | processIo input => exact hw.round hrun
  | arpReply header =>
    obtain ⟨w'', hrun', hcache, hserves⟩ := arpReply_serves hw.ready header
    obtain rfl : w'' = w' := congrArg Prod.snd (hrun'.symm.trans hrun)
    exact ⟨hserves.ready, hserves.host_eq.trans hw.host, by rw [hcache]; exact hw.valid⟩
  | arpResolveIpv4 ipv4 =>
    exact hkeep ((Upkeeps.arpResolveIpv4 ipv4).bind fun _ => Upkeeps.pure ())
      (congrArg Prod.snd hrun)
  | ipSendPacket header => exact hkeep (Upkeeps.ipSendPacket header) (congrArg Prod.snd hrun)
  | ipSend dst payload protocol =>
    exact hkeep (Upkeeps.ipSend dst payload protocol) (congrArg Prod.snd hrun)

/-- A run emits frames with the stored address only. -/
theorem stackRun_emits (hw : w.Up host) (calls : List ((Obj → Nat → UInt8) × StackCall)) :
    w.Emits host.mac (stackRun calls w) := by
  induction calls generalizing w with
  | nil => exact ⟨[], (List.append_nil _).symm, by simp⟩
  | cons first calls ih =>
    obtain ⟨mem, call⟩ := first
    have hw₁ : World.Up host { w with mem } := ⟨hw.ready, hw.host, hw.valid⟩
    obtain ⟨frames, hwire, hcarries⟩ := StackCall.run_emits hw₁ call
    rw [stackRun]
    rcases hrun : call.run { w with mem } with ⟨_ | _, w₂⟩
    · rw [hrun] at hwire
      exact ⟨frames, hwire, hcarries⟩
    · rw [hrun] at hwire
      obtain ⟨frames', hwire', hcarries'⟩ := ih (StackCall.run_up hw₁ hrun)
      refine ⟨frames ++ frames', by rw [hwire', hwire, List.append_assoc], fun f hf => ?_⟩
      exact (List.mem_append.mp hf).elim (hcarries f) (hcarries' f)

end Calls

/-! ## The address on the wire -/

/-- After the initialisation with `address` and `text`, every frame of every run shows `octets`. -/
def ShowsMac (inetPton : List UInt8 → Option UInt32) (address text : List UInt8) (octets : Mac) :
    Prop :=
  ∀ mem w, mainInit inetPton address text mem = .ok w →
    ∀ calls, ∀ frame ∈ (stackRun calls w).wire, CarriesMac octets frame

section Shows

variable {inetPton : List UInt8 → Option UInt32} {address : List UInt8} {ip : UInt32}

/-- The initialisation boots the host that has the copied address, with an empty cache. -/
theorem mainInit_ok (hip : inetPton address = some ip) (text : List UInt8)
    (mem : Obj → Nat → UInt8) :
    ∃ w, mainInit inetPton address text mem = .ok w ∧ w.Reachable ⟨ip, copyMac text⟩ ∧
      w.wire = [] ∧ ∀ ip', w.cache.lookup ip' = none := by
  obtain ⟨cache, hinit, -, hempty⟩ := arpInit_spec
  refine ⟨World.boot mem ⟨ip, copyMac text⟩ cache, ?_, .boot mem hinit, rfl, hempty⟩
  simp only [mainInit, netInterfaceInit, hip, hinit]
  rfl

/-- The wire shows the copied address and no other. -/
theorem showsMac_iff_copyMac (hip : inetPton address = some ip) (text : List UInt8)
    (octets : Mac) : ShowsMac inetPton address text octets ↔ copyMac text = octets := by
  constructor
  · intro hshows
    -- One request to an address that is not cached.
    obtain ⟨w, hinit, hreach, hwire, hempty⟩ := mainInit_ok hip text fun _ _ => 0
    have hup := hreach.up
    obtain ⟨w', hrun, -, hserves⟩ := arpResolveIpv4_miss hup.ready hup.valid (hempty 0)
    have hcall : StackCall.run (.arpResolveIpv4 0) { w with mem := w.mem } = (.ok (), w') :=
      bind_ok hrun
    have hframe := hshows _ w hinit [(w.mem, .arpResolveIpv4 0)] (w.net.host.request 0) (by
      rw [stackRun, hcall]
      show _ ∈ w'.wire
      rw [hserves.wire]
      simp)
    have hsource := (carriesMac_request w.net.host 0).source.symm.trans hframe.source
    rw [hup.host] at hsource
    exact Vector.toList_inj.mp hsource
  · rintro rfl mem w hinit calls frame hframe
    obtain ⟨w', hinit', hreach, hwire, -⟩ := mainInit_ok hip text mem
    obtain rfl : w = w' := Except.ok.inj (hinit.symm.trans hinit')
    obtain ⟨frames, hrun, hcarries⟩ := stackRun_emits hreach.up calls
    rw [hrun, hwire, List.nil_append] at hframe
    exact hcarries frame hframe

/-- **The configured address is on the wire for one address only**: the one whose octets are the
codes of the first six characters of its own text. -/
theorem showsMac_iff (hip : inetPton address = some ip) {text : List UInt8} {octets : Mac}
    (h : DenotesMac text octets) :
    ShowsMac inetPton address text octets ↔
      octets.toList = [0x33, 0x33, 0x3a, 0x33, 0x33, 0x3a] :=
  (showsMac_iff_copyMac hip text octets).trans (copyMac_eq_iff h)

end Shows

/-- The characters of a string literal. -/
def cString (s : String) : List UInt8 := s.toList.map fun c => c.toNat.toUInt8

/-- `inet_pton` on the address that `main` passes. -/
def sampleInetPton (address : List UInt8) : Option UInt32 :=
  if address = cString "10.0.0.4" then some 0x0400000a else none

/-- The one address, configured. -/
theorem showsMac_digits :
    ∃ octets : Mac, DenotesMac (cString "33:33:3A:33:33:3a") octets ∧
      ShowsMac sampleInetPton (cString "10.0.0.4") (cString "33:33:3A:33:33:3a") octets := by
  have hip : sampleInetPton (cString "10.0.0.4") = some 0x0400000a := by decide
  have h : DenotesMac (cString "33:33:3A:33:33:3a") ⟨#[0x33, 0x33, 0x3a, 0x33, 0x33, 0x3a], rfl⟩ := by
    decide
  exact ⟨_, h, (showsMac_iff hip h).mpr rfl⟩

/-- The call of `main`: the text denotes `00:0c:29:6d:50:25`, and the frames show
`30:30:3a:30:63:3a`. -/
theorem main_not_showsMac :
    sampleInetPton (cString "10.0.0.4") = some 0x0400000a ∧
      ∃ octets : Mac, octets.toList = [0x00, 0x0c, 0x29, 0x6d, 0x50, 0x25] ∧
        DenotesMac (cString "00:0c:29:6d:50:25") octets ∧
        ¬ ShowsMac sampleInetPton (cString "10.0.0.4") (cString "00:0c:29:6d:50:25") octets ∧
        ∃ wireMac : Mac, wireMac.toList = [0x30, 0x30, 0x3a, 0x30, 0x63, 0x3a] ∧
          ShowsMac sampleInetPton (cString "10.0.0.4") (cString "00:0c:29:6d:50:25") wireMac := by
  have hip : sampleInetPton (cString "10.0.0.4") = some 0x0400000a := by decide
  refine ⟨hip, ⟨#[0x00, 0x0c, 0x29, 0x6d, 0x50, 0x25], rfl⟩, rfl, by decide, ?_,
    copyMac (cString "00:0c:29:6d:50:25"), by decide, ?_⟩
  · rw [showsMac_iff_copyMac hip]
    decide
  · exact (showsMac_iff_copyMac hip _ _).mpr rfl

end TcpIp
