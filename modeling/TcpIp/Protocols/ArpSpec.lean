import Mathlib.Data.Finmap
import TcpIp.NetInterface

/-!
# ARP messages and the reception algorithm of RFC 826

What the ARP module is for, without its memory: a message is a record of the fields on the wire, a
table is a finite map, and a host merges each message into its table and answers the requests for
its own address.

* `ArpMessage.encode`, `ArpMessage.ofBytes`: the 28 bytes of a message. The numeric fields are in
  network order; addresses are the raw bytes, kept as the native word they are read as.
* `ArpHost.merge`, `ArpHost.replies`: the two effects of a message on a host.
* `ArpHost.asks`: what a host sends to learn an address.
-/

namespace TcpIp

open Bytes

/-- An ARP message for IPv4 over Ethernet. -/
structure ArpMessage where
  hwType : UInt16
  proType : UInt16
  hwSize : UInt8
  proSize : UInt8
  opcode : UInt16
  srcMac : Mac
  srcIp : UInt32
  dstMac : Mac
  dstIp : UInt32
deriving DecidableEq

namespace ArpMessage

def encode (msg : ArpMessage) : List UInt8 :=
  bytes16 (swap16 msg.hwType) ++ bytes16 (swap16 msg.proType) ++ [msg.hwSize, msg.proSize] ++
    bytes16 (swap16 msg.opcode) ++ msg.srcMac.toList ++ bytes32 msg.srcIp ++ msg.dstMac.toList ++
    bytes32 msg.dstIp

/-- The message in a memory, from byte `p` on. -/
def ofBytes (m : Nat → UInt8) (p : Nat) : ArpMessage where
  hwType := le16 (m (p + 1)) (m p)
  proType := le16 (m (p + 3)) (m (p + 2))
  hwSize := m (p + 4)
  proSize := m (p + 5)
  opcode := le16 (m (p + 7)) (m (p + 6))
  srcMac := Vector.ofFn fun i => m (p + 8 + i)
  srcIp := le32 (m (p + 14)) (m (p + 15)) (m (p + 16)) (m (p + 17))
  dstMac := Vector.ofFn fun i => m (p + 18 + i)
  dstIp := le32 (m (p + 24)) (m (p + 25)) (m (p + 26)) (m (p + 27))

/-- The message of a frame: its bytes from 14 on. -/
def ofFrame (frame : Frame) : ArpMessage := ofBytes (fun i => frame.getD i 0) 14

/-- Ethernet and IPv4, with the address sizes of both. -/
def Supported (msg : ArpMessage) : Prop :=
  (msg.hwType = 1 ∧ msg.hwSize = 6) ∧ msg.proType = 0x0800 ∧ msg.proSize = 4

instance (msg : ArpMessage) : Decidable msg.Supported :=
  inferInstanceAs (Decidable (_ ∧ _))

/-- A request or reply between IPv4 hosts on Ethernet. -/
def ipv4 (opcode : UInt16) (srcMac : Mac) (srcIp : UInt32) (dstMac : Mac) (dstIp : UInt32) :
    ArpMessage :=
  { hwType := 1, proType := 0x0800, hwSize := 6, proSize := 4, opcode, srcMac, srcIp, dstMac,
    dstIp }

theorem length_encode (msg : ArpMessage) : msg.encode.length = 28 := by
  simp [encode]

/-- Only the 28 bytes matter. -/
theorem ofBytes_congr {m m' : Nat → UInt8} {p : Nat}
    (h : ∀ i, p ≤ i → i < p + 28 → m i = m' i) : ofBytes m p = ofBytes m' p := by
  have h' : ∀ k, k < 28 → m (p + k) = m' (p + k) := fun k hk => h _ (by omega) (by omega)
  have hmac : ∀ k, k ≤ 22 → (Vector.ofFn fun i : Fin 6 => m (p + k + i)) =
      Vector.ofFn fun i : Fin 6 => m' (p + k + i) := fun k hk =>
    congrArg Vector.ofFn (funext fun i => h _ (by omega) (by have := i.isLt; omega))
  simp only [ofBytes, hmac 8 (by decide), hmac 18 (by decide), h' 1, h' 2, h' 3, h' 4, h' 5, h' 6,
    h' 7, h' 14, h' 15, h' 16, h' 17, h' 24, h' 25, h' 26, h' 27, Nat.reduceLT,
    show m p = m' p from h' 0 (by decide)]

/-- The message of a frame is the one it was made of. -/
theorem ofFrame_ethFrame (dstMac srcMac : Mac) (protocol : UInt16) (msg : ArpMessage) :
    ofFrame (ethFrame dstMac srcMac protocol msg.encode) = msg := by
  obtain ⟨⟩ := msg
  simp only [ofFrame, ofBytes, ethFrame, encode, bytes16, bytes32, Mac.toList_eq,
    List.cons_append, List.nil_append, List.getD_cons_succ, List.getD_cons_zero,
    Nat.reduceAdd, byte16_swap16_zero, byte16_swap16_one, le16_bytes, le32_bytes, mk.injEq,
    true_and, and_true]
  -- The addresses, byte by byte.
  refine ⟨?_, ?_⟩ <;>
  · ext i hi
    rcases i with _ | _ | _ | _ | _ | _ | i
    all_goals first | omega | simp

end ArpMessage

/-- The transition table: the hardware address of each known protocol address. -/
abbrev ArpTable := Finmap fun _ : UInt32 => Mac

/-- A host's own addresses. -/
structure ArpHost where
  ip : UInt32
  mac : Mac

namespace ArpHost

/-- The sender's entry is overwritten if there is one, and made if the message is for this host. -/
def merge (host : ArpHost) (msg : ArpMessage) (table : ArpTable) : ArpTable :=
  if msg.Supported ∧ (msg.srcIp ∈ table ∨ msg.dstIp = host.ip) then
    table.insert msg.srcIp msg.srcMac
  else table

/-- A request for this host's address is answered to its sender. -/
def replies (host : ArpHost) (msg : ArpMessage) : List Frame :=
  if msg.Supported ∧ msg.dstIp = host.ip ∧ msg.opcode = 1 then
    [ethFrame msg.srcMac host.mac 0x0806
      (ArpMessage.ipv4 2 host.mac host.ip msg.srcMac msg.srcIp).encode]
  else []

theorem replies_request {host : ArpHost} {msg : ArpMessage} (hs : msg.Supported)
    (hip : msg.dstIp = host.ip) (hop : msg.opcode = 1) :
    host.replies msg = [ethFrame msg.srcMac host.mac 0x0806
      (ArpMessage.ipv4 2 host.mac host.ip msg.srcMac msg.srcIp).encode] :=
  if_pos ⟨hs, hip, hop⟩

theorem replies_nil {host : ArpHost} {msg : ArpMessage}
    (h : msg.Supported → msg.dstIp = host.ip → msg.opcode ≠ 1) : host.replies msg = [] :=
  if_neg fun h' => h h'.1 h'.2.1 h'.2.2

/-- The broadcast request for `ip`. -/
def request (host : ArpHost) (ip : UInt32) : Frame :=
  ethFrame (Vector.replicate 6 0xff) host.mac 0x0806
    (ArpMessage.ipv4 1 host.mac host.ip (Vector.replicate 6 0xff) ip).encode

/-- A known address costs no message, an unknown one a request. -/
def asks (host : ArpHost) (ip : UInt32) (table : ArpTable) : List Frame :=
  if ip ∈ table then [] else [host.request ip]

theorem lookup_merge (host : ArpHost) (msg : ArpMessage) (table : ArpTable) (ip : UInt32) :
    (host.merge msg table).lookup ip =
      if msg.Supported ∧ (msg.srcIp ∈ table ∨ msg.dstIp = host.ip) ∧ ip = msg.srcIp then
        some msg.srcMac
      else table.lookup ip := by
  unfold merge
  by_cases h : msg.Supported ∧ (msg.srcIp ∈ table ∨ msg.dstIp = host.ip)
  · rw [if_pos h]
    by_cases hip : ip = msg.srcIp
    · rw [if_pos ⟨h.1, h.2, hip⟩, hip, Finmap.lookup_insert]
    · rw [if_neg (fun h' => hip h'.2.2), Finmap.lookup_insert_of_ne _ hip]
  · rw [if_neg h, if_neg (fun h' => h ⟨h'.1, h'.2.1⟩)]

end ArpHost

end TcpIp
