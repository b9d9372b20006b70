import TcpIp.Lib.Bytes

/-!
# Shared types of the stack

The host is little-endian, as on the machines the stack runs on: a `uint16_t` read from memory has
the first byte as its low byte, and `htons`, `ntohs`, `htonl` and `ntohl` reverse the bytes.
-/

namespace TcpIp

open Bytes

/-- A MAC address. -/
abbrev Mac := Vector UInt8 6

theorem Mac.toList_eq (m : Mac) : m.toList = [m[0], m[1], m[2], m[3], m[4], m[5]] := by
  apply List.ext_getElem (by simp)
  intro i h1 h2
  simp only [List.length_cons, List.length_nil] at h2
  rcases i with _ | _ | _ | _ | _ | _ | i
  all_goals first | rfl | omega

/-- A locally administered address, numbered, for the hosts of the examples. -/
def sampleMac (n : UInt8) : Mac := #v[2, 0, 0, 0, 0, n]

/-- The bytes of an Ethernet frame. -/
abbrev Frame := List UInt8

/-- The ways the process ends or hangs inside a call. -/
inductive Stop where
  /-- `exit(code)`. -/
  | exit (code : Nat)
  /-- `abort()`. -/
  | abort
  /-- A failing `assert`. -/
  | assertion
  /-- A loop that never ends. -/
  | hang
deriving Repr, DecidableEq

def htons (v : UInt16) : UInt16 := swap16 v

def ntohs (v : UInt16) : UInt16 := swap16 v

def htonl (v : UInt32) : UInt32 := swap32 v

def ntohl (v : UInt32) : UInt32 := swap32 v

@[simp] theorem htons_ntohs (v : UInt16) : htons (ntohs v) = v := swap16_swap16 v

@[simp] theorem htonl_ntohl (v : UInt32) : htonl (ntohl v) = v := swap32_swap32 v

end TcpIp
