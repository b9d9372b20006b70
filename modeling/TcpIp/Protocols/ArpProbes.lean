import Mathlib.Algebra.Order.Ring.Nat
import TcpIp.Collections.HashmapEntries
import TcpIp.Protocols.ArpNetwork
import TcpIp.Run

/-!
# The cost of the ARP hash

`hash` of `src/protocols/arp.c` is the key itself, of which the table uses the lowest bits. These are
the first octets of the address, as it is in network order. So in a table of at most 2^24 slots all
addresses with the same first three octets start at the same slot, and a lookup goes through all of
them.
-/

namespace TcpIp

open World

/-- The key is that of an address with the first three octets of `x`. -/
def SameNet (x : UInt32) (key : KeyRef) : Prop := key.val.toNat % 2 ^ 24 = x.toNat % 2 ^ 24

instance (x : UInt32) (key : KeyRef) : Decidable (SameNet x key) :=
  inferInstanceAs (Decidable (_ = _))

/-- Such keys have the same home. -/
theorem ArpCache.Valid.home_eq {cache : ArpCache} (hv : cache.Valid)
    (hcap : cache.map.capacity ≤ 2 ^ 24) {x : UInt32} {key : KeyRef} (h : SameNet x key) :
    cache.map.home key = cache.map.home (stackKey ARP_IPV4 x) := by
  obtain ⟨b, -, hb⟩ := hv.sound.pow
  have hdvd : cache.map.capacity ∣ 2 ^ 24 := by
    rw [hb] at hcap ⊢
    exact Nat.pow_dvd_pow 2 ((Nat.pow_le_pow_iff_right (by decide)).mp hcap)
  have hkey : (toKey ARP_IPV4 x).toNat % 2 ^ 24 = x.toNat % 2 ^ 24 := by
    rw [toKey_toNat]
    omega
  have hmod : ∀ n, n % 2 ^ 24 % cache.map.capacity = n % cache.map.capacity := fun n =>
    Nat.mod_mod_of_dvd n hdvd
  show (cache.map.hash key).toNat % _ = (cache.map.hash _).toNat % _
  rw [hv.hash]
  show key.val.toNat % _ = (toKey ARP_IPV4 x).toNat % _
  rw [← hmod, ← hmod (toKey ARP_IPV4 x).toNat, hkey, h]

end TcpIp
