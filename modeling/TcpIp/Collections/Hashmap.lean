import Mathlib.Algebra.Ring.Int.Defs
import Mathlib.Data.List.Basic

/-!
# The hash map (`src/collections/hashmap.c`)

An open-addressing table with linear probing. Keys and values are the C `void*`s: types `K` and `V`
whose `default` is `NULL`, hashed and compared by the functions given to `hashmap_alloc`.

* Memory is not bounded: `calloc` returns zeroed slots. `capacity` is a `Nat`; `size` is an `Int`,
  because `hashmap_remove` decrements it without a check. `highest_bit` is the one place where a
  64-bit `long` can overflow before memory runs out, so it returns `none` there.
* A probe loop that visits every slot without stopping never ends. `hashmap_indexof` returns `none`
  then, and so does every function that waits for it.
* `hashmap_put` and `hashmap_expand` call each other. `hashmapPutN depth` is `hashmap_put` with at
  most `depth` activations on the stack, and `none` past that.
-/

namespace TcpIp

/-- `struct hashmap_element`. -/
structure HashmapElement (K V : Type) where
  used : Bool
  key : K
  value : V
deriving Repr, DecidableEq, Inhabited

/-- `struct hashmap`. -/
structure Hashmap (K V : Type) where
  array : List (HashmapElement K V)
  capacity : Nat
  size : Int
  hash : K → UInt64
  equals : K → K → Bool

/-- The largest `long`. -/
def longMax : Int := 2 ^ 63 - 1

/-- The loop of `highest_bit`. `none`: `ret <<= 1` overflows. Every run ends within 63 rounds. -/
def highestBitLoop (i : Int) : Nat → Int → Option Int
  | 0, _ => none
  | fuel + 1, ret =>
    if ret < i then
      if 2 * ret ≤ longMax then highestBitLoop i fuel (2 * ret) else none
    else some ret

def highestBit (i : Int) : Option Int := do
  let ret ← highestBitLoop i 64 1
  return ret.tdiv 2

section

variable {K V : Type} [Inhabited K] [Inhabited V]

/-- `calloc(n, sizeof(struct hashmap_element))`. -/
def callocElements (n : Nat) : List (HashmapElement K V) :=
  List.replicate n { used := false, key := default, value := default }

def hashmapAlloc (initialSize : Int) (hash : K → UInt64) (equals : K → K → Bool) :
    Option (Hashmap K V) := do
  let high ← highestBit initialSize
  let targetSize := if high * 2 < 16 then 16 else high * 2
  return { array := callocElements targetSize.toNat, capacity := targetSize.toNat, size := 0,
           hash, equals }

/-- `map->array[index]`. -/
def Hashmap.slot (map : Hashmap K V) (index : Nat) : HashmapElement K V :=
  map.array.getD index { used := false, key := default, value := default }

/-- The probe loop of `hashmap_indexof`, for at most `fuel` slots. -/
def hashmapIndexofLoop (map : Hashmap K V) (key : K) : Nat → Nat → Option Nat
  | 0, _ => none
  | fuel + 1, index =>
    let el := map.slot index
    if el.used then
      if map.equals key el.key then some index
      else hashmapIndexofLoop map key fuel ((index + 1) &&& (map.capacity - 1))
    else some index

/-- After `capacity` slots the probe is back at its start, so it never stops (`none`). -/
def hashmapIndexof (map : Hashmap K V) (key : K) : Option Nat :=
  hashmapIndexofLoop map key map.capacity ((map.hash key).toNat &&& (map.capacity - 1))

def hashmapContainsKey (map : Hashmap K V) (key : K) : Option Bool := do
  let index ← hashmapIndexof map key
  return (map.slot index).used

def hashmapGetOrDefault (map : Hashmap K V) (key : K) (dflt : V) : Option V := do
  let index ← hashmapIndexof map key
  let el := map.slot index
  return if el.used then el.value else dflt

def hashmapGet (map : Hashmap K V) (key : K) : Option V :=
  hashmapGetOrDefault map key default

def hashmapLgetOrDefault (map : Hashmap K V) (key : K) (dflt : Unit → V) : Option V := do
  let index ← hashmapIndexof map key
  let el := map.slot index
  return if el.used then el.value else dflt ()

/-- `hashmap_remove` clears the slot where the probe ends and decrements `size`, whether or not
that slot was used. -/
def hashmapRemove (map : Hashmap K V) (key : K) : Option (Hashmap K V) := do
  let index ← hashmapIndexof map key
  return { map with
    array := map.array.set index { map.slot index with used := false }
    size := map.size - 1 }

def hashmapClear (map : Hashmap K V) : Hashmap K V :=
  { map with array := map.array.map fun el => { el with used := false }, size := 0 }

def hashmapLoadFactor (map : Hashmap K V) : Int := (map.size * 100).tdiv map.capacity

def hashmapCapacity (map : Hashmap K V) : Nat := map.capacity

def hashmapSize (map : Hashmap K V) : Int := map.size

/-- `hashmap_put` from the probe on. -/
def hashmapStore (map : Hashmap K V) (key : K) (data : V) : Option (Hashmap K V) := do
  let index ← hashmapIndexof map key
  let el := map.slot index
  if !el.used then
    return { map with
      array := map.array.set index { used := true, key, value := data }
      size := map.size + 1 }
  else
    return { map with array := map.array.set index { el with value := data } }

/-- The table `hashmap_expand` starts to fill: twice the slots, all unused. -/
def Hashmap.doubled (map : Hashmap K V) : Hashmap K V :=
  { map with array := callocElements (2 * map.capacity), size := 0, capacity := 2 * map.capacity }

/-- One round of the loop of `hashmap_expand`: re-insert a used slot of the old array. -/
def hashmapReinsert (put : Hashmap K V → K → V → Option (Hashmap K V)) (map : Hashmap K V)
    (element : HashmapElement K V) : Option (Hashmap K V) :=
  if element.used then put map element.key element.value else some map

/-- `hashmap_expand`, given the `hashmap_put` its loop calls. -/
def hashmapExpandWith (put : Hashmap K V → K → V → Option (Hashmap K V)) (map : Hashmap K V) :
    Option (Hashmap K V) :=
  map.array.foldlM (hashmapReinsert put) map.doubled

/-- `hashmap_put` with at most `depth` nested activations. -/
def hashmapPutN : Nat → Hashmap K V → K → V → Option (Hashmap K V)
  | 0, _, _, _ => none
  | depth + 1, map, key, data => do
    let map ← if hashmapLoadFactor map > 70 then hashmapExpandWith (hashmapPutN depth) map
      else some map
    hashmapStore map key data

/-- Two activations suffice: the calls made while expanding never expand again
(`hashmapPutN_eq_put`). -/
def hashmapPut (map : Hashmap K V) (key : K) (data : V) : Option (Hashmap K V) :=
  hashmapPutN 2 map key data

def hashmapExpand (map : Hashmap K V) : Option (Hashmap K V) :=
  hashmapExpandWith hashmapPut map

end

end TcpIp
