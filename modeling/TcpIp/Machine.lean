import Mathlib.Logic.Function.Basic
import TcpIp.Lib.Prog
import TcpIp.NetInterface
import TcpIp.Protocols.ArpCache

/-!
# The machine the handlers run on

A `World` is the memory the handlers' pointers reach, the static state of the stack (the network
interface and the ARP cache) and the frames written to the device. `M` is the monad of the modelled
functions: a run returns or stops (`exit`, `abort`, a failing `assert`, an endless loop), and keeps
the effects before the stop.

Memory is a set of objects, each a byte function from its first byte on. It is total: a read past
the end of an object gives whatever is there. `touched` records every byte the code reads or writes,
so that a bound on the accesses is a statement about the run. Text written to `stdout` and `stderr`
is not modelled; the bytes read to print it are.

Each primitive has a `_bind` lemma, which runs it at the head of a sequence (`simp` executes code
with them), and the accessors of a `World` have lemmas for what a touch and a write leave alone.
-/

namespace TcpIp

open Bytes Prog

/-- The objects that the handlers' pointers point into. -/
inductive Obj where
  /-- The receive buffer of `process_io`. -/
  | rx
  /-- The block of `ip_header_alloc`. -/
  | packet
  /-- The request block of `arp_resolve_ipv4`. -/
  | request
  /-- The local `sum` of `tcp_header_check`. -/
  | sum
deriving Repr, DecidableEq

/-- A pointer: an object and an offset in bytes. -/
structure Ptr where
  obj : Obj
  off : Nat
deriving Repr, DecidableEq

instance : HAdd Ptr Nat Ptr := ⟨fun p n => ⟨p.obj, p.off + n⟩⟩

@[simp] theorem Ptr.add_obj (p : Ptr) (n : Nat) : (p + n).obj = p.obj := rfl

@[simp] theorem Ptr.add_off (p : Ptr) (n : Nat) : (p + n).off = p.off + n := rfl

@[simp] theorem Ptr.add_add (p : Ptr) (m n : Nat) : p + m + n = p + (m + n) := by
  show Ptr.mk _ _ = Ptr.mk _ _
  simp [Nat.add_assoc]

/-- The `n` bytes from `q` on and the `k` bytes from `p` on are apart: they are in different
objects, or one range ends before the other begins. -/
def Ptr.Apart (q : Ptr) (n : Nat) (p : Ptr) (k : Nat) : Prop :=
  q.obj = p.obj → q.off + n ≤ p.off ∨ p.off + k ≤ q.off

section Apart

variable (p q : Ptr) (a b n k : Nat)

@[simp] theorem Ptr.apart_add_add : (p + a).Apart n (p + b) k ↔ a + n ≤ b ∨ b + k ≤ a := by
  simp only [Ptr.Apart, Ptr.add_obj, Ptr.add_off, true_imp_iff]
  omega

@[simp] theorem Ptr.apart_add_right : p.Apart n (p + b) k ↔ n ≤ b ∨ b + k = 0 := by
  simp only [Ptr.Apart, Ptr.add_obj, Ptr.add_off, true_imp_iff]
  omega

@[simp] theorem Ptr.apart_add_left : (p + a).Apart n p k ↔ a + n = 0 ∨ k ≤ a := by
  simp only [Ptr.Apart, Ptr.add_obj, Ptr.add_off, true_imp_iff]
  omega

end Apart

/-- The state of one thread's run. -/
structure World where
  mem : Obj → Nat → UInt8
  touched : List Ptr
  net : NetInterface
  cache : ArpCache
  wire : List Frame

abbrev M := Prog Stop World

/-! ## Memory accesses -/

namespace World

def u8 (w : World) (p : Ptr) : UInt8 := w.mem p.obj p.off

def u16 (w : World) (p : Ptr) : UInt16 := le16 (w.u8 p) (w.u8 (p + 1))

def u32 (w : World) (p : Ptr) : UInt32 :=
  le32 (w.u8 p) (w.u8 (p + 1)) (w.u8 (p + 2)) (w.u8 (p + 3))

/-- Six bytes. -/
def mac (w : World) (p : Ptr) : Mac := Vector.ofFn fun i => w.u8 (p + i.val)

/-- `n` bytes. -/
def bytes (w : World) (p : Ptr) (n : Nat) : List UInt8 := readN (w.mem p.obj) p.off n

/-- `o` is a fresh object of zero bytes. -/
def calloc (w : World) (o : Obj) : World :=
  { w with mem := Function.update w.mem o fun _ => 0 }

/-- Record an access to `n` bytes. -/
def touch (w : World) (p : Ptr) (n : Nat) : World :=
  { w with touched := w.touched ++ (List.range n).map fun i => p + i }

def write (w : World) (p : Ptr) (l : List UInt8) : World :=
  { w with mem := Function.update w.mem p.obj (writeL (w.mem p.obj) p.off l) }

end World

/-- The bytes are read, and the value is not used (it is printed). -/
def touch (p : Ptr) (n : Nat) : M Unit := fun w => (.ok (), w.touch p n)

def loadU8 (p : Ptr) : M UInt8 := fun w => (.ok (w.u8 p), w.touch p 1)

def loadU16 (p : Ptr) : M UInt16 := fun w => (.ok (w.u16 p), w.touch p 2)

def loadU32 (p : Ptr) : M UInt32 := fun w => (.ok (w.u32 p), w.touch p 4)

def loadMac (p : Ptr) : M Mac := fun w => (.ok (w.mac p), w.touch p 6)

def loadBytes (p : Ptr) (n : Nat) : M (List UInt8) := fun w => (.ok (w.bytes p n), w.touch p n)

def storeBytes (p : Ptr) (l : List UInt8) : M Unit :=
  fun w => (.ok (), (w.touch p l.length).write p l)

def storeU8 (p : Ptr) (v : UInt8) : M Unit := storeBytes p [v]

def storeU16 (p : Ptr) (v : UInt16) : M Unit := storeBytes p (bytes16 v)

def storeU32 (p : Ptr) (v : UInt32) : M Unit := storeBytes p (bytes32 v)

def storeMac (p : Ptr) (m : Mac) : M Unit := storeBytes p m.toList

/-- A fresh object of zero bytes (`calloc`). -/
def callocObj (o : Obj) : M Unit := Prog.modify (·.calloc o)

/-! ## Static state -/

def modifyNet (f : NetInterface → NetInterface) : M Unit :=
  Prog.modify fun w => { w with net := f w.net }

/-- Hand a frame to the device. -/
def emit (frame : Frame) : M Unit := Prog.modify fun w => { w with wire := w.wire ++ [frame] }

/-- Read the cache; `none` is a lookup that does not end. -/
def cacheQuery {α : Type} (f : ArpCache → Option α) : M α := fun w =>
  match f w.cache with
  | some a => (.ok a, w)
  | none => (.error .hang, w)

/-- Change the cache, or stop. -/
def cacheUpdate (f : ArpCache → Except Stop ArpCache) : M Unit := fun w =>
  match f w.cache with
  | .ok cache => (.ok (), { w with cache := cache })
  | .error e => (.error e, w)

def netInterfaceGetIp : M UInt32 := Prog.gets (·.net.ip)

def netInterfaceGetMac : M Mac := Prog.gets (·.net.mac)

/-! ## Sending -/

/-- `net_interface_send`: `len` bytes from `content` to `dst_mac`. `available` finding no queue
ends in `abort()`. -/
def netInterfaceSend (content : Ptr) (len : Nat) (dstMac : Mac) (protocol : UInt16) : M Unit := do
  let net ← Prog.gets (·.net)
  match available net with
  | none => Prog.stop .abort
  | some fi =>
    let totalSize := (len + sizeofEthHeader) % 2 ^ 32
    modifyNet (ensureHasSize fi totalSize)
    let payload ← loadBytes content len
    modifyNet (fillBuffer fi protocol dstMac payload)
    modifyNet (bufferHton fi)
    modifyNet (setBusy fi true)
    let net ← Prog.gets (·.net)
    emit (tunWrite fi totalSize net)
    modifyNet (setBusy fi false)

def BROADCAST : Mac := #v[0xff, 0xff, 0xff, 0xff, 0xff, 0xff]

def netInterfaceBroadcast (content : Ptr) (len : Nat) (protocol : UInt16) : M Unit :=
  netInterfaceSend content len BROADCAST protocol

/-! ## Running primitives -/

section Bind

variable {α β : Type} (p : Ptr) (w : World)

@[simp] theorem pure_bind (a : α) (f : α → M β) : ((pure a : M α) >>= f) w = f a w := rfl

@[simp] theorem gets_bind (g : World → α) (f : α → M β) :
    ((Prog.gets g : M α) >>= f) w = f (g w) w := rfl

@[simp] theorem touch_bind (n : Nat) (f : Unit → M β) :
    (touch p n >>= f) w = f () (w.touch p n) := rfl

@[simp] theorem loadU8_bind (f : UInt8 → M β) : (loadU8 p >>= f) w = f (w.u8 p) (w.touch p 1) := rfl

@[simp] theorem loadU16_bind (f : UInt16 → M β) :
    (loadU16 p >>= f) w = f (w.u16 p) (w.touch p 2) := rfl

@[simp] theorem loadU32_bind (f : UInt32 → M β) :
    (loadU32 p >>= f) w = f (w.u32 p) (w.touch p 4) := rfl

@[simp] theorem loadMac_bind (f : Mac → M β) :
    (loadMac p >>= f) w = f (w.mac p) (w.touch p 6) := rfl

@[simp] theorem loadBytes_bind (n : Nat) (f : List UInt8 → M β) :
    (loadBytes p n >>= f) w = f (w.bytes p n) (w.touch p n) := rfl

@[simp] theorem storeBytes_bind (l : List UInt8) (f : Unit → M β) :
    (storeBytes p l >>= f) w = f () ((w.touch p l.length).write p l) := rfl

@[simp] theorem storeU8_bind (v : UInt8) (f : Unit → M β) :
    (storeU8 p v >>= f) w = f () ((w.touch p 1).write p [v]) := rfl

@[simp] theorem storeU16_bind (v : UInt16) (f : Unit → M β) :
    (storeU16 p v >>= f) w = f () ((w.touch p 2).write p (bytes16 v)) := rfl

@[simp] theorem storeU32_bind (v : UInt32) (f : Unit → M β) :
    (storeU32 p v >>= f) w = f () ((w.touch p 4).write p (bytes32 v)) := rfl

@[simp] theorem storeMac_bind (m : Mac) (f : Unit → M β) :
    (storeMac p m >>= f) w = f () ((w.touch p m.toList.length).write p m.toList) := rfl

@[simp] theorem callocObj_bind (o : Obj) (f : Unit → M β) :
    (callocObj o >>= f) w = f () (w.calloc o) := rfl

@[simp] theorem netInterfaceGetIp_bind (f : UInt32 → M β) :
    (netInterfaceGetIp >>= f) w = f w.net.ip w := rfl

@[simp] theorem netInterfaceGetMac_bind (f : Mac → M β) :
    (netInterfaceGetMac >>= f) w = f w.net.mac w := rfl

theorem cacheQuery_bind {g : ArpCache → Option α} {a : α} (h : g w.cache = some a)
    (f : α → M β) : (cacheQuery g >>= f) w = f a w := by
  apply bind_ok
  simp only [cacheQuery, h]

theorem cacheUpdate_bind {g : ArpCache → Except Stop ArpCache} {cache : ArpCache}
    (h : g w.cache = .ok cache) (f : Unit → M β) :
    (cacheUpdate g >>= f) w = f () { w with cache := cache } := by
  apply bind_ok
  simp only [cacheUpdate, h]

@[simp] theorem modifyNet_bind (g : NetInterface → NetInterface) (f : Unit → M β) :
    (modifyNet g >>= f) w = f () { w with net := g w.net } := rfl

@[simp] theorem emit_bind (frame : Frame) (f : Unit → M β) :
    (emit frame >>= f) w = f () { w with wire := w.wire ++ [frame] } := rfl

@[simp] theorem touch_apply (n : Nat) : touch p n w = (.ok (), w.touch p n) := rfl

@[simp] theorem modifyNet_apply (g : NetInterface → NetInterface) :
    modifyNet g w = (.ok (), { w with net := g w.net }) := rfl

end Bind

/-! ## What touches and writes leave alone -/

namespace World

variable (w : World) (p q : Ptr) (n : Nat) (l : List UInt8)

@[simp] theorem touch_mem : (w.touch p n).mem = w.mem := rfl
@[simp] theorem touch_net : (w.touch p n).net = w.net := rfl
@[simp] theorem touch_cache : (w.touch p n).cache = w.cache := rfl
@[simp] theorem touch_wire : (w.touch p n).wire = w.wire := rfl
@[simp] theorem touch_u8 : (w.touch p n).u8 q = w.u8 q := rfl
@[simp] theorem touch_u16 : (w.touch p n).u16 q = w.u16 q := rfl
@[simp] theorem touch_u32 : (w.touch p n).u32 q = w.u32 q := rfl
@[simp] theorem touch_mac : (w.touch p n).mac q = w.mac q := rfl
@[simp] theorem touch_bytes (k : Nat) : (w.touch p n).bytes q k = w.bytes q k := rfl

@[simp] theorem calloc_net (o : Obj) : (w.calloc o).net = w.net := rfl
@[simp] theorem calloc_cache (o : Obj) : (w.calloc o).cache = w.cache := rfl
@[simp] theorem calloc_wire (o : Obj) : (w.calloc o).wire = w.wire := rfl

@[simp] theorem write_touched : (w.write p l).touched = w.touched := rfl
@[simp] theorem write_net : (w.write p l).net = w.net := rfl
@[simp] theorem write_cache : (w.write p l).cache = w.cache := rfl
@[simp] theorem write_wire : (w.write p l).wire = w.wire := rfl

theorem write_mem_same {o : Obj} (h : o = p.obj) :
    (w.write p l).mem o = writeL (w.mem p.obj) p.off l := by
  subst h; simp [write]

theorem write_mem_ne {o : Obj} (h : o ≠ p.obj) : (w.write p l).mem o = w.mem o := by
  simp [write, h]

variable {w p q n l}

@[simp] theorem write_bytes_ne (h : q.Apart n p l.length) :
    (w.write p l).bytes q n = w.bytes q n := by
  by_cases ho : q.obj = p.obj
  · rw [bytes, write_mem_same _ _ _ ho, readN_writeL_ne _ (h ho), ← ho]
    rfl
  · rw [bytes, write_mem_ne _ _ _ ho]
    rfl

@[simp] theorem write_u8_ne (h : q.Apart 1 p l.length) :
    (w.write p l).u8 q = w.u8 q := by
  have hb := write_bytes_ne (w := w) (n := 1) h
  simpa [bytes, readN, u8] using hb

@[simp] theorem write_u16_ne (h : q.Apart 2 p l.length) :
    (w.write p l).u16 q = w.u16 q := by
  have h8 : ∀ i, i < 2 → (w.write p l).u8 (q + i) = w.u8 (q + i) := fun i hi =>
    write_u8_ne fun ho => by have := h ho; simp only [Ptr.add_off]; omega
  exact congrArg₂ le16 (h8 0 (by decide)) (h8 1 (by decide))

@[simp] theorem write_u32_ne (h : q.Apart 4 p l.length) :
    (w.write p l).u32 q = w.u32 q := by
  have h8 : ∀ i, i < 4 → (w.write p l).u8 (q + i) = w.u8 (q + i) := fun i hi =>
    write_u8_ne fun ho => by have := h ho; simp only [Ptr.add_off]; omega
  have h0 : (w.write p l).u8 q = w.u8 q := h8 0 (by decide)
  rw [u32, h0, h8 1 (by decide), h8 2 (by decide), h8 3 (by decide)]
  rfl

@[simp] theorem write_mac_ne (h : q.Apart 6 p l.length) :
    (w.write p l).mac q = w.mac q := by
  refine congrArg Vector.ofFn (funext fun i => write_u8_ne fun ho => ?_)
  have := h ho
  have := i.isLt
  simp only [Ptr.add_off]
  omega

theorem write_bytes_same (h : n = l.length) : (w.write p l).bytes p n = l := by
  subst h
  unfold bytes
  rw [write_mem_same _ _ _ rfl, readN_writeL_same]

/-- Any bytes may be in memory. -/
theorem exists_bytes (p : Ptr) (l : List UInt8) : ∃ w : World, w.bytes p l.length = l := by
  obtain ⟨cache, -⟩ := arpInit_spec
  let w : World := ⟨fun _ _ => 0, [], netInterfaceStart 0 BROADCAST, cache, []⟩
  exact ⟨w.write p l, write_bytes_same rfl⟩

/-! The accessors read memory only. -/

theorem bytes_congr {w' : World} (h : w'.mem = w.mem) : w'.bytes p n = w.bytes p n := by
  rw [bytes, h]; rfl

theorem u16_congr {w' : World} (h : w'.mem = w.mem) : w'.u16 p = w.u16 p := by
  simp only [u16, u8, h]

theorem u32_congr {w' : World} (h : w'.mem = w.mem) : w'.u32 p = w.u32 p := by
  simp only [u32, u8, h]

theorem getD_bytes {i : Nat} (h : i < n) : (w.bytes p n).getD i 0 = w.u8 (p + i) := getD_readN h 0

theorem u8_of_bytes (h : w.bytes p n = l) {i : Nat} (hi : i < n) : w.u8 (p + i) = l.getD i 0 := by
  rw [← h, getD_bytes hi]

/-- A word of a message in host order. -/
theorem ntohs_u16_of_bytes (h : w.bytes p n = l) {i : Nat} (hi : i + 2 ≤ n) :
    (ntohs (w.u16 (p + i))).toNat = be16 l i := by
  have h0 : w.u8 (p + i) = l.getD i 0 := u8_of_bytes h (by omega)
  have h1 : w.u8 (p + i + 1) = l.getD (i + 1) 0 := u8_of_bytes h (i := i + 1) (by omega)
  rw [u16, h0, h1, ntohs, swap16_le16, le16_toNat, be16]
  omega

theorem u32_toUInt16 : (w.u32 p).toUInt16 = w.u16 p := le32_toUInt16 _ _ _ _

/-- A write that starts inside the range read. -/
theorem write_bytes_overlay (i : Nat) :
    (w.write (p + i) l).bytes p n = overlay (w.bytes p n) i l := by
  unfold bytes
  rw [write_mem_same w (p + i) l (Ptr.add_obj p i).symm]
  exact readN_writeL_overlay _ _ _ _ _

/-- The last of two writes to one place counts. -/
theorem write_write_mem {l' : List UInt8} (h : l.length = l'.length) :
    ((w.write p l).write p l').mem = (w.write p l').mem := by
  simp only [write, Function.update_self, Function.update_idem, writeL_writeL _ _ h]

/-- Writing what is there changes nothing. -/
theorem write_bytes_mem : (w.write p (w.bytes p n)).mem = w.mem := by
  simp only [write, bytes, writeL_readN, Function.update_eq_self]

theorem write_mem_congr {w' : World} (h : w'.mem = w.mem) :
    (w'.write p l).mem = (w.write p l).mem := by
  simp only [write, h]

/-! A word or an address and its bytes. -/

theorem bytes_one : w.bytes p 1 = [w.u8 p] := rfl

theorem bytes_two : w.bytes p 2 = bytes16 (w.u16 p) := by
  unfold u16
  rw [bytes16_le16]
  rfl

theorem bytes_four : w.bytes p 4 = bytes32 (w.u32 p) := by
  unfold u32
  rw [bytes32_le32]
  rfl

theorem bytes_six : w.bytes p 6 = (w.mac p).toList := by
  apply List.ext_getElem
  · simp [bytes]
  · intro i h1 h2
    simp only [bytes, getElem_readN, mac, Vector.getElem_toList, Vector.getElem_ofFn, u8]
    rfl

theorem bytes_add (m k : Nat) : w.bytes p (m + k) = w.bytes p m ++ w.bytes (p + m) k :=
  readN_add _ _ _ _

@[simp] theorem write_u8_same (v : UInt8) : (w.write p [v]).u8 p = v := by
  simpa [bytes_one] using write_bytes_same (w := w) (p := p) (l := [v]) rfl

@[simp] theorem write_u16_same (v : UInt16) : (w.write p (bytes16 v)).u16 p = v := by
  have h := write_bytes_same (w := w) (p := p) (l := bytes16 v) rfl
  exact bytes16_inj (bytes_two.symm.trans h)

@[simp] theorem write_u32_same (v : UInt32) : (w.write p (bytes32 v)).u32 p = v := by
  have h := write_bytes_same (w := w) (p := p) (l := bytes32 v) rfl
  exact bytes32_inj (bytes_four.symm.trans h)

@[simp] theorem write_mac_same (m : Mac) : (w.write p m.toList).mac p = m := by
  have h := write_bytes_same (w := w) (p := p) (l := m.toList) m.length_toList.symm
  exact Vector.toList_inj.mp (bytes_six.symm.trans h)

end World

/-! ## Code that only works on memory -/

/-- The static state is the same. -/
structure World.SameStatics (w w' : World) : Prop where
  net : w'.net = w.net
  cache : w'.cache = w.cache
  wire : w'.wire = w.wire

theorem World.SameStatics.refl (w : World) : w.SameStatics w := ⟨rfl, rfl, rfl⟩

theorem World.SameStatics.trans {w w' w'' : World} (h : w.SameStatics w')
    (h' : w'.SameStatics w'') : w.SameStatics w'' :=
  ⟨h'.net.trans h.net, h'.cache.trans h.cache, h'.wire.trans h.wire⟩

/-- The code returns and does not change the static state. -/
abbrev Silent {α : Type} (x : M α) : Prop := Prog.Returns World.SameStatics x

namespace Silent

variable {α β : Type}

theorem pure (a : α) : Silent (Pure.pure a) := Returns.pure World.SameStatics.refl a

theorem bind {x : M α} {f : α → M β} (hx : Silent x) (hf : ∀ a, Silent (f a)) :
    Silent (x >>= f) :=
  Returns.bind (R := World.SameStatics) (fun h h' => h.trans h') hx hf

theorem touch (p : Ptr) (n : Nat) : Silent (TcpIp.touch p n) :=
  fun _ => ⟨_, _, rfl, rfl, rfl, rfl⟩

theorem loadU8 (p : Ptr) : Silent (TcpIp.loadU8 p) := fun _ => ⟨_, _, rfl, rfl, rfl, rfl⟩

theorem loadU16 (p : Ptr) : Silent (TcpIp.loadU16 p) := fun _ => ⟨_, _, rfl, rfl, rfl, rfl⟩

theorem loadU32 (p : Ptr) : Silent (TcpIp.loadU32 p) := fun _ => ⟨_, _, rfl, rfl, rfl, rfl⟩

theorem loadBytes (p : Ptr) (n : Nat) : Silent (TcpIp.loadBytes p n) :=
  fun _ => ⟨_, _, rfl, rfl, rfl, rfl⟩

theorem storeBytes (p : Ptr) (l : List UInt8) : Silent (TcpIp.storeBytes p l) :=
  fun _ => ⟨_, _, rfl, rfl, rfl, rfl⟩

end Silent

/-! ## One send -/

/-- A step of the stack from `w` to `w'`: the interface has its addresses and is ready again, and
`frames` went out. -/
structure World.Serves (w w' : World) (frames : List Frame) : Prop where
  ready : w'.net.Ready
  ip : w'.net.ip = w.net.ip
  mac : w'.net.mac = w.net.mac
  wire : w'.wire = w.wire ++ frames

theorem World.Serves.of_eq {w w' : World} (hr : w.net.Ready) (hnet : w'.net = w.net)
    (hwire : w'.wire = w.wire) : w.Serves w' [] :=
  ⟨by rw [hnet]; exact hr, by rw [hnet], by rw [hnet], by rw [hwire, List.append_nil]⟩

theorem World.Serves.trans {w w' w'' : World} {f g : List Frame} (h : w.Serves w' f)
    (h' : w'.Serves w'' g) : w.Serves w'' (f ++ g) :=
  ⟨h'.ready, h'.ip.trans h.ip, h'.mac.trans h.mac, by rw [h'.wire, h.wire, List.append_assoc]⟩

/-- Before the step only memory and the cache changed. -/
theorem World.Serves.start {w w₁ w' : World} {f : List Frame} (h : w₁.Serves w' f)
    (hnet : w₁.net = w.net) (hwire : w₁.wire = w.wire) : w.Serves w' f :=
  ⟨h.ready, by rw [h.ip, hnet], by rw [h.mac, hnet], by rw [h.wire, hwire]⟩

/-- **`net_interface_send`** between calls: it returns and writes one frame. -/
theorem netInterfaceSend_spec {w : World} (hr : w.net.Ready) (content : Ptr) {len : Nat}
    (hlen : len + 14 < 2 ^ 32) (dstMac : Mac) (protocol : UInt16) :
    ∃ w', netInterfaceSend content len dstMac protocol w = (.ok (), w') ∧
      w.Serves w' [ethFrame dstMac w.net.mac protocol (w.bytes content len)] ∧
      w'.cache = w.cache ∧ w'.mem = w.mem := by
  have htotal : (len + sizeofEthHeader) % 2 ^ 32 = 14 + (w.bytes content len).length := by
    unfold World.bytes
    rw [length_readN, sizeofEthHeader, Nat.mod_eq_of_lt hlen, Nat.add_comm]
  obtain ⟨hframe, hready⟩ := writtenNet_spec hr protocol dstMac (w.bytes content len)
  refine ⟨{ w.touch content len with
      net := setBusy 0 false (writtenNet protocol dstMac (w.bytes content len) w.net)
      wire := w.wire ++ [ethFrame dstMac w.net.mac protocol (w.bytes content len)] },
    ?_, ⟨hready, writtenNet_ip protocol dstMac _, writtenNet_mac protocol dstMac _, rfl⟩, rfl,
    rfl⟩
  rw [← hframe]
  simp only [netInterfaceSend, gets_bind, available_ready hr, modifyNet_bind, loadBytes_bind,
    emit_bind, modifyNet_apply, htotal]
  rfl

end TcpIp
