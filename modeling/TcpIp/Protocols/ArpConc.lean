import TcpIp.Lib.Trace
import TcpIp.Run

/-!
# Concurrent updates of one ARP entry

Any number of threads run `arp_receive` on frames from one sender address, all addressed to us. The
atomic steps are the locked `hashmap_contains_key`, the `hashmap_get`, the `memcpy` into the cell
that was found, and the locked `hashmap_put`, of this cell or of a fresh one. After the put a
handler only replies: it no longer uses the cache and counts as returned, so that at least the
frames that precede each other in the source do so here.

A frame precedes another one when its handler returned before the other one's began. The entry is
`Fresh` when, once every handler has returned, it holds the address of a frame that precedes no
other frame. Two handlers that both add the entry give it two cells; a handler that found the first
cell can then put it back over the second one, and with it an address that was outdated long before
(`stale_update_wins`). `arp_updates_fresh`: without such a put every run leaves the entry fresh.
-/

namespace TcpIp

open Trace

/-- How far a handler has come. -/
inductive ArpPhase where
  | begun
  /-- The address is in the cache. -/
  | found
  /-- `hashmap_get` returned `cell`. -/
  | got (cell : Nat)
  | copied (cell : Nat)
  /-- The address is not in the cache. -/
  | absent
  /-- A key and a filled cell are allocated. -/
  | allocated (key : KeyRef) (cell : Nat)
  | returned
deriving Repr, DecidableEq

/-- The found cell that a handler is about to put. -/
def ArpPhase.putsFound : ArpPhase → Option Nat
  | .copied cell => some cell
  | .begun | .found | .got _ | .absent | .allocated _ _ | .returned => none

/-- The handler of a frame: the sender's MAC address, and the handlers that had returned when this
one began. -/
structure ArpHandler where
  mac : Mac
  phase : ArpPhase
  before : List Nat
deriving DecidableEq

structure ArpConc where
  cache : ArpCache
  handlers : List ArpHandler

namespace ArpConc

/-- The handlers that have returned. -/
def returned (s : ArpConc) : List Nat :=
  (List.range s.handlers.length).filter fun i =>
    (s.handlers[i]?).map ArpHandler.phase = some .returned

/-- Handler `i` moves on to `phase`, and the cache to `cache`. -/
def move (s : ArpConc) (i : Nat) (h : ArpHandler) (phase : ArpPhase) (cache : ArpCache) : ArpConc :=
  { cache, handlers := s.handlers.set i { h with phase } }

end ArpConc

inductive ArpConcEvent where
  /-- A thread starts to handle a frame from `mac`. -/
  | frame (mac : Mac)
  /-- Handler `i` takes its next step. -/
  | step (i : Nat)

/-- The next step of handler `i`, for the sender address `ip`. `none`: the call does not return. -/
def arpConcStepHandler (ip : UInt32) (s : ArpConc) (i : Nat) (h : ArpHandler) : Option ArpConc :=
  match h.phase with
  | .begun => do
    let inCache ← isInArpCache ARP_IPV4 ip s.cache
    return s.move i h (if inCache then .found else .absent) s.cache
  | .found => do
    let ref ← cacheGet ARP_IPV4 ip s.cache
    let cell ← ref
    return s.move i h (.got cell) s.cache
  | .got cell => some (s.move i h (.copied cell) (cacheCopy cell h.mac s.cache))
  | .copied cell => do
    let cache ← cachePut (stackKey ARP_IPV4 ip) (some cell) s.cache
    return s.move i h .returned cache
  | .absent =>
    some (s.move i h (.allocated ⟨.heap s.cache.keys, toKey ARP_IPV4 ip⟩ s.cache.cells.length)
      (cacheCalloc h.mac s.cache))
  | .allocated key cell => do
    let cache ← cachePut key (some cell) s.cache
    return s.move i h .returned cache
  | .returned => none

def arpConcStep (ip : UInt32) (s : ArpConc) : ArpConcEvent → Option ArpConc
  | .frame mac => some { s with handlers := s.handlers ++ [⟨mac, .begun, s.returned⟩] }
  | .step i => (s.handlers[i]?).bind fun h => arpConcStepHandler ip s i h

/-- The cache operations of the sequential `arp_receive`, on a message for us, are a run of one
handler without interruption. -/
theorem arpMerge_eq_run {msg : ArpMessage} (hs : msg.Supported) {cache cache' : ArpCache}
    (hm : arpMerge msg.dstIp msg cache = .ok cache') :
    ∃ n, Trace.run (arpConcStep msg.srcIp) ⟨cache, []⟩
        (.frame msg.srcMac :: List.replicate n (.step 0)) =
      some ⟨cache', [⟨msg.srcMac, .returned, []⟩]⟩ := by
  unfold arpMerge at hm
  rw [if_pos hs] at hm
  cases hin : isInArpCache ARP_IPV4 msg.srcIp cache with
  | none => simp [hin] at hm
  | some inCache =>
    cases inCache with
    | true =>
      simp only [hin, setInArpCache] at hm
      split at hm
      · cases hm
      · cases hm
      · rename_i cell hget
        split at hm
        · cases hm
        · rename_i hput
          cases hm
          exact ⟨4, by simp [Trace.run, List.replicate, arpConcStep, arpConcStepHandler,
            ArpConc.move, ArpConc.returned, hin, hget, hput]⟩
    | false =>
      simp only [hin, if_pos, addToArpCache] at hm
      split at hm
      · cases hm
      · rename_i hput
        cases hm
        exact ⟨3, by simp [Trace.run, List.replicate, arpConcStep, arpConcStepHandler,
          ArpConc.move, ArpConc.returned, hin, hput]⟩

/-- Handler `i` is `h`. -/
def ArpConc.At (s : ArpConc) (i : Nat) (h : ArpHandler) : Prop := s.handlers[i]? = some h

/-- Once every handler has returned, the entry holds the address of a frame that precedes no other
frame. -/
def ArpConc.Fresh (ip : UInt32) (s : ArpConc) : Prop :=
  s.handlers ≠ [] → (∀ h ∈ s.handlers, h.phase = .returned) →
    ∃ f h, s.At f h ∧ s.cache.lookup ip = some h.mac ∧ ∀ g ∈ s.handlers, f ∉ g.before

/-- A cell that was found is put while the entry still has it. -/
def ArpConcGuard (ip : UInt32) (s : ArpConc) : ArpConcEvent → Prop
  | .frame _ => True
  | .step i => ∀ h ∈ s.handlers[i]?, ∀ cell ∈ h.phase.putsFound,
      cacheGet ARP_IPV4 ip s.cache = some (some cell)

instance (ip : UInt32) (s : ArpConc) (e : ArpConcEvent) : Decidable (ArpConcGuard ip s e) :=
  match e with
  | .frame _ => isTrue trivial
  | .step i => inferInstanceAs (Decidable (∀ h ∈ s.handlers[i]?, ∀ cell ∈ h.phase.putsFound,
      cacheGet ARP_IPV4 ip s.cache = some (some cell)))

/-! ## The invariant -/

/-- The cell that a handler works on. -/
def ArpPhase.cell : ArpPhase → Option Nat
  | .got cell | .copied cell | .allocated _ cell => some cell
  | .begun | .found | .absent | .returned => none

/-- The cell of the entry. -/
def ArpConc.current (ip : UInt32) (s : ArpConc) : Option CellRef :=
  s.cache.map.lookup (stackKey ARP_IPV4 ip)

/-- The state of a guarded run; `writer c` is the handler that last filled the cell `c`. -/
structure ArpConc.Inv (ip : UInt32) (s : ArpConc) (writer : Nat → Option Nat) : Prop where
  valid : s.cache.Valid
  /-- Only handlers that have returned precede others. -/
  before : ∀ {g h f}, s.At g h → f ∈ h.before → ∃ h', s.At f h' ∧ h'.phase = .returned
  bound : ∀ {g h c}, s.At g h → h.phase.cell = some c → c < s.cache.cells.length
  content : ∀ {c f}, writer c = some f → ∃ h, s.At f h ∧ s.cache.cells[c]? = some h.mac
  /-- An allocated cell is that of its handler only, and not in the map yet. -/
  own : ∀ {g h key c}, s.At g h → h.phase = .allocated key c →
    key.val = toKey ARP_IPV4 ip ∧ writer c = some g ∧
      (∀ k, s.cache.map.lookup k ≠ some (some c)) ∧
      ∀ {g' h'}, s.At g' h' → h'.phase.cell = some c → g' = g
  copied : ∀ {g h c}, s.At g h → h.phase = .copied c → (writer c).isSome
  written : ∀ {g h}, s.At g h → h.phase = .returned →
    ∃ c, s.current ip = some (some c) ∧ (writer c).isSome
  /-- A handler that began after the last writer of the entry returned has not filled a cell yet,
  and will fill this one. -/
  pending : ∀ {c f g h}, s.current ip = some (some c) → writer c = some f →
    s.At g h → f ∈ h.before → h.phase = .begun ∨ h.phase = .found ∨ h.phase = .got c

section Steps

variable {ip : UInt32} {s : ArpConc} {writer writer' : Nat → Option Nat} {i j : Nat}
  {h h' : ArpHandler} {p : ArpPhase} {cache : ArpCache}

theorem ArpConc.at_move (hi : s.At i h) :
    (s.move i h p cache).At j h' ↔ if j = i then h' = { h with phase := p } else s.At j h' := by
  unfold ArpConc.At ArpConc.move
  exact getElem?_moved hi

/-- What a step of handler `i` to phase `p` has to do for the invariant: its effect on the cells and
the map, as the other handlers see it, and what holds of `i` afterwards. -/
structure ArpConc.Advances (ip : UInt32) (s : ArpConc) (writer writer' : Nat → Option Nat) (i : Nat)
    (h : ArpHandler) (p : ArpPhase) (cache : ArpCache) : Prop where
  valid : cache.Valid
  length : s.cache.cells.length ≤ cache.cells.length
  content : ∀ {c f}, writer' c = some f →
    writer c = some f ∧ cache.cells[c]? = s.cache.cells[c]? ∨
      f = i ∧ cache.cells[c]? = some h.mac
  grow : ∀ {c}, (writer c).isSome → (writer' c).isSome
  other : ∀ {g hg key c}, g ≠ i → s.At g hg → hg.phase = .allocated key c →
    writer' c = writer c ∧ (∀ k, cache.map.lookup k ≠ some (some c)) ∧ p.cell ≠ some c
  current : ∀ {c}, s.current ip = some (some c) → (writer c).isSome →
    ∃ c', cache.map.lookup (stackKey ARP_IPV4 ip) = some (some c') ∧ (writer' c').isSome
  pending : ∀ {c f g hg}, cache.map.lookup (stackKey ARP_IPV4 ip) = some (some c) →
    writer' c = some f → g ≠ i → s.At g hg → f ∈ hg.before →
      hg.phase = .begun ∨ hg.phase = .found ∨ hg.phase = .got c
  selfBound : ∀ {c}, p.cell = some c → c < cache.cells.length
  selfOwn : ∀ {key c}, p = .allocated key c →
    key.val = toKey ARP_IPV4 ip ∧ writer' c = some i ∧ (∀ k, cache.map.lookup k ≠ some (some c)) ∧
      ∀ {g hg}, g ≠ i → s.At g hg → hg.phase.cell ≠ some c
  selfCopied : ∀ {c}, p = .copied c → (writer' c).isSome
  selfWritten : p = .returned →
    ∃ c, cache.map.lookup (stackKey ARP_IPV4 ip) = some (some c) ∧ (writer' c).isSome
  selfPending : ∀ {c f}, cache.map.lookup (stackKey ARP_IPV4 ip) = some (some c) →
    writer' c = some f → f ∈ h.before → p = .begun ∨ p = .found ∨ p = .got c

theorem ArpConc.Inv.advance (inv : s.Inv ip writer) (hi : s.At i h) (hp : h.phase ≠ .returned)
    (ha : s.Advances ip writer writer' i h p cache) :
    (s.move i h p cache).Inv ip writer' := by
  -- A handler after the step is one from before it, or `i` in its new phase.
  have hat : ∀ {g hg}, (s.move i h p cache).At g hg →
      g = i ∧ hg = { h with phase := p } ∨ g ≠ i ∧ s.At g hg := by
    intro g hg hg'
    rw [ArpConc.at_move hi] at hg'
    by_cases hgi : g = i
    · rw [if_pos hgi] at hg'
      exact Or.inl ⟨hgi, hg'⟩
    · rw [if_neg hgi] at hg'
      exact Or.inr ⟨hgi, hg'⟩
  have hself : (s.move i h p cache).At i { h with phase := p } :=
    (ArpConc.at_move hi).mpr (by rw [if_pos rfl])
  have hkeep : ∀ {g hg}, g ≠ i → s.At g hg → (s.move i h p cache).At g hg := fun hgi hg =>
    (ArpConc.at_move hi).mpr (by rwa [if_neg hgi])
  have hreturned : ∀ {g hg}, s.At g hg → hg.phase = .returned → g ≠ i := by
    rintro g hg hg' hphase rfl
    obtain rfl := Option.some.inj (hg'.symm.trans hi)
    exact hp hphase
  refine ⟨ha.valid, ?_, ?_, ?_, ?_, ?_, ?_, ?_⟩
  · intro g hg f hg' hf
    have hold : ∃ hf', s.At f hf' ∧ hf'.phase = .returned := by
      rcases hat hg' with ⟨rfl, rfl⟩ | ⟨-, hg'⟩
      · exact inv.before hi hf
      · exact inv.before hg' hf
    obtain ⟨hf', hfat, hphase⟩ := hold
    exact ⟨hf', hkeep (hreturned hfat hphase) hfat, hphase⟩
  · intro g hg c hg' hc
    rcases hat hg' with ⟨rfl, rfl⟩ | ⟨-, hg'⟩
    · exact ha.selfBound hc
    · exact Nat.lt_of_lt_of_le (inv.bound hg' hc) ha.length
  · intro c f hw
    rcases ha.content hw with ⟨hold, hcell⟩ | ⟨rfl, hcell⟩
    · obtain ⟨hf, hfat, hmac⟩ := inv.content hold
      by_cases hfi : f = i
      · subst hfi
        obtain rfl := Option.some.inj (hfat.symm.trans hi)
        exact ⟨_, hself, hcell.trans hmac⟩
      · exact ⟨hf, hkeep hfi hfat, hcell.trans hmac⟩
    · exact ⟨_, hself, hcell⟩
  · intro g hg key c hg' hphase
    rcases hat hg' with ⟨rfl, rfl⟩ | ⟨hgi, hg'⟩
    · obtain ⟨hkey, hw, hmap, hcells⟩ := ha.selfOwn hphase
      refine ⟨hkey, hw, hmap, fun {g' hg''} hat' hc => ?_⟩
      rcases hat hat' with ⟨rfl, -⟩ | ⟨hne, hat'⟩
      · rfl
      · exact absurd hc (hcells hne hat')
    · obtain ⟨hkey, hw, hmap, hcells⟩ := inv.own hg' hphase
      obtain ⟨hw', hmap', hself'⟩ := ha.other hgi hg' hphase
      refine ⟨hkey, hw'.trans hw, hmap', fun {g' hg''} hat' hc => ?_⟩
      rcases hat hat' with ⟨rfl, rfl⟩ | ⟨-, hat'⟩
      · exact absurd hc hself'
      · exact hcells hat' hc
  · intro g hg c hg' hphase
    rcases hat hg' with ⟨rfl, rfl⟩ | ⟨-, hg'⟩
    · exact ha.selfCopied hphase
    · exact ha.grow (inv.copied hg' hphase)
  · intro g hg hg' hphase
    rcases hat hg' with ⟨rfl, rfl⟩ | ⟨-, hg'⟩
    · exact ha.selfWritten hphase
    · obtain ⟨c, hc, hw⟩ := inv.written hg' hphase
      exact ha.current hc hw
  · intro c f g hg hc hw hg' hf
    rcases hat hg' with ⟨rfl, rfl⟩ | ⟨hgi, hg'⟩
    · exact ha.selfPending hc hw hf
    · exact ha.pending hc hw hgi hg' hf

/-- A handler that has not returned precedes no other. -/
theorem ArpConc.Inv.notBefore (inv : s.Inv ip writer) (hi : s.At i h) (hp : h.phase ≠ .returned)
    (hj : s.At j h') : i ∉ h'.before := by
  intro hmem
  obtain ⟨h₁, hat, hphase⟩ := inv.before hj hmem
  obtain rfl := Option.some.inj (hat.symm.trans hi)
  exact hp hphase

/-- The check and the lookup leave the cache alone. -/
theorem ArpConc.Inv.look (inv : s.Inv ip writer)
    (hp : p = .found ∨ p = .absent ∧ s.current ip = none ∨
      ∃ c, p = .got c ∧ s.current ip = some (some c)) :
    s.Advances ip writer writer i h p s.cache where
  valid := inv.valid
  length := Nat.le_refl _
  content hw := Or.inl ⟨hw, rfl⟩
  grow hw := hw
  other := by
    intro g hg key c _ hg' hphase
    obtain ⟨-, -, hmap, -⟩ := inv.own hg' hphase
    refine ⟨rfl, hmap, ?_⟩
    rcases hp with rfl | ⟨rfl, -⟩ | ⟨c', rfl, hc'⟩
    · exact nofun
    · exact nofun
    · rintro ⟨⟩
      exact hmap _ hc'
  current hc hw := ⟨_, hc, hw⟩
  pending hc hw _ hg hf := inv.pending hc hw hg hf
  selfBound := by
    intro c hc
    rcases hp with rfl | ⟨rfl, -⟩ | ⟨c', rfl, hc'⟩
    · cases hc
    · cases hc
    · cases hc
      exact inv.valid.cell_lt hc'
  selfOwn := by
    rintro key c rfl
    rcases hp with hp | ⟨hp, -⟩ | ⟨c', hp, -⟩ <;> cases hp
  selfCopied := by
    rintro c rfl
    rcases hp with hp | ⟨hp, -⟩ | ⟨c', hp, -⟩ <;> cases hp
  selfWritten := by
    rintro rfl
    rcases hp with hp | ⟨hp, -⟩ | ⟨c', hp, -⟩ <;> cases hp
  selfPending := by
    intro c f hc hw hf
    rcases hp with hp | ⟨-, hnone⟩ | ⟨c', hp, hc'⟩
    · exact Or.inr (Or.inl hp)
    · unfold ArpConc.current at hnone
      rw [hc] at hnone
      cases hnone
    · obtain rfl : c' = c := by
        unfold ArpConc.current at hc'
        rw [hc] at hc'
        simpa using hc'.symm
      exact Or.inr (Or.inr hp)

/-- A cell that has a last writer keeps one. -/
theorem isSome_update {c : Nat} (hw : (writer c).isSome) (c₀ : Nat) :
    (Function.update writer c₀ (some i) c).isSome := by
  by_cases hc : c = c₀
  · rw [hc, Function.update_self]
    rfl
  · rwa [Function.update_of_ne hc]

/-- The copy into a cell that was found makes the handler its last writer. -/
theorem ArpConc.Inv.copy (inv : s.Inv ip writer) (hi : s.At i h) {c₀ : Nat}
    (hp : h.phase = .got c₀) :
    s.Advances ip writer (Function.update writer c₀ (some i)) i h (.copied c₀)
      (cacheCopy c₀ h.mac s.cache) where
  valid := inv.valid.copy c₀ h.mac
  length := by simp [cacheCopy]
  content := by
    intro c f hw
    by_cases hc : c = c₀
    · subst hc
      rw [Function.update_self] at hw
      have hlt := inv.bound hi (by rw [hp]; rfl)
      exact Or.inr ⟨(Option.some.inj hw).symm, List.getElem?_set_self hlt⟩
    · rw [Function.update_of_ne hc] at hw
      exact Or.inl ⟨hw, List.getElem?_set_ne (Ne.symm hc)⟩
  grow hw := isSome_update hw _
  other := by
    intro g hg key c hgi hg' hphase
    obtain ⟨-, -, hmap, hcells⟩ := inv.own hg' hphase
    have hne : c ≠ c₀ := by
      rintro rfl
      exact hgi (hcells hi (by rw [hp]; rfl)).symm
    refine ⟨Function.update_of_ne hne _ _, hmap, ?_⟩
    rintro ⟨⟩
    exact hne rfl
  current hc hw := ⟨_, hc, isSome_update hw _⟩
  pending := by
    intro c f g hg hc hw hgi hg' hf
    by_cases hcc : c = c₀
    · rw [hcc, Function.update_self] at hw
      obtain rfl := Option.some.inj hw
      exact absurd hf (inv.notBefore hi (by simp [hp]) hg')
    · rw [Function.update_of_ne hcc] at hw
      exact inv.pending hc hw hg' hf
  selfBound := by
    rintro c ⟨⟩
    simpa [cacheCopy] using inv.bound hi (by rw [hp]; rfl)
  selfOwn := nofun
  selfCopied := by
    rintro c ⟨⟩
    rw [Function.update_self]
    rfl
  selfWritten := nofun
  selfPending := by
    intro c f hc hw hf
    by_cases hcc : c = c₀
    · rw [hcc, Function.update_self] at hw
      obtain rfl := Option.some.inj hw
      exact absurd hf (inv.notBefore hi (by simp [hp]) hi)
    · rw [Function.update_of_ne hcc] at hw
      -- A handler after the last writer would have found the cell of the entry.
      have hphase := inv.pending hc hw hi hf
      rw [hp] at hphase
      simp [Ne.symm hcc] at hphase

/-- The put of a found cell, while the entry has it, changes no entry. -/
theorem ArpConc.Inv.putFound (inv : s.Inv ip writer) (hi : s.At i h) {c₀ : Nat}
    (hp : h.phase = .copied c₀) (hc₀ : s.current ip = some (some c₀))
    {map' : Hashmap KeyRef CellRef} (hv' : ArpCache.Valid { s.cache with map := map' })
    (hsame : ∀ k, map'.lookup k = s.cache.map.lookup k) :
    s.Advances ip writer writer i h .returned { s.cache with map := map' } where
  valid := hv'
  length := Nat.le_refl _
  content hw := Or.inl ⟨hw, rfl⟩
  grow hw := hw
  other := by
    intro g hg key c _ hg' hphase
    obtain ⟨-, -, hmap, -⟩ := inv.own hg' hphase
    exact ⟨rfl, fun k => by rw [hsame]; exact hmap k, nofun⟩
  current hc hw := ⟨_, (hsame _).trans hc, hw⟩
  pending hc hw _ hg hf := inv.pending ((hsame _).symm.trans hc) hw hg hf
  selfBound := nofun
  selfOwn := nofun
  selfCopied := nofun
  selfWritten := fun _ => ⟨c₀, (hsame _).trans hc₀, inv.copied hi hp⟩
  selfPending := by
    intro c f hc hw hf
    have hphase := inv.pending ((hsame _).symm.trans hc) hw hi hf
    rw [hp] at hphase
    simp at hphase

/-- The allocation of a key and a cell. -/
theorem ArpConc.Inv.alloc (inv : s.Inv ip writer) (hi : s.At i h) (hp : h.phase = .absent) :
    s.Advances ip writer (Function.update writer s.cache.cells.length (some i)) i h
      (.allocated ⟨.heap s.cache.keys, toKey ARP_IPV4 ip⟩ s.cache.cells.length)
      (cacheCalloc h.mac s.cache) where
  valid := inv.valid.calloc h.mac
  length := by simp [cacheCalloc]
  content := by
    intro c f hw
    by_cases hc : c = s.cache.cells.length
    · subst hc
      rw [Function.update_self] at hw
      exact Or.inr ⟨(Option.some.inj hw).symm, by simp [cacheCalloc]⟩
    · rw [Function.update_of_ne hc] at hw
      obtain ⟨h₁, -, hcell⟩ := inv.content hw
      have hlt := (List.getElem?_eq_some_iff.mp hcell).1
      exact Or.inl ⟨hw, List.getElem?_append_left hlt⟩
  grow hw := isSome_update hw _
  other := by
    intro g hg key c _ hg' hphase
    obtain ⟨-, -, hmap, -⟩ := inv.own hg' hphase
    have hlt := inv.bound hg' (by rw [hphase]; rfl)
    refine ⟨Function.update_of_ne (by omega) _ _, hmap, ?_⟩
    rintro ⟨⟩
    omega
  current hc hw := ⟨_, hc, isSome_update hw _⟩
  pending := by
    intro c f g hg hc hw _ hg' hf
    have hlt := inv.valid.cell_lt hc
    rw [Function.update_of_ne (by omega)] at hw
    exact inv.pending hc hw hg' hf
  selfBound := by
    rintro c ⟨⟩
    simp [cacheCalloc]
  selfOwn := by
    rintro key c ⟨⟩
    refine ⟨rfl, Function.update_self _ _ _, fun k hk => ?_, fun {g hg} _ hg' hc => ?_⟩
    · exact Nat.lt_irrefl _ (inv.valid.cell_lt hk)
    · have := inv.bound hg' hc
      omega
  selfCopied := nofun
  selfWritten := nofun
  selfPending := by
    intro c f hc hw hf
    have hlt := inv.valid.cell_lt hc
    rw [Function.update_of_ne (by omega)] at hw
    have hphase := inv.pending hc hw hi hf
    rw [hp] at hphase
    simp at hphase

/-- The put of an allocated cell makes it the cell of the entry. -/
theorem ArpConc.Inv.putFresh (inv : s.Inv ip writer) (hi : s.At i h) {key : KeyRef} {c₀ : Nat}
    (hp : h.phase = .allocated key c₀) {map' : Hashmap KeyRef CellRef}
    (hv' : ArpCache.Valid { s.cache with map := map' })
    (hlook : ∀ k, map'.lookup k =
      if k.val = key.val then some (some c₀) else s.cache.map.lookup k) :
    s.Advances ip writer writer i h .returned { s.cache with map := map' } := by
  obtain ⟨hkey, hw₀, -, hcells⟩ := inv.own hi hp
  have hcurrent : map'.lookup (stackKey ARP_IPV4 ip) = some (some c₀) :=
    (hlook _).trans (if_pos hkey.symm)
  have hnot : ∀ {g hg}, s.At g hg → i ∉ hg.before := inv.notBefore hi (by simp [hp])
  -- Nobody is behind the new writer: it returns only now.
  have hpending : ∀ {c f g hg}, map'.lookup (stackKey ARP_IPV4 ip) = some (some c) →
      writer c = some f → s.At g hg → f ∉ hg.before := by
    intro c f g hg hc hw hg'
    rw [hcurrent] at hc
    cases hc
    rw [hw₀] at hw
    cases hw
    exact hnot hg'
  refine ⟨hv', Nat.le_refl _, fun hw => Or.inl ⟨hw, rfl⟩, fun hw => hw, ?_, ?_, ?_, nofun, nofun,
    nofun, ?_, ?_⟩
  · intro g hg key' c hgi hg' hphase
    obtain ⟨-, -, hmap, -⟩ := inv.own hg' hphase
    refine ⟨rfl, fun k hk => ?_, nofun⟩
    replace hk : map'.lookup k = some (some c) := hk
    rw [hlook] at hk
    split at hk
    · cases hk
      exact hgi (hcells hg' (by rw [hphase]; rfl))
    · exact hmap k hk
  · intro c _ _
    exact ⟨c₀, hcurrent, by rw [hw₀]; rfl⟩
  · intro c f g hg hc hw _ hg' hf
    exact absurd hf (hpending hc hw hg')
  · intro _
    exact ⟨c₀, hcurrent, by rw [hw₀]; rfl⟩
  · intro c f hc hw hf
    exact absurd hf (hpending hc hw hi)

/-- A step of a handler keeps the invariant, when a found cell is put only while the entry has
it. -/
theorem ArpConc.Inv.step {s' : ArpConc} (inv : s.Inv ip writer) (hi : s.At i h)
    (hguard : ∀ cell, h.phase = .copied cell → s.current ip = some (some cell))
    (hstep : arpConcStepHandler ip s i h = some s') : ∃ writer', s'.Inv ip writer' := by
  unfold arpConcStepHandler at hstep
  cases hp : h.phase with
  | begun =>
    simp only [hp, inv.valid.isIn, Option.pure_def, Option.bind_eq_bind, Option.bind_some,
      Option.some.injEq] at hstep
    subst hstep
    refine ⟨writer, inv.advance hi (by simp [hp]) (inv.look ?_)⟩
    cases hin : (s.cache.lookup ip).isSome with
    | true => exact Or.inl rfl
    | false =>
      rw [← inv.valid.lookup_isSome] at hin
      exact Or.inr (Or.inl ⟨rfl, Option.isSome_eq_false_iff.mp hin |> Option.isNone_iff_eq_none.mp⟩)
  | found =>
    simp only [hp, Option.pure_def, Option.bind_eq_bind, Option.bind_eq_some_iff,
      Option.some.injEq] at hstep
    obtain ⟨_, hget, cell, rfl, rfl⟩ := hstep
    exact ⟨writer, inv.advance hi (by simp [hp])
      (inv.look (Or.inr (Or.inr ⟨cell, rfl, inv.valid.get_iff.mp hget⟩)))⟩
  | got cell =>
    simp only [hp, Option.some.injEq] at hstep
    subst hstep
    exact ⟨_, inv.advance hi (by simp [hp]) (inv.copy hi hp)⟩
  | copied cell =>
    have hcur := hguard cell hp
    have hkey : (stackKey ARP_IPV4 ip).val = toKey ARP_IPV4 ip := rfl
    obtain ⟨map', hput, hv', hlook⟩ := inv.valid.put hkey (inv.valid.cell_lt hcur)
      fun k hk => inv.valid.inj hk hcur
    simp only [hp, hput, Option.pure_def, Option.bind_eq_bind, Option.bind_some,
      Option.some.injEq] at hstep
    subst hstep
    refine ⟨_, inv.advance hi (by simp [hp]) (inv.putFound hi hp hcur hv' fun k => ?_)⟩
    rw [hlook]
    split
    · rename_i hk
      have heq : s.cache.map.equals k (stackKey ARP_IPV4 ip) = true := by
        rw [inv.valid.equals, arpEquals, beq_iff_eq]
        exact hk
      rw [inv.valid.sound.lookup_congr heq]
      exact hcur.symm
    · rfl
  | absent =>
    simp only [hp, Option.some.injEq] at hstep
    subst hstep
    exact ⟨_, inv.advance hi (by simp [hp]) (inv.alloc hi hp)⟩
  | allocated key cell =>
    obtain ⟨hkey, -, hmap, -⟩ := inv.own hi hp
    obtain ⟨map', hput, hv', hlook⟩ := inv.valid.put hkey (inv.bound hi (by rw [hp]; rfl))
      fun k hk => absurd hk (hmap k)
    simp only [hp, hput, Option.pure_def, Option.bind_eq_bind, Option.bind_some,
      Option.some.injEq] at hstep
    subst hstep
    exact ⟨_, inv.advance hi (by simp [hp]) (inv.putFresh hi hp hv' hlook)⟩
  | returned =>
    simp only [hp] at hstep
    cases hstep

end Steps

/-! ## Runs -/

section Runs

variable {ip : UInt32} {s : ArpConc} {writer : Nat → Option Nat}

theorem ArpConc.mem_returned {f : Nat} (hf : f ∈ s.returned) :
    ∃ h, s.At f h ∧ h.phase = .returned := by
  simp only [ArpConc.returned, List.mem_filter, List.mem_range, decide_eq_true_eq,
    Option.map_eq_some_iff] at hf
  exact hf.2

/-- A frame that arrives. -/
theorem ArpConc.Inv.frame (inv : s.Inv ip writer) (mac : Mac) :
    ArpConc.Inv ip { s with handlers := s.handlers ++ [⟨mac, .begun, s.returned⟩] } writer := by
  have hkeep : ∀ {g h}, s.At g h →
      ArpConc.At { s with handlers := s.handlers ++ [⟨mac, .begun, s.returned⟩] } g h :=
    fun hg => getElem?_stays hg
  have hat : ∀ {g h}, ArpConc.At
      { s with handlers := s.handlers ++ [⟨mac, .begun, s.returned⟩] } g h →
      s.At g h ∨ h = ⟨mac, .begun, s.returned⟩ := fun hg => getElem?_joined hg
  refine ⟨inv.valid, ?_, ?_, ?_, ?_, ?_, ?_, ?_⟩
  · intro g h f hg hf
    have hold : ∃ h', s.At f h' ∧ h'.phase = .returned := by
      rcases hat hg with hg | rfl
      · exact inv.before hg hf
      · exact ArpConc.mem_returned hf
    obtain ⟨h', hfat, hphase⟩ := hold
    exact ⟨h', hkeep hfat, hphase⟩
  · intro g h c hg hc
    rcases hat hg with hg | rfl
    · exact inv.bound hg hc
    · cases hc
  · intro c f hw
    obtain ⟨h, hfat, hmac⟩ := inv.content hw
    exact ⟨h, hkeep hfat, hmac⟩
  · intro g h key c hg hphase
    rcases hat hg with hg | rfl
    · obtain ⟨hkey, hw, hmap, hcells⟩ := inv.own hg hphase
      refine ⟨hkey, hw, hmap, fun {g' h'} hg' hc => ?_⟩
      rcases hat hg' with hg' | rfl
      · exact hcells hg' hc
      · cases hc
    · cases hphase
  · intro g h c hg hphase
    rcases hat hg with hg | rfl
    · exact inv.copied hg hphase
    · cases hphase
  · intro g h hg hphase
    rcases hat hg with hg | rfl
    · exact inv.written hg hphase
    · cases hphase
  · intro c f g h hc hw hg hf
    rcases hat hg with hg | rfl
    · exact inv.pending hc hw hg hf
    · exact Or.inl rfl

theorem ArpConc.Inv.fresh (inv : s.Inv ip writer) : s.Fresh ip := by
  intro hne hall
  obtain ⟨h₀, hs⟩ := List.exists_mem_of_ne_nil _ hne
  obtain ⟨g₀, hg₀⟩ := List.mem_iff_getElem?.mp hs
  obtain ⟨c, hc, hw⟩ := inv.written hg₀ (hall h₀ hs)
  obtain ⟨f, hf⟩ := Option.isSome_iff_exists.mp hw
  obtain ⟨h, hfat, hmac⟩ := inv.content hf
  refine ⟨f, h, hfat, ?_, fun g hg hbefore => ?_⟩
  · have hmap : s.cache.map.lookup (stackKey ARP_IPV4 ip) = some (some c) := hc
    simp [ArpCache.lookup, hmap, hmac]
  · obtain ⟨j, hj⟩ := List.mem_iff_getElem?.mp hg
    have hphase := inv.pending hc hf hj hbefore
    rw [hall g hg] at hphase
    simp at hphase

theorem arpConcStep_inv (s : ArpConc) (e : ArpConcEvent) (s' : ArpConc)
    (h : ∃ writer, s.Inv ip writer) (hg : ArpConcGuard ip s e)
    (hstep : arpConcStep ip s e = some s') : ∃ writer', s'.Inv ip writer' := by
  obtain ⟨writer, inv⟩ := h
  cases e with
  | frame mac =>
    cases hstep
    exact ⟨writer, inv.frame mac⟩
  | step i =>
    obtain ⟨h, hi, hstep⟩ := Option.bind_eq_some_iff.mp hstep
    refine inv.step hi (fun cell hp => ?_) hstep
    exact inv.valid.get_iff.mp (hg h hi cell (by rw [hp]; rfl))

end Runs

/-- **When no stale update wins.** From every reachable state, in every run of handlers of frames
from `ip` in which each found cell is put while the entry still has it: in every state of the run,
if all handlers have returned, the entry holds the address of a frame that precedes no other. -/
theorem arp_updates_fresh {host : ArpHost} {w : World} (hw : w.Reachable host) (ip : UInt32)
    {es : List ArpConcEvent} (hg : Guarded (arpConcStep ip) (ArpConcGuard ip) ⟨w.cache, []⟩ es) :
    Along (arpConcStep ip) (ArpConc.Fresh ip) ⟨w.cache, []⟩ es := by
  have hinit : ArpConc.Inv ip ⟨w.cache, []⟩ fun _ => none :=
    ⟨hw.up.valid, nofun, nofun, nofun, nofun, nofun, nofun, nofun⟩
  exact along_of_guarded (I := fun s => ∃ writer, ArpConc.Inv ip s writer)
    (fun s ⟨_, inv⟩ => inv.fresh) arpConcStep_inv ⟨_, hinit⟩ hg

/-- Two frames from `10.0.0.2`, one after the other. -/
def twoUpdates : List ArpConcEvent :=
  [.frame (sampleMac 1), .step 0, .step 0, .step 0,
   .frame (sampleMac 2), .step 1, .step 1, .step 1, .step 1]

/-- `twoUpdates` in a fresh stack. -/
theorem arp_updates_fresh_two :
    ∃ (host : ArpHost) (w : World), w.Reachable host ∧
      Guarded (arpConcStep 0x0200000a) (ArpConcGuard 0x0200000a) ⟨w.cache, []⟩ twoUpdates ∧
      Along (arpConcStep 0x0200000a) (ArpConc.Fresh 0x0200000a) ⟨w.cache, []⟩ twoUpdates := by
  obtain ⟨cache, hinit, -⟩ := arpInit_spec
  have hw : World.Reachable ⟨0x0100000a, #v[2, 0, 0, 0, 0, 9]⟩ _ := .boot (fun _ _ => 0) hinit
  have hall : (arpInit.map fun cache => decide (Guarded (arpConcStep 0x0200000a)
      (ArpConcGuard 0x0200000a) ⟨cache, []⟩ twoUpdates)) = some true := by decide +kernel
  rw [hinit, Option.map_some, Option.some.injEq, decide_eq_true_eq] at hall
  exact ⟨_, _, hw, hall, arp_updates_fresh hw 0x0200000a hall⟩

/-- Handlers `0` and `1` both find no entry, and `1` adds its cell. Handlers `2` and `3` find this
cell; `3` fills it last and returns. Then `0` puts its own cell, `4` begins, fills it and returns,
and `2` puts the first cell back. -/
def staleUpdate : List ArpConcEvent :=
  [.frame (sampleMac 1), .step 0, .step 0,
   .frame (sampleMac 2), .step 1, .step 1, .step 1,
   .frame (sampleMac 3), .step 2, .step 2, .step 2,
   .frame (sampleMac 4), .step 3, .step 3, .step 3, .step 3,
   .step 0,
   .frame (sampleMac 5), .step 4, .step 4, .step 4, .step 4,
   .step 2]

/-- The handlers after `staleUpdate`. -/
def staleHandlers : List ArpHandler :=
  [⟨sampleMac 1, .returned, []⟩, ⟨sampleMac 2, .returned, []⟩,
   ⟨sampleMac 3, .returned, [1]⟩, ⟨sampleMac 4, .returned, [1]⟩,
   ⟨sampleMac 5, .returned, [0, 1, 3]⟩]

/-- After `staleUpdate` the entry holds the address of handler `3`, which returned before handler
`4` began. -/
theorem stale_update_wins :
    ∃ cache, arpInit = some cache ∧
      ∃ s, Trace.run (arpConcStep 0x0200000a) ⟨cache, []⟩ staleUpdate = some s ∧
        (s.handlers.map ArpHandler.mac).Nodup ∧ ¬ s.Fresh 0x0200000a := by
  obtain ⟨cache, hinit, -⟩ := arpInit_spec
  have hview : (arpInit.bind fun cache =>
      (Trace.run (arpConcStep 0x0200000a) ⟨cache, []⟩ staleUpdate).map fun s =>
        (s.cache.lookup 0x0200000a, s.handlers)) =
      some (some #v[2, 0, 0, 0, 0, 4], staleHandlers) := by decide +kernel
  rw [hinit, Option.bind_some, Option.map_eq_some_iff] at hview
  obtain ⟨s, hrun, hs⟩ := hview
  obtain ⟨hlook, hhandlers⟩ := Prod.mk.inj hs
  refine ⟨cache, hinit, s, hrun, by rw [hhandlers]; decide, fun hfresh => ?_⟩
  obtain ⟨f, h, hat, hmac, hlast⟩ := hfresh (by simp [hhandlers, staleHandlers])
    (by rw [hhandlers]; decide)
  unfold ArpConc.At at hat
  rw [hhandlers] at hat hlast
  rw [hlook, Option.some.injEq] at hmac
  have honly : ∀ f < 5, ∀ h ∈ staleHandlers[f]?, h.mac = #v[2, 0, 0, 0, 0, 4] → f = 3 := by decide
  obtain rfl := honly f (List.getElem?_eq_some_iff.mp hat).1 h hat hmac.symm
  exact absurd hlast (by decide)

end TcpIp
