import TcpIp.Collections.HashmapRefine

/-!
# How the table grows

`hashmap_put` doubles a table when more than 70% of its slots are used, and no operation makes it
smaller. A doubling allocates and reads through all slots; over a run of puts and clears this is
linear in the number of puts.

* `loadFactor_gt_iff`: the test without the division.
* `Sound.put_capacity`: when a put doubles the table.
* `runAllocates`: the slots that the expansions of a run allocate.
* `hashmap_run_linear`: they are two for each slot that the table has gained, and the table has grown
  no larger than its fullest state asked for.
-/

namespace TcpIp

open OpenAddressing

variable {K V : Type} [Inhabited K] [Inhabited V]

omit [Inhabited K] [Inhabited V] in
theorem loadFactor_gt_iff {map : Hashmap K V} (hcap : 0 < map.capacity)
    (hsize : map.size = map.usedCount) :
    hashmapLoadFactor map > 70 ↔ 71 * map.capacity ≤ 100 * map.usedCount := by
  rw [loadFactor_eq hsize, gt_iff_lt, show (70 : Int) = ((70 : Nat) : Int) from rfl,
    Int.ofNat_lt, Nat.lt_iff_add_one_le, Nat.le_div_iff_mul_le hcap]
  omega

/-- A put doubles the table, or leaves its capacity alone. -/
theorem Hashmap.Sound.put_capacity {map map' : Hashmap K V} (hs : map.Sound) {key : K} {data : V}
    (h : hashmapPut map key data = some map') :
    map'.capacity =
      if 71 * map.capacity ≤ 100 * map.usedCount then 2 * map.capacity else map.capacity := by
  have hiff := loadFactor_gt_iff hs.capacity_pos hs.size_eq
  split
  · rename_i hfull
    obtain ⟨map₁, hrun, hs₁, -, -, hcap₁, hsize₁, -⟩ := hs.expandWith
    have hused : map₁.usedCount = map.usedCount := by
      rw [hs₁.size_eq, hs.size_eq] at hsize₁
      omega
    have hroom := hs.room
    have hpos := hs.capacity_pos
    obtain ⟨map₂, hstore, hcap₂, -⟩ := hs₁.store key data (by omega)
    have hput : hashmapPut map key data = some map₂ := by
      unfold hashmapPut
      rw [hashmapPutN, if_pos (hiff.mpr hfull), hrun _ (putN_storesAtLowLoad 0)]
      exact hstore
    rw [h, Option.some.injEq] at hput
    rw [hput, hcap₂, hcap₁]
  · rename_i hfull
    have hload := mt hiff.mp hfull
    obtain ⟨map₂, hstore, hcap₂, -⟩ := hs.store key data (room_of_loadFactor hs.pow hs.size_eq hload)
    have hput : hashmapPut map key data = some map₂ := by
      unfold hashmapPut
      rw [putN_storesAtLowLoad 1 map key data (by omega), hstore]
    rw [h, Option.some.injEq] at hput
    rw [hput, hcap₂]

/-! ## Runs -/

/-- The slots that an operation allocates: an expansion fills a new array, twice as long. -/
def HashmapOp.allocates : HashmapOp K V → Hashmap K V → Nat
  | put _ _, map => if hashmapLoadFactor map > 70 then map.doubled.array.length else 0
  | clear, _ => 0
  | expand, map => map.doubled.array.length

def runAllocates : List (HashmapOp K V) → Hashmap K V → Nat
  | [], _ => 0
  | op :: ops, map => op.allocates map +
      match op.run map with
      | none => 0
      | some map' => runAllocates ops map'

/-- The operations of a program that never calls `hashmap_expand` itself. -/
def HashmapOp.Implicit : HashmapOp K V → Prop
  | put _ _ | clear => True
  | expand => False

def HashmapOp.isPut : HashmapOp K V → Bool
  | put _ _ => true
  | clear | expand => false

variable {hash : K → UInt64} {equals : K → K → Bool} (hl : Lawful hash equals)

omit [Inhabited K] [Inhabited V] in
/-- The map has no more keys than were put. -/
theorem card_specRun_le (ops : List (HashmapOp K V)) (f : FiniteMap hl V) :
    (specRun hl ops f).keys.card ≤ f.keys.card + ops.countP HashmapOp.isPut := by
  induction ops generalizing f with
  | nil => exact Nat.le_refl _
  | cons op ops ih =>
    refine Nat.le_trans (ih (op.spec hl f)) ?_
    cases op with
    | put key data =>
      have hinsert : (f.insert (KeyClass.mk hl key) data).keys.card ≤ f.keys.card + 1 := by
        have hk : (f.insert (KeyClass.mk hl key) data).keys =
            insert (KeyClass.mk hl key) f.keys := by
          ext b
          rw [Finset.mem_insert, Finmap.mem_keys, Finmap.mem_keys, Finmap.mem_insert]
        rw [hk]
        exact Finset.card_insert_le _ _
      rw [List.countP_cons_of_pos rfl]
      show (f.insert _ _).keys.card + _ ≤ _
      omega
    | clear =>
      rw [List.countP_cons_of_neg Bool.false_ne_true]
      show (∅ : FiniteMap hl V).keys.card + _ ≤ _
      rw [Finmap.keys_empty, Finset.card_empty]
      omega
    | expand => rw [List.countP_cons_of_neg Bool.false_ne_true]; exact Nat.le_refl _

/-- The table is as large as at the start, or as some state of the run asked for. -/
def GrownFor (done : List (HashmapOp K V)) (start capacity : Nat) : Prop :=
  capacity = start ∨ ∃ before, before <+: done ∧
    71 * capacity ≤ 200 * (specRun hl before ∅).keys.card

omit [Inhabited K] [Inhabited V] in
theorem GrownFor.snoc {done : List (HashmapOp K V)} {start capacity : Nat}
    (h : GrownFor hl done start capacity) (op : HashmapOp K V) :
    GrownFor hl (done ++ [op]) start capacity := by
  refine h.imp_right fun ⟨before, hpre, hle⟩ => ?_
  exact ⟨before, hpre.trans (List.prefix_append _ _), hle⟩

/-- The rest of a run, after the operations `done`. -/
theorem run_grownFor (ops done : List (HashmapOp K V)) (start : Nat) {map : Hashmap K V}
    (hs : map.Sound) (hh : map.hash = hash) (he : map.equals = equals)
    (hfin : map.toFinmap hl = specRun hl done ∅) (hgrown : GrownFor hl done start map.capacity)
    (himplicit : ∀ op ∈ ops, op.Implicit) :
    ∃ map', hashmapRun ops map = some map' ∧
      runAllocates ops map + 2 * map.capacity = 2 * map'.capacity ∧
      GrownFor hl (done ++ ops) start map'.capacity := by
  induction ops generalizing map done with
  | nil => exact ⟨map, rfl, Nat.zero_add _, by rwa [List.append_nil]⟩
  | cons op ops ih =>
    obtain ⟨map₁, hrun₁, hs₁, hh₁, he₁, -, hfin₁⟩ := op.run_refines hl hs hh he
    have hfin₁' : map₁.toFinmap hl = specRun hl (done ++ [op]) ∅ := by
      rw [hfin₁, hfin, specRun, specRun, List.foldl_append]
      rfl
    have hstep : op.allocates map + 2 * map.capacity = 2 * map₁.capacity ∧
        GrownFor hl (done ++ [op]) start map₁.capacity := by
      cases op with
      | put key data =>
        have hcap := hs.put_capacity hrun₁
        have hdouble : map.doubled.array.length = 2 * map.capacity := List.length_replicate
        simp only [HashmapOp.allocates, loadFactor_gt_iff hs.capacity_pos hs.size_eq, hdouble]
        by_cases hfull : 71 * map.capacity ≤ 100 * map.usedCount
        · rw [if_pos hfull] at hcap ⊢
          -- The table is doubled now, for the keys that it has.
          have hkeys := hs.size_toFinmap hl he
          rw [hs.size_eq, hfin] at hkeys
          refine ⟨by omega, Or.inr ⟨done, List.prefix_append _ _, ?_⟩⟩
          omega
        · rw [if_neg hfull] at hcap ⊢
          rw [hcap]
          exact ⟨Nat.zero_add _, hgrown.snoc hl _⟩
      | clear =>
        obtain rfl := Option.some.inj hrun₁
        exact ⟨Nat.zero_add _, hgrown.snoc hl _⟩
      | expand => exact (himplicit _ (List.mem_cons_self)).elim
    obtain ⟨map', hrun, halloc, hgrown'⟩ := ih _ hs₁ hh₁ he₁ hfin₁' hstep.2
      fun op' hop' => himplicit op' (List.mem_cons_of_mem _ hop')
    refine ⟨map', ?_, ?_, ?_⟩
    · unfold hashmapRun
      rw [List.foldlM_cons, hrun₁]
      exact hrun
    · rw [runAllocates, hrun₁]
      dsimp only
      omega
    · rwa [List.append_assoc, List.singleton_append] at hgrown'

/-- **Growing is linear.** Over any run of puts and clears from `hashmap_alloc`: the expansions
allocate two slots for each slot that the table gains; the table is as large as at the start, or at
most 200/71 of the number of keys that the map had at some time; so the expansions allocate less than
six slots for each put. -/
theorem hashmap_run_linear {initialSize : Int} {map₀ : Hashmap K V}
    (h₀ : hashmapAlloc initialSize hash equals = some map₀) (ops : List (HashmapOp K V))
    (himplicit : ∀ op ∈ ops, op.Implicit) :
    ∃ map, hashmapRun ops map₀ = some map ∧
      runAllocates ops map₀ + 2 * hashmapCapacity map₀ = 2 * hashmapCapacity map ∧
      (hashmapCapacity map = hashmapCapacity map₀ ∨ ∃ before, before <+: ops ∧
        71 * hashmapCapacity map ≤ 200 * (specRun hl before ∅).keys.card) ∧
      71 * runAllocates ops map₀ ≤ 400 * ops.countP HashmapOp.isPut := by
  obtain ⟨hs₀, hh₀, he₀, hlook₀⟩ := hashmapAlloc_sound hl h₀
  have hempty : map₀.toFinmap hl = ∅ :=
    toFinmap_eq_of_lookup hl hs₀ he₀ fun k => by rw [hlook₀]; rfl
  obtain ⟨map, hrun, halloc, hgrown⟩ := run_grownFor hl ops [] map₀.capacity
    hs₀ hh₀ he₀ hempty (Or.inl rfl) himplicit
  refine ⟨map, hrun, halloc, hgrown, ?_⟩
  rcases hgrown with hsame | ⟨before, ⟨after, rfl⟩, hle⟩
  · omega
  · have hcard := card_specRun_le hl before ∅
    rw [Finmap.keys_empty, Finset.card_empty, Nat.zero_add] at hcard
    rw [List.countP_append]
    omega

/-- Thirteen keys, all in one probe chain: the last one doubles the table. -/
def thirteenPuts : List (HashmapOp Nat Nat) := (List.range 13).map fun i => .put i (10 * i)

theorem hashmap_run_linear_thirteen :
    ∃ map₀ map : Hashmap Nat Nat,
      hashmapAlloc 3 (fun _ => 7) (fun a b => a == b) = some map₀ ∧
      hashmapRun thirteenPuts map₀ = some map ∧ hashmapCapacity map₀ = 16 ∧
      hashmapCapacity map = 32 ∧ runAllocates thirteenPuts map₀ = 32 ∧
      71 * runAllocates thirteenPuts map₀ ≤ 400 * thirteenPuts.countP HashmapOp.isPut := by
  have hview : ((hashmapAlloc 3 (fun _ => 7) (fun a b => a == b)).map fun map₀ : Hashmap Nat Nat =>
      (hashmapCapacity map₀, runAllocates thirteenPuts map₀)) = some (16, 32) := by decide +kernel
  obtain ⟨map₀, halloc₀, hmap₀⟩ := Option.map_eq_some_iff.mp hview
  obtain ⟨hcap₀, halloc⟩ := Prod.mk.inj hmap₀
  obtain ⟨map, hrun, hgain, -, hlinear⟩ := hashmap_run_linear lawful_nat_collide halloc₀
    thirteenPuts fun op hop => by
      obtain ⟨i, -, rfl⟩ := List.mem_map.mp hop
      trivial
  exact ⟨map₀, map, halloc₀, hrun, hcap₀, by omega, halloc, hlinear⟩

end TcpIp
