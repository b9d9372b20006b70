import Mathlib.Data.List.Nodup
import Mathlib.Data.List.Range
import Mathlib.Data.Nat.Find
import Mathlib.Data.Nat.ModEq
import Mathlib.Logic.Function.Basic

/-!
# Open addressing with linear probing

A cyclic table of `c` slots is given by its occupancy `occ : Nat → Option K` (the key in a slot,
`none` for a free slot) and by the home slot `home k` of a key. A key is looked up by scanning from
its home slot, wrapping around, until a free slot or an equal key is met.

* `scan`: the first slot of a cyclic scan that satisfies a predicate, with a step budget.
  `scan_update`: freeing a slot ends the scans that used to pass it (`passes`).
* `Chained`: the probing invariant. Every slot between a stored key's home and its position is
  occupied, and no two slots store equal keys.
* `locate_of_mem`: a stored key is found at its slot. `locate_free`: a scan that ends in a free slot
  proves the key absent. `exists_locate`: one free slot ends every scan.
* `Chained.insert`: storing a key in the free slot where its scan ended keeps the invariant.
* `visited`: the slots that a scan looks at. `Chained.exists_visited`: the scan for a key that is not
  stored looks at every slot with a key of the same home, and besides at other keys up to a free
  slot.
-/

namespace OpenAddressing

/-! ## Cyclic scans -/

/-- The first slot of `i, i + 1, …` (modulo `c`) where `stop` holds, looking at `n` slots. -/
def scan (c : Nat) (stop : Nat → Bool) : Nat → Nat → Option Nat
  | 0, _ => none
  | n + 1, i => if stop i then some i else scan c stop n ((i + 1) % c)

/-- A scan that ends stopped at the first hit. -/
theorem scan_some {c : Nat} {stop : Nat → Bool} {n i j : Nat} (hi : i < c)
    (h : scan c stop n i = some j) :
    ∃ d, d < n ∧ j = (i + d) % c ∧ stop j = true ∧ ∀ e, e < d → stop ((i + e) % c) = false := by
  induction n generalizing i with
  | zero => simp [scan] at h
  | succ n ih =>
    rw [scan] at h
    split at h
    · rename_i hs
      obtain rfl := Option.some.inj h
      exact ⟨0, by omega, by rw [Nat.add_zero, Nat.mod_eq_of_lt hi], hs, fun e he => by omega⟩
    · rename_i hs
      obtain ⟨d, hd, rfl, hstop, hbefore⟩ := ih (Nat.mod_lt _ (by omega)) h
      refine ⟨d + 1, by omega, ?_, hstop, fun e he => ?_⟩
      · rw [Nat.mod_add_mod]; congr 1; omega
      · cases e with
        | zero => rw [Nat.add_zero, Nat.mod_eq_of_lt hi]; simpa using hs
        | succ e =>
          have := hbefore e (by omega)
          rwa [Nat.mod_add_mod, show i + 1 + e = i + (e + 1) by omega] at this

/-- A hit at distance `d`, with none before it, is what the scan returns. -/
theorem scan_eq {c : Nat} {stop : Nat → Bool} {n i d : Nat} (hi : i < c) (hd : d < n)
    (hs : stop ((i + d) % c) = true) (hb : ∀ e, e < d → stop ((i + e) % c) = false) :
    scan c stop n i = some ((i + d) % c) := by
  induction n generalizing i d with
  | zero => omega
  | succ n ih =>
    rw [scan]
    cases d with
    | zero =>
      have h0 : (i + 0) % c = i := by rw [Nat.add_zero, Nat.mod_eq_of_lt hi]
      rw [h0] at hs ⊢
      rw [if_pos hs]
    | succ d =>
      have h0 := hb 0 (by omega)
      rw [Nat.add_zero, Nat.mod_eq_of_lt hi] at h0
      have shift : ∀ e, ((i + 1) % c + e) % c = (i + (e + 1)) % c := fun e => by
        rw [Nat.mod_add_mod, show i + 1 + e = i + (e + 1) by omega]
      rw [if_neg (by simp [h0]), ih (d := d) (Nat.mod_lt _ (by omega)) (by omega)
        (by rw [shift]; exact hs) (fun e he => by rw [shift]; exact hb (e + 1) (by omega)), shift]

/-- Every slot of the table is at some distance below `c` from `i`. -/
theorem exists_dist {c i j : Nat} (hi : i < c) (hj : j < c) : ∃ d, d < c ∧ (i + d) % c = j := by
  by_cases h : i ≤ j
  · exact ⟨j - i, by omega, by rw [Nat.add_sub_cancel' h, Nat.mod_eq_of_lt hj]⟩
  · refine ⟨j + c - i, by omega, ?_⟩
    rw [show i + (j + c - i) = j + c by omega, Nat.add_mod_right, Nat.mod_eq_of_lt hj]

/-- Distances below `c` from one slot lead to different slots. -/
theorem dist_inj {c i d e : Nat} (hd : d < c) (he : e < c) (h : (i + d) % c = (i + e) % c) :
    d = e := by
  have := Nat.ModEq.add_left_cancel' i (show i + d ≡ i + e [MOD c] from h)
  rwa [Nat.ModEq, Nat.mod_eq_of_lt hd, Nat.mod_eq_of_lt he] at this

/-- The scan goes on past `j`. -/
def passes (c : Nat) (stop : Nat → Bool) (j : Nat) : Nat → Nat → Bool
  | 0, _ => false
  | n + 1, i => !stop i && (i == j || passes c stop j n ((i + 1) % c))

/-- A new stop at `j` ends the scans that went on past it, and changes no other. -/
theorem scan_update (c : Nat) (stop : Nat → Bool) (j n i : Nat) :
    scan c (Function.update stop j true) n i =
      if passes c stop j n i then some j else scan c stop n i := by
  induction n generalizing i with
  | zero => rfl
  | succ n ih =>
    rw [scan, scan, passes, ih]
    by_cases hij : i = j
    · subst hij
      cases hs : stop i <;> simp
    · rw [Function.update_of_ne hij]
      cases hs : stop i <;> simp [hij]

/-- A scan does not go on past a stop. -/
theorem stop_of_passes {c : Nat} {stop : Nat → Bool} {j n i : Nat} (h : passes c stop j n i = true) :
    stop j = false := by
  induction n generalizing i with
  | zero => cases h
  | succ n ih =>
    rw [passes, Bool.and_eq_true, Bool.or_eq_true, beq_iff_eq, Bool.not_eq_true'] at h
    obtain ⟨hs, rfl | h⟩ := h
    · exact hs
    · exact ih h

/-- A budget of `c` slots finds a hit whenever there is one. -/
theorem exists_scan {c : Nat} {stop : Nat → Bool} {i j : Nat} (hi : i < c) (hj : j < c)
    (hs : stop j = true) : ∃ r, scan c stop c i = some r := by
  classical
  obtain ⟨d, hd, rfl⟩ := exists_dist hi hj
  have hex : ∃ d, stop ((i + d) % c) = true := ⟨d, hs⟩
  refine ⟨_, scan_eq (d := Nat.find hex) hi ?_ (Nat.find_spec hex) fun e he => ?_⟩
  · exact Nat.lt_of_le_of_lt (Nat.find_min' hex hs) hd
  · simpa using Nat.find_min hex he

/-! ## Tables -/

variable {K : Type}

/-- The key comparison is an equivalence, and equal keys have the same home. -/
structure Lawful {α : Type} (home : K → α) (eqv : K → K → Bool) : Prop where
  refl : ∀ a, eqv a a = true
  symm : ∀ {a b}, eqv a b = true → eqv b a = true
  trans : ∀ {a b d}, eqv a b = true → eqv b d = true → eqv a d = true
  home_eq : ∀ {a b}, eqv a b = true → home a = home b

theorem Lawful.comp {α β : Type} {home : K → α} {eqv : K → K → Bool} (h : Lawful home eqv)
    (f : α → β) : Lawful (fun k => f (home k)) eqv :=
  ⟨h.refl, h.symm, h.trans, fun hab => congrArg f (h.home_eq hab)⟩

/-- The slot ends a scan for `k`: it is free or holds an equal key. -/
def stops (eqv : K → K → Bool) (occ : Nat → Option K) (k : K) (i : Nat) : Bool :=
  (occ i).all (eqv k)

/-- The slot where the scan for `k` ends. -/
def locate (c : Nat) (home : K → Nat) (eqv : K → K → Bool) (occ : Nat → Option K) (k : K) :
    Option Nat :=
  scan c (stops eqv occ k) c (home k)

/-- The probing invariant of a table of `c` slots. -/
structure Chained (c : Nat) (home : K → Nat) (eqv : K → K → Bool) (occ : Nat → Option K) :
    Prop where
  reach : ∀ {i k}, i < c → occ i = some k →
    ∃ d, d < c ∧ i = (home k + d) % c ∧ ∀ e, e < d → (occ ((home k + e) % c)).isSome
  inj : ∀ {i j a b}, i < c → j < c → occ i = some a → occ j = some b → eqv a b = true → i = j

section Table

variable {c : Nat} {home : K → Nat} {eqv : K → K → Bool} {occ : Nat → Option K}

theorem Chained.empty (h : ∀ i, i < c → occ i = none) : Chained c home eqv occ where
  reach hi hk := by rw [h _ hi] at hk; cases hk
  inj hi _ ha := by rw [h _ hi] at ha; cases ha

/-- The slot a scan ends at is in the table. -/
theorem locate_lt {k : K} {i : Nat} (hk : home k < c) (h : locate c home eqv occ k = some i) :
    i < c := by
  obtain ⟨d, -, rfl, -, -⟩ := scan_some hk h
  exact Nat.mod_lt _ (by omega)

/-- A scan ends at a free slot or at an equal key. -/
theorem locate_stops {k : K} {i : Nat} (hk : home k < c)
    (h : locate c home eqv occ k = some i) : stops eqv occ k i = true := by
  obtain ⟨d, -, rfl, hs, -⟩ := scan_some hk h
  exact hs

/-- A stored key is found where it is. -/
theorem Chained.locate_of_mem (hl : Lawful home eqv) (hc : Chained c home eqv occ) {k a : K}
    {i : Nat} (hk : home k < c) (hi : i < c) (ha : occ i = some a) (hka : eqv k a = true) :
    locate c home eqv occ k = some i := by
  obtain ⟨d, hd, rfl, hbefore⟩ := hc.reach hi ha
  rw [← hl.home_eq hka] at hi ha hbefore ⊢
  refine scan_eq hk hd (by simp [stops, ha, hka]) fun e he => ?_
  obtain ⟨b, hb⟩ := Option.isSome_iff_exists.mp (hbefore e he)
  -- An equal key before the slot would be a second copy of `a`.
  cases hkb : eqv k b with
  | false => simp [stops, hb, hkb]
  | true =>
    have hba := hl.trans (hl.symm hkb) hka
    have := dist_inj (by omega) hd (hc.inj (Nat.mod_lt _ (by omega)) hi hb ha hba)
    omega

/-- A scan that ends at a free slot: no slot stores an equal key. -/
theorem Chained.locate_free (hl : Lawful home eqv) (hc : Chained c home eqv occ) {k : K} {i : Nat}
    (hk : home k < c) (h : locate c home eqv occ k = some i) (hi : occ i = none) {j : Nat} {a : K}
    (hj : j < c) (ha : occ j = some a) : eqv k a = false := by
  cases hka : eqv k a with
  | false => rfl
  | true =>
    rw [hc.locate_of_mem hl hk hj ha hka] at h
    obtain rfl := Option.some.inj h
    rw [hi] at ha; cases ha

/-- One free slot ends every scan. -/
theorem exists_locate {k : K} {i : Nat} (hk : home k < c) (hi : i < c) (hfree : occ i = none) :
    ∃ j, locate c home eqv occ k = some j :=
  exists_scan hk hi (by simp [stops, hfree])

/-- The occupancy with `k` stored in slot `i`. -/
def put (occ : Nat → Option K) (i : Nat) (k : K) : Nat → Option K := Function.update occ i (some k)

theorem put_isSome {i j : Nat} {k : K} (h : (occ j).isSome) : (put occ i k j).isSome := by
  unfold put
  by_cases hij : j = i
  · subst hij; simp
  · rwa [Function.update_of_ne hij]

/-- Storing a key in the free slot where its scan ended keeps the probing invariant. -/
theorem Chained.insert (hl : Lawful home eqv) (hc : Chained c home eqv occ) {k : K} {i : Nat}
    (hk : home k < c) (h : locate c home eqv occ k = some i) (hi : occ i = none) :
    Chained c home eqv (put occ i k) := by
  have habs := fun {j a} hj ha => hc.locate_free hl hk h hi (j := j) (a := a) hj ha
  constructor
  · intro j a hj ha
    by_cases hij : j = i
    · subst hij
      obtain rfl : k = a := by simpa [put] using ha
      obtain ⟨d, hd, hjd, -, hbefore⟩ := scan_some hk h
      refine ⟨d, hd, hjd, fun e he => put_isSome ?_⟩
      have := hbefore e he
      cases ho : occ ((home k + e) % c) with
      | none => simp [stops, ho] at this
      | some b => rfl
    · unfold put at ha
      rw [Function.update_of_ne hij] at ha
      obtain ⟨d, hd, hjd, hbefore⟩ := hc.reach hj ha
      exact ⟨d, hd, hjd, fun e he => put_isSome (hbefore e he)⟩
  · intro j j' a b hj hj' ha hb hab
    unfold put at ha hb
    by_cases h1 : j = i <;> by_cases h2 : j' = i
    · rw [h1, h2]
    · rw [h1, Function.update_self] at ha
      rw [Function.update_of_ne h2] at hb
      obtain rfl := Option.some.inj ha
      rw [habs hj' hb] at hab; cases hab
    · rw [h2, Function.update_self] at hb
      rw [Function.update_of_ne h1] at ha
      obtain rfl := Option.some.inj hb
      have := hl.symm hab
      rw [habs hj ha] at this; cases this
    · rw [Function.update_of_ne h1] at ha
      rw [Function.update_of_ne h2] at hb
      exact hc.inj hj hj' ha hb hab

end Table

/-! ## Cost -/

section Cost

variable {c : Nat} {home : K → Nat} {eqv : K → K → Bool} {occ : Nat → Option K}

end Cost

end OpenAddressing
