import Mathlib.Data.List.Basic
import Mathlib.Tactic.Common

/-!
# Heap blocks and a table of pointers

The blocks of a heap by number, in the order of their allocation; a number is never used again. An
access to a block that was freed, or past its end, goes wrong.

* `alloc`, `realloc`, `free`, `load`, `update`, and `read` and `modify` of one item: the operations;
  `none` is a use after free, a double free or an access past the end. `realloc` moves the block or
  not, as it likes.
* `Owned`: a table of pointers owns the heap. Each pointer that is not null has a block, no two have
  the same, and no block is lost.
* `Replaced`: all that one of the operations does, on the block of one entry of the table
  (`replaced_alloc`, `replaced_realloc`, `replaced_update`).
* `Owned.replaced`, `contents_replaced`, `Freed.replaced`: what follows for the table, for what the
  table shows, and for a pointer that dangles.
-/

namespace Blocks

variable {α : Type}

/-- `none` was freed. -/
structure Heap (α : Type) where
  blocks : List (Option (List α))

namespace Heap

/-- The content of a block that is allocated. -/
def block (h : Heap α) (b : Nat) : Option (List α) := (h.blocks[b]?).getD none

/-- The block was allocated, and is not any more. -/
def Freed (h : Heap α) (b : Nat) : Prop := b < h.blocks.length ∧ h.block b = none

def alloc (h : Heap α) (content : List α) : Heap α × Nat :=
  (⟨h.blocks ++ [some content]⟩, h.blocks.length)

def realloc (h : Heap α) (b : Nat) (resize : List α → List α) (moves : Bool) :
    Option (Heap α × Nat) :=
  (h.block b).map fun content =>
    if moves then alloc ⟨h.blocks.set b none⟩ (resize content)
    else (⟨h.blocks.set b (some (resize content))⟩, b)

/-- Read `n` items behind a pointer. -/
def load (h : Heap α) (ptr : Option Nat) (n : Nat) : Option (List α) :=
  (ptr.bind h.block).bind fun content => if n ≤ content.length then some (content.take n) else none

/-- Rewrite a block by accesses to its first `n` items. -/
def update (h : Heap α) (ptr : Option Nat) (n : Nat) (f : List α → List α) : Option (Heap α) :=
  ptr.bind fun b => (h.block b).bind fun content =>
    if n ≤ content.length then some ⟨h.blocks.set b (some (f content))⟩ else none

/-- Read item `i` of a block. -/
def read (h : Heap α) (b i : Nat) : Option α := (h.block b).bind fun content => content[i]?

/-- Write item `i` of a block. -/
def modify (h : Heap α) (b i : Nat) (f : α → α) : Option (Heap α) :=
  (h.block b).bind fun content =>
    (content[i]?).map fun x => ⟨h.blocks.set b (some (content.set i (f x)))⟩

def free (h : Heap α) (b : Nat) : Option (Heap α) :=
  (h.block b).map fun _ => ⟨h.blocks.set b none⟩

/-- What the pointers of a table show. -/
def contents (h : Heap α) (ptrs : List (Option Nat)) : List (Option (List α)) :=
  ptrs.map fun ptr => ptr.bind h.block

structure Owned (h : Heap α) (ptrs : List (Option Nat)) : Prop where
  live : ∀ {i b : Nat}, ptrs[i]? = some (some b) → ∃ content, h.block b = some content
  unique : ∀ {i j b : Nat}, ptrs[i]? = some (some b) → ptrs[j]? = some (some b) → i = j
  covered : ∀ {b : Nat} {content}, h.block b = some content → ∃ i : Nat, ptrs[i]? = some (some b)

/-- Entry `i` now has the block `b` with `content`: its old one or a new one. -/
structure Replaced (h : Heap α) (ptrs : List (Option Nat)) (i : Nat) (h' : Heap α) (b : Nat)
    (content : List α) : Prop where
  block : h'.block b = some content
  new : ptrs[i]? = some (some b) ∨ h.blocks.length ≤ b
  old : ∀ {b'}, ptrs[i]? = some (some b') → b' ≠ b → h'.Freed b'
  rest : ∀ {b'}, ptrs[i]? ≠ some (some b') → b' ≠ b → h'.block b' = h.block b'
  grows : h.blocks.length ≤ h'.blocks.length

section

variable {h h' : Heap α} {ptrs : List (Option Nat)} {i j b b' n : Nat} {content : List α}
  {resize f : List α → List α} {moves : Bool}

/-! ## Blocks -/

theorem lt_of_block (hb : h.block b = some content) : b < h.blocks.length := by
  unfold block at hb
  cases hget : h.blocks[b]? with
  | none =>
    rw [hget] at hb
    cases hb
  | some x => exact (List.getElem?_eq_some_iff.mp hget).1

theorem block_eq_none (hb : h.blocks.length ≤ b) : h.block b = none := by
  rw [block, List.getElem?_eq_none hb]
  rfl

theorem block_set (hb : b < h.blocks.length) (x : Option (List α)) (j : Nat) :
    Heap.block ⟨h.blocks.set b x⟩ j = if j = b then x else h.block j := by
  by_cases hj : j = b
  · subst hj
    simp [block, hb]
  · rw [if_neg hj, block, block, List.getElem?_set_ne (Ne.symm hj)]

theorem block_alloc (content : List α) (j : Nat) :
    (h.alloc content).1.block j = if j = h.blocks.length then some content else h.block j := by
  by_cases hj : j = h.blocks.length
  · subst hj
    simp [block, alloc]
  · rw [if_neg hj]
    rcases Nat.lt_or_gt_of_ne hj with hlt | hgt
    · simp [block, alloc, List.getElem?_append_left hlt]
    · rw [block_eq_none (Nat.le_of_lt hgt), block_eq_none]
      rw [alloc, List.length_append]
      exact hgt

/-! ## The operations -/

/-- A pointer that was null gets a new block. -/
theorem replaced_alloc (hnull : ptrs[i]? = some none) (content : List α) :
    Replaced h ptrs i (h.alloc content).1 (h.alloc content).2 content := by
  refine ⟨?_, Or.inr (Nat.le_refl _), ?_, ?_, ?_⟩
  · rw [block_alloc]
    exact if_pos rfl
  · intro b' hb'
    rw [hnull] at hb'
    cases hb'
  · intro b' _ hne
    exact (block_alloc content b').trans (if_neg hne)
  · simp [alloc]

theorem replaced_realloc {x : Heap α × Nat} (hptr : ptrs[i]? = some (some b))
    (hre : h.realloc b resize moves = some x) :
    ∃ content, h.block b = some content ∧ Replaced h ptrs i x.1 x.2 (resize content) := by
  obtain ⟨content, hcontent, hx⟩ := Option.map_eq_some_iff.mp hre
  have hlt := lt_of_block hcontent
  refine ⟨content, hcontent, ?_⟩
  cases moves with
  | false =>
    subst hx
    refine ⟨?_, Or.inl hptr, ?_, ?_, ?_⟩
    · exact (block_set hlt _ b).trans (if_pos rfl)
    · intro b' hb' hne
      rw [hptr] at hb'
      exact absurd (Option.some.inj (Option.some.inj hb')).symm hne
    · intro b' _ hne
      exact (block_set hlt _ b').trans (if_neg hne)
    · simp
  | true =>
    let cleared : Heap α := ⟨h.blocks.set b none⟩
    have hlen : cleared.blocks.length = h.blocks.length := List.length_set
    obtain rfl : cleared.alloc (resize content) = x := hx
    refine ⟨?_, Or.inr (Nat.le_of_eq hlen.symm), ?_, ?_, ?_⟩
    · exact (block_alloc _ _).trans (if_pos rfl)
    · intro b' hb' hne
      obtain rfl : b = b' := Option.some.inj (Option.some.inj (hptr.symm.trans hb'))
      refine ⟨?_, ?_⟩
      · rw [alloc, List.length_append]
        omega
      · exact ((block_alloc _ b).trans (if_neg hne)).trans ((block_set hlt _ b).trans (if_pos rfl))
    · intro b' hold hne
      refine ((block_alloc _ b').trans (if_neg hne)).trans ((block_set hlt _ b').trans (if_neg ?_))
      rintro rfl
      exact hold hptr
    · rw [alloc, List.length_append]
      omega

theorem exists_realloc (hb : h.block b = some content) (resize : List α → List α) (moves : Bool) :
    ∃ x, h.realloc b resize moves = some x := by
  rw [realloc, hb]
  exact ⟨_, rfl⟩

theorem replaced_update (hptr : ptrs[i]? = some (some b))
    (hup : h.update (some b) n f = some h') :
    ∃ content, h.block b = some content ∧ n ≤ content.length ∧
      Replaced h ptrs i h' b (f content) := by
  rw [update, Option.bind_some] at hup
  obtain ⟨content, hcontent, hup⟩ := Option.bind_eq_some_iff.mp hup
  split at hup
  · rename_i hn
    obtain rfl := Option.some.inj hup
    have hlt := lt_of_block hcontent
    refine ⟨content, hcontent, hn, (block_set hlt _ b).trans (if_pos rfl), Or.inl hptr, ?_, ?_, ?_⟩
    · intro b' hb' hne
      rw [hptr] at hb'
      exact absurd (Option.some.inj (Option.some.inj hb')).symm hne
    · intro b' _ hne
      exact (block_set hlt _ b').trans (if_neg hne)
    · simp
  · cases hup

theorem exists_update (hb : h.block b = some content) (hn : n ≤ content.length)
    (f : List α → List α) : ∃ h', h.update (some b) n f = some h' := by
  rw [update, Option.bind_some, hb, Option.bind_some, if_pos hn]
  exact ⟨_, rfl⟩

theorem load_eq (hb : h.block b = some content) (hn : n ≤ content.length) :
    h.load (some b) n = some (content.take n) := by
  rw [load, Option.bind_some, hb, Option.bind_some, if_pos hn]

theorem read_eq (hb : h.block b = some content) (i : Nat) : h.read b i = content[i]? := by
  rw [read, hb, Option.bind_some]

/-- An item is rewritten, and nothing else. -/
theorem exists_modify (hb : h.block b = some content) {x : α} (hx : content[i]? = some x)
    (f : α → α) :
    ∃ h', h.modify b i f = some h' ∧ h'.blocks.length = h.blocks.length ∧
      ∀ j, h'.block j = if j = b then some (content.set i (f x)) else h.block j := by
  refine ⟨_, ?_, List.length_set, block_set (lt_of_block hb) _⟩
  rw [modify, hb, Option.bind_some, hx]
  rfl

theorem exists_free (hb : h.block b = some content) :
    ∃ h', h.free b = some h' ∧ h'.blocks.length = h.blocks.length ∧
      ∀ j, h'.block j = if j = b then none else h.block j := by
  refine ⟨_, ?_, List.length_set, block_set (lt_of_block hb) _⟩
  rw [free, hb]
  rfl

/-- A block that was freed is not accessed again. -/
theorem Freed.load (hf : h.Freed b) (n : Nat) : h.load (some b) n = none := by
  rw [Heap.load, Option.bind_some, hf.2]
  rfl

theorem Freed.update (hf : h.Freed b) (n : Nat) (f : List α → List α) :
    h.update (some b) n f = none := by
  rw [Heap.update, Option.bind_some, hf.2]
  rfl

/-! ## The table -/

/-- Another entry of the table keeps its block. -/
theorem Replaced.other (hr : Replaced h ptrs i h' b content) (ho : h.Owned ptrs) (hji : j ≠ i)
    (hj : ptrs[j]? = some (some b')) : b' ≠ b ∧ h'.block b' = h.block b' := by
  have hi : ptrs[i]? ≠ some (some b') := fun hi => hji (ho.unique hj hi)
  have hne : b' ≠ b := by
    rintro rfl
    rcases hr.new with hold | hge
    · exact hi hold
    · obtain ⟨content', hb'⟩ := ho.live hj
      rw [block_eq_none hge] at hb'
      cases hb'
  exact ⟨hne, hr.rest hi hne⟩

theorem Owned.replaced (ho : h.Owned ptrs) (hi : i < ptrs.length)
    (hr : Replaced h ptrs i h' b content) : h'.Owned (ptrs.set i (some b)) := by
  have hself : (ptrs.set i (some b))[i]? = some (some b) := List.getElem?_set_self hi
  have hother : ∀ {j}, j ≠ i → (ptrs.set i (some b))[j]? = ptrs[j]? := fun hji =>
    List.getElem?_set_ne (Ne.symm hji)
  refine ⟨?_, ?_, ?_⟩
  · intro j b' hj
    by_cases hji : j = i
    · rw [hji, hself, Option.some_inj, Option.some_inj] at hj
      exact ⟨content, hj ▸ hr.block⟩
    · rw [hother hji] at hj
      rw [(hr.other ho hji hj).2]
      exact ho.live hj
  · intro j k b' hj hk
    by_cases hji : j = i
    · by_cases hki : k = i
      · rw [hji, hki]
      · rw [hother hki] at hk
        rw [hji, hself, Option.some_inj, Option.some_inj] at hj
        exact absurd hj.symm (hr.other ho hki hk).1
    · rw [hother hji] at hj
      by_cases hki : k = i
      · rw [hki, hself, Option.some_inj, Option.some_inj] at hk
        exact absurd hk.symm (hr.other ho hji hj).1
      · rw [hother hki] at hk
        exact ho.unique hj hk
  · intro b' content' hb'
    by_cases hbb : b' = b
    · exact ⟨i, hbb ▸ hself⟩
    · by_cases hold : ptrs[i]? = some (some b')
      · rw [(hr.old hold hbb).2] at hb'
        cases hb'
      · rw [hr.rest hold hbb] at hb'
        obtain ⟨j, hj⟩ := ho.covered hb'
        refine ⟨j, ?_⟩
        rw [hother]
        · exact hj
        · rintro rfl
          exact hold hj

theorem contents_replaced (ho : h.Owned ptrs) (hr : Replaced h ptrs i h' b content) :
    h'.contents (ptrs.set i (some b)) = (h.contents ptrs).set i (some content) := by
  unfold contents
  rw [List.map_set, Option.bind_some, hr.block]
  apply List.ext_getElem?
  intro j
  by_cases hji : i = j
  · subst hji
    simp only [List.getElem?_set, List.length_map, if_true]
  · rw [List.getElem?_set_ne hji, List.getElem?_set_ne hji, List.getElem?_map, List.getElem?_map]
    cases hj : ptrs[j]? with
    | none => rfl
    | some ptr =>
      cases ptr with
      | none => rfl
      | some b' => exact congrArg some (hr.other ho (Ne.symm hji) hj).2

/-- A pointer that dangles does so for ever. -/
theorem Freed.replaced (hf : h.Freed b') (ho : h.Owned ptrs)
    (hr : Replaced h ptrs i h' b content) : h'.Freed b' := by
  have hold : ptrs[i]? ≠ some (some b') := by
    intro hi
    obtain ⟨content', hb'⟩ := ho.live hi
    rw [hf.2] at hb'
    cases hb'
  have hne : b' ≠ b := by
    rintro rfl
    rcases hr.new with hi | hge
    · exact hold hi
    · exact absurd hf.1 (Nat.not_lt.mpr hge)
  exact ⟨Nat.lt_of_lt_of_le hf.1 hr.grows, (hr.rest hold hne).trans hf.2⟩

theorem Owned.not_freed (ho : h.Owned ptrs) (hi : ptrs[i]? = some (some b)) : ¬ h.Freed b := by
  intro hf
  obtain ⟨content, hb⟩ := ho.live hi
  rw [hf.2] at hb
  cases hb

end

end Heap

end Blocks
