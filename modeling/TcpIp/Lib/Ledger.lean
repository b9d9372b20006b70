import Mathlib.Data.List.Perm.Basic

/-!
# A ledger of resources

What is held (allocated blocks, open descriptors), as a list. Using or giving back something that is
not held goes wrong.

* `use`, `give`: the two operations; `none` is a use after free or a double free.
* `giveAll_iff`: giving back a list of resources goes well, and leaves nothing held, if and only if
  the list is what is held, in some order.
-/

namespace Ledger

variable {β : Type} [DecidableEq β]

/-- Something that is held is used. -/
def use (held : List β) (b : β) : Option (List β) := if b ∈ held then some held else none

/-- Something that is held is given back. -/
def give (held : List β) (b : β) : Option (List β) :=
  if b ∈ held then some (held.erase b) else none

def giveAll (held : List β) (bs : List β) : Option (List β) := bs.foldlM give held

variable {held rest bs : List β} {b : β}

@[simp] theorem giveAll_nil (held : List β) : giveAll held [] = some held := rfl

@[simp] theorem giveAll_cons (held : List β) (b : β) (bs : List β) :
    giveAll held (b :: bs) = (give held b).bind fun held => giveAll held bs := rfl

theorem use_of_mem (h : b ∈ held) : use held b = some held := if_pos h

theorem give_of_perm (h : held.Perm (b :: rest)) :
    ∃ held', give held b = some held' ∧ held'.Perm rest := by
  have hmem : b ∈ held := h.mem_iff.mpr List.mem_cons_self
  refine ⟨held.erase b, if_pos hmem, ?_⟩
  have herase := h.erase b
  rwa [List.erase_cons_head] at herase

/-- Resources that are held are given back one after another, and the others stay. -/
theorem giveAll_of_perm (h : held.Perm (bs ++ rest)) :
    ∃ held', giveAll held bs = some held' ∧ held'.Perm rest := by
  induction bs generalizing held with
  | nil => exact ⟨held, rfl, h⟩
  | cons b bs ih =>
    obtain ⟨held₁, hgive, h₁⟩ := give_of_perm h
    obtain ⟨held', hall, h'⟩ := ih h₁
    exact ⟨held', by rw [giveAll_cons, hgive]; exact hall, h'⟩

/-- What was given back, and what is left, was held. -/
theorem perm_of_giveAll (h : giveAll held bs = some rest) : held.Perm (bs ++ rest) := by
  induction bs generalizing held with
  | nil =>
    obtain rfl := Option.some.inj h
    exact List.Perm.refl _
  | cons b bs ih =>
    rw [giveAll_cons] at h
    obtain ⟨held₁, hgive, hrest⟩ := Option.bind_eq_some_iff.mp h
    unfold give at hgive
    split at hgive
    · rename_i hmem
      obtain rfl := Option.some.inj hgive
      exact (List.perm_cons_erase hmem).trans ((ih hrest).cons b)
    · cases hgive

/-- All is given back, each once. -/
theorem giveAll_iff : giveAll held bs = some [] ↔ held.Perm bs := by
  constructor
  · intro h
    simpa using perm_of_giveAll h
  · intro h
    obtain ⟨held', hall, hperm⟩ := giveAll_of_perm (show held.Perm (bs ++ []) by simpa using h)
    rw [hall, hperm.eq_nil]

end Ledger
