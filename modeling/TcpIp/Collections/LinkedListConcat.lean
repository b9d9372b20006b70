import TcpIp.Collections.LinkedList

/-!
# `linked_list_concat` (`collections/linked_list.c`)

The two lists are in one heap and have no node in common. The join sets the last node's `next`, but
not the `prev` of the first node behind it: from the tail, the chain ends at the seam.

* `ConcatSound`: what the caller wants of the joined list.
* `linked_list_concat_sound_iff`: it is so only where there is no seam.
-/

namespace TcpIp

open Chain

variable {Addr α : Type} [DecidableEq Addr]

/-- The list `a` after the call, in its heap. -/
def linkedListConcat (heap : Heap Addr α) (a b : LinkedList Addr) : Option (ListState Addr α) :=
  if linkedListIsEmpty a then some { heap, list := b }
  else if !linkedListIsEmpty b then do
    let heap ← modify heap a.tail fun n => { n with next := b.head }
    return { heap, list := { a with size := a.size + b.size, tail := b.tail } }
  else some { heap, list := a }

/-- The joined list is well formed and holds `items`: every run of pushes and pops on it is the one
on the sequence, and popping the tail as often as there are items returns them backwards. -/
def ConcatSound (heap : Heap Addr α) (a b : LinkedList Addr) (items : List α) : Prop :=
  ∃ s, linkedListConcat heap a b = some s ∧
    (∃ cells, s.Rep cells ∧ cells.map Prod.snd = items) ∧
    (∀ calls, Trace.Allowed linkedListStep ListRun.Legal ⟨s, []⟩ calls →
      ∃ s' t', Trace.run linkedListStep ⟨s, []⟩ calls = some s' ∧
        Trace.run seqStep ⟨items, []⟩ calls = some t' ∧ s'.Refines t') ∧
    ∃ s', Trace.run linkedListStep ⟨s, []⟩ (List.replicate items.length .popTail) = some s' ∧
      s'.returned = items.reverse

section Join

variable {heap : Heap Addr α} {a b : LinkedList Addr} {cells cells' : List (Addr × α)}

theorem popTail_all {s : ListState Addr α} (h : s.Rep cells) (returned : List α) :
    ∃ s', Trace.run linkedListStep ⟨s, returned⟩ (List.replicate cells.length .popTail) = some s' ∧
      s'.returned = returned ++ (cells.map Prod.snd).reverse := by
  induction cells using List.reverseRecOn generalizing s returned with
  | nil => exact ⟨_, rfl, by simp⟩
  | append_singleton cells cell ih =>
    obtain ⟨s₁, hpop, h₁⟩ := linkedListPopTail_rep h
    obtain ⟨s', hrun, hreturned⟩ := ih h₁ (returned ++ [cell.2])
    refine ⟨s', ?_, by rw [hreturned]; simp⟩
    have hstep : linkedListStep ⟨s, returned⟩ (.popTail : ListCall Addr α) =
        some ⟨s₁, returned ++ [cell.2]⟩ := by
      rw [linkedListStep, hpop, Option.map_some]
    rw [List.length_append, List.length_singleton, List.replicate_succ, Trace.run, hstep]
    exact hrun

/-- A well-formed list is all that the caller needs. -/
theorem ConcatSound.of_rep {s : ListState Addr α} (hrun : linkedListConcat heap a b = some s)
    (h : s.Rep cells) : ConcatSound heap a b (cells.map Prod.snd) := by
  have hstart : ListRun.Refines ⟨s, []⟩ ⟨cells.map Prod.snd, []⟩ := ⟨⟨cells, h, rfl⟩, rfl⟩
  refine ⟨s, hrun, ⟨cells, h, rfl⟩, fun calls hcalls => ?_, ?_⟩
  · exact Trace.simulates_of_allowed (fun _ _ _ h => h.step) hstart hcalls
  · rw [List.length_map]
    exact popTail_all h []

/-- Across a seam, the nodes behind it are all that can be reached from the tail. -/
theorem linkedListConcat_tail (ha : ListState.Rep ⟨heap, a⟩ cells)
    (hb : ListState.Rep ⟨heap, b⟩ cells')
    (hdisj : (cells.map Prod.fst).Disjoint (cells'.map Prod.fst)) (hne : cells ≠ [])
    (hne' : cells' ≠ []) :
    ∃ s, linkedListConcat heap a b = some s ∧
      Path s.heap Node.prev s.list.tail (cells'.map Prod.fst).reverse := by
  obtain ⟨cells, ⟨p, c⟩, rfl⟩ := cells.eq_nil_or_concat'.resolve_left hne
  have hempty : linkedListIsEmpty a = false := by rw [ha.isEmpty]; simp
  have hempty' : linkedListIsEmpty b = false := by
    rw [hb.isEmpty]
    simpa using hne'
  have htail : a.tail = some p := ha.tail.trans last_concat
  have hlast : heap p = _ := (linked_concat.mp ha.linked).2
  have hp : p ∉ cells'.map Prod.fst := fun hmem => hdisj (by simp) hmem
  refine ⟨{ heap := Function.update heap p (some ⟨c, b.head, last none cells⟩),
            list := { size := a.size + b.size, head := a.head, tail := b.tail } }, ?_, ?_⟩
  · simp [linkedListConcat, hempty, hempty', htail, Chain.modify, hlast]
  have htail' : b.tail = last none cells' := hb.tail
  rw [htail']
  exact (hb.linked.update hp _).backward

/-- The join of two lists is a sound list exactly when one of them is empty. -/
theorem linked_list_concat_sound_iff (ha : ListState.Rep ⟨heap, a⟩ cells)
    (hb : ListState.Rep ⟨heap, b⟩ cells')
    (hdisj : (cells.map Prod.fst).Disjoint (cells'.map Prod.fst)) {xs ys : List α}
    (hxs : cells.map Prod.snd = xs) (hys : cells'.map Prod.snd = ys) :
    ConcatSound heap a b (xs ++ ys) ↔ xs = [] ∨ ys = [] := by
  subst hxs hys
  constructor
  · rintro ⟨s, hs, ⟨joined, hrep, hitems⟩, -⟩
    apply Classical.byContradiction
    intro hne
    rw [not_or, List.map_eq_nil_iff, List.map_eq_nil_iff] at hne
    obtain ⟨s', hs', hpath⟩ := linkedListConcat_tail ha hb hdisj hne.1 hne.2
    obtain rfl : s = s' := Option.some.inj (hs.symm.trans hs')
    have hback := hrep.linked.backward
    rw [← hrep.tail] at hback
    have hnodes := congrArg List.length (path_unique hback hpath)
    have hcount := congrArg List.length hitems
    have hpositive := List.length_pos_of_ne_nil hne.1
    simp only [List.length_reverse, List.length_map, List.length_append] at hnodes hcount
    omega
  · intro hnil
    rw [List.map_eq_nil_iff, List.map_eq_nil_iff] at hnil
    by_cases hcells : cells = []
    · subst hcells
      exact ConcatSound.of_rep (by simp [linkedListConcat, ha.isEmpty]) hb
    · obtain rfl : cells' = [] := hnil.resolve_left hcells
      rw [List.map_nil, List.append_nil]
      have hempty : linkedListIsEmpty a = false := by
        rw [ha.isEmpty]
        simpa using hcells
      exact ConcatSound.of_rep (by simp [linkedListConcat, hempty, hb.isEmpty]) ha

end Join

/-- One node each, `1` and `2`. -/
def sampleSeam : Heap Nat Char
  | 1 => some { content := 'a', next := none, prev := none }
  | 2 => some { content := 'b', next := none, prev := none }
  | _ => none

def sampleSingle (a : Nat) : LinkedList Nat := { size := 1, head := some a, tail := some a }

theorem linked_list_concat_sound_empty :
    ConcatSound sampleSeam (sampleSingle 1) linkedListAlloc ['a'] :=
  (@linked_list_concat_sound_iff Nat Char _ sampleSeam (sampleSingle 1) linkedListAlloc [(1, 'a')] []
    ⟨⟨rfl, trivial⟩, by decide, rfl, rfl, rfl⟩ ⟨trivial, by decide, rfl, rfl, rfl⟩ (by simp)
    ['a'] [] rfl rfl).mpr (Or.inr rfl)

/-- Two lists of one node: the second pop from the tail of the join goes through the null pointer,
although the size says that an item is left. -/
theorem linked_list_concat_unsound :
    ListState.Rep ⟨sampleSeam, sampleSingle 1⟩ [(1, 'a')] ∧
      ListState.Rep ⟨sampleSeam, sampleSingle 2⟩ [(2, 'b')] ∧
      (∃ s c s', linkedListConcat sampleSeam (sampleSingle 1) (sampleSingle 2) = some s ∧
        linkedListPopTail s = some (c, s') ∧ c = 'b' ∧ linkedListSize s'.list = 1 ∧
        (linkedListPopTail s').isNone) ∧
      ¬ ConcatSound sampleSeam (sampleSingle 1) (sampleSingle 2) (['a'] ++ ['b']) := by
  refine ⟨⟨⟨rfl, trivial⟩, by decide, rfl, rfl, rfl⟩, ⟨⟨rfl, trivial⟩, by decide, rfl, rfl, rfl⟩,
    ⟨_, _, _, rfl, rfl, rfl, rfl, rfl⟩, ?_⟩
  rintro ⟨s, hs, -, -, s', hrun, -⟩
  obtain rfl := Option.some.inj hs
  have hnone : none = some s' := hrun
  cases hnone

end TcpIp
