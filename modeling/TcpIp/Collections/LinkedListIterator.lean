import TcpIp.Lib.Cursor
import TcpIp.Collections.LinkedList

/-!
# The iterator of the linked list (`collections/linked_list.c`)

The cursor points to the node to return next or, once `consumed` is set, to the one returned last;
the step to the next node is made by the call after that. A call that goes through the null pointer
or to a block that is not allocated has no result.

* `Stands cells it before rest`: the iterator stands between these cells of the list.
* `linked_list_it_cursor`: the iterator is a cursor over the contents of the list.
* `linked_list_it_remove_sound_iff`: in which runs `linked_list_it_remove` keeps list and iterator
  sound.
-/

namespace TcpIp

open Chain Cursor

variable {Addr α : Type}

/-- `struct linked_list_iterator`. `hasList`: `list` points to the list. It points nowhere after
`linked_list_it_alloc`. -/
structure LinkedListIterator (Addr : Type) where
  consumed : Bool
  cursor : Option Addr
  hasList : Bool
deriving Repr, DecidableEq

def linkedListItAlloc : LinkedListIterator Addr :=
  { consumed := false, cursor := none, hasList := false }

def linkedListItReset (list : LinkedList Addr) (it : LinkedListIterator Addr) :
    Option (LinkedListIterator Addr) :=
  if it.hasList then some { it with consumed := false, cursor := list.head } else none

def linkedListItSetList (list : LinkedList Addr) (it : LinkedListIterator Addr) :
    Option (LinkedListIterator Addr) :=
  linkedListItReset list { it with hasList := true, cursor := list.head }

/-- The step past the node returned last, with which the three functions below begin. -/
def linkedListItAdvance (heap : Heap Addr α) (it : LinkedListIterator Addr) :
    Option (LinkedListIterator Addr) :=
  if it.consumed then do
    let node ← load heap it.cursor
    return { it with consumed := false, cursor := node.next }
  else some it

def linkedListItHasNext (heap : Heap Addr α) (it : LinkedListIterator Addr) :
    Option (Bool × LinkedListIterator Addr) :=
  if it.cursor = none then some (false, it)
  else do
    let it ← linkedListItAdvance heap it
    return (it.cursor.isSome, it)

/-- The removed node's predecessor, or else the list's head, gets its successor. -/
def linkedListItUnlink [DecidableEq Addr] (s : ListState Addr α) (node : Node Addr α) :
    Option (ListState Addr α) :=
  if node.prev ≠ none then
    (modify s.heap node.prev fun n => { n with next := node.next }).map fun heap => { s with heap }
  else some { s with list := { s.list with head := node.next } }

def linkedListItRemove [DecidableEq Addr] (s : ListState Addr α) (it : LinkedListIterator Addr) :
    Option (Bool × ListState Addr α × LinkedListIterator Addr) :=
  if it.cursor = none then some (false, s, it)
  else do
    let it ← linkedListItAdvance s.heap it
    if it.cursor = none then return (false, s, it)
    let node ← load s.heap it.cursor
    let s ← linkedListItUnlink s node
    -- The node is read again: it may have been its own predecessor.
    let node ← load s.heap it.cursor
    let list := if node.next = none then { s.list with tail := node.prev } else s.list
    let heap ← free s.heap it.cursor
    return (true, { heap, list }, { it with cursor := node.prev, consumed := true })

/-- The content is the one that goes to the caller's pointer. -/
def linkedListItNext (heap : Heap Addr α) (it : LinkedListIterator Addr) :
    Option (Option α × LinkedListIterator Addr) :=
  if it.cursor = none then some (none, it)
  else do
    let it ← linkedListItAdvance heap it
    if it.cursor = none then return (none, it)
    let node ← load heap it.cursor
    return (some node.content, { it with consumed := true })

def linkedListItCalls (s : ListState Addr α) : Iterator (LinkedListIterator Addr) α where
  reset := linkedListItReset s.list
  hasNext := linkedListItHasNext s.heap
  next := linkedListItNext s.heap

def linkedListItSkip (s : ListState Addr α) (n : Int) (it : LinkedListIterator Addr) :
    Option (Bool × Option α × LinkedListIterator Addr) :=
  (linkedListItCalls s).skip n it

/-! ## The cursor among the cells -/

/-- The iterator stands between these cells. -/
structure Stands (it : LinkedListIterator Addr) (before rest : List (Addr × α)) : Prop where
  hasList : it.hasList = true
  cursor : it.cursor = if it.consumed then last none before else first rest none
  consumed : it.consumed = true → before ≠ []

section Cells

variable {s : ListState Addr α} {it : LinkedListIterator Addr} {before rest : List (Addr × α)}
  {a : Addr} {c : α}

/-- Only at the end is there no node to look at. -/
theorem Stands.rest_of_null (h : Stands it before rest) (hnull : it.cursor = none) :
    rest = [] ∧ it.consumed = false := by
  have hcursor := h.cursor
  rw [hnull] at hcursor
  cases hc : it.consumed with
  | false =>
    rw [hc, if_neg Bool.false_ne_true] at hcursor
    exact ⟨first_eq_none.mp hcursor.symm, rfl⟩
  | true =>
    rw [hc, if_pos rfl, last] at hcursor
    have hnil := first_eq_none.mp hcursor.symm
    exact absurd (List.reverse_eq_nil_iff.mp hnil) (h.consumed hc)

/-- The step past the last node returned goes to the first of the rest. -/
theorem Stands.advance (h : Stands it before rest) (hrep : s.Rep (before ++ rest)) :
    ∃ it', linkedListItAdvance s.heap it = some it' ∧ Stands it' before rest ∧
      it'.consumed = false ∧ it'.cursor = first rest none := by
  cases hc : it.consumed with
  | false =>
    refine ⟨it, by simp [linkedListItAdvance, hc], h, hc, ?_⟩
    rw [h.cursor, hc, if_neg Bool.false_ne_true]
  | true =>
    obtain ⟨before', ⟨a, c⟩, rfl⟩ := before.eq_nil_or_concat'.resolve_left (h.consumed hc)
    have hnode := (linked_concat.mp (linked_append.mp hrep.linked).1).2
    have hcursor : it.cursor = some a := by rw [h.cursor, hc, if_pos rfl, last_concat]
    refine ⟨{ it with consumed := false, cursor := first rest none }, ?_, ⟨h.hasList, rfl, by simp⟩,
      rfl, rfl⟩
    simp [linkedListItAdvance, hc, hcursor, hnode]

theorem linkedListItHasNext_stands (hrep : s.Rep (before ++ rest)) (h : Stands it before rest) :
    ∃ it', linkedListItHasNext s.heap it = some (!rest.isEmpty, it') ∧ Stands it' before rest := by
  by_cases hnull : it.cursor = none
  · obtain ⟨rfl, -⟩ := h.rest_of_null hnull
    exact ⟨it, by simp [linkedListItHasNext, hnull], h⟩
  · obtain ⟨it', hrun, h', -, hcursor⟩ := h.advance hrep
    refine ⟨it', ?_, h'⟩
    cases rest with
    | nil => simp [linkedListItHasNext, hnull, hrun, hcursor]
    | cons cell rest => simp [linkedListItHasNext, hnull, hrun, hcursor, first]

theorem linkedListItNext_end (hrep : s.Rep before) (h : Stands it before []) :
    ∃ it', linkedListItNext s.heap it = some (none, it') ∧ Stands it' before [] := by
  by_cases hnull : it.cursor = none
  · exact ⟨it, by simp [linkedListItNext, hnull], h⟩
  · rw [← List.append_nil before] at hrep
    obtain ⟨it', hrun, h', -, hcursor⟩ := h.advance hrep
    exact ⟨it', by simp [linkedListItNext, hnull, hrun, hcursor], h'⟩

theorem linkedListItNext_cons (hrep : s.Rep (before ++ (a, c) :: rest))
    (h : Stands it before ((a, c) :: rest)) :
    ∃ it', linkedListItNext s.heap it = some (some c, it') ∧
      Stands it' (before ++ [(a, c)]) rest := by
  have hnull : it.cursor ≠ none := fun hnull => by cases (h.rest_of_null hnull).1
  obtain ⟨it', hrun, h', -, hcursor⟩ := h.advance hrep
  have hnode := (linked_append.mp hrep.linked).2.1
  rw [first_cons] at hcursor
  refine ⟨{ it' with consumed := true }, ?_, h'.hasList, ?_, ?_⟩
  · simp [linkedListItNext, hnull, hrun, hcursor, hnode]
  · simp [hcursor]
  · simp

/-- The iterator is a cursor over the contents. -/
theorem linkedListIt_simulates {cells : List (Addr × α)} (hrep : s.Rep cells) :
    Simulates (linkedListItCalls s) fun it p => ∃ before rest, before ++ rest = cells ∧
      Stands it before rest ∧ p = ⟨before.map Prod.snd, rest.map Prod.snd⟩ where
  reset := by
    rintro it p ⟨before, rest, hcells, h, rfl⟩
    refine ⟨{ it with consumed := false, cursor := s.list.head }, ?_, [], cells, rfl,
      ⟨h.hasList, hrep.head, by simp⟩, ?_⟩
    · simp [linkedListItCalls, linkedListItReset, h.hasList]
    · simp [Position.start, Position.items, ← hcells]
  hasNext := by
    rintro it p ⟨before, rest, hcells, h, rfl⟩
    rw [← hcells] at hrep
    obtain ⟨it', hrun, h'⟩ := linkedListItHasNext_stands hrep h
    exact ⟨it', by simpa [linkedListItCalls] using hrun, before, rest, hcells, h', rfl⟩
  next := by
    rintro it p ⟨before, rest, hcells, h, rfl⟩
    rw [← hcells] at hrep
    cases rest with
    | nil =>
      rw [List.append_nil] at hrep
      obtain ⟨it', hrun, h'⟩ := linkedListItNext_end hrep h
      exact ⟨it', hrun, before, [], hcells, h', Position.advance_of_nil rfl 1⟩
    | cons cell rest =>
      obtain ⟨it', hrun, h'⟩ := linkedListItNext_cons hrep h
      refine ⟨it', hrun, before ++ [cell], rest, ?_, h', ?_⟩
      · rw [← hcells, List.append_assoc, List.singleton_append]
      · simp [Position.advance]

end Cells

/-! ## Lists built by pushes and pops -/

section Built

variable [DecidableEq Addr]

/-- Over a list that pushes and pops have built, the iterator answers any calls as a cursor over the
contents does. -/
theorem linked_list_it_cursor (heap : Heap Addr α) {calls : List (ListCall Addr α)}
    (hcalls : Trace.Allowed linkedListStep ListRun.Legal (ListRun.start heap) calls) :
    ∃ s t, Trace.run linkedListStep (ListRun.start heap) calls = some s ∧
      Trace.run seqStep SeqRun.start calls = some t ∧
      ∀ it₀ : LinkedListIterator Addr, (∃ it, linkedListItSetList s.list it₀ = some it) ∧
        ∀ it, linkedListItSetList s.list it₀ = some it ∨ linkedListItReset s.list it₀ = some it →
          ∀ calls', ∃ it', (linkedListItCalls s.toListState).run it calls' =
            some (((Position.start t.items).run calls').1, it') := by
  obtain ⟨s, t, hs, ht, ⟨cells, hrep, hitems⟩, -⟩ :=
    Trace.simulates_of_allowed (fun _ _ _ h => h.step) (ListRun.Refines.start heap) hcalls
  refine ⟨s, t, hs, ht, fun it₀ => ⟨⟨_, rfl⟩, fun it hit calls' => ?_⟩⟩
  have hstands : Stands it [] cells := by
    rcases hit with hit | hit
    · obtain rfl := Option.some.inj hit
      exact ⟨rfl, hrep.head, by simp⟩
    · rw [linkedListItReset, Option.ite_none_right_eq_some] at hit
      obtain ⟨hlist, hit⟩ := hit
      obtain rfl := Option.some.inj hit
      exact ⟨hlist, hrep.head, by simp⟩
  obtain ⟨it', hrun, -⟩ := (linkedListIt_simulates hrep).run ⟨[], cells, rfl, hstands, rfl⟩ calls'
  rw [List.map_nil, hitems] at hrun
  exact ⟨it', hrun⟩

end Built

/-- Three pushes and a pop, then every call, also past the end. -/
theorem linked_list_it_cursor_two :
    ∃ s it it', Trace.run linkedListStep (ListRun.start fun _ : Nat => none)
        [.pushTail 1 'a', .pushHead 2 'b', .pushTail 3 'c', .popHead] = some s ∧
      linkedListItSetList s.list linkedListItAlloc = some it ∧
      (linkedListItCalls s.toListState).run it
        [.hasNext, .hasNext, .next, .skip 2, .next, .reset, .skip 2, .next, .hasNext] =
        some ([.hasNext true, .hasNext true, .next (some 'a'), .skip false (some 'c'), .next none,
          .reset, .skip true (some 'c'), .next none, .hasNext false], it') := by
  obtain ⟨s, t, hs, ht, hcursor⟩ := @linked_list_it_cursor Nat Char _ (fun _ => none)
    [.pushTail 1 'a', .pushHead 2 'b', .pushTail 3 'c', .popHead] (by decide)
  obtain ⟨⟨it, hit⟩, hruns⟩ := hcursor linkedListItAlloc
  obtain ⟨it', hrun⟩ := hruns it (Or.inl hit)
    [.hasNext, .hasNext, .next, .skip 2, .next, .reset, .skip 2, .next, .hasNext]
  obtain rfl : ⟨['a', 'c'], ['b']⟩ = t := Option.some.inj ht
  exact ⟨s, it, it', hs, hit, hrun⟩

/-! ## Removal -/

/-- A call of the iterator's user, about one list. -/
inductive ListItCall where
  | setList
  | call (call : Call)
  | remove
deriving Repr, DecidableEq

inductive ListItAnswer (α : Type) where
  | setList
  | call (answer : Answer α)
  | remove (removed : Bool)
deriving Repr, DecidableEq

/-- The call on a cursor: `remove` deletes the next item. -/
def positionStep (p : Position α) : ListItCall → ListItAnswer α × Position α
  | .setList => (.setList, .start p.items)
  | .call call => (.call (p.step call).1, (p.step call).2)
  | .remove => (.remove (!p.rest.isEmpty), { p with rest := p.rest.tail })

/-- A list with an iterator in use and the answers so far, beside the cursor that got the same calls
and its answers. -/
structure ListItRun (Addr α : Type) extends ListState Addr α where
  it : LinkedListIterator Addr
  answers : List (ListItAnswer α)
  position : Position α
  expected : List (ListItAnswer α)

/-- The call on the list and the iterator. -/
def linkedListItCall [DecidableEq Addr] (s : ListState Addr α) (it : LinkedListIterator Addr) :
    ListItCall → Option (ListItAnswer α × ListState Addr α × LinkedListIterator Addr)
  | .setList => do
    let it ← linkedListItSetList s.list it
    return (.setList, s, it)
  | .call call => do
    let (answer, it) ← (linkedListItCalls s).step it call
    return (.call answer, s, it)
  | .remove => do
    let (removed, s, it) ← linkedListItRemove s it
    return (.remove removed, s, it)

def linkedListItStep [DecidableEq Addr] (r : ListItRun Addr α) (call : ListItCall) :
    Option (ListItRun Addr α) := do
  let (answer, s, it) ← linkedListItCall r.toListState r.it call
  let (expected, position) := positionStep r.position call
  return { toListState := s, it, position, answers := r.answers ++ [answer],
           expected := r.expected ++ [expected] }

/-- `linked_list_it_set_list` was called on a list with these contents. -/
def ListItRun.start (s : ListState Addr α) (it : LinkedListIterator Addr) (items : List α) :
    ListItRun Addr α :=
  { toListState := s, it, answers := [], position := .start items, expected := [] }

/-- List and iterator are sound: the list is well formed and holds the items of the cursor, all
calls have been answered as by the cursor, and the next item is the cursor's too. -/
structure ListItRun.Agrees (r : ListItRun Addr α) : Prop where
  rep : ∃ cells, r.Rep cells ∧ cells.map Prod.snd = r.position.items
  answers : r.answers = r.expected
  next : ∃ it, linkedListItNext r.heap r.it = some (r.position.rest.head?, it)

/-- `linked_list_it_remove` is called only where no item remains. -/
def ListItRun.AtEnd (r : ListItRun Addr α) : ListItCall → Prop
  | .setList | .call _ => True
  | .remove => r.position.rest = []

instance decidableAtEnd (r : ListItRun Addr α) : ∀ call, Decidable (r.AtEnd call)
  | .setList | .call _ => inferInstanceAs (Decidable True)
  | .remove => inferInstanceAs (Decidable (r.position.rest = []))

/-- The iterator stands in its list where the cursor does. -/
structure ListItRun.Sound (r : ListItRun Addr α) : Prop where
  stands : ∃ before rest, r.Rep (before ++ rest) ∧ Stands r.it before rest ∧
    r.position = ⟨before.map Prod.snd, rest.map Prod.snd⟩
  answers : r.answers = r.expected

theorem ListItRun.Sound.agrees {r : ListItRun Addr α} (h : r.Sound) : r.Agrees := by
  obtain ⟨⟨before, rest, hrep, hstands, hpos⟩, hanswers⟩ := h
  refine ⟨⟨before ++ rest, hrep, by simp [hpos, Position.items]⟩, hanswers, ?_⟩
  obtain ⟨it', hrun, -⟩ := (linkedListIt_simulates hrep).next ⟨before, rest, rfl, hstands, rfl⟩
  rw [hpos]
  exact ⟨it', hrun⟩

section Removal

variable [DecidableEq Addr] {s s' : ListState Addr α} {it it' : LinkedListIterator Addr} {r : ListItRun Addr α}
  {call : ListItCall} {before rest : List (Addr × α)}

/-- No removal changes `size`. -/
theorem linkedListItRemove_size {removed : Bool}
    (h : linkedListItRemove s it = some (removed, s', it')) :
    s'.list.size = s.list.size := by
  rw [linkedListItRemove] at h
  split at h
  · obtain ⟨-, rfl, -⟩ := h
    rfl
  · obtain ⟨it₁, -, h⟩ := Option.bind_eq_some_iff.mp h
    split at h
    · obtain ⟨-, rfl, -⟩ := h
      rfl
    · obtain ⟨node, -, h⟩ := Option.bind_eq_some_iff.mp h
      obtain ⟨s₁, hs₁, h⟩ := Option.bind_eq_some_iff.mp h
      obtain ⟨node', -, h⟩ := Option.bind_eq_some_iff.mp h
      obtain ⟨heap, -, h⟩ := Option.bind_eq_some_iff.mp h
      obtain ⟨-, rfl, -⟩ := h
      have hsize : s₁.list.size = s.list.size := by
        rw [linkedListItUnlink] at hs₁
        split at hs₁
        · obtain ⟨heap', -, rfl⟩ := Option.map_eq_some_iff.mp hs₁
          rfl
        · obtain rfl := Option.some.inj hs₁
          rfl
      rw [← hsize]
      split <;> rfl

theorem linkedListItRemove_end (hrep : s.Rep before) (h : Stands it before []) :
    ∃ it', linkedListItRemove s it = some (false, s, it') ∧ Stands it' before [] := by
  by_cases hnull : it.cursor = none
  · exact ⟨it, by simp [linkedListItRemove, hnull], h⟩
  · rw [← List.append_nil before] at hrep
    obtain ⟨it', hrun, h', -, hcursor⟩ := h.advance hrep
    exact ⟨it', by simp [linkedListItRemove, hnull, hrun, hcursor], h'⟩

theorem ListItRun.Sound.step (h : r.Sound) (hcall : r.AtEnd call) :
    ∃ r', linkedListItStep r call = some r' ∧ r'.Sound := by
  obtain ⟨⟨before, rest, hrep, hstands, hpos⟩, hanswers⟩ := h
  cases call with
  | setList =>
    refine ⟨_, rfl, ⟨[], before ++ rest, hrep, ⟨rfl, hrep.head, by simp⟩, ?_⟩, ?_⟩
    · simp [hpos, Position.start, Position.items]
    · rw [hanswers]
  | call call =>
    obtain ⟨it', hrun, before', rest', hcells, hstands', hpos'⟩ :=
      (linkedListIt_simulates hrep).step ⟨before, rest, rfl, hstands, rfl⟩ call
    rw [← hpos] at hrun hpos'
    refine ⟨{ r with it := it', position := (r.position.step call).2,
                     answers := r.answers ++ [.call (r.position.step call).1],
                     expected := r.expected ++ [.call (r.position.step call).1] }, ?_,
      ⟨before', rest', hcells ▸ hrep, hstands', hpos'⟩, ?_⟩
    · simp [linkedListItStep, linkedListItCall, hrun, positionStep]
    · simp [hanswers]
  | remove =>
    have hnil : rest = [] := by simpa [hpos, AtEnd] using hcall
    subst hnil
    rw [List.append_nil] at hrep
    obtain ⟨it', hrun, hstands'⟩ := linkedListItRemove_end hrep hstands
    refine ⟨{ r with it := it', answers := r.answers ++ [.remove false],
                     expected := r.expected ++ [.remove false] }, ?_,
      ⟨before, [], by rw [List.append_nil]; exact hrep, hstands', hpos⟩, ?_⟩
    · simp [linkedListItStep, linkedListItCall, hrun, positionStep, hpos]
    · simp [hanswers]

/-- A removed node still counts. -/
theorem ListItRun.Sound.not_agrees (h : r.Sound) {r' : ListItRun Addr α}
    (hstep : linkedListItStep r call = some r') (hcall : ¬ r.AtEnd call) : ¬ r'.Agrees := by
  rintro ⟨⟨cells, hrep', hitems⟩, -⟩
  obtain ⟨⟨before, rest, hrep, -, hpos⟩, -⟩ := h
  cases call with
  | setList => exact hcall trivial
  | call call => exact hcall trivial
  | remove =>
    obtain ⟨⟨answer, s', it'⟩, hrun, hres⟩ := Option.bind_eq_some_iff.mp hstep
    obtain ⟨⟨removed, s'', it''⟩, hremove, hres'⟩ := Option.bind_eq_some_iff.mp hrun
    obtain ⟨-, rfl, -⟩ := hres'
    obtain rfl := Option.some.inj hres
    have hsize := linkedListItRemove_size hremove
    rw [hrep.size] at hsize
    have hlen : cells.length = (before ++ rest).length := by
      have := hrep'.size
      simp only at this
      omega
    have hlen' := congrArg List.length hitems
    have hpositive : 0 < rest.length := by
      apply List.length_pos_of_ne_nil
      rintro rfl
      exact hcall (by simp [hpos, AtEnd])
    simp [hpos, Position.items] at hlen hlen'
    omega

/-- From `linked_list_it_set_list` on, a run reaches its end with list and iterator sound in every
state exactly when it removes only where nothing is left to remove. -/
theorem linked_list_it_remove_sound_iff {cells : List (Addr × α)} (hrep : s.Rep cells)
    (hit : linkedListItSetList s.list it = some it') (calls : List ListItCall) :
    ((∃ r, Trace.run linkedListItStep (.start s it' (cells.map Prod.snd)) calls = some r) ∧
      Trace.Along linkedListItStep ListItRun.Agrees (.start s it' (cells.map Prod.snd)) calls) ↔
    Trace.Allowed linkedListItStep ListItRun.AtEnd (.start s it' (cells.map Prod.snd)) calls := by
  have hsound : (ListItRun.start s it' (cells.map Prod.snd)).Sound := by
    obtain rfl := Option.some.inj hit
    exact ⟨⟨[], cells, hrep, ⟨rfl, hrep.head, by simp [ListItRun.start]⟩, rfl⟩, rfl⟩
  exact Trace.run_along_iff_allowed (fun _ h => h.agrees) (fun _ _ h hcall => h.step hcall)
    (fun _ _ _ h hstep hcall => h.not_agrees hstep hcall) hsound calls

end Removal

/-- The nodes 1, 2 and 3 of a list. -/
def sampleNodes : ListState Nat Char :=
  { heap := fun
      | 1 => some { content := 'a', next := some 2, prev := none }
      | 2 => some { content := 'b', next := some 3, prev := some 1 }
      | 3 => some { content := 'c', next := none, prev := some 2 }
      | _ => none,
    list := { size := 3, head := some 1, tail := some 3 } }

theorem sampleNodes_rep : sampleNodes.Rep [(1, 'a'), (2, 'b'), (3, 'c')] where
  linked := ⟨rfl, rfl, rfl, trivial⟩
  distinct := by decide
  head := rfl
  tail := rfl
  size := rfl

/-- At the end of the list there is nothing to remove. -/
theorem linked_list_it_remove_sound_at_end :
    Trace.Along linkedListItStep ListItRun.Agrees
      (.start sampleNodes ⟨false, some 1, true⟩ ['a', 'b', 'c'])
      [.call .next, .call (.skip 2), .remove, .call .hasNext, .setList, .call .next] :=
  ((@linked_list_it_remove_sound_iff _ _ _ _ linkedListItAlloc _ _ sampleNodes_rep rfl
    [.call .next, .call (.skip 2), .remove, .call .hasNext, .setList, .call .next]).mpr
    (by decide)).2

/-- The first of three nodes is removed: the size stays, the iterator has lost the rest of the list,
and the second node still points back to the freed one. -/
theorem linked_list_it_remove_first :
    ∃ it r, linkedListItSetList sampleNodes.list linkedListItAlloc = some it ∧
      Trace.run linkedListItStep (.start sampleNodes it ['a', 'b', 'c']) [.remove, .call .next] =
        some r ∧
      r.answers = [.remove true, .call (.next none)] ∧
      r.expected = [.remove true, .call (.next (some 'b'))] ∧
      linkedListSize r.list = 3 ∧ r.position.items = ['b', 'c'] ∧
      (r.heap 2).map Node.prev = some (some 1) ∧ (r.heap 1).isNone ∧
      ¬ Trace.Along linkedListItStep ListItRun.Agrees (.start sampleNodes it ['a', 'b', 'c'])
        [.remove, .call .next] := by
  refine ⟨_, _, rfl, rfl, by decide, by decide, by decide, by decide, by decide, by decide, ?_⟩
  intro halong
  have hagrees := (halong.2 _ rfl).2 _ rfl
  exact absurd hagrees.answers (by decide)

end TcpIp
