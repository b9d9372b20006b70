import TcpIp.Lib.Chain
import TcpIp.Lib.Trace

/-!
# `collections/linked_list.c`: the doubly linked list

The list and the heap of its nodes; other nodes of the heap belong to other lists. A call that fails
an assertion, or that goes through the null pointer or to a block that is not allocated, has no
result. The address of a new node is the one that `malloc` gave, so it comes with the call.

* `ListState.Rep s cells`: the list holds these cells, from head to tail. One lemma for each
  operation at the tail says what becomes of the cells; the operations at the head are those at the
  tail of the list read in the other direction (`linkedListPushHead_mirror`,
  `linkedListPopHead_mirror`).
* `linked_list_deque`: every run of pushes and pops is the same run on a sequence.
-/

namespace TcpIp

open Chain

/-- `struct linked_list`. -/
structure LinkedList (Addr : Type) where
  size : Int
  head : Option Addr
  tail : Option Addr
deriving Repr, DecidableEq

/-- The nodes and the list. -/
structure ListState (Addr α : Type) where
  heap : Heap Addr α
  list : LinkedList Addr

variable {Addr α : Type}

def linkedListAlloc : LinkedList Addr := { size := 0, head := none, tail := none }

def linkedListIsEmpty (list : LinkedList Addr) : Bool := list.size == 0

def linkedListSize (list : LinkedList Addr) : Int := list.size

section Operations

variable [DecidableEq Addr]

def linkedListPopTail (s : ListState Addr α) : Option (α × ListState Addr α) :=
  if linkedListIsEmpty s.list then none
  else do
    let tail ← load s.heap s.list.tail
    let newTail := tail.prev
    let heap ← free s.heap s.list.tail
    let heap ← modifyUnlessNull heap newTail fun n => { n with next := none }
    let size := s.list.size - 1
    let head := if size = 0 then none else s.list.head
    return (tail.content, { heap, list := { size, head, tail := newTail } })

def linkedListPushTail (s : ListState Addr α) (newTail : Addr) (content : α) :
    Option (ListState Addr α) := do
  let heap := Function.update s.heap newTail (some { content, next := none, prev := s.list.tail })
  let heap ← modifyUnlessNull heap s.list.tail fun n => { n with next := some newTail }
  let head := if s.list.head = none then some newTail else s.list.head
  return { heap, list := { size := s.list.size + 1, head, tail := some newTail } }

def linkedListPopHead (s : ListState Addr α) : Option (α × ListState Addr α) :=
  if linkedListIsEmpty s.list then none
  else do
    let head ← load s.heap s.list.head
    let newHead := head.next
    let heap ← free s.heap s.list.head
    let heap ← modifyUnlessNull heap newHead fun n => { n with prev := none }
    let size := s.list.size - 1
    let tail := if size = 0 then none else s.list.tail
    return (head.content, { heap, list := { size, head := newHead, tail } })

def linkedListPushHead (s : ListState Addr α) (newHead : Addr) (content : α) :
    Option (ListState Addr α) := do
  let heap := Function.update s.heap newHead (some { content, next := s.list.head, prev := none })
  let heap ← modifyUnlessNull heap s.list.head fun n => { n with prev := some newHead }
  let tail := if s.list.tail = none then some newHead else s.list.tail
  return { heap, list := { size := s.list.size + 1, head := some newHead, tail } }

end Operations

/-! ## Runs of calls -/

inductive ListCall (Addr α : Type) where
  | pushHead (newHead : Addr) (content : α)
  | pushTail (newTail : Addr) (content : α)
  | popHead
  | popTail
deriving Repr, DecidableEq

/-- A list in use, and the contents that the pops have returned, the latest one last. -/
structure ListRun (Addr α : Type) extends ListState Addr α where
  returned : List α

def ListRun.start (heap : Heap Addr α) : ListRun Addr α :=
  { heap, list := linkedListAlloc, returned := [] }

def linkedListStep [DecidableEq Addr] (s : ListRun Addr α) :
    ListCall Addr α → Option (ListRun Addr α)
  | .pushHead newHead content =>
    (linkedListPushHead s.toListState newHead content).map ({ s with toListState := · })
  | .pushTail newTail content =>
    (linkedListPushTail s.toListState newTail content).map ({ s with toListState := · })
  | .popHead =>
    (linkedListPopHead s.toListState).map fun (content, s') =>
      { toListState := s', returned := s.returned ++ [content] }
  | .popTail =>
    (linkedListPopTail s.toListState).map fun (content, s') =>
      { toListState := s', returned := s.returned ++ [content] }

/-- A block that `malloc` gives is not in use, and the caller pops from a non-empty list only. -/
def ListRun.Legal (s : ListRun Addr α) : ListCall Addr α → Prop
  | .pushHead p _ | .pushTail p _ => s.heap p = none
  | .popHead | .popTail => linkedListIsEmpty s.list = false

instance decidableLegal (s : ListRun Addr α) : ∀ call, Decidable (s.Legal call)
  | .pushHead p _ | .pushTail p _ => inferInstanceAs (Decidable (s.heap p = none))
  | .popHead | .popTail => inferInstanceAs (Decidable (linkedListIsEmpty s.list = false))

/-- A sequence in use. -/
structure SeqRun (α : Type) where
  items : List α
  returned : List α
deriving Repr, DecidableEq

def SeqRun.start : SeqRun α := { items := [], returned := [] }

/-- The call on a sequence. -/
def seqStep (t : SeqRun α) : ListCall Addr α → Option (SeqRun α)
  | .pushHead _ content => some { t with items := content :: t.items }
  | .pushTail _ content => some { t with items := t.items ++ [content] }
  | .popHead => t.items.head?.map fun content =>
      { items := t.items.tail, returned := t.returned ++ [content] }
  | .popTail => t.items.getLast?.map fun content =>
      { items := t.items.dropLast, returned := t.returned ++ [content] }

/-! ## The cells of a list -/

namespace ListState

/-- The list holds the cells, from head to tail. -/
structure Rep (s : ListState Addr α) (cells : List (Addr × α)) : Prop where
  linked : Linked s.heap none cells none
  distinct : (cells.map Prod.fst).Nodup
  head : s.list.head = first cells none
  tail : s.list.tail = last none cells
  size : s.list.size = cells.length

/-- The list read in the other direction. -/
def mirror (s : ListState Addr α) : ListState Addr α :=
  { heap := Chain.mirror s.heap,
    list := { size := s.list.size, head := s.list.tail, tail := s.list.head } }

theorem Rep.mirror {s : ListState Addr α} {cells : List (Addr × α)} (h : s.Rep cells) :
    s.mirror.Rep cells.reverse where
  linked := linked_mirror.mpr (by rw [List.reverse_reverse]; exact h.linked)
  distinct := by
    rw [List.map_reverse, List.nodup_reverse]
    exact h.distinct
  head := h.tail
  tail := by
    rw [last, List.reverse_reverse]
    exact h.head
  size := by
    rw [List.length_reverse]
    exact h.size

theorem Rep.isEmpty {s : ListState Addr α} {cells : List (Addr × α)} (h : s.Rep cells) :
    linkedListIsEmpty s.list = cells.isEmpty := by
  rw [linkedListIsEmpty, h.size]
  cases cells with
  | nil => rfl
  | cons cell cells =>
    have hne : ((cell :: cells).length : Int) ≠ 0 := by simp; omega
    simpa using hne

theorem Rep.ne_nil {s : ListState Addr α} {cells : List (Addr × α)} (h : s.Rep cells)
    (hne : linkedListIsEmpty s.list = false) : cells ≠ [] := by
  rintro rfl
  rw [h.isEmpty] at hne
  cases hne

end ListState

section Tail

variable [DecidableEq Addr] {s : ListState Addr α} {cells : List (Addr × α)} {p : Addr} {c : α}

theorem linkedListPushTail_rep (h : s.Rep cells) (hp : s.heap p = none) (c : α) :
    ∃ s', linkedListPushTail s p c = some s' ∧ s'.Rep (cells ++ [(p, c)]) := by
  have hfresh := h.linked.ne_of_free hp
  have hdistinct := (distinct_concat (c := c)).mpr ⟨h.distinct, hfresh⟩
  have hsize : s.list.size + 1 = (cells ++ [(p, c)]).length := by
    rw [h.size]
    simp
  have hhead : (if s.list.head = none then some p else s.list.head) =
      first (cells ++ [(p, c)]) none := by
    rw [h.head, first_append]
    cases cells <;> simp [first]
  obtain rfl | ⟨cells, ⟨q, d⟩, rfl⟩ := cells.eq_nil_or_concat'
  · have hrun : linkedListPushTail s p c = some
        { heap := Function.update s.heap p (some { content := c, next := none, prev := none }),
          list := { size := s.list.size + 1, tail := some p,
                    head := if s.list.head = none then some p else s.list.head } } := by
      have htail : s.list.tail = none := h.tail
      simp only [linkedListPushTail, htail, modifyUnlessNull_none]
      rfl
    exact ⟨_, hrun, ⟨Function.update_self .., trivial⟩, hdistinct, hhead, rfl, hsize⟩
  · -- The old tail `q` gets the new node as its successor.
    have hlinked := h.linked.update hfresh (some { content := c, next := none, prev := some q })
    have hlast := (linked_concat.mp hlinked).2
    have hqcells := (distinct_concat.mp h.distinct).2
    have hrun : linkedListPushTail s p c = some
        { heap := Function.update (Function.update s.heap p (some ⟨c, none, some q⟩)) q
            (some { content := d, next := some p, prev := last none cells }),
          list := { size := s.list.size + 1, tail := some p,
                    head := if s.list.head = none then some p else s.list.head } } := by
      have htail : s.list.tail = some q := by rw [h.tail, last_concat]
      simp only [linkedListPushTail, htail, modifyUnlessNull_some hlast]
      rfl
    refine ⟨_, hrun, linked_concat.mpr ⟨hlinked.relink hqcells (some p), ?_⟩, hdistinct, hhead,
      last_concat.symm, hsize⟩
    have hpq : p ≠ q := by
      rintro rfl
      exact hfresh (by simp)
    show Function.update _ q _ p = _
    rw [Function.update_of_ne hpq, Function.update_self, last_concat]

theorem linkedListPopTail_rep (h : s.Rep (cells ++ [(p, c)])) :
    ∃ s', linkedListPopTail s = some (c, s') ∧ s'.Rep cells := by
  have htail : s.list.tail = some p := by rw [h.tail, last_concat]
  have hempty : linkedListIsEmpty s.list = false := by rw [h.isEmpty]; simp
  have hsize : s.list.size - 1 = cells.length := by rw [h.size]; simp
  have hhead : (if s.list.size - 1 = 0 then none else s.list.head) = first cells none := by
    rw [hsize, h.head, first_append]
    cases cells with
    | nil => rfl
    | cons cell cells => simp [first]; omega
  obtain ⟨hcells, hp⟩ := linked_concat.mp h.linked
  obtain ⟨hdistinct, hpcells⟩ := distinct_concat.mp h.distinct
  have hrest := hcells.update hpcells none
  -- Where `p` was the only node, no link is cut, and the list's own pointers are cleared.
  obtain rfl | ⟨cells, ⟨q, d⟩, rfl⟩ := cells.eq_nil_or_concat'
  · have hrun : linkedListPopTail s = some (c,
        { heap := Function.update s.heap p none,
          list := { size := s.list.size - 1, tail := none,
                    head := if s.list.size - 1 = 0 then none else s.list.head } }) := by
      simp only [linkedListPopTail, hempty, htail, load_some, hp, free_some hp, last_nil]
      rfl
    exact ⟨_, hrun, trivial, hdistinct, hhead, rfl, hsize⟩
  · have hlast := (linked_concat.mp hrest).2
    have hqcells := (distinct_concat.mp hdistinct).2
    have hrun : linkedListPopTail s = some (c,
        { heap := Function.update (Function.update s.heap p none) q
            (some { content := d, next := none, prev := last none cells }),
          list := { size := s.list.size - 1, tail := some q,
                    head := if s.list.size - 1 = 0 then none else s.list.head } }) := by
      simp only [linkedListPopTail, hempty, htail, load_some, hp, free_some hp, last_concat,
        Option.bind_eq_bind, Option.bind_some, modifyUnlessNull_some hlast]
      rfl
    exact ⟨_, hrun, hrest.relink hqcells none, hdistinct, hhead, last_concat.symm, hsize⟩

end Tail

/-! ## The other end -/

section Head

variable [DecidableEq Addr] {s : ListState Addr α} {cells : List (Addr × α)} {p : Addr} {c : α}

theorem linkedListPushHead_mirror (s : ListState Addr α) (p : Addr) (c : α) :
    linkedListPushHead s p c = (linkedListPushTail s.mirror p c).map ListState.mirror := by
  have hnew : Function.update (Chain.mirror s.heap) p (some ⟨c, none, s.list.head⟩) =
      Chain.mirror (Function.update s.heap p (some ⟨c, s.list.head, none⟩)) := by
    rw [mirror_update]
    rfl
  simp only [linkedListPushHead, linkedListPushTail, ListState.mirror, hnew,
    modifyUnlessNull_mirror, Node.mirror]
  cases modifyUnlessNull (Function.update s.heap p (some ⟨c, s.list.head, none⟩)) s.list.head
      fun n => { n with prev := some p } with
  | none => rfl
  | some heap =>
    simp only [Option.map_some, Option.bind_eq_bind, Option.bind_some, Option.pure_def,
      ListState.mirror, Chain.mirror_mirror]
    rfl

theorem linkedListPopHead_mirror (s : ListState Addr α) :
    linkedListPopHead s = (linkedListPopTail s.mirror).map fun (c, s') => (c, s'.mirror) := by
  by_cases hempty : linkedListIsEmpty s.list
  · have hempty' : linkedListIsEmpty s.mirror.list = true := hempty
    simp [linkedListPopHead, linkedListPopTail, hempty, hempty']
  have hempty' : ¬ linkedListIsEmpty s.mirror.list = true := hempty
  simp only [linkedListPopHead, linkedListPopTail, if_neg hempty, if_neg hempty']
  simp only [ListState.mirror, load_mirror, free_mirror]
  cases load s.heap s.list.head with
  | none => rfl
  | some head =>
    cases free s.heap s.list.head with
    | none => rfl
    | some heap =>
      simp only [Option.map_some, Option.bind_eq_bind, Option.bind_some, modifyUnlessNull_mirror,
        Node.mirror]
      cases modifyUnlessNull heap head.next fun n => { n with prev := none } with
      | none => rfl
      | some heap' =>
        simp only [Option.map_some, Option.bind_some, Option.pure_def, Chain.mirror_mirror]
        rfl

theorem linkedListPushHead_rep (h : s.Rep cells) (hp : s.heap p = none) (c : α) :
    ∃ s', linkedListPushHead s p c = some s' ∧ s'.Rep ((p, c) :: cells) := by
  have hp' : s.mirror.heap p = none := by simp [ListState.mirror, Chain.mirror, hp]
  obtain ⟨s', hrun, h'⟩ := linkedListPushTail_rep h.mirror hp' c
  refine ⟨s'.mirror, ?_, ?_⟩
  · rw [linkedListPushHead_mirror, hrun, Option.map_some]
  · simpa using h'.mirror

theorem linkedListPopHead_rep (h : s.Rep ((p, c) :: cells)) :
    ∃ s', linkedListPopHead s = some (c, s') ∧ s'.Rep cells := by
  have hmirror := h.mirror
  rw [List.reverse_cons] at hmirror
  obtain ⟨s', hrun, h'⟩ := linkedListPopTail_rep hmirror
  refine ⟨s'.mirror, ?_, ?_⟩
  · rw [linkedListPopHead_mirror, hrun, Option.map_some]
  · simpa using h'.mirror

end Head

/-! ## Runs -/

/-- The chains of a list: from the head by `next` and from the tail by `prev`. -/
structure ListState.WellFormed (s : ListState Addr α) (nodes : List Addr) : Prop where
  forward : Path s.heap Node.next s.list.head nodes
  backward : Path s.heap Node.prev s.list.tail nodes.reverse
  distinct : nodes.Nodup
  size : linkedListSize s.list = nodes.length
  head : s.list.head = none ↔ s.list.size = 0
  tail : s.list.tail = none ↔ s.list.size = 0

theorem ListState.Rep.wellFormed {s : ListState Addr α} {cells : List (Addr × α)}
    (h : s.Rep cells) : s.WellFormed (cells.map Prod.fst) where
  forward := by
    rw [h.head]
    exact h.linked.forward
  backward := by
    rw [h.tail]
    exact h.linked.backward
  distinct := h.distinct
  size := by rw [linkedListSize, h.size, List.length_map]
  head := by
    rw [h.head, h.size, first_eq_none]
    simp
  tail := by
    rw [h.tail, h.size, last, first_eq_none]
    simp

/-- The run on the list and the one on the sequence have come to the same. -/
structure ListRun.Refines (s : ListRun Addr α) (t : SeqRun α) : Prop where
  rep : ∃ cells, s.Rep cells ∧ cells.map Prod.snd = t.items
  returned : s.returned = t.returned

theorem ListRun.Refines.start (heap : Heap Addr α) :
    (ListRun.start heap).Refines SeqRun.start where
  rep := ⟨[], ⟨trivial, List.nodup_nil, rfl, rfl, rfl⟩, rfl⟩
  returned := rfl

section Runs

variable [DecidableEq Addr]

theorem ListRun.Refines.step {s : ListRun Addr α} {t : SeqRun α} {call : ListCall Addr α}
    (h : s.Refines t) (hcall : s.Legal call) :
    ∃ s' t', linkedListStep s call = some s' ∧ seqStep t call = some t' ∧ s'.Refines t' := by
  obtain ⟨⟨cells, hrep, hitems⟩, hreturned⟩ := h
  cases call with
  | pushHead p c =>
    obtain ⟨s', hrun, hrep'⟩ := linkedListPushHead_rep hrep hcall c
    refine ⟨{ s with toListState := s' }, { t with items := c :: t.items }, ?_, rfl,
      ⟨_, hrep', ?_⟩, hreturned⟩
    · rw [linkedListStep, hrun, Option.map_some]
    · rw [List.map_cons, hitems]
  | pushTail p c =>
    obtain ⟨s', hrun, hrep'⟩ := linkedListPushTail_rep hrep hcall c
    refine ⟨{ s with toListState := s' }, { t with items := t.items ++ [c] }, ?_, rfl,
      ⟨_, hrep', ?_⟩, hreturned⟩
    · rw [linkedListStep, hrun, Option.map_some]
    · rw [List.map_append, hitems, List.map_singleton]
  | popHead =>
    have hne : cells ≠ [] := hrep.ne_nil hcall
    obtain ⟨⟨p, c⟩, cells, rfl⟩ := List.exists_cons_of_ne_nil hne
    obtain ⟨s', hrun, hrep'⟩ := linkedListPopHead_rep hrep
    refine ⟨{ toListState := s', returned := s.returned ++ [c] },
      { items := t.items.tail, returned := t.returned ++ [c] }, ?_, ?_, ⟨cells, hrep', ?_⟩, ?_⟩
    · rw [linkedListStep, hrun, Option.map_some]
    · simp [seqStep, ← hitems]
    · simp [← hitems]
    · rw [hreturned]
  | popTail =>
    have hne : cells ≠ [] := hrep.ne_nil hcall
    obtain ⟨cells, ⟨p, c⟩, rfl⟩ := cells.eq_nil_or_concat'.resolve_left hne
    obtain ⟨s', hrun, hrep'⟩ := linkedListPopTail_rep hrep
    refine ⟨{ toListState := s', returned := s.returned ++ [c] },
      { items := t.items.dropLast, returned := t.returned ++ [c] }, ?_, ?_, ⟨cells, hrep', ?_⟩, ?_⟩
    · rw [linkedListStep, hrun, Option.map_some]
    · simp [seqStep, ← hitems]
    · simp [← hitems]
    · rw [hreturned]

/-- Every run of pushes and pops is the same run on a sequence, and at its end the nodes are
chained both ways. -/
theorem linked_list_deque (heap : Heap Addr α) {calls : List (ListCall Addr α)}
    (hcalls : Trace.Allowed linkedListStep ListRun.Legal (ListRun.start heap) calls) :
    ∃ s t nodes, Trace.run linkedListStep (ListRun.start heap) calls = some s ∧
      Trace.run seqStep SeqRun.start calls = some t ∧
      s.WellFormed nodes ∧ nodes.map (fun a => (s.heap a).map Node.content) = t.items.map some ∧
      s.returned = t.returned := by
  obtain ⟨s, t, hs, ht, ⟨cells, hrep, hitems⟩, hreturned⟩ :=
    Trace.simulates_of_allowed (fun _ _ _ h => h.step) (ListRun.Refines.start heap) hcalls
  refine ⟨s, t, cells.map Prod.fst, hs, ht, hrep.wellFormed, ?_, hreturned⟩
  rw [← hitems, List.map_map, List.map_map]
  apply List.map_congr_left
  intro cell hcell
  exact hrep.linked.content hcell

end Runs

/-- Both nodes are popped, and `malloc` gives the block of the first one again. -/
theorem linked_list_deque_reuse :
    ∃ s nodes, Trace.run linkedListStep (ListRun.start fun _ : Nat => none)
        [.pushTail 1 'a', .pushHead 2 'b', .popTail, .popHead, .pushTail 1 'c'] = some s ∧
      s.WellFormed nodes ∧ nodes.map (fun a => (s.heap a).map Node.content) = [some 'c'] ∧
      s.returned = ['a', 'b'] := by
  obtain ⟨s, t, nodes, hs, ht, hwf, hitems, hreturned⟩ :=
    @linked_list_deque Nat Char _ (fun _ => none)
      [.pushTail 1 'a', .pushHead 2 'b', .popTail, .popHead, .pushTail 1 'c'] (by decide)
  obtain rfl : ⟨['c'], ['a', 'b']⟩ = t := Option.some.inj ht
  exact ⟨s, nodes, hs, hwf, hitems, hreturned⟩

end TcpIp
