import Mathlib.Data.List.Nodup
import Mathlib.Logic.Function.Basic

/-!
# Doubly linked chains in a heap

A heap gives the node at each allocated address; `none` as a pointer is the null pointer, and `none`
in the heap is a block that is not allocated. An access through the null pointer or to a block that
is not allocated fails.

* `Linked h prev cells next`: the cells, each an address with its content, are linked both ways in
  the heap; before them is `prev`, after them `next`.
* `linked_append`: a chain in two parts. `Linked.frame`: a chain in a heap that is the same at its
  nodes.
* `linked_mirror`: with the two links of every node exchanged, the chain is the one in the other
  order. What holds at one end of a chain then holds at the other one.
* `Path h link p nodes`: following one link from `p` visits these nodes and ends in the null pointer.
  `Linked.forward`, `Linked.backward`: the two paths of a chain.
-/

namespace Chain

structure Node (Addr α : Type) where
  content : α
  next : Option Addr
  prev : Option Addr
deriving Repr, DecidableEq

abbrev Heap (Addr α : Type) := Addr → Option (Node Addr α)

variable {Addr α : Type}

/-! ## Access to the heap -/

section Access

variable [DecidableEq Addr]

/-- The node that a pointer points to. -/
def load (h : Heap Addr α) (p : Option Addr) : Option (Node Addr α) := p.bind h

/-- The heap with the node behind the pointer changed. -/
def modify (h : Heap Addr α) (p : Option Addr) (f : Node Addr α → Node Addr α) :
    Option (Heap Addr α) := do
  let a ← p
  let n ← h a
  return Function.update h a (some (f n))

/-- The same, where a null pointer is left alone. -/
def modifyUnlessNull (h : Heap Addr α) (p : Option Addr) (f : Node Addr α → Node Addr α) :
    Option (Heap Addr α) :=
  if p = none then some h else modify h p f

/-- The heap without the block behind the pointer. To free the null pointer does nothing. -/
def free (h : Heap Addr α) : Option Addr → Option (Heap Addr α)
  | none => some h
  | some a => (h a).map fun _ => Function.update h a none

omit [DecidableEq Addr] in
@[simp] theorem load_some (h : Heap Addr α) (a : Addr) : load h (some a) = h a := rfl

@[simp] theorem modifyUnlessNull_none (h : Heap Addr α) (f : Node Addr α → Node Addr α) :
    modifyUnlessNull h none f = some h := rfl

theorem modifyUnlessNull_some {h : Heap Addr α} {a : Addr} {n : Node Addr α} (ha : h a = some n)
    (f : Node Addr α → Node Addr α) :
    modifyUnlessNull h (some a) f = some (Function.update h a (some (f n))) := by
  simp [modifyUnlessNull, modify, ha]

theorem free_some {h : Heap Addr α} {a : Addr} {n : Node Addr α} (ha : h a = some n) :
    free h (some a) = some (Function.update h a none) := by
  simp [free, ha]

end Access

/-! ## Chains -/

/-- Where the cells begin: at the first one, or behind all of them. -/
def first : List (Addr × α) → Option Addr → Option Addr
  | [], next => next
  | (a, _) :: _, _ => some a

/-- Where the cells end. -/
def last (prev : Option Addr) (cells : List (Addr × α)) : Option Addr := first cells.reverse prev

/-- The cells are linked both ways, from `prev` to `next`. -/
def Linked (h : Heap Addr α) (prev : Option Addr) :
    List (Addr × α) → Option Addr → Prop
  | [], _ => True
  | (a, c) :: cells, next =>
    h a = some { content := c, next := first cells next, prev } ∧ Linked h (some a) cells next

variable {h h' : Heap Addr α} {prev next : Option Addr} {cells cells' : List (Addr × α)} {a : Addr}
  {c : α}

@[simp] theorem first_nil : first ([] : List (Addr × α)) next = next := rfl

@[simp] theorem first_cons : first ((a, c) :: cells) next = some a := rfl

theorem first_append : first (cells ++ cells') next = first cells (first cells' next) := by
  cases cells <;> rfl

@[simp] theorem last_nil : last prev ([] : List (Addr × α)) = prev := rfl

theorem last_cons : last prev ((a, c) :: cells) = last (some a) cells := by
  simp [last, first_append]

@[simp] theorem last_concat : last prev (cells ++ [(a, c)]) = some a := by
  simp [last]

theorem first_eq_none : first cells none = none ↔ cells = [] := by
  cases cells with
  | nil => simp
  | cons cell cells => simp [first]

theorem linked_append : Linked h prev (cells ++ cells') next ↔
    Linked h prev cells (first cells' next) ∧ Linked h (last prev cells) cells' next := by
  induction cells generalizing prev with
  | nil => simp [Linked]
  | cons cell cells ih =>
    obtain ⟨a, c⟩ := cell
    simp only [List.cons_append, Linked, first_append, last_cons, ih, and_assoc]

/-- The last node of a chain. -/
theorem linked_concat : Linked h prev (cells ++ [(a, c)]) next ↔
    Linked h prev cells (some a) ∧ h a = some { content := c, next, prev := last prev cells } := by
  simp [linked_append, Linked]

/-- A node of a chain is allocated. -/
theorem Linked.content (hl : Linked h prev cells next) (hc : (a, c) ∈ cells) :
    (h a).map Node.content = some c := by
  induction cells generalizing prev with
  | nil => cases hc
  | cons cell cells ih =>
    rcases List.mem_cons.mp hc with rfl | hc
    · rw [hl.1]
      rfl
    · exact ih hl.2 hc

theorem Linked.ne_of_free (hl : Linked h prev cells next) (ha : h a = none) :
    a ∉ cells.map Prod.fst := by
  intro hmem
  obtain ⟨⟨_, c⟩, hc, rfl⟩ := List.mem_map.mp hmem
  have hcontent := hl.content hc
  rw [ha] at hcontent
  cases hcontent

theorem Linked.frame (hl : Linked h prev cells next)
    (hh : ∀ b ∈ cells.map Prod.fst, h' b = h b) : Linked h' prev cells next := by
  induction cells generalizing prev with
  | nil => exact trivial
  | cons cell cells ih =>
    refine ⟨?_, ih hl.2 fun b hb => hh b (List.mem_cons_of_mem _ hb)⟩
    rw [hh cell.1 (List.mem_cons_self ..)]
    exact hl.1

/-- A chain does not see a change elsewhere. -/
theorem Linked.update [DecidableEq Addr] (hl : Linked h prev cells next)
    (ha : a ∉ cells.map Prod.fst) (n : Option (Node Addr α)) :
    Linked (Function.update h a n) prev cells next := by
  apply hl.frame
  intro b hb
  have hba : b ≠ a := fun heq => ha (heq ▸ hb)
  rw [Function.update_of_ne hba]

/-- The last node of a chain gets another successor. -/
theorem Linked.relink [DecidableEq Addr] (hl : Linked h prev (cells ++ [(a, c)]) next)
    (ha : a ∉ cells.map Prod.fst) (next' : Option Addr) :
    Linked (Function.update h a (some { content := c, next := next', prev := last prev cells })) prev
      (cells ++ [(a, c)]) next' :=
  linked_concat.mpr ⟨(linked_concat.mp hl).1.update ha _, Function.update_self ..⟩

theorem distinct_concat :
    ((cells ++ [(a, c)]).map Prod.fst).Nodup ↔
      (cells.map Prod.fst).Nodup ∧ a ∉ cells.map Prod.fst := by
  rw [List.map_append, List.map_singleton, ← List.concat_eq_append, List.nodup_concat, and_comm]

/-! ## The other direction -/

def Node.mirror (n : Node Addr α) : Node Addr α :=
  { content := n.content, next := n.prev, prev := n.next }

/-- The two links of every node exchanged. -/
def mirror (h : Heap Addr α) : Heap Addr α := fun a => (h a).map Node.mirror

@[simp] theorem Node.mirror_mirror (n : Node Addr α) : n.mirror.mirror = n := rfl

theorem mirror_mirror (h : Heap Addr α) : mirror (mirror h) = h := by
  funext a
  simp [mirror, Function.comp_def]

theorem mirror_eq_some {n : Node Addr α} : mirror h a = some n ↔ h a = some n.mirror := by
  rw [mirror, Option.map_eq_some_iff]
  constructor
  · rintro ⟨m, hm, rfl⟩
    exact hm
  · intro hn
    exact ⟨n.mirror, hn, rfl⟩

theorem mirror_update [DecidableEq Addr] (h : Heap Addr α) (a : Addr) (n : Option (Node Addr α)) :
    mirror (Function.update h a n) = Function.update (mirror h) a (n.map Node.mirror) := by
  funext b
  by_cases hba : b = a
  · subst hba
    simp [mirror]
  · simp [mirror, hba]

theorem load_mirror (h : Heap Addr α) (p : Option Addr) :
    load (mirror h) p = (load h p).map Node.mirror := by
  cases p <;> rfl

theorem free_mirror [DecidableEq Addr] (h : Heap Addr α) (p : Option Addr) :
    free (mirror h) p = (free h p).map mirror := by
  cases p with
  | none => rfl
  | some a => simp [free, mirror_update, mirror, Function.comp_def]

theorem modifyUnlessNull_mirror [DecidableEq Addr] (h : Heap Addr α) (p : Option Addr)
    (f : Node Addr α → Node Addr α) :
    modifyUnlessNull (mirror h) p f =
      (modifyUnlessNull h p fun n => (f n.mirror).mirror).map mirror := by
  cases p with
  | none => rfl
  | some a =>
    cases ha : h a with
    | none => simp [modifyUnlessNull, modify, mirror, ha]
    | some n =>
      have hmirror : mirror h a = some n.mirror := by rw [mirror, ha, Option.map_some]
      rw [modifyUnlessNull_some ha, modifyUnlessNull_some hmirror]
      simp [mirror_update]

theorem linked_mirror :
    Linked (mirror h) prev cells next ↔ Linked h next cells.reverse prev := by
  induction cells generalizing prev with
  | nil => simp [Linked]
  | cons cell cells ih =>
    obtain ⟨a, c⟩ := cell
    rw [List.reverse_cons, linked_concat, Linked, mirror_eq_some, ih, last, List.reverse_reverse,
      and_comm]
    rfl

/-! ## Paths -/

/-- Following `link` from `p` visits the nodes and ends in the null pointer. -/
def Path (h : Heap Addr α) (link : Node Addr α → Option Addr) :
    Option Addr → List Addr → Prop
  | p, [] => p = none
  | p, a :: nodes => p = some a ∧ ∃ n, h a = some n ∧ Path h link (link n) nodes

/-- A link leads to one node only. -/
theorem path_unique {link : Node Addr α → Option Addr} {p : Option Addr} {nodes nodes' : List Addr}
    (hp : Path h link p nodes) (hp' : Path h link p nodes') : nodes = nodes' := by
  induction nodes generalizing p nodes' with
  | nil =>
    obtain rfl : p = none := hp
    cases nodes' with
    | nil => rfl
    | cons b nodes' => cases hp'.1
  | cons a nodes ih =>
    obtain ⟨rfl, n, hn, hrest⟩ := hp
    cases nodes' with
    | nil => cases hp'
    | cons b nodes' =>
      obtain ⟨hab, n', hn', hrest'⟩ := hp'
      obtain rfl : a = b := Option.some.inj hab
      obtain rfl : n = n' := Option.some.inj (hn.symm.trans hn')
      rw [ih hrest hrest']

theorem Linked.forward (hl : Linked h prev cells none) :
    Path h Node.next (first cells none) (cells.map Prod.fst) := by
  induction cells generalizing prev with
  | nil => rfl
  | cons cell cells ih => exact ⟨rfl, _, hl.1, ih hl.2⟩

theorem path_mirror {p : Option Addr} {nodes : List Addr} :
    Path (mirror h) Node.next p nodes ↔ Path h Node.prev p nodes := by
  induction nodes generalizing p with
  | nil => exact Iff.rfl
  | cons a nodes ih =>
    simp only [Path, mirror_eq_some, ih]
    apply and_congr_right'
    constructor
    · rintro ⟨n, hn, hpath⟩
      exact ⟨n.mirror, hn, hpath⟩
    · rintro ⟨n, hn, hpath⟩
      exact ⟨n.mirror, hn, hpath⟩

theorem Linked.backward (hl : Linked h none cells next) :
    Path h Node.prev (last none cells) (cells.map Prod.fst).reverse := by
  rw [← List.reverse_reverse cells] at hl
  rw [← path_mirror, ← List.map_reverse]
  exact (linked_mirror.mpr hl).forward

end Chain
