import Mathlib.Data.List.Basic

/-!
# Iterators and cursors

An iterator is a state with three calls: go back to the start, ask whether an item remains, take the
next one. A call that goes wrong has no result. A loop over the last two skips some items (`skip`),
visits all of them (`drain`) or does something with each (`forEach`).

* `Position`: what a cursor over a list is, the items before it and the ones that remain, with its
  own answer to each call (`Position.step`).
* `Simulates it R`: `R` relates the states of the iterator to positions, and the three calls answer
  as the position does and keep `R`.
* `Simulates.skip`, `Simulates.run`, `Simulates.drain`, `Simulates.forEach`: so do the loops, and
  every run of calls.
-/

namespace Cursor

/-- A call of the iterator's user. -/
inductive Call where
  | reset
  | hasNext
  | next
  | skip (n : Int)
deriving Repr, DecidableEq

/-- What the call returns. Beside its own answer, `skip` gives the last item that it went over. -/
inductive Answer (α : Type) where
  | reset
  | hasNext (more : Bool)
  | next (item : Option α)
  | skip (done : Bool) (item : Option α)
deriving Repr, DecidableEq

/-! ## Positions in a list -/

/-- A cursor over a list, between the items that it has passed and the ones that remain. -/
structure Position (α : Type) where
  before : List α
  rest : List α
deriving Repr, DecidableEq

variable {σ α : Type}

namespace Position

/-- All items. -/
def items (p : Position α) : List α := p.before ++ p.rest

def start (items : List α) : Position α := { before := [], rest := items }

/-- The cursor goes over the next `n` items, or over those there are. -/
def advance (p : Position α) (n : Nat) : Position α :=
  { before := p.before ++ p.rest.take n, rest := p.rest.drop n }

/-- A cursor answers a call and moves. -/
def step (p : Position α) : Call → Answer α × Position α
  | .reset => (.reset, start p.items)
  | .hasNext => (.hasNext (!p.rest.isEmpty), p)
  | .next => (.next p.rest.head?, p.advance 1)
  | .skip n =>
    (.skip (decide (0 ≤ n ∧ n ≤ p.rest.length)) (p.rest.take n.toNat).getLast?, p.advance n.toNat)

/-- The answers to a run of calls, and where the cursor is after it. -/
def run (p : Position α) : List Call → List (Answer α) × Position α
  | [] => ([], p)
  | call :: calls =>
    let (answer, p) := p.step call
    let (answers, p) := p.run calls
    (answer :: answers, p)

@[simp] theorem items_advance (p : Position α) (n : Nat) : (p.advance n).items = p.items := by
  simp [items, advance]

@[simp] theorem rest_advance (p : Position α) (n : Nat) : (p.advance n).rest = p.rest.drop n := rfl

@[simp] theorem advance_zero (p : Position α) : p.advance 0 = p := by
  simp [advance]

theorem advance_advance (p : Position α) (m n : Nat) :
    (p.advance m).advance n = p.advance (m + n) := by
  simp [advance, List.take_add]

/-- At the end the cursor stays. -/
theorem advance_of_nil {p : Position α} (hp : p.rest = []) (n : Nat) : p.advance n = p := by
  obtain ⟨before, rest⟩ := p
  obtain rfl : rest = [] := hp
  simp [advance]

end Position

/-! ## Iterators -/

/-- The calls of an iterator over states `σ`. -/
structure Iterator (σ α : Type) where
  reset : σ → Option σ
  hasNext : σ → Option (Bool × σ)
  next : σ → Option (Option α × σ)

namespace Iterator

/-- At most `n` times, while an item remains, take it. Returns how many times are left, and the last
item taken (`item` before the first one). -/
def skipLoop (it : Iterator σ α) : Nat → Option α → σ → Option (Nat × Option α × σ)
  | 0, item, s => some (0, item, s)
  | n + 1, item, s => do
    let (more, s) ← it.hasNext s
    if more then
      let (item', s) ← it.next s
      it.skipLoop n (item'.or item) s
    else return (n + 1, item, s)

/-- A count that is not positive is left as it is, and only a count that ends in zero is a
success. -/
def skip (it : Iterator σ α) (n : Int) (s : σ) : Option (Bool × Option α × σ) :=
  if n ≤ 0 then some (n == 0, none, s)
  else do
    let (n, item, s) ← it.skipLoop n.toNat none s
    return (n == 0, item, s)

/-- While an item remains, take it; all the items taken. For at most `fuel` rounds. -/
def drain (it : Iterator σ α) : Nat → σ → Option (List α × σ)
  | 0, _ => none
  | fuel + 1, s => do
    let (more, s) ← it.hasNext s
    if more then
      let (item, s) ← it.next s
      let (items, s) ← it.drain fuel s
      return (item.toList ++ items, s)
    else return ([], s)

/-- While an item remains, take it and go on with what `body` makes of it, for at most `fuel`
rounds. -/
def forEach {τ : Type} (it : Iterator σ α) (body : τ → Option α → Option τ) :
    Nat → σ → τ → Option (τ × σ)
  | 0, _, _ => none
  | fuel + 1, s, t => do
    let (more, s) ← it.hasNext s
    if more then
      let (item, s) ← it.next s
      let t ← body t item
      it.forEach body fuel s t
    else return (t, s)

def step (it : Iterator σ α) (s : σ) : Call → Option (Answer α × σ)
  | .reset => do
    let s ← it.reset s
    return (.reset, s)
  | .hasNext => do
    let (more, s) ← it.hasNext s
    return (.hasNext more, s)
  | .next => do
    let (item, s) ← it.next s
    return (.next item, s)
  | .skip n => do
    let (done, item, s) ← it.skip n s
    return (.skip done item, s)

/-- Without a next item `skip` changes nothing more than the question does. -/
theorem skip_of_end {it : Iterator σ α} {s : σ} (h : it.hasNext s = some (false, s)) (n : Int) :
    ∃ done, it.skip n s = some (done, none, s) := by
  by_cases hn : n ≤ 0
  · exact ⟨n == 0, by simp [skip, hn]⟩
  · obtain ⟨m, hm⟩ : ∃ m, n.toNat = m + 1 := ⟨n.toNat - 1, by omega⟩
    exact ⟨false, by simp [skip, hn, hm, skipLoop, h]⟩

/-- The answers to a run of calls. -/
def run (it : Iterator σ α) (s : σ) : List Call → Option (List (Answer α) × σ)
  | [] => some ([], s)
  | call :: calls => do
    let (answer, s) ← it.step s call
    let (answers, s) ← it.run s calls
    return (answer :: answers, s)

end Iterator

/-! ## Iterators that are cursors -/

/-- In related states, the iterator answers as the cursor does. -/
structure Simulates (it : Iterator σ α) (R : σ → Position α → Prop) : Prop where
  reset : ∀ {s p}, R s p → ∃ s', it.reset s = some s' ∧ R s' (.start p.items)
  hasNext : ∀ {s p}, R s p → ∃ s', it.hasNext s = some (!p.rest.isEmpty, s') ∧ R s' p
  next : ∀ {s p}, R s p → ∃ s', it.next s = some (p.rest.head?, s') ∧ R s' (p.advance 1)

namespace Simulates

variable {it : Iterator σ α} {R : σ → Position α → Prop} {s : σ} {p : Position α}

/-- One round of a loop, where an item remains. -/
theorem round (h : Simulates it R) (hs : R s p) {x : α} {xs : List α} (hp : p.rest = x :: xs) :
    ∃ s₁ s₂, it.hasNext s = some (true, s₁) ∧ it.next s₁ = some (some x, s₂) ∧
      R s₂ (p.advance 1) := by
  obtain ⟨s₁, hmore, hs₁⟩ := h.hasNext hs
  obtain ⟨s₂, hnext, hs₂⟩ := h.next hs₁
  rw [hp] at hmore hnext
  exact ⟨s₁, s₂, hmore, hnext, hs₂⟩

theorem at_end (h : Simulates it R) (hs : R s p) (hp : p.rest = []) :
    ∃ s', it.hasNext s = some (false, s') ∧ R s' p := by
  obtain ⟨s', hmore, hs'⟩ := h.hasNext hs
  rw [hp] at hmore
  exact ⟨s', hmore, hs'⟩

theorem skipLoop (h : Simulates it R) (hs : R s p) (n : Nat) (item : Option α) :
    ∃ s', it.skipLoop n item s =
        some (n - p.rest.length, (p.rest.take n).getLast?.or item, s') ∧
      R s' (p.advance n) := by
  induction n generalizing s p item with
  | zero => exact ⟨s, by simp [Iterator.skipLoop], by rw [Position.advance_zero]; exact hs⟩
  | succ n ih =>
    cases hp : p.rest with
    | nil =>
      obtain ⟨s', hmore, hs'⟩ := h.at_end hs hp
      refine ⟨s', ?_, by rw [Position.advance_of_nil hp]; exact hs'⟩
      simp [Iterator.skipLoop, hmore]
    | cons x xs =>
      obtain ⟨s₁, s₂, hmore, hnext, hs₂⟩ := h.round hs hp
      obtain ⟨s', hrun, hs'⟩ := ih hs₂ (some x)
      have hxs : (p.advance 1).rest = xs := by simp [hp]
      rw [hxs] at hrun
      refine ⟨s', ?_, by rw [Position.advance_advance, Nat.add_comm] at hs'; exact hs'⟩
      simp only [Iterator.skipLoop, hmore, hnext, Option.bind_eq_bind, Option.bind_some, if_true,
        Option.some_or, hrun, List.length_cons, List.take_succ_cons, Nat.add_sub_add_right]
      cases htake : (xs.take n).getLast? <;> simp [List.getLast?_cons, htake]

theorem skip (h : Simulates it R) (hs : R s p) (n : Int) :
    ∃ s', it.skip n s = some (decide (0 ≤ n ∧ n ≤ p.rest.length),
        (p.rest.take n.toNat).getLast?, s') ∧
      R s' (p.advance n.toNat) := by
  by_cases hn : n ≤ 0
  · have hzero : n.toNat = 0 := by omega
    refine ⟨s, ?_, by rw [hzero, Position.advance_zero]; exact hs⟩
    have hdone : (n == 0) = decide (0 ≤ n ∧ n ≤ p.rest.length) := by
      rw [Bool.eq_iff_iff, beq_iff_eq, decide_eq_true_iff]
      omega
    simp [Iterator.skip, hn, hzero, hdone]
  · obtain ⟨s', hrun, hs'⟩ := h.skipLoop hs n.toNat none
    refine ⟨s', ?_, hs'⟩
    have hdone : (n.toNat - p.rest.length == 0) = decide (0 ≤ n ∧ n ≤ p.rest.length) := by
      rw [Bool.eq_iff_iff, beq_iff_eq, decide_eq_true_iff]
      omega
    simp [Iterator.skip, hn, hrun, hdone]

theorem step (h : Simulates it R) (hs : R s p) (call : Call) :
    ∃ s', it.step s call = some ((p.step call).1, s') ∧ R s' (p.step call).2 := by
  cases call with
  | reset =>
    obtain ⟨s', hrun, hs'⟩ := h.reset hs
    exact ⟨s', by simp [Iterator.step, hrun, Position.step], hs'⟩
  | hasNext =>
    obtain ⟨s', hrun, hs'⟩ := h.hasNext hs
    exact ⟨s', by simp [Iterator.step, hrun, Position.step], hs'⟩
  | next =>
    obtain ⟨s', hrun, hs'⟩ := h.next hs
    exact ⟨s', by simp [Iterator.step, hrun, Position.step], hs'⟩
  | skip n =>
    obtain ⟨s', hrun, hs'⟩ := h.skip hs n
    exact ⟨s', by simp [Iterator.step, hrun, Position.step], hs'⟩

/-- Any interleaving of calls. -/
theorem run (h : Simulates it R) (hs : R s p) (calls : List Call) :
    ∃ s', it.run s calls = some ((p.run calls).1, s') ∧ R s' (p.run calls).2 := by
  induction calls generalizing s p with
  | nil => exact ⟨s, rfl, hs⟩
  | cons call calls ih =>
    obtain ⟨s₁, hstep, hs₁⟩ := h.step hs call
    obtain ⟨s', hrun, hs'⟩ := ih hs₁
    refine ⟨s', ?_, hs'⟩
    simp [Iterator.run, hstep, hrun, Position.run]

/-- A full loop takes every item that remains, once and in order. -/
theorem drain (h : Simulates it R) (hs : R s p) {fuel : Nat} (hfuel : p.rest.length < fuel) :
    ∃ s', it.drain fuel s = some (p.rest, s') ∧ R s' (p.advance p.rest.length) := by
  induction fuel generalizing s p with
  | zero => omega
  | succ fuel ih =>
    cases hp : p.rest with
    | nil =>
      obtain ⟨s', hmore, hs'⟩ := h.at_end hs hp
      refine ⟨s', by simp [Iterator.drain, hmore], ?_⟩
      rw [Position.advance_of_nil hp]
      exact hs'
    | cons x xs =>
      obtain ⟨s₁, s₂, hmore, hnext, hs₂⟩ := h.round hs hp
      have hxs : (p.advance 1).rest = xs := by simp [hp]
      rw [hp, List.length_cons] at hfuel
      obtain ⟨s', hrun, hs'⟩ := ih hs₂ (by rw [hxs]; omega)
      rw [hxs] at hrun hs'
      refine ⟨s', by simp [Iterator.drain, hmore, hnext, hrun], ?_⟩
      rw [Position.advance_advance, Nat.add_comm] at hs'
      exact hs'

/-- A loop over the iterator is a loop over the items that remain. -/
theorem forEach {τ : Type} (h : Simulates it R) (hs : R s p) (body : τ → Option α → Option τ)
    {fuel : Nat} (hfuel : p.rest.length < fuel) (t : τ) :
    (it.forEach body fuel s t).map Prod.fst = p.rest.foldlM (fun t x => body t (some x)) t := by
  induction fuel generalizing s p t with
  | zero => omega
  | succ fuel ih =>
    cases hp : p.rest with
    | nil =>
      obtain ⟨s', hmore, -⟩ := h.at_end hs hp
      simp [Iterator.forEach, hmore]
    | cons x xs =>
      obtain ⟨s₁, s₂, hmore, hnext, hs₂⟩ := h.round hs hp
      have hxs : (p.advance 1).rest = xs := by simp [hp]
      rw [hp, List.length_cons] at hfuel
      have hrun := fun t => ih hs₂ (by rw [hxs]; omega) t
      rw [hxs] at hrun
      simp only [Iterator.forEach, hmore, hnext, Option.bind_eq_bind, Option.bind_some, if_true,
        List.foldlM_cons]
      cases hbody : body t (some x) with
      | none => rfl
      | some t' => exact hrun t'

end Simulates

end Cursor
