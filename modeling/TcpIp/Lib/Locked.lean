import TcpIp.Lib.Trace

/-!
# Critical sections of one lock

Parties share two parts of a state. One part is accessed in critical sections of one lock only, one
access at a time; the other one is accessed outside of them. While a party is in its section, the
others go on until they need the lock.

* `System`, `System.step`: such parties, and the steps of an interleaving: taking the lock, one
  access, releasing it, a step outside.
* `System.atomicStep`: the same parties where a section is one step, a function of the protected
  part.
* `simulates`: if every section, run on its own, computes that function (`System.Implements`), then
  every interleaving is an interleaving of atomic sections: the one in which each section happens
  when it releases the lock. So the other properties of the system are proved with atomic sections.
* `releases`: where a section makes a bounded number of accesses, the owner of the lock releases it
  within that number of its own steps.
-/

namespace Locked

/-- Parties with local states `α` that share `σ`, under the lock, and `υ`. A section goes through
states `κ` and gives a result `ρ`; `ε` names the steps outside. -/
structure System (σ υ α κ ρ ε : Type) where
  /-- The party is about to take the lock: the start of its section. -/
  begins : α → Option κ
  /-- The next access of a section. -/
  access : σ → κ → σ × κ
  /-- The section has made its last access. -/
  result : κ → Option ρ
  /-- What the party does with the result when it has released the lock. -/
  resume : υ → α → ρ → υ × α
  /-- A step outside of the sections. -/
  free : υ → α → ε → Option (υ × α)
  /-- No party takes a step any more. -/
  halted : υ → Bool

/-- The shared parts, the parties, and the party that holds the lock with the state of its
section. -/
structure State (σ υ α κ : Type) where
  prot : σ
  rest : υ
  parties : List α
  owner : Option (Nat × κ)

inductive Event (ε : Type) where
  | lock (i : Nat)
  | access (i : Nat)
  | unlock (i : Nat)
  | free (i : Nat) (e : ε)

/-- The same without the lock. -/
structure Atomic (σ υ α : Type) where
  prot : σ
  rest : υ
  parties : List α

inductive AtomicEvent (ε : Type) where
  | critical (i : Nat)
  | free (i : Nat) (e : ε)

/-- A section happens when it releases the lock. -/
def Event.atomic {ε : Type} : Event ε → Option (AtomicEvent ε)
  | .lock _ | .access _ => none
  | .unlock i => some (.critical i)
  | .free i e => some (.free i e)

variable {σ υ α κ ρ ε : Type}

namespace System

/-- The next step of an interleaving. -/
def step (S : System σ υ α κ ρ ε) (s : State σ υ α κ) (e : Event ε) : Option (State σ υ α κ) :=
  if S.halted s.rest then none
  else match e with
    | .lock i =>
      match s.owner with
      | some _ => none
      | none => do
        let a ← s.parties[i]?
        let k ← S.begins a
        return { s with owner := some (i, k) }
    | .access i =>
      match s.owner with
      | none => none
      | some (j, k) =>
        if j = i ∧ (S.result k).isNone then
          let (prot, k) := S.access s.prot k
          some { s with prot, owner := some (i, k) }
        else none
    | .unlock i =>
      match s.owner with
      | none => none
      | some (j, k) =>
        if j = i then do
          let a ← s.parties[i]?
          let r ← S.result k
          let (rest, a) := S.resume s.rest a r
          return { s with rest, parties := s.parties.set i a, owner := none }
        else none
    | .free i e =>
      if s.owner.map Prod.fst = some i then none
      else do
        let a ← s.parties[i]?
        let (rest, a) ← S.free s.rest a e
        return { s with rest, parties := s.parties.set i a }

/-- The next step with atomic sections: `body` computes what a section does. -/
def atomicStep (S : System σ υ α κ ρ ε) (body : σ → α → Option (σ × ρ)) (t : Atomic σ υ α)
    (e : AtomicEvent ε) : Option (Atomic σ υ α) :=
  if S.halted t.rest then none
  else match e with
    | .critical i => do
      let a ← t.parties[i]?
      let (prot, r) ← body t.prot a
      let (rest, a) := S.resume t.rest a r
      return { prot, rest, parties := t.parties.set i a }
    | .free i e => do
      let a ← t.parties[i]?
      let (rest, a) ← S.free t.rest a e
      return { t with rest, parties := t.parties.set i a }

/-- Accesses of one section, none of them past its result. -/
inductive Reaches (S : System σ υ α κ ρ ε) (prot₀ : σ) (k₀ : κ) : σ → κ → Prop where
  | start : Reaches S prot₀ k₀ prot₀ k₀
  | access {prot : σ} {k : κ} (h : Reaches S prot₀ k₀ prot k) (hk : S.result k = none) :
      Reaches S prot₀ k₀ (S.access prot k).1 (S.access prot k).2

/-- A section that runs on its own computes `body`. -/
def Implements (S : System σ υ α κ ρ ε) (body : σ → α → Option (σ × ρ)) : Prop :=
  ∀ {a k₀ prot₀ prot k r}, S.begins a = some k₀ → S.Reaches prot₀ k₀ prot k →
    S.result k = some r → body prot₀ a = some (prot, r)

end System

/-! ## Simulation -/

/-- `t` is the state without the lock: an owner's section has not happened yet. -/
structure Follows (S : System σ υ α κ ρ ε) (s : State σ υ α κ) (t : Atomic σ υ α) : Prop where
  rest : s.rest = t.rest
  parties : s.parties = t.parties
  unlocked : s.owner = none → s.prot = t.prot
  locked : ∀ i k, s.owner = some (i, k) → ∃ a k₀, s.parties[i]? = some a ∧
    S.begins a = some k₀ ∧ S.Reaches t.prot k₀ s.prot k

section Simulation

variable {S : System σ υ α κ ρ ε} {body : σ → α → Option (σ × ρ)} {s s' : State σ υ α κ}
  {t : Atomic σ υ α}

theorem Follows.start (S : System σ υ α κ ρ ε) (t : Atomic σ υ α) :
    Follows S { prot := t.prot, rest := t.rest, parties := t.parties, owner := none } t :=
  ⟨rfl, rfl, fun _ => rfl, fun _ _ h => nomatch h⟩

/-- Taking the lock and accesses are not seen; releasing the lock is the section. -/
theorem Follows.step (hS : S.Implements body) (h : Follows S s t) {e : Event ε}
    (hstep : S.step s e = some s') :
    match e.atomic with
    | none => Follows S s' t
    | some f => ∃ t', S.atomicStep body t f = some t' ∧ Follows S s' t' := by
  unfold System.step at hstep
  split at hstep
  · cases hstep
  rename_i hrun
  cases e with
  | lock i =>
    dsimp only at hstep
    split at hstep
    · cases hstep
    · rename_i hnone
      simp only [Option.bind_eq_bind, Option.bind_eq_some_iff] at hstep
      obtain ⟨a, ha, k, hk, hs'⟩ := hstep
      obtain rfl := Option.some.inj hs'
      refine ⟨h.rest, h.parties, fun hc => (nomatch hc), fun j k' hj => ?_⟩
      obtain ⟨rfl, rfl⟩ := Prod.mk.inj (Option.some.inj hj)
      refine ⟨a, k, ha, hk, ?_⟩
      rw [← h.unlocked hnone]
      exact .start
  | access i =>
    dsimp only at hstep
    split at hstep
    · cases hstep
    · rename_i j k howner
      split at hstep
      · rename_i hcond
        obtain ⟨rfl, hk⟩ := hcond
        obtain rfl := Option.some.inj hstep
        obtain ⟨a, k₀, ha, hk₀, hreach⟩ := h.locked j k howner
        refine ⟨h.rest, h.parties, fun hc => (nomatch hc), fun j' k' hj => ?_⟩
        obtain ⟨rfl, rfl⟩ := Prod.mk.inj (Option.some.inj hj)
        exact ⟨a, k₀, ha, hk₀, hreach.access (Option.isNone_iff_eq_none.mp hk)⟩
      · cases hstep
  | unlock i =>
    dsimp only at hstep
    split at hstep
    · cases hstep
    · rename_i j k howner
      split at hstep
      · rename_i hji
        subst hji
        simp only [Option.bind_eq_bind, Option.bind_eq_some_iff] at hstep
        obtain ⟨a, ha, r, hr, hs'⟩ := hstep
        obtain rfl := Option.some.inj hs'
        obtain ⟨a', k₀, ha', hk₀, hreach⟩ := h.locked j k howner
        obtain rfl : a = a' := Option.some.inj (ha.symm.trans ha')
        have hsection := hS hk₀ hreach hr
        refine ⟨{ prot := s.prot, rest := (S.resume s.rest a r).1
                  parties := s.parties.set j (S.resume s.rest a r).2 }, ?_,
          rfl, rfl, fun _ => rfl, fun _ _ hc => (nomatch hc)⟩
        simp only [System.atomicStep, ← h.rest, if_neg hrun, ← h.parties, ha, hsection,
          Option.bind_eq_bind, Option.bind_some]
        rfl
      · cases hstep
  | free i e =>
    dsimp only at hstep
    split at hstep
    · cases hstep
    · rename_i howner
      simp only [Option.bind_eq_bind, Option.bind_eq_some_iff] at hstep
      obtain ⟨a, ha, ⟨rest, a'⟩, hfree, hs'⟩ := hstep
      obtain rfl := Option.some.inj hs'
      refine ⟨{ t with rest, parties := s.parties.set i a' }, ?_, rfl, rfl, h.unlocked,
        fun j k hj => ?_⟩
      · simp only [System.atomicStep, ← h.rest, if_neg hrun, ← h.parties, ha, hfree,
          Option.bind_eq_bind, Option.bind_some]
        rfl
      · -- The owner is another party.
        obtain ⟨b, k₀, hb, hk₀, hreach⟩ := h.locked j k hj
        have hji : j ≠ i := by
          rintro rfl
          exact howner (by rw [show s.owner = some (j, k) from hj]; rfl)
        exact ⟨b, k₀, (Trace.getElem?_moved ha).mpr (by rwa [if_neg hji]), hk₀, hreach⟩

/-- **Sections are atomic**: an interleaving is the run with atomic sections in which each section
happens when it releases the lock. -/
theorem simulates (hS : S.Implements body) (h : Follows S s t) {es : List (Event ε)}
    (hrun : Trace.run S.step s es = some s') :
    ∃ t', Trace.run (S.atomicStep body) t (es.filterMap Event.atomic) = some t' ∧
      Follows S s' t' := by
  induction es generalizing s t with
  | nil =>
    obtain rfl := Option.some.inj hrun
    exact ⟨t, rfl, h⟩
  | cons e es ih =>
    rw [Trace.run] at hrun
    obtain ⟨s₁, hs₁, hrest⟩ := Option.bind_eq_some_iff.mp hrun
    have hstep := h.step hS hs₁
    cases he : e.atomic with
    | none =>
      rw [he] at hstep
      rw [List.filterMap_cons_none he]
      exact ih hstep hrest
    | some f =>
      rw [he] at hstep
      obtain ⟨t₁, ht₁, h₁⟩ := hstep
      obtain ⟨t', ht', h'⟩ := ih h₁ hrest
      refine ⟨t', ?_, h'⟩
      rw [List.filterMap_cons_some he, Trace.run, ht₁]
      exact ht'

end Simulation

/-! ## Release -/

section Release

variable {S : System σ υ α κ ρ ε} {s : State σ υ α κ} {i : Nat} {k : κ}

/-- The owner goes on to its last access and releases the lock. `left` bounds the accesses that
remain. -/
theorem releases (left : σ → κ → Nat)
    (hleft : ∀ prot k, S.result k = none →
      left (S.access prot k).1 (S.access prot k).2 < left prot k)
    (hrun : S.halted s.rest = false) (hi : i < s.parties.length) (howner : s.owner = some (i, k)) :
    ∃ n s', n ≤ left s.prot k ∧
      Trace.run S.step s (List.replicate n (.access i) ++ [.unlock i]) = some s' ∧
      s'.owner = none := by
  generalize hbound : left s.prot k = bound
  induction bound using Nat.strong_induction_on generalizing s k with
  | _ bound ih =>
    have hgo : ¬ S.halted s.rest = true := by rw [hrun]; exact Bool.false_ne_true
    cases hk : S.result k with
    | some r =>
      refine ⟨0, { s with
        rest := (S.resume s.rest s.parties[i] r).1
        parties := s.parties.set i (S.resume s.rest s.parties[i] r).2
        owner := none }, Nat.zero_le _, ?_, rfl⟩
      simp [Trace.run, System.step, hgo, howner, hi, hk]
    | none =>
      have hlt := hleft s.prot k hk
      rw [hbound] at hlt
      obtain ⟨n, s', hn, hrun', hfree⟩ := ih _ hlt
        (s := { s with prot := (S.access s.prot k).1, owner := some (i, (S.access s.prot k).2) })
        hrun hi rfl rfl
      refine ⟨n + 1, s', by omega, ?_, hfree⟩
      rw [List.replicate_succ, List.cons_append, Trace.run]
      simp only [System.step, if_neg hgo, howner, hk, Option.isNone_none, and_self, if_true,
        Option.bind_some]
      exact hrun'

end Release

end Locked
