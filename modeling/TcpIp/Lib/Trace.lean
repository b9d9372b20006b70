import Mathlib.Data.Finset.Card
import Mathlib.Data.Finset.Range

/-!
# Runs of a system that takes one step at a time

`step s e` is the state after the event `e`, or `none` where `e` cannot happen. An interleaving of
several parties is a list of events.

* `run step s es`: the state after a run.
* `Along step P s es`: `P` holds in every state of the run.
* `Guarded step guard s es`: every event of the run meets `guard` in the state before it.
* `Allowed step guard s es`: moreover the guard holds of an event that cannot happen.
* `along_of_guarded`: an invariant that guarded steps keep holds along guarded runs.
  `run_of_allowed`, `run_total`: where guarded steps, or all steps, can moreover always happen, such a
  run does.
  `simulates_of_allowed`: the same with a second system that follows.
  `along_iff_guarded`, `run_along_iff_allowed`: where every other step breaks `P`, the guard is also
  necessary.
* `run_map`: runs along a function from states to states. `run_append`: runs one after another.
  `run_stutters`: runs of a system that leaves some of the steps out.
* `getElem?_moved`, `getElem?_joined`: the parties, kept in a list, after one of them took a step and
  after another one has joined.
* `exists_unowned`: of as many resources as there are parties, one is free when a party has none.
-/

namespace Trace

variable {σ ε : Type} (step : σ → ε → Option σ)

/-- The state after the events, if each of them can happen. -/
def run : σ → List ε → Option σ
  | s, [] => some s
  | s, e :: es => (step s e).bind fun s' => run s' es

/-- `P` holds in every state of the run, the first and the last included. -/
def Along (P : σ → Prop) : σ → List ε → Prop
  | s, [] => P s
  | s, e :: es => P s ∧ ∀ s', step s e = some s' → Along P s' es

/-- Every event that happens meets the guard in the state before it. -/
def Guarded (guard : σ → ε → Prop) : σ → List ε → Prop
  | _, [] => True
  | s, e :: es => ∀ s', step s e = some s' → guard s e ∧ Guarded guard s' es

/-- Every event that is due meets the guard, whether or not it can happen. -/
def Allowed (guard : σ → ε → Prop) : σ → List ε → Prop
  | _, [] => True
  | s, e :: es => guard s e ∧ ∀ s', step s e = some s' → Allowed guard s' es

/-- A run is checked step by step. -/
instance decidableGuarded (guard : σ → ε → Prop) [∀ s e, Decidable (guard s e)] :
    ∀ s es, Decidable (Guarded step guard s es)
  | _, [] => isTrue trivial
  | s, e :: es =>
    match hs : step s e with
    | none => isTrue fun s' hs' => by rw [hs] at hs'; cases hs'
    | some s' =>
      have := decidableGuarded guard s' es
      decidable_of_iff (guard s e ∧ Guarded step guard s' es)
        ⟨fun h t ht => by rw [hs] at ht; cases ht; exact h, fun h => h s' hs⟩

instance decidableAllowed (guard : σ → ε → Prop) [∀ s e, Decidable (guard s e)] :
    ∀ s es, Decidable (Allowed step guard s es)
  | _, [] => isTrue trivial
  | s, e :: es =>
    match hs : step s e with
    | none => decidable_of_iff (guard s e)
        ⟨fun h => ⟨h, fun t ht => by rw [hs] at ht; cases ht⟩, fun h => h.1⟩
    | some s' =>
      have := decidableAllowed guard s' es
      decidable_of_iff (guard s e ∧ Allowed step guard s' es)
        ⟨fun h => ⟨h.1, fun t ht => by rw [hs] at ht; cases ht; exact h.2⟩,
          fun h => ⟨h.1, h.2 s' hs⟩⟩

variable {step} {P I : σ → Prop} {guard : σ → ε → Prop}

theorem Along.head {s : σ} {es : List ε} (h : Along step P s es) : P s := by
  cases es with
  | nil => exact h
  | cons e es => exact h.1

theorem Along.last {s s' : σ} {es : List ε} (h : Along step P s es)
    (hrun : run step s es = some s') : P s' := by
  induction es generalizing s with
  | nil =>
    obtain rfl := Option.some.inj hrun
    exact h
  | cons e es ih =>
    obtain ⟨s₁, hs₁, hrest⟩ := Option.bind_eq_some_iff.mp hrun
    exact ih (h.2 s₁ hs₁) hrest

/-- An invariant that guarded steps keep. -/
theorem along_of_guarded (hP : ∀ s, I s → P s)
    (hstep : ∀ s e s', I s → guard s e → step s e = some s' → I s') {s : σ} (h : I s)
    {es : List ε} (hg : Guarded step guard s es) : Along step P s es := by
  induction es generalizing s with
  | nil => exact hP s h
  | cons e es ih =>
    refine ⟨hP s h, fun s' hs' => ?_⟩
    obtain ⟨hge, hrest⟩ := hg s' hs'
    exact ih (hstep s e s' h hge hs') hrest

/-- Steps that the guard admits can happen and keep the invariant: an allowed run reaches its end,
with the invariant in every state. -/
theorem run_of_allowed (hP : ∀ s, I s → P s)
    (hstep : ∀ s e, I s → guard s e → ∃ s', step s e = some s' ∧ I s') {s : σ} (h : I s)
    {es : List ε} (hes : Allowed step guard s es) :
    (∃ s', run step s es = some s' ∧ I s') ∧ Along step P s es := by
  induction es generalizing s with
  | nil => exact ⟨⟨s, rfl, h⟩, hP s h⟩
  | cons e es ih =>
    obtain ⟨s₁, hs₁, h₁⟩ := hstep s e h hes.1
    obtain ⟨⟨s', hrun, h'⟩, halong⟩ := ih h₁ (hes.2 s₁ hs₁)
    refine ⟨⟨s', ?_, h'⟩, hP s h, fun s₂ hs₂ => ?_⟩
    · rw [run, hs₁]
      exact hrun
    · rw [hs₁] at hs₂
      obtain rfl := Option.some.inj hs₂
      exact halong

/-- Steps that the guard admits can happen and are steps of another system that a relation follows:
an allowed run is a run of that system too. -/
theorem simulates_of_allowed {τ : Type} {step' : τ → ε → Option τ} {R : σ → τ → Prop}
    (hstep : ∀ s t e, R s t → guard s e →
      ∃ s' t', step s e = some s' ∧ step' t e = some t' ∧ R s' t')
    {s : σ} {t : τ} (h : R s t) {es : List ε} (hes : Allowed step guard s es) :
    ∃ s' t', run step s es = some s' ∧ run step' t es = some t' ∧ R s' t' := by
  induction es generalizing s t with
  | nil => exact ⟨s, t, rfl, rfl, h⟩
  | cons e es ih =>
    obtain ⟨s₁, t₁, hs₁, ht₁, h₁⟩ := hstep s t e h hes.1
    obtain ⟨s', t', hs', ht', h'⟩ := ih h₁ (hes.2 s₁ hs₁)
    refine ⟨s', t', ?_, ?_, h'⟩
    · rw [run, hs₁]
      exact hs'
    · rw [run, ht₁]
      exact ht'

/-- An invariant that every step keeps holds at the end of a run. -/
theorem run_invariant (hstep : ∀ s e s', I s → step s e = some s' → I s') {s s' : σ} (h : I s)
    {es : List ε} (hrun : run step s es = some s') : I s' := by
  induction es generalizing s with
  | nil =>
    obtain rfl := Option.some.inj hrun
    exact h
  | cons e es ih =>
    rw [run] at hrun
    obtain ⟨s₁, hs₁, hrest⟩ := Option.bind_eq_some_iff.mp hrun
    exact ih (hstep s e s₁ h hs₁) hrest

/-- A function that takes steps to steps, where an invariant holds, takes runs to runs. -/
theorem run_map {τ ε' : Type} {step' : τ → ε' → Option τ} {f : σ → τ} {g : ε → ε'}
    (hstep : ∀ s e s', I s → step s e = some s' → step' (f s) (g e) = some (f s') ∧ I s')
    {s s' : σ} (h : I s) {es : List ε} (hrun : run step s es = some s') :
    run step' (f s) (es.map g) = some (f s') ∧ I s' := by
  induction es generalizing s with
  | nil =>
    obtain rfl := Option.some.inj hrun
    exact ⟨rfl, h⟩
  | cons e es ih =>
    rw [run] at hrun
    obtain ⟨s₁, hs₁, hrest⟩ := Option.bind_eq_some_iff.mp hrun
    obtain ⟨hs₁', h₁⟩ := hstep s e s₁ h hs₁
    rw [List.map_cons, run, hs₁']
    exact ih h₁ hrest

/-- A system that follows another one, where a step of that one may be no step of its own. -/
theorem run_stutters {τ ε' : Type} {step' : τ → ε' → Option τ} {R : σ → τ → Prop} {f : ε → ε'}
    (hstep : ∀ s t e s', R s t → step s e = some s' →
      R s' t ∨ ∃ t', step' t (f e) = some t' ∧ R s' t')
    {s s' : σ} {t : τ} (h : R s t) {es : List ε} (hrun : run step s es = some s') :
    ∃ es' t', es'.Sublist (es.map f) ∧ run step' t es' = some t' ∧ R s' t' := by
  induction es generalizing s t with
  | nil =>
    obtain rfl := Option.some.inj hrun
    exact ⟨[], t, List.Sublist.refl _, rfl, h⟩
  | cons e es ih =>
    rw [run] at hrun
    obtain ⟨s₁, hs₁, hrest⟩ := Option.bind_eq_some_iff.mp hrun
    rcases hstep s t e s₁ h hs₁ with h₁ | ⟨t₁, ht₁, h₁⟩
    · obtain ⟨es', t', hsub, hrun', h'⟩ := ih h₁ hrest
      exact ⟨es', t', hsub.cons _, hrun', h'⟩
    · obtain ⟨es', t', hsub, hrun', h'⟩ := ih h₁ hrest
      refine ⟨f e :: es', t', hsub.cons_cons _, ?_, h'⟩
      rw [run, ht₁]
      exact hrun'

/-- A run in two parts. -/
theorem run_append (s : σ) (es es' : List ε) :
    run step s (es ++ es') = (run step s es).bind fun s => run step s es' := by
  induction es generalizing s with
  | nil => rfl
  | cons e es ih =>
    rw [List.cons_append, run, run]
    cases step s e with
    | none => rfl
    | some s' => exact ih s'

/-- Where every step can happen, so can every run. -/
theorem run_total (hstep : ∀ s e, I s → ∃ s', step s e = some s' ∧ I s') {s : σ} (h : I s)
    (es : List ε) : ∃ s', run step s es = some s' ∧ I s' := by
  induction es generalizing s with
  | nil => exact ⟨s, rfl, h⟩
  | cons e es ih =>
    obtain ⟨s₁, hs₁, h₁⟩ := hstep s e h
    obtain ⟨s', hrun, h'⟩ := ih h₁
    exact ⟨s', by rw [run, hs₁]; exact hrun, h'⟩

/-- Where a step that does not meet the guard breaks `P`, the guard is exact. -/
theorem along_iff_guarded (hP : ∀ s, I s → P s)
    (hstep : ∀ s e s', I s → guard s e → step s e = some s' → I s')
    (hbreak : ∀ s e s', I s → step s e = some s' → ¬ guard s e → ¬ P s') {s : σ} (h : I s)
    (es : List ε) : Along step P s es ↔ Guarded step guard s es := by
  refine ⟨fun halong => ?_, along_of_guarded hP hstep h⟩
  induction es generalizing s with
  | nil => exact trivial
  | cons e es ih =>
    intro s' hs'
    have hrest := halong.2 s' hs'
    have hge : guard s e := Classical.byContradiction fun hge => hbreak s e s' h hs' hge hrest.head
    exact ⟨hge, ih (hstep s e s' h hge hs') hrest⟩

/-- The same for runs that also have to reach their end. -/
theorem run_along_iff_allowed (hP : ∀ s, I s → P s)
    (hstep : ∀ s e, I s → guard s e → ∃ s', step s e = some s' ∧ I s')
    (hbreak : ∀ s e s', I s → step s e = some s' → ¬ guard s e → ¬ P s') {s : σ} (h : I s)
    (es : List ε) :
    ((∃ s', run step s es = some s') ∧ Along step P s es) ↔ Allowed step guard s es := by
  constructor
  · rintro ⟨⟨s', hrun⟩, halong⟩
    induction es generalizing s with
    | nil => exact trivial
    | cons e es ih =>
      rw [run] at hrun
      obtain ⟨s₁, hs₁, hrest⟩ := Option.bind_eq_some_iff.mp hrun
      have hge : guard s e := Classical.byContradiction fun hge =>
        hbreak s e s₁ h hs₁ hge (halong.2 s₁ hs₁).head
      refine ⟨hge, fun s₂ hs₂ => ?_⟩
      obtain rfl : s₁ = s₂ := Option.some.inj (hs₁.symm.trans hs₂)
      obtain ⟨s₂, hs₂', h₂⟩ := hstep s e h hge
      obtain rfl : s₁ = s₂ := Option.some.inj (hs₁.symm.trans hs₂')
      exact ih h₂ (halong.2 s₁ hs₁) hrest
  · intro hallowed
    obtain ⟨⟨s', hrun, -⟩, halong⟩ := run_of_allowed hP hstep h hallowed
    exact ⟨⟨s', hrun⟩, halong⟩

/-! ## Parties in a list -/

section Parties

variable {α : Type} {l : List α} {a b x : α} {i j : Nat}

/-- Party `i` moves on to `b`. -/
theorem getElem?_moved (hi : l[i]? = some a) :
    (l.set i b)[j]? = some x ↔ if j = i then x = b else l[j]? = some x := by
  have hlt : i < l.length := (List.getElem?_eq_some_iff.mp hi).1
  by_cases hji : j = i
  · subst hji
    simp [hlt, eq_comm]
  · rw [if_neg hji, List.getElem?_set_ne (Ne.symm hji)]

/-- After `b` has joined, a party is one from before or `b`. -/
theorem getElem?_joined (hj : (l ++ [b])[j]? = some x) : l[j]? = some x ∨ x = b := by
  rw [List.getElem?_append] at hj
  split at hj
  · exact Or.inl hj
  · obtain ⟨_, hget⟩ := List.getElem?_eq_some_iff.mp hj
    exact Or.inr (by simpa using hget.symm)

theorem getElem?_stays (hj : l[j]? = some x) : (l ++ [b])[j]? = some x := by
  rw [List.getElem?_append_left (List.getElem?_eq_some_iff.mp hj).1]
  exact hj

/-- Each party owns at most one of `n` resources, and one of at most `n` parties owns none. -/
theorem exists_unowned (owns : α → Option Nat) {n : Nat} (hn : l.length ≤ n) (hi : l[i]? = some a)
    (ha : owns a = none) : ∃ k, k < n ∧ ∀ b ∈ l, owns b ≠ some k := by
  have hlt : (l.filterMap owns).length < l.length := by
    apply Nat.lt_of_le_of_ne (List.length_filterMap_le owns l)
    intro heq
    have hsome := List.filterMap_length_eq_length.mp heq a (List.mem_of_getElem? hi)
    rw [ha] at hsome
    cases hsome
  have hcard : (l.filterMap owns).toFinset.card < (Finset.range n).card := by
    rw [Finset.card_range]
    exact Nat.lt_of_le_of_lt (List.toFinset_card_le _) (by omega)
  obtain ⟨k, hk, hfree⟩ := Finset.exists_mem_notMem_of_card_lt_card hcard
  refine ⟨k, Finset.mem_range.mp hk, fun b hb hown => hfree ?_⟩
  exact List.mem_toFinset.mpr (List.mem_filterMap.mpr ⟨b, hb, hown⟩)

end Parties

end Trace
