/-!
# Programs that change a state and may stop

`Prog ε σ α` is a program over states `σ` that returns an `α` or stops with an `ε`. Unlike an
exception that rolls back, a stop keeps the state reached so far: effects before it have happened.

* `bind_ok`, `bind_error`: one step of a sequence.
* `Keeps R x`: every run of `x` relates its first and last state by `R`, whether it returns or
  stops. For a reflexive and transitive `R` it holds of a sequence when it holds of its parts.
* `Returns R x`: moreover every run returns.
-/

/-- A program over `σ` that returns `α` or stops with `ε`. -/
def Prog (ε σ α : Type) := σ → Except ε α × σ

namespace Prog

variable {ε σ α β : Type}

instance : Monad (Prog ε σ) where
  pure a := fun s => (.ok a, s)
  bind x f := fun s =>
    match x s with
    | (.ok a, s') => f a s'
    | (.error e, s') => (.error e, s')

/-- Stop with `e`. -/
def stop (e : ε) : Prog ε σ α := fun s => (.error e, s)

/-- Read the state. -/
def gets (f : σ → α) : Prog ε σ α := fun s => (.ok (f s), s)

/-- Change the state. -/
def modify (f : σ → σ) : Prog ε σ Unit := fun s => (.ok (), f s)

@[simp] theorem pure_apply (a : α) (s : σ) : (pure a : Prog ε σ α) s = (.ok a, s) := rfl

@[simp] theorem stop_apply (e : ε) (s : σ) : (stop e : Prog ε σ α) s = (.error e, s) := rfl

@[simp] theorem gets_apply (f : σ → α) (s : σ) : (gets f : Prog ε σ α) s = (.ok (f s), s) := rfl

@[simp] theorem modify_apply (f : σ → σ) (s : σ) :
    (modify f : Prog ε σ Unit) s = (.ok (), f s) := rfl

theorem bind_ok {x : Prog ε σ α} {f : α → Prog ε σ β} {s s' : σ} {a : α}
    (h : x s = (.ok a, s')) : (x >>= f) s = f a s' := by
  show (match x s with
    | (.ok a, s') => f a s'
    | (.error e, s') => (.error e, s')) = _
  rw [h]

theorem bind_error {x : Prog ε σ α} {f : α → Prog ε σ β} {s s' : σ} {e : ε}
    (h : x s = (.error e, s')) : (x >>= f) s = (.error e, s') := by
  show (match x s with
    | (.ok a, s') => f a s'
    | (.error e, s') => (.error e, s')) = _
  rw [h]

/-- What follows depends on the outcome of the first part only. -/
theorem bind_run_congr {x y : Prog ε σ α} {s t : σ} (h : x s = y t) (f : α → Prog ε σ β) :
    (x >>= f) s = (y >>= f) t := by
  rcases hy : y t with ⟨a | a, t'⟩
  · rw [bind_error hy, bind_error (h.trans hy)]
  · rw [bind_ok hy, bind_ok (h.trans hy)]

/-- A second part that leaves the state alone. -/
theorem bind_snd {x : Prog ε σ α} {f : α → Prog ε σ β} (hf : ∀ a s, (f a s).2 = s) (s : σ) :
    ((x >>= f) s).2 = (x s).2 := by
  rcases h : x s with ⟨a | a, s'⟩
  · rw [bind_error h]
  · rw [bind_ok h, hf]

private theorem prog_id_map (x : Prog ε σ α) : id <$> x = x := by
  funext s
  show (match x s with
    | (.ok a, s') => (Except.ok a, s')
    | (.error e, s') => (.error e, s')) = x s
  rcases x s with ⟨a | a, s'⟩ <;> rfl

private theorem prog_bind_assoc {γ : Type} (x : Prog ε σ α) (f : α → Prog ε σ β)
    (g : β → Prog ε σ γ) : x >>= f >>= g = x >>= fun a => f a >>= g := by
  funext s
  rcases h : x s with ⟨a | a, s'⟩
  · rw [bind_error h, bind_error (bind_error h)]
  · rw [bind_ok h]
    rcases h' : f a s' with ⟨b | b, s''⟩
    · rw [bind_error h', bind_error ((bind_ok h).trans h')]
    · rw [bind_ok h', bind_ok ((bind_ok h).trans h')]

instance : LawfulMonad (Prog ε σ) :=
  LawfulMonad.mk' _ prog_id_map (fun _ _ => rfl) prog_bind_assoc

/-- Every run of `x` relates its first and last state by `R`. -/
def Keeps (R : σ → σ → Prop) (x : Prog ε σ α) : Prop := ∀ s, R s (x s).2

section Keeps

variable {R : σ → σ → Prop}

theorem Keeps.pure (hr : ∀ s, R s s) (a : α) : Keeps R (Pure.pure a : Prog ε σ α) := hr

theorem Keeps.stop (hr : ∀ s, R s s) (e : ε) : Keeps R (Prog.stop e : Prog ε σ α) := hr

theorem Keeps.gets (hr : ∀ s, R s s) (f : σ → α) : Keeps R (Prog.gets f : Prog ε σ α) := hr

/-- A sequence from a given state on: the first part only at that state. -/
theorem Keeps.bind_at (ht : ∀ {s t u}, R s t → R t u → R s u) {x : Prog ε σ α}
    {f : α → Prog ε σ β} {s : σ} (hx : R s (x s).2) (hf : ∀ a, Keeps R (f a)) :
    R s ((x >>= f) s).2 := by
  rcases hrun : x s with ⟨a | a, s'⟩
  · rw [hrun] at hx
    rw [bind_error hrun]
    exact hx
  · rw [hrun] at hx
    rw [bind_ok hrun]
    exact ht hx (hf a s')

theorem Keeps.bind (ht : ∀ {s t u}, R s t → R t u → R s u) {x : Prog ε σ α}
    {f : α → Prog ε σ β} (hx : Keeps R x) (hf : ∀ a, Keeps R (f a)) : Keeps R (x >>= f) :=
  fun s => Keeps.bind_at (R := R) ht (hx s) hf

theorem Keeps.ite {c : Prop} [Decidable c] {x y : Prog ε σ α} (hx : Keeps R x) (hy : Keeps R y) :
    Keeps R (if c then x else y) := by
  split
  · exact hx
  · exact hy

end Keeps

/-- Every run of `x` returns and relates its first and last state by `R`. -/
def Returns (R : σ → σ → Prop) (x : Prog ε σ α) : Prop := ∀ s, ∃ a s', x s = (.ok a, s') ∧ R s s'

section Returns

variable {R : σ → σ → Prop}

theorem Returns.pure (hr : ∀ s, R s s) (a : α) : Returns R (Pure.pure a : Prog ε σ α) :=
  fun s => ⟨a, s, rfl, hr s⟩

theorem Returns.bind (ht : ∀ {s t u}, R s t → R t u → R s u) {x : Prog ε σ α}
    {f : α → Prog ε σ β} (hx : Returns R x) (hf : ∀ a, Returns R (f a)) : Returns R (x >>= f) := by
  intro s
  obtain ⟨a, s', hrun, h⟩ := hx s
  obtain ⟨b, s'', hrun', h'⟩ := hf a s'
  exact ⟨b, s'', by rw [bind_ok hrun, hrun'], ht h h'⟩

theorem Returns.ite {c : Prop} [Decidable c] {x y : Prog ε σ α} (hx : Returns R x)
    (hy : Returns R y) : Returns R (if c then x else y) := by
  split
  · exact hx
  · exact hy

end Returns

end Prog
