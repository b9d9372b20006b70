import TcpIp.Lib.Prog

/-!
# Machines that answer their inputs

A machine answers an input with a list of outputs and its next state, and may stop there. A program
refines it if each of its calls puts out what the machine does and leaves a state related to the
machine's.

* `run`: the answer to a list of inputs, up to the one where the machine stops.
* `run_out`: what every answer puts out.
* `Gives`, `run_refines`: the calls of a program, one after another, give the answer of the machine.
-/

namespace Reactive

/-- What is put out, the state after it, and whether the machine goes on. -/
structure Answer (τ ο : Type) where
  out : List ο
  next : τ
  goes : Bool

variable {τ ι ο : Type} {step : τ → ι → Answer τ ο}

/-- The answer to the inputs, one after another. -/
def run (step : τ → ι → Answer τ ο) : τ → List ι → Answer τ ο
  | t, [] => ⟨[], t, true⟩
  | t, i :: is =>
    let a := step t i
    if a.goes then { run step a.next is with out := a.out ++ (run step a.next is).out } else a

theorem run_cons_goes {t : τ} {i : ι} (h : (step t i).goes = true) (is : List ι) :
    run step t (i :: is) = { run step (step t i).next is with
      out := (step t i).out ++ (run step (step t i).next is).out } := by
  rw [run]
  exact if_pos h

theorem run_cons_stops {t : τ} {i : ι} (h : (step t i).goes = false) (is : List ι) :
    run step t (i :: is) = step t i := by
  rw [run]
  exact if_neg (by simp [h])

/-- What every answer to one of the inputs puts out. -/
theorem run_out {P : ο → Prop} (is : List ι) (hstep : ∀ t, ∀ i ∈ is, ∀ o ∈ (step t i).out, P o)
    (t : τ) : ∀ o ∈ (run step t is).out, P o := by
  induction is generalizing t with
  | nil => exact fun o ho => absurd ho (List.not_mem_nil)
  | cons i is ih =>
    have hfirst := hstep t i (List.mem_cons_self)
    cases hgoes : (step t i).goes with
    | true =>
      rw [run_cons_goes hgoes]
      intro o ho
      rcases List.mem_append.mp ho with ho | ho
      · exact hfirst o ho
      · exact ih (fun t i hi => hstep t i (List.mem_cons_of_mem _ hi)) _ o ho
    | false =>
      rw [run_cons_stops hgoes]
      exact hfirst

/-! ## Programs -/

section Programs

variable {σ ε : Type} {log : σ → List ο} {R : σ → τ → Prop} {e : ε} {s : σ} {t : τ}

/-- The program gives the answer: it returns or stops as the answer says, appends the outputs to the
log and leaves a state related to the next one. -/
structure Gives (log : σ → List ο) (R : σ → τ → Prop) (e : ε) (x : Prog ε σ Unit) (s : σ)
    (a : Answer τ ο) : Prop where
  outcome : (x s).1 = if a.goes then .ok () else .error e
  out : log (x s).2 = log s ++ a.out
  rel : R (x s).2 a.next

/-- Calls that give the answers of a machine, one after another, give its answer to them all. -/
theorem run_refines {prog : ι → Prog ε σ Unit}
    (hstep : ∀ s t i, R s t → Gives log R e (prog i) s (step t i)) (h : R s t) (is : List ι) :
    Gives log R e (is.forM prog) s (run step t is) := by
  induction is generalizing s t with
  | nil => exact ⟨rfl, (List.append_nil _).symm, h⟩
  | cons i is ih =>
    have hcons : (i :: is).forM prog = prog i >>= fun _ => is.forM prog := rfl
    obtain ⟨houtcome, hout, hrel⟩ := hstep s t i h
    rcases hrun : prog i s with ⟨r, s'⟩
    rw [hrun] at houtcome hout hrel
    cases hgoes : (step t i).goes with
    | true =>
      rw [hgoes, if_pos rfl] at houtcome
      obtain rfl : r = .ok () := houtcome
      obtain ⟨houtcome', hout', hrel'⟩ := ih hrel
      rw [hcons, run_cons_goes hgoes]
      refine ⟨?_, ?_, ?_⟩
      · rw [Prog.bind_ok hrun]
        exact houtcome'
      · rw [Prog.bind_ok hrun, hout', hout, List.append_assoc]
      · rw [Prog.bind_ok hrun]
        exact hrel'
    | false =>
      rw [hgoes, if_neg Bool.false_ne_true] at houtcome
      obtain rfl : r = .error e := houtcome
      rw [hcons, run_cons_stops hgoes]
      refine ⟨?_, ?_, ?_⟩
      · rw [Prog.bind_error hrun, hgoes]
        rfl
      · rw [Prog.bind_error hrun]
        exact hout
      · rw [Prog.bind_error hrun]
        exact hrel

end Programs

end Reactive
