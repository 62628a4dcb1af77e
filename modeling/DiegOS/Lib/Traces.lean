import Mathlib.Logic.Relation

/-!
# Traces with answers

A system that answers every call, and the traces of calls and answers it makes.  An abstract
machine says which answers are allowed; a relation between the states of both that every step
keeps makes every trace one that the abstract machine accepts.

Main results:

- Theorem `Trace.refines`: refinement of traces from a relation kept step by step.
- Theorem `Trace.of_calls`: a list of calls that can be taken makes a trace.
-/

namespace DiegOS.Lib

variable {σ α ι ο : Type}

/-- Sequences of allowed calls with their answers. -/
inductive Trace (step : σ → ι → Option (σ × ο)) (ok : σ → ι → Prop) :
    σ → List (ι × ο) → σ → Prop where
  | nil (a : σ) : Trace step ok a [] a
  | cons {a b c : σ} {i : ι} {o : ο} {l : List (ι × ο)} (hok : ok a i)
      (hstep : step a i = some (b, o)) (hrest : Trace step ok b l c) :
      Trace step ok a ((i, o) :: l) c

/-- The traces an abstract machine accepts. -/
inductive Accepts (allowed : α → ι → ο → α → Prop) : α → List (ι × ο) → α → Prop where
  | nil (q : α) : Accepts allowed q [] q
  | cons {q r s : α} {i : ι} {o : ο} {l : List (ι × ο)} (hallowed : allowed q i o r)
      (hrest : Accepts allowed r l s) : Accepts allowed q ((i, o) :: l) s

/-- Every answer of an accepted trace is allowed in some state. -/
lemma Accepts.exists_allowed {allowed : α → ι → ο → α → Prop} {q r : α} {l : List (ι × ο)}
    {i : ι} {o : ο} (haccepts : Accepts allowed q l r) (hmem : (i, o) ∈ l) :
    ∃ q r, allowed q i o r := by
  induction haccepts with
  | nil q => cases hmem
  | cons hallowed hrest ih =>
    rcases List.mem_cons.mp hmem with heq | hin
    · cases heq
      exact ⟨_, _, hallowed⟩
    · exact ih hin

namespace Trace

variable {step : σ → ι → Option (σ × ο)} {ok : σ → ι → Prop} {allowed : α → ι → ο → α → Prop}
  {R : σ → α → Prop} {a b : σ} {q : α} {l : List (ι × ο)}

/-- A relation that every allowed step keeps carries over to every trace. -/
theorem refines
    (hkeeps : ∀ a q i b o, R a q → ok a i → step a i = some (b, o) →
      ∃ r, allowed q i o r ∧ R b r)
    (htrace : Trace step ok a l b) (hstart : R a q) : ∃ r, Accepts allowed q l r ∧ R b r := by
  induction htrace generalizing q with
  | nil a => exact ⟨q, .nil q, hstart⟩
  | cons hok hstep hrest ih =>
    rcases hkeeps _ q _ _ _ hstart hok hstep with ⟨r, hallowed, hnext⟩
    rcases ih hnext with ⟨s, haccepts, hend⟩
    exact ⟨s, .cons hallowed haccepts, hend⟩

/-- The trace of a list of calls. -/
def ofCalls (step : σ → ι → Option (σ × ο)) : σ → List ι → Option (List (ι × ο) × σ)
  | a, [] => some ([], a)
  | a, i :: l =>
    (step a i).bind fun (b, o) => (ofCalls step b l).map fun (t, c) => ((i, o) :: t, c)

/-- A list of calls that can be taken makes a trace. -/
theorem of_calls (calls : List ι) :
    ∀ {a b : σ} {l : List (ι × ο)}, ofCalls step a calls = some (l, b) →
      Trace step (fun _ _ => True) a l b := by
  induction calls with
  | nil =>
    intro a b l hcalls
    cases hcalls
    exact .nil a
  | cons i calls ih =>
    intro a b l hcalls
    rcases Option.bind_eq_some_iff.mp hcalls with ⟨⟨a', o⟩, hstep, hmap⟩
    rcases Option.map_eq_some_iff.mp hmap with ⟨⟨l', b'⟩, hrest, hpair⟩
    cases hpair
    exact .cons trivial hstep (ih hrest)

end Trace
end DiegOS.Lib
