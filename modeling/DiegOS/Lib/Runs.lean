import Mathlib.Logic.Relation

/-!
# Runs of a labelled system

A deterministic system takes a label in every state; a side condition says which
labels a state allows.  A run is a finite sequence of allowed steps.

Main results:

- Theorem `Runs.invariant`: a property that every allowed step keeps holds
  at the end of every run.
- Theorem `PartialRuns.invariant`: the same for steps that may have no
  result.
- Theorem `PartialRuns.of_checkedRun`: a run can be checked step by step.
- Theorem `Along.forall_passed_iff`: what holds in every state of a run, as a condition
  on the steps of the run.
-/

namespace DiegOS.Lib

variable {σ ι : Type}

/-- One step with an allowed label. -/
def AllowedStep (step : σ → ι → σ) (ok : σ → ι → Prop) (a b : σ) : Prop :=
  ∃ i, ok a i ∧ b = step a i

/-- Finite sequences of allowed steps. -/
def Runs (step : σ → ι → σ) (ok : σ → ι → Prop) : σ → σ → Prop :=
  Relation.ReflTransGen (AllowedStep step ok)

namespace Runs

variable {step : σ → ι → σ} {ok : σ → ι → Prop} {a b : σ}

lemma refl (a : σ) : Runs step ok a a := Relation.ReflTransGen.refl

lemma single {i : ι} (h : ok a i) : Runs step ok a (step a i) :=
  Relation.ReflTransGen.single ⟨i, h, rfl⟩

lemma snoc (h : Runs step ok a b) {i : ι} (hok : ok b i) : Runs step ok a (step b i) :=
  Relation.ReflTransGen.tail h ⟨i, hok, rfl⟩

/-- What every allowed step keeps holds at the end of a run. -/
theorem invariant {P : σ → Prop} (hstep : ∀ a i, P a → ok a i → P (step a i))
    (h : Runs step ok a b) (ha : P a) : P b := by
  induction h with
  | refl => exact ha
  | tail _ hlast ih =>
    obtain ⟨i, hok, rfl⟩ := hlast
    exact hstep _ i ih hok

end Runs

/-- Finite sequences of allowed steps that all have a result. -/
def PartialRuns (step : σ → ι → Option σ) (ok : σ → ι → Prop) : σ → σ → Prop :=
  Relation.ReflTransGen fun a b => ∃ i, ok a i ∧ step a i = some b

namespace PartialRuns

variable {step : σ → ι → Option σ} {ok ok' : σ → ι → Prop} {a b c : σ}

lemma refl (a : σ) : PartialRuns step ok a a := Relation.ReflTransGen.refl

section

variable (h : PartialRuns step ok a b)
include h

lemma tail {i : ι} (hok : ok b i) (hstep : step b i = some c) :
    PartialRuns step ok a c :=
  Relation.ReflTransGen.tail h ⟨i, hok, hstep⟩

lemma trans (h' : PartialRuns step ok b c) :
    PartialRuns step ok a c :=
  Relation.ReflTransGen.trans h h'

lemma mono (himp : ∀ a i, ok a i → ok' a i) :
    PartialRuns step ok' a b := by
  induction h with
  | refl => exact refl _
  | tail _ hlast ih =>
    obtain ⟨i, hok, hres⟩ := hlast
    exact ih.tail (himp _ i hok) hres

end

/-- What every allowed step with a result keeps holds at the end of a run. -/
theorem invariant {P : σ → Prop}
    (hstep : ∀ a i b, P a → ok a i → step a i = some b → P b)
    (h : PartialRuns step ok a b) (ha : P a) : P b := by
  induction h with
  | refl => exact ha
  | tail _ hlast ih =>
    obtain ⟨i, hok, hres⟩ := hlast
    exact hstep _ i _ ih hok hres

end PartialRuns

/-- Take the steps of a list as long as they are allowed and have a result. -/
def checkedRun (step : σ → ι → Option σ) (ok : σ → ι → Prop) [∀ a i, Decidable (ok a i)] :
    List ι → σ → Option σ
  | [], a => some a
  | i :: l, a => if ok a i then (step a i).bind (checkedRun step ok l) else none

/-- A checked list of steps is a run. -/
theorem PartialRuns.of_checkedRun {step : σ → ι → Option σ} {ok : σ → ι → Prop}
    [∀ a i, Decidable (ok a i)] {a₀ : σ} (l : List ι) :
    ∀ {a b : σ}, PartialRuns step ok a₀ a → checkedRun step ok l a = some b →
      PartialRuns step ok a₀ b := by
  induction l with
  | nil =>
    intro a b hrun hb
    obtain rfl : a = b := by simpa [checkedRun] using hb
    exact hrun
  | cons i l ih =>
    intro a b hrun hb
    rw [checkedRun] at hb
    split at hb
    · next hok =>
        obtain ⟨c, hc, hrest⟩ := Option.bind_eq_some_iff.mp hb
        exact ih (hrun.tail hok hc) hrest
    · contradiction

/-- The states that a list of labels passes through. -/
def passed (step : σ → ι → σ) : σ → List ι → List σ
  | a, [] => [a]
  | a, i :: l => a :: passed step (step a i) l

/-- Every label of a list is taken in a state where it has the property. -/
def Along (step : σ → ι → σ) (P : σ → ι → Prop) : σ → List ι → Prop
  | _, [] => True
  | a, i :: l => P a i ∧ Along step P (step a i) l

instance Along.decidable (step : σ → ι → σ) (P : σ → ι → Prop) [∀ a i, Decidable (P a i)] :
    ∀ (a : σ) (l : List ι), Decidable (Along step P a l)
  | _, [] => isTrue trivial
  | a, i :: l =>
    have := Along.decidable step P (step a i) l
    inferInstanceAs (Decidable (P a i ∧ Along step P (step a i) l))

lemma Along.of_forall {step : σ → ι → σ} {P : σ → ι → Prop} (h : ∀ a i, P a i) (l : List ι)
    {a : σ} : Along step P a l := by
  induction l generalizing a with
  | nil => trivial
  | cons i l ih => exact ⟨h a i, ih⟩

/-- What every step does from a state with an invariant that the steps keep. -/
lemma Along.of_invariant {step : σ → ι → σ} {Inv : σ → Prop} {ok P : σ → ι → Prop}
    (hstep : ∀ a i, Inv a → ok a i → Inv (step a i) ∧ P a i) (l : List ι) {a : σ} (ha : Inv a)
    (h : Along step ok a l) : Along step P a l := by
  induction l generalizing a with
  | nil => trivial
  | cons i l ih =>
    obtain ⟨hnext, hP⟩ := hstep a i ha h.1
    exact ⟨hP, ih hnext h.2⟩

/-- If a step leads to a good state exactly when it meets a condition, then a run is good
throughout exactly when all its steps meet it. -/
theorem Along.forall_passed_iff {step : σ → ι → σ} {Inv Good : σ → Prop}
    {ok meets : σ → ι → Prop} (hgood : ∀ a, Inv a → Good a)
    (hstep : ∀ a i, Inv a → ok a i → meets a i → Inv (step a i))
    (hmeets : ∀ a i, Inv a → ok a i → Good (step a i) → meets a i) (l : List ι) :
    ∀ {a : σ}, Inv a → Along step ok a l →
      ((∀ b ∈ passed step a l, Good b) ↔ Along step meets a l) := by
  induction l with
  | nil =>
    intro a ha _
    simpa [passed, Along] using hgood a ha
  | cons i l ih =>
    intro a ha hok
    constructor
    · intro hall
      have hnext : Good (step a i) := by
        apply hall
        cases l <;> simp [passed]
      have hmeet := hmeets a i ha hok.1 hnext
      refine ⟨hmeet, (ih (hstep a i ha hok.1 hmeet) hok.2).mp fun b hb => ?_⟩
      exact hall b (.tail _ hb)
    · intro hmeet b hb
      rcases List.mem_cons.mp hb with rfl | hb
      · exact hgood _ ha
      · exact (ih (hstep a i ha hok.1 hmeet.1) hok.2).mpr hmeet.2 b hb

end DiegOS.Lib
