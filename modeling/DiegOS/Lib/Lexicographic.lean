import Mathlib.Data.List.Basic

/-!
# Comparisons of lists

A number whose sign tells how two lists are ordered, character by character, and the pair of
characters at which they stop being equal.  Behind its end a list has a terminator that is less
than any of its characters, unless both lists have the same length.

Main results:

- Theorem `signOf_iff`: a number tells how two lists are ordered exactly if it tells how the
  characters are ordered at which they stop being equal.
-/

namespace DiegOS.Lib

variable {α β : Type}

/-- The sign of a number tells how two lists are ordered. -/
structure SignOf (R : α → α → Prop) (r : Int) (l l' : List α) : Prop where
  neg : r < 0 ↔ List.Lex R l l'
  zero : r = 0 ↔ l = l'
  pos : 0 < r ↔ List.Lex R l' l

/-- The characters at which two lists stop being equal; both are the terminator if they do not. -/
def stop [DecidableEq α] (z : α) : List α → List α → α × α
  | c :: l, d :: l' => if c = d then stop z l l' else (c, d)
  | l, l' => (l.headD z, l'.headD z)

section Stop

variable [DecidableEq α] [DecidableEq β] {z c d : α} {l l' : List α}

@[simp]
lemma stop_nil_left (z : α) (l : List α) : stop z [] l = (z, l.headD z) := by
  cases l with
  | nil | cons d l => rfl

@[simp]
lemma stop_nil_right (z : α) (l : List α) : stop z l [] = (l.headD z, z) := by
  cases l with
  | nil | cons c l => rfl

lemma stop_cons (z c d : α) (l l' : List α) :
    stop z (c :: l) (d :: l') = if c = d then stop z l l' else (c, d) := rfl

end Stop

namespace SignOf

variable {R : α → α → Prop} {r : Int} {c d : α} {l l' : List α}

end SignOf

section Order

variable {R : α → α → Prop} {r : Int} {z c d : α} {l l' : List α}
  (hasymm : ∀ c d, R c d → ¬R d c) (hconn : ∀ c d, c ≠ d → R c d ∨ R d c)

include hasymm in
include hasymm in
lemma lex_cons_self_iff (c : α) (l l' : List α) :
    List.Lex R (c :: l) (c :: l') ↔ List.Lex R l l' := by
  constructor
  · intro h
    cases h with
    | rel hc => exact absurd hc (hasymm c c hc)
    | cons h => exact h
  · exact List.Lex.cons

lemma lex_cons_ne_iff (hne : c ≠ d) (l l' : List α) :
    List.Lex R (c :: l) (d :: l') ↔ R c d := by
  constructor
  · intro h
    cases h with
    | rel hc => exact hc
    | cons h => exact absurd rfl hne
  · exact List.Lex.rel

include hasymm in
/-- A common first character does not matter. -/
lemma signOf_cons_self (c : α) : SignOf R r (c :: l) (c :: l') ↔ SignOf R r l l' := by
  constructor
  · intro h
    exact ⟨h.neg.trans (lex_cons_self_iff hasymm c l l'),
      h.zero.trans ⟨fun heq => (List.cons.inj heq).2, congrArg _⟩,
      h.pos.trans (lex_cons_self_iff hasymm c l' l)⟩
  · intro h
    exact ⟨h.neg.trans (lex_cons_self_iff hasymm c l l').symm,
      h.zero.trans ⟨congrArg _, fun heq => (List.cons.inj heq).2⟩,
      h.pos.trans (lex_cons_self_iff hasymm c l' l).symm⟩

/-- Whether a number tells how two lists are ordered that are not equal. -/
lemma signOf_of_ne {P Q : Prop} (hne : l ≠ l') (hlt : List.Lex R l l' ↔ P)
    (hgt : List.Lex R l' l ↔ Q) (hor : P ∨ Q) (hnot : ¬(P ∧ Q)) :
    SignOf R r l l' ↔ (r < 0 ↔ P) ∧ r ≠ 0 := by
  constructor
  · intro h
    exact ⟨h.neg.trans hlt, fun hzero => hne (h.zero.mp hzero)⟩
  · rintro ⟨hneg, hzero⟩
    refine ⟨hneg.trans hlt.symm, iff_of_false hzero hne, ?_⟩
    rw [hgt]
    constructor
    · intro hpos
      exact hor.resolve_left fun hP => absurd (hneg.mpr hP) (by omega)
    · intro hQ
      have hge : ¬r < 0 := fun hlt => hnot ⟨hneg.mp hlt, hQ⟩
      omega

variable [DecidableEq α]

include hasymm hconn in
/-- A number tells how two lists are ordered exactly if it tells how the characters are ordered at
which they stop being equal. -/
theorem signOf_iff
    (hends : l.length = l'.length ∨ ((∀ c ∈ l, c ≠ z ∧ R z c) ∧ ∀ c ∈ l', c ≠ z ∧ R z c)) :
    SignOf R r l l' ↔
      (r < 0 ↔ R (stop z l l').1 (stop z l l').2) ∧
        (r = 0 ↔ (stop z l l').1 = (stop z l l').2) := by
  induction l generalizing l' with
  | nil =>
    cases l' with
    | nil =>
      have hnot : ¬List.Lex R ([] : List α) [] := nofun
      constructor
      · intro h
        exact ⟨h.neg.trans (iff_of_false hnot fun hz => hasymm z z hz hz),
          h.zero.trans (iff_of_true rfl rfl)⟩
      · rintro ⟨-, hzero⟩
        have hr : r = 0 := hzero.mpr rfl
        subst hr
        exact ⟨iff_of_false (by omega) hnot, iff_of_true rfl rfl, iff_of_false (by omega) hnot⟩
    | cons d l' =>
      obtain ⟨hd, hzd⟩ : d ≠ z ∧ R z d := by
        rcases hends with hlen | ⟨-, h⟩
        · cases hlen
        · exact h d (.head _)
      have hnot : ¬List.Lex R (d :: l') [] := nofun
      rw [signOf_of_ne (List.cons_ne_nil d l').symm (iff_of_true List.Lex.nil hzd)
        (iff_of_false hnot (hasymm z d hzd)) (.inl hzd) fun h => hasymm z d h.1 h.2,
        stop_nil_left, List.headD_cons]
      exact and_congr Iff.rfl (iff_false_right fun heq => hd heq.symm).symm
  | cons c l ih =>
    cases l' with
    | nil =>
      obtain ⟨hc, hzc⟩ : c ≠ z ∧ R z c := by
        rcases hends with hlen | ⟨h, -⟩
        · cases hlen
        · exact h c (.head _)
      have hnot : ¬List.Lex R (c :: l) [] := nofun
      rw [signOf_of_ne (List.cons_ne_nil c l) (iff_of_false hnot (hasymm z c hzc))
        (iff_of_true List.Lex.nil hzc) (.inr hzc) fun h => hasymm c z h.1 h.2,
        stop_nil_right, List.headD_cons]
      exact and_congr Iff.rfl (iff_false_right hc).symm
    | cons d l' =>
      rw [stop_cons]
      by_cases heq : c = d
      · subst heq
        rw [if_pos rfl, signOf_cons_self hasymm]
        apply ih
        refine hends.imp Nat.succ.inj fun h => ?_
        exact ⟨fun e he => h.1 e (List.mem_cons_of_mem c he),
          fun e he => h.2 e (List.mem_cons_of_mem c he)⟩
      · rw [if_neg heq, signOf_of_ne (fun h => heq (List.cons.inj h).1)
          (lex_cons_ne_iff heq l l') (lex_cons_ne_iff (Ne.symm heq) l' l) (hconn c d heq)
          fun h => hasymm c d h.1 h.2]
        exact and_congr Iff.rfl (iff_false_right heq).symm

end Order

end DiegOS.Lib
