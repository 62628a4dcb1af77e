import DiegOS.Lib.LinkChain
import Mathlib.Data.Finset.Card

/-!
# Loops that may run forever

A round of a loop goes on with a new state or leaves the loop with a result.
Nothing says that a loop is ever left; whether it is depends on the states it
visits.

Main results:

- Theorem `ends_iff_not_comesBack`: a loop on finitely many states is left exactly if it
  never comes back to a state.
- Theorem `ends_walk_iff`: a loop that follows links ends exactly if it does not run in a
  circle on which no exit test is met.
- Theorem `Exits.runFor_eq`: a bound of one round more than there are states does not
-/

namespace DiegOS.Lib

variable {σ ρ : Type} {round : σ → σ ⊕ ρ} {s s' t : σ} {r r' : ρ}

/-- The loop that starts in a state is left with a result. -/
inductive Exits (round : σ → σ ⊕ ρ) : σ → ρ → Prop
  | leave {s : σ} {r : ρ} (h : round s = .inr r) : Exits round s r
  | again {s s' : σ} {r : ρ} (h : round s = .inl s') (hrest : Exits round s' r) : Exits round s r

/-- The loop is left. -/
def Halts (round : σ → σ ⊕ ρ) (s : σ) : Prop := ∃ r, Exits round s r

/-- The state after some rounds, if the loop has not been left. -/
def after (round : σ → σ ⊕ ρ) : Nat → σ → Option σ
  | 0, s => some s
  | n + 1, s =>
    match round s with
    | .inl s' => after round n s'
    | .inr _ => none

/-- The loop comes back to a state. -/
def ComesBack (round : σ → σ ⊕ ρ) (s : σ) : Prop :=
  ∃ n p t, 0 < p ∧ after round n s = some t ∧ after round p t = some t

/-- At most so many rounds of the loop. -/
def runFor (round : σ → σ ⊕ ρ) : Nat → σ → Option ρ
  | 0, _ => none
  | n + 1, s =>
    match round s with
    | .inl s' => runFor round n s'
    | .inr r => some r

lemma after_again (h : round s = .inl s') (n : Nat) :
    after round (n + 1) s = after round n s' := by
  rw [after, h]

lemma after_leave (h : round s = .inr r) (n : Nat) : after round (n + 1) s = none := by
  rw [after, h]

lemma after_add (m n : Nat) (s : σ) :
    after round (m + n) s = (after round m s).bind (after round n) := by
  induction m generalizing s with
  | zero => rw [Nat.zero_add]; rfl
  | succ m ih =>
    cases h : round s with
    | inl s' => rw [Nat.succ_add, after_again h, after_again h, ih]
    | inr r => rw [Nat.succ_add, after_leave h, after_leave h]; rfl

namespace Exits

lemma again_iff (h : round s = .inl s') : Exits round s r ↔ Exits round s' r := by
  constructor
  · intro hexits
    cases hexits with
    | leave h' => rw [h] at h'; contradiction
    | again h' hrest =>
      rw [h] at h'
      exact Sum.inl.inj h' ▸ hrest
  · exact fun hrest => .again h hrest

lemma leave_iff (h : round s = .inr r') : Exits round s r ↔ r' = r := by
  constructor
  · intro hexits
    cases hexits with
    | leave h' =>
      rw [h] at h'
      exact Sum.inr.inj h'
    | again h' hrest => rw [h] at h'; contradiction
  · exact fun heq => .leave (heq ▸ h)

variable (h : Exits round s r)
include h

/-- A loop is left with one result. -/
lemma unique (h' : Exits round s r') : r = r' := by
  induction h with
  | leave hround => exact (leave_iff hround).mp h'
  | again hround _ ih => exact ih ((again_iff hround).mp h')

/-- A loop that is left is left from every state it visits. -/
lemma of_after {n : Nat} (hn : after round n s = some t) :
    Exits round t r := by
  induction n generalizing s with
  | zero =>
    cases hn
    exact h
  | succ n ih =>
    cases hround : round s with
    | inl s' =>
      rw [after_again hround] at hn
      exact ih ((again_iff hround).mp h) hn
    | inr r' =>
      rw [after_leave hround] at hn
      contradiction

/-- After some round a loop that is left has no state. -/
lemma exists_none : ∃ n, after round n s = none := by
  induction h with
  | leave hround => exact ⟨1, after_leave hround 0⟩
  | again hround _ ih =>
    obtain ⟨n, hn⟩ := ih
    exact ⟨n + 1, (after_again hround n).trans hn⟩

end Exits

/-- What bounded rounds return is the result of the loop. -/
lemma Exits.of_runFor {n : Nat} (h : runFor round n s = some r) : Exits round s r := by
  induction n generalizing s with
  | zero => contradiction
  | succ n ih =>
    rw [runFor] at h
    split at h
    · next hround => exact .again hround (ih h)
    · next hround =>
        cases h
        exact .leave hround

/-- A state that a loop comes back to is met again after every number of turns. -/
lemma after_mul {p : Nat} (h : after round p t = some t) (k : Nat) :
    after round (k * p) t = some t := by
  induction k with
  | zero => rw [Nat.zero_mul]; rfl
  | succ k ih => rw [Nat.succ_mul, after_add, ih, Option.bind_some, h]

/-- A loop that comes back is never left. -/
lemma ComesBack.not_ends (h : ComesBack round s) : ¬Halts round s := by
  intro hends
  obtain ⟨n, p, t, hp, hn, hback⟩ := h
  obtain ⟨r, hexits⟩ := hends
  obtain ⟨m, hm⟩ := (hexits.of_after hn).exists_none
  -- so many turns are longer than the loop
  have hle : m ≤ m * p := Nat.le_mul_of_pos_right m hp
  obtain ⟨d, hd⟩ := Nat.exists_eq_add_of_le hle
  have hturns := after_mul hback m
  rw [hd, after_add, hm] at hturns
  contradiction

section Finite

/-- The states that the loop visits and goes on from are among finitely many. -/
def GoesOnIn (round : σ → σ ⊕ ρ) (S : Finset σ) (s : σ) : Prop :=
  ∀ n t t', after round n s = some t → round t = .inl t' → t ∈ S

variable {S : Finset σ}

/-- After more rounds than there are states to go on from, one has been met twice. -/
lemma comesBack_of_some (hgo : GoesOnIn round S s)
    (h : after round (S.card + 1) s = some t) : ComesBack round s := by
  have hmeet : ∀ n, ∃ u, n ≤ S.card → u ∈ S ∧ after round n s = some u := by
    intro n
    by_cases hn : n ≤ S.card
    · obtain ⟨d, hd⟩ := Nat.exists_eq_add_of_le hn
      have hsplit : after round (n + (d + 1)) s = _ := after_add n (d + 1) s
      rw [← Nat.add_assoc, ← hd, h] at hsplit
      obtain ⟨u, hu, hrest⟩ := Option.bind_eq_some_iff.mp hsplit.symm
      cases hround : round u with
      | inl u' => exact ⟨u, fun _ => ⟨hgo n u u' hu hround, hu⟩⟩
      | inr r =>
        rw [after_leave hround] at hrest
        contradiction
    · exact ⟨s, fun h => absurd h hn⟩
  choose f hf using hmeet
  have hmaps : ∀ n ∈ Finset.range (S.card + 1), f n ∈ S := by
    intro n hn
    exact (hf n (Nat.lt_succ_iff.mp (Finset.mem_range.mp hn))).1
  obtain ⟨i, hi, j, hj, hne, heq⟩ := Finset.exists_ne_map_eq_of_card_lt_of_maps_to
    (by rw [Finset.card_range]; exact Nat.lt_succ_self _) hmaps
  have hturn : ∀ i j, j ∈ Finset.range (S.card + 1) → i < j → f i = f j →
      ComesBack round s := by
    intro i j hj hlt heq
    have hle := Nat.lt_succ_iff.mp (Finset.mem_range.mp hj)
    have hafter := (hf j hle).2
    rw [show j = i + (j - i) by omega, after_add, (hf i (by omega)).2, Option.bind_some,
      show i + (j - i) = j by omega, ← heq] at hafter
    exact ⟨i, j - i, f i, by omega, (hf i (by omega)).2, hafter⟩
  rcases Nat.lt_or_gt_of_ne hne with hlt | hlt
  · exact hturn i j hj hlt heq
  · exact hturn j i hi hlt heq.symm

lemma exists_runFor_of_none {n : Nat} (h : after round n s = none) :
    ∃ r, runFor round n s = some r := by
  induction n generalizing s with
  | zero => contradiction
  | succ n ih =>
    cases hround : round s with
    | inl s' =>
      rw [after_again hround] at h
      rw [runFor, hround]
      exact ih h
    | inr r => exact ⟨r, by rw [runFor, hround]⟩

/-- A loop that goes on from finitely many states and does not come back is left within one
round more than there are states. -/
lemma exists_runFor (hgo : GoesOnIn round S s) (h : ¬ComesBack round s) :
    ∃ r, runFor round (S.card + 1) s = some r := by
  cases hafter : after round (S.card + 1) s with
  | none => exact exists_runFor_of_none hafter
  | some t => exact absurd (comesBack_of_some hgo hafter) h

/-- A loop that goes on from finitely many states is left exactly if it does not come back to
one. -/
theorem ends_iff_not_comesBack (hgo : GoesOnIn round S s) :
    Halts round s ↔ ¬ComesBack round s := by
  constructor
  · exact fun hends hback => hback.not_ends hends
  · intro h
    obtain ⟨r, hr⟩ := exists_runFor hgo h
    exact ⟨r, .of_runFor hr⟩

end Finite

lemma runFor_mono {m n : Nat} (hmn : m ≤ n) (h : runFor round m s = some r) :
    runFor round n s = some r := by
  induction m generalizing s n with
  | zero => contradiction
  | succ m ih =>
    obtain ⟨n, rfl⟩ : ∃ k, n = k + 1 := ⟨n - 1, by omega⟩
    rw [runFor] at h ⊢
    split at h
    · exact ih (by omega) h
    · exact h

/-- One round more than there are states to go on from is enough for the result. -/
theorem Exits.runFor_eq {S : Finset σ} (hgo : GoesOnIn round S s) {n : Nat}
    (hn : S.card < n) (h : Exits round s r) : runFor round n s = some r := by
  obtain ⟨r', hr'⟩ := exists_runFor hgo fun hback => hback.not_ends ⟨r, h⟩
  obtain rfl := h.unique (.of_runFor hr')
  exact runFor_mono hn hr'

/-! ## Walks -/

section Walk

variable {next : σ → σ} {leave : σ → Option ρ} {S : Finset σ}

/-- A round of a loop that follows links until an exit test yields a result. -/
def walkRound (next : σ → σ) (leave : σ → Option ρ) (s : σ) : σ ⊕ ρ :=
  match leave s with
  | some r => .inr r
  | none => .inl (next s)

/-- The links lead back to where they have been, and no exit test is met. -/
def Circles (next : σ → σ) (leave : σ → Option ρ) (s : σ) : Prop :=
  ∃ n p, 0 < p ∧ next^[n + p] s = next^[n] s ∧ ∀ m, leave (next^[m] s) = none

lemma walkRound_leave (h : leave s = some r) : walkRound next leave s = .inr r := by
  rw [walkRound, h]

lemma walkRound_again (h : leave s = none) : walkRound next leave s = .inl (next s) := by
  rw [walkRound, h]

/-- The state after some rounds of a walk. -/
lemma after_walk {n : Nat} (h : after (walkRound next leave) n s = some t) :
    t = next^[n] s ∧ ∀ m < n, leave (next^[m] s) = none := by
  induction n generalizing s with
  | zero =>
    cases h
    exact ⟨rfl, fun m hm => absurd hm (Nat.not_lt_zero m)⟩
  | succ n ih =>
    cases hleave : leave s with
    | some r =>
      rw [after_leave (walkRound_leave hleave)] at h
      contradiction
    | none =>
      rw [after_again (walkRound_again hleave)] at h
      obtain ⟨hend, hbefore⟩ := ih h
      refine ⟨hend, fun m hm => ?_⟩
      cases m with
      | zero => exact hleave
      | succ m => exact hbefore m (Nat.lt_of_succ_lt_succ hm)

lemma after_walk_of_forall {n : Nat} (h : ∀ m < n, leave (next^[m] s) = none) :
    after (walkRound next leave) n s = some (next^[n] s) := by
  induction n generalizing s with
  | zero => rfl
  | succ n ih =>
    have hleave : leave s = none := h 0 (Nat.succ_pos n)
    rw [after_again (walkRound_again hleave)]
    exact ih fun m hm => h (m + 1) (Nat.succ_lt_succ hm)

lemma comesBack_walk_iff :
    ComesBack (walkRound next leave) s ↔ Circles next leave s := by
  constructor
  · intro hback
    obtain ⟨n, p, t, hp, hn, hturn⟩ := hback
    refine ⟨n, p, hp, ?_, fun m => ?_⟩
    · have hsum : after (walkRound next leave) (n + p) s = some t := by
        rw [after_add, hn, Option.bind_some, hturn]
      rw [← (after_walk hsum).1, ← (after_walk hn).1]
    · -- enough turns reach every later state
      have hle : m + 1 ≤ (m + 1) * p := Nat.le_mul_of_pos_right _ hp
      have hsum : after (walkRound next leave) (n + (m + 1) * p) s = some t := by
        rw [after_add, hn, Option.bind_some, after_mul hturn]
      exact (after_walk hsum).2 m (by omega)
  · intro hcircle
    obtain ⟨n, p, hp, hback, hall⟩ := hcircle
    have hn := after_walk_of_forall (n := n) fun m _ => hall m
    have hsum := after_walk_of_forall (n := n + p) fun m _ => hall m
    rw [after_add, hn, Option.bind_some, hback] at hsum
    exact ⟨n, p, _, hp, hn, hsum⟩

/-- A walk that goes on from finitely many states ends exactly if it does not run in a circle
on which no exit test is met. -/
theorem ends_walk_iff (hgo : GoesOnIn (walkRound next leave) S s) :
    Halts (walkRound next leave) s ↔ ¬Circles next leave s := by
  rw [ends_iff_not_comesBack hgo, comesBack_walk_iff]

lemma goesOnIn_walk (hgo : ∀ n, leave (next^[n] s) = none → next^[n] s ∈ S) :
    GoesOnIn (walkRound next leave) S s := by
  intro n t t' hafter hround
  obtain ⟨rfl, -⟩ := after_walk hafter
  apply hgo n
  cases hleave : leave (next^[n] s) with
  | none => rfl
  | some r =>
    rw [walkRound_leave hleave] at hround
    contradiction

end Walk

/-! ## Walks that overwrite their links -/

section Overwriting

variable {α : Type} {next : α → α} {inside : α → Prop} {c x L : α}

/-- The links lead from a place to one that is not inside. -/
def LeadsOut (next : α → α) (inside : α → Prop) (c : α) : Prop :=
  ¬inside c ∨ ∃ l, LinkChain next inside (fun x => ¬inside x) c l

lemma leadsOut_next_iff (h : inside c) :
    LeadsOut next inside c ↔ LeadsOut next inside (next c) := by
  constructor
  · intro hout
    cases hout with
    | inl hnot => exact absurd h hnot
    | inr hchain =>
      obtain ⟨l, hl⟩ := hchain
      cases hl with
      | last _ hstop => exact .inl hstop
      | cons _ hrest => exact .inr ⟨_, hrest⟩
  · intro hout
    cases hout with
    | inl hnot => exact .inr ⟨_, .last h hnot⟩
    | inr hchain =>
      obtain ⟨l, hl⟩ := hchain
      exact .inr ⟨_, .cons h hl⟩

/-- A link that is followed forever is not marked yet when the mark has a way out. -/
lemma goes_on (hc : ¬LeadsOut next inside c) (hL : LeadsOut next inside L) :
    inside c ∧ next c ≠ L := by
  have hin : inside c := by
    by_contra hnot
    exact hc (.inl hnot)
  refine ⟨hin, fun heq => hc ?_⟩
  rw [leadsOut_next_iff hin, heq]
  exact hL

variable [DecidableEq α]

/-- What is not on the way out may be overwritten. -/
lemma LeadsOut.update (hout : LeadsOut next inside x) (hc : ¬LeadsOut next inside c) :
    LeadsOut (Function.update next c L) inside x := by
  cases hout with
  | inl hnot => exact .inl hnot
  | inr hchain =>
    obtain ⟨l, hl⟩ := hchain
    refine .inr ⟨l, hl.congr fun y hy => Function.update_of_ne ?_ _ _⟩
    rintro rfl
    obtain ⟨_, _, -, hsuf⟩ := hl.split_of_mem hy
    exact hc (.inr ⟨_, hsuf⟩)

/-- A way out that uses an overwritten link is one from the mark on. -/
lemma LeadsOut.of_update (h : LeadsOut (Function.update next c L) inside x) :
    LeadsOut next inside x ∨ LeadsOut next inside L := by
  cases h with
  | inl hnot => exact .inl (.inl hnot)
  | inr hchain =>
    obtain ⟨l, hl⟩ := hchain
    induction hl with
    | @last y hnode hstop =>
      by_cases hy : y = c
      · subst hy
        rw [Function.update_self] at hstop
        exact .inr (.inl hstop)
      · rw [Function.update_of_ne hy] at hstop
        exact .inl (.inr ⟨_, .last hnode hstop⟩)
    | @cons y l hnode _ ih =>
      by_cases hy : y = c
      · subst hy
        rw [Function.update_self] at ih
        exact .inr (ih.elim id id)
      · rw [Function.update_of_ne hy] at ih
        exact ih.imp (leadsOut_next_iff hnode).mpr id

section Bound

variable {S : Finset α} (hS : ∀ x, inside x → x ∈ S)

/-- The links that do not hold the mark. -/
def unmarked (S : Finset α) (next : α → α) (L : α) : Nat := (S.filter fun x => next x ≠ L).card

/-- At most one link of a way out holds the mark. -/
lemma length_marked_le {l : List α} (h : LinkChain next inside (fun x => ¬inside x) c l) :
    (l.filter fun x => next x = L).length ≤ 1 := by
  induction h with
  | @last y hnode hstop => exact List.length_filter_le _ _
  | @cons y l hnode hrest ih =>
    by_cases hy : next y = L
    · rw [List.filter_cons, if_pos (by simpa using hy)]
      have hnone : (l.filter fun x => next x = L) = [] := by
        rw [List.filter_eq_nil_iff]
        intro z hz hzL
        have hzL' : next z = L := by simpa using hzL
        have hsep : Separated inside fun x => ¬inside x := fun _ hx hnot => hnot hx
        -- the rest starts at the mark, so a later link to the mark closes a circle
        obtain ⟨pre, suf, rfl, hsuf⟩ := hrest.split_of_mem hz
        cases hsuf with
        | last _ hstop =>
          rw [hzL', ← hy] at hstop
          exact hstop hrest.node_head
        | cons _ hsuf =>
          rw [hzL', ← hy] at hsuf
          have hlen := congrArg List.length (hsuf.unique hsep hrest)
          simp at hlen
          omega
      rw [hnone, List.length_singleton]
    · rw [List.filter_cons, if_neg (by simpa using hy)]
      exact ih

include hS in
lemma length_le_unmarked {l : List α} (h : LinkChain next inside (fun x => ¬inside x) c l) :
    l.length ≤ unmarked S next L + 1 := by
  have hsep : Separated inside fun x => ¬inside x := fun _ hx hnot => hnot hx
  have hsplit := List.length_eq_length_filter_add (l := l) fun x => decide (next x = L)
  have hmarked := length_marked_le (L := L) h
  have hrest : (l.filter fun x => !decide (next x = L)).length ≤ unmarked S next L := by
    have hnodup := (h.nodup hsep).filter fun x => !decide (next x = L)
    rw [← List.toFinset_card_of_nodup hnodup]
    apply Finset.card_le_card
    intro x hx
    rw [List.mem_toFinset, List.mem_filter] at hx
    rw [Finset.mem_filter]
    exact ⟨hS x (h.node_of_mem x hx.1), by simpa using hx.2⟩
  omega

lemma unmarked_update (hc : c ∈ S) (hne : next c ≠ L) :
    unmarked S (Function.update next c L) L + 1 = unmarked S next L := by
  have herase : (S.filter fun x => Function.update next c L x ≠ L) =
      (S.filter fun x => next x ≠ L).erase c := by
    ext x
    by_cases hx : x = c
    · subst hx
      simp
    · simp [hx]
  rw [unmarked, herase]
  exact Finset.card_erase_add_one (Finset.mem_filter.mpr ⟨hc, hne⟩)

variable [DecidablePred inside]

/-- One link is replaced by a mark when it is followed. -/
def overwriteRound (inside : α → Prop) [DecidablePred inside] (L : α) (s : (α → α) × α) :
    ((α → α) × α) ⊕ Unit :=
  if inside s.2 then .inl (Function.update s.1 s.2 L, s.1 s.2) else .inr ()

lemma overwrite_again (h : inside c) :
    overwriteRound inside L (next, c) = .inl (Function.update next c L, next c) := if_pos h

lemma overwrite_leave (h : ¬inside c) : overwriteRound inside L (next, c) = .inr () := if_neg h

/-- A loop that ends has found a way out, from its start or from the mark. -/
lemma leadsOut_of_exits {s : (α → α) × α} {r : Unit}
    (h : Exits (overwriteRound inside L) s r) :
    LeadsOut s.1 inside s.2 ∨ LeadsOut s.1 inside L := by
  induction h with
  | @leave s r hround =>
    by_cases hin : inside s.2
    · rw [overwriteRound, if_pos hin] at hround
      contradiction
    · exact .inl (.inl hin)
  | @again s s' r hround _ ih =>
    by_cases hin : inside s.2
    · rw [overwriteRound, if_pos hin] at hround
      obtain rfl := Sum.inl.inj hround
      have hstart : LeadsOut s.1 inside (s.1 s.2) ∨ LeadsOut s.1 inside L := by
        cases ih with
        | inl h => exact h.of_update
        | inr h => exact .inr (h.of_update.elim id id)
      exact hstart.imp (leadsOut_next_iff hin).mpr id
    · rw [overwriteRound, if_neg hin] at hround
      contradiction

/-- Along a way out the loop takes one round for each link. -/
lemma runFor_of_chain {l : List α} (h : LinkChain next inside (fun x => ¬inside x) c l) :
    runFor (overwriteRound inside L) (l.length + 1) (next, c) = some () := by
  induction l generalizing next c with
  | nil => exact absurd rfl h.ne_nil
  | cons y l ih =>
    have hsep : Separated inside fun x => ¬inside x := fun _ hx hnot => hnot hx
    have hfresh := (List.nodup_cons.mp (h.nodup hsep)).1
    rw [List.length_cons, runFor, overwrite_again h.node_head]
    cases h with
    | last _ hstop =>
      have hleave : overwriteRound inside L (Function.update next y L, next y) = .inr () :=
        overwrite_leave hstop
      change runFor (overwriteRound inside L) 1 (Function.update next y L, next y) = some ()
      rw [runFor, hleave]
    | cons _ hrest =>
      refine ih (hrest.congr fun z hz => Function.update_of_ne ?_ _ _)
      rintro rfl
      exact hfresh hz

include hS in
lemma runFor_of_leadsOut_start {n : Nat} (hn : unmarked S next L = n)
    (h : LeadsOut next inside c) :
    runFor (overwriteRound inside L) (n + 2) (next, c) = some () := by
  cases h with
  | inl hnot => rw [runFor, overwrite_leave hnot]
  | inr hchain =>
    obtain ⟨l, hl⟩ := hchain
    have hlen := length_le_unmarked (L := L) hS hl
    exact runFor_mono (by omega) (runFor_of_chain hl)

include hS in
/-- A way out from the start or from the mark is found within two rounds more than there are
links without the mark. -/
lemma runFor_of_leadsOut {n : Nat} (hn : unmarked S next L = n)
    (h : LeadsOut next inside c ∨ LeadsOut next inside L) :
    runFor (overwriteRound inside L) (n + 2) (next, c) = some () := by
  induction n generalizing next c with
  | zero =>
    by_cases hc : LeadsOut next inside c
    · exact runFor_of_leadsOut_start hS hn hc
    · obtain ⟨hin, hne⟩ := goes_on hc (h.resolve_left hc)
      have hless := unmarked_update (hS c hin) hne
      omega
  | succ n ih =>
    by_cases hc : LeadsOut next inside c
    · exact runFor_of_leadsOut_start hS hn hc
    · -- the link is overwritten, which leaves the way out of the mark as it is
      have hL := h.resolve_left hc
      obtain ⟨hin, hne⟩ := goes_on hc hL
      have hless := unmarked_update (hS c hin) hne
      rw [runFor, overwrite_again hin]
      exact ih (by omega) (.inr (hL.update hc))

include hS in
/-- A loop that overwrites its links ends exactly if there is a way out from the start or from
the mark. -/
lemma ends_overwrite_iff :
    Halts (overwriteRound inside L) (next, c) ↔
      LeadsOut next inside c ∨ LeadsOut next inside L := by
  constructor
  · intro hends
    obtain ⟨r, hr⟩ := hends
    exact leadsOut_of_exits hr
  · exact fun h => ⟨(), .of_runFor (runFor_of_leadsOut hS rfl h)⟩

end Bound

end Overwriting

end DiegOS.Lib
