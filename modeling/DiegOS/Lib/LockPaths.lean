import Mathlib.Tactic

/-!
# Commands that take and release a counter

A language of statements, loops with several exits and calls, over named actions and tests
that any interpretation may give a meaning to.  A run counts the locks held and keeps the
counts found at the points where the thread is switched.  A checker follows the count along
every path of the text.

Main results:

- Theorem `eval_of_check`: what an accepted command does to the count.
- Theorem `balanced_of_accepted`: an accepted body returns the count it got and never
  switches above it.
-/

namespace DiegOS.Lib.LockPaths

/-- Statements over the names of actions and tests; `ext` is code that is not given. -/
inductive Cmd (α τ : Type) where
  | skip
  | act (a : α)
  | ext
  | lock
  | unlock
  | switch
  | seq (c d : Cmd α τ)
  | ite (t : τ) (c d : Cmd α τ)
  | while (t : τ) (c : Cmd α τ)
  | ret
  | brk
  | cont
  | call (body : Cmd α τ)

namespace Cmd

variable {α τ : Type}

/-- Statements one after the other. -/
def block : List (Cmd α τ) → Cmd α τ
  | [] => .skip
  | c :: cs => .seq c (block cs)

/-- A branch without an else. -/
def when (t : τ) (c : Cmd α τ) : Cmd α τ := .ite t c .skip

end Cmd

/-- A state with the locks held and the counts at the switches so far, latest first. -/
structure Machine (σ : Type) where
  state : σ
  depth : Nat
  switches : List Nat

/-- How a command ends. -/
inductive Outcome where
  | next
  | brk
  | cont
  | ret
  | unfinished
deriving DecidableEq, Repr

/-- The meaning of the names; a test may change the state. -/
structure Meaning (α τ σ : Type) where
  act : α → σ → σ
  test : τ → σ → Bool × σ
  switch : σ → σ
  ext : Machine σ → Machine σ

variable {α τ σ : Type}

/-- A run of a command; `unfinished` when the fuel is used up. -/
def eval (I : Meaning α τ σ) : Nat → Cmd α τ → Machine σ → Machine σ × Outcome
  | 0, _, m => (m, .unfinished)
  | _ + 1, .skip, m => (m, .next)
  | _ + 1, .act a, m => ({ m with state := I.act a m.state }, .next)
  | _ + 1, .ext, m => (I.ext m, .next)
  | _ + 1, .lock, m => ({ m with depth := m.depth + 1 }, .next)
  | _ + 1, .unlock, m => ({ m with depth := m.depth - 1 }, .next)
  | _ + 1, .switch, m =>
    ({ m with state := I.switch m.state, switches := m.depth :: m.switches }, .next)
  | n + 1, .seq c d, m =>
    match eval I n c m with
    | (m', .next) => eval I n d m'
    | r => r
  | n + 1, .ite t c d, m =>
    let (b, s) := I.test t m.state
    if b then eval I n c { m with state := s } else eval I n d { m with state := s }
  | n + 1, .while t c, m =>
    let (b, s) := I.test t m.state
    if b then
      match eval I n c { m with state := s } with
      | (m', .next) => eval I n (.while t c) m'
      | (m', .cont) => eval I n (.while t c) m'
      | (m', .brk) => (m', .next)
      | r => r
    else ({ m with state := s }, .next)
  | _ + 1, .ret, m => (m, .ret)
  | _ + 1, .brk, m => (m, .brk)
  | _ + 1, .cont, m => (m, .cont)
  | n + 1, .call body, m =>
    match eval I n body m with
    | (m', .unfinished) => (m', .unfinished)
    | (m', _) => (m', .next)

/-! ## Checker -/

/-- The locks held at the end of two branches, where `none` is an end that is not
reached. -/
def join : Option Nat → Option Nat → Option (Option Nat)
  | none, f => some f
  | f, none => some f
  | some a, some b => if a = b then some (some a) else none

/-- The locks held after a body that must end with `e` of them, or not at all. -/
def backTo (e k : Nat) : Option (Option Nat) → Option (Option Nat)
  | some none => some (some k)
  | some (some k') => if k' = e then some (some k) else none
  | none => none

/-- The locks held at the end of a command entered with `k` of them since the body began;
`loop` is the number at the enclosing loop, `sw` says that a switch is allowed.
The outer `none` rejects the command. -/
def check : Bool → Option Nat → Nat → Cmd α τ → Option (Option Nat)
  | _, _, k, .skip => some (some k)
  | _, _, k, .act _ => some (some k)
  | _, _, k, .ext => some (some k)
  | _, _, k, .lock => some (some (k + 1))
  | _, _, k, .unlock => if k = 0 then none else some (some (k - 1))
  | sw, _, k, .switch => if sw && k == 0 then some (some k) else none
  | sw, loop, k, .seq c d =>
    match check sw loop k c with
    | some (some k') => check sw loop k' d
    | r => r
  | sw, loop, k, .ite _ c d =>
    match check sw loop k c, check sw loop k d with
    | some f, some g => join f g
    | _, _ => none
  | sw, _, k, .while _ c => backTo k k (check sw (some k) k c)
  | _, _, k, .ret => if k = 0 then some none else none
  | _, loop, k, .brk => if loop = some k then some none else none
  | _, loop, k, .cont => if loop = some k then some none else none
  | sw, _, k, .call body => backTo 0 k (check (sw && k == 0) none 0 body)

/-- The body of a function passes the checker. -/
def accepted (c : Cmd α τ) : Bool := (check true none 0 (.call c)).isSome

/-! ## Soundness -/

/-- Code that is not given returns the locks it got and switches no thread. -/
def Meaning.Quiet (I : Meaning α τ σ) : Prop :=
  ∀ m, (I.ext m).depth = m.depth ∧ (I.ext m).switches = m.switches

/-- The switches of a stretch, each with at most the locks held at the entry. -/
def Switched (sw : Bool) (entry : Nat) (before after : List Nat) : Prop :=
  ∃ new, after = new ++ before ∧ ∀ d ∈ new, sw = true ∧ d ≤ entry

namespace Switched

variable {sw : Bool} {entry : Nat} {l₁ l₂ l₃ : List Nat}

lemma refl (sw : Bool) (entry : Nat) (l : List Nat) : Switched sw entry l l :=
  ⟨[], rfl, by simp⟩

lemma trans (h₁ : Switched sw entry l₁ l₂) (h₂ : Switched sw entry l₂ l₃) :
    Switched sw entry l₁ l₃ := by
  rcases h₁ with ⟨new₁, rfl, hnew₁⟩
  rcases h₂ with ⟨new₂, rfl, hnew₂⟩
  apply Exists.intro (new₂ ++ new₁)
  constructor
  · rw [List.append_assoc]
  · intro d hd
    rcases List.mem_append.mp hd with hin | hin
    · exact hnew₂ d hin
    · exact hnew₁ d hin

/-- The switches of a callee entered with `k` more locks, where only a callee entered
with none may switch. -/
lemma of_callee {k : Nat} (h : Switched (sw && k == 0) (entry + k) l₁ l₂) :
    Switched sw entry l₁ l₂ := by
  rcases h with ⟨new, happ, hnew⟩
  apply Exists.intro new
  apply And.intro happ
  intro d hd
  have hd' := hnew d hd
  simp only [Bool.and_eq_true, beq_iff_eq] at hd'
  rcases hd' with ⟨⟨hsw, rfl⟩, hle⟩
  exact ⟨hsw, hle⟩

end Switched

/-- The locks held at each end of a command of a body entered with `entry`. -/
def Ends (entry : Nat) (loop : Option Nat) (flow : Option Nat) (depth : Nat) : Outcome → Prop
  | .next => ∃ k, flow = some k ∧ depth = entry + k
  | .brk => ∃ k, loop = some k ∧ depth = entry + k
  | .cont => ∃ k, loop = some k ∧ depth = entry + k
  | .ret => depth = entry
  | .unfinished => True

/-- A branch taken ends as the join of both says. -/
lemma Ends.of_join {entry depth : Nat} {loop f g flow : Option Nat} {o : Outcome}
    (hjoin : join f g = some flow) (h : Ends entry loop f depth o ∨ Ends entry loop g depth o) :
    Ends entry loop flow depth o := by
  cases o with
  | next =>
    rcases h with ⟨k, rfl, hdepth⟩ | ⟨k, rfl, hdepth⟩
    · cases g with
      | none =>
        simp only [join, Option.some.injEq] at hjoin
        exact ⟨k, hjoin.symm, hdepth⟩
      | some b =>
        simp only [join] at hjoin
        split at hjoin
        · exact ⟨k, (Option.some.inj hjoin).symm, hdepth⟩
        · cases hjoin
    · cases f with
      | none =>
        simp only [join, Option.some.injEq] at hjoin
        exact ⟨k, hjoin.symm, hdepth⟩
      | some a =>
        simp only [join] at hjoin
        split at hjoin
        · next heq =>
            rw [heq] at hjoin
            exact ⟨k, (Option.some.inj hjoin).symm, hdepth⟩
        · cases hjoin
  | brk | cont | ret => exact h.elim id id
  | unfinished => trivial

/-- A command left before its end ends the same for any code after it. -/
lemma Ends.of_ne_next {entry depth : Nat} {loop f : Option Nat} (flow : Option Nat)
    {o : Outcome} (hnext : o ≠ .next) (h : Ends entry loop f depth o) :
    Ends entry loop flow depth o := by
  cases o with
  | next => exact absurd rfl hnext
  | brk | cont | ret => exact h
  | unfinished => trivial

/-- A command starts with `k` locks more than its body and ends as checked. -/
def Sound (I : Meaning α τ σ) (entry fuel : Nat) (c : Cmd α τ) : Prop :=
  ∀ (m : Machine σ) (sw : Bool) (loop flow : Option Nat) (k : Nat),
    check sw loop k c = some flow → m.depth = entry + k →
      Ends entry loop flow (eval I fuel c m).1.depth (eval I fuel c m).2 ∧
        Switched sw entry m.switches (eval I fuel c m).1.switches

lemma sound_seq {I : Meaning α τ σ} {entry fuel : Nat} {c d : Cmd α τ}
    (hc : Sound I entry fuel c) (hd : Sound I entry fuel d) :
    Sound I entry (fuel + 1) (.seq c d) := by
  intro m sw loop flow k hcheck hdepth
  simp only [check] at hcheck
  cases hf : check sw loop k c with
  | none =>
    rw [hf] at hcheck
    cases hcheck
  | some f =>
    have hfirst := hc m sw loop f k hf hdepth
    simp only [eval]
    rcases hrun : eval I fuel c m with ⟨m', o⟩
    rw [hrun] at hfirst
    dsimp only at hfirst
    cases o with
    | next =>
      rcases hfirst with ⟨⟨k', rfl, hdepth'⟩, hsw⟩
      rw [hf] at hcheck
      have hsecond := hd m' sw loop flow k' hcheck hdepth'
      exact ⟨hsecond.1, hsw.trans hsecond.2⟩
    | brk => exact ⟨Ends.of_ne_next flow (o := .brk) (by decide) hfirst.1, hfirst.2⟩
    | cont => exact ⟨Ends.of_ne_next flow (o := .cont) (by decide) hfirst.1, hfirst.2⟩
    | ret => exact ⟨Ends.of_ne_next flow (o := .ret) (by decide) hfirst.1, hfirst.2⟩
    | unfinished => exact ⟨trivial, hfirst.2⟩

lemma sound_ite {I : Meaning α τ σ} {entry fuel : Nat} {t : τ} {c d : Cmd α τ}
    (hc : Sound I entry fuel c) (hd : Sound I entry fuel d) :
    Sound I entry (fuel + 1) (.ite t c d) := by
  intro m sw loop flow k hcheck hdepth
  simp only [check] at hcheck
  cases hf : check sw loop k c with
  | none =>
    rw [hf] at hcheck
    cases hcheck
  | some f =>
    cases hg : check sw loop k d with
    | none =>
      rw [hf, hg] at hcheck
      cases hcheck
    | some g =>
      rw [hf, hg] at hcheck
      simp only [eval]
      split
      · have hrun := hc { m with state := (I.test t m.state).2 } sw loop f k hf hdepth
        exact ⟨Ends.of_join hcheck (.inl hrun.1), hrun.2⟩
      · have hrun := hd { m with state := (I.test t m.state).2 } sw loop g k hg hdepth
        exact ⟨Ends.of_join hcheck (.inr hrun.1), hrun.2⟩

lemma of_backTo {e k : Nat} {r : Option (Option Nat)} {flow : Option Nat}
    (hback : backTo e k r = some flow) :
    flow = some k ∧ ∃ f, r = some f ∧ ∀ k', f = some k' → k' = e := by
  cases r with
  | none => cases hback
  | some f =>
    cases f with
    | none =>
      apply And.intro (Option.some.inj hback).symm
      exact ⟨none, rfl, by simp⟩
    | some k' =>
      simp only [backTo] at hback
      split at hback
      · next heq =>
          apply And.intro (Option.some.inj hback).symm
          apply Exists.intro (some k')
          apply And.intro rfl
          intro k'' hk''
          rw [← Option.some.inj hk'', heq]
      · cases hback

lemma sound_while {I : Meaning α τ σ} {entry fuel : Nat} {t : τ} {c : Cmd α τ}
    (hc : Sound I entry fuel c) (hloop : Sound I entry fuel (.while t c)) :
    Sound I entry (fuel + 1) (.while t c) := by
  intro m sw loop flow k hcheck hdepth
  rcases of_backTo hcheck with ⟨rfl, f, hf, hback⟩
  simp only [eval]
  split
  · have hbody := hc { m with state := (I.test t m.state).2 } sw (some k) f k hf hdepth
    rcases hrun : eval I fuel c { m with state := (I.test t m.state).2 } with ⟨m', o⟩
    rw [hrun] at hbody
    cases o with
    | next =>
      rcases hbody with ⟨⟨k', hk', hdepth'⟩, hsw⟩
      rw [hback k' hk'] at hdepth'
      have hrest := hloop m' sw loop (some k) k hcheck hdepth'
      exact ⟨hrest.1, hsw.trans hrest.2⟩
    | cont =>
      rcases hbody with ⟨⟨k', hk', hdepth'⟩, hsw⟩
      rw [← Option.some.inj hk'] at hdepth'
      have hrest := hloop m' sw loop (some k) k hcheck hdepth'
      exact ⟨hrest.1, hsw.trans hrest.2⟩
    | brk =>
      rcases hbody with ⟨⟨k', hk', hdepth'⟩, hsw⟩
      rw [← Option.some.inj hk'] at hdepth'
      exact ⟨⟨k, rfl, hdepth'⟩, hsw⟩
    | ret => exact ⟨hbody.1, hbody.2⟩
    | unfinished => exact ⟨trivial, hbody.2⟩
  · exact ⟨⟨k, rfl, hdepth⟩, Switched.refl sw entry m.switches⟩

lemma sound_call {I : Meaning α τ σ} {fuel : Nat} {body : Cmd α τ}
    (hbody : ∀ entry, Sound I entry fuel body) (entry : Nat) :
    Sound I entry (fuel + 1) (.call body) := by
  intro m sw loop flow k hcheck hdepth
  rcases of_backTo hcheck with ⟨rfl, f, hf, hback⟩
  have hrun := hbody (entry + k) m (sw && k == 0) none f 0 hf hdepth
  simp only [eval]
  rcases heval : eval I fuel body m with ⟨m', o⟩
  rw [heval] at hrun
  dsimp only at hrun
  have hsw : Switched sw entry m.switches m'.switches := hrun.2.of_callee
  cases o with
  | next =>
    rcases hrun.1 with ⟨k', hk', hdepth'⟩
    rw [hback k' hk'] at hdepth'
    exact ⟨⟨k, rfl, hdepth'⟩, hsw⟩
  | ret => exact ⟨⟨k, rfl, hrun.1⟩, hsw⟩
  | brk | cont =>
    rcases hrun.1 with ⟨k', hk', -⟩
    cases hk'
  | unfinished => exact ⟨trivial, hsw⟩

/-- What an accepted command does to the count, by induction on the fuel. -/
theorem eval_of_check {I : Meaning α τ σ} (hquiet : I.Quiet) (fuel : Nat) :
    ∀ (entry : Nat) (c : Cmd α τ), Sound I entry fuel c := by
  induction fuel with
  | zero =>
    intro entry c m sw loop flow k hcheck hdepth
    exact ⟨trivial, Switched.refl sw entry m.switches⟩
  | succ fuel ih =>
    intro entry c
    cases c with
    | seq c d => exact sound_seq (ih entry c) (ih entry d)
    | ite t c d => exact sound_ite (ih entry c) (ih entry d)
    | «while» t c => exact sound_while (ih entry c) (ih entry (.while t c))
    | call body => exact sound_call (fun entry' => ih entry' body) entry
    | skip | act a =>
      intro m sw loop flow k hcheck hdepth
      exact ⟨⟨k, (Option.some.inj hcheck).symm, hdepth⟩, Switched.refl ..⟩
    | ext =>
      intro m sw loop flow k hcheck hdepth
      constructor
      · exact ⟨k, (Option.some.inj hcheck).symm, (hquiet m).1.trans hdepth⟩
      · simp only [eval, (hquiet m).2]
        exact Switched.refl ..
    | lock =>
      intro m sw loop flow k hcheck hdepth
      apply And.intro _ (Switched.refl ..)
      exact ⟨k + 1, (Option.some.inj hcheck).symm, by simp only [eval, hdepth]; omega⟩
    | unlock =>
      intro m sw loop flow k hcheck hdepth
      apply And.intro _ (Switched.refl ..)
      simp only [check] at hcheck
      split at hcheck
      · cases hcheck
      · exact ⟨k - 1, (Option.some.inj hcheck).symm, by simp only [eval, hdepth]; omega⟩
    | switch =>
      intro m sw loop flow k hcheck hdepth
      simp only [check] at hcheck
      split at hcheck
      · next hsw =>
          simp only [Bool.and_eq_true, beq_iff_eq] at hsw
          apply And.intro ⟨k, (Option.some.inj hcheck).symm, hdepth⟩
          apply Exists.intro [m.depth]
          apply And.intro rfl
          intro d hd
          rw [List.mem_singleton.mp hd]
          exact ⟨hsw.1, by omega⟩
      · cases hcheck
    | ret =>
      intro m sw loop flow k hcheck hdepth
      simp only [check] at hcheck
      split at hcheck
      · next hk =>
          apply And.intro _ (Switched.refl ..)
          simp only [eval, Ends]
          omega
      · cases hcheck
    | brk | cont =>
      intro m sw loop flow k hcheck hdepth
      simp only [check] at hcheck
      split at hcheck
      · next hloop => exact ⟨⟨k, hloop, hdepth⟩, Switched.refl ..⟩
      · cases hcheck

/-- An entered body returns with the locks it got, and reaches no switch with more of them. -/
def Balanced (I : Meaning α τ σ) (body : Cmd α τ) : Prop :=
  ∀ (fuel : Nat) (s : σ) (depth : Nat),
    let run := eval I fuel (.call body) ⟨s, depth, []⟩
    (run.2 ≠ .unfinished → run.1.depth = depth) ∧ ∀ d ∈ run.1.switches, d ≤ depth

/-- An accepted body is balanced under every meaning of its names. -/
theorem balanced_of_accepted {I : Meaning α τ σ} (hquiet : I.Quiet) {body : Cmd α τ}
    (haccepted : accepted body = true) : Balanced I body := by
  intro fuel s depth
  rcases Option.isSome_iff_exists.mp haccepted with ⟨flow, hcheck⟩
  have hsound := eval_of_check hquiet fuel depth (.call body) ⟨s, depth, []⟩ true none flow 0
    hcheck rfl
  rcases of_backTo hcheck with ⟨rfl, -⟩
  generalize eval I fuel (.call body) ⟨s, depth, []⟩ = run at hsound
  constructor
  · intro hfinished
    cases hout : run.2 with
    | next =>
      rw [hout] at hsound
      rcases hsound.1 with ⟨k, hk, hdepth⟩
      rw [← Option.some.inj hk] at hdepth
      exact hdepth
    | brk | cont =>
      rw [hout] at hsound
      rcases hsound.1 with ⟨k, hk, -⟩
      cases hk
    | ret =>
      rw [hout] at hsound
      exact hsound.1
    | unfinished => exact absurd hout hfinished
  · rcases hsound.2 with ⟨new, happ, hnew⟩
    intro d hd
    rw [happ, List.append_nil] at hd
    exact (hnew d hd).2

end DiegOS.Lib.LockPaths
