import DiegOS.Kernel.Callbacks
import DiegOS.Kernel.Periods

/-!
# The cadence of recursive alarms

An alarm that is acknowledged late should wait for the next instant of its cadence.
`alarm_acknowledge` adds one period to the last expiration, whatever the time is.

Main results:

- Theorem `cadence_kept_iff`: the cadence is kept exactly if the acknowledgement comes less
  than a period after the instant for which the alarm rang.
-/

namespace DiegOS.Kernel

open Lib Function

namespace Countdowns

variable {s : Countdowns} {client : ClockClient} {clock : Clock} {p q millisecs : Nat}
  {recursive start : Bool}

lemma now_create : (s.create client clock p millisecs recursive).2.1.now = clock.now := by
  unfold create Clock.addCb
  dsimp only
  split_ifs <;> rfl

lemma now_update : (s.update client clock p millisecs recursive).2.1.now = clock.now := by
  unfold update
  dsimp only
  split_ifs <;> rfl

lemma now_done : (s.done client clock p).2.now = clock.now := by
  unfold done
  dsimp only
  split_ifs <;> rfl

/-- A new countdown leaves the others alone. -/
lemma create_other (client : ClockClient) (clock : Clock) (millisecs : Nat) (recursive : Bool)
    (hq : q ∈ s.list) (hne : q ≠ p) :
    q ∈ (s.create client clock p millisecs recursive).1.list ∧
      (s.create client clock p millisecs recursive).1.item q = s.item q := by
  unfold create
  dsimp only
  split_ifs <;> simp [setItem, hq, hne]

lemma update_other (client : ClockClient) (clock : Clock) (millisecs : Nat) (recursive : Bool)
    (hq : q ∈ s.list) (hne : q ≠ p) :
    q ∈ (s.update client clock p millisecs recursive).1.list ∧
      (s.update client clock p millisecs recursive).1.item q = s.item q := by
  unfold update
  dsimp only
  split_ifs <;> simp [setItem, hq, hne]

end Countdowns

namespace TickSystem

variable {s s' s₀ s₁ : TickSystem} {q p start : Nat} {act : TickAction}

/-- Nobody sets, updates or deletes the alarm. -/
def Steady (q : Nat) : TickAction → Prop
  | .alarmSet p _ | .alarmUpdate p _ _ | .alarmDone p => p ≠ q
  | _ => True

/-- Nobody acknowledges it either. -/
def Unacknowledged (q : Nat) (act : TickAction) : Prop :=
  Steady q act ∧ act ≠ .alarmAcknowledge q

/-- The record of an alarm. -/
def alarm (s : TickSystem) (q : Nat) : Countdown := s.alarms.cds.item q

/-- An instant of the cadence is the first one that is later than a time. -/
structure NextInstant (start p t k : Nat) : Prop where
  later : t < start + k * p
  first : ∀ j, t < start + j * p → k ≤ j

/-- As long as the next event has not been generated, a callback generates it exactly from the
first instant on that is later than now. -/
def KeepsCadence (s : TickSystem) (q start p : Nat) : Prop :=
  ∃ k, NextInstant start p s.clock.now k ∧
    ∀ s', PartialRuns exec (fun _ act => Unacknowledged q act) s s' →
      (s'.alarm q).expired = false →
      ∀ m, s'.clock.now ≤ m → ((s'.alarm q).due m = true ↔ start + k * p ≤ m)

/-- The alarm has rung, and less than one period has passed since the instant for which it did;
or it has not rung, and its time has not come. -/
def InCadence (s : TickSystem) (q : Nat) : Prop :=
  if (s.alarm q).expired = true then s.clock.now < (s.alarm q).expiration + (s.alarm q).msecs
  else s.clock.now < (s.alarm q).expiration

/-- A recursive alarm that counts from `start` on. -/
structure Follows (s : TickSystem) (q start p : Nat) : Prop where
  living : q ∈ s.alarms.cds.list
  msecs : (s.alarm q).msecs = p
  recursive : (s.alarm q).recursive = true
  triggered : (s.alarm q).triggered = true
  instant : ∃ j, (s.alarm q).expiration = start + j * p
  near : (s.alarm q).expiration ≤ s.clock.now + p
  rang : (s.alarm q).expired = true → (s.alarm q).expiration ≤ s.clock.now

/-- What an action does to an alarm that it does not name. -/
structure Spares (q : Nat) (s s' : TickSystem) : Prop where
  living : q ∈ s'.alarms.cds.list
  now : s.clock.now ≤ s'.clock.now
  alarm : s'.alarm q = s.alarm q ∨
    (s.alarm q).due s'.clock.now = true ∧ s'.alarm q = (s.alarm q).expire

lemma Spares.same (hliving : q ∈ s'.alarms.cds.list) (hnow : s'.clock.now = s.clock.now)
    (halarm : s'.alarm q = s.alarm q) : Spares q s s' :=
  ⟨hliving, Nat.le_of_eq hnow.symm, .inl halarm⟩

/-! ## One action -/

lemma alarmInterrupt_spares {s₁ : TickSystem} (hliving : q ∈ s.alarms.cds.list)
    (h : s.alarmInterrupt = some s₁) : Spares q s s₁ := by
  unfold alarmInterrupt at h
  split at h
  · obtain ⟨⟨alarms, clock⟩, hcb, rfl⟩ := Option.map_eq_some_iff.mp h
    obtain ⟨hcds, rfl⟩ := Alarms.alarmCb_eq (List.ne_nil_of_mem hliving) hcb
    have hnow : (s.clock.tick.setPeriod alarms.cds.period .alarms).now = s.clock.tick.now := rfl
    constructor
    · simpa [hcds] using hliving
    · dsimp only
      rw [hnow]
      exact s.clock.now_le_tick
    · dsimp only [alarm]
      rw [hnow, hcds, Countdowns.visitAll_item]
      by_cases hdue : (s.alarms.cds.item q).due s.clock.tick.now = true
      · exact .inr ⟨hdue, if_pos ⟨hliving, hdue⟩⟩
      · exact .inl (if_neg fun h => hdue h.2)
  · cases h
    exact ⟨hliving, s.clock.now_le_tick, .inl rfl⟩

lemma timerInterrupt_same (s : TickSystem) : s.timerInterrupt.alarms = s.alarms ∧
    s.timerInterrupt.clock.now = s.clock.now := by
  unfold timerInterrupt timerCb
  dsimp only
  split_ifs <;> exact ⟨rfl, rfl⟩

lemma acknowledge_other (hne : p ≠ q) :
    (s.alarms.alarmAcknowledge p).cds.list = s.alarms.cds.list ∧
      (s.alarms.alarmAcknowledge p).cds.item q = s.alarms.cds.item q := by
  unfold Alarms.alarmAcknowledge
  dsimp only
  split_ifs
  · exact ⟨rfl, update_of_ne hne.symm _ _⟩
  · exact ⟨rfl, rfl⟩

/-- Only the acknowledgement itself does more to the alarm than the clock. -/
lemma exec_spares (hliving : q ∈ s.alarms.cds.list) (hsteady : Unacknowledged q act)
    (h : s.exec act = some s') : Spares q s s' := by
  obtain ⟨hsteady, hack⟩ := hsteady
  cases act with
  | alarmCreate p millisecs recursive evqueue =>
    simp only [exec] at h
    split at h
    · contradiction
    · next hfresh =>
        cases h
        have hne : q ≠ p := fun heq => hfresh (heq ▸ hliving)
        obtain ⟨hlist, hitem⟩ := Countdowns.create_other .alarms s.clock millisecs recursive
          hliving hne
        exact Spares.same hlist Countdowns.now_create hitem
  | alarmSet p start =>
    simp only [exec] at h
    split at h
    · cases h
      exact Spares.same hliving rfl (update_of_ne (Ne.symm hsteady) _ _)
    · contradiction
  | alarmAcknowledge p =>
    simp only [exec] at h
    split at h
    · cases h
      have hne : p ≠ q := by
        intro heq
        exact hack (heq ▸ rfl)
      obtain ⟨hlist, hitem⟩ := acknowledge_other (s := s) hne
      exact Spares.same (hlist ▸ hliving) rfl hitem
    · contradiction
  | alarmUpdate p millisecs recursive =>
    simp only [exec] at h
    split at h
    · cases h
      obtain ⟨hlist, hitem⟩ := Countdowns.update_other .alarms s.clock millisecs recursive
        hliving (Ne.symm hsteady)
      exact Spares.same hlist Countdowns.now_update hitem
    · contradiction
  | alarmDone p =>
    simp only [exec] at h
    split at h
    · cases h
      exact Spares.same ((List.mem_erase_of_ne (Ne.symm hsteady)).mpr hliving)
        Countdowns.now_done rfl
    · contradiction
  | timerCreate p millisecs recursive =>
    simp only [exec] at h
    split at h
    · contradiction
    · cases h
      exact Spares.same hliving Countdowns.now_create rfl
  | timerSet p start =>
    simp only [exec] at h
    split at h
    · cases h
      exact Spares.same hliving rfl rfl
    · contradiction
  | timerUpdate p millisecs recursive =>
    simp only [exec] at h
    split at h
    · cases h
      exact Spares.same hliving Countdowns.now_update rfl
    · contradiction
  | timerDone p =>
    simp only [exec] at h
    split at h
    · cases h
      exact Spares.same hliving Countdowns.now_done rfl
    · contradiction
  | eventGet evqueue =>
    obtain ⟨alarms, hget, rfl⟩ := Option.map_eq_some_iff.mp h
    obtain ⟨r, -, rfl⟩ := Option.map_eq_some_iff.mp hget
    exact Spares.same hliving rfl rfl
  | schedule msecs =>
    cases h
    exact Spares.same hliving rfl rfl
  | interrupt =>
    obtain ⟨s₁, hs₁, rfl⟩ := Option.map_eq_some_iff.mp h
    obtain ⟨halarms, hnow⟩ := s₁.timerInterrupt_same
    obtain ⟨hlist, hle, hitem⟩ := alarmInterrupt_spares hliving hs₁
    have hsame : s₁.timerInterrupt.alarm q = s₁.alarm q := by rw [alarm, halarms, alarm]
    constructor
    · rw [halarms]
      exact hlist
    · rw [hnow]
      exact hle
    · rw [hsame, hnow]
      exact hitem

/-- The run lemma: until the alarm is set, updated or acknowledged, it is the same or it has
expired. -/
lemma run_spares (hliving : q ∈ s.alarms.cds.list)
    (hrun : PartialRuns exec (fun _ act => Unacknowledged q act) s s') : Spares q s s' := by
  induction hrun with
  | refl => exact Spares.same hliving rfl rfl
  | tail _ hlast ih =>
    obtain ⟨act, hun, hstep⟩ := hlast
    obtain ⟨hlist, hnow, hitem⟩ := exec_spares ih.living hun hstep
    refine ⟨hlist, Nat.le_trans ih.now hnow, ?_⟩
    cases ih.alarm with
    | inl hsame =>
      rw [hsame] at hitem
      exact hitem
    | inr hrang =>
      obtain ⟨hdue, heq⟩ := hrang
      have hnot : ∀ now, (s.alarm q).expire.due now = false :=
        fun now => Countdowns.expire_not_due _
      cases hitem with
      | inl hsame =>
        refine .inr ⟨?_, hsame.trans heq⟩
        simp only [Countdown.due, Bool.and_eq_true, decide_eq_true_eq] at hdue ⊢
        exact ⟨hdue.1, Nat.le_trans hdue.2 hnow⟩
      | inr hagain =>
        rw [heq, hnot] at hagain
        exact absurd hagain.1 (by decide)

/-! ## The cadence -/

namespace Follows

lemma begin (hrec : (s₀.alarm q).recursive = true)
    (hset : s₀.exec (.alarmSet q true) = some s₁) :
    s₁.Follows q s₀.clock.now (s₀.alarm q).msecs := by
  simp only [exec] at hset
  split at hset
  · next hliving =>
      cases hset
      have halarm : ({ s₀ with alarms := s₀.alarms.alarmSet s₀.clock q true } : TickSystem).alarm
          q =
          (s₀.alarm q).set s₀.clock.now true := update_self _ _ _
      constructor
      · exact hliving
      · rw [halarm]
        rfl
      · rw [halarm]
        exact hrec
      · rw [halarm]
        rfl
      · refine ⟨1, ?_⟩
        rw [halarm, Nat.one_mul, Nat.add_comm]
        rfl
      · rw [halarm]
        exact Nat.le_of_eq (Nat.add_comm _ _)
      · rw [halarm]
        exact fun h => absurd h Bool.false_ne_true
  · contradiction

lemma spares (h : s.Follows q start p) (hs : Spares q s s') : s'.Follows q start p := by
  have hnow := hs.now
  have hnear := h.near
  cases hs.alarm with
  | inl hsame =>
    refine ⟨hs.living, ?_, ?_, ?_, ?_, ?_, ?_⟩ <;> rw [hsame]
    · exact h.msecs
    · exact h.recursive
    · exact h.triggered
    · exact h.instant
    · omega
    · exact fun hexp => Nat.le_trans (h.rang hexp) hnow
  | inr hrang =>
    obtain ⟨hdue, heq⟩ := hrang
    simp only [Countdown.due, Bool.and_eq_true, decide_eq_true_eq] at hdue
    refine ⟨hs.living, ?_, ?_, ?_, ?_, ?_, ?_⟩ <;> rw [heq]
    · exact h.msecs
    · exact h.recursive
    · simp [Countdown.expire, h.triggered, h.recursive]
    · exact h.instant
    · exact Nat.le_trans hdue.2 (Nat.le_add_right _ _)
    · exact fun _ => hdue.2

end Follows

/-- The record after an acknowledgement of a counting alarm. -/
lemma acknowledge_self (h : s.Follows q start p)
    (hack : s.exec (.alarmAcknowledge q) = some s') :
    s'.alarms.cds.list = s.alarms.cds.list ∧ s'.clock = s.clock ∧
      s'.alarm q = if (s.alarm q).expired = true then
        { s.alarm q with expiration := (s.alarm q).expiration + p, expired := false }
      else s.alarm q := by
  simp only [exec, if_pos h.living] at hack
  cases hack
  have hrec : (s.alarms.cds.item q).recursive = true := h.recursive
  have htrig : (s.alarms.cds.item q).triggered = true := h.triggered
  have hmsecs : (s.alarms.cds.item q).msecs = p := h.msecs
  have hrecord : s.alarms.alarmAcknowledge q = if (s.alarms.cds.item q).expired = true then
      { s.alarms with cds := s.alarms.cds.setItem q { s.alarms.cds.item q with
          expiration := (s.alarms.cds.item q).expiration + p, expired := false } }
      else s.alarms := by
    simp only [Alarms.alarmAcknowledge, hrec, htrig, hmsecs, Bool.true_and]
  by_cases hexp : (s.alarm q).expired = true
  · have hexp' : (s.alarms.cds.item q).expired = true := hexp
    rw [if_pos hexp, hrecord, if_pos hexp']
    exact ⟨rfl, rfl, update_self _ _ _⟩
  · have hexp' : ¬(s.alarms.cds.item q).expired = true := hexp
    rw [if_neg hexp, hrecord, if_neg hexp']
    exact ⟨rfl, rfl, rfl⟩

namespace Follows

lemma acknowledge (h : s.Follows q start p)
    (hack : s.exec (.alarmAcknowledge q) = some s') : s'.Follows q start p := by
  obtain ⟨hlist, hclock, halarm⟩ := acknowledge_self h hack
  split_ifs at halarm with hexp
  · obtain ⟨j, hj⟩ := h.instant
    have hrang := h.rang hexp
    constructor
    · rw [hlist]
      exact h.living
    · rw [halarm]
      exact h.msecs
    · rw [halarm]
      exact h.recursive
    · rw [halarm]
      exact h.triggered
    · refine ⟨j + 1, ?_⟩
      rw [halarm, Nat.succ_mul, ← Nat.add_assoc, ← hj]
    · rw [halarm, hclock]
      exact Nat.add_le_add_right hrang p
    · rw [halarm]
      exact fun h => absurd h Bool.false_ne_true
  · refine h.spares (Spares.same ?_ ?_ halarm)
    · rw [hlist]
      exact h.living
    · rw [hclock]

lemma step (h : s.Follows q start p) (hsteady : Steady q act) (hstep : s.exec act = some s') :
    s'.Follows q start p := by
  by_cases hack : act = .alarmAcknowledge q
  · rw [hack] at hstep
    exact h.acknowledge hstep
  · exact h.spares (exec_spares h.living ⟨hsteady, hack⟩ hstep)

/-- The run lemma: whatever is acknowledged, and when. -/
lemma run (hrun : PartialRuns exec (fun _ act => Steady q act) s₁ s)
    (h : s₁.Follows q start p) : s.Follows q start p :=
  PartialRuns.invariant (P := fun s => s.Follows q start p)
    (fun _ _ _ hs hsteady hstep => hs.step hsteady hstep) hrun h

/-- An alarm that does not ring yet does so at the next instant of its cadence exactly if that
has not passed. -/
lemma keepsCadence_iff (h : s.Follows q start p) (hexp : (s.alarm q).expired = false) :
    s.KeepsCadence q start p ↔ s.clock.now < (s.alarm q).expiration := by
  have hdue : ∀ m, (s.alarm q).due m = true ↔ (s.alarm q).expiration ≤ m := by
    intro m
    simp [Countdown.due, Countdown.pending, h.triggered, hexp]
  obtain ⟨j, hj⟩ := h.instant
  have hnear := h.near
  constructor
  · intro hkeeps
    obtain ⟨k, hk, hrings⟩ := hkeeps
    have hiff := hrings s (PartialRuns.refl s) hexp s.clock.now le_rfl
    rw [hdue] at hiff
    have hlater := hk.later
    omega
  · intro hlater
    refine ⟨j, ⟨?_, ?_⟩, ?_⟩
    · rw [← hj]
      exact hlater
    · intro i hi
      by_contra hlt
      have hstep : (i + 1) * p ≤ j * p := Nat.mul_le_mul_right p (by omega)
      rw [Nat.succ_mul] at hstep
      omega
    · intro s' hrun hexp' m _
      -- an alarm that has not rung is the one that was acknowledged
      cases (run_spares h.living hrun).alarm with
      | inl hsame => rw [hsame, hdue, hj]
      | inr hrang =>
        rw [hrang.2] at hexp'
        exact absurd hexp'.symm Bool.false_ne_true

end Follows

/-- Whenever a recursive alarm is acknowledged, after any other acknowledgements, its next event
is generated at the first instant of the cadence that is later than now exactly if the alarm is
acknowledged in its cadence. -/
theorem cadence_kept_iff {q : Nat} {s₀ s₁ s s' : TickSystem}
    (hrec : (s₀.alarm q).recursive = true) (hset : s₀.exec (.alarmSet q true) = some s₁)
    (hrun : PartialRuns exec (fun _ act => Steady q act) s₁ s)
    (hack : s.exec (.alarmAcknowledge q) = some s') :
    s'.KeepsCadence q s₀.clock.now (s₀.alarm q).msecs ↔ s.InCadence q := by
  have hfollows := Follows.run hrun (Follows.begin hrec hset)
  obtain ⟨-, hclock, halarm⟩ := acknowledge_self hfollows hack
  have hmsecs := hfollows.msecs
  unfold InCadence
  split_ifs at halarm ⊢ with hexp
  · rw [(hfollows.acknowledge hack).keepsCadence_iff (by rw [halarm]), halarm, hclock, hmsecs]
  · have hnot : (s.alarm q).expired = false := Bool.eq_false_iff.mpr hexp
    rw [(hfollows.acknowledge hack).keepsCadence_iff (by rw [halarm, hnot]), halarm, hclock]

end TickSystem

instance steadyDecidable (q : Nat) (act : TickAction) : Decidable (TickSystem.Steady q act) :=
  match act with
  | .alarmSet p _ | .alarmUpdate p _ _ | .alarmDone p => inferInstanceAs (Decidable (p ≠ q))
  | .alarmCreate .. | .alarmAcknowledge _ | .timerCreate .. | .timerSet .. | .timerUpdate ..
  | .timerDone _ | .eventGet _ | .schedule _ | .interrupt => isTrue trivial

/-- A recursive alarm of ten milliseconds, and a clock that ticks as often. -/
def beat : TickSystem :=
  { silent with
    alarms := (silent.alarms.alarmCreate silent.clock 1 10 true 7).1
    clock := ((silent.alarms.alarmCreate silent.clock 1 10 true 7).2).setPeriod 10 .scheduler }

/-- Acknowledged when it rings, the alarm keeps its cadence. -/
theorem cadence_kept_beat :
    ∃ s₁ s s', beat.exec (.alarmSet 1 true) = some s₁ ∧
      PartialRuns TickSystem.exec (fun _ act => TickSystem.Steady 1 act) s₁ s ∧
      s.exec (.alarmAcknowledge 1) = some s' ∧ s'.clock.now = 10 ∧ s'.KeepsCadence 1 0 10 := by
  have hall : ∃ s₁ ∈ beat.exec (.alarmSet 1 true),
      ∃ s ∈ checkedRun TickSystem.exec (fun _ act => TickSystem.Steady 1 act) [.interrupt] s₁,
      ∃ s' ∈ s.exec (.alarmAcknowledge 1), s'.clock.now = 10 ∧ (s.alarm 1).expired = true ∧
        s.clock.now < (s.alarm 1).expiration + (s.alarm 1).msecs := by decide
  obtain ⟨s₁, hset, s, hs, s', hack, hnow, hexp, hin⟩ := hall
  have hrun := PartialRuns.of_checkedRun _ (PartialRuns.refl s₁) hs
  have hcadence : s.InCadence 1 := by
    rw [TickSystem.InCadence, if_pos hexp]
    exact hin
  exact ⟨s₁, s, s', hset, hrun, hack, hnow,
    (TickSystem.cadence_kept_iff rfl hset hrun hack).mpr hcadence⟩

/-- Acknowledged after thirty milliseconds, the alarm should ring after forty; it rings at
once. -/
theorem cadence_lost :
    ∃ s₁ s s', PartialRuns TickSystem.exec (fun _ _ => True) silent beat ∧
      beat.exec (.alarmSet 1 true) = some s₁ ∧
      PartialRuns TickSystem.exec (fun _ act => TickSystem.Steady 1 act) s₁ s ∧
      s.exec (.alarmAcknowledge 1) = some s' ∧ s'.clock.now = 30 ∧
      (s'.alarm 1).due 30 = true ∧ ¬s'.KeepsCadence 1 0 10 := by
  have hall : ∃ s₁ ∈ beat.exec (.alarmSet 1 true),
      ∃ s ∈ checkedRun TickSystem.exec (fun _ act => TickSystem.Steady 1 act)
        [.interrupt, .eventGet 7, .interrupt, .interrupt] s₁,
      ∃ s' ∈ s.exec (.alarmAcknowledge 1), s'.clock.now = 30 ∧ (s'.alarm 1).expired = false ∧
        (s'.alarm 1).due 30 = true := by decide
  obtain ⟨s₁, hset, s, hs, s', hack, hnow, hexp, hdue⟩ := hall
  have hbeat : PartialRuns TickSystem.exec (fun _ _ => True) silent beat :=
    ((PartialRuns.refl silent).tail (i := .alarmCreate 1 10 true 7) trivial (by rfl)).tail
      (i := .schedule 10) trivial (by rfl)
  refine ⟨s₁, s, s', hbeat, hset, PartialRuns.of_checkedRun _ (PartialRuns.refl s₁) hs, hack,
    hnow, hdue, fun hkeeps => ?_⟩
  obtain ⟨k, hk, hrings⟩ := hkeeps
  have hlater := hk.later
  have hring := (hrings s' (PartialRuns.refl s') hexp 30 (by rw [hnow])).mp hdue
  omega

end DiegOS.Kernel
