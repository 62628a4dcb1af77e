import DiegOS.Kernel.Clock
import DiegOS.Lib.LinkedQueues
import DiegOS.Lib.Runs

/-!
# Alarms

`alarms.c` on top of the clock and of the queues of `events.c`.  An
alarm sends an event that is part of its own record, so the event can be in one
queue at most once.  Nothing in the code makes sure that it has been read before
the alarm expires again or is deleted.

Main results:

- Theorem `alarm_event_once`: if every alarm's event is read in time, the
  event queues stay consistent and refer to living alarms only, each at most
  once.
-/

namespace DiegOS.Kernel

open Lib Function

/-- The alarms, the queue each one notifies, and the event queues; the event of an alarm
is named by the address of the alarm. -/
structure Alarms where
  cds : Countdowns
  notify : Nat → Nat
  queues : LinkedQueues Nat Nat

namespace Alarms

/-- No alarms and empty event queues. -/
def init : Alarms := ⟨.init, fun _ => 0, ⟨fun _ => none, fun _ => .empty⟩⟩

/-- `alarm_create`; `malloc` gives the address `p`. -/
def alarmCreate (a : Alarms) (clock : Clock) (p millisecs : Nat) (recursive : Bool)
    (evqueue : Nat) : Alarms × Clock :=
  let (cds, clock, ok) := a.cds.create .alarms clock p millisecs recursive
  ({ a with cds := cds, notify := if ok then Function.update a.notify p evqueue else a.notify },
    clock)

def alarmSet (a : Alarms) (clock : Clock) (p : Nat) (start : Bool) : Alarms :=
  { a with cds := a.cds.set clock p start }

def alarmAcknowledge (a : Alarms) (p : Nat) : Alarms :=
  let c := a.cds.item p
  if c.recursive && c.triggered && c.expired then
    { a with cds := a.cds.setItem p { c with
        expiration := c.expiration + c.msecs, expired := false } }
  else a

def alarmUpdate (a : Alarms) (clock : Clock) (p millisecs : Nat) (recursive : Bool) :
    Alarms × Clock :=
  let (cds, clock, _) := a.cds.update .alarms clock p millisecs recursive
  ({ a with cds := cds }, clock)

def alarmDone (a : Alarms) (clock : Clock) (p : Nat) : Alarms × Clock :=
  let (cds, clock) := a.cds.done .alarms clock p
  ({ a with cds := cds }, clock)

def eventGet (a : Alarms) (evqueue : Nat) : Option Alarms :=
  (a.queues.dequeue evqueue).map fun r => { a with queues := r.2 }

/-- One turn of the loop of `alarm_cb`, which puts the event of an expiring alarm. -/
def visit (now : Nat) (a : Alarms) (p : Nat) : Option Alarms :=
  if (a.cds.item p).due now then
    (a.queues.enqueue (a.notify p) p).map fun queues =>
      { a with queues := queues, cds := a.cds.visit now p }
  else some a

def alarmCb (a : Alarms) (clock : Clock) : Option (Alarms × Clock) :=
  let a := { a with cds := { a.cds with period := MAX_UINT } }
  if a.cds.list.length = 0 then some (a, clock)
  else
    (a.cds.list.foldlM (visit clock.now) a).map fun a =>
      (a, clock.setPeriod a.cds.period .alarms)

end Alarms

/-! ## Runs -/

/-- The alarms and the clock. -/
structure AlarmSystem where
  alarms : Alarms
  clock : Clock

/-- What threads and the clock do to alarms and their queues. -/
inductive AlarmAction where
  | create (p millisecs : Nat) (recursive : Bool) (evqueue : Nat)
  | set (p : Nat) (start : Bool)
  | acknowledge (p : Nat)
  | update (p millisecs : Nat) (recursive : Bool)
  | done (p : Nat)
  | get (evqueue : Nat)
  | interrupt

namespace AlarmSystem

/-- One action; a new alarm gets an unused address, the others need a living alarm. -/
def exec (s : AlarmSystem) : AlarmAction → Option AlarmSystem
  | .create p millisecs recursive evqueue =>
    if p ∈ s.alarms.cds.list then none
    else
      let (alarms, clock) := s.alarms.alarmCreate s.clock p millisecs recursive evqueue
      some ⟨alarms, clock⟩
  | .set p start =>
    if p ∈ s.alarms.cds.list then some { s with alarms := s.alarms.alarmSet s.clock p start }
    else none
  | .acknowledge p =>
    if p ∈ s.alarms.cds.list then some { s with alarms := s.alarms.alarmAcknowledge p } else none
  | .update p millisecs recursive =>
    if p ∈ s.alarms.cds.list then
      let (alarms, clock) := s.alarms.alarmUpdate s.clock p millisecs recursive
      some ⟨alarms, clock⟩
    else none
  | .done p =>
    if p ∈ s.alarms.cds.list then
      let (alarms, clock) := s.alarms.alarmDone s.clock p
      some ⟨alarms, clock⟩
    else none
  | .get evqueue => (s.alarms.eventGet evqueue).map fun alarms => { s with alarms := alarms }
  | .interrupt =>
    if s.clock.callback .alarms then
      (s.alarms.alarmCb s.clock.tick).map fun r => ⟨r.1, r.2⟩
    else some { s with clock := s.clock.tick }

/-- The event of an alarm has not been read. -/
def Unread (s : AlarmSystem) (p : Nat) : Prop :=
  p ∈ s.alarms.queues.toList (s.alarms.notify p)

/-- No alarm expires and none is deleted while its last event is unread. -/
def ReadsInTime (s : AlarmSystem) : AlarmAction → Prop
  | .interrupt => ∀ p ∈ s.alarms.cds.list,
      (s.alarms.cds.item p).due s.clock.tick.now = true → ¬s.Unread p
  | .done p => ¬s.Unread p
  | _ => True

/-- The queues hold events of living alarms, each in the queue the alarm notifies. -/
structure Tidy (s : AlarmSystem) (L : Nat → List Nat) : Prop where
  holds : s.alarms.queues.Holds L
  living : ∀ q, ∀ p ∈ L q, p ∈ s.alarms.cds.list ∧ s.alarms.notify p = q
  nodup : s.alarms.cds.list.Nodup

/-- The loop of the callback appends the events of the alarms that are due. -/
lemma foldlM_visit {now : Nat} {list : List Nat} (l : List Nat) :
    ∀ (a : Alarms) (L : Nat → List Nat), l.Nodup → (∀ p ∈ l, p ∈ list) →
      (∀ p ∈ l, (a.cds.item p).due now = true → ∀ q, p ∉ L q) → a.queues.Holds L →
      (∀ q, ∀ p ∈ L q, p ∈ list ∧ a.notify p = q) →
      ∃ a' L', l.foldlM (Alarms.visit now) a = some a' ∧ a'.queues.Holds L' ∧
        (∀ q, ∀ p ∈ L' q, p ∈ list ∧ a'.notify p = q) ∧ a'.cds.list = a.cds.list := by
  induction l with
  | nil => exact fun a L _ _ _ hholds hliving => ⟨a, L, rfl, hholds, hliving, rfl⟩
  | cons p l ih =>
    intro a L hnodup hmem hread hholds hliving
    obtain ⟨hp, hl⟩ := List.nodup_cons.mp hnodup
    rw [List.foldlM_cons]
    by_cases hdue : (a.cds.item p).due now = true
    · obtain ⟨queues, henq, hholds'⟩ := hholds.enqueue (i := a.notify p)
        (hread p (by simp) hdue)
      have hvisit : a.visit now p =
          some { a with queues := queues, cds := a.cds.visit now p } := by
        rw [Alarms.visit, if_pos hdue, henq]
        rfl
      rw [hvisit]
      have hread' : ∀ q ∈ l, ((a.cds.visit now p).item q).due now = true →
          ∀ r, q ∉ update L (a.notify p) (L (a.notify p) ++ [p]) r := by
        intro q hq hdueq r hr
        have hqp : q ≠ p := by
          rintro rfl
          exact hp hq
        rw [Countdowns.visit_item_other hqp] at hdueq
        refine hread q (by simp [hq]) hdueq r ?_
        by_cases hr' : r = a.notify p
        · subst hr'
          simpa [hqp] using hr
        · rwa [update_of_ne hr'] at hr
      have hliving₁ : ∀ q, ∀ r ∈ update L (a.notify p) (L (a.notify p) ++ [p]) q,
          r ∈ list ∧ a.notify r = q := by
        intro q r hr
        by_cases hq : q = a.notify p
        · subst hq
          rw [update_self, List.mem_append, List.mem_singleton] at hr
          rcases hr with hr | rfl
          · exact hliving _ r hr
          · exact ⟨hmem r (by simp), rfl⟩
        · rw [update_of_ne hq] at hr
          exact hliving q r hr
      obtain ⟨a', L', hfold, hholds'', hliving', hlist⟩ := ih
        { a with queues := queues, cds := a.cds.visit now p } _ hl
        (fun q hq => hmem q (by simp [hq])) hread' hholds' hliving₁
      exact ⟨a', L', hfold, hholds'', hliving', hlist.trans Countdowns.visit_list⟩
    · rw [show a.visit now p = some a from if_neg hdue]
      exact ih a L hl (fun q hq => hmem q (by simp [hq]))
        (fun q hq => hread q (by simp [hq])) hholds hliving

/-- Every action that reads events in time keeps the queues tidy. -/
lemma Tidy.step {s s' : AlarmSystem} {L : Nat → List Nat} (h : s.Tidy L) {act : AlarmAction}
    (hread : s.ReadsInTime act) (hstep : s.exec act = some s') : ∃ L', s'.Tidy L' := by
  obtain ⟨hholds, hliving, hnodup⟩ := h
  have hunread : ∀ p, ¬s.Unread p → ∀ q, p ∉ L q := by
    intro p hp q hq
    refine hp ?_
    rw [Unread, hholds.toList, (hliving q p hq).2]
    exact hq
  cases act with
  | create p millisecs recursive evqueue =>
    simp only [exec] at hstep
    split at hstep
    · contradiction
    · next hfresh =>
        cases hstep
        have hne : ∀ q, ∀ r ∈ L q, r ≠ p := by
          rintro q r hr rfl
          exact hfresh (hliving q r hr).1
        refine ⟨L, hholds, ?_, ?_⟩
        · intro q r hr
          obtain ⟨hmem, hnot⟩ := hliving q r hr
          have hrp := hne q r hr
          simp only [Alarms.alarmCreate, Countdowns.create]
          split_ifs <;> simp [hmem, hnot, hrp]
        · simp only [Alarms.alarmCreate, Countdowns.create]
          split_ifs <;> simp [hnodup, hfresh]
  | set p start =>
    simp only [exec] at hstep
    split at hstep
    · cases hstep
      exact ⟨L, hholds, hliving, hnodup⟩
    · contradiction
  | acknowledge p =>
    simp only [exec] at hstep
    split at hstep
    · cases hstep
      have hsame : (s.alarms.alarmAcknowledge p).queues = s.alarms.queues ∧
          (s.alarms.alarmAcknowledge p).notify = s.alarms.notify ∧
          (s.alarms.alarmAcknowledge p).cds.list = s.alarms.cds.list := by
        unfold Alarms.alarmAcknowledge
        dsimp only
        split_ifs <;> exact ⟨rfl, rfl, rfl⟩
      refine ⟨L, ?_, ?_, ?_⟩
      · dsimp only
        rw [hsame.1]
        exact hholds
      · dsimp only
        rw [hsame.2.1, hsame.2.2]
        exact hliving
      · dsimp only
        rw [hsame.2.2]
        exact hnodup
    · contradiction
  | update p millisecs recursive =>
    simp only [exec] at hstep
    split at hstep
    · cases hstep
      refine ⟨L, hholds, ?_, ?_⟩
      · simp only [Alarms.alarmUpdate, Countdowns.update]
        split_ifs <;> exact hliving
      · simp only [Alarms.alarmUpdate, Countdowns.update]
        split_ifs <;> exact hnodup
    · contradiction
  | done p =>
    simp only [exec] at hstep
    split at hstep
    · cases hstep
      refine ⟨L, hholds, fun q r hr => ?_, hnodup.erase p⟩
      obtain ⟨hmem, hnot⟩ := hliving q r hr
      refine ⟨(List.mem_erase_of_ne ?_).mpr hmem, hnot⟩
      rintro rfl
      exact hunread r hread q hr
    · contradiction
  | get evqueue =>
    simp only [exec, Alarms.eventGet] at hstep
    cases hcons : L evqueue with
    | nil =>
      rw [hholds.dequeue_nil hcons] at hstep
      cases hstep
      exact ⟨L, hholds, hliving, hnodup⟩
    | cons p l =>
      obtain ⟨queues, hdeq, hholds', -⟩ := hholds.dequeue hcons
      rw [hdeq] at hstep
      cases hstep
      refine ⟨_, hholds', fun q r hr => ?_, hnodup⟩
      by_cases hq : q = evqueue
      · subst hq
        rw [update_self] at hr
        exact hliving q r (by simp [hcons, hr])
      · rw [update_of_ne hq] at hr
        exact hliving q r hr
  | interrupt =>
    simp only [exec] at hstep
    split at hstep
    · simp only [Alarms.alarmCb] at hstep
      split at hstep
      · cases hstep
        exact ⟨L, hholds, hliving, hnodup⟩
      · obtain ⟨a', L', hfold, hholds', hliving', hlist⟩ := foldlM_visit s.alarms.cds.list
          { s.alarms with cds := { s.alarms.cds with period := MAX_UINT } } L hnodup
          (fun p hp => hp) (fun p hp hdue => hunread p (hread p hp hdue)) hholds hliving
        rw [hfold] at hstep
        cases hstep
        refine ⟨L', hholds', ?_, ?_⟩
        · intro q p hp
          obtain ⟨hmem, hnot⟩ := hliving' q p hp
          refine ⟨?_, hnot⟩
          rw [hlist]
          exact hmem
        · dsimp only
          rw [hlist]
          exact hnodup
    · cases hstep
      exact ⟨L, hholds, hliving, hnodup⟩

/-- A system that has just been started. -/
structure Starts (s : AlarmSystem) : Prop where
  alarms : s.alarms = .init
  callback : s.clock.callback .alarms = false

/-- In every run in which no alarm expires or is deleted while its event is unread, the
event queues describe lists, no event is twice in one queue or in two queues, and every
event belongs to a living alarm. -/
theorem alarm_event_once {s₀ s : AlarmSystem} (h₀ : s₀.Starts)
    (hrun : PartialRuns exec (fun s act => s.ReadsInTime act) s₀ s) :
    ∀ q, LinkedQueues.Describes s.alarms.queues.next (s.alarms.queues.inst q)
        (s.alarms.queues.toList q) ∧ (s.alarms.queues.toList q).Nodup ∧
      ∀ p ∈ s.alarms.queues.toList q, p ∈ s.alarms.cds.list ∧ s.alarms.notify p = q := by
  have hstart : s₀.Tidy fun _ => [] := by
    obtain ⟨halarms, -⟩ := h₀
    refine ⟨⟨fun q => ?_, by simp, by simp⟩, by simp, by rw [halarms]; exact List.nodup_nil⟩
    rw [halarms]
    exact ⟨rfl, rfl, rfl, trivial⟩
  obtain ⟨L, htidy⟩ := PartialRuns.invariant (P := fun s => ∃ L, s.Tidy L)
    (fun s act s' ⟨L, hL⟩ hread hstep => hL.step hread hstep) hrun ⟨_, hstart⟩
  intro q
  rw [htidy.holds.toList]
  exact ⟨htidy.holds.describes q, htidy.holds.nodup q, htidy.living q⟩

end AlarmSystem

/-- A clock of one thousand ticks a second. -/
def kilohertz : Clock :=
  ⟨⟨1000, 1, 60000⟩, 0, 10, fun _ => MAX_UINT, fun _ => false⟩

/-- The system before the first alarm. -/
def quiet : AlarmSystem := ⟨.init, kilohertz⟩

instance (s : AlarmSystem) (act : AlarmAction) : Decidable (s.ReadsInTime act) :=
  match act with
  | .interrupt => inferInstanceAs (Decidable (∀ p ∈ s.alarms.cds.list,
      (s.alarms.cds.item p).due s.clock.tick.now = true →
        ¬p ∈ s.alarms.queues.toList (s.alarms.notify p)))
  | .done p => inferInstanceAs (Decidable (¬p ∈ s.alarms.queues.toList (s.alarms.notify p)))
  | .create .. | .set .. | .acknowledge _ | .update .. | .get _ => isTrue trivial

/-- An alarm of ten milliseconds rings, is read, is set again and rings once more. -/
def ringReadRing : List AlarmAction :=
  [.create 1 10 false 7, .set 1 true, .interrupt, .get 7, .set 1 true, .interrupt]

/-- The event of the alarm that has rung twice is in the queue once. -/
theorem alarm_event_once_ring :
    ∃ s, checkedRun AlarmSystem.exec (fun s act => s.ReadsInTime act) ringReadRing quiet = some s ∧
      s.alarms.queues.count 7 = 1 ∧
      LinkedQueues.Describes s.alarms.queues.next (s.alarms.queues.inst 7) [1] := by
  obtain ⟨s, hs, hcount, hlist⟩ : ∃ s ∈ checkedRun AlarmSystem.exec
      (fun s act => s.ReadsInTime act) ringReadRing quiet,
      s.alarms.queues.count 7 = 1 ∧ s.alarms.queues.toList 7 = [1] := by decide
  have honce := AlarmSystem.alarm_event_once ⟨rfl, rfl⟩
    (PartialRuns.of_checkedRun _ (PartialRuns.refl quiet) hs) 7
  rw [hlist] at honce
  exact ⟨s, hs, hcount, honce.1⟩

/-- The alarm is set again before its event is read. -/
def ringRestartRing : List AlarmAction :=
  [.create 1 10 false 7, .set 1 true, .interrupt, .set 1 true, .interrupt]

/-- An unread event is queued once more: the queue counts two events where the links lead
to one. -/
theorem alarm_event_twice :
    ∃ s, PartialRuns AlarmSystem.exec (fun _ _ => True) quiet s ∧
      s.alarms.queues.inst 7 = ⟨some 1, some 1, 2⟩ ∧ s.alarms.queues.next 1 = none ∧
      ∀ l, ¬LinkedQueues.Describes s.alarms.queues.next (s.alarms.queues.inst 7) l := by
  obtain ⟨s, hs, hinst, hnext⟩ : ∃ s ∈ checkedRun AlarmSystem.exec (fun _ _ => True)
      ringRestartRing quiet, s.alarms.queues.inst 7 = ⟨some 1, some 1, 2⟩ ∧
      s.alarms.queues.next 1 = none := by decide
  refine ⟨s, PartialRuns.of_checkedRun _ (PartialRuns.refl quiet) hs, hinst, hnext,
    fun l hl => ?_⟩
  obtain ⟨hhead, -, hcounter, hlinked⟩ := hl
  rw [hinst] at hhead hcounter
  match l, hhead, hcounter, hlinked with
  | [_, _], hhead, _, hlinked =>
    cases hhead
    rw [LinkedQueues.Linked, hnext] at hlinked
    exact absurd hlinked.1 (by simp)

end DiegOS.Kernel
