import DiegOS.Kernel.Alarms
import DiegOS.Kernel.Timers

/-!
# The timers thread

`timers_thread_entry` waits on a barrier that closes by itself, and calls the
callbacks of the expired timers every time it gets through.  The barrier is opened
by the clock interrupt and closed by the scheduler, whoever calls it.  The thread
runs with interrupts disabled from the return of `wait_for_barrier` to the
next call of it, except that the scheduler enables them when a callback suspends.

Main results:

- Theorem `passes_le_openings`: in which runs every opening of the barrier lets
  the loop through at most once, and the thread blocks in the end.
-/

namespace DiegOS.Kernel

open Lib

/-- Where the timers thread is; a cursor is the timer it looks at. -/
inductive Stage where
  | start
  | call
  | enter
  | blocked
  | ready
  | scan (cursor : Option Nat)
  | callback (cursor : Nat)
  | rearm (cursor : Nat)
deriving DecidableEq, Repr

namespace Stage

/-- The timer whose record the thread will read again. -/
def cursor : Stage → Option Nat
  | .scan cursor => cursor
  | .callback cursor | .rearm cursor => some cursor
  | _ => none

/-- A callback is running. -/
def inCallback : Stage → Bool
  | .callback _ => true
  | _ => false

/-- The steps from here to the end of the loop body or to `blocked`. -/
def rank : Stage → Nat
  | .blocked | .ready => 0
  | .enter | .rearm _ => 1
  | .call | .callback _ => 2
  | .start | .scan _ => 3

/-- The thread does not use the processor, or a callback has given it away. -/
def suspended : Stage → Bool
  | .start | .blocked | .ready | .callback _ => true
  | _ => false

end Stage

/-- One call of a callback: when the timer was started or called back last, its period, and
the time of the call. -/
structure Invocation where
  timer : Nat
  armed : Option Nat
  msecs : Nat
  time : Nat
deriving DecidableEq, Repr

/-- What has happened so far; not part of the program. -/
structure TimersHistory where
  openings : Nat
  passes : Nat
  steps : Nat
  armed : Nat → Option Nat
  expiries : Nat → Nat
  calls : Nat → Nat
  log : List Invocation

/-- Nothing has happened. -/
def TimersHistory.init : TimersHistory :=
  ⟨0, 0, 0, fun _ => none, fun _ => 0, fun _ => 0, []⟩

/-- The timers, their thread and its barrier: `isOpen` is `BARRIER_OPEN`, `waits`
the bit of the thread in `thread_ids`.  There is no barrier yet in stage `start`. -/
structure TimersThread where
  clock : Clock
  timers : Countdowns
  isOpen : Bool
  waits : Bool
  stage : Stage
  masked : Bool
  hist : TimersHistory

/-- What the thread, the clock and everyone else do. -/
inductive TimersAction where
  | run
  | schedule
  | interrupt
  | request (msecs : Nat) (client : ClockClient)
  | create (p millisecs : Nat) (recursive : Bool)
  | set (p : Nat) (start : Bool)
  | update (p millisecs : Nat) (recursive : Bool)
  | done (p : Nat)

/-- The list from a timer on. -/
def Countdowns.suffix (s : Countdowns) (p : Nat) : List Nat := s.list.dropWhile (· != p)

/-- The timer behind another one in the list. -/
def Countdowns.next (s : Countdowns) (p : Nat) : Option Nat := (s.suffix p).tail.head?

namespace TimersThread

/-- `wait_for_barrier` returns and the loop begins. -/
def pass (s : TimersThread) : TimersThread :=
  { s with
    stage := .scan s.timers.list.head?
    masked := true
    hist := { s.hist with passes := s.hist.passes + 1 } }

/-- The callback of an expired timer is called. -/
def invoke (s : TimersThread) (p : Nat) : TimersThread :=
  { s with
    stage := .callback p
    hist := { s.hist with
      armed := Function.update s.hist.armed p (some s.clock.now)
      calls := Function.update s.hist.calls p (s.hist.calls p + 1)
      log := ⟨p, s.hist.armed p, (s.timers.item p).msecs, s.clock.now⟩ :: s.hist.log } }

/-- A callback has returned. -/
def finish (s : TimersThread) (p : Nat) : TimersThread :=
  { s with
    timers := s.timers.setItem p { s.timers.item p with expired := false }
    stage := if (s.timers.item p).recursive then .rearm p else .scan (s.timers.next p) }

/-- A recursive timer counts again. -/
def restart (s : TimersThread) (p : Nat) : TimersThread :=
  { s with
    timers := s.timers.setItem p
      { s.timers.item p with expiration := (s.timers.item p).msecs + s.clock.now }
    stage := .scan (s.timers.next p) }

/-- `timers_thread_entry` and `wait_for_barrier`, one step of the thread. -/
def step (s : TimersThread) : Option TimersThread :=
  match s.stage with
  | .start => some { s with stage := .call, isOpen := false, waits := false }
  | .call => if s.isOpen then some s.pass else some { s with stage := .enter }
  | .enter => some { s with stage := .blocked, waits := true }
  | .blocked => none
  | .ready => some s.pass
  | .scan none => some { s with stage := .call, masked := false }
  | .scan (some p) =>
    if (s.timers.item p).expired then some (s.invoke p)
    else some { s with stage := .scan (s.timers.next p) }
  | .callback p => some (s.finish p)
  | .rearm p => some (s.restart p)

def resumeOnBarriers (s : TimersThread) : TimersThread :=
  if s.isOpen then
    { s with
      stage := if s.waits ∧ s.stage = .blocked then .ready else s.stage
      isOpen := false
      waits := false }
  else s

/-- `timer_cb` finds a timer that is due, and a barrier to open. -/
def opens (s : TimersThread) : Bool :=
  (timerCb s.timers s.clock.tick).2.2 && s.stage != .start

/-- The clock interrupt. -/
def tick (s : TimersThread) : TimersThread :=
  let clock := s.clock.tick
  if clock.callback .timers then
    { s with
      timers := (timerCb s.timers clock).1
      clock := (timerCb s.timers clock).2.1
      isOpen := s.isOpen || s.opens
      hist := { s.hist with
        openings := s.hist.openings + s.opens.toNat
        expiries := fun p => s.hist.expiries p +
          (decide (p ∈ s.timers.list) && (s.timers.item p).due clock.now).toNat } }
  else { s with clock := clock }

/-- `timer_create` of an unused address. -/
def create (s : TimersThread) (p millisecs : Nat) (recursive : Bool) : TimersThread :=
  let (timers, clock, _) := timerCreate s.timers s.clock p millisecs recursive
  { s with
    timers := timers
    clock := clock
    hist := { s.hist with
      armed := Function.update s.hist.armed p none
      expiries := Function.update s.hist.expiries p 0
      calls := Function.update s.hist.calls p 0 } }

/-- `timer_set` -/
def set (s : TimersThread) (p : Nat) (start : Bool) : TimersThread :=
  { s with
    timers := timerSet s.timers s.clock p start
    hist := { s.hist with
      armed := Function.update s.hist.armed p (if start then some s.clock.now else none) } }

/-- `timer_update` -/
def update (s : TimersThread) (p millisecs : Nat) (recursive : Bool) : TimersThread :=
  let (timers, clock, _) := timerUpdate s.timers s.clock p millisecs recursive
  { s with timers := timers, clock := clock }

/-- `timer_done` -/
def done (s : TimersThread) (p : Nat) : TimersThread :=
  let (timers, clock) := timerDone s.timers s.clock p
  { s with timers := timers, clock := clock }

/-- The timers can be used: by a callback, or by another thread or an interrupt while
interrupts are enabled. -/
def usable (s : TimersThread) : Bool := !s.masked || s.stage.inCallback

/-- One action; there is none where a record is used that has been released. -/
def exec (s : TimersThread) : TimersAction → Option TimersThread
  | .run => s.step.map fun s => { s with hist := { s.hist with steps := s.hist.steps + 1 } }
  | .schedule =>
    if s.stage.suspended then
      some { s.resumeOnBarriers with masked := s.masked && !s.stage.inCallback }
    else none
  | .interrupt => if s.masked then none else some s.tick
  | .request msecs client => some { s with clock := s.clock.setPeriod msecs client }
  | .create p millisecs recursive =>
    if s.usable ∧ p ∉ s.timers.list then some (s.create p millisecs recursive) else none
  | .set p start => if s.usable ∧ p ∈ s.timers.list then some (s.set p start) else none
  | .update p millisecs recursive =>
    if s.usable ∧ p ∈ s.timers.list then some (s.update p millisecs recursive) else none
  | .done p =>
    if s.usable ∧ p ∈ s.timers.list ∧ s.stage.cursor ≠ some p then some (s.done p) else none

end TimersThread

/-! ## The list of timers and a cursor in it -/

namespace Countdowns

variable {s : Countdowns} {p q c : Nat}

@[simp] lemma suffix_setItem (s : Countdowns) (p q : Nat) (c : Countdown) :
    (s.setItem p c).suffix q = s.suffix q := rfl

lemma suffix_of_split {l₁ l₂ : List Nat} (hsplit : s.list = l₁ ++ p :: l₂) (hp : p ∉ l₁) :
    s.suffix p = p :: l₂ := by
  have hbefore : ∀ a ∈ l₁, (a != p) = true := by
    intro a ha
    simpa using ne_of_mem_of_not_mem ha hp
  rw [suffix, hsplit, List.dropWhile_append_of_pos hbefore]
  simp

lemma suffix_eq_cons (hnodup : s.list.Nodup) (h : p ∈ s.list) :
    s.suffix p = p :: (s.suffix p).tail := by
  obtain ⟨l₁, l₂, hsplit⟩ := List.append_of_mem h
  rw [hsplit] at hnodup
  have hp : p ∉ l₁ := fun hp => (List.nodup_append.mp hnodup).2.2 p hp p (by simp) rfl
  rw [suffix_of_split hsplit hp]
  rfl

lemma suffix_head (h : s.list.head? = some p) : s.suffix p = s.list := by
  obtain ⟨l, hl⟩ := List.head?_eq_some_iff.mp h
  simp [suffix, hl]

/-- The list from the next timer on is the rest of the list from this one on. -/
lemma suffix_next (hnodup : s.list.Nodup) (hp : p ∈ s.list) (hnext : s.next p = some q) :
    s.suffix q = (s.suffix p).tail := by
  obtain ⟨l, hl⟩ := List.head?_eq_some_iff.mp hnext
  have hsplit : s.list = (s.list.takeWhile (· != p) ++ [p]) ++ q :: l := by
    calc s.list = s.list.takeWhile (· != p) ++ s.suffix p :=
          List.takeWhile_append_dropWhile.symm
      _ = (s.list.takeWhile (· != p) ++ [p]) ++ q :: l := by
          rw [suffix_eq_cons hnodup hp, hl, List.append_assoc, List.singleton_append]
  rw [hl]
  apply suffix_of_split hsplit
  intro hq
  rw [hsplit] at hnodup
  exact (List.nodup_append.mp hnodup).2.2 q hq q (by simp) rfl

lemma next_mem (hp : s.next p = some q) : q ∈ s.list := by
  obtain ⟨l, hl⟩ := List.head?_eq_some_iff.mp hp
  have htail : q ∈ (s.suffix p).tail := by simp [hl]
  exact (List.dropWhile_suffix _).subset (List.mem_of_mem_tail htail)

lemma filter_dropWhile (hne : c ≠ p) (l : List Nat) :
    (l.filter (· != p)).dropWhile (· != c) = (l.dropWhile (· != c)).filter (· != p) := by
  induction l with
  | nil => rfl
  | cons a l ih =>
    by_cases hac : a = c
    · subst hac
      simp [hne]
    · by_cases hap : a = p
      · simp [hap, Ne.symm hne, ih]
      · simp [hap, hac, ih]

end Countdowns

namespace TimersThread

variable {s s' : TimersThread}

/-! ## The barrier -/

/-- The passes the thread has been given and has not made. -/
def credit (s : TimersThread) : Nat := s.isOpen.toNat + (if s.stage = .ready then 1 else 0)

/-- How many steps the thread makes before it blocks: those that lead it out of its loop,
and three for every timer that it has not looked at. -/
def rank (s : TimersThread) : Nat :=
  s.stage.rank + 3 * s.stage.cursor.elim 0 fun p => (s.timers.suffix p).length

/-- The thread finds its barrier closed when it calls `wait_for_barrier`, and the timer that it
stands on is not deleted. -/
def ClosedAtCall (s : TimersThread) : TimersAction → Prop
  | .run => s.stage = .call → s.isOpen = false
  | .done p => s.stage.cursor ≠ some p
  | _ => True

/-- No timer is twice in the list, and the cursor is in it. -/
structure Linked (s : TimersThread) : Prop where
  nodup : s.timers.list.Nodup
  cursor : ∀ p, s.stage.cursor = some p → p ∈ s.timers.list

@[simp] lemma tick_list : s.tick.timers.list = s.timers.list := by
  unfold tick timerCb
  dsimp only
  split <;> simp

@[simp] lemma tick_stage : s.tick.stage = s.stage := by
  unfold tick
  dsimp only
  split <;> rfl

@[simp] lemma resumeOnBarriers_timers : s.resumeOnBarriers.timers = s.timers := by
  unfold resumeOnBarriers
  split <;> rfl

@[simp] lemma resumeOnBarriers_hist : s.resumeOnBarriers.hist = s.hist := by
  unfold resumeOnBarriers
  split <;> rfl

/-- A timer is put in front of the list, or nothing happens to it. -/
lemma create_list (p millisecs : Nat) (recursive : Bool) :
    (s.create p millisecs recursive).timers.list = s.timers.list ∨
      (s.create p millisecs recursive).timers.list = p :: s.timers.list := by
  simp only [create, timerCreate, Countdowns.create]
  split_ifs <;> simp

@[simp] lemma update_list (p millisecs : Nat) (recursive : Bool) :
    (s.update p millisecs recursive).timers.list = s.timers.list := by
  simp only [update, timerUpdate, Countdowns.update]
  split_ifs <;> rfl

@[simp] lemma done_list (p : Nat) : (s.done p).timers.list = s.timers.list.erase p := rfl

lemma step_linked (h : s.Linked) (hstep : s.step = some s') : s'.Linked := by
  obtain ⟨hnodup, hcursor⟩ := h
  cases hstage : s.stage with
  | scan cursor =>
    cases cursor with
    | none =>
      simp only [step, hstage, Option.some.injEq] at hstep
      subst hstep
      exact ⟨hnodup, by simp [Stage.cursor]⟩
    | some p =>
      have hp := hcursor p (by rw [hstage]; rfl)
      simp only [step, hstage] at hstep
      split at hstep <;> cases hstep
      · exact ⟨hnodup, by simpa [invoke, Stage.cursor] using hp⟩
      · exact ⟨hnodup, fun q hq => Countdowns.next_mem hq⟩
  | callback p =>
    have hp := hcursor p (by rw [hstage]; rfl)
    simp only [step, hstage, Option.some.injEq] at hstep
    subst hstep
    refine ⟨hnodup, fun q hq => ?_⟩
    cases hrec : (s.timers.item p).recursive with
    | true =>
      simp only [finish, hrec, Stage.cursor] at hq
      cases hq
      exact hp
    | false =>
      simp only [finish, hrec, Stage.cursor] at hq
      exact Countdowns.next_mem hq
  | rearm p =>
    simp only [step, hstage, Option.some.injEq] at hstep
    subst hstep
    exact ⟨hnodup, fun q hq => Countdowns.next_mem hq⟩
  | call =>
    simp only [step, hstage] at hstep
    split at hstep <;> cases hstep
    · exact ⟨hnodup, fun q hq => List.mem_of_mem_head? hq⟩
    · exact ⟨hnodup, by simp [Stage.cursor]⟩
  | ready =>
    simp only [step, hstage, Option.some.injEq] at hstep
    subst hstep
    exact ⟨hnodup, fun q hq => List.mem_of_mem_head? hq⟩
  | blocked => simp [step, hstage] at hstep
  | start | enter =>
    simp only [step, hstage, Option.some.injEq] at hstep
    subst hstep
    exact ⟨hnodup, by simp [Stage.cursor]⟩

lemma exec_linked (h : s.Linked) {act : TimersAction} (hstep : s.exec act = some s') :
    s'.Linked := by
  obtain ⟨hnodup, hcursor⟩ := h
  cases act with
  | run =>
    obtain ⟨s₁, hs₁, rfl⟩ := Option.map_eq_some_iff.mp hstep
    have hlinked := step_linked ⟨hnodup, hcursor⟩ hs₁
    exact ⟨hlinked.nodup, hlinked.cursor⟩
  | schedule =>
    simp only [exec] at hstep
    split at hstep
    · cases hstep
      refine ⟨by simpa using hnodup, fun p hp => ?_⟩
      simp only [resumeOnBarriers_timers]
      apply hcursor
      revert hp
      unfold resumeOnBarriers
      dsimp only
      split_ifs with hopen hblocked <;> simp [Stage.cursor]
    · contradiction
  | interrupt =>
    simp only [exec] at hstep
    split at hstep
    · contradiction
    · cases hstep
      exact ⟨by simpa using hnodup, by simpa using hcursor⟩
  | request msecs client =>
    cases hstep
    exact ⟨hnodup, hcursor⟩
  | create p millisecs recursive =>
    simp only [exec] at hstep
    split at hstep
    · next hfresh =>
        cases hstep
        rcases create_list (s := s) p millisecs recursive with hlist | hlist
        · exact ⟨by rw [hlist]; exact hnodup, by rw [hlist]; exact hcursor⟩
        · refine ⟨by rw [hlist]; simp [hnodup, hfresh], fun q hq => ?_⟩
          rw [hlist]
          exact .tail _ (hcursor q hq)
    · contradiction
  | set p start =>
    simp only [exec] at hstep
    split at hstep
    · cases hstep
      exact ⟨hnodup, hcursor⟩
    · contradiction
  | update p millisecs recursive =>
    simp only [exec] at hstep
    split at hstep
    · cases hstep
      refine ⟨by simpa using hnodup, fun q hq => ?_⟩
      rw [update_list]
      exact hcursor q hq
    · contradiction
  | done p =>
    simp only [exec] at hstep
    split at hstep
    · next hnot =>
        cases hstep
        refine ⟨hnodup.erase p, fun q hq => ?_⟩
        have hne : q ≠ p := by
          rintro rfl
          exact hnot.2.2 hq
        exact (List.mem_erase_of_ne hne).mpr (hcursor q hq)
    · contradiction

/-- A step of the thread uses up the credit of a pass and lets it come closer to the end of
its loop. -/
lemma step_credit (hlinked : s.Linked) (hclosed : s.stage = .call → s.isOpen = false)
    (hstep : s.step = some s') :
    s'.hist.openings = s.hist.openings ∧ s'.hist.steps = s.hist.steps ∧
      s.hist.passes ≤ s'.hist.passes ∧
      s'.hist.passes + s'.credit ≤ s.hist.passes + s.credit ∧
      (s.stage ≠ .ready → s'.rank < s.rank) := by
  have hnext : ∀ p, s.stage.cursor = some p →
      3 + 3 * ((s.timers.next p).elim 0 fun q => (s.timers.suffix q).length) ≤
        3 * (s.timers.suffix p).length := by
    intro p hp
    have hmem := hlinked.cursor p hp
    have hcons := congrArg List.length (Countdowns.suffix_eq_cons hlinked.nodup hmem)
    rw [List.length_cons] at hcons
    cases hq : s.timers.next p with
    | none => simp only [Option.elim_none]; omega
    | some q =>
      rw [Option.elim_some, Countdowns.suffix_next hlinked.nodup hmem hq]
      omega
  cases hstage : s.stage with
  | scan cursor =>
    cases cursor with
    | none =>
      simp only [step, hstage, Option.some.injEq] at hstep
      subst hstep
      simp [credit, rank, hstage, Stage.rank, Stage.cursor]
    | some p =>
      have hp := hnext p (by rw [hstage]; rfl)
      simp only [step, hstage] at hstep
      split at hstep <;> cases hstep
      · simp [credit, rank, hstage, Stage.rank, Stage.cursor, invoke]
      · simp [credit, rank, hstage, Stage.rank, Stage.cursor]
        omega
  | callback p =>
    have hp := hnext p (by rw [hstage]; rfl)
    simp only [step, hstage, Option.some.injEq] at hstep
    subst hstep
    cases hrec : (s.timers.item p).recursive with
    | true => simp [credit, rank, hstage, Stage.rank, Stage.cursor, finish, hrec]
    | false =>
      simp [credit, rank, hstage, Stage.rank, Stage.cursor, finish, hrec]
      omega
  | rearm p =>
    have hp := hnext p (by rw [hstage]; rfl)
    simp only [step, hstage, Option.some.injEq] at hstep
    subst hstep
    simp [credit, rank, hstage, Stage.rank, Stage.cursor, restart]
    omega
  | call =>
    simp only [step, hstage, hclosed hstage, Bool.false_eq_true, if_false,
      Option.some.injEq] at hstep
    subst hstep
    simp [credit, rank, hstage, Stage.rank, Stage.cursor]
  | ready =>
    simp only [step, hstage, Option.some.injEq] at hstep
    subst hstep
    simp [credit, hstage, pass]
    omega
  | blocked => simp [step, hstage] at hstep
  | start | enter =>
    simp only [step, hstage, Option.some.injEq] at hstep
    subst hstep
    simp [credit, rank, hstage, Stage.rank, Stage.cursor]

/-- The list from the cursor on does not get longer when timers come and go. -/
lemma rank_le {s' : TimersThread} (hstage : s'.stage = s.stage)
    (hlist : ∀ c, s.stage.cursor = some c →
      (s'.timers.suffix c).length ≤ (s.timers.suffix c).length) : s'.rank ≤ s.rank := by
  unfold rank
  rw [hstage]
  cases hc : s.stage.cursor with
  | none => simp
  | some c =>
    have hle := hlist c hc
    simp only [Option.elim_some]
    omega

lemma toNat_or_le (a b : Bool) : (a || b).toNat ≤ a.toNat + b.toNat := by
  cases a <;> cases b <;> decide

/-- An opening gives the thread one credit, nothing else does; without credit nothing brings
it away from the end of its loop. -/
lemma exec_credit (hlinked : s.Linked) {act : TimersAction} (hclosed : s.ClosedAtCall act)
    (hstep : s.exec act = some s') :
    s.hist.openings ≤ s'.hist.openings ∧ s.hist.passes ≤ s'.hist.passes ∧
      s'.hist.passes + s'.credit + s.hist.openings ≤
        s.hist.passes + s.credit + s'.hist.openings ∧
      (s.credit = 0 → s'.hist.openings = s.hist.openings →
        s'.hist.steps + s'.rank ≤ s.hist.steps + s.rank) := by
  cases act with
  | run =>
    obtain ⟨s₁, hs₁, rfl⟩ := Option.map_eq_some_iff.mp hstep
    obtain ⟨hopen, hsteps, hpasses, hcredit, hrank⟩ := step_credit hlinked hclosed hs₁
    refine ⟨Nat.le_of_eq hopen.symm, hpasses, ?_, fun hzero _ => ?_⟩
    · have hcredit' : s₁.hist.passes + s₁.credit ≤ s.hist.passes + s.credit := hcredit
      simp only [credit] at hcredit' ⊢
      omega
    · have hready : s.stage ≠ .ready := by
        intro hready
        simp [credit, hready] at hzero
      have hlt : s₁.rank < s.rank := hrank hready
      simp only [rank] at hlt ⊢
      omega
  | schedule =>
    simp only [exec] at hstep
    split at hstep
    · cases hstep
      refine ⟨by simp, by simp, ?_, fun hzero _ => ?_⟩
      · unfold credit resumeOnBarriers
        split_ifs with hopen hblocked <;> simp_all
      · have hclose : s.isOpen = false := by
          simp only [credit, Nat.add_eq_zero_iff] at hzero
          simpa using hzero.1
        have hsame : s.resumeOnBarriers = s := by simp [resumeOnBarriers, hclose]
        simp [hsame, rank]
    · contradiction
  | interrupt =>
    simp only [exec] at hstep
    split at hstep
    · contradiction
    · cases hstep
      refine ⟨?_, ?_, ?_, fun hzero hsame => ?_⟩
      · unfold tick
        dsimp only
        split_ifs <;> simp
      · unfold tick
        dsimp only
        split_ifs <;> simp
      · have hor := toNat_or_le s.isOpen s.opens
        unfold credit tick
        dsimp only
        split_ifs <;> simp <;> omega
      · have hrank : s.tick.rank ≤ s.rank := rank_le tick_stage (by simp [Countdowns.suffix])
        have hsteps : s.tick.hist.steps = s.hist.steps := by
          unfold tick
          dsimp only
          split_ifs <;> rfl
        omega
  | request msecs client =>
    cases hstep
    exact ⟨Nat.le_refl _, Nat.le_refl _, Nat.le_refl _, fun _ _ => Nat.le_refl _⟩
  | create p millisecs recursive =>
    simp only [exec] at hstep
    split at hstep
    · next hfresh =>
        cases hstep
        refine ⟨Nat.le_refl _, Nat.le_refl _, Nat.le_refl _, fun _ _ => ?_⟩
        apply Nat.add_le_add_left
        refine rank_le (by rfl) fun c hc => ?_
        have hne : p ≠ c := by
          rintro rfl
          exact hfresh.2 (hlinked.cursor p hc)
        apply Nat.le_of_eq
        unfold Countdowns.suffix
        rcases create_list (s := s) p millisecs recursive with hlist | hlist
        · rw [hlist]
        · rw [hlist, List.dropWhile_cons_of_pos (by simpa using hne)]
    · contradiction
  | set p start =>
    simp only [exec] at hstep
    split at hstep
    · cases hstep
      exact ⟨Nat.le_refl _, Nat.le_refl _, Nat.le_refl _, fun _ _ => Nat.le_refl _⟩
    · contradiction
  | update p millisecs recursive =>
    simp only [exec] at hstep
    split at hstep
    · cases hstep
      refine ⟨Nat.le_refl _, Nat.le_refl _, Nat.le_refl _, fun _ _ => ?_⟩
      apply Nat.add_le_add_left
      exact rank_le (s := s) rfl fun c _ => by simp [Countdowns.suffix]
    · contradiction
  | done p =>
    simp only [exec] at hstep
    split at hstep
    · next hnot =>
        cases hstep
        refine ⟨Nat.le_refl _, Nat.le_refl _, Nat.le_refl _, fun _ _ => ?_⟩
        apply Nat.add_le_add_left
        refine rank_le (by rfl) fun c hc => ?_
        have hne : c ≠ p := by
          rintro rfl
          exact hnot.2.2 hc
        rw [Countdowns.suffix, done_list, hlinked.nodup.erase_eq_filter,
          Countdowns.filter_dropWhile hne]
        exact List.length_filter_le _ _
    · contradiction

/-- The thread has not run yet and there are no timers. -/
structure Starts (s : TimersThread) : Prop where
  timers : s.timers = .init
  isOpen : s.isOpen = false
  stage : s.stage = .start
  masked : s.masked = false
  hist : s.hist = .init

lemma Starts.linked (h : s.Starts) : s.Linked := by
  refine ⟨?_, ?_⟩
  · simp [h.timers, Countdowns.init]
  · simp [h.stage, Stage.cursor]

/-- Along a run the passes are paid for by openings; without openings and credit the thread
makes no pass and its steps count down. -/
lemma run_credit {s₀ : TimersThread} (hlinked : s₀.Linked)
    (hrun : PartialRuns exec (fun s act => s.ClosedAtCall act) s₀ s) :
    s.Linked ∧ s₀.hist.openings ≤ s.hist.openings ∧ s₀.hist.passes ≤ s.hist.passes ∧
      s.hist.passes + s.credit + s₀.hist.openings ≤
        s₀.hist.passes + s₀.credit + s.hist.openings ∧
      (s₀.credit = 0 → s.hist.openings = s₀.hist.openings →
        s.hist.steps + s.rank ≤ s₀.hist.steps + s₀.rank) := by
  apply PartialRuns.invariant (P := fun s => s.Linked ∧ _) ?_ hrun
  · exact ⟨hlinked, Nat.le_refl _, Nat.le_refl _, Nat.le_refl _, fun _ _ => Nat.le_refl _⟩
  · rintro s act s' ⟨hl, hopen, hpass, hcredit, hrank⟩ hclosed hstep
    obtain ⟨hopen', hpass', hcredit', hrank'⟩ := exec_credit hl hclosed hstep
    refine ⟨exec_linked hl hstep, Nat.le_trans hopen hopen', Nat.le_trans hpass hpass',
      by omega, ?_⟩
    intro hzero hsame
    have hbefore := hrank hzero (by omega)
    have hafter := hrank' (by omega) (by omega)
    omega

/-- In every run in which the thread finds its barrier closed whenever it calls
`wait_for_barrier`, it gets through at most as often as the barrier has been opened.
When no timer expires any more it makes at most the passes it has been given; without any
it counts its steps down until it is blocked. -/
theorem passes_le_openings {s₀ s : TimersThread} (h₀ : s₀.Starts)
    (hrun : PartialRuns exec (fun s act => s.ClosedAtCall act) s₀ s) :
    s.hist.passes ≤ s.hist.openings ∧
      ∀ s', PartialRuns exec (fun s act => s.ClosedAtCall act) s s' →
        s'.hist.openings = s.hist.openings →
        s'.hist.passes ≤ s.hist.passes + s.credit ∧
          (s.credit = 0 → s'.hist.passes = s.hist.passes ∧
            s'.hist.steps + s'.rank ≤ s.hist.steps + s.rank ∧
            (s'.rank = 0 → s'.stage = .blocked)) := by
  obtain ⟨hlinked, -, -, hcredit, -⟩ := run_credit h₀.linked hrun
  have hzero : s₀.credit = 0 := by simp [credit, h₀.isOpen, h₀.stage]
  have hhist : s₀.hist.openings = 0 ∧ s₀.hist.passes = 0 := by
    simp [h₀.hist, TimersHistory.init]
  refine ⟨by omega, fun s' hrun' hsame => ?_⟩
  obtain ⟨-, hopen, hpass, hcredit', hrank⟩ := run_credit hlinked hrun'
  refine ⟨by omega, fun hnone => ⟨by omega, hrank hnone hsame, fun hend => ?_⟩⟩
  have hnone' : s'.credit = 0 := by omega
  unfold rank at hend
  unfold credit at hnone'
  cases hstage : s'.stage <;> simp_all [Stage.rank]

end TimersThread

/-- The system before the timers thread runs for the first time. -/
def untimed : TimersThread := ⟨kilohertz, .init, false, false, .start, false, .init⟩

instance (s : TimersThread) (act : TimersAction) : Decidable (s.ClosedAtCall act) :=
  match act with
  | .run => inferInstanceAs (Decidable (s.stage = .call → s.isOpen = false))
  | .done p => inferInstanceAs (Decidable (s.stage.cursor ≠ some p))
  | .schedule | .interrupt | .request .. | .create .. | .set .. | .update .. => isTrue trivial

/-- The thread blocks, a timer of ten milliseconds expires, its callback is called and the
thread blocks again. -/
def oneTimer : List TimersAction :=
  [.run, .run, .run, .create 1 10 false, .set 1 true, .interrupt, .schedule, .run, .run, .run,
    .run, .run, .run]

/-- The thread has made the one pass it has been given. -/
theorem passes_le_openings_oneTimer :
    ∃ s, checkedRun TimersThread.exec (fun s act => s.ClosedAtCall act) oneTimer untimed =
        some s ∧ s.stage = .blocked ∧ s.hist.openings = 1 ∧ s.hist.passes ≤ 1 := by
  obtain ⟨s, hs, hstage, hopenings⟩ : ∃ s ∈ checkedRun TimersThread.exec
      (fun s act => s.ClosedAtCall act) oneTimer untimed,
      s.stage = .blocked ∧ s.hist.openings = 1 := by decide
  have hpasses := TimersThread.passes_le_openings ⟨rfl, rfl, rfl, rfl, rfl⟩
    (PartialRuns.of_checkedRun _ (PartialRuns.refl untimed) hs)
  rw [hopenings] at hpasses
  exact ⟨s, hs, hstage, hopenings, hpasses.1⟩

/-- A second timer expires when the thread is about to wait again. -/
def twoTimers : List TimersAction :=
  [.run, .run, .run, .create 1 10 false, .create 2 20 false, .set 1 true, .set 2 true,
    .request 10 .scheduler, .interrupt, .schedule, .run, .run, .run, .run, .run, .interrupt,
    .run, .run, .run, .run, .run, .run]

/-- The barrier that is open when the thread calls `wait_for_barrier` stays open: two
openings let the loop through three times. -/
theorem passes_exceed_openings :
    ∃ s, PartialRuns TimersThread.exec (fun _ _ => True) untimed s ∧
      s.hist.openings = 2 ∧ s.hist.passes = 3 ∧ s.isOpen = true := by
  obtain ⟨s, hs, hlast⟩ : ∃ s ∈ checkedRun TimersThread.exec (fun _ _ => True) twoTimers untimed,
      s.hist.openings = 2 ∧ s.hist.passes = 3 ∧ s.isOpen = true := by decide
  exact ⟨s, PartialRuns.of_checkedRun _ (PartialRuns.refl untimed) hs, hlast⟩

end DiegOS.Kernel
