import DiegOS.Kernel.BarrierFlags
import DiegOS.Network.PacketQueues
import DiegOS.Support.Words

/-!
# The network thread

`net_buffers.c` and the loop of `network_core.c` over the kernel.  The network thread
goes statement by statement, also through `wait_for_barrier` and `schedule_thread`;
between two of its statements interrupts come in and put packets into the queues, and while it
does not run, other threads do.

Main results:

- Theorem `NetRun.Noticed.exec`: what every step keeps.
- Theorem `packets_are_noticed`: what holds after every run.
-/

namespace DiegOS.Network

open Lib Kernel
open Support (Status CACHE_ALN)

variable {N : Nat}

/-! ## The code -/

def THREAD_PRIO_HIGH : Nat := 1

/-- The statements of `network_core_main_entry` with those of the functions that it
calls. -/
inductive Statement where
  | check | setId | waitThread
  | resumeEvents | resumeBarriers | resumeIoWait | resumePoll | updateQueues | pickThread
  | switchContext | closeBarrier
  | readIn | stepIn | wrapIn
  | readOut | stepOut | wrapOut
  | test
deriving DecidableEq, Repr

/-- The thread is in `wait_for_barrier`. -/
def Statement.waits : Statement → Bool
  | .check | .setId | .waitThread | .resumeEvents | .resumeBarriers | .resumeIoWait | .resumePoll
  | .updateQueues | .pickThread | .switchContext => true
  | _ => false

/-- `netbuf_process_in` has returned in this round. -/
def Statement.behindIn : Statement → Bool
  | .readOut | .stepOut | .wrapOut | .test => true
  | _ => false

/-- The kernel, the static variables of `net_buffers.c`, and the place and the local variables
of the network thread once it is created. -/
structure NetCore (N : Nat) where
  kernel : System N
  netb : Nat
  inQueue : PacketQueue Nat
  outQueue : PacketQueue (Nat × Nat)
  tid : Option Nat
  pc : Statement
  pkt : Nat
  intf : Nat
  inCode : Status
  outCode : Status

/-- `netbuf_init`; `allocs` says if the allocations succeed. -/
def netbufInit (k : System N) (netb bytes packets : Nat) (allocs : Bool) :
    Option (NetCore N) × Status :=
  if bytes < CACHE_ALN ∨ packets < 8 then (none, .EINVAL)
  else if !allocs then (none, .ENOMEM)
  else
    (some {
      kernel := k.barrierCreate netb false
      netb
      inQueue := .init 0 packets
      outQueue := .init (0, 0) packets
      tid := none
      pc := .check
      pkt := 0
      intf := 0
      inCode := .EOK
      outCode := .EOK }, .EOK)

namespace NetCore

/-- `network_run`; none if the assertion fails. -/
def networkRun (s : NetCore N) : Option (NetCore N) :=
  match s.kernel.threadCreate [0x6e, 0x65, 0x74, 0x77, 0x6f, 0x72, 0x6b] THREAD_PRIO_HIGH with
  | some (kernel, .creates (some tid)) => some { s with kernel, tid := some tid }
  | _ => none

def netbufIn (s : NetCore N) (pkt : Nat) : Option (NetCore N × Status) :=
  if pkt = 0 then some (s, .EINVAL)
  else if isFull s.inQueue.cb then some (s, .ENOBUFS)
  else
    let s := { s with inQueue := s.inQueue.push pkt }
    (s.kernel.barrierOpen s.netb).map fun (kernel, _) => ({ s with kernel }, .EOK)

def netbufOut (s : NetCore N) (pkt intf : Nat) : Option (NetCore N × Status) :=
  if pkt = 0 ∨ intf = 0 then some (s, .EINVAL)
  else if isFull s.outQueue.cb then some (s, .ENOBUFS)
  else
    let s := { s with outQueue := s.outQueue.push (pkt, intf) }
    (s.kernel.barrierOpen s.netb).map fun (kernel, _) => ({ s with kernel }, .EOK)

/-- Go on with another state of the kernel. -/
def goes (s : NetCore N) (pc : Statement) (kernel : System N) : NetCore N := { s with kernel, pc }

/-- One statement of the network thread. -/
def thread (s : NetCore N) : Option (NetCore N) :=
  match s.pc with
  | .check =>
    let check := (s.kernel.barrier s.netb).isOpen
    some { s with pc := if check then .closeBarrier else .setId }
  | .setId =>
    let bar := s.kernel.barrier s.netb
    some (s.goes .waitThread (s.kernel.setBarrier s.netb
      { bar with ids := Function.update bar.ids s.kernel.sched.runningTid true }))
  | .waitThread =>
    (s.kernel.waitThread .BARRIER 0 (.barrier s.netb)).map fun (kernel, ok) =>
      s.goes (if ok then .resumeEvents else .closeBarrier) kernel
  | .resumeEvents =>
    some (s.goes .resumeBarriers (System.resumeOnEvents s.kernel.evQueues s.kernel))
  | .resumeBarriers =>
    some (s.goes .resumeIoWait (System.resumeOnBarriers s.kernel.barriers s.kernel))
  | .resumeIoWait => some (s.goes .resumePoll s.kernel.resumeOnIoWait)
  | .resumePoll => some (s.goes .updateQueues s.kernel.resumeOnPoll)
  | .updateQueues =>
    s.kernel.sched.updateQueues.map fun sched => s.goes .pickThread (s.kernel.setSched sched)
  | .pickThread =>
    s.kernel.sched.pickThread.map fun sched => s.goes .switchContext (s.kernel.setSched sched)
  | .switchContext =>
    (s.kernel.finish []).map fun (kernel, _) => s.goes .closeBarrier kernel
  | .closeBarrier =>
    (s.kernel.barrierClose s.netb).map fun (kernel, _) => s.goes .readIn kernel
  | .readIn =>
    if s.inQueue.cb.isEmpty then some { s with inCode := .EAGAIN, pc := .readOut }
    else some { s with pkt := s.inQueue.first, pc := .stepIn }
  | .stepIn => some { s with inQueue := s.inQueue.stepHead, pc := .wrapIn }
  | .wrapIn => some { s with inQueue := s.inQueue.wrapHead, inCode := .EOK, pc := .readOut }
  | .readOut =>
    if s.outQueue.cb.isEmpty then some { s with outCode := .EAGAIN, pc := .test }
    else some { s with pkt := s.outQueue.first.1, intf := s.outQueue.first.2, pc := .stepOut }
  | .stepOut => some { s with outQueue := s.outQueue.stepHead, pc := .wrapOut }
  | .wrapOut => some { s with outQueue := s.outQueue.wrapHead, outCode := .EOK, pc := .test }
  | .test =>
    let keepon := !(s.inCode ≠ .EOK && s.outCode ≠ .EOK)
    some { s with pc := if keepon then .readIn else .check }

end NetCore

/-! ## Runs -/

/-- The network core with the packets that were put into its queues and those that were taken out
of them so far. -/
structure NetRun (N : Nat) where
  net : NetCore N
  putIn : List Nat
  takenIn : List Nat
  putOut : List (Nat × Nat)
  takenOut : List (Nat × Nat)

/-- The steps: the start of the network thread, one of its statements, a packet, or a call of the
kernel by another thread or an interrupt. -/
inductive NetOp where
  | networkRun
  | thread
  | netbufIn (pkt : Nat)
  | netbufOut (pkt intf : Nat)
  | kernel (a : Action)

/-- The calls that interrupts make. -/
def fromInterrupt : Action → Bool
  | .eventPut _ _ | .barrierOpen _ | .barrierClose _ | .ioResume _ | .tick _ => true
  | _ => false

namespace NetRun

/-- One step.  A packet is taken when `netbuf_process_in` or `netbuf_process_out`
returns it. -/
def exec (r : NetRun N) : NetOp → Option (NetRun N)
  | .networkRun => r.net.networkRun.map fun net => { r with net }
  | .thread => r.net.thread.map fun net =>
    { r with
      net
      takenIn := if r.net.pc = .wrapIn then r.takenIn ++ [r.net.pkt] else r.takenIn
      takenOut := if r.net.pc = .wrapOut then r.takenOut ++ [(r.net.pkt, r.net.intf)]
        else r.takenOut }
  | .netbufIn pkt => (r.net.netbufIn pkt).map fun (net, code) =>
    { r with net, putIn := if code = .EOK then r.putIn ++ [pkt] else r.putIn }
  | .netbufOut pkt intf => (r.net.netbufOut pkt intf).map fun (net, code) =>
    { r with net, putOut := if code = .EOK then r.putOut ++ [(pkt, intf)] else r.putOut }
  | .kernel a => (r.net.kernel.exec a).map fun kernel => { r with net := { r.net with kernel } }

/-- The network thread runs. -/
def Running (r : NetRun N) : Prop := ∃ t ∈ r.net.tid, r.net.kernel.sched.running = some t

/-- Who may do what: only the network thread uses its barrier, only interrupts interrupt it, and
nobody kills it. -/
def Allowed (r : NetRun N) : NetOp → Prop
  | .networkRun => r.net.tid = none ∧ r.net.kernel.Making
  | .thread => r.Running
  | .netbufIn _ | .netbufOut _ _ => True
  | .kernel a => r.net.kernel.Allowed a ∧ ¬a.names r.net.netb ∧
    (∀ t ∈ r.net.tid, a ≠ .threadKill t) ∧ (fromInterrupt a = true ∨ ¬r.Running)

instance (b : Nat) (a : Action) : Decidable (a.names b) :=
  decidable_of_iff (a = .barrierDone b ∨ a = .barrierOpen b ∨ a = .barrierClose b)
    (by cases a <;> simp [Action.names])

instance (r : NetRun N) : Decidable r.Running :=
  inferInstanceAs (Decidable (∃ t ∈ r.net.tid, _))

instance (r : NetRun N) : (op : NetOp) → Decidable (r.Allowed op)
  | .networkRun => inferInstanceAs (Decidable (_ ∧ _))
  | .thread => inferInstanceAs (Decidable r.Running)
  | .netbufIn _ | .netbufOut _ _ => inferInstanceAs (Decidable True)
  | .kernel _ => inferInstanceAs (Decidable (_ ∧ _ ∧ _ ∧ _))

/-! ## What is kept -/

/-- The barrier is open. -/
def IsOpen (r : NetRun N) : Prop := (r.net.kernel.barrier r.net.netb).isOpen = true

/-- A queue is empty or the barrier is open. -/
def NoticedIn (r : NetRun N) : Prop := r.net.inQueue.contents = [] ∨ r.IsOpen

def NoticedOut (r : NetRun N) : Prop := r.net.outQueue.contents = [] ∨ r.IsOpen

/-- The packet that `netbuf_process_in` is about to return. -/
def handedIn (r : NetRun N) : List Nat := if r.net.pc = .wrapIn then [r.net.pkt] else []

/-- The packet that `netbuf_process_out` is about to return. -/
def handedOut (r : NetRun N) : List (Nat × Nat) :=
  if r.net.pc = .wrapOut then [(r.net.pkt, r.net.intf)] else []

/-- The invariant.  A queue that the thread has found empty, in this round or before it waits, is
empty or the barrier has been opened since. -/
structure Noticed (r : NetRun N) : Prop where
  watched : r.net.kernel.Watched r.net.netb
  goodIn : r.net.inQueue.Good
  goodOut : r.net.outQueue.Good
  steadyIn : r.net.pc ≠ .wrapIn → r.net.inQueue.Steady
  steadyOut : r.net.pc ≠ .wrapOut → r.net.outQueue.Steady
  readIn : r.net.pc = .stepIn → ∃ rest, r.net.inQueue.contents = r.net.pkt :: rest
  readOut : r.net.pc = .stepOut →
    ∃ rest, r.net.outQueue.contents = (r.net.pkt, r.net.intf) :: rest
  orderIn : r.putIn = r.takenIn ++ r.handedIn ++ r.net.inQueue.contents
  orderOut : r.putOut = r.takenOut ++ r.handedOut ++ r.net.outQueue.contents
  waiting : r.net.pc.waits = true → r.NoticedIn ∧ r.NoticedOut
  emptyIn : r.net.pc.behindIn = true → r.net.inCode ≠ .EOK → r.NoticedIn
  emptyOut : r.net.pc = .test → r.net.outCode ≠ .EOK → r.NoticedOut

variable {r r' : NetRun N} {kernel : System N}

/-- The kernel changes, but not the flag of the barrier. -/
lemma Noticed.setKernel (h : r.Noticed) (hkept : FlagKept r.net.netb r.net.kernel kernel) :
    Noticed { r with net := { r.net with kernel } } := by
  obtain ⟨hwatched, hopen⟩ := hkept h.watched
  have hnoticed : ∀ {α : Type} {l : List α}, (l = [] ∨ r.IsOpen) →
      (l = [] ∨ (kernel.barrier r.net.netb).isOpen = true) := by
    intro α l hor
    apply hor.imp_right
    intro hr
    rw [hopen]
    exact hr
  exact ⟨hwatched, h.goodIn, h.goodOut, h.steadyIn, h.steadyOut, h.readIn, h.readOut, h.orderIn,
    h.orderOut, fun hwaits => ⟨hnoticed (h.waiting hwaits).1, hnoticed (h.waiting hwaits).2⟩,
    fun hbehind hcode => hnoticed (h.emptyIn hbehind hcode),
    fun htest hcode => hnoticed (h.emptyOut htest hcode)⟩

/-- The thread goes from one statement of `wait_for_barrier` to the next, or behind it. -/
lemma Noticed.goes (h : r.Noticed) (hkept : FlagKept r.net.netb r.net.kernel kernel)
    (hwaits : r.net.pc.waits = true) (pc : Statement)
    (hpc : pc.waits = true ∨ pc = .closeBarrier) :
    Noticed { r with net := r.net.goes pc kernel } := by
  have hset := h.setKernel hkept
  have hnext : pc ≠ .wrapIn ∧ pc ≠ .wrapOut ∧ pc ≠ .stepIn ∧ pc ≠ .stepOut ∧ pc ≠ .test ∧
      pc.behindIn = false := by
    rcases hpc with hpc | rfl
    · cases pc <;> simp_all [Statement.waits, Statement.behindIn]
    · decide
  have hnow : r.net.pc ≠ .wrapIn ∧ r.net.pc ≠ .wrapOut := by
    constructor
    · intro heq
      rw [heq] at hwaits
      contradiction
    · intro heq
      rw [heq] at hwaits
      contradiction
  obtain ⟨hwrapIn, hwrapOut, hstepIn, hstepOut, htest, hbehind⟩ := hnext
  have horderIn := h.orderIn
  have horderOut := h.orderOut
  rw [handedIn, if_neg hnow.1] at horderIn
  rw [handedOut, if_neg hnow.2] at horderOut
  refine ⟨hset.watched, h.goodIn, h.goodOut, fun _ => h.steadyIn hnow.1,
    fun _ => h.steadyOut hnow.2, fun heq => absurd heq hstepIn, fun heq => absurd heq hstepOut,
    ?_, ?_, fun _ => hset.waiting hwaits, fun heq => ?_, fun heq => absurd heq htest⟩
  · rw [handedIn]
    exact (if_neg hwrapIn).symm ▸ horderIn
  · rw [handedOut]
    exact (if_neg hwrapOut).symm ▸ horderOut
  · change pc.behindIn = true at heq
    rw [hbehind] at heq
    contradiction

/-- What `barrier_open` and `barrier_close` do to a barrier that exists. -/
lemma barrierSet_eq {k k' : System N} {b : Nat} {isOpen : Bool} {o : Outcome}
    (hwatched : k.Watched b) (h : k.barrierSet b isOpen = some (k', o)) :
    k'.Watched b ∧ (k'.barrier b).isOpen = isOpen := by
  obtain ⟨hlisted, hauto⟩ := hwatched
  rw [System.barrierSet, if_pos hlisted] at h
  cases h
  have hself : Function.update k.barrier b { k.barrier b with isOpen := isOpen } b =
      { k.barrier b with isOpen := isOpen } := Function.update_self ..
  refine ⟨⟨hlisted, ?_⟩, ?_⟩
  · dsimp only
    rw [hself]
    exact hauto
  · dsimp only
    rw [hself]

variable (h : r.Noticed)
include h

/-- A packet goes into the IN queue. -/
lemma Noticed.netbufIn {pkt : Nat} (hexec : r.exec (.netbufIn pkt) = some r') :
    r'.Noticed := by
  obtain ⟨⟨net, code⟩, hnet, rfl⟩ := Option.map_eq_some_iff.mp hexec
  unfold NetCore.netbufIn at hnet
  by_cases hnull : pkt = 0
  · rw [if_pos hnull] at hnet
    cases hnet
    exact h
  rw [if_neg hnull] at hnet
  by_cases hfull : isFull r.net.inQueue.cb = true
  · rw [if_pos hfull] at hnet
    cases hnet
    exact h
  rw [if_neg hfull] at hnet
  obtain ⟨⟨kernel, o⟩, hset, hres⟩ := Option.map_eq_some_iff.mp hnet
  cases hres
  obtain ⟨hwatched, hopen⟩ := barrierSet_eq h.watched hset
  obtain ⟨hgood, hcontents, hhead, hsize⟩ :=
    h.goodIn.push (Bool.eq_false_of_not_eq_true hfull) pkt
  refine ⟨hwatched, hgood, h.goodOut, fun hpc => ?_, h.steadyOut, fun hpc => ?_, h.readOut, ?_,
    h.orderOut, fun _ => ⟨.inr hopen, .inr hopen⟩, fun _ _ => .inr hopen,
    fun _ _ => .inr hopen⟩
  · have hsteady := h.steadyIn hpc
    rw [PacketQueue.Steady] at hsteady ⊢
    rwa [hhead, hsize]
  · obtain ⟨rest, hrest⟩ := h.readIn hpc
    rw [hcontents, hrest]
    exact ⟨rest ++ [pkt], rfl⟩
  · dsimp only
    rw [if_pos rfl, hcontents, h.orderIn, List.append_assoc]
    rfl

/-- A packet goes into the OUT queue. -/
lemma Noticed.netbufOut {pkt intf : Nat}
    (hexec : r.exec (.netbufOut pkt intf) = some r') : r'.Noticed := by
  obtain ⟨⟨net, code⟩, hnet, rfl⟩ := Option.map_eq_some_iff.mp hexec
  unfold NetCore.netbufOut at hnet
  by_cases hnull : pkt = 0 ∨ intf = 0
  · rw [if_pos hnull] at hnet
    cases hnet
    exact h
  rw [if_neg hnull] at hnet
  by_cases hfull : isFull r.net.outQueue.cb = true
  · rw [if_pos hfull] at hnet
    cases hnet
    exact h
  rw [if_neg hfull] at hnet
  obtain ⟨⟨kernel, o⟩, hset, hres⟩ := Option.map_eq_some_iff.mp hnet
  cases hres
  obtain ⟨hwatched, hopen⟩ := barrierSet_eq h.watched hset
  obtain ⟨hgood, hcontents, hhead, hsize⟩ :=
    h.goodOut.push (Bool.eq_false_of_not_eq_true hfull) (pkt, intf)
  refine ⟨hwatched, h.goodIn, hgood, h.steadyIn, fun hpc => ?_, h.readIn, fun hpc => ?_,
    h.orderIn, ?_, fun _ => ⟨.inr hopen, .inr hopen⟩, fun _ _ => .inr hopen,
    fun _ _ => .inr hopen⟩
  · have hsteady := h.steadyOut hpc
    rw [PacketQueue.Steady] at hsteady ⊢
    rwa [hhead, hsize]
  · obtain ⟨rest, hrest⟩ := h.readOut hpc
    rw [hcontents, hrest]
    exact ⟨rest ++ [(pkt, intf)], rfl⟩
  · dsimp only
    rw [if_pos rfl, hcontents, h.orderOut, List.append_assoc]
    rfl

/-- The statements of `wait_for_barrier`. -/
lemma Noticed.wait (hwaits : r.net.pc.waits = true)
    (hexec : r.exec .thread = some r') : r'.Noticed := by
  obtain ⟨net, hnet, rfl⟩ := Option.map_eq_some_iff.mp hexec
  have hself : FlagKept r.net.netb r.net.kernel r.net.kernel := FlagKept.of_eq rfl rfl
  have htaken : r.net.pc ≠ .wrapIn ∧ r.net.pc ≠ .wrapOut := by
    constructor
    · intro heq
      rw [heq] at hwaits
      contradiction
    · intro heq
      rw [heq] at hwaits
      contradiction
  rw [if_neg htaken.1, if_neg htaken.2]
  unfold NetCore.thread at hnet
  split at hnet
  · cases hnet
    by_cases hopen : (r.net.kernel.barrier r.net.netb).isOpen = true
    · rw [hopen]
      exact h.goes hself hwaits .closeBarrier (.inr rfl)
    · rw [Bool.eq_false_of_not_eq_true hopen]
      exact h.goes hself hwaits .setId (.inl rfl)
  · cases hnet
    apply h.goes _ hwaits .waitThread (.inl rfl)
    apply FlagKept.setBarrier
    exact fun _ => ⟨rfl, rfl⟩
  · obtain ⟨⟨kernel, ok⟩, hwait, rfl⟩ := Option.map_eq_some_iff.mp hnet
    apply h.goes (FlagKept.waitThread hwait) hwaits
    cases ok with
    | false => exact .inr rfl
    | true => exact .inl rfl
  · cases hnet
    exact h.goes (FlagKept.resumeOnEvents _ _) hwaits .resumeBarriers (.inl rfl)
  · cases hnet
    exact h.goes (FlagKept.resumeOnBarriers _ _) hwaits .resumeIoWait (.inl rfl)
  · cases hnet
    have hkept : FlagKept r.net.netb r.net.kernel r.net.kernel.resumeOnIoWait := .of_eq rfl rfl
    exact h.goes hkept hwaits .resumePoll (.inl rfl)
  · cases hnet
    have hkept : FlagKept r.net.netb r.net.kernel r.net.kernel.resumeOnPoll := .of_eq rfl rfl
    exact h.goes hkept hwaits .updateQueues (.inl rfl)
  · obtain ⟨sched, -, rfl⟩ := Option.map_eq_some_iff.mp hnet
    have hkept : FlagKept r.net.netb r.net.kernel (r.net.kernel.setSched sched) := .of_eq rfl rfl
    exact h.goes hkept hwaits .pickThread (.inl rfl)
  · obtain ⟨sched, -, rfl⟩ := Option.map_eq_some_iff.mp hnet
    have hkept : FlagKept r.net.netb r.net.kernel (r.net.kernel.setSched sched) := .of_eq rfl rfl
    exact h.goes hkept hwaits .switchContext (.inl rfl)
  · obtain ⟨⟨kernel, o⟩, hfinish, rfl⟩ := Option.map_eq_some_iff.mp hnet
    exact h.goes (FlagKept.finish hfinish) hwaits .closeBarrier (.inr rfl)
  all_goals
    next hpc =>
      rw [hpc] at hwaits
      contradiction

/-- The statement that closes the barrier; the queues are looked at behind it. -/
lemma Noticed.close (hpc : r.net.pc = .closeBarrier)
    (hexec : r.exec .thread = some r') : r'.Noticed := by
  obtain ⟨net, hnet, rfl⟩ := Option.map_eq_some_iff.mp hexec
  unfold NetCore.thread at hnet
  rw [hpc] at hnet
  obtain ⟨⟨kernel, o⟩, hset, rfl⟩ := Option.map_eq_some_iff.mp hnet
  obtain ⟨hwatched, -⟩ := barrierSet_eq h.watched hset
  have horderIn := h.orderIn
  have horderOut := h.orderOut
  rw [handedIn, hpc, if_neg (by decide)] at horderIn
  rw [handedOut, hpc, if_neg (by decide)] at horderOut
  rw [hpc]
  exact ⟨hwatched, h.goodIn, h.goodOut, fun _ => h.steadyIn (by rw [hpc]; decide),
    fun _ => h.steadyOut (by rw [hpc]; decide), nofun, nofun,
    horderIn, horderOut, nofun, nofun, nofun⟩

/-- The statements of `netbuf_process_in`. -/
lemma Noticed.processIn
    (hpc : r.net.pc = .readIn ∨ r.net.pc = .stepIn ∨ r.net.pc = .wrapIn)
    (hexec : r.exec .thread = some r') : r'.Noticed := by
  obtain ⟨net, hnet, rfl⟩ := Option.map_eq_some_iff.mp hexec
  unfold NetCore.thread at hnet
  have horderIn := h.orderIn
  have horderOut := h.orderOut
  have hsteadyOut := h.steadyOut (by rcases hpc with hpc | hpc | hpc <;> rw [hpc] <;> decide)
  rw [handedIn] at horderIn
  rw [handedOut] at horderOut
  rcases hpc with hpc | hpc | hpc
  · have hsteady := h.steadyIn (by rw [hpc]; decide)
    rw [hpc, if_neg (by decide)] at horderIn horderOut
    rw [hpc] at hnet ⊢
    dsimp only at hnet
    by_cases hempty : r.net.inQueue.cb.isEmpty = true
    · rw [if_pos hempty] at hnet
      cases hnet
      exact ⟨h.watched, h.goodIn, h.goodOut, fun _ => hsteady, fun _ => hsteadyOut,
        nofun, nofun, horderIn, horderOut, nofun,
        fun _ _ => .inl ((h.goodIn.isEmpty_iff hsteady).mp hempty), nofun⟩
    · rw [if_neg hempty] at hnet
      cases hnet
      exact ⟨h.watched, h.goodIn, h.goodOut, fun _ => hsteady, fun _ => hsteadyOut,
        fun _ => h.goodIn.read hsteady hempty, nofun, horderIn, horderOut,
        nofun, nofun, nofun⟩
  · have hsteady := h.steadyIn (by rw [hpc]; decide)
    obtain ⟨rest, hrest⟩ := h.readIn hpc
    obtain ⟨hgood, hcontents⟩ := h.goodIn.stepHead hsteady hrest
    rw [hpc, if_neg (by decide)] at horderIn horderOut
    rw [hpc] at hnet ⊢
    cases hnet
    refine ⟨h.watched, hgood, h.goodOut, fun hne => absurd rfl hne, fun _ => hsteadyOut,
      nofun, nofun, ?_, horderOut, nofun,
      nofun, nofun⟩
    dsimp only
    rw [if_neg (by decide), handedIn, if_pos rfl, hcontents, horderIn, hrest, List.append_nil,
      List.append_assoc]
    rfl
  · rw [hpc, if_pos rfl] at horderIn
    rw [hpc, if_neg (by decide)] at horderOut
    rw [hpc] at hnet ⊢
    cases hnet
    refine ⟨h.watched, h.goodIn.wrapHead, h.goodOut,
      fun _ => PacketQueue.wrapHead_steady h.goodIn, fun _ => hsteadyOut,
      nofun, nofun, ?_, horderOut, nofun,
      fun _ hcode => absurd rfl hcode, nofun⟩
    dsimp only
    rw [if_pos rfl, handedIn, if_neg Statement.noConfusion,
      PacketQueue.contents_wrapHead h.goodIn, horderIn, List.append_nil]

/-- The statements of `netbuf_process_out`. -/
lemma Noticed.processOut
    (hpc : r.net.pc = .readOut ∨ r.net.pc = .stepOut ∨ r.net.pc = .wrapOut)
    (hexec : r.exec .thread = some r') : r'.Noticed := by
  obtain ⟨net, hnet, rfl⟩ := Option.map_eq_some_iff.mp hexec
  unfold NetCore.thread at hnet
  have horderIn := h.orderIn
  have horderOut := h.orderOut
  have hsteadyIn := h.steadyIn (by rcases hpc with hpc | hpc | hpc <;> rw [hpc] <;> decide)
  have hempty := h.emptyIn (by rcases hpc with hpc | hpc | hpc <;> rw [hpc] <;> rfl)
  rw [handedIn] at horderIn
  rw [handedOut] at horderOut
  rcases hpc with hpc | hpc | hpc
  · have hsteady := h.steadyOut (by rw [hpc]; decide)
    rw [hpc, if_neg (by decide)] at horderIn horderOut
    rw [hpc] at hnet ⊢
    dsimp only at hnet
    by_cases hnone : r.net.outQueue.cb.isEmpty = true
    · rw [if_pos hnone] at hnet
      cases hnet
      exact ⟨h.watched, h.goodIn, h.goodOut, fun _ => hsteadyIn, fun _ => hsteady,
        nofun, nofun, horderIn, horderOut, nofun,
        fun _ => hempty, fun _ _ => .inl ((h.goodOut.isEmpty_iff hsteady).mp hnone)⟩
    · rw [if_neg hnone] at hnet
      cases hnet
      exact ⟨h.watched, h.goodIn, h.goodOut, fun _ => hsteadyIn, fun _ => hsteady,
        nofun, fun _ => h.goodOut.read hsteady hnone, horderIn, horderOut,
        nofun, fun _ => hempty, nofun⟩
  · have hsteady := h.steadyOut (by rw [hpc]; decide)
    obtain ⟨rest, hrest⟩ := h.readOut hpc
    obtain ⟨hgood, hcontents⟩ := h.goodOut.stepHead hsteady hrest
    rw [hpc, if_neg (by decide)] at horderIn horderOut
    rw [hpc] at hnet ⊢
    cases hnet
    refine ⟨h.watched, h.goodIn, hgood, fun _ => hsteadyIn, fun hne => absurd rfl hne,
      nofun, nofun, horderIn, ?_, nofun,
      fun _ => hempty, nofun⟩
    dsimp only
    rw [if_neg (by decide), handedOut, if_pos rfl, hcontents, horderOut, hrest, List.append_nil,
      List.append_assoc]
    rfl
  · rw [hpc, if_neg (by decide)] at horderIn
    rw [hpc, if_pos rfl] at horderOut
    rw [hpc] at hnet ⊢
    cases hnet
    refine ⟨h.watched, h.goodIn, h.goodOut.wrapHead, fun _ => hsteadyIn,
      fun _ => PacketQueue.wrapHead_steady h.goodOut, nofun,
      nofun, horderIn, ?_, nofun, fun _ => hempty,
      fun _ hcode => absurd rfl hcode⟩
    dsimp only
    rw [if_pos rfl, handedOut, if_neg Statement.noConfusion,
      PacketQueue.contents_wrapHead h.goodOut, horderOut, List.append_nil]

/-- The test at the end of a round: the thread waits only if both queues were found empty. -/
lemma Noticed.test (hpc : r.net.pc = .test)
    (hexec : r.exec .thread = some r') : r'.Noticed := by
  obtain ⟨net, hnet, rfl⟩ := Option.map_eq_some_iff.mp hexec
  unfold NetCore.thread at hnet
  have horderIn := h.orderIn
  have horderOut := h.orderOut
  have hsteadyIn := h.steadyIn (by rw [hpc]; decide)
  have hsteadyOut := h.steadyOut (by rw [hpc]; decide)
  have hin := h.emptyIn (by rw [hpc]; rfl)
  have hout := h.emptyOut hpc
  rw [handedIn, hpc, if_neg (by decide)] at horderIn
  rw [handedOut, hpc, if_neg (by decide)] at horderOut
  rw [hpc] at hnet ⊢
  cases hnet
  by_cases hstop : r.net.inCode ≠ .EOK ∧ r.net.outCode ≠ .EOK
  · have hkeepon : (!(decide (r.net.inCode ≠ .EOK) && decide (r.net.outCode ≠ .EOK))) = false := by
      rw [decide_eq_true hstop.1, decide_eq_true hstop.2]
      rfl
    rw [hkeepon]
    exact ⟨h.watched, h.goodIn, h.goodOut, fun _ => hsteadyIn, fun _ => hsteadyOut,
      nofun, nofun, horderIn, horderOut,
      fun _ => ⟨hin hstop.1, hout hstop.2⟩, nofun, nofun⟩
  · have hkeepon : (!(decide (r.net.inCode ≠ .EOK) && decide (r.net.outCode ≠ .EOK))) = true := by
      rw [← Bool.decide_and, decide_eq_false hstop]
      rfl
    rw [hkeepon]
    exact ⟨h.watched, h.goodIn, h.goodOut, fun _ => hsteadyIn, fun _ => hsteadyOut,
      nofun, nofun, horderIn, horderOut, nofun,
      nofun, nofun⟩

/-- One statement of the network thread. -/
lemma Noticed.thread (hexec : r.exec .thread = some r') : r'.Noticed := by
  cases hpc : r.net.pc with
  | closeBarrier => exact h.close hpc hexec
  | readIn => exact h.processIn (.inl hpc) hexec
  | stepIn => exact h.processIn (.inr (.inl hpc)) hexec
  | wrapIn => exact h.processIn (.inr (.inr hpc)) hexec
  | readOut => exact h.processOut (.inl hpc) hexec
  | stepOut => exact h.processOut (.inr (.inl hpc)) hexec
  | wrapOut => exact h.processOut (.inr (.inr hpc)) hexec
  | test => exact h.test hpc hexec
  | check | setId | waitThread | resumeEvents | resumeBarriers | resumeIoWait | resumePoll
  | updateQueues | pickThread | switchContext => exact h.wait (by rw [hpc]; rfl) hexec

/-- Every step keeps the invariant. -/
theorem Noticed.exec {op : NetOp} (hallowed : r.Allowed op)
    (hexec : r.exec op = some r') : r'.Noticed := by
  cases op with
  | thread => exact h.thread hexec
  | netbufIn pkt => exact h.netbufIn hexec
  | netbufOut pkt intf => exact h.netbufOut hexec
  | networkRun =>
    obtain ⟨net, hnet, rfl⟩ := Option.map_eq_some_iff.mp hexec
    unfold NetCore.networkRun at hnet
    split at hnet
    · next kernel tid hcreate =>
        cases hnet
        have hact : r.net.kernel.act (.threadCreate [0x6e, 0x65, 0x74, 0x77, 0x6f, 0x72, 0x6b]
            THREAD_PRIO_HIGH) = some (kernel, .creates (some tid)) := hcreate
        have hmaking : r.net.kernel.Allowed (.threadCreate
            [0x6e, 0x65, 0x74, 0x77, 0x6f, 0x72, 0x6b] THREAD_PRIO_HIGH) := hallowed.2
        have hset := h.setKernel (FlagKept.act hmaking id hact)
        exact ⟨hset.watched, hset.goodIn, hset.goodOut, hset.steadyIn, hset.steadyOut,
          hset.readIn, hset.readOut, hset.orderIn, hset.orderOut, hset.waiting, hset.emptyIn,
          hset.emptyOut⟩
    · contradiction
  | kernel a =>
    obtain ⟨kernel, hkernel, rfl⟩ := Option.map_eq_some_iff.mp hexec
    exact h.setKernel (FlagKept.exec hallowed.1 hallowed.2.1 hkernel)

end NetRun

/-- The state after `netbuf_init`. -/
lemma netbufInit_noticed {k : System N} {netb bytes packets : Nat} {allocs : Bool}
    {net : NetCore N} (hinit : netbufInit k netb bytes packets allocs = (some net, .EOK)) :
    net.netb = netb ∧ NetRun.Noticed ⟨net, [], [], [], []⟩ := by
  unfold netbufInit at hinit
  by_cases hsmall : bytes < CACHE_ALN ∨ packets < 8
  · rw [if_pos hsmall] at hinit
    exact absurd (congrArg Prod.fst hinit) (by simp)
  rw [if_neg hsmall] at hinit
  have hpackets : 8 ≤ packets := Nat.not_lt.mp fun hlt => hsmall (.inr hlt)
  cases allocs with
  | false => exact absurd (congrArg Prod.fst hinit) (by simp)
  | true =>
    obtain rfl := Option.some.inj (congrArg Prod.fst hinit)
    obtain ⟨hgoodIn, hsteadyIn, hin⟩ := PacketQueue.init_good (0 : Nat) hpackets
    obtain ⟨hgoodOut, hsteadyOut, hout⟩ := PacketQueue.init_good ((0, 0) : Nat × Nat) hpackets
    refine ⟨rfl, ⟨⟨List.mem_append_right _ (List.mem_singleton_self _), ?_⟩, hgoodIn, hgoodOut,
      fun _ => hsteadyIn, fun _ => hsteadyOut, nofun, nofun,
      hin.symm, hout.symm, fun _ => ⟨.inl hin, .inl hout⟩, nofun,
      nofun⟩⟩
    have hself : (k.barrierCreate netb false).barrier netb = ⟨fun _ => false, false, false⟩ :=
      Function.update_self ..
    rw [hself]

/-- Whenever the network thread is in `wait_for_barrier`, both queues are empty or the
barrier is open.  At all times the packets that were put into a queue are those that were taken
out of it, in this order, then the one that is just handed over, then those in the queue. -/
theorem packets_are_noticed {k : System N} {netb bytes packets : Nat} {allocs : Bool}
    {net : NetCore N} (hinit : netbufInit k netb bytes packets allocs = (some net, .EOK))
    {r : NetRun N} (hrun : PartialRuns NetRun.exec NetRun.Allowed ⟨net, [], [], [], []⟩ r) :
    (r.net.pc.waits = true → (r.net.inQueue.cb.isEmpty = true ∧ r.net.outQueue.cb.isEmpty = true) ∨
      (r.net.kernel.barrier r.net.netb).isOpen = true) ∧
    r.putIn = r.takenIn ++ r.handedIn ++ r.net.inQueue.contents ∧
    r.putOut = r.takenOut ++ r.handedOut ++ r.net.outQueue.contents := by
  have h : r.Noticed := hrun.invariant (fun _ _ _ h hallowed hexec => h.exec hallowed hexec)
    (netbufInit_noticed hinit).2
  refine ⟨fun hwaits => ?_, h.orderIn, h.orderOut⟩
  obtain ⟨hin, hout⟩ := h.waiting hwaits
  have hsteadyIn := h.steadyIn fun heq => by rw [heq] at hwaits; contradiction
  have hsteadyOut := h.steadyOut fun heq => by rw [heq] at hwaits; contradiction
  rcases hin with hin | hopen
  · rcases hout with hout | hopen
    · exact Or.inl ⟨(h.goodIn.isEmpty_iff hsteadyIn).mpr hin,
        (h.goodOut.isEmpty_iff hsteadyOut).mpr hout⟩
    · exact Or.inr hopen
  · exact Or.inr hopen

/-- The timers thread waits, and the network thread runs.  A packet comes between its look at the
barrier and its wait, and another one while it takes the first one out. -/
def sampleOps : List NetOp :=
  [.networkRun, .kernel .kernelRun, .kernel (.ioWait 5 77 0), .thread, .netbufIn 9,
    .thread, .thread,
    .thread, .thread, .thread, .thread, .thread, .thread, .thread, .thread, .thread, .thread,
    .netbufIn 10, .thread, .netbufOut 11 3, .thread]

/-- The network core of a kernel with four threads. -/
def sampleNet : Option (NetCore 4) := (boot 4).bind fun k => (netbufInit k 1 64 8 true).1

theorem packets_are_noticed_two : ∃ (net : NetCore 4) (r : NetRun 4),
    PartialRuns NetRun.exec NetRun.Allowed ⟨net, [], [], [], []⟩ r ∧ r.takenIn = [9] ∧
      r.putIn = r.takenIn ++ r.handedIn ++ r.net.inQueue.contents := by
  have hcheck : ∃ net ∈ sampleNet, ∃ r ∈ checkedRun NetRun.exec NetRun.Allowed sampleOps
      ⟨net, [], [], [], []⟩, r.takenIn = [9] := by decide
  obtain ⟨net, hnet, r, hr, htaken⟩ := hcheck
  have hrun := PartialRuns.of_checkedRun sampleOps (PartialRuns.refl _) hr
  obtain ⟨k, -, hinit⟩ := Option.bind_eq_some_iff.mp hnet
  have hcode : netbufInit k 1 64 8 true = (some net, .EOK) := Prod.ext hinit rfl
  obtain ⟨-, horder, -⟩ := packets_are_noticed hcode hrun
  exact ⟨net, r, hrun, htaken, horder⟩

end DiegOS.Network
