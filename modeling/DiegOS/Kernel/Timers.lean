import DiegOS.Kernel.Clock

/-!
# Timers

The operations of `timers.c` on the list of timers, and its callback of the
clock.  The thread that calls the callbacks of the users is `TimersThread`.
-/

namespace DiegOS.Kernel

def timerCreate (s : Countdowns) (clock : Clock) (p millisecs : Nat) (recursive : Bool) :
    Countdowns × Clock × Bool :=
  s.create .timers clock p millisecs recursive

def timerSet (s : Countdowns) (clock : Clock) (p : Nat) (start : Bool) : Countdowns :=
  s.set clock p start

def timerUpdate (s : Countdowns) (clock : Clock) (p millisecs : Nat) (recursive : Bool) :
    Countdowns × Clock × Bool :=
  s.update .timers clock p millisecs recursive

def timerDone (s : Countdowns) (clock : Clock) (p : Nat) : Countdowns × Clock :=
  s.done .timers clock p

/-- `timer_cb`, which asks the clock in the name of the alarms; the last component
tells whether it opens the barrier of the timers thread. -/
def timerCb (s : Countdowns) (clock : Clock) : Countdowns × Clock × Bool :=
  let s' := s.visitAll clock.now
  (s', clock.setPeriod s'.period .alarms, s.list.any fun p => (s.item p).due clock.now)

end DiegOS.Kernel
