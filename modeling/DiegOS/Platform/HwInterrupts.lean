import DiegOS.Platform.Ints

/-!
# Nested interrupt handlers

The entry points of `hw_interrupts.s` mask their own line, turn the interrupts on for the
handler and unmask the line again.  With the interrupts off nothing comes between the
instructions of an entry or of a return.

Main results:

- Theorem `masked_leave`: a return also unmasks all lower lines of its controller.
- Theorem `handlers_not_nested`: what keeps handlers from being entered twice and masked
  lines masked.
- Theorem `handler_entered_twice`: what happens otherwise.
-/

namespace DiegOS.Platform

open Lib Function

namespace Ints

variable {n l : Fin NR_IRQ_VECTORS}

/-- The entry of `hwint_master` or `hwint_slave`, up to the call of the handler. -/
def enter (s : Ints) (n : Fin NR_IRQ_VECTORS) : Ints :=
  if n.val < 8 then
    { s with interruptFlag := true, ctlMask := s.ctlMask ||| ((1#8) <<< n.val) }
  else
    { s with interruptFlag := true, ctl2Mask := s.ctl2Mask ||| ((1#8) <<< (n.val - 8)) }

/-- The rest of `hwint_master` or `hwint_slave`: the constant is `~1` shifted left,
and `iretl` brings back the flag with which the interrupt was taken. -/
def leave (s : Ints) (n : Fin NR_IRQ_VECTORS) : Ints :=
  if n.val < 8 then
    { s with interruptFlag := true, ctlMask := s.ctlMask &&& ((~~~1#8) <<< n.val) }
  else
    { s with interruptFlag := true, ctl2Mask := s.ctl2Mask &&& ((~~~1#8) <<< (n.val - 8)) }

/-- Two lines of one controller. -/
def sameController (l n : Fin NR_IRQ_VECTORS) : Bool := decide (l.val < 8) == decide (n.val < 8)

lemma masked_enter (s : Ints) (n l : Fin NR_IRQ_VECTORS) :
    (s.enter n).masked l = (s.masked l || decide (l = n)) := by
  have hbits : ∀ i < 8, ∀ j < 8, ((1#8) <<< i).getLsbD j = decide (j = i) := by decide
  have hl : l.val < 16 := l.isLt
  have hn : n.val < 16 := n.isLt
  rw [decide_eq_decide.mpr Fin.ext_iff]
  unfold enter masked
  by_cases hnlow : n.val < 8
  · rw [if_pos hnlow]
    by_cases hllow : l.val < 8
    · rw [if_pos hllow, if_pos hllow]
      dsimp only
      rw [BitVec.getLsbD_or, hbits _ hnlow _ hllow]
    · have hne : l.val ≠ n.val := by omega
      simp [hllow, hne]
  · rw [if_neg hnlow]
    by_cases hllow : l.val < 8
    · have hne : l.val ≠ n.val := by omega
      simp [hllow, hne]
    · have hiff : decide (l.val - 8 = n.val - 8) = decide (l.val = n.val) :=
        decide_eq_decide.mpr (by omega)
      rw [if_neg hllow, if_neg hllow]
      dsimp only
      rw [BitVec.getLsbD_or, hbits _ (by omega) _ (by omega), hiff]

/-- A return unmasks its line and all lower lines of the same controller. -/
theorem masked_leave (s : Ints) (n l : Fin NR_IRQ_VECTORS) :
    (s.leave n).masked l = (s.masked l && !(sameController l n && decide (l ≤ n))) := by
  have hbits : ∀ i < 8, ∀ j < 8, ((~~~1#8) <<< i).getLsbD j = !decide (j ≤ i) := by decide
  have hl : l.val < 16 := l.isLt
  have hn : n.val < 16 := n.isLt
  have hle : decide (l ≤ n) = decide (l.val ≤ n.val) := decide_eq_decide.mpr Fin.le_def
  rw [hle]
  unfold leave masked sameController
  by_cases hnlow : n.val < 8
  · rw [if_pos hnlow]
    by_cases hllow : l.val < 8
    · rw [if_pos hllow, if_pos hllow]
      dsimp only
      rw [BitVec.getLsbD_and, hbits _ hnlow _ hllow]
      simp [hnlow, hllow]
    · simp [hllow, hnlow]
  · rw [if_neg hnlow]
    by_cases hllow : l.val < 8
    · simp [hllow, hnlow]
    · have hiff : decide (l.val - 8 ≤ n.val - 8) = decide (l.val ≤ n.val) :=
        decide_eq_decide.mpr (by omega)
      rw [if_neg hllow, if_neg hllow]
      rw [BitVec.getLsbD_and, hbits _ (by omega) _ (by omega), hiff]
      simp [hnlow, hllow]

end Ints

/-! ## Runs -/

/-- The registers, the handlers that have not returned, the last one first, and the lines that
were disabled outside of all handlers and not enabled since. -/
structure Handlers where
  ints : Ints
  active : List (Fin NR_IRQ_VECTORS)
  disabled : Fin NR_IRQ_VECTORS → Bool

/-- An interrupt is taken, the last handler returns, or the running code makes a call. -/
inductive HwAction where
  | taken (n : Fin NR_IRQ_VECTORS)
  | returns
  | call (c : Ints.Call)
deriving DecidableEq

namespace Handlers

/-- What is known of the disabled lines after a call. -/
def disabledBy (h : Handlers) : Ints.Call → Fin NR_IRQ_VECTORS → Bool
  | .enableIrq irq => Function.update h.disabled (Ints.line irq) false
  | .disableIrq irq =>
    if h.active = [] then Function.update h.disabled (Ints.line irq) true else h.disabled
  | .lock | .unlock => h.disabled

/-- One step; a controller passes on the lines that it does not mask. -/
def step (h : Handlers) : HwAction → Option Handlers
  | .taken n =>
    if h.ints.interruptFlag = true ∧ h.ints.masked n = false then
      some { h with ints := h.ints.enter n, active := n :: h.active }
    else none
  | .returns =>
    match h.active with
    | [] => none
    | n :: rest => some { h with ints := h.ints.leave n, active := rest }
  | .call c => some { h with ints := h.ints.call c, disabled := h.disabledBy c }

/-- No handler was entered and no line was disabled. -/
def start (ints : Ints) : Handlers := ⟨ints, [], fun _ => false⟩

/-- No handler has been entered twice, and the disabled lines are masked. -/
structure Safe (h : Handlers) : Prop where
  once : h.active.Nodup
  disabled : ∀ n, h.disabled n = true → h.ints.masked n = true

/-- When a handler returns, no lower line of its controller has an active handler or is disabled;
no line is enabled while its handler is active. -/
def Fits (h : Handlers) : HwAction → Prop
  | .taken _ => True
  | .returns => ∀ n ∈ h.active.head?, ∀ l < n, Ints.sameController l n = true →
      l ∉ h.active ∧ h.disabled l = false
  | .call (.enableIrq irq) => Ints.line irq ∉ h.active
  | .call _ => True

instance (h : Handlers) : (a : HwAction) → Decidable (h.Fits a)
  | .taken _ => inferInstanceAs (Decidable True)
  | .returns => inferInstanceAs (Decidable (∀ n ∈ h.active.head?, ∀ l < n, _))
  | .call (.enableIrq irq) => inferInstanceAs (Decidable (Ints.line irq ∉ h.active))
  | .call .lock | .call .unlock | .call (.disableIrq _) => inferInstanceAs (Decidable True)

/-- Active handlers have masked lines that nobody disabled. -/
structure Masking (h : Handlers) : Prop where
  safe : h.Safe
  active : ∀ n ∈ h.active, h.ints.masked n = true ∧ h.disabled n = false

variable {h h' : Handlers} {a : HwAction}

/-- The lines of the controllers after a call. -/
lemma masked_call (s : Ints) (c : Ints.Call) (n : Fin NR_IRQ_VECTORS) :
    (s.call c).masked n = match c with
      | .lock | .unlock => s.masked n
      | .enableIrq irq => s.masked n && decide (n ≠ Ints.line irq)
      | .disableIrq irq => s.masked n || decide (n = Ints.line irq) := by
  cases c with
  | lock => rfl
  | unlock =>
    change s.unlock.masked n = s.masked n
    unfold Ints.unlock
    split
    · rfl
    · split <;> rfl
  | enableIrq irq => exact s.masked_enableIrq irq n
  | disableIrq irq => exact s.masked_disableIrq irq n

section

variable (hmask : h.Masking)
include hmask

lemma Masking.taken {n : Fin NR_IRQ_VECTORS}
    (hclear : h.ints.masked n = false) :
    Masking { h with ints := h.ints.enter n, active := n :: h.active } := by
  have hkept : ∀ l, h.ints.masked l = true → (h.ints.enter n).masked l = true := by
    intro l hl
    rw [Ints.masked_enter, hl, Bool.true_or]
  refine ⟨⟨?_, fun l hl => hkept l (hmask.safe.disabled l hl)⟩, ?_⟩
  · apply List.nodup_cons.mpr
    refine ⟨fun hmem => ?_, hmask.safe.once⟩
    rw [(hmask.active n hmem).1] at hclear
    contradiction
  · intro l hl
    rcases List.mem_cons.mp hl with rfl | hl
    · refine ⟨by simp [Ints.masked_enter], ?_⟩
      rw [Bool.eq_false_iff]
      intro hdisabled
      rw [hmask.safe.disabled l hdisabled] at hclear
      contradiction
    · exact ⟨hkept l (hmask.active l hl).1, (hmask.active l hl).2⟩

lemma Masking.returns {n : Fin NR_IRQ_VECTORS}
    {rest : List (Fin NR_IRQ_VECTORS)} (hactive : h.active = n :: rest)
    (hfits : h.Fits .returns) :
    Masking { h with ints := h.ints.leave n, active := rest } := by
  have hlower : ∀ l < n, Ints.sameController l n = true → l ∉ h.active ∧ h.disabled l = false :=
    hfits n (by rw [hactive]; rfl)
  have honce := hmask.safe.once
  rw [hactive] at honce
  obtain ⟨hnot, hrest⟩ := List.nodup_cons.mp honce
  have hkept : ∀ l, l ≠ n → (l ∈ h.active ∨ h.disabled l = true) → h.ints.masked l = true →
      (h.ints.leave n).masked l = true := by
    intro l hne hused hl
    rw [Ints.masked_leave, hl, Bool.true_and, Bool.not_eq_true', Bool.eq_false_iff]
    intro hcleared
    obtain ⟨hsame, hle⟩ := Bool.and_eq_true_iff.mp hcleared
    obtain ⟨hinactive, henabled⟩ := hlower l (lt_of_le_of_ne (of_decide_eq_true hle) hne) hsame
    rcases hused with hmem | hdisabled
    · exact hinactive hmem
    · rw [henabled] at hdisabled
      contradiction
  refine ⟨⟨hrest, fun l hl => ?_⟩, fun l hl => ?_⟩
  · apply hkept l _ (.inr hl) (hmask.safe.disabled l hl)
    rintro rfl
    have hself := (hmask.active l (by rw [hactive]; exact .head _)).2
    exact Bool.false_ne_true (hself.symm.trans hl)
  · have hmem : l ∈ h.active := by
      rw [hactive]
      exact List.mem_cons_of_mem n hl
    obtain ⟨hmasked, henabled⟩ := hmask.active l hmem
    refine ⟨hkept l ?_ (.inl hmem) hmasked, henabled⟩
    rintro rfl
    exact hnot hl

lemma Masking.call {c : Ints.Call} (hfits : h.Fits (.call c)) :
    Masking { h with ints := h.ints.call c, disabled := h.disabledBy c } := by
  cases c with
  | lock => exact ⟨⟨hmask.safe.once, hmask.safe.disabled⟩, hmask.active⟩
  | unlock =>
    refine ⟨⟨hmask.safe.once, fun n hn => ?_⟩, fun n hn => ?_⟩
    · dsimp only
      rw [masked_call]
      exact hmask.safe.disabled n hn
    · dsimp only
      rw [masked_call]
      exact hmask.active n hn
  | enableIrq irq =>
    refine ⟨⟨hmask.safe.once, fun n hn => ?_⟩, fun n hn => ?_⟩
    · dsimp only [disabledBy] at hn ⊢
      by_cases hne : n = Ints.line irq
      · rw [hne, update_self] at hn
        contradiction
      · rw [update_of_ne hne] at hn
        rw [masked_call]
        simp [hmask.safe.disabled n hn, hne]
    · have hne : n ≠ Ints.line irq := by
        rintro rfl
        exact hfits hn
      dsimp only [disabledBy]
      rw [masked_call, update_of_ne hne]
      simp [hmask.active n hn, hne]
  | disableIrq irq =>
    have hkept : ∀ n, h.ints.masked n = true →
        (h.ints.call (.disableIrq irq)).masked n = true := by
      intro n hn
      rw [masked_call]
      simp [hn]
    refine ⟨⟨hmask.safe.once, fun n hn => ?_⟩, fun n hn => ?_⟩
    · dsimp only [disabledBy] at hn ⊢
      by_cases hne : n = Ints.line irq
      · rw [masked_call]
        simp [hne]
      · apply hkept
        split at hn
        · rw [update_of_ne hne] at hn
          exact hmask.safe.disabled n hn
        · exact hmask.safe.disabled n hn
    · dsimp only [disabledBy] at hn ⊢
      refine ⟨hkept n (hmask.active n hn).1, ?_⟩
      split
      · next hnone =>
          rw [hnone] at hn
          contradiction
      · exact (hmask.active n hn).2

lemma Masking.step (hfits : h.Fits a) (hstep : h.step a = some h') :
    h'.Masking := by
  cases a with
  | taken n =>
    rw [Handlers.step] at hstep
    split at hstep
    · next hok =>
        cases hstep
        exact hmask.taken hok.2
    · contradiction
  | returns =>
    rw [Handlers.step] at hstep
    split at hstep
    · contradiction
    · next n rest hactive =>
        cases hstep
        exact hmask.returns hactive hfits
  | call c =>
    cases hstep
    exact hmask.call hfits

end

/-- Handlers are not entered twice and disabled lines stay masked if no handler returns while a
lower line of its controller is in use, and no line is enabled by its own handler. -/
theorem handlers_not_nested (ints : Ints)
    (hrun : PartialRuns step Fits (start ints) h) : h.Safe := by
  have hmask : h.Masking := by
    apply hrun.invariant (P := Masking)
    · exact fun _ _ _ hmask hfits hstep => hmask.step hfits hstep
    · exact ⟨⟨List.nodup_nil, fun _ hn => absurd hn Bool.false_ne_true⟩, fun _ hn =>
        absurd hn (List.not_mem_nil)⟩
  exact hmask.safe

/-- The registers with all lines unmasked and the interrupts on. -/
def ready : Ints := Ints.start true 0 0

/-- A handler of a lower line interrupts one of a higher line, and line 1 is disabled. -/
theorem handlers_not_nested_lower : ∃ h : Handlers, PartialRuns step Fits (start ready) h ∧
    h.active = [4] ∧ h.Safe := by
  have hrun : ∃ h ∈ checkedRun step Fits
      [.taken 4, .taken 3, .returns, .call (.disableIrq 1)] (start ready), h.active = [4] := by
    decide
  obtain ⟨h, hh, hactive⟩ := hrun
  have hruns := PartialRuns.of_checkedRun _ (PartialRuns.refl (start ready)) hh
  exact ⟨h, hruns, hactive, handlers_not_nested ready hruns⟩

/-- When the handler of line 4 returns, line 1 is unmasked: its handler is entered again, or it
was disabled by a thread. -/
theorem handler_entered_twice :
    (∃ h : Handlers, PartialRuns step (fun _ _ => True) (start ready) h ∧
      h.active = [1, 1] ∧ ¬h.Safe) ∧
    ∃ h : Handlers, PartialRuns step (fun _ _ => True) (start ready) h ∧
      h.disabled 1 = true ∧ h.ints.masked 1 = false ∧ ¬h.Safe := by
  have hruns : ∀ l h, checkedRun step (fun _ _ => True) l (start ready) = some h →
      PartialRuns step (fun _ _ => True) (start ready) h := fun l _ hh =>
    PartialRuns.of_checkedRun l (PartialRuns.refl (start ready)) hh
  constructor
  · have hrun : ∃ h ∈ checkedRun step (fun _ _ => True)
        [.taken 1, .taken 4, .returns, .taken 1] (start ready), h.active = [1, 1] := by decide
    obtain ⟨h, hh, hactive⟩ := hrun
    refine ⟨h, hruns _ h hh, hactive, fun hsafe => ?_⟩
    have honce := hsafe.once
    rw [hactive] at honce
    revert honce
    decide
  · have hrun : ∃ h ∈ checkedRun step (fun _ _ => True)
        [.call (.disableIrq 1), .taken 4, .returns] (start ready),
        h.disabled 1 = true ∧ h.ints.masked 1 = false := by decide
    obtain ⟨h, hh, hdisabled, hclear⟩ := hrun
    refine ⟨h, hruns _ h hh, hdisabled, hclear, fun hsafe => ?_⟩
    rw [hsafe.disabled 1 hdisabled] at hclear
    contradiction

end Handlers

end DiegOS.Platform
