import DiegOS.Lib.Runs
import Mathlib.Tactic

/-!
# Interrupt flag and interrupt masks

The routines of `ints.s` on the interrupt flag of the processor, the counter
`locked` and the masks of the two interrupt controllers, with the calls
`enable_int` and `disable_int` of `interrupts.c`.

Main results:

- Theorem `masked_enableIrq` and theorem `masked_disableIrq`: which line a routine
  is about.
- Theorem `lock_contract`: the interrupts stay off between the outermost pair of calls
  exactly if no line is enabled or disabled there.
- Theorem `lock_contract_broken`: what a line enabled inside does.
-/

namespace DiegOS.Platform

/-- The number of interrupt lines. -/
abbrev NR_IRQ_VECTORS : Nat := 16

/-- The interrupt flag, the counter of `lock` and the masks at `INT_CTLMASK` and
`INT2_CTLMASK`. -/
structure Ints where
  interruptFlag : Bool
  locked : BitVec 32
  ctlMask : BitVec 8
  ctl2Mask : BitVec 8
deriving DecidableEq, Repr

namespace Ints

def lock (s : Ints) : Ints := { s with interruptFlag := false, locked := s.locked + 1 }

def unlock (s : Ints) : Ints :=
  if s.locked = 0 then s
  else if s.locked - 1 = 0 then { s with interruptFlag := true, locked := s.locked - 1 }
  else { s with locked := s.locked - 1 }

/-- The number in `cl`. -/
def cl (irq : BitVec 32) : Nat := irq.toNat % 256

def enableIrq (s : Ints) (irq : BitVec 32) : Ints :=
  let ah := (~~~1#8).rotateLeft (cl irq % 32)
  if cl irq < 8 then { s with interruptFlag := true, ctlMask := s.ctlMask &&& ah }
  else { s with interruptFlag := true, ctl2Mask := s.ctl2Mask &&& ah }

/-- `disable_irq`; true if the line was not disabled yet. -/
def disableIrq (s : Ints) (irq : BitVec 32) : Ints × Bool :=
  let ah := (1#8).rotateLeft (cl irq % 32)
  if cl irq < 8 then
    if s.ctlMask &&& ah ≠ 0 then ({ s with interruptFlag := true }, false)
    else ({ s with interruptFlag := true, ctlMask := s.ctlMask ||| ah }, true)
  else
    if s.ctl2Mask &&& ah ≠ 0 then ({ s with interruptFlag := true }, false)
    else ({ s with interruptFlag := true, ctl2Mask := s.ctl2Mask ||| ah }, true)

/-! ## Lines -/

/-- The mask bit of a line is set; the lines from 8 on are those of the second controller. -/
def masked (s : Ints) (n : Fin NR_IRQ_VECTORS) : Bool :=
  if n.val < 8 then s.ctlMask.getLsbD n.val else s.ctl2Mask.getLsbD (n.val - 8)

/-- The line that `enable_irq` and `disable_irq` are about. -/
def line (irq : BitVec 32) : Fin NR_IRQ_VECTORS :=
  if h : cl irq < 8 then ⟨cl irq, by unfold NR_IRQ_VECTORS; omega⟩
  else ⟨8 + cl irq % 8, by unfold NR_IRQ_VECTORS; omega⟩

/-- The bit that stays clear when all others are set and the byte is rotated. -/
lemma rotated_zero : ∀ c < 32, ∀ i < 8,
    ((~~~1#8).rotateLeft c).getLsbD i = decide (i ≠ c % 8) := by decide

lemma rotated_one : ∀ c < 32, ∀ i < 8,
    ((1#8).rotateLeft c).getLsbD i = decide (i = c % 8) := by decide

lemma line_val (irq : BitVec 32) :
    (line irq).val = if cl irq < 8 then cl irq else 8 + cl irq % 8 := by
  unfold line
  split <;> simp [*]

lemma line_eq_iff (irq : BitVec 32) (n : Fin NR_IRQ_VECTORS) :
    n = line irq ↔ (n.val < 8 ↔ cl irq < 8) ∧ n.val % 8 = cl irq % 8 := by
  have hn : n.val < 16 := n.isLt
  rw [Fin.ext_iff, line_val]
  split <;> omega

/-- The byte that `enable_irq` writes. -/
lemma and_rotated (mask : BitVec 8) (irq : BitVec 32) {i : Nat} (hi : i < 8) :
    (mask &&& (~~~1#8).rotateLeft (cl irq % 32)).getLsbD i =
      (mask.getLsbD i && decide (i ≠ cl irq % 8)) := by
  have hmod : cl irq % 32 % 8 = cl irq % 8 := by omega
  rw [BitVec.getLsbD_and, rotated_zero _ (Nat.mod_lt _ (by decide)) i hi, hmod]

/-- The byte that `disable_irq` writes. -/
lemma or_rotated (mask : BitVec 8) (irq : BitVec 32) {i : Nat} (hi : i < 8) :
    (mask ||| (1#8).rotateLeft (cl irq % 32)).getLsbD i =
      (mask.getLsbD i || decide (i = cl irq % 8)) := by
  have hmod : cl irq % 32 % 8 = cl irq % 8 := by omega
  rw [BitVec.getLsbD_or, rotated_one _ (Nat.mod_lt _ (by decide)) i hi, hmod]

/-- A bit that `disable_irq` finds set is the bit of the line. -/
lemma already_set {mask : BitVec 8} {irq : BitVec 32}
    (h : mask &&& (1#8).rotateLeft (cl irq % 32) ≠ 0) : mask.getLsbD (cl irq % 8) = true := by
  have hmod : cl irq % 32 % 8 = cl irq % 8 := by omega
  by_contra hclear
  apply h
  apply BitVec.eq_of_getLsbD_eq
  intro i hi
  rw [BitVec.getLsbD_and, rotated_one _ (Nat.mod_lt _ (by decide)) i hi, hmod]
  by_cases hic : i = cl irq % 8
  · subst hic
    simpa using hclear
  · simp [hic]

/-- `enable_irq` clears the bit of one line. -/
theorem masked_enableIrq (s : Ints) (irq : BitVec 32) (n : Fin NR_IRQ_VECTORS) :
    (s.enableIrq irq).masked n = (s.masked n && decide (n ≠ line irq)) := by
  have hn : n.val < 16 := n.isLt
  have hline := line_eq_iff irq n
  unfold enableIrq masked
  dsimp only
  by_cases hcl : cl irq < 8
  · rw [if_pos hcl]
    by_cases hlow : n.val < 8
    · have heq : n.val % 8 = n.val := Nat.mod_eq_of_lt hlow
      rw [if_pos hlow, if_pos hlow, and_rotated _ _ hlow]
      simp [hline, hlow, hcl, heq]
    · simp [hline, hlow, hcl]
  · rw [if_neg hcl]
    by_cases hlow : n.val < 8
    · simp [hline, hlow, hcl]
    · have heq : n.val % 8 = n.val - 8 := by omega
      rw [if_neg hlow, if_neg hlow, and_rotated _ _ (by omega)]
      simp [hline, hlow, hcl, heq]

/-- `disable_irq` sets the bit of one line. -/
theorem masked_disableIrq (s : Ints) (irq : BitVec 32) (n : Fin NR_IRQ_VECTORS) :
    (s.disableIrq irq).1.masked n = (s.masked n || decide (n = line irq)) := by
  have hn : n.val < 16 := n.isLt
  have hline := line_eq_iff irq n
  unfold disableIrq masked
  dsimp only
  by_cases hcl : cl irq < 8
  · rw [if_pos hcl]
    by_cases hlow : n.val < 8
    · have heq : n.val % 8 = n.val := Nat.mod_eq_of_lt hlow
      rw [if_pos hlow, if_pos hlow]
      split
      · next hset =>
          have hbit := already_set hset
          by_cases hsame : n.val = cl irq % 8
          · rw [← hsame] at hbit
            simp [hbit]
          · simp [hline, hlow, hcl, hsame, heq]
      · dsimp only
        rw [or_rotated _ _ hlow]
        simp [hline, hlow, hcl, heq]
    · rw [if_neg hlow, if_neg hlow]
      split <;> simp [hline, hlow, hcl]
  · rw [if_neg hcl]
    by_cases hlow : n.val < 8
    · rw [if_pos hlow, if_pos hlow]
      split <;> simp [hline, hlow, hcl]
    · have heq : n.val % 8 = n.val - 8 := by omega
      rw [if_neg hlow, if_neg hlow]
      split
      · next hset =>
          have hbit := already_set hset
          by_cases hsame : n.val - 8 = cl irq % 8
          · rw [← hsame] at hbit
            simp [hbit]
          · simp [hline, hlow, hcl, hsame, heq]
      · dsimp only
        rw [or_rotated _ _ (by omega)]
        simp [hline, hlow, hcl, heq]

/-! ## Nested calls -/

/-- The calls of `interrupts.h` and of `ints.s`. -/
inductive Call where
  | lock | unlock
  | enableIrq (irq : BitVec 32)
  | disableIrq (irq : BitVec 32)
deriving DecidableEq, Repr

/-- What a call does. -/
def call (s : Ints) : Call → Ints
  | .lock => s.lock
  | .unlock => s.unlock
  | .enableIrq irq => s.enableIrq irq
  | .disableIrq irq => (s.disableIrq irq).1

/-- What a sequence of calls does. -/
def calls (s : Ints) (l : List Call) : Ints := l.foldl call s

/-- The number of unmatched `lock` calls after a call; `unlock` has no effect if there
are none. -/
def nest (depth : Nat) : Call → Nat
  | .lock => depth + 1
  | .unlock => depth - 1
  | .enableIrq _ | .disableIrq _ => depth

/-- The number of unmatched `lock` calls. -/
def depth (l : List Call) : Nat := l.foldl nest 0

/-- The call changes the mask of a line. -/
def Call.isIrq : Call → Bool
  | .enableIrq _ | .disableIrq _ => true
  | .lock | .unlock => false

/-- No interrupt line was touched and nothing was locked. -/
def start (interruptFlag : Bool) (ctlMask ctl2Mask : BitVec 8) : Ints :=
  ⟨interruptFlag, 0, ctlMask, ctl2Mask⟩

/-- After every call with unmatched `lock` calls the interrupts are off, and of the calls made
inside exactly the `unlock` that matches the outermost `lock` turns them on. -/
def Contract (s : Ints) (l : List Call) : Prop :=
  ∀ before c after, l = before ++ c :: after →
    (0 < depth (before ++ [c]) → (s.calls (before ++ [c])).interruptFlag = false) ∧
    (0 < depth before →
      ((s.calls (before ++ [c])).interruptFlag = true ↔ c = .unlock ∧ depth before = 1))

/-- The counter has a bit pattern for every depth that is reached. -/
def Countable (l : List Call) : Prop :=
  ∀ before after, l = before ++ after → depth before < 2 ^ 32

/-- No line is enabled or disabled inside. -/
def IrqOutside (l : List Call) : Prop :=
  ∀ before c after, l = before ++ c :: after → c.isIrq = true → depth before = 0

lemma calls_append (s : Ints) (l : List Call) (c : Call) :
    s.calls (l ++ [c]) = (s.calls l).call c := by
  simp [calls]

lemma depth_append (l : List Call) (c : Call) : depth (l ++ [c]) = nest (depth l) c := by
  simp [depth]

lemma call_locked_irq (s : Ints) {c : Call} (hc : c.isIrq = true) :
    (s.call c).locked = s.locked ∧ (s.call c).interruptFlag = true := by
  cases c with
  | lock | unlock => contradiction
  | enableIrq irq =>
    unfold call enableIrq
    dsimp only
    split <;> exact ⟨rfl, rfl⟩
  | disableIrq irq =>
    unfold call disableIrq
    dsimp only
    split <;> split <;> exact ⟨rfl, rfl⟩

/-- One call keeps the counter right. -/
lemma call_locked {s : Ints} {d : Nat} (hd : d < 2 ^ 32) (hs : s.locked = BitVec.ofNat 32 d)
    (c : Call) (hnext : nest d c < 2 ^ 32) : (s.call c).locked = BitVec.ofNat 32 (nest d c) := by
  by_cases hirq : c.isIrq = true
  · rw [(call_locked_irq s hirq).1, hs]
    cases c <;> first | contradiction | rfl
  · cases c with
    | lock =>
      change s.locked + 1 = BitVec.ofNat 32 (d + 1)
      rw [hs]
      apply BitVec.eq_of_toNat_eq
      simp
    | unlock =>
      have hzero : s.locked = 0 ↔ d = 0 := by
        rw [hs, ← BitVec.toNat_inj, BitVec.toNat_ofNat, Nat.mod_eq_of_lt hd]
        rfl
      change s.unlock.locked = BitVec.ofNat 32 (d - 1)
      unfold unlock
      by_cases hd0 : d = 0
      · rw [if_pos (hzero.mpr hd0), hs, hd0]
      · rw [if_neg (mt hzero.mp hd0)]
        have hsub : s.locked - 1 = BitVec.ofNat 32 (d - 1) := by
          apply BitVec.eq_of_toNat_eq
          rw [hs]
          simp
          omega
        split <;> exact hsub
    | enableIrq irq | disableIrq irq => exact absurd rfl hirq

/-- The counter is the number of unmatched calls. -/
lemma calls_locked {f : Bool} {m m' : BitVec 8} (l : List Call) (hcount : Countable l) :
    ((start f m m').calls l).locked = BitVec.ofNat 32 (depth l) := by
  induction l using List.reverseRecOn with
  | nil => rfl
  | append_singleton l c ih =>
    have hfront : Countable l := by
      intro before after heq
      exact hcount before (after ++ [c]) (by rw [heq, List.append_assoc])
    have hd : depth l < 2 ^ 32 := hcount l [c] rfl
    have hnext : nest (depth l) c < 2 ^ 32 := by
      rw [← depth_append]
      exact hcount (l ++ [c]) [] (by simp)
    rw [calls_append, depth_append]
    exact call_locked hd (ih hfront) c hnext

/-- Between the outermost pair of calls the interrupts are off. -/
lemma flag_off {f : Bool} {m m' : BitVec 8} (l : List Call) (hcount : Countable l)
    (hout : IrqOutside l) : 0 < depth l → ((start f m m').calls l).interruptFlag = false := by
  induction l using List.reverseRecOn with
  | nil => exact fun h => absurd h (Nat.lt_irrefl 0)
  | append_singleton l c ih =>
    have hfront : Countable l := by
      intro before after heq
      exact hcount before (after ++ [c]) (by rw [heq, List.append_assoc])
    have hout' : IrqOutside l := by
      intro before c' after heq
      exact hout before c' (after ++ [c]) (by rw [heq, List.append_assoc]; rfl)
    intro hpos
    rw [depth_append] at hpos
    rw [calls_append]
    by_cases hirq : c.isIrq = true
    · have hzero := hout l c [] rfl hirq
      cases c <;> first | contradiction | simp [nest, hzero] at hpos
    · cases c with
      | lock => rfl
      | unlock =>
        have hdepth : 1 < depth l := by
          change 0 < depth l - 1 at hpos
          omega
        have hoff := ih hfront hout' (Nat.lt_of_lt_of_le Nat.one_pos hdepth.le)
        have hd : depth l < 2 ^ 32 := hcount l [.unlock] rfl
        have hlocked := @calls_locked f m m' l hfront
        have hne : ((start f m m').calls l).locked - 1 ≠ 0 := by
          rw [hlocked, ne_eq, ← BitVec.toNat_inj]
          simp
          omega
        change ((start f m m').calls l).unlock.interruptFlag = false
        unfold unlock
        split
        · exact hoff
        · exact hoff
      | enableIrq irq | disableIrq irq => exact absurd rfl hirq

/-- Inside, only the `unlock` that matches the outermost `lock` turns them on. -/
lemma flag_on_iff {f : Bool} {m m' : BitVec 8} (l : List Call) (c : Call)
    (hcount : Countable l) (hout : IrqOutside (l ++ [c])) (hpos : 0 < depth l) :
    ((start f m m').calls (l ++ [c])).interruptFlag = true ↔ c = .unlock ∧ depth l = 1 := by
  have hout' : IrqOutside l := by
    intro before c' after heq
    exact hout before c' (after ++ [c]) (by rw [heq, List.append_assoc]; rfl)
  have hoff := @flag_off f m m' l hcount hout' hpos
  have hd : depth l < 2 ^ 32 := hcount l [] (by simp)
  rw [calls_append]
  by_cases hirq : c.isIrq = true
  · exact absurd (hout l c [] rfl hirq) (Nat.ne_of_gt hpos)
  · cases c with
    | lock => simp [call, lock]
    | unlock =>
      have hlocked := @calls_locked f m m' l hcount
      have hne : ((start f m m').calls l).locked ≠ 0 := by
        rw [hlocked, ne_eq, ← BitVec.toNat_inj, BitVec.toNat_ofNat, Nat.mod_eq_of_lt hd]
        exact Nat.ne_of_gt hpos
      have hone : ((start f m m').calls l).locked - 1 = 0 ↔ depth l = 1 := by
        rw [hlocked, ← BitVec.toNat_inj]
        simp
        omega
      change ((start f m m').calls l).unlock.interruptFlag = true ↔ _
      unfold unlock
      rw [if_neg hne]
      by_cases h1 : depth l = 1
      · rw [if_pos (hone.mpr h1)]
        simp [h1]
      · rw [if_neg (mt hone.mp h1)]
        simp [h1, hoff]
    | enableIrq irq | disableIrq irq => exact absurd rfl hirq

/-- The contract of `lock` and `unlock` holds exactly if no interrupt line is enabled or
disabled between them. -/
theorem lock_contract (f : Bool) (m m' : BitVec 8) (l : List Call) (hcount : Countable l) :
    Contract (start f m m') l ↔ IrqOutside l := by
  constructor
  · intro hcontract before c after heq hirq
    by_contra hne
    obtain ⟨hoff, -⟩ := hcontract before c after heq
    have hdepth : depth (before ++ [c]) = depth before := by
      rw [depth_append]
      cases c <;> first | contradiction | rfl
    have hflag := hoff (by rw [hdepth]; exact Nat.pos_of_ne_zero hne)
    rw [calls_append, (call_locked_irq _ hirq).2] at hflag
    contradiction
  · intro hout before c after heq
    have hcount₁ : Countable before := by
      intro b a hba
      exact hcount b (a ++ c :: after) (by rw [heq, hba, List.append_assoc])
    have hcount₂ : Countable (before ++ [c]) := by
      intro b a hba
      refine hcount b (a ++ after) ?_
      rw [heq, ← List.append_assoc, ← hba, List.append_assoc]
      rfl
    have hout₂ : IrqOutside (before ++ [c]) := by
      intro b c' a hba
      refine hout b c' (a ++ after) ?_
      rw [heq, ← List.cons_append, ← List.append_assoc, ← hba, List.append_assoc]
      rfl
    exact ⟨flag_off _ hcount₂ hout₂, flag_on_iff before c hcount₁ hout₂⟩

lemma depth_le_length (l : List Call) : depth l ≤ l.length := by
  induction l using List.reverseRecOn with
  | nil => exact Nat.le_refl 0
  | append_singleton l c ih =>
    rw [depth_append, List.length_append, List.length_singleton]
    cases c <;> simp only [nest] <;> omega

/-- A short sequence cannot count too far. -/
lemma countable_of_length {l : List Call} (h : l.length < 2 ^ 32) : Countable l := by
  intro before after heq
  have hle := depth_le_length before
  have hlen : before.length ≤ l.length := by
    rw [heq, List.length_append]
    exact Nat.le_add_right _ _
  omega

theorem lock_contract_nested :
    Contract (start true 0 0) [.enableIrq 4, .lock, .lock, .unlock, .unlock, .unlock] := by
  refine (lock_contract true 0 0 _ (countable_of_length (by decide))).mpr ?_
  rintro (_ | ⟨a, _ | ⟨b, before⟩⟩) c after heq hirq
  · rfl
  · simp only [List.cons_append, List.nil_append, List.cons.injEq] at heq
    rw [← heq.2.1] at hirq
    contradiction
  · simp only [List.cons_append, List.cons.injEq] at heq
    have hmem : c ∈ [Call.lock, .unlock, .unlock, .unlock] := by
      rw [heq.2.2]
      simp
    simp only [List.mem_cons, List.not_mem_nil, or_false] at hmem
    rcases hmem with rfl | rfl | rfl | rfl <;> contradiction

/-- A line that is enabled after `lock` turns the interrupts on. -/
theorem lock_contract_broken : ¬Contract (start true 0 0) [.lock, .enableIrq 4] := by
  intro hcontract
  have hoff := (hcontract [.lock] (.enableIrq 4) [] rfl).1 (by decide)
  revert hoff
  decide

end Ints

end DiegOS.Platform
