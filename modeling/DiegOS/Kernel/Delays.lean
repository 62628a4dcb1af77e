import Mathlib.Algebra.Group.Nat.Defs
import Mathlib.Tactic.SplitIfs

/-!
# Calibration of delays

`calibrate_delay` on a machine whose tick function and delay loop are given.  A machine has a
speed if its ticks never stop and a delay loop right after a tick spans the next one exactly from
some number of loops on.

Main results:

- Theorem `bisectLoop_spec`: the second phase ends at the greatest number of loops that do not
  span a tick.
- Theorem `calibrateDelay_converges`: the calibration ends with it, or with the greatest value.
-/

namespace DiegOS.Kernel.Delays

/-! ## The code -/

/-- What the calibration sees of a machine. -/
structure Machine (σ : Type) where
  tickfn : σ → BitVec 32 × σ
  delayLoop : BitVec 32 → σ → σ

def BASE_VALUE : BitVec 32 := 1#32 <<< 6

section Code

variable {σ : Type} (m : Machine σ)

/-- Wait for the tick to be updated. -/
def waitTick : Nat → BitVec 32 → σ → Option σ
  | 0, _, _ => none
  | fuel + 1, oldticks, s =>
    if oldticks = (m.tickfn s).1 then waitTick fuel oldticks (m.tickfn s).2
    else some (m.tickfn s).2

/-- A delay right after a tick: whether `tickfn` has changed behind it. -/
def delayChanges (fuel : Nat) (loops : BitVec 32) (s : σ) : Option (Bool × σ) :=
  (waitTick m fuel (m.tickfn s).1 (m.tickfn s).2).map fun s =>
    let (oldticks, s) := m.tickfn s
    let (ticks, s) := m.tickfn (m.delayLoop loops s)
    (oldticks ≠ ticks, s)

/-- The first loop of `calibrate_delay`. -/
def doublingLoop (fuel : Nat) : Nat → BitVec 32 → σ → Option (BitVec 32 × σ)
  | 0, _, _ => none
  | rounds + 1, finder, s =>
    if finder = 0 then some (0, s)
    else
      (delayChanges m fuel finder s).bind fun (changed, s) =>
        if changed then some (finder, s) else doublingLoop fuel rounds (finder <<< 1) s

/-- The second loop of `calibrate_delay`. -/
def bisectLoop (fuel : Nat) : Nat → BitVec 32 → BitVec 32 → σ → Option (BitVec 32 × σ)
  | 0, _, _, _ => none
  | rounds + 1, finder, delta, s =>
    if delta = 0 then some (finder, s)
    else
      (delayChanges m fuel (finder + delta) s).bind fun (changed, s) =>
        bisectLoop fuel rounds (if changed then finder + delta - delta else finder + delta)
          (delta >>> 1) s

/-- `calibrate_delay`: what `loops_per_msec` is set to. -/
def calibrateDelay (fuel : Nat) (s : σ) : Option (BitVec 32 × σ) :=
  (doublingLoop m fuel fuel BASE_VALUE s).bind fun (finder, s) =>
    if finder = 0 then some (-1, s)
    else
      let finder := finder >>> 1
      bisectLoop m fuel fuel finder (finder >>> 1) s

end Code

/-! ## The speed of a machine -/

section Speed

variable {σ : Type} {m : Machine σ} {T : Nat} {s s' : σ}

/-- The readings of the tick function, one after the other. -/
def reading (m : Machine σ) : Nat → σ → BitVec 32
  | 0, s => (m.tickfn s).1
  | n + 1, s => reading m n (m.tickfn s).2

/-- The last two readings were different. -/
def AfterTick (m : Machine σ) (s : σ) : Prop :=
  ∃ before, (m.tickfn before).1 ≠ (m.tickfn (m.tickfn before).2).1 ∧
    s = (m.tickfn (m.tickfn before).2).2

/-- Right after a tick, a delay spans the next tick exactly from so many loops on. -/
structure Speed (m : Machine σ) (T : Nat) : Prop where
  ticks : ∀ s, ∃ n, reading m n s ≠ reading m 0 s
  spans : ∀ s, AfterTick m s → ∀ loops : BitVec 32,
    (m.tickfn s).1 ≠ (m.tickfn (m.delayLoop loops (m.tickfn s).2)).1 ↔ T ≤ loops.toNat

/-- The wait ends right after a tick. -/
lemma waitTick_spec {n : Nat} (h : reading m (n + 1) s ≠ (m.tickfn s).1) :
    ∃ s', AfterTick m s' ∧
      ∀ fuel, n < fuel → waitTick m fuel (m.tickfn s).1 (m.tickfn s).2 = some s' := by
  induction n generalizing s with
  | zero =>
    refine ⟨_, ⟨s, Ne.symm h, rfl⟩, fun fuel hfuel => ?_⟩
    obtain ⟨fuel, rfl⟩ : ∃ k, fuel = k + 1 := ⟨fuel - 1, by omega⟩
    exact if_neg (Ne.symm h)
  | succ n ih =>
    by_cases hsame : (m.tickfn s).1 = (m.tickfn (m.tickfn s).2).1
    · rw [hsame] at h
      obtain ⟨s', hafter, hrun⟩ := ih h
      refine ⟨s', hafter, fun fuel hfuel => ?_⟩
      obtain ⟨fuel, rfl⟩ : ∃ k, fuel = k + 1 := ⟨fuel - 1, by omega⟩
      rw [waitTick, if_pos hsame, hsame]
      exact hrun fuel (by omega)
    · refine ⟨_, ⟨s, hsame, rfl⟩, fun fuel hfuel => ?_⟩
      obtain ⟨fuel, rfl⟩ : ∃ k, fuel = k + 1 := ⟨fuel - 1, by omega⟩
      exact if_neg hsame

section

variable (h : Speed m T)
include h

/-- A delay is compared with the speed of the machine. -/
lemma Speed.delayChanges (loops : BitVec 32) (s : σ) :
    ∃ s' n, ∀ fuel ≥ n,
      Delays.delayChanges m fuel loops s = some (decide (T ≤ loops.toNat), s') := by
  obtain ⟨n, hn⟩ := h.ticks s
  cases n with
  | zero => exact absurd rfl hn
  | succ n =>
    obtain ⟨s', hafter, hrun⟩ := waitTick_spec hn
    refine ⟨(m.tickfn (m.delayLoop loops (m.tickfn s').2)).2, n + 1, fun fuel hfuel => ?_⟩
    rw [Delays.delayChanges, hrun fuel hfuel, Option.map_some]
    simp only [h.spans s' hafter loops]

/-- One round of the first loop. -/
lemma Speed.doublingLoop_succ {finder : BitVec 32} (hne : finder ≠ 0) (s : σ) :
    ∃ s' n, ∀ fuel ≥ n, ∀ rounds, doublingLoop m fuel (rounds + 1) finder s =
      if T ≤ finder.toNat then some (finder, s')
      else doublingLoop m fuel rounds (finder <<< 1) s' := by
  obtain ⟨s', n, hprobe⟩ := h.delayChanges finder s
  refine ⟨s', n, fun fuel hfuel rounds => ?_⟩
  rw [doublingLoop, if_neg hne, hprobe fuel hfuel, Option.bind_some]
  simp only [decide_eq_true_eq]

/-- One round of the second loop. -/
lemma Speed.bisectLoop_succ (finder : BitVec 32) {delta : BitVec 32}
    (hne : delta ≠ 0) (s : σ) :
    ∃ s' n, ∀ fuel ≥ n, ∀ rounds, bisectLoop m fuel (rounds + 1) finder delta s =
      bisectLoop m fuel rounds (if T ≤ (finder + delta).toNat then finder else finder + delta)
        (delta >>> 1) s' := by
  obtain ⟨s', n, hprobe⟩ := h.delayChanges (finder + delta) s
  refine ⟨s', n, fun fuel hfuel rounds => ?_⟩
  rw [bisectLoop, if_neg hne, hprobe fuel hfuel, Option.bind_some]
  simp only [decide_eq_true_eq, BitVec.add_sub_cancel]

/-- The second phase ends at the greatest number of loops that do not span a tick.  The induction
is on the logarithm of the interval. -/
theorem bisectLoop_spec {j : Nat} {finder delta : BitVec 32}
    (hlow : finder.toNat < T) (hhigh : T ≤ finder.toNat + 2 ^ j) (hdelta : delta.toNat = 2 ^ j / 2)
    (hfit : finder.toNat + 2 ^ j ≤ 2 ^ 31) (s : σ) :
    ∃ s' n, ∀ fuel ≥ n, ∀ rounds, j < rounds →
      bisectLoop m fuel rounds finder delta s = some (BitVec.ofNat 32 (T - 1), s') := by
  induction j generalizing finder delta s with
  | zero =>
    have hzero : delta = 0 := BitVec.eq_of_toNat_eq hdelta
    have hfinder : finder = BitVec.ofNat 32 (T - 1) := by
      refine BitVec.eq_of_toNat_eq ?_
      rw [BitVec.toNat_ofNat]
      omega
    refine ⟨s, 0, fun fuel _ rounds hrounds => ?_⟩
    obtain ⟨rounds, rfl⟩ : ∃ k, rounds = k + 1 := ⟨rounds - 1, by omega⟩
    rw [bisectLoop, if_pos hzero, hfinder]
  | succ j ih =>
    rw [Nat.pow_succ] at hhigh hdelta hfit
    rw [Nat.mul_div_cancel _ (by decide)] at hdelta
    have hpos : 0 < 2 ^ j := Nat.pow_pos (by decide)
    have hne : delta ≠ 0 := fun hzero => by
      rw [hzero] at hdelta
      exact absurd hdelta (Nat.ne_of_lt hpos)
    have hsum : (finder + delta).toNat = finder.toNat + 2 ^ j := by
      rw [BitVec.toNat_add, hdelta]
      omega
    have hhalf : (delta >>> 1).toNat = 2 ^ j / 2 := by
      rw [BitVec.toNat_ushiftRight, hdelta, Nat.shiftRight_one]
    obtain ⟨s₁, n₁, hround⟩ := h.bisectLoop_succ finder hne s
    have hnext : ∃ s' n, ∀ fuel ≥ n, ∀ rounds, j < rounds →
        bisectLoop m fuel rounds (if T ≤ (finder + delta).toNat then finder else finder + delta)
          (delta >>> 1) s₁ = some (BitVec.ofNat 32 (T - 1), s') := by
      split_ifs with hspans
      · exact ih hlow (by omega) hhalf (by omega) s₁
      · exact ih (by omega) (by omega) hhalf (by omega) s₁
    obtain ⟨s', n₂, hrest⟩ := hnext
    refine ⟨s', n₁ + n₂, fun fuel hfuel rounds hrounds => ?_⟩
    obtain ⟨rounds, rfl⟩ : ∃ k, rounds = k + 1 := ⟨rounds - 1, by omega⟩
    rw [hround fuel (by omega)]
    exact hrest fuel (by omega) rounds (by omega)

/-- The first phase ends at the first power of two that spans a tick, or at zero.  The induction is
on the number of shifts that are left. -/
lemma doublingLoop_spec {k : Nat} (hk : k ≤ 31) {finder : BitVec 32}
    (hfinder : finder.toNat = 2 ^ k) (hlow : 2 ^ k < 2 * T) (s : σ) :
    ∃ finder' s' n, (∀ fuel ≥ n, ∀ rounds, 32 - k < rounds →
        doublingLoop m fuel rounds finder s = some (finder', s')) ∧
      (finder' = 0 ∧ 2 ^ 31 < T ∨
        ∃ l ≤ 31, finder'.toNat = 2 ^ l ∧ 2 ^ l < 2 * T ∧ T ≤ 2 ^ l) := by
  induction hleft : 31 - k generalizing k finder s with
  | zero =>
    obtain rfl : k = 31 := by omega
    have hne : finder ≠ 0 := fun hzero => by simp [hzero] at hfinder
    obtain ⟨s₁, n, hround⟩ := h.doublingLoop_succ hne s
    by_cases hspans : T ≤ finder.toNat
    · refine ⟨finder, s₁, n, fun fuel hfuel rounds hrounds => ?_,
        .inr ⟨31, Nat.le_refl _, hfinder, hlow, hfinder ▸ hspans⟩⟩
      obtain ⟨rounds, rfl⟩ : ∃ k, rounds = k + 1 := ⟨rounds - 1, by omega⟩
      rw [hround fuel hfuel, if_pos hspans]
    · -- the last bit is shifted out
      have hzero : finder <<< 1 = 0 := by
        refine BitVec.eq_of_toNat_eq ?_
        rw [BitVec.toNat_shiftLeft, hfinder]
        rfl
      refine ⟨0, s₁, n, fun fuel hfuel rounds hrounds => ?_, .inl ⟨rfl, by omega⟩⟩
      obtain ⟨rounds, rfl⟩ : ∃ k, rounds = k + 2 := ⟨rounds - 2, by omega⟩
      rw [hround fuel hfuel, if_neg hspans, hzero]
      rfl
  | succ d ih =>
    have hpow : 2 ^ (k + 1) = 2 * 2 ^ k := by rw [Nat.pow_succ, Nat.mul_comm]
    have hpos : 0 < 2 ^ k := Nat.pow_pos (by decide)
    have hfit : 2 ^ (k + 1) ≤ 2 ^ 31 := Nat.pow_le_pow_right (by decide) (by omega)
    have hne : finder ≠ 0 := fun hzero => by
      rw [hzero] at hfinder
      exact absurd hfinder (Nat.ne_of_lt hpos)
    obtain ⟨s₁, n₁, hround⟩ := h.doublingLoop_succ hne s
    by_cases hspans : T ≤ finder.toNat
    · refine ⟨finder, s₁, n₁, fun fuel hfuel rounds hrounds => ?_,
        .inr ⟨k, hk, hfinder, hlow, hfinder ▸ hspans⟩⟩
      obtain ⟨rounds, rfl⟩ : ∃ k, rounds = k + 1 := ⟨rounds - 1, by omega⟩
      rw [hround fuel hfuel, if_pos hspans]
    · have hdouble : (finder <<< 1).toNat = 2 ^ (k + 1) := by
        rw [BitVec.toNat_shiftLeft, hfinder, Nat.shiftLeft_eq, hpow]
        omega
      obtain ⟨finder', s', n₂, hrest, hend⟩ :=
        ih (k := k + 1) (by omega) hdouble (by omega) s₁ (by omega)
      refine ⟨finder', s', n₁ + n₂, fun fuel hfuel rounds hrounds => ?_, hend⟩
      obtain ⟨rounds, rfl⟩ : ∃ k, rounds = k + 1 := ⟨rounds - 1, by omega⟩
      rw [hround fuel (by omega), if_neg hspans]
      exact hrest fuel (by omega) rounds (by omega)

end

/-- The calibration comes to an end.  If the first number of loops that spans a tick does not exceed
the greatest power of two, `loops_per_msec` is one less, and the greatest value otherwise. -/
theorem calibrateDelay_converges (h : Speed m T) (hT : 64 < T) (s : σ) :
    ∃ s' n, ∀ fuel ≥ n, calibrateDelay m fuel s =
      some (if T ≤ 2 ^ 31 then BitVec.ofNat 32 (T - 1) else -1, s') := by
  have hbase : BASE_VALUE.toNat = 2 ^ 6 := rfl
  obtain ⟨finder, s₁, n₁, hdoubling, hend⟩ := doublingLoop_spec h (by decide) hbase (by omega) s
  rcases hend with ⟨rfl, hbig⟩ | ⟨l, hl, hfinder, hlow, hhigh⟩
  · refine ⟨s₁, n₁ + 27, fun fuel hfuel => ?_⟩
    rw [calibrateDelay, hdoubling fuel (by omega) fuel (by omega), Option.bind_some,
      if_neg (Nat.not_le.mpr hbig)]
    rfl
  · have hfit : 2 ^ l ≤ 2 ^ 31 := Nat.pow_le_pow_right (by decide) hl
    obtain ⟨l, rfl⟩ : ∃ k, l = k + 1 := by
      cases l with
      | zero => omega
      | succ l => exact ⟨l, rfl⟩
    rw [Nat.pow_succ] at hfinder hlow hhigh hfit
    have hpos : 0 < 2 ^ l := Nat.pow_pos (by decide)
    have hne : finder ≠ 0 := fun hzero => by
      rw [hzero, show (0 : BitVec 32).toNat = 0 from rfl] at hfinder
      omega
    have hhalf : (finder >>> 1).toNat = 2 ^ l := by
      rw [BitVec.toNat_ushiftRight, hfinder, Nat.shiftRight_one, Nat.mul_div_cancel _ (by decide)]
    have hquarter : (finder >>> 1 >>> 1).toNat = 2 ^ l / 2 := by
      rw [BitVec.toNat_ushiftRight, hhalf, Nat.shiftRight_one]
    obtain ⟨s', n₂, hbisect⟩ := bisectLoop_spec h (j := l)
      (show (finder >>> 1).toNat < T by omega) (by omega) hquarter (by omega) s₁
    refine ⟨s', n₁ + n₂ + 32, fun fuel hfuel => ?_⟩
    rw [calibrateDelay, hdoubling fuel (by omega) fuel (by omega), Option.bind_some,
      if_pos (by omega)]
    exact (if_neg hne).trans (hbisect fuel (by omega) fuel (by omega))

end Speed

/-- A machine whose state is the time: a reading takes one unit, a loop another one. -/
def clockMachine (period : Nat) : Machine Nat where
  tickfn := fun s => (BitVec.ofNat 32 (s / period), s + 1)
  delayLoop := fun loops s => s + loops.toNat

lemma reading_clockMachine (period n s : Nat) :
    reading (clockMachine period) n s = BitVec.ofNat 32 ((s + n) / period) := by
  induction n generalizing s with
  | zero => rfl
  | succ n ih => exact (ih (s + 1)).trans (by rw [Nat.add_assoc, Nat.add_comm 1 n])

/-- Two readings of one unit each are in front of the delay. -/
lemma clockMachine_speed {T : Nat} (hT : 0 < T) : Speed (clockMachine (T + 2)) T := by
  constructor
  · intro s
    refine ⟨T + 2, fun heq => ?_⟩
    rw [reading_clockMachine, reading_clockMachine, Nat.add_div_right s (by omega), Nat.add_zero,
      ← BitVec.toNat_inj, BitVec.toNat_ofNat, BitVec.toNat_ofNat] at heq
    generalize s / (T + 2) = ticks at heq
    omega
  · rintro s ⟨before, hchange, rfl⟩ loops
    have hbound := loops.isLt
    -- a tick has started with the second reading
    have hstart : (T + 2) ∣ before + 1 := by
      refine Decidable.byContradiction fun hnot => hchange (congrArg (BitVec.ofNat 32) ?_)
      exact (Nat.succ_div_of_not_dvd hnot).symm
    obtain ⟨q, hq⟩ := hstart
    have hnow : (before + 1 + 1) / (T + 2) = q := by
      rw [hq, Nat.mul_add_div (by omega), Nat.div_eq_of_lt (by omega), Nat.add_zero]
    have hlater :
        (before + 1 + 1 + 1 + loops.toNat) / (T + 2) = q + (2 + loops.toNat) / (T + 2) := by
      rw [hq, Nat.add_assoc, Nat.add_assoc, Nat.mul_add_div (by omega), ← Nat.add_assoc]
    have hfew : (2 + loops.toNat) / (T + 2) < 2 ^ 32 := by
      rw [Nat.div_lt_iff_lt_mul (by omega)]
      omega
    have hspans : T ≤ loops.toNat ↔ (2 + loops.toNat) / (T + 2) ≠ 0 := by
      rw [Nat.div_ne_zero_iff]
      omega
    change BitVec.ofNat 32 ((before + 1 + 1) / (T + 2)) ≠
      BitVec.ofNat 32 ((before + 1 + 1 + 1 + loops.toNat) / (T + 2)) ↔ _
    rw [hnow, hlater, hspans, ne_eq, ← BitVec.toNat_inj, BitVec.toNat_ofNat, BitVec.toNat_ofNat]
    clear hlater hspans
    generalize (2 + loops.toNat) / (T + 2) = ticks at hfew ⊢
    omega

theorem calibrateDelay_clock : ∃ s' n, ∀ fuel ≥ n,
    calibrateDelay (clockMachine 1002) fuel 0 = some (999, s') :=
  calibrateDelay_converges (clockMachine_speed (T := 1000) (by decide)) (by decide) 0

end DiegOS.Kernel.Delays
