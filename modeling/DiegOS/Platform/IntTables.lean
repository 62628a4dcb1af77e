import DiegOS.Lib.Runs
import Mathlib.Logic.Function.Basic
import Mathlib.Tactic.SplitIfs

/-!
# Interrupt and exception callbacks

The tables `int_table` and `exc_table` of `interrupts.c` in a memory of words,
`idt_init`, and the four calls that put handlers into the tables and take them out.  The
entry points in assembler call through the tables without a check.

Main results:

- Theorem `kept_iff`: what a call does to the tables is right exactly if it does not put
  `NULL` into a free slot and `del_exc_cb` does not find a handler behind its table.
- Theorem `tables_callable_iff`: the same for all calls of a run.
-/

namespace DiegOS.Platform.IntTables

open Lib Function

def EOK : Int := 0

def EINVAL : Int := -22

def MAX_INT : Nat := 64

def MAX_EXC : Nat := 20

/-- The memory, word by word. -/
abbrev Words := Nat → UInt32

/-- Where the tables are, in words, and the addresses of the handlers in `interrupts.c`. -/
structure Image where
  intTable : Nat
  excTable : Nat
  defaultIntCb : UInt32
  defaultExceptionHandler : UInt32
  exc0Handler : UInt32
  exc6Handler : UInt32
  exc8Handler : UInt32
  exc11Handler : UInt32
  exc12Handler : UInt32
  exc13Handler : UInt32
  apart : intTable + MAX_INT ≤ excTable ∨ excTable + MAX_EXC ≤ intTable
  nonzero : 0 ∉ [defaultIntCb, defaultExceptionHandler, exc0Handler, exc6Handler, exc8Handler,
    exc11Handler, exc12Handler, exc13Handler]

/-! ## The code -/

/-- The loop that fills a table. -/
def fillTable (table : Nat) (cb : UInt32) : Nat → Words → Words
  | 0, m => m
  | n + 1, m => Function.update (fillTable table cb n m) (table + n) cb

/-- `idt_init`, without the table of the processor. -/
def idtInit (g : Image) (m : Words) : Words :=
  let m := fillTable g.intTable g.defaultIntCb MAX_INT m
  let m := fillTable g.excTable g.defaultExceptionHandler MAX_EXC m
  let m := Function.update m (g.excTable + 0) g.exc0Handler
  let m := Function.update m (g.excTable + 6) g.exc6Handler
  let m := Function.update m (g.excTable + 8) g.exc8Handler
  let m := Function.update m (g.excTable + 11) g.exc11Handler
  let m := Function.update m (g.excTable + 12) g.exc12Handler
  Function.update m (g.excTable + 13) g.exc13Handler

/-- What `add_int_cb` and `add_exc_cb` do with an index. -/
def addCb (table limit : Nat) (default cb : UInt32) (m : Words) (i : UInt32) : Int × Words :=
  if limit ≤ i.toNat then (EINVAL, m)
  else if m (table + i.toNat) ≠ 0 ∧ m (table + i.toNat) ≠ default then (EINVAL, m)
  else (EOK, Function.update m (table + i.toNat) cb)

/-- What `del_int_cb` and `del_exc_cb` do with an index. -/
def delCb (table limit : Nat) (default : UInt32) (m : Words) (i : UInt32) : Int × Words :=
  if limit ≤ i.toNat then (EINVAL, m)
  else if m (table + i.toNat) ≠ 0 then (EOK, Function.update m (table + i.toNat) default)
  else (EOK, m)

def addIntCb (g : Image) (m : Words) (cb intno : UInt32) : Int × Words :=
  if intno < 32 then (EINVAL, m)
  else addCb g.intTable MAX_INT g.defaultIntCb cb m (intno - 32)

def delIntCb (g : Image) (m : Words) (intno : UInt32) : Int × Words :=
  if intno < 32 then (EINVAL, m)
  else delCb g.intTable MAX_INT g.defaultIntCb m (intno - 32)

def addExcCb (g : Image) (m : Words) (cb exc : UInt32) : Int × Words :=
  addCb g.excTable MAX_EXC g.defaultExceptionHandler cb m exc

/-- `del_exc_cb`, whose limit is that of the other table. -/
def delExcCb (g : Image) (m : Words) (exc : UInt32) : Int × Words :=
  delCb g.excTable MAX_INT g.defaultExceptionHandler m exc

/-- A call with its arguments. -/
inductive Call where
  | addInt (cb intno : UInt32)
  | delInt (intno : UInt32)
  | addExc (cb exc : UInt32)
  | delExc (exc : UInt32)
deriving DecidableEq

/-- The result of a call and the memory behind it. -/
def call (g : Image) (m : Words) : Call → Int × Words
  | .addInt cb intno => addIntCb g m cb intno
  | .delInt intno => delIntCb g m intno
  | .addExc cb exc => addExcCb g m cb exc
  | .delExc exc => delExcCb g m exc

/-- The memory behind a call. -/
def step (g : Image) (m : Words) (c : Call) : Words := (call g m c).2

/-! ## What is claimed of a call -/

/-- No slot of the tables holds `NULL`. -/
structure Callable (g : Image) (m : Words) : Prop where
  int : ∀ i < MAX_INT, m (g.intTable + i) ≠ 0
  exc : ∀ i < MAX_EXC, m (g.excTable + i) ≠ 0

/-- The slot that the number of a call denotes, if there is one. -/
def slot (g : Image) : Call → Option Nat
  | .addInt _ intno | .delInt intno =>
    if 32 ≤ intno.toNat ∧ intno.toNat < 32 + MAX_INT then some (g.intTable + (intno.toNat - 32))
    else none
  | .addExc _ exc | .delExc exc =>
    if exc.toNat < MAX_EXC then some (g.excTable + exc.toNat) else none

/-- The default handler of the table that a call is about. -/
def defaultOf (g : Image) : Call → UInt32
  | .addInt _ _ | .delInt _ => g.defaultIntCb
  | .addExc _ _ | .delExc _ => g.defaultExceptionHandler

/-- The callback of a call that adds one. -/
def added : Call → Option UInt32
  | .addInt cb _ | .addExc cb _ => some cb
  | .delInt _ | .delExc _ => none

/-- The call that adds a callback where another call deletes one. -/
def addAgain (cb : UInt32) : Call → Call
  | .addInt _ intno | .delInt intno => .addInt cb intno
  | .addExc _ exc | .delExc exc => .addExc cb exc

/-- What is claimed of a call. -/
structure Kept (g : Image) (m : Words) (c : Call) : Prop where
  callable : Callable g (step g m c)
  frame : ∀ a, step g m c a ≠ m a → slot g c = some a
  occupied : ∀ cb a, added c = some cb → slot g c = some a → m a ≠ defaultOf g c →
    (call g m c).1 = EINVAL ∧ step g m c = m
  free : ∀ a, added c = none → slot g c = some a → ∀ cb,
    call g (step g m c) (addAgain cb c) = (EOK, Function.update (step g m c) a cb)

/-- A call does not put `NULL` into a free slot, and `del_exc_cb` finds nothing to replace
behind its table. -/
def Meets (g : Image) (m : Words) : Call → Prop
  | .addInt cb intno => cb = 0 → ∀ a, slot g (.addInt cb intno) = some a → m a ≠ g.defaultIntCb
  | .delInt _ => True
  | .addExc cb exc =>
    cb = 0 → ∀ a, slot g (.addExc cb exc) = some a → m a ≠ g.defaultExceptionHandler
  | .delExc exc => exc.toNat < MAX_EXC ∨ MAX_INT ≤ exc.toNat ∨ m (g.excTable + exc.toNat) = 0 ∨
      m (g.excTable + exc.toNat) = g.defaultExceptionHandler

variable {g : Image} {m : Words} {c : Call} {a : Nat} {cb : UInt32}

/-! ## The calls by the slot they denote -/

lemma not_lt_vector {intno : UInt32} : ¬intno < 32 ↔ 32 ≤ intno.toNat := by
  rw [UInt32.lt_iff_toNat_lt]
  exact Nat.not_lt

lemma toNat_sub_vector {intno : UInt32} (h : 32 ≤ intno.toNat) :
    (intno - 32).toNat = intno.toNat - 32 :=
  UInt32.toNat_sub_of_le intno 32 (UInt32.le_iff_toNat_le.mpr h)

lemma slot_int {intno : UInt32} {a : Nat}
    (h : (if 32 ≤ intno.toNat ∧ intno.toNat < 32 + MAX_INT then
      some (g.intTable + (intno.toNat - 32)) else none) = some a) :
    ¬intno < 32 ∧ ¬MAX_INT ≤ (intno - 32).toNat ∧ g.intTable + (intno - 32).toNat = a := by
  obtain ⟨⟨hlow, hhigh⟩, heq⟩ := (Option.ite_none_right_eq_some).mp h
  rw [toNat_sub_vector hlow]
  exact ⟨not_lt_vector.mpr hlow, by omega, Option.some.inj heq⟩

lemma slot_exc {exc : UInt32} {a : Nat}
    (h : (if exc.toNat < MAX_EXC then some (g.excTable + exc.toNat) else none) = some a) :
    ¬MAX_EXC ≤ exc.toNat ∧ g.excTable + exc.toNat = a := by
  obtain ⟨hlt, heq⟩ := (Option.ite_none_right_eq_some).mp h
  exact ⟨by omega, Option.some.inj heq⟩

/-- A call that adds a callback, on the slot it denotes. -/
lemma call_add (hadd : added c = some cb) (hslot : slot g c = some a) :
    call g m c = if m a ≠ 0 ∧ m a ≠ defaultOf g c then (EINVAL, m)
      else (EOK, update m a cb) := by
  cases c with
  | addInt cb intno =>
    cases hadd
    obtain ⟨hlow, hlimit, rfl⟩ := slot_int hslot
    rw [call, addIntCb, if_neg hlow, addCb, if_neg hlimit]
    rfl
  | addExc cb exc =>
    cases hadd
    obtain ⟨hlimit, rfl⟩ := slot_exc hslot
    rw [call, addExcCb, addCb, if_neg hlimit]
    rfl
  | delInt intno | delExc exc => cases hadd

/-- A call that deletes a callback, on the slot it denotes. -/
lemma call_del (hdel : added c = none) (hslot : slot g c = some a) :
    call g m c = if m a ≠ 0 then (EOK, update m a (defaultOf g c)) else (EOK, m) := by
  cases c with
  | addInt cb intno | addExc cb exc => cases hdel
  | delInt intno =>
    obtain ⟨hlow, hlimit, rfl⟩ := slot_int hslot
    rw [call, delIntCb, if_neg hlow, delCb, if_neg hlimit]
    rfl
  | delExc exc =>
    obtain ⟨hlimit, rfl⟩ := slot_exc hslot
    have hlimit' : ¬MAX_INT ≤ exc.toNat := by
      rw [MAX_INT]
      rw [MAX_EXC] at hlimit
      omega
    rw [call, delExcCb, delCb, if_neg hlimit']
    rfl

/-- A call whose number denotes no slot fails, but for `del_exc_cb`. -/
lemma call_none (hslot : slot g c = none) (hexc : ∀ exc, c ≠ .delExc exc) :
    call g m c = (EINVAL, m) := by
  have hint : ∀ intno : UInt32, ¬(32 ≤ intno.toNat ∧ intno.toNat < 32 + MAX_INT) →
      ¬intno < 32 → MAX_INT ≤ (intno - 32).toNat := by
    intro intno hnot hlow
    rw [not_lt_vector] at hlow
    rw [toNat_sub_vector hlow]
    omega
  cases c with
  | addInt cb intno =>
    rw [call, addIntCb]
    split_ifs with hlow
    · rfl
    · rw [addCb, if_pos (hint intno (by simpa [slot] using hslot) hlow)]
  | delInt intno =>
    rw [call, delIntCb]
    split_ifs with hlow
    · rfl
    · rw [delCb, if_pos (hint intno (by simpa [slot] using hslot) hlow)]
  | addExc cb exc =>
    rw [call, addExcCb, addCb, if_pos]
    simpa [slot] using hslot
  | delExc exc => exact absurd rfl (hexc exc)

/-! ## The tables -/

/-- The slot of a call is in one of the tables. -/
lemma slot_mem (hslot : slot g c = some a) :
    (∃ i < MAX_INT, g.intTable + i = a) ∨ ∃ i < MAX_EXC, g.excTable + i = a := by
  cases c with
  | addInt cb intno | delInt intno =>
    obtain ⟨-, hlimit, ha⟩ := slot_int hslot
    exact .inl ⟨_, by omega, ha⟩
  | addExc cb exc | delExc exc =>
    obtain ⟨hlimit, ha⟩ := slot_exc hslot
    exact .inr ⟨_, by omega, ha⟩

lemma Callable.slot_ne (h : Callable g m) (hslot : slot g c = some a) : m a ≠ 0 := by
  rcases slot_mem hslot with ⟨i, hi, rfl⟩ | ⟨i, hi, rfl⟩
  · exact h.int i hi
  · exact h.exc i hi

lemma Callable.update (h : Callable g m) (a : Nat) (hcb : cb ≠ 0) :
    Callable g (update m a cb) := by
  constructor
  · intro i hi
    rw [update_apply]
    split_ifs
    · exact hcb
    · exact h.int i hi
  · intro i hi
    rw [update_apply]
    split_ifs
    · exact hcb
    · exact h.exc i hi

lemma Image.default_ne (g : Image) (c : Call) : defaultOf g c ≠ 0 := by
  have hnonzero := g.nonzero
  intro h
  apply hnonzero
  cases c with
  | addInt cb intno | delInt intno => exact List.mem_cons.mpr (.inl h.symm)
  | addExc cb exc | delExc exc =>
    exact .tail _ (List.mem_cons.mpr (.inl h.symm))

lemma fillTable_apply (table : Nat) (cb : UInt32) (n : Nat) (m : Words) (a : Nat) :
    fillTable table cb n m a = if table ≤ a ∧ a < table + n then cb else m a := by
  induction n with
  | zero => rw [fillTable, if_neg (by omega)]
  | succ n ih =>
    rw [fillTable, update_apply, ih]
    by_cases heq : a = table + n
    · rw [if_pos heq, if_pos (by omega)]
    · rw [if_neg heq]
      by_cases hin : table ≤ a ∧ a < table + n
      · rw [if_pos hin, if_pos (by omega)]
      · rw [if_neg hin, if_neg (by omega)]

/-- The tables behind `idt_init`. -/
lemma callable_idtInit (g : Image) (m : Words) : Callable g (idtInit g m) := by
  have hne : ∀ cb ∈ [g.defaultIntCb, g.defaultExceptionHandler, g.exc0Handler, g.exc6Handler,
      g.exc8Handler, g.exc11Handler, g.exc12Handler, g.exc13Handler], cb ≠ 0 :=
    fun cb hcb h => g.nonzero (h ▸ hcb)
  simp only [List.forall_mem_cons] at hne
  obtain ⟨hint, hexc, h0, h6, h8, h11, h12, h13, -⟩ := hne
  have hfilled : Callable g (fillTable g.excTable g.defaultExceptionHandler MAX_EXC
      (fillTable g.intTable g.defaultIntCb MAX_INT m)) := by
    constructor
    · intro i hi
      rw [fillTable_apply, fillTable_apply]
      split_ifs with hin hin'
      · exact hexc
      · exact hint
      · omega
    · intro i hi
      rw [fillTable_apply, if_pos (by omega)]
      exact hexc
  exact (((((hfilled.update _ h0).update _ h6).update _ h8).update _ h11).update _ h12).update _ h13

/-! ## Calls and runs -/

lemma slot_addAgain (cb : UInt32) (c : Call) : slot g (addAgain cb c) = slot g c := by
  cases c with
  | addInt cb' intno | delInt intno | addExc cb' exc | delExc exc => rfl

lemma defaultOf_addAgain (cb : UInt32) (c : Call) :
    defaultOf g (addAgain cb c) = defaultOf g c := by
  cases c with
  | addInt cb' intno | delInt intno | addExc cb' exc | delExc exc => rfl

lemma added_addAgain (cb : UInt32) (c : Call) : added (addAgain cb c) = some cb := by
  cases c with
  | addInt cb' intno | delInt intno | addExc cb' exc | delExc exc => rfl

lemma Meets.of_add (hadd : added c = some cb) :
    Meets g m c ↔ (cb = 0 → ∀ a, slot g c = some a → m a ≠ defaultOf g c) := by
  cases c with
  | addInt cb' intno | addExc cb' exc =>
    cases hadd
    rfl
  | delInt intno | delExc exc => cases hadd

section

variable (hm : Callable g m)
include hm

/-- A call that changes nothing since its number denotes no slot. -/
lemma Kept.of_none (hstep : step g m c = m) (hslot : slot g c = none) :
    Kept g m c where
  callable := by rw [hstep]; exact hm
  frame a h := absurd (by rw [hstep]) h
  occupied cb a _ h := by rw [hslot] at h; cases h
  free a _ h := by rw [hslot] at h; cases h

/-- A call that deletes a callback from the slot it denotes. -/
lemma Kept.of_del (hdel : added c = none) (hslot : slot g c = some a) :
    Kept g m c := by
  have hcall := call_del (m := m) hdel hslot
  rw [if_pos (hm.slot_ne hslot)] at hcall
  have hstep : step g m c = update m a (defaultOf g c) := by rw [step, hcall]
  constructor
  · rw [hstep]
    exact hm.update a (g.default_ne c)
  · intro b hb
    rw [hstep] at hb
    rw [hslot]
    refine congrArg some (Classical.not_not.mp fun hne => hb ?_)
    rw [update_of_ne (Ne.symm hne)]
  · intro cb b hadd
    rw [hdel] at hadd
    cases hadd
  · intro b _ hb cb
    obtain rfl : a = b := Option.some.inj (hslot.symm.trans hb)
    rw [call_add (added_addAgain cb c) ((slot_addAgain cb c).trans hslot), if_neg]
    rw [hstep, update_self, defaultOf_addAgain]
    exact fun h => h.2 rfl

/-- A call that adds a callback to the slot it denotes. -/
lemma Kept.of_add_iff (hadd : added c = some cb) (hslot : slot g c = some a) :
    Kept g m c ↔ (cb = 0 → m a ≠ defaultOf g c) := by
  have hcall := call_add (m := m) hadd hslot
  by_cases hdefault : m a = defaultOf g c
  · rw [if_neg fun h => h.2 hdefault] at hcall
    have hstep : step g m c = update m a cb := by rw [step, hcall]
    constructor
    · intro h hzero
      have hne := h.callable.slot_ne hslot
      rw [hstep, update_self] at hne
      exact absurd hzero hne
    · intro h
      have hcb : cb ≠ 0 := fun hzero => h hzero hdefault
      constructor
      · rw [hstep]
        exact hm.update a hcb
      · intro b hb
        rw [hstep] at hb
        rw [hslot]
        refine congrArg some (Classical.not_not.mp fun hne => hb ?_)
        rw [update_of_ne (Ne.symm hne)]
      · intro cb' b _ hb hne
        obtain rfl : a = b := Option.some.inj (hslot.symm.trans hb)
        exact absurd hdefault hne
      · intro b hdel
        rw [hadd] at hdel
        cases hdel
  · rw [if_pos ⟨hm.slot_ne hslot, hdefault⟩] at hcall
    have hstep : step g m c = m := by rw [step, hcall]
    refine iff_of_true ?_ fun _ => hdefault
    constructor
    · rw [hstep]
      exact hm
    · exact fun b hb => absurd (by rw [hstep]) hb
    · exact fun cb' b _ _ _ => ⟨by rw [hcall], hstep⟩
    · intro b hdel
      rw [hadd] at hdel
      cases hdel

/-- `del_exc_cb` behind its table is right exactly if it changes nothing. -/
lemma Kept.delExc_iff {exc : UInt32} (hexc : ¬exc.toNat < MAX_EXC) :
    Kept g m (.delExc exc) ↔ Meets g m (.delExc exc) := by
  have hslot : slot g (.delExc exc) = none := if_neg hexc
  have hstep : step g m (.delExc exc) = if MAX_INT ≤ exc.toNat then m
      else if m (g.excTable + exc.toNat) ≠ 0 then
        update m (g.excTable + exc.toNat) g.defaultExceptionHandler
      else m := by
    rw [step, call, delExcCb, delCb]
    split_ifs <;> rfl
  rw [Meets, or_iff_right hexc]
  constructor
  · intro h
    by_cases hlimit : MAX_INT ≤ exc.toNat
    · exact .inl hlimit
    · refine .inr ?_
      by_cases hzero : m (g.excTable + exc.toNat) = 0
      · exact .inl hzero
      · -- the word would be replaced, and no number denotes it
        refine .inr (Classical.not_not.mp fun hne => ?_)
        rw [if_neg hlimit, if_pos hzero] at hstep
        have hframe := h.frame (g.excTable + exc.toNat) (by
          rw [hstep, update_self]
          exact Ne.symm hne)
        rw [hslot] at hframe
        cases hframe
  · intro h
    refine Kept.of_none hm ?_ hslot
    rw [hstep]
    split_ifs with hlimit hzero
    · rfl
    · have heq := (h.resolve_left hlimit).resolve_left hzero
      rw [← heq, update_eq_self]
    · rfl

/-- A call is right exactly if it does not put `NULL` into a free slot and finds nothing to
replace behind the tables. -/
theorem kept_iff (c : Call) : Kept g m c ↔ Meets g m c := by
  cases hadded : added c with
  | some cb =>
    rw [Meets.of_add hadded]
    cases hslot : slot g c with
    | some a =>
      rw [Kept.of_add_iff hm hadded hslot]
      constructor
      · intro h hzero b hb
        exact Option.some.inj hb ▸ h hzero
      · exact fun h hzero => h hzero a rfl
    | none =>
      have hcall : call g m c = (EINVAL, m) :=
        call_none hslot (by rintro exc rfl; cases hadded)
      refine iff_of_true (Kept.of_none hm (by rw [step, hcall]) hslot) ?_
      intro _ a ha
      cases ha
  | none =>
    cases hslot : slot g c with
    | some a =>
      refine iff_of_true (Kept.of_del hm hadded hslot) ?_
      cases c with
      | addInt cb intno | addExc cb exc => cases hadded
      | delInt intno => trivial
      | delExc exc =>
        have hlimit := (slot_exc hslot).1
        exact .inl (by omega)
    | none =>
      cases c with
      | addInt cb intno | addExc cb exc => cases hadded
      | delInt intno =>
        have hcall : call g m (.delInt intno) = (EINVAL, m) := call_none hslot nofun
        exact iff_of_true (Kept.of_none hm (by rw [step, hcall]) hslot) trivial
      | delExc exc => exact Kept.delExc_iff hm (by simpa [slot] using hslot)

end

/-- The tables stay callable, and all calls of a run are right, exactly if none of them puts
`NULL` into a free slot or finds a handler to replace behind the tables. -/
theorem tables_callable_iff (g : Image) (m : Words) (calls : List Call) :
    Callable g (idtInit g m) ∧
      (Along (step g) (Kept g) (idtInit g m) calls ↔
        Along (step g) (Meets g) (idtInit g m) calls) := by
  have hinit := callable_idtInit g m
  refine ⟨hinit, fun h => ?_, fun h => ?_⟩
  · exact Along.of_invariant (fun m c hm hkept => ⟨hkept.callable, (kept_iff hm c).mp hkept⟩)
      calls hinit h
  · refine Along.of_invariant (fun m c hm hmeets => ?_) calls hinit h
    have hkept := (kept_iff hm c).mpr hmeets
    exact ⟨hkept.callable, hkept⟩

/-- Both tables one behind the other, and eight handlers. -/
def smallImage : Image where
  intTable := 100
  excTable := 200
  defaultIntCb := 1
  defaultExceptionHandler := 2
  exc0Handler := 3
  exc6Handler := 4
  exc8Handler := 5
  exc11Handler := 6
  exc12Handler := 7
  exc13Handler := 8
  apart := Or.inl (by decide)
  nonzero := by decide

/-- `add_int_cb(NULL, 32)` and `del_exc_cb(20)` with a word behind the table. -/
theorem tables_broken :
    ¬Along (step smallImage) (Kept smallImage) (idtInit smallImage fun _ => 9) [.addInt 0 32] ∧
      ¬Along (step smallImage) (Kept smallImage) (idtInit smallImage fun _ => 9) [.delExc 20] := by
  constructor
  · intro h
    exact h.1.callable.int 0 (by decide) (by decide)
  · intro h
    have hframe := h.1.frame 220 (by decide)
    cases hframe

end DiegOS.Platform.IntTables
