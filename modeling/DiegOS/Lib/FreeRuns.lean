import Mathlib.Algebra.Order.BigOperators.Group.List
import Mathlib.Algebra.Order.Ring.Nat
import Mathlib.Data.List.TakeWhile
import Mathlib.Tactic.Common

/-!
# Free runs of cells

Memory that is cut into cells with headers.  Free cells that follow each other can become one,
which also takes their headers; the memory that is to be had is that of the maximal runs.

Main results:

- Theorem `fits_merge_iff`: after the merging a size fits in a cell exactly if a maximal run
  of free cells offered it before.
- Theorem `live_merge`: the cells in use stay.
- Theorem `freeSum_merge`: the free memory grows by the headers that disappear.
-/

namespace DiegOS.Lib

/-- A cell: the address of its header, the memory behind it, and whether it is free. -/
structure Cell where
  pointer : Nat
  size : Nat
  free : Bool
deriving DecidableEq

namespace Cell

variable {header n : Nat} {c d : Cell} {l l' frees rest run : List Cell}

/-- A free cell takes a free one that follows it. -/
def absorb (header : Nat) (c : Cell) : List Cell → List Cell
  | [] => [c]
  | d :: l =>
    if c.free && d.free then { c with size := c.size + header + d.size } :: l else c :: d :: l

/-- Free cells that follow each other become one. -/
def merge (header : Nat) (l : List Cell) : List Cell := l.foldr (absorb header) []

/-- There is a free cell of this size. -/
def Fits (n : Nat) (l : List Cell) : Prop := ∃ c ∈ l, c.free = true ∧ n ≤ c.size

/-- The memory of the free cells. -/
def freeSum (l : List Cell) : Nat := (l.map fun c => if c.free then c.size else 0).sum

/-- Free cells that follow each other, and no further one before or behind them. -/
def MaximalRun (l run : List Cell) : Prop :=
  run ≠ [] ∧ (∀ c ∈ run, c.free = true) ∧ ∃ pre suf, l = pre ++ run ++ suf ∧
    (∀ c ∈ pre.getLast?, c.free = false) ∧ ∀ c ∈ suf.head?, c.free = false

/-- What a run offers: the memory of its cells and all headers but the first. -/
def runSize (header : Nat) (run : List Cell) : Nat :=
  (run.map size).sum + header * (run.length - 1)

/-! ## The head of a list -/

lemma merge_live (hc : c.free = false) (l : List Cell) :
    merge header (c :: l) = c :: merge header l := by
  rw [merge, List.foldr_cons, ← merge]
  cases merge header l with
  | nil => rfl
  | cons d l => simp [absorb, hc]

/-- A list whose head is not free is not absorbed. -/
lemma absorb_of_head (header : Nat) (c : Cell) (hl : ∀ d ∈ l.head?, d.free = false) :
    absorb header c l = c :: l := by
  cases l with
  | nil => rfl
  | cons d l => simp [absorb, hl d (by simp)]

lemma head_merge (header : Nat) (hl : ∀ d ∈ l.head?, d.free = false) :
    ∀ d ∈ (merge header l).head?, d.free = false := by
  cases l with
  | nil => simp [merge]
  | cons c l =>
    have hc : c.free = false := hl c (by simp)
    rw [merge_live hc]
    exact hl

/-- A run at the head of a list becomes one cell. -/
lemma merge_run (header : Nat) (hc : c.free = true) (hfrees : ∀ d ∈ frees, d.free = true)
    (hrest : ∀ d ∈ rest.head?, d.free = false) :
    merge header (c :: (frees ++ rest)) =
      { c with size := runSize header (c :: frees) } :: merge header rest := by
  induction frees generalizing c with
  | nil =>
    have habsorb := absorb_of_head header c (head_merge header hrest)
    have hsize : runSize header [c] = c.size := by simp [runSize]
    rw [hsize]
    exact habsorb
  | cons d frees ih =>
    have hd : d.free = true := hfrees d (.head _)
    have htail := ih hd fun e he => hfrees e (List.mem_cons_of_mem d he)
    rw [merge, List.foldr_cons, ← merge, List.cons_append, htail, absorb, hc, hd]
    have hsize : runSize header (c :: d :: frees) =
        c.size + header + runSize header (d :: frees) := by
      simp only [runSize, List.map_cons, List.sum_cons, List.length_cons, Nat.add_sub_cancel,
        Nat.mul_add]
      omega
    rw [hsize]
    rfl

/-- A list is taken apart into cells in use and maximal runs. -/
lemma run_induction {P : List Cell → Prop} (hnil : P [])
    (hlive : ∀ c l, c.free = false → P l → P (c :: l))
    (hrun : ∀ c frees rest, c.free = true → (∀ d ∈ frees, d.free = true) →
      (∀ d ∈ rest.head?, d.free = false) → P rest → P (c :: (frees ++ rest)))
    (l : List Cell) : P l := by
  induction hn : l.length using Nat.strongRecOn generalizing l with
  | ind n ih =>
    cases l with
    | nil => exact hnil
    | cons c l =>
      subst hn
      cases hc : c.free with
      | false => exact hlive c l hc (ih l.length (Nat.lt_succ_self _) l rfl)
      | true =>
        have hsplit : l.takeWhile Cell.free ++ l.dropWhile Cell.free = l :=
          List.takeWhile_append_dropWhile
        have hlen : (l.dropWhile Cell.free).length < (c :: l).length := by
          have hle := (List.dropWhile_sublist Cell.free (l := l)).length_le
          rw [List.length_cons]
          omega
        rw [← hsplit]
        apply hrun c _ _ hc
        · intro d hd
          exact List.mem_takeWhile_imp hd
        · intro d hd
          have hhead := List.head?_dropWhile_not Cell.free l
          rw [Option.mem_def.mp hd] at hhead
          simpa using hhead
        · exact ih _ hlen _ rfl

/-! ## Maximal runs -/

lemma maximalRun_nil : ¬MaximalRun [] run := by
  rintro ⟨hne, -, pre, suf, heq, -⟩
  simp at heq
  exact hne heq.2.1

lemma maximalRun_live (hc : c.free = false) : MaximalRun (c :: l) run ↔ MaximalRun l run := by
  constructor
  · rintro ⟨hne, hfree, pre, suf, heq, hpre, hsuf⟩
    cases pre with
    | nil =>
      cases run with
      | nil => contradiction
      | cons d run =>
        rcases List.cons.inj heq with ⟨rfl, -⟩
        rw [hfree c List.mem_cons_self] at hc
        contradiction
    | cons e pre =>
      rcases List.cons.inj heq with ⟨rfl, rfl⟩
      refine ⟨hne, hfree, pre, suf, rfl, fun d hd => hpre d ?_, hsuf⟩
      rw [List.getLast?_cons, Option.mem_def.mp hd]
      simp
  · rintro ⟨hne, hfree, pre, suf, rfl, hpre, hsuf⟩
    refine ⟨hne, hfree, c :: pre, suf, rfl, fun d hd => ?_, hsuf⟩
    rw [List.getLast?_cons] at hd
    cases hlast : pre.getLast? with
    | none =>
      rw [hlast] at hd
      rcases Option.mem_def.mp hd with ⟨⟩
      exact hc
    | some e =>
      rw [hlast] at hd
      rcases Option.mem_def.mp hd with ⟨⟩
      exact hpre e hlast

lemma takeWhile_run (hfrees : ∀ d ∈ frees, d.free = true)
    (hrest : ∀ d ∈ rest.head?, d.free = false) : (frees ++ rest).takeWhile Cell.free = frees := by
  rw [List.takeWhile_append_of_pos hfrees]
  cases rest with
  | nil => simp
  | cons d rest => simp [hrest d (by simp)]

lemma maximalRun_run (hc : c.free = true) (hfrees : ∀ d ∈ frees, d.free = true)
    (hrest : ∀ d ∈ rest.head?, d.free = false) :
    MaximalRun (c :: (frees ++ rest)) run ↔ run = c :: frees ∨ MaximalRun rest run := by
  have hall : ∀ d ∈ c :: frees, d.free = true := List.forall_mem_cons.mpr ⟨hc, hfrees⟩
  rw [← List.cons_append]
  constructor
  · rintro ⟨hne, hfree, pre, suf, heq, hpre, hsuf⟩
    cases pre with
    | nil =>
      left
      have htake := takeWhile_run hall hrest
      rw [heq, List.nil_append, takeWhile_run hfree hsuf] at htake
      exact htake
    | cons e pre =>
      right
      rw [List.append_assoc] at heq
      rcases List.append_eq_append_iff.mp heq with ⟨k, hk, hrest'⟩ | ⟨k, hk, -⟩
      · refine ⟨hne, hfree, k, suf, by rw [hrest', List.append_assoc], fun d hd => ?_, hsuf⟩
        apply hpre d
        rw [hk, List.getLast?_append, Option.mem_def.mp hd]
        rfl
      · -- the cell before the run would be one of those at the head
        rcases List.eq_nil_or_concat (e :: pre) with h | ⟨init, d, h⟩
        · contradiction
        · have hd := hpre d (by rw [h]; simp)
          rw [hall d (by rw [hk, h]; simp)] at hd
          contradiction
  · intro h
    rcases h with rfl | ⟨hne, hfree, pre, suf, rfl, hpre, hsuf⟩
    · exact ⟨List.cons_ne_nil _ _, hall, [], rest, rfl, by simp, hrest⟩
    · refine ⟨hne, hfree, c :: frees ++ pre, suf, by simp, fun d hd => ?_, hsuf⟩
      cases pre with
      | nil =>
        cases run with
        | nil => contradiction
        | cons e run =>
          have he := hrest e (by simp)
          rw [hfree e List.mem_cons_self] at he
          contradiction
      | cons e pre =>
        apply hpre d
        rw [List.getLast?_append] at hd
        rw [List.getLast?_cons] at hd ⊢
        exact hd

/-! ## The merging -/

lemma fits_cons : Fits n (c :: l) ↔ (c.free = true ∧ n ≤ c.size) ∨ Fits n l := by
  simp [Fits]

/-- After the merging a size fits in a cell exactly if a maximal run offered it before. -/
theorem fits_merge_iff :
    Fits n (merge header l) ↔ ∃ run, MaximalRun l run ∧ n ≤ runSize header run := by
  induction l using run_induction with
  | hnil => simp [merge, Fits, maximalRun_nil]
  | hlive c l hc ih =>
    rw [merge_live hc, fits_cons, ih]
    simp [maximalRun_live hc, hc]
  | hrun c frees rest hc hfrees hrest ih =>
    rw [merge_run header hc hfrees hrest, fits_cons, ih]
    simp [maximalRun_run hc hfrees hrest, hc, or_and_right, exists_or]

/-- What fits in a cell fits after the merging. -/
lemma Fits.merge (h : Fits n l) : Fits n (Cell.merge header l) := by
  induction l using run_induction with
  | hnil => exact h
  | hlive c l hc ih =>
    rw [merge_live hc]
    rw [fits_cons] at h ⊢
    exact h.imp_right ih
  | hrun c frees rest hc hfrees hrest ih =>
    rw [merge_run header hc hfrees hrest, fits_cons]
    rcases h with ⟨d, hd, hfree, hn⟩
    rw [← List.cons_append] at hd
    rcases List.mem_append.mp hd with hd | hd
    · left
      refine ⟨hc, Nat.le_trans hn ?_⟩
      have hle := List.single_le_sum (fun _ _ => Nat.zero_le _) _
        (List.mem_map_of_mem (f := size) hd)
      exact Nat.le_trans hle (Nat.le_add_right ..)
    · right
      exact ih ⟨d, hd, hfree, hn⟩

/-- The cells in use stay. -/
theorem live_merge (header : Nat) (l : List Cell) :
    (merge header l).filter (fun c => !c.free) = l.filter fun c => !c.free := by
  induction l using run_induction with
  | hnil => rfl
  | hlive c l hc ih => simp [merge_live hc, hc, ih]
  | hrun c frees rest hc hfrees hrest ih =>
    have hnone : frees.filter (fun d => !d.free) = [] :=
      List.filter_eq_nil_iff.mpr fun d hd => by simp [hfrees d hd]
    simp [merge_run header hc hfrees hrest, hc, ih, hnone]

@[simp] lemma freeSum_nil : freeSum [] = 0 := rfl

lemma freeSum_free (hc : c.free = true) (l : List Cell) :
    freeSum (c :: l) = c.size + freeSum l := by
  simp [freeSum, hc]

lemma freeSum_live (hc : c.free = false) (l : List Cell) : freeSum (c :: l) = freeSum l := by
  simp [freeSum, hc]

lemma freeSum_append (l l' : List Cell) : freeSum (l ++ l') = freeSum l + freeSum l' := by
  simp [freeSum]

lemma freeSum_middle (l l' : List Cell) (c : Cell) :
    freeSum (l ++ c :: l') = freeSum (l ++ l') + freeSum [c] := by
  rw [freeSum_append, freeSum_append, ← List.singleton_append, freeSum_append]
  omega

lemma freeSum_run (hfrees : ∀ d ∈ frees, d.free = true) : freeSum frees = (frees.map size).sum := by
  unfold freeSum
  rw [List.map_congr_left fun d hd => if_pos (hfrees d hd)]

/-- The free memory grows by the headers that disappear. -/
theorem freeSum_merge (header : Nat) (l : List Cell) :
    freeSum (merge header l) + header * (merge header l).length =
      freeSum l + header * l.length := by
  induction l using run_induction with
  | hnil => rfl
  | hlive c l hc ih =>
    rw [merge_live hc, freeSum_live hc, freeSum_live hc, List.length_cons, List.length_cons,
      Nat.mul_succ, Nat.mul_succ]
    omega
  | hrun c frees rest hc hfrees hrest ih =>
    have hsize : runSize header (c :: frees) =
        c.size + freeSum frees + header * frees.length := by
      rw [freeSum_run hfrees]
      simp [runSize]
    have hmerged : freeSum (merge header (c :: (frees ++ rest))) =
        runSize header (c :: frees) + freeSum (merge header rest) := by
      simp [merge_run header hc hfrees hrest, freeSum, hc]
    rw [hmerged, merge_run header hc hfrees hrest, freeSum_free hc, freeSum_append, hsize]
    simp only [List.length_cons, List.length_append, Nat.mul_succ, Nat.mul_add]
    omega

end Cell
end DiegOS.Lib
