import DiegOS.Fat.Names
import DiegOS.Lib.WhileLoops
import Mathlib.Data.List.GetD
import Mathlib.Logic.Function.Basic

/-!
# Splitting a path in place

`FAT_parse_directory` by positions: two indices run over the path, and the names are
written to a block of memory that grows by eight names whenever it is full.

Main results:

- Theorem `fatBuildDIRNameAt_spec`: what is written for one name.
- Theorem `Scanned.round`: what one pass of the loop does.
- Theorem `parse_directory_splits`: the names of a path, and that no write leaves the block.
- Theorem `fatParseDirectoryAt_refines`: these are the names that `fatParseDirectory` gives.
-/

namespace DiegOS.Fat

open Lib (runFor)

/-! ## Writing names -/

/-- The block `splits` points to, and whether every write so far was inside it. -/
structure Splits where
  size : Nat
  cells : Nat → UInt8
  inside : Bool

namespace Splits

/-- `splits[i] = c` -/
def write (b : Splits) (i : Nat) (c : UInt8) : Splits :=
  { b with cells := Function.update b.cells i c, inside := b.inside && i < b.size }

/-- Writes from a position on. -/
def fill (b : Splits) (i : Nat) : List UInt8 → Splits
  | [] => b
  | c :: cs => (b.write i c).fill (i + 1) cs

/-- The first bytes of the block. -/
def bytes (b : Splits) (n : Nat) : List UInt8 := (List.range n).map b.cells

end Splits

/-- The first loop of `FAT_build_DIR_name`; the position it ends at, unless a character is not
legal. -/
def nameLoop (output : Nat) : List UInt8 → Nat → Splits → Splits × Option Nat
  | [], pos, b => (b, some pos)
  | c :: cs, pos, b =>
    if check c then (b.write output 0, none)
    else nameLoop output cs (pos + 1) (b.write (output + pos) (toupper c))

/-- The second loop of `FAT_build_DIR_name`, with `n` blanks to go. -/
def padLoop (output : Nat) : Nat → Nat → Splits → Splits
  | 0, _, b => b
  | n + 1, pos, b => padLoop output n (pos + 1) (b.write (output + pos) 0x20)

/-- `FAT_build_DIR_name` with its output at a position of the block. -/
def fatBuildDIRNameAt (name : List UInt8) (output : Nat) (b : Splits) : Splits × Int :=
  if DIR_NAMELEN < name.length then (b, -1)
  else
    match nameLoop output name 0 b with
    | (b, none) => (b, -1)
    | (b, some pos) => (padLoop output (DIR_NAMELEN - pos) pos b, 0)

/-! ## Scanning the path -/

/-- `while ((i < dirlen) && test(directory[i])) i++;` -/
def scanWhile (test : UInt8 → Bool) (directory : List UInt8) : Nat → Nat → Nat
  | 0, i => i
  | n + 1, i =>
    if i < directory.length ∧ test (directory.getD i 0) = true then
      scanWhile test directory n (i + 1)
    else i

/-- The variables of `FAT_parse_directory`. -/
structure SplitScan where
  startpos : Nat
  splitNum : Nat
  splitMax : Nat
  splits : Splits

/-- What `FAT_parse_directory` returns and leaves in `split_dir`.  Apart from it, whether
every write was inside the block. -/
structure Parsed where
  retval : Int
  splits : Option Splits
  numsplits : Nat
  inside : Bool

/-- The names are left to the caller. -/
def SplitScan.success (s : SplitScan) : Parsed := ⟨0, some s.splits, s.splitNum, s.splits.inside⟩

/-- The block is released. -/
def Splits.failure (b : Splits) : Parsed := ⟨-1, none, 0, b.inside⟩

/-- One pass of the loop of `FAT_parse_directory`; `alloc` says which requests for memory
are granted. -/
def parseRound (alloc : Nat → Bool) (directory : List UInt8) (s : SplitScan) :
    SplitScan ⊕ Parsed :=
  if s.startpos < directory.length then
    let startpos := scanWhile (· == separator) directory directory.length s.startpos
    if startpos = directory.length then .inr s.success
    else
      let endpos := scanWhile (· != separator) directory directory.length (startpos + 1)
      if DIR_NAMELEN < endpos - startpos then .inr s.splits.failure
      else
        let output := s.splitNum * DIR_NAMELEN % UInt32.size
        match fatBuildDIRNameAt ((directory.drop startpos).take (endpos - startpos)) output
            s.splits with
        | (b, retval) =>
          if retval ≠ 0 then .inr b.failure
          else if s.splitNum + 1 = s.splitMax then
            let size := (s.splitMax + 8) * DIR_NAMELEN % UInt32.size
            if alloc size then
              .inl ⟨(endpos + 1) % UInt32.size, s.splitNum + 1, s.splitMax + 8,
                { b with size := size }⟩
            else .inr b.failure
          else .inl ⟨(endpos + 1) % UInt32.size, s.splitNum + 1, s.splitMax, b⟩
  else .inr s.success

/-- `FAT_parse_directory`, with what `numsplits` was before. -/
def fatParseDirectoryAt (alloc : Nat → Bool) (numsplits : Nat) (directory : List UInt8) :
    Option Parsed :=
  if alloc (8 * DIR_NAMELEN) then
    runFor (parseRound alloc directory) (directory.length + 2)
      ⟨0, 0, 8, ⟨8 * DIR_NAMELEN, fun _ => 0, true⟩⟩
  else some ⟨-1, none, numsplits, true⟩

/-- A name in upper case with blanks behind it. -/
def paddedName (run : List UInt8) : List UInt8 :=
  run.map toupper ++ List.replicate (DIR_NAMELEN - run.length) 0x20

/-- A name that is short enough and made of legal characters. -/
def Nameable (run : List UInt8) : Prop :=
  run.length ≤ DIR_NAMELEN ∧ ∀ c ∈ run, fatCheckCharacter c = 0

instance (run : List UInt8) : Decidable (Nameable run) :=
  decidable_of_iff
    (run.length ≤ DIR_NAMELEN ∧ (run.all fun c => decide (fatCheckCharacter c = 0)) = true)
    (by simp only [Nameable, List.all_eq_true, decide_eq_true_eq])

variable {b : Splits} {p run l l' : List UInt8} {i k n output pos : Nat} {c : UInt8}

namespace Splits

lemma fill_append : b.fill i (l ++ l') = (b.fill i l).fill (i + l.length) l' := by
  induction l generalizing b i with
  | nil => rfl
  | cons c cs ih =>
    rw [List.cons_append, fill, fill, ih, List.length_cons]
    congr 1
    omega

@[simp] lemma size_fill : (b.fill i l).size = b.size := by
  induction l generalizing b i with
  | nil => rfl
  | cons c cs ih => exact ih

lemma inside_fill (hroom : i + l.length ≤ b.size) : (b.fill i l).inside = b.inside := by
  induction l generalizing b i with
  | nil => rfl
  | cons c cs ih =>
    rw [List.length_cons] at hroom
    have hrest : (b.write i c).size = b.size := rfl
    rw [fill, ih (by omega), write, decide_eq_true (by omega), Bool.and_true]

lemma cells_fill_lt (hk : k < i) : (b.fill i l).cells k = b.cells k := by
  induction l generalizing b i with
  | nil => rfl
  | cons c cs ih =>
    rw [fill, ih (by omega), write]
    exact Function.update_of_ne (by omega) _ _

lemma cells_fill (hk : k < l.length) : (b.fill i l).cells (i + k) = l.getD k 0 := by
  induction l generalizing b i k with
  | nil => cases hk
  | cons c cs ih =>
    rw [fill]
    cases k with
    | zero =>
      have hfirst : ((b.write i c).fill (i + 1) cs).cells i = c := by
        rw [cells_fill_lt (Nat.lt_succ_self i)]
        exact Function.update_self i c b.cells
      exact hfirst
    | succ k =>
      have hnext := ih (b := b.write i c) (i := i + 1) (Nat.lt_of_succ_lt_succ hk)
      rw [show i + (k + 1) = i + 1 + k by omega, hnext]
      rfl

/-- Bytes written behind others. -/
lemma bytes_fill : (b.fill i l).bytes (i + l.length) = b.bytes i ++ l := by
  rw [bytes, List.range_add, List.map_append, List.map_map]
  congr 1
  · exact List.map_congr_left fun k hk => cells_fill_lt (List.mem_range.mp hk)
  · apply List.ext_getElem
    · simp
    · intro k hk hk'
      rw [List.getElem_map, List.getElem_range]
      rw [Function.comp_apply, cells_fill hk', List.getD_eq_getElem _ _ hk']

end Splits

/-! ## One name -/

lemma fatCheckCharacter_iff : fatCheckCharacter c = 0 ↔ check c = false := by
  rw [fatCheckCharacter]
  cases check c <;> decide

lemma length_paddedName (hlen : run.length ≤ DIR_NAMELEN) :
    (paddedName run).length = DIR_NAMELEN := by
  rw [paddedName, List.length_append, List.length_map, List.length_replicate]
  omega

/-- A legal name is written in upper case. -/
lemma nameLoop_legal (hlegal : ∀ c ∈ run, check c = false) :
    nameLoop output run pos b =
      (b.fill (output + pos) (run.map toupper), some (pos + run.length)) := by
  induction run generalizing pos b with
  | nil => rfl
  | cons c cs ih =>
    have hc := hlegal c (.head _)
    have hrest := @ih (b.write (output + pos) (toupper c)) (pos + 1)
      fun c hc => hlegal c (.tail _ hc)
    rw [nameLoop, hc, if_neg Bool.false_ne_true, hrest, List.map_cons, Splits.fill,
      List.length_cons]
    congr 2
    omega

/-- A name with a character that is not legal is given up inside the block. -/
lemma nameLoop_illegal (hillegal : ¬∀ c ∈ run, check c = false)
    (hroom : output + pos + run.length ≤ b.size) :
    ∃ b', nameLoop output run pos b = (b', none) ∧ b'.inside = b.inside := by
  induction run generalizing pos b with
  | nil => exact absurd (fun c hc => by cases hc) hillegal
  | cons c cs ih =>
    rw [List.length_cons] at hroom
    rw [nameLoop]
    cases hc : check c with
    | true =>
      refine ⟨b.write output 0, rfl, ?_⟩
      rw [Splits.write, decide_eq_true (by omega), Bool.and_true]
    | false =>
      have hrest : ¬∀ c ∈ cs, check c = false := by
        intro hall
        apply hillegal
        intro c' hc'
        rcases List.mem_cons.mp hc' with rfl | hin
        · exact hc
        · exact hall c' hin
      have hsize : (b.write (output + pos) (toupper c)).size = b.size := rfl
      obtain ⟨b', hrun, hinside⟩ := @ih (b.write (output + pos) (toupper c)) (pos + 1)
        hrest (by omega)
      refine ⟨b', hrun, hinside.trans ?_⟩
      rw [Splits.write, decide_eq_true (by omega), Bool.and_true]

lemma padLoop_eq : padLoop output n pos b = b.fill (output + pos) (List.replicate n 0x20) := by
  induction n generalizing pos b with
  | zero => rfl
  | succ n ih =>
    rw [padLoop, ih, List.replicate_succ, Splits.fill]
    congr 1

/-- What is written for one name. -/
theorem fatBuildDIRNameAt_spec (hlen : run.length ≤ DIR_NAMELEN)
    (hroom : output + DIR_NAMELEN ≤ b.size) :
    (Nameable run ∧ fatBuildDIRNameAt run output b = (b.fill output (paddedName run), 0)) ∨
      (¬Nameable run ∧ ∃ b', fatBuildDIRNameAt run output b = (b', -1) ∧ b'.inside = b.inside) := by
  rw [fatBuildDIRNameAt, if_neg (by omega)]
  by_cases hlegal : ∀ c ∈ run, check c = false
  · refine .inl ⟨⟨hlen, fun c hc => fatCheckCharacter_iff.mpr (hlegal c hc)⟩, ?_⟩
    rw [nameLoop_legal hlegal]
    simp only [Nat.add_zero, Nat.zero_add]
    rw [padLoop_eq, paddedName, Splits.fill_append, List.length_map]
  · refine .inr ⟨fun h => hlegal fun c hc => fatCheckCharacter_iff.mp (h.2 c hc), ?_⟩
    have hstart : output + 0 + run.length ≤ b.size := by omega
    obtain ⟨b', hrun, hinside⟩ := nameLoop_illegal hlegal hstart
    exact ⟨b', by rw [hrun], hinside⟩

/-! ## The scan -/

/-- Where a scan ends. -/
lemma scanWhile_eq (test : UInt8 → Bool) (p : List UInt8) (n : Nat) : ∀ i, p.length ≤ i + n →
    scanWhile test p n i = i + ((p.drop i).takeWhile test).length := by
  induction n with
  | zero =>
    intro i hn
    rw [List.drop_eq_nil_of_le (by omega)]
    rfl
  | succ n ih =>
    intro i hn
    rw [scanWhile]
    by_cases hi : i < p.length
    · rw [List.drop_eq_getElem_cons hi, List.getD_eq_getElem _ _ hi]
      cases htest : test p[i] with
      | true =>
        rw [if_pos ⟨hi, rfl⟩, ih (i + 1) (by omega), List.takeWhile_cons_of_pos htest,
          List.length_cons]
        omega
      | false =>
        rw [if_neg (by simp), List.takeWhile_cons_of_neg (by simp [htest])]
        rfl
    · rw [if_neg fun h => hi h.1, List.drop_eq_nil_of_le (by omega)]
      rfl

/-- What lies behind the end of a scan. -/
lemma drop_scanned (test : UInt8 → Bool) (p : List UInt8) (i : Nat) :
    p.drop (i + ((p.drop i).takeWhile test).length) = (p.drop i).dropWhile test := by
  have hsplit := List.takeWhile_append_dropWhile (p := test) (l := p.drop i)
  calc
    p.drop (i + ((p.drop i).takeWhile test).length) =
        (p.drop i).drop ((p.drop i).takeWhile test).length := List.drop_drop.symm
    _ = ((p.drop i).takeWhile test ++ (p.drop i).dropWhile test).drop
        ((p.drop i).takeWhile test).length := by rw [hsplit]
    _ = (p.drop i).dropWhile test := List.drop_left

/-- The scan has cut some names off the path and written them to the block. -/
structure Scanned (p : List UInt8) (names : List (List UInt8)) (s : SplitScan) : Prop where
  runs_eq : runs p = names ++ runs (p.drop s.startpos)
  nameable : ∀ run ∈ names, Nameable run
  splitNum_eq : s.splitNum = names.length
  lt_max : s.splitNum < s.splitMax
  max_le : s.splitMax ≤ s.splitNum + 8
  max_eights : s.splitMax % 8 = 0
  startpos_le : s.startpos ≤ p.length + 1
  le_startpos : 2 * s.splitNum ≤ s.startpos
  size_eq : s.splits.size = s.splitMax * DIR_NAMELEN
  size_le : s.splits.size + p.length + 1 ≤ UInt32.size
  bytes_eq : s.splits.bytes (s.splitNum * DIR_NAMELEN) = names.flatMap paddedName
  inside : s.splits.inside = true

/-- Every block that the names of the path may need is granted: one of eight names, and eight more
for every eight names. -/
def Grants (alloc : Nat → Bool) (p : List UInt8) : Prop :=
  ∀ n ≤ (runs p).length / 8, alloc ((n + 1) * (8 * DIR_NAMELEN)) = true

/-- What `FAT_parse_directory` leaves when it returns. -/
structure Outcome (alloc : Nat → Bool) (p : List UInt8) (r : Parsed) : Prop where
  inside : r.inside = true
  retval_iff : Grants alloc p → (r.retval = 0 ↔ ∀ run ∈ runs p, Nameable run)
  splits_eq : r.retval = 0 → ∃ b, r.splits = some b ∧ r.numsplits = (runs p).length ∧
    b.bytes (r.numsplits * DIR_NAMELEN) = (runs p).flatMap paddedName

variable {names : List (List UInt8)} {s : SplitScan} {alloc : Nat → Bool}

namespace Scanned

/-- At the end of the path. -/
lemma success (h : Scanned p names s) (hend : runs (p.drop s.startpos) = []) :
    Outcome alloc p s.success := by
  have hruns := h.runs_eq
  rw [hend, List.append_nil] at hruns
  refine ⟨h.inside, fun _ => iff_of_true rfl ?_, fun _ => ⟨s.splits, rfl, ?_, ?_⟩⟩
  · rw [hruns]
    exact h.nameable
  · rw [hruns]
    exact h.splitNum_eq
  · rw [hruns]
    exact h.bytes_eq

/-- At a run that is no name. -/
lemma failure {rest : List (List UInt8)} (h : Scanned p names s)
    (hnext : runs (p.drop s.startpos) = run :: rest) (hbad : ¬Nameable run)
    (hinside : b.inside = true) : Outcome alloc p b.failure := by
  refine ⟨hinside, fun _ => iff_of_false nofun fun hall => hbad ?_,
    fun h => by cases h⟩
  apply hall
  rw [h.runs_eq, hnext]
  exact List.mem_append_right _ (.head _)

/-- The positions of the next run. -/
lemma next (h : s.startpos < p.length) :
    (scanWhile (· == separator) p p.length s.startpos = p.length ∧
      runs (p.drop s.startpos) = []) ∨
    ∃ startpos endpos, scanWhile (· == separator) p p.length s.startpos = startpos ∧
      scanWhile (· != separator) p p.length (startpos + 1) = endpos ∧
      s.startpos ≤ startpos ∧ startpos < endpos ∧ endpos ≤ p.length ∧
      ((p.drop startpos).take (endpos - startpos)).length = endpos - startpos ∧
      runs (p.drop s.startpos) =
        (p.drop startpos).take (endpos - startpos) :: runs (p.drop (endpos + 1)) := by
  have hstart := scanWhile_eq (· == separator) p p.length s.startpos (by omega)
  have hskip := drop_scanned (· == separator) p s.startpos
  have hlen := List.length_drop (i := s.startpos) (l := p)
  have hle := (List.takeWhile_sublist (l := p.drop s.startpos) (· == separator)).length_le
  rw [← runs_dropWhile (p.drop s.startpos), ← hskip]
  cases hdrop : p.drop (s.startpos + ((p.drop s.startpos).takeWhile (· == separator)).length) with
  | nil =>
    have hall := List.drop_eq_nil_iff.mp hdrop
    exact .inl ⟨by omega, runs_nil⟩
  | cons c cs =>
    have hc : c ≠ separator := by
      have hhead := List.head?_dropWhile_not (· == separator) (p.drop s.startpos)
      rw [← hskip, hdrop] at hhead
      simpa using hhead
    have hge := Nat.le_add_right s.startpos ((p.drop s.startpos).takeWhile (· == separator)).length
    generalize s.startpos + ((p.drop s.startpos).takeWhile (· == separator)).length = j at *
    have hcs : p.drop (j + 1) = cs := by
      rw [← List.drop_drop, hdrop]
      rfl
    have hj : j + 1 + cs.length = p.length := by
      have hlength := congrArg List.length hdrop
      rw [List.length_drop, List.length_cons] at hlength
      omega
    have hstop := scanWhile_eq (· != separator) p p.length (j + 1) (by omega)
    have htail := drop_scanned (· != separator) p (j + 1)
    have hrun := (List.takeWhile_sublist (l := cs) (· != separator)).length_le
    rw [hcs] at hstop htail
    have htake : (c :: cs).take (1 + (cs.takeWhile (· != separator)).length) =
        c :: cs.takeWhile (· != separator) := by
      rw [Nat.add_comm, List.take_succ_cons]
      congr 1
      exact (List.prefix_iff_eq_take.mp (List.takeWhile_prefix _)).symm
    have hsub : j + 1 + (cs.takeWhile (· != separator)).length - j =
        1 + (cs.takeWhile (· != separator)).length := by omega
    refine .inr ⟨j, j + 1 + (cs.takeWhile (· != separator)).length, hstart, hstop, by omega,
      by omega, by omega, ?_, ?_⟩
    · rw [hdrop, hsub, htake, List.length_cons, Nat.add_comm]
    · rw [runs_cons hc, hsub, ← List.drop_drop, htail, hdrop, htake]

/-- The next name is written inside the block. -/
lemma filled (h : Scanned p names s) (hnameable : Nameable run) :
    (s.splits.fill (s.splitNum * DIR_NAMELEN) (paddedName run)).inside = s.splits.inside := by
  apply Splits.inside_fill
  rw [h.size_eq, length_paddedName hnameable.1, ← Nat.succ_mul]
  exact Nat.mul_le_mul_right _ h.lt_max

/-- The next name has been cut off, and the block may have grown. -/
lemma cut {endpos splitMax size : Nat} (h : Scanned p names s)
    (hruns : runs (p.drop s.startpos) = run :: runs (p.drop (endpos + 1)))
    (hnameable : Nameable run) (hle : s.startpos < endpos) (hend : endpos ≤ p.length)
    (hlt : s.splitNum + 1 < splitMax) (hmax : splitMax ≤ s.splitNum + 9)
    (height : splitMax % 8 = 0) (hsize : size = splitMax * DIR_NAMELEN)
    (hfits : size + p.length + 1 ≤ UInt32.size) :
    Scanned p (names ++ [run]) ⟨endpos + 1, s.splitNum + 1, splitMax,
      { s.splits.fill (s.splitNum * DIR_NAMELEN) (paddedName run) with size := size }⟩ := by
  have hlen := length_paddedName hnameable.1
  have htwo := h.le_startpos
  constructor
  · rw [h.runs_eq, hruns, List.append_assoc]
    rfl
  · intro r hr
    rcases List.mem_append.mp hr with hold | hnew
    · exact h.nameable r hold
    · rw [List.mem_singleton.mp hnew]
      exact hnameable
  · rw [List.length_append, h.splitNum_eq]
    rfl
  · exact hlt
  · exact hmax
  · exact height
  · exact Nat.succ_le_succ hend
  · dsimp only
    omega
  · exact hsize
  · exact hfits
  · change (s.splits.fill _ _).bytes ((s.splitNum + 1) * DIR_NAMELEN) = _
    have hbytes := Splits.bytes_fill (b := s.splits) (i := s.splitNum * DIR_NAMELEN)
      (l := paddedName run)
    rw [hlen] at hbytes
    rw [Nat.succ_mul, hbytes, h.bytes_eq, List.flatMap_append, List.flatMap_singleton]
  · exact (h.filled hnameable).trans h.inside

/-- A block that is needed while names are left is among those of `Grants`. -/
lemma asked {rest : List (List UInt8)} (h : Scanned p names s)
    (hruns : runs (p.drop s.startpos) = run :: rest) (hfull : s.splitNum + 1 = s.splitMax)
    (hgrants : Grants alloc p) : alloc ((s.splitMax + 8) * DIR_NAMELEN) = true := by
  have hlength : s.splitMax ≤ (runs p).length := by
    rw [h.runs_eq, hruns, List.length_append, List.length_cons, ← h.splitNum_eq]
    omega
  have hblock : (s.splitMax / 8 + 1) * (8 * DIR_NAMELEN) = (s.splitMax + 8) * DIR_NAMELEN := by
    have height := h.max_eights
    rw [← Nat.mul_assoc]
    congr 1
    omega
  rw [← hblock]
  exact hgrants _ (Nat.div_le_div_right hlength)

/-- What one pass of the loop does: it ends the call, or it cuts the next name off. -/
theorem round (h : Scanned p names s)
    (hspace : ∀ size, alloc size = true → size + p.length + 1 ≤ UInt32.size) :
    (∃ r, parseRound alloc p s = .inr r ∧ Outcome alloc p r) ∨
      ∃ run s', parseRound alloc p s = .inl s' ∧ Scanned p (names ++ [run]) s' ∧
        s.startpos < s'.startpos := by
  have hword : UInt32.size = 4294967296 := rfl
  have hname : DIR_NAMELEN = 39 := rfl
  have hsize : s.splits.size = s.splitMax * 39 := h.size_eq
  have houtput : s.splitNum * DIR_NAMELEN = s.splitNum * 39 := rfl
  have hsizele := h.size_le
  have hmax := h.lt_max
  have hmaxle := h.max_le
  have htwo := h.le_startpos
  have hposle := h.startpos_le
  rw [parseRound]
  by_cases hpos : s.startpos < p.length
  · rw [if_pos hpos]
    rcases next hpos with ⟨hend, hnone⟩ |
      ⟨startpos, endpos, hstart, hstop, hle, hlt, hendle, hlen, hruns⟩
    · dsimp only
      rw [if_pos hend]
      exact .inl ⟨_, rfl, h.success hnone⟩
    · dsimp only
      rw [hstart, if_neg (by omega), hstop]
      by_cases hlong : DIR_NAMELEN < endpos - startpos
      · rw [if_pos hlong]
        refine .inl ⟨_, rfl, h.failure hruns (fun hnameable => ?_) h.inside⟩
        have hshort := hnameable.1
        omega
      · rw [if_neg hlong, Nat.mod_eq_of_lt (a := s.splitNum * DIR_NAMELEN) (by omega)]
        generalize (p.drop startpos).take (endpos - startpos) = run at *
        have hlen : run.length ≤ DIR_NAMELEN := by omega
        have hroom : s.splitNum * DIR_NAMELEN + DIR_NAMELEN ≤ s.splits.size := by omega
        rcases fatBuildDIRNameAt_spec hlen hroom with
          ⟨hnameable, hbuild⟩ | ⟨hbad, b', hbuild, hinside⟩
        · rw [hbuild]
          dsimp only
          rw [if_neg (by decide), Nat.mod_eq_of_lt (a := endpos + 1) (by omega)]
          by_cases hfull : s.splitNum + 1 = s.splitMax
          · -- so many names as make the size wrap around do not fit in a path
            have hmul : (s.splitMax + 8) * DIR_NAMELEN = s.splitMax * 39 + 312 :=
              Nat.add_mul s.splitMax 8 39
            rw [if_pos hfull, Nat.mod_eq_of_lt (a := (s.splitMax + 8) * DIR_NAMELEN) (by omega)]
            split
            · next hgranted =>
                have hcut := h.cut hruns hnameable (by omega) hendle
                  (by omega : s.splitNum + 1 < s.splitMax + 8) (by omega)
                  (by have := h.max_eights; omega) rfl (hspace _ hgranted)
                exact .inr ⟨run, _, rfl, hcut, by dsimp only; omega⟩
            · next hrefused =>
                refine .inl ⟨_, rfl, ⟨?_, fun hgrants => ?_, fun hzero => ?_⟩⟩
                · exact (h.filled hnameable).trans h.inside
                · exact absurd (h.asked hruns hfull hgrants) hrefused
                · cases hzero
          · rw [if_neg hfull]
            have hkept : (s.splits.fill (s.splitNum * DIR_NAMELEN) (paddedName run)).size =
                s.splitMax * DIR_NAMELEN := Splits.size_fill.trans h.size_eq
            have hcut := h.cut hruns hnameable (by omega) hendle (by omega) (by omega) h.max_eights
              hkept
              (by rw [Splits.size_fill]; exact h.size_le)
            exact .inr ⟨run, _, rfl, hcut, by dsimp only; omega⟩
        · rw [hbuild]
          dsimp only
          rw [if_pos (by decide)]
          exact .inl ⟨_, rfl, h.failure hruns hbad (hinside.trans h.inside)⟩
  · rw [if_neg hpos]
    refine .inl ⟨_, rfl, h.success ?_⟩
    rw [List.drop_eq_nil_of_le (by omega), runs_nil]

/-- The run lemma: the scan comes to an end. -/
lemma ends (hspace : ∀ size, alloc size = true → size + p.length + 1 ≤ UInt32.size) (n : Nat) :
    ∀ {names : List (List UInt8)} {s : SplitScan}, Scanned p names s →
      p.length + 1 < s.startpos + n → ∃ r, runFor (parseRound alloc p) n s = some r ∧
        Outcome alloc p r := by
  induction n with
  | zero =>
    intro names s h hn
    have hle := h.startpos_le
    omega
  | succ n ih =>
    intro names s h hn
    rw [runFor]
    rcases h.round hspace with ⟨r, hround, hout⟩ | ⟨run, s', hround, hnext, hlt⟩
    · rw [hround]
      exact ⟨r, rfl, hout⟩
    · rw [hround]
      exact ih hnext (by omega)

end Scanned

/-- `FAT_parse_directory` returns. -/
lemma parse_directory_outcome (p : List UInt8) (alloc : Nat → Bool) (numsplits : Nat)
    (hspace : ∀ size, alloc size = true → size + p.length + 1 ≤ UInt32.size) :
    ∃ r, fatParseDirectoryAt alloc numsplits p = some r ∧ Outcome alloc p r := by
  rw [fatParseDirectoryAt]
  split
  · next hgranted =>
      have hstart : Scanned p [] ⟨0, 0, 8, ⟨8 * DIR_NAMELEN, fun _ => 0, true⟩⟩ := by
        constructor
        · rfl
        · exact fun _ hr => by cases hr
        · rfl
        · decide
        · decide
        · rfl
        · exact Nat.zero_le _
        · exact le_rfl
        · rfl
        · exact hspace _ hgranted
        · rfl
        · rfl
      exact hstart.ends hspace (p.length + 2) (by dsimp only; omega)
  · next hrefused =>
      refine ⟨_, rfl, rfl, fun hgrants => ?_, fun hzero => by cases hzero⟩
      have hfirst := hgrants 0 (Nat.zero_le _)
      rw [Nat.zero_add, Nat.one_mul] at hfirst
      exact absurd hfirst hrefused

/-- Every write of `FAT_parse_directory` is inside the block, and where the blocks for its names are
granted it returns 0 exactly for the paths whose maximal runs are names, and leaves these
names, padded, in order. -/
theorem parse_directory_splits (p : List UInt8) (alloc : Nat → Bool) (numsplits : Nat)
    (hspace : ∀ size, alloc size = true → size + p.length + 1 ≤ UInt32.size) :
    ∃ r, fatParseDirectoryAt alloc numsplits p = some r ∧ r.inside = true ∧
      (Grants alloc p →
        (r.retval = 0 ↔ ∀ run ∈ runs p, run.length ≤ DIR_NAMELEN ∧
          ∀ c ∈ run, fatCheckCharacter c = 0) ∧
        (r.retval = 0 → ∃ b, r.splits = some b ∧ r.numsplits = (runs p).length ∧
          b.bytes (r.numsplits * DIR_NAMELEN) = (runs p).flatMap paddedName)) := by
  obtain ⟨r, hrun, hout⟩ := parse_directory_outcome p alloc numsplits hspace
  exact ⟨r, hrun, hout.inside, fun hgrants => ⟨hout.retval_iff hgrants, hout.splits_eq⟩⟩

/-- What fits beside a path of five characters is granted. -/
def fitsBeside (size : Nat) : Bool := size + 5 + 1 ≤ UInt32.size

/-- Two names between separators. -/
theorem parse_directory_splits_two :
    ∃ r, fatParseDirectoryAt fitsBeside 0 [0x5C, 0x61, 0x5C, 0x5C, 0x62] = some r ∧
      r.inside = true ∧
      (r.retval = 0 ↔ ∀ run ∈ runs [0x5C, 0x61, 0x5C, 0x5C, 0x62], run.length ≤ DIR_NAMELEN ∧
        ∀ c ∈ run, fatCheckCharacter c = 0) := by
  have hgrants : Grants fitsBeside [0x5C, 0x61, 0x5C, 0x5C, 0x62] := by
    unfold Grants
    decide
  obtain ⟨r, hrun, hinside, hsplits⟩ := parse_directory_splits [0x5C, 0x61, 0x5C, 0x5C, 0x62]
    fitsBeside 0 fun _ h => of_decide_eq_true h
  exact ⟨r, hrun, hinside, (hsplits hgrants).1⟩

/-! ## The names as values -/

lemma fatBuildDIRName_iff : (fatBuildDIRName run).isSome = true ↔ Nameable run := by
  rw [fatBuildDIRName, Nameable]
  by_cases hlen : DIR_NAMELEN < run.length
  · rw [if_pos hlen]
    exact iff_of_false (by simp) fun h => by omega
  · rw [if_neg hlen]
    cases hany : run.any check with
    | true =>
      obtain ⟨c, hc, hcheck⟩ := List.any_eq_true.mp hany
      refine iff_of_false (by simp) fun h => ?_
      have hlegal := fatCheckCharacter_iff.mp (h.2 c hc)
      rw [hcheck] at hlegal
      cases hlegal
    | false =>
      refine iff_of_true rfl ⟨by omega, fun c hc => fatCheckCharacter_iff.mpr ?_⟩
      simpa using List.any_eq_false.mp hany c hc

/-- The built name is the padded one. -/
lemma toList_of_build {n : DirName} (h : fatBuildDIRName run = some n) :
    n.toList = paddedName run := by
  have hnameable : Nameable run := fatBuildDIRName_iff.mp (by rw [h]; rfl)
  have hlen := length_paddedName hnameable.1
  unfold fatBuildDIRName at h
  split at h
  · cases h
  · split at h
    · cases h
    · rw [Option.some.injEq] at h
      subst h
      apply List.ext_getElem
      · rw [hlen]
        exact Vector.length_toList
      · intro i hi hi'
        simp only [Vector.getElem_toList, Vector.getElem_ofFn, paddedName]
        by_cases hin : i < run.length
        · rw [List.getElem_append_left (by simpa using hin), List.getD_eq_getElem]
        · rw [List.getElem_append_right (by simpa using hin), List.getElem_replicate,
            List.getD_eq_default _ _ (by simpa using hin)]

lemma mapM_build (l : List (List UInt8)) :
    ((l.mapM fatBuildDIRName).isSome = true ↔ ∀ run ∈ l, Nameable run) ∧
      ∀ names, l.mapM fatBuildDIRName = some names →
        names.flatMap Vector.toList = l.flatMap paddedName := by
  induction l with
  | nil =>
    refine ⟨iff_of_true rfl (fun _ h => by cases h), fun names h => ?_⟩
    cases h
    rfl
  | cons run l ih =>
    rw [List.mapM_cons, List.forall_mem_cons, ← fatBuildDIRName_iff, ← ih.1]
    cases hbuild : fatBuildDIRName run with
    | none => exact ⟨by simp, fun names h => by cases h⟩
    | some n =>
      cases hrest : l.mapM fatBuildDIRName with
      | none => exact ⟨by simp, fun names h => by cases h⟩
      | some ns =>
        refine ⟨by simp, fun names h => ?_⟩
        cases h
        rw [List.flatMap_cons, List.flatMap_cons, toList_of_build hbuild, ih.2 ns hrest]

/-- The block holds the names that `fatParseDirectory` gives as values. -/
theorem fatParseDirectoryAt_refines {alloc : Nat → Bool} (numsplits : Nat)
    (hspace : ∀ size, alloc size = true → size + p.length + 1 ≤ UInt32.size)
    (hgrants : Grants alloc p) :
    ∃ r, fatParseDirectoryAt alloc numsplits p = some r ∧
      (r.retval = 0 ↔ (fatParseDirectory p).isSome = true) ∧
      ∀ names, fatParseDirectory p = some names → ∃ b, r.splits = some b ∧
        b.bytes (r.numsplits * DIR_NAMELEN) = names.flatMap Vector.toList := by
  obtain ⟨r, hrun, h⟩ := parse_directory_outcome p alloc numsplits hspace
  rw [fatParseDirectory_eq_mapM]
  have hall := mapM_build (runs p)
  refine ⟨r, hrun, (h.retval_iff hgrants).trans hall.1.symm, fun names hnames => ?_⟩
  have hzero : r.retval = 0 := (h.retval_iff hgrants).mpr (hall.1.mp (by rw [hnames]; rfl))
  obtain ⟨b, hsplits, -, hbytes⟩ := h.splits_eq hzero
  exact ⟨b, hsplits, hbytes.trans (hall.2 names hnames).symm⟩

/-- One name. -/
theorem fatParseDirectoryAt_name :
    ∃ r, fatParseDirectoryAt (· < 999) 0 [0x61] = some r ∧
      (r.retval = 0 ↔ (fatParseDirectory [0x61]).isSome = true) := by
  have hgrants : Grants (· < 999) [0x61] := by
    unfold Grants
    decide
  obtain ⟨r, hrun, hretval, -⟩ := fatParseDirectoryAt_refines 0 (fun size hsize => by
    have hlt := of_decide_eq_true hsize
    simp only [List.length_singleton, UInt32.size]
    omega) hgrants
  exact ⟨r, hrun, hretval⟩

end DiegOS.Fat
