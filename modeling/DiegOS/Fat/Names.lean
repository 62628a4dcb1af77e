import DiegOS.Fat.Data
import Mathlib.Data.List.TakeWhile

/-!
# File names and paths

The name handling of `fat_names.c`.  A path is the list of the bytes
before its terminator.  Names are upper case and padded with blanks to 39
bytes; paths are cut at the backslash.

Main results:

- Theorem `fatParseDirectory_eq_mapM`: parsing a path builds the padded
  name of every maximal run of non-separators, in order.
- Theorem `fatBuildDIRName_legal`: every built name is made of legal
  characters.
- Theorem `components_last`: the last component of an absolute path is split
  off at the position found by `fatParseDirectoryLast`.
-/

namespace DiegOS.Fat

/-- The folder separator, a backslash. -/
def separator : UInt8 := 0x5C

/-- `check`: the characters a name may not hold.  A `char` is signed on this
platform, so the upper half of the byte range is below the blank. -/
def check (chk : UInt8) : Bool :=
  let c := chk.toNat
  decide (0x80 ≤ c) || decide (c < 0x20) || c == 0x22 || (decide (0x2A ≤ c) && decide (c ≤ 0x2C)) ||
    c == 0x2F || (decide (0x3A ≤ c) && decide (c ≤ 0x3F)) ||
    (decide (0x5B ≤ c) && decide (c ≤ 0x5D)) || c == 0x7C

/-- `toupper` of the C library. -/
def toupper (c : UInt8) : UInt8 := if 0x61 ≤ c ∧ c ≤ 0x7A then c - 0x20 else c

def fatCheckCharacter (chk : UInt8) : Int := if check chk then -1 else 0

/-- `FAT_build_DIR_name`: the upper case name padded with blanks, or a failure. -/
def fatBuildDIRName (name : List UInt8) : Option DirName :=
  if DIR_NAMELEN < name.length then none
  else if name.any check then none
  else some (Vector.ofFn fun i : Fin 39 => (name.map toupper).getD i 0x20)

/-- The loop of `FAT_parse_directory`: skip separators, cut the next run, build its
name.  Every pass consumes a character, so the path length bounds the passes. -/
def parseLoop : Nat → List UInt8 → Option (List DirName)
  | 0, _ => some []
  | fuel + 1, directory =>
    match directory.dropWhile (· == separator) with
    | [] => some []
    | c :: cs =>
      let run := c :: cs.takeWhile (· != separator)
      let rest := (cs.dropWhile (· != separator)).drop 1
      if DIR_NAMELEN < run.length then none
      else
        match fatBuildDIRName run with
        | none => none
        | some name => (parseLoop fuel rest).map (name :: ·)

/-- `FAT_parse_directory`: the padded names of a path. -/
def fatParseDirectory (directory : List UInt8) : Option (List DirName) :=
  parseLoop directory.length directory

/-- `FAT_parse_directory_last`: position of the last separator before
`dirlen`, or zero. -/
def fatParseDirectoryLast (directory : List UInt8) : Nat → Nat
  | 0 => 0
  | n + 1 =>
    if directory.getD n 0 == separator then n
    else if n = 0 then 0
    else fatParseDirectoryLast directory n

/-- The name of the entry that stands for a directory itself. -/
def dotName : DirName := Vector.ofFn fun i : Fin 39 => if i.val = 0 then 0x2E else 0x20

/-- The name of the entry that stands for the containing directory. -/
def dotdotName : DirName := Vector.ofFn fun i : Fin 39 => if i.val < 2 then 0x2E else 0x20

/-! ## Legal names -/

/-- A name made of legal characters only. -/
def LegalName (n : DirName) : Prop := ∀ i (hi : i < 39), check n[i] = false

lemma check_toupper {c : UInt8} (h : check c = false) : check (toupper c) = false := by
  have hall : ∀ c : UInt8, check c = false → check (toupper c) = false := by
    intro c
    have hbyte : ∀ n : Fin 256, check (UInt8.ofNat n) = false →
        check (toupper (UInt8.ofNat n)) = false := by decide +kernel
    have hc := hbyte ⟨c.toNat, c.toNat_lt⟩
    simpa using hc
  exact hall c h

/-- Every built name is made of legal characters. -/
theorem fatBuildDIRName_legal {name : List UInt8} {n : DirName}
    (h : fatBuildDIRName name = some n) : LegalName n := by
  unfold fatBuildDIRName at h
  split at h
  · contradiction
  · split at h <;> rename_i hany
    · contradiction
    · rw [Option.some.injEq] at h
      subst h
      intro i hi
      simp only [Bool.not_eq_true, List.any_eq_false] at hany
      rw [Vector.getElem_ofFn]
      by_cases hlen : i < name.length
      · have hget : (name.map toupper).getD i 0x20 = toupper name[i] := by simp [hlen]
        rw [hget]
        exact check_toupper (by simpa using hany _ (List.getElem_mem hlen))
      · have hget : (name.map toupper).getD i 0x20 = 0x20 := by
          rw [List.getD_eq_getElem?_getD, List.getElem?_eq_none (by simpa using hlen)]
          rfl
        rw [hget]
        decide

/-- A legal name is neither a free marker nor holds a terminator. -/
lemma LegalName.mark {e : DirEntry} (h : LegalName e.dirName) :
    e.mark ≠ DIR_ENTRY_FREE ∧ e.mark ≠ DIR_ENTRY_LAST_FREE := by
  have h0 := h 0 (by omega)
  rw [DirEntry.mark]
  constructor <;> intro heq <;> rw [heq] at h0 <;> exact absurd h0 (by decide)

lemma LegalName.ne_zero {n : DirName} (h : LegalName n) {i : Nat} (hi : i < 39) :
    n[i] ≠ 0 := by
  intro heq
  have hi' := h i hi
  rw [heq] at hi'
  exact absurd hi' (by decide)

lemma legalName_dotName : LegalName dotName := by
  intro i hi
  rw [dotName, Vector.getElem_ofFn]
  split <;> decide

lemma legalName_dotdotName : LegalName dotdotName := by
  intro i hi
  rw [dotdotName, Vector.getElem_ofFn]
  split <;> decide

lemma dotName_ne_dotdotName : dotName ≠ dotdotName := by
  intro h
  have h1 := congrArg (fun n : DirName => n[1]) h
  exact absurd h1 (by decide)

/-! ## Paths as lists of components -/

/-- The maximal runs of non-separators of a path. -/
def runs (p : List UInt8) : List (List UInt8) := (p.splitOn separator).filter (· ≠ [])

lemma runs_append_separator (a b : List UInt8) :
    runs (a ++ separator :: b) = runs a ++ runs b := by
  rw [runs, List.splitOn_append_cons_self, List.filter_append]
  rfl

lemma runs_of_not_mem {p : List UInt8} (h : separator ∉ p) (hp : p ≠ []) : runs p = [p] := by
  simp [runs, List.splitOn_eq_singleton h, hp]

@[simp]
lemma runs_nil : runs [] = [] := by
  simp [runs]

/-- Leading separators delimit no run. -/
lemma runs_dropWhile (p : List UInt8) : runs (p.dropWhile (· == separator)) = runs p := by
  induction p with
  | nil => simp
  | cons c cs ih =>
    by_cases hc : c = separator
    · subst hc
      have hsplit : runs (separator :: cs) = runs cs := by
        simpa using runs_append_separator [] cs
      rw [hsplit, ← ih]
      simp
    · simp [hc]

/-- A path that does not start with a separator opens with a run. -/
lemma runs_cons {c : UInt8} {cs : List UInt8} (hc : c ≠ separator) :
    runs (c :: cs) = (c :: cs.takeWhile (· != separator)) ::
      runs ((cs.dropWhile (· != separator)).drop 1) := by
  have hnot : separator ∉ c :: cs.takeWhile (· != separator) := by
    intro hmem
    rcases List.mem_cons.mp hmem with heq | hmem
    · exact hc heq.symm
    · simpa using List.mem_takeWhile_imp hmem
  have hsplit := List.takeWhile_append_dropWhile (p := (· != separator)) (l := cs)
  cases hdrop : cs.dropWhile (· != separator) with
  | nil =>
    have hcs : cs = cs.takeWhile (· != separator) := by
      simpa [hdrop] using hsplit.symm
    rw [← hcs] at hnot ⊢
    rw [runs_of_not_mem hnot (by simp)]
    simp
  | cons x xs =>
    have hx : x = separator := by
      have hhead := List.head?_dropWhile_not (· != separator) cs
      rw [hdrop] at hhead
      simpa using hhead
    have hcs : c :: cs = (c :: cs.takeWhile (· != separator)) ++ separator :: xs := by
      rw [hdrop, hx] at hsplit
      simp [hsplit]
    rw [hcs, runs_append_separator, runs_of_not_mem hnot (by simp)]
    simp

lemma parseLoop_eq_mapM {fuel : Nat} {p : List UInt8} (hfuel : p.length ≤ fuel) :
    parseLoop fuel p = (runs p).mapM fatBuildDIRName := by
  induction fuel generalizing p with
  | zero =>
    obtain rfl : p = [] := List.length_eq_zero_iff.mp (by omega)
    simp [parseLoop]
  | succ fuel ih =>
    rw [← runs_dropWhile]
    unfold parseLoop
    have hshort := (List.dropWhile_sublist (l := p) (· == separator)).length_le
    cases hdrop : p.dropWhile (· == separator) with
    | nil => simp
    | cons c cs =>
      have hc : c ≠ separator := by
        have hhead := List.head?_dropWhile_not (· == separator) p
        rw [hdrop] at hhead
        simpa using hhead
      rw [hdrop] at hshort
      have hrest : ((cs.dropWhile (· != separator)).drop 1).length ≤ fuel := by
        have hle := (List.dropWhile_sublist (l := cs) (· != separator)).length_le
        simp at hshort ⊢
        omega
      rw [runs_cons hc, List.mapM_cons]
      dsimp only
      split <;> rename_i hlen
      · have hnone : fatBuildDIRName (c :: cs.takeWhile (· != separator)) = none := by
          unfold fatBuildDIRName
          rw [if_pos hlen]
        simp [hnone]
      · cases hbuild : fatBuildDIRName (c :: cs.takeWhile (· != separator)) with
        | none => simp
        | some name =>
          simp only [ih hrest, Option.bind_eq_bind, Option.bind_some]
          cases (runs ((cs.dropWhile (· != separator)).drop 1)).mapM fatBuildDIRName <;> rfl

/-- Parsing a path builds the padded name of every maximal run of
non-separators, in order. -/
theorem fatParseDirectory_eq_mapM (p : List UInt8) :
    fatParseDirectory p = (runs p).mapM fatBuildDIRName :=
  parseLoop_eq_mapM le_rfl

/-- The position found by `FAT_parse_directory_last` cuts an absolute path in
front of its last component. -/
lemma fatParseDirectoryLast_spec {p : List UInt8} {n : Nat} (hn : n ≤ p.length)
    (hpos : 0 < n) (habs : p[0]? = some separator) :
    fatParseDirectoryLast p n < n ∧ p[fatParseDirectoryLast p n]? = some separator ∧
      ∀ j, fatParseDirectoryLast p n < j → j < n → p[j]? ≠ some separator := by
  induction n with
  | zero => omega
  | succ n ih =>
    have hget : p[n]? = some (p.getD n 0) := by
      rw [List.getD_eq_getElem?_getD, List.getElem?_eq_getElem (by omega)]
      rfl
    unfold fatParseDirectoryLast
    split <;> rename_i hsep
    · refine ⟨by omega, by rw [hget]; simpa using hsep, fun j hj hjn => by omega⟩
    · split <;> rename_i hzero
      · subst hzero
        rw [hget, Option.some.injEq] at habs
        exact absurd (by rw [habs]; rfl) hsep
      · obtain ⟨hlt, hat, hafter⟩ := ih (by omega) (by omega)
        refine ⟨by omega, hat, fun j hj hjn => ?_⟩
        by_cases heq : j = n
        · subst heq
          rw [hget]
          simpa using hsep
        · exact hafter j hj (by omega)

/-- An absolute path is cut at its last separator. -/
lemma split_at_last {p : List UInt8} (habs : p[0]? = some separator) :
    p = p.take (fatParseDirectoryLast p p.length) ++
        separator :: p.drop (fatParseDirectoryLast p p.length + 1) ∧
      separator ∉ p.drop (fatParseDirectoryLast p p.length + 1) := by
  have hpos : 0 < p.length := by
    rcases List.getElem?_eq_some_iff.mp habs with ⟨h, _⟩
    exact h
  obtain ⟨hlt, hat, hafter⟩ := fatParseDirectoryLast_spec le_rfl hpos habs
  generalize fatParseDirectoryLast p p.length = pos at *
  constructor
  · have hmid : p.drop pos = separator :: p.drop (pos + 1) := by
      rw [List.drop_eq_getElem_cons hlt]
      congr 1
      simpa [List.getElem?_eq_getElem hlt] using hat
    rw [← hmid, List.take_append_drop]
  · intro hmem
    obtain ⟨j, hj⟩ := List.mem_iff_getElem?.mp hmem
    rw [List.getElem?_drop] at hj
    have hbound : pos + 1 + j < p.length := by
      rcases List.getElem?_eq_some_iff.mp hj with ⟨h, _⟩
      exact h
    exact hafter _ (by omega) hbound hj

/-- The textual components of a path, behind one leading separator. -/
def components (p : List UInt8) : List (List UInt8) :=
  match p.splitOn separator with
  | [] :: rest => rest
  | parts => parts

/-- No component of the path is empty, `.` or `..`. -/
def PlainPath (p : List UInt8) : Prop :=
  ∀ c ∈ components p, c ≠ [] ∧ fatBuildDIRName c ≠ some dotName ∧
    fatBuildDIRName c ≠ some dotdotName

instance (p : List UInt8) : Decidable (PlainPath p) :=
  inferInstanceAs (Decidable (∀ c ∈ components p, _ ∧ _ ∧ _))

/-- The components of a plain path are its runs. -/
lemma PlainPath.components_eq {p : List UInt8} (h : PlainPath p) : components p = runs p := by
  have hne : ∀ c ∈ components p, c ≠ [] := fun c hc => (h c hc).1
  unfold components runs at *
  split at hne <;> rename_i heq
  · rw [heq]
    simpa using (List.filter_eq_self.mpr fun c hc => by simpa using hne c hc).symm
  · exact (List.filter_eq_self.mpr fun c hc => by simpa using hne c hc).symm

/-- A plain path that is not empty names something. -/
lemma PlainPath.runs_ne_nil {p : List UInt8} (h : PlainPath p) (hp : p ≠ []) :
    runs p ≠ [] := by
  rw [← h.components_eq]
  unfold components
  split <;> rename_i heq
  · intro hnil
    have hjoin : [separator].intercalate (p.splitOn separator) = p :=
      List.intercalate_splitOn separator
    rw [heq, hnil] at hjoin
    exact hp (by simpa using hjoin.symm)
  · exact List.splitOn_ne_nil _ _

/-- The components of an absolute path are those of its parent and its last one. -/
theorem components_last {p : List UInt8} (habs : p[0]? = some separator) :
    components p =
      (if fatParseDirectoryLast p p.length = 0 then []
        else components (p.take (fatParseDirectoryLast p p.length))) ++
      [p.drop (fatParseDirectoryLast p p.length + 1)] := by
  obtain ⟨hsplit, hnot⟩ := split_at_last habs
  generalize fatParseDirectoryLast p p.length = pos at *
  have hparts : p.splitOn separator =
      (p.take pos).splitOn separator ++ [p.drop (pos + 1)] := by
    conv_lhs => rw [hsplit]
    rw [List.splitOn_append_cons_self, List.splitOn_eq_singleton hnot]
  by_cases hpos : pos = 0
  · subst hpos
    simp [components, hparts]
  · obtain ⟨c, rest, htake⟩ : ∃ c rest, p.take pos = c :: rest := by
      cases p with
      | nil => simp at habs
      | cons c cs =>
        obtain ⟨m, rfl⟩ : ∃ m, pos = m + 1 := ⟨pos - 1, by omega⟩
        exact ⟨c, cs.take m, rfl⟩
    have hc : c = separator := by
      have hhead : (p.take pos)[0]? = some separator := by
        rw [List.getElem?_take_of_lt (by omega)]
        exact habs
      simpa [htake] using hhead
    have hopen : (p.take pos).splitOn separator = [] :: rest.splitOn separator := by
      rw [htake, hc]
      simpa using List.splitOn_append_cons_self (a := separator) [] rest
    simp [components, hparts, hopen, hpos]

/-- The parent of a plain path is plain, and its last component is an ordinary name. -/
lemma PlainPath.parent {p : List UInt8} (h : PlainPath p) (habs : p[0]? = some separator) :
    (fatParseDirectoryLast p p.length ≠ 0 →
        PlainPath (p.take (fatParseDirectoryLast p p.length))) ∧
      p.drop (fatParseDirectoryLast p p.length + 1) ≠ [] ∧
      fatBuildDIRName (p.drop (fatParseDirectoryLast p p.length + 1)) ≠ some dotName ∧
      fatBuildDIRName (p.drop (fatParseDirectoryLast p p.length + 1)) ≠ some dotdotName := by
  have hcomp := components_last habs
  refine ⟨fun hpos c hc => h c ?_, h _ ?_⟩
  · rw [hcomp, if_neg hpos]
    exact List.mem_append_left _ hc
  · rw [hcomp]
    simp

lemma exists_of_mem_mapM {α β : Type} {f : α → Option β} {l : List α} {ys : List β} {y : β}
    (h : l.mapM f = some ys) (hy : y ∈ ys) : ∃ x ∈ l, f x = some y := by
  induction l generalizing ys with
  | nil =>
    obtain rfl : ys = [] := by simpa using h.symm
    simp at hy
  | cons x l ih =>
    cases hx : f x with
    | none => simp [List.mapM_cons, hx] at h
    | some z =>
      cases hl : l.mapM f with
      | none => simp [List.mapM_cons, hx, hl] at h
      | some zs =>
        obtain rfl : z :: zs = ys := by simpa [List.mapM_cons, hx, hl] using h
        rcases List.mem_cons.mp hy with rfl | hy
        · exact ⟨x, by simp, hx⟩
        · obtain ⟨w, hw, hwy⟩ := ih hl hy
          exact ⟨w, by simp [hw], hwy⟩

/-- No parsed component of a plain path is a dot name. -/
lemma PlainPath.not_dot {p : List UInt8} (h : PlainPath p) {names : List DirName}
    (hparse : fatParseDirectory p = some names) : dotName ∉ names ∧ dotdotName ∉ names := by
  rw [fatParseDirectory_eq_mapM, ← h.components_eq] at hparse
  constructor
  · intro hmem
    obtain ⟨c, hc, hbuild⟩ := exists_of_mem_mapM hparse hmem
    exact (h c hc).2.1 hbuild
  · intro hmem
    obtain ⟨c, hc, hbuild⟩ := exists_of_mem_mapM hparse hmem
    exact (h c hc).2.2 hbuild

end DiegOS.Fat
