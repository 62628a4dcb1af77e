import DiegOS.Fat.PathSplits
import Mathlib.Data.List.Infix

/-!
# Relative paths

`FAT_make_path_relative` skips what two paths have in common character by character, steps
back once for every name left of the second and appends what is left of the first.

Main results:

- Theorem `runs_append`, Theorem `runs_glue`: the names of a path that is cut.
- Theorem `make_path_relative_iff`: when the relative path leads back.
-/

namespace DiegOS.Fat

/-! ## The function -/

/-- The loop over the common root path; nothing when both paths end. -/
def skipCommon : List UInt8 → List UInt8 → Option (List UInt8 × List UInt8)
  | [], [] => none
  | c :: filename, d :: relto =>
    if c = d then skipCommon filename relto else some (c :: filename, d :: relto)
  | filename, relto => some (filename, relto)

/-- `"..\\"` -/
def stepBack : List UInt8 := [0x2E, 0x2E, separator]

/-- The loop `strcpy(output, "..\\"); output += 3;`, with the characters in front of
`output` and the string it points to. -/
def stepsBack : Nat → List UInt8 × List UInt8 → List UInt8 × List UInt8
  | 0, output => output
  | numsplits + 1, output => stepsBack numsplits (output.1 ++ stepBack, [])

/-- `FAT_make_path_relative`: the string in the buffer afterwards, unless it fails.  The
buffer holds a string before. -/
def fatMakePathRelative (filename relto output : Option (List UInt8)) : Option (List UInt8) :=
  match filename, relto, output with
  | some filename, some relto, some output =>
    match skipCommon filename relto with
    | none => none
    | some (filename, relto) =>
      match fatParseDirectory relto with
      | none => none
      | some names =>
        let (front, output) := stepsBack names.length ([], output)
        some (front ++ (output ++ filename))
  | _, _, _ => none

/-! ## What it is for -/

/-- The name that leads to the containing directory. -/
def dotdot : List UInt8 := [0x2E, 0x2E]

/-- Follow one name from a directory. -/
def follow (directory : List (List UInt8)) (name : List UInt8) : List (List UInt8) :=
  if name = dotdot then directory.dropLast else directory ++ [name]

/-- The names of the directory or file a path leads to from a directory. -/
def resolve (directory : List (List UInt8)) (path : List UInt8) : List (List UInt8) :=
  (runs path).foldl follow directory

/-- What the paths have in common. -/
def common : List UInt8 → List UInt8 → List UInt8
  | c :: filename, d :: relto => if c = d then c :: common filename relto else []
  | _, _ => []

/-- What the function returns leads from the second path to the first, and does not depend on what
was in the buffer. -/
def LeadsBack (filename relto : List UInt8) : Prop :=
  ∀ buffer output, fatMakePathRelative (some filename) (some relto) (some buffer) = some output →
    resolve (runs relto) output = runs filename ∧
      fatMakePathRelative (some filename) (some relto) (some []) = some output

/-- A cut through a path between two names. -/
def CutsBetween (a b : List UInt8) : Prop :=
  (a = [] ∨ a.getLast? = some separator) ∨ b = [] ∨ b.head? = some separator

instance (a b : List UInt8) : Decidable (CutsBetween a b) :=
  inferInstanceAs (Decidable ((_ ∨ _) ∨ _ ∨ _))

variable {a b f r : List UInt8} {base l : List (List UInt8)}

/-! ## The names of a path that is cut -/

/-- The names of a path that is cut between two of them. -/
theorem runs_append (h : CutsBetween a b) : runs (a ++ b) = runs a ++ runs b := by
  rcases h with (rfl | hlast) | rfl | hhead
  · rw [List.nil_append, runs_nil, List.nil_append]
  · obtain ⟨a', rfl⟩ := List.getLast?_eq_some_iff.mp hlast
    have hend := runs_append_separator a' []
    rw [List.append_assoc, List.singleton_append, runs_append_separator, hend, runs_nil,
      List.append_nil]
  · rw [List.append_nil, runs_nil, List.append_nil]
  · obtain ⟨b', rfl⟩ := List.head?_eq_some_iff.mp hhead
    have hstart := runs_append_separator [] b'
    rw [List.nil_append, runs_nil, List.nil_append] at hstart
    rw [runs_append_separator, hstart]

/-- The characters behind the last separator. -/
lemma exists_last_run (a : List UInt8) :
    ∃ a' x, a = a' ++ x ∧ separator ∉ x ∧ (a' = [] ∨ a'.getLast? = some separator) := by
  induction a using List.reverseRecOn with
  | nil => exact ⟨[], [], rfl, List.not_mem_nil, .inl rfl⟩
  | append_singleton a c ih =>
    by_cases hc : c = separator
    · refine ⟨a ++ [c], [], (List.append_nil _).symm, List.not_mem_nil, .inr ?_⟩
      rw [List.getLast?_concat, hc]
    · obtain ⟨a', x, rfl, hx, hend⟩ := ih
      refine ⟨a', x ++ [c], List.append_assoc .., fun hmem => ?_, hend⟩
      rcases List.mem_append.mp hmem with hin | hlast
      · exact hx hin
      · exact hc (List.mem_singleton.mp hlast).symm

/-- The characters in front of the first separator. -/
lemma exists_first_run (b : List UInt8) :
    ∃ y b', b = y ++ b' ∧ separator ∉ y ∧ (b' = [] ∨ b'.head? = some separator) := by
  induction b with
  | nil => exact ⟨[], [], rfl, List.not_mem_nil, .inl rfl⟩
  | cons c b ih =>
    by_cases hc : c = separator
    · exact ⟨[], c :: b, rfl, List.not_mem_nil, .inr (by rw [hc]; rfl)⟩
    · obtain ⟨y, b', rfl, hy, hstart⟩ := ih
      refine ⟨c :: y, b', rfl, fun hmem => ?_, hstart⟩
      rcases List.mem_cons.mp hmem with heq | hin
      · exact hc heq.symm
      · exact hy hin

/-- A cut through a name. -/
theorem runs_glue (h : ¬CutsBetween a b) :
    ∃ A x y B, x ≠ [] ∧ y ≠ [] ∧ runs a = A ++ [x] ∧ runs b = y :: B ∧
      runs (a ++ b) = A ++ (x ++ y) :: B := by
  obtain ⟨a', x, rfl, hx, hend⟩ := exists_last_run a
  obtain ⟨y, b', rfl, hy, hstart⟩ := exists_first_run b
  have hxne : x ≠ [] := by
    rintro rfl
    rw [List.append_nil] at h
    exact h (.inl hend)
  have hyne : y ≠ [] := by
    rintro rfl
    exact h (.inr hstart)
  have hxy : separator ∉ x ++ y := by
    intro hmem
    rcases List.mem_append.mp hmem with hin | hin
    · exact hx hin
    · exact hy hin
  refine ⟨runs a', x, y, runs b', hxne, hyne, ?_, ?_, ?_⟩
  · rw [runs_append (.inl hend), runs_of_not_mem hx hxne]
  · rw [runs_append (.inr hstart), runs_of_not_mem hy hyne]
    rfl
  · rw [List.append_assoc, runs_append (.inl hend), ← List.append_assoc x,
      runs_append (.inr hstart), runs_of_not_mem hxy (List.append_ne_nil_of_left_ne_nil hxne y)]
    rfl

/-! ## Following names -/

lemma foldl_follow_of_not_mem (h : dotdot ∉ l) : l.foldl follow base = base ++ l := by
  induction l generalizing base with
  | nil => exact (List.append_nil base).symm
  | cons c l ih =>
    rw [List.mem_cons, not_or] at h
    rw [List.foldl_cons, ih h.2, follow, if_neg (Ne.symm h.1), List.append_assoc]
    rfl

/-- Steps back remove as many names. -/
lemma foldl_follow_replicate (base l : List (List UInt8)) :
    (List.replicate l.length dotdot).foldl follow (base ++ l) = base := by
  induction l using List.reverseRecOn with
  | nil => exact List.append_nil base
  | append_singleton l c ih =>
    rw [List.length_append, List.length_singleton, List.replicate_succ, List.foldl_cons, follow,
      if_pos rfl, ← List.append_assoc, List.dropLast_concat]
    exact ih

lemma length_follow_le (base : List (List UInt8)) (c : List UInt8) :
    (follow base c).length ≤ base.length + 1 := by
  rw [follow]
  split
  · rw [List.length_dropLast]
    omega
  · rw [List.length_append]
    exact le_rfl

lemma length_foldl_follow_le (l : List (List UInt8)) :
    ∀ base : List (List UInt8), (l.foldl follow base).length ≤ base.length + l.length := by
  induction l with
  | nil => exact fun _ => le_rfl
  | cons c l ih =>
    intro base
    have hstep := length_follow_le base c
    have hrest := ih (follow base c)
    rw [List.foldl_cons, List.length_cons]
    omega

/-- A step back costs a name, and another one unless there is none left. -/
lemma length_foldl_follow_lt (base : List (List UInt8)) (h : dotdot ∈ l) :
    (l.foldl follow base).length < base.length + l.length ∧
      (base ≠ [] → (l.foldl follow base).length + 1 < base.length + l.length) := by
  obtain ⟨l₁, l₂, rfl, hfirst⟩ := List.eq_append_cons_of_mem h
  have hrest := length_foldl_follow_le l₂ (follow (base ++ l₁) dotdot)
  rw [follow, if_pos rfl, List.length_dropLast, List.length_append] at hrest
  rw [List.foldl_append, foldl_follow_of_not_mem hfirst, List.foldl_cons, follow, if_pos rfl,
    List.length_append, List.length_cons]
  refine ⟨by omega, fun hne => ?_⟩
  have hpos := List.length_pos_iff.mpr hne
  omega

/-! ## What the function does -/

lemma skipCommon_eq (f r : List UInt8) :
    skipCommon f r = if f = r then none
      else some (f.drop (common f r).length, r.drop (common f r).length) := by
  induction f generalizing r with
  | nil =>
    cases r with
    | nil | cons d r => rfl
  | cons c f ih =>
    cases r with
    | nil => rfl
    | cons d r =>
      rw [skipCommon, common]
      by_cases hcd : c = d
      · rw [if_pos hcd, if_pos hcd, ih, hcd]
        simp only [List.cons.injEq, true_and, List.length_cons, List.drop_succ_cons]
      · rw [if_neg hcd, if_neg hcd, if_neg fun h => hcd (List.cons.inj h).1]
        rfl

lemma common_append (f r : List UInt8) :
    f = common f r ++ f.drop (common f r).length ∧
      r = common f r ++ r.drop (common f r).length := by
  induction f generalizing r with
  | nil => exact ⟨rfl, rfl⟩
  | cons c f ih =>
    cases r with
    | nil => exact ⟨rfl, rfl⟩
    | cons d r =>
      rw [common]
      split
      · next hcd =>
          obtain ⟨hf, hr⟩ := ih r
          subst hcd
          exact ⟨congrArg _ hf, congrArg _ hr⟩
      · exact ⟨rfl, rfl⟩

lemma stepsBack_eq (n : Nat) (front output : List UInt8) :
    stepsBack n (front, output) =
      (front ++ (List.replicate n stepBack).flatten, if n = 0 then output else []) := by
  induction n generalizing front output with
  | zero => rw [stepsBack, if_pos rfl, List.replicate_zero, List.flatten_nil, List.append_nil]
  | succ n ih =>
    rw [stepsBack, ih, if_neg (Nat.succ_ne_zero n), List.replicate_succ, List.flatten_cons,
      List.append_assoc]
    congr 1
    split <;> rfl

/-- The names left of a path are names. -/
lemma nameable_drop (h : ∀ run ∈ runs (a ++ b), Nameable run) : ∀ run ∈ runs b, Nameable run := by
  by_cases hcut : CutsBetween a b
  · rw [runs_append hcut] at h
    exact fun run hrun => h run (List.mem_append_right _ hrun)
  · obtain ⟨A, x, y, B, -, -, -, hb, hab⟩ := runs_glue hcut
    rw [hab] at h
    rw [hb]
    intro run hrun
    rcases List.mem_cons.mp hrun with rfl | hin
    · have hglued := h (x ++ run) (List.mem_append_right _ (.head _))
      refine ⟨?_, fun c hc => hglued.2 c (List.mem_append_right _ hc)⟩
      have hlen := hglued.1
      rw [List.length_append] at hlen
      omega
    · exact h run (List.mem_append_right _ (.tail _ hin))

lemma length_of_mapM {α β : Type} {g : α → Option β} {l : List α} :
    ∀ {l' : List β}, l.mapM g = some l' → l'.length = l.length := by
  induction l with
  | nil =>
    intro l' h
    cases h
    rfl
  | cons x l ih =>
    intro l' h
    rw [List.mapM_cons] at h
    obtain ⟨y, -, hrest⟩ := Option.bind_eq_some_iff.mp h
    obtain ⟨ys, hys, heq⟩ := Option.bind_eq_some_iff.mp hrest
    cases heq
    exact congrArg Nat.succ (ih hys)

/-- The directories between the end of what is common and the second path. -/
def steps (f r : List UInt8) : Nat := (runs (r.drop (common f r).length)).length

lemma fatMakePathRelative_eq (hr : ∀ run ∈ runs r, Nameable run) (buffer : List UInt8) :
    fatMakePathRelative (some f) (some r) (some buffer) = if f = r then none
      else some ((List.replicate (steps f r) stepBack).flatten ++
        ((if steps f r = 0 then buffer else []) ++ f.drop (common f r).length)) := by
  rw [(common_append f r).2] at hr
  have hall := (mapM_build (runs (r.drop (common f r).length))).1.mpr (nameable_drop hr)
  obtain ⟨names, hnames⟩ := Option.isSome_iff_exists.mp hall
  have hlen : names.length = steps f r := length_of_mapM hnames
  rw [← fatParseDirectory_eq_mapM] at hnames
  simp only [fatMakePathRelative, skipCommon_eq]
  by_cases hfr : f = r
  · rw [if_pos hfr, if_pos hfr]
  · rw [if_neg hfr, if_neg hfr]
    dsimp only
    rw [hnames]
    dsimp only
    rw [stepsBack_eq, hlen, List.nil_append]

lemma runs_steps (n : Nat) (path : List UInt8) :
    runs ((List.replicate n stepBack).flatten ++ path) = List.replicate n dotdot ++ runs path := by
  induction n with
  | zero => rfl
  | succ n ih =>
    have hback : runs stepBack = [dotdot] := by
      have hname : runs dotdot = [dotdot] := runs_of_not_mem (by decide) (by decide)
      have hone := runs_append_separator dotdot []
      rw [runs_nil, hname] at hone
      exact hone
    rw [List.replicate_succ, List.flatten_cons, List.append_assoc,
      runs_append (.inl (.inr rfl)), hback, ih]
    rfl

/-! ## Where the steps lead -/

/-- Where as many steps back lead as there are names behind a cut. -/
lemma resolve_steps (a b path : List UInt8) :
    resolve (runs (a ++ b)) ((List.replicate (runs b).length stepBack).flatten ++ path) =
      (runs path).foldl follow
        (if CutsBetween a b then runs a else (runs a).dropLast) := by
  rw [resolve, runs_steps, List.foldl_append]
  congr 1
  by_cases hcut : CutsBetween a b
  · rw [if_pos hcut, runs_append hcut, foldl_follow_replicate]
  · obtain ⟨A, x, y, B, -, -, ha, hb, hab⟩ := runs_glue hcut
    have hlen : (y :: B).length = ((x ++ y) :: B).length := rfl
    rw [if_neg hcut, ha, List.dropLast_concat, hab, hb, hlen, foldl_follow_replicate]

/-- From the names in common the rest of a path leads to the path exactly when the cut is between
two names and no step back is left. -/
lemma foldl_cut_iff (a b : List UInt8) :
    (runs b).foldl follow (runs a) = runs (a ++ b) ↔ CutsBetween a b ∧ dotdot ∉ runs b := by
  by_cases hcut : CutsBetween a b
  · rw [runs_append hcut, and_iff_right hcut]
    constructor
    · intro heq hmem
      have hlen := congrArg List.length heq
      have hlt := (length_foldl_follow_lt (runs a) hmem).1
      rw [List.length_append] at hlen
      omega
    · exact foldl_follow_of_not_mem
  · refine iff_of_false (fun heq => ?_) fun h => hcut h.1
    obtain ⟨A, x, y, B, -, -, ha, hb, hab⟩ := runs_glue hcut
    have hlen := congrArg List.length heq
    rw [ha, hb, hab, List.length_append, List.length_cons] at hlen
    by_cases hmem : dotdot ∈ y :: B
    · have hlt := (length_foldl_follow_lt (A ++ [x]) hmem).2 (List.concat_ne_nil _ _)
      simp only [List.length_append, List.length_cons, List.length_nil] at hlt
      omega
    · rw [foldl_follow_of_not_mem hmem] at hlen
      simp only [List.length_append, List.length_cons, List.length_nil] at hlen
      omega

/-- One name less than is in common never leads to the path. -/
lemma foldl_dropLast_ne (a b c : List UInt8) (hc : ¬CutsBetween a c) :
    (runs b).foldl follow (runs a).dropLast ≠ runs (a ++ b) := by
  intro heq
  obtain ⟨A, x, -, -, hx, -, ha, -, -⟩ := runs_glue hc
  have hlen := congrArg List.length heq
  rw [ha, List.dropLast_concat] at heq hlen
  by_cases hcut : CutsBetween a b
  · have hle := length_foldl_follow_le (runs b) A
    rw [runs_append hcut, ha, List.length_append, List.length_append, List.length_singleton] at hlen
    omega
  · obtain ⟨A', x', y, B, -, -, ha', hb, hab⟩ := runs_glue hcut
    obtain ⟨rfl, hxs⟩ := List.append_inj' (ha.symm.trans ha') rfl
    obtain rfl : x = x' := List.head_eq_of_cons_eq hxs
    rw [hb, hab] at heq hlen
    rw [List.length_append, List.length_cons] at hlen
    by_cases hmem : dotdot ∈ y :: B
    · have hlt := (length_foldl_follow_lt A hmem).1
      rw [List.length_cons] at hlt
      omega
    · rw [foldl_follow_of_not_mem hmem, List.append_cancel_left_eq] at heq
      have hname : y = x ++ y := (List.cons.inj heq).1
      exact hx (List.append_left_eq_self.mp hname.symm)

/-- The relative path leads back exactly when both paths are equal, or the second has a name behind
what is common to both, this ends between two names of both, and no name left of the first is a
step back. -/
theorem make_path_relative_iff (filename relto : List UInt8)
    (hrelto : ∀ run ∈ runs relto, Nameable run) :
    LeadsBack filename relto ↔ filename = relto ∨
      (runs (relto.drop (common filename relto).length) ≠ [] ∧
        CutsBetween (common filename relto) (filename.drop (common filename relto).length) ∧
        CutsBetween (common filename relto) (relto.drop (common filename relto).length) ∧
        dotdot ∉ runs (filename.drop (common filename relto).length)) := by
  have hmake := fatMakePathRelative_eq (f := filename) hrelto
  obtain ⟨hf, hr⟩ := common_append filename relto
  have hresolve := resolve_steps (common filename relto)
    (relto.drop (common filename relto).length) (filename.drop (common filename relto).length)
  rw [← hr] at hresolve
  by_cases heq : filename = relto
  · refine iff_of_true (fun buffer output houtput => ?_) (.inl heq)
    rw [hmake, if_pos heq] at houtput
    cases houtput
  rw [or_iff_right heq]
  by_cases hsteps : runs (relto.drop (common filename relto).length) = []
  · refine iff_of_false (fun hleads => ?_) fun h => h.1 hsteps
    have hzero : steps filename relto = 0 := congrArg List.length hsteps
    have hone := (hleads [0x78] _ (by rw [hmake, if_neg heq])).2
    rw [hmake, if_neg heq, hzero, if_pos rfl, if_pos rfl] at hone
    have hlen := congrArg (Option.map List.length) hone
    simp at hlen
  have hpos : steps filename relto ≠ 0 := mt List.length_eq_zero_iff.mp hsteps
  have hbuffer (buffer : List UInt8) := hmake buffer
  simp only [if_neg heq, if_neg hpos, List.nil_append] at hbuffer
  have hleads : LeadsBack filename relto ↔
      (runs (filename.drop (common filename relto).length)).foldl follow
        (if CutsBetween (common filename relto) (relto.drop (common filename relto).length) then
          runs (common filename relto) else (runs (common filename relto)).dropLast) =
        runs filename := by
    rw [← hresolve]
    constructor
    · exact fun h => (h [] _ (hbuffer [])).1
    · intro h buffer output houtput
      rw [hbuffer] at houtput
      cases houtput
      exact ⟨h, hbuffer []⟩
  rw [hleads, and_iff_right hsteps]
  by_cases hcut : CutsBetween (common filename relto) (relto.drop (common filename relto).length)
  · rw [if_pos hcut, and_iff_right hcut]
    have hiff := foldl_cut_iff (common filename relto)
      (filename.drop (common filename relto).length)
    rwa [← hf] at hiff
  · rw [if_neg hcut]
    have hne := foldl_dropLast_ne (common filename relto)
      (filename.drop (common filename relto).length) _ hcut
    rw [← hf] at hne
    exact iff_of_false hne fun h => hcut h.2.1

/-- From `\a\c` to `\a\b`. -/
theorem make_path_relative_sibling :
    LeadsBack [0x5C, 0x61, 0x5C, 0x62] [0x5C, 0x61, 0x5C, 0x63] :=
  (make_path_relative_iff [0x5C, 0x61, 0x5C, 0x62] [0x5C, 0x61, 0x5C, 0x63] (by decide)).mpr
    (by decide)

/-- From `\ac` to `\ab` the path leads to `\b`; from `\a` to `\a\b` it is
appended to what was in the buffer. -/
theorem make_path_relative_wrong :
    ¬LeadsBack [0x5C, 0x61, 0x62] [0x5C, 0x61, 0x63] ∧
      ¬LeadsBack [0x5C, 0x61, 0x5C, 0x62] [0x5C, 0x61] := by
  constructor
  · intro hleads
    have hpath := (hleads [] [0x2E, 0x2E, 0x5C, 0x62] (by decide)).1
    revert hpath
    decide
  · intro hleads
    have hbuffer := (hleads [0x78] [0x78, 0x5C, 0x62] (by decide)).2
    revert hbuffer
    decide

end DiegOS.Fat
