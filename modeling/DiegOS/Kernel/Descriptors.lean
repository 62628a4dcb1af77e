import DiegOS.Kernel.Devices

/-!
# File descriptors

The table `fdarray` with `open`, `read` and `write`.  There are only devices,
whose names follow `/dev` and one more character, and nothing closes a descriptor.

Main results:

- Theorem `open_ret_iff`: when `open` succeeds.
- Theorems `open_slot` and `open_frame`: the slot it takes, and those it leaves alone.
- Theorem `transfer_iff`: when a descriptor without the mode is refused.
- Theorem `kept_iff`: when a call does what is claimed of it.
- Theorem `descriptors_iff`: all calls of a run do exactly if no `open` succeeds, whose
  copy of the name does not fit into its block, or looks behind the name `/dev`.
-/

namespace DiegOS.Kernel.Descriptors

open Lib Devices
open Network.NetInterfaces (CString strncmp strncmp_order)

/-! ## The code -/

def EOK : Int := 0

def EPERM : Int := -1

def EIO : Int := -5

def ENXIO : Int := -6

def EBADF : Int := -9

def EAGAIN : Int := -11

def EACCES : Int := -13

def EINVAL : Int := -22

def ENFILE : Int := -23

def FD_MAX : Nat := 64

def FD_DATA_IS_RAW : UInt32 := 0x01

def FD_DATA_IS_INUSE : UInt32 := 0x08

def FD_DATA_IS_R : UInt32 := 0x10

def FD_DATA_IS_W : UInt32 := 0x20

def O_RDONLY : UInt32 := 0

def O_WRONLY : UInt32 := 1

def O_RDWR : UInt32 := 2

def DEV_PATH : List UInt8 := [0x2F, 0x64, 0x65, 0x76]

/-- A block from `malloc` with the bytes stored from its start on. -/
structure Block where
  size : Nat
  bytes : List UInt8
deriving DecidableEq

/-- `fd_data_t` -/
structure FdData where
  flags : UInt32
  absfname : Option Block
  rawdev : Option Device
deriving DecidableEq

/-- `fdarray` and `errno` -/
structure Files where
  fdarray : Nat → FdData
  errno : Int

/-- What a call leaves: its result, the table, whether all accesses to the names were inside the
string and the block, and whether a function of the device's driver was called. -/
structure Outcome where
  ret : Int
  files : Files
  inside : Bool
  reached : Bool

/-- A slot is taken. -/
def FdData.inUse (d : FdData) : Prop := d.flags &&& FD_DATA_IS_INUSE ≠ 0

instance (d : FdData) : Decidable d.inUse := inferInstanceAs (Decidable (_ ≠ _))

namespace Files

/-- The call fails with an error. -/
def fail (s : Files) (errno : Int) : Outcome := ⟨-1, { s with errno := errno }, true, false⟩

/-- A slot with new data. -/
def set (s : Files) (fd : Nat) (d : FdData) : Files :=
  { s with fdarray := Function.update s.fdarray fd d }

lemma set_self (s : Files) (fd : Nat) (d : FdData) : (s.set fd d).fdarray fd = d := by
  exact Function.update_self fd d s.fdarray

lemma set_of_ne {s : Files} {fd i : Nat} (h : i ≠ fd) (d : FdData) :
    (s.set fd d).fdarray i = s.fdarray i := by
  exact Function.update_of_ne h d s.fdarray

/-- The loop that looks for a free slot, with the number of slots it has not looked at. -/
def freeSlot (s : Files) : Nat → Nat → Nat
  | 0, fd => fd
  | n + 1, fd => if (s.fdarray fd).inUse then s.freeSlot n (fd + 1) else fd

end Files

/-- The switch over the access mode. -/
def accessFlags (flags : UInt32) : Option UInt32 :=
  if flags &&& 0xFF = O_WRONLY then some FD_DATA_IS_W
  else if flags &&& 0xFF = O_RDONLY then some FD_DATA_IS_R
  else if flags &&& 0xFF = O_RDWR then some (FD_DATA_IS_W ||| FD_DATA_IS_R)
  else none

/-- `strcpy` into a block, and whether the string and its terminator fit. -/
def strcpy (block : Block) (s : CString) : Block × Bool :=
  ({ block with bytes := s.chars ++ [0] }, decide ((s.chars ++ [0]).length ≤ block.size))

/-- The string at `filename + sizeof(DEV_PATH)`, with the bytes behind the terminator. -/
def devname (filename : CString) (behind : List UInt8) : List UInt8 :=
  ((filename.chars ++ 0 :: behind).drop (DEV_PATH.length + 1)).takeWhile (· ≠ 0)

/-- The pointer does not point behind the terminator, or nothing is read through it. -/
def devnameInside (devs : List Device) (filename : CString) : Bool :=
  decide (DEV_PATH.length + 1 ≤ filename.chars.length) || devs.isEmpty

/-- `open` with the bytes behind the terminator of the name, and whether there is memory. -/
def open_ (devs : List Device) (s : Files) (filename : Option CString) (behind : List UInt8)
    (flags : UInt32) (memory : Bool) : Outcome :=
  match filename with
  | none => s.fail EINVAL
  | some filename =>
    if strncmp filename.chars DEV_PATH DEV_PATH.length ≠ 0 then s.fail EACCES
    else
      let fd := s.freeSlot FD_MAX 0
      if FD_MAX = fd then s.fail ENFILE
      else
        match accessFlags flags with
        | none => s.fail EINVAL
        | some flg =>
          if memory = false then
            ⟨-1, s.set fd { s.fdarray fd with absfname := none }, true, false⟩
          else
            match lookupName (devname filename behind) devs with
            | none =>
              ⟨-1, { s.set fd { s.fdarray fd with absfname := none, rawdev := none } with
                errno := ENXIO }, devnameInside devs filename, false⟩
            | some dev =>
              let copy := strcpy ⟨filename.chars.length, []⟩ filename
              ⟨fd, s.set fd ⟨flg ||| FD_DATA_IS_RAW ||| FD_DATA_IS_INUSE, some copy.1, some dev⟩,
                devnameInside devs filename && copy.2, false⟩

/-- What `device_io_rx` and `device_io_tx` do with the answer of the driver, which is an
error unless it passes a test, and whether the driver was asked. -/
def deviceIo (passes : Int → Bool) (dev : Option Device) (buf : Bool) (answer : Int) : Int × Bool :=
  match dev with
  | none => (EINVAL, false)
  | some dev =>
    if buf = false then (EINVAL, false)
    else if dev.type ≠ .DEV_TYPE_CHAR then (EPERM, false)
    else (if passes answer then answer else EIO, true)

def deviceIoRx : Option Device → Bool → Int → Int × Bool := deviceIo fun answer => 0 ≤ answer

def deviceIoTx : Option Device → Bool → Int → Int × Bool := deviceIo fun answer => 0 < answer

/-- The loop over a device call that is repeated on `EAGAIN`. -/
def ioLoop (io : Int → Int × Bool) : Nat → (Nat → Int) → Int × Bool
  | 0, answers => io (answers 0)
  | retries + 1, answers =>
    let r := io (answers 0)
    if r.1 = EAGAIN then
      let rest := ioLoop io retries fun i => answers (i + 1)
      (rest.1, r.2 || rest.2)
    else r

/-- What `read` and `write` do with their device call. -/
def transfer (io : Option Device → Bool → Int → Int × Bool) (s : Files) (fd : Int) (buf : Bool)
    (answers : Nat → Int) : Outcome :=
  if fd < 0 ∨ (FD_MAX : Int) ≤ fd then s.fail EBADF
  else if buf = false ∨ ¬(s.fdarray fd.toNat).inUse then s.fail EINVAL
  else if (s.fdarray fd.toNat).flags &&& FD_DATA_IS_RAW ≠ 0 then
    let r := ioLoop (io (s.fdarray fd.toNat).rawdev buf) 10 answers
    if r.1 < EOK then ⟨-1, { s with errno := EIO }, true, r.2⟩ else ⟨r.1, s, true, r.2⟩
  else s.fail EINVAL

def read : Files → Int → Bool → (Nat → Int) → Outcome := transfer deviceIoRx

def write : Files → Int → Bool → (Nat → Int) → Outcome := transfer deviceIoTx

/-- A call with its arguments and what it meets: the bytes behind the name, whether there is memory,
whether the buffer is there, and the answers of the driver. -/
inductive Call where
  | openCall (filename : Option CString) (behind : List UInt8) (flags : UInt32) (memory : Bool)
  | readCall (fd : Int) (buf : Bool) (answers : Nat → Int)
  | writeCall (fd : Int) (buf : Bool) (answers : Nat → Int)

/-- What a call does. -/
def call (devs : List Device) (s : Files) : Call → Outcome
  | .openCall filename behind flags memory => open_ devs s filename behind flags memory
  | .readCall fd buf answers => read s fd buf answers
  | .writeCall fd buf answers => write s fd buf answers

/-- The table behind a call. -/
def step (devs : List Device) (s : Files) (c : Call) : Files := (call devs s c).files

/-- The table at the start. -/
def start : Files := ⟨fun _ => ⟨0, none, none⟩, 0⟩

/-! ## What is claimed of a call -/

/-- A slot is free. -/
def Files.Free (s : Files) : Prop := ∃ fd < FD_MAX, ¬(s.fdarray fd).inUse

/-- A descriptor that was opened with one of the modes. -/
def Files.Opened (s : Files) (mode : UInt32) (fd : Int) : Prop :=
  0 ≤ fd ∧ fd < FD_MAX ∧ (s.fdarray fd.toNat).inUse ∧ (s.fdarray fd.toNat).flags &&& mode ≠ 0

/-- The name of a device behind `/dev/`. -/
def DeviceName (devs : List Device) (filename : CString) : Prop :=
  ∃ d ∈ devs, filename.chars = DEV_PATH ++ 0x2F :: d.name

/-- What is claimed of a call. -/
structure Kept (devs : List Device) (s : Files) (c : Call) : Prop where
  opens : ∀ filename behind flags, c = .openCall filename behind flags true →
    (0 ≤ (call devs s c).ret ↔ s.Free ∧ (accessFlags flags).isSome ∧
      ∃ name, filename = some name ∧ DeviceName devs name)
  slot : ∀ filename behind flags memory, c = .openCall filename behind flags memory →
    0 ≤ (call devs s c).ret → ∃ fd < FD_MAX, (call devs s c).ret = fd ∧ ¬(s.fdarray fd).inUse ∧
      ((step devs s c).fdarray fd).inUse
  unchanged : ∀ filename behind flags memory, c = .openCall filename behind flags memory →
    (call devs s c).ret < 0 → ∀ fd, (s.fdarray fd).inUse →
      (step devs s c).fdarray fd = s.fdarray fd
  inside : (call devs s c).inside = true
  reads : ∀ fd buf answers, c = .readCall fd buf answers → ¬s.Opened FD_DATA_IS_R fd →
    (call devs s c).ret = -1 ∧ (call devs s c).reached = false
  writes : ∀ fd buf answers, c = .writeCall fd buf answers → ¬s.Opened FD_DATA_IS_W fd →
    (call devs s c).ret = -1 ∧ (call devs s c).reached = false

/-- `open` gets as far as the name of the device. -/
def Looks (s : Files) (filename : CString) (flags : UInt32) : Prop :=
  DEV_PATH <+: filename.chars ∧ s.Free ∧ (accessFlags flags).isSome

/-- A descriptor of a character device that was not opened with the mode. -/
def Files.Misused (s : Files) (mode : UInt32) (fd : Int) (buf : Bool) : Prop :=
  0 ≤ fd ∧ fd < FD_MAX ∧ (s.fdarray fd.toNat).inUse ∧
    (s.fdarray fd.toNat).flags &&& mode = 0 ∧ buf = true ∧
      ∃ d, (s.fdarray fd.toNat).rawdev = some d ∧ d.type = .DEV_TYPE_CHAR

/-- An `open` that gets to the name of the device does not find it, and there is a name or
nothing to compare it with; `read` and `write` get descriptors with their mode. -/
def Meets (devs : List Device) (s : Files) : Call → Prop
  | .openCall none _ _ _ => True
  | .openCall (some filename) behind flags memory =>
    memory = true → Looks s filename flags →
      (∀ d ∈ devs, d.name ≠ devname filename behind) ∧ (filename.chars = DEV_PATH → devs = [])
  | .readCall fd buf _ => ¬s.Misused FD_DATA_IS_R fd buf
  | .writeCall fd buf _ => ¬s.Misused FD_DATA_IS_W fd buf

/-! ## Names -/

lemma strncmp_zero_iff (a b : List UInt8) (n : Nat) :
    strncmp a b n = 0 ↔ a.take n = b.take n := by
  have horder := strncmp_order n a b
  constructor
  · intro hzero
    rw [hzero] at horder
    exact Std.LawfulEqCmp.eq_of_compare (horder.symm.trans (compare_eq_iff_eq.mpr rfl))
  · intro heq
    have hself : compare (b.take n) (b.take n) = .eq := Std.ReflCmp.compare_self
    rw [heq] at horder
    exact compare_eq_iff_eq.mp (horder.trans hself)

lemma prefix_iff (filename : List UInt8) :
    strncmp filename DEV_PATH DEV_PATH.length = 0 ↔ DEV_PATH <+: filename := by
  rw [strncmp_zero_iff, List.take_length, List.prefix_iff_eq_take, eq_comm]

/-- The list of devices, whose names are shorter than the comparison. -/
structure Registry (devs : List Device) : Prop where
  sorted : Sorted devs
  short : ∀ d ∈ devs, d.name.length ≤ DEV_NAME_LEN

lemma registry_devices (calls : List CreateCall) : Registry (devices calls).nodes where
  sorted := (registered calls).sorted
  short d hd := by
    rw [(registered calls).name_eq d hd, nameOf, List.length_append, List.length_singleton, code,
      List.length_take, DEV_NAME_LEN]
    omega

/-- What a search finds, for names of any length. -/
lemma lookupName_some {devs : List Device} {name : List UInt8} {dev : Device}
    (hshort : ∀ d ∈ devs, d.name.length ≤ DEV_NAME_LEN) (h : lookupName name devs = some dev) :
    dev ∈ devs ∧ dev.name = name := by
  induction devs with
  | nil => cases h
  | cons nn devs ih =>
    have hrest := fun d hd => hshort d (List.mem_cons_of_mem nn hd)
    rw [lookupName] at h
    split_ifs at h with hbefore hzero
    · obtain ⟨hmem, hname⟩ := ih hrest h
      exact ⟨List.mem_cons_of_mem nn hmem, hname⟩
    · cases h
      have hlen := hshort dev (.head _)
      have heq := (strncmp_zero_iff dev.name name (DEV_NAME_LEN + 1)).mp hzero.symm
      refine ⟨.head _, ?_⟩
      -- the name of the device ends inside the comparison, and so does the other
      rw [List.take_of_length_le (Nat.le_succ_of_le hlen)] at heq
      have hlength : name.length ≤ DEV_NAME_LEN + 1 := by
        have hmin := congrArg List.length heq
        rw [List.length_take] at hmin
        omega
      rw [heq, List.take_of_length_le hlength]

lemma lookupName_none {devs : List Device} {name : List UInt8} (hdevs : Registry devs)
    (h : lookupName name devs = none) : ∀ d ∈ devs, d.name ≠ name := by
  intro d hd hname
  have hshort := hdevs.short d hd
  rw [lookupName_eq hdevs.sorted (fun d hd => Nat.le_succ_of_le (hdevs.short d hd))
    (Nat.le_succ_of_le (hname ▸ hshort)), List.find?_eq_none] at h
  exact h d hd (decide_eq_true hname)

/-- The name of a device behind `/dev/`. -/
lemma DeviceName.found {devs : List Device} {filename : CString} (h : DeviceName devs filename)
    (behind : List UInt8) : ∃ d ∈ devs, d.name = devname filename behind := by
  obtain ⟨d, hd, hname⟩ := h
  refine ⟨d, hd, ?_⟩
  have hnonzero : ∀ c ∈ d.name, decide (c ≠ 0) = true := by
    intro c hc
    refine decide_eq_true (filename.nonzero c ?_)
    rw [hname]
    exact List.mem_append_right _ (.tail _ hc)
  have hsplit : filename.chars ++ 0 :: behind =
      (DEV_PATH ++ [0x2F]) ++ (d.name ++ 0 :: behind) := by
    rw [hname, List.append_assoc, List.append_assoc]
    rfl
  have hdrop : ((DEV_PATH ++ [0x2F]) ++ (d.name ++ 0 :: behind)).drop (DEV_PATH.length + 1) =
      d.name ++ 0 :: behind :=
    List.drop_left' (show (DEV_PATH ++ [0x2F]).length = DEV_PATH.length + 1 from rfl)
  rw [devname, hsplit, hdrop, List.takeWhile_append_of_pos hnonzero, List.takeWhile_cons_of_neg,
    List.append_nil]
  exact fun h => of_decide_eq_true h rfl

lemma devnameInside_iff {devs : List Device} {filename : CString}
    (hstarts : DEV_PATH <+: filename.chars) :
    devnameInside devs filename = true ↔ (filename.chars = DEV_PATH → devs = []) := by
  rw [devnameInside, Bool.or_eq_true, decide_eq_true_iff, List.isEmpty_iff]
  obtain ⟨rest, hrest⟩ := hstarts
  rw [← hrest, List.length_append]
  cases rest with
  | nil =>
    rw [List.append_nil, or_iff_right (by rw [List.length_nil]; omega)]
    exact ⟨fun h _ => h, fun h => h rfl⟩
  | cons c rest =>
    refine iff_of_true (.inl (by rw [List.length_cons]; omega)) fun h => ?_
    have hlen := congrArg List.length h
    rw [List.length_append, List.length_cons] at hlen
    omega

/-! ## The calls -/

/-- Where the loop over the slots stops. -/
lemma freeSlot_spec (s : Files) (n fd : Nat) :
    ∃ k ≤ n, s.freeSlot n fd = fd + k ∧ (∀ i < k, (s.fdarray (fd + i)).inUse) ∧
      (k < n → ¬(s.fdarray (fd + k)).inUse) := by
  induction n generalizing fd with
  | zero => exact ⟨0, Nat.le_refl 0, rfl, nofun, nofun⟩
  | succ n ih =>
    rw [Files.freeSlot]
    split_ifs with huse
    · obtain ⟨k, hk, hfree, hbefore, hnot⟩ := ih (fd + 1)
      refine ⟨k + 1, by omega, by omega, fun i hi => ?_, fun hlt => ?_⟩
      · cases i with
        | zero => exact huse
        | succ i =>
          have hi := hbefore i (by omega)
          rwa [Nat.add_right_comm] at hi
      · have hk := hnot (by omega)
        rwa [Nat.add_right_comm] at hk
    · exact ⟨0, Nat.zero_le _, rfl, nofun, fun _ => huse⟩

/-- The loop finds a free slot if there is one. -/
lemma freeSlot_eq (s : Files) :
    s.freeSlot FD_MAX 0 = FD_MAX ∧ ¬s.Free ∨
      s.freeSlot FD_MAX 0 < FD_MAX ∧ ¬(s.fdarray (s.freeSlot FD_MAX 0)).inUse ∧ s.Free := by
  obtain ⟨k, hk, hfree, hbefore, hnot⟩ := freeSlot_spec s FD_MAX 0
  rw [Nat.zero_add] at hfree hnot
  rw [hfree]
  by_cases hlt : k < FD_MAX
  · exact .inr ⟨hlt, hnot hlt, k, hlt, hnot hlt⟩
  · refine .inl ⟨by omega, ?_⟩
    rintro ⟨fd, hfd, hfdfree⟩
    have huse := hbefore fd (by omega)
    rw [Nat.zero_add] at huse
    exact hfdfree huse

/-- What `open` can do. -/
lemma open_cases (devs : List Device) (s : Files) (filename : Option CString)
    (behind : List UInt8) (flags : UInt32) (memory : Bool) :
    (∃ e, open_ devs s filename behind flags memory = s.fail e ∧
      ∀ name, filename = some name → ¬Looks s name flags) ∨
    ∃ name fd flg, filename = some name ∧ Looks s name flags ∧ fd < FD_MAX ∧
      ¬(s.fdarray fd).inUse ∧ accessFlags flags = some flg ∧
      (memory = false ∧ open_ devs s filename behind flags memory =
          ⟨-1, s.set fd { s.fdarray fd with absfname := none }, true, false⟩ ∨
        memory = true ∧ lookupName (devname name behind) devs = none ∧
          open_ devs s filename behind flags memory =
            ⟨-1, { s.set fd { s.fdarray fd with absfname := none, rawdev := none } with
              errno := ENXIO }, devnameInside devs name, false⟩ ∨
        memory = true ∧ ∃ dev, lookupName (devname name behind) devs = some dev ∧
          open_ devs s filename behind flags memory =
            ⟨fd, s.set fd ⟨flg ||| FD_DATA_IS_RAW ||| FD_DATA_IS_INUSE,
              some (strcpy ⟨name.chars.length, []⟩ name).1, some dev⟩,
              devnameInside devs name && (strcpy ⟨name.chars.length, []⟩ name).2, false⟩) := by
  cases filename with
  | none => exact .inl ⟨EINVAL, rfl, nofun⟩
  | some name =>
    unfold open_
    by_cases hprefix : strncmp name.chars DEV_PATH DEV_PATH.length ≠ 0
    · refine .inl ⟨EACCES, if_pos hprefix, ?_⟩
      rintro _ ⟨⟩ hlooks
      exact hprefix ((prefix_iff name.chars).mpr hlooks.1)
    · have hpre := (prefix_iff name.chars).mp (Classical.not_not.mp hprefix)
      simp only [if_neg hprefix]
      rcases freeSlot_eq s with ⟨hfull, hnot⟩ | ⟨hlt, hfd, hfree⟩
      · refine .inl ⟨ENFILE, if_pos hfull.symm, ?_⟩
        rintro _ ⟨⟩ hlooks
        exact hnot hlooks.2.1
      · rw [if_neg (by omega)]
        cases hflags : accessFlags flags with
        | none =>
          refine .inl ⟨EINVAL, rfl, ?_⟩
          rintro _ ⟨⟩ hlooks
          have hsome := hlooks.2.2
          rw [hflags] at hsome
          cases hsome
        | some flg =>
          refine .inr ⟨name, _, flg, rfl, ⟨hpre, hfree, by rw [hflags]; rfl⟩, hlt, hfd,
            rfl, ?_⟩
          cases memory with
          | false => exact .inl ⟨rfl, if_pos rfl⟩
          | true =>
            refine .inr ?_
            cases hlookup : lookupName (devname name behind) devs with
            | none => exact .inl ⟨rfl, rfl, rfl⟩
            | some dev => exact .inr ⟨rfl, dev, rfl, rfl⟩

/-- Every slot in use holds a device. -/
def Raw (s : Files) : Prop :=
  ∀ fd, (s.fdarray fd).inUse → (s.fdarray fd).flags &&& FD_DATA_IS_RAW ≠ 0

lemma raw_start : Raw start :=
  fun _ h => absurd (show (0 : UInt32) &&& FD_DATA_IS_INUSE = 0 by decide) h

/-- The flags that `open` stores. -/
lemma accessFlags_inUse {flags flg : UInt32} (h : accessFlags flags = some flg) :
    (flg ||| FD_DATA_IS_RAW ||| FD_DATA_IS_INUSE) &&& FD_DATA_IS_RAW ≠ 0 ∧
      (flg ||| FD_DATA_IS_RAW ||| FD_DATA_IS_INUSE) &&& FD_DATA_IS_INUSE ≠ 0 := by
  unfold accessFlags at h
  split_ifs at h <;> obtain rfl := Option.some.inj h <;> decide

lemma Raw.set {s : Files} (hs : Raw s) {fd : Nat} {d : FdData}
    (hd : d.inUse → d.flags &&& FD_DATA_IS_RAW ≠ 0) : Raw (s.set fd d) := by
  intro i hi
  by_cases heq : i = fd
  · subst heq
    rw [Files.set_self] at hi ⊢
    exact hd hi
  · rw [Files.set_of_ne heq] at hi ⊢
    exact hs i hi

/-- A read or write leaves the table as it is. -/
lemma transfer_fdarray (io : Option Device → Bool → Int → Int × Bool) (s : Files) (fd : Int)
    (buf : Bool) (answers : Nat → Int) :
    (transfer io s fd buf answers).files.fdarray = s.fdarray := by
  unfold transfer
  dsimp only
  split_ifs <;> rfl

lemma raw_step {devs : List Device} {s : Files} (hs : Raw s) (c : Call) :
    Raw (step devs s c) := by
  cases c with
  | readCall fd buf answers =>
    intro i hi
    rw [step, call, read, transfer_fdarray] at hi ⊢
    exact hs i hi
  | writeCall fd buf answers =>
    intro i hi
    rw [step, call, write, transfer_fdarray] at hi ⊢
    exact hs i hi
  | openCall filename behind flags memory =>
    rw [step, call]
    rcases open_cases devs s filename behind flags memory with ⟨e, heq, -⟩ |
      ⟨name, fd, flg, -, -, -, hfree, hflg, ⟨-, heq⟩ | ⟨-, -, heq⟩ | ⟨-, dev, -, heq⟩⟩
    · rw [heq]
      exact hs
    · rw [heq]
      exact hs.set fun h => absurd h hfree
    · rw [heq]
      exact hs.set fun h => absurd h hfree
    · rw [heq]
      exact hs.set fun _ => (accessFlags_inUse hflg).1

/-- The driver is asked for a buffer and a character device. -/
lemma deviceIo_reached {passes : Int → Bool} {dev : Option Device} {buf : Bool} {answer : Int} :
    (deviceIo passes dev buf answer).2 = true ↔
      buf = true ∧ ∃ d, dev = some d ∧ d.type = .DEV_TYPE_CHAR := by
  cases dev <;> cases buf <;> simp [deviceIo]
  split_ifs with htype <;> simp [htype]

/-- The errors of the calls that do not get there. -/
lemma deviceIo_failed {passes : Int → Bool} {dev : Option Device} {buf : Bool} {answer : Int}
    (h : (deviceIo passes dev buf answer).2 = false) :
    (deviceIo passes dev buf answer).1 < EOK ∧ (deviceIo passes dev buf answer).1 ≠ EAGAIN := by
  unfold deviceIo at h ⊢
  cases dev with
  | none => exact show EINVAL < EOK ∧ EINVAL ≠ EAGAIN by decide
  | some dev =>
    dsimp only at h ⊢
    split_ifs at h ⊢ <;> decide

lemma ioLoop_reached {io : Int → Int × Bool} {b : Bool} (h : ∀ answer, (io answer).2 = b)
    (retries : Nat) (answers : Nat → Int) : (ioLoop io retries answers).2 = b := by
  induction retries generalizing answers with
  | zero => exact h _
  | succ retries ih =>
    rw [ioLoop]
    split_ifs
    · dsimp only
      rw [h, ih, Bool.or_self]
    · exact h _

lemma ioLoop_of_ne {io : Int → Int × Bool} {answers : Nat → Int}
    (h : (io (answers 0)).1 ≠ EAGAIN) (retries : Nat) :
    ioLoop io retries answers = io (answers 0) := by
  cases retries with
  | zero => rfl
  | succ retries => exact if_neg h

/-- A descriptor that was not opened with the mode is refused exactly if it is not one of a
character device. -/
theorem transfer_iff {s : Files} (hs : Raw s) (passes : Int → Bool) (mode : UInt32) (fd : Int)
    (buf : Bool) (answers : Nat → Int) :
    (¬s.Opened mode fd → (transfer (deviceIo passes) s fd buf answers).ret = -1 ∧
      (transfer (deviceIo passes) s fd buf answers).reached = false) ↔
        ¬s.Misused mode fd buf := by
  unfold transfer
  by_cases hrange : fd < 0 ∨ (FD_MAX : Int) ≤ fd
  · rw [if_pos hrange]
    refine iff_of_true (fun _ => ⟨rfl, rfl⟩) ?_
    rintro ⟨hlow, hhigh, -⟩
    omega
  · rw [if_neg hrange]
    by_cases huse : buf = false ∨ ¬(s.fdarray fd.toNat).inUse
    · rw [if_pos huse]
      refine iff_of_true (fun _ => ⟨rfl, rfl⟩) ?_
      rintro ⟨-, -, hin, -, hbuf, -⟩
      rcases huse with hnobuf | hnot
      · rw [hnobuf] at hbuf
        cases hbuf
      · exact hnot hin
    · rw [if_neg huse]
      have hin : (s.fdarray fd.toNat).inUse := Classical.not_not.mp fun h => huse (.inr h)
      have hbuf : buf = true := Bool.eq_true_of_not_eq_false fun h => huse (.inl h)
      rw [if_pos (hs _ hin)]
      have hopened : s.Opened mode fd ↔ (s.fdarray fd.toNat).flags &&& mode ≠ 0 :=
        ⟨fun h => h.2.2.2, fun h => ⟨by omega, by omega, hin, h⟩⟩
      rw [hopened]
      by_cases hchar : ∃ d, (s.fdarray fd.toNat).rawdev = some d ∧ d.type = .DEV_TYPE_CHAR
      · -- the driver is asked, whatever the mode
        have hasked : ∀ answer,
            (deviceIo passes (s.fdarray fd.toNat).rawdev buf answer).2 = true := fun answer =>
          deviceIo_reached.mpr ⟨hbuf, hchar⟩
        have hreached := ioLoop_reached hasked 10 answers
        have hout : ∀ r : Int × Bool, r.2 = true →
            (if r.1 < EOK then (⟨-1, { s with errno := EIO }, true, r.2⟩ : Outcome)
              else ⟨r.1, s, true, r.2⟩).reached = true := by
          intro r hr
          split_ifs <;> exact hr
        constructor
        · rintro h ⟨-, -, -, hmode, -⟩
          have hfalse := (h fun hne => hne hmode).2
          rw [hout _ hreached] at hfalse
          cases hfalse
        · intro hnot hmode
          exact absurd ⟨by omega, by omega, hin, Classical.not_not.mp hmode, hbuf, hchar⟩ hnot
      · have hfailed : ∀ answer,
            (deviceIo passes (s.fdarray fd.toNat).rawdev buf answer).2 = false :=
          fun answer => Bool.eq_false_iff.mpr fun h => hchar (deviceIo_reached.mp h).2
        obtain ⟨hneg, hne⟩ := deviceIo_failed (hfailed (answers 0))
        rw [ioLoop_of_ne hne, if_pos hneg]
        refine iff_of_true (fun _ => ⟨rfl, hfailed _⟩) ?_
        rintro ⟨-, -, -, -, -, hd⟩
        exact hchar hd

lemma transfer_inside (io : Option Device → Bool → Int → Int × Bool) (s : Files) (fd : Int)
    (buf : Bool) (answers : Nat → Int) : (transfer io s fd buf answers).inside = true := by
  unfold transfer
  dsimp only
  split_ifs <;> rfl

/-! ## Calls and runs -/

/-- The copy of a name does not fit. -/
lemma strcpy_overflows (name : CString) (bytes : List UInt8) :
    (strcpy ⟨name.chars.length, bytes⟩ name).2 = false := by
  rw [strcpy, List.length_append, List.length_singleton]
  exact decide_eq_false (by dsimp only; omega)

/-- Slots in use are not the free slot. -/
lemma Files.set_unchanged {s : Files} {fd : Nat} (hfree : ¬(s.fdarray fd).inUse) (d : FdData) :
    ∀ i, (s.fdarray i).inUse → (s.set fd d).fdarray i = s.fdarray i := by
  intro i hi
  refine Files.set_of_ne ?_ d
  rintro rfl
  exact hfree hi

/-- When `open` succeeds: the character behind `/dev` does not matter. -/
theorem open_ret_iff {devs : List Device} (hdevs : Registry devs) (s : Files)
    (filename : Option CString) (behind : List UInt8) (flags : UInt32) (memory : Bool) :
    0 ≤ (open_ devs s filename behind flags memory).ret ↔
      memory = true ∧ ∃ name, filename = some name ∧ Looks s name flags ∧
        ∃ d ∈ devs, d.name = devname name behind := by
  have hfail : ¬(0 : Int) ≤ -1 := by decide
  rcases open_cases devs s filename behind flags memory with ⟨e, heq, hnot⟩ |
    ⟨name, fd, flg, rfl, hlooks, hlt, hfree, hflg, ⟨rfl, heq⟩ | ⟨rfl, hnone, heq⟩ |
      ⟨rfl, dev, hdev, heq⟩⟩
  · rw [heq]
    refine iff_of_false hfail ?_
    rintro ⟨-, name, hname, hlooks, -⟩
    exact hnot name hname hlooks
  · rw [heq]
    exact iff_of_false hfail nofun
  · rw [heq]
    refine iff_of_false hfail ?_
    rintro ⟨-, name', ⟨⟩, -, d, hd, hname⟩
    exact lookupName_none hdevs hnone d hd hname
  · rw [heq]
    obtain ⟨hmem, hname⟩ := lookupName_some hdevs.short hdev
    exact iff_of_true (Int.natCast_nonneg fd) ⟨rfl, name, rfl, hlooks, dev, hmem, hname⟩

/-- An `open` changes no slot in use. -/
theorem open_frame (devs : List Device) (s : Files) (filename : Option CString)
    (behind : List UInt8) (flags : UInt32) (memory : Bool) :
    ∀ i, (s.fdarray i).inUse →
      (open_ devs s filename behind flags memory).files.fdarray i = s.fdarray i := by
  rcases open_cases devs s filename behind flags memory with ⟨e, heq, -⟩ |
    ⟨name, fd, flg, -, -, -, hfree, -, ⟨-, heq⟩ | ⟨-, -, heq⟩ | ⟨-, dev, -, heq⟩⟩
  · rw [heq]
    exact fun i _ => rfl
  · rw [heq]
    exact Files.set_unchanged hfree _
  · rw [heq]
    exact Files.set_unchanged hfree _
  · rw [heq]
    exact Files.set_unchanged hfree _

/-- An `open` that succeeds returns a slot that was free. -/
theorem open_slot {devs : List Device} {s : Files} {filename : Option CString}
    {behind : List UInt8} {flags : UInt32} {memory : Bool}
    (h : 0 ≤ (open_ devs s filename behind flags memory).ret) :
    ∃ fd < FD_MAX, (open_ devs s filename behind flags memory).ret = fd ∧ ¬(s.fdarray fd).inUse ∧
      ((open_ devs s filename behind flags memory).files.fdarray fd).inUse := by
  have hfail : ¬(0 : Int) ≤ -1 := by decide
  rcases open_cases devs s filename behind flags memory with ⟨e, heq, -⟩ |
    ⟨name, fd, flg, -, -, hlt, hfree, hflg, ⟨-, heq⟩ | ⟨-, -, heq⟩ | ⟨-, dev, -, heq⟩⟩
  · rw [heq] at h
    exact absurd h hfail
  · rw [heq] at h
    exact absurd h hfail
  · rw [heq] at h
    exact absurd h hfail
  · rw [heq]
    refine ⟨fd, hlt, rfl, hfree, ?_⟩
    rw [Files.set_self]
    exact (accessFlags_inUse hflg).2

/-- An `open` that fails without looking outside the name. -/
lemma Kept.of_fail {devs : List Device} (hdevs : Registry devs) {s : Files}
    {filename : Option CString} {behind : List UInt8} {flags : UInt32} {memory : Bool}
    (hret : (open_ devs s filename behind flags memory).ret = -1)
    (hinside : (open_ devs s filename behind flags memory).inside = true) :
    Kept devs s (.openCall filename behind flags memory) where
  opens := by
    rintro filename' behind' flags' ⟨⟩
    rw [call, open_ret_iff hdevs]
    refine iff_of_false (fun h => ?_) ?_
    · have hsuccess := (open_ret_iff hdevs s filename behind flags true).mpr h
      rw [hret] at hsuccess
      exact absurd hsuccess (by decide)
    · rintro ⟨hfree, hflags, name, rfl, hdevice⟩
      have hpre : DEV_PATH <+: name.chars := by
        obtain ⟨d, -, hchars⟩ := hdevice
        exact hchars ▸ List.prefix_append _ _
      have hsuccess := (open_ret_iff hdevs s (some name) behind flags true).mpr
        ⟨rfl, name, rfl, ⟨hpre, hfree, hflags⟩, hdevice.found behind⟩
      rw [hret] at hsuccess
      exact absurd hsuccess (by decide)
  slot := by
    rintro filename' behind' flags' memory' ⟨⟩ hsuccess
    exact open_slot hsuccess
  unchanged := by
    rintro filename' behind' flags' memory' - -
    exact open_frame devs s filename behind flags memory
  inside := hinside
  reads := nofun
  writes := nofun

/-- When a call does what is claimed of it. -/
theorem kept_iff {devs : List Device} (hdevs : Registry devs) {s : Files} (hs : Raw s) (c : Call) :
    Kept devs s c ↔ Meets devs s c := by
  cases c with
  | readCall fd buf answers =>
    rw [Meets, ← transfer_iff hs (fun answer => 0 ≤ answer) FD_DATA_IS_R fd buf answers]
    constructor
    · exact fun h => h.reads fd buf answers rfl
    · intro h
      refine ⟨nofun, nofun, nofun, transfer_inside _ s fd buf answers, ?_, nofun⟩
      rintro fd' buf' answers' heq
      cases heq
      exact h
  | writeCall fd buf answers =>
    rw [Meets, ← transfer_iff hs (fun answer => 0 < answer) FD_DATA_IS_W fd buf answers]
    constructor
    · exact fun h => h.writes fd buf answers rfl
    · intro h
      refine ⟨nofun, nofun, nofun, transfer_inside _ s fd buf answers, nofun, ?_⟩
      rintro fd' buf' answers' heq
      cases heq
      exact h
  | openCall filename behind flags memory =>
    rcases open_cases devs s filename behind flags memory with ⟨e, heq, hnot⟩ |
      ⟨name, fd, flg, rfl, hlooks, hlt, hfree, hflg, ⟨rfl, heq⟩ | ⟨rfl, hnone, heq⟩ |
        ⟨rfl, dev, hdev, heq⟩⟩
    · refine iff_of_true (Kept.of_fail hdevs (by rw [heq]; rfl) (by rw [heq]; rfl)) ?_
      cases filename with
      | none => trivial
      | some name => exact fun _ hlooks => absurd hlooks (hnot name rfl)
    · exact iff_of_true (Kept.of_fail hdevs (by rw [heq]) (by rw [heq])) nofun
    · have hnames := lookupName_none hdevs hnone
      have hinside : devnameInside devs name = true ↔ (name.chars = DEV_PATH → devs = []) :=
        devnameInside_iff hlooks.1
      constructor
      · intro h _ _
        have h := h.inside
        rw [call, heq] at h
        exact ⟨hnames, hinside.mp h⟩
      · intro h
        refine Kept.of_fail hdevs (by rw [heq]) ?_
        rw [heq]
        exact hinside.mpr (h rfl hlooks).2
    · -- the copy of the name does not fit into its block
      obtain ⟨hmem, hname⟩ := lookupName_some hdevs.short hdev
      refine iff_of_false (fun h => ?_) fun h => (h rfl hlooks).1 dev hmem hname
      have hinside := h.inside
      rw [call, heq] at hinside
      rw [strcpy_overflows, Bool.and_false] at hinside
      cases hinside

/-- All calls of a run do what is claimed exactly if no `open` finds a device or looks behind
the name `/dev`, and no descriptor is used without its mode. -/
theorem descriptors_iff (regs : List CreateCall) (calls : List Call) :
    Along (step (devices regs).nodes) (Kept (devices regs).nodes) start calls ↔
      Along (step (devices regs).nodes) (Meets (devices regs).nodes) start calls := by
  have hdevs := registry_devices regs
  constructor
  · refine Along.of_invariant (fun s c hs hkept => ?_) calls raw_start
    exact ⟨raw_step hs c, (kept_iff hdevs hs c).mp hkept⟩
  · refine Along.of_invariant (fun s c hs hmeets => ?_) calls raw_start
    exact ⟨raw_step hs c, (kept_iff hdevs hs c).mpr hmeets⟩

/-- The device `uart0`. -/
def uart0 : List CreateCall := [⟨some ⟨0, uart⟩, 0, 0, DRV_IS_CHAR, true, fun _ => 0, 0⟩]

/-- `"/dev/uart0"` -/
def devUart0 : CString :=
  ⟨[0x2F, 0x64, 0x65, 0x76, 0x2F, 0x75, 0x61, 0x72, 0x74, 0x30], by simp⟩

/-- `"/devxuart0"` -/
def devxUart0 : CString :=
  ⟨[0x2F, 0x64, 0x65, 0x76, 0x78, 0x75, 0x61, 0x72, 0x74, 0x30], by simp⟩

/-- The copy of `/dev/uart0` does not fit, `/devxuart0` is opened as well, and a descriptor
opened for writing is read from. -/
theorem descriptors_broken :
    ¬Kept (devices uart0).nodes start (.openCall (some devUart0) [] O_WRONLY true) ∧
      ¬Kept (devices uart0).nodes start (.openCall (some devxUart0) [] O_WRONLY true) ∧
      ¬Kept (devices uart0).nodes
        (step (devices uart0).nodes start (.openCall (some devUart0) [] O_WRONLY true))
        (.readCall 0 true fun _ => 1) := by
  refine ⟨fun h => ?_, fun h => ?_, fun h => ?_⟩
  · exact absurd h.inside (by decide +kernel)
  · have hopens := (h.opens (some devxUart0) [] O_WRONLY rfl).mp (by decide +kernel)
    obtain ⟨-, -, name, hname, d, -, hchars⟩ := hopens
    cases hname
    cases hchars
  · have hnot : ¬(step (devices uart0).nodes start
        (.openCall (some devUart0) [] O_WRONLY true)).Opened FD_DATA_IS_R 0 := by
      rintro ⟨-, -, -, hmode⟩
      exact hmode (by decide +kernel)
    exact absurd (h.reads 0 true (fun _ => 1) rfl hnot).2 (by decide +kernel)

end DiegOS.Kernel.Descriptors
