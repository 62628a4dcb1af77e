import DiegOS.Lib.WhileLoops

/-!
# The PCI bus

The enumeration of the functions on the bus and the search among the devices it has
found, `pci_lib.c`.  A device is known by its place in the list; a configuration
space is what a function presents in its 256 bytes.

Main results:

- Theorem `enumerated_pairwise`: the devices of the list have different addresses.
- Theorem `capLoop_isSome_iff`: when the walk over the capabilities ends.
- Theorem `capWalk_safe_iff`: when it ends and stays in the extended area.
- Theorem `search_again`: the search that goes on after its first result finds it again.
- Theorem `search_iterates_iff`: when the search finds every device once.
-/

namespace DiegOS.Kernel.PciBus

open Lib

/-! ## The code -/

def MAX_PCI_BUSSES : Nat := 256

def MAX_PCI_DEVS : Nat := 32

def MAX_PCI_FUNCS : Nat := 8

/-- What `pci_read_config` reads. -/
abbrev ConfigSpace := Fin 256 → UInt8

namespace ConfigSpace

variable (cfgspace : ConfigSpace)

def byte (n : Nat) : UInt8 := cfgspace (Fin.ofNat 256 n)

def word (n : Nat) : UInt16 :=
  (cfgspace.byte n).toUInt16 ||| (cfgspace.byte (n + 1)).toUInt16 <<< 8

def dword (n : Nat) : UInt32 :=
  (cfgspace.word n).toUInt32 ||| (cfgspace.word (n + 2)).toUInt32 <<< 16

def vendorid : UInt16 := cfgspace.word 0

def deviceid : UInt16 := cfgspace.word 2

def status : UInt16 := cfgspace.word 6

def revisionid : UInt8 := cfgspace.byte 8

def headerType : UInt8 := cfgspace.byte 14

/-- `BAR[i]`, at the same place in both types of header. -/
def BAR (i : Nat) : UInt32 := cfgspace.dword (16 + 4 * i)

def capPointer : UInt8 := cfgspace.byte 52

def intLine : UInt8 := cfgspace.byte 60

def intPin : UInt8 := cfgspace.byte 61

/-- `extended[i]`: an index below 0 reads the header. -/
def extended (i : Int) : UInt8 := cfgspace.byte (64 + i).toNat

end ConfigSpace

def STATUS_CAP_LIST : UInt16 := 0x10

def HEADER_TYPE_MULTIFUNCTION : UInt8 := 0x80

def HEADER_TYPE_HOST : UInt8 := 0x00

def HEADER_TYPE_PCI2PCI_BRIDGE : UInt8 := 0x01

/-- A `pci_bus_device_t`. -/
structure PciBusDevice where
  function : Fin 8
  device : Fin 32
  bus : Fin 256
  vendorid : UInt16
  deviceid : UInt16
  revisionid : UInt8
  systemDeviceid : UInt8
  BAR : List UInt32
  intPin : UInt8
  intLine : UInt8
  msiMsgData : UInt16
deriving DecidableEq

/-- `pci_dev_list` and `dev_counter`. -/
structure Bus where
  devices : List PciBusDevice
  counter : UInt32

/-- One round of the capability loop, for `cap_ptr`: the next pointer, or the bits of the
message control word that go to `msi_msg_data` if there is an MSI capability. -/
def capRound (cfgspace : ConfigSpace) (capPtr : Nat) : Nat ⊕ Option UInt8 :=
  if capPtr = 0 then .inr none
  else if 0x05 = cfgspace.extended (capPtr - 64) then
    .inr (some ((cfgspace.extended (capPtr - 62) &&& 0xE) >>> 1))
  else .inl (cfgspace.extended (capPtr - 63) &&& 0xFC).toNat

/-- The indices of `extended` that a round reads. -/
def capReads (cfgspace : ConfigSpace) (capPtr : Nat) : List Int :=
  if capPtr = 0 then []
  else if 0x05 = cfgspace.extended (capPtr - 64) then [(capPtr : Int) - 64, (capPtr : Int) - 62]
  else [(capPtr : Int) - 64, (capPtr : Int) - 63]

/-- `cfgspace->type0.cap_pointer & 0xFC` -/
def capStart (cfgspace : ConfigSpace) : Nat := (cfgspace.capPointer &&& 0xFC).toNat

/-- The loop; nothing if it is never left. -/
def capLoop (cfgspace : ConfigSpace) : Option (Option UInt8) :=
  runFor (capRound cfgspace) 257 (capStart cfgspace)

/-- A bus has devices. -/
local instance neZero_devices : NeZero 32 := inferInstance

/-- What `pci_bus_enumerate_function` adds to the list, for its place on the bus: nothing
at all if it does not return. -/
def newDevice (cfgspace : ConfigSpace) (bus device function : Nat) (s : Bus) :
    Option (Option PciBusDevice) :=
  let data : PciBusDevice :=
    { function := Fin.ofNat 8 function, device := Fin.ofNat 32 device, bus := Fin.ofNat 256 bus
      vendorid := cfgspace.vendorid, deviceid := cfgspace.deviceid
      revisionid := cfgspace.revisionid, systemDeviceid := s.counter.toUInt8
      BAR := [], intPin := cfgspace.intPin, intLine := cfgspace.intLine, msiMsgData := 0 }
  let type := cfgspace.headerType &&& ~~~HEADER_TYPE_MULTIFUNCTION
  if type = HEADER_TYPE_HOST then
    let data := { data with BAR := (List.range 6).map cfgspace.BAR }
    if cfgspace.status &&& STATUS_CAP_LIST ≠ 0 then
      match capLoop cfgspace with
      | none => none
      | some none => some (some data)
      | some (some bits) =>
        some (some { data with
          msiMsgData := ((s.counter + 1) * 32 + bits.toUInt32).toUInt16 })
    else some (some data)
  else if type = HEADER_TYPE_PCI2PCI_BRIDGE then
    some (some { data with BAR := (List.range 2).map cfgspace.BAR })
  else some none

/-- `pci_bus_enumerate_function`: the value it returns and what it leaves in
`is_multi`, if the pool has `memory` for a device. -/
def pciBusEnumerateFunction (cfgspace : ConfigSpace) (memory : Bool) (bus device function : Nat)
    (isMulti : Bool) (s : Bus) : Option (Bool × Bool × Bus) :=
  if 0xFFFF = cfgspace.vendorid ∧ 0xFFFF = cfgspace.deviceid then some (false, isMulti, s)
  else if !memory then some (false, isMulti, s)
  else
    let isMulti := cfgspace.headerType &&& HEADER_TYPE_MULTIFUNCTION != 0
    match newDevice cfgspace bus device function s with
    | none => none
    | some none => some (false, isMulti, { s with counter := s.counter + 1 })
    | some (some data) => some (true, isMulti, ⟨data :: s.devices, s.counter + 1⟩)

/-- What the bus answers at every place, and whether there is memory for what is found
there. -/
structure Machine where
  config : Nat → Nat → Nat → ConfigSpace
  memory : Nat → Nat → Nat → Bool

/-- `pci_bus_enumerate_device`; `is_multi` is only used where it has been set. -/
def pciBusEnumerateDevice (m : Machine) (bus device : Nat) (s : Bus) : Option Bus :=
  match pciBusEnumerateFunction (m.config bus device 0) (m.memory bus device 0) bus device 0
      false s with
  | none => none
  | some (valid, isMulti, s) =>
    if valid && isMulti then
      (List.range (MAX_PCI_FUNCS - 1)).foldlM (fun s i =>
        (pciBusEnumerateFunction (m.config bus device (i + 1)) (m.memory bus device (i + 1))
          bus device (i + 1) isMulti s).map fun r => r.2.2) s
    else some s

def pciBusEnumerateBus (m : Machine) (bus : Nat) (s : Bus) : Option Bus :=
  (List.range MAX_PCI_DEVS).foldlM (fun s dev => pciBusEnumerateDevice m bus dev s) s

def pciBusEnumerate (m : Machine) (s : Bus) : Option Bus :=
  (List.range MAX_PCI_BUSSES).foldlM (fun s bus => pciBusEnumerateBus m bus s) s

/-- The loop over the list that looks for `prev`: how many devices it passes. -/
def skipPrev (prev : PciBusDevice) : List PciBusDevice → Nat
  | [] => 0
  | cursor :: nodes =>
    if cursor.bus ≠ prev.bus ∧ cursor.device ≠ prev.device ∧ cursor.function ≠ prev.function
    then skipPrev prev nodes + 1
    else 0

/-- The loop that looks for the identifiers, from a place in the list. -/
def findFrom (vendorid deviceid : UInt16) (nodes : List PciBusDevice) (start : Nat) :
    Option Nat :=
  ((nodes.drop start).findIdx? fun cursor =>
    cursor.vendorid == vendorid && cursor.deviceid == deviceid).map (start + ·)

/-- `pci_bus_find_device`: the place of the device it returns. -/
def pciBusFindDevice (nodes : List PciBusDevice) (vendorid deviceid : UInt16)
    (prev : Option PciBusDevice) : Option Nat :=
  match prev with
  | none => findFrom vendorid deviceid nodes 0
  | some prev => findFrom vendorid deviceid nodes (skipPrev prev nodes)

/-! ## The enumeration -/

variable {m : Machine} {s s' : Bus} {bus device function : Nat} {counter : UInt32}

namespace PciBusDevice

/-- The place on the bus, in the order in which the places are asked. -/
def place (dev : PciBusDevice) : Nat :=
  (dev.bus.val * MAX_PCI_DEVS + dev.device.val) * MAX_PCI_FUNCS + dev.function.val

end PciBusDevice

/-- The places before `k` have been asked; the device found last is the first. -/
structure Asked (k : Nat) (s : Bus) : Prop where
  before : ∀ dev ∈ s.devices, dev.place < k
  falling : s.devices.Pairwise fun dev dev' => dev'.place < dev.place

lemma Asked.mono {k l : Nat} (h : Asked k s) (hkl : k ≤ l) : Asked l s :=
  ⟨fun dev hdev => (h.before dev hdev).trans_le hkl, h.falling⟩

lemma Asked.cons {k : Nat} (h : Asked k s) {data : PciBusDevice}
    (hplace : k ≤ data.place) : Asked (data.place + 1) ⟨data :: s.devices, counter⟩ where
  before := by
    intro dev hdev
    rcases List.mem_cons.mp hdev with rfl | hdev
    · exact Nat.lt_succ_self _
    · exact (h.before dev hdev).trans_le (by omega)
  falling := List.pairwise_cons.mpr
    ⟨fun dev hdev => (h.before dev hdev).trans_le hplace, h.falling⟩

/-- A new device has the place it was asked at. -/
lemma newDevice_place {cfgspace : ConfigSpace} {data : PciBusDevice}
    (hbus : bus < MAX_PCI_BUSSES) (hdevice : device < MAX_PCI_DEVS)
    (hfunction : function < MAX_PCI_FUNCS)
    (h : newDevice cfgspace bus device function s = some (some data)) :
    data.place = (bus * MAX_PCI_DEVS + device) * MAX_PCI_FUNCS + function := by
  have hwrap : data.bus = Fin.ofNat 256 bus ∧ data.device = Fin.ofNat 32 device ∧
      data.function = Fin.ofNat 8 function := by
    simp only [newDevice] at h
    split at h
    · split at h
      · split at h
        · contradiction
        · cases h; exact ⟨rfl, rfl, rfl⟩
        · cases h; exact ⟨rfl, rfl, rfl⟩
      · cases h; exact ⟨rfl, rfl, rfl⟩
    · split at h
      · cases h; exact ⟨rfl, rfl, rfl⟩
      · cases h
  simp only [MAX_PCI_BUSSES, MAX_PCI_DEVS, MAX_PCI_FUNCS] at hbus hdevice hfunction ⊢
  simp only [PciBusDevice.place, hwrap, Fin.val_ofNat, MAX_PCI_DEVS, MAX_PCI_FUNCS,
    Nat.mod_eq_of_lt hbus, Nat.mod_eq_of_lt hdevice, Nat.mod_eq_of_lt hfunction]

lemma Asked.enumerateFunction {cfgspace : ConfigSpace} {memory isMulti : Bool}
    {r : Bool × Bool × Bus}
    (hbus : bus < MAX_PCI_BUSSES) (hdevice : device < MAX_PCI_DEVS)
    (hfunction : function < MAX_PCI_FUNCS)
    (hs : Asked ((bus * MAX_PCI_DEVS + device) * MAX_PCI_FUNCS + function) s)
    (h : pciBusEnumerateFunction cfgspace memory bus device function isMulti s = some r) :
    Asked ((bus * MAX_PCI_DEVS + device) * MAX_PCI_FUNCS + function + 1) r.2.2 := by
  simp only [pciBusEnumerateFunction] at h
  split at h
  · cases h
    exact hs.mono (Nat.le_succ _)
  · split at h
    · cases h
      exact hs.mono (Nat.le_succ _)
    · split at h
      · contradiction
      · cases h
        obtain ⟨hbefore, hfalling⟩ := hs.mono (Nat.le_succ _)
        exact ⟨hbefore, hfalling⟩
      · next data hnew =>
          cases h
          have hplace := newDevice_place hbus hdevice hfunction hnew
          rw [← hplace] at hs ⊢
          exact hs.cons le_rfl

/-- What one round of a loop keeps for the next index holds after the loop. -/
lemma foldlM_range {σ : Type} {P : Nat → σ → Prop} {f : σ → Nat → Option σ} {n : Nat}
    {s s' : σ} (hround : ∀ i < n, ∀ s s', P i s → f s i = some s' → P (i + 1) s') (hs : P 0 s)
    (h : (List.range n).foldlM f s = some s') : P n s' := by
  induction n generalizing s' with
  | zero => cases h; exact hs
  | succ n ih =>
    rw [List.range_succ, List.foldlM_append] at h
    obtain ⟨t, ht, hlast⟩ := Option.bind_eq_some_iff.mp h
    have hn := ih (fun i hi => hround i (by omega)) ht
    rw [List.foldlM_cons] at hlast
    obtain ⟨t', ht', hnil⟩ := Option.bind_eq_some_iff.mp hlast
    cases hnil
    exact hround n (Nat.lt_succ_self n) t s' hn ht'

lemma Asked.enumerateDevice (hbus : bus < MAX_PCI_BUSSES) (hdevice : device < MAX_PCI_DEVS)
    (hs : Asked ((bus * MAX_PCI_DEVS + device) * MAX_PCI_FUNCS) s)
    (h : pciBusEnumerateDevice m bus device s = some s') :
    Asked ((bus * MAX_PCI_DEVS + (device + 1)) * MAX_PCI_FUNCS) s' := by
  have hnext : (bus * MAX_PCI_DEVS + (device + 1)) * MAX_PCI_FUNCS =
      (bus * MAX_PCI_DEVS + device) * MAX_PCI_FUNCS + 1 + (MAX_PCI_FUNCS - 1) := by
    simp only [MAX_PCI_DEVS, MAX_PCI_FUNCS]
    omega
  simp only [pciBusEnumerateDevice] at h
  rw [hnext]
  split at h
  · contradiction
  · next hfirst =>
      have hone := Asked.enumerateFunction hbus hdevice (by decide) hs hfirst
      split at h
      · refine foldlM_range (P := fun i => Asked
          ((bus * MAX_PCI_DEVS + device) * MAX_PCI_FUNCS + 1 + i)) ?_ hone h
        intro i hi t u ht hstep
        obtain ⟨r, hr, rfl⟩ := Option.map_eq_some_iff.mp hstep
        rw [Nat.add_assoc, Nat.add_comm 1 i] at ht
        have hfun := Asked.enumerateFunction hbus hdevice
          (by simp only [MAX_PCI_FUNCS] at hi ⊢; omega) ht hr
        exact hfun.mono (by omega)
      · cases h
        exact hone.mono (Nat.le_add_right _ _)

lemma Asked.enumerateBus (hbus : bus < MAX_PCI_BUSSES)
    (hs : Asked (bus * MAX_PCI_DEVS * MAX_PCI_FUNCS) s)
    (h : pciBusEnumerateBus m bus s = some s') :
    Asked ((bus + 1) * MAX_PCI_DEVS * MAX_PCI_FUNCS) s' := by
  have hend := foldlM_range (P := fun i => Asked ((bus * MAX_PCI_DEVS + i) * MAX_PCI_FUNCS))
    (fun i hi _ _ ht hstep => Asked.enumerateDevice hbus hi ht hstep) hs h
  rw [Nat.succ_mul]
  exact hend

/-- The devices of an enumerated list have different places, the later ones first. -/
theorem enumerated_pairwise (h : pciBusEnumerate m ⟨[], counter⟩ = some s') :
    s'.devices.Pairwise fun dev dev' => dev'.place < dev.place := by
  have hempty : Asked (0 * MAX_PCI_DEVS * MAX_PCI_FUNCS) ⟨[], counter⟩ :=
    ⟨fun _ hdev => absurd hdev List.not_mem_nil, List.Pairwise.nil⟩
  have hall := foldlM_range (P := fun i => Asked (i * MAX_PCI_DEVS * MAX_PCI_FUNCS))
    (fun i hi _ _ ht hstep => Asked.enumerateBus hi ht hstep) hempty h
  exact hall.falling

/-- One device with two functions. -/
def twoFunctions : Machine :=
  ⟨fun bus device function _ => if bus = 0 ∧ device = 0 ∧ function < 2 then 0x80 else 0xFF,
    fun _ _ _ => true⟩

/-- The other busses are empty. -/
lemma enumerateBus_twoFunctions (hbus : bus ≠ 0) (s : Bus) :
    pciBusEnumerateBus twoFunctions bus s = some s := by
  unfold pciBusEnumerateBus
  induction List.range MAX_PCI_DEVS with
  | nil => rfl
  | cons device l ih =>
    have hnone : pciBusEnumerateDevice twoFunctions bus device s = some s := by
      simp only [pciBusEnumerateDevice, pciBusEnumerateFunction, twoFunctions, hbus, false_and]
      rfl
    rw [List.foldlM_cons, hnone]
    exact ih

/-- The list of its functions. -/
theorem enumerated_pair : ∃ s', pciBusEnumerate twoFunctions ⟨[], 0⟩ = some s' ∧
    s'.devices.length = 2 ∧ s'.devices.Pairwise fun dev dev' => dev'.place < dev.place := by
  have htwo : (pciBusEnumerateBus twoFunctions 0 ⟨[], 0⟩).map (·.devices.length) = some 2 := by
    decide +kernel
  obtain ⟨s', hfirst, hlength⟩ := Option.map_eq_some_iff.mp htwo
  have hrest : ∀ l : List Nat, (l.map Nat.succ).foldlM
      (fun s bus => pciBusEnumerateBus twoFunctions bus s) s' = some s' := by
    intro l
    induction l with
    | nil => rfl
    | cons bus l ih =>
      rw [List.map_cons, List.foldlM_cons, enumerateBus_twoFunctions (Nat.succ_ne_zero bus)]
      exact ih
  have h : pciBusEnumerate twoFunctions ⟨[], 0⟩ = some s' := by
    rw [pciBusEnumerate, MAX_PCI_BUSSES, List.range_succ_eq_map, List.foldlM_cons, hfirst,
      Option.bind_eq_bind, Option.bind_some, hrest]
  exact ⟨s', h, hlength, enumerated_pairwise h⟩

/-! ## The capabilities -/

variable {cfgspace : ConfigSpace} {n p : Nat}

/-- The pointer in the capability at a place. -/
def nextCap (cfgspace : ConfigSpace) (capPtr : Nat) : Nat :=
  (cfgspace.extended (capPtr - 63) &&& 0xFC).toNat

/-- The place ends the walk: no capability is there, or an MSI capability. -/
def Last (cfgspace : ConfigSpace) (capPtr : Nat) : Prop :=
  capPtr = 0 ∨ 0x05 = cfgspace.extended (capPtr - 64)

instance : Decidable (Last cfgspace p) := inferInstanceAs (Decidable (_ ∨ _))

/-- The result at a place where the walk ends. -/
def capLeave (cfgspace : ConfigSpace) (capPtr : Nat) : Option (Option UInt8) :=
  if capPtr = 0 then some none
  else if 0x05 = cfgspace.extended (capPtr - 64) then
    some (some ((cfgspace.extended (capPtr - 62) &&& 0xE) >>> 1))
  else none

lemma capRound_eq (cfgspace : ConfigSpace) :
    capRound cfgspace = walkRound (nextCap cfgspace) (capLeave cfgspace) := by
  ext p
  simp only [capRound, walkRound, capLeave, nextCap]
  split
  · rfl
  · split <;> rfl

lemma capLeave_eq_none_iff : capLeave cfgspace p = none ↔ ¬Last cfgspace p := by
  simp only [capLeave, Last]
  split
  · next hzero => simp [hzero]
  · next hzero =>
      split
      · next hmsi => simp [hmsi]
      · next hmsi => simp [hzero, hmsi]

/-- The pointer after some links. -/
def capPtr (cfgspace : ConfigSpace) (n : Nat) : Nat := (nextCap cfgspace)^[n] (capStart cfgspace)

lemma capPtr_le (cfgspace : ConfigSpace) (n : Nat) : capPtr cfgspace n ≤ 252 := by
  have hmask : ∀ x : UInt8, (x &&& 0xFC).toNat ≤ 252 := by
    intro x
    rw [UInt8.toNat_and]
    exact Nat.and_le_right
  cases n with
  | zero => exact hmask _
  | succ n =>
    rw [capPtr, Function.iterate_succ_apply']
    exact hmask _

lemma capGoesOn (cfgspace : ConfigSpace) :
    GoesOnIn (capRound cfgspace) (Finset.range 256) (capStart cfgspace) := by
  rw [capRound_eq]
  apply goesOnIn_walk
  intro n _
  have hle := capPtr_le cfgspace n
  rw [Finset.mem_range]
  exact Nat.lt_of_le_of_lt hle (by decide)

/-- The bounded loop has a result exactly if the loop ends. -/
theorem capLoop_isSome_iff :
    (capLoop cfgspace).isSome ↔ Halts (capRound cfgspace) (capStart cfgspace) := by
  rw [Option.isSome_iff_exists]
  constructor
  · intro h
    obtain ⟨r, hr⟩ := h
    exact ⟨r, .of_runFor hr⟩
  · intro h
    obtain ⟨r, hr⟩ := h
    exact ⟨r, hr.runFor_eq (capGoesOn cfgspace) (by rw [Finset.card_range]; decide)⟩

/-- The loop is at the pointer after some links if no place before ends the walk. -/
lemma after_capRound_iff :
    after (capRound cfgspace) n (capStart cfgspace) = some p ↔
      p = capPtr cfgspace n ∧ ∀ m < n, ¬Last cfgspace (capPtr cfgspace m) := by
  rw [capRound_eq]
  simp only [← capLeave_eq_none_iff]
  constructor
  · exact after_walk
  · intro h
    rw [h.1]
    exact after_walk_of_forall h.2

/-- The walk ends and every read is one of the extended area. -/
def CapWalkSafe (cfgspace : ConfigSpace) : Prop :=
  Halts (capRound cfgspace) (capStart cfgspace) ∧
    ∀ n p, after (capRound cfgspace) n (capStart cfgspace) = some p →
      ∀ i ∈ capReads cfgspace p, 0 ≤ i ∧ i ≤ 191

/-- Up to the end of the list or an MSI capability the pointers are those of different
capabilities above the header. -/
def CapsLinked (cfgspace : ConfigSpace) : Prop :=
  ∀ n, (∀ m < n, ¬Last cfgspace (capPtr cfgspace m)) → capPtr cfgspace n ≠ 0 →
    64 ≤ capPtr cfgspace n ∧ ∀ m < n, capPtr cfgspace m ≠ capPtr cfgspace n

lemma capReads_mem (hp : p ≤ 252) :
    (∀ i ∈ capReads cfgspace p, 0 ≤ i ∧ i ≤ 191) ↔ (p ≠ 0 → 64 ≤ p) := by
  simp only [capReads]
  split
  · next hzero => simp [hzero]
  · next hzero =>
      split
      · simp only [List.mem_cons, List.not_mem_nil, or_false, forall_eq_or_imp, forall_eq]
        omega
      · simp only [List.mem_cons, List.not_mem_nil, or_false, forall_eq_or_imp, forall_eq]
        omega

lemma not_comesBack_iff :
    ¬ComesBack (capRound cfgspace) (capStart cfgspace) ↔
      ∀ n, (∀ m < n, ¬Last cfgspace (capPtr cfgspace m)) → capPtr cfgspace n ≠ 0 →
        ∀ m < n, capPtr cfgspace m ≠ capPtr cfgspace n := by
  constructor
  · intro hback n hn _ m hm heq
    have hmeet := after_capRound_iff.mpr ⟨rfl, fun k hk => hn k (Nat.lt_trans hk hm)⟩
    have hagain := after_capRound_iff.mpr ⟨heq, hn⟩
    rw [show n = m + (n - m) by omega, after_add, hmeet, Option.bind_some] at hagain
    exact hback ⟨m, n - m, _, by omega, hmeet, hagain⟩
  · intro hall hback
    obtain ⟨n, k, t, hk, hn, hturn⟩ := hback
    have hsum : after (capRound cfgspace) (n + k) (capStart cfgspace) = some t := by
      rw [after_add, hn, Option.bind_some, hturn]
    obtain ⟨hfirst, -⟩ := after_capRound_iff.mp hn
    obtain ⟨hagain, hbefore⟩ := after_capRound_iff.mp hsum
    refine hall (n + k) hbefore ?_ n (by omega) (hfirst ▸ hagain)
    -- the walk goes on from the place where it turns
    rw [← hagain, hfirst]
    exact fun hzero => hbefore n (by omega) (.inl hzero)

lemma CapWalkSafe.linked (h : CapWalkSafe cfgspace) : CapsLinked cfgspace := by
  intro n hn hp
  have hends := ends_iff_not_comesBack (capGoesOn cfgspace)
  refine ⟨?_, not_comesBack_iff.mp (hends.mp h.1) n hn hp⟩
  have hreads := h.2 n _ (after_capRound_iff.mpr ⟨rfl, hn⟩)
  exact (capReads_mem (capPtr_le cfgspace n)).mp hreads hp

lemma CapsLinked.safe (h : CapsLinked cfgspace) : CapWalkSafe cfgspace := by
  have hends := ends_iff_not_comesBack (capGoesOn cfgspace)
  refine ⟨hends.mpr (not_comesBack_iff.mpr fun n hn hp => (h n hn hp).2), ?_⟩
  intro n p hafter
  obtain ⟨rfl, hn⟩ := after_capRound_iff.mp hafter
  exact (capReads_mem (capPtr_le cfgspace n)).mpr fun hp => (h n hn hp).1

/-- The walk over the capabilities ends inside the extended area exactly if the capabilities
are linked above the header and without a circle. -/
theorem capWalk_safe_iff (cfgspace : ConfigSpace) :
    CapWalkSafe cfgspace ↔ CapsLinked cfgspace :=
  ⟨CapWalkSafe.linked, CapsLinked.safe⟩

/-- A function whose only capability links to itself. -/
def selfLinked : ConfigSpace := fun i =>
  if i = 0 then 0x86 else if i = 1 then 0x80
  else if i = 6 then 0x10 else if i = 52 then 0x40 else if i = 64 then 0x01
  else if i = 65 then 0x40 else 0

theorem capWalk_broken :
    ¬∀ cfgspace : ConfigSpace, cfgspace.status &&& STATUS_CAP_LIST ≠ 0 →
      cfgspace.headerType &&& ~~~HEADER_TYPE_MULTIFUNCTION = HEADER_TYPE_HOST →
        CapWalkSafe cfgspace := by
  intro h
  have hsafe := h selfLinked (by decide) (by decide)
  have hlinked := hsafe.linked 1 (by decide) (by decide)
  exact hlinked.2 0 (by decide) (by decide)

/-! ## The search -/

variable {nodes : List PciBusDevice} {vid did : UInt16} {i j start : Nat} {dev : PciBusDevice}

/-- The device has the identifiers. -/
def Matches (vid did : UInt16) (dev : PciBusDevice) : Prop :=
  dev.vendorid = vid ∧ dev.deviceid = did

/-- The calls that begin with some `prev` and go on with each result until there is none,
and the places they return. -/
inductive Search (nodes : List PciBusDevice) (vid did : UInt16) : Option Nat → List Nat → Prop
  | null {prev : Option Nat}
      (h : pciBusFindDevice nodes vid did (prev.bind (nodes[·]?)) = none) :
      Search nodes vid did prev []
  | found {prev : Option Nat} {i : Nat} {found : List Nat}
      (h : pciBusFindDevice nodes vid did (prev.bind (nodes[·]?)) = some i)
      (hrest : Search nodes vid did (some i) found) : Search nodes vid did prev (i :: found)

/-- The search that begins without a device ends after it has returned every device with the
identifiers once. -/
def SearchIterates (nodes : List PciBusDevice) (vid did : UInt16) : Prop :=
  ∃ found, Search nodes vid did none found ∧ found.Nodup ∧
    ∀ i, i ∈ found ↔ ∃ dev, nodes[i]? = some dev ∧ Matches vid did dev

lemma matches_iff :
    (dev.vendorid == vid && dev.deviceid == did) = true ↔ Matches vid did dev := by
  rw [Bool.and_eq_true, beq_iff_eq, beq_iff_eq]
  rfl

/-- The search from a place returns the first match from there on. -/
lemma findFrom_eq_some_iff :
    findFrom vid did nodes start = some i ↔
      start ≤ i ∧ (∃ dev, nodes[i]? = some dev ∧ Matches vid did dev) ∧
        ∀ j, start ≤ j → j < i → ∀ dev, nodes[j]? = some dev → ¬Matches vid did dev := by
  simp only [findFrom, Option.map_eq_some_iff, List.findIdx?_eq_some_iff_getElem,
    List.getElem_drop, matches_iff, List.length_drop]
  constructor
  · intro h
    obtain ⟨k, ⟨hk, hmatch, hbefore⟩, rfl⟩ := h
    refine ⟨Nat.le_add_right _ _, ⟨_, List.getElem?_eq_getElem (by omega), hmatch⟩, ?_⟩
    intro j hstart hj dev hdev
    obtain ⟨hlt, rfl⟩ := List.getElem?_eq_some_iff.mp hdev
    have hnot := hbefore (j - start) (by omega)
    simpa only [Nat.add_sub_of_le hstart] using hnot
  · intro h
    obtain ⟨hstart, ⟨dev, hdev, hmatch⟩, hbefore⟩ := h
    obtain ⟨hlt, rfl⟩ := List.getElem?_eq_some_iff.mp hdev
    refine ⟨i - start, ⟨by omega, ?_, ?_⟩, Nat.add_sub_of_le hstart⟩
    · simpa only [Nat.add_sub_of_le hstart] using hmatch
    · intro j hj
      exact hbefore (start + j) (Nat.le_add_right _ _) (by omega) _
        (List.getElem?_eq_getElem (by omega))

/-- The first search has no result exactly if no device has the identifiers. -/
lemma findFrom_eq_none_iff :
    findFrom vid did nodes 0 = none ↔ ∀ dev ∈ nodes, ¬Matches vid did dev := by
  simp only [findFrom, List.drop_zero, Option.map_eq_none_iff, List.findIdx?_eq_none_iff,
    ← Bool.not_eq_true, matches_iff]

/-- The loop that looks for a device of the list does not pass it. -/
lemma skipPrev_le (h : nodes[i]? = some dev) : skipPrev dev nodes ≤ i := by
  induction nodes generalizing i with
  | nil => simp at h
  | cons cursor nodes ih =>
    rw [skipPrev]
    split
    · next hpass =>
        cases i with
        | zero =>
          cases h
          exact absurd rfl hpass.1
        | succ i => exact Nat.succ_le_succ (ih h)
    · exact Nat.zero_le i

/-- The search that goes on after its first result returns that result again. -/
theorem search_again (h : pciBusFindDevice nodes vid did none = some i) :
    pciBusFindDevice nodes vid did ((some i).bind (nodes[·]?)) = some i := by
  obtain ⟨-, ⟨dev, hdev, hmatch⟩, hbefore⟩ := findFrom_eq_some_iff.mp h
  rw [Option.bind_some, hdev]
  exact findFrom_eq_some_iff.mpr ⟨skipPrev_le hdev, ⟨dev, hdev, hmatch⟩,
    fun j _ hj => hbefore j (Nat.zero_le j) hj⟩

/-- From its first result on the search never ends. -/
lemma not_search (h : pciBusFindDevice nodes vid did none = some i) {found : List Nat} :
    ¬Search nodes vid did (some i) found := by
  have hagain := search_again h
  induction found with
  | nil =>
    intro hsearch
    cases hsearch with
    | null hnone => rw [hagain] at hnone; contradiction
  | cons j found ih =>
    intro hsearch
    cases hsearch with
    | found hsome hrest =>
      rw [hagain] at hsome
      cases hsome
      exact ih hrest

lemma SearchIterates.none (h : SearchIterates nodes vid did) :
    pciBusFindDevice nodes vid did none = none := by
  obtain ⟨found, hsearch, -⟩ := h
  cases hsearch with
  | null hnone => exact hnone
  | found hsome hrest => exact absurd hrest (not_search hsome)

/-- The search over the devices of the bus finds each one that has the identifiers once and
then ends exactly if there is none. -/
theorem search_iterates_iff (nodes : List PciBusDevice) (vid did : UInt16) :
    SearchIterates nodes vid did ↔ ∀ dev ∈ nodes, ¬Matches vid did dev := by
  rw [← findFrom_eq_none_iff]
  constructor
  · exact SearchIterates.none
  · intro hnone
    refine ⟨[], .null hnone, List.nodup_nil, fun i => ?_⟩
    constructor
    · exact fun hi => absurd hi List.not_mem_nil
    · intro h
      obtain ⟨dev, hdev, hmatch⟩ := h
      exact absurd hmatch (findFrom_eq_none_iff.mp hnone dev (List.mem_of_getElem? hdev))

/-- An 82371SB, alone on the bus. -/
def lone : PciBusDevice :=
  { function := 0, device := 1, bus := 0, vendorid := 0x8086, deviceid := 0x7000
    revisionid := 0, systemDeviceid := 0, BAR := [], intPin := 0, intLine := 0
    msiMsgData := 0 }

theorem search_broken :
    ¬∀ (nodes : List PciBusDevice) (vid did : UInt16), SearchIterates nodes vid did := by
  intro h
  have hnone := (h [lone] 0x8086 0x7000).none
  contradiction

end DiegOS.Kernel.PciBus
