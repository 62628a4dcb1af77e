import DiegOS.Libc.Snprintf
import DiegOS.Network.NetInterfaces

/-!
# Devices

The list of `devices.c`: sorted by the names of the devices, which are made of the first
characters of the driver's name and a digit for the unit.

Main results:

- Theorem `deviceName_eq`: the name that `snprintf` makes.
- Theorem `lookupName_eq`: the search that stops early finds what the list holds.
- Theorem `Registered.create`: what one call of `device_create` does.
- Theorem `device_registry_iff`: when a lookup finds the device that was created for it.
-/

namespace DiegOS.Kernel.Devices

open Libc (Field Temp VaList INT_MAX blank cString cString_vsnprintf fields_of_none fields_of_some
  int2ascii nextField percent printed putDigits stringLen vsnprintf x2cTab)
open Network.NetInterfaces

/-! ## The code -/

def DEV_NAME_LEN : Nat := 7

/-- `enum DEVICE_TYPE` -/
inductive DeviceType where
  | DEV_TYPE_CHAR
  | DEV_TYPE_BLOCK
  | DEV_TYPE_GFX_UI
  | DEV_TYPE_TXT_UI
deriving DecidableEq, Repr

/-- A driver: its structure and the name in it. -/
structure Driver where
  inst : Nat
  name : CString
deriving DecidableEq

/-- A `device_int_t`, with its address. -/
structure Device where
  address : Nat
  name : List UInt8
  unitno : UInt32
  type : DeviceType
  drv : Driver
deriving DecidableEq

/-- `device_list`, and how many blocks were allocated for it. -/
structure DeviceList where
  nodes : List Device
  allocated : Nat

def DRV_IS_CHAR : UInt32 := 0x10000

def DRV_IS_BLOCK : UInt32 := 0x20000

def DRV_IS_NET : UInt32 := 0x40000

def DRV_IS_TXT_UI : UInt32 := 0x80000

def DRV_IS_GFX_UI : UInt32 := 0x100000

/-- The switch over the type of the driver. -/
def deviceType (status : UInt32) : Option DeviceType :=
  let drvtype := status &&&
    (DRV_IS_CHAR ||| DRV_IS_BLOCK ||| DRV_IS_NET ||| DRV_IS_TXT_UI ||| DRV_IS_GFX_UI)
  if drvtype = DRV_IS_NET ∨ drvtype = DRV_IS_CHAR then some .DEV_TYPE_CHAR
  else if drvtype = DRV_IS_BLOCK then some .DEV_TYPE_BLOCK
  else if drvtype = DRV_IS_TXT_UI then some .DEV_TYPE_TXT_UI
  else if drvtype = DRV_IS_GFX_UI then some .DEV_TYPE_GFX_UI
  else none

/-- `"%.5s%1u"` -/
def nameFormat : List UInt8 :=
  [percent, '.'.toUInt8, '5'.toUInt8, 's'.toUInt8, percent, '1'.toUInt8, 'u'.toUInt8]

/-- The arguments of the format: a string that is there, and the unit. -/
def nameArgs (unitno : UInt32) : VaList := fun i => if i = 0 then 1 else unitno

/-- `snprintf(temp, sizeof(temp), "%.5s%1u", name, unitno);`, for what `temp` and the
stream held before. -/
def deviceName (validsize : Nat) (temp : Nat → UInt8) (name : CString) (unitno : UInt32) :
    List UInt8 :=
  cString (vsnprintf validsize (fun _ => name.chars) temp (DEV_NAME_LEN + 1) nameFormat
    (nameArgs unitno)).1 (DEV_NAME_LEN + 1)

def lookupName (name : List UInt8) : List Device → Option Device
  | [] => none
  | nn :: nodes =>
    let retval := strncmp nn.name name (DEV_NAME_LEN + 1)
    if retval < 0 then lookupName name nodes
    else if 0 = retval then some nn
    else none

def insertDevice (dev : Device) : List Device → List Device
  | [] => [dev]
  | prev :: nodes =>
    let retval := strncmp prev.name dev.name (DEV_NAME_LEN + 1)
    if retval < 0 then prev :: insertDevice dev nodes else dev :: prev :: nodes

/-- The arguments of `device_create`, the answers of `init_fn`, `status_fn` and
`calloc`, and what `temp` and the stream of `snprintf` held before. -/
structure CreateCall where
  inst : Option Driver
  unitno : UInt32
  retcode : Int
  status : UInt32
  memory : Bool
  temp : Nat → UInt8
  validsize : Nat

def deviceCreate (s : DeviceList) (call : CreateCall) : DeviceList × Option Device :=
  match call.inst with
  | none => (s, none)
  | some inst =>
    if 0 ≠ call.retcode then (s, none)
    else
      match deviceType call.status with
      | none => (s, none)
      | some type =>
        let temp := deviceName call.validsize call.temp inst.name call.unitno
        match lookupName temp s.nodes with
        | some _ => (s, none)
        | none =>
          if !call.memory then (s, none)
          else
            let dev : Device := ⟨s.allocated, temp, call.unitno, type, inst⟩
            (⟨insertDevice dev s.nodes, s.allocated + 1⟩, some dev)

def deviceLookup (s : DeviceList) (drvname : Option CString) (unitno : UInt32)
    (temp : Nat → UInt8) (validsize : Nat) : Option Device :=
  match drvname with
  | none => none
  | some drvname => lookupName (deviceName validsize temp drvname unitno) s.nodes

/-- The list at the start. -/
def start : DeviceList := ⟨[], 0⟩

/-- The list after some calls, and the devices they returned. -/
def run (calls : List CreateCall) : DeviceList × List Device :=
  calls.foldl (fun p call =>
    ((deviceCreate p.1 call).1, p.2 ++ (deviceCreate p.1 call).2.toList)) (start, [])

/-- The list after some calls. -/
def devices (calls : List CreateCall) : DeviceList := (run calls).1

/-- The devices that the calls returned. -/
def created (calls : List CreateCall) : List Device := (run calls).2

/-! ## The name of a device -/

/-- What the name of a device tells: the first characters of the driver's name and the last digit
of the unit. -/
def code (name : CString) (unitno : UInt32) : List UInt8 × Nat :=
  (name.chars.take 5, unitno.toNat % 10)

/-- The digit of a unit. -/
def digit (n : Nat) : UInt8 := x2cTab.getD n 0

/-- The name for a code. -/
def nameOf (c : List UInt8 × Nat) : List UInt8 := c.1 ++ [digit c.2]

lemma stringLen_eq (max : Int) (len : Nat) (p : List UInt8) :
    stringLen max len p = len + min (max - len).toNat p.length := by
  induction p generalizing len with
  | nil => simp [stringLen]
  | cons c p ih =>
    rw [stringLen, List.length_cons]
    split_ifs
    · rw [ih]
      omega
    · omega

/-- A string is printed up to its precision. -/
lemma text_string (p : List UInt8) :
    (⟨⟨.RIGHT, blank, 0, 5, .int⟩, 0, p.take (stringLen 5 0 p), true⟩ : Field).text =
      p.take 5 := by
  have hlength : p.take (stringLen 5 0 p) = p.take 5 := by
    rw [stringLen_eq, Nat.zero_add]
    change p.take (min 5 p.length) = _
    rw [← List.take_eq_take_min]
  have hroom : (0 - ((p.take 5).length : Int) - ((0 : Nat) : Int)).toNat = 0 := by omega
  rw [hlength]
  unfold Field.text Field.room
  change [] ++ List.replicate (0 - ((p.take 5).length : Int) - ((0 : Nat) : Int)).toNat blank ++
    p.take 5 ++ [] = _
  rw [hroom, List.replicate_zero, List.append_nil, List.append_nil, List.nil_append]

/-- The width 1 leaves the last digit of a number. -/
lemma text_unit (u : Nat) :
    (int2ascii ⟨.RIGHT, blank, 1, INT_MAX, .int⟩ 10 x2cTab 0 u).text = [digit (u % 10)] := by
  have hdigits : putDigits 10 x2cTab 1 (u + 1) u ⟨[], true⟩ =
      (⟨[], true⟩ : Temp).push (digit (u % 10)) := by
    have hcut : (1 : Int) ≠ 0 ∧
        ¬(((⟨[], true⟩ : Temp).push (x2cTab.getD (u % 10) 0)).chars.length : Int) < 1 :=
      ⟨by decide, Int.lt_irrefl 1⟩
    rw [putDigits, if_pos hcut, Nat.zero_div, if_neg (Nat.lt_irrefl 0)]
    rfl
  unfold int2ascii
  rw [hdigits]
  rfl

lemma printed_name (name : CString) (unitno : UInt32) :
    printed (fun _ => name.chars) nameFormat (nameArgs unitno) =
      name.chars.take 5 ++ [digit (unitno.toNat % 10)] := by
  have hfirst : nextField (fun _ => name.chars) (nameArgs unitno) nameFormat =
      some (⟨⟨.RIGHT, blank, 0, 5, .int⟩, 0, name.chars.take (stringLen 5 0 name.chars), true⟩,
        (nameArgs unitno).skip 1, [percent, '1'.toUInt8, 'u'.toUInt8]) := rfl
  have hsecond : nextField (fun _ => name.chars) ((nameArgs unitno).skip 1)
      [percent, '1'.toUInt8, 'u'.toUInt8] =
      some (int2ascii ⟨.RIGHT, blank, 1, INT_MAX, .int⟩ 10 x2cTab 0 unitno.toNat,
        ((nameArgs unitno).skip 1).skip 1, []) := rfl
  rw [printed, fields_of_some hfirst, fields_of_some hsecond, fields_of_none rfl,
    List.flatMap_cons, List.flatMap_cons, List.flatMap_nil, text_string, text_unit,
    List.append_nil]

lemma digit_injective {m n : Nat} (hm : m < 10) (hn : n < 10) (h : digit m = digit n) :
    m = n := by
  have hall : ∀ m < 10, ∀ n < 10, digit m = digit n → m = n := by decide
  exact hall m hm n hn h

lemma digit_ne_zero {n : Nat} (hn : n < 10) : digit n ≠ 0 := by
  have hall : ∀ n < 10, digit n ≠ 0 := by decide
  exact hall n hn

/-- The name of a device; what the memory held before does not matter. -/
theorem deviceName_eq (validsize : Nat) (temp : Nat → UInt8) (name : CString) (unitno : UInt32) :
    deviceName validsize temp name unitno = nameOf (code name unitno) := by
  have hlength : (printed (fun _ => name.chars) nameFormat (nameArgs unitno)).length ≤ 6 := by
    rw [printed_name, List.length_append, List.length_take, List.length_singleton]
    omega
  have hzero : 0 ∉ printed (fun _ => name.chars) nameFormat (nameArgs unitno) := by
    rw [printed_name, List.mem_append, List.mem_singleton, not_or]
    constructor
    · intro hmem
      exact name.nonzero 0 (List.mem_of_mem_take hmem) rfl
    · exact Ne.symm (digit_ne_zero (Nat.mod_lt _ (by decide)))
  unfold deviceName
  rw [cString_vsnprintf validsize _ temp nameFormat (nameArgs unitno) (by decide) _ hzero]
  · rw [List.take_of_length_le (Nat.le_trans hlength (by decide)), printed_name]
    rfl
  · have hmax : INT_MAX = 2147483647 := rfl
    omega

lemma nameOf_inj {name name' : CString} {unitno unitno' : UInt32} :
    nameOf (code name unitno) = nameOf (code name' unitno') ↔
      code name unitno = code name' unitno' := by
  constructor
  · intro h
    rcases List.append_inj' h rfl with ⟨hname, hdigit⟩
    have hunit := digit_injective (Nat.mod_lt _ (by decide)) (Nat.mod_lt _ (by decide))
      (List.singleton_inj.mp hdigit)
    exact Prod.ext hname hunit
  · intro h
    rw [h]

lemma length_nameOf (name : CString) (unitno : UInt32) :
    (nameOf (code name unitno)).length ≤ DEV_NAME_LEN + 1 := by
  rw [nameOf, List.length_append, List.length_singleton, code, List.length_take, DEV_NAME_LEN]
  omega

/-! ## The order of the list -/

/-- One name stands before another. -/
def Before (a b : List UInt8) : Prop := strncmp a b (DEV_NAME_LEN + 1) < 0

lemma before_iff (a b : List UInt8) :
    Before a b ↔ compare (a.take (DEV_NAME_LEN + 1)) (b.take (DEV_NAME_LEN + 1)) = .lt := by
  rw [← strncmp_order, Before, compare_lt_iff_lt]

lemma before_irrefl (a : List UInt8) : ¬Before a a := by
  have hself : compare (a.take (DEV_NAME_LEN + 1)) (a.take (DEV_NAME_LEN + 1)) = .eq :=
    Std.ReflCmp.compare_self
  rw [before_iff, hself]
  decide

lemma Before.trans {a b c : List UInt8} (h : Before a b) (h' : Before b c) : Before a c := by
  rw [before_iff] at *
  exact Std.TransCmp.lt_trans h h'

lemma Before.ne {a b : List UInt8} (h : Before a b) : a ≠ b := by
  rintro rfl
  exact before_irrefl a h

/-- A name of which the whole is compared. -/
def Short (a : List UInt8) : Prop := a.length ≤ DEV_NAME_LEN + 1

lemma strncmp_eq_zero_iff {a b : List UInt8} (ha : Short a) (hb : Short b) :
    0 = strncmp a b (DEV_NAME_LEN + 1) ↔ a = b := by
  have horder := strncmp_order (DEV_NAME_LEN + 1) a b
  rw [List.take_of_length_le ha, List.take_of_length_le hb] at horder
  constructor
  · intro hzero
    rw [← hzero] at horder
    exact Std.LawfulEqCmp.eq_of_compare (horder.symm.trans (compare_eq_iff_eq.mpr rfl))
  · rintro rfl
    have hself : compare a a = .eq := Std.ReflCmp.compare_self
    exact (compare_eq_iff_eq.mp (horder.trans hself)).symm

lemma before_of_not_before {a b : List UInt8} (ha : Short a) (hb : Short b) (hne : a ≠ b)
    (hnot : ¬Before a b) : Before b a := by
  rw [before_iff, List.take_of_length_le ha, List.take_of_length_le hb] at hnot
  rw [before_iff, List.take_of_length_le ha, List.take_of_length_le hb]
  cases hcmp : compare a b with
  | lt => exact absurd hcmp hnot
  | eq => exact absurd (Std.LawfulEqCmp.eq_of_compare hcmp) hne
  | gt => exact Std.OrientedCmp.lt_of_gt hcmp

/-- The list is sorted by the names, and no name is there twice. -/
def Sorted (nodes : List Device) : Prop := nodes.Pairwise fun a b => Before a.name b.name

/-- The search that stops early finds what the list holds. -/
theorem lookupName_eq {nodes : List Device} {name : List UInt8} (hsorted : Sorted nodes)
    (hshort : ∀ d ∈ nodes, Short d.name) (hname : Short name) :
    lookupName name nodes = nodes.find? fun d => d.name = name := by
  induction nodes with
  | nil => rfl
  | cons nn nodes ih =>
    rcases List.pairwise_cons.mp hsorted with ⟨hhead, htail⟩
    have hnn := hshort nn (.head _)
    rw [lookupName]
    split_ifs with hbefore hequal
    · have hne : nn.name ≠ name := Before.ne hbefore
      rw [List.find?_cons_of_neg (by simpa using hne)]
      exact ih htail fun d hd => hshort d (List.mem_cons_of_mem nn hd)
    · rw [List.find?_cons_of_pos (by simpa using (strncmp_eq_zero_iff hnn hname).mp hequal)]
    · -- all names that follow are behind the one that is looked for
      have hne : nn.name ≠ name := fun h => hequal ((strncmp_eq_zero_iff hnn hname).mpr h)
      have hbehind := before_of_not_before hnn hname hne hbefore
      rw [List.find?_cons_of_neg (by simpa using hne), eq_comm, List.find?_eq_none]
      intro d hd
      have hd' := (hbehind.trans (hhead d hd)).ne
      simpa using Ne.symm hd'

lemma mem_insertDevice {dev d : Device} {nodes : List Device} :
    d ∈ insertDevice dev nodes ↔ d = dev ∨ d ∈ nodes := by
  induction nodes with
  | nil => simp [insertDevice]
  | cons prev nodes ih =>
    rw [insertDevice]
    split_ifs
    · rw [List.mem_cons, List.mem_cons, ih]
      tauto
    · exact List.mem_cons

/-- A device with a new name is put in its place. -/
lemma sorted_insertDevice {dev : Device} {nodes : List Device} (hsorted : Sorted nodes)
    (hshort : ∀ d ∈ nodes, Short d.name) (hdev : Short dev.name)
    (hnew : ∀ d ∈ nodes, d.name ≠ dev.name) : Sorted (insertDevice dev nodes) := by
  induction nodes with
  | nil => exact List.pairwise_singleton _ _
  | cons prev nodes ih =>
    rcases List.pairwise_cons.mp hsorted with ⟨hhead, htail⟩
    rw [insertDevice]
    split_ifs with hbefore
    · refine List.pairwise_cons.mpr ⟨?_, ih htail
        (fun d hd => hshort d (List.mem_cons_of_mem prev hd))
        fun d hd => hnew d (List.mem_cons_of_mem prev hd)⟩
      intro d hd
      rcases mem_insertDevice.mp hd with rfl | hd
      · exact hbefore
      · exact hhead d hd
    · have hprev := before_of_not_before (hshort prev (.head _)) hdev
        (hnew prev (.head _)) hbefore
      refine List.pairwise_cons.mpr ⟨?_, hsorted⟩
      intro d hd
      rcases List.mem_cons.mp hd with rfl | hd
      · exact hprev
      · exact hprev.trans (hhead d hd)

/-! ## What the list holds -/

/-- The driver of a call that gets through to the list with memory for a device. -/
def CreateCall.accepted (call : CreateCall) : Option Driver :=
  if 0 = call.retcode ∧ (deviceType call.status).isSome ∧ call.memory = true then call.inst
  else none

/-- The name and the unit for which the first call of a code got through. -/
def askedFirst (calls : List CreateCall) (c : List UInt8 × Nat) : Option (Driver × UInt32) :=
  calls.findSome? fun call =>
    (call.accepted.filter fun inst => code inst.name call.unitno = c).map (·, call.unitno)

/-- The list holds the devices that were returned, one for each code that was asked for. -/
structure Registered (calls : List CreateCall) (s : DeviceList) (l : List Device) : Prop where
  sorted : Sorted s.nodes
  mem_iff : ∀ d, d ∈ s.nodes ↔ d ∈ l
  name_eq : ∀ d ∈ s.nodes, d.name = nameOf (code d.drv.name d.unitno)
  first : ∀ c drv unitno, askedFirst calls c = some (drv, unitno) ↔
    code drv.name unitno = c ∧ ∃ d ∈ s.nodes, d.drv = drv ∧ d.unitno = unitno

lemma Registered.short {calls : List CreateCall} {s : DeviceList} {l : List Device}
    (h : Registered calls s l) : ∀ d ∈ s.nodes, Short d.name := by
  intro d hd
  rw [h.name_eq d hd]
  exact length_nameOf _ _

/-- A call that does not get through changes nothing. -/
lemma create_of_not_accepted {s : DeviceList} {call : CreateCall}
    (h : call.accepted = none) : deviceCreate s call = (s, none) := by
  unfold CreateCall.accepted at h
  unfold deviceCreate
  cases hinst : call.inst with
  | none => rfl
  | some inst =>
    by_cases hretcode : 0 ≠ call.retcode
    · simp only [if_pos hretcode]
    · simp only [if_neg hretcode]
      cases htype : deviceType call.status with
      | none => rfl
      | some type =>
        cases hmemory : call.memory with
        | false =>
          dsimp only
          cases lookupName (deviceName call.validsize call.temp inst.name call.unitno)
            s.nodes <;> rfl
        | true =>
          rw [hinst, htype, if_pos ⟨not_not.mp hretcode, rfl, hmemory⟩] at h
          contradiction

/-- A call that gets through adds a device, unless there is one with its name. -/
lemma create_of_accepted {s : DeviceList} {call : CreateCall} {inst : Driver}
    (h : call.accepted = some inst) :
    ((lookupName (deviceName call.validsize call.temp inst.name call.unitno) s.nodes).isSome ∧
        deviceCreate s call = (s, none)) ∨
      (lookupName (deviceName call.validsize call.temp inst.name call.unitno) s.nodes = none ∧
        ∃ type, deviceCreate s call =
          (⟨insertDevice ⟨s.allocated, deviceName call.validsize call.temp inst.name call.unitno,
              call.unitno, type, inst⟩ s.nodes, s.allocated + 1⟩,
            some ⟨s.allocated, deviceName call.validsize call.temp inst.name call.unitno,
              call.unitno, type, inst⟩)) := by
  unfold CreateCall.accepted at h
  split_ifs at h with hall
  rcases hall with ⟨hretcode, htype, hmemory⟩
  rcases Option.isSome_iff_exists.mp htype with ⟨type, htype⟩
  unfold deviceCreate
  simp only [h, htype, hmemory, if_neg (not_not.mpr hretcode)]
  cases lookupName (deviceName call.validsize call.temp inst.name call.unitno) s.nodes with
  | some d => exact .inl ⟨rfl, rfl⟩
  | none => exact .inr ⟨rfl, type, rfl⟩

lemma askedFirst_append (calls : List CreateCall) (call : CreateCall) (c : List UInt8 × Nat) :
    askedFirst (calls ++ [call]) c = (askedFirst calls c).or
      ((call.accepted.filter fun inst => code inst.name call.unitno = c).map (·, call.unitno)) := by
  rw [askedFirst, List.findSome?_append]
  congr 1
  rw [List.findSome?_cons, List.findSome?_nil]
  cases (call.accepted.filter fun inst => code inst.name call.unitno = c).map
    (·, call.unitno) <;> rfl

lemma askedFirst_of_not_accepted (calls : List CreateCall) {call : CreateCall}
    (h : call.accepted = none) (c : List UInt8 × Nat) :
    askedFirst (calls ++ [call]) c = askedFirst calls c := by
  rw [askedFirst_append, h]
  exact Option.or_none

lemma Registered.lookup {calls : List CreateCall} {s : DeviceList} {l : List Device}
    (h : Registered calls s l) (name : CString) (unitno : UInt32) (dev : Device) :
    lookupName (nameOf (code name unitno)) s.nodes = some dev ↔
      dev ∈ s.nodes ∧ code dev.drv.name dev.unitno = code name unitno := by
  rw [lookupName_eq h.sorted h.short (length_nameOf name unitno)]
  constructor
  · intro hfind
    have hmem := List.mem_of_find?_eq_some hfind
    have hname := List.find?_some hfind
    rw [decide_eq_true_eq, h.name_eq dev hmem, nameOf_inj] at hname
    exact ⟨hmem, hname⟩
  · rintro ⟨hmem, hcode⟩
    have hname : dev.name = nameOf (code name unitno) := by rw [h.name_eq dev hmem, hcode]
    cases hfind : s.nodes.find? fun d => d.name = nameOf (code name unitno) with
    | none =>
      have hnot := List.find?_eq_none.mp hfind dev hmem
      simp [hname] at hnot
    | some d =>
      -- no name is there twice
      have hd := List.mem_of_find?_eq_some hfind
      have hdname := List.find?_some hfind
      rw [decide_eq_true_eq] at hdname
      have hnames : s.nodes.Pairwise fun a b => a.name ≠ b.name :=
        List.Pairwise.imp Before.ne h.sorted
      refine congrArg some (by_contra fun hne => ?_)
      have hsymm : Std.Symm fun a b : Device => a.name ≠ b.name := ⟨fun _ _ => Ne.symm⟩
      exact hnames.forall hd hmem hne (hdname.trans hname.symm)

lemma askedFirst_of_accepted (calls : List CreateCall) {call : CreateCall} {inst : Driver}
    (h : call.accepted = some inst) (c : List UInt8 × Nat) :
    askedFirst (calls ++ [call]) c = (askedFirst calls c).or
      (if code inst.name call.unitno = c then some (inst, call.unitno) else none) := by
  rw [askedFirst_append, h, Option.filter_some]
  by_cases hc : code inst.name call.unitno = c
  · simp [hc]
  · simp [hc]

/-- A code that is there is not taken again. -/
lemma Registered.found {calls : List CreateCall} {s : DeviceList} {l : List Device}
    (h : Registered calls s l) {call : CreateCall} {inst : Driver} {dev : Device}
    (haccepted : call.accepted = some inst) (hmem : dev ∈ s.nodes)
    (hcode : code dev.drv.name dev.unitno = code inst.name call.unitno) :
    Registered (calls ++ [call]) s l := by
  refine ⟨h.sorted, h.mem_iff, h.name_eq, fun c drv unitno => ?_⟩
  rw [askedFirst_of_accepted calls haccepted, ← h.first]
  by_cases hc : code inst.name call.unitno = c
  · have hfirst := (h.first c dev.drv dev.unitno).mpr ⟨hcode.trans hc, dev, hmem, rfl, rfl⟩
    rw [hfirst, Option.some_or]
  · rw [if_neg hc, Option.or_none]

/-- A new code takes its name. -/
lemma Registered.added {calls : List CreateCall} {s : DeviceList} {l : List Device}
    (h : Registered calls s l) {call : CreateCall} {dev : Device} (allocated : Nat)
    (haccepted : call.accepted = some dev.drv) (hunitno : dev.unitno = call.unitno)
    (hname : dev.name = nameOf (code dev.drv.name dev.unitno))
    (hfresh : ∀ d ∈ s.nodes, code d.drv.name d.unitno ≠ code dev.drv.name dev.unitno) :
    Registered (calls ++ [call]) ⟨insertDevice dev s.nodes, allocated⟩ (l ++ [dev]) := by
  constructor
  · refine sorted_insertDevice h.sorted h.short (hname ▸ length_nameOf _ _) fun d hd heq => ?_
    rw [h.name_eq d hd, hname] at heq
    exact hfresh d hd (nameOf_inj.mp heq)
  · intro d
    rw [mem_insertDevice, List.mem_append, List.mem_singleton, h.mem_iff]
    tauto
  · intro d hd
    rcases mem_insertDevice.mp hd with rfl | hd
    · exact hname
    · exact h.name_eq d hd
  · intro c drv unitno
    rw [askedFirst_of_accepted calls haccepted, ← hunitno]
    by_cases hc : code dev.drv.name dev.unitno = c
    · -- nobody has asked for the code before
      have hbefore : askedFirst calls c = none := by
        cases hasked : askedFirst calls c with
        | none => rfl
        | some first =>
          rcases first with ⟨drv', unitno'⟩
          rcases (h.first c drv' unitno').mp hasked with ⟨hcode, d, hd, rfl, rfl⟩
          exact absurd (hcode.trans hc.symm) (hfresh d hd)
      rw [hbefore, if_pos hc, Option.none_or, Option.some_inj, Prod.mk.injEq]
      constructor
      · rintro ⟨rfl, rfl⟩
        exact ⟨hc, dev, mem_insertDevice.mpr (.inl rfl), rfl, rfl⟩
      · rintro ⟨hcode, d, hd, rfl, rfl⟩
        rcases mem_insertDevice.mp hd with rfl | hd
        · exact ⟨rfl, rfl⟩
        · exact absurd (hcode.trans hc.symm) (hfresh d hd)
    · rw [if_neg hc, Option.or_none, h.first]
      refine and_congr_right fun hcode => ⟨?_, ?_⟩
      · rintro ⟨d, hd, heq⟩
        exact ⟨d, mem_insertDevice.mpr (.inr hd), heq⟩
      · rintro ⟨d, hd, rfl, rfl⟩
        rcases mem_insertDevice.mp hd with rfl | hd
        · exact absurd hcode hc
        · exact ⟨d, hd, rfl, rfl⟩

/-- What one call of `device_create` does. -/
theorem Registered.create {calls : List CreateCall} {s : DeviceList} {l : List Device}
    (h : Registered calls s l) (call : CreateCall) :
    Registered (calls ++ [call]) (deviceCreate s call).1
      (l ++ (deviceCreate s call).2.toList) := by
  cases haccepted : call.accepted with
  | none =>
    rw [create_of_not_accepted haccepted, Option.toList_none, List.append_nil]
    refine ⟨h.sorted, h.mem_iff, h.name_eq, fun c drv unitno => ?_⟩
    rw [askedFirst_of_not_accepted calls haccepted, h.first]
  | some inst =>
    have hlookup := h.lookup inst.name call.unitno
    rcases create_of_accepted (s := s) haccepted with ⟨hsome, hcreate⟩ | ⟨hnone, type, hcreate⟩
    · rw [deviceName_eq] at hsome
      rcases Option.isSome_iff_exists.mp hsome with ⟨dev, hdev⟩
      rcases (hlookup dev).mp hdev with ⟨hmem, hcode⟩
      rw [hcreate, Option.toList_none, List.append_nil]
      exact h.found haccepted hmem hcode
    · rw [deviceName_eq] at hnone hcreate
      have hfresh : ∀ d ∈ s.nodes, code d.drv.name d.unitno ≠ code inst.name call.unitno := by
        intro d hd hcode
        rw [(hlookup d).mpr ⟨hd, hcode⟩] at hnone
        contradiction
      rw [hcreate, Option.toList_some]
      exact h.added (s.allocated + 1) haccepted rfl rfl hfresh

lemma registered (calls : List CreateCall) :
    Registered calls (devices calls) (created calls) := by
  induction calls using List.reverseRecOn with
  | nil =>
    refine ⟨List.Pairwise.nil, fun d => Iff.rfl, nofun, fun c drv unitno => ?_⟩
    constructor
    · nofun
    · rintro ⟨-, d, hd, -⟩
      contradiction
  | append_singleton calls call ih =>
    unfold devices created run
    rw [List.foldl_append]
    exact ih.create call

/-! ## What a lookup finds -/

/-- The list is sorted without duplicates, and a lookup finds the device that was created for the
name and the unit, and no other. -/
structure Meets (calls : List CreateCall) (drvname : CString) (unitno : UInt32) : Prop where
  sorted : Sorted (devices calls).nodes
  finds : ∀ temp validsize dev,
    deviceLookup (devices calls) (some drvname) unitno temp validsize = some dev ↔
      dev ∈ created calls ∧ dev.drv.name = drvname ∧ dev.unitno = unitno

/-- A lookup is right exactly if the first call that got through for the same first characters and
the same last digit asked for the very name and unit. -/
theorem device_registry_iff (calls : List CreateCall) (drvname : CString) (unitno : UInt32) :
    Meets calls drvname unitno ↔ ∀ drv unitno',
      askedFirst calls (code drvname unitno) = some (drv, unitno') →
        drv.name = drvname ∧ unitno' = unitno := by
  have h := registered calls
  have hlookup := h.lookup drvname unitno
  constructor
  · intro hmeets drv unitno' hfirst
    rcases (h.first _ drv unitno').mp hfirst with ⟨hcode, d, hd, rfl, rfl⟩
    have hfinds := hmeets.finds (fun _ => 0) 0 d
    rw [deviceLookup, deviceName_eq] at hfinds
    exact (hfinds.mp ((hlookup d).mpr ⟨hd, hcode⟩)).2
  · intro hfirst
    refine ⟨h.sorted, fun temp validsize dev => ?_⟩
    rw [deviceLookup, deviceName_eq, hlookup, h.mem_iff]
    refine and_congr_right fun hmem => ⟨fun hcode => ?_, ?_⟩
    · exact hfirst dev.drv dev.unitno
        ((h.first _ _ _).mpr ⟨hcode, dev, (h.mem_iff dev).mpr hmem, rfl, rfl⟩)
    · rintro ⟨rfl, rfl⟩
      rfl

/-- `"uart"` -/
def uart : CString := ⟨[0x75, 0x61, 0x72, 0x74], by simp⟩

/-- Unit 10 is taken for unit 0. -/
theorem device_registry_wrong_unit :
    ¬Meets [⟨some ⟨0, uart⟩, 0, 0, DRV_IS_CHAR, true, fun _ => 0, 0⟩] uart 10 := by
  intro hmeets
  have hfinds := (hmeets.finds (fun _ => 0) 0
    ⟨0, nameOf (code uart 0), 0, .DEV_TYPE_CHAR, ⟨0, uart⟩⟩).mp (by decide)
  exact absurd hfinds.2.2 (by decide)

end DiegOS.Kernel.Devices
