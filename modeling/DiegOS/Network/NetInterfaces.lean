import DiegOS.Support.TreeSearch
import Mathlib.Tactic

/-!
# Network interfaces

The registry of `net_interfaces.c`: two trees of the same interfaces, one in the order of
the names and one in the order of the indexes.

Main results:

- Theorem `strncmp_order`: the order of the names.
- Theorem `Registered.create`: what a creation adds.
- Theorem `registry_contract`: interfaces are accepted and found exactly if each new one
  has a name after all others.
- Theorem `registry_contract_broken`: two units of one driver, and three drivers that are
  not in the order of their names.
-/

namespace DiegOS.Network

open Support Lib.OrderedList
open Std (TransCmp OrientedCmp ReflCmp LawfulEqCmp)

namespace NetInterfaces

/-- A string without its final `NUL`. -/
structure CString where
  chars : List UInt8
  nonzero : ∀ c ∈ chars, c ≠ 0
deriving DecidableEq

def NETIF_NAME_LEN : Nat := 5

/-- The first characters of a string. -/
def CString.take (s : CString) (n : Nat) : CString :=
  ⟨s.chars.take n, fun c hc => s.nonzero c (List.mem_of_mem_take hc)⟩

/-- A string and then a digit. -/
def CString.push (s : CString) (d : UInt8) (hd : d ≠ 0) : CString :=
  ⟨s.chars ++ [d], fun c hc => by
    rcases List.mem_append.mp hc with hin | hin
    · exact s.nonzero c hin
    · rw [List.mem_singleton.mp hin]
      exact hd⟩

/-- `strncmp`, where the end of a list is `NUL`. -/
def strncmp : List UInt8 → List UInt8 → Nat → Int
  | _, _, 0 => 0
  | [], [], _ => 0
  | [], _ :: _, _ => -1
  | _ :: _, [], _ => 1
  | c :: cs, d :: ds, n + 1 => if c ≠ d then (c.toNat : Int) - d.toNat else strncmp cs ds n

/-- A driver, of which there is one structure, with its `ifname` and `mtu`. -/
structure NetDriver where
  id : Nat
  ifname : CString
  mtu : Nat
deriving DecidableEq

/-- `net_interface_t` -/
structure NetInterface where
  name : CString
  unit : Nat
  ifindex : Int
  mtu : Nat
  drv : NetDriver
deriving DecidableEq

def cmpfn (a b : NetInterface) : Ordering :=
  compare (strncmp a.name.chars b.name.chars (NETIF_NAME_LEN + 1)) 0

def cmpfnif (a b : NetInterface) : Ordering := compare (a.ifindex - b.ifindex) 0

/-- `interface_tree`, `interface_tree_if` and `ifindex_counter`. -/
structure Registry where
  interfaceTree : Support.Tree NetInterface
  interfaceTreeIf : Support.Tree NetInterface
  ifindexCounter : Int

/-- The arguments of `net_interface_create`, the answer of `init_fn` and whether there
is memory. -/
structure CreateCall where
  inst : Option NetDriver
  unitno : Nat
  inited : Bool
  memory : Bool
deriving DecidableEq

/-- The name that `snprintf` writes: the number is always 0. -/
def ifaceName (ifname : CString) : CString := (ifname.push 0x30 (by decide)).take NETIF_NAME_LEN

def netInterfaceCreate (s : Registry) (call : CreateCall) : Registry × Option NetInterface :=
  match call.inst with
  | none => (s, none)
  | some inst =>
    if !call.inited then (s, none)
    else if !call.memory then (s, none)
    else
      let temp : NetInterface :=
        ⟨ifaceName inst.ifname, call.unitno, s.ifindexCounter, inst.mtu, inst⟩
      let s := { s with ifindexCounter := s.ifindexCounter + 1 }
      match s.interfaceTree.insert cmpfn temp with
      | (tree, none) => ({ s with interfaceTree := tree }, none)
      | (tree, some _) =>
        match s.interfaceTreeIf.insert cmpfnif temp with
        | (treeIf, none) =>
          ({ s with interfaceTree := tree, interfaceTreeIf := treeIf }, none)
        | (treeIf, some _) =>
          ({ s with interfaceTree := tree, interfaceTreeIf := treeIf }, some temp)

/-- An interface on the stack of which one field is set. -/
def itemp (name : CString) (ifindex : Int) : NetInterface :=
  ⟨name, 0, ifindex, 0, ⟨0, ⟨[], by simp⟩, 0⟩⟩

def netInterfaceLookupName (s : Registry) (ifname : CString) : Option NetInterface :=
  s.interfaceTree.search cmpfn (itemp (ifname.take (NETIF_NAME_LEN + 1)) 0)

def netInterfaceLookupIndex (s : Registry) (ifindex : Int) : Option NetInterface :=
  s.interfaceTree.search cmpfnif (itemp ⟨[], by simp⟩ ifindex)

def netInterfaceFirst (s : Registry) : Option NetInterface := s.interfaceTree.first

def netInterfaceNext (s : Registry) (intp : NetInterface) : Option NetInterface :=
  s.interfaceTree.next cmpfn intp

/-- The registry at the start. -/
def start : Registry := ⟨.nil, .nil, 0⟩

/-- The registry after some calls, and the interfaces they returned. -/
def run (calls : List CreateCall) : Registry × List NetInterface :=
  calls.foldl (fun p call =>
    ((netInterfaceCreate p.1 call).1, p.2 ++ (netInterfaceCreate p.1 call).2.toList)) (start, [])

/-- The registry after some calls. -/
def registry (calls : List CreateCall) : Registry := (run calls).1

/-- The interfaces that the calls returned, in the order of their creation. -/
def accepted (calls : List CreateCall) : List NetInterface := (run calls).2

/-! ## Orders -/

lemma compare_sub (a b : Int) : compare (a - b) 0 = compare a b := by
  rcases lt_trichotomy a b with h | h | h
  · rw [compare_lt_iff_lt.mpr h, compare_lt_iff_lt.mpr (by omega)]
  · rw [compare_eq_iff_eq.mpr h, compare_eq_iff_eq.mpr (by omega)]
  · rw [compare_gt_iff_gt.mpr h, compare_gt_iff_gt.mpr (by omega)]

lemma compare_toNat (c d : UInt8) : compare (c.toNat : Int) d.toNat = compare c d := by
  change _ = compareOfLessAndEq c d
  unfold compareOfLessAndEq
  rcases Nat.lt_trichotomy c.toNat d.toNat with h | h | h
  · rw [if_pos (UInt8.lt_iff_toNat_lt.mpr h), compare_lt_iff_lt.mpr (by omega)]
  · rw [if_neg (by rw [UInt8.lt_iff_toNat_lt]; omega), if_pos (UInt8.toNat_inj.mp h), h,
      compare_eq_iff_eq.mpr rfl]
  · rw [if_neg (by rw [UInt8.lt_iff_toNat_lt]; omega), if_neg (by rintro rfl; omega),
      compare_gt_iff_gt.mpr (by omega)]

/-- The order of the names. -/
theorem strncmp_order (n : Nat) :
    ∀ a b : List UInt8, compare (strncmp a b n) 0 = compare (a.take n) (b.take n) := by
  induction n with
  | zero =>
    intro a b
    cases a <;> cases b <;> rfl
  | succ n ih =>
    intro a b
    cases a with
    | nil => cases b <;> rfl
    | cons c cs =>
      cases b with
      | nil => rfl
      | cons d ds =>
        rw [List.take_succ_cons, List.take_succ_cons, List.compare_cons_cons, ← ih cs ds,
          strncmp]
        by_cases heq : c = d
        · have hself : compare d d = .eq := ReflCmp.compare_self
          rw [if_neg (by simpa using heq), heq, hself]
          rfl
        · rw [if_pos heq, compare_sub, compare_toNat]
          cases hcmp : compare c d with
          | lt | gt => rfl
          | eq => exact absurd (LawfulEqCmp.eq_of_compare hcmp) heq

/-- What `cmpfn` compares. -/
def key (x : NetInterface) : List UInt8 := x.name.chars.take (NETIF_NAME_LEN + 1)

lemma cmpfn_eq : cmpfn = compareOn key := by
  funext a b
  exact strncmp_order _ _ _

lemma cmpfnif_eq : cmpfnif = compareOn NetInterface.ifindex := by
  funext a b
  exact compare_sub _ _

instance : TransCmp cmpfn := by
  rw [cmpfn_eq]
  infer_instance

instance : TransCmp cmpfnif := by
  rw [cmpfnif_eq]
  infer_instance

/-! ## What the registry holds -/

/-- Both trees hold the interfaces returned so far. -/
structure Registered (s : Registry) (l : List NetInterface) : Prop where
  sorted : Sorted cmpfn s.interfaceTree.toList
  perm : s.interfaceTree.toList.Perm l
  toListIf : s.interfaceTreeIf.toList = l
  sortedIf : Sorted cmpfnif l
  below : ∀ x ∈ l, x.ifindex < s.ifindexCounter
  names : ∀ x ∈ l, x.name = ifaceName x.drv.ifname

lemma length_ifaceName (ifname : CString) :
    (ifaceName ifname).chars.length ≤ NETIF_NAME_LEN := by
  rw [ifaceName, CString.take, List.length_take]
  exact Nat.min_le_left _ _

lemma CString.ext_chars {a b : CString} (h : a.chars = b.chars) : a = b := by
  cases a
  cases b
  cases h
  rfl

/-- An interface of the registry and a name of at most six characters. -/
lemma key_eq_iff {x y : NetInterface} (hx : x.name.chars.length ≤ NETIF_NAME_LEN + 1)
    (hy : y.name.chars.length ≤ NETIF_NAME_LEN + 1) :
    cmpfn x y = .eq ↔ x.name = y.name := by
  rw [cmpfn_eq]
  unfold compareOn key
  rw [List.take_of_length_le hx, List.take_of_length_le hy]
  constructor
  · intro heq
    exact CString.ext_chars (LawfulEqCmp.eq_of_compare heq)
  · intro heq
    rw [heq]
    exact ReflCmp.compare_self

lemma cmpfn_lt_iff {x y : NetInterface} (hx : x.name.chars.length ≤ NETIF_NAME_LEN + 1)
    (hy : y.name.chars.length ≤ NETIF_NAME_LEN + 1) :
    cmpfn x y = .lt ↔ compare x.name.chars y.name.chars = .lt := by
  rw [cmpfn_eq]
  unfold compareOn key
  rw [List.take_of_length_le hx, List.take_of_length_le hy]

lemma Registered.short {s : Registry} {l : List NetInterface} (h : Registered s l)
    {x : NetInterface} (hx : x ∈ l) : x.name.chars.length ≤ NETIF_NAME_LEN := by
  rw [h.names x hx]
  exact length_ifaceName _

/-- A call that reaches the trees: with a driver that is inited, and with memory. -/
def Reaches (call : CreateCall) (inst : NetDriver) : Prop :=
  call.inst = some inst ∧ call.inited = true ∧ call.memory = true

/-- A call that does not reach the trees changes nothing. -/
lemma create_of_not_reaches {s : Registry} {call : CreateCall}
    (hno : ∀ inst, ¬Reaches call inst) : netInterfaceCreate s call = (s, none) := by
  unfold netInterfaceCreate
  split
  · rfl
  · next inst hinst =>
      split
      · rfl
      · next hinited =>
          split
          · rfl
          · next hmemory =>
              exact absurd ⟨hinst, by simpa using hinited, by simpa using hmemory⟩ (hno inst)

/-- What a creation adds: an interface unless its name is there. -/
theorem Registered.create {s : Registry} {l : List NetInterface} (h : Registered s l)
    {call : CreateCall} {inst : NetDriver} (hreaches : Reaches call inst) :
    ((netInterfaceCreate s call).2 = none ∧ (∃ x ∈ l, x.name = ifaceName inst.ifname) ∧
        Registered (netInterfaceCreate s call).1 l) ∨
      ∃ temp, (netInterfaceCreate s call).2 = some temp ∧ temp.name = ifaceName inst.ifname ∧
        (∀ x ∈ l, x.name ≠ temp.name) ∧
          Registered (netInterfaceCreate s call).1 (l ++ [temp]) := by
  rcases hreaches with ⟨hinst, hinited, hmemory⟩
  obtain ⟨temp, htemp⟩ : ∃ temp : NetInterface,
      temp = ⟨ifaceName inst.ifname, call.unitno, s.ifindexCounter, inst.mtu, inst⟩ := ⟨_, rfl⟩
  have hname : temp.name = ifaceName inst.ifname := by rw [htemp]
  have hindex : temp.ifindex = s.ifindexCounter := by rw [htemp]
  have hdrv : temp.drv = inst := by rw [htemp]
  have hlen : temp.name.chars.length ≤ NETIF_NAME_LEN + 1 := by
    rw [hname]
    exact Nat.le_succ_of_le (length_ifaceName _)
  have hcreate : netInterfaceCreate s call =
      match s.interfaceTree.insert cmpfn temp with
      | (tree, none) =>
        (⟨tree, s.interfaceTreeIf, s.ifindexCounter + 1⟩, none)
      | (tree, some _) =>
        match s.interfaceTreeIf.insert cmpfnif temp with
        | (treeIf, none) => (⟨tree, treeIf, s.ifindexCounter + 1⟩, none)
        | (treeIf, some _) => (⟨tree, treeIf, s.ifindexCounter + 1⟩, some temp) := by
    rw [htemp]
    unfold netInterfaceCreate
    rw [hinst, hinited, hmemory]
    rfl
  have hinsert := Tree.insert_toList temp h.sorted
  rcases hresult : s.interfaceTree.insert cmpfn temp with ⟨tree, r⟩
  rw [hresult] at hinsert hcreate
  dsimp only at hinsert hcreate
  by_cases hfound : (find cmpfn temp s.interfaceTree.toList).isSome = true
  · left
    have hthere : ∃ x ∈ s.interfaceTree.toList, cmpfn x temp = .eq := by
      simpa [find, List.find?_isSome] using hfound
    rcases hthere with ⟨x, hx, hkey⟩
    have hxl : x ∈ l := h.perm.subset hx
    rw [if_pos hfound] at hinsert
    rw [hinsert.2] at hcreate
    have hlist : tree.toList = s.interfaceTree.toList := by
      rw [hinsert.1, add, if_pos hfound]
    rw [hcreate]
    refine ⟨rfl, ⟨x, hxl, ?_⟩, ?_⟩
    · rw [← hname]
      exact (key_eq_iff (Nat.le_succ_of_le (h.short hxl)) hlen).mp hkey
    · constructor
      · rw [hlist]
        exact h.sorted
      · rw [hlist]
        exact h.perm
      · exact h.toListIf
      · exact h.sortedIf
      · intro y hy
        exact (h.below y hy).trans (by simp)
      · exact h.names
  · right
    have hnew : find cmpfn temp s.interfaceTree.toList = none := by simpa using hfound
    rw [if_neg hfound] at hinsert
    rw [hinsert.2] at hcreate
    have hafter : ∀ x ∈ l, cmpfnif x temp = .lt := by
      intro x hx
      rw [cmpfnif_eq]
      unfold compareOn
      rw [compare_lt_iff_lt, hindex]
      exact h.below x hx
    have hinsertIf := @Tree.insert_toList _ cmpfnif s.interfaceTreeIf _ temp
      (by rw [h.toListIf]; exact h.sortedIf)
    rw [h.toListIf, add_of_all_lt hafter, find_none (by decide) hafter] at hinsertIf
    rcases hresultIf : s.interfaceTreeIf.insert cmpfnif temp with ⟨treeIf, rIf⟩
    rw [hresultIf] at hinsertIf hcreate
    have hrIf : rIf = some temp := hinsertIf.2
    rw [hrIf] at hcreate
    have hdiffer : ∀ x ∈ l, x.name ≠ temp.name := by
      intro x hx heq
      have hne : ∀ a ∈ s.interfaceTree.toList, cmpfn a temp ≠ .eq := by simpa [find] using hnew
      apply hne x (h.perm.symm.subset hx)
      exact (key_eq_iff (Nat.le_succ_of_le (h.short hx)) hlen).mpr heq
    rw [hcreate]
    refine ⟨temp, rfl, hname, hdiffer, ?_⟩
    constructor
    · rw [hinsert.1]
      exact sorted_add h.sorted
    · rw [hinsert.1]
      apply (add_perm hnew).trans
      exact (h.perm.cons temp).trans (List.perm_append_singleton temp l).symm
    · exact hinsertIf.1
    · apply List.pairwise_append.mpr
      refine ⟨h.sortedIf, List.pairwise_singleton .., ?_⟩
      intro x hx y hy
      rw [List.mem_singleton.mp hy]
      exact hafter x hx
    · intro x hx
      rcases List.mem_append.mp hx with hin | hin
      · exact (h.below x hin).trans (by simp)
      · rw [List.mem_singleton.mp hin, hindex]
        simp
    · intro x hx
      rcases List.mem_append.mp hx with hin | hin
      · exact h.names x hin
      · rw [List.mem_singleton.mp hin, hname, hdrv]

lemma run_append_singleton (calls : List CreateCall) (call : CreateCall) :
    registry (calls ++ [call]) = (netInterfaceCreate (registry calls) call).1 ∧
      accepted (calls ++ [call]) =
        accepted calls ++ (netInterfaceCreate (registry calls) call).2.toList := by
  unfold registry accepted run
  rw [List.foldl_append]
  exact ⟨rfl, rfl⟩

/-- The trees hold what the calls returned. -/
lemma registered (calls : List CreateCall) :
    Registered (registry calls) (accepted calls) := by
  induction calls using List.reverseRecOn with
  | nil =>
    constructor
    · exact List.Pairwise.nil
    · exact List.Perm.refl _
    · rfl
    · exact List.Pairwise.nil
    · intro x hx
      cases hx
    · intro x hx
      cases hx
  | append_singleton calls call ih =>
    rcases run_append_singleton calls call with ⟨hregistry, haccepted⟩
    rw [hregistry, haccepted]
    by_cases hreaches : ∃ inst, Reaches call inst
    · rcases hreaches with ⟨inst, hreaches⟩
      rcases ih.create hreaches with ⟨hnone, -, hafter⟩ | ⟨temp, hsome, -, -, hafter⟩
      · rw [hnone, Option.toList_none, List.append_nil]
        exact hafter
      · rw [hsome]
        exact hafter
    · rw [create_of_not_reaches (by simpa using hreaches), Option.toList_none, List.append_nil]
      exact ih

/-! ## Contract -/

/-- No interface has both this interface name of a driver and this unit. -/
def Fresh (l : List NetInterface) (inst : NetDriver) (unitno : Nat) : Prop :=
  ∀ x ∈ l, x.drv.ifname ≠ inst.ifname ∨ x.unit ≠ unitno

/-- What the registry promises of a sequence of creations. -/
structure Meets (calls : List CreateCall) : Prop where
  accepts : ∀ pre call post inst, calls = pre ++ call :: post → Reaches call inst →
    Fresh (accepted pre) inst call.unitno →
      (netInterfaceCreate (registry pre) call).2.isSome = true
  index : ∀ x ∈ accepted calls, netInterfaceLookupIndex (registry calls) x.ifindex = some x
  noIndex : ∀ i, (∀ x ∈ accepted calls, x.ifindex ≠ i) →
    netInterfaceLookupIndex (registry calls) i = none
  name : ∀ x ∈ accepted calls, netInterfaceLookupName (registry calls) x.name = some x
  noName : ∀ n, (∀ x ∈ accepted calls, x.name ≠ n) →
    netInterfaceLookupName (registry calls) n = none
  order : ∃ l, l.Perm (accepted calls) ∧
    l.Pairwise (fun x y => compare x.name.chars y.name.chars = .lt) ∧
      netInterfaceFirst (registry calls) = l.head? ∧
        ∀ pre x post, l = pre ++ x :: post →
          netInterfaceNext (registry calls) x = post.head?

/-- Every call that reaches the trees with a new interface has a name after those of all
interfaces that are there. -/
def Ascending (calls : List CreateCall) : Prop :=
  ∀ pre call post inst, calls = pre ++ call :: post → Reaches call inst →
    Fresh (accepted pre) inst call.unitno →
      ∀ x ∈ accepted pre, compare x.name.chars (ifaceName inst.ifname).chars = .lt

/-- What is returned stays returned. -/
lemma accepted_prefix (calls more : List CreateCall) :
    accepted calls <+: accepted (calls ++ more) := by
  induction more using List.reverseRecOn with
  | nil => rw [List.append_nil]
  | append_singleton more call ih =>
    rw [← List.append_assoc, (run_append_singleton _ _).2]
    exact ih.trans (List.prefix_append _ _)

/-- A name that is looked up. -/
lemma lookupName_key {x : NetInterface} (hx : x.name.chars.length ≤ NETIF_NAME_LEN)
    (n : CString) :
    cmpfn x (itemp (n.take (NETIF_NAME_LEN + 1)) 0) = .eq ↔ x.name = n := by
  have htake : (n.take (NETIF_NAME_LEN + 1)).chars.length ≤ NETIF_NAME_LEN + 1 := by
    rw [CString.take, List.length_take]
    exact Nat.min_le_left _ _
  rw [key_eq_iff (Nat.le_succ_of_le hx) htake]
  constructor
  · intro heq
    apply CString.ext_chars
    have hchars : x.name.chars = n.chars.take (NETIF_NAME_LEN + 1) := congrArg CString.chars heq
    rw [hchars, List.length_take] at hx
    rw [hchars, List.take_of_length_le]
    omega
  · rintro rfl
    apply CString.ext_chars
    exact (List.take_of_length_le (Nat.le_succ_of_le hx)).symm

/-- Names are found whatever the order of the creations. -/
lemma lookupName (calls : List CreateCall) (n : CString) :
    netInterfaceLookupName (registry calls) n =
      find cmpfn (itemp (n.take (NETIF_NAME_LEN + 1)) 0)
        (registry calls).interfaceTree.toList :=
  Tree.search_eq_find (registered calls).sorted

/-- The names in order. -/
lemma sorted_names {l : List NetInterface}
    (hshort : ∀ x ∈ l, x.name.chars.length ≤ NETIF_NAME_LEN) :
    Sorted cmpfn l ↔ l.Pairwise (fun x y => compare x.name.chars y.name.chars = .lt) := by
  constructor
  · intro hsorted
    apply hsorted.imp_of_mem
    intro x y hx hy hlt
    exact (cmpfn_lt_iff (Nat.le_succ_of_le (hshort x hx))
      (Nat.le_succ_of_le (hshort y hy))).mp hlt
  · intro hpairwise
    apply hpairwise.imp_of_mem
    intro x y hx hy hlt
    exact (cmpfn_lt_iff (Nat.le_succ_of_le (hshort x hx))
      (Nat.le_succ_of_le (hshort y hy))).mpr hlt

/-- The names of ascending creations are in order. -/
lemma sorted_of_ascending {calls : List CreateCall} (hascending : Ascending calls) :
    Sorted cmpfn (accepted calls) := by
  induction calls using List.reverseRecOn with
  | nil => exact List.Pairwise.nil
  | append_singleton calls call ih =>
    have hprefix : Ascending calls := by
      intro pre call' post inst heq
      apply hascending pre call' (post ++ [call]) inst
      rw [heq, List.append_assoc, List.cons_append]
    have hbefore := ih hprefix
    have hheld := registered calls
    rw [(run_append_singleton calls call).2]
    by_cases hreaches : ∃ inst, Reaches call inst
    · rcases hreaches with ⟨inst, hreaches⟩
      rcases hheld.create hreaches with ⟨hnone, -, -⟩ | ⟨temp, hsome, hname, hdiffer, -⟩
      · rw [hnone, Option.toList_none, List.append_nil]
        exact hbefore
      · rw [hsome]
        have hfresh : Fresh (accepted calls) inst call.unitno := by
          intro x hx
          left
          intro heq
          apply hdiffer x hx
          rw [hheld.names x hx, heq, hname]
        have hafter := hascending calls call [] inst rfl hreaches hfresh
        apply List.pairwise_append.mpr
        refine ⟨hbefore, List.pairwise_singleton .., ?_⟩
        intro x hx y hy
        rw [Option.mem_toList] at hy
        cases hy
        rw [cmpfn_lt_iff (Nat.le_succ_of_le (hheld.short hx))
          (by rw [hname]; exact Nat.le_succ_of_le (length_ifaceName _)), hname]
        exact hafter x hx
    · rw [create_of_not_reaches (by simpa using hreaches), Option.toList_none, List.append_nil]
      exact hbefore

/-- The registry keeps its promise exactly if each new interface has a name after the names of
all that are there. -/
theorem registry_contract (calls : List CreateCall) : Meets calls ↔ Ascending calls := by
  have hheld := registered calls
  constructor
  · intro hmeets pre call post inst hcalls hreaches hfresh x hx
    have hpre := registered pre
    have hsearch : ∀ y ∈ (registry calls).interfaceTree.toList,
        (registry calls).interfaceTree.search cmpfnif y = some y := by
      intro y hy
      have hlookup := hmeets.index y (hheld.perm.subset hy)
      have hsame : (registry calls).interfaceTree.search cmpfnif y =
          netInterfaceLookupIndex (registry calls) y.ifindex := Tree.search_congr fun v => rfl
      exact hsame.trans hlookup
    have hsortedIf : Sorted cmpfnif (registry calls).interfaceTree.toList :=
      Tree.sorted_of_search (nodup_of_sorted hheld.sorted) hsearch
    have hlist := eq_of_perm_of_sorted hsortedIf hheld.sortedIf hheld.perm
    have hsorted : Sorted cmpfn (accepted calls) := hlist ▸ hheld.sorted
    rcases hpre.create hreaches with ⟨hnone, -, -⟩ | ⟨temp, hsome, hname, -, hafter⟩
    · have hyes := hmeets.accepts pre call post inst hcalls hreaches hfresh
      rw [hnone] at hyes
      cases hyes
    · have hprefix : accepted pre ++ [temp] <+: accepted calls := by
        have hmore := accepted_prefix (pre ++ [call]) post
        rw [(run_append_singleton pre call).2, hsome] at hmore
        rw [List.append_assoc, List.singleton_append, ← hcalls] at hmore
        exact hmore
      have hfirst := List.Pairwise.sublist hprefix.sublist hsorted
      have hlt := (List.pairwise_append.mp hfirst).2.2 x hx temp (List.mem_singleton_self _)
      rw [cmpfn_lt_iff (Nat.le_succ_of_le (hpre.short hx))
        (Nat.le_succ_of_le (hafter.short (by simp))), hname] at hlt
      exact hlt
  · intro hascending
    have hsorted := sorted_of_ascending hascending
    have hlist := eq_of_perm_of_sorted hheld.sorted hsorted hheld.perm
    constructor
    · intro pre call post inst hcalls hreaches hfresh
      have hafter := hascending pre call post inst hcalls hreaches hfresh
      rcases (registered pre).create hreaches with ⟨-, ⟨x, hx, hname⟩, -⟩ | ⟨temp, hsome, -⟩
      · have hlt := hafter x hx
        rw [hname] at hlt
        exact absurd (ReflCmp.compare_self.symm.trans hlt) (by decide)
      · rw [hsome]
        rfl
    · intro x hx
      have hfind : netInterfaceLookupIndex (registry calls) x.ifindex =
          find cmpfnif (itemp ⟨[], by simp⟩ x.ifindex) (accepted calls) := by
        rw [← hlist]
        exact Tree.search_eq_find (by rw [hlist]; exact hheld.sortedIf)
      rcases List.append_of_mem hx with ⟨l, r, hsplit⟩
      rw [hfind, hsplit]
      apply find_of_eq (hsplit ▸ hheld.sortedIf)
      rw [cmpfnif_eq]
      exact compare_eq_iff_eq.mpr rfl
    · intro i hnone
      cases hsearch : netInterfaceLookupIndex (registry calls) i with
      | none => rfl
      | some x =>
        have hfound := Tree.mem_of_search hsearch
        rw [cmpfnif_eq] at hfound
        exact absurd (compare_eq_iff_eq.mp hfound.2) (hnone x (hheld.perm.subset hfound.1))
    · intro x hx
      rcases List.append_of_mem (hheld.perm.symm.subset hx) with ⟨l, r, hsplit⟩
      rw [lookupName, hsplit]
      apply find_of_eq (hsplit ▸ hheld.sorted)
      exact (lookupName_key (hheld.short hx) _).mpr rfl
    · intro n hnone
      rw [lookupName, find, List.find?_eq_none]
      intro x hx
      have hxl := hheld.perm.subset hx
      rw [decide_eq_true_eq, lookupName_key (hheld.short hxl)]
      exact hnone x hxl
    · apply Exists.intro (accepted calls)
      refine ⟨List.Perm.refl _, (sorted_names fun x hx => hheld.short hx).mp hsorted, ?_, ?_⟩
      · rw [← hlist]
        exact Tree.first_eq_head _
      · intro pre x post hsplit
        exact Tree.next_eq_head hheld.sorted (hlist.trans hsplit) ReflCmp.compare_self

/-- A creation that succeeds unless the name is there. -/
def creation (id : Nat) (ifname : CString) (unitno : Nat) : CreateCall :=
  ⟨some ⟨id, ifname, 1500⟩, unitno, true, true⟩

/-- `"lo"` -/
def lo : CString := ⟨[0x6C, 0x6F], by simp⟩

/-- `"eth"` -/
def eth : CString := ⟨[0x65, 0x74, 0x68], by simp⟩

/-- The second unit of a driver is refused, and after `lo0` the interface `eth0` is not
found by its index. -/
theorem registry_contract_broken :
    ¬Meets [creation 1 eth 0, creation 1 eth 1] ∧ ¬Meets [creation 0 lo 0, creation 1 eth 0] := by
  constructor
  · intro hmeets
    have hfresh : ∀ x ∈ accepted [creation 1 eth 0], x.drv.ifname ≠ eth ∨ x.unit ≠ 1 := by decide
    have hyes := hmeets.accepts [creation 1 eth 0] (creation 1 eth 1) [] ⟨1, eth, 1500⟩ rfl
      ⟨rfl, rfl, rfl⟩ hfresh
    exact absurd hyes (by decide)
  · intro hmeets
    have hlookup := hmeets.index ⟨ifaceName eth, 0, 1, 1500, ⟨1, eth, 1500⟩⟩ (by decide)
    exact absurd hlookup (by decide)

end NetInterfaces
end DiegOS.Network
