import DiegOS.Lib.Runs
import DiegOS.Support.Words
import Mathlib.Data.List.Basic
import Mathlib.Logic.Function.Basic

/-!
# Hash lists

`hash_list.c`: a table of rows.  The first item of a row is stored in the table, the
others in a chain behind it.  A deletion copies the chain one step up.

Main results:

- Lemma `HashList.Stores.del`: a deletion takes the oldest item of its hash out of its row.
- Theorem `hash_list_is_fifo`: exactly when an operation on the table does what it does
  on the list of all items.
- Theorem `hash_list_empty_slot`: what a new table has for hash 0.
-/

namespace DiegOS.Support

open Lib

variable {α : Type}

/-! ## The code -/

/-- `hash_list_item_t` without its link; no data is `NULL`. -/
structure Item (α : Type) where
  data : Option α
  hash : UInt16
deriving DecidableEq

/-- An item of the table and the chain behind it. -/
structure Row (α : Type) where
  item : Item α
  next : List (Item α)
deriving DecidableEq

/-- `hash_list_inst_t` -/
structure HashList (α : Type) where
  list : Nat → Row α
  hashSize : Nat

namespace HashList

/-- A row of `calloc`. -/
def emptyRow : Row α := ⟨⟨none, 0⟩, []⟩

/-- `hash_list_init` -/
def init (hashSize : Nat) : Option (HashList α) :=
  if hashSize < 16 then some ⟨fun _ => emptyRow, 16⟩
  else if 65535 < hashSize then none
  else some ⟨fun _ => emptyRow, hashSize⟩

/-- The row of a hash. -/
def index (t : HashList α) (hash : UInt16) : Nat := hash.toNat % t.hashSize

/-- Overwrite a row. -/
def setRow (t : HashList α) (i : Nat) (row : Row α) : HashList α :=
  { t with list := Function.update t.list i row }

@[simp] lemma setRow_hashSize (t : HashList α) (i : Nat) (row : Row α) :
    (t.setRow i row).hashSize = t.hashSize := rfl

@[simp] lemma setRow_list (t : HashList α) (i : Nat) (row : Row α) :
    (t.setRow i row).list = Function.update t.list i row := rfl

/-- `hash_list_add` -/
def add (t : HashList α) (item : Option α) (hash : UInt16) : HashList α × Status :=
  match item with
  | none => (t, .EINVAL)
  | some _ =>
    let row := t.list (t.index hash)
    if row.item.data.isNone then
      (t.setRow (t.index hash) { row with item := ⟨item, hash⟩ }, .EOK)
    else (t.setRow (t.index hash) { row with next := row.next ++ [⟨item, hash⟩] }, .EOK)

/-- The loop of `hash_list_get`. -/
def getFrom (hash : UInt16) : List (Item α) → Option (Item α)
  | [] => none
  | cursor :: l => if cursor.hash = hash then some cursor else getFrom hash l

/-- `hash_list_get` -/
def get (t : HashList α) (hash : UInt16) : Option (Item α) :=
  let row := t.list (t.index hash)
  getFrom hash (row.item :: row.next)

/-- `hash_list_shrink_row` for an item with a next one; the result is the item and its
chain. -/
def shrinkRow : Item α → List (Item α) → Item α × List (Item α)
  | next, [] => (next, [])
  | next, next' :: l => (next, (shrinkRow next' l).1 :: (shrinkRow next' l).2)

/-- The loop of `hash_list_del` behind the first item of a row; none if no item has the
hash. -/
def delFrom (hash : UInt16) : List (Item α) → Option (List (Item α))
  | [] => none
  | cursor :: l =>
    if cursor.hash = hash then
      match l with
      | [] => some []
      | next :: l => some ((shrinkRow next l).1 :: (shrinkRow next l).2)
    else (delFrom hash l).map fun l' => cursor :: l'

/-- `hash_list_del` -/
def del (t : HashList α) (hash : UInt16) : HashList α × Status :=
  let i := t.index hash
  let row := t.list i
  if row.item.hash = hash then
    match row.next with
    | [] => (t.setRow i emptyRow, .EOK)
    | next :: l => (t.setRow i ⟨(shrinkRow next l).1, (shrinkRow next l).2⟩, .EOK)
  else
    match delFrom hash row.next with
    | none => (t, .EGENERIC)
    | some next => (t.setRow i { row with next := next }, .EOK)

end HashList

/-- A call on a table. -/
inductive HashOp (α : Type) where
  | add (item : Option α) (hash : UInt16)
  | get (hash : UInt16)
  | del (hash : UInt16)

/-- What a call returns. -/
inductive HashResult (α : Type) where
  | status (code : Status)
  | item (found : Option (Item α))
deriving DecidableEq

namespace HashList

/-- A call on the table. -/
def exec (t : HashList α) : HashOp α → HashList α × HashResult α
  | .add item hash => ((t.add item hash).1, .status (t.add item hash).2)
  | .get hash => (t, .item (t.get hash))
  | .del hash => ((t.del hash).1, .status (t.del hash).2)

/-- The table after a list of calls. -/
def run (t : HashList α) (l : List (HashOp α)) : HashList α :=
  l.foldl (fun t op => (t.exec op).1) t

end HashList

/-! ## The list of all items -/

/-- Items in the order in which they were added. -/
abbrev FifoMap (α : Type) := List (UInt16 × α)

namespace FifoMap

/-- The item of the table for an entry. -/
def toItem (p : UInt16 × α) : Item α := ⟨some p.2, p.1⟩

/-- What the calls are meant to do. -/
def exec (l : FifoMap α) : HashOp α → FifoMap α × HashResult α
  | .add none _ => (l, .status .EINVAL)
  | .add (some x) hash => (l ++ [(hash, x)], .status .EOK)
  | .get hash => (l, .item ((l.find? fun p => p.1 = hash).map toItem))
  | .del hash =>
    if l.any fun p => p.1 = hash then (l.eraseP fun p => p.1 = hash, .status .EOK)
    else (l, .status .EGENERIC)

/-- The list after a list of calls. -/
def run (l : FifoMap α) (ops : List (HashOp α)) : FifoMap α :=
  ops.foldl (fun l op => (exec l op).1) l

/-- The row for some entries. -/
def toRow : FifoMap α → Row α
  | [] => HashList.emptyRow
  | p :: l => ⟨toItem p, l.map toItem⟩

/-- The entries of one row. -/
def row (l : FifoMap α) (hashSize i : Nat) : FifoMap α :=
  l.filter fun p => p.1.toNat % hashSize = i

end FifoMap

namespace HashList

/-- The table stores the entries, each in the row of its hash. -/
structure Stores (t : HashList α) (l : FifoMap α) : Prop where
  size : 0 < t.hashSize
  rows : ∀ i, t.list i = (l.row t.hashSize i).toRow

lemma shrinkRow_eq (l : List (Item α)) : ∀ next : Item α, shrinkRow next l = (next, l) := by
  induction l with
  | nil => exact fun _ => rfl
  | cons next' l ih =>
    intro next
    rw [shrinkRow, ih]

/-- The loop erases the first item of the hash. -/
lemma delFrom_eq (hash : UInt16) (l : List (Item α)) :
    delFrom hash l = if l.any fun c => c.hash = hash then
      some (l.eraseP fun c => c.hash = hash) else none := by
  induction l with
  | nil => rfl
  | cons cursor l ih =>
    by_cases hhash : cursor.hash = hash
    · cases l with
      | nil => simp [delFrom, hhash]
      | cons next l => simp [delFrom, hhash, shrinkRow_eq]
    · rw [delFrom.eq_def]
      dsimp only
      rw [if_neg hhash, ih]
      by_cases hany : l.any fun c => decide (c.hash = hash)
      · simp [hhash, hany]
      · simp [hhash, hany]

lemma getFrom_eq (hash : UInt16) (l : List (Item α)) :
    getFrom hash l = l.find? fun c => c.hash = hash := by
  induction l with
  | nil => rfl
  | cons cursor l ih =>
    rw [getFrom, List.find?_cons]
    by_cases hhash : cursor.hash = hash
    · simp [hhash]
    · simp [hhash, ih]

end HashList

namespace FifoMap

variable {l : FifoMap α} {hashSize i : Nat} {hash : UInt16}

/-- The entries of a hash are in its row. -/
lemma row_find (l : FifoMap α) (hashSize : Nat) (hash : UInt16) :
    (l.row hashSize (hash.toNat % hashSize)).find? (fun p => p.1 = hash) =
      l.find? fun p => p.1 = hash := by
  rw [row, List.find?_filter]
  congr 1
  funext p
  by_cases hp : p.1 = hash
  · simp [hp]
  · simp [hp]

lemma row_any (l : FifoMap α) (hashSize : Nat) (hash : UInt16) :
    (l.row hashSize (hash.toNat % hashSize)).any (fun p => p.1 = hash) =
      l.any fun p => p.1 = hash := by
  rw [row, List.any_filter]
  congr 1
  funext p
  by_cases hp : p.1 = hash
  · simp [hp]
  · simp [hp]

/-- An entry that goes leaves its row. -/
lemma row_erase (l : FifoMap α) (hashSize : Nat) (hash : UInt16) :
    FifoMap.row (l.eraseP fun p => p.1 = hash) hashSize (hash.toNat % hashSize) =
      (l.row hashSize (hash.toNat % hashSize)).eraseP fun p => p.1 = hash := by
  rw [row, row, List.eraseP_filter]
  congr 2
  funext p
  by_cases hp : p.1 = hash
  · simp [hp]
  · simp [hp]

/-- An entry that goes leaves the other rows alone. -/
lemma row_erase_other (hi : i ≠ hash.toNat % hashSize) :
    FifoMap.row (l.eraseP fun p => p.1 = hash) hashSize i = l.row hashSize i := by
  induction l with
  | nil => rfl
  | cons p l ih =>
    by_cases hp : p.1 = hash
    · simp [row, hp, Ne.symm hi]
    · rw [List.eraseP_cons_of_neg (by simpa using hp), row, row, List.filter_cons,
        List.filter_cons]
      rw [row, row] at ih
      rw [ih]

lemma row_append (l l' : FifoMap α) (hashSize i : Nat) :
    FifoMap.row (l ++ l') hashSize i = l.row hashSize i ++ l'.row hashSize i :=
  List.filter_append ..

end FifoMap

namespace HashList

variable {t : HashList α} {l : FifoMap α} {hash : UInt16} {x : α}

lemma Stores.init {size : Nat} (h : HashList.init size = some t) : t.Stores [] := by
  unfold HashList.init at h
  split at h
  · cases h
    exact ⟨Nat.succ_pos 15, fun _ => rfl⟩
  · next hmin =>
      split at h
      · contradiction
      · cases h
        exact ⟨by dsimp only; omega, fun _ => rfl⟩

/-- Another row takes the place of the row of a hash. -/
lemma Stores.setRow (h : t.Stores l) {l' : FifoMap α} {row : Row α}
    (hrow : row = (l'.row t.hashSize (t.index hash)).toRow)
    (hother : ∀ i, i ≠ t.index hash → l'.row t.hashSize i = l.row t.hashSize i) :
    (t.setRow (t.index hash) row).Stores l' := by
  refine ⟨h.size, fun i => ?_⟩
  by_cases hi : i = t.index hash
  · subst hi
    rw [setRow_list, setRow_hashSize, Function.update_self]
    exact hrow
  · rw [setRow_list, setRow_hashSize, Function.update_of_ne hi, hother i hi]
    exact h.rows i

/-- The rows do not change. -/
lemma Stores.same (h : t.Stores l) {l' : FifoMap α}
    (hrows : ∀ i, l'.row t.hashSize i = l.row t.hashSize i) : t.Stores l' := by
  refine ⟨h.size, fun i => ?_⟩
  rw [hrows]
  exact h.rows i

/-- An item is added behind the others. -/
lemma Stores.add (h : t.Stores l) (x : α) (hash : UInt16) :
    (t.add (some x) hash).2 = .EOK ∧ (t.add (some x) hash).1.Stores (l ++ [(hash, x)]) := by
  have hnew : FifoMap.row [(hash, x)] t.hashSize (t.index hash) = [(hash, x)] := by
    simp [FifoMap.row, index]
  have hother : ∀ i, i ≠ t.index hash →
      FifoMap.row (l ++ [(hash, x)]) t.hashSize i = l.row t.hashSize i := by
    intro i hi
    rw [FifoMap.row_append]
    have hnone : FifoMap.row [(hash, x)] t.hashSize i = [] := by
      simpa [FifoMap.row, index] using Ne.symm hi
    rw [hnone, List.append_nil]
  have hrow := h.rows (t.index hash)
  unfold HashList.add
  dsimp only
  cases hold : l.row t.hashSize (t.index hash) with
  | nil =>
    rw [hold] at hrow
    have hfree : (FifoMap.toRow ([] : FifoMap α)).item.data.isNone = true := rfl
    rw [hrow, if_pos hfree]
    refine ⟨rfl, h.setRow ?_ hother⟩
    rw [FifoMap.row_append, hold, hnew]
    rfl
  | cons p l₀ =>
    rw [hold] at hrow
    rw [hrow, if_neg (by simp [FifoMap.toRow, FifoMap.toItem])]
    refine ⟨rfl, h.setRow ?_ hother⟩
    rw [FifoMap.row_append, hold, hnew]
    simp [FifoMap.toRow, FifoMap.toItem]

/-- The row of the hash is empty though an empty slot has this hash. -/
def Vacant (t : HashList α) (hash : UInt16) : Prop :=
  hash = 0 ∧ (t.list 0).item.data = none

/-- The row of a hash is empty or begins with an item. -/
lemma Stores.row_cases (h : t.Stores l) (hash : UInt16) :
    (l.row t.hashSize (t.index hash) = [] ∧ t.list (t.index hash) = emptyRow ∧
      (t.Vacant hash ↔ hash = 0)) ∨
    ∃ p l₀, l.row t.hashSize (t.index hash) = p :: l₀ ∧
      t.list (t.index hash) = ⟨FifoMap.toItem p, l₀.map FifoMap.toItem⟩ ∧ ¬t.Vacant hash := by
  have hrow := h.rows (t.index hash)
  have hzero : hash = 0 → t.index hash = 0 := by
    rintro rfl
    exact Nat.zero_mod _
  cases hold : l.row t.hashSize (t.index hash) with
  | nil =>
    rw [hold] at hrow
    refine .inl ⟨rfl, hrow, fun hvacant => hvacant.1, fun heq => ⟨heq, ?_⟩⟩
    rw [← hzero heq, hrow]
    rfl
  | cons p l₀ =>
    rw [hold] at hrow
    refine .inr ⟨p, l₀, rfl, hrow, ?_⟩
    rintro ⟨heq, hnone⟩
    rw [← hzero heq, hrow] at hnone
    contradiction

/-- The oldest item of a hash is found. -/
lemma Stores.get (h : t.Stores l) (hash : UInt16) :
    t.get hash = (l.find? fun p => p.1 = hash).map FifoMap.toItem ↔ ¬t.Vacant hash := by
  rw [← FifoMap.row_find l t.hashSize hash]
  unfold HashList.get
  dsimp only
  rw [getFrom_eq]
  change _ = Option.map _ ((l.row t.hashSize (t.index hash)).find? _) ↔ _
  rcases h.row_cases hash with ⟨hnil, hrow, hvacant⟩ | ⟨p, l₀, hcons, hrow, hvacant⟩
  · rw [hnil, hrow, hvacant]
    by_cases hzero : hash = 0
    · simp [hzero, emptyRow]
    · simp [hzero, emptyRow, Ne.symm hzero]
  · rw [hcons, hrow]
    refine iff_of_true ?_ hvacant
    dsimp only
    rw [← List.map_cons, List.find?_map]
    rfl

/-- The oldest item of a hash is deleted. -/
lemma Stores.del (h : t.Stores l) (hash : UInt16) :
    (t.del hash).1.Stores (l.eraseP fun p => p.1 = hash) ∧
      ((t.del hash).2 = (if l.any fun p => p.1 = hash then .EOK else .EGENERIC) ↔
        ¬t.Vacant hash) := by
  rw [← FifoMap.row_any l t.hashSize hash]
  change _ ∧ (_ = (if (l.row t.hashSize (t.index hash)).any _ then _ else _) ↔ _)
  have hother : ∀ i, i ≠ t.index hash →
      FifoMap.row (l.eraseP fun p => p.1 = hash) t.hashSize i = l.row t.hashSize i :=
    fun i hi => FifoMap.row_erase_other hi
  have herase : FifoMap.row (l.eraseP fun p => p.1 = hash) t.hashSize (t.index hash) =
      (l.row t.hashSize (t.index hash)).eraseP fun p => p.1 = hash :=
    FifoMap.row_erase l t.hashSize hash
  unfold HashList.del
  dsimp only
  rcases h.row_cases hash with ⟨hnil, hrow, hvacant⟩ | ⟨p, l₀, hcons, hrow, hvacant⟩
  · rw [hnil] at herase ⊢
    rw [hrow, hvacant]
    by_cases hzero : hash = 0
    · have hempty : (emptyRow : Row α).item.hash = hash := hzero.symm
      rw [if_pos hempty]
      exact ⟨h.setRow (by rw [herase]; rfl) hother, by simp [emptyRow, hzero]⟩
    · have hempty : (emptyRow : Row α).item.hash ≠ hash := Ne.symm hzero
      rw [if_neg hempty]
      exact ⟨h.same fun i => by
        by_cases hi : i = t.index hash
        · rw [hi, herase, hnil]
          rfl
        · exact hother i hi, by simp [emptyRow, delFrom, hzero]⟩
  · rw [hcons] at herase ⊢
    rw [hrow]
    by_cases hp : p.1 = hash
    · rw [List.eraseP_cons_of_pos (by simpa using hp)] at herase
      have hitem : (FifoMap.toItem p).hash = hash := hp
      have hany : ((p :: l₀).any fun p => decide (p.1 = hash)) = true := by simp [hp]
      rw [if_pos hitem, if_pos hany]
      cases l₀ with
      | nil => exact ⟨h.setRow (by rw [herase]; rfl) hother, iff_of_true rfl hvacant⟩
      | cons p' l₁ =>
        refine ⟨h.setRow ?_ hother, iff_of_true rfl hvacant⟩
        rw [herase, shrinkRow_eq]
        rfl
    · rw [List.eraseP_cons_of_neg (by simpa using hp)] at herase
      have hitem : (FifoMap.toItem p).hash ≠ hash := hp
      have hmap : ((l₀.map FifoMap.toItem).any fun c => decide (c.hash = hash)) =
          l₀.any fun p => decide (p.1 = hash) := by
        rw [List.any_map]
        rfl
      have herased : (l₀.map FifoMap.toItem).eraseP (fun c => decide (c.hash = hash)) =
          (l₀.eraseP fun p => decide (p.1 = hash)).map FifoMap.toItem := by
        rw [List.eraseP_map]
        rfl
      have hany : ((p :: l₀).any fun p => decide (p.1 = hash)) =
          l₀.any fun p => decide (p.1 = hash) := by simp [hp]
      rw [if_neg hitem, delFrom_eq, hmap, herased, hany]
      by_cases hmem : (l₀.any fun p => decide (p.1 = hash)) = true
      · rw [if_pos hmem, if_pos hmem]
        exact ⟨h.setRow (by rw [herase]; rfl) hother, iff_of_true rfl hvacant⟩
      · rw [if_neg hmem, if_neg hmem]
        refine ⟨h.same fun i => ?_, iff_of_true rfl hvacant⟩
        by_cases hi : i = t.index hash
        · rw [hi, herase, hcons, List.eraseP_of_forall_not]
          intro p' hp' heq
          exact hmem (List.any_eq_true.mpr ⟨p', hp', heq⟩)
        · exact hother i hi

/-! ## Runs of calls -/

/-- The condition on a call. -/
def Answers (t : HashList α) : HashOp α → Prop
  | .add _ _ => True
  | .get hash | .del hash => ¬t.Vacant hash

/-- Table and list stay together. -/
lemma Stores.exec (h : t.Stores l) (op : HashOp α) :
    (t.exec op).1.Stores (FifoMap.exec l op).1 ∧
      ((t.exec op).2 = (FifoMap.exec l op).2 ↔ t.Answers op) := by
  cases op with
  | add item hash =>
    cases item with
    | none => exact ⟨h, iff_of_true rfl trivial⟩
    | some x =>
      obtain ⟨hcode, hstores⟩ := h.add x hash
      exact ⟨hstores, iff_of_true (congrArg HashResult.status hcode) trivial⟩
  | get hash =>
    refine ⟨h, ?_⟩
    rw [Answers, ← h.get hash]
    exact HashResult.item.injEq .. ▸ Iff.rfl
  | del hash =>
    obtain ⟨hstores, hcode⟩ := h.del hash
    rw [Answers, ← hcode]
    unfold FifoMap.exec HashList.exec
    dsimp only
    by_cases hmem : (l.any fun p => decide (p.1 = hash)) = true
    · rw [if_pos hmem, if_pos hmem]
      exact ⟨hstores, HashResult.status.injEq .. ▸ Iff.rfl⟩
    · rw [if_neg hmem, if_neg hmem]
      rw [List.eraseP_of_forall_not] at hstores
      · exact ⟨hstores, HashResult.status.injEq .. ▸ Iff.rfl⟩
      · intro p hp heq
        exact hmem (List.any_eq_true.mpr ⟨p, hp, heq⟩)

end HashList

/-- After every list of calls a further call does to the table what it does to the list of all
items, and it returns the same except for hash 0 while the first row is empty. -/
theorem hash_list_is_fifo {size : Nat} {t₀ : HashList α} (hinit : HashList.init size = some t₀)
    (ops : List (HashOp α)) (op : HashOp α) :
    (t₀.run ops).Stores (FifoMap.run [] ops) ∧
      ((t₀.run ops).exec op).1.Stores (FifoMap.exec (FifoMap.run [] ops) op).1 ∧
      (((t₀.run ops).exec op).2 = (FifoMap.exec (FifoMap.run [] ops) op).2 ↔
        (t₀.run ops).Answers op) := by
  have hrun : ∀ (ops : List (HashOp α)) {t : HashList α} {l : FifoMap α}, t.Stores l →
      (t.run ops).Stores (FifoMap.run l ops) := by
    intro ops
    induction ops with
    | nil => exact fun h => h
    | cons op ops ih => exact fun h => ih (h.exec op).1
  have hstores := hrun ops (HashList.Stores.init hinit)
  exact ⟨hstores, hstores.exec op⟩

/-- A new table. -/
def newTable : HashList Nat := ⟨fun _ => HashList.emptyRow, 16⟩

/-- Two items of one hash and another item in their row; the oldest one goes. -/
theorem hash_list_is_fifo_row :
    ((newTable.run [.add (some 5) 17, .add (some 6) 33, .add (some 7) 17, .del 17]).exec
      (.get 17)).2 = .item (some ⟨some 7, 17⟩) := by
  have hinit : HashList.init 16 = some newTable := rfl
  have hfifo := (hash_list_is_fifo hinit
    [.add (some 5) 17, .add (some 6) 33, .add (some 7) 17, .del 17] (.get 17)).2.2.mpr
    fun hvacant => absurd hvacant.1 (by decide)
  rw [hfifo]
  decide

/-- A new table has an item of hash 0, and its deletion succeeds. -/
theorem hash_list_empty_slot :
    (newTable.exec (.get 0)).2 = .item (some ⟨none, 0⟩) ∧
      (FifoMap.exec ([] : FifoMap Nat) (.get 0)).2 = .item none ∧
      (newTable.exec (.del 0)).2 = .status .EOK ∧
      (FifoMap.exec ([] : FifoMap Nat) (.del 0)).2 = .status .EGENERIC := by
  decide

end DiegOS.Support
