import Mathlib.Data.List.GetD
import Mathlib.Order.Lattice

/-!
# Byte files

A file is its size and the bytes up to there.  Bytes written behind the end leave zeros between
them and the end; an offset is moved from the start, from where it is or from the end, and not
before the start.

Main results:

- Theorem `ByteFile.overlay_append`: bytes written behind each other are written together.
- Theorem `OpenFile.write_pos`: where a write leaves the offset.
-/

namespace DiegOS.Lib

/-- The size of a file and its bytes. -/
structure ByteFile where
  size : Nat
  byte : Nat → UInt8

attribute [ext] ByteFile

namespace ByteFile

/-- Bytes written at a place. -/
def overlay (f : ByteFile) (place : Nat) (l : List UInt8) : ByteFile :=
  if l = [] then f
  else
    { size := max f.size (place + l.length)
      byte := fun i =>
        if place ≤ i ∧ i < place + l.length then l.getD (i - place) 0
        else if i < f.size then f.byte i else 0 }

variable {f : ByteFile} {place i : Nat} {l l' : List UInt8}

@[simp]
lemma overlay_nil (f : ByteFile) (place : Nat) : f.overlay place [] = f := if_pos rfl

lemma overlay_size (h : l ≠ []) : (f.overlay place l).size = max f.size (place + l.length) := by
  rw [overlay, if_neg h]

lemma overlay_byte (h : l ≠ []) : (f.overlay place l).byte i =
    if place ≤ i ∧ i < place + l.length then l.getD (i - place) 0
    else if i < f.size then f.byte i else 0 := by
  rw [overlay, if_neg h]

/-- At the end of a file bytes make it longer. -/
lemma overlay_end (f : ByteFile) (l : List UInt8) :
    (f.overlay f.size l).size = f.size + l.length := by
  by_cases h : l = []
  · rw [h, overlay_nil]
    rfl
  · rw [overlay_size h]
    omega

/-- Bytes that are written behind each other. -/
theorem overlay_append (f : ByteFile) (place : Nat) (l l' : List UInt8) :
    (f.overlay place l).overlay (place + l.length) l' = f.overlay place (l ++ l') := by
  by_cases hl : l = []
  · rw [hl, overlay_nil]
    rfl
  by_cases hl' : l' = []
  · rw [hl', overlay_nil, List.append_nil]
  have hboth : l ++ l' ≠ [] := fun h => hl (List.append_eq_nil_iff.mp h).1
  have hsize := @overlay_size f place l hl
  apply ByteFile.ext
  · rw [overlay_size hl', hsize, overlay_size hboth, List.length_append]
    omega
  · funext i
    rw [overlay_byte hl', overlay_byte hboth, overlay_byte hl, hsize, List.length_append]
    -- what the file holds in front of the bytes and behind them
    have hrest : (if i < max f.size (place + l.length) then if i < f.size then f.byte i else 0
        else 0) = if i < f.size then f.byte i else 0 := by
      by_cases hinside : i < f.size
      · rw [if_pos (Nat.lt_of_lt_of_le hinside (Nat.le_max_left _ _))]
      · rw [if_neg hinside]
        exact ite_self 0
    by_cases hfirst : place ≤ i ∧ i < place + l.length
    · have hnot : ¬(place + l.length ≤ i ∧ i < place + l.length + l'.length) := by omega
      have hin : place ≤ i ∧ i < place + (l.length + l'.length) := by omega
      have hsize : i < max f.size (place + l.length) := by omega
      rw [if_neg hnot, if_pos hin, if_pos hsize, if_pos hfirst,
        List.getD_append _ _ _ _ (by omega)]
    · by_cases hsecond : place + l.length ≤ i ∧ i < place + l.length + l'.length
      · have hin : place ≤ i ∧ i < place + (l.length + l'.length) := by omega
        rw [if_pos hsecond, if_pos hin, List.getD_append_right _ _ _ _ (by omega), Nat.sub_sub]
      · have hout : ¬(place ≤ i ∧ i < place + (l.length + l'.length)) := by omega
        rw [if_neg hsecond, if_neg hfirst, if_neg hout, hrest]

/-- The bytes from a place on, as many as there are up to a number. -/
def slice (f : ByteFile) (place n : Nat) : List UInt8 :=
  (List.range (min n (f.size - place))).map fun k => f.byte (place + k)

lemma slice_length (f : ByteFile) (place n : Nat) :
    (f.slice place n).length = min n (f.size - place) := by
  rw [slice, List.length_map, List.length_range]

lemma slice_getD (f : ByteFile) {place n k : Nat} (hk : k < min n (f.size - place)) :
    (f.slice place n).getD k 0 = f.byte (place + k) := by
  rw [List.getD_eq_getElem _ _ (by rwa [slice_length])]
  simp only [slice, List.getElem_map, List.getElem_range]

end ByteFile

/-- From where an offset is counted. -/
inductive Origin where
  | SET
  | CUR
  | END
deriving DecidableEq, Repr

/-- A file with the offset of its descriptor. -/
structure OpenFile where
  bytes : ByteFile
  pos : Nat

namespace OpenFile

/-- Where a distance from an origin leads. -/
def target (f : OpenFile) (distance : Int) : Origin → Int
  | .SET => distance
  | .CUR => f.pos + distance
  | .END => f.bytes.size + distance

/-- Move the offset, unless it would be before the start. -/
def lseek (f : OpenFile) (distance : Int) (origin : Origin) : Option OpenFile :=
  if f.target distance origin < 0 then none
  else some { f with pos := (f.target distance origin).toNat }

/-- Write at the offset, or at the end. -/
def write (f : OpenFile) (append : Bool) (l : List UInt8) : OpenFile :=
  let f := if append then { f with pos := f.bytes.size } else f
  ⟨f.bytes.overlay f.pos l, f.pos + l.length⟩

/-- Read at the offset. -/
def read (n : Nat) (f : OpenFile) : Option (List UInt8) × OpenFile :=
  (some (f.bytes.slice f.pos n), { f with pos := f.pos + (f.bytes.slice f.pos n).length })

/-- Where the next write goes. -/
def base (f : OpenFile) (append : Bool) : Nat := if append then f.bytes.size else f.pos

variable {f : OpenFile} {append : Bool} {l l' : List UInt8}

lemma lseek_some {distance : Int} {origin : Origin} (h : 0 ≤ f.target distance origin) :
    f.lseek distance origin = some { f with pos := (f.target distance origin).toNat } :=
  if_neg (Int.not_lt.mpr h)

lemma lseek_none {distance : Int} {origin : Origin} (h : f.target distance origin < 0) :
    f.lseek distance origin = none :=
  if_pos h

lemma write_bytes (f : OpenFile) (append : Bool) (l : List UInt8) :
    (f.write append l).bytes = f.bytes.overlay (f.base append) l := by
  cases append with
  | true | false => rfl

theorem write_pos (f : OpenFile) (append : Bool) (l : List UInt8) :
    (f.write append l).pos = f.base append + l.length := by
  cases append with
  | true | false => rfl

lemma write_base (f : OpenFile) (append : Bool) (l : List UInt8) :
    (f.write append l).base append = f.base append + l.length := by
  cases append with
  | true => exact ByteFile.overlay_end f.bytes l
  | false => rfl

end OpenFile

end DiegOS.Lib
