import DiegOS.Applications.SystemParser
import DiegOS.Libc.Snprintf

/-!
# The console

The loop of `console.c` that edits a line in a buffer of 128 bytes and passes it to
`system_parser`.  An input character is the `int` that `getchar` returns; memory behind the
buffer is addressed by the indices from 128 on.

Main results:

- Theorem `Edits.round`: one character moves the buffer as it moves the text.
- Theorem `overruns_of_full`: what a character does for which there is no room.
- Theorem `line_editing_iff`: the lines for which the buffer holds what has been typed.
-/

namespace DiegOS.Applications.Console

open Lib Libc SystemParser

/-! ## The loop -/

/-- `sizeof(buffer)` -/
def BUFFER : Nat := 128

/-- `system_parser` calls `console_logout` for the string. -/
def logsOut (text : List UInt8) : Bool :=
  (systemParser consoleTree (some .root) BUFFER (some (text ++ [0]))
    (UInt32.ofNat (text.length + 1))).any fun effects => .console_logout ∈ calls effects

def isprint (c : Int) : Bool := c > 31 && c < 127

def iscntrl (c : Int) : Bool := if c ≥ 0 ∧ c ≤ 31 then true else c = 127

/-- The variables of `console_main_entry`, with `console_is_on`, the indices of the
buffer that have been read or written, and the strings that have been passed to
`system_parser`: nothing for a buffer without a NUL. -/
structure State where
  buffer : Nat → UInt8
  bufferHead : Nat
  cmdTypein : Bool
  isOn : Bool
  accesses : List Nat
  commands : List (Option (List UInt8))

namespace State

/-- `buffer[i] = c` -/
def write (s : State) (i : Nat) (c : UInt8) : State :=
  { s with buffer := Function.update s.buffer i c, accesses := i :: s.accesses }

/-- `buffer[buffer_head++] = c` -/
def put (s : State) (c : UInt8) : State :=
  { s.write s.bufferHead c with bufferHead := s.bufferHead + 1 }

/-- The blank before a tab, if the line has characters and the last one is none. -/
def putBlank (s : State) : State :=
  if s.bufferHead ≠ 0 then
    let s := { s with accesses := (s.bufferHead - 1) :: s.accesses }
    if s.buffer (s.bufferHead - 1) ≠ 0x20 then s.put 0x20 else s
  else s

/-- The end of a line. -/
def putEnd (s : State) : State := { s with cmdTypein := false }.put 0

/-- What is done with a character. -/
def key (s : State) (c : Int) : State :=
  if isprint c then s.put (UInt8.ofNat c.toNat)
  else if iscntrl c then
    if c = 0x08 then
      if s.bufferHead ≠ 0 then
        { s.write s.bufferHead 0 with bufferHead := s.bufferHead - 1 }
      else s
    else if c = 0x09 then (s.putBlank.put 0x09).putEnd
    else if c = 0x0D ∨ c = 0x0A then s.putEnd
    else s
  else s

/-- The string in the buffer; without a NUL there is none. -/
def text (s : State) : Option (List UInt8) :=
  if 0 ∈ (List.range BUFFER).map s.buffer then some (cString s.buffer BUFFER) else none

/-- The call of `system_parser`, and the next line if it does not log out. -/
def parse (s : State) : State :=
  { s with
    bufferHead := 0
    cmdTypein := true
    isOn := !s.text.any logsOut
    commands := s.commands ++ [s.text] }

/-- One round of the loop. -/
def round (s : State) (c : Int) : State :=
  if s.isOn then
    let s := s.key c
    if s.cmdTypein && s.bufferHead < BUFFER then s else s.parse
  else s

/-- The console before any input. -/
def start : State := ⟨fun _ => 0, 0, true, true, [], []⟩

end State

/-! ## What is typed -/

/-- The text of the line that is typed and the lines before it. -/
structure Typed where
  line : List UInt8
  lines : List (List UInt8)
  isOn : Bool
deriving DecidableEq

namespace Typed

/-- The end of a line: the next line begins unless the text logs out. -/
def finish (t : Typed) (text : List UInt8) : Typed :=
  ⟨[], t.lines ++ [text], !logsOut text⟩

/-- What a character does to the text: printable characters are added, a backspace takes the
last one back, and a return or a tab ends the line; `atTab` is the text that a tab
makes. -/
def round (atTab : List UInt8 → List UInt8) (t : Typed) (c : Int) : Typed :=
  if !t.isOn then t
  else if isprint c then { t with line := t.line ++ [UInt8.ofNat c.toNat] }
  else if c = 0x08 then { t with line := t.line.dropLast }
  else if c = 0x09 then t.finish (atTab t.line)
  else if c = 0x0D ∨ c = 0x0A then t.finish t.line
  else t

/-- Before any input. -/
def start : Typed := ⟨[], [], true⟩

end Typed

/-- The text with a blank behind its last word. -/
def blanked (line : List UInt8) : List UInt8 :=
  if line = [] ∨ line.getLast? = some 0x20 then line else line ++ [0x20]

/-- The text with the tab that the parser looks for, as a token of its own. -/
def tabbed (line : List UInt8) : List UInt8 := blanked line ++ [0x09]

/-- The buffer has not been left, and the parser got the lines that were typed. -/
def Right (p : State × Typed) : Prop :=
  (∀ i ∈ p.1.accesses, i < BUFFER) ∧ p.1.commands = p.2.lines.map some

/-- The console beside the text. -/
def both (atTab : List UInt8 → List UInt8) (p : State × Typed) (c : Int) : State × Typed :=
  (p.1.round c, p.2.round atTab c)

/-- There is room for a character, and for the NUL behind it. -/
def Room (p : State × Typed) (c : Int) : Prop :=
  p.2.isOn → (isprint c → p.2.line.length + 1 < BUFFER) ∧
    (c = 0x09 → (tabbed p.2.line).length < BUFFER)

instance (p : State × Typed) (c : Int) : Decidable (Room p c) :=
  inferInstanceAs (Decidable (_ → _ ∧ _))

/-! ## The buffer holds the text -/

variable {s : State} {t : Typed} {c : Int} {x : UInt8} {line : List UInt8} {i : Nat}

/-- The characters in the buffer are those of the text, and no access left it. -/
structure Holds (s : State) (line : List UInt8) : Prop where
  chars : (List.range s.bufferHead).map s.buffer = line
  inside : ∀ i ∈ s.accesses, i < BUFFER

namespace Holds

section

variable (h : Holds s line)
include h

lemma head : s.bufferHead = line.length := by
  rw [← h.chars, List.length_map, List.length_range]

lemma head_eq_zero_iff : s.bufferHead = 0 ↔ line = [] := by
  rw [h.head, List.length_eq_zero_iff]

/-- The character before the position is the last one of the text. -/
lemma last (hne : s.bufferHead ≠ 0) :
    line.getLast? = some (s.buffer (s.bufferHead - 1)) := by
  obtain ⟨n, hn⟩ := Nat.exists_eq_succ_of_ne_zero hne
  rw [← h.chars, hn, List.range_succ, List.map_append, List.map_singleton,
    List.getLast?_concat]
  rfl

lemma put (x : UInt8) (hroom : line.length < BUFFER) :
    Holds (s.put x) (line ++ [x]) where
  chars := by
    change (List.range (s.bufferHead + 1)).map (Function.update s.buffer s.bufferHead x) = _
    rw [List.range_succ, List.map_append, List.map_singleton, Function.update_self,
      map_update_of_le (Nat.le_refl _), h.chars]
  inside := by
    intro i hi
    rcases List.mem_cons.mp hi with rfl | hi
    · rwa [h.head]
    · exact h.inside i hi

/-- The position after the blank. -/
lemma putBlank_head : s.putBlank.bufferHead = (blanked line).length := by
  rw [State.putBlank, blanked]
  by_cases hzero : s.bufferHead = 0
  · rw [if_neg (not_not.mpr hzero), if_pos (.inl (h.head_eq_zero_iff.mp hzero)), h.head]
  · have hnil : line ≠ [] := fun heq => hzero (h.head_eq_zero_iff.mpr heq)
    rw [if_pos hzero]
    simp only [h.last hzero, Option.some.injEq, hnil, false_or]
    by_cases hblank : s.buffer (s.bufferHead - 1) = 0x20
    · rw [if_neg (not_not.mpr hblank), if_pos hblank, h.head]
    · rw [if_pos hblank, if_neg hblank, List.length_append, ← h.head]
      rfl

lemma putBlank (hroom : line.length + 1 < BUFFER) :
    Holds s.putBlank (blanked line) := by
  rw [State.putBlank, blanked]
  by_cases hzero : s.bufferHead = 0
  · rw [if_neg (not_not.mpr hzero), if_pos (.inl (h.head_eq_zero_iff.mp hzero))]
    exact h
  · have hread : Holds { s with accesses := (s.bufferHead - 1) :: s.accesses } line := by
      refine ⟨h.chars, fun i hi => ?_⟩
      rcases List.mem_cons.mp hi with rfl | hi
      · have hhead := h.head
        omega
      · exact h.inside i hi
    have hnil : line ≠ [] := fun heq => hzero (h.head_eq_zero_iff.mpr heq)
    rw [if_pos hzero]
    simp only [h.last hzero, Option.some.injEq, hnil, false_or]
    by_cases hblank : s.buffer (s.bufferHead - 1) = 0x20
    · rw [if_neg (not_not.mpr hblank), if_pos hblank]
      exact hread
    · rw [if_pos hblank, if_neg hblank]
      exact hread.put 0x20 (Nat.lt_of_succ_lt hroom)

lemma back (hne : s.bufferHead ≠ 0) (hroom : line.length < BUFFER) :
    Holds { s.write s.bufferHead 0 with bufferHead := s.bufferHead - 1 } line.dropLast where
  chars := by
    obtain ⟨n, hn⟩ := Nat.exists_eq_succ_of_ne_zero hne
    rw [← h.chars, hn, List.range_succ, List.map_append, List.map_singleton,
      List.dropLast_concat, Nat.succ_sub_one]
    exact map_update_of_le (Nat.le_succ n) 0
  inside := by
    intro i hi
    rcases List.mem_cons.mp hi with rfl | hi
    · rwa [h.head]
    · exact h.inside i hi

end

/-- A NUL behind the text ends the string. -/
lemma text (h : Holds s (line ++ [0])) (hroom : line.length < BUFFER)
    (hnul : ∀ x ∈ line, x ≠ 0) : s.text = some line := by
  have hhead : s.bufferHead = line.length + 1 := by
    rw [h.head, List.length_append, List.length_singleton]
  have hchars := h.chars
  rw [hhead, List.range_succ, List.map_append, List.map_singleton] at hchars
  obtain ⟨hline, hzero⟩ := List.append_inj' hchars rfl
  have hzero : s.buffer line.length = 0 := List.singleton_inj.mp hzero
  rw [State.text, if_pos, cString_of_zero hroom hzero (hline.symm ▸ hnul), hline]
  exact List.mem_map.mpr ⟨line.length, List.mem_range.mpr hroom, hzero⟩

end Holds

/-- The buffer holds the line that is typed, with room for a NUL, and the lines before have been
passed on. -/
structure Edits (p : State × Typed) : Prop where
  holds : Holds p.1 p.2.line
  room : p.2.line.length < BUFFER
  nul : ∀ x ∈ p.2.line, x ≠ 0
  typein : p.1.cmdTypein = true
  isOn : p.1.isOn = p.2.isOn
  commands : p.1.commands = p.2.lines.map some

namespace Edits

variable {p : State × Typed}

lemma right (h : Edits p) : Right p := ⟨h.holds.inside, h.commands⟩

lemma start : Edits (State.start, Typed.start) where
  holds := ⟨rfl, fun _ hi => absurd hi List.not_mem_nil⟩
  room := by decide
  nul := fun _ hx => absurd hx List.not_mem_nil
  typein := rfl
  isOn := rfl
  commands := rfl

end Edits

lemma isprint_ne_zero (h : isprint c = true) : UInt8.ofNat c.toNat ≠ 0 := by
  rw [isprint, Bool.and_eq_true, decide_eq_true_eq, decide_eq_true_eq] at h
  intro hzero
  have hnat := congrArg UInt8.toNat hzero
  rw [UInt8.toNat_ofNat', Nat.mod_eq_of_lt (by omega)] at hnat
  have hpos : (0 : UInt8).toNat = 0 := rfl
  omega

lemma length_le_blanked (line : List UInt8) : line.length ≤ (blanked line).length := by
  rw [blanked]
  split
  · exact Nat.le_refl _
  · rw [List.length_append]
    exact Nat.le_add_right _ _

lemma length_tabbed (line : List UInt8) : (tabbed line).length = (blanked line).length + 1 := by
  rw [tabbed, List.length_append, List.length_singleton]

lemma tabbed_ne_zero (h : ∀ x ∈ line, x ≠ 0) : ∀ x ∈ tabbed line, x ≠ 0 := by
  intro x hx
  rw [tabbed, blanked] at hx
  split at hx
  · rcases List.mem_append.mp hx with hx | hx
    · exact h x hx
    · rw [List.mem_singleton.mp hx]
      decide
  · simp only [List.append_assoc, List.mem_append, List.mem_singleton] at hx
    rcases hx with hx | rfl | rfl
    · exact h x hx
    · decide
    · decide

/-- The end of a line passes the text on. -/
lemma putEnd_parse (h : Holds s line) (hroom : line.length < BUFFER)
    (hnul : ∀ x ∈ line, x ≠ 0) (hcommands : s.commands = t.lines.map some) :
    Edits (s.putEnd.parse, t.finish line) := by
  have hstop : Holds { s with cmdTypein := false } line := ⟨h.chars, h.inside⟩
  have hend : Holds s.putEnd (line ++ [0]) := hstop.put 0 hroom
  have htext := hend.text hroom hnul
  refine ⟨⟨rfl, hend.inside⟩, (by decide : 0 < BUFFER), fun _ hx => absurd hx List.not_mem_nil,
    rfl, ?_, ?_⟩
  · simp only [State.parse, Typed.finish, htext, Option.any_some]
  · change s.commands ++ [s.putEnd.text] = (t.lines ++ [line]).map some
    rw [htext, hcommands, List.map_append, List.map_singleton]

lemma round_of_typein (hon : s.isOn = true) (htypein : (s.key c).cmdTypein = true)
    (hhead : (s.key c).bufferHead < BUFFER) : s.round c = s.key c := by
  rw [State.round, if_pos hon]
  simp only [htypein, hhead, decide_true, Bool.and_self, if_true]

lemma round_of_end (hon : s.isOn = true) (htypein : (s.key c).cmdTypein = false) :
    s.round c = (s.key c).parse := by
  rw [State.round, if_pos hon]
  simp only [htypein, Bool.false_and, Bool.false_eq_true, if_false]

lemma round_of_full (hon : s.isOn = true) (hhead : BUFFER ≤ (s.key c).bufferHead) :
    s.round c = (s.key c).parse := by
  rw [State.round, if_pos hon]
  simp only [Nat.not_lt.mpr hhead, decide_false, Bool.and_false, Bool.false_eq_true, if_false]

lemma putBlank_commands (s : State) : s.putBlank.commands = s.commands := by
  simp only [State.putBlank]
  split
  · split <;> rfl
  · rfl

/-- What is done with a character that is not printable. -/
lemma key_of_not_print (h : isprint c = false) :
    s.key c =
      if c = 0x08 then
        if s.bufferHead ≠ 0 then { s.write s.bufferHead 0 with bufferHead := s.bufferHead - 1 }
        else s
      else if c = 0x09 then (s.putBlank.put 0x09).putEnd
      else if c = 0x0D ∨ c = 0x0A then s.putEnd
      else s := by
  rw [State.key, h, if_neg Bool.false_ne_true]
  cases hcntrl : iscntrl c with
  | true => rw [if_pos rfl]
  | false =>
    have hrange : ¬(c ≥ 0 ∧ c ≤ 31) := by
      intro hin
      rw [iscntrl, if_pos hin] at hcntrl
      contradiction
    rw [if_neg Bool.false_ne_true, if_neg (by omega), if_neg (by omega), if_neg (by omega)]

section Keys

variable (h : Edits (s, t)) (hon : t.isOn = true)
include h hon

lemma Edits.print (hprint : isprint c = true) (hroom : t.line.length + 1 < BUFFER) :
    Edits (both tabbed (s, t) c) := by
  have hkey : s.key c = s.put (UInt8.ofNat c.toNat) := by rw [State.key, if_pos hprint]
  have hput := h.holds.put (UInt8.ofNat c.toNat) h.room
  have hlen : (t.line ++ [UInt8.ofNat c.toNat]).length < BUFFER := by
    rwa [List.length_append, List.length_singleton]
  have hround : s.round c = s.put (UInt8.ofNat c.toNat) := by
    rw [round_of_typein (h.isOn.trans hon) (hkey ▸ h.typein) (hkey ▸ hput.head ▸ hlen), hkey]
  simp only [both, hround, Typed.round, hon, hprint, Bool.not_true, Bool.false_eq_true, if_false,
    if_true]
  refine ⟨hput, hlen, fun x hx => ?_, h.typein, h.isOn.trans hon, h.commands⟩
  rcases List.mem_append.mp hx with hx | hx
  · exact h.nul x hx
  · rw [List.mem_singleton.mp hx]
    exact isprint_ne_zero hprint

lemma Edits.back : Edits (both tabbed (s, t) 0x08) := by
  have hkey := key_of_not_print (s := s) (c := 0x08) rfl
  rw [if_pos rfl] at hkey
  have hline : Typed.round tabbed t 0x08 = { t with line := t.line.dropLast } := by
    rw [Typed.round, hon]
    rfl
  by_cases hzero : s.bufferHead = 0
  · rw [if_neg (not_not.mpr hzero)] at hkey
    have hround : s.round 0x08 = s := by
      rw [round_of_typein (h.isOn.trans hon) (hkey.symm ▸ h.typein)
        (by rw [hkey, hzero]; decide), hkey]
    have hnil : t.line.dropLast = t.line := by
      rw [h.holds.head_eq_zero_iff.mp hzero]
      rfl
    rw [both, hround, hline, hnil]
    exact h
  · rw [if_pos hzero] at hkey
    have hback := h.holds.back hzero h.room
    have hless : t.line.dropLast.length ≤ t.line.length := by
      rw [List.length_dropLast]
      exact Nat.sub_le _ _
    have hlen := Nat.lt_of_le_of_lt hless h.room
    have hround : s.round 0x08 = s.key 0x08 :=
      round_of_typein (h.isOn.trans hon) (hkey.symm ▸ h.typein)
        (by rw [hkey]; exact hback.head ▸ hlen)
    rw [both, hround, hline, hkey]
    exact ⟨hback, hlen, fun x hx => h.nul x (List.dropLast_subset _ hx), h.typein, h.isOn,
      h.commands⟩

lemma Edits.tab (hroom : (tabbed t.line).length < BUFFER) :
    Edits (both tabbed (s, t) 0x09) := by
  have hkey := key_of_not_print (s := s) (c := 0x09) rfl
  rw [if_neg (by decide), if_pos rfl] at hkey
  have hround : s.round 0x09 = (s.putBlank.put 0x09).putEnd.parse := by
    rw [round_of_end (h.isOn.trans hon) (by rw [hkey]; rfl), hkey]
  have hline : Typed.round tabbed t 0x09 = t.finish (tabbed t.line) := by
    rw [Typed.round, hon]
    rfl
  have hholds : Holds s t.line := h.holds
  have hblanked := length_tabbed t.line
  have hle := length_le_blanked t.line
  have htab := (hholds.putBlank (by omega)).put 0x09 (by omega)
  rw [both, hround, hline]
  refine putEnd_parse htab hroom (tabbed_ne_zero h.nul) ?_
  exact (putBlank_commands s).trans h.commands

lemma Edits.return (hc : c = 0x0D ∨ c = 0x0A) : Edits (both tabbed (s, t) c) := by
  have hkey : s.key c = s.putEnd := by
    rcases hc with rfl | rfl
    · exact key_of_not_print rfl
    · exact key_of_not_print rfl
  have hround : s.round c = s.putEnd.parse := by
    rw [round_of_end (h.isOn.trans hon) (by rw [hkey]; rfl), hkey]
  have hline : Typed.round tabbed t c = t.finish t.line := by
    rw [Typed.round, hon]
    rcases hc with rfl | rfl
    · rfl
    · rfl
  rw [both, hround, hline]
  exact putEnd_parse h.holds h.room h.nul h.commands

lemma Edits.other (hprint : isprint c = false) (hback : c ≠ 0x08) (htab : c ≠ 0x09)
    (hreturn : ¬(c = 0x0D ∨ c = 0x0A)) : Edits (both tabbed (s, t) c) := by
  have hkey : s.key c = s := by
    rw [key_of_not_print hprint, if_neg hback, if_neg htab, if_neg hreturn]
  have hround : s.round c = s := by
    rw [round_of_typein (h.isOn.trans hon) (by rw [hkey]; exact h.typein)
      (by rw [hkey, h.holds.head]; exact h.room), hkey]
  have hline : Typed.round tabbed t c = t := by
    simp only [Typed.round, hon, hprint, Bool.not_true, Bool.false_eq_true, if_false, if_neg hback,
      if_neg htab, if_neg hreturn]
  rwa [both, hround, hline]

end Keys

/-- One character moves the buffer as it moves the text, if there is room for it. -/
theorem Edits.round {p : State × Typed} (h : Edits p) (hroom : Room p c) :
    Edits (both tabbed p c) := by
  rcases p with ⟨s, t⟩
  cases hon : t.isOn with
  | false =>
    have hoff : s.isOn = false := h.isOn.trans hon
    have hstay : both tabbed (s, t) c = (s, t) := by
      simp [both, State.round, Typed.round, hoff, hon]
    rwa [hstay]
  | true =>
    cases hprint : isprint c with
    | true => exact h.print hon hprint ((hroom hon).1 hprint)
    | false =>
      by_cases hback : c = 0x08
      · exact hback ▸ h.back hon
      · by_cases htab : c = 0x09
        · exact htab ▸ h.tab hon ((hroom hon).2 htab)
        · by_cases hreturn : c = 0x0D ∨ c = 0x0A
          · exact h.return hon hreturn
          · exact h.other hon hprint hback htab hreturn

/-- A printable character in the last place leaves no NUL for the parser. -/
lemma Edits.full (h : Edits (s, t)) (hon : t.isOn = true) (hprint : isprint c = true)
    (hlen : t.line.length + 1 = BUFFER) : none ∈ (s.round c).commands := by
  have hkey : s.key c = s.put (UInt8.ofNat c.toNat) := by rw [State.key, if_pos hprint]
  have hput := h.holds.put (UInt8.ofNat c.toNat) h.room
  have hhead : (s.put (UInt8.ofNat c.toNat)).bufferHead = BUFFER := by
    rw [hput.head, List.length_append, List.length_singleton, hlen]
  have hnone : (s.put (UInt8.ofNat c.toNat)).text = none := by
    rw [State.text, if_neg]
    intro hzero
    rw [← hhead, hput.chars] at hzero
    rcases List.mem_append.mp hzero with hzero | hzero
    · exact h.nul 0 hzero rfl
    · exact isprint_ne_zero hprint (List.mem_singleton.mp hzero).symm
  rw [round_of_full (h.isOn.trans hon) (by rw [hkey]; exact Nat.le_of_eq hhead.symm), hkey]
  exact List.mem_append_right _ (List.mem_singleton.mpr hnone.symm)

/-- A tab writes a NUL behind the text it makes. -/
lemma Edits.tab_access (h : Edits (s, t)) (hon : t.isOn = true) :
    (tabbed t.line).length ∈ (s.round 0x09).accesses := by
  have hkey := key_of_not_print (s := s) (c := 0x09) rfl
  rw [if_neg (by decide), if_pos rfl] at hkey
  rw [round_of_end (h.isOn.trans hon) (by rw [hkey]; rfl), hkey, length_tabbed,
    ← h.holds.putBlank_head]
  exact .head _

/-- Without room for a character the buffer is left, or the parser gets no string. -/
theorem overruns_of_full {p : State × Typed} (h : Edits p) (hroom : ¬Room p c) :
    ¬Right (both tabbed p c) := by
  rcases p with ⟨s, t⟩
  intro hright
  have hon : t.isOn = true := by
    by_contra hoff
    exact hroom fun hon => absurd hon hoff
  apply hroom
  refine fun _ => ⟨fun hprint => ?_, fun htab => ?_⟩
  · by_contra hlen
    have hlast : t.line.length + 1 = BUFFER := by
      have hlt := h.room
      have hge : BUFFER ≤ t.line.length + 1 := Nat.not_lt.mp hlen
      change t.line.length < BUFFER at hlt
      omega
    have hnone := h.full hon hprint hlast
    have hcommands : (s.round c).commands = (t.round tabbed c).lines.map some := hright.2
    rw [hcommands] at hnone
    obtain ⟨_, _, hsome⟩ := List.mem_map.mp hnone
    contradiction
  · by_contra hlen
    subst htab
    exact hlen (hright.1 _ (h.tab_access hon))

/-- While it reads its input the console stays in its buffer and passes on the lines that are
typed, a tab with the blank before it, exactly if every character finds room in the buffer. -/
theorem line_editing_iff (keys : List Int) :
    (∀ p ∈ passed (both tabbed) (State.start, Typed.start) keys, Right p) ↔
      Along (both tabbed) Room (State.start, Typed.start) keys := by
  refine Along.forall_passed_iff (fun _ => Edits.right) (fun _ _ h _ hroom => h.round hroom) ?_
    keys Edits.start (Along.of_forall (P := fun _ _ => True) (fun _ _ => trivial) keys)
  intro p c h _ hright
  by_contra hroom
  exact overruns_of_full h hroom hright

/-- The parser does not get the text of a tab that is not set off by a blank. -/
lemma wrong_at_tab {atTab : List UInt8 → List UInt8} (h : atTab [0x61] ≠ tabbed [0x61]) :
    ¬∀ keys : List Int,
      ∀ p ∈ passed (both atTab) (State.start, Typed.start) keys, Right p := by
  intro hall
  have hletter : Edits (both tabbed (State.start, Typed.start) 0x61) :=
    Edits.start.round (by decide)
  have htab := (hletter.round (c := 0x09) (by decide)).commands
  have hright := (hall [0x61, 0x09] (both atTab (both atTab (State.start, Typed.start) 0x61) 0x09)
    (by simp [passed])).2
  have heq := htab.symm.trans hright
  have hlines : [some (tabbed [0x61])] = [some (atTab [0x61])] := heq
  exact h (Option.some.inj (List.singleton_inj.mp hlines)).symm

/-- Neither without the tab nor with it is the line what has been typed. -/
theorem line_editing_broken :
    (¬∀ keys : List Int,
      ∀ p ∈ passed (both fun line => line) (State.start, Typed.start) keys, Right p) ∧
    ¬∀ keys : List Int,
      ∀ p ∈ passed (both fun line => line ++ [0x09]) (State.start, Typed.start) keys,
        Right p :=
  ⟨wrong_at_tab (by decide), wrong_at_tab (by decide)⟩

end DiegOS.Applications.Console
