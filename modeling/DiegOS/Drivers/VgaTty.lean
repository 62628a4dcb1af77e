import Mathlib.Tactic

/-!
# Text console

The in-memory screen of `vga_tty.c`: a ring of rows in which `cur_pos` is the next
cell, copied to the next frame of the video memory at every new row and after every call.

Main results:

- Theorem `Shows.putCell`: a cell of text leaves the last rows of the text in the ring.
- Theorem `console_contract`: writes stay in the buffer exactly if no backspace comes at
  its start, and text is always shown with its last rows.
- Theorem `console_contract_broken`: a backspace at the start.
-/

namespace DiegOS.Drivers.VgaTty

def X_MAX : Nat := 80

def Y_MAX : Nat := 25

def VRAM_SIZEW : Nat := X_MAX * Y_MAX

def VRAM_FRAME_NUM : Nat := 8

/-- A character with its color. -/
abbrev Cell := BitVec 16

/-- A character with `DEFAULT_COLOR`. -/
def cell (c : UInt8) : Cell := (0x0F#16 <<< 8) ||| c.toBitVec.setWidth 16

/-- `fill_char` with `DEFAULT_COLOR`. -/
def blank : Cell := cell 0x20

def clearchar : Cell := 0x0720#16

/-- Words of `buffer` that are written. -/
structure Span where
  offset : Nat
  length : Nat
deriving DecidableEq, Repr

/-- The state of the driver, with the words written to `buffer` and the frames shown so
far, latest first. -/
structure Tty where
  frameNo : Nat
  curPos : Nat
  buffer : Nat → Cell
  scrolling : Bool
  vram : Nat → Nat → Cell
  written : List Span
  shown : List (List Cell)

namespace Tty

/-- `vga_tty_bset` on `buffer` -/
def bset (s : Tty) (dst : Nat) (val : Cell) (words : Nat) : Tty :=
  { s with
    buffer := fun i => if dst ≤ i ∧ i < dst + words then val else s.buffer i
    written := ⟨dst, words⟩ :: s.written }

def updateFrame (s : Tty) : Tty := { s with frameNo := s.frameNo + 1 }

/-- `vga_tty_bcopy` from `buffer` to a frame -/
def bcopy (s : Tty) (src dst words : Nat) : Tty :=
  { s with
    vram := fun f i =>
      if f = s.frameNo % VRAM_FRAME_NUM ∧ dst ≤ i ∧ i < dst + words then
        s.buffer (src + (i - dst))
      else s.vram f i }

def refreshVram (s : Tty) : Tty :=
  if s.scrolling then
    let startofs := (1 + s.curPos / X_MAX) * X_MAX
    (s.bcopy startofs 0 (VRAM_SIZEW - startofs)).bcopy 0 (VRAM_SIZEW - startofs) startofs
  else s.bcopy 0 0 VRAM_SIZEW

/-- `update_vram_start`: the display starts at the frame. -/
def updateVramStart (s : Tty) : Tty :=
  { s with shown := (List.range VRAM_SIZEW).map (s.vram (s.frameNo % VRAM_FRAME_NUM)) :: s.shown }

/-- The end of `newline` and of `tty_write`. -/
def refresh (s : Tty) : Tty := s.updateFrame.refreshVram.updateVramStart

def newline (s : Tty) : Tty :=
  let s := if s.curPos = VRAM_SIZEW then { s with curPos := 0, scrolling := true } else s
  (s.bset s.curPos clearchar X_MAX).refresh

/-- `buffer[cur_pos++] = c`, and a new row at the end of one. -/
def putCell (s : Tty) (c : Cell) : Tty :=
  let s := { s.bset s.curPos c 1 with curPos := (s.curPos + 1) % 2 ^ 32 }
  if s.curPos % X_MAX = 0 then s.newline else s

def fillBlanks (s : Tty) : Nat → Tty
  | 0 => s
  | num + 1 => fillBlanks (s.putCell blank) num

/-- One round of the loop of `tty_write`; a `char` is signed. -/
def putChar (s : Tty) (c : UInt8) : Tty :=
  if c.toInt8.toInt < 0x20 then
    if c = 0x8 then
      let pos := (s.curPos + 2 ^ 32 - 1) % 2 ^ 32
      { s.bset pos blank 1 with curPos := pos }
    else if c = 0x9 then s.fillBlanks 4
    else if c = 0xA then s.fillBlanks (X_MAX - s.curPos % X_MAX)
    else if c = 0xB then s.fillBlanks (X_MAX * 2)
    else if c = 0xC then { s with curPos := s.curPos - s.curPos % X_MAX }
    else s
  else s.putCell (cell c)

/-- `tty_write` with the bytes written, or `ENXIO`. -/
def ttyWrite (s : Tty) (buf : List UInt8) (unitno : Nat) : Tty × Option Nat :=
  if unitno ≠ 0 then (s, none) else ((buf.foldl putChar s).refresh, some buf.length)

/-- The driver after `tty_init`: both memories are cleared. -/
def init : Tty where
  frameNo := 0
  curPos := 0
  buffer := fun _ => clearchar
  scrolling := false
  vram := fun _ _ => clearchar
  written := [⟨0, VRAM_SIZEW⟩]
  shown := []

end Tty

/-! ## Sequences of calls -/

/-- What a sequence of calls does one after the other. -/
inductive Step where
  | char (c : UInt8)
  | refresh
deriving DecidableEq, Repr

/-- A call of `tty_write`. -/
structure Call where
  buf : List UInt8
  unitno : Nat

/-- The characters of a call and its refresh; a wrong unit does nothing. -/
def Call.steps (call : Call) : List Step :=
  if call.unitno ≠ 0 then [] else call.buf.map .char ++ [.refresh]

/-- One step on the driver. -/
def Tty.step (s : Tty) : Step → Tty
  | .char c => s.putChar c
  | .refresh => s.refresh

/-- The driver after some steps. -/
def Tty.run (s : Tty) (l : List Step) : Tty := l.foldl Tty.step s

/-- `tty_write` makes the steps of its call. -/
theorem Tty.ttyWrite_eq (s : Tty) (call : Call) :
    (s.ttyWrite call.buf call.unitno).1 = s.run call.steps := by
  unfold Tty.ttyWrite Tty.run Call.steps
  split
  · rfl
  · rw [List.foldl_append, List.foldl_map]
    rfl

/-! ## Text -/

/-- A printable character, a tab or a newline. -/
def IsText (c : UInt8) : Prop := c = 0x9 ∨ c = 0xA ∨ (0x20 ≤ c.toNat ∧ c.toNat < 0x7F)

/-- A character of a text: a tab is four blanks, a newline fills its row. -/
def addChar (cells : List Cell) (c : UInt8) : List Cell :=
  if c = 0x9 then cells ++ List.replicate 4 blank
  else if c = 0xA then cells ++ List.replicate (X_MAX - cells.length % X_MAX) blank
  else cells ++ [cell c]

/-- The cells of a text. -/
def layout (text : List UInt8) : List Cell := text.foldl addChar []

/-- The first cell of the last rows of a text, the row of the next cell among them. -/
def top (cells : List Cell) : Nat := (cells.length / X_MAX - (Y_MAX - 1)) * X_MAX

/-- The last rows of a text, then cleared cells. -/
def lastRows (cells : List Cell) : List Cell :=
  (List.range VRAM_SIZEW).map fun i => cells.getD (top cells + i) clearchar

/-- The characters among the steps. -/
def chars (l : List Step) : List UInt8 := l.filterMap fun
  | .char c => some c
  | .refresh => none

/-! ## Rows in the ring -/

/-- The ring holds the last rows of a text. -/
structure Shows (s : Tty) (t : List Cell) : Prop where
  pos : s.curPos = t.length % VRAM_SIZEW
  scrolling : s.scrolling = decide (VRAM_SIZEW ≤ t.length)
  cells : ∀ j, top t ≤ j → j < top t + VRAM_SIZEW →
    s.buffer (j % VRAM_SIZEW) = t.getD j clearchar

lemma getD_append_singleton (t : List Cell) (c : Cell) (j : Nat) :
    (t ++ [c]).getD j clearchar = if j = t.length then c else t.getD j clearchar := by
  simp only [List.getD_eq_getElem?_getD]
  split
  · next heq => simp [heq]
  · next hne =>
      by_cases hlt : j < t.length
      · rw [List.getElem?_append_left hlt]
      · rw [List.getElem?_eq_none (by simp; omega), List.getElem?_eq_none (by omega)]

/-- The ring starts over behind the row of the cursor. -/
lemma ring_row {n i : Nat} (hn : VRAM_SIZEW ≤ n) (hi : i < VRAM_SIZEW) :
    ((n / X_MAX - (Y_MAX - 1)) * X_MAX + i) % VRAM_SIZEW =
      if i < VRAM_SIZEW - (1 + n % VRAM_SIZEW / X_MAX) * X_MAX then
        (1 + n % VRAM_SIZEW / X_MAX) * X_MAX + i
      else i - (VRAM_SIZEW - (1 + n % VRAM_SIZEW / X_MAX) * X_MAX) := by
  split
  · simp only [VRAM_SIZEW, X_MAX, Y_MAX] at *
    omega
  · simp only [VRAM_SIZEW, X_MAX, Y_MAX] at *
    omega

/-- The frame that `refresh_vram` copies. -/
lemma refreshVram_frame {s : Tty} {t : List Cell} (hshows : Shows s t) {i : Nat}
    (hi : i < VRAM_SIZEW) :
    s.refreshVram.vram (s.frameNo % VRAM_FRAME_NUM) i = t.getD (top t + i) clearchar := by
  rw [← hshows.cells (top t + i) (by omega) (by omega)]
  unfold Tty.refreshVram
  by_cases hfull : VRAM_SIZEW ≤ t.length
  · rw [if_pos (by rw [hshows.scrolling]; simpa using hfull), top, ring_row hfull hi]
    simp only [Tty.bcopy, hshows.pos, true_and]
    by_cases hfirst : i < VRAM_SIZEW - (1 + t.length % VRAM_SIZEW / X_MAX) * X_MAX
    · rw [if_neg (by omega), if_pos (by omega), if_pos hfirst]
      congr 1
    · rw [if_pos (by constructor <;> omega), if_neg hfirst]
      congr 1
      omega
  · rw [if_neg (by rw [hshows.scrolling]; simpa using hfull)]
    have htop : top t = 0 := by
      simp only [top, VRAM_SIZEW, X_MAX, Y_MAX] at *
      omega
    have hindex : (0 + i) % VRAM_SIZEW = i := by rw [Nat.zero_add, Nat.mod_eq_of_lt hi]
    rw [htop, hindex]
    have hcopy : (s.bcopy 0 0 VRAM_SIZEW).vram (s.frameNo % VRAM_FRAME_NUM) i =
        s.buffer (0 + (i - 0)) := if_pos ⟨rfl, by omega, by omega⟩
    rw [hcopy, Nat.sub_zero, Nat.zero_add]

lemma refreshVram_fields (s : Tty) :
    s.refreshVram.buffer = s.buffer ∧ s.refreshVram.curPos = s.curPos ∧
      s.refreshVram.scrolling = s.scrolling ∧ s.refreshVram.frameNo = s.frameNo ∧
        s.refreshVram.written = s.written ∧ s.refreshVram.shown = s.shown := by
  unfold Tty.refreshVram
  split <;> exact ⟨rfl, rfl, rfl, rfl, rfl, rfl⟩

/-- A refresh shows the last rows and changes nothing else of the screen. -/
lemma Shows.refresh {s : Tty} {t : List Cell} (hshows : Shows s t) :
    Shows s.refresh t ∧ s.refresh.shown = lastRows t :: s.shown := by
  have hnext : Shows s.updateFrame t := ⟨hshows.pos, hshows.scrolling, hshows.cells⟩
  rcases refreshVram_fields s.updateFrame with
    ⟨hbuffer, hpos, hscrolling, hframe, -, hshown⟩
  constructor
  · constructor
    · exact hpos.trans hshows.pos
    · exact hscrolling.trans hshows.scrolling
    · intro j hlo hhi
      exact (congrFun hbuffer _).trans (hshows.cells j hlo hhi)
  · have hrows : (List.range VRAM_SIZEW).map
        (s.updateFrame.refreshVram.vram (s.updateFrame.frameNo % VRAM_FRAME_NUM)) =
          lastRows t := by
      unfold lastRows
      apply List.map_congr_left
      intro i hi
      rw [List.mem_range] at hi
      exact refreshVram_frame hnext hi
    rw [Tty.refresh, Tty.updateVramStart, hframe, hrows, hshown]
    rfl

/-- The cells of a row that is started are cleared. -/
lemma Shows.newline {s : Tty} {t : List Cell} (hrow : t.length % X_MAX = 0)
    (hlen : t ≠ []) (hpos : s.curPos = (t.length - 1) % VRAM_SIZEW + 1)
    (hscrolling : s.scrolling = decide (VRAM_SIZEW ≤ t.length - 1))
    (hcells : ∀ j, top t ≤ j → j < top t + VRAM_SIZEW → j / X_MAX ≠ t.length / X_MAX →
      s.buffer (j % VRAM_SIZEW) = t.getD j clearchar) :
    Shows s.newline t ∧ s.newline.shown = lastRows t :: s.shown := by
  have hpositive : 0 < t.length := List.length_pos_iff.mpr hlen
  let s₁ : Tty := if s.curPos = VRAM_SIZEW then { s with curPos := 0, scrolling := true } else s
  have hpos₁ : s₁.curPos = t.length % VRAM_SIZEW := by
    by_cases hend : s.curPos = VRAM_SIZEW
    · simp only [s₁, if_pos hend]
      simp only [VRAM_SIZEW, X_MAX, Y_MAX] at *
      omega
    · simp only [s₁, if_neg hend]
      have hlt := Nat.mod_lt (t.length - 1) (show 0 < VRAM_SIZEW by decide)
      simp only [VRAM_SIZEW, X_MAX, Y_MAX] at *
      omega
  have hscrolling₁ : s₁.scrolling = decide (VRAM_SIZEW ≤ t.length) := by
    by_cases hend : s.curPos = VRAM_SIZEW
    · simp only [s₁, if_pos hend]
      symm
      rw [decide_eq_true_eq]
      simp only [VRAM_SIZEW, X_MAX, Y_MAX] at *
      omega
    · simp only [s₁, if_neg hend, hscrolling]
      rw [decide_eq_decide]
      simp only [VRAM_SIZEW, X_MAX, Y_MAX] at *
      omega
  have hbuffer₁ : s₁.buffer = s.buffer := by
    simp only [s₁]
    split <;> rfl
  have hshown₁ : s₁.shown = s.shown := by
    simp only [s₁]
    split <;> rfl
  have hcleared : Shows (s₁.bset s₁.curPos clearchar X_MAX) t := by
    constructor
    · exact hpos₁
    · exact hscrolling₁
    · intro j hlo hhi
      simp only [Tty.bset, hpos₁, hbuffer₁]
      by_cases hthis : j / X_MAX = t.length / X_MAX
      · rw [if_pos (by simp only [top, VRAM_SIZEW, X_MAX, Y_MAX] at *; omega),
          List.getD_eq_getElem?_getD, List.getElem?_eq_none, Option.getD_none]
        simp only [X_MAX] at *
        omega
      · rw [if_neg (by simp only [top, VRAM_SIZEW, X_MAX, Y_MAX] at *; omega)]
        exact hcells j hlo hhi hthis
  have hrefresh := hcleared.refresh
  rw [show (s₁.bset s₁.curPos clearchar X_MAX).shown = s.shown from hshown₁] at hrefresh
  exact hrefresh

/-- The cells of the text are where they were, apart from the new one. -/
lemma Shows.cells_putCell {s : Tty} {t : List Cell} (hshows : Shows s t) (c : Cell) {j : Nat}
    (hlo : top t ≤ j) (hhi : j < top t + VRAM_SIZEW) :
    (s.bset s.curPos c 1).buffer (j % VRAM_SIZEW) = (t ++ [c]).getD j clearchar := by
  simp only [Tty.bset, hshows.pos]
  rw [getD_append_singleton]
  by_cases hnew : j = t.length
  · rw [if_pos hnew, if_pos (by rw [hnew]; omega)]
  · rw [if_neg hnew, if_neg, hshows.cells j hlo hhi]
    simp only [top, VRAM_SIZEW, X_MAX, Y_MAX] at *
    omega

/-- A cell of text leaves the last rows of the text in the ring. -/
theorem Shows.putCell {s : Tty} {t : List Cell} (hshows : Shows s t) (c : Cell) :
    Shows (s.putCell c) (t ++ [c]) ∧
      ((s.putCell c).shown = s.shown ∨
        (s.putCell c).shown = lastRows (t ++ [c]) :: s.shown) := by
  have hpos : s.curPos < VRAM_SIZEW := by
    rw [hshows.pos]
    exact Nat.mod_lt _ (by decide)
  have hwrap : (s.curPos + 1) % 2 ^ 32 = s.curPos + 1 := by
    apply Nat.mod_eq_of_lt
    simp only [VRAM_SIZEW, X_MAX, Y_MAX] at hpos
    omega
  have hlen : (t ++ [c]).length = t.length + 1 := by simp
  unfold Tty.putCell
  simp only [hwrap]
  by_cases hrow : (s.curPos + 1) % X_MAX = 0
  · rw [if_pos hrow]
    rw [hshows.pos] at hrow
    have hrow' : (t.length + 1) % X_MAX = 0 := by
      simp only [VRAM_SIZEW, X_MAX, Y_MAX] at *
      omega
    have hnew := Shows.newline (s := { s.bset s.curPos c 1 with curPos := s.curPos + 1 })
      (t := t ++ [c]) (by rw [hlen]; exact hrow') (by simp)
      (by rw [hlen, Nat.add_sub_cancel]; exact congrArg (· + 1) hshows.pos)
      (by rw [hlen, Nat.add_sub_cancel]; exact hshows.scrolling)
      (by
        intro j hlo hhi hother
        rw [hlen] at hother
        simp only [top, hlen] at hlo hhi
        apply hshows.cells_putCell c
        · simp only [top, VRAM_SIZEW, X_MAX, Y_MAX] at *
          omega
        · simp only [top, VRAM_SIZEW, X_MAX, Y_MAX] at *
          omega)
    exact ⟨hnew.1, .inr hnew.2⟩
  · rw [if_neg hrow]
    rw [hshows.pos] at hrow
    apply And.intro _ (.inl rfl)
    have htop : top (t ++ [c]) = top t := by
      simp only [top, hlen, VRAM_SIZEW, X_MAX, Y_MAX] at *
      omega
    constructor
    · change s.curPos + 1 = _
      rw [hshows.pos, hlen]
      simp only [VRAM_SIZEW, X_MAX, Y_MAX] at *
      omega
    · change s.scrolling = _
      rw [hshows.scrolling, hlen, decide_eq_decide]
      simp only [VRAM_SIZEW, X_MAX, Y_MAX] at *
      omega
    · intro j hlo hhi
      rw [htop] at hlo hhi
      exact hshows.cells_putCell c hlo hhi

/-- The frames of a stretch show texts between two. -/
def ShowsText (before after : Tty) (t t' : List Cell) : Prop :=
  ∃ frames, after.shown = frames ++ before.shown ∧
    ∀ f ∈ frames, ∃ u, t <+: u ∧ u <+: t' ∧ f = lastRows u

lemma Shows.fillBlanks (num : Nat) :
    ∀ {s : Tty} {t : List Cell}, Shows s t →
      Shows (s.fillBlanks num) (t ++ List.replicate num blank) ∧
        ShowsText s (s.fillBlanks num) t (t ++ List.replicate num blank) := by
  induction num with
  | zero =>
    intro s t hshows
    rw [List.replicate_zero, List.append_nil]
    exact ⟨hshows, [], rfl, by simp⟩
  | succ num ih =>
    intro s t hshows
    have hfirst := hshows.putCell blank
    rcases ih hfirst.1 with ⟨hend, frames, hframes, hall⟩
    have happend : t ++ [blank] ++ List.replicate num blank =
        t ++ List.replicate (num + 1) blank := by
      rw [List.append_assoc, List.replicate_succ, List.singleton_append]
    rw [happend] at hend hall
    apply And.intro hend
    have hlater : ∀ f ∈ frames, ∃ u, t <+: u ∧
        u <+: t ++ List.replicate (num + 1) blank ∧ f = lastRows u := by
      intro f hf
      rcases hall f hf with ⟨u, hlo, hhi, heq⟩
      exact ⟨u, (List.prefix_append t [blank]).trans hlo, hhi, heq⟩
    rcases hfirst.2 with hsame | hnew
    · exact ⟨frames, hframes.trans (by rw [hsame]), hlater⟩
    · apply Exists.intro (frames ++ [lastRows (t ++ [blank])])
      constructor
      · rw [Tty.fillBlanks, hframes, hnew, List.append_assoc, List.singleton_append]
      · intro f hf
        rcases List.mem_append.mp hf with hin | hin
        · exact hlater f hin
        · refine ⟨t ++ [blank], List.prefix_append _ _, ?_, List.mem_singleton.mp hin⟩
          rw [← happend]
          exact List.prefix_append _ _

/-- A character below `0x80` is not negative. -/
lemma toInt_char {c : UInt8} (h : c.toNat < 0x80) : c.toInt8.toInt = c.toNat := by
  rw [UInt8.toInt8, Int8.toInt, BitVec.toInt_eq_toNat_of_lt]
  · rfl
  · change 2 * c.toNat < 2 ^ 8
    omega

lemma putChar_tab (s : Tty) : s.putChar 0x9 = s.fillBlanks 4 := by
  rw [Tty.putChar, if_pos (by decide), if_neg (by decide), if_pos rfl]

lemma putChar_newline (s : Tty) : s.putChar 0xA = s.fillBlanks (X_MAX - s.curPos % X_MAX) := by
  rw [Tty.putChar, if_pos (by decide), if_neg (by decide), if_neg (by decide), if_pos rfl]

lemma Shows.putChar {s : Tty} {t : List Cell} (hshows : Shows s t) {c : UInt8}
    (htext : IsText c) :
    Shows (s.putChar c) (addChar t c) ∧ ShowsText s (s.putChar c) t (addChar t c) := by
  rcases htext with rfl | rfl | ⟨hlo, hhi⟩
  · have hadd : addChar t 0x9 = t ++ List.replicate 4 blank := if_pos rfl
    rw [putChar_tab, hadd]
    exact Shows.fillBlanks 4 hshows
  · have hrest : X_MAX - s.curPos % X_MAX = X_MAX - t.length % X_MAX := by
      rw [hshows.pos]
      simp only [VRAM_SIZEW, X_MAX, Y_MAX]
      omega
    have hfill := Shows.fillBlanks (X_MAX - t.length % X_MAX) hshows
    rw [← hrest] at hfill
    have hadd : addChar t 0xA = t ++ List.replicate (X_MAX - s.curPos % X_MAX) blank := by
      rw [hrest, addChar, if_neg (by decide), if_pos rfl]
    rw [putChar_newline, hadd]
    exact hfill
  · have hvisible : s.putChar c = s.putCell (cell c) := by
      apply if_neg
      rw [toInt_char (by omega)]
      omega
    have hadd : addChar t c = t ++ [cell c] := by
      unfold addChar
      rw [if_neg, if_neg]
      · rintro rfl
        exact absurd hlo (by decide)
      · rintro rfl
        exact absurd hlo (by decide)
    have hput := hshows.putCell (cell c)
    rw [hvisible, hadd]
    apply And.intro hput.1
    rcases hput.2 with hsame | hnew
    · exact ⟨[], hsame, by simp⟩
    · apply Exists.intro [lastRows (t ++ [cell c])]
      apply And.intro hnew
      intro f hf
      exact ⟨_, List.prefix_append _ _, List.prefix_rfl, List.mem_singleton.mp hf⟩

/-! ## Bounds -/

/-- The cursor is in the buffer, as is all that has been written. -/
structure InBounds (s : Tty) : Prop where
  pos : s.curPos < VRAM_SIZEW
  written : ∀ a ∈ s.written, a.offset + a.length ≤ VRAM_SIZEW

lemma written_bset {s : Tty} {dst words : Nat} (val : Cell)
    (hin : ∀ a ∈ s.written, a.offset + a.length ≤ VRAM_SIZEW)
    (hnew : dst + words ≤ VRAM_SIZEW) :
    ∀ a ∈ (s.bset dst val words).written, a.offset + a.length ≤ VRAM_SIZEW := by
  intro a ha
  rcases List.mem_cons.mp ha with rfl | ha
  · exact hnew
  · exact hin a ha

lemma InBounds.refresh {s : Tty} (hin : InBounds s) : InBounds s.refresh := by
  rcases refreshVram_fields s.updateFrame with ⟨-, hpos, -, -, hwritten, -⟩
  constructor
  · exact hpos ▸ hin.pos
  · change ∀ a ∈ s.updateFrame.refreshVram.written, _
    rw [hwritten]
    exact hin.written

lemma InBounds.newline {s : Tty} (hpos : s.curPos ≤ VRAM_SIZEW) (hrow : s.curPos % X_MAX = 0)
    (hwritten : ∀ a ∈ s.written, a.offset + a.length ≤ VRAM_SIZEW) : InBounds s.newline := by
  apply InBounds.refresh
  split
  · constructor
    · exact Nat.succ_pos _
    · exact written_bset clearchar hwritten (show 0 + X_MAX ≤ VRAM_SIZEW by decide)
  · next hend =>
      constructor
      · change s.curPos < _
        omega
      · apply written_bset clearchar hwritten
        simp only [VRAM_SIZEW, X_MAX, Y_MAX] at *
        omega

theorem InBounds.putCell {s : Tty} (hin : InBounds s) (c : Cell) : InBounds (s.putCell c) := by
  have hpos := hin.pos
  have hwritten := written_bset c hin.written (show s.curPos + 1 ≤ VRAM_SIZEW by omega)
  have hwrap : (s.curPos + 1) % 2 ^ 32 = s.curPos + 1 := by
    apply Nat.mod_eq_of_lt
    simp only [VRAM_SIZEW, X_MAX, Y_MAX] at hpos
    omega
  unfold Tty.putCell
  simp only [hwrap]
  split
  · next hrow => exact InBounds.newline (by dsimp only; omega) hrow hwritten
  · next hrow =>
      constructor
      · simp only [VRAM_SIZEW, X_MAX, Y_MAX] at *
        omega
      · exact hwritten

lemma InBounds.fillBlanks {num : Nat} :
    ∀ {s : Tty}, InBounds s → InBounds (s.fillBlanks num) := by
  induction num with
  | zero => exact fun hin => hin
  | succ num ih => exact fun hin => ih (hin.putCell blank)

/-- A character keeps the bounds exactly if it is no backspace at the start. -/
lemma InBounds.putChar_iff {s : Tty} (hin : InBounds s) (c : UInt8) :
    InBounds (s.putChar c) ↔ ¬(c = 0x8 ∧ s.curPos = 0) := by
  have hpos := hin.pos
  by_cases hback : c = 0x8
  · subst hback
    have hput : s.putChar 0x8 = { s.bset ((s.curPos + 2 ^ 32 - 1) % 2 ^ 32) blank 1 with
        curPos := (s.curPos + 2 ^ 32 - 1) % 2 ^ 32 } := rfl
    rw [hput]
    constructor
    · rintro hafter ⟨-, hzero⟩
      have hlt := hafter.pos
      simp only [hzero] at hlt
      exact absurd hlt (by decide)
    · intro hsome
      have hdown : (s.curPos + 2 ^ 32 - 1) % 2 ^ 32 = s.curPos - 1 := by
        have hne : s.curPos ≠ 0 := fun heq => hsome ⟨rfl, heq⟩
        simp only [VRAM_SIZEW, X_MAX, Y_MAX] at hpos
        omega
      rw [hdown]
      constructor
      · dsimp only
        omega
      · exact written_bset blank hin.written (by omega)
  · apply iff_of_true
    · unfold Tty.putChar
      rw [if_neg hback]
      split
      · split
        · exact hin.fillBlanks
        · split
          · exact hin.fillBlanks
          · split
            · exact hin.fillBlanks
            · split
              · exact ⟨Nat.lt_of_le_of_lt (Nat.sub_le _ _) hin.pos, hin.written⟩
              · exact hin
      · exact hin.putCell (cell c)
    · exact fun h => hback h.1

/-! ## Contract -/

/-- What the console promises of a sequence of calls, at every point of it: all writes and the
cursor are in the buffer; and if only text is written, every frame shows the last rows of the
text so far, and the last one those of the text of the calls that are over. -/
def Meets (calls : List Call) : Prop :=
  (∀ l, l <+: calls.flatMap Call.steps → InBounds (Tty.init.run l)) ∧
    ((∀ c ∈ chars (calls.flatMap Call.steps), IsText c) →
      ∀ l x, l ++ [x] <+: calls.flatMap Call.steps →
        ShowsText (Tty.init.run l) (Tty.init.run (l ++ [x])) (layout (chars l))
            (layout (chars (l ++ [x]))) ∧
          (x = .refresh → (Tty.init.run (l ++ [x])).shown =
            lastRows (layout (chars l)) :: (Tty.init.run l).shown))

lemma run_append_singleton (s : Tty) (l : List Step) (x : Step) :
    s.run (l ++ [x]) = (s.run l).step x := by
  rw [Tty.run, Tty.run, List.foldl_append]
  rfl

lemma chars_append_singleton (l : List Step) (x : Step) :
    chars (l ++ [x]) = chars l ++ chars [x] := by
  unfold chars
  rw [List.filterMap_append]

lemma mem_chars {l : List Step} {c : UInt8} : c ∈ chars l ↔ .char c ∈ l := by
  unfold chars
  rw [List.mem_filterMap]
  constructor
  · rintro ⟨x, hmem, hx⟩
    cases x with
    | char d =>
      cases hx
      exact hmem
    | refresh => cases hx
  · intro hmem
    exact ⟨_, hmem, rfl⟩

/-- The ring holds the last rows of every text written. -/
lemma shows_run {l : List Step} (htext : ∀ c ∈ chars l, IsText c) :
    Shows (Tty.init.run l) (layout (chars l)) := by
  induction l using List.reverseRecOn with
  | nil =>
    constructor
    · rfl
    · rfl
    · intro j hlo hhi
      rfl
  | append_singleton l x ih =>
    have hbefore := ih (fun c hc => htext c (by
      rw [chars_append_singleton]
      exact List.mem_append_left _ hc))
    rw [run_append_singleton, chars_append_singleton]
    cases x with
    | char c =>
      have hc : IsText c := htext c (mem_chars.mpr (by simp))
      have hlayout : layout (chars l ++ chars [.char c]) = addChar (layout (chars l)) c := by
        unfold layout
        rw [List.foldl_append]
        rfl
      rw [hlayout]
      exact (hbefore.putChar hc).1
    | refresh =>
      have hnone : chars l ++ chars [.refresh] = chars l := List.append_nil _
      rw [hnone]
      exact hbefore.refresh.1

/-- The frames of one more step of a text. -/
lemma showsText_step {l : List Step} {x : Step} (htext : ∀ c ∈ chars (l ++ [x]), IsText c) :
    ShowsText (Tty.init.run l) (Tty.init.run (l ++ [x])) (layout (chars l))
        (layout (chars (l ++ [x]))) ∧
      (x = .refresh → (Tty.init.run (l ++ [x])).shown =
        lastRows (layout (chars l)) :: (Tty.init.run l).shown) := by
  rw [chars_append_singleton] at htext
  have hbefore := shows_run (fun c hc => htext c (List.mem_append_left _ hc))
  rw [run_append_singleton, chars_append_singleton]
  cases x with
  | char c =>
    have hc : IsText c := htext c (List.mem_append_right _ (mem_chars.mpr (by simp)))
    have hlayout : layout (chars l ++ chars [.char c]) = addChar (layout (chars l)) c := by
      unfold layout
      rw [List.foldl_append]
      rfl
    rw [hlayout]
    exact ⟨(hbefore.putChar hc).2, fun hx => by cases hx⟩
  | refresh =>
    have hnone : chars l ++ chars [.refresh] = chars l := List.append_nil _
    have hshown := hbefore.refresh.2
    rw [hnone]
    apply And.intro _ (fun _ => hshown)
    apply Exists.intro [lastRows (layout (chars l))]
    apply And.intro hshown
    intro f hf
    exact ⟨_, List.prefix_rfl, List.prefix_rfl, List.mem_singleton.mp hf⟩

/-- The bounds hold along a sequence of steps exactly if no backspace comes at the start. -/
lemma inBounds_run (steps : List Step) :
    (∀ l, l <+: steps → InBounds (Tty.init.run l)) ↔
      ∀ l, l ++ [.char 0x8] <+: steps → (Tty.init.run l).curPos ≠ 0 := by
  constructor
  · intro hall l hprefix hzero
    have hbefore := hall l ((List.prefix_append l _).trans hprefix)
    have hafter := hall _ hprefix
    rw [run_append_singleton] at hafter
    exact (hbefore.putChar_iff 0x8).mp hafter ⟨rfl, hzero⟩
  · intro hback l
    induction l using List.reverseRecOn with
    | nil =>
      intro _
      constructor
      · decide
      · intro a ha
        rw [List.mem_singleton.mp ha]
        decide
    | append_singleton l x ih =>
      intro hprefix
      have hbefore := ih ((List.prefix_append l _).trans hprefix)
      rw [run_append_singleton]
      cases x with
      | char c =>
        apply (hbefore.putChar_iff c).mpr
        rintro ⟨rfl, hzero⟩
        exact hback l hprefix hzero
      | refresh => exact hbefore.refresh

/-- The console keeps its promise exactly if no backspace comes at the start of the buffer. -/
theorem console_contract (calls : List Call) :
    Meets calls ↔
      ∀ l, l ++ [.char 0x8] <+: calls.flatMap Call.steps → (Tty.init.run l).curPos ≠ 0 := by
  constructor
  · intro hmeets
    exact (inBounds_run _).mp hmeets.1
  · intro hback
    apply And.intro ((inBounds_run _).mpr hback)
    intro htext l x hprefix
    apply showsText_step
    intro c hc
    apply htext c
    rw [mem_chars] at hc ⊢
    exact hprefix.subset hc

/-- A backspace as the first character is written in front of the buffer. -/
theorem console_contract_broken :
    ¬Meets [⟨[0x8], 0⟩] ∧ (Tty.init.putChar 0x8).written = [⟨2 ^ 32 - 1, 1⟩, ⟨0, VRAM_SIZEW⟩] := by
  constructor
  · intro hmeets
    have hbounds := (hmeets.1 [.char 0x8] (by decide)).pos
    exact absurd hbounds (by decide)
  · decide

end DiegOS.Drivers.VgaTty
