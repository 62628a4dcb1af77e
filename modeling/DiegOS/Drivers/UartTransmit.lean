import DiegOS.Drivers.CharDrivers

/-!
# The transmit ring

A writer fills the ring and the transmit interrupt empties it.  What was written to the
transmit register, what is in the ring and what the call has left are together what the
writer asked for.

Main results:

- Theorem `Transmit.Sound.sendLoop`: the handler moves bytes from the ring to the register.
- Theorem `WriteCall.Ok.step`: a statement of the writer keeps what is accounted for.
-/

namespace DiegOS.Drivers

open Function

open Lib (Ring)

variable {tx tx' : Transmit} {c : WriteCall}

lemma toUnsigned_eq {i : Int} (hpos : 0 ≤ i) (hlt : i < 2 ^ 32) : toUnsigned i = i.toNat := by
  rw [toUnsigned, Int.emod_eq_of_lt hpos hlt]

/-- Head and tail of the ring outside a removal. -/
structure Transmit.Sound (tx : Transmit) : Prop where
  bufsize : tx.buf.ring.bufsize = BUF_SIZE
  head_lt : tx.buf.ring.head < BUF_SIZE
  tail_le : tx.buf.ring.tail ≤ BUF_SIZE

namespace Transmit.Sound

variable (h : tx.Sound)
include h

lemma movable : tx.buf.ring.Movable :=
  ⟨by rw [h.bufsize]; decide, by rw [h.bufsize]; exact h.head_lt.le,
    by rw [h.bufsize]; exact h.tail_le⟩

lemma valid (htail : tx.buf.ring.tail < BUF_SIZE) : tx.buf.ring.Valid :=
  ⟨by rw [h.bufsize]; exact h.head_lt, by rw [h.bufsize]; exact htail⟩

/-- The room of a ring outside an addition. -/
lemma room_eq (htail : tx.buf.ring.tail < BUF_SIZE) :
    tx.buf.ring.room = if tx.buf.ring.head ≤ tx.buf.ring.tail then
      BUF_SIZE - tx.buf.ring.tail + tx.buf.ring.head - 1
      else tx.buf.ring.head - tx.buf.ring.tail - 1 := by
  rw [Ring.room, Ring.used, (h.valid htail).settle_eq, ← (h.valid htail).freeSpace_eq,
    Ring.freeSpace, h.bufsize]

/-- A tail at the end of the array is before slot 0. -/
lemma used_end (htail : tx.buf.ring.tail = BUF_SIZE)
    (hhead : 0 < tx.buf.ring.head) : tx.buf.ring.used = BUF_SIZE - tx.buf.ring.head := by
  have hlt := h.head_lt
  have hset : tx.buf.ring.settle = ⟨tx.buf.ring.head, 0, BUF_SIZE⟩ := by
    rw [Ring.settle, h.bufsize, htail, if_neg hlt.ne, if_pos rfl]
  rw [Ring.used, hset, Ring.inUse]
  exact if_neg (Nat.not_le.mpr hhead)

end Transmit.Sound

/-- What an interrupt leaves of the ring. -/
structure Drained (tx tx' : Transmit) : Prop where
  sound : tx'.Sound
  tail_eq : tx'.buf.ring.tail = tx.buf.ring.tail
  cells_eq : tx'.buf.cells = tx.buf.cells
  room_le : tx.buf.ring.room ≤ tx'.buf.ring.room
  below : tx.buf.ring.head ≤ tx.buf.ring.tail → tx'.buf.ring.head ≤ tx'.buf.ring.tail
  account : tx'.sent ++ tx'.buf.items = tx.sent ++ tx.buf.items

lemma Drained.refl (h : tx.Sound) : Drained tx tx :=
  ⟨h, rfl, rfl, le_rfl, id, rfl⟩

lemma Drained.trans {tx'' : Transmit} (h : Drained tx tx') (h' : Drained tx' tx'') :
    Drained tx tx'' :=
  ⟨h'.sound, h'.tail_eq.trans h.tail_eq, h'.cells_eq.trans h.cells_eq, h.room_le.trans h'.room_le,
    fun hbelow => h'.below (h.below hbelow), h'.account.trans h.account⟩

/-- One pass of the handler's loop. -/
def Transmit.sendOne (tx : Transmit) : Transmit :=
  { tx with
    buf := { tx.buf with ring := tx.buf.ring.remove }
    sent := tx.sent ++ [tx.buf.cells tx.buf.ring.head] }

lemma sendLoop_succ (n : Nat) (tx : Transmit) :
    sendLoop (n + 1) tx = if tx.buf.ring.isEmpty then tx else sendLoop n tx.sendOne := rfl

lemma Transmit.Sound.sendOne (h : tx.Sound) (hused : 0 < tx.buf.ring.used)
    (hne : tx.buf.ring.head ≠ tx.buf.ring.tail) : Drained tx tx.sendOne := by
  have hlt := h.head_lt
  have hmoved : tx.buf.ring.remove.settle = (tx.buf.ring.moveHead 1).settle :=
    Ring.settle_remove h.movable
  have hused' : (tx.buf.ring.remove).used + 1 = tx.buf.ring.used := by
    rw [Ring.used, hmoved]
    exact h.movable.used_moveHead (by rw [h.bufsize]; exact hlt) hused
  have hhead : tx.buf.ring.remove.head =
      if tx.buf.ring.head + 1 = BUF_SIZE then 0 else tx.buf.ring.head + 1 := by
    rw [Ring.remove, h.bufsize]
  constructor
  · constructor
    · exact h.bufsize
    · change tx.buf.ring.remove.head < BUF_SIZE
      rw [hhead]
      split
      · decide
      · omega
    · exact h.tail_le
  · rfl
  · rfl
  · change _ ≤ tx.buf.ring.bufsize - 1 - tx.buf.ring.remove.used
    rw [Ring.room]
    omega
  · intro hbelow
    change tx.buf.ring.remove.head ≤ tx.buf.ring.tail
    rw [hhead]
    split <;> omega
  · change (tx.sent ++ [_]) ++ tx.buf.ring.remove.items tx.buf.cells =
      tx.sent ++ tx.buf.ring.items _
    rw [Ring.items_remove _ h.movable (by rw [h.bufsize]; exact hlt) hused, List.append_assoc]
    rfl

/-- The handler moves bytes from the ring to the register. -/
theorem Transmit.Sound.sendLoop (n : Nat) : ∀ {tx : Transmit}, tx.Sound →
    (tx.buf.ring.tail < BUF_SIZE ∨ n ≤ tx.buf.ring.used) → Drained tx (sendLoop n tx) := by
  induction n with
  | zero => exact fun h _ => Drained.refl h
  | succ n ih =>
    intro tx h hsafe
    rw [sendLoop_succ]
    cases hempty : tx.buf.ring.isEmpty with
    | true => exact Drained.refl h
    | false =>
      have hne : tx.buf.ring.head ≠ tx.buf.ring.tail := of_decide_eq_false hempty
      have hused : 0 < tx.buf.ring.used := by
        rcases hsafe with htail | hused
        · have hiff := (h.valid htail).isEmpty_iff
          rw [Ring.used, (h.valid htail).settle_eq]
          rw [hempty] at hiff
          have hzero : tx.buf.ring.inUse ≠ 0 := by simpa using hiff
          omega
        · omega
      have hone := h.sendOne hused hne
      have hrest := ih hone.sound (by
        rcases hsafe with htail | hmany
        · exact .inl (by rw [hone.tail_eq]; exact htail)
        · apply Or.inr
          have hmoved : tx.sendOne.buf.ring.used + 1 = tx.buf.ring.used := by
            change tx.buf.ring.remove.used + 1 = _
            rw [Ring.used, Ring.settle_remove h.movable]
            exact h.movable.used_moveHead (by rw [h.bufsize]; exact h.head_lt) hused
          omega)
      exact hone.trans hrest

/-- A transmit interrupt between the two statements of `cbuffer_add_n` finds enough bytes
before the end of the array. -/
def Transmit.Calm (tx : Transmit) : Prop :=
  tx.buf.ring.tail = BUF_SIZE → 0 < tx.buf.ring.head ∧ tx.buf.ring.head + TX_SEQ_MAX ≤ BUF_SIZE

lemma Transmit.Sound.handler (h : tx.Sound) (hcalm : tx.Calm) :
    Drained tx (uartHandleTxData tx) := by
  have hloop : Drained tx (Drivers.sendLoop TX_SEQ_MAX tx) := by
    apply h.sendLoop
    rcases Nat.lt_or_ge tx.buf.ring.tail BUF_SIZE with htail | htail
    · exact .inl htail
    · have hend := Nat.le_antisymm h.tail_le htail
      rw [h.used_end hend (hcalm hend).1]
      have hfits := (hcalm hend).2
      exact .inr (by omega)
  unfold uartHandleTxData
  split
  · exact ⟨⟨hloop.sound.bufsize, hloop.sound.head_lt, hloop.sound.tail_le⟩, hloop.tail_eq,
      hloop.cells_eq, hloop.room_le, hloop.below, hloop.account⟩
  · exact hloop

/-! ## The statements of the writer -/

/-- What is left of the buffer behind the bytes added to the ring. -/
def WriteCall.left (c : WriteCall) : List UInt8 :=
  match c.pc with
  | .addTest copyBytes | .addWrap copyBytes | .account copyBytes => c.buf.drop copyBytes
  | _ => c.buf

/-- A number of bytes cut at the end of the array. -/
def fitted (r : Ring) (n : Nat) : Nat := if BUF_SIZE ≤ r.tail + n then BUF_SIZE - r.tail else n

/-- What the writer has found out before its next statement. -/
def WriteCall.Knows (tx : Transmit) (c : WriteCall) : Prop :=
  let r := tx.buf.ring
  match c.pc with
  | .spaceReturn below => r.tail < BUF_SIZE ∧ (below = true → r.head ≤ r.tail)
  | .trim space =>
    r.tail < BUF_SIZE ∧ fitted r (if space < c.bytes then space else c.bytes) ≤ r.room
  | .wrapTest n => r.tail < BUF_SIZE ∧ n ≤ c.bytes ∧ fitted r n ≤ r.room
  | .wrapAssign => r.tail < BUF_SIZE ∧ BUF_SIZE - r.tail ≤ c.bytes ∧ BUF_SIZE - r.tail ≤ r.room
  | .copy n done =>
    n ≤ c.bytes ∧ n ≤ r.room ∧ r.tail < BUF_SIZE ∧ r.tail + n ≤ BUF_SIZE ∧ done ≤ n ∧
      ∀ k < done, tx.buf.cells (r.tail + k) = c.buf.getD k 0
  | .addTail n =>
    n ≤ c.bytes ∧ n ≤ r.room ∧ r.tail + n ≤ BUF_SIZE ∧
      ∀ k < n, tx.buf.cells (r.tail + k) = c.buf.getD k 0
  | .addTest n => n ≤ c.bytes
  | .addWrap n => n ≤ c.bytes ∧ r.tail = BUF_SIZE
  | .account n => n ≤ c.bytes ∧ r.tail < BUF_SIZE
  | .finished => c.bytes = 0 ∧ r.tail < BUF_SIZE
  | _ => r.tail < BUF_SIZE

/-- A call and the ring it writes to. -/
structure WriteCall.Ok (tx : Transmit) (c : WriteCall) : Prop where
  sound : tx.Sound
  knows : c.Knows tx
  bytes_eq : c.bytes = c.buf.length
  retval_nonneg : 0 ≤ c.retval
  retval_eq : c.retval + c.buf.length = c.whole.length
  short : c.whole.length < 2 ^ 31

/-- A head that has come around to slot 0 behind the test of `cbuffer_free_space` meets a
writer with few bytes. -/
def WriteCall.Calm (tx : Transmit) (c : WriteCall) : Prop :=
  c.pc = .spaceReturn false →
    tx.buf.ring.head ≠ 0 ∨ tx.buf.ring.tail + c.bytes < BUF_SIZE

lemma fitted_le {r r' : Ring} {n : Nat} (htail : r'.tail = r.tail) (hroom : r.room ≤ r'.room)
    (h : fitted r n ≤ r.room) : fitted r' n ≤ r'.room := by
  rw [fitted, htail]
  exact h.trans hroom

/-- An interrupt leaves what the writer knows. -/
lemma WriteCall.Knows.drained (h : c.Knows tx) (hd : Drained tx tx') : c.Knows tx' := by
  have htail := hd.tail_eq
  have hroom := hd.room_le
  unfold WriteCall.Knows at h ⊢
  cases hpc : c.pc with
  | spaceReturn below =>
    rw [hpc] at h
    refine ⟨by rw [htail]; exact h.1, fun hbelow => hd.below (h.2 hbelow)⟩
  | trim space =>
    rw [hpc] at h
    exact ⟨by rw [htail]; exact h.1, fitted_le htail hroom h.2⟩
  | wrapTest n =>
    rw [hpc] at h
    exact ⟨by rw [htail]; exact h.1, h.2.1, fitted_le htail hroom h.2.2⟩
  | wrapAssign =>
    rw [hpc] at h
    simp only [htail]
    exact ⟨h.1, h.2.1, h.2.2.trans hroom⟩
  | copy n done | addTail n =>
    rw [hpc] at h
    simp only [htail, hd.cells_eq]
    exact ⟨h.1, h.2.1.trans hroom, h.2.2⟩
  | _ =>
    rw [hpc] at h
    simp only [htail]
    exact h

lemma WriteCall.Ok.drained (h : c.Ok tx) (hd : Drained tx tx') : c.Ok tx' :=
  ⟨hd.sound, h.knows.drained hd, h.bytes_eq, h.retval_nonneg, h.retval_eq, h.short⟩

/-- The free space of `cbuffer_free_space` where its test still holds. -/
lemma Transmit.Sound.freeSpaceReturn_eq (h : tx.Sound) (htail : tx.buf.ring.tail < BUF_SIZE)
    {below : Bool} (hbelow : below = true ↔ tx.buf.ring.head ≤ tx.buf.ring.tail) :
    freeSpaceReturn tx.buf.ring below = tx.buf.ring.room := by
  have hhead := h.head_lt
  rw [h.room_eq htail, freeSpaceReturn, h.bufsize]
  simp only [BUF_SIZE] at hhead htail ⊢
  cases below with
  | true =>
    have hle := hbelow.mp rfl
    rw [if_pos rfl, if_pos hle, toUnsigned_eq (by omega) (by omega)]
    omega
  | false =>
    have hlt : ¬tx.buf.ring.head ≤ tx.buf.ring.tail := fun hle => by simpa using hbelow.mpr hle
    rw [if_neg Bool.false_ne_true, if_neg hlt, toUnsigned_eq (by omega) (by omega)]
    omega

/-- The free space of `cbuffer_free_space` where the head has come around after the test. -/
lemma Transmit.Sound.freeSpaceReturn_wraps (h : tx.Sound)
    (htail : tx.buf.ring.tail < BUF_SIZE) (hle : tx.buf.ring.head ≤ tx.buf.ring.tail) :
    2 ^ 31 ≤ freeSpaceReturn tx.buf.ring false := by
  have hhead := h.head_lt
  rw [freeSpaceReturn, if_neg Bool.false_ne_true, toUnsigned]
  simp only [BUF_SIZE] at hhead htail
  omega

/-- What the writer copies fits, also where the head has come around after the test. -/
lemma Transmit.Sound.fits (h : tx.Sound) (htail : tx.buf.ring.tail < BUF_SIZE) {below : Bool}
    (hbelow : below = true → tx.buf.ring.head ≤ tx.buf.ring.tail) {bytes : Nat}
    (hbytes : bytes < 2 ^ 31)
    (hcalm : below = false → tx.buf.ring.head ≠ 0 ∨ tx.buf.ring.tail + bytes < BUF_SIZE) :
    fitted tx.buf.ring (if freeSpaceReturn tx.buf.ring below < bytes then
      freeSpaceReturn tx.buf.ring below else bytes) ≤ tx.buf.ring.room := by
  have hroom := h.room_eq htail
  by_cases hsame : below = true ↔ tx.buf.ring.head ≤ tx.buf.ring.tail
  · rw [h.freeSpaceReturn_eq htail hsame, fitted]
    split_ifs at hroom ⊢ <;> omega
  · cases below with
    | true => exact absurd ⟨hbelow, fun _ => rfl⟩ hsame
    | false =>
      have hle : tx.buf.ring.head ≤ tx.buf.ring.tail := by
        apply Decidable.byContradiction
        intro hlt
        exact hsame ⟨fun hfalse => absurd hfalse Bool.false_ne_true, fun hle => absurd hle hlt⟩
      have hlarge := h.freeSpaceReturn_wraps htail hle
      have hfree := hcalm rfl
      rw [if_neg (by omega), fitted]
      rw [if_pos hle] at hroom
      split <;> omega

/-- The writer goes on with nothing lost or repeated. -/
def WriteCall.Kept (tx : Transmit) (c : WriteCall) (p : Transmit × WriteCall) : Prop :=
  p.2.Ok p.1 ∧ p.1.sent ++ p.1.buf.items ++ p.2.left = tx.sent ++ tx.buf.items ++ c.left

variable (h : c.Ok tx)
include h

/-- A statement that only finds out something. -/
lemma WriteCall.Ok.goto (pc : WritePc)
    (hstep : c.step tx = (tx, { c with pc := pc }))
    (hknows : ({ c with pc := pc } : WriteCall).Knows tx)
    (hleft : ({ c with pc := pc } : WriteCall).left = c.left) : c.Kept tx (c.step tx) := by
  rw [hstep]
  refine ⟨⟨h.sound, hknows, h.bytes_eq, h.retval_nonneg, h.retval_eq, h.short⟩, ?_⟩
  rw [hleft]

lemma WriteCall.Ok.trim {space : Nat} (hpc : c.pc = .trim space) :
    c.Kept tx (c.step tx) := by
  have hknows := h.knows
  simp only [WriteCall.Knows, hpc] at hknows
  have hmin : (if space < c.bytes then space else c.bytes) ≤ c.bytes := by
    split
    · apply Nat.le_of_lt
      assumption
    · exact le_rfl
  exact h.goto (.wrapTest (if space < c.bytes then space else c.bytes))
    (by simp only [WriteCall.step, hpc]) ⟨hknows.1, hmin, hknows.2⟩
    (by simp only [WriteCall.left, hpc])

lemma WriteCall.Ok.bytes_lt : c.bytes < 2 ^ 31 := by
  have hbytes := h.bytes_eq
  have hnonneg := h.retval_nonneg
  have hretval := h.retval_eq
  have hshort := h.short
  omega

lemma WriteCall.Ok.wrapTest {n : Nat} (hpc : c.pc = .wrapTest n) :
    c.Kept tx (c.step tx) := by
  have hlt := h.bytes_lt
  have hbuf : BUF_SIZE = 1024 := rfl
  have hknows := h.knows
  simp only [WriteCall.Knows, hpc] at hknows
  obtain ⟨htail, hn, hfits⟩ := hknows
  have hto : toUnsigned (tx.buf.ring.tail + n) = tx.buf.ring.tail + n := by
    rw [toUnsigned_eq (by omega) (by omega)]
    omega
  rw [fitted] at hfits
  by_cases hwrap : BUF_SIZE ≤ tx.buf.ring.tail + n
  · rw [if_pos hwrap] at hfits
    have hcut : BUF_SIZE - tx.buf.ring.tail ≤ c.bytes := by omega
    exact h.goto .wrapAssign (by simp only [WriteCall.step, hpc, hto, if_pos hwrap])
      ⟨htail, hcut, hfits⟩ (by simp only [WriteCall.left, hpc])
  · rw [if_neg hwrap] at hfits
    have hend : tx.buf.ring.tail + n ≤ BUF_SIZE := by omega
    exact h.goto (.copy n 0) (by simp only [WriteCall.step, hpc, hto, if_neg hwrap])
      ⟨hn, hfits, htail, hend, Nat.zero_le _, fun k hk => absurd hk (Nat.not_lt_zero k)⟩
      (by simp only [WriteCall.left, hpc])

lemma WriteCall.Ok.wrapAssign (hpc : c.pc = .wrapAssign) :
    c.Kept tx (c.step tx) := by
  have hbuf : BUF_SIZE = 1024 := rfl
  have hknows := h.knows
  simp only [WriteCall.Knows, hpc] at hknows
  obtain ⟨htail, hn, hroom⟩ := hknows
  have hto : toUnsigned ((BUF_SIZE : Int) - tx.buf.ring.tail) = BUF_SIZE - tx.buf.ring.tail := by
    rw [toUnsigned_eq (by omega) (by omega)]
    omega
  have hend : tx.buf.ring.tail + (BUF_SIZE - tx.buf.ring.tail) ≤ BUF_SIZE := by omega
  exact h.goto (.copy (BUF_SIZE - tx.buf.ring.tail) 0)
    (by simp only [WriteCall.step, hpc, hto])
    ⟨hn, hroom, htail, hend, Nat.zero_le _, fun k hk => absurd hk (Nat.not_lt_zero k)⟩
    (by simp only [WriteCall.left, hpc])

/-- A byte is copied to a free cell. -/
lemma WriteCall.Ok.copy {n done : Nat} (hpc : c.pc = .copy n done) :
    c.Kept tx (c.step tx) := by
  have hsize := h.sound.bufsize
  have hknows := h.knows
  simp only [WriteCall.Knows, hpc] at hknows
  obtain ⟨hn, hroom, htail, hend, hdone, hcells⟩ := hknows
  by_cases hmore : done < n
  · have hstep : c.step tx =
        ({ tx with
            buf := ⟨tx.buf.ring,
              update tx.buf.cells (tx.buf.ring.tail + done) (c.buf.getD done 0)⟩ },
          { c with pc := .copy n (done + 1) }) := by
      simp only [WriteCall.step, hpc, if_pos hmore]
    have hcopied : ∀ k < done + 1, update tx.buf.cells (tx.buf.ring.tail + done)
        (c.buf.getD done 0) (tx.buf.ring.tail + k) = c.buf.getD k 0 := by
      intro k hk
      rcases Nat.lt_succ_iff_lt_or_eq.mp hk with hlt | rfl
      · rw [update_of_ne (by omega)]
        exact hcells k hlt
      · exact update_self ..
    have hstore := Ring.items_store tx.buf.cells h.sound.movable
      (j := done) (by rw [hsize]; omega) (by omega) (c.buf.getD done 0)
    rw [hstep]
    refine ⟨⟨⟨hsize, h.sound.head_lt, h.sound.tail_le⟩,
      ⟨hn, hroom, htail, hend, hmore, hcopied⟩, h.bytes_eq, h.retval_nonneg, h.retval_eq,
      h.short⟩, ?_⟩
    simp only [CBuffer.items, hstore, WriteCall.left, hpc]
  · obtain rfl : done = n := by omega
    exact h.goto (.addTail done) (by simp only [WriteCall.step, hpc, if_neg hmore])
      ⟨hn, hroom, hend, hcells⟩ (by simp only [WriteCall.left, hpc])

/-- The bytes copied become part of the ring. -/
lemma WriteCall.Ok.addTail {n : Nat} (hpc : c.pc = .addTail n) :
    c.Kept tx (c.step tx) := by
  have hbuf : BUF_SIZE = 1024 := rfl
  have hsize := h.sound.bufsize
  have hbytes := h.bytes_eq
  have hknows := h.knows
  simp only [WriteCall.Knows, hpc] at hknows
  obtain ⟨hn, hroom, hend, hcells⟩ := hknows
  have hto : toUnsigned (tx.buf.ring.tail + n) = tx.buf.ring.tail + n := by
    rw [toUnsigned_eq (by omega) (by omega)]
    omega
  have hitems := Ring.items_moveTail tx.buf.cells h.sound.movable (n := n)
    (by rw [hsize]; exact hend) hroom
  have hcopied : ((List.range n).map fun k => tx.buf.cells (tx.buf.ring.tail + k)) =
      c.buf.take n := by
    apply List.ext_getElem
    · simp only [List.length_map, List.length_range, List.length_take]
      omega
    · intro k hk hk'
      have hlt : k < n := by simpa using hk
      simp only [List.getElem_map, List.getElem_range, List.getElem_take]
      rw [hcells k hlt, List.getD_eq_getElem?_getD, List.getElem?_eq_getElem (by omega),
        Option.getD_some]
  have hstep : c.step tx = ({ tx with buf := ⟨tx.buf.ring.moveTail n, tx.buf.cells⟩ },
      { c with pc := .addTest n }) := by
    simp only [WriteCall.step, hpc, hto, Ring.moveTail]
  rw [hstep]
  refine ⟨⟨⟨hsize, h.sound.head_lt, hend⟩, hn, hbytes, h.retval_nonneg, h.retval_eq, h.short⟩, ?_⟩
  simp only [CBuffer.items, WriteCall.left, hpc]
  rw [hitems, hcopied, ← List.append_assoc, List.append_assoc _ (c.buf.take n),
    List.take_append_drop]

lemma WriteCall.Ok.addTest {n : Nat} (hpc : c.pc = .addTest n) :
    c.Kept tx (c.step tx) := by
  have hsize := h.sound.bufsize
  have hle := h.sound.tail_le
  have hknows := h.knows
  simp only [WriteCall.Knows, hpc] at hknows
  by_cases hwrap : BUF_SIZE ≤ tx.buf.ring.tail
  · exact h.goto (.addWrap n) (by simp only [WriteCall.step, hpc, hsize, if_pos hwrap])
      ⟨hknows, Nat.le_antisymm hle hwrap⟩ (by simp only [WriteCall.left, hpc])
  · exact h.goto (.account n) (by simp only [WriteCall.step, hpc, hsize, if_neg hwrap])
      ⟨hknows, Nat.lt_of_not_le hwrap⟩ (by simp only [WriteCall.left, hpc])

lemma WriteCall.Ok.addWrap {n : Nat} (hpc : c.pc = .addWrap n) :
    c.Kept tx (c.step tx) := by
  have hsize := h.sound.bufsize
  have hknows := h.knows
  simp only [WriteCall.Knows, hpc] at hknows
  obtain ⟨hn, hend⟩ := hknows
  have hto : toUnsigned ((tx.buf.ring.tail : Int) - tx.buf.ring.bufsize) = 0 := by
    rw [hend, hsize, sub_self]
    rfl
  have hstep : c.step tx = ({ tx with buf := ⟨{ tx.buf.ring with tail := 0 }, tx.buf.cells⟩ },
      { c with pc := .account n }) := by
    simp only [WriteCall.step, hpc, hto]
  have hsettle := Ring.settle_wrapTail (hend.trans hsize.symm)
  have hpos : 0 < BUF_SIZE := by decide
  rw [hstep]
  refine ⟨⟨⟨hsize, h.sound.head_lt, Nat.zero_le _⟩, ⟨hn, hpos⟩, h.bytes_eq, h.retval_nonneg,
    h.retval_eq, h.short⟩, ?_⟩
  simp only [CBuffer.items, Ring.items, hsettle, WriteCall.left, hpc]

/-- The counters follow the bytes. -/
lemma WriteCall.Ok.account {n : Nat} (hpc : c.pc = .account n) :
    c.Kept tx (c.step tx) := by
  have hlt := h.bytes_lt
  have hbytes := h.bytes_eq
  have hnonneg := h.retval_nonneg
  have hretval := h.retval_eq
  have hshort := h.short
  have hknows := h.knows
  simp only [WriteCall.Knows, hpc] at hknows
  obtain ⟨hn, htail⟩ := hknows
  have hto : toUnsigned ((c.bytes : Int) - n) = c.bytes - n := by
    rw [toUnsigned_eq (by omega) (by omega)]
    omega
  have hint : toInt32 (c.retval + n) = c.retval + n := by
    rw [toInt32]
    omega
  have hdrop : (c.buf.drop n).length = c.buf.length - n := List.length_drop
  have hstep : c.step tx = (tx, { c with
      pc := .enableRead, retval := c.retval + n, buf := c.buf.drop n, bytes := c.bytes - n }) := by
    simp only [WriteCall.step, hpc, hto, hint]
  have hcount : c.retval + n + ((c.buf.drop n).length : Int) = c.whole.length := by
    omega
  have hpos : 0 ≤ c.retval + (n : Int) := by omega
  rw [hstep]
  refine ⟨⟨h.sound, htail, ?_, hpos, hcount, hshort⟩, ?_⟩
  · rw [hdrop, hbytes]
  · simp only [WriteCall.left, hpc]

/-- A statement of the writer keeps what is accounted for. -/
theorem WriteCall.Ok.step (hcalm : c.Calm tx) : c.Kept tx (c.step tx) := by
  have hknows := h.knows
  cases hpc : c.pc with
  | trim space => exact h.trim hpc
  | wrapTest n => exact h.wrapTest hpc
  | wrapAssign => exact h.wrapAssign hpc
  | copy n done => exact h.copy hpc
  | addTail n => exact h.addTail hpc
  | addTest n => exact h.addTest hpc
  | addWrap n => exact h.addWrap hpc
  | account n => exact h.account hpc
  | spaceReturn below =>
    simp only [WriteCall.Knows, hpc] at hknows
    have hfits := h.sound.fits hknows.1 hknows.2 h.bytes_lt (by
      rintro rfl
      exact hcalm hpc)
    exact h.goto (.trim (freeSpaceReturn tx.buf.ring below))
      (by simp only [WriteCall.step, hpc]) ⟨hknows.1, hfits⟩ (by simp only [WriteCall.left, hpc])
  | spaceTest =>
    simp only [WriteCall.Knows, hpc] at hknows
    exact h.goto (.spaceReturn (tx.buf.ring.head ≤ tx.buf.ring.tail))
      (by simp only [WriteCall.step, hpc]) ⟨hknows, fun hbelow => of_decide_eq_true hbelow⟩
      (by simp only [WriteCall.left, hpc])
  | waitReturn below =>
    simp only [WriteCall.Knows, hpc] at hknows
    by_cases hfew : freeSpaceReturn tx.buf.ring below < TX_SEQ_MAX
    · exact h.goto .ioWait (by simp only [WriteCall.step, hpc, if_pos hfew]) hknows
        (by simp only [WriteCall.left, hpc])
    · exact h.goto .spaceTest (by simp only [WriteCall.step, hpc, if_neg hfew]) hknows
        (by simp only [WriteCall.left, hpc])
  | loop =>
    simp only [WriteCall.Knows, hpc] at hknows
    by_cases hmore : c.bytes ≠ 0
    · exact h.goto .waitTest (by simp only [WriteCall.step, hpc, if_pos hmore]) hknows
        (by simp only [WriteCall.left, hpc])
    · exact h.goto .finished (by simp only [WriteCall.step, hpc, if_neg hmore])
        ⟨not_not.mp hmore, hknows⟩ (by simp only [WriteCall.left, hpc])
  | enableWrite =>
    simp only [WriteCall.Knows, hpc] at hknows
    simp only [WriteCall.Kept, WriteCall.step, hpc]
    refine ⟨⟨⟨h.sound.bufsize, h.sound.head_lt, h.sound.tail_le⟩, hknows, h.bytes_eq,
      h.retval_nonneg, h.retval_eq, h.short⟩, ?_⟩
    simp only [WriteCall.left, hpc]
  | waitTest =>
    simp only [WriteCall.Knows, hpc] at hknows
    exact h.goto (.waitReturn (tx.buf.ring.head ≤ tx.buf.ring.tail))
      (by simp only [WriteCall.step, hpc]) hknows (by simp only [WriteCall.left, hpc])
  | enableRead =>
    simp only [WriteCall.Knows, hpc] at hknows
    exact h.goto .enableWrite (by simp only [WriteCall.step, hpc]) hknows
      (by simp only [WriteCall.left, hpc])
  | _ =>
    simp only [WriteCall.Kept, WriteCall.step, hpc]
    exact ⟨h, trivial⟩

end DiegOS.Drivers
