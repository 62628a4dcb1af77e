import DiegOS.Drivers.UartTransmit

/-!
# The receive ring

The receive interrupts fill the ring from the device and a reader empties it.  The bytes that
were stored are what the readers got, what the reader has copied so far and what is left in the
ring behind that.

Main results:

- Theorem `Receive.Sound.fifoHandler`, Theorem `Receive.Sound.timeoutHandler`: the
  handlers move bytes from the device to the ring, and drop them only when it is full.
- Theorem `ReadCall.Ok.step`: a statement of the reader keeps what is accounted for.
-/

namespace DiegOS.Drivers

open Lib (Ring)

variable {rx rx' : Receive} {c : ReadCall}

/-- Head and tail of the ring outside an addition. -/
structure Receive.Sound (rx : Receive) : Prop where
  bufsize : rx.buf.ring.bufsize = BUF_SIZE
  head_le : rx.buf.ring.head ≤ BUF_SIZE
  tail_lt : rx.buf.ring.tail < BUF_SIZE

namespace Receive.Sound

lemma movable (h : rx.Sound) : rx.buf.ring.Movable :=
  ⟨by rw [h.bufsize]; decide, by rw [h.bufsize]; exact h.head_le,
    by rw [h.bufsize]; exact h.tail_lt.le⟩

/-- The number of bytes in the ring, also before the head comes around. -/
lemma used_eq (h : rx.Sound) :
    rx.buf.ring.used = if rx.buf.ring.head ≤ rx.buf.ring.tail then
      rx.buf.ring.tail - rx.buf.ring.head
      else BUF_SIZE - rx.buf.ring.head + rx.buf.ring.tail := by
  have hle := h.head_le
  have hlt := h.tail_lt
  rcases Nat.lt_or_ge rx.buf.ring.head BUF_SIZE with hhead | hhead
  · have hvalid : rx.buf.ring.Valid :=
      ⟨by rw [h.bufsize]; exact hhead, by rw [h.bufsize]; exact hlt⟩
    rw [Ring.used, hvalid.settle_eq, Ring.inUse, h.bufsize]
  · have hend : rx.buf.ring.head = BUF_SIZE := Nat.le_antisymm hle hhead
    have hset : rx.buf.ring.settle = ⟨0, rx.buf.ring.tail, BUF_SIZE⟩ := by
      rw [Ring.settle, h.bufsize, hend, if_pos rfl, if_neg hlt.ne]
    rw [Ring.used, hset, Ring.inUse, if_pos (Nat.zero_le _), if_neg (by omega)]
    change rx.buf.ring.tail - 0 = _
    omega

/-- The handler's `cbuffer_free_space` is the room of the ring. -/
lemma freeSpace_eq (h : rx.Sound) : cbufferFreeSpace rx.buf.ring = rx.buf.ring.room := by
  have hused := h.used_eq
  have hle := h.head_le
  have hlt := h.tail_lt
  have hbuf : BUF_SIZE = 1024 := rfl
  rw [cbufferFreeSpace, freeSpaceReturn, Ring.room, h.bufsize, hused]
  by_cases hbelow : rx.buf.ring.head ≤ rx.buf.ring.tail
  · rw [if_pos (decide_eq_true hbelow), if_pos hbelow, toUnsigned_eq (by omega) (by omega)]
    omega
  · rw [if_neg (by simpa using hbelow), if_neg hbelow, toUnsigned_eq (by omega) (by omega)]
    omega

end Receive.Sound

/-- A fate that loses a byte only for want of space. -/
def Fate.Fair : Fate → Prop
  | .stored _ => True
  | .dropped _ freeSpace => freeSpace = 0

/-- What an interrupt does to the ring: new bytes come to its end. -/
structure Filled (rx rx' : Receive) : Prop where
  sound : rx'.Sound
  head_eq : rx'.buf.ring.head = rx.buf.ring.head
  above : rx.buf.ring.tail < rx.buf.ring.head → rx'.buf.ring.tail < rx'.buf.ring.head
  grown : ∃ new, rx'.buf.items = rx.buf.items ++ new ∧ rx'.kept = rx.kept ++ new
  bytes_eq : rx'.fates.map Fate.byte ++ rx'.fifo = rx.fates.map Fate.byte ++ rx.fifo
  fair : (∀ f ∈ rx.fates, f.Fair) → ∀ f ∈ rx'.fates, f.Fair

namespace Filled

lemma refl (h : rx.Sound) : Filled rx rx :=
  ⟨h, rfl, id, ⟨[], (List.append_nil _).symm, (List.append_nil _).symm⟩, rfl, id⟩

variable (h : Filled rx rx')
include h

lemma trans {rx'' : Receive} (h' : Filled rx' rx'') : Filled rx rx'' := by
  refine ⟨h'.sound, h'.head_eq.trans h.head_eq, fun habove => h'.above (h.above habove), ?_,
    h'.bytes_eq.trans h.bytes_eq, fun hfair => h'.fair (h.fair hfair)⟩
  obtain ⟨new, hitems, hkept⟩ := h.grown
  obtain ⟨new', hitems', hkept'⟩ := h'.grown
  refine ⟨new ++ new', ?_, ?_⟩
  · rw [hitems', hitems, List.append_assoc]
  · rw [hkept', hkept, List.append_assoc]

/-- The bytes in the ring do not get fewer. -/
lemma used_le : rx.buf.ring.used ≤ rx'.buf.ring.used := by
  obtain ⟨new, hitems, -⟩ := h.grown
  have hlen := congrArg List.length hitems
  rw [List.length_append, CBuffer.items, CBuffer.items,
    Ring.items_length, Ring.items_length] at hlen
  omega

/-- The bytes in the ring stay at its front. -/
lemma items_drop {n : Nat} (hn : n ≤ rx.buf.ring.used) :
    ∃ new, rx'.buf.items.drop n = rx.buf.items.drop n ++ new ∧ rx'.kept = rx.kept ++ new := by
  obtain ⟨new, hitems, hkept⟩ := h.grown
  refine ⟨new, ?_, hkept⟩
  rw [hitems, List.drop_append_of_le_length]
  rw [CBuffer.items, Ring.items_length]
  exact hn

end Filled

namespace Receive.Sound

lemma head_tail_fifo {l : List UInt8} (hne : l ≠ []) : l.headD 0 :: l.tail = l := by
  cases l with
  | nil => exact absurd rfl hne
  | cons b l => rfl

/-- A byte is stored where there is room. -/
lemma store (h : rx.Sound) (hroom : 0 < rx.buf.ring.room) (hne : rx.fifo ≠ []) :
    Filled rx rx.store ∧ rx.store.buf.ring.room + 1 = rx.buf.ring.room ∧
      rx.store.fifo.length + 1 = rx.fifo.length := by
  have hle := h.head_le
  have hlt := h.tail_lt
  have hused := h.used_eq
  have hbuf : BUF_SIZE = 1024 := rfl
  have htail : rx.buf.ring.add.tail =
      if rx.buf.ring.tail + 1 = BUF_SIZE then 0 else rx.buf.ring.tail + 1 := by
    rw [Ring.add, h.bufsize]
  have hsound : rx.store.Sound := by
    refine ⟨h.bufsize, hle, ?_⟩
    change rx.buf.ring.add.tail < BUF_SIZE
    rw [htail]
    split
    · decide
    · omega
  have hitems := Ring.items_add rx.buf.cells h.movable (by rw [h.bufsize]; exact hlt)
    hroom (rx.fifo.headD 0)
  have hlength := congrArg List.length hitems
  rw [Ring.items_length, List.length_append, Ring.items_length, List.length_singleton] at hlength
  refine ⟨⟨hsound, rfl, ?_, ⟨[rx.fifo.headD 0], hitems, ?_⟩, ?_, ?_⟩, ?_, ?_⟩
  · intro habove
    change rx.buf.ring.add.tail < rx.buf.ring.head
    rw [Ring.room, h.bufsize, hused, if_neg (by omega)] at hroom
    rw [htail]
    split <;> omega
  · rw [Receive.kept, Receive.store, List.filterMap_append]
    rfl
  · rw [Receive.store, List.map_append, List.append_assoc]
    refine congrArg _ ?_
    exact head_tail_fifo hne
  · intro hfair f hf
    rcases List.mem_append.mp hf with hf | hf
    · exact hfair f hf
    · rw [List.mem_singleton.mp hf]
      trivial
  · change rx.buf.ring.bufsize - 1 - rx.buf.ring.add.used + 1 = _
    rw [Ring.room] at hroom ⊢
    omega
  · have hlen := congrArg List.length (head_tail_fifo hne)
    rw [List.length_cons] at hlen
    exact hlen

/-- A byte is dropped where there is no room. -/
lemma drop (h : rx.Sound) (hroom : rx.buf.ring.room = 0) (hne : rx.fifo ≠ []) :
    Filled rx rx.drop ∧ rx.drop.buf = rx.buf ∧ rx.drop.fifo.length + 1 = rx.fifo.length := by
  refine ⟨⟨⟨h.bufsize, h.head_le, h.tail_lt⟩, rfl, id, ⟨[], (List.append_nil _).symm, ?_⟩, ?_, ?_⟩,
    rfl, ?_⟩
  · rw [Receive.kept, Receive.drop, List.filterMap_append, List.append_nil]
    exact List.append_nil _
  · rw [Receive.drop, List.map_append, List.append_assoc]
    exact congrArg _ (head_tail_fifo hne)
  · intro hfair f hf
    rcases List.mem_append.mp hf with hf | hf
    · exact hfair f hf
    · rw [List.mem_singleton.mp hf]
      exact h.freeSpace_eq.trans hroom
  · have hlen := congrArg List.length (head_tail_fifo hne)
    rw [List.length_cons] at hlen
    exact hlen

lemma storeTimes (n : Nat) : ∀ {rx : Receive}, rx.Sound → n ≤ rx.buf.ring.room →
    n ≤ rx.fifo.length → Filled rx (rx.storeTimes n) := by
  induction n with
  | zero => exact fun h _ _ => Filled.refl h
  | succ n ih =>
    intro rx h hroom hfifo
    obtain ⟨hfilled, hroom', hfifo'⟩ := h.store (by omega) (by
      intro hnil
      rw [hnil] at hfifo
      exact absurd hfifo (Nat.not_succ_le_zero n))
    exact hfilled.trans (ih hfilled.sound (by omega) (by omega))

lemma storeWhile (n : Nat) : ∀ {rx : Receive}, rx.Sound → n ≤ rx.buf.ring.room →
    Filled rx (rx.storeWhile n) := by
  induction n with
  | zero => exact fun h _ => Filled.refl h
  | succ n ih =>
    intro rx h hroom
    rw [Receive.storeWhile]
    split
    · exact Filled.refl h
    · next hne =>
        obtain ⟨hfilled, hroom', -⟩ := h.store (by omega) hne
        exact hfilled.trans (ih hfilled.sound (by omega))

lemma dropTimes (n : Nat) : ∀ {rx : Receive}, rx.Sound → rx.buf.ring.room = 0 →
    n ≤ rx.fifo.length → Filled rx (rx.dropTimes n) ∧ (rx.dropTimes n).buf = rx.buf := by
  induction n with
  | zero => exact fun h _ _ => ⟨Filled.refl h, rfl⟩
  | succ n ih =>
    intro rx h hroom hfifo
    obtain ⟨hfilled, hbuf, hfifo'⟩ := h.drop hroom (by
      intro hnil
      rw [hnil] at hfifo
      exact absurd hfifo (Nat.not_succ_le_zero n))
    have hrest := ih hfilled.sound (by rw [hbuf]; exact hroom) (by omega)
    exact ⟨hfilled.trans hrest.1, hrest.2.trans hbuf⟩

/-- The handler of a full receiver. -/
theorem fifoHandler (h : rx.Sound) (hfifo : RX_SEQ_MAX ≤ rx.fifo.length) :
    Filled rx (uartHandleRecvDataFifo rx) := by
  rw [uartHandleRecvDataFifo, h.freeSpace_eq]
  by_cases hfull : rx.buf.ring.room = 0
  · rw [if_pos hfull]
    obtain ⟨hfirst, hbuf⟩ := h.dropTimes RX_SEQ_MAX hfull hfifo
    have hrest := hfirst.sound.dropTimes (rx.dropTimes RX_SEQ_MAX).fifo.length
      (by rw [hbuf]; exact hfull) le_rfl
    exact hfirst.trans hrest.1
  · rw [if_neg hfull]
    have hfirst := h.storeTimes
      (if RX_SEQ_MAX < rx.buf.ring.room then RX_SEQ_MAX else rx.buf.ring.room)
      (by split <;> omega) (by split <;> omega)
    exact hfirst.trans (hfirst.sound.storeWhile _ hfirst.sound.freeSpace_eq.le)

/-- The handler of a receiver that waits. -/
theorem timeoutHandler (h : rx.Sound) : Filled rx (uartHandleRecvDataTimeout rx) :=
  h.storeWhile _ h.freeSpace_eq.le

end Receive.Sound

/-! ## The statements of the reader -/

/-- The bytes copied that are still in the ring. -/
def ReadCall.copied (c : ReadCall) : Nat :=
  match c.pc with
  | .copy _ done _ => done
  | .removeHead n _ => n
  | _ => 0

/-- What the reader has found out before its next statement. -/
def ReadCall.Knows (rx : Receive) (c : ReadCall) : Prop :=
  let r := rx.buf.ring
  match c.pc with
  | .useReturn below => r.head < BUF_SIZE ∧ c.dest = [] ∧ (below = false → r.tail < r.head)
  | .trim n =>
    r.head < BUF_SIZE ∧ c.dest = [] ∧ (if n ≤ c.bytes then n else c.bytes) ≤ r.used
  | .wrapTest => r.head < BUF_SIZE ∧ c.dest = [] ∧ c.retCopyBytes ≤ r.used
  | .copy n done rest =>
    done ≤ n ∧ r.head < BUF_SIZE ∧ r.head + n ≤ BUF_SIZE ∧ n + rest.getD 0 ≤ r.used ∧
      (rest = none ∨ r.head + n = BUF_SIZE) ∧
      c.dest.length + (n - done) + rest.getD 0 = c.retCopyBytes
  | .removeHead n rest =>
    r.head + n ≤ BUF_SIZE ∧ n + rest.getD 0 ≤ r.used ∧
      (rest = none ∨ r.head + n = BUF_SIZE) ∧ c.dest.length + rest.getD 0 = c.retCopyBytes
  | .removeTest rest =>
    rest.getD 0 ≤ r.used ∧ (rest = none ∨ r.head = BUF_SIZE) ∧
      c.dest.length + rest.getD 0 = c.retCopyBytes
  | .removeWrap rest =>
    rest.getD 0 ≤ r.used ∧ r.head = BUF_SIZE ∧ c.dest.length + rest.getD 0 = c.retCopyBytes
  | .finished => r.head < BUF_SIZE ∧ c.dest.length = c.retCopyBytes
  | _ => r.head < BUF_SIZE ∧ c.dest = []

/-- A call and the ring it reads from. -/
structure ReadCall.Ok (rx : Receive) (c : ReadCall) : Prop where
  sound : rx.Sound
  knows : c.Knows rx

/-- A tail that has come around behind the test of `cbuffer_in_use` meets a reader that
wants no more than there is. -/
def ReadCall.Calm (rx : Receive) (c : ReadCall) : Prop :=
  c.pc = .useReturn true → rx.buf.ring.head ≤ rx.buf.ring.tail ∨ c.bytes ≤ rx.buf.ring.used

/-- The bytes copied lie in the ring. -/
lemma ReadCall.Ok.copied_le (h : c.Ok rx) : c.copied ≤ rx.buf.ring.used := by
  have hknows := h.knows
  unfold ReadCall.Knows at hknows
  unfold ReadCall.copied
  cases hpc : c.pc with
  | copy n done rest =>
    rw [hpc] at hknows
    obtain ⟨hdone, -, -, hused, -⟩ := hknows
    change done ≤ _
    omega
  | removeHead n rest =>
    rw [hpc] at hknows
    obtain ⟨-, hused, -⟩ := hknows
    change n ≤ _
    omega
  | _ => exact Nat.zero_le _

/-- An interrupt leaves what the reader knows. -/
lemma ReadCall.Ok.filled (h : c.Ok rx) (hf : Filled rx rx') : c.Ok rx' := by
  have hused := hf.used_le
  have hhead := hf.head_eq
  have hknows := h.knows
  refine ⟨hf.sound, ?_⟩
  unfold ReadCall.Knows at hknows ⊢
  cases hpc : c.pc with
  | useReturn below =>
    rw [hpc] at hknows
    exact ⟨by rw [hhead]; exact hknows.1, hknows.2.1, fun hbelow => hf.above (hknows.2.2 hbelow)⟩
  | trim n | wrapTest =>
    rw [hpc] at hknows
    exact ⟨by rw [hhead]; exact hknows.1, hknows.2.1, hknows.2.2.trans hused⟩
  | copy n done rest =>
    rw [hpc] at hknows
    obtain ⟨hdone, hlt, hend, hle, hrest, hret⟩ := hknows
    simp only [hhead]
    exact ⟨hdone, hlt, hend, hle.trans hused, hrest, hret⟩
  | removeHead n rest =>
    rw [hpc] at hknows
    obtain ⟨hend, hle, hrest, hret⟩ := hknows
    simp only [hhead]
    exact ⟨hend, hle.trans hused, hrest, hret⟩
  | removeTest rest | removeWrap rest =>
    rw [hpc] at hknows
    obtain ⟨hle, hrest, hret⟩ := hknows
    simp only [hhead]
    exact ⟨hle.trans hused, hrest, hret⟩
  | _ =>
    rw [hpc] at hknows
    simp only [hhead]
    exact hknows

/-- The reader goes on with nothing lost or repeated. -/
structure ReadCall.Kept (rx : Receive) (c : ReadCall) (p : Receive × ReadCall) : Prop where
  ok : p.2.Ok p.1
  fates_eq : p.1.fates = rx.fates
  fifo_eq : p.1.fifo = rx.fifo
  account : p.2.dest ++ p.1.buf.items.drop p.2.copied = c.dest ++ rx.buf.items.drop c.copied

section

variable (h : c.Ok rx)
include h

/-- A statement that only finds out something. -/
lemma ReadCall.Ok.goto (pc : ReadPc) (n : Nat)
    (hstep : c.step rx = (rx, { c with pc := pc, retCopyBytes := n }))
    (hknows : ({ c with pc := pc, retCopyBytes := n } : ReadCall).Knows rx)
    (hcopied : ({ c with pc := pc, retCopyBytes := n } : ReadCall).copied = c.copied) :
    c.Kept rx (c.step rx) := by
  rw [hstep]
  exact ⟨⟨h.sound, hknows⟩, rfl, rfl, by rw [hcopied]⟩

/-- What `cbuffer_in_use` returns is enough for what is copied. -/
lemma ReadCall.Ok.useReturn {below : Bool} (hpc : c.pc = .useReturn below)
    (hcalm : c.Calm rx) : c.Kept rx (c.step rx) := by
  have hbuf : BUF_SIZE = 1024 := rfl
  have htail := h.sound.tail_lt
  have hused := h.sound.used_eq
  have hknows := h.knows
  simp only [ReadCall.Knows, hpc] at hknows
  obtain ⟨hhead, hdest, habove⟩ := hknows
  have hle : (if inUseReturn rx.buf.ring below ≤ c.bytes then inUseReturn rx.buf.ring below
      else c.bytes) ≤ rx.buf.ring.used := by
    cases below with
    | true =>
      rcases hcalm hpc with hbelow | hfew
      · have hreturn : inUseReturn rx.buf.ring true = rx.buf.ring.used := by
          rw [hused, if_pos hbelow, inUseReturn, if_pos rfl, toUnsigned_eq (by omega) (by omega)]
          omega
        rw [hreturn]
        split <;> omega
      · split <;> omega
    | false =>
      have hlt := habove rfl
      have hreturn : inUseReturn rx.buf.ring false = rx.buf.ring.used := by
        rw [hused, if_neg (by omega), inUseReturn, if_neg Bool.false_ne_true, h.sound.bufsize,
          toUnsigned_eq (by omega) (by omega)]
        omega
      rw [hreturn]
      split <;> omega
  exact h.goto (.trim (inUseReturn rx.buf.ring below)) c.retCopyBytes
    (by simp only [ReadCall.step, hpc]) ⟨hhead, hdest, hle⟩ (by simp only [ReadCall.copied, hpc])

lemma ReadCall.Ok.wrapTest (hpc : c.pc = .wrapTest) :
    c.Kept rx (c.step rx) := by
  have hbuf : BUF_SIZE = 1024 := rfl
  have hlt := h.sound.movable.used_lt
  rw [h.sound.bufsize] at hlt
  have hknows := h.knows
  simp only [ReadCall.Knows, hpc] at hknows
  obtain ⟨hhead, hdest, hused⟩ := hknows
  have hto : toUnsigned (rx.buf.ring.head + c.retCopyBytes) =
      rx.buf.ring.head + c.retCopyBytes := by
    rw [toUnsigned_eq (by omega) (by omega)]
    omega
  by_cases hwrap : BUF_SIZE ≤ rx.buf.ring.head + c.retCopyBytes
  · have hfirst : toUnsigned ((BUF_SIZE : Int) - rx.buf.ring.head) =
        BUF_SIZE - rx.buf.ring.head := by
      rw [toUnsigned_eq (by omega) (by omega)]
      omega
    have hrest : toUnsigned ((c.retCopyBytes : Int) - (BUF_SIZE - rx.buf.ring.head)) =
        c.retCopyBytes - (BUF_SIZE - rx.buf.ring.head) := by
      rw [toUnsigned_eq (by omega) (by omega)]
      omega
    refine h.goto
      (.copy (BUF_SIZE - rx.buf.ring.head) 0
        (some (c.retCopyBytes - (BUF_SIZE - rx.buf.ring.head)))) c.retCopyBytes
      (by simp only [ReadCall.step, hpc, hto, hfirst, hrest, if_pos hwrap]) ?_
      (by simp only [ReadCall.copied, hpc])
    simp only [ReadCall.Knows, Option.getD_some, hdest, List.length_nil]
    exact ⟨Nat.zero_le _, hhead, by omega, by omega, .inr (by omega), by omega⟩
  · refine h.goto (.copy c.retCopyBytes 0 none) c.retCopyBytes
      (by simp only [ReadCall.step, hpc, hto, if_neg hwrap]) ?_
      (by simp only [ReadCall.copied, hpc])
    simp only [ReadCall.Knows, Option.getD_none, hdest, List.length_nil]
    exact ⟨Nat.zero_le _, hhead, by omega, hused, .inl trivial, by omega⟩

/-- The next byte of the ring is copied. -/
lemma ReadCall.Ok.copy {n done : Nat} {rest : Option Nat}
    (hpc : c.pc = .copy n done rest) : c.Kept rx (c.step rx) := by
  have hsize := h.sound.bufsize
  have hknows := h.knows
  simp only [ReadCall.Knows, hpc] at hknows
  obtain ⟨hdone, hhead, hend, hused, hrest, hret⟩ := hknows
  by_cases hmore : done < n
  · have hstep : c.step rx = (rx, { c with
        pc := .copy n (done + 1) rest
        dest := c.dest ++ [rx.buf.cells (rx.buf.ring.head + done)] }) := by
      simp only [ReadCall.step, hpc, if_pos hmore]
    have hnext : rx.buf.items.drop done =
        rx.buf.cells (rx.buf.ring.head + done) :: rx.buf.items.drop (done + 1) := by
      have hlen : done < rx.buf.items.length := by
        rw [CBuffer.items, Ring.items_length]
        omega
      have htake := Ring.items_take rx.buf.cells h.sound.movable (n := done + 1)
        (by rw [hsize]; omega) (by omega)
      have hget : rx.buf.items[done]? = some (rx.buf.cells (rx.buf.ring.head + done)) := by
        have hsome := congrArg (fun l => l[done]?) htake
        simpa [CBuffer.items, List.getElem?_take] using hsome
      rw [List.drop_eq_getElem_cons hlen]
      rw [List.getElem?_eq_getElem hlen] at hget
      rw [Option.some.inj hget]
    rw [hstep]
    refine ⟨⟨h.sound, ?_⟩, rfl, rfl, ?_⟩
    · simp only [ReadCall.Knows, List.length_append, List.length_singleton]
      exact ⟨hmore, hhead, hend, hused, hrest, by omega⟩
    · simp only [ReadCall.copied, hpc]
      rw [hnext, List.append_assoc]
      rfl
  · obtain rfl : done = n := by omega
    refine h.goto (.removeHead done rest) c.retCopyBytes
      (by simp only [ReadCall.step, hpc, if_neg hmore]) ?_ (by simp only [ReadCall.copied, hpc])
    simp only [ReadCall.Knows]
    exact ⟨hend, hused, hrest, by omega⟩

/-- The bytes copied leave the ring. -/
lemma ReadCall.Ok.removeHead {n : Nat} {rest : Option Nat}
    (hpc : c.pc = .removeHead n rest) : c.Kept rx (c.step rx) := by
  have hbuf : BUF_SIZE = 1024 := rfl
  have hsize := h.sound.bufsize
  have hknows := h.knows
  simp only [ReadCall.Knows, hpc] at hknows
  obtain ⟨hend, hused, hrest, hret⟩ := hknows
  have hto : toUnsigned (rx.buf.ring.head + n) = rx.buf.ring.head + n := by
    rw [toUnsigned_eq (by omega) (by omega)]
    omega
  have hstep : c.step rx = ({ rx with buf := ⟨rx.buf.ring.moveHead n, rx.buf.cells⟩ },
      { c with pc := .removeTest rest }) := by
    simp only [ReadCall.step, hpc, hto, Ring.moveHead]
  have hitems := Ring.items_moveHead rx.buf.cells h.sound.movable (n := n)
    (by rw [hsize]; exact hend) (by omega)
  have hleft := h.sound.movable.used_moveHead (n := n) (by rw [hsize]; exact hend) (by omega)
  have hdrop : rx.buf.items.drop n = (rx.buf.ring.moveHead n).items rx.buf.cells := by
    rw [CBuffer.items, hitems, List.drop_append, List.drop_of_length_le (by simp)]
    simp
  rw [hstep]
  refine ⟨⟨⟨hsize, hend, h.sound.tail_lt⟩, ?_⟩, rfl, rfl, ?_⟩
  · simp only [ReadCall.Knows]
    exact ⟨by omega, hrest, hret⟩
  · simp only [ReadCall.copied, hpc]
    rw [hdrop]
    rfl

end

/-- After a removal the second copy starts at slot 0. -/
lemma ReadCall.Knows.after {rest : Option Nat} (hused : rest.getD 0 ≤ rx.buf.ring.used)
    (hlt : rx.buf.ring.used < BUF_SIZE) (hhead : rx.buf.ring.head < BUF_SIZE)
    (hrest : rest = none ∨ rx.buf.ring.head = 0)
    (hret : c.dest.length + rest.getD 0 = c.retCopyBytes) :
    ({ c with pc := .after rest } : ReadCall).Knows rx := by
  cases rest with
  | none => exact ⟨hhead, hret⟩
  | some n =>
    rcases hrest with hnone | hzero
    · cases hnone
    · rw [Option.getD_some] at hused hret
      simp only [ReadCall.Knows, ReadPc.after, Option.getD_none, hzero]
      exact ⟨Nat.zero_le _, by omega, by omega, by omega, .inl trivial, by omega⟩

lemma ReadCall.copied_after {rest : Option Nat} :
    ({ c with pc := .after rest } : ReadCall).copied = 0 := by
  cases rest with
  | none | some n => rfl

lemma ReadCall.Ok.removeTest (h : c.Ok rx) {rest : Option Nat}
    (hpc : c.pc = .removeTest rest) : c.Kept rx (c.step rx) := by
  have hsize := h.sound.bufsize
  have hle := h.sound.head_le
  have hlt := h.sound.movable.used_lt
  rw [hsize] at hlt
  have hknows := h.knows
  simp only [ReadCall.Knows, hpc] at hknows
  obtain ⟨hused, hrest, hret⟩ := hknows
  by_cases hwrap : BUF_SIZE ≤ rx.buf.ring.head
  · exact h.goto (.removeWrap rest) c.retCopyBytes
      (by simp only [ReadCall.step, hpc, hsize, if_pos hwrap])
      ⟨hused, Nat.le_antisymm hle hwrap, hret⟩ (by simp only [ReadCall.copied, hpc])
  · refine h.goto (.after rest) c.retCopyBytes
      (by simp only [ReadCall.step, hpc, hsize, if_neg hwrap]) ?_ ?_
    · apply ReadCall.Knows.after hused hlt (Nat.lt_of_not_le hwrap) _ hret
      rcases hrest with hnone | hend
      · exact .inl hnone
      · exact absurd hend.ge hwrap
    · rw [ReadCall.copied_after]
      simp only [ReadCall.copied, hpc]

lemma ReadCall.Ok.removeWrap (h : c.Ok rx) {rest : Option Nat}
    (hpc : c.pc = .removeWrap rest) : c.Kept rx (c.step rx) := by
  have hsize := h.sound.bufsize
  have hlt := h.sound.movable.used_lt
  rw [hsize] at hlt
  have hknows := h.knows
  simp only [ReadCall.Knows, hpc] at hknows
  obtain ⟨hused, hend, hret⟩ := hknows
  have hto : toUnsigned ((rx.buf.ring.head : Int) - rx.buf.ring.bufsize) = 0 := by
    rw [hend, hsize, sub_self]
    rfl
  have hstep : c.step rx = ({ rx with buf := ⟨{ rx.buf.ring with head := 0 }, rx.buf.cells⟩ },
      { c with pc := .after rest }) := by
    simp only [ReadCall.step, hpc, hto]
  have hsettle := Ring.settle_wrapHead (hend.trans hsize.symm)
  have husedEq : ({ rx.buf.ring with head := 0 } : Ring).used = rx.buf.ring.used := by
    rw [Ring.used, hsettle, Ring.used]
  have hpos : 0 < BUF_SIZE := by decide
  rw [hstep]
  refine ⟨⟨⟨hsize, Nat.zero_le _, h.sound.tail_lt⟩, ?_⟩, rfl, rfl, ?_⟩
  · exact ReadCall.Knows.after (by rw [husedEq]; exact hused) (by rw [husedEq]; exact hlt) hpos
      (.inr rfl) hret
  · rw [ReadCall.copied_after]
    simp only [ReadCall.copied, hpc, CBuffer.items, Ring.items, hsettle]

/-- A statement of the reader keeps what is accounted for. -/
theorem ReadCall.Ok.step (h : c.Ok rx) (hcalm : c.Calm rx) : c.Kept rx (c.step rx) := by
  have hknows := h.knows
  cases hpc : c.pc with
  | useReturn below => exact h.useReturn hpc hcalm
  | wrapTest => exact h.wrapTest hpc
  | copy n done rest => exact h.copy hpc
  | removeHead n rest => exact h.removeHead hpc
  | removeTest rest => exact h.removeTest hpc
  | removeWrap rest => exact h.removeWrap hpc
  | trim n =>
    simp only [ReadCall.Knows, hpc] at hknows
    exact h.goto .wrapTest (if n ≤ c.bytes then n else c.bytes)
      (by simp only [ReadCall.step, hpc]) hknows (by simp only [ReadCall.copied, hpc])
  | emptyTest =>
    simp only [ReadCall.Knows, hpc] at hknows
    cases hempty : rx.buf.ring.isEmpty with
    | true =>
      exact h.goto .ioWait c.retCopyBytes
        (by simp only [ReadCall.step, hpc, hempty, if_true]) hknows
        (by simp only [ReadCall.copied, hpc])
    | false =>
      exact h.goto .useTest c.retCopyBytes
        (by simp only [ReadCall.step, hpc, hempty, Bool.false_eq_true, if_false]) hknows
        (by simp only [ReadCall.copied, hpc])
  | useTest =>
    simp only [ReadCall.Knows, hpc] at hknows
    exact h.goto (.useReturn (rx.buf.ring.head ≤ rx.buf.ring.tail)) c.retCopyBytes
      (by simp only [ReadCall.step, hpc])
      ⟨hknows.1, hknows.2, fun hbelow => Nat.lt_of_not_le (of_decide_eq_false hbelow)⟩
      (by simp only [ReadCall.copied, hpc])
  | _ =>
    simp only [ReadCall.step, hpc]
    exact ⟨h, rfl, rfl, rfl⟩

end DiegOS.Drivers
