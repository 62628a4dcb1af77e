import DiegOS.Lib.ByteMemory
import DiegOS.Lib.Traces

/-!
# Loopback driver

The packet buffer of `local_loop.c`: packets stand behind one another, each after a word
with its size.  Positions count words, sizes count bytes.

Main results:

- Theorem `Stored.append`: a packet that fits is stored behind the others.
- Theorem `fifo_delivers`: what a queue of packets has answered is what it was sent, in order.
- Theorem `loop_contract`: packets come out in order as long as they fit and no waiting
  reader gets a packet larger than its buffer.
- Theorem `loop_contract_broken`: what happens otherwise.
-/

namespace DiegOS.Drivers

open Lib

namespace LocalLoop

def SHRT_MAX : Nat := 32767

/-- `sizeof (lo_buffer)` -/
def bufferBytes : Nat := 4 * (SHRT_MAX / 4 + 1)

/-- `lo_drv.mtu` -/
def mtu : Nat := SHRT_MAX

/-- The payload of a packet; its size is a `uint16_t`. -/
structure Packet where
  payload : List UInt8
  size_lt : payload.length < 2 ^ 16
deriving DecidableEq

/-- `data_payload_size` -/
def Packet.size (p : Packet) : Nat := p.payload.length

/-- The answers of the driver. -/
inductive Status where
  | EOK
  | EIO
  | EINVAL
  | ENOBUFS
  | EPACKSIZE
deriving DecidableEq, Repr

/-- Bytes of `lo_buffer` that are read or written. -/
structure Access where
  offset : Nat
  length : Nat
deriving DecidableEq, Repr

/-- The driver: `lo_buffer`, with the memory behind it, and its positions. -/
structure Driver where
  buffer : Bytes
  head : Nat
  tail : Nat

/-- `lo_buffer[i]` -/
def word (b : Bytes) (i : Nat) : Nat := le32 b (4 * i)

/-- `lo_buffer[i] = n` -/
def setWord (b : Bytes) (i n : Nat) : Bytes := memcpy b (4 * i) (byteOf n) 0 4

/-- The bytes of a call: the answer, if it returned, the bytes accessed, the packet copied with
the size of the buffer it went to, and the sizes reported. -/
structure Output where
  status : Option Status
  accesses : List Access
  copied : Option (Nat × List UInt8)
  sizes : List Nat
deriving DecidableEq, Repr

namespace Driver

def loTx (s : Driver) (buf : Option Packet) : Driver × Output :=
  match buf with
  | none => (s, ⟨some .ENOBUFS, [], none, []⟩)
  | some p =>
    if bufferBytes < s.tail + (p.size + 8) / 4 then (s, ⟨some .ENOBUFS, [], none, []⟩)
    else if mtu < p.size then (s, ⟨some .EPACKSIZE, [], none, []⟩)
    else
      ({ s with
          buffer := memcpy (setWord s.buffer s.tail p.size) (4 * (s.tail + 1))
            (ofList p.payload) 0 p.size
          tail := s.tail + (p.size + 8) / 4 },
        ⟨some .EOK, [⟨4 * s.tail, 4⟩, ⟨4 * (s.tail + 1), p.size⟩], none, []⟩)

/-- `lo_rx` from the wait on, for a buffer of `dataSize` bytes. -/
def loRxCopy (s : Driver) (dataSize : Nat) : Driver × Output :=
  if s.tail = s.head then (s, ⟨none, [], none, []⟩)
  else
    let size := word s.buffer s.head
    let copied := (List.range size).map fun j => s.buffer (4 * (s.head + 1) + j)
    let payloadSize := size % 2 ^ 16
    let head := s.head + (payloadSize + 8) / 4
    ({ s with
        head := if head = s.tail then 0 else head
        tail := if head = s.tail then 0 else s.tail },
      ⟨some .EOK, [⟨4 * s.head, 4⟩, ⟨4 * (s.head + 1), size⟩], some (dataSize, copied), []⟩)

/-- `lo_rx`, for a packet with `data_size`. -/
def loRx (s : Driver) (buf : Option Nat) : Driver × Output :=
  match buf with
  | none => (s, ⟨some Status.EIO, [], none, []⟩)
  | some dataSize =>
    if dataSize < word s.buffer s.head then
      (s, ⟨some .EPACKSIZE, [⟨4 * s.head, 4⟩], none, []⟩)
    else
      let (s', out) := s.loRxCopy dataSize
      (s', { out with accesses := ⟨4 * s.head, 4⟩ :: out.accesses })

/-- The loop of `lo_peak`. -/
def peakFrom (s : Driver) : Nat → Nat → List Nat × List Access
  | _, 0 => ([], [])
  | lochead, items + 1 =>
    if lochead = s.tail then ([], [])
    else
      let (sizes, accesses) := peakFrom s (lochead + (word s.buffer lochead + 8) / 4) items
      (word s.buffer lochead :: sizes, ⟨4 * lochead, 4⟩ :: accesses)

def loPeak (s : Driver) (bsize : Bool) (items : Nat) : Output :=
  if !bsize || items == 0 then ⟨some .EINVAL, [], none, []⟩
  else ⟨some .EOK, (s.peakFrom s.head items).2, none, (s.peakFrom s.head items).1⟩

end Driver

/-! ## Calls -/

/-- The calls on the driver, and a return of `thread_io_wait` in a waiting reader. -/
inductive Call where
  | tx (buf : Option Packet)
  | rx (reader : Nat) (buf : Option Nat)
  | woken (reader : Nat)
  | peak (bsize : Bool) (items : Nat)
deriving DecidableEq

/-- The driver with the buffer sizes of the readers that wait. -/
structure System where
  driver : Driver
  waiting : Nat → Option Nat

/-- A call; a reader that waits makes none. -/
def step (s : System) : Call → Option (System × Output)
  | .tx buf => some ({ s with driver := (s.driver.loTx buf).1 }, (s.driver.loTx buf).2)
  | .rx reader buf =>
    match s.waiting reader with
    | some _ => none
    | none =>
      let (d, out) := s.driver.loRx buf
      if out.status = none then
        some (⟨d, Function.update s.waiting reader buf⟩, out)
      else some ({ s with driver := d }, out)
  | .woken reader =>
    match s.waiting reader with
    | none => none
    | some dataSize =>
      let (d, out) := s.driver.loRxCopy dataSize
      if out.status = none then some (s, out)
      else some (⟨d, Function.update s.waiting reader none⟩, out)
  | .peak bsize items => some (s, s.driver.loPeak bsize items)

/-- The driver at the start. -/
def start : System := ⟨⟨fun _ => 0, 0, 0⟩, fun _ => none⟩

/-! ## What the driver is for -/

/-- The words a packet takes. -/
def words (n : Nat) : Nat := (n + 8) / 4

/-- The packets sent and not read, in order, and the words that have been used for packets since
there was none. -/
structure Fifo where
  packets : List (List UInt8)
  used : Nat

namespace Fifo

/-- No packet, and no word used. -/
def empty : Fifo := ⟨[], 0⟩

/-- A packet is put behind the others. -/
def put (f : Fifo) (p : List UInt8) : Fifo := ⟨f.packets ++ [p], f.used + words p.length⟩

/-- The packets that are left when the first is taken. -/
def left (f : Fifo) (rest : List (List UInt8)) : Fifo := ⟨rest, if rest = [] then 0 else f.used⟩

/-- The packet fits behind the words used. -/
def HasRoom (f : Fifo) (p : Packet) : Prop := 4 * (f.used + 1) + p.size ≤ bufferBytes

end Fifo

/-- A queue of packets answers: every packet up to the MTU that has room is accepted, and others
are refused; readers get the first packet if their buffer has room for it, and wait for one. -/
inductive Serves (f : Fifo) : Call → Output → Fifo → Prop where
  | accepted (p : Packet) (accesses : List Access) (hsize : p.size ≤ mtu) (hroom : f.HasRoom p) :
      Serves f (.tx (some p)) ⟨some .EOK, accesses, none, []⟩ (f.put p.payload)
  | noBuffer : Serves f (.tx none) ⟨some .ENOBUFS, [], none, []⟩ f
  | full (p : Packet) (hfull : ¬f.HasRoom p) :
      Serves f (.tx (some p)) ⟨some .ENOBUFS, [], none, []⟩ f
  | tooLarge (p : Packet) (hsize : mtu < p.size) :
      Serves f (.tx (some p)) ⟨some .EPACKSIZE, [], none, []⟩ f
  | received (reader dataSize : Nat) (p : List UInt8) (rest : List (List UInt8))
      (accesses : List Access) (hqueue : f.packets = p :: rest) (hfits : p.length ≤ dataSize) :
      Serves f (.rx reader (some dataSize))
        ⟨some .EOK, accesses, some (dataSize, p), []⟩ (f.left rest)
  | tooSmall (reader dataSize : Nat) (p : List UInt8) (rest : List (List UInt8))
      (accesses : List Access) (hqueue : f.packets = p :: rest) (hsmall : dataSize < p.length) :
      Serves f (.rx reader (some dataSize)) ⟨some .EPACKSIZE, accesses, none, []⟩ f
  | noPacket (reader : Nat) : Serves f (.rx reader none) ⟨some Status.EIO, [], none, []⟩ f
  | waits (reader dataSize : Nat) (accesses : List Access) (hqueue : f.packets = []) :
      Serves f (.rx reader (some dataSize)) ⟨none, accesses, none, []⟩ f
  | resumed (reader dataSize : Nat) (p : List UInt8) (rest : List (List UInt8))
      (accesses : List Access) (hqueue : f.packets = p :: rest) (hfits : p.length ≤ dataSize) :
      Serves f (.woken reader) ⟨some .EOK, accesses, some (dataSize, p), []⟩ (f.left rest)
  | waitsAgain (reader : Nat) (hqueue : f.packets = []) :
      Serves f (.woken reader) ⟨none, [], none, []⟩ f
  | peaked (items : Nat) (accesses : List Access) (hitems : items ≠ 0) :
      Serves f (.peak true items)
        ⟨some .EOK, accesses, none, (f.packets.take items).map List.length⟩ f
  | nothingToPeak (bsize : Bool) (items : Nat) (hbad : bsize = false ∨ items = 0) :
      Serves f (.peak bsize items) ⟨some .EINVAL, [], none, []⟩ f

/-- The answer is allowed and no byte outside of `lo_buffer` is accessed. -/
def Good (f : Fifo) (call : Call) (out : Output) (f' : Fifo) : Prop :=
  Serves f call out f' ∧ ∀ a ∈ out.accesses, a.offset + a.length ≤ bufferBytes

/-- The payload of a packet that is accepted. -/
def sent : Call × Output → Option (List UInt8)
  | (.tx (some p), out) => if out.status = some .EOK then some p.payload else none
  | _ => none

/-- The payload that is copied to a reader. -/
def delivered (e : Call × Output) : Option (List UInt8) := e.2.copied.map Prod.snd

/-- What a queue of packets has answered is what it was sent, in order. -/
theorem fifo_delivers {f f' : Fifo} {l : List (Call × Output)} (h : Accepts Good f l f') :
    f.packets ++ l.filterMap sent = l.filterMap delivered ++ f'.packets := by
  induction h with
  | nil f => simp
  | cons hallowed hrest ih =>
    rw [List.filterMap_cons, List.filterMap_cons]
    cases hallowed.1 with
    | accepted p accesses hsize hroom =>
      simpa [sent, delivered, Fifo.put] using ih
    | received reader dataSize p rest accesses hqueue hfits =>
      simpa [sent, delivered, Fifo.left, hqueue] using ih
    | resumed reader dataSize p rest accesses hqueue hfits =>
      simpa [sent, delivered, Fifo.left, hqueue] using ih
    | noBuffer | full | tooLarge | tooSmall | noPacket | waits | waitsAgain | peaked
    | nothingToPeak => simpa [sent, delivered] using ih

/-! ## Packets in the buffer -/

/-- The packets between two positions. -/
def Stored (b : Bytes) : Nat → Nat → List (List UInt8) → Prop
  | h, t, [] => h = t
  | h, t, p :: ps =>
    p.length < 2 ^ 16 ∧ word b h = p.length ∧
      (List.range p.length).map (fun j => b (4 * (h + 1) + j)) = p ∧
      4 * (h + 1) + p.length ≤ bufferBytes ∧ Stored b (h + words p.length) t ps

lemma words_bound (n : Nat) : n + 4 < 4 * words n := by
  unfold words
  omega

lemma Stored.le {b : Bytes} {ps : List (List UInt8)} :
    ∀ {h t : Nat}, Stored b h t ps → h ≤ t := by
  induction ps with
  | nil =>
    intro h t hst
    exact Nat.le_of_eq hst
  | cons p ps ih =>
    intro h t hst
    have hrest := ih hst.2.2.2.2
    omega

/-- Some packet is stored exactly when the positions differ. -/
lemma Stored.eq_nil_iff {b : Bytes} {ps : List (List UInt8)} {h t : Nat}
    (hst : Stored b h t ps) : ps = [] ↔ t = h := by
  cases ps with
  | nil => exact ⟨fun _ => Eq.symm hst, fun _ => rfl⟩
  | cons p ps =>
    have hle := Stored.le hst.2.2.2.2
    have hwords := words_bound p.length
    constructor
    · intro hnil
      cases hnil
    · intro heq
      omega

lemma word_congr {b b' : Bytes} {i : Nat} (h : ∀ a < 4 * i + 4, b' a = b a) :
    word b' i = word b i := by
  unfold word le32 le16
  rw [h (4 * i) (by omega), h (4 * i + 1) (by omega), h (4 * i + 2) (by omega),
    h (4 * i + 2 + 1) (by omega)]

/-- Bytes behind the last packet are free to change. -/
lemma Stored.congr {b b' : Bytes} {ps : List (List UInt8)} :
    ∀ {h t : Nat}, Stored b h t ps → (∀ a < 4 * t, b' a = b a) → Stored b' h t ps := by
  induction ps with
  | nil =>
    intro h t hst hsame
    exact hst
  | cons p ps ih =>
    intro h t hst hsame
    rcases hst with ⟨hlen, hword, hbytes, hfits, hrest⟩
    have hle := Stored.le hrest
    have hwords := words_bound p.length
    apply And.intro hlen
    constructor
    · rw [word_congr (fun a ha => hsame a (by omega)), hword]
    · constructor
      · rw [← hbytes]
        simp only [List.length_map, List.length_range]
        apply List.map_congr_left
        intro j hj
        rw [List.mem_range] at hj
        exact hsame _ (by omega)
      · exact ⟨hfits, ih hrest hsame⟩

lemma word_setWord (b : Bytes) (i : Nat) {n : Nat} (hn : n < 2 ^ 32) :
    word (setWord b i n) i = n := by
  unfold word setWord
  apply le32_put hn
  intro j hj
  rw [memcpy_apply_mem (by omega) (by omega)]
  congr 1
  omega

/-- A packet that fits is stored behind the others. -/
theorem Stored.append {b : Bytes} {ps : List (List UInt8)} {p : Packet} {t : Nat}
    (hfits : 4 * (t + 1) + p.size ≤ bufferBytes) :
    ∀ {h : Nat}, Stored b h t ps →
      Stored (memcpy (setWord b t p.size) (4 * (t + 1)) (ofList p.payload) 0 p.size) h
        (t + words p.size) (ps ++ [p.payload]) := by
  have hsize := p.size_lt
  induction ps with
  | nil =>
    intro h hst
    cases hst
    apply And.intro hsize
    constructor
    · have hsame : ∀ a < 4 * t + 4,
          memcpy (setWord b t p.size) (4 * (t + 1)) (ofList p.payload) 0 p.size a =
            setWord b t p.size a := by
        intro a ha
        exact memcpy_apply_not_mem (.inl (by omega))
      rw [word_congr hsame]
      exact word_setWord b t (by unfold Packet.size; omega)
    · apply And.intro _ ⟨hfits, rfl⟩
      apply List.ext_getElem
      · simp
      · intro j hj hj'
        rw [List.getElem_map, List.getElem_range,
          memcpy_apply_mem (by omega) (by unfold Packet.size; omega)]
        have hindex : 0 + (4 * (t + 1) + j - 4 * (t + 1)) = j := by omega
        rw [hindex, ofList, List.getD_eq_getElem?_getD, List.getElem?_eq_getElem hj',
          Option.getD_some]
  | cons q ps ih =>
    intro h hst
    have hsame : ∀ a < 4 * t,
        memcpy (setWord b t p.size) (4 * (t + 1)) (ofList p.payload) 0 p.size a = b a := by
      intro a ha
      rw [memcpy_apply_not_mem (.inl (by omega)), setWord, memcpy_apply_not_mem (.inl (by omega))]
    have hkept := hst.congr hsame
    exact ⟨hkept.1, hkept.2.1, hkept.2.2.1, hkept.2.2.2.1, ih hst.2.2.2.2⟩

/-- The first packet is read as it was stored. -/
lemma Stored.first {b : Bytes} {h t : Nat} {p : List UInt8} {ps : List (List UInt8)}
    (hst : Stored b h t (p :: ps)) :
    (List.range (word b h)).map (fun j => b (4 * (h + 1) + j)) = p := by
  rw [hst.2.1]
  exact hst.2.2.1

/-! ## Steps -/

/-- The driver holds a queue of packets, and is at the start of the buffer with none. -/
structure Holds (d : Driver) (f : Fifo) : Prop where
  stored : Stored d.buffer d.head d.tail f.packets
  used : f.used = d.tail
  reset : f.packets = [] → d.head = 0

/-- What keeps the driver right: a packet sent fits in the bytes behind the others, a reader that
finds no packet has room for the size of a former one, and the packet that ends a wait fits the
buffer of its reader. -/
def Fits (s : System) : Call → Prop
  | .tx (some p) =>
    s.driver.tail + (p.size + 8) / 4 ≤ bufferBytes → p.size ≤ mtu →
      4 * (s.driver.tail + 1) + p.size ≤ bufferBytes
  | .rx _ (some dataSize) =>
    s.driver.tail = s.driver.head → word s.driver.buffer s.driver.head ≤ dataSize
  | .woken reader =>
    ∀ dataSize, s.waiting reader = some dataSize → s.driver.tail ≠ s.driver.head →
      word s.driver.buffer s.driver.head ≤ dataSize
  | _ => True

lemma loTx_good {d d' : Driver} {f : Fifo} {buf : Option Packet} {out : Output}
    (hholds : Holds d f)
    (hfits : ∀ p, buf = some p → d.tail + (p.size + 8) / 4 ≤ bufferBytes → p.size ≤ mtu →
      4 * (d.tail + 1) + p.size ≤ bufferBytes) (hcall : d.loTx buf = (d', out)) :
    ∃ f', Good f (.tx buf) out f' ∧ Holds d' f' := by
  cases buf with
  | none =>
    cases hcall
    exact ⟨f, ⟨.noBuffer, by simp⟩, hholds⟩
  | some p =>
    have hroom : f.HasRoom p ↔ 4 * (d.tail + 1) + p.size ≤ bufferBytes := by
      rw [Fifo.HasRoom, hholds.used]
    simp only [Driver.loTx] at hcall
    split at hcall
    · next hover =>
        cases hcall
        refine ⟨f, ⟨.full p fun hin => ?_, by simp⟩, hholds⟩
        have hbytes := hroom.mp hin
        omega
    · split at hcall
      · next hlarge =>
          cases hcall
          exact ⟨f, ⟨.tooLarge p hlarge, by simp⟩, hholds⟩
      · next hover hmtu =>
          cases hcall
          have hbytes := hfits p rfl (by omega) (by omega)
          apply Exists.intro (f.put p.payload)
          constructor
          · apply And.intro (.accepted p _ (by omega) (hroom.mpr hbytes))
            intro a ha
            simp only [List.mem_cons, List.not_mem_nil, or_false] at ha
            rcases ha with rfl | rfl
            · dsimp only
              omega
            · exact hbytes
          · constructor
            · exact hholds.stored.append hbytes
            · exact congrArg (· + words p.payload.length) hholds.used
            · intro hnil
              exact absurd hnil (by simp [Fifo.put])

/-- The copy of a packet that fits the buffer of its reader. -/
lemma loRxCopy_good {d d' : Driver} {f : Fifo} {dataSize : Nat} {out : Output}
    (hholds : Holds d f) (hfits : d.tail ≠ d.head → word d.buffer d.head ≤ dataSize)
    (hcall : d.loRxCopy dataSize = (d', out)) :
    (f.packets = [] ∧ d' = d ∧ out = ⟨none, [], none, []⟩) ∨
      ∃ p rest accesses, f.packets = p :: rest ∧ p.length ≤ dataSize ∧
        out = ⟨some .EOK, accesses, some (dataSize, p), []⟩ ∧
        (∀ a ∈ accesses, a.offset + a.length ≤ bufferBytes) ∧ Holds d' (f.left rest) := by
  rcases f with ⟨q, used⟩
  unfold Driver.loRxCopy at hcall
  have hempty : q = [] ↔ d.tail = d.head := hholds.stored.eq_nil_iff
  cases q with
  | nil =>
    rw [if_pos (hempty.mp rfl)] at hcall
    cases hcall
    exact .inl ⟨rfl, rfl, rfl⟩
  | cons p rest =>
    right
    have hne : d.tail ≠ d.head := fun heq => absurd (hempty.mpr heq) (by simp)
    rw [if_neg hne] at hcall
    cases hcall
    have hword : word d.buffer d.head = p.length := hholds.stored.2.1
    have hlen : p.length < 2 ^ 16 := hholds.stored.1
    have hin : 4 * (d.head + 1) + p.length ≤ bufferBytes := hholds.stored.2.2.2.1
    have hrest : Stored d.buffer (d.head + words p.length) d.tail rest := hholds.stored.2.2.2.2
    apply Exists.intro p
    apply Exists.intro rest
    apply Exists.intro [⟨4 * d.head, 4⟩, ⟨4 * (d.head + 1), word d.buffer d.head⟩]
    refine ⟨rfl, ?_, ?_, ?_, ?_⟩
    · rw [← hword]
      exact hfits hne
    · exact congrArg (fun copied => Output.mk _ _ (some (dataSize, copied)) _)
        hholds.stored.first
    · intro a ha
      simp only [List.mem_cons, List.not_mem_nil, or_false] at ha
      rcases ha with rfl | rfl
      · dsimp only
        omega
      · rw [hword]
        exact hin
    · rw [hword, Nat.mod_eq_of_lt hlen]
      change Holds ⟨d.buffer, if d.head + words p.length = d.tail then 0 else _,
        if d.head + words p.length = d.tail then 0 else _⟩ ⟨rest, if rest = [] then 0 else used⟩
      have hback := hrest.eq_nil_iff
      by_cases hlast : d.head + words p.length = d.tail
      · rw [if_pos hlast, if_pos hlast, hback.mpr hlast.symm, if_pos rfl]
        exact ⟨rfl, rfl, fun _ => rfl⟩
      · have hleft : rest ≠ [] := fun hnil => hlast (hback.mp hnil).symm
        rw [if_neg hlast, if_neg hlast, if_neg hleft]
        exact ⟨hrest, hholds.used, fun hnil => absurd hnil hleft⟩

/-- The sizes of the packets from a position on. -/
lemma peakFrom_of_stored {d : Driver} (items : Nat) :
    ∀ {h : Nat} {q : List (List UInt8)}, Stored d.buffer h d.tail q →
      (d.peakFrom h items).1 = (q.take items).map List.length ∧
        ∀ a ∈ (d.peakFrom h items).2, a.offset + a.length ≤ bufferBytes := by
  induction items with
  | zero =>
    intro h q hst
    exact ⟨rfl, by simp [Driver.peakFrom]⟩
  | succ items ih =>
    intro h q hst
    have hempty := hst.eq_nil_iff
    cases q with
    | nil =>
      simp only [Driver.peakFrom, if_pos (hempty.mp rfl).symm]
      exact ⟨rfl, by simp⟩
    | cons p q =>
      have hne : h ≠ d.tail := fun heq => absurd (hempty.mpr heq.symm) (by simp)
      have hrest := ih hst.2.2.2.2
      simp only [words] at hrest
      simp only [Driver.peakFrom, if_neg hne, hst.2.1]
      constructor
      · rw [hrest.1]
        rfl
      · intro a ha
        rcases List.mem_cons.mp ha with rfl | hin
        · have hin := hst.2.2.2.1
          dsimp only
          omega
        · exact hrest.2 a hin

/-- Every step answers as the queue of packets does. -/
lemma step_good {s s' : System} {f : Fifo} {call : Call} {out : Output}
    (hholds : Holds s.driver f) (hfits : Fits s call) (hstep : step s call = some (s', out)) :
    ∃ f', Good f call out f' ∧ Holds s'.driver f' := by
  cases call with
  | tx buf =>
    rcases hstep with ⟨rfl, rfl⟩
    apply loTx_good hholds _ rfl
    rintro p rfl
    exact hfits
  | rx reader buf =>
    simp only [step] at hstep
    split at hstep
    · cases hstep
    · cases buf with
      | none =>
        simp only [Driver.loRx] at hstep
        cases hstep
        exact ⟨f, ⟨.noPacket reader, by simp⟩, hholds⟩
      | some dataSize =>
        simp only [Driver.loRx] at hstep
        split at hstep
        · next hsmall =>
            cases hstep
            rcases hpackets : f.packets with _ | ⟨p, rest⟩
            · -- the word of a former packet is within the reader's buffer
              have hstale := hfits (hholds.stored.eq_nil_iff.mp hpackets)
              omega
            · have hstored := hholds.stored
              rw [hpackets] at hstored
              apply Exists.intro f
              apply And.intro _ hholds
              rw [hstored.2.1] at hsmall
              apply And.intro (.tooSmall reader dataSize p rest _ hpackets hsmall)
              have hin := hstored.2.2.2.1
              simp only [List.mem_singleton, forall_eq]
              omega
        · next hsize =>
            rcases hcopy : s.driver.loRxCopy dataSize with ⟨d, out'⟩
            rw [hcopy] at hstep
            rcases loRxCopy_good hholds (fun _ => by omega) hcopy with
              ⟨hpackets, rfl, rfl⟩ | ⟨p, rest, accesses, hpackets, hlen, rfl, hin, hholds'⟩
            · cases hstep
              apply Exists.intro f
              apply And.intro _ hholds
              apply And.intro (.waits reader dataSize _ hpackets)
              rw [hholds.reset hpackets]
              simp [bufferBytes]
            · cases hstep
              apply Exists.intro (f.left rest)
              apply And.intro _ hholds'
              apply And.intro (.received reader dataSize p rest _ hpackets hlen)
              have hstored := hholds.stored
              rw [hpackets] at hstored
              intro a ha
              rcases List.mem_cons.mp ha with rfl | ha
              · have hfirst := hstored.2.2.2.1
                dsimp only
                omega
              · exact hin a ha
  | woken reader =>
    simp only [step] at hstep
    split at hstep
    · cases hstep
    · next dataSize hwaiting =>
        rcases hcopy : s.driver.loRxCopy dataSize with ⟨d, out'⟩
        rw [hcopy] at hstep
        rcases loRxCopy_good hholds (hfits dataSize hwaiting) hcopy with
          ⟨hpackets, rfl, rfl⟩ | ⟨p, rest, accesses, hpackets, hlen, rfl, hin, hholds'⟩
        · cases hstep
          exact ⟨f, ⟨.waitsAgain reader hpackets, by simp⟩, hholds⟩
        · cases hstep
          exact ⟨f.left rest, ⟨.resumed reader dataSize p rest _ hpackets hlen, hin⟩, hholds'⟩
  | peak bsize items =>
    rcases hstep with ⟨rfl, rfl⟩
    apply Exists.intro f
    apply And.intro _ hholds
    have hpeak := peakFrom_of_stored items hholds.stored
    unfold Driver.loPeak
    split
    · next hbad =>
        have hbad' : bsize = false ∨ items = 0 := by simpa using hbad
        exact ⟨.nothingToPeak bsize items hbad', by simp⟩
    · next hgood =>
        have hgood' : bsize = true ∧ items ≠ 0 := by simpa using hgood
        rw [hgood'.1, hpeak.1]
        exact ⟨.peaked items _ hgood'.2, hpeak.2⟩

/-- As long as every packet sent fits, no reader of an empty buffer is refused for the size of a
former packet, and every packet that ends a wait fits its reader, the driver answers as a queue
of packets and stays in its buffer: the payloads delivered and those left are those sent. -/
theorem loop_contract {s : System} {l : List (Call × Output)}
    (htrace : Trace step Fits start l s) :
    ∃ f, Accepts Good .empty l f ∧
      l.filterMap sent = l.filterMap delivered ++ f.packets := by
  have hstart : Holds start.driver .empty := ⟨rfl, rfl, fun _ => rfl⟩
  rcases htrace.refines (R := fun s f => Holds s.driver f)
    (fun a f i b o hholds hfits hstep => step_good hholds hfits hstep) hstart with
    ⟨f, haccepts, -⟩
  exact ⟨f, haccepts, fifo_delivers haccepts⟩

/-- A packet is sent, its size is looked up, and it is read. -/
theorem loop_contract_delivery :
    ∃ l s f, Trace step Fits start l s ∧ Accepts Good .empty l f ∧
      l.filterMap sent = l.filterMap delivered ++ f.packets ∧
      l.map (fun e => (e.2.sizes, e.2.copied)) =
        [([], none), ([3], none), ([], some (4, [1, 2, 3]))] := by
  have hsend : Fits start (.tx (some ⟨[1, 2, 3], by decide⟩)) := fun _ _ => by decide
  have hpeak (s : System) : Fits s (.peak true 5) := trivial
  have hread : Fits ⟨(start.driver.loTx (some ⟨[1, 2, 3], by decide⟩)).1, start.waiting⟩
      (.rx 0 (some 4)) := fun heq => absurd heq (by decide)
  have htrace : Trace step Fits start _ _ :=
    .cons hsend rfl (.cons (hpeak _) rfl (.cons hread rfl (.nil _)))
  rcases loop_contract htrace with ⟨f, haccepts, hpayloads⟩
  exact ⟨_, _, f, htrace, haccepts, hpayloads, rfl⟩

/-- A packet of zeros. -/
def zeros (n : Nat) (hn : n < 2 ^ 16) : Packet := ⟨List.replicate n 0, by simpa using hn⟩

/-- A packet that is not refused is written behind the others. -/
lemma loTx_zeros {d : Driver} {n : Nat} (hn : n < 2 ^ 16) (hmtu : n ≤ mtu)
    (hroom : d.tail + (n + 8) / 4 ≤ bufferBytes) :
    (d.loTx (some (zeros n hn))).2 =
        ⟨some .EOK, [⟨4 * d.tail, 4⟩, ⟨4 * (d.tail + 1), n⟩], none, []⟩ ∧
      (d.loTx (some (zeros n hn))).1.tail = d.tail + (n + 8) / 4 := by
  have hsize : (zeros n hn).size = n := by simp [zeros, Packet.size]
  simp only [Driver.loTx, hsize, if_neg (Nat.not_lt.mpr hroom), if_neg (Nat.not_lt.mpr hmtu)]
  exact ⟨trivial, trivial⟩

/-- Two packets that pass the test on words but not in bytes. -/
lemma not_accepts_of_two {n : Nat} (hn : n < 2 ^ 16) (hmtu : n ≤ mtu)
    (hroom : 2 * ((n + 8) / 4) ≤ bufferBytes) (hover : bufferBytes < 4 * ((n + 8) / 4 + 1) + n) :
    ∃ l s, Trace step (fun _ _ => True) start l s ∧
      l.map Prod.fst = [.tx (some (zeros n hn)), .tx (some (zeros n hn))] ∧
        ¬ ∃ f, Accepts Good .empty l f := by
  have hfirst := loTx_zeros (d := start.driver) hn hmtu (by simp only [start]; omega)
  have hsecond := loTx_zeros (d := (start.driver.loTx (some (zeros n hn))).1) hn hmtu
    (by rw [hfirst.2]; simp only [start]; omega)
  refine ⟨_, _, .cons trivial rfl (.cons trivial rfl (.nil _)), rfl, ?_⟩
  rintro ⟨q, haccepts⟩
  rcases haccepts.exists_allowed (.tail _ (.head _)) with
    ⟨q, r, -, hinside⟩
  rw [hsecond.1, hfirst.2] at hinside
  have hlast := hinside ⟨4 * (0 + (n + 8) / 4 + 1), n⟩ (by simp [start])
  dsimp only at hlast
  omega

/-- A reader that waits with an empty buffer gets a byte, and of two packets of 20000 bytes the
second goes beyond the buffer. -/
theorem loop_contract_broken :
    (∃ l s, Trace step (fun _ _ => True) start l s ∧
      l.map Prod.fst = [.rx 0 (some 0), .tx (some ⟨[7], by decide⟩), .woken 0] ∧
        ¬ ∃ f, Accepts Good .empty l f) ∧
    ∃ l s, Trace step (fun _ _ => True) start l s ∧
      l.map Prod.fst =
          [.tx (some (zeros 20000 (by decide))), .tx (some (zeros 20000 (by decide)))] ∧
        ¬ ∃ f, Accepts Good .empty l f := by
  constructor
  · let calls : List Call := [.rx 0 (some 0), .tx (some ⟨[7], by decide⟩), .woken 0]
    refine ⟨_, _, Trace.of_calls calls rfl, rfl, ?_⟩
    rintro ⟨q, haccepts⟩
    have hmem : (Call.woken 0, (⟨some .EOK, [⟨0, 4⟩, ⟨4, 1⟩], some (0, [7]), []⟩ : Output)) ∈
        [(Call.rx 0 (some 0), (⟨none, [⟨0, 4⟩], none, []⟩ : Output)),
          (.tx (some ⟨[7], by decide⟩), ⟨some .EOK, [⟨0, 4⟩, ⟨4, 1⟩], none, []⟩),
          (.woken 0, ⟨some .EOK, [⟨0, 4⟩, ⟨4, 1⟩], some (0, [7]), []⟩)] := by simp
    rcases haccepts.exists_allowed hmem with ⟨q, r, hserves, -⟩
    cases hserves with
    | resumed _ _ _ _ _ _ hfits => exact absurd hfits (by decide)
  · exact not_accepts_of_two (by decide) (by decide) (by decide) (by decide)

end LocalLoop
end DiegOS.Drivers
