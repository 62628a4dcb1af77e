import DiegOS.Lib.RingBuffer
import DiegOS.Lib.Spans
import DiegOS.Support.Words

/-!
# The packet manager

`pakman.c`: the descriptors of the packets are a circular buffer, their data lie one
behind the other in a storage that is used in a circle too.

Main results:

- Theorem `put_all_iff`: in which order the packets can be put back.
-/

namespace DiegOS.Support

open Lib Span Function

/-! ## The code -/

/-- `struct packet_int` -/
structure PacketInt where
  data : Nat
  dataPayloadStart : Nat
  dataPayloadCursor : Nat
  dataPayloadSize : Nat
  dataSize : Nat
  chunks : Nat
deriving DecidableEq

/-- `pakman` without its flags. -/
structure Pakman where
  packetsNumber : Nat
  storageFreeChunks : Nat
  pkts : Nat → PacketInt
  pktsHead : Nat
  pktsTail : Nat
  storage : Nat
  storageFirstChunk : Nat
  storageNextChunk : Nat
  storageLastChunk : Nat

/-- A descriptor of `calloc` or `memset`. -/
def clearPacket : PacketInt := ⟨0, 0, 0, 0, 0, 0⟩

namespace Pakman

def spaceInPacket (pk : Pakman) : Nat :=
  if pk.pktsHead = pk.pktsTail then sub pk.packetsNumber 1
  else if pk.pktsHead < pk.pktsTail then
    sub (pk.pktsHead + pk.packetsNumber) (pk.pktsTail + 1)
  else sub pk.pktsHead (pk.pktsTail + 1)

def spaceInStorage (pk : Pakman) : Nat := pk.storageFreeChunks

/-- `init_pakman`, where `calloc` gives the storage its address; none if an
allocation fails. -/
def init (bytes packets : UInt32) (calloc : Option Nat) : Option Pakman × Status :=
  if bytes = 0 ∨ packets = 0 then (none, .EINVAL)
  else
    let slotNum := alnc bytes.toNat / CACHE_ALN
    let packets := if slotNum < packets.toNat then slotNum else packets.toNat
    match calloc with
    | none => (none, .ENOMEM)
    | some storage =>
      (some {
        packetsNumber := packets % 2 ^ 16
        storageFreeChunks := slotNum
        pkts := fun _ => clearPacket
        pktsHead := 0
        pktsTail := 0
        storage
        storageFirstChunk := alnc storage
        storageNextChunk := alnc storage
        storageLastChunk := (alnc storage + CACHE_ALN * slotNum) % WORD }, .EOK)

/-- The length of a packet as `pakman_get_packet` rounds it. -/
def roundLen (len : UInt16) : Nat := alnc len.toNat % 2 ^ 16

/-- `pakman_get_packet`; the packet is its place in the buffer.  None if a division by
zero stops the code. -/
def getPacket (pk : Pakman) (len : UInt16) : Option (Pakman × Option Nat) :=
  if pk.spaceInPacket = 0 ∨ pk.spaceInStorage = 0 then some (pk, none)
  else if CACHE_ALN * pk.spaceInStorage % WORD < roundLen len then some (pk, none)
  else if pk.packetsNumber = 0 then none
  else
    let next := (pk.storageNextChunk + roundLen len) % WORD
    some ({ pk with
      pkts := Function.update pk.pkts pk.pktsTail {
        data := pk.storageNextChunk
        dataPayloadStart := pk.storageNextChunk
        dataPayloadCursor := pk.storageNextChunk
        dataPayloadSize := roundLen len
        dataSize := roundLen len
        chunks := roundLen len / CACHE_ALN }
      pktsTail := (pk.pktsTail + 1) % pk.packetsNumber
      storageFreeChunks := sub pk.storageFreeChunks (roundLen len / CACHE_ALN)
      storageNextChunk := if next = pk.storageLastChunk then pk.storageFirstChunk else next },
      some pk.pktsTail)

/-- `pakman_put_packet`; none if a division by zero stops the code. -/
def putPacket (pk : Pakman) (ptr : Nat) : Option (Pakman × Status) :=
  if ptr ≠ pk.pktsHead then some (pk, .EPERM)
  else if pk.packetsNumber = 0 then none
  else
    some ({ pk with
      pktsHead := (pk.pktsHead + 1) % pk.packetsNumber
      storageFreeChunks := (pk.storageFreeChunks + (pk.pkts ptr).chunks) % WORD
      pkts := Function.update pk.pkts ptr clearPacket }, .EOK)

/-- Head and tail of the descriptors. -/
def ring (pk : Pakman) : Ring := ⟨pk.pktsHead, pk.pktsTail, pk.packetsNumber⟩

/-- Put packets back one after the other. -/
def putAll (pk : Pakman) : List Nat → Option (Pakman × List Status)
  | [] => some (pk, [])
  | ptr :: l =>
    (pk.putPacket ptr).bind fun r => (putAll r.1 l).map fun r' => (r'.1, r.2 :: r'.2)

end Pakman

/-! ## The packets that are out -/

/-- A packet that was given: its place and the length that was asked for. -/
structure Given where
  slot : Nat
  len : UInt16
deriving DecidableEq

/-- A packet manager and the packets that are out, the oldest one first. -/
structure Packets where
  pk : Pakman
  out : List Given

/-- A call: get a packet, or put the `k`th packet of those that are out. -/
inductive PakOp where
  | get (len : UInt16)
  | put (k : Nat)

namespace Packets

/-- One call; none if a division by zero stops the code. -/
def exec (s : Packets) : PakOp → Option Packets
  | .get len =>
    (s.pk.getPacket len).map fun r =>
      ⟨r.1, match r.2 with
        | none => s.out
        | some slot => s.out ++ [⟨slot, len⟩]⟩
  | .put k =>
    match s.out[k]? with
    | none => some s
    | some p =>
      (s.pk.putPacket p.slot).map fun r => ⟨r.1, if r.2 = .EOK then s.out.eraseIdx k else s.out⟩

/-- A list of calls. -/
def run (s : Packets) : List PakOp → Option Packets
  | [] => some s
  | op :: ops => (s.exec op).bind fun s => s.run ops

/-- The chunks of the packets that are out. -/
def usedChunks (s : Packets) : Nat := (s.out.map fun p => (s.pk.pkts p.slot).chunks).sum

/-- The descriptors of the packets that are out follow each other from the head to the tail,
and every chunk is free or in one of them. -/
structure Booked (slotNum : Nat) (s : Packets) : Prop where
  word : s.pk.packetsNumber < 2 ^ 16
  chunks : slotNum < 2 ^ 26
  ring : s.pk.ring.Valid ∨ s.pk.packetsNumber = 0 ∧ s.pk.pktsHead = 0 ∧ s.pk.pktsTail = 0
  slots : s.out.map Given.slot = s.pk.ring.positions
  free : s.pk.storageFreeChunks + s.usedChunks = slotNum

variable {s s' : Packets} {slotNum : Nat} {len : UInt16}

lemma word_eq : WORD = 4294967296 := rfl

/-- The free descriptors. -/
lemma spaceInPacket_eq (h : s.pk.ring.Valid) (hword : s.pk.packetsNumber < 2 ^ 16) :
    s.pk.spaceInPacket = s.pk.packetsNumber - 1 - s.pk.ring.inUse := by
  have hhead : s.pk.pktsHead < s.pk.packetsNumber := h.head_lt
  have htail : s.pk.pktsTail < s.pk.packetsNumber := h.tail_lt
  have hwordsize := word_eq
  unfold Pakman.spaceInPacket Ring.inUse Pakman.ring
  dsimp only
  by_cases heq : s.pk.pktsHead = s.pk.pktsTail
  · rw [if_pos heq, if_pos heq.le, sub_eq (by omega) (by omega)]
    omega
  · rw [if_neg heq]
    by_cases hlt : s.pk.pktsHead < s.pk.pktsTail
    · rw [if_pos hlt, if_pos hlt.le, sub_eq (by omega) (by omega)]
      omega
    · rw [if_neg hlt, if_neg (by omega), sub_eq (by omega) (by omega)]
      omega

/-- The places of the packets that are out are different. -/
lemma Booked.nodup (h : s.Booked slotNum) : (s.out.map Given.slot).Nodup := by
  rw [h.slots]
  rcases h.ring with hring | ⟨hzero, hhead, htail⟩
  · exact Ring.positions_nodup hring
  · have hnil : s.pk.ring.positions = [] := by
      simp [Ring.positions, Ring.inUse, Pakman.ring, hhead, htail]
    rw [hnil]
    exact List.nodup_nil

/-- The oldest packet that is out is at the head. -/
lemma Booked.head (h : s.Booked slotNum) {p : Given} {out : List Given}
    (hout : s.out = p :: out) : s.pk.ring.Valid ∧ s.pk.ring.inUse ≠ 0 ∧ p.slot = s.pk.pktsHead ∧
      out.map Given.slot = s.pk.ring.remove.positions := by
  have hslots := h.slots
  rw [hout, List.map_cons] at hslots
  have huse : s.pk.ring.inUse ≠ 0 := by
    intro hzero
    have hlen := congrArg List.length hslots
    rw [Ring.positions_length, hzero] at hlen
    contradiction
  rcases h.ring with hring | ⟨-, hhead, htail⟩
  · rw [Ring.positions_remove hring huse] at hslots
    obtain ⟨hslot, hrest⟩ := List.cons.inj hslots
    exact ⟨hring, huse, hslot, hrest⟩
  · exact absurd (by simp [Ring.inUse, Pakman.ring, hhead, htail]) huse

/-- What the packet manager is after it took a packet back. -/
structure Took (pk : Pakman) (ptr : Nat) (pk' : Pakman) : Prop where
  number : pk'.packetsNumber = pk.packetsNumber
  pkts : pk'.pkts = Function.update pk.pkts ptr clearPacket
  next : pk'.storageNextChunk = pk.storageNextChunk
  first : pk'.storageFirstChunk = pk.storageFirstChunk
  last : pk'.storageLastChunk = pk.storageLastChunk

/-- The oldest packet is put back. -/
lemma Booked.put_head (h : s.Booked slotNum) {p : Given} {out : List Given}
    (hout : s.out = p :: out) :
    ∃ pk, s.pk.putPacket p.slot = some (pk, .EOK) ∧ Took s.pk p.slot pk ∧
      Booked slotNum ⟨pk, out⟩ := by
  obtain ⟨hring, huse, hslot, hrest⟩ := h.head hout
  have hhead : s.pk.pktsHead < s.pk.packetsNumber := hring.head_lt
  have hwordsize := word_eq
  have hchunks := h.chunks
  have hfree := h.free
  have hnodup := h.nodup
  rw [hout, List.map_cons] at hnodup
  unfold Pakman.putPacket
  rw [if_neg (by simpa using hslot), if_neg (by omega)]
  have hused : s.usedChunks = (s.pk.pkts p.slot).chunks +
      usedChunks ⟨{ s.pk with pkts := update s.pk.pkts p.slot clearPacket }, out⟩ := by
    rw [usedChunks, hout, List.map_cons, List.sum_cons, usedChunks]
    congr 2
    apply List.map_congr_left
    intro q hq
    have hne : q.slot ≠ p.slot := by
      intro heq
      exact (List.nodup_cons.mp hnodup).1 (heq ▸ List.mem_map_of_mem hq)
    dsimp only
    rw [update_of_ne hne]
  have hmod : (s.pk.pktsHead + 1) % s.pk.packetsNumber = s.pk.ring.remove.head := by
    change _ = if s.pk.pktsHead + 1 = s.pk.packetsNumber then 0 else s.pk.pktsHead + 1
    split
    · next heq => rw [heq, Nat.mod_self]
    · exact Nat.mod_eq_of_lt (by omega)
  refine ⟨_, rfl, ⟨rfl, rfl, rfl, rfl, rfl⟩, h.word, hchunks, .inl ?_, ?_, ?_⟩
  · have hvalid := hring.remove
    refine ⟨?_, hvalid.tail_lt⟩
    rw [hmod]
    exact hvalid.head_lt
  · rw [hrest]
    congr 1
    rw [Pakman.ring]
    rw [hmod]
    rfl
  · dsimp only
    rw [Nat.mod_eq_of_lt (by omega)]
    change _ + usedChunks ⟨{ s.pk with pkts := _ }, out⟩ = _
    omega

/-- Another packet is not put back. -/
lemma Booked.put_other (h : s.Booked slotNum) {p q : Given} {out : List Given}
    (hout : s.out = p :: out) (hq : q ∈ s.out) (hne : q ≠ p) :
    s.pk.putPacket q.slot = some (s.pk, .EPERM) := by
  obtain ⟨-, -, hslot, -⟩ := h.head hout
  unfold Pakman.putPacket
  rw [if_pos]
  intro heq
  have hp : p ∈ s.out := hout ▸ (.head _)
  exact hne (List.inj_on_of_nodup_map h.nodup hq hp (heq.trans hslot.symm))

/-- A packet is given. -/
def Gives (s : Packets) (len : UInt16) : Prop :=
  s.pk.spaceInPacket ≠ 0 ∧ s.pk.spaceInStorage ≠ 0 ∧
    Pakman.roundLen len ≤ CACHE_ALN * s.pk.spaceInStorage % WORD

instance (s : Packets) (len : UInt16) : Decidable (s.Gives len) :=
  inferInstanceAs (Decidable (_ ∧ _))

lemma getPacket_refused (h : ¬s.Gives len) : s.pk.getPacket len = some (s.pk, none) := by
  unfold Pakman.getPacket
  by_cases hspace : s.pk.spaceInPacket = 0 ∨ s.pk.spaceInStorage = 0
  · rw [if_pos hspace]
  · rw [if_neg hspace, if_pos]
    rw [not_or] at hspace
    exact Nat.lt_of_not_le fun hle => h ⟨hspace.1, hspace.2, hle⟩

/-- What the packet manager is after it gave a packet. -/
structure Gave (pk : Pakman) (len : UInt16) (pk' : Pakman) : Prop where
  number : pk'.packetsNumber = pk.packetsNumber
  head : pk'.pktsHead = pk.pktsHead
  tail : pk'.pktsTail = (pk.pktsTail + 1) % pk.packetsNumber
  pkts : pk'.pkts = Function.update pk.pkts pk.pktsTail
    ⟨pk.storageNextChunk, pk.storageNextChunk, pk.storageNextChunk, Pakman.roundLen len,
      Pakman.roundLen len, Pakman.roundLen len / CACHE_ALN⟩
  free : pk'.storageFreeChunks = sub pk.storageFreeChunks (Pakman.roundLen len / CACHE_ALN)
  next : pk'.storageNextChunk =
    if (pk.storageNextChunk + Pakman.roundLen len) % WORD = pk.storageLastChunk then
      pk.storageFirstChunk
    else (pk.storageNextChunk + Pakman.roundLen len) % WORD
  first : pk'.storageFirstChunk = pk.storageFirstChunk
  last : pk'.storageLastChunk = pk.storageLastChunk

lemma exec_get_refused (h : ¬s.Gives len) : s.exec (.get len) = some s := by
  rw [exec, getPacket_refused h]
  rfl

/-- No packet can be given without a descriptor. -/
lemma exec_get_zero (h : s.Gives len) (hzero : s.pk.packetsNumber = 0) :
    s.exec (.get len) = none := by
  obtain ⟨hpacket, hstorage, hle⟩ := h
  rw [exec, Pakman.getPacket, if_neg (not_or.mpr ⟨hpacket, hstorage⟩),
    if_neg (Nat.not_lt.mpr hle), if_pos hzero]
  rfl

lemma exec_get_given (h : s.Gives len) (hzero : s.pk.packetsNumber ≠ 0) :
    ∃ pk, s.exec (.get len) = some ⟨pk, s.out ++ [⟨s.pk.pktsTail, len⟩]⟩ ∧ Gave s.pk len pk := by
  obtain ⟨hpacket, hstorage, hle⟩ := h
  rw [exec, Pakman.getPacket, if_neg (not_or.mpr ⟨hpacket, hstorage⟩),
    if_neg (Nat.not_lt.mpr hle), if_neg hzero]
  dsimp only [Option.map_some]
  exact ⟨_, rfl, rfl, rfl, rfl, rfl, rfl, by dsimp only, rfl, rfl⟩

section

variable (h : s.Booked slotNum)
include h

/-- The chunks of a packet are free before it is given. -/
lemma Booked.chunks_le (hgives : s.Gives len) :
    Pakman.roundLen len ≤ 64 * s.pk.storageFreeChunks := by
  have hfree := h.free
  have hchunks := h.chunks
  have hwordsize := word_eq
  have hle := hgives.2.2
  rw [Pakman.spaceInStorage, CACHE_ALN, Nat.mod_eq_of_lt (by omega)] at hle
  exact hle

lemma Booked.free_sub (hgives : s.Gives len) :
    sub s.pk.storageFreeChunks (Pakman.roundLen len / CACHE_ALN) =
        s.pk.storageFreeChunks - Pakman.roundLen len / CACHE_ALN ∧
      Pakman.roundLen len / CACHE_ALN ≤ s.pk.storageFreeChunks := by
  have hfree := h.free
  have hchunks := h.chunks
  have hwordsize := word_eq
  have hle := h.chunks_le hgives
  have hdiv : Pakman.roundLen len / CACHE_ALN ≤ s.pk.storageFreeChunks :=
    (Nat.div_le_iff_le_mul_add_pred (by decide)).mpr (Nat.le_trans hle (Nat.le_add_right ..))
  exact ⟨sub_eq hdiv (by omega), hdiv⟩

/-- The place of a new packet is not that of another one. -/
lemma Booked.ne_tail (hring : s.pk.ring.Valid) {q : Given}
    (hq : q ∈ s.out) : q.slot ≠ s.pk.pktsTail := by
  intro heq
  have hmem : q.slot ∈ s.out.map Given.slot := List.mem_map_of_mem hq
  rw [h.slots, heq] at hmem
  exact Ring.tail_not_mem hring hmem

lemma Booked.gave (hgives : s.Gives len)
    (hzero : s.pk.packetsNumber ≠ 0) {pk : Pakman} (hgave : Gave s.pk len pk) :
    Booked slotNum ⟨pk, s.out ++ [⟨s.pk.pktsTail, len⟩]⟩ := by
  have hring : s.pk.ring.Valid := h.ring.resolve_right fun hno => hzero hno.1
  have htail : s.pk.pktsTail < s.pk.packetsNumber := hring.tail_lt
  have hfree := h.free
  obtain ⟨hsub, hle⟩ := h.free_sub hgives
  have hspace := hgives.1
  rw [spaceInPacket_eq hring h.word] at hspace
  have huse : s.pk.ring.inUse + 1 < s.pk.ring.bufsize := by
    change _ < s.pk.packetsNumber
    omega
  have hadd : (s.pk.pktsTail + 1) % s.pk.packetsNumber =
      if s.pk.pktsTail + 1 = s.pk.packetsNumber then 0 else s.pk.pktsTail + 1 := by
    split
    · next heq => rw [heq, Nat.mod_self]
    · exact Nat.mod_eq_of_lt (by omega)
  have hring' : pk.ring = s.pk.ring.add := by
    rw [Pakman.ring, hgave.head, hgave.tail, hgave.number, hadd]
    rfl
  have hused : usedChunks ⟨pk, s.out ++ [⟨s.pk.pktsTail, len⟩]⟩ =
      s.usedChunks + Pakman.roundLen len / CACHE_ALN := by
    rw [usedChunks, usedChunks, hgave.pkts, List.map_append, List.sum_append, List.map_singleton,
      update_self, List.sum_singleton]
    congr 2
    apply List.map_congr_left
    intro q hq
    rw [update_of_ne (h.ne_tail hring hq)]
  refine ⟨?_, h.chunks, .inl ?_, ?_, ?_⟩
  · rw [hgave.number]
    exact h.word
  · rw [hring']
    exact hring.add
  · rw [hring', Ring.positions_add hring huse, ← h.slots, List.map_append]
    rfl
  · rw [hused, hgave.free, hsub]
    omega

/-- What a call that puts a packet does. -/
lemma Booked.exec_put (k : Nat) :
    s.exec (.put k) = some s ∨
    ∃ p out pk, s.out = p :: out ∧ s.exec (.put k) = some ⟨pk, out⟩ ∧ Took s.pk p.slot pk ∧
      Booked slotNum ⟨pk, out⟩ := by
  rw [Packets.exec]
  cases hk : s.out[k]? with
  | none => exact .inl rfl
  | some q =>
    dsimp only
    cases hout : s.out with
    | nil =>
      rw [hout] at hk
      contradiction
    | cons p out =>
      by_cases hq : q = p
      · right
        obtain ⟨pk, hput, htook, hbooked⟩ := h.put_head hout
        have hslot : (s.out.map Given.slot)[k]? = (s.out.map Given.slot)[0]? := by
          rw [List.getElem?_map, List.getElem?_map, hk, hout, hq]
          rfl
        have hlt := (List.getElem?_eq_some_iff.mp hk).1
        have hzero : k = 0 := (List.getElem?_inj (by simpa using hlt) h.nodup).mp hslot
        subst hq hzero
        rw [hput]
        exact ⟨q, out, pk, rfl, rfl, htook, hbooked⟩
      · left
        rw [h.put_other hout (List.mem_of_getElem? hk) hq]
        dsimp only [Option.map_some]
        rw [if_neg (by decide), ← hout]

/-- What a call does. -/
lemma Booked.exec {op : PakOp} (hexec : s.exec op = some s') :
    s'.Booked slotNum ∧ s'.pk.packetsNumber = s.pk.packetsNumber := by
  cases op with
  | get len =>
    by_cases hgives : s.Gives len
    · by_cases hzero : s.pk.packetsNumber = 0
      · rw [exec_get_zero hgives hzero] at hexec
        contradiction
      · obtain ⟨pk, hget, hgave⟩ := exec_get_given hgives hzero
        rw [hget] at hexec
        cases hexec
        exact ⟨h.gave hgives hzero hgave, hgave.number⟩
    · rw [exec_get_refused hgives] at hexec
      cases hexec
      exact ⟨h, rfl⟩
  | put k =>
    rcases h.exec_put k with hsame | ⟨p, out, pk, -, hput, htook, hbooked⟩
    · rw [hsame] at hexec
      cases hexec
      exact ⟨h, rfl⟩
    · rw [hput] at hexec
      cases hexec
      exact ⟨hbooked, htook.number⟩

end

/-- The run of a list of calls. -/
lemma Booked.run (ops : List PakOp) : ∀ {s : Packets}, s.Booked slotNum →
    s.run ops = some s' →
    s'.Booked slotNum ∧ s'.pk.packetsNumber = s.pk.packetsNumber := by
  induction ops with
  | nil =>
    intro s h hrun
    cases hrun
    exact ⟨h, rfl⟩
  | cons op ops ih =>
    intro s h hrun
    rw [Packets.run] at hrun
    cases hexec : s.exec op with
    | none =>
      rw [hexec] at hrun
      contradiction
    | some s₁ =>
      rw [hexec] at hrun
      obtain ⟨hbooked, hnumber⟩ := h.exec hexec
      obtain ⟨hbooked', hnumber'⟩ := ih hbooked hrun
      exact ⟨hbooked', hnumber'.trans hnumber⟩

/-- What a new packet manager is. -/
structure Fresh (bytes : UInt32) (storage : Nat) (pk : Pakman) : Prop where
  number : ∃ n, pk.packetsNumber = n % 2 ^ 16
  free : pk.storageFreeChunks = alnc bytes.toNat / CACHE_ALN
  head : pk.pktsHead = 0
  tail : pk.pktsTail = 0
  first : pk.storageFirstChunk = alnc storage
  next : pk.storageNextChunk = alnc storage
  last : pk.storageLastChunk =
    (alnc storage + CACHE_ALN * (alnc bytes.toNat / CACHE_ALN)) % WORD

lemma init_fresh {bytes packets : UInt32} {calloc : Option Nat} {pk : Pakman}
    (hinit : Pakman.init bytes packets calloc = (some pk, .EOK)) :
    ∃ storage, calloc = some storage ∧ Fresh bytes storage pk := by
  unfold Pakman.init at hinit
  split at hinit
  · cases hinit
  · cases calloc with
    | none => cases hinit
    | some storage =>
      obtain ⟨hpk, -⟩ := Prod.mk.inj hinit
      cases hpk
      refine ⟨storage, rfl, ⟨_, rfl⟩, ?_, ?_, ?_, ?_, ?_, ?_⟩ <;> dsimp only

/-- A new packet manager. -/
lemma Fresh.booked {bytes : UInt32} {storage : Nat} {pk : Pakman} (h : Fresh bytes storage pk) :
    Booked (alnc bytes.toNat / CACHE_ALN) ⟨pk, []⟩ := by
  have hbytes : alnc bytes.toNat < WORD := by
    rw [alnc, aln_eq]
    exact mult_lt_word ..
  have hword : pk.packetsNumber < 2 ^ 16 := by
    obtain ⟨n, hn⟩ := h.number
    rw [hn]
    exact Nat.mod_lt _ (by decide)
  constructor
  · exact hword
  · exact Nat.div_lt_of_lt_mul (Nat.lt_of_lt_of_le hbytes (by decide))
  · by_cases hzero : pk.packetsNumber = 0
    · exact .inr ⟨hzero, h.head, h.tail⟩
    · left
      have hpos : 0 < pk.packetsNumber := Nat.pos_of_ne_zero hzero
      constructor
      · rwa [← h.head] at hpos
      · rwa [← h.tail] at hpos
  · simp [Ring.positions, Ring.inUse, Pakman.ring, h.head, h.tail]
  · exact h.free

/-- No packet is out. -/
lemma Booked.all_free {pk : Pakman} (h : Booked slotNum ⟨pk, []⟩) :
    pk.spaceInPacket = sub pk.packetsNumber 1 ∧ pk.spaceInStorage = slotNum := by
  have hfree := h.free
  refine ⟨?_, hfree⟩
  have hmeet : pk.pktsHead = pk.pktsTail := by
    rcases h.ring with hring | ⟨-, hhead, htail⟩
    · have hslots := congrArg List.length h.slots
      rw [Ring.positions_length] at hslots
      have hempty := hring.isEmpty_iff.mpr hslots.symm
      exact of_decide_eq_true hempty
    · exact hhead.trans htail.symm
  rw [Pakman.spaceInPacket, if_pos hmeet]

/-- The packets are put back in the order in which they were given. -/
lemma Booked.putAll_out (out : List Given) : ∀ {pk : Pakman}, Booked slotNum ⟨pk, out⟩ →
    ∃ pk' codes, pk.putAll (out.map Given.slot) = some (pk', codes) ∧
      (∀ c ∈ codes, c = .EOK) ∧ pk'.packetsNumber = pk.packetsNumber ∧
      Booked slotNum ⟨pk', []⟩ := by
  induction out with
  | nil => exact fun h => ⟨_, [], rfl, fun c hc => absurd hc List.not_mem_nil, rfl, h⟩
  | cons p out ih =>
    intro pk h
    obtain ⟨pk₁, hput, htook, hbooked⟩ := h.put_head rfl
    obtain ⟨pk₂, codes, hall, hok, hnumber, hfree⟩ := ih hbooked
    refine ⟨pk₂, .EOK :: codes, ?_, ?_, hnumber.trans htook.number, hfree⟩
    · rw [List.map_cons, Pakman.putAll, show pk.putPacket p.slot = _ from hput,
        Option.bind_some, hall]
      rfl
    · intro c hc
      rcases List.mem_cons.mp hc with rfl | hc
      · rfl
      · exact hok c hc

/-- Packets that can all be put back are in the order in which they were given. -/
lemma Booked.eq_out (l : List Given) : ∀ {s : Packets} {pk : Pakman} {codes : List Status},
    s.Booked slotNum → l.Perm s.out → s.pk.putAll (l.map Given.slot) = some (pk, codes) →
    (∀ c ∈ codes, c = .EOK) → l = s.out := by
  induction l with
  | nil => exact fun _ hperm _ _ => hperm.nil_eq
  | cons q l ih =>
    intro s pk codes h hperm hall hok
    cases hout : s.out with
    | nil =>
      rw [hout] at hperm
      exact absurd hperm.eq_nil (List.cons_ne_nil q l)
    | cons p out =>
      have hq : q ∈ s.out := hperm.mem_iff.mp (.head _)
      rw [List.map_cons, Pakman.putAll] at hall
      by_cases hqp : q = p
      · subst hqp
        obtain ⟨pk₁, hput, -, hbooked⟩ := h.put_head hout
        rw [hput, Option.bind_some] at hall
        obtain ⟨⟨pk₂, codes'⟩, hall', heq⟩ := Option.map_eq_some_iff.mp hall
        cases heq
        rw [hout] at hperm
        have hrest := ih hbooked hperm.cons_inv hall'
          fun c hc => hok c (.tail _ hc)
        exact congrArg (q :: ·) hrest
      · rw [h.put_other hout hq hqp, Option.bind_some] at hall
        obtain ⟨⟨pk₂, codes'⟩, -, heq⟩ := Option.map_eq_some_iff.mp hall
        cases heq
        have hbad := hok _ (.head _)
        contradiction

end Packets

/-- The packets that are out can all be put back, and then every descriptor and every chunk is
free again, exactly in the order in which they were given. -/
theorem put_all_iff {bytes packets : UInt32} {calloc : Option Nat} {pk : Pakman}
    (hinit : Pakman.init bytes packets calloc = (some pk, .EOK)) {ops : List PakOp}
    {s : Packets} (hrun : (⟨pk, []⟩ : Packets).run ops = some s) {l : List Given}
    (hperm : l.Perm s.out) :
    (∃ pk' codes, s.pk.putAll (l.map Given.slot) = some (pk', codes) ∧
      (∀ c ∈ codes, c = .EOK) ∧ pk'.spaceInPacket = pk.spaceInPacket ∧
      pk'.spaceInStorage = pk.spaceInStorage) ↔ l = s.out := by
  obtain ⟨storage, -, hfresh⟩ := Packets.init_fresh hinit
  obtain ⟨hpackets, hstorage⟩ := hfresh.booked.all_free
  obtain ⟨h, hnumber⟩ := hfresh.booked.run ops hrun
  constructor
  · rintro ⟨pk', codes, hall, hok, -⟩
    exact h.eq_out l hperm hall hok
  · rintro rfl
    obtain ⟨pk', codes, hall, hok, hnumber', hfree⟩ := h.putAll_out s.out
    obtain ⟨hpackets', hstorage'⟩ := hfree.all_free
    refine ⟨pk', codes, hall, hok, ?_, hstorage'.trans hstorage.symm⟩
    rw [hpackets', hpackets, hnumber', hnumber]

/-- Four chunks and four descriptors. -/
def smallPakman : Pakman where
  packetsNumber := 4
  storageFreeChunks := 4
  pkts := fun _ => clearPacket
  pktsHead := 0
  pktsTail := 0
  storage := 65536
  storageFirstChunk := 65536
  storageNextChunk := 65536
  storageLastChunk := 65792

lemma smallPakman_init : Pakman.init 256 4 (some 65536) = (some smallPakman, .EOK) := by
  rfl

/-- Two packets are put back in the order in which they were given. -/
theorem put_all_iff_two :
    ∃ s : Packets, (⟨smallPakman, []⟩ : Packets).run [.get 64, .get 100] = some s ∧
      ∃ pk' codes, s.pk.putAll (s.out.map Given.slot) = some (pk', codes) ∧
        (∀ c ∈ codes, c = .EOK) ∧ pk'.spaceInStorage = 4 := by
  obtain ⟨s, hrun⟩ : ∃ s, (⟨smallPakman, []⟩ : Packets).run [.get 64, .get 100] = some s :=
    ⟨_, rfl⟩
  obtain ⟨pk', codes, hall, hok, -, hstorage⟩ :=
    (put_all_iff smallPakman_init hrun (List.Perm.refl s.out)).mpr rfl
  exact ⟨s, hrun, pk', codes, hall, hok, hstorage⟩

/-- The second packet is put back first: it stays out, and its chunk is lost. -/
theorem put_other_order :
    ((⟨smallPakman, []⟩ : Packets).run [.get 64, .get 64]).map
        (fun s => s.out.map Given.slot) = some [0, 1] ∧
      (((⟨smallPakman, []⟩ : Packets).run [.get 64, .get 64]).bind
        fun s => (s.pk.putAll [1, 0]).map fun r => (r.2, r.1.spaceInPacket, r.1.spaceInStorage)) =
        some ([.EPERM, .EOK], 2, 3) ∧
      smallPakman.spaceInPacket = 3 ∧ smallPakman.spaceInStorage = 4 := by
  decide

end DiegOS.Support
