import DiegOS.Support.Pakman
import Mathlib.Algebra.BigOperators.Ring.List

/-!
# The storage of the packets

Where the data of the packets lie: one behind the other, from the first chunk on again when the
last one is reached.

Main results:

- Theorem `Packets.Placed.exec_iff`: exactly which calls keep every packet in the storage
  and apart from the others.
- Theorem `packets_stay_in_storage`: what holds after every run of such calls.
-/

namespace DiegOS.Support

open Lib Span Function

namespace Packets

/-- The data of a packet. -/
def span (s : Packets) (p : Given) : Span := ⟨(s.pk.pkts p.slot).data, (s.pk.pkts p.slot).dataSize⟩

/-- The data of the packets that are out. -/
def spans (s : Packets) : List Span := s.out.map s.span

/-- Every packet lies inside the block of the storage, has at least the length that was asked
for, and does not overlap with another one. -/
structure Safe (block : Span) (s : Packets) : Prop where
  inside : ∀ p ∈ s.out, (s.span p).Inside block.pointer block.stop
  long : ∀ p ∈ s.out, p.len.toNat ≤ (s.span p).size
  apart : s.spans.Pairwise Apart

/-- The condition on a call: where a packet is given, there are descriptors, its length does not
wrap to 0, and it ends inside the block. -/
def Sound (block : Span) (s : Packets) : PakOp → Prop
  | .get len => s.Gives len →
    s.pk.packetsNumber ≠ 0 ∧ len.toNat ≤ 65472 ∧
      s.pk.storageNextChunk + alnc len.toNat ≤ block.stop
  | .put _ => True

/-- Every call of the list meets the condition when it is made. -/
def Meets (block : Span) : Packets → List PakOp → Prop
  | _, [] => True
  | s, op :: ops => s.Sound block op ∧ ∀ s', s.exec op = some s' → Meets block s' ops

/-- The packets follow each other: from one place up to the next chunk, or the older ones up to
the last chunk and the newer ones from the first chunk on. -/
def Arranged (first last next : Nat) (l : List Span) : Prop :=
  (∃ a, first ≤ a ∧ Adjacent a l next) ∨
    ∃ olds news a, l = olds ++ news ∧ Adjacent a olds last ∧ Adjacent first news next ∧
      next ≤ a ∧ a < last

variable {first last next n : Nat} {l : List Span} {x : Span}

/-- Packets that follow each other do not overlap. -/
lemma Arranged.apart (h : Arranged first last next l) : l.Pairwise Apart := by
  rcases h with ⟨a, -, hl⟩ | ⟨olds, news, a, rfl, holds, hnews, hle, -⟩
  · exact hl.ordered.apart
  · have hordered : Ordered (news ++ olds) := by
      apply List.pairwise_append.mpr
      refine ⟨hnews.ordered, holds.ordered, fun b hb c hc => ?_⟩
      have hb' := (hnews.inside b hb).2
      have hc' := (holds.inside c hc).1
      exact Nat.le_trans hb' (Nat.le_trans hle hc')
    exact (List.perm_append_comm.pairwise_iff fun h => Apart.symm h).mp hordered.apart

/-- The oldest packet goes. -/
lemma Arranged.tail (h : Arranged first last next (x :: l)) (hlow : ∀ a ∈ l, a.pointer < last) :
    Arranged first last next l := by
  rcases h with ⟨a, hfirst, rfl, hl⟩ | ⟨olds, news, a, hlist, holds, hnews, hle, hlt⟩
  · exact .inl ⟨x.stop, Nat.le_trans hfirst (Nat.le_add_right ..), hl⟩
  · cases olds with
    | nil => exact absurd holds (Nat.ne_of_lt hlt)
    | cons y olds =>
      obtain ⟨rfl, rfl⟩ := List.cons.inj hlist
      obtain ⟨rfl, holds⟩ := holds
      cases olds with
      | nil => exact .inl ⟨first, le_rfl, hnews⟩
      | cons z olds =>
        have hz : z.pointer = x.stop := holds.1
        refine .inr ⟨z :: olds, news, x.stop, rfl, holds, hnews,
          Nat.le_trans hle (Nat.le_add_right ..), ?_⟩
        rw [← hz]
        exact hlow z (.head _)

/-- A packet comes behind the others: it ends at the last chunk, before it, or before the
oldest packet. -/
lemma Arranged.concat (h : Arranged first last next l) (hlow : ∀ a ∈ l, a.pointer < last)
    (hnext : next < last) (hfree : n + total l ≤ last - first) (hend : next + n ≤ last) :
    (next + n = last → Arranged first last first (l ++ [⟨next, n⟩])) ∧
      (next + n ≠ last → Arranged first last (next + n) (l ++ [⟨next, n⟩])) := by
  rcases h with ⟨a, hfirst, hl⟩ | ⟨olds, news, a, rfl, holds, hnews, hle, hlt⟩
  · refine ⟨fun hlast => ?_, fun _ => .inl ⟨a, hfirst, hl.concat n⟩⟩
    have hall := hl.concat n
    rw [hlast] at hall
    refine .inr ⟨_, [], a, (List.append_nil _).symm, hall, rfl, hfirst, ?_⟩
    cases l with
    | nil =>
      have heq : a = next := hl
      omega
    | cons b l =>
      rw [← hl.1]
      exact hlow b (.head _)
  · have hold := holds.total_eq
    have hnew := hnews.total_eq
    rw [total_append] at hfree
    refine ⟨fun hlast => by omega, fun _ => .inr ⟨olds, news ++ [⟨next, n⟩], a, ?_, holds,
      hnews.concat n, by omega, hlt⟩⟩
    rw [List.append_assoc]

/-- The packets follow each other in the block of the storage. -/
structure Placed (storage slotNum : Nat) (s : Packets) : Prop where
  first : s.pk.storageFirstChunk = alnc storage
  last : s.pk.storageLastChunk = (alnc storage + 64 * slotNum) % WORD
  low : alnc storage ≤ s.pk.storageNextChunk
  high : slotNum ≠ 0 → s.pk.storageNextChunk < alnc storage + 64 * slotNum ∧
    s.pk.storageNextChunk ≤ storage + 64 * slotNum
  arranged : Arranged (alnc storage) (alnc storage + 64 * slotNum) s.pk.storageNextChunk s.spans
  starts : ∀ a ∈ s.spans, a.pointer < alnc storage + 64 * slotNum
  sizes : ∀ p ∈ s.out, (s.span p).size = 64 * (s.pk.pkts p.slot).chunks
  inside : ∀ p ∈ s.out, (s.span p).Inside storage (storage + 64 * slotNum)
  long : ∀ p ∈ s.out, p.len.toNat ≤ (s.span p).size

variable {s s' : Packets} {storage slotNum : Nat} {len : UInt16}

lemma Placed.safe (h : s.Placed storage slotNum) : s.Safe ⟨storage, 64 * slotNum⟩ :=
  ⟨h.inside, h.long, h.arranged.apart⟩

lemma Placed.total_spans (h : s.Placed storage slotNum) : total s.spans = 64 * s.usedChunks := by
  rw [total, spans, List.map_map, usedChunks, ← List.sum_map_mul_left]
  congr 1
  apply List.map_congr_left
  intro p hp
  exact h.sizes p hp

/-- The rounded length of a packet. -/
lemma roundLen_eq (hlen : len.toNat ≤ 65472) :
    Pakman.roundLen len = alnc len.toNat ∧ len.toNat ≤ alnc len.toNat ∧
      64 * (alnc len.toNat / CACHE_ALN) = alnc len.toNat := by
  have hwordsize := word_eq
  have heq : alnc len.toNat = (len.toNat + 63) / 64 * 64 := alnc_eq (by omega)
  have hdvd := alnc_mod len.toNat
  rw [Pakman.roundLen, Nat.mod_eq_of_lt (by omega)]
  exact ⟨rfl, by omega, Nat.mul_div_cancel' hdvd⟩

/-- A longer packet gets no data. -/
lemma roundLen_zero (hlen : 65472 < len.toNat) : Pakman.roundLen len = 0 := by
  have hwordsize := word_eq
  have hlt : len.toNat < 65536 := len.toNat_lt
  have heq : alnc len.toNat = (len.toNat + 63) / 64 * 64 := alnc_eq (by omega)
  have hround : alnc len.toNat = 2 ^ 16 := by omega
  rw [Pakman.roundLen, hround, Nat.mod_self]

/-- The start of the storage. -/
lemma alnc_storage (hblock : 0 < storage ∧ storage + 64 * slotNum < WORD)
    (hslots : slotNum ≠ 0) : storage ≤ alnc storage ∧ alnc storage < storage + 64 := by
  have heq : alnc storage = (storage + 63) / 64 * 64 := alnc_eq (by omega)
  omega

section

variable (h : s.Placed storage slotNum)
include h

/-- A packet is given inside the block. -/
lemma Placed.gave (hbooked : s.Booked slotNum)
    (hblock : 0 < storage ∧ storage + 64 * slotNum < WORD) (hgives : s.Gives len)
    (hzero : s.pk.packetsNumber ≠ 0) (hlen : len.toNat ≤ 65472)
    (hend : s.pk.storageNextChunk + alnc len.toNat ≤ storage + 64 * slotNum) {pk : Pakman}
    (hgave : Gave s.pk len pk) :
    Placed storage slotNum ⟨pk, s.out ++ [⟨s.pk.pktsTail, len⟩]⟩ := by
  obtain ⟨hround, hlong, hchunks⟩ := roundLen_eq hlen
  have hring : s.pk.ring.Valid := hbooked.ring.resolve_right fun hno => hzero hno.1
  have hslots : slotNum ≠ 0 := by
    have hspace : s.pk.storageFreeChunks ≠ 0 := hgives.2.1
    have hfree := hbooked.free
    omega
  obtain ⟨hstart, hstart'⟩ := alnc_storage hblock hslots
  obtain ⟨hhigh, -⟩ := h.high hslots
  have hlow := h.low
  have hold : ∀ p ∈ s.out, pk.pkts p.slot = s.pk.pkts p.slot := by
    intro p hp
    rw [hgave.pkts, update_of_ne (hbooked.ne_tail hring hp)]
  have hnew : pk.pkts s.pk.pktsTail = ⟨s.pk.storageNextChunk, s.pk.storageNextChunk,
      s.pk.storageNextChunk, alnc len.toNat, alnc len.toNat, alnc len.toNat / CACHE_ALN⟩ := by
    rw [hgave.pkts, update_self, hround]
  have hspan : span ⟨pk, s.out ++ [⟨s.pk.pktsTail, len⟩]⟩ ⟨s.pk.pktsTail, len⟩ =
      ⟨s.pk.storageNextChunk, alnc len.toNat⟩ := by
    rw [span, hnew]
  have hspanold : ∀ p ∈ s.out, span ⟨pk, s.out ++ [⟨s.pk.pktsTail, len⟩]⟩ p = s.span p := by
    intro p hp
    rw [span, span, hold p hp]
  have hspans : spans ⟨pk, s.out ++ [⟨s.pk.pktsTail, len⟩]⟩ =
      s.spans ++ [⟨s.pk.storageNextChunk, alnc len.toNat⟩] := by
    rw [spans, List.map_append, List.map_singleton, hspan, spans]
    congr 1
    exact List.map_congr_left hspanold
  have hall : ∀ p ∈ s.out ++ [(⟨s.pk.pktsTail, len⟩ : Given)],
      p ∈ s.out ∨ p = ⟨s.pk.pktsTail, len⟩ := fun p hp => by simpa using hp
  have hfree : alnc len.toNat + total s.spans ≤
      alnc storage + 64 * slotNum - alnc storage := by
    have hle := hbooked.chunks_le hgives
    have hsum := hbooked.free
    rw [h.total_spans]
    omega
  obtain ⟨hwrap, hstay⟩ := h.arranged.concat h.starts hhigh hfree (by omega)
  have hnext : pk.storageNextChunk =
      if s.pk.storageNextChunk + alnc len.toNat = alnc storage + 64 * slotNum then alnc storage
      else s.pk.storageNextChunk + alnc len.toNat := by
    rw [hgave.next, hround, h.first, h.last, Nat.mod_eq_of_lt (by omega)]
    by_cases hword : alnc storage + 64 * slotNum < WORD
    · rw [Nat.mod_eq_of_lt hword]
    · have hmod : (alnc storage + 64 * slotNum) % WORD = alnc storage + 64 * slotNum - WORD := by
        rw [Nat.mod_eq_sub_mod (by omega), Nat.mod_eq_of_lt (by omega)]
      rw [hmod, if_neg (by omega), if_neg (by omega)]
  constructor
  · exact hgave.first.trans h.first
  · exact hgave.last.trans h.last
  · change alnc storage ≤ pk.storageNextChunk
    rw [hnext]
    split <;> omega
  · intro _
    rw [hnext]
    split <;> omega
  · change Arranged _ _ pk.storageNextChunk _
    rw [hspans, hnext]
    split
    · next hlast => exact hwrap hlast
    · next hlast => exact hstay hlast
  · rw [hspans]
    intro a ha
    rcases List.mem_append.mp ha with ha | ha
    · exact h.starts a ha
    · rw [List.mem_singleton.mp ha]
      exact hhigh
  · intro p hp
    rcases hall p hp with hp | rfl
    · rw [hspanold p hp]
      rw [hold p hp]
      exact h.sizes p hp
    · rw [hspan]
      rw [hnew]
      exact hchunks.symm
  · intro p hp
    rcases hall p hp with hp | rfl
    · rw [hspanold p hp]
      exact h.inside p hp
    · rw [hspan]
      exact ⟨Nat.le_trans hstart hlow, hend⟩
  · intro p hp
    rcases hall p hp with hp | rfl
    · rw [hspanold p hp]
      exact h.long p hp
    · rw [hspan]
      exact hlong

/-- The oldest packet is put back. -/
lemma Placed.took (hbooked : s.Booked slotNum) {p : Given}
    {out : List Given} (hout : s.out = p :: out) {pk : Pakman} (htook : Took s.pk p.slot pk) :
    Placed storage slotNum ⟨pk, out⟩ := by
  have hnodup := hbooked.nodup
  rw [hout, List.map_cons] at hnodup
  have hold : ∀ q ∈ out, pk.pkts q.slot = s.pk.pkts q.slot := by
    intro q hq
    have hne : q.slot ≠ p.slot := by
      intro heq
      exact (List.nodup_cons.mp hnodup).1 (heq ▸ List.mem_map_of_mem hq)
    rw [htook.pkts, update_of_ne hne]
  have hspanold : ∀ q ∈ out, span ⟨pk, out⟩ q = s.span q := by
    intro q hq
    rw [span, span, hold q hq]
  have hspans : s.spans = s.span p :: spans ⟨pk, out⟩ := by
    rw [spans, hout, List.map_cons, spans]
    congr 1
    exact List.map_congr_left fun q hq => (hspanold q hq).symm
  have hsub : ∀ q ∈ out, q ∈ s.out := fun q hq => hout ▸ List.mem_cons_of_mem p hq
  have hstarts : ∀ a ∈ spans ⟨pk, out⟩, a.pointer < alnc storage + 64 * slotNum :=
    fun a ha => h.starts a (hspans ▸ List.mem_cons_of_mem _ ha)
  constructor
  · exact htook.first.trans h.first
  · exact htook.last.trans h.last
  · change _ ≤ pk.storageNextChunk
    rw [htook.next]
    exact h.low
  · change _ → pk.storageNextChunk < _ ∧ pk.storageNextChunk ≤ _
    rw [htook.next]
    exact h.high
  · change Arranged _ _ pk.storageNextChunk _
    have harranged := h.arranged
    rw [hspans] at harranged
    rw [htook.next]
    exact harranged.tail hstarts
  · exact hstarts
  · intro q hq
    rw [hspanold q hq]
    rw [hold q hq]
    exact h.sizes q (hsub q hq)
  · intro q hq
    rw [hspanold q hq]
    exact h.inside q (hsub q hq)
  · intro q hq
    rw [hspanold q hq]
    exact h.long q (hsub q hq)

/-- A call that meets the condition goes through and keeps the packets placed. -/
lemma Placed.exec (hbooked : s.Booked slotNum)
    (hblock : 0 < storage ∧ storage + 64 * slotNum < WORD) {op : PakOp}
    (hsound : s.Sound ⟨storage, 64 * slotNum⟩ op) :
    ∃ s', s.exec op = some s' ∧ s'.Placed storage slotNum := by
  cases op with
  | get len =>
    by_cases hgives : s.Gives len
    · obtain ⟨hzero, hlen, hend⟩ := hsound hgives
      obtain ⟨pk, hget, hgave⟩ := exec_get_given hgives hzero
      exact ⟨_, hget, h.gave hbooked hblock hgives hzero hlen hend hgave⟩
    · exact ⟨s, exec_get_refused hgives, h⟩
  | put k =>
    rcases hbooked.exec_put k with hsame | ⟨p, out, pk, hout, hput, htook, -⟩
    · exact ⟨s, hsame, h⟩
    · exact ⟨_, hput, h.took hbooked hout htook⟩

/-- A call keeps every packet in the storage exactly when it meets the condition. -/
theorem Placed.exec_iff (hbooked : s.Booked slotNum)
    (hblock : 0 < storage ∧ storage + 64 * slotNum < WORD) (op : PakOp) :
    (∃ s', s.exec op = some s' ∧ s'.Safe ⟨storage, 64 * slotNum⟩) ↔
      s.Sound ⟨storage, 64 * slotNum⟩ op := by
  constructor
  · rintro ⟨s', hexec, hsafe⟩
    cases op with
    | put k => trivial
    | get len =>
      intro hgives
      have hzero : s.pk.packetsNumber ≠ 0 := by
        intro hzero
        rw [exec_get_zero hgives hzero] at hexec
        contradiction
      obtain ⟨pk, hget, hgave⟩ := exec_get_given hgives hzero
      rw [hget] at hexec
      cases hexec
      have hnew : (⟨s.pk.pktsTail, len⟩ : Given) ∈ s.out ++ [⟨s.pk.pktsTail, len⟩] :=
        List.mem_append_right _ (List.mem_singleton_self _)
      have hspan : span ⟨pk, s.out ++ [⟨s.pk.pktsTail, len⟩]⟩ ⟨s.pk.pktsTail, len⟩ =
          ⟨s.pk.storageNextChunk, Pakman.roundLen len⟩ := by
        rw [span, hgave.pkts, update_self]
      have hlong := hsafe.long _ hnew
      have hinside := (hsafe.inside _ hnew).2
      rw [hspan] at hlong hinside
      have hlen : len.toNat ≤ 65472 := by
        apply Nat.le_of_not_lt
        intro hover
        rw [roundLen_zero hover] at hlong
        exact Nat.not_lt_zero _ (Nat.lt_of_lt_of_le hover hlong)
      refine ⟨hzero, hlen, ?_⟩
      rw [← (roundLen_eq hlen).1]
      exact hinside
  · intro hsound
    obtain ⟨s', hexec, hplaced⟩ := h.exec hbooked hblock hsound
    exact ⟨s', hexec, hplaced.safe⟩

end

/-! ## Runs of calls -/

lemma Placed.run (hblock : 0 < storage ∧ storage + 64 * slotNum < WORD) (ops : List PakOp) :
    ∀ {s : Packets}, s.Placed storage slotNum → s.Booked slotNum →
      Meets ⟨storage, 64 * slotNum⟩ s ops →
      ∃ s', s.run ops = some s' ∧ s'.Placed storage slotNum ∧ s'.Booked slotNum := by
  induction ops with
  | nil => exact fun h hbooked _ => ⟨_, rfl, h, hbooked⟩
  | cons op ops ih =>
    intro s h hbooked hmeets
    obtain ⟨s₁, hexec, hplaced⟩ := h.exec hbooked hblock hmeets.1
    obtain ⟨s', hrun, hrest⟩ := ih hplaced (hbooked.exec hexec).1 (hmeets.2 s₁ hexec)
    refine ⟨s', ?_, hrest⟩
    rw [Packets.run, hexec]
    exact hrun

lemma Fresh.placed {bytes : UInt32} {pk : Pakman} (h : Fresh bytes storage pk)
    (hslots : alnc bytes.toNat / CACHE_ALN = slotNum)
    (hblock : 0 < storage ∧ storage + 64 * slotNum < WORD) :
    Placed storage slotNum ⟨pk, []⟩ := by
  have hnil : ∀ {P : Given → Prop}, ∀ p ∈ ([] : List Given), P p :=
    fun p hp => absurd hp List.not_mem_nil
  constructor
  · exact h.first
  · rw [← hslots]
    exact h.last
  · exact h.next.ge
  · intro hpos
    obtain ⟨hlow, hhigh⟩ := alnc_storage hblock hpos
    rw [h.next]
    omega
  · exact .inl ⟨_, le_rfl, h.next.symm⟩
  · exact fun a ha => absurd ha List.not_mem_nil
  · exact hnil
  · exact hnil
  · exact hnil

end Packets

/-- After every run of calls that meet the condition nothing was divided by zero, and the
packets that are out lie in the block of the storage, are long enough and do not overlap; a
further call keeps this exactly when it meets the condition too. -/
theorem packets_stay_in_storage {bytes packets : UInt32} {storage : Nat} {pk : Pakman}
    (hinit : Pakman.init bytes packets (some storage) = (some pk, .EOK)) {block : Span}
    (hcalloc : block = ⟨storage, CACHE_ALN * (alnc bytes.toNat / CACHE_ALN)⟩)
    (hblock : 0 < block.pointer ∧ block.stop < WORD) {ops : List PakOp}
    (hmeets : Packets.Meets block ⟨pk, []⟩ ops) :
    ∃ s, (⟨pk, []⟩ : Packets).run ops = some s ∧ s.Safe block ∧
      ∀ op, (∃ s', s.exec op = some s' ∧ s'.Safe block) ↔ s.Sound block op := by
  obtain ⟨storage', hstorage, hfresh⟩ := Packets.init_fresh hinit
  cases hstorage
  subst hcalloc
  obtain ⟨s, hrun, hplaced, hbooked⟩ :=
    Packets.Placed.run hblock ops (hfresh.placed rfl hblock) hfresh.booked hmeets
  exact ⟨s, hrun, hplaced.safe, hplaced.exec_iff hbooked hblock⟩

/-- Two chunks, one chunk, the first packet is put back, one chunk: the last packet ends where
the storage ends. -/
theorem packets_stay_in_storage_three :
    ∃ s, (⟨smallPakman, []⟩ : Packets).run [.get 128, .get 64, .put 0, .get 64] = some s ∧
      s.Safe ⟨65536, 256⟩ := by
  have hinit : Pakman.init 256 4 (some 65536) = (some smallPakman, .EOK) := smallPakman_init
  have hsound : Packets.Meets ⟨65536, 256⟩ ⟨smallPakman, []⟩
      [.get 128, .get 64, .put 0, .get 64] := by
    refine ⟨fun _ => by decide, fun s₁ h₁ => ?_⟩
    cases h₁
    refine ⟨fun _ => by decide, fun s₂ h₂ => ?_⟩
    cases h₂
    refine ⟨trivial, fun s₃ h₃ => ?_⟩
    cases h₃
    exact ⟨fun _ => by decide, fun _ _ => trivial⟩
  obtain ⟨s, hrun, hsafe, -⟩ := packets_stay_in_storage hinit rfl (by decide) hsound
  exact ⟨s, hrun, hsafe⟩

/-- The same with two chunks for the last packet: two chunks are free, but not behind each
other, and the packet leaves the storage.  With 65536 descriptors the first packet divides by
zero. -/
theorem packet_leaves_storage :
    Pakman.init 256 4 (some 65536) = (some smallPakman, .EOK) ∧
      ((⟨smallPakman, []⟩ : Packets).run [.get 128, .get 64, .put 0, .get 128]).map
        Packets.spans = some [⟨65664, 64⟩, ⟨65728, 128⟩] ∧
      ¬(⟨65728, 128⟩ : Span).Inside 65536 (65536 + 256) ∧
      ((Pakman.init 4194304 65536 (some 65536)).1.map fun pk => (pk.getPacket 64).isNone) =
        some true := by
  exact ⟨smallPakman_init, by decide, by decide, by decide⟩

end DiegOS.Support
