import DiegOS.Fat.Failures
import DiegOS.Fat.Reading

/-!
# What a write leaves behind

`FAT_write` on a sound volume.  The loop invariant `Progress` relates
the volume inside a write to the one it started from: the chain may have grown
by free clusters, the bytes written so far are spliced into the content, and
everything else is as before.

Main results:

- Theorem `Progress.putCluster` and `Progress.append`: writing a
  cluster and growing the chain keep the invariant.
- Theorem `writeLoopUnder_ends`: the loop ends with all bytes written, with no free
  cluster left, or at a failing request.
- Theorem `fatWrite_splices`: a write splices its bytes into the file and
  touches nothing else.
- Theorem `fatWrite_refines`: a write is one abstract operation.
-/

namespace DiegOS.Fat

open Lib

/-! ## Growing a chain -/

section Grow

variable {vol : FATVolume} (hm : vol.Mounted) {c : Nat} {l : List Nat}
include hm

/-- Following a chain ends at its last cluster. -/
lemma lastCluster_chain (h : vol.view.Chain c l) (fuel : Nat) (hfuel : l.length ≤ fuel) :
    l[l.length - 1]? = some (lastCluster vol fuel c) := by
  induction l generalizing c fuel with
  | nil => exact absurd rfl h.ne_nil
  | cons c' l ih =>
    obtain ⟨fuel, rfl⟩ : ∃ m, fuel = m + 1 := ⟨fuel - 1, by simp at hfuel; omega⟩
    obtain rfl : c = c' := by simpa using h.getElem_zero.symm
    unfold lastCluster
    cases h with
    | last hnode hstop =>
      have heoc : fatClusterIsEOC (fatGetClusterFromTable vol c) = true := isEOC_of_stop hstop
      simp [heoc]
    | cons hnode hrest =>
      have hnot : fatClusterIsEOC (fatGetClusterFromTable vol c) = false :=
        not_isEOC hm.fatSize_le hrest.node_head
      have hih := ih hrest fuel (by simpa using hfuel)
      obtain ⟨n, hn⟩ : ∃ n, l.length = n + 1 := ⟨l.length - 1, by
        have := hrest.length_pos
        omega⟩
      simp only [hnot, Bool.false_eq_true, if_false, List.length_cons, hn,
        Nat.add_sub_cancel] at hih ⊢
      exact hih

/-- From any cluster of a chain the search for the end reaches the same cluster. -/
lemma lastCluster_mem (h : vol.view.Chain c l) {x : Nat} (hx : x ∈ l) :
    l[l.length - 1]? = some (lastCluster vol chainFuel x) := by
  obtain ⟨pre, suf, rfl, hsuf⟩ := h.split_of_mem hx
  have hlt := chain_length_lt_fuel hm.fatSize_le h
  have hlast := lastCluster_chain hm hsuf chainFuel (by simp at hlt ⊢; omega)
  rw [← hlast, List.getElem?_append_right (by simp)]
  congr 1
  simp

/-- Growing a chain from one of its clusters links a free cluster behind it, or fails
without a trace when none is left. -/
lemma append_cases (h : vol.view.Chain c l) {x : Nat} (hx : x ∈ l) :
    (∃ f vol', fatAppendClusterChain vol x = (vol', some f) ∧ vol.Same vol' ∧ vol'.Mounted ∧
      vol.view.Node f ∧ vol.view.next f = 0 ∧ f ∉ l ∧ vol'.view.Chain c (l ++ [f]) ∧
      (∀ y, y ∉ l ++ [f] → vol'.view.next y = vol.view.next y) ∧
      vol'.view.byte = vol.view.byte) ∨
    (fatAppendClusterChain vol x = (vol, none) ∧
      ∀ y, vol.view.Node y → vol.view.next y ≠ 0) := by
  rcases hm.free_cases with ⟨f, hf, hfree, heq⟩ | ⟨hnone, heq⟩
  · left
    have hf0 : f ≠ 0 := by
      have := hf.1
      omega
    have hfl : f ∉ l := by
      intro hmem
      rcases h.next_of_mem hmem with hnode | hstop
      · rw [hfree] at hnode
        exact absurd hnode.1 (by omega)
      · rw [hfree] at hstop
        exact Store.not_stop_zero hstop
    have hx0 : x ≠ 0 := by
      have := (h.node_of_mem x hx).1
      omega
    have hlast := lastCluster_mem hm h hx
    have hlastmem := List.mem_of_getElem? hlast
    have hlastnode := h.node_of_mem _ hlastmem
    have hm₁ := hm.setHint hf
    have hs₁ : vol.Same (vol.setHint f) := .setHint f
    obtain ⟨last, hlasteq⟩ : ∃ y, y = lastCluster vol chainFuel x := ⟨_, rfl⟩
    rw [← hlasteq] at hlast hlastmem hlastnode
    have hlasthint : lastCluster (vol.setHint f) chainFuel x = last := by
      have hlast' := lastCluster_mem hm₁ (show (vol.setHint f).view.Chain c l from h) hx
      rw [hlast] at hlast'
      exact (Option.some.inj hlast').symm
    have hs₂ := hs₁.trans (.setFat last f)
    have hs₃ := hs₂.trans (.setFat f FAT_EOC_WRITTEN)
    have hview : (((vol.setHint f).setFat last f).setFat f FAT_EOC_WRITTEN).view =
        (vol.view.setNext last f).setNext f FAT_EOC_WRITTEN := by
      rw [FATVolume.view_setFat (hs₂.node hf).2 (by decide),
        FATVolume.view_setFat (hs₁.node hlastnode).2 (hm.node_lt hf), FATVolume.view_setHint]
    refine ⟨f, ((vol.setHint f).setFat last f).setFat f FAT_EOC_WRITTEN, ?_, hs₃,
      (hm₁.setFat last f).setFat f FAT_EOC_WRITTEN, hf, hfree, hfl, ?_, fun y hy => ?_, ?_⟩
    · simp only [fatAppendClusterChain, heq, hf0, if_false, hx0, hlasthint]
      rw [FATVolume.Mounted.set_eq (hs₁.node hlastnode)]
      dsimp only
      rw [fatSetEOCIntoTable, FATVolume.Mounted.set_eq (hs₂.node hf)]
    · rw [hview]
      exact LinkChain.extend h (Store.separated hm.fatSize_le) hf hfl Store.stop_written hlast
    · rw [List.mem_append, List.mem_singleton, not_or] at hy
      rw [hview, Store.next_setNext_ne _ hy.2]
      exact Store.next_setNext_ne _ fun heq => hy.1 (heq ▸ hlastmem)
    · rw [hview]
      rfl
  · right
    refine ⟨?_, hnone⟩
    simp [fatAppendClusterChain, heq]

/-- Starting a chain takes a free cluster, or fails without a trace. -/
lemma append_zero_cases :
    (∃ f vol', fatAppendClusterChain vol 0 = (vol', some f) ∧ vol.Same vol' ∧ vol'.Mounted ∧
      vol.view.Node f ∧ vol.view.next f = 0 ∧ vol'.view.Chain f [f] ∧
      (∀ y, y ∉ [f] → vol'.view.next y = vol.view.next y) ∧
      vol'.view.byte = vol.view.byte) ∨
    (fatAppendClusterChain vol 0 = (vol, none) ∧
      ∀ y, vol.view.Node y → vol.view.next y ≠ 0) := by
  rcases hm.free_cases with ⟨f, hf, hfree, heq⟩ | ⟨hnone, heq⟩
  · left
    have hf0 : f ≠ 0 := by
      have := hf.1
      omega
    have hs₁ : vol.Same (vol.setHint f) := .setHint f
    have hview : ((vol.setHint f).setFat f FAT_EOC_WRITTEN).view =
        vol.view.setNext f FAT_EOC_WRITTEN := by
      rw [FATVolume.view_setFat (hs₁.node hf).2 (by decide), FATVolume.view_setHint]
    refine ⟨f, (vol.setHint f).setFat f FAT_EOC_WRITTEN, ?_, hs₁.trans (.setFat _ _),
      (hm.setHint hf).setFat _ _, hf, hfree, ?_, fun y hy => ?_, ?_⟩
    · simp only [fatAppendClusterChain, heq, hf0, if_false, if_true]
      rw [fatSetEOCIntoTable, FATVolume.Mounted.set_eq (hs₁.node hf)]
    · rw [hview]
      exact LinkChain.singleton hf (by rw [Store.next_setNext_self]; exact Store.stop_written)
    · rw [hview]
      exact Store.next_setNext_ne _ (by simpa using hy)
    · rw [hview]
      rfl
  · right
    refine ⟨?_, hnone⟩
    simp [fatAppendClusterChain, heq]

end Grow

/-- Replacing one cluster of a chain replaces its range of the content. -/
lemma Store.content_putCluster {s : Store} {l : List Nat} (hnodup : l.Nodup) {q c p : Nat}
    (hq : l[q]? = some c) (hp : p < l.length * s.bpc) (buf : Bytes) :
    (s.putCluster c buf).content l p =
      if q * s.bpc ≤ p ∧ p < (q + 1) * s.bpc then buf (p - q * s.bpc) else s.content l p := by
  have hpos : 0 < s.bpc := Nat.pos_of_ne_zero fun hz => by simp [hz] at hp
  have hindex : p / s.bpc < l.length := Nat.div_lt_of_lt_mul (by rwa [Nat.mul_comm])
  have hdiv : p / s.bpc * s.bpc + p % s.bpc = p := Nat.div_add_mod' p _
  have hmod := Nat.mod_lt p hpos
  have hin : (q * s.bpc ≤ p ∧ p < (q + 1) * s.bpc) ↔ p / s.bpc = q := by
    rw [Nat.div_eq_iff hpos, Nat.succ_mul]
    omega
  obtain ⟨x, hx⟩ : ∃ x, l[p / s.bpc]? = some x := ⟨_, List.getElem?_eq_getElem hindex⟩
  have hbyte : (s.putCluster c buf).content l p = (s.putCluster c buf).byte x (p % s.bpc) := by
    rw [content, List.getD_eq_getElem?_getD, show (s.putCluster c buf).bpc = s.bpc from rfl, hx,
      Option.getD_some]
  rw [hbyte]
  split <;> rename_i hcase
  · have hpq := hin.mp hcase
    obtain rfl : x = c := by
      rw [hpq, hq] at hx
      exact (Option.some.inj hx).symm
    rw [byte_putCluster_self buf hmod]
    congr 1
    rw [← hpq]
    omega
  · have hxc : x ≠ c := by
      rintro rfl
      exact hcase (hin.mpr ((List.getElem?_inj hindex hnodup).mp (hx.trans hq.symm)))
    rw [byte_putCluster_ne buf hxc, content, List.getD_eq_getElem?_getD, hx, Option.getD_some]

/-! ## The invariant of a write -/

/-- What a write starts from: the volume, the clusters and the size of the file, and the
request. -/
structure WriteJob where
  vol : FATVolume
  chain : List Nat
  size : Nat
  offset : Nat
  buffer : Bytes

namespace WriteJob

/-- The content of the file with the first `n` bytes of the buffer spliced in. -/
def image (j : WriteJob) (n : Nat) : Bytes :=
  memcpy (j.vol.view.content j.chain) j.offset j.buffer 0 n

lemma image_add (j : WriteJob) (n m : Nat) :
    j.image (n + m) = memcpy (j.image n) (j.offset + n) j.buffer n m := by
  have happ := memcpy_append (j.vol.view.content j.chain) j.buffer j.offset 0 n m
  rw [Nat.zero_add] at happ
  rw [image, image, happ]

end WriteJob

/-- The volume inside a write after `done` bytes: the chain, which starts at
`first`, has grown by free clusters only, the bytes are spliced in, and nothing else
has changed. -/
structure Progress (j : WriteJob) (vol : FATVolume) (first : Nat) (l : List Nat) (done : Nat)
    (appended : Int) : Prop where
  same : j.vol.Same vol
  mounted : vol.Mounted
  chain : vol.view.Chain first l
  grown : ∃ new, l = j.chain ++ new ∧ ∀ c ∈ new, j.vol.view.next c = 0
  next_frame : ∀ c, c ∉ l → vol.view.next c = j.vol.view.next c
  byte_frame : ∀ c, c ∉ l → vol.view.byte c = j.vol.view.byte c
  size_le : j.size ≤ l.length * j.vol.bytesPerCluster
  done_le : j.offset + done ≤ l.length * j.vol.bytesPerCluster
  splice : ∀ p, p < j.size ∨ p < j.offset + done → vol.view.content l p = j.image done p
  mirrored : appended = 0 → j.vol.Mirrored → vol.Mirrored

namespace Progress

variable {j : WriteJob} {vol : FATVolume} {first : Nat} {l : List Nat} {done : Nat}
  {appended : Int}

variable (h : Progress j vol first l done appended)
include h

lemma bpc_eq :
    vol.view.bpc = j.vol.bytesPerCluster := h.same.bytesPerCluster

/-- Writing into the cluster at index `q` the bytes that belong there. -/
theorem putCluster {q c : Nat} (n : Nat)
    (buf : Bytes) (hq : l[q]? = some c) (hlo : q * j.vol.bytesPerCluster ≤ j.offset + done)
    (hhi : j.offset + done + n ≤ (q + 1) * j.vol.bytesPerCluster)
    (hbuf : ∀ t < j.vol.bytesPerCluster,
      q * j.vol.bytesPerCluster + t < j.size ∨
        q * j.vol.bytesPerCluster + t < j.offset + (done + n) →
      buf t = j.image (done + n) (q * j.vol.bytesPerCluster + t)) :
    Progress j (vol.putCluster c buf) first l (done + n) appended := by
  have hbpc := h.bpc_eq
  have hcl := List.mem_of_getElem? hq
  have hnode := h.chain.node_of_mem c hcl
  have hview := FATVolume.view_putCluster hnode buf
  have hnodup : l.Nodup :=
    LinkChain.nodup (Store.separated (s := vol.view) h.mounted.fatSize_le) h.chain
  have hqlt : q < l.length := by
    rcases List.getElem?_eq_some_iff.mp hq with ⟨hlt, -⟩
    exact hlt
  have hmul : (q + 1) * j.vol.bytesPerCluster ≤ l.length * j.vol.bytesPerCluster :=
    Nat.mul_le_mul_right _ hqlt
  have hsucc : (q + 1) * j.vol.bytesPerCluster =
      q * j.vol.bytesPerCluster + j.vol.bytesPerCluster := Nat.succ_mul _ _
  refine ⟨h.same.trans (.putCluster c buf), h.mounted.putCluster c buf, ?_, h.grown, ?_, ?_,
    h.size_le, by omega, fun p hp => ?_, fun hz hmir => .putCluster h.mounted (h.mirrored hz hmir)
      c buf⟩
  · rw [hview]
    exact h.chain
  · intro x hx
    rw [hview]
    exact h.next_frame x hx
  · intro x hx
    rw [hview, Store.byte_putCluster_ne buf (fun heq : x = c => hx (heq ▸ hcl))]
    exact h.byte_frame x hx
  · -- A position lies in the written cluster or in another one, which is as before.
    have hsize := h.size_le
    rw [hview, Store.content_putCluster hnodup hq (by rw [hbpc]; omega), hbpc]
    split <;> rename_i hin
    · have hsum : q * j.vol.bytesPerCluster + (p - q * j.vol.bytesPerCluster) = p := by omega
      rw [hbuf _ (by omega) (by rw [hsum]; exact hp), hsum]
    · rw [h.splice p (by omega), j.image_add, memcpy_apply_not_mem (by omega)]

/-- Growing the chain. -/
theorem append {f : Nat} {vol' : FATVolume}
    (hsame : vol.Same vol') (hmounted : vol'.Mounted) (hfree : vol.view.next f = 0) (hfl : f ∉ l)
    (hchain : vol'.view.Chain first (l ++ [f]))
    (hnext : ∀ y, y ∉ l ++ [f] → vol'.view.next y = vol.view.next y)
    (hbyte : vol'.view.byte = vol.view.byte) :
    Progress j vol' first (l ++ [f]) done 1 := by
  have hbpc := h.bpc_eq
  have hbpc' : vol'.view.bpc = vol.view.bpc := hsame.bytesPerCluster
  have hsize := h.size_le
  have hdone := h.done_le
  have hlen : l.length * j.vol.bytesPerCluster ≤ (l ++ [f]).length * j.vol.bytesPerCluster :=
    Nat.mul_le_mul_right _ (by simp)
  refine ⟨h.same.trans hsame, hmounted, hchain, ?_, fun c hc => ?_, fun c hc => ?_, by omega,
    by omega, fun p hp => ?_, fun hz => absurd hz (by decide)⟩
  · obtain ⟨new, rfl, hnew⟩ := h.grown
    refine ⟨new ++ [f], by simp, fun c hc => ?_⟩
    rcases List.mem_append.mp hc with hc | hc
    · exact hnew c hc
    · rw [List.mem_singleton] at hc
      rw [hc, ← h.next_frame f hfl]
      exact hfree
  · rw [hnext c hc]
    exact h.next_frame c fun hcl => hc (List.mem_append_left _ hcl)
  · rw [hbyte]
    exact h.byte_frame c fun hcl => hc (List.mem_append_left _ hcl)
  · have hindex : p / vol.view.bpc < l.length :=
      Nat.div_lt_of_lt_mul (by rw [hbpc, Nat.mul_comm]; omega)
    rw [← h.splice p hp, Store.content, Store.content, hbyte, hbpc',
      List.getD_eq_getElem?_getD, List.getD_eq_getElem?_getD, List.getElem?_append_left hindex]

/-- Positions inside the chain fit the 32-bit file position. -/
lemma position_lt : j.offset + done < 2 ^ 32 := by
  have hlen := chain_length_le h.mounted.fatSize_le h.chain
  have hsize := h.mounted.fatSize_le
  have hbpc := h.mounted.cluster_lt
  have hdone := h.done_le
  rw [← h.same.bytesPerCluster] at hdone
  unfold FAT_BAD at hsize
  have hmul : l.length * vol.bytesPerCluster ≤ 65527 * 65535 := Nat.mul_le_mul (by omega) (by omega)
  omega

end Progress

/-! ## The loop of a write -/

/-- How a write ends: what has been written is recorded, and everything has been written, or no
free cluster is left, or a request has failed. -/
def Ends (p : FaultPattern) (j : WriteJob) (search : SearchResult) (len : Nat) (now : Tm)
    (first : Nat) (out : WriteOut) : Prop :=
  ∃ vol l appended, Progress j vol first l out.writelen appended ∧
    out.vol = fatWriteUpdateOnDiskUnder p appended (j.offset + out.writelen) vol search now ∧
    ((out.ret = 0 ∧ out.writelen = len) ∨
      (out.ret = -1 ∧ out.writelen < len ∧ ∀ c, vol.view.Node c → vol.view.next c ≠ 0) ∨
      ∃ n, p.cluster n = true)

/-- The running variables inside a write: the cluster at index `q` comes next, and a
cluster appended last is the end of the chain and lies behind the old bytes. -/
structure Cursor (j : WriteJob) (len first : Nat) (l : List Nat) (q done : Nat)
    (st : WriteState) : Prop where
  progress : Progress j st.vol first l done st.appended
  cluster_eq : l[q]? = some st.cluster
  fresh : st.appended ≠ 0 → j.size ≤ q * j.vol.bytesPerCluster ∧ q + 1 = l.length
  bufpos_eq : st.bufpos = done
  buflen_eq : st.buflen + done = len
  filepos_eq : st.filepos = j.offset + done
  writelen_eq : st.writelen = done

section Loop

variable {p : FaultPattern} {j : WriteJob} {search : SearchResult} {len first : Nat} {now : Tm}
  {l : List Nat} {q done n : Nat} {st : WriteState} (hfault : j.vol.ctx.Faultless)
include hfault

/-- The cluster under the cursor can be read and written. -/
lemma Cursor.access (h : Cursor j len first l q done st) :
    volReadC st.vol (fatFSoC st.vol st.cluster) = some (st.vol.buffer st.cluster) ∧
      ∀ buf, volWriteC st.vol (fatFSoC st.vol st.cluster) buf =
        some (st.vol.putCluster st.cluster buf) := by
  have hnode := h.progress.chain.node_of_mem _ (List.mem_of_getElem? h.cluster_eq)
  exact ⟨h.progress.mounted.readC_eq (h.progress.same.serves (hfault .read)) hnode,
    h.progress.mounted.writeC_eq (h.progress.same.serves (hfault .write)) hnode⟩

omit hfault in
/-- The bytes under the cursor are content. -/
lemma Cursor.buffer_eq (h : Cursor j len first l q done st) {t : Nat}
    (ht : t < j.vol.bytesPerCluster)
    (hp : q * j.vol.bytesPerCluster + t < j.size ∨
      q * j.vol.bytesPerCluster + t < j.offset + done) :
    st.vol.buffer st.cluster t = j.image done (q * j.vol.bytesPerCluster + t) := by
  have hbpc : st.vol.bytesPerCluster = j.vol.bytesPerCluster := h.progress.same.bytesPerCluster
  rw [← h.progress.splice _ hp, ← hbpc]
  exact buffer_eq_content h.progress.chain.node_of_mem h.cluster_eq (by rw [hbpc]; exact ht)

omit hfault in
/-- A request has failed. -/
lemma writeFailUnder_ends (h : Cursor j len first l q done st) (hfails : p.cluster n = true) :
    Ends p j search len now first (writeFailUnder p search now st) := by
  refine ⟨st.vol, l, st.appended, ?_, ?_, .inr (.inr ⟨n, hfails⟩)⟩
  · simp only [writeFailUnder, h.writelen_eq]
    exact h.progress
  · simp only [writeFailUnder, h.writelen_eq, h.filepos_eq]

omit hfault in
/-- Nothing is left to write. -/
lemma writeTailUnder_done (h : Cursor j len first l q done st) (hzero : st.buflen = 0) :
    Ends p j search len now first (writeTailUnder p search j.buffer len now n st) := by
  have hbuflen := h.buflen_eq
  obtain rfl : done = len := by omega
  rw [writeTailUnder, if_pos hzero]
  refine ⟨st.vol, l, st.appended, h.progress, ?_, .inl ⟨rfl, rfl⟩⟩
  simp only [writeDoneUnder, h.filepos_eq]

omit hfault in
/-- The tail writes the rest of the request into the cluster under the cursor.  Behind the
written bytes the cluster keeps its bytes, or is zeroed when it is new. -/
lemma Cursor.tail (h : Cursor j len first l q done st)
    (hpos : q * j.vol.bytesPerCluster = j.offset + done)
    (hlt : st.buflen < j.vol.bytesPerCluster) :
    Progress j (st.vol.putCluster st.cluster
      (if st.appended ≠ 0 then
        memset (memcpy (st.vol.buffer st.cluster) 0 j.buffer st.bufpos st.buflen) st.buflen 0
          (st.vol.bytesPerCluster - st.buflen)
      else memcpy (st.vol.buffer st.cluster) 0 j.buffer st.bufpos st.buflen)) first l len
      st.appended ∧ (st.filepos + st.buflen) % 2 ^ 32 = j.offset + len := by
  have hbpc : st.vol.bytesPerCluster = j.vol.bytesPerCluster := h.progress.same.bytesPerCluster
  have hbuflen := h.buflen_eq
  have hlen : done + st.buflen = len := by omega
  have hnew := h.progress.putCluster st.buflen (
      if st.appended ≠ 0 then
        memset (memcpy (st.vol.buffer st.cluster) 0 j.buffer st.bufpos st.buflen) st.buflen 0
          (st.vol.bytesPerCluster - st.buflen)
      else memcpy (st.vol.buffer st.cluster) 0 j.buffer st.bufpos st.buflen)
    h.cluster_eq (by omega) (by rw [Nat.succ_mul]; omega) (fun t ht hp => ?_)
  · have hmod : (st.filepos + st.buflen) % 2 ^ 32 = j.offset + (done + st.buflen) := by
      rw [h.filepos_eq, Nat.add_assoc]
      exact Nat.mod_eq_of_lt hnew.position_lt
    rw [hlen] at hmod hnew
    exact ⟨hnew, hmod⟩
  · rw [j.image_add]
    by_cases htn : t < st.buflen
    · have hdata : memcpy (st.vol.buffer st.cluster) 0 j.buffer st.bufpos st.buflen t =
          j.buffer (done + t) := by
        rw [memcpy_apply_mem (Nat.zero_le t) (by omega), h.bufpos_eq, Nat.sub_zero]
      have himage : memcpy (j.image done) (j.offset + done) j.buffer done st.buflen
          (q * j.vol.bytesPerCluster + t) = j.buffer (done + t) := by
        rw [memcpy_apply_mem (by omega) (by omega)]
        congr 1
        omega
      rw [himage, ← hdata]
      split
      · exact memset_apply_not_mem (by omega)
      · rfl
    · have hold : q * j.vol.bytesPerCluster + t < j.size := by omega
      have happ : ¬st.appended ≠ 0 := fun happ => by
        have := (h.fresh happ).1
        omega
      rw [if_neg happ, memcpy_apply_not_mem (by omega), memcpy_apply_not_mem (by omega)]
      exact h.buffer_eq ht (.inl hold)

/-- The tail ends the write. -/
lemma writeTailUnder_ends (h : Cursor j len first l q done st)
    (hpos : q * j.vol.bytesPerCluster = j.offset + done)
    (hlt : st.buflen < j.vol.bytesPerCluster) :
    Ends p j search len now first (writeTailUnder p search j.buffer len now n st) := by
  by_cases hzero : st.buflen = 0
  · exact writeTailUnder_done h hzero
  · rw [writeTailUnder, if_neg hzero]
    obtain ⟨hread, hwrite⟩ := h.access hfault
    obtain ⟨hnew, hmod⟩ := h.tail hpos hlt
    rw [hread]
    cases hn : p.cluster n with
    | true => exact writeFailUnder_ends h hn
    | false =>
      rw [served_false]
      dsimp only
      rw [hwrite]
      cases hn' : p.cluster (n + 1) with
      | true => exact writeFailUnder_ends h hn'
      | false =>
        rw [served_false]
        refine ⟨_, l, st.appended, hnew, ?_, .inl ⟨rfl, rfl⟩⟩
        simp only [writeDoneUnder, hmod]

omit hfault in
/-- The next cluster under the cursor: the one that follows in the chain, or one appended to
it, or none because no free cluster is left. -/
lemma Cursor.next (h : Cursor j len first l q done st) :
    (∃ vol' appended cluster l',
      fatWriteGetNext st.cluster st.vol = (vol', appended, cluster) ∧ 0 ≤ appended ∧
      Cursor j len first l' (q + 1) done
        { st with vol := vol', appended := appended, cluster := cluster }) ∨
    (fatWriteGetNext st.cluster st.vol = (st.vol, -1, 0) ∧
      ∀ c, st.vol.view.Node c → st.vol.view.next c ≠ 0) := by
  have hm := h.progress.mounted
  have hcl := List.mem_of_getElem? h.cluster_eq
  have hqlt : q < l.length := (List.getElem?_eq_some_iff.mp h.cluster_eq).1
  by_cases hlast : q + 1 < l.length
  · -- There is a next cluster, so nothing has been appended yet.
    left
    have happ : st.appended = 0 := by
      by_contra happ
      have := (h.fresh happ).2
      omega
    have hget : l[q + 1]? = some l[q + 1] := List.getElem?_eq_getElem hlast
    have hnext : fatGetClusterFromTable st.vol st.cluster = l[q + 1] :=
      h.progress.chain.next_getElem h.cluster_eq hget
    have hnode := h.progress.chain.node_of_mem _ (List.mem_of_getElem? hget)
    have hread := isReadable hm.fatSize_le hnode
    rw [fatClusterIsReadable_iff] at hread
    have hcall : fatWriteGetNext st.cluster st.vol = (st.vol, 0, l[q + 1]) := by
      rw [fatWriteGetNext, hnext, if_neg (by rw [fatClusterIsEOC_iff]; omega),
        if_neg (by rw [fatClusterIsBAD_iff, fatClusterIsFREE_iff]; omega)]
    have hprogress := h.progress
    rw [happ] at hprogress
    exact ⟨_, _, _, l, hcall, le_rfl, hprogress, hget, fun hne => absurd rfl hne, h.bufpos_eq,
      h.buflen_eq, h.filepos_eq, h.writelen_eq⟩
  · have hend : q + 1 = l.length := by omega
    have hstop : Store.Stop (fatGetClusterFromTable st.vol st.cluster) :=
      h.progress.chain.stop_getElem h.cluster_eq hend
    have hcall : fatWriteGetNext st.cluster st.vol =
        appendedResult (fatAppendClusterChain st.vol st.cluster) := by
      rw [fatWriteGetNext, if_pos (isEOC_of_stop hstop)]
    rcases append_cases hm h.progress.chain hcl with
      ⟨f, vol', heq, hsame, hm', -, hfree, hfl, hchain, hnext, hbyte⟩ | ⟨heq, hnone⟩
    · left
      rw [heq] at hcall
      refine ⟨vol', 1, f, l ++ [f], hcall, by decide,
        h.progress.append hsame hm' hfree hfl hchain hnext hbyte, ?_, fun _ => ⟨?_, by simp [hend]⟩,
        h.bufpos_eq, h.buflen_eq, h.filepos_eq, h.writelen_eq⟩
      · rw [hend, List.getElem?_append_right le_rfl]
        simp
      · rw [hend]
        exact h.progress.size_le
    · right
      rw [heq] at hcall
      exact ⟨hcall, hnone⟩

omit hfault in
/-- Stepping to the next cluster goes on with the cursor there, or ends the write because
no free cluster is left. -/
lemma writeNextUnder_ends {go : WriteState → WriteOut} (h : Cursor j len first l q done st)
    (hrest : st.buflen ≠ 0)
    (hgo : ∀ l' st', Cursor j len first l' (q + 1) done st' → st'.buflen = st.buflen →
      Ends p j search len now first (go st')) :
    Ends p j search len now first (writeNextUnder p search now st go) := by
  have hbuflen := h.buflen_eq
  rcases h.next with ⟨vol', appended, cluster, l', hcall, happ, hcursor⟩ | ⟨hcall, hnone⟩
  · simp only [writeNextUnder, hcall]
    rw [if_neg (by omega)]
    exact hgo l' _ hcursor rfl
  · simp only [writeNextUnder, hcall]
    rw [if_pos (by decide)]
    refine ⟨st.vol, l, -1, ?_, ?_, .inr (.inl ⟨rfl, ?_, hnone⟩)⟩
    · simp only [writeFailUnder, h.writelen_eq]
      exact { h.progress with mirrored := fun hzero => absurd hzero (by decide) }
    · simp only [writeFailUnder, h.writelen_eq, h.filepos_eq]
    · simp only [writeFailUnder, h.writelen_eq]
      omega

omit hfault in
/-- A whole cluster is written under the cursor. -/
lemma Cursor.whole (h : Cursor j len first l q done st)
    (hpos : q * j.vol.bytesPerCluster = j.offset + done)
    (hge : ¬st.buflen < st.vol.bytesPerCluster) :
    Cursor j len first l q (done + j.vol.bytesPerCluster)
      { st with
        vol := st.vol.putCluster st.cluster (shift j.buffer st.bufpos)
        filepos := (st.filepos + st.vol.bytesPerCluster) % 2 ^ 32
        bufpos := st.bufpos + st.vol.bytesPerCluster
        buflen := st.buflen - st.vol.bytesPerCluster
        writelen := len - (st.buflen - st.vol.bytesPerCluster) } := by
  have hbpc : st.vol.bytesPerCluster = j.vol.bytesPerCluster := h.progress.same.bytesPerCluster
  have hbuflen := h.buflen_eq
  have hnew := h.progress.putCluster j.vol.bytesPerCluster
    (shift j.buffer st.bufpos) h.cluster_eq (by omega) (by rw [Nat.succ_mul]; omega)
    (fun t ht _ => by
      rw [j.image_add, memcpy_apply_mem (by omega) (by omega), shift_apply, h.bufpos_eq]
      congr 1
      omega)
  refine ⟨hnew, h.cluster_eq, h.fresh, ?_, ?_, ?_, ?_⟩
  · dsimp only
    rw [h.bufpos_eq, hbpc]
  · dsimp only
    omega
  · dsimp only
    rw [h.filepos_eq, hbpc, Nat.add_assoc]
    exact Nat.mod_eq_of_lt hnew.position_lt
  · dsimp only
    omega

/-- The loop over whole clusters ends the write. -/
theorem writeLoopUnder_ends {fuel : Nat} (h : Cursor j len first l q done st)
    (hpos : q * j.vol.bytesPerCluster = j.offset + done) (hfuel : st.buflen ≤ fuel) :
    Ends p j search len now first (writeLoopUnder p search j.buffer len now fuel n st) := by
  induction fuel generalizing l q done n st with
  | zero =>
    rw [writeLoopUnder]
    exact writeTailUnder_done h (by omega)
  | succ fuel ih =>
    have hbpc : st.vol.bytesPerCluster = j.vol.bytesPerCluster :=
      h.progress.same.bytesPerCluster
    have hbpos := h.progress.mounted.cluster_pos
    have hbuflen := h.buflen_eq
    unfold writeLoopUnder
    split <;> rename_i hlt
    · exact writeTailUnder_ends hfault h hpos (by rw [← hbpc]; exact hlt)
    · rw [(h.access hfault).2]
      cases hn : p.cluster n with
      | true => exact writeFailUnder_ends h hn
      | false =>
        rw [served_false]
        dsimp only
        have hcursor := h.whole hpos hlt
        split <;> rename_i hzero
        · exact writeTailUnder_done hcursor hzero
        · refine writeNextUnder_ends hcursor hzero fun l' st' hnext hlen => ih hnext ?_ ?_
          · rw [Nat.succ_mul]
            omega
          · have hput :
                (st.vol.putCluster st.cluster (shift j.buffer st.bufpos)).bytesPerCluster =
                  j.vol.bytesPerCluster := hbpc
            rw [hlen]
            dsimp only
            omega

omit hfault in
/-- The head is written under the cursor. -/
lemma Cursor.head (h : Cursor j len first l q 0 st)
    (hq : q = j.offset / j.vol.bytesPerCluster) {head : Nat}
    (hhead : head = min st.buflen
      (j.vol.bytesPerCluster - j.offset % j.vol.bytesPerCluster)) :
    Cursor j len first l q (0 + head)
      { st with
        vol := st.vol.putCluster st.cluster (memcpy (st.vol.buffer st.cluster)
          (j.offset % j.vol.bytesPerCluster) j.buffer st.bufpos head)
        bufpos := st.bufpos + head
        filepos := (st.filepos + head) % 2 ^ 32
        buflen := st.buflen - head
        writelen := len - (st.buflen - head) } := by
  have hbpos := h.progress.mounted.cluster_pos
  have hbpc : st.vol.bytesPerCluster = j.vol.bytesPerCluster := h.progress.same.bytesPerCluster
  have hbuflen := h.buflen_eq
  have hdiv : q * j.vol.bytesPerCluster + j.offset % j.vol.bytesPerCluster = j.offset := by
    rw [hq]
    exact Nat.div_add_mod' _ _
  have hmod : j.offset % j.vol.bytesPerCluster < j.vol.bytesPerCluster :=
    Nat.mod_lt _ (by omega)
  have hnew := h.progress.putCluster head
    (memcpy (st.vol.buffer st.cluster) (j.offset % j.vol.bytesPerCluster) j.buffer
      st.bufpos head) h.cluster_eq (by omega) (by rw [Nat.succ_mul]; omega)
    (fun t ht hp => by
      rw [j.image_add]
      by_cases hin : j.offset % j.vol.bytesPerCluster ≤ t ∧
          t < j.offset % j.vol.bytesPerCluster + head
      · rw [memcpy_apply_mem hin.1 hin.2, memcpy_apply_mem (by omega) (by omega), h.bufpos_eq]
        congr 1
        omega
      · rw [memcpy_apply_not_mem (by omega), memcpy_apply_not_mem (by omega)]
        exact h.buffer_eq ht (by omega))
  refine ⟨hnew, h.cluster_eq, h.fresh, ?_, ?_, ?_, ?_⟩
  · dsimp only
    rw [h.bufpos_eq]
  · dsimp only
    omega
  · dsimp only
    rw [h.filepos_eq, Nat.add_assoc]
    exact Nat.mod_eq_of_lt hnew.position_lt
  · dsimp only
    omega

/-- A write that starts inside a cluster fills it up first, or stops in front of it. -/
lemma writeHeadUnder_ends (h : Cursor j len first l q 0 st)
    (hq : q = j.offset / j.vol.bytesPerCluster) :
    ((∃ n, p.cluster n = true) ∧
      (writeHeadUnder p search j.buffer len now j.offset st).vol = st.vol) ∨
    Ends p j search len now first (writeHeadUnder p search j.buffer len now j.offset st) := by
  have hbpc : st.vol.bytesPerCluster = j.vol.bytesPerCluster := h.progress.same.bytesPerCluster
  have hbpos := h.progress.mounted.cluster_pos
  have hbuflen := h.buflen_eq
  have hdiv : q * j.vol.bytesPerCluster + j.offset % j.vol.bytesPerCluster = j.offset := by
    rw [hq]
    exact Nat.div_add_mod' _ _
  have hmod : j.offset % j.vol.bytesPerCluster < j.vol.bytesPerCluster :=
    Nat.mod_lt _ (by omega)
  obtain ⟨hread, hwrite⟩ := h.access hfault
  unfold writeHeadUnder
  rw [hread]
  cases hn : p.cluster 0 with
  | true => exact .inl ⟨⟨0, hn⟩, rfl⟩
  | false =>
    rw [served_false]
    dsimp only
    rw [hwrite]
    cases hn' : p.cluster 1 with
    | true => exact .inl ⟨⟨1, hn'⟩, rfl⟩
    | false =>
      right
      rw [served_false, hbpc]
      dsimp only
      obtain ⟨head, hhead⟩ : ∃ n, n = min st.buflen
        (j.vol.bytesPerCluster - j.offset % j.vol.bytesPerCluster) := ⟨_, rfl⟩
      rw [← hhead]
      have hcursor := h.head hq hhead
      split <;> rename_i hzero
      · have hdone : len - (st.buflen - head) = len := by omega
        have hall : 0 + head = len := by omega
        have hnew := hcursor.progress
        have hfile := hcursor.filepos_eq
        dsimp only at hfile
        rw [hall] at hnew hfile
        rw [hdone, hfile]
        exact ⟨_, l, st.appended, hnew, rfl, .inl ⟨rfl, rfl⟩⟩
      · refine writeNextUnder_ends hcursor hzero fun l' st' hnext hlen' =>
          writeLoopUnder_ends hfault hnext ?_ (by rw [hlen'])
        rw [Nat.succ_mul]
        omega

end Loop

/-! ## The whole write -/

/-- The attributes that forbid writing. -/
def writeMask : UInt8 := ATTR_DIRECTORY ||| ATTR_READ_ONLY ||| ATTR_LINK ||| ATTR_VOLUME_ID

/-- Two entries that differ in their first cluster at most. -/
def SameFile (e e' : DirEntry) : Prop :=
  e'.dirName = e.dirName ∧ e'.dirAttr = e.dirAttr ∧ e'.dirFileSize = e.dirFileSize

section Whole

variable {vol : FATVolume} (hv : Ready vol) {path : List UInt8} {junk : SearchResult} {k i : Nat}
  {l : List Nat} (hl : vol.view.Clusters (vol.view.entry k i) l)
  (hsize : (vol.view.entry k i).size ≤ l.length * vol.bytesPerCluster)
  {offset : Nat} (hoff : offset ≤ (vol.view.entry k i).size) {buffer : Bytes}
include hv hl hsize hoff

/-- Where a write starts: at the cluster of its offset, or at a cluster appended for it, or
nowhere because no free cluster is left. -/
lemma writeGetFirst_cases (buffer : Bytes) :
    (∃ vol' appended cluster first l' q,
      fatWriteGetFirst offset vol (vol.view.entry k i) = (vol', appended, cluster) ∧
      0 ≤ appended ∧
      (if 0 < appended ∧ offset < vol'.bytesPerCluster then cluster
        else (vol.view.entry k i).clus) = first ∧
      Progress ⟨vol, l, (vol.view.entry k i).size, offset, buffer⟩ vol' first l' 0 appended ∧
      l'[q]? = some cluster ∧ q = offset / vol.bytesPerCluster ∧
      (appended ≠ 0 → (vol.view.entry k i).size ≤ q * vol.bytesPerCluster ∧ q + 1 = l'.length)) ∨
    (fatWriteGetFirst offset vol (vol.view.entry k i) = (vol, -1, 0) ∧
      ∀ c, vol.view.Node c → vol.view.next c ≠ 0) := by
  have hm := hv.mounted
  have hbpos := hm.cluster_pos
  rcases hl with ⟨hz, rfl⟩ | hchain
  · -- An empty file: its first cluster is zero, which reads as a free one.
    have hoff0 : offset = 0 := by
      simp at hsize
      omega
    subst hoff0
    have hcall : fatWriteGetFirst 0 vol (vol.view.entry k i) =
        appendedResult (fatAppendClusterChain vol 0) := by
      rw [fatWriteGetFirst, fatLookupFATTable, Nat.zero_div, lookupLoop, hz, if_pos (by decide)]
    rcases append_zero_cases hm with
      ⟨f, vol', heq, hsame, hm', hf, hfree, hchain, hnext, hbyte⟩ | ⟨heq, hnone⟩
    · left
      have hbpc' : vol'.bytesPerCluster = vol.bytesPerCluster := hsame.bytesPerCluster
      refine ⟨vol', 1, f, f, [f], 0, by rw [hcall, heq]; rfl, by decide, ?_, ?_, rfl,
        by rw [Nat.zero_div], fun _ => ⟨by simpa using hsize, rfl⟩⟩
      · rw [if_pos ⟨by decide, by omega⟩]
      · refine ⟨hsame, hm', hchain, ⟨[f], rfl, ?_⟩, hnext, fun c _ => by rw [hbyte], ?_, ?_,
          fun p hp => ?_, fun h => absurd h (by decide)⟩
        · intro c hc
          rw [List.mem_singleton] at hc
          exact hc ▸ hfree
        · simp at hsize
          simp [hsize]
        · simp
        · simp at hsize hp
          omega
    · right
      exact ⟨by rw [hcall, heq]; rfl, hnone⟩
  · have hstart : Progress ⟨vol, l, (vol.view.entry k i).size, offset, buffer⟩ vol
        (vol.view.entry k i).clus l 0 0 := by
      refine ⟨.refl vol, hm, hchain, ⟨[], by simp, by simp⟩, fun _ _ => rfl, fun _ _ => rfl,
        hsize, ?_, fun p _ => ?_, fun _ hmir => hmir⟩
      · dsimp only
        omega
      · rw [WriteJob.image, memcpy_zero]
    by_cases hin : offset < l.length * vol.bytesPerCluster
    · left
      have hc := fatLookupFATTable_eq hm hchain _ hin
      have hread := isReadable hm.fatSize_le (hchain.node_of_mem _ (List.mem_of_getElem? hc))
      rw [fatClusterIsReadable_iff] at hread
      refine ⟨vol, 0, _, _, l, _, ?_, le_rfl, if_neg (by simp), hstart, hc, rfl,
        fun h => absurd rfl h⟩
      rw [fatWriteGetFirst, if_neg (by rw [fatClusterIsFREE_iff]; omega),
        if_neg (by rw [fatClusterIsEOC_iff]; omega),
        if_neg (by rw [fatClusterIsBAD_iff]; omega)]
    · -- The file ends on a cluster boundary and the write starts right behind it.
      have hend : offset = l.length * vol.bytesPerCluster := by omega
      have hq : offset / vol.bytesPerCluster = l.length := by
        rw [hend]
        exact Nat.mul_div_cancel _ hbpos
      have hge : vol.bytesPerCluster ≤ offset := by
        rw [hend]
        exact Nat.le_mul_of_pos_left _ hchain.length_pos
      have hstop : Store.Stop (fatLookupFATTable vol (vol.view.entry k i) offset) :=
        (lookupLoop_chain hm hchain _).2 hq
      have hcall : fatWriteGetFirst offset vol (vol.view.entry k i) =
          appendedResult (fatAppendClusterChain vol (vol.view.entry k i).clus) := by
        have hstop' := hstop
        unfold Store.Stop FAT_EOC at hstop'
        rw [fatWriteGetFirst, if_neg (by rw [fatClusterIsFREE_iff]; omega),
          if_pos (isEOC_of_stop hstop)]
      rcases append_cases hm hchain hchain.head_mem with
        ⟨f, vol', heq, hsame, hm', hf, hfree, hfl, hchain', hnext, hbyte⟩ | ⟨heq, hnone⟩
      · left
        have hbpc' : vol'.bytesPerCluster = vol.bytesPerCluster := hsame.bytesPerCluster
        refine ⟨vol', 1, f, _, l ++ [f], l.length, by rw [hcall, heq]; rfl, by decide,
          if_neg (by omega), hstart.append hsame hm' hfree hfl hchain' hnext hbyte, ?_, hq.symm,
          fun _ => ⟨hsize, by simp⟩⟩
        rw [List.getElem?_append_right le_rfl]
        simp
      · right
        exact ⟨by rw [hcall, heq]; rfl, hnone⟩

end Whole

section Under

variable {p : FaultPattern} {vol : FATVolume} (hv : Ready vol) {path : List UInt8}
  {junk r : SearchResult} {k i : Nat}
  (hsearch : (fatSearchDIREntryUnder p vol path junk).1 = some r)
  (hent : r.entry = vol.view.entry k i) (hat : vol.At r k i) {l : List Nat}
  (hl : vol.view.Clusters (vol.view.entry k i) l)
  (hsize : (vol.view.entry k i).size ≤ l.length * vol.bytesPerCluster)
  (hmask : (vol.view.entry k i).hasAttr writeMask = false) {offset buflen : Nat}
  (hoff : offset ≤ (vol.view.entry k i).size) (hbuf : buflen ≠ 0)
include hv hsearch hent hat hl hsize hmask hoff hbuf

/-- A write of a writable file fails at once because no free cluster is left, or stops in front
of its first cluster, or ends by recording what it has written. -/
lemma fatWriteUnder_ends (buffer : Bytes) (writelen : Nat) (now : Tm) :
    (fatWriteUnder p vol path offset buffer buflen writelen now junk = ⟨vol, -1, 0⟩ ∧
      ∀ c, vol.view.Node c → vol.view.next c ≠ 0) ∨
    ((∃ n, p.cluster n = true) ∧ ∃ first l' appended, offset ≠ 0 ∧
      Progress ⟨vol, l, (vol.view.entry k i).size, offset, buffer⟩
        (fatWriteUnder p vol path offset buffer buflen writelen now junk).vol first l' 0
        appended) ∨
    (∃ search first, SameFile (vol.view.entry k i) search.entry ∧ search.entry.clus = first ∧
      vol.At search k i ∧
      Ends p ⟨vol, l, (vol.view.entry k i).size, offset, buffer⟩ search buflen now first
        (fatWriteUnder p vol path offset buffer buflen writelen now junk)) := by
  have hstart : fatWriteUnder p vol path offset buffer buflen writelen now junk =
      let start := fatWriteGetFirst offset vol (vol.view.entry k i)
      if start.2.1 < 0 then ⟨start.1, -1, 0⟩
      else
        let search :=
          if 0 < start.2.1 ∧ offset < start.1.bytesPerCluster then
            { r with entry := { r.entry with dirFstClus := UInt16.ofNat start.2.2 } }
          else r
        let st : WriteState := ⟨start.1, start.2.2, start.2.1, 0, buflen, offset, 0⟩
        if offset % start.1.bytesPerCluster ≠ 0 then
          writeHeadUnder p search buffer buflen now offset st
        else writeLoopUnder p search buffer buflen now buflen 0 st := by
    rw [fatWriteUnder, if_neg hbuf, hsearch]
    dsimp only
    rw [hent, ← writeMask, hmask, if_neg (by simp)]
    exact if_neg (by omega)
  rcases writeGetFirst_cases hv hl hsize hoff buffer with
    ⟨vol', appended, cluster, first, l', q, hfirst, happ, hclus, hprog, hq, hqeq, hfresh⟩ |
      ⟨hfirst, hnone⟩
  · right
    rw [hstart, hfirst]
    dsimp only
    rw [if_neg (by omega)]
    obtain ⟨search, hs⟩ : ∃ s, s = if 0 < appended ∧ offset < vol'.bytesPerCluster then
      { r with entry := { r.entry with dirFstClus := UInt16.ofNat cluster } } else r := ⟨_, rfl⟩
    rw [← hs]
    have hcursor : Cursor ⟨vol, l, (vol.view.entry k i).size, offset, buffer⟩ buflen first l' q 0
        ⟨vol', cluster, appended, 0, buflen, offset, 0⟩ :=
      ⟨hprog, hq, hfresh, rfl, rfl, rfl, rfl⟩
    have hbpc : vol'.bytesPerCluster = vol.bytesPerCluster := hprog.same.bytesPerCluster
    have hfile : SameFile (vol.view.entry k i) search.entry := by
      rw [hs, ← hent]
      split <;> exact ⟨rfl, rfl, rfl⟩
    have hfst : search.entry.clus = first := by
      rw [← hclus, hs]
      split
      · exact UInt16.toNat_ofNat_of_lt (hprog.mounted.node_lt
          (hprog.chain.node_of_mem _ (List.mem_of_getElem? hq)))
      · rw [hent]
    have hplace : vol.At search k i := by
      rw [hs]
      split <;> exact hat
    split <;> rename_i hhead
    · have hends := @writeHeadUnder_ends p _ search _ _ now _ _ _ hv.faultless hcursor hqeq
      rcases hends with ⟨hfails, hvol⟩ | hends
      · left
        refine ⟨hfails, first, l', appended, ?_, ?_⟩
        · intro hzero
          rw [hzero, Nat.zero_mod] at hhead
          exact hhead rfl
        · rw [hvol]
          exact hprog
      · exact .inr ⟨search, first, hfile, hfst, hplace, hends⟩
    · right
      refine ⟨search, first, hfile, hfst, hplace, ?_⟩
      rw [not_not, hbpc] at hhead
      apply writeLoopUnder_ends hv.faultless hcursor _ le_rfl
      have hdiv := Nat.div_add_mod' offset vol.bytesPerCluster
      dsimp only
      rw [hqeq]
      omega
  · left
    rw [hstart, hfirst]
    exact ⟨rfl, hnone⟩

end Under

/-! ## The store after a write -/

/-- The first `n` bytes of the buffer are spliced into the file at slot `(k, i)`;
the other owners keep their clusters, and these keep their bytes, the slot apart. -/
structure Store.Spliced (s s' : Store) (k i : Nat) (l : List Nat) (offset n : Nat)
    (buffer : Bytes) : Prop where
  size_eq : (s'.entry k i).size = max (s.entry k i).size (offset + n)
  content_eq : ∃ l', s'.Clusters (s'.entry k i) l' ∧ ∀ p < (s'.entry k i).size,
    s'.content l' p = memcpy (s.content l) offset buffer 0 n p
  owners_iff : ∀ o m, o ≠ some (k, i) → (s'.Owns o m ↔ s.Owns o m)
  bytes_eq : ∀ o m c t, o ≠ some (k, i) → s.Owns o m → c ∈ m →
    ¬(c = k ∧ entrySize * i ≤ t ∧ t < entrySize * i + entrySize) → s'.byte c t = s.byte c t

/-- The entry a write records keeps its name and attributes and has the size of the file. -/
lemma Progress.recorded {j : WriteJob} {vol : FATVolume} {first n : Nat} {l : List Nat}
    {appended : Int} (h : Progress j vol first l n appended) {search : SearchResult}
    (hclus : search.entry.clus = first) (hsize : search.entry.size = j.size) {now : Tm}
    {e : DirEntry}
    (he : e = fatUpdateTimestamps
      (if search.entry.size < j.offset + n then
        { search.entry with dirFileSize := UInt32.ofNat (j.offset + n) } else search.entry)
      .write now) :
    e.dirName = search.entry.dirName ∧ e.dirAttr = search.entry.dirAttr ∧ e.clus = first ∧
      e.size = max j.size (j.offset + n) := by
  refine ⟨?_, ?_, ?_, ?_⟩
  · rw [he, fatUpdateTimestamps_dirName]
    split <;> rfl
  · rw [he, fatUpdateTimestamps_dirAttr]
    split <;> rfl
  · rw [← hclus, DirEntry.clus, DirEntry.clus, he, fatUpdateTimestamps_dirFstClus]
    split <;> rfl
  · rw [← hsize, DirEntry.size, he, fatUpdateTimestamps_dirFileSize]
    have hlt := h.position_lt
    have hval : (UInt32.ofNat (j.offset + n)).toNat = j.offset + n :=
      UInt32.toNat_ofNat_of_lt hlt
    split <;> rename_i hgrow
    · exact hval.trans (by omega)
    · rw [← DirEntry.size]
      omega

/-- Recording the size and storing the entry. -/
lemma Progress.finish {j : WriteJob} {vol : FATVolume} {first n : Nat} {l : List Nat}
    {appended : Int} (h : Progress j vol first l n appended) (hfault : j.vol.ctx.Faultless)
    {search : SearchResult} {k i : Nat} (hat : j.vol.At search k i) (hk : j.vol.view.Node k)
    (hi : i < j.vol.items) (hclus : search.entry.clus = first)
    (hsize : search.entry.size = j.size) (now : Tm) :
    ∃ e, vol.Same (fatWriteUpdateOnDisk appended (j.offset + n) vol search now) ∧
      (fatWriteUpdateOnDisk appended (j.offset + n) vol search now).Mounted ∧
      (j.vol.Mirrored → (fatWriteUpdateOnDisk appended (j.offset + n) vol search now).Mirrored) ∧
      (fatWriteUpdateOnDisk appended (j.offset + n) vol search now).view =
        vol.view.putEntry k i e ∧
      e.dirName = search.entry.dirName ∧ e.dirAttr = search.entry.dirAttr ∧ e.clus = first ∧
      e.size = max j.size (j.offset + n) := by
  obtain ⟨e, he⟩ : ∃ e, e = fatUpdateTimestamps
    (if search.entry.size < j.offset + n then
      { search.entry with dirFileSize := UInt32.ofNat (j.offset + n) } else search.entry)
    .write now := ⟨_, rfl⟩
  -- The volume the entry is stored on: flushed when the chain has grown.
  obtain ⟨vol₁, hvol₁⟩ : ∃ v, v = if appended ≠ 0 then (fatWriteFATTable vol).1 else vol :=
    ⟨_, rfl⟩
  have hflush : vol.Same vol₁ ∧ vol₁.Mounted ∧ (j.vol.Mirrored → vol₁.Mirrored) ∧
      vol₁.view = vol.view := by
    rw [hvol₁]
    split <;> rename_i happ
    · rw [h.mounted.writeFATTable_eq (h.same.serves (hfault .write))]
      exact ⟨.flush _, h.mounted.flush, fun _ => FATVolume.mirrored_flush,
        FATVolume.view_flush h.mounted⟩
    · rw [not_not] at happ
      exact ⟨.refl vol, h.mounted, h.mirrored happ, rfl⟩
  obtain ⟨hs₁, hm₁, hmir₁, hview₁⟩ := hflush
  have hs := h.same.trans hs₁
  have hi₁ : i < vol₁.items := by rwa [hs.items]
  have hcall : fatWriteUpdateOnDisk appended (j.offset + n) vol search now =
      vol₁.putEntry k i e := by
    rw [fatWriteUpdateOnDisk, ← hvol₁, ← he]
    rw [hm₁.writeDIREntry_eq (hs.serves (hfault .read)) (hs.serves (hfault .write) _ _)
      (hs.node hk) hi₁ (show vol₁.At { search with entry := e } k i from hs.at hat)]
  refine ⟨e, ?_⟩
  rw [hcall]
  refine ⟨hs₁.trans (.putEntry k i e), hm₁.putEntry k i e,
    fun hmir => .putEntry hm₁ (hmir₁ hmir) k i e, ?_, h.recorded hclus hsize he⟩
  rw [FATVolume.view_putEntry hm₁ (hs.node hk) hi₁, hview₁]

/-- What a write that got past its checks leaves behind. -/
structure Written (vol vol' : FATVolume) (k i : Nat) (l new : List Nat) (offset n : Nat)
    (buffer : Bytes) : Prop where
  same : vol.Same vol'
  mounted : vol'.Mounted
  mirrored : vol.Mirrored → vol'.Mirrored
  update : Store.Update vol.view vol'.view k i l (l ++ new)
  free : ∀ c ∈ new, vol.view.next c = 0
  name_eq : (vol'.view.entry k i).dirName = (vol.view.entry k i).dirName
  attr_eq : (vol'.view.entry k i).dirAttr = (vol.view.entry k i).dirAttr
  size_eq : (vol'.view.entry k i).size = max (vol.view.entry k i).size (offset + n)
  content_eq : ∀ p < (vol'.view.entry k i).size,
    vol'.view.content (l ++ new) p = memcpy (vol.view.content l) offset buffer 0 n p
  byte_eq : ∀ c t, c ∉ l ++ new →
    ¬(c = k ∧ entrySize * i ≤ t ∧ t < entrySize * i + entrySize) →
    vol'.view.byte c t = vol.view.byte c t

/-- The slot of a file lies outside of its clusters and of those it grows by. -/
lemma slot_not_mem {vol : FATVolume} (hv : Ready vol) {k i : Nat}
    (hitem : vol.view.Item k i) {l new : List Nat}
    (hl : vol.view.Clusters (vol.view.entry k i) l)
    (hfree : ∀ c ∈ new, vol.view.next c = 0) : k ∉ l ++ new := by
  intro hmem
  rcases List.mem_append.mp hmem with hmem | hmem
  · exact hv.sound.slot_not_own hitem hl hmem
  · exact hv.sound.ne_of_unowned hitem.1 (Store.unowned_of_free (hfree k hmem)) rfl

/-- The store behind a write, its entry rewritten or not, is an update of the one slot. -/
lemma Progress.update {vol : FATVolume} (hv : Ready vol) {k i : Nat}
    (hitem : vol.view.Item k i) {l new : List Nat}
    (hl : vol.view.Clusters (vol.view.entry k i) l) {size offset first n : Nat} {buffer : Bytes}
    {appended : Int} {vol₁ : FATVolume}
    (h : Progress ⟨vol, l, size, offset, buffer⟩ vol₁ first (l ++ new) n appended)
    (hfree : ∀ c ∈ new, vol.view.next c = 0) {s : Store} (hfat : s.fatSize = vol₁.view.fatSize)
    (hroot : s.root = vol₁.view.root) (hitems : s.slots = vol₁.view.slots)
    (hbpc : s.bpc = vol₁.view.bpc) (hnext : s.next = vol₁.view.next)
    (hbyte : ∀ c ≠ k, s.byte c = vol₁.view.byte c)
    (hslot : ∀ t, ¬(entrySize * i ≤ t ∧ t < entrySize * i + entrySize) →
      s.byte k t = vol₁.view.byte k t)
    (hlive : Live (s.entry k i)) (hclus : (s.entry k i).clus = first)
    (hfile : (s.entry k i).isDir = false)
    (hsize : (s.entry k i).isLink = false →
      (s.entry k i).size ≤ (l ++ new).length * vol.bytesPerCluster) :
    k ∉ l ++ new ∧ Store.Update vol.view s k i l (l ++ new) := by
  have hkl := slot_not_mem hv hitem hl hfree
  have hbytek : vol₁.view.byte k = vol.view.byte k := h.byte_frame k hkl
  refine ⟨hkl, ?_⟩
  constructor
  case fatSize_eq => exact hfat.trans h.same.fatSize
  case root_eq => exact hroot.trans (congrArg (fun pb => pb.rootClus.toNat) h.same.pb)
  case slots_eq => exact hitems.trans h.same.items
  case bpc_eq => exact hbpc.trans h.same.bytesPerCluster
  case slot => exact hitem.1
  case old => exact hitem.holds hl
  case new =>
    refine ⟨fun _ => .inr ?_, fun hnot => absurd hlive hnot⟩
    rw [hclus]
    have hnode : s.Node = vol₁.view.Node := by
      funext c
      simp [Store.Node, hfat]
    rw [Store.Chain, hnext, hnode]
    exact h.chain
  case fresh =>
    intro c hc hcl
    rcases List.mem_append.mp hc with hc | hc
    · exact absurd hc hcl
    · exact Store.unowned_of_free (hfree c hc)
  case next_frame =>
    intro c _ hc
    rw [hnext]
    exact h.next_frame c hc
  case byte_frame =>
    intro c hc hck
    rw [hbyte c hck]
    exact h.byte_frame c hc
  case slot_frame =>
    intro t ht _
    refine DirEntry.decode_congr fun a ha => ?_
    rw [shift_apply, shift_apply, hslot _ (by unfold entrySize at *; omega), hbytek]
  case dir =>
    intro _ hdir
    rw [hfile] at hdir
    contradiction
  case size => exact fun _ hlink => hsize hlink

section Result

variable {vol : FATVolume} (hv : Ready vol) {path : List UInt8} {junk : SearchResult} {k i : Nat}
  (hitem : vol.view.Item k i) {l : List Nat}
  (hl : vol.view.Clusters (vol.view.entry k i) l)
  (hmask : (vol.view.entry k i).hasAttr writeMask = false) {offset : Nat} {buffer : Bytes}
include hv hitem hl hmask

/-- A write that ends has spliced in what it wrote. -/
lemma Ends.written {search : SearchResult} {first len : Nat} {now : Tm} {out : WriteOut}
    (hfile : SameFile (vol.view.entry k i) search.entry) (hclus : search.entry.clus = first)
    (hat : vol.At search k i)
    (h : Ends .none ⟨vol, l, (vol.view.entry k i).size, offset, buffer⟩ search len now first
      out) :
    ∃ new, Written vol out.vol k i l new offset out.writelen buffer ∧
      ((out.ret = 0 ∧ out.writelen = len) ∨
        (out.ret = -1 ∧ ∀ c, out.vol.view.Node c → out.vol.view.next c ≠ 0)) := by
  obtain ⟨vol₁, l₁, appended, hprog, hout, hret⟩ := h
  rw [fatWriteUpdateOnDiskUnder_none] at hout
  obtain ⟨new, hgrown, hfree⟩ := hprog.grown
  subst hgrown
  have hk : vol.view.Node k := by
    obtain ⟨d, -, hin⟩ := hitem.1
    exact hin.node
  have hi : i < vol.items := by
    obtain ⟨d, -, hin⟩ := hitem.1
    exact hin.2.1
  obtain ⟨e, hsame, hm, hmir, hview, hname, hattr, hfirst, hsize⟩ :=
    hprog.finish hv.faultless hat hk hi hclus (congrArg UInt32.toNat hfile.2.2) now
  rw [← hout] at hsame hm hmir hview
  dsimp only at hsize
  have hentry : out.vol.view.entry k i = e := by rw [hview, Store.entry_putEntry_self]
  have hslots : ∀ t, ¬(entrySize * i ≤ t ∧ t < entrySize * i + entrySize) →
      out.vol.view.byte k t = vol₁.view.byte k t := by
    intro t ht
    rw [hview, Store.byte_putEntry_self, memcpy_apply_not_mem (by omega)]
  have hlong : max (vol.view.entry k i).size (offset + out.writelen) ≤
      (l ++ new).length * vol.bytesPerCluster := by
    have h1 := hprog.size_le
    have h2 := hprog.done_le
    dsimp only at h1 h2
    omega
  have hlive : Live e := by
    rw [Live, DirEntry.mark, hname, hfile.1]
    exact hitem.2
  have hisDir : e.isDir = false := by
    rw [DirEntry.isDir, DirEntry.hasAttr, hattr, hfile.2.1]
    exact hasAttr_of_mask writeMask (by decide) hmask
  have hall := hprog.same.trans hsame
  obtain ⟨hkl, hupdate⟩ := hprog.update hv hitem hl hfree (s := out.vol.view) (by rw [hview]; rfl)
    (by rw [hview]; rfl) (by rw [hview]; rfl) (by rw [hview]; rfl) (by rw [hview]; rfl)
    (fun c hck => by rw [hview, Store.byte_putEntry_ne i e hck]) hslots (hentry ▸ hlive)
    (by rw [hentry, hfirst]) (by rw [hentry, hisDir]) (fun _ => by rw [hentry, hsize]; exact hlong)
  refine ⟨new, ⟨hall, hm, hmir, hupdate, hfree, ?_, ?_, ?_,
    fun p hp => ?_, fun c t hc ht => ?_⟩, ?_⟩
  · rw [hentry, hname, hfile.1]
  · rw [hentry, hattr, hfile.2.1]
  · rw [hentry, hsize]
  · rw [hentry, hsize] at hp
    have hsplice := hprog.splice p (by dsimp only; omega)
    rw [WriteJob.image] at hsplice
    rw [← hsplice, hview]
    refine @Store.content_congr vol₁.view (vol₁.view.putEntry k i e) _ rfl
      (fun c hc => Store.byte_putEntry_ne i e fun heq : c = k => hkl (heq ▸ hc)) _ ?_
    rw [hprog.bpc_eq]
    dsimp only
    omega
  · by_cases hck : c = k
    · subst hck
      rw [hslots t fun hin => ht ⟨rfl, hin⟩]
      exact congrFun (hprog.byte_frame c hc) t
    · rw [hupdate.byte_frame c hc hck]
  · rcases hret with hok | ⟨hfail, -, hnone⟩ | ⟨n, hfails⟩
    · exact .inl hok
    · refine .inr ⟨hfail, fun c hc => ?_⟩
      have hnode : vol₁.view.Node c := by
        rw [hview] at hc
        exact hc
      rw [hview]
      exact hnone c hnode
    · contradiction

omit hl in
/-- What was written is spliced in, and nothing else has changed. -/
lemma Written.spliced {vol' : FATVolume} {new : List Nat} {n : Nat}
    (h : Written vol vol' k i l new offset n buffer) :
    Store.Spliced vol.view vol'.view k i l offset n buffer := by
  have hdir : (vol.view.entry k i).isDir = false :=
    hasAttr_of_mask writeMask (by decide) hmask
  have hlive : Live (vol'.view.entry k i) := by
    rw [Live, DirEntry.mark, h.name_eq]
    exact hitem.2
  refine ⟨h.size_eq, ⟨l ++ new, h.update.new.1 hlive, h.content_eq⟩, fun o m hne => ⟨?_, ?_⟩, ?_⟩
  · intro ho
    rcases h.update.owns_cases hv.sound ho with ⟨rfl, -⟩ | ⟨-, ho⟩
    · exact absurd rfl hne
    · exact ho
  · intro ho
    refine h.update.owns_mono hv.sound (fun _ hattr => ?_) ho hne
    rw [hdir] at hattr
    contradiction
  · intro o m c t hne ho hc ht
    exact h.byte_eq c t ((h.update.disjoint_other hv.sound ho hne).2 hc) ht

omit hv hitem hmask in
/-- Nothing written leaves nothing to splice. -/
lemma spliced_zero (hoff : offset ≤ (vol.view.entry k i).size) :
    Store.Spliced vol.view vol.view k i l offset 0 buffer := by
  refine ⟨?_, ⟨l, hl, fun p _ => ?_⟩, fun _ _ _ => Iff.rfl, fun _ _ _ _ _ _ _ _ => rfl⟩
  · omega
  · rw [memcpy_zero]

end Result

section Main

variable {vol : FATVolume} (hv : Ready vol) {path : List UInt8} {junk : SearchResult} {k i : Nat}
  {offset : Nat} {buffer : Bytes} {buflen writelen : Nat} {now : Tm}
include hv

/-- A write past its checks: everything is spliced in, or what was written before the free
clusters ran out. -/
lemma fatWrite_outcome (hlead : Leads vol path junk k i)
    (hmask : (vol.view.entry k i).hasAttr writeMask = false) {l : List Nat}
    (hl : vol.view.Clusters (vol.view.entry k i) l) (hoff : offset ≤ (vol.view.entry k i).size)
    (buffer : Bytes) (writelen : Nat) (now : Tm) (hbuf : buflen ≠ 0) :
    ((∃ new, Written vol (fatWrite vol path offset buffer buflen writelen now junk).vol k i l new
        offset (fatWrite vol path offset buffer buflen writelen now junk).writelen buffer) ∨
      (fatWrite vol path offset buffer buflen writelen now junk).vol = vol ∧
        (fatWrite vol path offset buffer buflen writelen now junk).writelen = 0) ∧
    (((fatWrite vol path offset buffer buflen writelen now junk).ret = 0 ∧
        (fatWrite vol path offset buffer buflen writelen now junk).writelen = buflen) ∨
      ((fatWrite vol path offset buffer buflen writelen now junk).ret = -1 ∧
        ∀ c, (fatWrite vol path offset buffer buflen writelen now junk).vol.view.Node c →
          (fatWrite vol path offset buffer buflen writelen now junk).vol.view.next c ≠ 0)) := by
  have hitem : vol.view.Item k i := by
    obtain ⟨r, -, hfound⟩ := hlead
    exact hfound.item
  have hsize : (vol.view.entry k i).size ≤ l.length * vol.bytesPerCluster := by
    obtain ⟨m, hm, -, hlen⟩ := hv.sound.item_chain k i hitem
    obtain rfl := hv.sound.clusters_unique hl hm
    exact hlen (hasAttr_of_mask writeMask (by decide) hmask)
  obtain ⟨r, hsearch, hfound⟩ := hlead
  rw [← fatSearchDIREntryUnder_none] at hsearch
  have hends := fatWriteUnder_ends hv hsearch hfound.entry_eq hfound.place hl hsize hmask hoff hbuf
    buffer writelen now
  rw [fatWriteUnder_none] at hends
  rcases hends with ⟨heq, hnone⟩ | ⟨⟨n, hfails⟩, -⟩ | ⟨search, first, hfile, hclus, hat, hends⟩
  · rw [heq]
    exact ⟨.inr ⟨rfl, rfl⟩, .inr ⟨rfl, hnone⟩⟩
  · contradiction
  · obtain ⟨new, hwritten, hret⟩ := hends.written hv hitem hl hmask hfile hclus hat
    exact ⟨.inl ⟨new, hwritten⟩, hret⟩

/-- `FAT_write` is one abstract write, or leaves the store as it was. -/
theorem fatWrite_refines (hplain : PlainPath path) :
    Refines vol (fatWrite vol path offset buffer buflen writelen now junk).vol fun a =>
      ∃ k i, Leads vol path junk k i ∧ a = .write k i := by
  by_cases hbuf : buflen = 0
  · rw [fatWrite, if_pos hbuf]
    exact .refl hv.mounted
  cases hsearch : fatSearchDIREntry vol path junk with
  | none =>
    rw [fatWrite, if_neg hbuf, hsearch]
    exact .refl hv.mounted
  | some r =>
    obtain ⟨k, i, hfound⟩ :=
      fatSearchDIREntry_found hv.sound hv.mounted hv.reads hplain hsearch
    by_cases hmask : (vol.view.entry k i).hasAttr writeMask = true
    · rw [fatWrite, if_neg hbuf, hsearch]
      dsimp only
      rw [hfound.entry_eq, ← writeMask, if_pos hmask]
      exact .refl hv.mounted
    rw [Bool.not_eq_true] at hmask
    by_cases hoff : (vol.view.entry k i).size < offset
    · rw [fatWrite, if_neg hbuf, hsearch]
      dsimp only
      rw [hfound.entry_eq, ← writeMask, hmask, if_neg (by simp), if_pos hoff]
      exact .refl hv.mounted
    obtain ⟨l, hl, -⟩ := hv.sound.item_chain k i hfound.item
    have hlead : Leads vol path junk k i := ⟨r, hsearch, hfound⟩
    obtain ⟨⟨new, h⟩ | ⟨hvol, -⟩, -⟩ := fatWrite_outcome hv hlead hmask hl
      (Nat.le_of_not_lt hoff) buffer writelen now hbuf
    · refine ⟨h.same, h.mounted, h.mirrored, .inr ⟨.write k i, ⟨k, i, hlead, rfl⟩, ?_⟩⟩
      exact .write hfound.item (hasAttr_of_mask writeMask (by decide) hmask) h.update
        h.name_eq h.attr_eq h.free
    · rw [hvol]
      exact .refl hv.mounted

/-- `FAT_write` splices its bytes into the file and frames everything else; it fails
on a writable file only when no free cluster is left, and then has spliced in what it
reports. -/
theorem fatWrite_splices (hlead : Leads vol path junk k i) {l : List Nat}
    (hl : vol.view.Clusters (vol.view.entry k i) l)
    (hoff : offset ≤ (vol.view.entry k i).size) :
    ((fatWrite vol path offset buffer buflen writelen now junk).ret = 0 →
      (fatWrite vol path offset buffer buflen writelen now junk).writelen = buflen ∧
      Store.Spliced vol.view (fatWrite vol path offset buffer buflen writelen now junk).vol.view
        k i l offset buflen buffer) ∧
    ((fatWrite vol path offset buffer buflen writelen now junk).ret = -1 → buflen ≠ 0 →
      (vol.view.entry k i).hasAttr writeMask = false →
      (∀ c, (fatWrite vol path offset buffer buflen writelen now junk).vol.view.Node c →
        (fatWrite vol path offset buffer buflen writelen now junk).vol.view.next c ≠ 0) ∧
      Store.Spliced vol.view (fatWrite vol path offset buffer buflen writelen now junk).vol.view
        k i l offset (fatWrite vol path offset buffer buflen writelen now junk).writelen
        buffer) := by
  obtain ⟨r, hsearch, hfound⟩ := id hlead
  by_cases hbuf : buflen = 0
  · have hret : (fatWrite vol path offset buffer buflen writelen now junk).ret = -1 := by
      rw [fatWrite, if_pos hbuf]
    exact ⟨fun h => by simp [hret] at h, fun _ h => absurd hbuf h⟩
  by_cases hmask : (vol.view.entry k i).hasAttr writeMask = false
  · obtain ⟨hstore, hret⟩ := fatWrite_outcome hv hlead hmask hl hoff buffer writelen now
      hbuf
    have hspliced : Store.Spliced vol.view
        (fatWrite vol path offset buffer buflen writelen now junk).vol.view k i l offset
        (fatWrite vol path offset buffer buflen writelen now junk).writelen buffer := by
      rcases hstore with ⟨new, hwritten⟩ | ⟨hvol, hzero⟩
      · exact hwritten.spliced hv hfound.item hmask
      · rw [hvol, hzero]
        exact spliced_zero hl hoff
    rcases hret with ⟨hok, hlen⟩ | ⟨hfail, hnone⟩
    · rw [hlen] at hspliced
      exact ⟨fun _ => ⟨hlen, hspliced⟩, fun h => by simp [hok] at h⟩
    · exact ⟨fun h => by simp [hfail] at h, fun _ _ _ => ⟨hnone, hspliced⟩⟩
  · have hret : (fatWrite vol path offset buffer buflen writelen now junk).ret = -1 := by
      rw [fatWrite, if_neg hbuf, hsearch]
      dsimp only
      rw [hfound.entry_eq, ← writeMask, if_pos (by simpa using hmask)]
    exact ⟨fun h => by simp [hret] at h, fun _ _ h => absurd h hmask⟩

end Main

/-- On the small volume 100 bytes written from offset 190 on overwrite the last ten bytes and
grow the file by a cluster. -/
theorem fatWrite_splices_small :
    (fatWrite small smallPath 190 (fun _ => 7) 100 0 ⟨0, 0, 0, 1, 0, 100⟩
      ⟨smallFile, 0, 0, 0⟩).ret = 0 ∧
    Store.Spliced small.view (fatWrite small smallPath 190 (fun _ => 7) 100 0
      ⟨0, 0, 0, 1, 0, 100⟩ ⟨smallFile, 0, 0, 0⟩).vol.view 2 0 [3, 4] 190 100 (fun _ => 7) := by
  have hret : (fatWrite small smallPath 190 (fun _ => 7) 100 0 ⟨0, 0, 0, 1, 0, 100⟩
      ⟨smallFile, 0, 0, 0⟩).ret = 0 := by decide +kernel
  exact ⟨hret, ((fatWrite_splices small_ready (small_leads _) small_clusters
    (by rw [small_entry_zero]; decide)).1 hret).2⟩

end DiegOS.Fat
