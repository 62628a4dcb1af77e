import DiegOS.Support.Bitmaps

/-!
# Walks over bitmaps

`bitmap_for_each_set` and `bitmap_for_each_clear` of `bitmaps.h`.  The callback may
change the bit of the position that it is called with.

Main results:

- Theorem `Walk.Ahead.eachBit`: the loop over the bits of a long.
- Theorem `forEachSet_calls`: the calls of `bitmap_for_each_set`.
- Theorem `forEachClear_calls`: the calls of `bitmap_for_each_clear`.
- Theorem `walks_right_iff`: when both are right.
-/

namespace DiegOS.Support.Bitmap

variable {σ : Type}

/-- `bitmapcb`, with what `param` and everything else the callback changes amount to. -/
abbrev Callback (σ : Type) := List Long → Nat → σ → List Long × σ

/-- A callback that changes no bit but that of its position. -/
def Callback.OwnBit (cbfn : Callback σ) : Prop :=
  ∀ bitmap p s, (cbfn bitmap p s).1.length = bitmap.length ∧
    ∀ q, q ≠ p → isSet (cbfn bitmap p s).1 q = isSet bitmap q

/-- The bitmap and the data of the callback, and the positions it was called with so far. -/
structure Walk (σ : Type) where
  bitmap : List Long
  param : σ
  calls : List Nat

/-- `cbfn(bitmap, bitpos, param)` -/
def Walk.call (cbfn : Callback σ) (bitpos : Nat) (w : Walk σ) : Walk σ :=
  ⟨(cbfn w.bitmap bitpos w.param).1, (cbfn w.bitmap bitpos w.param).2, w.calls ++ [bitpos]⟩

/-- The body of the loops over the bits of long `i`: a call for a bit that is set, or for a
bit that is clear. -/
def testBit (wanted : Bool) (cbfn : Callback σ) (i : Nat) (j : Long) (k : Nat) (w : Walk σ) :
    Walk σ :=
  if decide (w.bitmap.getD i 0 &&& j ≠ 0) = wanted then w.call cbfn ((i * BINL + k) % WORD) else w

/-- `for (j = 1, k = 0; j; j += j, k++)` -/
def eachBit (wanted : Bool) (cbfn : Callback σ) (i : Nat) : Nat → Long → Nat → Walk σ → Walk σ
  | 0, _, _, w => w
  | n + 1, j, k, w =>
    if j = 0 then w
    else eachBit wanted cbfn i n (j + j) (k + 1) (testBit wanted cbfn i j k w)

/-- The loop of `bitmap_for_each_set` with `n` longs left. -/
def forEachSetFrom (cbfn : Callback σ) : Nat → Nat → Walk σ → Walk σ
  | 0, _, w => w
  | n + 1, i, w =>
    if w.bitmap.getD i 0 ≠ 0 then
      forEachSetFrom cbfn n (i + 1) (eachBit true cbfn i (BINL + 1) 1 0 w)
    else forEachSetFrom cbfn n (i + 1) w

/-- `bitmap_for_each_set` -/
def forEachSet (bitmap : List Long) (leninlongs : Nat) (cbfn : Callback σ) (param : σ) : Walk σ :=
  forEachSetFrom cbfn leninlongs 0 ⟨bitmap, param, []⟩

/-- The loop of `bitmap_for_each_clear`, for so many rounds at most.  A long of all ones
leaves `i` as it is. -/
def forEachClearFrom (cbfn : Callback σ) (leninlongs : Nat) : Nat → Nat → Walk σ → Option (Walk σ)
  | 0, _, _ => none
  | n + 1, i, w =>
    if i < leninlongs then
      if -1 ≠ w.bitmap.getD i 0 then
        forEachClearFrom cbfn leninlongs n (i + 1) (eachBit false cbfn i (BINL + 1) 1 0 w)
      else forEachClearFrom cbfn leninlongs n i w
    else some w

/-- `bitmap_for_each_clear`, for so many rounds at most. -/
def forEachClear (bitmap : List Long) (leninlongs : Nat) (cbfn : Callback σ) (param : σ)
    (rounds : Nat) : Option (Walk σ) :=
  forEachClearFrom cbfn leninlongs rounds 0 ⟨bitmap, param, []⟩

/-- The positions below a bound that are set, or those that are clear, in order. -/
def positions (wanted : Bool) (bitmap : List Long) (n : Nat) : List Nat :=
  (List.range n).filter fun q => isSet bitmap q = wanted

/-- The walks over the bitmap do what they should, whatever a callback does to its own bit. -/
def WalksRight (bitmap : List Long) (leninlongs : Nat) : Prop :=
  ∀ (σ : Type) (cbfn : Callback σ) (param : σ), cbfn.OwnBit →
    (∃ rounds w, forEachClear bitmap leninlongs cbfn param rounds = some w ∧
      w.calls = positions false bitmap (leninlongs * BINL)) ∧
    (forEachSet bitmap leninlongs cbfn param).calls = positions true bitmap (leninlongs * BINL)

variable {bitmap : List Long} {cbfn : Callback σ} {wanted : Bool} {w : Walk σ}
  {i k n p leninlongs : Nat}

lemma positions_succ (wanted : Bool) (bitmap : List Long) (p : Nat) :
    positions wanted bitmap (p + 1) =
      positions wanted bitmap p ++ if isSet bitmap p = wanted then [p] else [] := by
  rw [positions, List.range_succ, List.filter_append, positions]
  congr 1
  split <;> simp [*]

/-- The walk has come to a position: it made its calls, and has changed nothing further on. -/
structure Walk.Ahead (wanted : Bool) (bitmap : List Long) (p : Nat) (w : Walk σ) : Prop where
  same : ∀ q, p ≤ q → isSet w.bitmap q = isSet bitmap q
  calls : w.calls = positions wanted bitmap p

namespace Walk.Ahead

lemma start (wanted : Bool) (bitmap : List Long) (param : σ) :
    Walk.Ahead wanted bitmap 0 ⟨bitmap, param, []⟩ :=
  ⟨fun _ _ => rfl, rfl⟩

/-- One bit. -/
lemma testBit (hown : cbfn.OwnBit) (h : w.Ahead wanted bitmap (i * BINL + k)) (hk : k < 32)
    (hword : i * BINL + k < WORD) :
    (Bitmap.testBit wanted cbfn i (1#32 <<< k) k w).Ahead wanted bitmap (i * BINL + (k + 1)) := by
  have hbit : decide (w.bitmap.getD i 0 &&& 1#32 <<< k ≠ 0) = isSet bitmap (i * BINL + k) := by
    rw [← h.same _ le_rfl, isSet_pos _ _ hk]
    have hzero := and_mask_eq_zero (w.bitmap.getD i 0) hk
    cases hget : (w.bitmap.getD i 0).getLsbD k with
    | false => exact decide_eq_false (not_not.mpr (hzero.mpr hget))
    | true =>
      apply decide_eq_true
      intro hand
      rw [hzero.mp hand] at hget
      cases hget
  rw [Bitmap.testBit, hbit, Nat.mod_eq_of_lt hword]
  split
  · next hcall =>
      constructor
      · intro q hq
        rw [Walk.call]
        exact ((hown _ _ _).2 q (by omega)).trans (h.same q (by omega))
      · rw [Walk.call, ← Nat.add_assoc, positions_succ, if_pos hcall, h.calls]
  · next hcall =>
      constructor
      · exact fun q hq => h.same q (by omega)
      · rw [← Nat.add_assoc, positions_succ, if_neg hcall, h.calls, List.append_nil]

/-- The bits of a long, from one of them on. -/
theorem eachBit (hown : cbfn.OwnBit) (hword : i * BINL + 32 ≤ WORD) (n : Nat) :
    ∀ {k : Nat} {w : Walk σ}, w.Ahead wanted bitmap (i * BINL + k) → k ≤ 32 → 32 < k + n →
      (Bitmap.eachBit wanted cbfn i n (1#32 <<< k) k w).Ahead wanted bitmap (i * BINL + 32) := by
  induction n with
  | zero =>
    intro k w _ hk hn
    omega
  | succ n ih =>
    intro k w h hk hn
    rw [Bitmap.eachBit]
    by_cases hend : 32 ≤ k
    · obtain rfl : k = 32 := by omega
      rw [if_pos ((mask_eq_zero _).mpr le_rfl)]
      exact h
    · rw [if_neg (mt (mask_eq_zero k).mp hend), mask_add_self]
      exact ih (h.testBit hown (by omega) (by omega)) (by omega) (by omega)

/-- All bits of a long. -/
lemma eachLong (hown : cbfn.OwnBit) (hword : i * BINL + 32 ≤ WORD)
    (h : w.Ahead wanted bitmap (i * BINL)) :
    (Bitmap.eachBit wanted cbfn i (BINL + 1) 1 0 w).Ahead wanted bitmap (i * BINL + 32) := by
  have hone : (1#32 <<< 0 : Long) = 1 := rfl
  have hall := eachBit (k := 0) hown hword (BINL + 1) h (Nat.zero_le _) (by decide)
  rwa [hone] at hall

/-- A long that is ahead is as it was. -/
lemma getD_eq (h : w.Ahead wanted bitmap (i * BINL)) :
    w.bitmap.getD i 0 = bitmap.getD i 0 := by
  apply BitVec.eq_of_getLsbD_eq
  intro k hk
  rw [← isSet_pos w.bitmap i hk, ← isSet_pos bitmap i hk]
  exact h.same _ (Nat.le_add_right _ _)

/-- A long of zeros has nothing to call for. -/
lemma skip (hzero : bitmap.getD i 0 = 0) (h : w.Ahead true bitmap (i * BINL)) (k : Nat) :
    k ≤ 32 → w.Ahead true bitmap (i * BINL + k) := by
  induction k with
  | zero => exact fun _ => h
  | succ k ih =>
    intro hk
    have hprev := ih (by omega)
    have hclear : isSet bitmap (i * BINL + k) = false := by
      rw [isSet_pos bitmap i (by omega), hzero]
      exact BitVec.getLsbD_zero
    constructor
    · exact fun q hq => hprev.same q (by omega)
    · rw [← Nat.add_assoc, positions_succ, hclear, if_neg Bool.false_ne_true, List.append_nil]
      exact hprev.calls

/-- The longs that are left to `bitmap_for_each_set`. -/
lemma forEachSetFrom (hown : cbfn.OwnBit) (n : Nat) :
    ∀ {i : Nat} {w : Walk σ}, w.Ahead true bitmap (i * BINL) → (i + n) * BINL ≤ WORD →
      (Bitmap.forEachSetFrom cbfn n i w).Ahead true bitmap ((i + n) * BINL) := by
  induction n with
  | zero => exact fun h _ => h
  | succ n ih =>
    intro i w h hword
    have hnext : (i + 1) * BINL = i * BINL + 32 := Nat.succ_mul i BINL
    have hsum : i + (n + 1) = i + 1 + n := by omega
    have hroom : (i + 1) * BINL ≤ (i + 1 + n) * BINL :=
      Nat.mul_le_mul_right _ (Nat.le_add_right _ _)
    rw [Bitmap.forEachSetFrom]
    rw [hsum] at hword ⊢
    split
    · apply ih _ hword
      rw [hnext]
      exact h.eachLong hown (by omega)
    · next hzero =>
        apply ih _ hword
        rw [hnext]
        rw [not_not, h.getD_eq] at hzero
        exact h.skip hzero 32 le_rfl

/-- The longs that are left to `bitmap_for_each_clear`, none of them all ones. -/
lemma forEachClearFrom (hown : cbfn.OwnBit) (n : Nat) :
    ∀ {i : Nat} {w : Walk σ}, w.Ahead false bitmap (i * BINL) → (i + n) * BINL ≤ WORD →
      (∀ j, j < i + n → bitmap.getD j 0 ≠ -1) →
      ∃ w', Bitmap.forEachClearFrom cbfn (i + n) (n + 1) i w = some w' ∧
        w'.Ahead false bitmap ((i + n) * BINL) := by
  induction n with
  | zero =>
    intro i w h _ _
    exact ⟨w, if_neg (Nat.lt_irrefl i), h⟩
  | succ n ih =>
    intro i w h hword hones
    have hnext : (i + 1) * BINL = i * BINL + 32 := Nat.succ_mul i BINL
    have hsum : i + (n + 1) = i + 1 + n := by omega
    have hroom : (i + 1) * BINL ≤ (i + 1 + n) * BINL :=
      Nat.mul_le_mul_right _ (Nat.le_add_right _ _)
    have hone := hones i (by omega)
    rw [← h.getD_eq] at hone
    rw [Bitmap.forEachClearFrom, if_pos (by omega), if_pos hone.symm]
    rw [hsum] at hword hones ⊢
    apply ih _ hword hones
    rw [hnext]
    exact h.eachLong hown (by omega)

end Walk.Ahead

/-! ## The walks -/

/-- `bitmap_for_each_set` calls for the positions that were set at the start. -/
theorem forEachSet_calls (hown : cbfn.OwnBit) (hword : leninlongs * BINL ≤ WORD) (param : σ) :
    (forEachSet bitmap leninlongs cbfn param).calls =
      positions true bitmap (leninlongs * BINL) := by
  have hend := Walk.Ahead.forEachSetFrom (i := 0) hown leninlongs
    (by rw [Nat.zero_mul]; exact .start true bitmap param) (by rwa [Nat.zero_add])
  rw [Nat.zero_add] at hend
  exact hend.calls

/-- Without a long of all ones `bitmap_for_each_clear` ends and calls for the positions
that were clear at the start. -/
theorem forEachClear_calls (hown : cbfn.OwnBit) (hword : leninlongs * BINL ≤ WORD)
    (hones : ∀ i, i < leninlongs → bitmap.getD i 0 ≠ -1) (param : σ) :
    ∃ w, forEachClear bitmap leninlongs cbfn param (leninlongs + 1) = some w ∧
      w.calls = positions false bitmap (leninlongs * BINL) := by
  have hend := Walk.Ahead.forEachClearFrom (i := 0) hown leninlongs
    (by rw [Nat.zero_mul]; exact .start false bitmap param) (by rwa [Nat.zero_add])
    (by rwa [Nat.zero_add])
  rw [Nat.zero_add] at hend
  rcases hend with ⟨w, hrun, hahead⟩
  exact ⟨w, hrun, hahead.calls⟩

/-! ## Where the walks fail -/

/-- A callback that does nothing. -/
def idle : Callback Unit := fun bitmap _ s => (bitmap, s)

lemma idle_ownBit : idle.OwnBit := fun _ _ _ => ⟨rfl, fun _ _ => rfl⟩

lemma eachBit_idle (wanted : Bool) (i n : Nat) : ∀ (j : Long) (k : Nat) (w : Walk Unit),
    (eachBit wanted idle i n j k w).bitmap = w.bitmap := by
  induction n with
  | zero => exact fun _ _ _ => rfl
  | succ n ih =>
    intro j k w
    rw [eachBit]
    split
    · rfl
    · rw [ih, testBit]
      split <;> rfl

/-- `bitmap_for_each_clear` comes to an end only if no long is all ones. -/
lemma ones_of_ends (n : Nat) : ∀ {i : Nat} {w w' : Walk Unit},
    forEachClearFrom idle leninlongs n i w = some w' →
      ∀ j, i ≤ j → j < leninlongs → w.bitmap.getD j 0 ≠ -1 := by
  induction n with
  | zero =>
    intro i w w' hrun
    cases hrun
  | succ n ih =>
    intro i w w' hrun j hij hj
    rw [forEachClearFrom, if_pos (by omega)] at hrun
    split at hrun
    · next hone =>
        rcases Nat.eq_or_lt_of_le hij with rfl | hlt
        · exact hone.symm
        · have hrest := ih hrun j hlt hj
          rwa [eachBit_idle] at hrest
    · exact ih hrun j hij hj

/-- The positions called with are `unsigned`. -/
lemma eachBit_calls_lt (wanted : Bool) (cbfn : Callback σ) (i n : Nat) :
    ∀ (j : Long) (k : Nat) {w : Walk σ}, (∀ q ∈ w.calls, q < WORD) →
      ∀ q ∈ (eachBit wanted cbfn i n j k w).calls, q < WORD := by
  induction n with
  | zero => exact fun _ _ _ h => h
  | succ n ih =>
    intro j k w h
    rw [eachBit]
    split
    · exact h
    · apply ih
      rw [testBit]
      split
      · intro q hq
        rcases List.mem_append.mp hq with hold | hnew
        · exact h q hold
        · rw [List.mem_singleton.mp hnew]
          exact Nat.mod_lt _ (by decide)
      · exact h

lemma forEachSetFrom_calls_lt (cbfn : Callback σ) (n : Nat) :
    ∀ (i : Nat) {w : Walk σ}, (∀ q ∈ w.calls, q < WORD) →
      ∀ q ∈ (forEachSetFrom cbfn n i w).calls, q < WORD := by
  induction n with
  | zero => exact fun _ _ h => h
  | succ n ih =>
    intro i w h
    rw [forEachSetFrom]
    split
    · exact ih _ (eachBit_calls_lt true cbfn i _ _ _ h)
    · exact ih _ h

lemma forEachClearFrom_calls_lt (cbfn : Callback σ) (n : Nat) :
    ∀ (i : Nat) {w w' : Walk σ}, (∀ q ∈ w.calls, q < WORD) →
      forEachClearFrom cbfn leninlongs n i w = some w' → ∀ q ∈ w'.calls, q < WORD := by
  induction n with
  | zero =>
    intro i w w' _ hrun
    cases hrun
  | succ n ih =>
    intro i w w' h hrun
    rw [forEachClearFrom] at hrun
    split_ifs at hrun
    · exact ih _ (eachBit_calls_lt false cbfn i _ _ _ h) hrun
    · exact ih _ h hrun
    · cases hrun
      exact h

/-- Positions that an `unsigned` cannot hold are missed. -/
lemma word_of_right (h : WalksRight bitmap leninlongs) : leninlongs * BINL ≤ WORD := by
  obtain ⟨⟨rounds, w, hrun, hclear⟩, hset⟩ := h Unit idle () idle_ownBit
  by_contra hover
  have hmem : WORD ∈ positions (isSet bitmap WORD) bitmap (leninlongs * BINL) :=
    List.mem_filter.mpr ⟨List.mem_range.mpr (Nat.not_le.mp hover), decide_eq_true rfl⟩
  cases hbit : isSet bitmap WORD with
  | false =>
    rw [hbit, ← hclear] at hmem
    have hlt := forEachClearFrom_calls_lt idle rounds 0 (by simp) hrun WORD hmem
    exact Nat.lt_irrefl _ hlt
  | true =>
    rw [hbit, ← hset] at hmem
    have hlt := forEachSetFrom_calls_lt idle leninlongs 0 (by simp) WORD hmem
    exact Nat.lt_irrefl _ hlt

/-- The walks are right exactly when no long is all ones and an `unsigned` can hold every
position. -/
theorem walks_right_iff (bitmap : List Long) (leninlongs : Nat) :
    WalksRight bitmap leninlongs ↔
      leninlongs * BINL ≤ WORD ∧ ∀ i, i < leninlongs → bitmap.getD i 0 ≠ -1 := by
  constructor
  · intro h
    obtain ⟨rounds, w, hrun, -⟩ := (h Unit idle () idle_ownBit).1
    exact ⟨word_of_right h, fun i hi => ones_of_ends rounds hrun i (Nat.zero_le i) hi⟩
  · rintro ⟨hword, hones⟩ σ cbfn param hown
    obtain ⟨w, hrun, hcalls⟩ := forEachClear_calls hown hword hones param
    exact ⟨⟨leninlongs + 1, w, hrun, hcalls⟩, forEachSet_calls hown hword param⟩

/-- With every position taken `bitmap_for_each_clear` does not end. -/
theorem walks_wrong_ones : ¬WalksRight [-1] 1 := by
  intro h
  obtain ⟨rounds, w, hrun, -⟩ := (h Unit idle () idle_ownBit).1
  exact ones_of_ends rounds hrun 0 (Nat.le_refl 0) Nat.one_pos rfl

end DiegOS.Support.Bitmap
