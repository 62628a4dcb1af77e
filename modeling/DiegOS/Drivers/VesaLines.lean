import DiegOS.Drivers.Vesa
import DiegOS.Lib.RunSlices

/-!
# Lines in the frame buffer

`line` of `vesa.c`: from the upper point on, vertical, horizontal and diagonal lines
are one span, and the others are made of runs, one for each coordinate of the shorter axis.

Main results:

- Theorem `sliced_eq`: runs that begin where the run before ends set the pixels of a slope.
- Theorem `lineDown_exact`: the directions in which lines are drawn exactly.
- Theorem `right_not_exact`: the runs of the others begin behind the run before.
- Theorem `line_exact_iff`: the points between which the line is drawn exactly.
-/

namespace DiegOS.Drivers.Vesa

open Lib

/-! ## The code -/

def diagLine (m : Mode) (offset len c : UInt32) (adv : Int) (fb : FrameBuffer) :
    FrameBuffer × UInt32 :=
  let sum := if adv > 0 then m.line + 1 else m.line - 1
  bytes c sum len.toNat offset fb

/-- The memory and `offset`. -/
abbrev Pen := FrameBuffer × UInt32

/-- The numbers from which the lengths of the runs are made. -/
structure Slices where
  wholestep : Int
  adjup : Int
  adjdown : Int
  errorterm : Int
  inipixcount : Int
  finpixcount : Int

/-- These numbers, for the longer and the shorter axis. -/
def slices (long short : Int) : Slices :=
  let wholestep := long.tdiv short
  let adjup := long.tmod short * 2
  let adjdown := short * 2
  let errorterm := long.tmod short - adjdown
  let inipixcount := wholestep.tdiv 2 + 1
  let finpixcount := inipixcount
  let inipixcount :=
    if adjup = 0 ∧ wholestep % 2 = 0 then inipixcount - 1 else inipixcount
  let errorterm := if wholestep % 2 = 1 then errorterm + short else errorterm
  ⟨wholestep, adjup, adjdown, errorterm, inipixcount, finpixcount⟩

/-- The loop that draws all full runs. -/
def fullRuns (run : UInt32 → Pen → Pen) (z : Slices) : Nat → Int → Pen → Pen
  | 0, _, pen => pen
  | cnt + 1, errorterm, pen =>
    let errorterm := errorterm + z.adjup
    if errorterm > 0 then
      fullRuns run z cnt (errorterm - z.adjdown) (run (UInt32.ofInt (z.wholestep + 1)) pen)
    else fullRuns run z cnt errorterm (run (UInt32.ofInt z.wholestep) pen)

/-- A run of a line that is longer in y. -/
def yRun (m : Mode) (advancex : Int) (color len : UInt32) (pen : Pen) : Pen :=
  let (fb, offset) := vertLine m pen.2 len color pen.1
  (fb, offset + UInt32.ofInt advancex)

/-- A run of a line that is longer in x. -/
def xRun (m : Mode) (advancex : Int) (color len : UInt32) (pen : Pen) : Pen :=
  let (fb, offset) :=
    if advancex < 0 then
      let offset := pen.2 - (len - 1)
      ((horizLine offset len color pen.1).1, offset)
    else horizLine pen.2 len color pen.1
  (fb, offset + (m.line + UInt32.ofInt advancex))

/-- `line`, after the points have been put in the order of their lines. -/
def lineDown (m : Mode) (a b : Point) (color : UInt32) (fb : FrameBuffer) : FrameBuffer :=
  let offset := computeOffset m (UInt32.ofInt a.x) (UInt32.ofInt a.y)
  let deltax := b.x - a.x
  let advancex := if deltax < 0 then -1 else 1
  let deltax := if deltax < 0 then -deltax else deltax
  let deltay := b.y - a.y
  if deltax = 0 then (vertLine m offset (UInt32.ofInt (deltay + 1)) color fb).1
  else if deltay = 0 then (horizLine offset (UInt32.ofInt (deltax + 1)) color fb).1
  else if deltax = deltay then
    (diagLine m offset (UInt32.ofInt (deltax + 1)) color advancex fb).1
  else if deltax < deltay then
    let z := slices deltay deltax
    let pen := yRun m advancex color (UInt32.ofInt z.inipixcount) (fb, offset)
    let pen := fullRuns (yRun m advancex color) z (deltax - 1).toNat z.errorterm pen
    (vertLine m pen.2 (UInt32.ofInt z.finpixcount) color pen.1).1
  else
    let z := slices deltax deltay
    let pen := xRun m advancex color (UInt32.ofInt z.inipixcount) (fb, offset)
    let pen := fullRuns (xRun m advancex color) z (deltay - 1).toNat z.errorterm pen
    let offset :=
      if advancex < 0 then pen.2 - UInt32.ofInt (z.finpixcount - 1) else pen.2
    (horizLine offset (UInt32.ofInt z.finpixcount) color pen.1).1

/-- `line`; its width is not used. -/
def line (m : Mode) (a b : Point) (color : UInt32) (fb : FrameBuffer) : FrameBuffer :=
  if a.y > b.y then lineDown m b a color fb else lineDown m a b color fb

/-! ## Lines -/

/-- A value for each coordinate from one point to another: neighbours touch, and each value is
at most half a pixel away from the ideal line. -/
structure Follows (f : Int → Int) (s t u v : Int) : Prop where
  first : f s = t
  last : f u = v
  touch : ∀ i, min s u ≤ i → i < max s u → (f (i + 1) - f i).natAbs ≤ 1
  near : ∀ i, min s u ≤ i → i ≤ max s u →
    (2 * ((u - s) * (f i - t)) - 2 * ((i - s) * (v - t))).natAbs ≤ (u - s).natAbs

/-- The pixels of a line: one for each coordinate of the longer axis. -/
def IsLine (S : Set Point) (a b : Point) : Prop :=
  if (b.y - a.y).natAbs ≤ (b.x - a.x).natAbs then
    ∃ f, Follows f a.x a.y b.x b.y ∧
      S = {p | (min a.x b.x ≤ p.x ∧ p.x ≤ max a.x b.x) ∧ p.y = f p.x}
  else
    ∃ f, Follows f a.y a.x b.y b.x ∧
      S = {p | (min a.y b.y ≤ p.y ∧ p.y ≤ max a.y b.y) ∧ p.x = f p.y}

/-- `line` sets the pixels of a line and no others. -/
def LineExact (m : Mode) (a b : Point) (c : UInt32) : Prop :=
  ∃ S, IsLine S a b ∧ ∀ fb, line m a b c fb = paint (m.offset '' S) c.toUInt8 fb

lemma Follows.symm {f : Int → Int} {s t u v : Int} (h : Follows f s t u v) :
    Follows f u v s t where
  first := h.last
  last := h.first
  touch := by
    rw [min_comm, max_comm]
    exact h.touch
  near := by
    intro i hlow hhigh
    have hnear := h.near i (min_comm u s ▸ hlow) (max_comm u s ▸ hhigh)
    have hneg : 2 * ((s - u) * (f i - v)) - 2 * ((i - u) * (t - v)) =
        -(2 * ((u - s) * (f i - t)) - 2 * ((i - s) * (v - t))) := by ring
    rw [hneg, Int.natAbs_neg]
    omega

lemma IsLine.symm {S : Set Point} {a b : Point} (h : IsLine S a b) : IsLine S b a := by
  have hy : (a.y - b.y).natAbs = (b.y - a.y).natAbs := by omega
  have hx : (a.x - b.x).natAbs = (b.x - a.x).natAbs := by omega
  rw [IsLine] at h
  rw [IsLine, hy, hx]
  split at h
  · next hlong =>
      obtain ⟨f, hf, hS⟩ := h
      rw [if_pos hlong, min_comm, max_comm]
      exact ⟨f, hf.symm, hS⟩
  · next hlong =>
      obtain ⟨f, hf, hS⟩ := h
      rw [if_neg hlong, min_comm, max_comm]
      exact ⟨f, hf.symm, hS⟩

/-- A slope follows the line between its ends, in each direction. -/
lemma follows_slope {n d : Nat} (hd : 0 < d) (hnd : n ≤ d) {σ τ : Int} (hσ : σ = 1 ∨ σ = -1)
    (hτ : τ = 1 ∨ τ = -1) (s t : Int) :
    Follows (fun i => t + σ * slope n d (τ * (i - s)).toNat) s t (s + τ * d) (t + σ * n) where
  first := by simp [slope_zero hd]
  last := by
    have hend : (τ * (s + τ * d - s)).toNat = d := by rcases hτ with rfl | rfl <;> omega
    rw [hend, slope_end hd]
  touch := by
    intro i hlow hhigh
    rcases hτ with rfl | rfl
    · have hnext : (1 * (i + 1 - s)).toNat = (1 * (i - s)).toNat + 1 := by omega
      have hsucc := slope_succ hd hnd (1 * (i - s)).toNat
      rw [hnext]
      rcases hσ with rfl | rfl
      · omega
      · omega
    · have hnext : (-1 * (i - s)).toNat = (-1 * (i + 1 - s)).toNat + 1 := by omega
      have hsucc := slope_succ hd hnd (-1 * (i + 1 - s)).toNat
      rw [hnext]
      rcases hσ with rfl | rfl
      · omega
      · omega
  near := by
    intro i hlow hhigh
    have hplace : i - s = τ * ((τ * (i - s)).toNat : Int) := by
      rcases hτ with rfl | rfl
      · omega
      · omega
    have hnear := slope_near hd n (τ * (i - s)).toNat
    generalize (τ * (i - s)).toNat = j at hplace hnear
    have hfactor : 2 * ((s + τ * d - s) * (t + σ * slope n d j - t)) -
        2 * ((i - s) * (t + σ * n - t)) =
          τ * σ * (2 * ((slope n d j * d : Nat) : Int) - 2 * ((n * j : Nat) : Int)) := by
      rw [hplace]
      push_cast
      ring
    rw [hfactor]
    rcases hτ with rfl | rfl
    · rcases hσ with rfl | rfl
      · omega
      · omega
    · rcases hσ with rfl | rfl
      · omega
      · omega

/-- The place of a coordinate on the way from one end to the other. -/
lemma exists_place {d : Nat} {τ s i : Int} (hτ : τ = 1 ∨ τ = -1) :
    (min s (s + τ * d) ≤ i ∧ i ≤ max s (s + τ * d)) ↔ ∃ j ≤ d, i = s + τ * (j : Nat) := by
  constructor
  · intro h
    refine ⟨(τ * (i - s)).toNat, ?_, ?_⟩
    · rcases hτ with rfl | rfl
      · omega
      · omega
    · rcases hτ with rfl | rfl
      · omega
      · omega
  · intro h
    obtain ⟨j, hj, rfl⟩ := h
    rcases hτ with rfl | rfl
    · omega
    · omega

lemma place_eq {τ s : Int} (hτ : τ = 1 ∨ τ = -1) (j : Nat) :
    (τ * (s + τ * j - s)).toNat = j := by
  rcases hτ with rfl | rfl
  · omega
  · omega

/-- The pixels of a slope that is longer in x are those of a line. -/
lemma isLine_x {n d : Nat} (hd : 0 < d) (hnd : n ≤ d) {σ τ : Int} (hσ : σ = 1 ∨ σ = -1)
    (hτ : τ = 1 ∨ τ = -1) {a b : Point} (hx : b.x = a.x + τ * d) (hy : b.y = a.y + σ * n) :
    IsLine {p | ∃ j ≤ d, p = ⟨a.x + τ * (j : Nat), a.y + σ * slope n d j⟩} a b := by
  have hlong : (b.y - a.y).natAbs ≤ (b.x - a.x).natAbs := by
    rcases hτ with rfl | rfl <;> rcases hσ with rfl | rfl <;> omega
  rw [IsLine, if_pos hlong, hx, hy]
  refine ⟨_, follows_slope hd hnd hσ hτ a.x a.y, ?_⟩
  apply Set.ext
  intro p
  constructor
  · intro h
    obtain ⟨j, hj, rfl⟩ := h
    refine ⟨(exists_place hτ).mpr ⟨j, hj, rfl⟩, ?_⟩
    rw [place_eq hτ]
  · intro h
    obtain ⟨j, hj, hplace⟩ := (exists_place hτ).mp h.1
    refine ⟨j, hj, Point.ext hplace ?_⟩
    have hvalue := h.2
    rwa [hplace, place_eq hτ] at hvalue

/-- The pixels of a slope that is longer in y are those of a line. -/
lemma isLine_y {n d : Nat} (hnd : n < d) {σ τ : Int} (hσ : σ = 1 ∨ σ = -1)
    (hτ : τ = 1 ∨ τ = -1) {a b : Point} (hy : b.y = a.y + τ * d) (hx : b.x = a.x + σ * n) :
    IsLine {p | ∃ j ≤ d, p = ⟨a.x + σ * slope n d j, a.y + τ * (j : Nat)⟩} a b := by
  have hlong : ¬(b.y - a.y).natAbs ≤ (b.x - a.x).natAbs := by
    rcases hτ with rfl | rfl <;> rcases hσ with rfl | rfl <;> omega
  rw [IsLine, if_neg hlong, hx, hy]
  refine ⟨_, follows_slope (Nat.zero_lt_of_lt hnd) hnd.le hσ hτ a.y a.x, ?_⟩
  apply Set.ext
  intro p
  constructor
  · intro h
    obtain ⟨j, hj, rfl⟩ := h
    refine ⟨(exists_place hτ).mpr ⟨j, hj, rfl⟩, ?_⟩
    rw [place_eq hτ]
  · intro h
    obtain ⟨j, hj, hplace⟩ := (exists_place hτ).mp h.1
    refine ⟨j, hj, Point.ext ?_ hplace⟩
    have hvalue := h.2
    rwa [hplace, place_eq hτ] at hvalue

/-- A point is a line of its own. -/
lemma isLine_point (a : Point) : IsLine {a} a a := by
  rw [IsLine, if_pos (by omega)]
  refine ⟨fun _ => a.y, ⟨rfl, rfl, fun i hlow hhigh => by omega, fun i _ _ => by simp⟩, ?_⟩
  ext p
  constructor
  · intro h
    obtain rfl := Set.mem_singleton_iff.mp h
    exact ⟨⟨by omega, by omega⟩, rfl⟩
  · intro h
    obtain ⟨hx, hy⟩ := h
    exact Set.mem_singleton_iff.mpr (Point.ext (by omega) hy)

/-! ## Runs -/

/-- The length of the first run. -/
def firstLength (n d : Nat) : Nat :=
  if d % n = 0 ∧ d / n % 2 = 0 then d / n / 2 else d / n / 2 + 1

/-- What the numbers of the code are. -/
lemma slices_eq (n d : Nat) :
    slices d n =
      ⟨(d / n : Nat), 2 * ((d % n : Nat) : Int), 2 * (n : Int),
        if d / n % 2 = 1 then ((d % n : Nat) : Int) - 2 * n + n
          else ((d % n : Nat) : Int) - 2 * n,
        (firstLength n d : Nat), (d / n / 2 + 1 : Nat)⟩ := by
  have hdiv : (d : Int).tdiv n = ((d / n : Nat) : Int) := (Int.ofNat_tdiv d n).symm
  have hmod : (d : Int).tmod n = ((d % n : Nat) : Int) := (Int.ofNat_tmod d n).symm
  have hhalf : ((d / n : Nat) : Int).tdiv 2 = ((d / n / 2 : Nat) : Int) :=
    (Int.ofNat_tdiv (d / n) 2).symm
  simp only [slices, hdiv, hmod, hhalf, Slices.mk.injEq, firstLength, true_and]
  refine ⟨by omega, by omega, ?_, ?_, by omega⟩
  · split
    · next h => rw [if_pos (by omega)]; omega
    · next h => rw [if_neg (by omega)]; omega
  · by_cases h : d % n = 0 ∧ d / n % 2 = 0
    · rw [if_pos ⟨by omega, by omega⟩, if_pos h]
      omega
    · rw [if_neg (by omega), if_neg h]
      omega

variable {m : Mode} {a b : Point} {c : UInt32} {fb : FrameBuffer} {n d k s : Nat} {e : Int}
  {P : Nat → Nat → Point} {run : UInt32 → Pen → Pen}

/-- A run sets pixels on one level and leaves the pen at the next level. -/
def RunsAlong (m : Mode) (c : UInt32) (P : Nat → Nat → Point) (run : UInt32 → Pen → Pen) :
    Prop :=
  ∀ (len i k : Nat) (fb : FrameBuffer), len < 2 ^ 32 →
    run (UInt32.ofNat len) (fb, m.offset (P i k)) =
      (paint (m.offset '' {p | ∃ j, i ≤ j ∧ j < i + len ∧ p = P j k}) c.toUInt8 fb,
        m.offset (P (i + len) (k + 1)))

/-- The pixels of a slope, between two places. -/
def slopePixels (P : Nat → Nat → Point) (n d s s' : Nat) : Set Point :=
  {p | ∃ j, s ≤ j ∧ j < s' ∧ p = P j (slope n d j)}

lemma slopePixels_union (P : Nat → Nat → Point) (n d : Nat) {s s' s'' : Nat} (h : s ≤ s')
    (h' : s' ≤ s'') :
    slopePixels P n d s s' ∪ slopePixels P n d s' s'' = slopePixels P n d s s'' := by
  ext p
  constructor
  · intro hp
    rcases hp with ⟨j, hlow, hhigh, rfl⟩ | ⟨j, hlow, hhigh, rfl⟩
    · exact ⟨j, hlow, by omega, rfl⟩
    · exact ⟨j, by omega, hhigh, rfl⟩
  · intro hp
    obtain ⟨j, hlow, hhigh, rfl⟩ := hp
    by_cases hj : j < s'
    · exact .inl ⟨j, hlow, hj, rfl⟩
    · exact .inr ⟨j, Nat.not_lt.mp hj, hhigh, rfl⟩

/-- On one level the pixels of a run are those of the slope. -/
lemma level_pixels (P : Nat → Nat → Point) {s' : Nat}
    (h : ∀ j, s ≤ j → j < s' → slope n d j = k) :
    {p | ∃ j, s ≤ j ∧ j < s' ∧ p = P j k} = slopePixels P n d s s' := by
  ext p
  constructor
  · intro hp
    obtain ⟨j, hlow, hhigh, rfl⟩ := hp
    exact ⟨j, hlow, hhigh, by rw [h j hlow hhigh]⟩
  · intro hp
    obtain ⟨j, hlow, hhigh, rfl⟩ := hp
    exact ⟨j, hlow, hhigh, by rw [h j hlow hhigh]⟩

section

variable (hrun : RunsAlong m c P run)
include hrun

/-- One full run, from the start of a level to that of the next. -/
lemma RunsAlong.level (hd : 0 < d) {len : Nat}
    (hlen : len < 2 ^ 32) (h : Starts n d k s) (h' : Starts n d (k + 1) (s + len))
    (fb : FrameBuffer) :
    run (UInt32.ofNat len) (fb, m.offset (P s k)) =
      (paint (m.offset '' slopePixels P n d s (s + len)) c.toUInt8 fb,
        m.offset (P (s + len) (k + 1))) := by
  rw [hrun len s k fb hlen, level_pixels P fun j hlow hhigh => h.level hd h' hlow hhigh]

/-- The full runs set the pixels of the slope up to the start of the last run. -/
lemma fullRuns_eq (hn : 0 < n) (hd : 0 < d) (hsmall : d + 1 < 2 ^ 32)
    (cnt : Nat) (h : Starts n d k s) (he : Term n d k s e) (fb : FrameBuffer) :
    ∃ s', s ≤ s' ∧ Starts n d (k + cnt) s' ∧
      fullRuns run (slices d n) cnt e (fb, m.offset (P s k)) =
        (paint (m.offset '' slopePixels P n d s s') c.toUInt8 fb, m.offset (P s' (k + cnt))) := by
  induction cnt generalizing k s e fb with
  | zero =>
    have hempty : slopePixels P n d s s = ∅ := by
      apply Set.eq_empty_of_forall_notMem
      intro p hp
      obtain ⟨j, hlow, hhigh, -⟩ := hp
      omega
    refine ⟨s, Nat.le_refl s, h, ?_⟩
    rw [fullRuns, hempty, Set.image_empty, paint_empty]
    rfl
  | succ cnt ih =>
    have hsteps := h.next hn he
    have hquot : d / n ≤ d := Nat.div_le_self d n
    have hz := slices_eq n d
    rw [fullRuns, hz]
    simp only
    rw [← hz]
    by_cases hpos : e + 2 * ((d % n : Nat) : Int) > 0
    · obtain ⟨hstart, hterm⟩ := hsteps.1 hpos
      have hlen : UInt32.ofInt (((d / n : Nat) : Int) + 1) = UInt32.ofNat (d / n + 1) :=
        ofInt_natCast (d / n + 1)
      obtain ⟨s', hle, hend, heq⟩ := ih hstart hterm
        (paint (m.offset '' slopePixels P n d s (s + (d / n + 1))) c.toUInt8 fb)
      refine ⟨s', (Nat.le_add_right _ _).trans hle, ?_, ?_⟩
      · rwa [Nat.add_assoc, Nat.add_comm 1 cnt] at hend
      · rw [if_pos hpos, hlen, hrun.level hd (by omega) h hstart, heq, paint_paint,
          ← Set.image_union, slopePixels_union P n d (Nat.le_add_right _ _) hle, Nat.add_assoc,
          Nat.add_comm 1 cnt]
    · obtain ⟨hstart, hterm⟩ := hsteps.2 (by omega)
      have hlen : UInt32.ofInt ((d / n : Nat) : Int) = UInt32.ofNat (d / n) :=
        ofInt_natCast (d / n)
      obtain ⟨s', hle, hend, heq⟩ := ih hstart hterm
        (paint (m.offset '' slopePixels P n d s (s + d / n)) c.toUInt8 fb)
      refine ⟨s', (Nat.le_add_right _ _).trans hle, ?_, ?_⟩
      · rwa [Nat.add_assoc, Nat.add_comm 1 cnt] at hend
      · rw [if_neg hpos, hlen, hrun.level hd (by omega) h hstart, heq, paint_paint,
          ← Set.image_union, slopePixels_union P n d (Nat.le_add_right _ _) hle, Nat.add_assoc,
          Nat.add_comm 1 cnt]

/-- Runs that begin where the run before ends set the pixels of the slope. -/
theorem sliced_eq (hn : 0 < n) (hd : 0 < d)
    (hsmall : d + 1 < 2 ^ 32) (fb : FrameBuffer) :
    (run (UInt32.ofInt (slices d n).finpixcount)
      (fullRuns run (slices d n) (n - 1) (slices d n).errorterm
        (run (UInt32.ofInt (slices d n).inipixcount) (fb, m.offset (P 0 0))))).1 =
      paint (m.offset '' slopePixels P n d 0 (d + 1)) c.toUInt8 fb := by
  have hfirst : Starts n d 1 (firstLength n d) ∧ Term n d 1 (firstLength n d)
      (if d / n % 2 = 1 then ((d % n : Nat) : Int) - 2 * n + n
        else ((d % n : Nat) : Int) - 2 * n) :=
    Starts.first hn
  have hquot : d / n ≤ d := Nat.div_le_self d n
  have hhalf : d / n / 2 ≤ d := (Nat.div_le_self _ 2).trans hquot
  have hini : firstLength n d ≤ d + 1 := by
    rw [firstLength]
    split <;> omega
  obtain ⟨s', hle, hend, hfull⟩ := fullRuns_eq hrun hn hd hsmall (n - 1) hfirst.1 hfirst.2
    (paint (m.offset '' slopePixels P n d 0 (firstLength n d)) c.toUInt8 fb)
  have hlevels : 1 + (n - 1) = n := by omega
  rw [hlevels] at hend hfull
  rw [paint_paint, ← Set.image_union, slopePixels_union P n d (Nat.zero_le _) hle] at hfull
  have hlast := hend.last hn
  have hinside : s' ≤ d + 1 := (Nat.le_add_right s' _).trans (hlast.trans_le (Nat.le_succ d))
  -- the first run
  have hinitial := hrun (firstLength n d) 0 0 fb (by omega)
  rw [Nat.zero_add, level_pixels P fun j _ hj => hfirst.1.level_zero hd hj] at hinitial
  -- the last run
  have hlevel : ∀ j, s' ≤ j → j < s' + (d / n / 2 + 1) → slope n d j = n := by
    intro j hlow hhigh
    have hjd : n * j ≤ n * d := Nat.mul_le_mul_left n (by omega)
    have hsj : n * s' ≤ n * j := Nat.mul_le_mul_left n hlow
    have hstart := hend.1
    rw [slope_eq_iff hd]
    omega
  have hfinal := hrun (d / n / 2 + 1) s' n
    (paint (m.offset '' slopePixels P n d 0 s') c.toUInt8 fb) (by omega)
  rw [level_pixels P hlevel, ← Nat.add_assoc, hlast, paint_paint, ← Set.image_union,
    slopePixels_union P n d (Nat.zero_le _) hinside] at hfinal
  have hz := slices_eq n d
  have hfin : (slices d n).finpixcount = (d / n / 2 + 1 : Nat) := by rw [hz]
  have hcount : (slices d n).inipixcount = (firstLength n d : Nat) := by rw [hz]
  have hterm : (slices d n).errorterm =
      if d / n % 2 = 1 then ((d % n : Nat) : Int) - 2 * n + n
        else ((d % n : Nat) : Int) - 2 * n := by rw [hz]
  rw [hfin, hcount, hterm, ofInt_natCast, ofInt_natCast, hinitial, hfull, hfinal]

end

/-! ## The runs of the code -/

/-- The runs of a line that is longer in y are drawn downwards, one beside the other. -/
lemma yRun_runsAlong (m : Mode) (c : UInt32) (x y σ : Int) :
    RunsAlong m c (fun i k => ⟨x + σ * k, y + i⟩) (yRun m σ c) := by
  intro len i k fb hlen
  have hpixels : column (x + σ * k) (y + i) len =
      {p | ∃ j, i ≤ j ∧ j < i + len ∧ p = ⟨x + σ * k, y + (j : Nat)⟩} := by
    ext p
    rw [mem_column]
    constructor
    · intro h
      exact ⟨(p.y - y).toNat, by omega, by omega, Point.ext h.1 (by dsimp only; omega)⟩
    · intro h
      obtain ⟨j, hlow, hhigh, rfl⟩ := h
      dsimp only
      omega
  have hnext : m.offset ⟨x + σ * (k + 1 : Nat), y + (i + len : Nat)⟩ =
      m.offset ⟨x + σ * k, y + i⟩ + UInt32.ofInt σ + UInt32.ofInt len * m.line := by
    rw [← m.offset_add]
    congr 2
    · push_cast
      ring
    · push_cast
      ring
  rw [yRun, vertLine_eq, steps_column, toNat_ofNat hlen, hpixels, hnext, ofInt_natCast]
  refine Prod.ext rfl ?_
  grind

/-- Where a run to the left begins in memory, and what comes next. -/
lemma left_offset (m : Mode) (x y : Int) (len : Nat) :
    m.offset ⟨x, y⟩ - (UInt32.ofNat len - 1) = m.offset ⟨x - len + 1, y⟩ ∧
      m.offset ⟨x - len + 1, y⟩ + (m.line + UInt32.ofInt (-1)) = m.offset ⟨x - len, y + 1⟩ := by
  have hstart := m.offset_add x y (-len + 1) 0
  have hnext := m.offset_add (x - len + 1) y (-1) 1
  have hplace : x + (-len + 1) = x - len + 1 := by ring
  have hbefore : x - len + 1 + -1 = x - len := by ring
  rw [Int.add_zero, hplace, UInt32.ofInt_add, UInt32.ofInt_neg, UInt32.ofInt_one, ofInt_natCast,
    show UInt32.ofInt 0 = 0 from rfl] at hstart
  rw [hbefore, UInt32.ofInt_one] at hnext
  constructor
  · rw [hstart]
    grind
  · rw [hnext]
    grind

/-- The runs of a line to the left that is longer in x are drawn from their ends, one below
the other. -/
lemma xRun_runsAlong (m : Mode) (c : UInt32) (x y : Int) :
    RunsAlong m c (fun i k => ⟨x + -1 * i, y + 1 * k⟩) (xRun m (-1) c) := by
  intro len i k fb hlen
  have hpixels : row (x + -1 * i - len + 1) (y + 1 * k) len =
      {p | ∃ j, i ≤ j ∧ j < i + len ∧ p = ⟨x + -1 * (j : Nat), y + 1 * (k : Nat)⟩} := by
    ext p
    rw [mem_row]
    constructor
    · intro h
      exact ⟨(x - p.x).toNat, by omega, by omega, Point.ext (by dsimp only; omega) h.1⟩
    · intro h
      obtain ⟨j, hlow, hhigh, rfl⟩ := h
      dsimp only
      omega
  have hoffset := left_offset m (x + -1 * i) (y + 1 * k) len
  have hend : (⟨x + -1 * (i + len : Nat), y + 1 * (k + 1 : Nat)⟩ : Point) =
      ⟨x + -1 * i - len, y + 1 * k + 1⟩ :=
    Point.ext (by push_cast; ring) (by push_cast; ring)
  rw [xRun, if_pos (by decide), hoffset.1]
  dsimp only
  rw [horizLine_eq, steps_row, toNat_ofNat hlen, hpixels, hend, hoffset.2]

/-! ## The lines of the code -/

section Down

variable {σ : Int} (hσ : σ = 1 ∨ σ = -1)
include hσ

/-- The direction and the length along x. -/
lemma advance_eq (hn : 0 < n) (hx : b.x = a.x + σ * n) :
    (if b.x - a.x < 0 then (-1 : Int) else 1) = σ ∧
      (if b.x - a.x < 0 then -(b.x - a.x) else b.x - a.x) = n := by
  rcases hσ with rfl | rfl
  · rw [if_neg (by omega), if_neg (by omega)]
    exact ⟨rfl, by omega⟩
  · rw [if_pos (by omega), if_pos (by omega)]
    exact ⟨rfl, by omega⟩

/-- A line that is longer in y. -/
lemma lineDown_steep (hn : 0 < n) (hnd : n < d) (hsmall : d + 1 < 2 ^ 32)
    (hx : b.x = a.x + σ * n) (hy : b.y = a.y + d) (fb : FrameBuffer) :
    lineDown m a b c fb =
      paint (m.offset '' slopePixels (fun i k => ⟨a.x + σ * k, a.y + i⟩) n d 0 (d + 1))
        c.toUInt8 fb := by
  have hadvance := advance_eq hσ hn hx
  have hlong : b.y - a.y = d := by omega
  have hstart : computeOffset m (UInt32.ofInt a.x) (UInt32.ofInt a.y) =
      m.offset ⟨a.x + σ * (0 : Nat), a.y + (0 : Nat)⟩ := by
    rw [Int.natCast_zero, Int.mul_zero, Int.add_zero, Int.add_zero, Mode.offset]
  have hcount : ((n : Int) - 1).toNat = n - 1 := by omega
  rw [← sliced_eq (yRun_runsAlong m c a.x a.y σ) hn (Nat.zero_lt_of_lt hnd) hsmall fb]
  simp only [lineDown, hadvance.1, hadvance.2, hlong, hstart, hcount]
  rw [if_neg (by omega), if_neg (by omega), if_neg (by omega), if_pos (by omega)]
  rfl

/-- A diagonal line. -/
lemma lineDown_diag (hd : 0 < d) (hsmall : d + 1 < 2 ^ 32) (hx : b.x = a.x + σ * d)
    (hy : b.y = a.y + d) (fb : FrameBuffer) :
    lineDown m a b c fb = paint (m.offset '' ray a.x a.y σ 1 (d + 1)) c.toUInt8 fb := by
  have hadvance := advance_eq hσ hd hx
  have hlong : b.y - a.y = d := by omega
  have hlen : UInt32.ofInt ((d : Int) + 1) = UInt32.ofNat (d + 1) := ofInt_natCast (d + 1)
  have hstep : (if σ > 0 then m.line + 1 else m.line - 1) =
      UInt32.ofInt σ + UInt32.ofInt 1 * m.line := by
    rcases hσ with rfl | rfl
    · rw [if_pos (by decide), UInt32.ofInt_one]
      grind
    · rw [if_neg (by decide), UInt32.ofInt_one, UInt32.ofInt_neg_one]
      grind
  simp only [lineDown, hadvance.1, hadvance.2, hlong]
  rw [if_neg (by omega), if_neg (by omega), if_pos trivial, diagLine, bytes_eq, hlen, hstep,
    toNat_ofNat hsmall, ← steps_ray]
  rfl

end Down

/-- A line to the left that is longer in x. -/
lemma lineDown_left (hn : 0 < n) (hnd : n < d) (hsmall : d + 1 < 2 ^ 32)
    (hx : b.x = a.x + -1 * d) (hy : b.y = a.y + n) (fb : FrameBuffer) :
    lineDown m a b c fb =
      paint (m.offset '' slopePixels (fun i k => ⟨a.x + -1 * i, a.y + 1 * k⟩) n d 0 (d + 1))
        c.toUInt8 fb := by
  have hadvance := advance_eq (.inr rfl) (Nat.zero_lt_of_lt hnd) hx
  have hlong : b.y - a.y = n := by omega
  have hstart : computeOffset m (UInt32.ofInt a.x) (UInt32.ofInt a.y) =
      m.offset ⟨a.x + -1 * (0 : Nat), a.y + 1 * (0 : Nat)⟩ := by
    rw [Int.natCast_zero, Int.mul_zero, Int.mul_zero, Int.add_zero, Int.add_zero, Mode.offset]
  have hcount : ((n : Int) - 1).toNat = n - 1 := by omega
  have hlast : UInt32.ofInt ((slices d n).finpixcount - 1) =
      UInt32.ofInt (slices d n).finpixcount - 1 := by
    rw [Int.sub_eq_add_neg, UInt32.ofInt_add, UInt32.ofInt_neg_one]
    grind
  have hleft : (-1 : Int) < 0 := by decide
  have hfinal : ∀ len pen, (xRun m (-1) c len pen).1 =
      (horizLine (pen.2 - (len - 1)) len c pen.1).1 := by
    intro len pen
    simp only [xRun, if_pos hleft]
  rw [← sliced_eq (xRun_runsAlong m c a.x a.y) hn (Nat.zero_lt_of_lt hnd) hsmall fb, hfinal]
  simp only [lineDown, hadvance.1, hadvance.2, hlong, hstart, hcount, hlast]
  rw [if_neg (by omega), if_neg (by omega), if_neg (by omega), if_neg (by omega),
    if_pos (by decide)]

/-- A vertical line. -/
lemma lineDown_vertical (hsmall : d + 1 < 2 ^ 32) (hx : b.x = a.x) (hy : b.y = a.y + d)
    (fb : FrameBuffer) :
    lineDown m a b c fb = paint (m.offset '' column a.x a.y (d + 1)) c.toUInt8 fb := by
  have hlen : UInt32.ofInt (b.y - a.y + 1) = UInt32.ofNat (d + 1) := by
    rw [← ofInt_natCast]
    congr 1
    omega
  have hzero : (if b.x - a.x < 0 then -(b.x - a.x) else b.x - a.x) = 0 := by
    rw [if_neg (by omega)]
    omega
  simp only [lineDown, hzero, if_true]
  rw [vertLine_eq, hlen, toNat_ofNat hsmall, ← steps_column]
  rfl

/-- A horizontal line begins at its first point. -/
lemma lineDown_horizontal (hd : 0 < d) (hsmall : d + 1 < 2 ^ 32)
    (hx : (b.x - a.x).natAbs = d) (hy : b.y = a.y) (fb : FrameBuffer) :
    lineDown m a b c fb = paint (m.offset '' row a.x a.y (d + 1)) c.toUInt8 fb := by
  have hlong : (if b.x - a.x < 0 then -(b.x - a.x) else b.x - a.x) = d := by
    split
    · omega
    · omega
  have hlen : UInt32.ofInt ((d : Int) + 1) = UInt32.ofNat (d + 1) := ofInt_natCast (d + 1)
  have hflat : b.y - a.y = 0 := by omega
  simp only [lineDown, hlong, hflat, if_true]
  rw [if_neg (by omega), horizLine_eq, hlen, toNat_ofNat hsmall, ← steps_row]
  rfl

/-- `line` from its upper point on. -/
def DownExact (m : Mode) (a b : Point) (c : UInt32) : Prop :=
  ∃ S, IsLine S a b ∧ ∀ fb, lineDown m a b c fb = paint (m.offset '' S) c.toUInt8 fb

/-- What is drawn exactly from the upper point on: a horizontal line to the right, and a line
that goes to the right by no more than down. -/
def DrawnDown (a b : Point) : Prop :=
  if a.y = b.y then a.x ≤ b.x else b.x - a.x ≤ b.y - a.y

lemma slopePixels_eq (P : Nat → Nat → Point) (n d : Nat) :
    slopePixels P n d 0 (d + 1) = {p | ∃ j ≤ d, p = P j (slope n d j)} := by
  ext p
  constructor
  · intro h
    obtain ⟨j, -, hj, rfl⟩ := h
    exact ⟨j, Nat.le_of_lt_succ hj, rfl⟩
  · intro h
    obtain ⟨j, hj, rfl⟩ := h
    exact ⟨j, Nat.zero_le j, Nat.lt_succ_of_le hj, rfl⟩

/-- A column is a line. -/
lemma column_isLine (hx : b.x = a.x) (hy : b.y = a.y + d) :
    IsLine (column a.x a.y (d + 1)) a b := by
  by_cases hd : d = 0
  · have hab : b = a := Point.ext hx (by omega)
    have hpoint : column a.x a.y (d + 1) = {a} := by
      ext p
      rw [mem_column, Set.mem_singleton_iff, Point.ext_iff]
      omega
    rw [hab, hpoint]
    exact isLine_point a
  · have hpixels : column a.x a.y (d + 1) =
        {p | ∃ j ≤ d, p = ⟨a.x + 1 * slope 0 d j, a.y + 1 * (j : Nat)⟩} := by
      ext p
      rw [mem_column]
      constructor
      · intro h
        refine ⟨(p.y - a.y).toNat, by omega, Point.ext ?_ (by dsimp only; omega)⟩
        rw [slope_flat (Nat.pos_of_ne_zero hd)]
        dsimp only
        omega
      · intro h
        obtain ⟨j, hj, rfl⟩ := h
        rw [slope_flat (Nat.pos_of_ne_zero hd)]
        dsimp only
        omega
    rw [hpixels]
    exact isLine_y (Nat.pos_of_ne_zero hd) (.inl rfl) (.inl rfl) (by omega) (by omega)

/-- A row is a line, if it begins at the left. -/
lemma row_isLine (hd : 0 < d) (hx : b.x = a.x + d) (hy : b.y = a.y) :
    IsLine (row a.x a.y (d + 1)) a b := by
  have hpixels : row a.x a.y (d + 1) =
      {p | ∃ j ≤ d, p = ⟨a.x + 1 * (j : Nat), a.y + 1 * slope 0 d j⟩} := by
    ext p
    rw [mem_row]
    constructor
    · intro h
      refine ⟨(p.x - a.x).toNat, by omega, Point.ext (by dsimp only; omega) ?_⟩
      rw [slope_flat hd]
      dsimp only
      omega
    · intro h
      obtain ⟨j, hj, rfl⟩ := h
      rw [slope_flat hd]
      dsimp only
      omega
  rw [hpixels]
  exact isLine_x hd (Nat.zero_le d) (.inl rfl) (.inl rfl) (by omega) (by omega)

/-- A diagonal is a line. -/
lemma ray_isLine {σ : Int} (hσ : σ = 1 ∨ σ = -1) (hd : 0 < d) (hx : b.x = a.x + σ * d)
    (hy : b.y = a.y + d) : IsLine (ray a.x a.y σ 1 (d + 1)) a b := by
  have hpixels : ray a.x a.y σ 1 (d + 1) =
      {p | ∃ j ≤ d, p = ⟨a.x + σ * (j : Nat), a.y + 1 * slope d d j⟩} := by
    ext p
    constructor
    · intro h
      obtain ⟨j, hj, rfl⟩ := h
      refine ⟨j, Nat.le_of_lt_succ hj, ?_⟩
      rw [slope_full hd, Int.mul_comm σ, Int.mul_comm 1]
    · intro h
      obtain ⟨j, hj, rfl⟩ := h
      refine ⟨j, Nat.lt_succ_of_le hj, ?_⟩
      rw [slope_full hd, Int.mul_comm σ, Int.mul_comm 1]
  rw [hpixels]
  exact isLine_x hd (Nat.le_refl d) (.inl rfl) hσ hx (by omega)

/-- Such a line is drawn exactly. -/
theorem lineDown_exact (m : Mode) (c : UInt32) (hab : a.y ≤ b.y)
    (hx : (b.x - a.x).natAbs < 2 ^ 32 - 1) (hy : (b.y - a.y).natAbs < 2 ^ 32 - 1)
    (h : DrawnDown a b) : DownExact m a b c := by
  obtain ⟨dy, hdy⟩ : ∃ dy : Nat, b.y = a.y + dy := ⟨(b.y - a.y).toNat, by omega⟩
  obtain ⟨σ, dx, hσ, hdx⟩ : ∃ (σ : Int) (dx : Nat), (σ = 1 ∨ σ = -1) ∧ b.x = a.x + σ * dx := by
    by_cases hleft : b.x < a.x
    · exact ⟨-1, (a.x - b.x).toNat, .inr rfl, by omega⟩
    · exact ⟨1, (b.x - a.x).toNat, .inl rfl, by omega⟩
  have hwidth : (b.x - a.x).natAbs = dx := by rcases hσ with rfl | rfl <;> omega
  rw [DrawnDown] at h
  by_cases hvertical : dx = 0
  · have hsame : b.x = a.x := by rw [hdx, hvertical, Int.natCast_zero, Int.mul_zero, Int.add_zero]
    exact ⟨_, column_isLine hsame hdy, lineDown_vertical (by omega) hsame hdy⟩
  by_cases hflat : dy = 0
  · have hright : b.x = a.x + dx := by
      rw [if_pos (by omega)] at h
      omega
    have hrow := row_isLine (d := dx) (Nat.pos_of_ne_zero hvertical) hright (by omega)
    exact ⟨_, hrow, lineDown_horizontal (Nat.pos_of_ne_zero hvertical) (by omega) hwidth
      (by omega)⟩
  rw [if_neg (by omega)] at h
  rcases Nat.lt_trichotomy dx dy with hsteep | hdiag | hlong
  · refine ⟨_, ?_, lineDown_steep hσ (Nat.pos_of_ne_zero hvertical) hsteep (by omega) hdx hdy⟩
    have hslope := isLine_y hsteep hσ (.inl rfl) (a := a) (b := b) (by omega) hdx
    rw [slopePixels_eq]
    simpa only [Int.one_mul] using hslope
  · subst hdiag
    exact ⟨_, ray_isLine hσ (Nat.pos_of_ne_zero hflat) hdx hdy,
      lineDown_diag hσ (Nat.pos_of_ne_zero hflat) (by omega) hdx hdy⟩
  · have hleft : σ = -1 := by
      rcases hσ with rfl | rfl
      · omega
      · rfl
    subst hleft
    refine ⟨_, ?_, lineDown_left (Nat.pos_of_ne_zero hflat) hlong (by omega) hdx hdy⟩
    rw [slopePixels_eq]
    exact isLine_x (Nat.zero_lt_of_lt hlong) hlong.le (.inl rfl) hσ hdx (by omega)

/-! ## Lines to the right -/

lemma toNat_add_ofNat {o : UInt32} {j : Nat} (h : o.toNat + j < 2 ^ 32) :
    (o + UInt32.ofNat j).toNat = o.toNat + j := by
  rw [UInt32.toNat_add, toNat_ofNat (by omega), Nat.mod_eq_of_lt h]

lemma and_three (x : UInt32) : x &&& 3 = 0 ↔ x.toNat % 4 = 0 := by
  rw [← UInt32.toNat_inj, UInt32.toNat_and, ← Nat.and_two_pow_sub_one_eq_mod x.toNat 2]
  rfl

lemma toNat_word (x : UInt32) : ((x >>> 2) <<< 2).toNat = 4 * (x.toNat / 4) := by
  rw [shiftLeft_two, UInt32.toNat_mul, UInt32.toNat_shiftRight, Nat.shiftRight_eq_div_pow]
  simp only [UInt32.reduceToNat, Nat.reduceMod, Nat.reducePow]
  have hlt := x.toNat_lt
  omega

/-- A span in memory that does not wrap ends behind its bytes, or one or two bytes before its
first one. -/
lemma spanEnd_cases {o : UInt32} {len : Nat} (h : o.toNat + len < 2 ^ 32) (hlen : 0 < len) :
    (spanEnd o (UInt32.ofNat len)).toNat = o.toNat + len ∨
      (spanEnd o (UInt32.ofNat len)).toNat + 1 = o.toNat ∨
      (spanEnd o (UInt32.ofNat len)).toNat + 2 = o.toNat := by
  rw [spanEnd, toNat_ofNat (by omega)]
  split
  · exact .inl (toNat_add_ofNat h)
  · next hnone =>
      have hword : ∀ j < len + 1, (o.toNat + j) % 4 ≠ 0 := by
        intro j hj hzero
        rw [← toNat_add_ofNat (by omega)] at hzero
        exact hnone ⟨j, hj, (and_three _).mpr hzero⟩
      rw [toNat_word, toNat_add_ofNat h]
      have hfirst := hword 0 (by omega)
      have hsecond := hword 1 (by omega)
      by_cases hshort : len < 3
      · by_cases hone : len = 1
        · omega
        · have hthird := hword 2 (by omega)
          omega
      · have hthird := hword 2 (by omega)
        have hfourth := hword 3 (by omega)
        omega

/-- The bytes of a span that does not wrap are behind its first one. -/
lemma le_of_mem_steps {o x : UInt32} {len : Nat} (h : o.toNat + len < 2 ^ 32)
    (hx : x ∈ steps 1 o len) : o.toNat ≤ x.toNat ∧ x.toNat < o.toNat + len := by
  obtain ⟨j, hj, rfl⟩ := mem_steps.mp hx
  rw [UInt32.mul_one, toNat_add_ofNat (by omega)]
  omega

lemma start_mem_steps (o : UInt32) {len : Nat} (hlen : 0 < len) : o ∈ steps 1 o len := by
  refine mem_steps.mpr ⟨0, hlen, ?_⟩
  grind

/-- A run to the right. -/
lemma xRun_right (m : Mode) (c : UInt32) {len : Nat} (hlen : len < 2 ^ 32) (o : UInt32)
    (fb : FrameBuffer) :
    xRun m 1 c (UInt32.ofNat len) (fb, o) =
      (paint (steps 1 o len) c.toUInt8 fb,
        spanEnd o (UInt32.ofNat len) + (m.line + 1)) := by
  have hright : ¬(1 : Int) < 0 := by decide
  simp only [xRun, if_neg hright, horizLine_eq, toNat_ofNat hlen, UInt32.ofInt_one]

/-- Where the next run begins. -/
lemma toNat_next {o : UInt32} {len : Nat} (hlen : 0 < len)
    (h : o.toNat + len + m.line.toNat + 1 < 2 ^ 32) :
    (spanEnd o (UInt32.ofNat len) + (m.line + 1)).toNat =
      (spanEnd o (UInt32.ofNat len)).toNat + (m.line.toNat + 1) := by
  have hend := spanEnd_cases (o := o) (by omega) hlen
  have hline : (m.line + 1).toNat = m.line.toNat + 1 := by
    rw [UInt32.toNat_add]
    exact Nat.mod_eq_of_lt (by simp only [UInt32.reduceToNat]; omega)
  rw [UInt32.toNat_add, hline, Nat.mod_eq_of_lt (by omega)]

/-- The next full run has as many pixels as the quotient, or one more. -/
lemma fullRuns_succ (run : UInt32 → Pen → Pen) {z : Slices} {quot : Nat}
    (hz : z.wholestep = quot) (cnt : Nat) (e : Int) :
    ∃ len e', quot ≤ len ∧ len ≤ quot + 1 ∧
      ∀ pen, fullRuns run z (cnt + 1) e pen =
        fullRuns run z cnt e' (run (UInt32.ofNat len) pen) := by
  by_cases hpos : e + z.adjup > 0
  · refine ⟨quot + 1, e + z.adjup - z.adjdown, Nat.le_succ quot, le_rfl, fun pen => ?_⟩
    have hlen : UInt32.ofInt (z.wholestep + 1) = UInt32.ofNat (quot + 1) := by
      rw [hz]
      exact ofInt_natCast (quot + 1)
    simp only [fullRuns, if_pos hpos, hlen]
  · refine ⟨quot, e + z.adjup, Nat.le_refl quot, Nat.le_succ quot, fun pen => ?_⟩
    simp only [fullRuns, if_neg hpos, hz, ofInt_natCast]

/-- The runs after the first one set the byte at which they begin, and none before it. -/
lemma restRuns_right (hline : 1 ≤ m.line.toNat) {z : Slices} {quot fin : Nat}
    (hz : z.wholestep = quot) (hquot : 0 < quot) (hfin : 0 < fin) (cnt : Nat) (e : Int)
    (o : UInt32) (h : o.toNat + cnt * (quot + m.line.toNat + 2) + fin < 2 ^ 32) :
    ∃ T, o ∈ T ∧ (∀ x ∈ T, o.toNat ≤ x.toNat) ∧ ∀ fb,
      (horizLine (fullRuns (xRun m 1 c) z cnt e (fb, o)).2 (UInt32.ofNat fin) c
        (fullRuns (xRun m 1 c) z cnt e (fb, o)).1).1 = paint T c.toUInt8 fb := by
  induction cnt generalizing e o with
  | zero =>
    refine ⟨steps 1 o fin, start_mem_steps o hfin,
      fun x hx => (le_of_mem_steps (by omega) hx).1, fun fb => ?_⟩
    rw [fullRuns, horizLine_eq, toNat_ofNat (by omega)]
  | succ cnt ih =>
    obtain ⟨len, e', hlow, hhigh, hnext⟩ := fullRuns_succ (xRun m 1 c) hz cnt e
    rw [Nat.succ_mul] at h
    have hstart := @toNat_next m o len (by omega) (by omega)
    have hend := @spanEnd_cases o len (by omega) (by omega)
    obtain ⟨T, hmem, hbehind, hrest⟩ :=
      ih e' (spanEnd o (UInt32.ofNat len) + (m.line + 1)) (by omega)
    refine ⟨steps 1 o len ∪ T, .inl (start_mem_steps o (by omega)), ?_, fun fb => ?_⟩
    · intro x hx
      rcases hx with hx | hx
      · exact (le_of_mem_steps (by omega) hx).1
      · have hx' := hbehind x hx
        omega
    · rw [hnext, xRun_right m c (by omega), hrest, paint_paint]

/-- A line to the right that is longer in x: the runs of the code. -/
lemma lineDown_right (hn : 0 < n) (hnd : n < d) (hx : b.x = a.x + d) (hy : b.y = a.y + n)
    (fb : FrameBuffer) :
    lineDown m a b c fb =
      (horizLine
        (fullRuns (xRun m 1 c) (slices d n) (n - 1) (slices d n).errorterm
          (xRun m 1 c (UInt32.ofNat (firstLength n d)) (fb, m.offset a))).2
        (UInt32.ofNat (d / n / 2 + 1)) c
        (fullRuns (xRun m 1 c) (slices d n) (n - 1) (slices d n).errorterm
          (xRun m 1 c (UInt32.ofNat (firstLength n d)) (fb, m.offset a))).1).1 := by
  have hadvance := @advance_eq a b d 1 (.inl rfl) (Nat.zero_lt_of_lt hnd) (by omega)
  have hlong : b.y - a.y = n := by omega
  have hcount : ((n : Int) - 1).toNat = n - 1 := by omega
  have hz := slices_eq n d
  have hfin : UInt32.ofInt (slices d n).finpixcount = UInt32.ofNat (d / n / 2 + 1) := by
    rw [hz, ofInt_natCast]
  have hini : UInt32.ofInt (slices d n).inipixcount = UInt32.ofNat (firstLength n d) := by
    rw [hz, ofInt_natCast]
  have hright : ¬(1 : Int) < 0 := by decide
  simp only [lineDown, hadvance.1, hadvance.2, hlong, hcount, hfin, hini, if_neg hright]
  rw [if_neg (by omega), if_neg (by omega), if_neg (by omega), if_neg (by omega)]
  rfl

lemma firstLength_bounds (hn : 0 < n) (hnd : n < d) :
    0 < firstLength n d ∧ firstLength n d ≤ d ∧ firstLength n d ≤ d / n / 2 + 1 := by
  have hstart : Starts n d 1 (firstLength n d) := (Starts.first hn).1
  have hquot : d / n ≤ d := Nat.div_le_self d n
  refine ⟨?_, ?_, ?_⟩
  · by_contra hzero
    have hlow := hstart.1
    rw [Nat.eq_zero_of_not_pos hzero] at hlow
    omega
  · rw [firstLength]
    split <;> omega
  · rw [firstLength]
    split <;> omega

/-- A line down to the right stays between its ends. -/
lemma Follows.between {f : Int → Int} {s t u v i : Int} (h : Follows f s t u v) (hsu : s < u)
    (htv : t ≤ v) (hlow : s ≤ i) (hhigh : i ≤ u) : t ≤ f i ∧ f i ≤ v := by
  have hnear := h.near i (by omega) (by omega)
  have hpos : 0 ≤ (i - s) * (v - t) := Int.mul_nonneg (by omega) (by omega)
  have hle : (i - s) * (v - t) ≤ (u - s) * (v - t) :=
    Int.mul_le_mul_of_nonneg_right (by omega) (by omega)
  constructor
  · by_contra hless
    have hmul : (u - s) * (f i - t) ≤ (u - s) * -1 :=
      Int.mul_le_mul_of_nonneg_left (by omega) (by omega)
    omega
  · by_contra hmore
    have hmul : (u - s) * (v - t + 1) ≤ (u - s) * (f i - t) :=
      Int.mul_le_mul_of_nonneg_left (by omega) (by omega)
    rw [Int.mul_add] at hmul
    omega

/-- Where the second run ought to begin, a line is on its first or second level. -/
lemma Follows.second {f : Int → Int} (h : Follows f a.x a.y b.x b.y) (hn : 0 < n) (hnd : n < d)
    (hx : b.x = a.x + d) (hy : b.y = a.y + n) :
    a.y ≤ f (a.x + firstLength n d) ∧ f (a.x + firstLength n d) ≤ a.y + 1 := by
  obtain ⟨hpos, hle, -⟩ := firstLength_bounds hn hnd
  have hstart : Starts n d 1 (firstLength n d) := (Starts.first hn).1
  refine ⟨(h.between (by omega) (by omega) (by omega) (by omega)).1, ?_⟩
  have hnear := h.near (a.x + firstLength n d) (by omega) (by omega)
  have hlevel := hstart.2
  have hwidth : b.x - a.x = d := by omega
  have hheight : b.y - a.y = n := by omega
  have hplace : a.x + (firstLength n d : Int) - a.x = firstLength n d := by omega
  rw [hwidth, hheight, hplace, Int.mul_comm (firstLength n d : Int)] at hnear
  by_contra hmore
  have hmul : (d : Int) * 2 ≤ d * (f (a.x + firstLength n d) - a.y) :=
    Int.mul_le_mul_of_nonneg_left (by omega) (by omega)
  omega

/-- The runs to the right stay in memory that does not wrap. -/
lemma right_bound (ha : m.OnScreen a) (hb : m.OnScreen b) (hn : 0 < n) (hnd : n < d)
    (hx : b.x = a.x + d) (hy : b.y = a.y + n) :
    m.place a + m.line.toNat + firstLength n d + 1 +
      ((n - 1) * (d / n + m.line.toNat + 2) : Nat) + (d / n / 2 + 1 : Nat) < 2 ^ 32 := by
  have hline : m.line.toNat = m.linBytesPerScanLine.toNat := UInt16.toNat_toUInt32 _
  obtain ⟨hwide, hlines, hrows⟩ := m.line_bounds
  obtain ⟨-, -, hfirst⟩ := firstLength_bounds hn hnd
  obtain ⟨k, rfl⟩ : ∃ k, n = k + 1 := ⟨n - 1, by omega⟩
  have hquot : (k + 1) * (d / (k + 1)) ≤ d := Nat.mul_div_le d (k + 1)
  have hrow : b.y * (m.linBytesPerScanLine.toNat : Int) ≤ 65534 * m.linBytesPerScanLine.toNat :=
    Int.mul_le_mul_of_nonneg_right (by have hlast := hb.2.2.2; omega) (by omega)
  have hsum : b.y * (m.linBytesPerScanLine.toNat : Int) =
      a.y * m.linBytesPerScanLine.toNat + ((k + 1) * m.linBytesPerScanLine.toNat : Nat) := by
    rw [hy]
    push_cast
    ring
  have hax := ha.1
  have hbx := hb.2.1
  rw [hline, Mode.place, Nat.add_sub_cancel, Nat.mul_add, Nat.mul_add]
  rw [Nat.succ_mul] at hquot
  rw [Nat.succ_mul] at hsum
  generalize d / (k + 1) = q at *
  omega

/-- A line to the right that is longer in x has one pixel for each x. -/
lemma IsLine.along {S : Set Point} (h : IsLine S a b) (hnd : n ≤ d) (hx : b.x = a.x + d)
    (hy : b.y = a.y + n) :
    ∃ f, Follows f a.x a.y b.x b.y ∧
      ∀ p, p ∈ S ↔ (a.x ≤ p.x ∧ p.x ≤ b.x) ∧ p.y = f p.x := by
  rw [IsLine, if_pos (by omega)] at h
  obtain ⟨f, hf, rfl⟩ := h
  refine ⟨f, hf, fun p => ?_⟩
  have hmin : min a.x b.x = a.x := by omega
  have hmax : max a.x b.x = b.x := by omega
  exact hmin.symm ▸ hmax.symm ▸ Iff.rfl

section Right

variable {S : Set Point} {f : Int → Int} (ha : m.OnScreen a) (hb : m.OnScreen b) (hn : 0 < n)
  (hnd : n < d) (hx : b.x = a.x + d) (hy : b.y = a.y + n) (hf : Follows f a.x a.y b.x b.y)
  (hS : ∀ p, p ∈ S ↔ (a.x ≤ p.x ∧ p.x ≤ b.x) ∧ p.y = f p.x)
include ha hb hn hnd hx hy hf hS

/-- The pixels of such a line are on the screen, and have the offsets of their places. -/
lemma line_places {p : Point} (hp : p ∈ S) :
    (a.y ≤ p.y ∧ p.y ≤ b.y) ∧ (m.offset p).toNat = m.place p := by
  obtain ⟨hcol, hrow⟩ := (hS p).mp hp
  have hbetween := hf.between (by omega) (by omega) hcol.1 hcol.2
  rw [← hrow] at hbetween
  have hscreen : m.OnScreen p := by
    simp only [Mode.OnScreen] at ha hb ⊢
    omega
  have hlines := m.lines_lt (y := p.y) hscreen.2.2.2.le
  exact ⟨hbetween, m.toNat_offset hscreen.place.1 (hscreen.place.2.trans hlines)⟩

/-- The line has a pixel in the two places where the second run ought to begin. -/
lemma line_second :
    ∃ o ∈ m.offset '' S, (o.toNat : Int) = m.place a + firstLength n d ∨
      (o.toNat : Int) = m.place a + m.line.toNat + firstLength n d := by
  have hline : m.line.toNat = m.linBytesPerScanLine.toNat := UInt16.toNat_toUInt32 _
  obtain ⟨-, hle, -⟩ := firstLength_bounds hn hnd
  have hpixel : (⟨a.x + firstLength n d, f (a.x + firstLength n d)⟩ : Point) ∈ S :=
    (hS _).mpr ⟨⟨by dsimp only; omega, by dsimp only; omega⟩, rfl⟩
  refine ⟨_, Set.mem_image_of_mem _ hpixel, ?_⟩
  rw [(line_places ha hb hn hnd hx hy hf hS hpixel).2, hline]
  have hsecond := hf.second hn hnd hx hy
  simp only [Mode.place]
  rcases Int.lt_or_eq_of_le hsecond.2 with hlow | hhigh
  · have hrow : f (a.x + firstLength n d) = a.y := by omega
    rw [hrow]
    omega
  · rw [hhigh, Int.add_mul]
    omega

/-- It has none below its first pixel, nor to the left of that. -/
lemma line_below {o : UInt32} (ho : o ∈ m.offset '' S) :
    (o.toNat : Int) ≠ m.place a + m.line.toNat ∧
      (o.toNat : Int) ≠ m.place a + m.line.toNat - 1 := by
  have hline : m.line.toNat = m.linBytesPerScanLine.toNat := UInt16.toNat_toUInt32 _
  have hwide := m.line_bounds.1
  have hax := ha.1
  have hbx := hb.2.1
  obtain ⟨p, hp, rfl⟩ := ho
  obtain ⟨hrows, hoffset⟩ := line_places ha hb hn hnd hx hy hf hS hp
  obtain ⟨hcol, hrow⟩ := (hS p).mp hp
  rw [hoffset, hline, Mode.place, Mode.place]
  -- the line of the pixel, and what the ends of the line say of it
  rcases Int.lt_trichotomy p.y (a.y + 1) with hlow | hnext | hhigh
  · have hfirst : p.y = a.y := by omega
    have hlast : p.x ≠ b.x := by
      intro hend
      rw [hend, hf.last] at hrow
      omega
    rw [hfirst]
    omega
  · have hleft : p.x ≠ a.x := by
      intro hend
      rw [hend, hf.first] at hrow
      omega
    rw [hnext, Int.add_mul]
    omega
  · have hbelow : (a.y + 2) * (m.linBytesPerScanLine.toNat : Int) ≤
        p.y * m.linBytesPerScanLine.toNat :=
      Int.mul_le_mul_of_nonneg_right (by omega) (by omega)
    rw [Int.add_mul] at hbelow
    omega

end Right

/-- Such a line is never drawn exactly: the second run begins one pixel behind the end of the
first one, or under its start. -/
theorem right_not_exact (ha : m.OnScreen a) (hb : m.OnScreen b) (hn : 0 < n) (hnd : n < d)
    (hx : b.x = a.x + d) (hy : b.y = a.y + n) : ¬DownExact m a b c := by
  intro h
  obtain ⟨S, hS, hdraw⟩ := h
  obtain ⟨f, hf, hmem⟩ := hS.along hnd.le hx hy
  have hline : m.line.toNat = m.linBytesPerScanLine.toNat := UInt16.toNat_toUInt32 _
  have hwide := m.line_bounds.1
  have hax := ha.1
  have hbx := hb.2.1
  obtain ⟨hpos, hle, -⟩ := firstLength_bounds hn hnd
  have hbound := right_bound ha hb hn hnd hx hy
  have hlines := m.lines_lt (y := a.y) ha.2.2.2.le
  have ho : ((m.offset a).toNat : Int) = m.place a :=
    m.toNat_offset ha.place.1 (ha.place.2.trans hlines)
  have hquot : 0 < d / n := Nat.div_pos hnd.le hn
  have hstart := @toNat_next m (m.offset a) (firstLength n d) hpos (by omega)
  have hend := @spanEnd_cases (m.offset a) (firstLength n d) (by omega) hpos
  obtain ⟨T, hfirst, hbehind, hrest⟩ := @restRuns_right m c (by omega) (slices d n)
    (d / n) (d / n / 2 + 1) (by rw [slices_eq]) hquot (Nat.succ_pos (d / n / 2)) (n - 1)
    (slices d n).errorterm (spanEnd (m.offset a) (UInt32.ofNat (firstLength n d)) + (m.line + 1))
    (by omega)
  have hpixels : steps 1 (m.offset a) (firstLength n d) ∪ T = m.offset '' S := by
    apply (paint_inj (exists_ne_byte c.toUInt8)).mp
    intro fb
    rw [← hdraw fb, lineDown_right hn hnd hx hy, xRun_right m c (by omega), hrest, paint_paint]
  rcases hend with hend | hend
  · obtain ⟨o, hin, hplace⟩ := line_second ha hb hn hnd hx hy hf hmem
    rw [← hpixels] at hin
    rcases hin with hin | hin
    · have hspan := le_of_mem_steps (by omega) hin
      omega
    · have hlate := hbehind o hin
      omega
  · have hin : spanEnd (m.offset a) (UInt32.ofNat (firstLength n d)) + (m.line + 1) ∈
        m.offset '' S := by
      rw [← hpixels]
      exact .inr hfirst
    have hnone := line_below ha hb hn hnd hx hy hf hmem hin
    omega

/-- A horizontal line to the left is drawn to the right. -/
lemma left_not_exact (ha : m.OnScreen a) (hb : m.OnScreen b) (hx : b.x < a.x)
    (hy : b.y = a.y) : ¬DownExact m a b c := by
  intro h
  obtain ⟨S, hS, hdraw⟩ := h
  obtain ⟨d, hd⟩ : ∃ d : Nat, a.x = b.x + d := ⟨(a.x - b.x).toNat, by omega⟩
  obtain ⟨f, hf, hmem⟩ := hS.symm.along (n := 0) (Nat.zero_le d) hd (by omega)
  have hsmall : d + 1 < 2 ^ 32 := by
    have hlines := m.line_bounds
    simp only [Mode.OnScreen] at ha hb
    omega
  have hpixels : m.offset '' row a.x a.y (d + 1) = m.offset '' S := by
    apply (paint_inj (exists_ne_byte c.toUInt8)).mp
    intro fb
    rw [← hdraw fb, lineDown_horizontal (by omega) hsmall (by omega) hy]
  have hinside : S ⊆ rectangle a b := by
    intro p hp
    obtain ⟨hcol, hrow⟩ := (hmem p).mp hp
    have hbetween := hf.between (by omega) (by omega) hcol.1 hcol.2
    rw [mem_rectangle]
    omega
  apply right_outside ha hb hx
  apply Set.image_mono hinside
  rw [← hpixels]
  refine Set.mem_image_of_mem _ (mem_row.mpr ?_)
  dsimp only
  omega

/-- From its upper point on a line is drawn exactly in the directions given by
`DrawnDown`. -/
lemma downExact_iff (ha : m.OnScreen a) (hb : m.OnScreen b) (hab : a.y ≤ b.y) (c : UInt32) :
    DownExact m a b c ↔ DrawnDown a b := by
  have hsmall : (b.x - a.x).natAbs < 2 ^ 32 - 1 ∧ (b.y - a.y).natAbs < 2 ^ 32 - 1 := by
    have hlines := m.line_bounds
    simp only [Mode.OnScreen] at ha hb
    omega
  constructor
  · intro h
    rw [DrawnDown]
    split
    · next hflat =>
        by_contra hleft
        exact left_not_exact ha hb (by omega) hflat.symm h
    · next hflat =>
        by_contra hright
        exact right_not_exact ha hb (n := (b.y - a.y).toNat) (d := (b.x - a.x).toNat)
          (by omega) (by omega) (by omega) (by omega) h
  · exact lineDown_exact m c hab hsmall.1 hsmall.2

/-- The points between which a line is drawn exactly. -/
def Drawn (a b : Point) : Prop := if a.y > b.y then DrawnDown b a else DrawnDown a b

/-- The line between two points of the screen has its pixels exactly if it is horizontal and
drawn to the right, or if it goes to the right by no more than it goes down from its upper
point. -/
theorem line_exact_iff (m : Mode) (a b : Point) (c : UInt32) (ha : m.OnScreen a)
    (hb : m.OnScreen b) : LineExact m a b c ↔ Drawn a b := by
  by_cases hup : a.y > b.y
  · rw [Drawn, if_pos hup, ← downExact_iff hb ha hup.le c]
    simp only [LineExact, DownExact, line, if_pos hup]
    exact ⟨fun ⟨S, hS, h⟩ => ⟨S, hS.symm, h⟩, fun ⟨S, hS, h⟩ => ⟨S, hS.symm, h⟩⟩
  · rw [Drawn, if_neg hup, ← downExact_iff ha hb (Int.not_lt.mp hup) c]
    simp only [LineExact, DownExact, line, if_neg hup]

theorem line_exact_vga :
    LineExact vga ⟨30, 20⟩ ⟨17, 29⟩ 7 ↔ Drawn ⟨30, 20⟩ ⟨17, 29⟩ :=
  line_exact_iff vga ⟨30, 20⟩ ⟨17, 29⟩ 7 (by decide) (by decide)

theorem line_not_exact :
    ¬∀ (m : Mode) (a b : Point) (c : UInt32), m.OnScreen a → m.OnScreen b →
      LineExact m a b c := by
  intro h
  obtain ⟨S, hS, hdraw⟩ := h vga ⟨0, 0⟩ ⟨10, 3⟩ 7 (by decide) (by decide)
  exact right_not_exact (m := vga) (a := ⟨0, 0⟩) (b := ⟨10, 3⟩) (n := 3) (d := 10) (by decide)
    (by decide) (by decide) (by decide) rfl rfl ⟨S, hS, hdraw⟩

end DiegOS.Drivers.Vesa
