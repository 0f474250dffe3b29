import Abacus.Proofs.ExactArithmetic
import Abacus.Timing

/-!
# What the buckets of a distribution count

The buckets lie side by side from the least duration on. Each one counts the durations from its
lower bound up to its upper one, and the last also those above, so every duration is counted once.
The width is a truncated quotient, hence ten widths may end short of the greatest duration by the
remainder, and it is then counted in a bucket that it lies above. This happens unless the remainder
is zero, or the durations are so close that the width is rounded up to one.
-/
namespace Abacus

theorem toInt_div_of_nonneg {a b : Int64} (ha : 0 ≤ a.toInt) :
    (a / b).toInt = a.toInt / b.toInt := by
  have hne : a ≠ Int64.minValue := by
    rintro rfl
    exact absurd ha (by decide)
  rw [Int64.toInt_div_of_ne_left a b hne, Int.tdiv_eq_ediv_of_nonneg ha]

namespace Bucket

/-- Whether a duration belongs to the bucket with a number: it has reached the lower bound, and
not yet the upper one, which only the last bucket does without. -/
def Takes (b : Bucket) (i : Nat) (d : Int64) : Prop :=
  b.lower ≤ d ∧ (d < b.upper ∨ i + 1 = Histogram.bucketCount)

instance (b : Bucket) (i : Nat) (d : Int64) : Decidable (b.Takes i d) :=
  inferInstanceAs (Decidable (_ ∧ _))

end Bucket

namespace Histogram

def bound (least w : Int64) (i : Nat) : Int64 :=
  least + Int64.ofNat i * w

theorem bound_add_width (least w : Int64) (i : Nat) :
    bound least w i + w = bound least w (i + 1) := by
  unfold bound
  rw [Int64.ofNat_add, Int64.add_assoc, ← Int64.succ_mul]
  rfl

def bucketAt (ds : List Int64) (least w : Int64) (i : Nat) : Bucket :=
  ⟨bound least w i, bound least w i + w, (ds.map (index least w)).count (Int64.ofNat i)⟩

def buckets (ds : List Int64) (least w : Int64) : List Bucket :=
  (List.range bucketCount).map (bucketAt ds least w)

def counted : List Bucket → Int
  | [] => 0
  | b :: bs => b.count + counted bs

theorem counted_append (bs cs : List Bucket) : counted (bs ++ cs) = counted bs + counted cs := by
  induction bs with
  | nil => simp [counted]
  | cons b bs ih =>
    rw [List.cons_append, counted, counted, ih]
    omega

structure Contiguous (first : Int64) (bs : List Bucket) : Prop where
  length : bs.length = 10
  lower : bs.head?.map Bucket.lower = some first
  upper : ∀ (i : Nat) (b c : Bucket), bs[i]? = some b → bs[i + 1]? = some c → b.upper = c.lower

/-- Ten buckets of a width that words can number from a least duration on. -/
structure Scale (least w : Int64) : Prop where
  nonneg : 0 ≤ least.toInt
  pos : 0 < w.toInt
  within : least.toInt + 10 * w.toInt ≤ 9223372036854775807

section Width

variable {least greatest : Int64}

theorem toInt_width (hleast : 0 ≤ least.toInt) (hle : least.toInt ≤ greatest.toInt) :
    (width least greatest).toInt = max 1 ((greatest.toInt - least.toInt) / 10) := by
  have hsub := Int64.toInt_sub_of_le greatest least (Int64.le_iff_toInt_le.mpr hleast)
    (Int64.le_iff_toInt_le.mpr hle)
  have hquot : ((greatest - least) / 10).toInt = (greatest.toInt - least.toInt) / 10 := by
    rw [toInt_div_of_nonneg (by omega), hsub]
    rfl
  unfold width
  simp only
  split
  · rename_i hzero
    rw [hzero, Int64.toInt_zero] at hquot
    change (1 : Int) = _
    omega
  · rename_i hzero
    have hne : (greatest.toInt - least.toInt) / 10 ≠ 0 := by
      rw [← hquot]
      exact fun h => hzero (Int64.toInt_inj.mp h)
    omega

/-- Of durations that leave ten nanoseconds to the greatest word, all bounds are words. -/
theorem scale_width (hleast : 0 ≤ least.toInt) (hle : least.toInt ≤ greatest.toInt)
    (hgreatest : greatest.toInt ≤ 9223372036854775797) :
    Scale least (width least greatest) := by
  have hwidth := toInt_width hleast hle
  exact ⟨hleast, by omega, by omega⟩

end Width

namespace Scale

variable {least w d : Int64} (h : Scale least w)
include h

theorem toInt_bound {i : Nat} (hi : i ≤ 10) :
    (bound least w i).toInt = least.toInt + i * w.toInt := by
  have hwithin := h.within
  have hnonneg := h.nonneg
  have hpos := h.pos
  have hstart : 0 ≤ (i : Int) * w.toInt := Int.mul_nonneg (by omega) (by omega)
  have hstop : (i : Int) * w.toInt ≤ 10 * w.toInt :=
    Int.mul_le_mul_of_nonneg_right (by omega) (by omega)
  have hnumber : (Int64.ofNat i).toInt = i := Int64.toInt_ofNat_of_lt (by omega)
  have hproduct : (Int64.ofNat i * w).toInt = i * w.toInt := by
    rw [mul_eq_ofInt, hnumber, IsWord.toInt_ofInt (isWord_iff.mpr (by omega))]
  unfold bound
  rw [add_eq_ofInt, hproduct, IsWord.toInt_ofInt (isWord_iff.mpr (by omega))]

theorem bound_le_iff {i : Nat} (hi : i ≤ 10) :
    bound least w i ≤ d ↔ (i : Int) ≤ (d.toInt - least.toInt) / w.toInt := by
  rw [Int64.le_iff_toInt_le, h.toInt_bound hi, Int.le_ediv_iff_mul_le h.pos]
  omega

theorem toInt_index (hd : least.toInt ≤ d.toInt) :
    (index least w d).toInt = min 9 ((d.toInt - least.toInt) / w.toInt) := by
  have hsub := Int64.toInt_sub_of_le d least (Int64.le_iff_toInt_le.mpr h.nonneg)
    (Int64.le_iff_toInt_le.mpr hd)
  have hquot : ((d - least) / w).toInt = (d.toInt - least.toInt) / w.toInt := by
    rw [toInt_div_of_nonneg (by omega), hsub]
  have hten : (10 : Int64).toInt = 10 := rfl
  unfold index
  simp only [Int64.lt_iff_toInt_lt, hquot, hten]
  split
  · omega
  · change (9 : Int) = _
    omega

theorem index_bounds (hd : least.toInt ≤ d.toInt) :
    0 ≤ (index least w d).toInt ∧ (index least w d).toInt < 10 := by
  have hindex := h.toInt_index hd
  have hquot : 0 ≤ (d.toInt - least.toInt) / w.toInt :=
    Int.ediv_nonneg (by omega) (Int.le_of_lt h.pos)
  omega

theorem takes_iff (ds : List Int64) (hd : least.toInt ≤ d.toInt) {i : Nat} (hi : i < 10) :
    (bucketAt ds least w i).Takes i d ↔ (index least w d).toInt = i := by
  have hlower := h.bound_le_iff (d := d) (Nat.le_of_lt hi)
  have hupper := h.bound_le_iff (d := d) hi
  have hlt : d < bound least w (i + 1) ↔ ¬ bound least w (i + 1) ≤ d := by
    rw [Int64.lt_iff_toInt_lt, Int64.le_iff_toInt_le]
    omega
  unfold Bucket.Takes bucketAt
  simp only [bound_add_width]
  rw [hlower, hlt, hupper, h.toInt_index hd, bucketCount]
  omega

theorem exists_takes (ds : List Int64) (hd : least.toInt ≤ d.toInt) :
    ∃ i < 10, (bucketAt ds least w i).Takes i d ∧
      ∀ j < 10, (bucketAt ds least w j).Takes j d → j = i := by
  obtain ⟨hnonneg, hlt⟩ := h.index_bounds hd
  refine ⟨(index least w d).toInt.toNat, by omega, ?_, ?_⟩
  · rw [h.takes_iff ds hd (by omega)]
    omega
  · intro j hj htakes
    rw [h.takes_iff ds hd hj] at htakes
    omega

theorem toInt_upper (ds : List Int64) {i : Nat} (hi : i < 10) :
    (bucketAt ds least w i).upper.toInt = least.toInt + (i + 1) * w.toInt := by
  unfold bucketAt
  rw [bound_add_width]
  exact h.toInt_bound hi

theorem le_upper_iff {ds : List Int64} {i : Nat} (hi : i < 10)
    (htakes : (bucketAt ds least w i).Takes i d) :
    d ≤ (bucketAt ds least w i).upper ↔ d.toInt ≤ least.toInt + 10 * w.toInt := by
  obtain ⟨_, hbelow⟩ := htakes
  have hpos := h.pos
  have hreach : ((i : Int) + 1) * w.toInt ≤ 10 * w.toInt :=
    Int.mul_le_mul_of_nonneg_right (by omega) (by omega)
  rw [Int64.lt_iff_toInt_lt, h.toInt_upper ds hi] at hbelow
  rw [Int64.le_iff_toInt_le, h.toInt_upper ds hi]
  constructor
  · omega
  · intro hle
    rcases hbelow with hlt | hlast
    · omega
    · have hlast : (i : Int) + 1 = 10 := congrArg Nat.cast hlast
      rwa [hlast]

end Scale

theorem countP_lt_add_one {α : Type} (f : α → Int) (n : Int) (xs : List α) :
    xs.countP (fun x => f x < n + 1) =
      xs.countP (fun x => f x < n) + xs.countP (fun x => f x = n) := by
  induction xs with
  | nil => rfl
  | cons x xs ih =>
    simp only [List.countP_cons, ih, decide_eq_true_eq]
    split <;> split <;> split <;> omega

section Counts

variable {ds : List Int64} {least w : Int64}

theorem count_bucketAt {i : Nat} (hi : i < 10) :
    (bucketAt ds least w i).count = ds.countP fun d => (index least w d).toInt = i := by
  have hnumber : (Int64.ofNat i).toInt = i := Int64.toInt_ofNat_of_lt (by omega)
  apply congrArg Nat.cast
  rw [List.count_eq_countP, List.countP_map]
  apply List.countP_congr
  intro d _
  rw [Function.comp_apply, beq_iff_eq, decide_eq_true_eq, ← hnumber, Int64.toInt_inj]

theorem Scale.count_eq (h : Scale least w) (hds : ∀ d ∈ ds, least.toInt ≤ d.toInt) {i : Nat}
    (hi : i < 10) :
    (bucketAt ds least w i).count = ds.countP fun d => (bucketAt ds least w i).Takes i d := by
  rw [count_bucketAt hi]
  apply congrArg Nat.cast
  apply List.countP_congr
  intro d hd
  rw [decide_eq_true_eq, decide_eq_true_eq, h.takes_iff ds (hds d hd) hi]

/-- The first buckets count the durations with an index below their number. -/
theorem counted_range (h : ∀ d ∈ ds, 0 ≤ (index least w d).toInt) {n : Nat} (hn : n ≤ 10) :
    counted ((List.range n).map (bucketAt ds least w)) =
      ds.countP fun d => (index least w d).toInt < n := by
  induction n with
  | zero =>
    have hnone : (ds.countP fun d => (index least w d).toInt < (0 : Nat)) = 0 := by
      rw [List.countP_eq_zero]
      intro d hd
      have := h d hd
      simp only [decide_eq_true_eq]
      omega
    rw [hnone]
    rfl
  | succ n ih =>
    have hsplit := countP_lt_add_one (fun d => (index least w d).toInt) n ds
    rw [List.range_succ, List.map_append, counted_append, ih (by omega), List.map_singleton,
      counted, counted, count_bucketAt (by omega), Int.natCast_add_one]
    omega

theorem counted_eq_length
    (h : ∀ d ∈ ds, 0 ≤ (index least w d).toInt ∧ (index least w d).toInt < 10) :
    counted (buckets ds least w) = ds.length := by
  rw [buckets, bucketCount, counted_range (fun d hd => (h d hd).1) (Nat.le_refl _)]
  apply congrArg Nat.cast
  rw [List.countP_eq_length]
  intro d hd
  simpa using (h d hd).2

theorem getElem?_buckets {i : Nat} {b : Bucket} :
    (buckets ds least w)[i]? = some b ↔ i < 10 ∧ bucketAt ds least w i = b := by
  rw [buckets, List.getElem?_map, Option.map_eq_some_iff]
  constructor
  · rintro ⟨j, hj, hb⟩
    obtain ⟨hlt, rfl⟩ := List.getElem?_eq_some_iff.mp hj
    rw [List.getElem_range] at hb
    exact ⟨by simpa [bucketCount] using hlt, hb⟩
  · rintro ⟨hlt, hb⟩
    exact ⟨i, List.getElem?_range hlt, hb⟩

theorem contiguous_buckets : Contiguous least (buckets ds least w) := by
  refine ⟨rfl, ?_, ?_⟩
  · change some (bound least w 0) = some least
    simp [bound]
  · intro i b c hb hc
    obtain ⟨_, rfl⟩ := getElem?_buckets.mp hb
    obtain ⟨_, rfl⟩ := getElem?_buckets.mp hc
    exact bound_add_width least w i

theorem ofDurations?_eq {greatest : Int64} (hleast : ds.head? = some least)
    (hgreatest : ds.getLast? = some greatest)
    (h : ∀ d ∈ ds, 0 ≤ (index least (width least greatest) d).toInt) :
    ofDurations? ds = some (buckets ds least (width least greatest)) := by
  cases ds with
  | nil => cases hleast
  | cons d ds =>
    cases hleast
    have hlast : (least :: ds).getLastD least = greatest := by
      rw [List.getLastD_eq_getLast?, hgreatest]
      rfl
    have hany : ((least :: ds).map (index least (width least greatest))).any (· < 0) = false := by
      rw [List.any_eq_false]
      intro i hi
      obtain ⟨d, hd, rfl⟩ := List.mem_map.mp hi
      have := h d hd
      rw [decide_eq_true_eq, Int64.lt_iff_toInt_lt, Int64.toInt_zero]
      omega
    unfold ofDurations?
    simp only [hlast, hany]
    rfl

theorem Scale.forall_le_upper_iff {greatest : Int64} (h : Scale least w) (hmem : greatest ∈ ds)
    (hds : ∀ d ∈ ds, least.toInt ≤ d.toInt ∧ d.toInt ≤ greatest.toInt) :
    (∀ d ∈ ds, ∃ (i : Nat) (b : Bucket),
      (buckets ds least w)[i]? = some b ∧ b.Takes i d ∧ d ≤ b.upper) ↔
      greatest.toInt ≤ least.toInt + 10 * w.toInt := by
  constructor
  · intro hall
    obtain ⟨i, b, hb, htakes, hupper⟩ := hall greatest hmem
    obtain ⟨hi, rfl⟩ := getElem?_buckets.mp hb
    exact (h.le_upper_iff hi htakes).mp hupper
  · intro hreach d hd
    obtain ⟨i, hi, htakes, _⟩ := h.exists_takes ds (hds d hd).1
    refine ⟨i, _, getElem?_buckets.mpr ⟨hi, rfl⟩, htakes, ?_⟩
    exact (h.le_upper_iff hi htakes).mpr (Int.le_trans (hds d hd).2 hreach)

end Counts

section Ascending

variable {ds : List Int64} {least greatest : Int64}

theorem toInt_bounds_of_ascending (hleast : ds.head? = some least)
    (hgreatest : ds.getLast? = some greatest) (hascending : ds.Pairwise (· ≤ ·)) {d : Int64}
    (hd : d ∈ ds) : least.toInt ≤ d.toInt ∧ d.toInt ≤ greatest.toInt := by
  constructor
  · obtain ⟨rest, rfl⟩ := List.head?_eq_some_iff.mp hleast
    rcases List.mem_cons.mp hd with rfl | hd
    · exact Int.le_refl _
    · exact Int64.le_iff_toInt_le.mp ((List.pairwise_cons.mp hascending).1 d hd)
  · obtain ⟨front, rfl⟩ := List.getLast?_eq_some_iff.mp hgreatest
    rcases List.mem_append.mp hd with hd | hd
    · exact Int64.le_iff_toInt_le.mp
        ((List.pairwise_append.mp hascending).2.2 d hd greatest (List.mem_singleton_self _))
    · obtain rfl := List.mem_singleton.mp hd
      exact Int.le_refl _

/-- Ten widths reach the greatest duration if nothing is lost by the division or the width is
rounded up. -/
theorem greatest_le_reach_iff (hleast : 0 ≤ least.toInt) (hle : least.toInt ≤ greatest.toInt) :
    greatest.toInt ≤ least.toInt + 10 * (width least greatest).toInt ↔
      greatest.toInt - least.toInt < 10 ∨ (greatest.toInt - least.toInt) % 10 = 0 := by
  rw [toInt_width hleast hle]
  omega

/-- A duration above the bounds of its bucket is in the last one, and above it by no more than the
division has lost. -/
theorem le_upper_or_last (hle : least.toInt ≤ greatest.toInt)
    (h : Scale least (width least greatest)) {d : Int64} (hd : d.toInt ≤ greatest.toInt) {i : Nat}
    (hi : i < 10) (htakes : (bucketAt ds least (width least greatest) i).Takes i d) :
    d ≤ (bucketAt ds least (width least greatest) i).upper ∨ i + 1 = bucketCount ∧
      d.toInt ≤ (bucketAt ds least (width least greatest) i).upper.toInt +
        (greatest.toInt - least.toInt) % 10 := by
  by_cases hwithin : d ≤ (bucketAt ds least (width least greatest) i).upper
  · exact Or.inl hwithin
  · have hlast : i + 1 = bucketCount :=
      htakes.2.resolve_left fun hlt => hwithin (Int64.le_of_lt hlt)
    have hwidth := toInt_width h.nonneg hle
    refine Or.inr ⟨hlast, ?_⟩
    rw [h.toInt_upper ds hi, show (i : Int) + 1 = 10 from congrArg Nat.cast hlast]
    omega

/-- For durations in ascending order that leave ten nanoseconds to the greatest word, the width is
not zero and every index is that of a bucket, so there is a distribution. Its ten buckets lie side
by side from the least duration on, and count every duration once: each one those that it takes.
A duration lies within the bounds of its bucket, or above those of the last one by no more than
the remainder of the range; none lies above exactly if the range is below ten or a multiple of
ten. -/
theorem durations_counted_once (hleast : ds.head? = some least)
    (hgreatest : ds.getLast? = some greatest) (hascending : ds.Pairwise (· ≤ ·))
    (hrange : ∀ d ∈ ds, 0 ≤ d ∧ d ≤ Int64.maxValue - 10) :
    width least greatest ≠ 0 ∧
    (∀ d ∈ ds, 0 ≤ index least (width least greatest) d ∧
      index least (width least greatest) d < 10) ∧
    ∃ bs : List Bucket, ofDurations? ds = some bs ∧ Contiguous least bs ∧
      counted bs = ds.length ∧
      (∀ (i : Nat) (b : Bucket), bs[i]? = some b → b.count = ds.countP fun d => b.Takes i d) ∧
      (∀ d ∈ ds, ∃ (i : Nat) (b : Bucket), bs[i]? = some b ∧ b.Takes i d ∧
        (∀ (j : Nat) (c : Bucket), bs[j]? = some c → c.Takes j d → j = i) ∧
        (d ≤ b.upper ∨ i + 1 = bucketCount ∧
          d.toInt ≤ b.upper.toInt + (greatest.toInt - least.toInt) % 10)) ∧
      ((∀ d ∈ ds, ∃ (i : Nat) (b : Bucket), bs[i]? = some b ∧ b.Takes i d ∧ d ≤ b.upper) ↔
        greatest.toInt - least.toInt < 10 ∨ (greatest.toInt - least.toInt) % 10 = 0) := by
  have hbounds : ∀ d ∈ ds, least.toInt ≤ d.toInt ∧ d.toInt ≤ greatest.toInt :=
    fun d hd => toInt_bounds_of_ascending hleast hgreatest hascending hd
  have hmem : greatest ∈ ds := List.mem_of_getLast? hgreatest
  have hnonneg : 0 ≤ least.toInt :=
    Int64.le_iff_toInt_le.mp (hrange least (List.mem_of_head? hleast)).1
  have hmax : greatest.toInt ≤ 9223372036854775797 :=
    Int64.le_iff_toInt_le.mp (hrange greatest hmem).2
  have hle := (hbounds greatest hmem).1
  have hscale := scale_width hnonneg hle hmax
  have hindex := fun d hd => hscale.index_bounds (hbounds d hd).1
  refine ⟨?_, ?_, _, ofDurations?_eq hleast hgreatest fun d hd => (hindex d hd).1,
    contiguous_buckets, counted_eq_length hindex, ?_, ?_, ?_⟩
  · intro hzero
    have hpos := hscale.pos
    rw [hzero, Int64.toInt_zero] at hpos
    omega
  · intro d hd
    rw [Int64.le_iff_toInt_le, Int64.lt_iff_toInt_lt]
    exact hindex d hd
  · intro i b hb
    obtain ⟨hi, rfl⟩ := getElem?_buckets.mp hb
    exact hscale.count_eq (fun d hd => (hbounds d hd).1) hi
  · intro d hd
    obtain ⟨i, hi, htakes, hunique⟩ := hscale.exists_takes ds (hbounds d hd).1
    refine ⟨i, _, getElem?_buckets.mpr ⟨hi, rfl⟩, htakes, ?_, ?_⟩
    · intro j c hc hcd
      obtain ⟨hj, rfl⟩ := getElem?_buckets.mp hc
      exact hunique j hj hcd
    · exact le_upper_or_last hle hscale (hbounds d hd).2 hi htakes
  · rw [← greatest_le_reach_iff hnonneg hle]
    exact hscale.forall_le_upper_iff hmem hbounds

end Ascending

/-- Ten widths of ten nanoseconds end at 110, and the last bucket counts a duration of 118. -/
theorem outlier_counted_in_last_bucket :
    ∃ bs : List Bucket, ofDurations? [10, 10, 20, 31, 118] = some bs ∧ Contiguous 10 bs ∧
      counted bs = 5 ∧
      (∃ b, bs[9]? = some b ∧ b.Takes 9 118 ∧ b.count = 1 ∧ b.upper = 110) ∧
      ¬ ∀ d ∈ [10, 10, 20, 31, 118], ∃ (i : Nat) (b : Bucket),
        bs[i]? = some b ∧ b.Takes i d ∧ d ≤ b.upper := by
  have hleast : ([10, 10, 20, 31, 118] : List Int64).head? = some 10 := rfl
  have hrange : ∀ d ∈ ([10, 10, 20, 31, 118] : List Int64), 0 ≤ d ∧ d ≤ Int64.maxValue - 10 := by
    simp only [List.forall_mem_cons, List.not_mem_nil, false_implies, implies_true, and_true]
    decide
  obtain ⟨_, _, bs, hbs, hcontiguous, hcounted, hcounts, _, hwithin⟩ :=
    durations_counted_once hleast rfl (by decide) hrange
  refine ⟨bs, hbs, hcontiguous, hcounted, ?_, ?_⟩
  · cases hbs
    exact ⟨_, rfl, by decide, hcounts 9 _ rfl, rfl⟩
  · rw [hwithin]
    decide

/-- Not every duration has a bucket whose bounds it lies within: with a range of nineteen the
width is one, and the buckets end at ten. -/
theorem greatest_above_every_bucket :
    ¬ ∀ ds : List Int64, ds ≠ [] → ds.Pairwise (· ≤ ·) →
      (∀ d ∈ ds, 0 ≤ d ∧ d ≤ Int64.maxValue - 10) →
      ∃ bs, ofDurations? ds = some bs ∧ ∀ d ∈ ds, ∃ b ∈ bs, b.lower ≤ d ∧ d ≤ b.upper := by
  intro h
  have hrange : ∀ d ∈ ([0, 19] : List Int64), 0 ≤ d ∧ d ≤ Int64.maxValue - 10 := by
    simp only [List.forall_mem_cons, List.not_mem_nil, false_implies, implies_true, and_true]
    decide
  obtain ⟨bs, hbs, hall⟩ := h [0, 19] (by decide) (by decide) hrange
  cases hbs
  exact absurd (hall 19 (by decide)) (by decide)

end Histogram
end Abacus
