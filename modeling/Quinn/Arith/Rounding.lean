import Mathlib.Algebra.Order.Field.Power
import Mathlib.Algebra.Order.Ring.Rat
import Mathlib.Data.Int.Log
import Mathlib.Data.List.Induction
import Mathlib.Data.Rat.Floor
import Mathlib.Tactic.Linarith
import Mathlib.Tactic.Positivity
import Mathlib.Tactic.Ring

/-! Arithmetic that rounds each result to the nearest of the numbers it has: the laws that hold
whatever these are, exact arithmetic as the case that rounds nothing, and binary64. -/

namespace Quinn.Arith

/-- The sum is as good as that of additions each of which is off by at most the unit. -/
structure Accurate (fl : ℚ → ℚ) (unit : ℚ) (sum : List ℚ → ℚ) : Prop where
  rounded : ∀ xs, fl (sum xs) = sum xs
  error : ∀ xs, (∀ x ∈ xs, fl x = x) →
    |sum xs - xs.sum| ≤ ((1 + unit) ^ xs.length - 1) * (xs.map abs).sum

class Rounding where
  fl : ℚ → ℚ
  sum : List ℚ → ℚ
  unit : ℚ
  nearest : ∀ x y, |fl x - x| ≤ |fl y - x|
  fl_neg : ∀ x, fl (-x) = -fl x
  unit_nonneg : 0 ≤ unit
  fl_add : ∀ x y, fl x = x → fl y = y → |fl (x + y) - (x + y)| ≤ unit * |x + y|
  accurate : Accurate fl unit sum

namespace Rounding

instance exact : Rounding where
  fl x := x
  sum := List.sum
  unit := 0
  nearest x y := by simp
  fl_neg _ := rfl
  unit_nonneg := le_rfl
  fl_add := by simp
  accurate := ⟨fun _ => rfl, by simp⟩

@[simp] theorem exact_fl (x : ℚ) : exact.fl x = x := rfl

@[simp] theorem exact_sum (xs : List ℚ) : exact.sum xs = xs.sum := rfl

@[simp] theorem exact_unit : exact.unit = 0 := rfl

variable [Rounding] {x y : ℚ}

/-- The number is one of those the arithmetic has. -/
def Representable (x : ℚ) : Prop := fl x = x

instance (x : ℚ) : Decidable (Representable x) := inferInstanceAs (Decidable (_ = _))

@[simp] theorem fl_fl (x : ℚ) : fl (fl x) = fl x := by
  have h := nearest (fl x) x
  rw [sub_self, abs_zero] at h
  exact sub_eq_zero.mp (abs_nonpos_iff.mp h)

theorem representable_fl (x : ℚ) : Representable (fl x) := fl_fl x

@[simp] theorem fl_zero : fl 0 = 0 := by
  have h := fl_neg 0
  rw [neg_zero] at h
  linarith

theorem representable_zero : Representable 0 := fl_zero

theorem Representable.neg (h : Representable x) : Representable (-x) := by
  rw [Representable, fl_neg, h]

theorem Representable.abs (h : Representable x) : Representable |x| := by
  rcases abs_choice x with hx | hx <;> rw [hx]
  exacts [h, h.neg]

/-- Were it not so, each of the two numbers would be no nearer to its own result than to the
other's, which lies on its far side. -/
theorem fl_mono : Monotone fl := by
  intro x y hxy
  by_contra hlt
  rw [not_le] at hlt
  have hne : x ≠ y := by
    rintro rfl
    exact lt_irrefl _ hlt
  have hx := sq_le_sq.mpr (nearest x y)
  have hy := sq_le_sq.mpr (nearest y x)
  have hgap : 0 < fl x - fl y := sub_pos.mpr hlt
  have hxmid : fl x + fl y ≤ 2 * x := by
    refine le_of_mul_le_mul_right ?_ hgap
    linarith
  have hymid : 2 * y ≤ fl x + fl y := by
    refine le_of_mul_le_mul_right ?_ hgap
    linarith
  exact hne (le_antisymm hxy (by linarith))

theorem Representable.le_fl (hy : Representable y) (h : y ≤ x) : y ≤ fl x := by
  calc y = fl y := hy.symm
    _ ≤ fl x := fl_mono h

theorem Representable.fl_le (hy : Representable y) (h : x ≤ y) : fl x ≤ y := by
  calc fl x ≤ fl y := fl_mono h
    _ = y := hy

theorem fl_nonneg (h : 0 ≤ x) : 0 ≤ fl x := representable_zero.le_fl h

theorem fl_sub (hx : Representable x) (hy : Representable y) :
    |fl (x - y) - (x - y)| ≤ unit * |x - y| := by
  simpa only [sub_eq_add_neg] using fl_add x (-y) hx hy.neg

theorem fl_sub_le (hx : Representable x) (hy : Representable y) (h : 0 ≤ x - y) :
    fl (x - y) ≤ (1 + unit) * (x - y) := by
  have herr := (abs_le.mp (fl_sub hx hy)).2
  rw [abs_of_nonneg h] at herr
  linarith

end Rounding

/-- The nearest integer, of two the even one. -/
def roundEven (x : ℚ) : ℤ := if Int.fract x = 1 / 2 then ⌊x⌋ + ⌊x⌋ % 2 else round x

theorem abs_sub_roundEven (x : ℚ) : |x - roundEven x| = |x - round x| := by
  unfold roundEven
  split
  · next htie =>
    have hx : x = ⌊x⌋ + 1 / 2 := by
      rw [← htie, Int.floor_add_fract]
    rw [abs_sub_round_eq_min, htie]
    rcases Int.emod_two_eq_zero_or_one ⌊x⌋ with heven | hodd
    · rw [heven, add_zero, Int.self_sub_floor, htie]
      norm_num
    · rw [hodd]
      nth_rewrite 1 [hx]
      norm_num
  · rfl

theorem roundEven_nearest (x : ℚ) (k : ℤ) : |roundEven x - x| ≤ |k - x| := by
  rw [abs_sub_comm, abs_sub_roundEven, abs_sub_comm (k : ℚ)]
  exact round_le x k

theorem roundEven_neg (x : ℚ) : roundEven (-x) = -roundEven x := by
  unfold roundEven
  by_cases htie : Int.fract x = 1 / 2
  · have hneg : Int.fract (-x) = 1 / 2 := by
      rw [Int.fract_neg (by rw [htie]; norm_num), htie]
      norm_num
    have hfloor : ⌊-x⌋ = -⌊x⌋ - 1 := by
      have hx := Int.floor_add_fract x
      rw [htie] at hx
      rw [Int.floor_eq_iff]
      push_cast
      constructor <;> linarith
    rw [if_pos htie, if_pos hneg, hfloor]
    omega
  · have hneg : Int.fract (-x) ≠ 1 / 2 := by
      intro h
      refine htie ?_
      rw [← neg_neg x, Int.fract_neg (by rw [h]; norm_num), h]
      norm_num
    rw [if_neg htie, if_neg hneg, round_eq_iff, Set.mem_Ico]
    obtain ⟨hle, hlt⟩ := round_eq_iff.mp (rfl : round x = round x)
    push_cast
    refine ⟨by linarith, lt_of_le_of_ne (by linarith) fun heq => htie ?_⟩
    have hx : x = ((round x - 1 : ℤ) : ℚ) + 1 / 2 := by
      push_cast
      linarith
    rw [hx, Int.fract_intCast_add]
    norm_num [Int.fract_eq_iff]

theorem zpow_log_le {x : ℚ} (h : 0 < x) : (2 : ℚ) ^ Int.log 2 x ≤ x := by
  exact_mod_cast Int.zpow_log_le_self (b := 2) (by norm_num) h

theorem le_log {x : ℚ} {e : ℤ} (hx : 0 < x) (h : (2 : ℚ) ^ e ≤ x) : e ≤ Int.log 2 x :=
  (Int.zpow_le_iff_le_log (by norm_num) hx).mp (by exact_mod_cast h)

theorem log_lt {x : ℚ} {e : ℤ} (hx : 0 < x) (h : x < (2 : ℚ) ^ e) : Int.log 2 x < e :=
  (Int.lt_zpow_iff_log_lt (by norm_num) hx).mp (by exact_mod_cast h)

theorem lt_zpow_log (x : ℚ) : x < 2 ^ (Int.log 2 x + 1) := by
  exact_mod_cast Int.lt_zpow_succ_log_self (b := 2) (by norm_num) x

/-- The exponent of the last place of a significand of 53 binary digits. -/
def lastPlace (x : ℚ) : ℤ := max (Int.log 2 |x| - 52) (-1074)

def ulp (x : ℚ) : ℚ := 2 ^ lastPlace x

/-- The nearest double, of two the one with an even significand.  Exponents have no upper bound:
an overflow is for the caller to find. -/
def nearestDouble (x : ℚ) : ℚ := roundEven (x / ulp x) * ulp x

theorem ulp_pos (x : ℚ) : 0 < ulp x := zpow_pos (by norm_num) _

theorem nearestDouble_neg (x : ℚ) : nearestDouble (-x) = -nearestDouble x := by
  have hulp : ulp (-x) = ulp x := by rw [ulp, ulp, lastPlace, lastPlace, abs_neg]
  rw [nearestDouble, nearestDouble, hulp, neg_div, roundEven_neg, Int.cast_neg, neg_mul]

theorem nearestDouble_zero : nearestDouble 0 = 0 := by
  have h := nearestDouble_neg 0
  rw [neg_zero] at h
  linarith

/-- A multiple of a power of two. -/
def OnGrid (q : ℤ) (x : ℚ) : Prop := ∃ k : ℤ, x = k * 2 ^ q

theorem onGrid_nearestDouble (x : ℚ) : OnGrid (lastPlace x) (nearestDouble x) := ⟨_, rfl⟩

theorem OnGrid.of_le {p q : ℤ} {x : ℚ} (h : OnGrid q x) (hpq : p ≤ q) : OnGrid p x := by
  obtain ⟨k, rfl⟩ := h
  obtain ⟨n, rfl⟩ := Int.le.dest hpq
  refine ⟨k * 2 ^ n, ?_⟩
  rw [zpow_add₀ (by norm_num), zpow_natCast]
  push_cast
  ring

theorem OnGrid.add {q : ℤ} {x y : ℚ} (hx : OnGrid q x) (hy : OnGrid q y) : OnGrid q (x + y) := by
  obtain ⟨k, rfl⟩ := hx
  obtain ⟨l, rfl⟩ := hy
  exact ⟨k + l, by push_cast; ring⟩

theorem OnGrid.neg {q : ℤ} {x : ℚ} (hx : OnGrid q x) : OnGrid q (-x) := by
  obtain ⟨k, rfl⟩ := hx
  exact ⟨-k, by push_cast; ring⟩

theorem onGrid_zpow {p q : ℤ} (h : p ≤ q) : OnGrid p (2 ^ q) :=
  OnGrid.of_le ⟨1, by norm_num⟩ h

theorem abs_nearestDouble_sub_le {x y : ℚ} (h : OnGrid (lastPlace x) y) :
    |nearestDouble x - x| ≤ |y - x| := by
  obtain ⟨k, rfl⟩ := h
  have hpos := ulp_pos x
  have hscale (z : ℚ) : z * ulp x - x = (z - x / ulp x) * ulp x := by
    rw [sub_mul, div_mul_cancel₀ _ hpos.ne']
  have hnearest := roundEven_nearest (x / ulp x) k
  change |roundEven (x / ulp x) * ulp x - x| ≤ |k * ulp x - x|
  rw [hscale, hscale, abs_mul, abs_mul]
  exact mul_le_mul_of_nonneg_right hnearest (abs_nonneg _)

theorem nearestDouble_of_onGrid {x : ℚ} (h : OnGrid (lastPlace x) x) : nearestDouble x = x := by
  have hexact := abs_nearestDouble_sub_le h
  rw [sub_self, abs_zero] at hexact
  exact sub_eq_zero.mp (abs_nonpos_iff.mp hexact)

/-- Whole numbers of 53 binary digits are doubles. -/
theorem nearestDouble_intCast {n : ℤ} (h : |(n : ℚ)| < 2 ^ 53) : nearestDouble n = n := by
  rcases eq_or_ne n 0 with rfl | hne
  · exact_mod_cast nearestDouble_zero
  have hgrid : OnGrid 0 (n : ℚ) := ⟨n, by simp⟩
  refine nearestDouble_of_onGrid (hgrid.of_le ?_)
  have hlog : Int.log 2 |(n : ℚ)| < 53 := by
    have hpos : 0 < |(n : ℚ)| := abs_pos.mpr (by exact_mod_cast hne)
    exact log_lt hpos (by exact_mod_cast h)
  rw [lastPlace]
  omega

theorem abs_lt_zpow (x : ℚ) : |x| < 2 ^ (lastPlace x + 53) := by
  refine (lt_zpow_log |x|).trans_le ?_
  refine zpow_le_zpow_right₀ (by norm_num) ?_
  have := le_max_left (Int.log 2 |x| - 52) (-1074)
  rw [lastPlace]
  omega

/-- The value with the sign of `x` at a distance from zero. -/
theorem exists_abs_eq (x : ℚ) {b : ℚ} (hb : 0 ≤ b) :
    ∃ s, |s| = b ∧ (s = b ∨ s = -b) ∧ |s - x| = abs (b - |x|) := by
  rcases abs_choice x with hx | hx
  · exact ⟨b, abs_of_nonneg hb, .inl rfl, by rw [hx]⟩
  · refine ⟨-b, by rw [abs_neg, abs_of_nonneg hb], .inr rfl, ?_⟩
    rw [hx, ← abs_neg]
    congr 1
    ring

theorem abs_nearestDouble_le (x : ℚ) : |nearestDouble x| ≤ 2 ^ (lastPlace x + 53) := by
  have hlt := abs_lt_zpow x
  obtain ⟨s, -, hs, hdist⟩ := exists_abs_eq x (b := 2 ^ (lastPlace x + 53)) (by positivity)
  have hgrid : OnGrid (lastPlace x) s := by
    have := onGrid_zpow (p := lastPlace x) (q := lastPlace x + 53) (by omega)
    rcases hs with rfl | rfl
    exacts [this, this.neg]
  have hnear := abs_nearestDouble_sub_le hgrid
  rw [hdist, abs_of_pos (sub_pos.mpr hlt)] at hnear
  have := abs_sub_abs_le_abs_sub (nearestDouble x) x
  linarith

/-- A double with a finer grid lies below the power of two that is below `x`. -/
theorem nearestDouble_nearest (x y : ℚ) : |nearestDouble x - x| ≤ |nearestDouble y - x| := by
  rcases le_or_gt (lastPlace x) (lastPlace y) with hle | hlt
  · exact abs_nearestDouble_sub_le ((onGrid_nearestDouble y).of_le hle)
  rcases eq_or_ne x 0 with rfl | hne
  · simp [nearestDouble_zero]
  have hnormal : lastPlace x = Int.log 2 |x| - 52 := by
    have hleast : -1074 ≤ lastPlace y := le_max_right _ _
    refine max_eq_left (le_of_lt ?_)
    by_contra h
    rw [not_lt] at h
    have : lastPlace x = -1074 := max_eq_right h
    omega
  have hpower : (2 : ℚ) ^ (lastPlace x + 52) ≤ |x| := by
    rw [hnormal, sub_add_cancel]
    exact zpow_log_le (abs_pos.mpr hne)
  have hy : |nearestDouble y| ≤ 2 ^ (lastPlace x + 52) :=
    (abs_nearestDouble_le y).trans (zpow_le_zpow_right₀ (by norm_num) (by omega))
  obtain ⟨s, -, hs, hdist⟩ := exists_abs_eq x (b := 2 ^ (lastPlace x + 52)) (by positivity)
  have hgrid : OnGrid (lastPlace x) s := by
    have := onGrid_zpow (p := lastPlace x) (q := lastPlace x + 52) (by omega)
    rcases hs with rfl | rfl
    exacts [this, this.neg]
  calc |nearestDouble x - x| ≤ |s - x| := abs_nearestDouble_sub_le hgrid
    _ = |x| - 2 ^ (lastPlace x + 52) := by rw [hdist, abs_sub_comm, abs_of_nonneg (by linarith)]
    _ ≤ |x| - |nearestDouble y| := by linarith
    _ ≤ |nearestDouble y - x| := by
      rw [abs_sub_comm]
      exact abs_sub_abs_le_abs_sub _ _

theorem abs_nearestDouble_sub_le_half (x : ℚ) : |nearestDouble x - x| ≤ ulp x / 2 := by
  have hpos := ulp_pos x
  have hhalf := abs_sub_round (x / ulp x)
  rw [← abs_sub_roundEven] at hhalf
  have hscale : x - nearestDouble x = (x / ulp x - roundEven (x / ulp x)) * ulp x := by
    rw [sub_mul, div_mul_cancel₀ _ hpos.ne', nearestDouble]
  rw [abs_sub_comm, hscale, abs_mul, abs_of_pos hpos]
  linarith [mul_le_mul_of_nonneg_right hhalf hpos.le]

theorem abs_nearestDouble_sub_le_of_lt {x : ℚ} {k : ℕ} (hk : 1 ≤ k) (h : |x| < 2 ^ k) :
    |nearestDouble x - x| ≤ 2 ^ ((k : ℤ) - 54) := by
  have hlog : Int.log 2 |x| < k := by
    rcases eq_or_ne x 0 with rfl | hne
    · rw [abs_zero, Int.log_zero_right]
      omega
    · exact log_lt (abs_pos.mpr hne) (by exact_mod_cast h)
  have hplace : lastPlace x ≤ (k : ℤ) - 53 := by
    rw [lastPlace]
    omega
  calc |nearestDouble x - x| ≤ ulp x / 2 := abs_nearestDouble_sub_le_half x
    _ ≤ 2 ^ ((k : ℤ) - 53) / 2 := by
      have : ulp x ≤ 2 ^ ((k : ℤ) - 53) := zpow_le_zpow_right₀ (by norm_num) hplace
      linarith
    _ = 2 ^ ((k : ℤ) - 54) := by
      rw [div_eq_mul_inv, ← zpow_sub_one₀ (by norm_num)]
      congr 1
      ring

/-- Where the sum of two doubles is not a multiple of the least one, it is not a small number. -/
theorem nearestDouble_add {x y : ℚ} (hx : nearestDouble x = x) (hy : nearestDouble y = y) :
    |nearestDouble (x + y) - (x + y)| ≤ 2 ^ (-53 : ℤ) * |x + y| := by
  rcases eq_or_ne (x + y) 0 with hzero | hne
  · simp [hzero, nearestDouble_zero]
  rcases le_or_gt (Int.log 2 |x + y| - 52) (-1074) with hsmall | hlarge
  · have hleast : lastPlace (x + y) = -1074 := max_eq_right hsmall
    have hgrid : OnGrid (lastPlace (x + y)) (x + y) := by
      rw [hleast]
      refine OnGrid.add ?_ ?_
      · exact hx ▸ (onGrid_nearestDouble x).of_le (le_max_right _ _)
      · exact hy ▸ (onGrid_nearestDouble y).of_le (le_max_right _ _)
    rw [nearestDouble_of_onGrid hgrid, sub_self, abs_zero]
    positivity
  · have hnormal : lastPlace (x + y) = Int.log 2 |x + y| - 52 := max_eq_left hlarge.le
    have hpower := zpow_log_le (abs_pos.mpr hne)
    calc |nearestDouble (x + y) - (x + y)| ≤ ulp (x + y) / 2 := abs_nearestDouble_sub_le_half _
      _ = 2 ^ (-53 : ℤ) * 2 ^ Int.log 2 |x + y| := by
        rw [ulp, hnormal, div_eq_mul_inv, ← zpow_sub_one₀ (by norm_num), ← zpow_add₀ (by norm_num)]
        congr 1
        ring
      _ ≤ 2 ^ (-53 : ℤ) * |x + y| := by gcongr

/-- From left to right, each addition rounded. -/
def sumLeft (fl : ℚ → ℚ) (xs : List ℚ) : ℚ := xs.foldl (fun sum x => fl (sum + x)) 0

theorem abs_sum_le {α : Type} [CommRing α] [LinearOrder α] [IsStrictOrderedRing α] (xs : List α) :
    |xs.sum| ≤ (xs.map abs).sum := by
  induction xs with
  | nil => simp
  | cons x xs ih =>
    rw [List.sum_cons, List.map_cons, List.sum_cons]
    exact (abs_add_le _ _).trans (by linarith)

theorem sumLeft_concat (fl : ℚ → ℚ) (xs : List ℚ) (x : ℚ) :
    sumLeft fl (xs ++ [x]) = fl (sumLeft fl xs + x) := by
  rw [sumLeft, List.foldl_append]
  rfl

/-- Few roundings are off by no more than twice as many units. -/
theorem pow_one_add_le {u : ℚ} (hu : 0 ≤ u) {n : ℕ} (hn : 2 * n * u ≤ 1) :
    (1 + u) ^ n ≤ 1 + 2 * n * u := by
  induction n with
  | zero => simp
  | succ n ih =>
    push_cast at hn ⊢
    have hrest := ih (by linarith)
    have hsquare : 2 * n * u * u ≤ 1 * u := mul_le_mul_of_nonneg_right (by linarith) hu
    calc (1 + u) ^ (n + 1) = (1 + u) ^ n * (1 + u) := pow_succ _ _
      _ ≤ (1 + 2 * n * u) * (1 + u) := mul_le_mul_of_nonneg_right hrest (by linarith)
      _ ≤ 1 + 2 * (n + 1) * u := by linarith

section

variable {fl : ℚ → ℚ} {unit : ℚ}

theorem fl_sumLeft (hzero : fl 0 = 0) (hidem : ∀ x, fl (fl x) = fl x) (xs : List ℚ) :
    fl (sumLeft fl xs) = sumLeft fl xs := by
  induction xs using List.reverseRecOn with
  | nil => exact hzero
  | append_singleton xs x _ => rw [sumLeft_concat, hidem]

/-- The error of the last addition comes on top of that of the sum so far. -/
theorem accurate_sumLeft (hunit : 0 ≤ unit) (hzero : fl 0 = 0) (hidem : ∀ x, fl (fl x) = fl x)
    (hadd : ∀ x y, fl x = x → fl y = y → |fl (x + y) - (x + y)| ≤ unit * |x + y|) :
    Accurate fl unit (sumLeft fl) := by
  refine ⟨fl_sumLeft hzero hidem, fun xs => ?_⟩
  induction xs using List.reverseRecOn with
  | nil => simp [sumLeft]
  | append_singleton xs x ih =>
    intro hxs
    have hrest := ih fun y hy => hxs y (List.mem_append_left _ hy)
    have hlast := hadd (sumLeft fl xs) x (fl_sumLeft hzero hidem xs) (hxs x (by simp))
    have hsum := abs_sum_le xs
    rw [sumLeft_concat, List.sum_append, List.sum_singleton, List.map_append, List.sum_append,
      List.length_append, List.length_singleton, pow_succ]
    simp only [List.map_cons, List.map_nil, List.sum_singleton]
    set s := sumLeft fl xs
    set a := (xs.map abs).sum
    set p := (1 + unit) ^ xs.length
    have hp : 0 ≤ p - 1 := sub_nonneg.mpr (one_le_pow₀ (by linarith))
    have hs : |s + x| ≤ (p - 1) * a + a + |x| := by
      calc |s + x| = |(s - xs.sum) + xs.sum + x| := by ring_nf
        _ ≤ |s - xs.sum| + |xs.sum| + |x| := abs_add_three _ _ _
        _ ≤ (p - 1) * a + a + |x| := by linarith
    calc |fl (s + x) - (xs.sum + x)| = |(fl (s + x) - (s + x)) + (s - xs.sum)| := by ring_nf
      _ ≤ |fl (s + x) - (s + x)| + |s - xs.sum| := abs_add_le _ _
      _ ≤ unit * ((p - 1) * a + a + |x|) + (p - 1) * a := by
        linarith [mul_le_mul_of_nonneg_left hs hunit]
      _ ≤ (p * (1 + unit) - 1) * (a + |x|) := by
        linarith [mul_nonneg hp (abs_nonneg x), mul_nonneg (mul_nonneg hp hunit) (abs_nonneg x)]

end

/-- Doubles, with any function for the sum of a list that is as accurate as adding them up. -/
abbrev binary64With (sum : List ℚ → ℚ) (h : Accurate nearestDouble (2 ^ (-53 : ℤ)) sum) : Rounding where
  fl := nearestDouble
  sum
  unit := 2 ^ (-53 : ℤ)
  nearest := nearestDouble_nearest
  fl_neg := nearestDouble_neg
  unit_nonneg := by positivity
  fl_add _ _ := nearestDouble_add
  accurate := h

theorem binary64With_fl_intCast {sum : List ℚ → ℚ} {h : Accurate nearestDouble (2 ^ (-53 : ℤ)) sum}
    (n : ℤ) (hn : |n| < 2 ^ 53) : (binary64With sum h).fl n = n :=
  nearestDouble_intCast (by exact_mod_cast hn)

theorem nearestDouble_nearestDouble (x : ℚ) :
    nearestDouble (nearestDouble x) = nearestDouble x := by
  have h := nearestDouble_nearest (nearestDouble x) x
  rw [sub_self, abs_zero] at h
  exact sub_eq_zero.mp (abs_nonpos_iff.mp h)

abbrev binary64 : Rounding :=
  binary64With (sumLeft nearestDouble)
    (accurate_sumLeft (by positivity) nearestDouble_zero nearestDouble_nearestDouble
      fun _ _ => nearestDouble_add)

example : binary64.fl (1 / 10) = 3602879701896397 / 2 ^ 55 := by decide +kernel

/-! Doubles next to zero and next to one. -/

theorem nearestDouble_mono : Monotone nearestDouble := @Rounding.fl_mono binary64

/-- What is negative is rounded to zero as long as the least double is no nearer. -/
theorem nearestDouble_nonneg_iff {x : ℚ} : 0 ≤ nearestDouble x ↔ -2 ^ (-1075 : ℤ) ≤ x := by
  constructor
  · intro h
    by_contra hlt
    rw [not_le] at hlt
    have hleast : nearestDouble (-2 ^ (-1074 : ℤ)) = -2 ^ (-1074 : ℤ) := by decide +kernel
    have hnear := nearestDouble_nearest x (-2 ^ (-1074 : ℤ))
    have hhalf : (2 : ℚ) ^ (-1074 : ℤ) = 2 * 2 ^ (-1075 : ℤ) := by
      rw [← zpow_one_add₀ (by norm_num)]
      norm_num
    have hpos : (0 : ℚ) < 2 ^ (-1075 : ℤ) := by positivity
    rw [hleast, abs_of_nonneg (by linarith : 0 ≤ nearestDouble x - x), le_abs] at hnear
    rcases hnear with hnear | hnear <;> linarith
  · intro h
    calc (0 : ℚ) = nearestDouble (-2 ^ (-1075 : ℤ)) := by decide +kernel
      _ ≤ nearestDouble x := nearestDouble_mono h

theorem one_le_nearestDouble_iff {x : ℚ} : 1 ≤ nearestDouble x ↔ 1 - 2 ^ (-54 : ℤ) ≤ x := by
  constructor
  · intro h
    by_contra hlt
    rw [not_le] at hlt
    have hbelow : nearestDouble (1 - 2 ^ (-53 : ℤ)) = 1 - 2 ^ (-53 : ℤ) := by decide +kernel
    have hnear := nearestDouble_nearest x (1 - 2 ^ (-53 : ℤ))
    rw [hbelow, abs_of_nonneg (by norm_num at hlt ⊢; linarith : 0 ≤ nearestDouble x - x), le_abs]
      at hnear
    norm_num at hlt hnear
    rcases hnear with hnear | hnear <;> linarith
  · intro h
    calc (1 : ℚ) = nearestDouble (1 - 2 ^ (-54 : ℤ)) := by decide +kernel
      _ ≤ nearestDouble x := nearestDouble_mono h

theorem lastPlace_of_half_le {x : ℚ} (h : 1 / 2 ≤ x) (h' : x < 1) : lastPlace x = -53 := by
  have hpos : 0 < x := lt_of_lt_of_le (by norm_num) h
  have hlow : -1 ≤ Int.log 2 x := le_log hpos (le_trans (by norm_num) h)
  have hhigh : Int.log 2 x < 0 := log_lt hpos (by simpa using h')
  rw [lastPlace, abs_of_pos hpos]
  omega

/-- The double below one. -/
theorem nearestDouble_le_of_lt_one {x : ℚ} (h : nearestDouble x < 1) :
    nearestDouble x ≤ 1 - 2 ^ (-53 : ℤ) := by
  rcases le_or_gt x (1 - 2 ^ (-53 : ℤ)) with hle | hlt
  · calc nearestDouble x ≤ nearestDouble (1 - 2 ^ (-53 : ℤ)) := nearestDouble_mono hle
      _ = 1 - 2 ^ (-53 : ℤ) := by decide +kernel
  · have hbelow : x < 1 := by
      by_contra hge
      have hone : nearestDouble 1 ≤ nearestDouble x := nearestDouble_mono (not_lt.mp hge)
      exact absurd (hone.trans_lt h) (by decide +kernel)
    obtain ⟨k, hk⟩ := onGrid_nearestDouble x
    rw [lastPlace_of_half_le (le_trans (by norm_num) hlt.le) hbelow] at hk
    rw [hk] at h ⊢
    have hbound : k ≤ 2 ^ 53 - 1 := by
      have hdigits : (k : ℚ) < 2 ^ 53 := by
        norm_num at h ⊢
        linarith
      have : k < 2 ^ 53 := by exact_mod_cast hdigits
      omega
    have hdigits : (k : ℚ) ≤ 2 ^ 53 - 1 := by exact_mod_cast hbound
    norm_num at hdigits ⊢
    linarith

/-- Doubles from a power of two on differ by the last place of the numbers below it. -/
theorem gap_of_doubles {x y : ℚ} {e : ℤ} (hx : nearestDouble x = x) (hy : nearestDouble y = y)
    (hlow : (2 : ℚ) ^ e ≤ x) (h : x < y) : (2 : ℚ) ^ (e - 52) ≤ y - x := by
  have hplace {z : ℚ} (hz : (2 : ℚ) ^ e ≤ z) : max (e - 52) (-1074) ≤ lastPlace z := by
    have hpos : 0 < z := lt_of_lt_of_le (by positivity) hz
    have := le_log hpos hz
    rw [lastPlace, abs_of_pos hpos]
    omega
  have hgrid : OnGrid (max (e - 52) (-1074)) (y + -x) := by
    refine OnGrid.add ?_ (OnGrid.neg ?_)
    · exact hy ▸ (onGrid_nearestDouble y).of_le (hplace (hlow.trans h.le))
    · exact hx ▸ (onGrid_nearestDouble x).of_le (hplace hlow)
  obtain ⟨k, hk⟩ := hgrid
  have hstep : (0 : ℚ) < 2 ^ max (e - 52) (-1074) := by positivity
  have hk1 : (1 : ℚ) ≤ k := by
    have hsign : (0 : ℚ) < k := by
      refine pos_of_mul_pos_left ?_ hstep.le
      rw [← hk]
      linarith
    have : 0 < k := by exact_mod_cast hsign
    exact_mod_cast this
  calc (2 : ℚ) ^ (e - 52) ≤ 2 ^ max (e - 52) (-1074) :=
        zpow_le_zpow_right₀ (by norm_num) (le_max_left _ _)
    _ ≤ k * 2 ^ max (e - 52) (-1074) := le_mul_of_one_le_left hstep.le hk1
    _ = y - x := by rw [← hk, sub_eq_add_neg]

/-- A quotient of different doubles is not so near to one that it is rounded to it. -/
theorem div_lt_of_doubles {x y : ℚ} (hx : nearestDouble x = x) (hy : nearestDouble y = y)
    (hpos : 0 < y) (h : x < y) : x / y < 1 - 2 ^ (-54 : ℤ) := by
  by_contra hnear
  rw [not_lt, le_div_iff₀ hpos] at hnear
  have hlow := zpow_log_le hpos
  have hhigh := lt_zpow_log y
  set e := Int.log 2 y
  have hpower : (0 : ℚ) < 2 ^ e := by positivity
  have hxlow : (2 : ℚ) ^ (e - 1) ≤ x := by
    rw [zpow_sub_one₀ (by norm_num)]
    norm_num at hnear ⊢
    linarith
  have hgap := gap_of_doubles hx hy hxlow h
  have hscale : (2 : ℚ) ^ (e - 1 - 52) = 2 ^ (-54 : ℤ) * 2 ^ (e + 1) := by
    rw [← zpow_add₀ (by norm_num)]
    congr 1
    ring
  have hsmall : (2 : ℚ) ^ (-54 : ℤ) * y < 2 ^ (-54 : ℤ) * 2 ^ (e + 1) := by gcongr
  linarith

theorem sumLeft_whole {xs : List ℤ} (h : (xs.map abs).sum < 2 ^ 53) :
    sumLeft nearestDouble (xs.map fun x : ℤ => (x : ℚ)) = xs.sum := by
  induction xs using List.reverseRecOn with
  | nil => rfl
  | append_singleton xs x ih =>
    simp only [List.map_append, List.sum_append, List.map_cons, List.map_nil, List.sum_singleton] at h ⊢
    have hx := abs_nonneg x
    rw [sumLeft_concat, ih (by linarith)]
    have habs : |xs.sum + x| < 2 ^ 53 := by
      have hsum : |xs.sum| ≤ (xs.map abs).sum := abs_sum_le xs
      linarith [abs_add_le xs.sum x]
    have hexact : nearestDouble ((xs.sum + x : ℤ) : ℚ) = (xs.sum + x : ℤ) :=
      nearestDouble_intCast (by exact_mod_cast habs)
    rwa [Int.cast_add] at hexact ⊢

end Quinn.Arith
