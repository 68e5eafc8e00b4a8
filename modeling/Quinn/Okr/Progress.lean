import Mathlib.Algebra.Order.Field.Basic
import Mathlib.Algebra.Order.BigOperators.Group.List
import Mathlib.Algebra.Order.Ring.Rat
import Mathlib.Tactic.Linarith
import Quinn.Arith.Rounding

/-! `queries/okr.py`: the progress of key results, and of an objective over them.  Values are floats,
or integers as JSON has them; a quotient is rounded once in both cases.  (An integer that is no
double beside a float, and a quotient of integers beyond the doubles, are left out.) -/

namespace Quinn.Okr

open Arith

structure KeyResult where
  metric : String
  target : ℚ
  current : ℚ
  unit : String
  deriving DecidableEq

namespace KeyResult

def progress (kr : KeyResult) : ℚ :=
  if kr.target = 0 then if 0 ≤ kr.current then 100 else 0
  else min 100 (nearestDouble (nearestDouble (kr.current / kr.target) * 100))

def IsMet (kr : KeyResult) : Prop := kr.target ≤ kr.current

instance : DecidablePred IsMet := fun kr => inferInstanceAs (Decidable (kr.target ≤ kr.current))

end KeyResult

/-- What `sum` has promised of floats whatever its order of additions, which changed between
versions: an error within that of the additions, and none where all partial sums are doubles. -/
structure SumsFloats (sum : List ℚ → ℚ) : Prop where
  accurate : Accurate nearestDouble (2 ^ (-53 : ℤ)) sum
  whole : ∀ xs : List ℤ, (xs.map abs).sum < 2 ^ 53 → sum (xs.map fun x : ℤ => (x : ℚ)) = xs.sum

def progress (sum : List ℚ → ℚ) (keyResults : List KeyResult) : ℚ :=
  if keyResults = [] then 0
  else nearestDouble (sum (keyResults.map (·.progress)) / keyResults.length)

namespace KeyResult

variable {kr : KeyResult}

theorem progress_of_target_zero (h : kr.target = 0) :
    kr.progress = if 0 ≤ kr.current then 100 else 0 := if_pos h

theorem progress_of_target_ne (h : kr.target ≠ 0) : kr.progress =
    min 100 (nearestDouble (nearestDouble (kr.current / kr.target) * 100)) := if_neg h

theorem progress_le (kr : KeyResult) : kr.progress ≤ 100 := by
  unfold progress
  split_ifs
  · exact le_rfl
  · norm_num
  · exact min_le_left _ _

theorem nearestDouble_progress (kr : KeyResult) : nearestDouble kr.progress = kr.progress := by
  unfold progress
  split_ifs
  · decide +kernel
  · decide +kernel
  · rcases min_choice (100 : ℚ) (nearestDouble (nearestDouble (kr.current / kr.target) * 100))
      with h | h <;> rw [h]
    · decide +kernel
    · exact nearestDouble_nearestDouble _

/-- The percentage is a hundred as soon as the quotient is rounded to one. -/
theorem hundred_le_iff {q : ℚ} :
    100 ≤ nearestDouble (nearestDouble q * 100) ↔ 1 - 2 ^ (-54 : ℤ) ≤ q := by
  rw [← one_le_nearestDouble_iff]
  constructor
  · intro h
    by_contra hlt
    have hbelow := nearestDouble_le_of_lt_one (not_le.mp hlt)
    have hle : nearestDouble q * 100 ≤ (1 - 2 ^ (-53 : ℤ)) * 100 :=
      mul_le_mul_of_nonneg_right hbelow (by norm_num)
    have hround : nearestDouble ((1 - 2 ^ (-53 : ℤ)) * 100) < 100 := by decide +kernel
    exact absurd h (not_le.mpr ((nearestDouble_mono hle).trans_lt hround))
  · intro h
    calc (100 : ℚ) = nearestDouble (1 * 100) := by decide +kernel
      _ ≤ nearestDouble (nearestDouble q * 100) :=
        nearestDouble_mono (mul_le_mul_of_nonneg_right h (by norm_num))

theorem percentage_nonneg_iff {q : ℚ} :
    0 ≤ nearestDouble (nearestDouble q * 100) ↔ -2 ^ (-1075 : ℤ) ≤ q := by
  rw [← nearestDouble_nonneg_iff]
  constructor
  · intro h
    by_contra hneg
    rw [not_le] at hneg
    have hle : nearestDouble (nearestDouble q * 100) ≤ nearestDouble q := by
      calc nearestDouble (nearestDouble q * 100) ≤ nearestDouble (nearestDouble q) :=
            nearestDouble_mono (by linarith)
        _ = nearestDouble q := nearestDouble_nearestDouble q
    linarith
  · intro h
    calc (0 : ℚ) = nearestDouble (0 * 100) := by decide +kernel
      _ ≤ nearestDouble (nearestDouble q * 100) :=
        nearestDouble_mono (mul_le_mul_of_nonneg_right h (by norm_num))

/-- What the quotient takes for complete. -/
def Full (kr : KeyResult) : Prop :=
  if kr.target = 0 then 0 ≤ kr.current else 1 - 2 ^ (-54 : ℤ) ≤ kr.current / kr.target

instance : DecidablePred Full := fun kr => by
  unfold Full
  infer_instance

theorem progress_eq_iff : kr.progress = 100 ↔ kr.Full := by
  rw [Full]
  by_cases hzero : kr.target = 0
  · rw [progress_of_target_zero hzero, if_pos hzero]
    split
    · next h => simp [h]
    · next h => simp [h]
  · rw [progress_of_target_ne hzero, if_neg hzero, min_eq_left_iff, hundred_le_iff]

theorem progress_nonneg_iff :
    0 ≤ kr.progress ↔ kr.target = 0 ∨ -2 ^ (-1075 : ℤ) ≤ kr.current / kr.target := by
  by_cases hzero : kr.target = 0
  · rw [progress_of_target_zero hzero]
    simp only [hzero, true_or, iff_true]
    split
    · norm_num
    · exact le_rfl
  · rw [progress_of_target_ne hzero, le_min_iff, percentage_nonneg_iff]
    simp [hzero]

/-- The progress is a percentage, and a hundred when the target is met. -/
structure Agrees (kr : KeyResult) : Prop where
  nonneg : 0 ≤ kr.progress
  le : kr.progress ≤ 100
  met : kr.progress = 100 ↔ kr.IsMet

/-- The current value is not below zero, unless the target is and they are the same; for numbers
that are no doubles, neither is there a miss or an excess that the quotient does not show. -/
def Measurable (kr : KeyResult) : Prop :=
  kr.target = 0 ∨
    (0 < kr.target ∧ -2 ^ (-1075 : ℤ) ≤ kr.current / kr.target ∧
      (kr.current < kr.target → kr.current / kr.target < 1 - 2 ^ (-54 : ℤ))) ∨
    kr.target < 0 ∧ kr.target ≤ kr.current ∧ 1 - 2 ^ (-54 : ℤ) ≤ kr.current / kr.target

instance : DecidablePred Measurable := fun _ => inferInstanceAs (Decidable (_ ∨ _ ∨ _))

theorem full_of_target_zero (h : kr.target = 0) : kr.Full ↔ kr.IsMet := by
  rw [Full, if_pos h, IsMet, h]

theorem full_of_target_ne (h : kr.target ≠ 0) :
    kr.Full ↔ 1 - 2 ^ (-54 : ℤ) ≤ kr.current / kr.target := by
  rw [Full, if_neg h]

theorem full_of_met (hpos : 0 < kr.target) (h : kr.IsMet) : kr.Full := by
  rw [full_of_target_ne hpos.ne']
  have hone : 1 ≤ kr.current / kr.target := (one_le_div hpos).mpr h
  exact le_trans (by norm_num) hone

theorem full_of_not_met (hneg : kr.target < 0) (h : ¬kr.IsMet) : kr.Full := by
  rw [full_of_target_ne hneg.ne]
  have hone : 1 ≤ kr.current / kr.target := (one_le_div_of_neg hneg).mpr (not_le.mp h).le
  exact le_trans (by norm_num) hone

theorem agrees_iff : kr.Agrees ↔ kr.Measurable := by
  have hagrees : kr.Agrees ↔
      (kr.target = 0 ∨ -2 ^ (-1075 : ℤ) ≤ kr.current / kr.target) ∧ (kr.Full ↔ kr.IsMet) := by
    rw [← progress_nonneg_iff, ← progress_eq_iff]
    exact ⟨fun h => ⟨h.nonneg, h.met⟩, fun h => ⟨h.1, kr.progress_le, h.2⟩⟩
  rw [hagrees, Measurable]
  obtain hneg | hzero | hpos := lt_trichotomy kr.target 0
  · simp only [hneg.ne, hneg.not_gt, hneg, false_or, false_and, true_and]
    rw [← full_of_target_ne hneg.ne]
    constructor
    · rintro ⟨-, hiff⟩
      have hmet : kr.IsMet := by
        by_contra hmissed
        exact hmissed (hiff.mp (full_of_not_met hneg hmissed))
      exact ⟨hmet, hiff.mpr hmet⟩
    · rintro ⟨hmet, hfull⟩
      have hquotient := (full_of_target_ne hneg.ne).mp hfull
      have hleast : -2 ^ (-1075 : ℤ) ≤ (0 : ℚ) := neg_nonpos.mpr (by positivity)
      exact ⟨hleast.trans (le_trans (by norm_num) hquotient), iff_of_true hfull hmet⟩
  · simp [hzero, full_of_target_zero hzero]
  · simp only [hpos.ne', hpos.not_gt, hpos, false_or, or_false, false_and, true_and]
    refine and_congr_right fun _ => ?_
    rw [full_of_target_ne hpos.ne']
    constructor
    · intro hiff hmissed
      by_contra hnear
      exact absurd (hiff.mp (not_lt.mp hnear)) (not_le.mpr hmissed)
    · intro hmissed
      refine ⟨fun hfull => ?_, fun hmet => (full_of_target_ne hpos.ne').mp (full_of_met hpos hmet)⟩
      by_contra hnot
      exact absurd hfull (not_le.mpr (hmissed (not_le.mp hnot)))

/-- Floats that differ have a quotient that shows it. -/
theorem measurable_iff_of_floats (ht : nearestDouble kr.target = kr.target)
    (hc : nearestDouble kr.current = kr.current) : kr.Measurable ↔
      kr.target = 0 ∨ (0 < kr.target ∧ -2 ^ (-1075 : ℤ) ≤ kr.current / kr.target) ∨
        kr.target < 0 ∧ kr.current = kr.target := by
  rw [Measurable]
  refine or_congr_right (or_congr ?_ ?_)
  · refine and_congr_right fun hpos => and_iff_left fun h => ?_
    exact div_lt_of_doubles hc ht hpos h
  · refine and_congr_right fun hneg => ⟨fun h => ?_, fun h => ?_⟩
    · by_contra hne
      have hlt : -kr.current < -kr.target := neg_lt_neg (lt_of_le_of_ne h.1 (Ne.symm hne))
      have hquotient := div_lt_of_doubles (by rw [nearestDouble_neg, hc])
        (by rw [nearestDouble_neg, ht]) (neg_pos.mpr hneg) hlt
      rw [neg_div_neg_eq] at hquotient
      exact absurd h.2 (not_le.mpr hquotient)
    · rw [h, div_self hneg.ne]
      norm_num

/-- The quotient is that of a full one or falls short of it by more than the sum of as many
percentages can lose. -/
def Clear (n : ℕ) (kr : KeyResult) : Prop :=
  kr.target = 0 ∨ 1 ≤ kr.current / kr.target ∨
    kr.current / kr.target ≤ 1 - n ^ 2 * 2 ^ (-50 : ℤ)

instance (n : ℕ) : DecidablePred (Clear n) := fun _ => inferInstanceAs (Decidable (_ ∨ _ ∨ _))

section clear

variable {n : ℕ}

theorem Clear.full_iff (h : kr.Clear n) (hn : 1 ≤ n) (hne : kr.target ≠ 0) :
    kr.Full ↔ 1 ≤ kr.current / kr.target := by
  rw [full_of_target_ne hne]
  refine ⟨fun hfull => ?_, fun hone => le_trans (by norm_num) hone⟩
  rcases h with hzero | hone | hshort
  · exact absurd hzero hne
  · exact hone
  · have hsquare : (1 : ℚ) ≤ n ^ 2 := one_le_pow₀ (by exact_mod_cast hn)
    norm_num at hfull hshort
    linarith

theorem Clear.full_iff_isMet (h : kr.Clear n) (hn : 1 ≤ n) (hnonneg : 0 ≤ kr.target) :
    kr.Full ↔ kr.IsMet := by
  obtain hzero | hpos := hnonneg.eq_or_lt
  · exact full_of_target_zero hzero.symm
  · rw [h.full_iff hn hpos.ne', one_le_div hpos, IsMet]

theorem Clear.full_of_neg (h : kr.Clear n) (hn : 1 ≤ n) (hneg : kr.target < 0) :
    kr.Full ↔ kr.current ≤ kr.target := by
  rw [h.full_iff hn hneg.ne, one_le_div_of_neg hneg]

theorem Clear.progress_le (h : kr.Clear n) (hn : 1 ≤ n) (hbound : n ≤ 2 ^ 25) (hmissed : ¬kr.Full) :
    kr.progress ≤ 100 - n ^ 2 * 2 ^ (-44 : ℤ) := by
  have hlow : (1 : ℚ) ≤ n ^ 2 := one_le_pow₀ (by exact_mod_cast hn)
  have hhigh : (n : ℚ) ^ 2 ≤ 2 ^ 50 := by
    calc (n : ℚ) ^ 2 ≤ (2 ^ 25) ^ 2 := pow_le_pow_left₀ (Nat.cast_nonneg n) (by exact_mod_cast hbound) 2
      _ = 2 ^ 50 := by norm_num
  by_cases hzero : kr.target = 0
  · rw [Full, if_pos hzero] at hmissed
    rw [progress_of_target_zero hzero, if_neg hmissed]
    norm_num
    linarith
  · have hshort : kr.current / kr.target ≤ 1 - n ^ 2 * 2 ^ (-50 : ℤ) := by
      rcases h with hzero' | hone | hshort
      · exact absurd hzero' hzero
      · exact absurd ((full_of_target_ne hzero).mpr (le_trans (by norm_num) hone)) hmissed
      · exact hshort
    set q : ℚ := 1 - n ^ 2 * 2 ^ (-50 : ℤ)
    have hq : q = 1 - n ^ 2 / 2 ^ 50 := by
      simp only [q]
      norm_num
      ring
    have hqnonneg : 0 ≤ q := by
      rw [hq]
      norm_num
      linarith
    have hqlt : |q| < 2 ^ 1 := by
      rw [abs_of_nonneg hqnonneg, hq]
      norm_num
      linarith
    have hfirst := (abs_le.mp (abs_nearestDouble_sub_le_of_lt le_rfl hqlt)).2
    have hnonneg : 0 ≤ nearestDouble q * 100 := by
      have : 0 ≤ nearestDouble q := nearestDouble_nonneg_iff.mpr
        (le_trans (neg_nonpos.mpr (by positivity)) hqnonneg)
      positivity
    have hpercent : |nearestDouble q * 100| < 2 ^ 7 := by
      rw [abs_of_nonneg hnonneg]
      norm_num at hfirst ⊢
      linarith
    have hsecond := (abs_le.mp (abs_nearestDouble_sub_le_of_lt (by norm_num) hpercent)).2
    calc kr.progress ≤ nearestDouble (nearestDouble (kr.current / kr.target) * 100) := by
          rw [progress_of_target_ne hzero]
          exact min_le_right _ _
      _ ≤ nearestDouble (nearestDouble q * 100) :=
        nearestDouble_mono (mul_le_mul_of_nonneg_right (nearestDouble_mono hshort) (by norm_num))
      _ ≤ 100 - n ^ 2 * 2 ^ (-44 : ℤ) := by
        norm_num at hfirst hsecond ⊢
        linarith

end clear

end KeyResult

theorem sum_map_const_sub (c : ℚ) (xs : List ℚ) :
    (xs.map fun x => c - x).sum = xs.length * c - xs.sum := by
  induction xs with
  | nil => simp
  | cons x xs ih =>
    rw [List.map_cons, List.sum_cons, List.sum_cons, List.length_cons, Nat.cast_add_one, ih]
    ring

/-- A list of percentages one of which is clearly short of a hundred. -/
theorem mean_lt {sum : List ℚ → ℚ} (hsum : SumsFloats sum) {ps : List ℚ}
    (hbound : ps.length ≤ 2 ^ 25) (hdoubles : ∀ p ∈ ps, nearestDouble p = p)
    (hle : ∀ p ∈ ps, p ≤ 100) (hshort : ∃ p ∈ ps, p ≤ 100 - ps.length ^ 2 * 2 ^ (-44 : ℤ)) :
    nearestDouble (sum ps / ps.length) < 100 := by
  obtain ⟨p, hp, hpshort⟩ := hshort
  have hlow : (1 : ℚ) ≤ ps.length := by exact_mod_cast List.length_pos_of_mem hp
  have hhigh : (ps.length : ℚ) ≤ 2 ^ 25 := by exact_mod_cast hbound
  -- what is missing of a hundred each is at least what the short one misses
  have hmissing : 100 - p ≤ ps.length * 100 - ps.sum := by
    rw [← sum_map_const_sub]
    refine List.single_le_sum (fun x hx => ?_) _ (List.mem_map_of_mem hp)
    obtain ⟨p', hp', rfl⟩ := List.mem_map.mp hx
    exact sub_nonneg.mpr (hle p' hp')
  have habs : (ps.map abs).sum ≤ ps.length * 200 - ps.sum := by
    rw [← sum_map_const_sub]
    refine List.sum_le_sum fun p' hp' => ?_
    rw [abs_le]
    constructor <;> linarith [hle p' hp']
  have herror := (abs_le.mp (hsum.accurate.error ps hdoubles)).2
  have hpower : (1 + 2 ^ (-53 : ℤ)) ^ ps.length - 1 ≤ ps.length * (2 : ℚ) ^ (-52 : ℤ) := by
    have hunit : (2 : ℚ) ^ (-53 : ℤ) = 1 / 2 ^ 53 := by norm_num
    have hroundings := pow_one_add_le (u := 2 ^ (-53 : ℤ)) (by positivity) (n := ps.length)
      (by rw [hunit]; linarith)
    norm_num at hroundings ⊢
    linarith
  have hnonneg : 0 ≤ (ps.map abs).sum := by
    refine List.sum_nonneg fun x hx => ?_
    obtain ⟨p', -, rfl⟩ := List.mem_map.mp hx
    exact abs_nonneg p'
  have hmean : sum ps / ps.length ≤ 100 - 2 ^ (-46 : ℤ) := by
    rw [div_le_iff₀ (by linarith)]
    set n : ℚ := (ps.length : ℚ)
    set missing : ℚ := n * 100 - ps.sum
    have hlost : ((1 + 2 ^ (-53 : ℤ)) ^ ps.length - 1) * (ps.map abs).sum ≤
        n * 2 ^ (-52 : ℤ) * (n * 100 + missing) := by
      refine mul_le_mul hpower ?_ hnonneg (by positivity)
      linarith
    have hsquare : n ≤ n ^ 2 := le_self_pow₀ hlow (by norm_num)
    have hscaled : n * missing ≤ 2 ^ 25 * missing := by
      refine mul_le_mul_of_nonneg_right hhigh (le_trans ?_ hmissing)
      linarith [hle p hp]
    norm_num at hlost hpshort hscaled herror ⊢
    linarith
  calc nearestDouble (sum ps / ps.length) ≤ nearestDouble (100 - 2 ^ (-46 : ℤ)) :=
        nearestDouble_mono hmean
    _ < 100 := by decide +kernel

variable {sum : List ℚ → ℚ} {keyResults : List KeyResult}

/-- No key result is so near to its target that the mean does not show what it misses. -/
def AllClear (keyResults : List KeyResult) : Prop :=
  keyResults.length ≤ 2 ^ 25 ∧ ∀ kr ∈ keyResults, kr.Clear keyResults.length

instance : DecidablePred AllClear := fun _ => inferInstanceAs (Decidable (_ ∧ _))

theorem progress_eq_iff (hsum : SumsFloats sum) (hclear : AllClear keyResults) :
    progress sum keyResults = 100 ↔ keyResults ≠ [] ∧ ∀ kr ∈ keyResults, kr.Full := by
  unfold progress
  split
  · next hnil => simp [hnil]
  · next hne =>
    have hlength : 1 ≤ keyResults.length := List.length_pos_iff.mpr hne
    have hpos : (0 : ℚ) < keyResults.length := by exact_mod_cast hlength
    refine ⟨fun h => ⟨hne, ?_⟩, fun h => ?_⟩
    · by_contra hmissed
      push Not at hmissed
      obtain ⟨kr, hkr, hmissed⟩ := hmissed
      have hshort := (hclear.2 kr hkr).progress_le hlength hclear.1 hmissed
      have hlt : nearestDouble (sum (keyResults.map (·.progress)) /
          (keyResults.map (·.progress)).length) < 100 := by
        refine mean_lt hsum (by rw [List.length_map]; exact hclear.1) ?_ ?_ ?_
        · intro p hp
          obtain ⟨kr', -, rfl⟩ := List.mem_map.mp hp
          exact kr'.nearestDouble_progress
        · intro p hp
          obtain ⟨kr', -, rfl⟩ := List.mem_map.mp hp
          exact kr'.progress_le
        · rw [List.length_map]
          exact ⟨_, List.mem_map_of_mem hkr, hshort⟩
      rw [List.length_map] at hlt
      exact absurd h hlt.ne
    · have hhundreds : keyResults.map (·.progress) =
          (List.replicate keyResults.length (100 : ℤ)).map fun x : ℤ => (x : ℚ) := by
        rw [List.map_replicate, List.eq_replicate_iff]
        refine ⟨List.length_map .., fun p hp => ?_⟩
        obtain ⟨kr, hkr, rfl⟩ := List.mem_map.mp hp
        exact KeyResult.progress_eq_iff.mpr (h.2 kr hkr)
      have hexact : sum (keyResults.map (·.progress)) = keyResults.length * 100 := by
        rw [hhundreds, hsum.whole]
        · simp
        · have := hclear.1
          simp only [List.map_replicate, List.sum_replicate]
          norm_num
          omega
      rw [hexact, mul_div_cancel_left₀ _ hpos.ne']
      decide +kernel

/-- Of the key results, one with a target that is not negative is missed, or those with a negative
one are hit exactly, or one of these is missed and another one passed. -/
def Comparable (keyResults : List KeyResult) : Prop :=
  keyResults ≠ [] ∧
    ((∃ kr ∈ keyResults, 0 ≤ kr.target ∧ kr.current < kr.target) ∨
      (∀ kr ∈ keyResults, kr.target < 0 → kr.current = kr.target) ∨
      (∃ kr ∈ keyResults, kr.target < 0 ∧ kr.current < kr.target) ∧
        ∃ kr ∈ keyResults, kr.target < 0 ∧ kr.target < kr.current)

instance (keyResults : List KeyResult) : Decidable (Comparable keyResults) :=
  inferInstanceAs (Decidable (_ ∧ ((∃ kr ∈ keyResults, _) ∨ (∀ kr ∈ keyResults, _) ∨
    (∃ kr ∈ keyResults, _) ∧ ∃ kr ∈ keyResults, _)))

theorem overall_iff (hsum : SumsFloats sum) (hclear : AllClear keyResults) :
    (progress sum keyResults = 100 ↔ ∀ kr ∈ keyResults, kr.IsMet) ↔ Comparable keyResults := by
  rw [progress_eq_iff hsum hclear, Comparable]
  by_cases hne : keyResults = []
  · simp [hne]
  have hn : 1 ≤ keyResults.length := List.length_pos_iff.mpr hne
  have full_iff_isMet (kr) (hkr : kr ∈ keyResults) (hnonneg : 0 ≤ kr.target) :
      kr.Full ↔ kr.IsMet := (hclear.2 kr hkr).full_iff_isMet hn hnonneg
  have full_of_neg (kr) (hkr : kr ∈ keyResults) (hneg : kr.target < 0) :
      kr.Full ↔ kr.current ≤ kr.target := (hclear.2 kr hkr).full_of_neg hn hneg
  simp only [ne_eq, hne, not_false_eq_true, true_and]
  constructor
  · intro h
    by_contra hnot
    push Not at hnot
    obtain ⟨hreached, ⟨kr, hkr, hneg, hdiffers⟩, hone⟩ := hnot
    obtain hlt | hgt := lt_or_gt_of_ne hdiffers
    · -- nothing is above its negative target, so that all are full
      have hfull : ∀ kr ∈ keyResults, kr.Full := fun kr' hkr' => by
        obtain hnonneg | hneg' := le_or_gt 0 kr'.target
        · exact (full_iff_isMet kr' hkr' hnonneg).2 (hreached kr' hkr' hnonneg)
        · exact (full_of_neg kr' hkr' hneg').2 (hone ⟨kr, hkr, hneg, hlt⟩ kr' hkr' hneg')
      exact absurd (h.1 hfull kr hkr) (not_le_of_gt hlt)
    · have hmet : ∀ kr ∈ keyResults, kr.IsMet := fun kr' hkr' => by
        obtain hnonneg | hneg' := le_or_gt 0 kr'.target
        · exact hreached kr' hkr' hnonneg
        · exact not_lt.1 fun hlt => absurd (hone ⟨kr', hkr', hneg', hlt⟩ kr hkr hneg) (not_le_of_gt hgt)
      exact absurd ((full_of_neg kr hkr hneg).1 (h.2 hmet kr hkr)) (not_le_of_gt hgt)
  · rintro (⟨kr, hkr, hnonneg, hmissed⟩ | hexact | ⟨⟨kr, hkr, -, hmissed⟩, kr', hkr', hneg, hpassed⟩)
    · have hnotMet : ¬kr.IsMet := not_le_of_gt hmissed
      exact ⟨fun h => absurd ((full_iff_isMet kr hkr hnonneg).1 (h kr hkr)) hnotMet,
        fun h => absurd (h kr hkr) hnotMet⟩
    · refine forall₂_congr fun kr hkr => ?_
      obtain hnonneg | hneg := le_or_gt 0 kr.target
      · exact full_iff_isMet kr hkr hnonneg
      · rw [full_of_neg kr hkr hneg, KeyResult.IsMet, hexact kr hkr hneg]
    · exact ⟨fun h => absurd ((full_of_neg kr' hkr' hneg).1 (h kr' hkr')) (not_le_of_gt hpassed),
        fun h => absurd (h kr hkr) (not_le_of_gt hmissed)⟩

theorem sumsFloats_sumLeft : SumsFloats (sumLeft nearestDouble) :=
  ⟨binary64.accurate, fun _ => sumLeft_whole⟩

/-- The mean of a hundred and of the double below it is rounded to a hundred. -/
example :
    let met : KeyResult := { metric := "users", target := 1, current := 1, unit := "count" }
    let near : KeyResult := { met with current := 1 - 2 ^ (-53 : ℤ) }
    progress (sumLeft nearestDouble) [met, near] = 100 ∧ ¬near.IsMet := by
  decide +kernel

end Quinn.Okr
