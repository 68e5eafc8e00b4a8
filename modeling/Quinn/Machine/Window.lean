import Mathlib.Data.Int.Order.Basic
import Mathlib.Data.List.Basic

/-! Windows that slide over the times at which something has happened. -/

namespace Quinn.Machine

/-- The times in the window of width `w` that ends with `t`. -/
def lastIn (w t : ℤ) (times : List ℤ) : List ℤ := times.filter fun s => t - w < s ∧ s ≤ t

/-- In no window of width `w` are there more than `n`. -/
def AtMost (n w : ℤ) (times : List ℤ) : Prop := ∀ t, ((lastIn w t times).length : ℤ) ≤ max n 0

variable {n w now a : ℤ} {times : List ℤ}

theorem atMost_nil : AtMost n w [] := fun _ => le_max_right n 0

theorem lastIn_eq_filter (hle : ∀ s ∈ times, s ≤ now) : lastIn w now times = times.filter (now - w < ·) := by
  refine List.filter_congr fun s hs => ?_
  rw [decide_eq_decide]
  exact and_iff_left (hle s hs)

theorem lastIn_concat (t : ℤ) :
    lastIn w t (times ++ [a]) = lastIn w t times ++ if t - w < a ∧ a ≤ t then [a] else [] := by
  rw [lastIn, List.filter_append, lastIn]
  split <;> simp_all

theorem AtMost.concat (h : AtMost n w times) (hle : ∀ s ∈ times, s ≤ now) (hnow : now ≤ a)
    (hfew : ((lastIn w now times).length : ℤ) < n) : AtMost n w (times ++ [a]) := by
  intro t
  rw [lastIn_concat]
  split
  · next hin =>
    -- what else is in the window is in the one that ends now
    have hsub : (lastIn w t times).length ≤ (lastIn w now times).length := by
      rw [lastIn_eq_filter hle, lastIn]
      refine (List.monotone_filter_right times fun s hs => ?_).length_le
      simp only [decide_eq_true_eq] at hs ⊢
      omega
    rw [List.length_append, List.length_singleton]
    omega
  · rw [List.append_nil]
    exact h t

/-- Dropping the old ones from the front, where the times are in order. -/
theorem dropWhile_lt_eq_filter (h : times.Pairwise (· ≤ ·)) :
    times.dropWhile (· < a) = times.filter (a ≤ ·) := by
  induction times with
  | nil => rfl
  | cons s times ih =>
    rw [List.pairwise_cons] at h
    by_cases hs : s < a
    · rw [List.dropWhile_cons_of_pos (by simpa using hs), List.filter_cons_of_neg (by simpa using hs), ih h.2]
    · rw [List.dropWhile_cons_of_neg (by simpa using hs), List.filter_eq_self.2]
      intro s' hs'
      rw [decide_eq_true_iff]
      obtain rfl | hs' := List.mem_cons.1 hs'
      · exact not_lt.1 hs
      · exact le_trans (not_lt.1 hs) (h.1 s' hs')

end Quinn.Machine
