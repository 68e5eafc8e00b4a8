import Mathlib.Algebra.Order.Ring.Rat
import Mathlib.Data.List.Sort
import Mathlib.Data.String.Basic
import Mathlib.Order.WithBot

/-! What Python makes of JSON, with `==` and `<` of it.  Values are compared in a form in which those
that are equal are the same. -/

namespace Quinn.Logs

abbrev Number := WithBot (WithTop ℚ)

inductive Json
  | null
  | bool (b : Bool)
  | num (x : Number)
  /-- `json.loads` has one object for every `NaN`. -/
  | nan
  | str (s : String)
  | arr (items : List Json)
  | obj (fields : List (String × Json))

namespace Json

mutual

def decEq : (a b : Json) → Decidable (a = b)
  | null, b => by cases b <;> first | exact isTrue rfl | exact isFalse nofun
  | nan, b => by cases b <;> first | exact isTrue rfl | exact isFalse nofun
  | bool x, b =>
    match b with
    | bool y => decidable_of_iff (x = y) (by simp)
    | null | num _ | nan | str _ | arr _ | obj _ => isFalse nofun
  | num x, b =>
    match b with
    | num y => decidable_of_iff (x = y) (by simp)
    | null | bool _ | nan | str _ | arr _ | obj _ => isFalse nofun
  | str x, b =>
    match b with
    | str y => decidable_of_iff (x = y) (by simp)
    | null | bool _ | num _ | nan | arr _ | obj _ => isFalse nofun
  | arr xs, b =>
    match b with
    | arr ys => have := decEqItems xs ys; decidable_of_iff (xs = ys) (by simp)
    | null | bool _ | num _ | nan | str _ | obj _ => isFalse nofun
  | obj xs, b =>
    match b with
    | obj ys => have := decEqFields xs ys; decidable_of_iff (xs = ys) (by simp)
    | null | bool _ | num _ | nan | str _ | arr _ => isFalse nofun

def decEqItems : (xs ys : List Json) → Decidable (xs = ys)
  | [], [] => isTrue rfl
  | [], _ :: _ => isFalse nofun
  | _ :: _, [] => isFalse nofun
  | x :: xs, y :: ys =>
    have := decEq x y
    have := decEqItems xs ys
    decidable_of_iff (x = y ∧ xs = ys) (by simp)

def decEqFields : (xs ys : List (String × Json)) → Decidable (xs = ys)
  | [], [] => isTrue rfl
  | [], _ :: _ => isFalse nofun
  | _ :: _, [] => isFalse nofun
  | (k, x) :: xs, (l, y) :: ys =>
    have := decEq x y
    have := decEqFields xs ys
    decidable_of_iff (k = l ∧ x = y ∧ xs = ys) (by simp [and_assoc])

end

instance : DecidableEq Json := decEq

mutual

/-- Truth values are numbers, and the order of fields does not matter. -/
def norm : Json → Json
  | null => null
  | bool b => num ((if b then 1 else 0 : ℚ) : WithTop ℚ)
  | num x => num x
  | nan => nan
  | str s => str s
  | arr items => arr (normItems items)
  | obj fields => obj ((normFields fields).insertionSort (·.1 ≤ ·.1))

def normItems : List Json → List Json
  | [] => []
  | x :: xs => norm x :: normItems xs

def normFields : List (String × Json) → List (String × Json)
  | [] => []
  | (k, x) :: xs => (k, norm x) :: normFields xs

end

mutual

/-- `<` for values in that form; `none` where it raises a `TypeError`.  No number is below `NaN` or above it. -/
def lessNorm : Json → Json → Option Bool
  | num x, num y => some (x < y)
  | nan, num _ | num _, nan | nan, nan => some false
  | str s, str t => some (s < t)
  | arr xs, arr ys => lessItems xs ys
  | _, _ => none

/-- The first items that differ decide. -/
def lessItems : List Json → List Json → Option Bool
  | [], [] => some false
  | [], _ :: _ => some true
  | _ :: _, [] => some false
  | x :: xs, y :: ys => if x = y then lessItems xs ys else lessNorm x y

end

mutual

/-- The same where one of `a < b` and `b <= a` holds, so that `NaN` cannot be compared. -/
def ltNorm : Json → Json → Option Bool
  | num x, num y => some (x < y)
  | str s, str t => some (s < t)
  | arr xs, arr ys => ltItems xs ys
  | _, _ => none

def ltItems : List Json → List Json → Option Bool
  | [], [] => some false
  | [], _ :: _ => some true
  | _ :: _, [] => some false
  | x :: xs, y :: ys => if x = y then ltItems xs ys else ltNorm x y

end

/-- `entries.get(key)`; the last of two fields of one name counts. -/
def get (fields : List (String × Json)) (key : String) : Option Json :=
  (fields.reverse.find? (·.1 = key)).map (·.2)

theorem some_lt_total {α : Type} [LinearOrder α] {x y : α} (h : some (decide (x < y)) = some false) :
    x = y ∨ some (decide (y < x)) = some true := by
  have hle : y ≤ x := by simpa using h
  exact hle.eq_or_lt.imp Eq.symm fun hlt => congrArg some (decide_eq_true hlt)

/-- Two values of a kind that has an order. -/
inductive Comparable : Json → Json → Prop
  | num (x y : Number) : Comparable (num x) (num y)
  | str (s t : String) : Comparable (str s) (str t)
  | arr (xs ys : List Json) : Comparable (arr xs) (arr ys)

theorem comparable_of_ltNorm {a b : Json} {r : Bool} (h : ltNorm a b = some r) : Comparable a b := by
  cases a with
  | num x =>
    cases b with
    | num y => exact .num x y
    | null | bool _ | nan | str _ | arr _ | obj _ => cases h
  | str s =>
    cases b with
    | str t => exact .str s t
    | null | bool _ | num _ | nan | arr _ | obj _ => cases h
  | arr xs =>
    cases b with
    | arr ys => exact .arr xs ys
    | null | bool _ | num _ | nan | str _ | obj _ => cases h
  | null | bool _ | nan | obj _ => cases h

mutual

theorem lessNorm_of_ltNorm {a b : Json} {r : Bool} (h : ltNorm a b = some r) : lessNorm a b = some r :=
  match a, b, comparable_of_ltNorm h with
  | _, _, .num _ _ => h
  | _, _, .str _ _ => h
  | _, _, .arr xs ys => @lessItems_of_ltItems xs ys _ h

theorem lessItems_of_ltItems : ∀ {xs ys : List Json} {r : Bool}, ltItems xs ys = some r → lessItems xs ys = some r
  | [], [], _ => id
  | [], _ :: _, _ => id
  | _ :: _, [], _ => id
  | x :: xs, y :: ys, r => by
    intro h
    rw [ltItems] at h
    rw [lessItems]
    split_ifs at h ⊢ with hxy
    · exact lessItems_of_ltItems h
    · exact lessNorm_of_ltNorm h

end

mutual

theorem ltNorm_total (a b : Json) (h : ltNorm a b = some false) : a = b ∨ ltNorm b a = some true :=
  match a, b, comparable_of_ltNorm h with
  | _, _, .num _ _ => (some_lt_total h).imp_left (congrArg num)
  | _, _, .str _ _ => (some_lt_total h).imp_left (congrArg str)
  | _, _, .arr xs ys => (ltItems_total xs ys h).imp_left (congrArg arr)

theorem ltItems_total : ∀ xs ys : List Json, ltItems xs ys = some false → xs = ys ∨ ltItems ys xs = some true
  | [], [] => fun _ => .inl rfl
  | [], _ :: _ => nofun
  | _ :: _, [] => fun _ => .inr rfl
  | x :: xs, y :: ys => by
    intro h
    rw [ltItems] at h ⊢
    split_ifs at h with hxy
    · subst hxy
      rw [if_pos rfl]
      exact (ltItems_total xs ys h).imp_left (congrArg _)
    · rw [if_neg (Ne.symm hxy)]
      exact .inr ((ltNorm_total x y h).resolve_left hxy)

end

theorem some_lt_asymm {α : Type} [LinearOrder α] {x y : α} (h : some (decide (x < y)) = some true) :
    some (decide (y < x)) = some false :=
  congrArg some (decide_eq_false (of_decide_eq_true (Option.some.inj h)).not_gt)

theorem some_lt_trans {α : Type} [LinearOrder α] {x y z : α} (h : some (decide (x < y)) = some true)
    (h' : some (decide (y < z)) = some true) : some (decide (x < z)) = some true :=
  congrArg some (decide_eq_true ((of_decide_eq_true (Option.some.inj h)).trans (of_decide_eq_true (Option.some.inj h'))))

mutual

theorem ltNorm_asymm (a b : Json) (h : ltNorm a b = some true) : ltNorm b a = some false :=
  match a, b, comparable_of_ltNorm h with
  | _, _, .num _ _ => some_lt_asymm h
  | _, _, .str _ _ => some_lt_asymm h
  | _, _, .arr xs ys => ltItems_asymm xs ys h

theorem ltItems_asymm : ∀ xs ys : List Json, ltItems xs ys = some true → ltItems ys xs = some false
  | [], [] => nofun
  | [], _ :: _ => fun _ => rfl
  | _ :: _, [] => nofun
  | x :: xs, y :: ys => by
    intro h
    rw [ltItems] at h ⊢
    split_ifs at h with hxy
    · subst hxy
      rw [if_pos rfl]
      exact ltItems_asymm xs ys h
    · rw [if_neg (Ne.symm hxy)]
      exact ltNorm_asymm x y h

end

mutual

theorem ltNorm_trans (a b c : Json) (h : ltNorm a b = some true) (h' : ltNorm b c = some true) :
    ltNorm a c = some true :=
  match a, b, c, comparable_of_ltNorm h, comparable_of_ltNorm h' with
  | _, _, _, .num _ _, .num _ _ => some_lt_trans h h'
  | _, _, _, .str _ _, .str _ _ => some_lt_trans h h'
  | _, _, _, .arr xs ys, .arr _ zs => ltItems_trans xs ys zs h h'

theorem ltItems_trans : ∀ xs ys zs : List Json,
    ltItems xs ys = some true → ltItems ys zs = some true → ltItems xs zs = some true
  | [], [], _ => nofun
  | [], _ :: _, [] => fun _ => nofun
  | [], _ :: _, _ :: _ => fun _ _ => rfl
  | _ :: _, [], _ => nofun
  | _ :: _, _ :: _, [] => fun _ => nofun
  | x :: xs, y :: ys, z :: zs => by
    intro h h'
    rw [ltItems] at h h' ⊢
    split_ifs at h with hxy
    · subst hxy
      split_ifs at h' with hxz
      · rw [if_pos hxz]
        exact ltItems_trans xs ys zs h h'
      · rwa [if_neg hxz]
    · split_ifs at h' with hyz
      · subst hyz
        rwa [if_neg hxy]
      · have hxz : x ≠ z := by
          rintro rfl
          cases (ltNorm_asymm x y h).symm.trans h'
        rw [if_neg hxz]
        exact ltNorm_trans x y z h h'

end

end Json

end Quinn.Logs
