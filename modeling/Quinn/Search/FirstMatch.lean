import Mathlib.Data.List.Basic

/-! The first match in a list, by a test that may give up on an element. -/

namespace Quinn.Search

variable {α ε : Type}

def firstMatch (test : α → Except ε Bool) : List α → Except ε (Option α)
  | [] => .ok none
  | x :: xs =>
    match test x with
    | .error e => .error e
    | .ok true => .ok (some x)
    | .ok false => firstMatch test xs

/-- The elements up to the first that does not fail the test, with that one. -/
def reached (test : α → Except ε Bool) : List α → List α
  | [] => []
  | x :: xs =>
    match test x with
    | .ok false => x :: reached test xs
    | _ => [x]

def firstStop (test : α → Except ε Bool) : List α → Option α
  | [] => none
  | x :: xs =>
    match test x with
    | .ok false => firstStop test xs
    | _ => some x

def DifferInAnswer (test test' : α → Except ε Bool) (l : List α) : Prop :=
  ∀ x ∈ l, test x = test' x ∨ ∃ b b', test x = .ok b ∧ test' x = .ok b'

variable {test test' : α → Except ε Bool} {l : List α} {x : α}

theorem firstMatch_cons (test : α → Except ε Bool) (x : α) (l : List α) :
    firstMatch test (x :: l) = (do if !(← test x) then firstMatch test l else return some x) := by
  rw [firstMatch]
  cases test x with
  | error e => rfl
  | ok b => cases b <;> rfl

theorem firstMatch_eq_some_mem (h : firstMatch test l = .ok (some x)) : x ∈ l ∧ test x = .ok true := by
  induction l with
  | nil => cases h
  | cons y ys ih =>
    rw [firstMatch] at h
    split at h
    · cases h
    · cases h
      exact ⟨List.mem_cons_self, ‹_›⟩
    · exact ⟨List.mem_cons_of_mem _ (ih h).1, (ih h).2⟩

theorem mem_of_mem_reached (h : x ∈ reached test l) : x ∈ l := by
  induction l with
  | nil => cases h
  | cons y ys ih =>
    rw [reached] at h
    split at h
    · cases List.mem_cons.1 h with
      | inl hxy => exact hxy ▸ List.mem_cons_self
      | inr htail => exact List.mem_cons_of_mem _ (ih htail)
    · exact List.mem_singleton.1 h ▸ List.mem_cons_self

theorem firstMatch_congr (h : ∀ x ∈ reached test l, test x = test' x) :
    firstMatch test l = firstMatch test' l := by
  induction l with
  | nil => rfl
  | cons y ys ih =>
    rw [reached] at h
    rw [firstMatch, firstMatch]
    cases hy : test y with
    | error e =>
      rw [hy] at h
      rw [← h y (by simp), hy]
    | ok b =>
      rw [hy] at h
      cases b with
      | true => rw [← h y (by simp), hy]
      | false =>
        rw [← h y (by simp), hy]
        exact ih fun x hx => h x (by simp [hx])

theorem firstMatch_filter {keep : α → Bool} (h : ∀ x ∈ l, keep x = false → test x = .ok false) :
    firstMatch test (l.filter keep) = firstMatch test l := by
  induction l with
  | nil => rfl
  | cons y ys ih =>
    have ih := ih fun x hx => h x (List.mem_cons_of_mem _ hx)
    cases hy : keep y with
    | true => rw [List.filter_cons_of_pos hy, firstMatch, firstMatch, ih]
    | false =>
      rw [List.filter_cons_of_neg (by simp [hy]), ih, firstMatch, h y List.mem_cons_self hy]

theorem firstMatch_eq_iff (hdiffer : DifferInAnswer test test' l) :
    firstMatch test l = firstMatch test' l ↔ ∀ x ∈ reached test l, test x = test' x := by
  refine ⟨fun h => ?_, firstMatch_congr⟩
  induction l with
  | nil => simp [reached]
  | cons y ys ih =>
    have ih := ih fun x hx => hdiffer x (List.mem_cons_of_mem _ hx)
    rw [firstMatch, firstMatch] at h
    rw [reached]
    cases hdiffer y List.mem_cons_self with
    | inl hsame =>
      rw [← hsame] at h
      cases hy : test y with
      | error e => simp [← hsame, hy]
      | ok b =>
        rw [hy] at h
        cases b with
        | true => simp [← hsame, hy]
        | false =>
          have hrest := ih h
          intro x hx
          cases List.mem_cons.1 hx with
          | inl hxy => rw [hxy, hsame]
          | inr hmem => exact hrest x hmem
    | inr hanswers =>
      obtain ⟨b, b', hy, hy'⟩ := hanswers
      rw [hy, hy'] at h
      cases b with
      | true =>
        cases b' with
        | true => simp [hy, hy']
        | false =>
          -- what the second finds further on, it does not reject here
          have hfound := firstMatch_eq_some_mem h.symm
          rw [hy'] at hfound
          cases hfound.2
      | false =>
        cases b' with
        | true =>
          have hfound := firstMatch_eq_some_mem h
          rw [hy] at hfound
          cases hfound.2
        | false =>
          have hrest := ih h
          rw [hy]
          intro x hx
          cases List.mem_cons.1 hx with
          | inl hxy => rw [hxy, hy, hy']
          | inr hmem => exact hrest x hmem

theorem firstMatch_eq_firstStop :
    firstMatch test l = .ok (some x) ↔ firstStop test l = some x ∧ test x = .ok true := by
  induction l with
  | nil => simp [firstMatch, firstStop]
  | cons y ys ih =>
    rw [firstMatch, firstStop]
    cases hy : test y with
    | error e =>
      refine ⟨fun h => (nomatch h), fun ⟨h, htrue⟩ => ?_⟩
      cases h
      rw [hy] at htrue
      cases htrue
    | ok b =>
      cases b with
      | true =>
        refine ⟨fun h => ?_, fun ⟨h, _⟩ => ?_⟩
        · cases h
          exact ⟨rfl, hy⟩
        · cases h
          rfl
      | false => exact ih

theorem firstStop_mem (h : firstStop test l = some x) : x ∈ l ∧ test x ≠ .ok false := by
  induction l with
  | nil => cases h
  | cons y ys ih =>
    rw [firstStop] at h
    split at h
    · exact ⟨List.mem_cons_of_mem _ (ih h).1, (ih h).2⟩
    · rename_i hy
      cases h
      exact ⟨List.mem_cons_self, hy⟩

/-- An element that would stop the search stops it, unless one that stands before it does. -/
theorem firstStop_of_mem {κ : Type} [DecidableEq κ] (key : α → κ) (hx : x ∈ l)
    (hkey : ∀ y ∈ l, key y = key x → y = x) (hstop : test x ≠ .ok false) :
    firstStop test l = some ((firstStop test (l.takeWhile fun y => key y ≠ key x)).getD x) := by
  induction l with
  | nil => cases hx
  | cons y ys ih =>
    by_cases hy : key y = key x
    · cases hkey y List.mem_cons_self hy
      rw [List.takeWhile_cons_of_neg (by simp), firstStop, firstStop]
      split
      · contradiction
      · rfl
    · have hmem : x ∈ ys := by
        cases List.mem_cons.1 hx with
        | inl heq => exact absurd (heq ▸ rfl) hy
        | inr htail => exact htail
      rw [List.takeWhile_cons_of_pos (by simpa using hy), firstStop, firstStop]
      split
      · exact ih hmem fun z hz => hkey z (List.mem_cons_of_mem _ hz)
      · rfl

end Quinn.Search

/-! What holds of the first match, said of every match. -/

namespace Quinn.Search

variable {α : Type}

def Led (test : α → Bool) (good : α → Prop) (l : List α) : Prop :=
  ∀ before x after, l = before ++ x :: after → test x → ∃ y ∈ before ++ [x], test y ∧ good y

variable {test test' : α → Bool} {good : α → Prop} {l : List α}

theorem led_iff : Led test good l ↔ ∀ x ∈ l.find? test, good x := by
  constructor
  · intro h x hx
    obtain ⟨htest, before, after, hsplit, hbefore⟩ := List.find?_eq_some_iff_append.1 hx
    obtain ⟨y, hy, hytest, hgood⟩ := h before x after hsplit htest
    cases List.mem_append.1 hy with
    | inl hmem => exact absurd hytest (by simpa using hbefore y hmem)
    | inr hmem =>
      rw [List.mem_singleton.1 hmem] at hgood
      exact hgood
  · rintro h before x after rfl htest
    cases hfirst : before.find? test with
    | some y =>
      refine ⟨y, List.mem_append_left _ (List.mem_of_find?_eq_some hfirst), List.find?_some hfirst, ?_⟩
      exact h y (by rw [List.find?_append, hfirst]; rfl)
    | none =>
      refine ⟨x, List.mem_append_right _ (List.mem_singleton_self x), htest, ?_⟩
      exact h x (by rw [List.find?_append, hfirst, List.find?_cons_of_pos htest]; rfl)

theorem exists_find?_iff : (∃ x, l.find? test = some x) ↔ ∃ x ∈ l, test x := by
  rw [← Option.isSome_iff_exists, List.find?_isSome]

/-- Two searches find the same, with `good`, exactly when every match of one has at or before it a
match of both, which has `good`. -/
theorem found_agree_iff :
    (∀ x ∈ l.find? test, ∀ y ∈ l.find? test', x = y ∧ good x) ↔
      ((∃ x ∈ l, test x) → (∃ y ∈ l, test' y) →
        Led test (fun x => test' x ∧ good x) l ∧ Led test' (fun y => test y) l) := by
  constructor
  · intro h hx hy
    obtain ⟨x, hx⟩ := exists_find?_iff.2 hx
    obtain ⟨y, hy⟩ := exists_find?_iff.2 hy
    obtain ⟨rfl, hgood⟩ := h x hx y hy
    constructor
    · rw [led_iff]
      intro z hz
      cases hx.symm.trans hz
      exact ⟨List.find?_some hy, hgood⟩
    · rw [led_iff]
      intro z hz
      cases hy.symm.trans hz
      exact List.find?_some hx
  · intro h x hx y hy
    obtain ⟨hled, hled'⟩ := h (exists_find?_iff.1 ⟨x, hx⟩) (exists_find?_iff.1 ⟨y, hy⟩)
    obtain ⟨hxtest', hgood⟩ := led_iff.1 hled x hx
    refine ⟨?_, hgood⟩
    have hytest := led_iff.1 hled' y hy
    obtain ⟨-, before, after, hsplit, hbefore⟩ := List.find?_eq_some_iff_append.1 hx
    -- neither can stand before the other
    rw [hsplit, List.find?_append, Option.mem_def] at hy
    cases hfirst : before.find? test' with
    | none =>
      rw [hfirst, List.find?_cons_of_pos hxtest'] at hy
      exact Option.some.inj hy
    | some z =>
      rw [hfirst] at hy
      cases Option.some.inj hy
      exact absurd hytest (by simpa using hbefore y (List.mem_of_find?_eq_some hfirst))

end Quinn.Search
