import Mathlib.Data.List.AList
import Mathlib.Data.List.Induction
import Mathlib.Data.PEquiv

/-! Pairs no two of which share a member, and the dictionaries that index them by one member
and by the other. -/

namespace Quinn.Index

variable {α β ρ : Type} [DecidableEq α] [DecidableEq β]

/-- A dictionary.  The latest entry stands first. -/
abbrev Dict (κ α : Type) := AList fun _ : κ => α

/-- The entries in the order of their insertion. -/
def items {κ : Type} (d : Dict κ α) : List (κ × α) := (d.entries.map fun e => (e.1, e.2)).reverse

theorem mem_items {d : Dict α ρ} {a : α} {r : ρ} : (a, r) ∈ items d ↔ d.lookup a = some r := by
  rw [← Option.mem_def, AList.mem_lookup_iff]
  simp only [items, List.mem_reverse, List.mem_map, Prod.mk.injEq]
  constructor
  · rintro ⟨⟨a', r'⟩, h, rfl, rfl⟩
    exact h
  · intro h
    exact ⟨⟨a, r⟩, h, rfl, rfl⟩

def link (f : α ≃. β) (a : α) (b : β) (ha : f a = none) (hb : f.symm b = none) : α ≃. β where
  toFun x := if x = a then some b else f x
  invFun y := if y = b then some a else f.symm y
  inv x y := by
    by_cases hx : x = a <;> by_cases hy : y = b
    · simp [hx, hy]
    · have hfree : f.symm y ≠ some a := by
        rw [Ne, PEquiv.eq_some_iff, ha]
        simp
      simp [hx, hy, hfree, Ne.symm hy]
    · have hfree : f x ≠ some b := by
        rw [Ne, ← PEquiv.eq_some_iff, hb]
        simp
      simp [hx, hy, hfree, Ne.symm hx]
    · simp only [hx, hy, if_false]
      exact PEquiv.eq_some_iff f

def unlink (f : α ≃. β) (a : α) : α ≃. β where
  toFun x := if x = a then none else f x
  invFun y := if f.symm y = some a then none else f.symm y
  inv x y := by
    by_cases hx : x = a
    · subst hx
      simp
    · by_cases hy : f.symm y = some a
      · have hne : f x ≠ some y := by
          rw [Ne, ← PEquiv.eq_some_iff, hy]
          simpa using Ne.symm hx
        simp [hx, hy, hne]
      · simp only [hx, hy, if_false]
        exact PEquiv.eq_some_iff f

section lemmas

variable {f : α ≃. β} {a : α} {b : β} {ha : f a = none} {hb : f.symm b = none}

theorem link_apply (x : α) : link f a b ha hb x = if x = a then some b else f x := rfl

theorem symm_link_apply (y : β) :
    (link f a b ha hb).symm y = if y = b then some a else f.symm y := rfl

omit [DecidableEq β] in
theorem unlink_apply (x : α) : unlink f a x = if x = a then none else f x := rfl

omit [DecidableEq β] in
theorem symm_unlink_apply (y : β) :
    (unlink f a).symm y = if f.symm y = some a then none else f.symm y := rfl

omit [DecidableEq β] in
theorem unlink_of_none (h : f a = none) : unlink f a = f := by
  refine PEquiv.ext fun x => ?_
  rw [unlink_apply]
  split
  · next hx => rw [hx, h]
  · rfl

theorem symm_unlink_symm (h : f a = some b) : (unlink f.symm b).symm = unlink f a := by
  refine PEquiv.ext fun x => ?_
  rw [symm_unlink_apply, unlink_apply, PEquiv.symm_symm]
  by_cases hx : x = a
  · rw [hx, if_pos h, if_pos rfl]
  · have hne : f x ≠ some b := fun hc => hx (f.inj hc h)
    rw [if_neg hx, if_neg hne]

end lemmas

/-- The records filed under their first member in `d`, and what `e` leads to from the second
member, are the pairs of `f` and no others. -/
structure Indexes (fst : ρ → α) (snd : ρ → β) (d : Dict α ρ) (e : Dict β α) (f : α ≃. β) : Prop where
  forward : ∀ a, (d.lookup a).map snd = f a
  backward : ∀ b, e.lookup b = f.symm b
  filed : ∀ a r, d.lookup a = some r → fst r = a

namespace Indexes

variable {fst : ρ → α} {snd : ρ → β} {d : Dict α ρ} {e : Dict β α} {f : α ≃. β}

theorem empty : Indexes fst snd ∅ ∅ (⊥ : α ≃. β) where
  forward _ := rfl
  backward _ := rfl
  filed _ _ h := by cases h

theorem apply_of_lookup (h : Indexes fst snd d e f) {a : α} {r : ρ} (hr : d.lookup a = some r) :
    f a = some (snd r) := by
  rw [← h.forward, hr]
  rfl

theorem apply_eq_none (h : Indexes fst snd d e f) {a : α} (ha : d.lookup a = none) : f a = none := by
  rw [← h.forward, ha]
  rfl

theorem link (h : Indexes fst snd d e f) (r : ρ) (ha : f (fst r) = none)
    (hb : f.symm (snd r) = none) :
    Indexes fst snd (d.insert (fst r) r) (e.insert (snd r) (fst r))
      (link f (fst r) (snd r) ha hb) where
  forward a := by
    rw [link_apply]
    by_cases hab : a = fst r
    · rw [hab, AList.lookup_insert, if_pos rfl]
      rfl
    · rw [AList.lookup_insert_ne hab, if_neg hab, h.forward]
  backward b := by
    rw [symm_link_apply]
    by_cases hab : b = snd r
    · rw [hab, AList.lookup_insert, if_pos rfl]
    · rw [AList.lookup_insert_ne hab, if_neg hab, h.backward]
  filed a r' hr' := by
    by_cases hab : a = fst r
    · rw [hab, AList.lookup_insert] at hr'
      cases hr'
      exact hab.symm
    · rw [AList.lookup_insert_ne hab] at hr'
      exact h.filed a r' hr'

theorem unlink (h : Indexes fst snd d e f) {a : α} {r : ρ} (hr : d.lookup a = some r) :
    Indexes fst snd (d.erase a) (e.erase (snd r)) (unlink f a) where
  forward x := by
    rw [unlink_apply]
    by_cases hx : x = a
    · rw [hx, AList.lookup_erase, if_pos rfl]
      rfl
    · rw [AList.lookup_erase_ne hx, if_neg hx, h.forward]
  backward y := by
    have hback : f.symm y = some a ↔ y = snd r := by
      rw [PEquiv.eq_some_iff, h.apply_of_lookup hr, Option.some.injEq, eq_comm]
    rw [symm_unlink_apply]
    by_cases hy : y = snd r
    · rw [if_pos (hback.mpr hy), hy, AList.lookup_erase]
    · rw [AList.lookup_erase_ne hy, if_neg (mt hback.mp hy), h.backward]
  filed x r' hr' := by
    by_cases hx : x = a
    · rw [hx, AList.lookup_erase] at hr'
      cases hr'
    · rw [AList.lookup_erase_ne hx] at hr'
      exact h.filed x r' hr'

end Indexes

end Quinn.Index

/-! Dictionaries as the lists of their items. -/

namespace Quinn.Index

variable {α κ ρ : Type} [DecidableEq κ]

/-- `d[k] = v`: a key that is there keeps its place. -/
def setItem (d : List (κ × ρ)) (k : κ) (v : ρ) : List (κ × ρ) :=
  if k ∈ d.map Prod.fst then d.map fun e => if e.1 = k then (k, v) else e else d ++ [(k, v)]

theorem setItem_of_new {d : List (κ × ρ)} {k : κ} {v : ρ} (h : k ∉ d.map Prod.fst) :
    setItem d k v = d ++ [(k, v)] :=
  if_neg h

theorem foldl_setItem {key : α → κ} {value : α → ρ} {l : List α} (h : (l.map key).Nodup) :
    l.foldl (fun d x => setItem d (key x) (value x)) [] = l.map fun x => (key x, value x) := by
  induction l using List.reverseRecOn with
  | nil => rfl
  | append_singleton l x ih =>
    rw [List.map_append, List.nodup_append] at h
    have hnew : key x ∉ (l.map fun x => (key x, value x)).map Prod.fst := by
      rw [List.map_map]
      exact fun hx => h.2.2 _ hx _ (List.mem_singleton_self _) rfl
    rw [List.foldl_append, ih h.1, List.foldl_cons, List.foldl_nil, setItem_of_new hnew, List.map_append]
    rfl

end Quinn.Index
