import Mathlib.Data.List.Forall2
import Mathlib.Data.List.Sort

/-! Sorting by a key, and what comes first then. -/

namespace Quinn.Search

variable {α κ : Type} [LinearOrder κ] {key : α → κ} {p : α → Bool} {l : List α} {a x : α}

def First (key : α → κ) (p : α → Bool) (l : List α) (x : α) : Prop :=
  p x = true ∧ ∃ before after, l = before ++ x :: after ∧
    (∀ y ∈ before, p y = true → key x < key y) ∧ ∀ y ∈ after, p y = true → key x ≤ key y

theorem First.mem (h : First key p l x) : x ∈ l := by
  obtain ⟨-, before, after, rfl, -⟩ := h
  simp

theorem first_cons : First key p (a :: l) x ↔
    (p a = true ∧ a = x ∧ ∀ y ∈ l, p y = true → key a ≤ key y) ∨
      (First key p l x ∧ (p a = true → key x < key a)) := by
  constructor
  · rintro ⟨hx, before, after, hsplit, hbefore, hafter⟩
    cases before with
    | nil =>
      cases hsplit
      exact .inl ⟨hx, rfl, hafter⟩
    | cons b before =>
      cases hsplit
      obtain ⟨ha, hbefore⟩ := List.forall_mem_cons.1 hbefore
      exact .inr ⟨⟨hx, before, after, rfl, hbefore, hafter⟩, ha⟩
  · rintro (⟨ha, rfl, hle⟩ | ⟨⟨hx, before, after, rfl, hbefore, hafter⟩, ha⟩)
    · exact ⟨ha, [], l, rfl, List.forall_mem_nil _, hle⟩
    · exact ⟨hx, a :: before, after, rfl, List.forall_mem_cons.2 ⟨ha, hbefore⟩, hafter⟩

theorem filter_orderedInsert (h : l.Pairwise fun a b => key a ≤ key b) :
    (l.orderedInsert (fun a b => key a ≤ key b) a).filter p =
      if p a = true then (l.filter p).orderedInsert (fun a b => key a ≤ key b) a else l.filter p := by
  induction l with
  | nil => by_cases ha : p a = true <;> simp [ha]
  | cons b l ih =>
    obtain ⟨hb, hl⟩ := List.pairwise_cons.1 h
    by_cases hab : key a ≤ key b
    · have hle : ∀ c ∈ (b :: l).filter p, key a ≤ key c := by
        intro c hc
        obtain rfl | hc := List.mem_cons.1 (List.mem_of_mem_filter hc)
        · exact hab
        · exact hab.trans (hb c hc)
      rw [List.orderedInsert_cons_of_le _ l hab]
      by_cases ha : p a = true
      · rw [if_pos ha, List.filter_cons_of_pos ha]
        cases hfilter : (b :: l).filter p with
        | nil => rfl
        | cons c rest =>
          rw [hfilter] at hle
          exact (List.orderedInsert_cons_of_le _ rest (hle c (.head _))).symm
      · rw [if_neg ha, List.filter_cons_of_neg ha]
    · rw [List.orderedInsert_of_not_le _ l hab]
      by_cases hpb : p b = true
      · rw [List.filter_cons_of_pos hpb, List.filter_cons_of_pos hpb, ih hl]
        split
        · exact (List.orderedInsert_of_not_le _ (l.filter p) hab).symm
        · rfl
      · rw [List.filter_cons_of_neg hpb, List.filter_cons_of_neg hpb, ih hl]

theorem pairwise_sorted (key : α → κ) (l : List α) :
    (l.insertionSort fun a b => key a ≤ key b).Pairwise fun a b => key a ≤ key b :=
  @List.pairwise_insertionSort _ _ _ ⟨fun a b => le_total (key a) (key b)⟩ ⟨fun _ _ _ => le_trans⟩ l

theorem key_le_getLast_sorted {last : α} (hlast : (l.insertionSort fun a b => key a ≤ key b).getLast? = some last)
    (hx : x ∈ l) : key x ≤ key last := by
  obtain ⟨init, hinit⟩ := List.getLast?_eq_some_iff.1 hlast
  have hsorted := pairwise_sorted key l
  have hmem : x ∈ l.insertionSort fun a b => key a ≤ key b := (List.mem_insertionSort _).2 hx
  rw [hinit] at hsorted hmem
  obtain hinit | hlast := List.mem_append.1 hmem
  · exact (List.pairwise_append.1 hsorted).2.2 x hinit last List.mem_cons_self
  · rw [List.mem_singleton.1 hlast]

theorem filter_insertionSort (key : α → κ) (p : α → Bool) (l : List α) :
    (l.insertionSort fun a b => key a ≤ key b).filter p =
      (l.filter p).insertionSort fun a b => key a ≤ key b := by
  induction l with
  | nil => rfl
  | cons a l ih =>
    rw [List.insertionSort_cons, filter_orderedInsert (pairwise_sorted key l), ih]
    by_cases ha : p a = true
    · rw [if_pos ha, List.filter_cons_of_pos ha, List.insertionSort_cons]
    · rw [if_neg ha, List.filter_cons_of_neg ha]

theorem head?_orderedInsert (a : α) (l : List α) :
    (l.orderedInsert (fun a b => key a ≤ key b) a).head? =
      some (l.head?.elim a fun b => if key a ≤ key b then a else b) := by
  cases l with
  | nil => rfl
  | cons b l =>
    rw [List.orderedInsert]
    split <;> simp [*]

theorem head?_insertionSort : (l.insertionSort fun a b => key a ≤ key b).head? = some x ↔
    First key (fun _ => true) l x := by
  induction l generalizing x with
  | nil => simp [First]
  | cons a l ih =>
    rw [List.insertionSort_cons, head?_orderedInsert, first_cons, ← ih, Option.some_inj]
    cases hsort : l.insertionSort fun a b => key a ≤ key b with
    | nil =>
      obtain rfl : l = [] := List.eq_nil_of_length_eq_zero (by
        rw [← List.length_insertionSort (fun a b => key a ≤ key b) l, hsort]
        rfl)
      simp
    | cons b rest =>
      have hleast : ∀ y ∈ l, key b ≤ key y := by
        intro y hy
        have hmem : y ∈ b :: rest := hsort ▸ (List.mem_insertionSort _).2 hy
        obtain rfl | hmem := List.mem_cons.1 hmem
        · exact le_rfl
        · exact (List.pairwise_cons.1 (hsort ▸ pairwise_sorted key l)).1 y hmem
      have hb : b ∈ l := (List.mem_insertionSort fun a b => key a ≤ key b).1 (hsort ▸ .head rest)
      simp only [List.head?_cons, Option.elim_some, forall_const, Option.some_inj]
      by_cases hab : key a ≤ key b
      · rw [if_pos hab]
        constructor
        · rintro rfl
          exact .inl ⟨trivial, rfl, fun y hy => hab.trans (hleast y hy)⟩
        · rintro (⟨-, rfl, -⟩ | ⟨rfl, hlt⟩)
          · rfl
          · exact absurd hab (not_le.2 hlt)
      · rw [if_neg hab]
        constructor
        · rintro rfl
          exact .inr ⟨rfl, not_le.1 hab⟩
        · rintro (⟨-, rfl, hle⟩ | ⟨rfl, -⟩)
          · exact absurd (hle b hb) hab
          · rfl

theorem find?_insertionSort : (l.insertionSort fun a b => key a ≤ key b).find? p = some x ↔ First key p l x := by
  rw [← List.head?_filter, filter_insertionSort, head?_insertionSort]
  constructor
  · rintro ⟨-, before, after, hsplit, hbefore, hafter⟩
    obtain ⟨l₁, l₂, rfl, rfl, htail⟩ := List.filter_eq_append_iff.1 hsplit
    obtain ⟨l₃, l₄, rfl, hnone, hx, rfl⟩ := List.filter_eq_cons_iff.1 htail
    refine ⟨hx, l₁ ++ l₃, l₄, by simp, fun y hy hpy => ?_, fun y hy hpy => ?_⟩
    · obtain hy | hy := List.mem_append.1 hy
      · exact hbefore y (List.mem_filter.2 ⟨hy, hpy⟩) rfl
      · exact absurd hpy (hnone y hy)
    · exact hafter y (List.mem_filter.2 ⟨hy, hpy⟩) rfl
  · rintro ⟨hx, before, after, rfl, hbefore, hafter⟩
    refine ⟨rfl, before.filter p, after.filter p, ?_, fun y hy _ => ?_, fun y hy _ => ?_⟩
    · rw [List.filter_append, List.filter_cons_of_pos hx]
    · exact hbefore y (List.mem_of_mem_filter hy) (List.of_mem_filter hy)
    · exact hafter y (List.mem_of_mem_filter hy) (List.of_mem_filter hy)

theorem eq_of_pairwise_of_filter_eq {l' : List α} (h : l.Pairwise fun a b => key a ≤ key b)
    (h' : l'.Pairwise fun a b => key a ≤ key b)
    (heq : ∀ k, (l.filter fun a => key a = k) = l'.filter fun a => key a = k) : l = l' := by
  have hle : ∀ {a b : α} {l l' : List α}, (∀ c ∈ b :: l', key b ≤ key c) →
      (((a :: l).filter fun c => key c = key a) = (b :: l').filter fun c => key c = key a) → key b ≤ key a := by
    intro a b l l' hb heq
    have hmem : a ∈ (b :: l').filter fun c => key c = key a := by
      rw [← heq, List.filter_cons_of_pos (by simp)]
      exact .head _
    exact hb a (List.mem_of_mem_filter hmem)
  have hhead : ∀ {b : α} {l : List α}, (b :: l).Pairwise (fun a b => key a ≤ key b) → ∀ c ∈ b :: l, key b ≤ key c :=
    fun h => List.forall_mem_cons.2 ⟨le_rfl, (List.pairwise_cons.1 h).1⟩
  induction l generalizing l' with
  | nil =>
    cases l' with
    | nil => rfl
    | cons b l' =>
      have hb := heq (key b)
      rw [List.filter_cons_of_pos (by simp)] at hb
      cases hb
  | cons a l ih =>
    cases l' with
    | nil =>
      have ha := heq (key a)
      rw [List.filter_cons_of_pos (by simp)] at ha
      cases ha
    | cons b l' =>
      have hkey : key a = key b := le_antisymm (hle (hhead h) (heq (key b)).symm) (hle (hhead h') (heq (key a)))
      have hclass := heq (key a)
      rw [List.filter_cons_of_pos (by simp), List.filter_cons_of_pos (by simp [hkey])] at hclass
      obtain ⟨rfl, htail⟩ := List.cons.inj hclass
      rw [ih (List.pairwise_cons.1 h).2 (List.pairwise_cons.1 h').2 fun k => ?_]
      by_cases hk : key a = k
      · exact hk ▸ htail
      · have hrest := heq k
        rwa [List.filter_cons_of_neg (by simpa using hk), List.filter_cons_of_neg (by simpa using hk)] at hrest

theorem filter_key_insertionSort (key : α → κ) (k : κ) (l : List α) :
    ((l.insertionSort fun a b => key a ≤ key b).filter fun a => key a = k) = l.filter fun a => key a = k := by
  rw [filter_insertionSort, List.Pairwise.insertionSort_eq]
  refine List.pairwise_of_forall_mem_list fun a ha b hb => ?_
  obtain ⟨-, hka⟩ := List.mem_filter.1 ha
  obtain ⟨-, hkb⟩ := List.mem_filter.1 hb
  exact ((of_decide_eq_true hka).trans (of_decide_eq_true hkb).symm).le

theorem insertionSort_eq_iff {l' : List α} :
    ((l.insertionSort fun a b => key a ≤ key b) = l'.insertionSort fun a b => key a ≤ key b) ↔
      ∀ k, (l.filter fun a => key a = k) = l'.filter fun a => key a = k := by
  constructor
  · intro h k
    rw [← filter_key_insertionSort key k l, h, filter_key_insertionSort]
  · intro h
    refine eq_of_pairwise_of_filter_eq (pairwise_sorted key l) (pairwise_sorted key l') fun k => ?_
    rw [filter_key_insertionSort, filter_key_insertionSort, h k]

theorem insertionSort_append (key : α → κ) (l l' : List α) :
    ((l.insertionSort fun a b => key a ≤ key b) ++ l').insertionSort (fun a b => key a ≤ key b) =
      (l ++ l').insertionSort fun a b => key a ≤ key b := by
  refine insertionSort_eq_iff.2 fun k => ?_
  rw [List.filter_append, List.filter_append, filter_key_insertionSort]

/-- It does not matter whether `x` is in its place or at the end, if no other of its key is between. -/
theorem insertionSort_last_iff {before after : List α} (hx : x ∉ after) :
    (((before ++ after ++ [x]).insertionSort fun a b => key a ≤ key b) =
        (before ++ x :: after).insertionSort fun a b => key a ≤ key b) ↔
      ∀ y ∈ after, key y ≠ key x := by
  rw [insertionSort_eq_iff]
  constructor
  · intro h y hy hkey
    have hclass := h (key x)
    simp only [List.filter_append, List.append_assoc, List.append_cancel_left_eq] at hclass
    rw [List.filter_cons_of_pos (by simp), List.filter_cons_of_pos (by simp), List.filter_nil] at hclass
    have hmem : y ∈ after.filter fun a => key a = key x := List.mem_filter.2 ⟨hy, by simpa using hkey⟩
    cases hafter : after.filter fun a => key a = key x with
    | nil => simp [hafter] at hmem
    | cons z rest =>
      rw [hafter, List.cons_append] at hclass
      have hz : z ∈ after := List.mem_of_mem_filter (hafter ▸ List.mem_cons_self)
      exact hx ((List.cons.inj hclass).1 ▸ hz)
  · intro h k
    simp only [List.filter_append, List.append_assoc, List.append_cancel_left_eq]
    by_cases hk : key x = k
    · have hnone : (after.filter fun a => key a = k) = [] := by
        refine List.filter_eq_nil_iff.2 fun y hy => ?_
        simpa [hk] using h y hy
      rw [hnone, List.filter_cons_of_pos (by simpa using hk), List.filter_cons_of_pos (by simpa using hk), hnone]
      rfl
    · rw [List.filter_cons_of_neg (by simpa using hk), List.filter_cons_of_neg (by simpa using hk), List.filter_nil,
        List.append_nil]

section related

variable {β κ' : Type} [LinearOrder κ'] {R : α → β → Prop} {key' : β → κ'} {b : β} {l' : List β}
  (hkey : ∀ a b c d, R a b → R c d → (key a ≤ key c ↔ key' b ≤ key' d))

include hkey

theorem forall₂_orderedInsert (ha : R a b) (h : List.Forall₂ R l l') :
    List.Forall₂ R (l.orderedInsert (fun a b => key a ≤ key b) a)
      (l'.orderedInsert (fun a b => key' a ≤ key' b) b) := by
  induction h with
  | nil => exact .cons ha .nil
  | @cons c d l l' hc hl ih =>
    simp only [List.orderedInsert, hkey a b c d ha hc]
    split
    · exact .cons ha (.cons hc hl)
    · exact .cons hc ih

theorem forall₂_insertionSort (h : List.Forall₂ R l l') :
    List.Forall₂ R (l.insertionSort fun a b => key a ≤ key b) (l'.insertionSort fun a b => key' a ≤ key' b) := by
  induction h with
  | nil => exact .nil
  | cons ha _ ih => exact forall₂_orderedInsert hkey ha ih

end related

/-- Cutting a list off after `k` and leaving out what has not `p` commute if nothing is left out of the
first `k`, or everything of the rest. -/
theorem length_filter_take_eq_iff (p : α → Bool) (l : List α) (k : Nat) :
    ((l.take k).filter p).length = ((l.filter p).take k).length ↔
      (∀ x ∈ l.take k, p x = true) ∨ ∀ x ∈ l.drop k, p x = false := by
  have hsplit : (l.filter p).length = ((l.take k).filter p).length + ((l.drop k).filter p).length := by
    rw [← List.length_append, ← List.filter_append, List.take_append_drop]
  have hle : ((l.take k).filter p).length ≤ k := (List.length_filter_le p _).trans (List.length_take_le k l)
  have hrest : ((l.drop k).filter p).length = 0 ↔ ∀ x ∈ l.drop k, p x = false := by simp
  rw [List.length_take, hsplit, ← hrest]
  constructor
  · intro h
    by_cases hzero : ((l.drop k).filter p).length = 0
    · exact .inr hzero
    · have hfull : ((l.take k).filter p).length = (l.take k).length :=
        le_antisymm (List.length_filter_le p _) ((List.length_take_le k l).trans (by omega))
      exact .inl (List.length_filter_eq_length_iff.1 hfull)
  · rintro (hall | hzero)
    · have hfull := List.length_filter_eq_length_iff.2 hall
      rcases Nat.lt_or_ge l.length k with hshort | hlong
      · rw [List.drop_eq_nil_of_le hshort.le]
        simpa using hle
      · rw [hfull, List.length_take_of_le hlong]
        omega
    · omega

end Quinn.Search

/-! Sorting by keys of which some cannot be compared. -/

namespace Quinn.Search

variable {α κ : Type} {lt : κ → κ → Option Bool} {key : α → κ} {a : α} {l l' acc : List α}

/-- A comparison that is that of a linear order as far as it goes. -/
structure IsPartialLt (lt : κ → κ → Option Bool) : Prop where
  total : ∀ x y, lt x y = some false → x = y ∨ lt y x = some true
  asymm : ∀ x y, lt x y = some true → lt y x = some false
  trans : ∀ x y z, lt x y = some true → lt y z = some true → lt x z = some true

/-- The greatest comes first, and of those as great as `a` it is the last. -/
def insertDesc (lt : κ → κ → Option Bool) (key : α → κ) (a : α) : List α → Option (List α)
  | [] => some [a]
  | b :: l => do
    if ← lt (key b) (key a) then return a :: b :: l
    return b :: (← insertDesc lt key a l)

/-- `none` where two keys that cannot be compared are. -/
def sortDesc (lt : κ → κ → Option Bool) (key : α → κ) (l : List α) : Option (List α) :=
  l.foldlM (fun sorted a => insertDesc lt key a sorted) []

def Comparable (lt : κ → κ → Option Bool) (key : α → κ) (a b : α) : Prop := (lt (key a) (key b)).isSome = true

instance : DecidableRel (Comparable lt key) := fun _ _ => inferInstanceAs (Decidable (_ = true))

def Descending (lt : κ → κ → Option Bool) (key : α → κ) (l : List α) : Prop :=
  l.Pairwise fun a b => lt (key a) (key b) = some false

namespace IsPartialLt

theorem comparable_symm (hlt : IsPartialLt lt) {a b : α} (h : Comparable lt key a b) : Comparable lt key b a := by
  obtain ⟨below, hbelow⟩ := Option.isSome_iff_exists.1 h
  cases below with
  | true => exact Option.isSome_of_eq_some (hlt.asymm _ _ hbelow)
  | false =>
    obtain heq | hgt := hlt.total _ _ hbelow
    · rw [Comparable, heq] at h ⊢
      exact h
    · exact Option.isSome_of_eq_some hgt

end IsPartialLt

theorem insertDesc_perm (h : insertDesc lt key a l = some l') : l'.Perm (a :: l) := by
  induction l generalizing l' with
  | nil =>
    cases h
    exact .refl _
  | cons b l ih =>
    obtain ⟨below, -, hrest⟩ := Option.bind_eq_some_iff.1 h
    cases below with
    | true =>
      cases hrest
      exact .refl _
    | false =>
      obtain ⟨l'', hinsert, hl'⟩ := Option.bind_eq_some_iff.1 hrest
      cases hl'
      exact ((ih hinsert).cons b).trans (.swap a b l)

theorem sortDesc_perm (h : sortDesc lt key l = some l') : l'.Perm l := by
  have hfold : ∀ acc, l.foldlM (fun sorted a => insertDesc lt key a sorted) acc = some l' → l'.Perm (acc ++ l) := by
    clear h
    induction l with
    | nil =>
      intro acc h
      cases h
      rw [List.append_nil]
    | cons b l ih =>
      intro acc h
      obtain ⟨acc', hinsert, hrest⟩ := Option.bind_eq_some_iff.1 h
      exact ((ih acc' hrest).trans ((insertDesc_perm hinsert).append_right l)).trans List.perm_middle.symm
  exact hfold [] h

theorem insertDesc_of_le {lt' : κ → κ → Option Bool} (hle : ∀ x y r, lt x y = some r → lt' x y = some r)
    (h : insertDesc lt key a l = some l') : insertDesc lt' key a l = some l' := by
  induction l generalizing l' with
  | nil => exact h
  | cons b l ih =>
    obtain ⟨below, hbelow, hrest⟩ := Option.bind_eq_some_iff.1 h
    refine Option.bind_eq_some_iff.2 ⟨below, hle _ _ _ hbelow, ?_⟩
    cases below with
    | true => exact hrest
    | false =>
      obtain ⟨l'', hinsert, hl'⟩ := Option.bind_eq_some_iff.1 hrest
      exact Option.bind_eq_some_iff.2 ⟨l'', ih hinsert, hl'⟩

theorem sortDesc_of_le {lt' : κ → κ → Option Bool} (hle : ∀ x y r, lt x y = some r → lt' x y = some r)
    (h : sortDesc lt key l = some l') : sortDesc lt' key l = some l' := by
  have hfold : ∀ acc, l.foldlM (fun sorted a => insertDesc lt key a sorted) acc = some l' →
      l.foldlM (fun sorted a => insertDesc lt' key a sorted) acc = some l' := by
    clear h
    induction l with
    | nil => exact fun acc h => h
    | cons b l ih =>
      intro acc h
      obtain ⟨acc', hinsert, hrest⟩ := Option.bind_eq_some_iff.1 h
      exact Option.bind_eq_some_iff.2 ⟨acc', insertDesc_of_le hle hinsert, ih acc' hrest⟩
  exact hfold [] h

variable (hlt : IsPartialLt lt)
include hlt

/-- As the list is sorted, the first that is below `a` can stand for the others. -/
theorem exists_insertDesc_iff (hl : Descending lt key l) :
    (∃ l', insertDesc lt key a l = some l') ↔ ∀ b ∈ l, Comparable lt key b a := by
  induction l with
  | nil => simp [insertDesc]
  | cons b l ih =>
    obtain ⟨hb, hl⟩ := List.pairwise_cons.1 hl
    rw [List.forall_mem_cons, insertDesc, Comparable]
    cases hbelow : lt (key b) (key a) with
    | none => simp
    | some below =>
      cases below with
      | true =>
        have hall : ∀ c ∈ l, Comparable lt key c a := by
          intro c hc
          obtain heq | hgt := hlt.total _ _ (hb c hc)
          · rw [Comparable, ← heq, hbelow]
            rfl
          · exact Option.isSome_of_eq_some (hlt.trans _ _ _ hgt hbelow)
        simpa using hall
      | false =>
        rw [← ih hl]
        constructor
        · rintro ⟨l', h⟩
          rw [Option.bind_eq_bind, Option.bind_some] at h
          obtain ⟨l'', hinsert, -⟩ := Option.bind_eq_some_iff.1 h
          exact ⟨rfl, l'', hinsert⟩
        · rintro ⟨-, l'', hinsert⟩
          exact ⟨b :: l'', by simp [hinsert]⟩

theorem descending_insertDesc (hl : Descending lt key l) (h : insertDesc lt key a l = some l') :
    Descending lt key l' := by
  induction l generalizing l' with
  | nil =>
    cases h
    exact List.pairwise_singleton _ _
  | cons b l ih =>
    obtain ⟨hb, htail⟩ := List.pairwise_cons.1 hl
    obtain ⟨below, hbelow, hrest⟩ := Option.bind_eq_some_iff.1 h
    cases below with
    | true =>
      cases hrest
      refine List.pairwise_cons.2 ⟨List.forall_mem_cons.2 ⟨hlt.asymm _ _ hbelow, ?_⟩, hl⟩
      intro c hc
      obtain heq | hgt := hlt.total _ _ (hb c hc)
      · rw [← heq]
        exact hlt.asymm _ _ hbelow
      · exact hlt.asymm _ _ (hlt.trans _ _ _ hgt hbelow)
    | false =>
      obtain ⟨l'', hinsert, hl'⟩ := Option.bind_eq_some_iff.1 hrest
      cases hl'
      refine List.pairwise_cons.2 ⟨?_, ih htail hinsert⟩
      intro c hc
      obtain rfl | hc := List.mem_cons.1 ((insertDesc_perm hinsert).mem_iff.1 hc)
      · exact hbelow
      · exact hb c hc

theorem descending_sortDesc (h : sortDesc lt key l = some l') : Descending lt key l' := by
  have hfold : ∀ acc, Descending lt key acc → l.foldlM (fun sorted a => insertDesc lt key a sorted) acc = some l' →
      Descending lt key l' := by
    clear h
    induction l with
    | nil =>
      intro acc hacc h
      cases h
      exact hacc
    | cons b l ih =>
      intro acc hacc h
      obtain ⟨acc', hinsert, hrest⟩ := Option.bind_eq_some_iff.1 h
      exact ih acc' (descending_insertDesc hlt hacc hinsert) hrest
  exact hfold [] .nil h

theorem exists_sortDesc_iff : (∃ l', sortDesc lt key l = some l') ↔ l.Pairwise (Comparable lt key) := by
  have hfold : ∀ acc, Descending lt key acc →
      ((∃ l', l.foldlM (fun sorted a => insertDesc lt key a sorted) acc = some l') ↔
        (∀ b ∈ acc, ∀ c ∈ l, Comparable lt key b c) ∧ l.Pairwise (Comparable lt key)) := by
    induction l with
    | nil => simp
    | cons a l ih =>
      intro acc hacc
      rw [List.foldlM_cons, List.pairwise_cons]
      constructor
      · rintro ⟨l', h⟩
        obtain ⟨acc', hinsert, hrest⟩ := Option.bind_eq_some_iff.1 h
        obtain ⟨hacc', hl⟩ := (ih acc' (descending_insertDesc hlt hacc hinsert)).1 ⟨l', hrest⟩
        have hmem := insertDesc_perm hinsert
        refine ⟨fun b hb => List.forall_mem_cons.2 ⟨(exists_insertDesc_iff hlt hacc).1 ⟨acc', hinsert⟩ b hb, ?_⟩,
          hacc' a (hmem.mem_iff.2 (.head _)), hl⟩
        exact hacc' b (hmem.mem_iff.2 (.tail _ hb))
      · rintro ⟨hbetween, ha, hl⟩
        obtain ⟨acc', hinsert⟩ := (exists_insertDesc_iff hlt hacc).2 fun b hb => hbetween b hb a (.head _)
        obtain ⟨l', hrest⟩ := (ih acc' (descending_insertDesc hlt hacc hinsert)).2 ⟨by
          intro b hb c hc
          obtain rfl | hb := List.mem_cons.1 ((insertDesc_perm hinsert).mem_iff.1 hb)
          · exact ha c hc
          · exact hbetween b hb c (.tail _ hc), hl⟩
        exact ⟨l', Option.bind_eq_some_iff.2 ⟨acc', hinsert, hrest⟩⟩
  simpa [sortDesc] using hfold [] .nil

end Quinn.Search
