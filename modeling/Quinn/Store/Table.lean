import Mathlib.Data.List.Nodup
import Mathlib.Data.List.Sort
import Mathlib.Algebra.BigOperators.Group.List.Basic

/-! Tables with a primary key.  Rows stand in the order of insertion, which is the order a
query without `ORDER BY` returns them in. -/

namespace Quinn.Store

class Row (ρ : Type) (κ : outParam Type) where
  key : ρ → κ

@[ext] structure Table (ρ : Type) {κ : Type} [Row ρ κ] where
  rows : List ρ := []
  nodup : (rows.map Row.key).Nodup := by exact List.nodup_nil
  deriving DecidableEq

namespace Table

variable {ρ κ : Type} [Row ρ κ] [DecidableEq κ]

abbrev empty : Table ρ := {}

def single (r : ρ) : Table ρ where
  rows := [r]
  nodup := List.nodup_singleton _

def Has (t : Table ρ) (k : κ) : Prop := k ∈ t.rows.map Row.key

instance (t : Table ρ) (k : κ) : Decidable (t.Has k) := inferInstanceAs (Decidable (k ∈ _))

def find? (t : Table ρ) (k : κ) : Option ρ := t.rows.find? fun r => Row.key r = k

def insert (t : Table ρ) (r : ρ) (h : ¬t.Has (Row.key r)) : Table ρ where
  rows := t.rows ++ [r]
  nodup := by
    rw [List.map_append, List.nodup_append]
    refine ⟨t.nodup, by simp, fun a ha b hb hab => ?_⟩
    rw [List.map_singleton, List.mem_singleton] at hb
    exact h (by rw [← hb, ← hab]; exact ha)

/-- `UPDATE .. SET .. WHERE p`, which leaves the key alone. -/
def updateWhere (t : Table ρ) (p : ρ → Prop) [DecidablePred p] (f : ρ → ρ)
    (hf : ∀ r, Row.key (f r) = Row.key r) : Table ρ where
  rows := t.rows.map fun r => if p r then f r else r
  nodup := by
    rw [List.map_map, List.map_congr_left (g := Row.key) fun r _ => ?_]
    · exact t.nodup
    · by_cases hp : p r <;> simp [hp, hf]

def deleteWhere (t : Table ρ) (p : ρ → Prop) [DecidablePred p] : Table ρ where
  rows := t.rows.filter fun r => ¬p r
  nodup := (List.Nodup.sublist (List.Sublist.map _ List.filter_sublist) t.nodup)

/-- `INSERT OR REPLACE`: the rows that clash with the new one, by its key or by another
constraint, go first. -/
def insertOrReplace (t : Table ρ) (clash : ρ → Prop) [DecidablePred clash] (r : ρ)
    (hkey : ∀ r', (Row.key r' : κ) = Row.key r → clash r') : Table ρ :=
  (t.deleteWhere clash).insert r (by simpa [Has, deleteWhere] using fun r' _ h hk => h (hkey r' hk))

omit [DecidableEq κ] in
theorem key_inj {t : Table ρ} {r r' : ρ} (h : r ∈ t.rows) (h' : r' ∈ t.rows)
    (hk : (Row.key r : κ) = Row.key r') : r = r' :=
  List.inj_on_of_nodup_map t.nodup h h' hk

theorem find?_eq_some {t : Table ρ} {k : κ} {r : ρ} :
    t.find? k = some r ↔ r ∈ t.rows ∧ Row.key r = k := by
  constructor
  · intro h
    exact ⟨List.mem_of_find?_eq_some h, by simpa using List.find?_some h⟩
  · rintro ⟨hr, rfl⟩
    rcases hf : t.find? (Row.key r) with _ | r'
    · have := List.find?_eq_none.mp hf r hr
      simp at this
    · have hr' := List.mem_of_find?_eq_some hf
      have hk : Row.key r' = (Row.key r : κ) := by simpa using List.find?_some hf
      rw [key_inj hr' hr hk]

theorem find?_eq_none {t : Table ρ} {k : κ} : t.find? k = none ↔ ¬t.Has k := by
  simp [find?, Has, List.find?_eq_none]

theorem has_iff {t : Table ρ} {k : κ} : t.Has k ↔ ∃ r, t.find? k = some r := by
  rw [← Option.isSome_iff_exists, ← Option.ne_none_iff_isSome, ne_eq, find?_eq_none, not_not]

omit [DecidableEq κ] in
theorem has_of_mem {t : Table ρ} {r : ρ} (h : r ∈ t.rows) : t.Has (Row.key r : κ) :=
  List.mem_map_of_mem h

omit [DecidableEq κ] in
@[simp] theorem mem_insert {t : Table ρ} {r r' : ρ} (h : ¬t.Has (Row.key r : κ)) :
    r' ∈ (t.insert r h).rows ↔ r' ∈ t.rows ∨ r' = r := by
  simp [insert]

omit [DecidableEq κ] in
@[simp] theorem has_insert {t : Table ρ} {r : ρ} {k : κ} (h : ¬t.Has (Row.key r)) :
    (t.insert r h).Has k ↔ t.Has k ∨ k = Row.key r := by
  simp [Has, insert]

theorem find?_insert_self {t : Table ρ} {r : ρ} (h : ¬t.Has (Row.key r : κ)) :
    (t.insert r h).find? (Row.key r) = some r :=
  find?_eq_some.mpr ⟨by simp, rfl⟩

theorem find?_insert_of_ne {t : Table ρ} {r : ρ} (h : ¬t.Has (Row.key r : κ)) {k : κ}
    (hk : Row.key r ≠ k) : (t.insert r h).find? k = t.find? k := by
  simp [find?, insert, List.find?_append, hk]

omit [DecidableEq κ] in
theorem mem_updateWhere {t : Table ρ} {p : ρ → Prop} [DecidablePred p] {f : ρ → ρ}
    {hf : ∀ r, (Row.key (f r) : κ) = Row.key r} {r' : ρ} :
    r' ∈ (t.updateWhere p f hf).rows ↔ ∃ r ∈ t.rows, (if p r then f r else r) = r' := by
  simp [updateWhere]

omit [DecidableEq κ] in
theorem exists_mem_updateWhere {t : Table ρ} {p : ρ → Prop} [DecidablePred p] {f : ρ → ρ}
    (hf : ∀ r, (Row.key (f r) : κ) = Row.key r) {P : ρ → Prop} {r : ρ} (hr : r ∈ t.rows) (hP : P r)
    (hPf : P (f r)) : ∃ r' ∈ (t.updateWhere p f hf).rows, P r' := by
  refine ⟨if p r then f r else r, mem_updateWhere.2 ⟨r, hr, rfl⟩, ?_⟩
  split
  · exact hPf
  · exact hP

omit [DecidableEq κ] in
theorem forall_mem_updateWhere {t : Table ρ} {p : ρ → Prop} [DecidablePred p] {f : ρ → ρ}
    (hf : ∀ r, (Row.key (f r) : κ) = Row.key r) {P : ρ → Prop} (h : ∀ r ∈ t.rows, P r)
    (hPf : ∀ r, P r → P (f r)) : ∀ r ∈ (t.updateWhere p f hf).rows, P r := by
  intro r' hr'
  obtain ⟨r, hr, rfl⟩ := mem_updateWhere.1 hr'
  split
  · exact hPf r (h r hr)
  · exact h r hr

omit [DecidableEq κ] in
@[simp] theorem has_updateWhere {t : Table ρ} {p : ρ → Prop} [DecidablePred p] {f : ρ → ρ}
    {hf : ∀ r, (Row.key (f r) : κ) = Row.key r} {k : κ} :
    (t.updateWhere p f hf).Has k ↔ t.Has k := by
  rw [Has, Has, updateWhere, List.map_map, List.map_congr_left (g := Row.key)]
  intro r _
  by_cases hp : p r <;> simp [hp, hf]

theorem find?_updateWhere {t : Table ρ} {p : ρ → Prop} [DecidablePred p] {f : ρ → ρ}
    {hf : ∀ r, (Row.key (f r) : κ) = Row.key r} {k : κ} :
    (t.updateWhere p f hf).find? k = (t.find? k).map fun r => if p r then f r else r := by
  have hkey : ∀ r : ρ, Row.key (if p r then f r else r) = (Row.key r : κ) := by
    intro r
    by_cases hp : p r <;> simp [hp, hf]
  have hfound : ((fun r : ρ => decide (Row.key r = k)) ∘ fun r => if p r then f r else r) =
      fun r => decide (Row.key r = k) := by
    funext r
    simp only [Function.comp_apply, hkey]
  simp only [find?, updateWhere, List.find?_map, hfound]

omit [DecidableEq κ] in
@[simp] theorem mem_deleteWhere {t : Table ρ} {p : ρ → Prop} [DecidablePred p] {r : ρ} :
    r ∈ (t.deleteWhere p).rows ↔ r ∈ t.rows ∧ ¬p r := by
  simp [deleteWhere]

omit [DecidableEq κ] in
theorem has_deleteWhere {t : Table ρ} {p : ρ → Prop} [DecidablePred p] {k : κ} (h : t.Has k)
    (hkeep : ∀ r ∈ t.rows, Row.key r = k → ¬p r) : (t.deleteWhere p).Has k := by
  obtain ⟨r, hr, hk⟩ := List.mem_map.1 h
  exact List.mem_map.2 ⟨r, mem_deleteWhere.2 ⟨hr, hkeep r hr hk⟩, hk⟩

omit [DecidableEq κ] in
@[simp] theorem mem_insertOrReplace {t : Table ρ} {clash : ρ → Prop} [DecidablePred clash] {r r' : ρ}
    {hkey : ∀ r', (Row.key r' : κ) = Row.key r → clash r'} :
    r' ∈ (t.insertOrReplace clash r hkey).rows ↔ r' ∈ t.rows ∧ ¬clash r' ∨ r' = r := by
  simp [insertOrReplace]

variable {M : Type} [AddCommGroup M]

def sum (t : Table ρ) (g : ρ → M) : M := (t.rows.map g).sum

omit [DecidableEq κ] in
@[simp] theorem sum_insert {t : Table ρ} {r : ρ} {h : ¬t.Has (Row.key r : κ)} (g : ρ → M) :
    (t.insert r h).sum g = t.sum g + g r := by
  simp [sum, insert]

omit [DecidableEq κ] in
theorem sum_updateWhere {t : Table ρ} {p : ρ → Prop} [DecidablePred p] {f : ρ → ρ}
    {hf : ∀ r, (Row.key (f r) : κ) = Row.key r} (g : ρ → M) :
    (t.updateWhere p f hf).sum g = t.sum g + t.sum fun r => if p r then g (f r) - g r else 0 := by
  simp only [sum, updateWhere, List.map_map, ← List.sum_map_add]
  congr 2
  funext r
  by_cases hp : p r <;> simp [hp]

omit [DecidableEq κ] in
theorem sum_congr {t : Table ρ} {f g : ρ → M} (h : ∀ r ∈ t.rows, f r = g r) : t.sum f = t.sum g := by
  rw [sum, sum, List.map_congr_left h]

omit [DecidableEq κ] in
theorem sum_sub (t : Table ρ) (f g : ρ → M) : (t.sum fun r => f r - g r) = t.sum f - t.sum g := by
  simp only [sum]
  induction t.rows with
  | nil => simp
  | cons r rs ih => simp only [List.map_cons, List.sum_cons, ih, add_sub_add_comm]

/-- Only the row with key `k` contributes to a sum that is zero elsewhere. -/
theorem sum_eq_find? {t : Table ρ} (k : κ) (g : ρ → M) :
    (t.sum fun r => if Row.key r = k then g r else 0) = ((t.find? k).map g).getD 0 := by
  obtain ⟨rows, nodup⟩ := t
  simp only [sum, find?]
  induction rows with
  | nil => rfl
  | cons r rs ih =>
    rw [List.map_cons, List.nodup_cons] at nodup
    by_cases hk : (Row.key r : κ) = k
    · have hrest : ∀ r' ∈ rs, (if (Row.key r' : κ) = k then g r' else 0) = 0 := by
        intro r' hr'
        rw [if_neg]
        intro hk'
        exact nodup.1 (by rw [hk, ← hk']; exact List.mem_map_of_mem hr')
      simp [hk, List.map_congr_left hrest]
    · simp [hk, ih nodup.2]

/-- A constant counted once for the row with key `k`, if there is one. -/
theorem sum_ite_key (t : Table ρ) (k : κ) (x : M) :
    (t.sum fun r => if Row.key r = k then x else 0) = if t.Has k then x else 0 := by
  rw [sum_eq_find? k fun _ => x]
  by_cases hk : t.Has k
  · obtain ⟨r, hr⟩ := has_iff.mp hk
    simp [hr, hk]
  · simp [find?_eq_none.mpr hk, hk]

end Table

/-- `ORDER BY key DESC`: among equal keys the rows keep their order. -/
def orderByDesc {ρ τ : Type} [LinearOrder τ] (key : ρ → τ) (rows : List ρ) : List ρ :=
  rows.insertionSort fun r r' => key r' ≤ key r

@[simp] theorem mem_orderByDesc {ρ τ : Type} [LinearOrder τ] {key : ρ → τ} {rows : List ρ}
    {r : ρ} : r ∈ orderByDesc key rows ↔ r ∈ rows :=
  List.mem_insertionSort _

def orderBy {ρ τ : Type} [LinearOrder τ] (key : ρ → τ) (rows : List ρ) : List ρ :=
  rows.insertionSort fun r r' => key r ≤ key r'

@[simp] theorem mem_orderBy {ρ τ : Type} [LinearOrder τ] {key : ρ → τ} {rows : List ρ}
    {r : ρ} : r ∈ orderBy key rows ↔ r ∈ rows :=
  List.mem_insertionSort _

variable {ρ κ : Type} [Row ρ κ] [DecidableEq κ]

def Table.Kept (s t : Table ρ) : Prop := t.rows.filter (fun r => s.Has (Row.key r)) = s.rows

namespace Table.Kept

variable {s t : Table ρ}

theorem refl (s : Table ρ) : s.Kept s :=
  List.filter_eq_self.2 fun _ hr => decide_eq_true (has_of_mem hr)

theorem mem (h : s.Kept t) {r : ρ} (hr : r ∈ s.rows) : r ∈ t.rows := by
  rw [← show _ = s.rows from h] at hr
  exact List.mem_of_mem_filter hr

theorem has (h : s.Kept t) {k : κ} (hk : s.Has k) : t.Has k := by
  obtain ⟨r, hr, rfl⟩ := List.mem_map.1 hk
  exact has_of_mem (h.mem hr)

theorem mem_of_has (h : s.Kept t) {r : ρ} (hr : r ∈ t.rows) (hk : s.Has (Row.key r)) : r ∈ s.rows := by
  rw [← show _ = s.rows from h]
  exact List.mem_filter.2 ⟨hr, decide_eq_true hk⟩

theorem eq (h : s.Kept t) (hkeys : ∀ r ∈ t.rows, s.Has (Row.key r)) : t = s := by
  refine Table.ext ?_
  rw [← show _ = s.rows from h]
  exact (List.filter_eq_self.2 fun r hr => decide_eq_true (hkeys r hr)).symm

theorem insert (h : s.Kept t) {r : ρ} (hr : ¬t.Has (Row.key r)) : s.Kept (t.insert r hr) := by
  have hnew : ¬s.Has (Row.key r) := fun hs => hr (h.has hs)
  have hkept : t.rows.filter (fun r => s.Has (Row.key r)) = s.rows := h
  rw [Table.Kept, Table.insert, List.filter_append, hkept, List.filter_cons_of_neg (by simpa using hnew)]
  exact List.append_nil s.rows

theorem deleteWhere (h : s.Kept t) {p : ρ → Prop} [DecidablePred p] (hp : ∀ r ∈ s.rows, ¬p r) :
    s.Kept (t.deleteWhere p) := by
  have hkept : t.rows.filter (fun r => s.Has (Row.key r)) = s.rows := h
  rw [Table.Kept, Table.deleteWhere, List.filter_comm, hkept]
  exact List.filter_eq_self.2 fun r hr => decide_eq_true (hp r hr)

theorem updateWhere (h : s.Kept t) {p : ρ → Prop} [DecidablePred p] {f : ρ → ρ}
    (hf : ∀ r, (Row.key (f r) : κ) = Row.key r) (hp : ∀ r ∈ s.rows, ¬p r) : s.Kept (t.updateWhere p f hf) := by
  have hkept : t.rows.filter (fun r => s.Has (Row.key r)) = s.rows := h
  have hkey : ∀ r : ρ, Row.key (if p r then f r else r) = (Row.key r : κ) := by
    intro r
    split
    · exact hf r
    · rfl
  rw [Table.Kept, Table.updateWhere, List.filter_map]
  simp only [Function.comp_def, hkey]
  rw [hkept]
  exact (List.map_congr_left fun r hr => if_neg (hp r hr)).trans (List.map_id' s.rows)

end Table.Kept

end Quinn.Store

/-! `ORDER BY .. DESC LIMIT 1`: the first of the rows that no row is later than. -/

namespace Quinn.Store

variable {ρ τ : Type} [LinearOrder τ] {key : ρ → τ}

def latest (key : ρ → τ) (rows : List ρ) : Option ρ := (orderByDesc key rows).head?

@[simp] theorem latest_nil : latest key [] = none := rfl

theorem latest_cons (r : ρ) (rows : List ρ) :
    latest key (r :: rows) =
      match latest key rows with
      | some r' => if key r' ≤ key r then some r else some r'
      | none => some r := by
  rw [latest, latest, orderByDesc, List.insertionSort_cons, ← orderByDesc]
  cases h : orderByDesc key rows with
  | nil => rfl
  | cons r' rest =>
    simp only [List.orderedInsert_cons, List.head?_cons]
    split
    · rfl
    · rfl

theorem latest_concat (rows : List ρ) (r : ρ) :
    latest key (rows ++ [r]) =
      match latest key rows with
      | some r' => if key r' < key r then some r else some r'
      | none => some r := by
  induction rows with
  | nil => rfl
  | cons r₀ rows ih =>
    rw [List.cons_append, latest_cons, ih, latest_cons]
    cases latest key rows with
    | none => simp only [← not_lt, ite_not]
    | some r' =>
      -- whether the new row is later than `r'` matters only if `r'` stands up to `r₀`
      by_cases h₀ : key r' ≤ key r₀
      · by_cases hr : key r' < key r
        · simp only [h₀, hr, if_true, ← not_lt, ite_not]
        · have hr₀ : ¬key r₀ < key r := not_lt.2 ((not_lt.1 hr).trans h₀)
          simp only [h₀, hr, hr₀, if_true, if_false]
      · by_cases hr : key r' < key r
        · have hr₀ : ¬key r ≤ key r₀ := not_le.2 ((not_le.1 h₀).trans hr)
          simp only [h₀, hr, hr₀, if_true, if_false]
        · simp only [h₀, hr, if_false]

theorem latest_map {f : ρ → ρ} (hf : ∀ r, key (f r) = key r) (rows : List ρ) :
    latest key (rows.map f) = (latest key rows).map f := by
  have hsort : (orderByDesc key rows).map f = orderByDesc key (rows.map f) :=
    List.map_insertionSort _ _ f rows fun r _ r' _ => by rw [hf, hf]
  rw [latest, latest, ← hsort, List.head?_map]

end Quinn.Store
