import Mathlib.Data.List.Nodup
import Mathlib.Data.List.Perm.Subperm
import Mathlib.Logic.Relation

/-! Relations without cycles, and when one more edge closes none. -/

namespace Quinn.Search

open Relation

variable {α : Type} {r r' : α → α → Prop} {a b x y : α}

def Acyclic (r : α → α → Prop) : Prop := ∀ x, ¬TransGen r x x

def AddEdge (r : α → α → Prop) (a b : α) : α → α → Prop := fun x y => r x y ∨ x = a ∧ y = b

theorem Acyclic.mono (h : Acyclic r) (hr : ∀ x y, r' x y → r x y) : Acyclic r' :=
  fun x hx => h x (TransGen.mono hr x x hx)

theorem transGen_addEdge (h : TransGen (AddEdge r a b) x y) :
    TransGen r x y ∨ ReflTransGen r x a ∧ ReflTransGen r b y := by
  induction h with
  | single hxy =>
    cases hxy with
    | inl hr => exact .inl (.single hr)
    | inr he =>
      obtain ⟨rfl, rfl⟩ := he
      exact .inr ⟨.refl, .refl⟩
  | tail _ hyz ih =>
    cases hyz with
    | inl hr =>
      cases ih with
      | inl hold => exact .inl (hold.tail hr)
      | inr hnew => exact .inr ⟨hnew.1, hnew.2.tail hr⟩
    | inr he =>
      obtain ⟨rfl, rfl⟩ := he
      cases ih with
      | inl hold => exact .inr ⟨hold.to_reflTransGen, .refl⟩
      | inr hnew => exact .inr ⟨hnew.1, .refl⟩

theorem Acyclic.addEdge (h : Acyclic r) (hback : ¬ReflTransGen r b a) : Acyclic (AddEdge r a b) := by
  intro x hx
  cases transGen_addEdge hx with
  | inl hold => exact h x hold
  | inr hnew => exact hback (hnew.2.trans hnew.1)

end Quinn.Search

/-! Forests: no cycles, and no more than one parent. -/

namespace Quinn.Search

open Relation

variable {α : Type} {r r' : α → α → Prop} {a b x y : α}

structure Forest (r : α → α → Prop) : Prop where
  acyclic : Acyclic r
  oneParent : ∀ {a b x}, r a x → r b x → a = b

theorem Forest.mono (h : Forest r) (hr : ∀ x y, r' x y → r x y) : Forest r' :=
  ⟨h.acyclic.mono hr, fun ha hb => h.oneParent (hr _ _ ha) (hr _ _ hb)⟩

theorem Forest.not_back (h : Forest r) (ha : r a x) : ¬ReflTransGen r x a :=
  fun hback => h.acyclic x (TransGen.tail' hback ha)

theorem Forest.disjoint (h : Forest r) {k : α} (ha : r k a) (hb : r k b) (hne : a ≠ b)
    (hx : ReflTransGen r a x) : ¬ReflTransGen r b x := by
  induction hx with
  | refl =>
    intro hba
    cases hba.cases_tail with
    | inl heq => exact hne heq
    | inr hlast =>
      obtain ⟨y, hby, hya⟩ := hlast
      cases h.oneParent hya ha
      exact h.not_back hb hby
  | tail hay hyx ih =>
    intro hbx
    cases hbx.cases_tail with
    | inl heq =>
      cases heq
      cases h.oneParent hyx hb
      exact h.not_back ha hay
    | inr hlast =>
      obtain ⟨z, hbz, hzx⟩ := hlast
      cases h.oneParent hzx hyx
      exact ih hbz

theorem acyclic_of_root {root : α} (honly : ∀ {a b x}, r a x → r b x → a = b) (hroot : ∀ a, ¬r a root)
    (hreach : ∀ a x, r a x → ReflTransGen r root x) : Acyclic r := by
  have hfree : ∀ x, ReflTransGen r root x → ¬TransGen r x x := by
    intro x hx
    -- A cycle through a node goes through its parent too, and so up to the root.
    induction hx with
    | refl =>
      intro hcycle
      obtain ⟨b, -, hb⟩ := TransGen.tail'_iff.1 hcycle
      exact hroot b hb
    | tail hrootb hbx ih =>
      intro hcycle
      obtain ⟨b', hxb', hb'x⟩ := TransGen.tail'_iff.1 hcycle
      cases honly hbx hb'x
      exact ih (.head' hbx hxb')
  intro x hcycle
  obtain ⟨b, -, hb⟩ := TransGen.tail'_iff.1 hcycle
  exact hfree x (hreach b x hb) hcycle

theorem acyclic_of_rank (rank : α → Nat) (h : ∀ x y, r x y → rank x < rank y) : Acyclic r := by
  have hlt : ∀ x y, TransGen r x y → rank x < rank y := by
    intro x y hxy
    induction hxy with
    | single hr => exact h _ _ hr
    | tail _ hr ih => exact Nat.lt_trans ih (h _ _ hr)
  exact fun x hx => Nat.lt_irrefl _ (hlt x x hx)

end Quinn.Search

/-! Going up from one to the next, where there may be no end to it. -/

namespace Quinn.Search

open Relation

variable {α : Type} (parent : α → Option α)

/-- All that is passed on the way up; `none` if the fuel runs out on it. -/
def climb : Nat → α → Option (List α)
  | 0, _ => none
  | fuel + 1, x =>
    match parent x with
    | none => some []
    | some y => (climb fuel y).map (y :: ·)

/-- What is above `x`, up to the top. -/
inductive Chain : α → List α → Prop
  | top {x : α} (h : parent x = none) : Chain x []
  | up {x y : α} {l : List α} (h : parent x = some y) (hy : Chain y l) : Chain x (y :: l)

def Up (x y : α) : Prop := parent x = some y

def Ends (x : α) : Prop := ∀ y, ReflTransGen (Up parent) x y → ¬TransGen (Up parent) y y

variable {parent} {x y : α} {l l' : List α}

theorem climb_eq_some {fuel : Nat} (h : climb parent fuel x = some l) : Chain parent x l := by
  induction fuel generalizing x l with
  | zero => cases h
  | succ fuel ih =>
    rw [climb] at h
    split at h
    · next htop =>
      cases h
      exact .top htop
    · next y hup =>
      obtain ⟨rest, hrest, rfl⟩ := Option.map_eq_some_iff.1 h
      exact .up hup (ih hrest)

namespace Chain

theorem unique (h : Chain parent x l) (h' : Chain parent x l') : l = l' := by
  induction h generalizing l' with
  | top htop =>
    cases h' with
    | top => rfl
    | up hup => cases htop.symm.trans hup
  | up hup hy ih =>
    cases h' with
    | top htop => cases htop.symm.trans hup
    | up hup' hy' =>
      cases hup.symm.trans hup'
      exact congrArg _ (ih hy')

theorem above (h : Chain parent x l) (hy : y ∈ l) : ∃ l', Chain parent y l' ∧ l'.length < l.length := by
  induction h with
  | top => cases hy
  | up hup hchain ih =>
    obtain rfl | hy := List.mem_cons.1 hy
    · exact ⟨_, hchain, Nat.lt_succ_self _⟩
    · obtain ⟨l', hl', hlt⟩ := ih hy
      exact ⟨l', hl', Nat.lt_trans hlt (Nat.lt_succ_self _)⟩

theorem nodup (h : Chain parent x l) : (x :: l).Nodup := by
  have hnot : ∀ {x l}, Chain parent x l → x ∉ l := by
    intro x l h hx
    obtain ⟨l', hl', hlt⟩ := h.above hx
    exact Nat.ne_of_lt hlt (congrArg List.length (hl'.unique h))
  induction h with
  | top => exact List.nodup_singleton _
  | up hup hy ih => exact List.nodup_cons.2 ⟨hnot (.up hup hy), ih⟩

theorem mem_of_transGen (h : Chain parent x l) (hy : TransGen (Up parent) x y) : y ∈ l := by
  induction hy using TransGen.head_induction_on generalizing l with
  | single hup =>
    cases h with
    | top htop => cases htop.symm.trans hup
    | up hup' hy =>
      cases hup.symm.trans hup'
      exact .head _
  | head hup _ ih =>
    cases h with
    | top htop => cases htop.symm.trans hup
    | up hup' hy =>
      cases hup.symm.trans hup'
      exact .tail _ (ih hy)

theorem transGen_of_mem (h : Chain parent x l) (hy : y ∈ l) : TransGen (Up parent) x y := by
  induction h with
  | top => cases hy
  | up hup _ ih =>
    obtain rfl | hy := List.mem_cons.1 hy
    · exact .single hup
    · exact .head hup (ih hy)

theorem ends (h : Chain parent x l) : Ends parent x := by
  intro y hxy hcycle
  have hchain : ∃ l, Chain parent y l := by
    obtain rfl | hxy := (reflTransGen_iff_eq_or_transGen.1 hxy)
    · exact ⟨l, h⟩
    · obtain ⟨l', hl', -⟩ := h.above (h.mem_of_transGen hxy)
      exact ⟨l', hl'⟩
  obtain ⟨l', hl'⟩ := hchain
  exact (List.nodup_cons.1 hl'.nodup).1 (hl'.mem_of_transGen hcycle)

end Chain

theorem exists_of_climb_eq_none {fuel : Nat} (h : climb parent fuel x = none) (hends : Ends parent x) :
    ∃ l : List α, l.length = fuel ∧ l.Nodup ∧ ∀ y ∈ l, ReflTransGen (Up parent) x y ∧ (parent y).isSome = true := by
  induction fuel generalizing x with
  | zero => exact ⟨[], rfl, List.nodup_nil, List.forall_mem_nil _⟩
  | succ fuel ih =>
    rw [climb] at h
    split at h
    · cases h
    · next y hup =>
      have hstep : Up parent x y := hup
      obtain ⟨l, hlen, hnodup, hl⟩ := ih (Option.map_eq_none_iff.1 h) fun z hz => hends z (.head hstep hz)
      refine ⟨x :: l, congrArg (· + 1) hlen, List.nodup_cons.2 ⟨fun hx => ?_, hnodup⟩, ?_⟩
      · exact hends x .refl (.head' hstep (hl x hx).1)
      · refine List.forall_mem_cons.2 ⟨⟨.refl, by rw [hup]; rfl⟩, fun z hz => ?_⟩
        exact ⟨.head hstep (hl z hz).1, (hl z hz).2⟩

/-- With finitely many on the way that have a parent: there is an end to it if no cycle is on the way, and then it
is reached with as much fuel as there are. -/
theorem exists_climb_iff {ids : List α}
    (hids : ∀ y, ReflTransGen (Up parent) x y → (parent y).isSome = true → y ∈ ids) :
    (∃ l, climb parent (ids.length + 1) x = some l) ↔ Ends parent x := by
  constructor
  · rintro ⟨l, hl⟩
    exact (climb_eq_some hl).ends
  · intro hends
    cases hclimb : climb parent (ids.length + 1) x with
    | some l => exact ⟨l, rfl⟩
    | none =>
      obtain ⟨l, hlen, hnodup, hl⟩ := exists_of_climb_eq_none hclimb hends
      have hle : l.length ≤ ids.length := (hnodup.subperm fun y hy => hids y (hl y hy).1 (hl y hy).2).length_le
      exact absurd hle (by omega)

end Quinn.Search
