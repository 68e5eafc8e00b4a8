import Mathlib.Data.List.Nodup
import Mathlib.Data.List.Perm.Subperm
import Quinn.Checks.Order
import Quinn.Search.Acyclic

/-! Going down to the children of each, by a recursion that keeps no account of what it has visited. -/

namespace Quinn.Search

open Checks (exists_of_mem_left exists_of_mem_right)
open Relation

variable {α α' β γ : Type} (children : α → List α)

/-- What is made of `x` and of what its children come to; `none` if the fuel runs out on it. -/
def descend (node : α → List β → β) : Nat → α → Option β
  | 0, _ => none
  | fuel + 1, x => ((children x).mapM (descend node fuel)).map (node x)

/-- All that is met on the way down, each before its children. -/
def preorder : Nat → α → Option (List α) := descend children fun x rest => x :: rest.flatten

def Down (x y : α) : Prop := y ∈ children x

variable {children} {node : α → List β → β} {fuel : Nat} {x y : α}

theorem mapM_eq_some {f : α → Option β} {xs : List α} {ys : List β} :
    xs.mapM f = some ys ↔ List.Forall₂ (fun x y => f x = some y) xs ys := by
  induction xs generalizing ys with
  | nil => cases ys <;> simp
  | cons x xs ih =>
    rw [List.mapM_cons]
    cases ys with
    | nil => cases f x <;> cases xs.mapM f <;> simp
    | cons y ys =>
      rw [List.forall₂_cons, ← ih]
      cases f x <;> cases xs.mapM f <;> simp

theorem mapM_eq_none {f : α → Option β} {xs : List α} : xs.mapM f = none ↔ ∃ x ∈ xs, f x = none := by
  induction xs with
  | nil => simp
  | cons x xs ih =>
    rw [List.mapM_cons, List.exists_mem_cons_iff, ← ih]
    cases f x <;> cases xs.mapM f <;> simp

theorem pairwise_of_forall₂ {R : α → β → Prop} {S : α → α → Prop} {T : β → β → Prop}
    (hT : ∀ x y b c, S x y → R x b → R y c → T b c) {xs : List α} {bs : List β} (h : List.Forall₂ R xs bs)
    (hxs : xs.Pairwise S) : bs.Pairwise T := by
  induction h with
  | nil => exact List.Pairwise.nil
  | cons hxb hrest ih =>
    obtain ⟨hx, hxs⟩ := List.pairwise_cons.1 hxs
    apply List.Pairwise.cons _ (ih hxs)
    intro c hc
    obtain ⟨y, hy, hyc⟩ := exists_of_mem_right hrest hc
    exact hT _ y _ c (hx y hy) hxb hyc

theorem descend_succ {b : β} :
    descend children node (fuel + 1) x = some b ↔
      ∃ bs, List.Forall₂ (fun y b => descend children node fuel y = some b) (children x) bs ∧ node x bs = b := by
  rw [descend, Option.map_eq_some_iff]
  simp only [mapM_eq_some]

theorem descend_mono {b : β} (h : descend children node fuel x = some b) (more : Nat) :
    descend children node (fuel + more) x = some b := by
  induction fuel generalizing x b with
  | zero => cases h
  | succ fuel ih =>
    obtain ⟨bs, hbs, rfl⟩ := descend_succ.1 h
    rw [Nat.add_right_comm]
    exact descend_succ.2 ⟨bs, hbs.imp fun _ _ => ih, rfl⟩

theorem descend_unique {fuel' : Nat} {b b' : β} (h : descend children node fuel x = some b)
    (h' : descend children node fuel' x = some b') : b = b' := by
  have hsum := descend_mono h fuel'
  rw [Nat.add_comm, descend_mono h' fuel] at hsum
  exact (Option.some.inj hsum).symm

theorem descend_map (node' : α → List γ → γ) (f : β → γ) (hf : ∀ x bs, f (node x bs) = node' x (bs.map f)) {b : β}
    (h : descend children node fuel x = some b) : descend children node' fuel x = some (f b) := by
  induction fuel generalizing x b with
  | zero => cases h
  | succ fuel ih =>
    obtain ⟨bs, hbs, rfl⟩ := descend_succ.1 h
    refine descend_succ.2 ⟨bs.map f, ?_, (hf x bs).symm⟩
    exact List.forall₂_map_right_iff.2 (hbs.imp fun _ _ => ih)

theorem descend_rename (children' : α' → List α') (node' : α' → List β → β) (g : α → α')
    (hchildren : ∀ x, children' (g x) = (children x).map g) (hnode : ∀ x bs, node' (g x) bs = node x bs) {b : β}
    (h : descend children node fuel x = some b) : descend children' node' fuel (g x) = some b := by
  induction fuel generalizing x b with
  | zero => cases h
  | succ fuel ih =>
    obtain ⟨bs, hbs, rfl⟩ := descend_succ.1 h
    refine descend_succ.2 ⟨bs, ?_, hnode x bs⟩
    rw [hchildren]
    exact List.forall₂_map_left_iff.2 (hbs.imp fun _ _ => ih)

theorem exists_of_descend_eq_none (h : descend children node fuel x = none) (hacyclic : Acyclic (Down children)) :
    ∃ l : List α, l.length = fuel ∧ l.Nodup ∧ ∀ y ∈ l, TransGen (Down children) x y := by
  induction fuel generalizing x with
  | zero => exact ⟨[], rfl, List.nodup_nil, List.forall_mem_nil _⟩
  | succ fuel ih =>
    obtain ⟨y, hy, hnone⟩ := mapM_eq_none.1 (Option.map_eq_none_iff.1 h)
    have hdown : Down children x y := hy
    obtain ⟨l, hlen, hnodup, hl⟩ := ih hnone
    refine ⟨y :: l, congrArg (· + 1) hlen, List.nodup_cons.2 ⟨fun hmem => hacyclic y (hl y hmem), hnodup⟩, ?_⟩
    exact List.forall_mem_cons.2 ⟨.single hdown, fun z hz => .head hdown (hl z hz)⟩

/-- Of finitely many children: without cycles there is an end to it. -/
theorem exists_descend (hacyclic : Acyclic (Down children)) {ids : List α} (hids : ∀ x, ∀ y ∈ children x, y ∈ ids)
    (x : α) : ∃ b, descend children node (ids.length + 1) x = some b := by
  cases hdescend : descend children node (ids.length + 1) x with
  | some b => exact ⟨b, rfl⟩
  | none =>
    obtain ⟨l, hlen, hnodup, hl⟩ := exists_of_descend_eq_none hdescend hacyclic
    have hsub : l ⊆ ids := by
      intro y hy
      obtain ⟨z, -, hzy⟩ := (TransGen.tail'_iff).1 (hl y hy)
      exact hids z y hzy
    have hle : l.length ≤ ids.length := (List.subperm_of_subset hnodup hsub).length_le
    omega

theorem mem_preorder {l : List α} (h : preorder children fuel x = some l) :
    y ∈ l ↔ ReflTransGen (Down children) x y := by
  induction fuel generalizing x l with
  | zero => cases h
  | succ fuel ih =>
    obtain ⟨bs, hbs, rfl⟩ := descend_succ.1 h
    rw [List.mem_cons, List.mem_flatten]
    constructor
    · rintro (rfl | ⟨b, hb, hy⟩)
      · exact .refl
      · obtain ⟨z, hz, hdescend⟩ := exists_of_mem_right hbs hb
        exact .head hz ((ih hdescend).1 hy)
    · intro hreach
      obtain rfl | ⟨z, hz, hzy⟩ := hreach.cases_head
      · exact .inl rfl
      · obtain ⟨b, hb, hdescend⟩ := exists_of_mem_left hbs hz
        exact .inr ⟨b, hb, (ih hdescend).2 hzy⟩

theorem nodup_preorder (hforest : Forest (Down children)) (hchildren : ∀ x, (children x).Nodup) {l : List α}
    (h : preorder children fuel x = some l) : l.Nodup := by
  induction fuel generalizing x l with
  | zero => cases h
  | succ fuel ih =>
    obtain ⟨bs, hbs, rfl⟩ := descend_succ.1 h
    rw [List.nodup_cons, List.nodup_flatten]
    refine ⟨fun hx => ?_, fun b hb => ?_, ?_⟩
    · obtain ⟨b, hb, hx⟩ := List.mem_flatten.1 hx
      obtain ⟨z, hz, hdescend⟩ := exists_of_mem_right hbs hb
      exact hforest.not_back hz ((mem_preorder hdescend).1 hx)
    · obtain ⟨z, -, hdescend⟩ := exists_of_mem_right hbs hb
      exact ih hdescend
    · have hsiblings : (children x).Pairwise fun y z => Down children x y ∧ Down children x z ∧ y ≠ z :=
        (hchildren x).imp_of_mem fun hy hz hne => ⟨hy, hz, hne⟩
      refine pairwise_of_forall₂ ?_ hbs hsiblings
      intro y z b c hyz hb hc w hwb hwc
      exact hforest.disjoint hyz.1 hyz.2.1 hyz.2.2 ((mem_preorder hb).1 hwb) ((mem_preorder hc).1 hwc)

end Quinn.Search

/-! What is gathered on the way down, and tables whose rows name their parents. -/

namespace Quinn.Search

open Relation

section gather

variable {α β : Type} (children : α → List α) (add : β → α → β)

def gather : Nat → α → β → Option β
  | 0, _, _ => none
  | fuel + 1, x, b => (children x).foldlM (fun b y => gather fuel y b) (add b x)

theorem gather_eq (fuel : Nat) (x : α) (b : β) :
    gather children add fuel x b = (preorder children fuel x).map (·.foldl add b) := by
  induction fuel generalizing x b with
  | zero => rfl
  | succ fuel ih =>
    have hlist (ys : List α) (b : β) : ys.foldlM (fun b y => gather children add fuel y b) b =
        (ys.mapM (preorder children fuel)).map fun ls => ls.flatten.foldl add b := by
      induction ys generalizing b with
      | nil => rfl
      | cons y ys ihys =>
        rw [List.foldlM_cons, List.mapM_cons, ih]
        cases preorder children fuel y with
        | none => rfl
        | some l =>
          refine (ihys _).trans ?_
          cases ys.mapM (preorder children fuel) with
          | none => rfl
          | some ls => simp
    rw [gather, hlist, preorder, descend, Option.map_map]
    rfl

end gather

section parents

variable {ρ κ : Type} (id : ρ → κ) (parent : ρ → Option κ)

def Parent (rows : List ρ) (p k : κ) : Prop := ∃ r ∈ rows, id r = k ∧ parent r = some p

structure Rooted (rows : List ρ) (root : κ) : Prop where
  nodup : (rows.map id).Nodup
  mem : root ∈ rows.map id
  orphan : ∀ r ∈ rows, parent r = none ↔ id r = root
  reach : ∀ r ∈ rows, ReflTransGen (Parent id parent rows) root (id r)

variable {id parent} {rows rows' : List ρ} {root : κ} {x y : ρ} {fuel : Nat}

namespace Rooted

theorem single {r : ρ} (h : parent r = none) : Rooted id parent [r] (id r) where
  nodup := List.nodup_singleton _
  mem := List.mem_singleton_self _
  orphan r' hr' := by
    cases List.mem_singleton.1 hr'
    exact iff_of_true h rfl
  reach r' hr' := by
    cases List.mem_singleton.1 hr'
    exact .refl

theorem eq_of_id (h : Rooted id parent rows root) (hx : x ∈ rows) (hy : y ∈ rows) (hid : id x = id y) : x = y :=
  List.inj_on_of_nodup_map h.nodup hx hy hid

theorem parent_unique (h : Rooted id parent rows root) {a b k : κ} (ha : Parent id parent rows a k)
    (hb : Parent id parent rows b k) : a = b := by
  obtain ⟨r, hr, rfl, hra⟩ := ha
  obtain ⟨r', hr', hid, hrb⟩ := hb
  rw [h.eq_of_id hr' hr hid, hra] at hrb
  exact Option.some.inj hrb

theorem acyclic (h : Rooted id parent rows root) : Acyclic (Parent id parent rows) := by
  have hroot : ∀ p, ¬Parent id parent rows p root := by
    rintro p ⟨r, hr, hid, hp⟩
    rw [(h.orphan r hr).2 hid] at hp
    cases hp
  refine acyclic_of_root h.parent_unique hroot ?_
  rintro p k ⟨r, hr, rfl, -⟩
  exact h.reach r hr

theorem has_parent (h : Rooted id parent rows root) {p k : κ} (hp : Parent id parent rows p k) : p ∈ rows.map id := by
  obtain ⟨r, hr, rfl, hpr⟩ := hp
  cases (h.reach r hr).cases_tail with
  | inl heq =>
    rw [(h.orphan r hr).2 heq] at hpr
    cases hpr
  | inr hlast =>
    obtain ⟨q, hq, hqr⟩ := hlast
    cases h.parent_unique hqr ⟨r, hr, rfl, hpr⟩
    cases hq.cases_tail with
    | inl heq => exact heq ▸ h.mem
    | inr hlast =>
      obtain ⟨_, -, r', hr', hid, -⟩ := hlast
      exact hid ▸ List.mem_map_of_mem hr'

theorem grow (h : Rooted id parent rows root) (hnodup : (rows'.map id).Nodup)
    (hold : ∀ r ∈ rows, ∃ r' ∈ rows', id r' = id r ∧ parent r' = parent r)
    (hnew : ∀ r' ∈ rows', id r' ∉ rows.map id → ∃ p ∈ rows.map id, parent r' = some p) :
    Rooted id parent rows' root := by
  have hsame : ∀ r ∈ rows, ∀ r' ∈ rows', id r' = id r → parent r' = parent r := by
    intro r hr r' hr' hid
    obtain ⟨r'', hr'', hid'', hparent⟩ := hold r hr
    rw [List.inj_on_of_nodup_map hnodup hr' hr'' (hid.trans hid''.symm), hparent]
  have hparent {p k : κ} (hp : Parent id parent rows p k) : Parent id parent rows' p k := by
    obtain ⟨r, hr, rfl, hp⟩ := hp
    obtain ⟨r', hr', hid, hsame⟩ := hold r hr
    exact ⟨r', hr', hid, hsame.trans hp⟩
  have hreach {k : κ} (hk : k ∈ rows.map id) : ReflTransGen (Parent id parent rows') root k := by
    obtain ⟨r, hr, rfl⟩ := List.mem_map.1 hk
    exact ReflTransGen.mono (fun _ _ => hparent) _ _ (h.reach r hr)
  refine ⟨hnodup, ?_, fun r' hr' => ?_, fun r' hr' => ?_⟩
  · obtain ⟨r, hr, hid⟩ := List.mem_map.1 h.mem
    obtain ⟨r', hr', hid', -⟩ := hold r hr
    exact List.mem_map.2 ⟨r', hr', hid'.trans hid⟩
  · by_cases hk : id r' ∈ rows.map id
    · obtain ⟨r, hr, hid⟩ := List.mem_map.1 hk
      rw [hsame r hr r' hr' hid.symm, ← hid]
      exact h.orphan r hr
    · obtain ⟨p, -, hp⟩ := hnew r' hr' hk
      refine iff_of_false (fun hnone => ?_) fun hroot => hk (hroot ▸ h.mem)
      rw [hp] at hnone
      cases hnone
  · by_cases hk : id r' ∈ rows.map id
    · exact hreach hk
    · obtain ⟨p, hrow, hp⟩ := hnew r' hr' hk
      exact (hreach hrow).tail ⟨r', hr', rfl, hp⟩

end Rooted

variable [DecidableEq κ]

def childrenOf (id : ρ → κ) (parent : ρ → Option κ) (rows : List ρ) (x : ρ) : List ρ :=
  rows.filter (parent · = some (id x))

theorem mem_childrenOf : y ∈ childrenOf id parent rows x ↔ y ∈ rows ∧ parent y = some (id x) := by
  simp [childrenOf]

def childIds (id : ρ → κ) (parent : ρ → Option κ) (rows : List ρ) (k : κ) : List κ :=
  (rows.filter (parent · = some k)).map id

theorem down_childIds {p k : κ} : Down (childIds id parent rows) p k ↔ Parent id parent rows p k := by
  simp [Down, childIds, Parent, and_left_comm, and_comm]

theorem preorder_childIds {l : List ρ} (h : preorder (childrenOf id parent rows) fuel x = some l) :
    preorder (childIds id parent rows) fuel (id x) = some (l.map id) := by
  have hids : descend (childrenOf id parent rows) (fun x bs => id x :: bs.flatten) fuel x = some (l.map id) :=
    descend_map (fun x bs => id x :: bs.flatten) (List.map id) (by simp) h
  exact descend_rename (childIds id parent rows) (fun k bs => k :: bs.flatten) id (fun _ => rfl) (fun _ _ => rfl) hids

theorem Parent.of_down (h : Down (childrenOf id parent rows) x y) : Parent id parent rows (id x) (id y) :=
  ⟨y, (mem_childrenOf.1 h).1, rfl, (mem_childrenOf.1 h).2⟩

theorem Rooted.preorder_perm (h : Rooted id parent rows root) {r : ρ} (hr : r ∈ rows) (hroot : id r = root) :
    ∃ l, l.Perm rows ∧ ∀ fuel, rows.length < fuel → preorder (childrenOf id parent rows) fuel r = some l := by
  have hacyclic : Acyclic (Down (childrenOf id parent rows)) :=
    fun x hx => h.acyclic (id x) (hx.lift id fun _ _ => Parent.of_down)
  obtain ⟨l, hl⟩ : ∃ l, preorder (childrenOf id parent rows) (rows.length + 1) r = some l :=
    exists_descend hacyclic (fun x y hy => (mem_childrenOf.1 hy).1) r
  refine ⟨l, ?_, fun fuel hfuel => ?_⟩
  · have hmem : ∀ y ∈ l, y ∈ rows := by
      intro y hy
      cases ((mem_preorder hl).1 hy).cases_tail with
      | inl heq => exact heq ▸ hr
      | inr hlast =>
        obtain ⟨z, -, hzy⟩ := hlast
        exact (mem_childrenOf.1 hzy).1
    have hids := preorder_childIds hl
    have hforest : Forest (Down (childIds id parent rows)) := by
      constructor
      · exact h.acyclic.mono fun _ _ => down_childIds.1
      · exact fun ha hb => h.parent_unique (down_childIds.1 ha) (down_childIds.1 hb)
    have hnodup : (l.map id).Nodup :=
      nodup_preorder hforest (fun _ => h.nodup.sublist (List.filter_sublist.map id)) hids
    refine (List.perm_ext_iff_of_nodup hnodup.of_map h.nodup.of_map).2 fun y => ⟨hmem y, fun hy => ?_⟩
    have hreach : ReflTransGen (Down (childIds id parent rows)) (id r) (id y) := by
      rw [hroot]
      exact ReflTransGen.mono (fun _ _ => down_childIds.2) _ _ (h.reach y hy)
    obtain ⟨z, hz, hid⟩ := List.mem_map.1 ((mem_preorder hids).2 hreach)
    exact h.eq_of_id (hmem z hz) hy hid ▸ hz
  · obtain ⟨more, rfl⟩ := Nat.exists_eq_add_of_lt hfuel
    rw [Nat.add_right_comm]
    exact descend_mono hl more

end parents

end Quinn.Search
