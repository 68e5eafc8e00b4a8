import Mathlib.Data.List.Nodup
import Mathlib.Data.List.Perm.Subperm
import Mathlib.Logic.Relation

/-! Two loops with a visited set: a worklist that collects what can be reached, and a chain
that is followed until it ends or repeats.  Both are given a number of turns. -/

namespace Quinn.Search

open Relation

variable {α : Type} [DecidableEq α]

/-- One found neighbour: if it is new it is kept and put on top of the worklist. -/
def visit (s : List α × List α) (y : α) : List α × List α :=
  if y ∈ s.1 then s else (y :: s.1, y :: s.2)

/-- Pop from the worklist until it is empty; `none` when the turns run out before. -/
def explore (succ : α → List α) : Nat → List α → List α → Option (List α)
  | _, seen, [] => some seen
  | 0, _, _ :: _ => none
  | n + 1, seen, x :: todo =>
    let s := (succ x).foldl visit (seen, todo)
    explore succ n s.1 s.2

theorem foldl_visit (ys : List α) (seen todo : List α) :
    ∃ new, ys.foldl visit (seen, todo) = (new ++ seen, new ++ todo) ∧
      (∀ y, y ∈ new ++ seen ↔ y ∈ ys ∨ y ∈ seen) ∧ new.Nodup ∧ ∀ y ∈ new, y ∈ ys ∧ y ∉ seen := by
  induction ys generalizing seen todo with
  | nil => exact ⟨[], rfl, by simp, List.nodup_nil, nofun⟩
  | cons y ys ih =>
    by_cases hy : y ∈ seen
    · obtain ⟨new, hfold, hmem, hnodup, hnew⟩ := ih seen todo
      refine ⟨new, by simp only [List.foldl_cons, visit, hy, if_true, hfold], fun z => ?_, hnodup,
        fun z hz => ⟨List.mem_cons_of_mem y (hnew z hz).1, (hnew z hz).2⟩⟩
      rw [hmem, List.mem_cons]
      constructor
      · exact fun h => h.imp_left .inr
      · rintro ((rfl | h) | h)
        · exact .inr hy
        · exact .inl h
        · exact .inr h
    · obtain ⟨new, hfold, hmem, hnodup, hnew⟩ := ih (y :: seen) (y :: todo)
      refine ⟨new ++ [y], by simp [visit, hy, hfold], fun z => ?_, ?_, fun z hz => ?_⟩
      · have := hmem z
        simp only [List.append_assoc, List.singleton_append, List.mem_cons] at this ⊢
        rw [this]
        constructor
        · rintro (h | rfl | h)
          · exact .inl (.inr h)
          · exact .inl (.inl rfl)
          · exact .inr h
        · rintro ((rfl | h) | h)
          · exact .inr (.inl rfl)
          · exact .inl h
          · exact .inr (.inr h)
      · refine List.nodup_append.mpr ⟨hnodup, List.nodup_singleton y, fun z hz w hw => ?_⟩
        rw [List.mem_singleton] at hw
        rintro rfl
        exact (hnew z hz).2 (hw ▸ List.mem_cons_self)
      · rcases List.mem_append.mp hz with hz | hz
        · exact ⟨List.mem_cons_of_mem y (hnew z hz).1,
            fun h => (hnew z hz).2 (List.mem_cons_of_mem y h)⟩
        · rw [List.mem_singleton] at hz
          subst hz
          exact ⟨List.mem_cons_self, hy⟩

structure Explored (succ : α → List α) (root : α) (seen todo : List α) : Prop where
  root_mem : root ∈ seen
  sound : ∀ y ∈ seen, ReflTransGen (fun x y => y ∈ succ x) root y
  pending : ∀ x ∈ todo, x ∈ seen
  done : ∀ x ∈ seen, x ∉ todo → ∀ y ∈ succ x, y ∈ seen

theorem Explored.step {succ : α → List α} {root x : α} {seen todo : List α}
    (h : Explored succ root seen (x :: todo)) :
    Explored succ root ((succ x).foldl visit (seen, todo)).1
      ((succ x).foldl visit (seen, todo)).2 := by
  obtain ⟨new, hfold, hmem, -, hnew⟩ := foldl_visit (succ x) seen todo
  have hx : x ∈ seen := h.pending x List.mem_cons_self
  rw [hfold]
  refine ⟨(hmem root).mpr (.inr h.root_mem), fun y hy => ?_, fun y hy => ?_, fun y hy hdone z hz => ?_⟩
  · rcases (hmem y).mp hy with hy | hy
    · exact (h.sound x hx).tail hy
    · exact h.sound y hy
  · rcases List.mem_append.mp hy with hy | hy
    · exact List.mem_append_left seen hy
    · exact List.mem_append_right new (h.pending y (List.mem_cons_of_mem x hy))
  · rw [List.mem_append, not_or] at hdone
    have hy : y ∈ seen := (List.mem_append.mp hy).resolve_left hdone.1
    rw [hmem]
    by_cases hyx : y = x
    · subst hyx
      exact .inl hz
    · refine .inr (h.done y hy ?_ z hz)
      rw [List.mem_cons, not_or]
      exact ⟨hyx, hdone.2⟩

theorem Explored.explore {succ : α → List α} {root : α} {n : Nat} {seen todo result : List α}
    (h : Explored succ root seen todo) (hrun : explore succ n seen todo = some result) :
    Explored succ root result [] := by
  induction n generalizing seen todo with
  | zero =>
    cases todo with
    | nil =>
      cases hrun
      exact h
    | cons x todo => cases hrun
  | succ n ih =>
    cases todo with
    | nil =>
      cases hrun
      exact h
    | cons x todo => exact ih h.step hrun

theorem mem_explore {succ : α → List α} {root : α} {n : Nat} {result : List α}
    (hrun : explore succ n [root] [root] = some result) (y : α) :
    y ∈ result ↔ ReflTransGen (fun x y => y ∈ succ x) root y := by
  have hstart : Explored succ root [root] [root] :=
    ⟨List.mem_singleton_self root, fun y hy => by rw [List.mem_singleton.mp hy],
      fun x hx => hx, fun x hx hnot => absurd hx hnot⟩
  have hend := hstart.explore hrun
  constructor
  · exact hend.sound y
  · intro hreach
    induction hreach with
    | refl => exact hend.root_mem
    | tail _ hyz ih => exact hend.done _ ih List.not_mem_nil _ hyz

theorem length_unseen {new seen : List α} (univ : List α) (hnodup : new.Nodup)
    (hnew : ∀ y ∈ new, y ∈ univ ∧ y ∉ seen) :
    new.length + (univ.filter fun y => y ∉ new ++ seen).length ≤
      (univ.filter fun y => y ∉ seen).length := by
  have hsplit := List.length_eq_length_filter_add (l := univ.filter fun y => y ∉ seen) (· ∈ new)
  have hrest : (univ.filter fun y => y ∉ seen).filter (fun y => !decide (y ∈ new)) =
      univ.filter fun y => y ∉ new ++ seen := by
    rw [List.filter_filter]
    congr 1
    funext y
    simp
  have hle : new.length ≤ ((univ.filter fun y => y ∉ seen).filter (· ∈ new)).length := by
    refine (hnodup.subperm fun y hy => ?_).length_le
    simp [hy, hnew y hy]
  rw [hrest] at hsplit
  omega

theorem explore_isSome {succ : α → List α} (univ : List α) (huniv : ∀ x, ∀ y ∈ succ x, y ∈ univ)
    {n : Nat} {seen todo : List α}
    (hn : todo.length + (univ.filter fun y => y ∉ seen).length ≤ n) :
    ∃ result, explore succ n seen todo = some result := by
  induction n generalizing seen todo with
  | zero =>
    cases todo with
    | nil => exact ⟨seen, rfl⟩
    | cons x todo => simp at hn
  | succ n ih =>
    cases todo with
    | nil => exact ⟨seen, rfl⟩
    | cons x todo =>
      obtain ⟨new, hfold, hmem, hnodup, hnew⟩ := foldl_visit (succ x) seen todo
      rw [explore, hfold]
      refine ih ?_
      have hunseen := length_unseen univ hnodup fun y hy => ⟨huniv x y (hnew y hy).1, (hnew y hy).2⟩
      simp only [List.length_append, List.length_cons] at hn hunseen ⊢
      omega

variable {γ : Type}

/-- Follow what `lookup` finds, in turn `n` with `lookup n`, until there is nothing more or a
place comes up again. -/
def follow (lookup : Nat → α → Option γ) (up : γ → α) : Nat → List α → α → Option (List γ)
  | 0, _, _ => none
  | n + 1, visited, x =>
    if x ∈ visited then some []
    else
      match lookup n x with
      | none => some []
      | some g => (follow lookup up n (x :: visited) (up g)).map (g :: ·)

theorem mem_follow {lookup : Nat → α → Option γ} {up down : γ → α}
    (hdown : ∀ n x g, lookup n x = some g → down g = x) {r : α → α → Prop}
    (hr : ∀ n x g, lookup n x = some g → r (up g) x) {n : Nat} {visited : List α} {x : α}
    {chain : List γ} (hrun : follow lookup up n visited x = some chain) {g : γ} (hg : g ∈ chain) :
    ReflTransGen r (down g) x := by
  induction n generalizing visited x chain with
  | zero => cases hrun
  | succ n ih =>
    rw [follow] at hrun
    split at hrun
    · cases hrun
      cases hg
    · cases hlookup : lookup n x with
      | none =>
        rw [hlookup] at hrun
        cases hrun
        cases hg
      | some g' =>
        rw [hlookup] at hrun
        obtain ⟨rest, hrest, rfl⟩ := Option.map_eq_some_iff.mp hrun
        cases hg with
        | head => rw [hdown n x g hlookup]
        | tail _ hg => exact (ih hrest hg).tail (hr n x g' hlookup)

theorem follow_isSome {lookup : Nat → α → Option γ} {up : γ → α} (univ : List α)
    (huniv : ∀ n x g, lookup n x = some g → x ∈ univ) {n : Nat} {visited : List α} {x : α}
    (hn : (univ.filter fun y => y ∉ visited).length < n) :
    ∃ chain, follow lookup up n visited x = some chain := by
  induction n generalizing visited x with
  | zero => exact absurd hn (Nat.not_lt_zero _)
  | succ n ih =>
    rw [follow]
    split
    · exact ⟨[], rfl⟩
    · next hx =>
      cases hlookup : lookup n x with
      | none => exact ⟨[], rfl⟩
      | some g =>
        have hfresh (y : α) (hy : y ∈ [x]) : y ∈ univ ∧ y ∉ visited := by
          rw [List.mem_singleton.mp hy]
          exact ⟨huniv n x g hlookup, hx⟩
        have hunseen := length_unseen univ (List.nodup_singleton x) hfresh
        rw [List.length_singleton, List.singleton_append] at hunseen
        have hn' : (univ.filter fun y => y ∉ x :: visited).length < n := by omega
        obtain ⟨rest, hrest⟩ := ih hn' (x := up g)
        exact ⟨g :: rest, by simp [hrest]⟩

end Quinn.Search
