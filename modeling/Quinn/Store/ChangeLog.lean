import Mathlib.Data.List.Sort
import Mathlib.Logic.Function.Basic
import Quinn.Machine.Run
import Quinn.Store.Table

/-! Tables that changes are logged in, and who follows them by the id that came last. -/

namespace Quinn.Store

structure Change (ε σ : Type) where
  entity : ε
  old : σ
  new : σ
  deriving DecidableEq

section views

variable {ε σ : Type} [DecidableEq ε] {before after view view' : ε → Option σ} {cs : List (Change ε σ)} {e : ε}

def overwrite (view : ε → Option σ) (cs : List (Change ε σ)) : ε → Option σ :=
  cs.foldl (fun v c => Function.update v c.entity (some c.new)) view

theorem overwrite_append (cs' : List (Change ε σ)) :
    overwrite view (cs ++ cs') = overwrite (overwrite view cs) cs' := List.foldl_append

theorem overwrite_congr (h : view e = view' e) : overwrite view cs e = overwrite view' cs e := by
  induction cs generalizing view view' with
  | nil => exact h
  | cons c cs ih =>
    apply ih
    by_cases he : e = c.entity
    · simp only [he, Function.update_self]
    · simp only [Function.update_of_ne he, h]

theorem overwrite_of_forall_ne (h : ∀ c ∈ cs, c.entity ≠ e) : overwrite view cs e = view e := by
  induction cs generalizing view with
  | nil => rfl
  | cons c cs ih =>
    rw [List.forall_mem_cons] at h
    exact (ih h.2).trans (Function.update_of_ne (Ne.symm h.1) _ _)

variable [DecidableEq σ]

def changeOf (before after : ε → Option σ) (e : ε) : Option (Change ε σ) :=
  match before e, after e with
  | some old, some new => if old = new then none else some { entity := e, old, new }
  | _, _ => none

def changesBetween (es : List ε) (before after : ε → Option σ) : List (Change ε σ) :=
  es.filterMap (changeOf before after)

omit [DecidableEq ε] in
theorem changeOf_eq_some {c : Change ε σ} : changeOf before after e = some c ↔
    c.entity = e ∧ before e = some c.old ∧ after e = some c.new ∧ c.old ≠ c.new := by
  unfold changeOf
  split
  · next old new hold hnew =>
    rw [hold, hnew]
    split_ifs with heq
    · refine iff_of_false nofun ?_
      rintro ⟨-, hold', hnew', hne⟩
      cases hold'
      cases hnew'
      exact hne heq
    · rw [Option.some_inj]
      constructor
      · rintro rfl
        exact ⟨rfl, rfl, rfl, heq⟩
      · obtain ⟨e', old', new'⟩ := c
        rintro ⟨rfl, ⟨⟩, ⟨⟩, -⟩
        rfl
  · next hnone =>
    simp only [reduceCtorEq, false_iff]
    rintro ⟨-, hold, hnew, -⟩
    exact hnone c.old c.new hold hnew

omit [DecidableEq ε] in
theorem changesBetween_eq_nil {es : List ε} (h : ∀ e ∈ es, after e = before e ∨ after e = none) :
    changesBetween es before after = [] := by
  rw [changesBetween, List.filterMap_eq_nil_iff]
  intro e he
  cases hchange : changeOf before after e with
  | none => rfl
  | some c =>
    obtain ⟨-, hbefore, hafter, hne⟩ := changeOf_eq_some.1 hchange
    cases h e he with
    | inl h =>
      rw [hbefore, hafter, Option.some_inj] at h
      exact absurd h.symm hne
    | inr h =>
      rw [hafter] at h
      cases h

theorem overwrite_changesBetween {es : List ε} (hes : es.Nodup) (he : e ∈ es) (hbefore : before e ≠ none)
    (hafter : after e ≠ none) : overwrite before (changesBetween es before after) e = after e := by
  obtain ⟨old, hold⟩ := Option.ne_none_iff_exists'.1 hbefore
  obtain ⟨new, hnew⟩ := Option.ne_none_iff_exists'.1 hafter
  obtain ⟨es₁, es₂, rfl⟩ := List.append_of_mem he
  obtain ⟨h₁, h₂, hapart⟩ := List.nodup_append.1 hes
  have hnot (es : List ε) (hes : e ∉ es) (view : ε → Option σ) :
      overwrite view (changesBetween es before after) e = view e := by
    refine overwrite_of_forall_ne fun c hc => ?_
    obtain ⟨e', he', hchange⟩ := List.mem_filterMap.1 hc
    rw [(changeOf_eq_some.1 hchange).1]
    exact ne_of_mem_of_not_mem he' hes
  have hfirst : e ∉ es₁ := fun hin => hapart e hin e List.mem_cons_self rfl
  have hlast : e ∉ es₂ := (List.nodup_cons.1 h₂).1
  rw [changesBetween, List.filterMap_append, List.filterMap_cons, overwrite_append]
  cases hchange : changeOf before after e with
  | none =>
    have hsame : before e = after e := by
      by_contra hne
      have hne' : old ≠ new := fun heq => hne (by rw [hold, hnew, heq])
      have hsome : changeOf before after e = some { entity := e, old, new } :=
        changeOf_eq_some.2 ⟨rfl, hold, hnew, hne'⟩
      rw [hsome] at hchange
      cases hchange
    exact (hnot es₂ hlast _).trans ((hnot es₁ hfirst _).trans hsame)
  | some c =>
    obtain ⟨hentity, -, hafter', -⟩ := changeOf_eq_some.1 hchange
    rw [hafter', ← hentity]
    exact (hentity ▸ hnot es₂ hlast _).trans (Function.update_self _ _ _)

/-- What has changed in the course of a run, step by step. -/
def changesDuring {τ ο : Type} (next : τ → ο → τ) (entities : τ → List ε) (look : τ → ε → Option σ) (s : τ)
    (ops : List ο) : List (Change ε σ) :=
  (Machine.trace next (fun s op => changesBetween (entities s) (look s) (look (next s op))) s ops).flatten

theorem overwrite_changesDuring {τ ο : Type} {next : τ → ο → τ} {entities : τ → List ε}
    {look : τ → ε → Option σ} (hnodup : ∀ s, (entities s).Nodup)
    (hmem : ∀ s e, look s e ≠ none → e ∈ entities s) {s : τ} {ops : List ο}
    (h : Machine.Throughout next (fun s => look s e ≠ none) s ops) :
    overwrite (look s) (changesDuring next entities look s ops) e = look (Machine.run next s ops) e := by
  induction ops generalizing s with
  | nil => rfl
  | cons op ops ih =>
    have hstep : overwrite (look s) (changesBetween (entities s) (look s) (look (next s op))) e =
        look (next s op) e :=
      overwrite_changesBetween (hnodup s) (hmem s e h.1) h.1 h.2.start
    rw [changesDuring, Machine.trace, List.flatten_cons, overwrite_append, overwrite_congr hstep]
    exact ih h.2

end views

/-- A table whose ids ascend; `seq` is the last that was given, whether its row is there or not. -/
structure Log (ρ : Type) [Row ρ Nat] where
  rows : List ρ := []
  seq : Nat := 0
  ascending : rows.Pairwise fun r r' => Row.key r < Row.key r' := by exact List.Pairwise.nil
  le_seq : ∀ r ∈ rows, Row.key r ≤ seq := by nofun

section log

variable {ρ α : Type} [Row ρ Nat]

namespace Log

/-- The next id is one that was never given. -/
def append (log : Log ρ) (make : Nat → ρ) (hmake : ∀ n, Row.key (make n) = n) : Log ρ where
  rows := log.rows ++ [make (log.seq + 1)]
  seq := log.seq + 1
  ascending := by
    refine List.pairwise_append.2 ⟨log.ascending, List.pairwise_singleton _ _, fun r hr r' hr' => ?_⟩
    rw [List.mem_singleton.1 hr', hmake]
    exact Nat.lt_succ_of_le (log.le_seq r hr)
  le_seq r hr := by
    cases List.mem_append.1 hr with
    | inl hr => exact (log.le_seq r hr).trans (Nat.le_succ _)
    | inr hr => rw [List.mem_singleton.1 hr, hmake]

def appendAll (log : Log ρ) (make : Nat → α → ρ) (hmake : ∀ a n, Row.key (make n a) = n) (as : List α) : Log ρ :=
  as.foldl (fun log a => log.append (make · a) (hmake a)) log

/-- `WHERE id > ? ORDER BY id ASC` -/
def since (log : Log ρ) (cursor : Nat) : List ρ :=
  orderBy Row.key (log.rows.filter fun r => cursor < Row.key r)

def maxId (log : Log ρ) : Option Nat := (log.rows.map Row.key).max?

variable {log : Log ρ} {cursor : Nat}

theorem since_eq_filter : log.since cursor = log.rows.filter fun r => cursor < Row.key r := by
  refine List.Pairwise.insertionSort_eq ((log.ascending.filter _).imp fun h => ?_)
  exact h.le

theorem key_le_of_maxId {r : ρ} (hr : r ∈ log.rows) : Row.key r ≤ log.maxId.getD 0 := by
  have hmem : Row.key r ∈ log.rows.map Row.key := List.mem_map_of_mem hr
  cases hmax : log.maxId with
  | none =>
    rw [maxId, List.max?_eq_none_iff] at hmax
    rw [hmax] at hmem
    cases hmem
  | some n => exact (List.max?_eq_some_iff.1 hmax).2 _ hmem

theorem key_le_getLast {r last : ρ} (hlast : log.rows.getLast? = some last) (hr : r ∈ log.rows) :
    Row.key r ≤ Row.key last := by
  obtain ⟨init, hinit⟩ := List.getLast?_eq_some_iff.1 hlast
  have hascending := log.ascending
  rw [hinit] at hascending hr
  cases List.mem_append.1 hr with
  | inl hr => exact ((List.pairwise_append.1 hascending).2.2 r hr last List.mem_cons_self).le
  | inr hr => rw [List.mem_singleton.1 hr]

theorem maxId_le : log.maxId.getD 0 ≤ log.seq := by
  cases hmax : log.maxId with
  | none => exact Nat.zero_le _
  | some n =>
    obtain ⟨r, hr, rfl⟩ := List.mem_map.1 (List.max?_eq_some_iff.1 hmax).1
    exact log.le_seq r hr

end Log

/-- Someone who asks for what came after the last row received. -/
structure Poller (ρ : Type) where
  cursor : Nat
  received : List ρ := []

namespace Poller

def receive (rows : List ρ) (c : Poller ρ) : Poller ρ where
  cursor := (rows.getLast?.map Row.key).getD c.cursor
  received := c.received ++ rows

/-- Since `base` it is `logged` that has been logged, of which a part has been received. -/
structure Follows (base : List ρ) (c : Poller ρ) (log : Log ρ) (logged : List ρ) : Prop where
  rows_eq : log.rows = base ++ logged
  exists_rest : ∃ rest, logged = c.received ++ rest ∧
    (∀ r ∈ base ++ c.received, Row.key r ≤ c.cursor) ∧ ∀ r ∈ rest, c.cursor < Row.key r
  le_seq : c.cursor ≤ log.seq

variable {base : List ρ} {c : Poller ρ} {log : Log ρ} {logged : List ρ}

theorem follows_start : Follows log.rows { cursor := log.maxId.getD 0 } log [] where
  rows_eq := (List.append_nil _).symm
  exists_rest := by
    refine ⟨[], rfl, fun r hr => ?_, nofun⟩
    rw [List.append_nil] at hr
    exact Log.key_le_of_maxId hr
  le_seq := Log.maxId_le

theorem Follows.append (h : c.Follows base log logged) {make : Nat → ρ} (hmake : ∀ n, Row.key (make n) = n) :
    c.Follows base (log.append make hmake) (logged ++ [make (log.seq + 1)]) where
  rows_eq := by
    have hrows : (log.append make hmake).rows = log.rows ++ [make (log.seq + 1)] := rfl
    rw [hrows, h.rows_eq, List.append_assoc]
  exists_rest := by
    obtain ⟨rest, hlogged, hreceived, hrest⟩ := h.exists_rest
    refine ⟨rest ++ [make (log.seq + 1)], by rw [hlogged, List.append_assoc], hreceived, fun r hr => ?_⟩
    cases List.mem_append.1 hr with
    | inl hr => exact hrest r hr
    | inr hr =>
      rw [List.mem_singleton.1 hr, hmake]
      exact Nat.lt_succ_of_le h.le_seq
  le_seq := h.le_seq.trans (Nat.le_succ _)

theorem Follows.appendAll (h : c.Follows base log logged) {make : Nat → α → ρ}
    (hmake : ∀ a n, Row.key (make n a) = n) {content : ρ → α} (hcontent : ∀ n a, content (make n a) = a)
    (as : List α) :
    ∃ new, c.Follows base (log.appendAll make hmake as) (logged ++ new) ∧ new.map content = as := by
  induction as generalizing log logged with
  | nil => exact ⟨[], (List.append_nil logged).symm ▸ h, rfl⟩
  | cons a as ih =>
    obtain ⟨new, hnew, has⟩ := ih (h.append (hmake a))
    refine ⟨make (log.seq + 1) a :: new, ?_, ?_⟩
    · rw [List.append_assoc] at hnew
      exact hnew
    · rw [List.map_cons, hcontent, has]

theorem Follows.since (h : c.Follows base log logged) : c.received ++ log.since c.cursor = logged := by
  obtain ⟨rest, hlogged, hreceived, hrest⟩ := h.exists_rest
  have hold : (base ++ c.received).filter (fun r => c.cursor < Row.key r) = [] := by
    rw [List.filter_eq_nil_iff]
    intro r hr
    simpa using hreceived r hr
  have hnew : rest.filter (fun r => c.cursor < Row.key r) = rest := by
    rw [List.filter_eq_self]
    intro r hr
    simpa using hrest r hr
  rw [Log.since_eq_filter, h.rows_eq, hlogged, ← List.append_assoc, List.filter_append, hold, hnew,
    List.nil_append]

theorem Follows.receive (h : c.Follows base log logged) :
    (c.receive (log.since c.cursor)).Follows base log logged ∧
      (c.receive (log.since c.cursor)).received = logged := by
  obtain ⟨rest, hlogged, hreceived, hrest⟩ := h.exists_rest
  have hsince : log.since c.cursor = rest := List.append_cancel_left (h.since.trans hlogged)
  have hall : (c.receive (log.since c.cursor)).received = logged := h.since
  refine ⟨⟨h.rows_eq, ⟨[], ?_, ?_, nofun⟩, ?_⟩, hall⟩
  · rw [List.append_nil, hall]
  · intro r hr
    rw [hall, ← h.rows_eq] at hr
    rw [Poller.receive, hsince]
    cases hlast : rest.getLast? with
    | none =>
      rw [List.getLast?_eq_none_iff] at hlast
      rw [h.rows_eq, hlogged, hlast, List.append_nil] at hr
      exact hreceived r hr
    | some last =>
      refine Log.key_le_getLast ?_ hr
      rw [h.rows_eq, hlogged, List.getLast?_append, List.getLast?_append, hlast]
      rfl
  · rw [Poller.receive, hsince]
    cases hlast : rest.getLast? with
    | none => exact h.le_seq
    | some last =>
      refine log.le_seq last ?_
      rw [h.rows_eq, hlogged]
      exact List.mem_append_right _ (List.mem_append_right _ (List.mem_of_getLast? hlast))

end Poller

end log

end Quinn.Store
