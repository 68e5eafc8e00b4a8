import Quinn.Store.ReadOnly

/-! What other connections do to the store while a program runs. -/

namespace Quinn.Store

variable {σ ω ε α β : Type}

/-- The commit of another connection, unless this one holds the lock. -/
def Conn.hear (m : Move σ ε) : Conn σ → σ → σ
  | ⟨_, none⟩, s => m.foreign s
  | ⟨_, some _⟩, s => s

theorem Conn.view_disturb (m : Move σ ε) (c : Conn σ) : (c.disturb m).view = c.hear m c.view := by
  rcases c with ⟨s, _ | t⟩ <;> rfl

namespace Prog

variable [Writes ω σ ε]

/-- What the other connections alone make of a snapshot in the course of a run. -/
def others : Prog σ ω ε α → Conn σ → List (Move σ ε) → σ → σ
  | .ret _, _, _, s => s
  | .raise _, _, _, s => s
  | .read k, c, ms, s =>
    let m := ms.headD .quiet
    match m.fault with
    | some e => (k (.error e)).others (c.disturb m) ms.tail (c.hear m s)
    | none => (k (.ok (c.disturb m).view)).others (c.disturb m) ms.tail (c.hear m s)
  | .write w k, c, ms, s =>
    let m := ms.headD .quiet
    match m.fault with
    | some e => (k (.error e)).others (c.disturb m) ms.tail (c.hear m s)
    | none => (k ((c.disturb m).write w).1).others ((c.disturb m).write w).2 ms.tail (c.hear m s)
  | .commit k, ⟨s₀, none⟩, ms, s => (k (.ok ())).others ⟨s₀, none⟩ ms s
  | .commit k, ⟨s₀, some t⟩, ms, s =>
    match (ms.headD .quiet).fault with
    | some e => (k (.error e)).others ⟨s₀, some t⟩ ms.tail s
    | none => (k (.ok ())).others ⟨t, none⟩ ms.tail s
  | .rollback p, c, ms, s => p.others ⟨c.committed, none⟩ ms s

theorem others_bind (p : Prog σ ω ε α) (f : α → Prog σ ω ε β) (c : Conn σ) (ms : List (Move σ ε))
    (s : σ) : (p.bind f).others c ms s =
      match p.run c ms with
      | (.ok a, c', ms') => (f a).others c' ms' (p.others c ms s)
      | (.error _, _, _) => p.others c ms s := by
  induction p generalizing c ms s with
  | ret a => rfl
  | raise e => rfl
  | read k ih =>
    simp only [bind, run, others]
    cases (ms.headD .quiet).fault <;> exact ih _ _ _ _
  | write w k ih =>
    simp only [bind, run, others]
    cases (ms.headD .quiet).fault <;> exact ih _ _ _ _
  | commit k ih =>
    rcases c with ⟨s₀, _ | t⟩
    · exact ih _ _ _ _
    · simp only [bind, run, others]
      cases (ms.headD .quiet).fault <;> exact ih _ _ _ _
  | rollback p ih => exact ih _ _ _

theorem ReadOnly.run_view {p : Prog σ ω ε α} (h : p.ReadOnly) (c : Conn σ) (ms : List (Move σ ε)) :
    (p.run c ms).2.1.view = p.others c ms c.view := by
  induction p generalizing c ms with
  | ret a => rfl
  | raise e => rfl
  | read k ih =>
    simp only [run, others, ← Conn.view_disturb]
    cases (ms.headD .quiet).fault <;> exact ih _ (h _) _ _
  | write w k ih => exact h.elim
  | commit k ih => exact h.elim
  | rollback p ih => exact h.elim

/-- No commit of the others breaks the invariant. -/
def Spared (inv : σ → Prop) (ms : List (Move σ ε)) : Prop := ∀ m ∈ ms, ∀ s, inv s → inv (m.foreign s)

omit [Writes ω σ ε] in
theorem Spared.head {inv : σ → Prop} {ms : List (Move σ ε)} (h : Spared inv ms) {s : σ} (hs : inv s) :
    inv ((ms.headD .quiet).foreign s) := by
  cases ms with
  | nil => exact hs
  | cons m ms => exact h m List.mem_cons_self s hs

omit [Writes ω σ ε] in
theorem Spared.tail {inv : σ → Prop} {ms : List (Move σ ε)} (h : Spared inv ms) : Spared inv ms.tail :=
  fun m hm => h m (List.mem_of_mem_tail hm)

omit [Writes ω σ ε] in
theorem Spared.hear {inv : σ → Prop} {ms : List (Move σ ε)} (h : Spared inv ms) (c : Conn σ) {s : σ}
    (hs : inv s) : inv (c.hear (ms.headD .quiet) s) := by
  rcases c with ⟨s₀, _ | t⟩
  · exact h.head hs
  · exact hs

theorem others_invariant {inv : σ → Prop} (p : Prog σ ω ε α) {c : Conn σ} {ms : List (Move σ ε)} {s : σ}
    (hms : Spared inv ms) (hs : inv s) : inv (p.others c ms s) := by
  induction p generalizing c ms s with
  | ret a => exact hs
  | raise e => exact hs
  | read k ih =>
    simp only [others]
    cases (ms.headD .quiet).fault <;> exact ih _ hms.tail (hms.hear c hs)
  | write w k ih =>
    simp only [others]
    cases (ms.headD .quiet).fault <;> exact ih _ hms.tail (hms.hear c hs)
  | commit k ih =>
    rcases c with ⟨s₀, _ | t⟩
    · exact ih _ hms hs
    · simp only [others]
      cases (ms.headD .quiet).fault <;> exact ih _ hms.tail hs
  | rollback p ih => exact ih hms hs

theorem mem_of_mem_run (p : Prog σ ω ε α) {c : Conn σ} {ms : List (Move σ ε)} {m : Move σ ε}
    (hm : m ∈ (p.run c ms).2.2) : m ∈ ms := by
  induction p generalizing c ms with
  | ret a => exact hm
  | raise e => exact hm
  | read k ih =>
    simp only [run] at hm
    cases h : (ms.headD .quiet).fault <;> rw [h] at hm <;> exact List.mem_of_mem_tail (ih _ hm)
  | write w k ih =>
    simp only [run] at hm
    cases h : (ms.headD .quiet).fault <;> rw [h] at hm <;> exact List.mem_of_mem_tail (ih _ hm)
  | commit k ih =>
    rcases c with ⟨s₀, _ | t⟩
    · exact ih _ hm
    · simp only [run] at hm
      cases h : (ms.headD .quiet).fault <;> rw [h] at hm <;> exact List.mem_of_mem_tail (ih _ hm)
  | rollback p ih => exact ih hm

/-- The program's own writes do not break the invariant, and it never rolls back. -/
def Keeps (inv : σ → Prop) : Prog σ ω ε α → Prop
  | .ret _ => True
  | .raise _ => True
  | .read k => ∀ r, (k r).Keeps inv
  | .write w k => (∀ s s' n, inv s → Writes.apply w s = .ok (s', n) → inv s') ∧ ∀ r, (k r).Keeps inv
  | .commit k => ∀ r, (k r).Keeps inv
  | .rollback _ => False

theorem Keeps.bind {inv : σ → Prop} {p : Prog σ ω ε α} {f : α → Prog σ ω ε β} (h : p.Keeps inv)
    (hf : ∀ a, (f a).Keeps inv) : (p.bind f).Keeps inv := by
  induction p with
  | ret a => exact hf a
  | raise e => trivial
  | read k ih => exact fun r => ih r (h r)
  | write w k ih => exact ⟨h.1, fun r => ih r (h.2 r)⟩
  | commit k ih => exact fun r => ih r (h r)
  | rollback p ih => exact h.elim

theorem keeps_execute {inv : σ → Prop} {w : ω}
    (hw : ∀ s s' n, inv s → Writes.apply w s = .ok (s', n) → inv s') :
    (execute w : Prog σ ω ε Nat).Keeps inv := by
  refine ⟨hw, fun r => ?_⟩
  cases r <;> trivial

theorem keeps_commitNow {inv : σ → Prop} : (commitNow : Prog σ ω ε Unit).Keeps inv := by
  intro r
  cases r <;> trivial

theorem Conn.write_invariant {inv : σ → Prop} {w : ω} {c : Conn σ} (hc : inv c.view)
    (hw : ∀ s s' n, inv s → Writes.apply w s = .ok (s', n) → inv s') : inv (c.write w).2.view := by
  simp only [Conn.write]
  cases h : (Writes.apply w c.view : Except ε (σ × Nat)) with
  | ok r => exact hw c.view r.1 r.2 hc h
  | error e => exact hc

theorem run_invariant {inv : σ → Prop} {p : Prog σ ω ε α} (hp : p.Keeps inv) {c : Conn σ}
    {ms : List (Move σ ε)} (hms : Spared inv ms) (hc : inv c.view) : inv (p.run c ms).2.1.view := by
  induction p generalizing c ms with
  | ret a => exact hc
  | raise e => exact hc
  | read k ih =>
    have hdisturbed : inv (c.disturb (ms.headD .quiet)).view := by
      rw [Conn.view_disturb]
      exact hms.hear c hc
    simp only [run]
    cases (ms.headD .quiet).fault <;> exact ih _ (hp _) hms.tail hdisturbed
  | write w k ih =>
    have hdisturbed : inv (c.disturb (ms.headD .quiet)).view := by
      rw [Conn.view_disturb]
      exact hms.hear c hc
    simp only [run]
    cases (ms.headD .quiet).fault with
    | some e => exact ih _ (hp.2 _) hms.tail hdisturbed
    | none => exact ih _ (hp.2 _) hms.tail (Conn.write_invariant hdisturbed hp.1)
  | commit k ih =>
    rcases c with ⟨s₀, _ | t⟩
    · exact ih _ (hp _) hms hc
    · simp only [run]
      cases (ms.headD .quiet).fault <;> exact ih _ (hp _) hms.tail hc
  | rollback p ih => exact hp.elim

end Prog

end Quinn.Store
