import Quinn.Store.Connection

/-! Weakest preconditions for programs over a store that others write to as well. -/

namespace Quinn.Store

/-- What a program may assume between its statements, and what its writes must keep.
`guard` is assumed of each write: it sees the snapshots read so far, the latest first, and the
one written to. -/
structure Contract (σ ω : Type) where
  inv : σ → Prop
  rely : σ → σ → Prop
  guarantee : σ → σ → Prop
  guard : List σ → σ → ω → Prop

variable {σ ω ε α β : Type} [Writes ω σ ε]

namespace Contract

/-- `p` keeps the contract whatever comes between its statements, and what it returns
satisfies `Q`; `seen` are the snapshots read, `st` is the store as the last statement left it. -/
def Wp (C : Contract σ ω) (Q : α → List σ → σ → Prop) : Prog σ ω ε α → List σ → σ → Prop
  | .ret a, seen, st => Q a seen st
  | .raise _, _, _ => True
  | .read k, seen, st => ∀ st', C.rely st st' → C.inv st' →
      (∀ e, C.Wp Q (k (.error e)) seen st') ∧ C.Wp Q (k (.ok st')) (st' :: seen) st'
  | .write w k, seen, st => ∀ st', C.rely st st' → C.inv st' →
      (∀ e, C.Wp Q (k (.error e)) seen st') ∧
      (C.guard seen st' w → ∀ s n, Writes.apply w st' = .ok (s, n) →
        C.inv s ∧ C.guarantee st' s ∧ C.Wp Q (k (.ok n)) seen s)
  | .commit k, seen, st => (∀ e, C.Wp Q (k (.error e)) seen st) ∧ C.Wp Q (k (.ok ())) seen st
  | .rollback p, _, _ => ∀ seen' st', C.inv st' → C.Wp Q p seen' st'

variable {C : Contract σ ω} {Q Q' : α → List σ → σ → Prop} {seen : List σ} {st : σ}

theorem Wp.mono (hQ : ∀ a seen st, Q a seen st → Q' a seen st) {p : Prog σ ω ε α}
    (h : C.Wp Q p seen st) : C.Wp Q' p seen st := by
  induction p generalizing seen st with
  | ret a => exact hQ a seen st h
  | raise e => trivial
  | read k ih =>
    intro st' hr hi
    exact ⟨fun e => ih _ ((h st' hr hi).1 e), ih _ (h st' hr hi).2⟩
  | write w k ih =>
    intro st' hr hi
    refine ⟨fun e => ih _ ((h st' hr hi).1 e), fun hg s n hs => ?_⟩
    obtain ⟨hinv, hguar, hk⟩ := (h st' hr hi).2 hg s n hs
    exact ⟨hinv, hguar, ih _ hk⟩
  | commit k ih => exact ⟨fun e => ih _ (h.1 e), ih _ h.2⟩
  | rollback p ih => exact fun seen' st' hi => ih (h seen' st' hi)

/-- A contract that assumes less, asks more and keeps the same invariant. -/
theorem Wp.weaken {C' : Contract σ ω} (hinv : ∀ s, C.inv s ↔ C'.inv s)
    (hrely : ∀ s t, C'.rely s t → C.rely s t) (hguarantee : ∀ s t, C.guarantee s t → C'.guarantee s t)
    (hguard : ∀ seen s w, C'.guard seen s w → C.guard seen s w) {p : Prog σ ω ε α}
    (h : C.Wp Q p seen st) : C'.Wp Q p seen st := by
  induction p generalizing seen st with
  | ret a => exact h
  | raise e => trivial
  | read k ih =>
    intro st' hr hi
    obtain ⟨herr, hok⟩ := h st' (hrely _ _ hr) ((hinv _).mpr hi)
    exact ⟨fun e => ih _ (herr e), ih _ hok⟩
  | write w k ih =>
    intro st' hr hi
    obtain ⟨herr, hok⟩ := h st' (hrely _ _ hr) ((hinv _).mpr hi)
    refine ⟨fun e => ih _ (herr e), fun hg s n hs => ?_⟩
    obtain ⟨his, hguar, hk⟩ := hok (hguard _ _ _ hg) s n hs
    exact ⟨(hinv _).mp his, hguarantee _ _ hguar, ih _ hk⟩
  | commit k ih => exact ⟨fun e => ih _ (h.1 e), ih _ h.2⟩
  | rollback p ih => exact fun seen' st' hi => ih (h seen' st' ((hinv _).mpr hi))

section rules

@[simp] theorem wp_ret (a : α) : C.Wp Q (.ret a : Prog σ ω ε α) seen st ↔ Q a seen st := Iff.rfl

@[simp] theorem wp_raise (e : ε) : C.Wp Q (.raise e : Prog σ ω ε α) seen st := trivial

@[simp] theorem wp_bind (p : Prog σ ω ε α) (f : α → Prog σ ω ε β)
    {Q : β → List σ → σ → Prop} :
    C.Wp Q (p.bind f) seen st ↔ C.Wp (fun a seen' st' => C.Wp Q (f a) seen' st') p seen st := by
  induction p generalizing seen st with
  | ret a => rfl
  | raise e => rfl
  | read k ih => simp only [Prog.bind, Wp, ih]
  | write w k ih => simp only [Prog.bind, Wp, ih]
  | commit k ih => simp only [Prog.bind, Wp, ih]
  | rollback p ih => simp only [Prog.bind, Wp, ih]

@[simp] theorem wp_orRollback (p : Prog σ ω ε α) :
    C.Wp Q p.orRollback seen st ↔ C.Wp Q p seen st := by
  induction p generalizing seen st with
  | ret a => rfl
  | raise e => exact ⟨fun _ => trivial, fun _ _ _ _ => trivial⟩
  | read k ih => simp only [Prog.orRollback, Wp, ih]
  | write w k ih => simp only [Prog.orRollback, Wp, ih]
  | commit k ih => simp only [Prog.orRollback, Wp, ih]
  | rollback p ih => simp only [Prog.orRollback, Wp, ih]

@[simp] theorem wp_commitNow {Q : Unit → List σ → σ → Prop} :
    C.Wp Q (Prog.commitNow : Prog σ ω ε Unit) seen st ↔ Q () seen st :=
  ⟨fun h => h.2, fun h => ⟨fun _ => trivial, h⟩⟩

@[simp] theorem wp_transaction (p : Prog σ ω ε α) :
    C.Wp Q p.transaction seen st ↔ C.Wp Q p seen st := by
  simp [Prog.transaction]

@[simp] theorem wp_select (q : σ → α) :
    C.Wp Q (Prog.select q : Prog σ ω ε α) seen st ↔
      ∀ st', C.rely st st' → C.inv st' → Q (q st') (st' :: seen) st' :=
  ⟨fun h st' hr hi => (h st' hr hi).2, fun h st' hr hi => ⟨fun _ => trivial, h st' hr hi⟩⟩

@[simp] theorem wp_execute (w : ω) {Q : Nat → List σ → σ → Prop} :
    C.Wp Q (Prog.execute w : Prog σ ω ε Nat) seen st ↔
      ∀ st', C.rely st st' → C.inv st' → C.guard seen st' w → ∀ s n,
        Writes.apply w st' = .ok (s, n) → C.inv s ∧ C.guarantee st' s ∧ Q n seen s :=
  ⟨fun h st' hr hi => (h st' hr hi).2, fun h st' hr hi => ⟨fun _ => trivial, h st' hr hi⟩⟩

@[simp] theorem wp_executeNow (w : ω) (a : α) :
    C.Wp Q (Prog.executeNow w a : Prog σ ω ε α) seen st ↔
      ∀ st', C.rely st st' → C.inv st' → C.guard seen st' w → ∀ s n,
        Writes.apply w st' = .ok (s, n) → C.inv s ∧ C.guarantee st' s ∧ Q a seen s := by
  simp [Prog.executeNow]

@[simp] theorem wp_raiseIf (c : Prop) [Decidable c] (e : ε) {Q : Unit → List σ → σ → Prop} :
    C.Wp Q (Prog.raiseIf c e : Prog σ ω ε Unit) seen st ↔ (¬c → Q () seen st) := by
  by_cases hc : c <;> simp [Prog.raiseIf, hc]

@[simp] theorem wp_require (x : Option α) (e : ε) :
    C.Wp Q (Prog.require x e : Prog σ ω ε α) seen st ↔ ∀ a, x = some a → Q a seen st := by
  cases x <;> simp [Prog.require]

end rules

/-- A program alone on its connection: nothing comes between its statements. -/
theorem Wp.exec (hrely : ∀ st, C.rely st st) (hguard : ∀ seen st w, C.guard seen st w)
    {p : Prog σ ω ε α} {c : Conn σ} (h : C.Wp Q p seen c.view)
    (hv : C.inv c.view) (hc : C.inv c.committed) :
    C.inv (p.exec c).2.view ∧ C.inv (p.exec c).2.committed ∧
      ∀ a, (p.exec c).1 = .ok a → ∃ seen', Q a seen' (p.exec c).2.view := by
  induction p generalizing c seen with
  | ret a =>
    refine ⟨hv, hc, fun b hb => ?_⟩
    cases hb
    exact ⟨seen, h⟩
  | raise e => exact ⟨hv, hc, fun b hb => nomatch hb⟩
  | read k ih => exact ih _ (h _ (hrely _) hv).2 hv hc
  | write w k ih =>
    obtain ⟨herr, hok⟩ := h _ (hrely _) hv
    rcases happly : (Writes.apply w c.view : Except ε (σ × Nat)) with e | ⟨s, n⟩
    · simp only [Prog.exec, Conn.write, happly]
      exact ih _ (c := ⟨c.committed, some c.view⟩) (herr e) hv hc
    · obtain ⟨hs, -, hk⟩ := hok (hguard _ _ _) s n happly
      simp only [Prog.exec, Conn.write, happly]
      exact ih _ (c := ⟨c.committed, some s⟩) hk hs hc
  | commit k ih => exact ih _ (c := ⟨c.view, none⟩) h.2 hv hv
  | rollback p ih => exact ih (c := ⟨c.committed, none⟩) (h seen _ hc) hc hc

end Contract

end Quinn.Store
