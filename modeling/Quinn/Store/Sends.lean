import Quinn.Store.Interleaving
import Quinn.Store.ReadOnly

/-! What all the write statements of a program have in common. -/

namespace Quinn.Store

variable {σ ω ε α β : Type} {P : ω → Prop}

namespace Prog

/-- Every write the program may come to send satisfies `P`. -/
def Sends (P : ω → Prop) : Prog σ ω ε α → Prop
  | .ret _ => True
  | .raise _ => True
  | .read k => ∀ r, (k r).Sends P
  | .write w k => P w ∧ ∀ r, (k r).Sends P
  | .commit k => ∀ r, (k r).Sends P
  | .rollback p => p.Sends P

theorem Sends.mono {P' : ω → Prop} {p : Prog σ ω ε α} (h : p.Sends P) (himp : ∀ w, P w → P' w) : p.Sends P' := by
  induction p with
  | ret a => trivial
  | raise e => trivial
  | read k ih => exact fun r => ih r (h r)
  | write w k ih => exact ⟨himp w h.1, fun r => ih r (h.2 r)⟩
  | commit k ih => exact fun r => ih r (h r)
  | rollback p ih => exact ih h

theorem Sends.bind {p : Prog σ ω ε α} {f : α → Prog σ ω ε β} (h : p.Sends P)
    (hf : ∀ a, (f a).Sends P) : (p.bind f).Sends P := by
  induction p with
  | ret a => exact hf a
  | raise e => trivial
  | read k ih => exact fun r => ih r (h r)
  | write w k ih => exact ⟨h.1, fun r => ih r (h.2 r)⟩
  | commit k ih => exact fun r => ih r (h r)
  | rollback p ih => exact ih h

theorem ReadOnly.sends {p : Prog σ ω ε α} (h : p.ReadOnly) : p.Sends P := by
  induction p with
  | ret a => trivial
  | raise e => trivial
  | read k ih => exact fun r => ih r (h r)
  | write w k ih => exact h.elim
  | commit k ih => exact h.elim
  | rollback p ih => exact h.elim

theorem sends_execute {w : ω} (hw : P w) : (execute w : Prog σ ω ε Nat).Sends P := by
  refine ⟨hw, fun r => ?_⟩
  cases r <;> trivial

theorem sends_commitNow : (commitNow : Prog σ ω ε Unit).Sends P := by
  intro r
  cases r <;> trivial

theorem Sends.wp [Writes ω σ ε] {C : Contract σ ω}
    (hP : ∀ w, P w → ∀ s s' n, C.inv s → Writes.apply w s = .ok (s', n) →
      C.inv s' ∧ C.guarantee s s')
    {p : Prog σ ω ε α} (h : p.Sends P) (seen : List σ) (st : σ) :
    C.Wp (fun _ _ _ => True) p seen st := by
  induction p generalizing seen st with
  | ret a => trivial
  | raise e => trivial
  | read k ih => exact fun st' _ _ => ⟨fun e => ih _ (h _) _ _, ih _ (h _) _ _⟩
  | write w k ih =>
    refine fun st' _ hi => ⟨fun e => ih _ (h.2 _) _ _, fun _ s n happly => ?_⟩
    obtain ⟨hs, hrel⟩ := hP w h.1 st' s n hi happly
    exact ⟨hs, hrel, ih _ (h.2 _) _ _⟩
  | commit k ih => exact ⟨fun e => ih _ (h _) _ _, ih _ (h _) _ _⟩
  | rollback p ih => exact fun seen' st' _ => ih h _ _

theorem Sends.exec [Writes ω σ ε] (inv : σ → Prop)
    (hP : ∀ w, P w → ∀ s s' n, inv s → (Writes.apply w s : Except ε (σ × Nat)) = .ok (s', n) → inv s')
    {p : Prog σ ω ε α} (h : p.Sends P) {c : Conn σ} (hv : inv c.view) (hc : inv c.committed) :
    inv (p.exec c).2.view ∧ inv (p.exec c).2.committed := by
  let C : Contract σ ω :=
    { inv, rely := fun _ _ => True, guarantee := fun _ _ => True, guard := fun _ _ _ => True }
  have hwp : C.Wp (fun _ _ _ => True) p [] c.view :=
    h.wp (fun w hw s s' n hs happly => ⟨hP w hw s s' n hs happly, trivial⟩) [] c.view
  have hexec := hwp.exec (fun _ => trivial) (fun _ _ _ => trivial) hv hc
  exact ⟨hexec.1, hexec.2.1⟩

end Prog

namespace Protocol

variable {ι ο : Type} [DecidableEq ι] [Writes ω σ ε] {R : Protocol ο σ ω}

theorem allowsRun_of_guard (h : ∀ op seen st w, R.guard op seen st w) (body : ο → Prog σ ω ε Unit)
    (s : Sys ι ο σ ω ε) (events : List (Event ι ο ε)) : R.AllowsRun body s events := by
  induction events generalizing s with
  | nil => trivial
  | cons e es ih =>
    refine ⟨?_, ih _⟩
    cases e with
    | step i =>
      simp only [Allows]
      split
      · exact fun _ => h _ _ _ _
      · trivial
    | call i op => trivial
    | fail i e => trivial

end Protocol

end Quinn.Store
