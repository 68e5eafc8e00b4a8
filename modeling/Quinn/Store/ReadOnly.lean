import Quinn.Store.Connection

/-! Programs that only read. -/

namespace Quinn.Store.Prog

variable {σ ω ε α β : Type}

def ReadOnly : Prog σ ω ε α → Prop
  | .ret _ => True
  | .raise _ => True
  | .read k => ∀ r, (k r).ReadOnly
  | .write _ _ => False
  | .commit _ => False
  | .rollback _ => False

@[simp] theorem readOnly_select (q : σ → α) : (select q : Prog σ ω ε α).ReadOnly := by
  intro r
  cases r <;> trivial

@[simp] theorem readOnly_raiseIf (c : Prop) [Decidable c] (e : ε) :
    (raiseIf c e : Prog σ ω ε Unit).ReadOnly := by
  unfold raiseIf
  split <;> trivial

@[simp] theorem readOnly_require (x : Option α) (e : ε) :
    (require x e : Prog σ ω ε α).ReadOnly := by
  cases x <;> trivial

theorem ReadOnly.bind {p : Prog σ ω ε α} {f : α → Prog σ ω ε β} (h : p.ReadOnly)
    (hf : ∀ a, (f a).ReadOnly) : (p.bind f).ReadOnly := by
  induction p with
  | ret a => exact hf a
  | raise e => trivial
  | read k ih => exact fun r => ih r (h r)
  | write w k ih => exact h.elim
  | commit k ih => exact h.elim
  | rollback p ih => exact h.elim

variable [Writes ω σ ε]

theorem ReadOnly.exec {p : Prog σ ω ε α} (h : p.ReadOnly) (c : Conn σ) : (p.exec c).2 = c := by
  induction p with
  | ret a => rfl
  | raise e => rfl
  | read k ih => exact ih _ (h _)
  | write w k ih => exact h.elim
  | commit k ih => exact h.elim
  | rollback p ih => exact h.elim

theorem ReadOnly.exec_fst {p : Prog σ ω ε α} (h : p.ReadOnly) {c c' : Conn σ}
    (hview : c.view = c'.view) : (p.exec c).1 = (p.exec c').1 := by
  induction p with
  | ret a => rfl
  | raise e => rfl
  | read k ih =>
    simp only [Prog.exec, hview]
    exact ih _ (h _)
  | write w k ih => exact h.elim
  | commit k ih => exact h.elim
  | rollback p ih => exact h.elim

theorem ReadOnly.bind_ok {p : Prog σ ω ε α} (h : p.ReadOnly) {f : α → Prog σ ω ε β} {c : Conn σ}
    {b : β} : ((p.bind f).exec c).1 = .ok b ↔ ∃ a, (p.exec c).1 = .ok a ∧ ((f a).exec c).1 = .ok b := by
  have hsame := h.exec c
  rw [exec_bind]
  cases hp : p.exec c with
  | mk r c' =>
    rw [hp] at hsame
    obtain rfl : c' = c := hsame
    cases r <;> simp

theorem raiseIf_ok (p : Prop) [Decidable p] (e : ε) (c : Conn σ) (u : Unit) :
    ((raiseIf p e : Prog σ ω ε Unit).exec c).1 = .ok u ↔ ¬p := by
  unfold raiseIf
  split <;> simp [*]

end Quinn.Store.Prog

/-! What a program that is alone on its connection returns, and the connection it leaves. -/

namespace Quinn.Store.Prog

variable {σ ω ε α β : Type} [Writes ω σ ε]

def Ensures (p : Prog σ ω ε α) (c : Conn σ) (Q : α → Conn σ → Prop) : Prop :=
  ∀ a c', p.exec c = (.ok a, c') → Q a c'

variable {p : Prog σ ω ε α} {c : Conn σ} {Q : α → Conn σ → Prop}

theorem Ensures.of_ok (h : p.Ensures c Q) {a : α} (hok : (p.exec c).1 = .ok a) : Q a (p.exec c).2 :=
  h a _ (Prod.ext hok rfl)

theorem Ensures.mono {Q' : α → Conn σ → Prop} (h : p.Ensures c Q) (hQ : ∀ a c', Q a c' → Q' a c') :
    p.Ensures c Q' := fun a c' hexec => hQ a c' (h a c' hexec)

theorem returns_iff : (∃ a, (p.exec c).1 = .ok a) ↔ ¬p.Ensures c fun _ _ => False := by
  constructor
  · rintro ⟨a, hok⟩ h
    exact h.of_ok hok
  · intro h
    refine Classical.byContradiction fun hnone => h fun a c' hexec => ?_
    exact hnone ⟨a, congrArg Prod.fst hexec⟩

@[simp] theorem ensures_ret (a : α) : (ret a : Prog σ ω ε α).Ensures c Q ↔ Q a c := by
  constructor
  · exact fun h => h a c rfl
  · rintro h _ _ ⟨⟩
    exact h

@[simp] theorem ensures_raise (e : ε) : (raise e : Prog σ ω ε α).Ensures c Q := by
  rintro _ _ ⟨⟩

@[simp] theorem ensures_bind (f : α → Prog σ ω ε β) {Q : β → Conn σ → Prop} :
    (p.bind f).Ensures c Q ↔ p.Ensures c fun a c' => (f a).Ensures c' Q := by
  constructor
  · intro h a c' hp b c'' hf
    refine h b c'' ?_
    rw [exec_bind, hp]
    exact hf
  · intro h b c'' hexec
    rw [exec_bind] at hexec
    cases hp : p.exec c with
    | mk r c' =>
      rw [hp] at hexec
      cases r with
      | ok a => exact h a c' hp b c'' hexec
      | error e => cases hexec

@[simp] theorem ensures_select (q : σ → α) : (select q : Prog σ ω ε α).Ensures c Q ↔ Q (q c.view) c := by
  simp [Ensures]

@[simp] theorem ensures_raiseIf (b : Prop) [Decidable b] (e : ε) {Q : Unit → Conn σ → Prop} :
    (raiseIf b e : Prog σ ω ε Unit).Ensures c Q ↔ (¬b → Q () c) := by
  by_cases hb : b
  · simp [raiseIf, hb]
  · simp [raiseIf, hb]

@[simp] theorem ensures_require (x : Option α) (e : ε) :
    (require x e : Prog σ ω ε α).Ensures c Q ↔ ∀ a, x = some a → Q a c := by
  cases x with
  | none => simp [require]
  | some a => simp [require]

@[simp] theorem ensures_commitNow {Q : Unit → Conn σ → Prop} :
    (commitNow : Prog σ ω ε Unit).Ensures c Q ↔ Q () ⟨c.view, none⟩ := by
  simp only [Ensures, exec_commitNow]
  constructor
  · exact fun h => h () _ rfl
  · rintro h _ _ ⟨⟩
    exact h

@[simp] theorem ensures_executeNow (w : ω) (a : α) :
    (executeNow w a : Prog σ ω ε α).Ensures c Q ↔
      ∀ s n, (Writes.apply w c.view : Except ε (σ × Nat)) = .ok (s, n) → Q a ⟨s, none⟩ := by
  rw [Ensures, exec_executeNow]
  cases (Writes.apply w c.view : Except ε (σ × Nat)) with
  | error e => simp
  | ok r =>
    obtain ⟨s, n⟩ := r
    simp

theorem exec_orRollback_ok {a : α} {c' : Conn σ} :
    p.orRollback.exec c = (.ok a, c') ↔ p.exec c = (.ok a, c') := by
  induction p generalizing c with
  | ret b => rfl
  | raise e => simp [orRollback, exec]
  | read k ih => exact ih _
  | write w k ih => exact ih _
  | commit k ih => exact ih _
  | rollback p ih => exact ih

@[simp] theorem ensures_transaction :
    p.transaction.Ensures c Q ↔ p.Ensures c fun a c' => Q a ⟨c'.view, none⟩ := by
  have horRollback : p.transaction.Ensures c Q ↔ (p.bind fun a => commitNow.bind fun _ => .ret a).Ensures c Q :=
    forall₂_congr fun a c' => imp_congr_left exec_orRollback_ok
  simp [horRollback]

end Quinn.Store.Prog
