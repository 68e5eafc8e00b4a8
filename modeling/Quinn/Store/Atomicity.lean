import Mathlib.Logic.Relation
import Quinn.Store.Connection

/-! What an enclosing transaction can still undo when each statement commits by itself: the
first statement, and nothing after it. -/

namespace Quinn.Store

variable {σ ω ε α β γ : Type}

section writes

variable [Writes ω σ ε]

/-- Some statement leads from one snapshot to the other. -/
def Wrote (ω : Type) [Writes ω σ ε] (s t : σ) : Prop :=
  ∃ (w : ω) (n : Nat), (Writes.apply w s : Except ε (σ × Nat)) = .ok (t, n)

def Accepted : List ω → σ → Prop
  | [], _ => True
  | w :: ws, s => ∃ t n, (Writes.apply w s : Except ε (σ × Nat)) = .ok (t, n) ∧ Accepted ws t

@[simp] theorem accepted_nil (s : σ) : Accepted ([] : List ω) s := trivial

end writes

namespace Prog

/-- One statement after the other, each committed at once. -/
def executeEach : List ω → α → Prog σ ω ε α
  | [], a => .ret a
  | w :: ws, a => (executeNow w ()).bind fun _ => executeEach ws a

theorem executeNow_eq (w : ω) (a : α) : (executeNow w a : Prog σ ω ε α) = executeEach [w] a := by
  simp only [executeEach, executeNow, bind_assoc, Prog.bind]

theorem executeEach_bind_executeEach (ws vs : List ω) (a : α) (b : β) (f : β → Prog σ ω ε γ) :
    ((executeEach ws a).bind fun _ => (executeEach vs b).bind f) =
      (executeEach (ws ++ vs) b).bind f := by
  induction ws with
  | nil => rfl
  | cons w ws ih => simp only [executeEach, List.cons_append, bind_assoc, ih]

variable [Writes ω σ ε] {e : ε} {n : Nat} {s : σ}

theorem run_executeEach_ok {ws : List ω} (a : α) (hn : 2 * ws.length ≤ n) (h : Accepted ws s) :
    ∃ t, (executeEach ws a).run ⟨s, none⟩ (failAt n e) =
      (.ok a, ⟨t, none⟩, failAt (n - 2 * ws.length) e) := by
  induction ws generalizing n s with
  | nil => exact ⟨s, rfl⟩
  | cons w ws ih =>
    obtain ⟨t, m, hw, hws⟩ := h
    obtain ⟨n, rfl⟩ : ∃ n', n = n' + 2 := ⟨n - 2, by simp at hn; omega⟩
    obtain ⟨u, hu⟩ := ih (n := n) (s := t) (by simp at hn; omega) hws
    refine ⟨u, ?_⟩
    have hlen : n + 2 - 2 * (w :: ws).length = n - 2 * ws.length := by
      rw [List.length_cons]
      omega
    rw [executeEach, run_bind, run_executeNow_ok e n ⟨s, none⟩ () hw, hlen]
    exact hu

theorem run_executeEach_error {ws : List ω} (a : α) (h : ¬(2 * ws.length ≤ n ∧ Accepted ws s)) :
    ∃ e' c ms, (executeEach ws a).run ⟨s, none⟩ (failAt n e) = (.error e', c, ms) ∧
      Relation.ReflTransGen (Wrote ω) s c.committed := by
  induction ws generalizing n s with
  | nil => exact absurd ⟨Nat.zero_le n, trivial⟩ h
  | cons w ws ih =>
    rw [executeEach, run_bind]
    rcases n with _ | n
    · exact ⟨_, _, _, by rw [run_executeNow_zero], .refl⟩
    rcases hw : (Writes.apply w s : Except ε (σ × Nat)) with e' | ⟨t, m⟩
    · exact ⟨_, _, _, by rw [run_executeNow_error e n ⟨s, none⟩ () hw], .refl⟩
    rcases n with _ | n
    · exact ⟨_, _, _, by rw [run_executeNow_one e ⟨s, none⟩ () hw], .refl⟩
    have hrest : ¬(2 * ws.length ≤ n ∧ Accepted ws t) := by
      rintro ⟨hn, hacc⟩
      exact h ⟨by simp; omega, t, m, hw, hacc⟩
    obtain ⟨e', c, ms, hrun, hc⟩ := ih hrest
    exact ⟨e', c, ms, by rw [run_executeNow_ok e n ⟨s, none⟩ () hw]; exact hrun, .head ⟨w, m, hw⟩ hc⟩

/-- If `p` raises when the statement numbered `n` fails, what is committed is as `Same` has it. -/
def Undone (Same : σ → Prop) (e : ε) (s : σ) (n : Nat) (p : Prog σ ω ε α) : Prop :=
  ∀ e', (p.run ⟨s, none⟩ (failAt n e)).1 = .error e' →
    Same (p.run ⟨s, none⟩ (failAt n e)).2.1.committed

variable {Same : σ → Prop}

theorem undone_raise (hs : Same s) (e' : ε) :
    Undone Same e s n (.raise e' : Prog σ ω ε α) := fun _ _ => hs

theorem undone_orRollback (p : Prog σ ω ε α) :
    Undone Same e s n p.orRollback ↔ Undone Same e s n p := by
  simp only [Undone, run_orRollback]
  rcases p.run ⟨s, none⟩ (failAt n e) with ⟨_ | a, c, ms⟩ <;> simp

theorem undone_bind_ret (p : Prog σ ω ε α) (f : α → β) :
    Undone Same e s n (p.bind fun a => .ret (f a)) ↔ Undone Same e s n p := by
  simp only [Undone, run_bind]
  rcases p.run ⟨s, none⟩ (failAt n e) with ⟨_ | a, c, ms⟩ <;> simp

theorem undone_raiseIf_bind (hs : Same s) (c : Prop) [Decidable c] (e' : ε)
    (f : Unit → Prog σ ω ε α) :
    Undone Same e s n ((raiseIf c e').bind f) ↔ (¬c → Undone Same e s n (f ())) := by
  by_cases hc : c
  · simpa [raiseIf, hc, Prog.bind] using undone_raise hs e'
  · simp [raiseIf, hc, Prog.bind]

theorem undone_require_bind (hs : Same s) (x : Option β) (e' : ε) (f : β → Prog σ ω ε α) :
    Undone Same e s n ((require x e').bind f) ↔ ∀ b, x = some b → Undone Same e s n (f b) := by
  rcases x with _ | b
  · simpa [require, Prog.bind] using undone_raise hs e'
  · simp [require, Prog.bind]

theorem undone_select_bind (hs : Same s) (q : σ → β) (f : β → Prog σ ω ε α) :
    Undone Same e s n ((select q).bind f) ↔ (n ≠ 0 → Undone Same e s (n - 1) (f (q s))) := by
  rcases n with _ | n
  · simpa [Undone, run_bind] using hs
  · simp [Undone, run_bind]

/-- Statements that each commit, at the end of a transaction: a failure is undone up to the
first commit, and only there if what the first statement did can still be seen after the rest. -/
theorem undone_executeEach (hs : Same s) {w : ω}
    (hmark : ∀ t m, (Writes.apply w s : Except ε (σ × Nat)) = .ok (t, m) →
      ∀ u, Relation.ReflTransGen (Wrote ω) t u → ¬Same u) (ws : List ω) (a : α) :
    Undone Same e s n ((executeEach (w :: ws) a).bind fun a => commitNow.bind fun _ => .ret a) ↔
      ¬Accepted [w] s ∨ n ≤ 1 ∨ (2 * (ws.length + 1) ≤ n ∧ Accepted (w :: ws) s) := by
  rw [Undone, run_bind]
  by_cases hall : 2 * (ws.length + 1) ≤ n ∧ Accepted (w :: ws) s
  · obtain ⟨t, ht⟩ := run_executeEach_ok (e := e) a hall.1 hall.2
    simp [ht, hall, run_bind]
  rcases n with _ | n
  · simpa [executeEach, run_bind] using hs
  rcases hw : (Writes.apply w s : Except ε (σ × Nat)) with e' | ⟨t, m⟩
  · simpa [executeEach, run_bind, run_executeNow_error e n ⟨s, none⟩ () hw, Accepted, hw] using hs
  rcases n with _ | n
  · simpa [executeEach, run_bind, run_executeNow_one e ⟨s, none⟩ () hw] using hs
  have hrest : ¬(2 * ws.length ≤ n ∧ Accepted ws t) := by
    rintro ⟨hn, hacc⟩
    exact hall ⟨by omega, t, m, hw, hacc⟩
  obtain ⟨e', c, ms, hrun, hc⟩ := run_executeEach_error (e := e) a hrest
  have hlost : ¬Same c.committed := hmark t m hw _ hc
  simp only [executeEach, run_bind, run_executeNow_ok e n ⟨s, none⟩ () hw, hrun]
  constructor
  · exact fun h => absurd (h e' rfl) hlost
  · rintro (hno | hfew | hmany)
    · exact absurd ⟨t, m, hw, trivial⟩ hno
    · omega
    · exact absurd hmany hall

end Prog

end Quinn.Store
