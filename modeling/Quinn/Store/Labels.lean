import Mathlib.Data.Option.Basic
import Quinn.Store.Sends

/-! Labels on write statements, and a store that keeps more than another.  What is kept besides changes
nothing in what the programs do, alone or on many connections. -/

namespace Quinn.Store

variable {σ τ ω ℓ ε α β : Type} (project : τ → σ)

namespace Prog

/-- The program on the larger store, each of its statements with the same label. -/
def label (l : ℓ) : Prog σ ω ε α → Prog τ (ℓ × ω) ε α
  | .ret a => .ret a
  | .raise e => .raise e
  | .read k => .read fun r => (k (r.map project)).label l
  | .write w k => .write (l, w) fun r => (k r).label l
  | .commit k => .commit fun r => (k r).label l
  | .rollback p => .rollback (p.label l)

/-- Two programs do the same, statement by statement, if nobody looks at labels and at what else is kept. -/
inductive Reads : Prog τ (ℓ × ω) ε α → Prog σ ω ε α → Prop
  | ret (a : α) : Reads (.ret a) (.ret a)
  | raise (e : ε) : Reads (.raise e) (.raise e)
  | read {k k'} (h : ∀ r, Reads (k r) (k' (r.map project))) : Reads (.read k) (.read k')
  | write (l : ℓ) (w : ω) {k k'} (h : ∀ r, Reads (k r) (k' r)) : Reads (.write (l, w) k) (.write w k')
  | commit {k k'} (h : ∀ r, Reads (k r) (k' r)) : Reads (.commit k) (.commit k')
  | rollback {p p'} (h : Reads p p') : Reads (.rollback p) (.rollback p')

variable {project}

theorem reads_label (l : ℓ) (p : Prog σ ω ε α) : Reads project (p.label project l) p := by
  induction p with
  | ret a => exact .ret a
  | raise e => exact .raise e
  | read k ih => exact .read fun r => ih _
  | write w k ih => exact .write l w ih
  | commit k ih => exact .commit ih
  | rollback p ih => exact .rollback ih

theorem Reads.bind {p : Prog τ (ℓ × ω) ε α} {p' : Prog σ ω ε α} {f : α → Prog τ (ℓ × ω) ε β}
    {f' : α → Prog σ ω ε β} (h : Reads project p p') (hf : ∀ a, Reads project (f a) (f' a)) :
    Reads project (p.bind f) (p'.bind f') := by
  induction h with
  | ret a => exact hf a
  | raise e => exact .raise e
  | read h ih => exact .read ih
  | write l w h ih => exact .write l w ih
  | commit h ih => exact .commit ih
  | rollback h ih => exact .rollback ih

theorem reads_execute (l : ℓ) (w : ω) :
    Reads project (execute (l, w) : Prog τ (ℓ × ω) ε Nat) (execute w) := by
  apply Reads.write
  intro r
  cases r with
  | ok n => exact .ret n
  | error e => exact .raise e

theorem reads_commitNow : Reads project (commitNow : Prog τ (ℓ × ω) ε Unit) commitNow := by
  apply Reads.commit
  intro r
  cases r with
  | ok u => exact .ret u
  | error e => exact .raise e

theorem sends_label {P : ℓ × ω → Prop} {l : ℓ} {p : Prog σ ω ε α} (h : p.Sends fun w => P (l, w)) :
    (p.label project l).Sends P := by
  induction p with
  | ret a => trivial
  | raise e => trivial
  | read k ih => exact fun r => ih _ (h _)
  | write w k ih => exact ⟨h.1, fun r => ih r (h.2 r)⟩
  | commit k ih => exact fun r => ih r (h r)
  | rollback p ih => exact ih h

end Prog

def Event.map {ι ο ο' : Type} (f : ο' → ο) : Event ι ο' ε → Event ι ο ε
  | .call i op => .call i (f op)
  | .step i => .step i
  | .fail i e => .fail i e

namespace Sys

variable {ι ο ο' : Type} [DecidableEq ι]

/-- The states of two systems that differ in labels and in what else is kept. -/
structure Shows (s : Sys ι ο' τ (ℓ × ω) ε) (t : Sys ι ο σ ω ε) : Prop where
  committed : project s.committed = t.committed
  writer : s.writer.map (Prod.map id project) = t.writer
  procs : ∀ i, Option.Rel (fun P Q => P.prog.Reads project Q.prog) (s.procs i) (t.procs i)

variable {project} {s : Sys ι ο' τ (ℓ × ω) ε} {t : Sys ι ο σ ω ε} {i : ι}

theorem Shows.view (h : s.Shows project t) (i : ι) : project (s.view i) = t.view i := by
  rw [Sys.view, Sys.view, ← h.writer]
  rcases s.writer with - | ⟨j, u⟩
  · exact h.committed
  · simp only [Option.map_some, Prod.map, id]
    split
    · rfl
    · exact h.committed

omit [DecidableEq ι] in
theorem Shows.mayWrite (h : s.Shows project t) : s.MayWrite i ↔ t.MayWrite i := by
  rw [MayWrite, MayWrite, ← h.writer]
  rcases s.writer with - | ⟨j, u⟩
  · simp
  · simp

theorem Shows.setProc (h : s.Shows project t) {P : Option (Proc ο' τ (ℓ × ω) ε)} {Q : Option (Proc ο σ ω ε)}
    (hPQ : Option.Rel (fun P Q => P.prog.Reads project Q.prog) P Q) :
    (s.setProc i P).Shows project (t.setProc i Q) where
  committed := h.committed
  writer := h.writer
  procs j := by
    rcases eq_or_ne j i with rfl | hne
    · rwa [procs_setProc_self, procs_setProc_self]
    · rw [procs_setProc_of_ne _ hne, procs_setProc_of_ne _ hne]
      exact h.procs j

omit [DecidableEq ι] in
theorem Shows.procs_cases (h : s.Shows project t) (i : ι) : (s.procs i = none ∧ t.procs i = none) ∨
    ∃ P Q, s.procs i = some P ∧ t.procs i = some Q ∧ P.prog.Reads project Q.prog := by
  have hi := h.procs i
  generalize hs : s.procs i = x at hi
  generalize ht : t.procs i = y at hi
  cases hi with
  | none => exact .inl ⟨rfl, rfl⟩
  | some hPQ => exact .inr ⟨_, _, rfl, rfl, hPQ⟩

omit [DecidableEq ι] in
theorem Shows.write (h : s.Shows project t) {u : τ} {v : σ} (huv : project u = v) :
    Shows project { s with writer := some (i, u) } { t with writer := some (i, v) } :=
  ⟨h.committed, huv ▸ rfl, h.procs⟩

theorem Shows.commit (h : s.Shows project t) (i : ι) : (s.commit i).Shows project (t.commit i) := by
  have hwriter := h.writer
  rcases hs : s.writer with - | ⟨j, u⟩
  · rw [hs] at hwriter
    rwa [Sys.commit, Sys.commit, hs, ← hwriter]
  · rw [hs] at hwriter
    simp only [Sys.commit, hs, ← hwriter, Option.map_some, Prod.map, id]
    split
    · exact ⟨rfl, rfl, h.procs⟩
    · exact h

theorem Shows.rollback (h : s.Shows project t) (i : ι) : (s.rollback i).Shows project (t.rollback i) := by
  have hwriter := h.writer
  rcases hs : s.writer with - | ⟨j, u⟩
  · rw [hs] at hwriter
    rwa [Sys.rollback, Sys.rollback, hs, ← hwriter]
  · rw [hs] at hwriter
    simp only [Sys.rollback, hs, ← hwriter, Option.map_some, Prod.map, id]
    split
    · exact ⟨h.committed, rfl, h.procs⟩
    · exact h

section runs

variable [Writes ω σ ε] [Writes (ℓ × ω) τ ε]
  (happly : ∀ (l : ℓ) (w : ω) (s : τ), (Writes.apply (l, w) s : Except ε (τ × Nat)).map (Prod.map project id) =
    Writes.apply w (project s))

include happly

theorem Shows.next (h : s.Shows project t) {P : Proc ο' τ (ℓ × ω) ε} {Q : Proc ο σ ω ε}
    (hPQ : P.prog.Reads project Q.prog) : (s.next i P).Shows project (t.next i Q) := by
  obtain ⟨op, prog, seen⟩ := P
  obtain ⟨op', prog', seen'⟩ := Q
  cases hPQ with
  | ret a => exact h.setProc .none
  | raise e => exact h.setProc .none
  | read hk =>
    apply h.setProc
    rw [← h.view i]
    exact .some (hk _)
  | write l w hk =>
    have hsame := happly l w (s.view i)
    rw [h.view i] at hsame
    simp only [Sys.next, h.mayWrite]
    split
    · cases hw : (Writes.apply (l, w) (s.view i) : Except ε (τ × Nat)) with
      | ok r =>
        rw [hw] at hsame
        rw [← hsame]
        exact (h.write rfl).setProc (.some (hk _))
      | error e =>
        rw [hw] at hsame
        rw [← hsame]
        exact (h.write (h.view i)).setProc (.some (hk _))
    · exact h
  | commit hk => exact (h.commit i).setProc (.some (hk _))
  | rollback hp => exact (h.rollback i).setProc (.some hp)

omit happly [Writes ω σ ε] [Writes (ℓ × ω) τ ε] in
theorem Shows.failNext (h : s.Shows project t) {P : Proc ο' τ (ℓ × ω) ε} {Q : Proc ο σ ω ε}
    (hPQ : P.prog.Reads project Q.prog) (e : ε) : (s.failNext i P e).Shows project (t.failNext i Q e) := by
  obtain ⟨op, prog, seen⟩ := P
  obtain ⟨op', prog', seen'⟩ := Q
  cases hPQ with
  | ret a => exact h
  | raise e => exact h
  | read hk => exact h.setProc (.some (hk (.error e)))
  | write l w hk => exact h.setProc (.some (hk _))
  | commit hk => exact h.setProc (.some (hk _))
  | rollback hp => exact h

variable {body' : ο' → Prog τ (ℓ × ω) ε Unit} {body : ο → Prog σ ω ε Unit} {f : ο' → ο}
  (hbody : ∀ op, (body' op).Reads project (body (f op)))

include hbody

theorem Shows.step (h : s.Shows project t) (e : Event ι ο' ε) :
    (s.step body' e).Shows project (t.step body (e.map f)) := by
  cases e with
  | call i op =>
    obtain ⟨hs, ht⟩ | ⟨P, Q, hs, ht, hPQ⟩ := h.procs_cases i
    · simp only [Sys.step, Event.map, hs, ht]
      exact h.setProc (.some (hbody op))
    · simpa only [Sys.step, Event.map, hs, ht] using h
  | step i =>
    obtain ⟨hs, ht⟩ | ⟨P, Q, hs, ht, hPQ⟩ := h.procs_cases i
    · simpa only [Sys.step, Event.map, hs, ht] using h
    · simpa only [Sys.step, Event.map, hs, ht] using h.next happly hPQ
  | fail i e =>
    obtain ⟨hs, ht⟩ | ⟨P, Q, hs, ht, hPQ⟩ := h.procs_cases i
    · simpa only [Sys.step, Event.map, hs, ht] using h
    · simpa only [Sys.step, Event.map, hs, ht] using h.failNext hPQ e

theorem Shows.run (h : s.Shows project t) (events : List (Event ι ο' ε)) :
    (s.run body' events).Shows project (t.run body (events.map (Event.map f))) := by
  induction events generalizing s t with
  | nil => exact h
  | cons e events ih => exact ih (h.step happly hbody e)

end runs

end Sys

end Quinn.Store
