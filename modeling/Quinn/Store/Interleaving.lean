import Mathlib.Logic.Function.Basic
import Quinn.Store.Logic

/-! Many connections on one store, their statements interleaved in any order.  A write takes
the write lock and a commit gives it back; reads take no lock at all. -/

namespace Quinn.Store

/-- A connection at work on an operation; `seen` are the snapshots its reads have
returned, the latest first. -/
structure Proc (ο σ ω ε : Type) where
  op : ο
  prog : Prog σ ω ε Unit
  seen : List σ := []

/-- `writer` holds the write lock, with what its open transaction has made of the store. -/
structure Sys (ι ο σ ω ε : Type) where
  committed : σ
  writer : Option (ι × σ) := none
  procs : ι → Option (Proc ο σ ω ε) := fun _ => none

inductive Event (ι ο ε : Type)
  | call (i : ι) (op : ο)
  | step (i : ι)
  /-- the next statement fails, or gives up waiting for the lock -/
  | fail (i : ι) (e : ε)

namespace Sys

variable {ι ο σ ω ε : Type} [DecidableEq ι]

def view (s : Sys ι ο σ ω ε) (i : ι) : σ :=
  match s.writer with
  | some (j, t) => if j = i then t else s.committed
  | none => s.committed

def MayWrite (s : Sys ι ο σ ω ε) (i : ι) : Prop := ∀ h ∈ s.writer, h.1 = i

instance (s : Sys ι ο σ ω ε) (i : ι) : Decidable (s.MayWrite i) := by
  unfold MayWrite
  infer_instance

def setProc (s : Sys ι ο σ ω ε) (i : ι) (P : Option (Proc ο σ ω ε)) : Sys ι ο σ ω ε :=
  { s with procs := Function.update s.procs i P }

def commit (s : Sys ι ο σ ω ε) (i : ι) : Sys ι ο σ ω ε :=
  match s.writer with
  | some (j, t) => if j = i then { s with committed := t, writer := none } else s
  | none => s

def rollback (s : Sys ι ο σ ω ε) (i : ι) : Sys ι ο σ ω ε :=
  match s.writer with
  | some (j, _) => if j = i then { s with writer := none } else s
  | none => s

theorem view_self {s : Sys ι ο σ ω ε} (h : s.writer = some (i, t)) : s.view i = t := by
  simp [view, h]

theorem view_of_ne {s : Sys ι ο σ ω ε} (h : s.writer = some (j, t)) (hji : j ≠ i) :
    s.view i = s.committed := by
  simp [view, h, hji]

theorem view_of_none {s : Sys ι ο σ ω ε} (h : s.writer = none) : s.view i = s.committed := by
  simp [view, h]

@[simp] theorem procs_setProc_self (s : Sys ι ο σ ω ε) (i : ι) (P : Option (Proc ο σ ω ε)) :
    (s.setProc i P).procs i = P := by
  simp [setProc]

theorem procs_setProc_of_ne (s : Sys ι ο σ ω ε) {i j : ι} (h : j ≠ i)
    (P : Option (Proc ο σ ω ε)) : (s.setProc i P).procs j = s.procs j := by
  simp [setProc, h]

variable [Writes ω σ ε]

/-- The next statement of connection `i`. -/
def next (s : Sys ι ο σ ω ε) (i : ι) (P : Proc ο σ ω ε) : Sys ι ο σ ω ε :=
  match P.prog with
  | .ret _ => s.setProc i none
  | .raise _ => s.setProc i none
  | .read k => s.setProc i (some { P with prog := k (.ok (s.view i)), seen := s.view i :: P.seen })
  | .write w k =>
    if s.MayWrite i then
      match (Writes.apply w (s.view i) : Except ε (σ × Nat)) with
      | .ok (t, n) =>
        { s with writer := some (i, t) }.setProc i (some { P with prog := k (.ok n) })
      | .error e =>
        { s with writer := some (i, s.view i) }.setProc i (some { P with prog := k (.error e) })
    else s
  | .commit k => (s.commit i).setProc i (some { P with prog := k (.ok ()) })
  | .rollback p => (s.rollback i).setProc i (some { P with prog := p })

def failNext (s : Sys ι ο σ ω ε) (i : ι) (P : Proc ο σ ω ε) (e : ε) : Sys ι ο σ ω ε :=
  match P.prog with
  | .read k => s.setProc i (some { P with prog := k (.error e) })
  | .write _ k => s.setProc i (some { P with prog := k (.error e) })
  | .commit k => s.setProc i (some { P with prog := k (.error e) })
  | _ => s

omit [Writes ω σ ε] in
theorem committed_rollback (s : Sys ι ο σ ω ε) (i : ι) : (s.rollback i).committed = s.committed := by
  unfold rollback
  split
  · split <;> rfl
  · rfl

theorem committed_next (s : Sys ι ο σ ω ε) (i : ι) (P : Proc ο σ ω ε) :
    (s.next i P).committed = s.committed ∨ (s.next i P).committed = (s.commit i).committed := by
  obtain ⟨op, prog, seen⟩ := P
  cases prog with
  | write w k =>
    left
    simp only [next]
    split
    · split <;> rfl
    · rfl
  | commit k => exact .inr rfl
  | rollback p => exact .inl (committed_rollback s i)
  | ret a => exact .inl rfl
  | raise e => exact .inl rfl
  | read k => exact .inl rfl

omit [Writes ω σ ε] in
theorem committed_failNext (s : Sys ι ο σ ω ε) (i : ι) (P : Proc ο σ ω ε) (e : ε) :
    (s.failNext i P e).committed = s.committed := by
  obtain ⟨op, prog, seen⟩ := P
  cases prog <;> rfl

/-- A connection that is at work takes no call, and one that is not has nothing to do. -/
def step (body : ο → Prog σ ω ε Unit) (s : Sys ι ο σ ω ε) : Event ι ο ε → Sys ι ο σ ω ε
  | .call i op =>
    match s.procs i with
    | some _ => s
    | none => s.setProc i (some { op, prog := body op })
  | .step i =>
    match s.procs i with
    | some P => s.next i P
    | none => s
  | .fail i e =>
    match s.procs i with
    | some P => s.failNext i P e
    | none => s

def run (body : ο → Prog σ ω ε Unit) (s : Sys ι ο σ ω ε) (events : List (Event ι ο ε)) :
    Sys ι ο σ ω ε :=
  events.foldl (step body) s

end Sys

/-- An invariant, what every write may do to the store, and what is asked of each write that
is sent: given the operation, the snapshots it has read and the store it writes to. -/
structure Protocol (ο σ ω : Type) where
  inv : σ → Prop
  rel : σ → σ → Prop
  guard : ο → List σ → σ → ω → Prop
  refl : ∀ s, rel s s
  trans : ∀ {s t u}, rel s t → rel t u → rel s u

namespace Protocol

variable {ι ο σ ω ε : Type} [DecidableEq ι] [Writes ω σ ε]

def contract (R : Protocol ο σ ω) (op : ο) : Contract σ ω where
  inv := R.inv
  rely := R.rel
  guarantee := R.rel
  guard := R.guard op

def Allows (R : Protocol ο σ ω) (s : Sys ι ο σ ω ε) : Event ι ο ε → Prop
  | .step i =>
    match s.procs i with
    | some ⟨op, .write w _, seen⟩ => s.MayWrite i → R.guard op seen (s.view i) w
    | _ => True
  | _ => True

/-- Every event of a run meets the guard in the state it happens in. -/
def AllowsRun (R : Protocol ο σ ω) (body : ο → Prog σ ω ε Unit) :
    Sys ι ο σ ω ε → List (Event ι ο ε) → Prop
  | _, [] => True
  | s, e :: es => R.Allows s e ∧ R.AllowsRun body (s.step body e) es

section decidable

variable (R : Protocol ο σ ω) [∀ op seen st w, Decidable (R.guard op seen st w)]

instance (s : Sys ι ο σ ω ε) (e : Event ι ο ε) : Decidable (R.Allows s e) := by
  unfold Allows
  split
  · split <;> infer_instance
  · infer_instance

instance decidableAllowsRun (body : ο → Prog σ ω ε Unit) (s : Sys ι ο σ ω ε) :
    ∀ events, Decidable (R.AllowsRun body s events)
  | [] => inferInstanceAs (Decidable True)
  | e :: es =>
    have := decidableAllowsRun body (s.step body e) es
    inferInstanceAs (Decidable (R.Allows s e ∧ R.AllowsRun body (s.step body e) es))

end decidable

/-- The state of an interleaving, as far as the protocol is concerned. -/
structure Sound (R : Protocol ο σ ω) (s : Sys ι ο σ ω ε) : Prop where
  committed : R.inv s.committed
  writer : ∀ j t, s.writer = some (j, t) → R.inv t ∧ R.rel s.committed t
  procs : ∀ i P, s.procs i = some P → ∃ st, R.rel st (s.view i) ∧
    (R.contract P.op).Wp (fun _ _ _ => True) P.prog P.seen st

variable {R : Protocol ο σ ω} {s : Sys ι ο σ ω ε} {i : ι} {P : Proc ο σ ω ε}

theorem Sound.view (h : R.Sound s) (i : ι) : R.inv (s.view i) ∧ R.rel s.committed (s.view i) := by
  rcases hw : s.writer with _ | ⟨j, t⟩
  · rw [Sys.view_of_none hw]
    exact ⟨h.committed, R.refl _⟩
  · by_cases hji : j = i
    · subst hji
      rw [Sys.view_self hw]
      exact h.writer j t hw
    · rw [Sys.view_of_ne hw hji]
      exact ⟨h.committed, R.refl _⟩

theorem Sound.setProc (h : R.Sound s) {P' : Option (Proc ο σ ω ε)}
    (hP : ∀ P ∈ P', ∃ st, R.rel st (s.view i) ∧
      (R.contract P.op).Wp (fun _ _ _ => True) P.prog P.seen st) : R.Sound (s.setProc i P') where
  committed := h.committed
  writer := h.writer
  procs := by
    intro j P hj
    by_cases hji : j = i
    · subst hji
      rw [Sys.procs_setProc_self] at hj
      exact hP P hj
    · rw [Sys.procs_setProc_of_ne s hji] at hj
      exact h.procs j P hj

/-- The holder of the lock writes; the others still see what is committed. -/
theorem Sound.write (h : R.Sound s) (hi : s.MayWrite i) {t : σ} (ht : R.inv t)
    (hrel : R.rel (s.view i) t) : R.Sound { s with writer := some (i, t) } where
  committed := h.committed
  writer := by
    intro j t' hw
    cases hw
    exact ⟨ht, R.trans (h.view _).2 hrel⟩
  procs := by
    intro j P hj
    obtain ⟨st, hst, hwp⟩ := h.procs j P hj
    refine ⟨st, ?_, hwp⟩
    by_cases hij : i = j
    · subst hij
      rw [Sys.view_self rfl]
      exact R.trans hst hrel
    · have hview : s.view j = s.committed := by
        rcases hw : s.writer with _ | ⟨k, t'⟩
        · exact Sys.view_of_none hw
        · have hk : k = i := hi _ hw
          exact Sys.view_of_ne hw (by rw [hk]; exact hij)
      rw [Sys.view_of_ne rfl hij]
      rw [hview] at hst
      exact hst

theorem Sound.commit (h : R.Sound s) (i : ι) :
    R.Sound (s.commit i) ∧ (s.commit i).view i = s.view i := by
  rcases hw : s.writer with _ | ⟨j, t⟩
  · simp only [Sys.commit, hw]
    exact ⟨h, trivial⟩
  by_cases hji : j = i
  · simp only [Sys.commit, hw, hji, if_true]
    rw [hji] at hw
    obtain ⟨ht, hrel⟩ := h.writer i t hw
    refine ⟨⟨ht, by simp, fun k P hk => ?_⟩, ?_⟩
    · obtain ⟨st, hst, hwp⟩ := h.procs k P hk
      refine ⟨st, ?_, hwp⟩
      rw [Sys.view_of_none rfl]
      by_cases hik : i = k
      · subst hik
        rwa [Sys.view_self hw] at hst
      · rw [Sys.view_of_ne hw hik] at hst
        exact R.trans hst hrel
    · rw [Sys.view_of_none rfl, Sys.view_self hw]
  · simp only [Sys.commit, hw, hji, if_false]
    exact ⟨h, trivial⟩

theorem Sound.rollback (h : R.Sound s)
    (hP : ∀ P', s.procs i = some P' → ∀ st, R.inv st →
      (R.contract P'.op).Wp (fun _ _ _ => True) P'.prog P'.seen st) : R.Sound (s.rollback i) := by
  rcases hw : s.writer with _ | ⟨j, t⟩
  · simpa only [Sys.rollback, hw] using h
  by_cases hji : j = i
  · simp only [Sys.rollback, hw, hji, if_true]
    rw [hji] at hw
    refine ⟨h.committed, by simp, fun k P hk => ?_⟩
    rw [Sys.view_of_none rfl]
    by_cases hik : i = k
    · subst hik
      exact ⟨s.committed, R.refl _, hP P hk _ h.committed⟩
    · obtain ⟨st, hst, hwp⟩ := h.procs k P hk
      rw [Sys.view_of_ne hw hik] at hst
      exact ⟨st, hst, hwp⟩
  · simpa only [Sys.rollback, hw, hji, if_false] using h

theorem Sound.next (h : R.Sound s) (hP : s.procs i = some P) (hallow : R.Allows s (.step i)) :
    R.Sound (s.next i P) := by
  obtain ⟨st, hst, hwp⟩ := h.procs i P hP
  obtain ⟨op, prog, seen⟩ := P
  have hview := (h.view i).1
  cases prog with
  | ret a => exact h.setProc nofun
  | raise e => exact h.setProc nofun
  | read k =>
    refine h.setProc fun P' hP' => ?_
    cases hP'
    exact ⟨s.view i, R.refl _, (hwp _ hst hview).2⟩
  | write w k =>
    obtain ⟨herr, hok⟩ := hwp _ hst hview
    by_cases hmay : s.MayWrite i
    · rcases happly : (Writes.apply w (s.view i) : Except ε (σ × Nat)) with e | ⟨t, n⟩
      · simp only [Sys.next, hmay, if_true, happly]
        have hw := h.write hmay hview (R.refl _)
        refine hw.setProc fun P' hP' => ?_
        cases hP'
        exact ⟨s.view i, by simpa [Sys.view] using R.refl _, herr e⟩
      · simp only [Sys.next, hmay, if_true, happly]
        simp only [Allows, hP] at hallow
        obtain ⟨ht, hrel, hk⟩ := hok (hallow hmay) t n happly
        have hw := h.write hmay ht hrel
        refine hw.setProc fun P' hP' => ?_
        cases hP'
        exact ⟨t, by rw [Sys.view_self rfl]; exact R.refl _, hk⟩
    · simpa only [Sys.next, hmay, if_false] using h
  | commit k =>
    obtain ⟨hc, hsame⟩ := h.commit i
    refine hc.setProc fun P' hP' => ?_
    cases hP'
    exact ⟨st, by rw [hsame]; exact hst, hwp.2⟩
  | rollback p =>
    have hr : R.Sound (s.rollback i) := by
      refine h.rollback fun P' hP' st' _ => ?_
      rw [hP] at hP'
      cases hP'
      exact fun seen' st'' hi => hwp seen' st'' hi
    refine hr.setProc fun P' hP' => ?_
    cases hP'
    exact ⟨_, R.refl _, hwp seen _ (hr.view i).1⟩

theorem Sound.failNext (h : R.Sound s) (hP : s.procs i = some P) (e : ε) :
    R.Sound (s.failNext i P e) := by
  obtain ⟨st, hst, hwp⟩ := h.procs i P hP
  obtain ⟨op, prog, seen⟩ := P
  have hview := (h.view i).1
  cases prog with
  | ret a => exact h
  | raise e' => exact h
  | read k =>
    refine h.setProc fun P' hP' => ?_
    cases hP'
    exact ⟨s.view i, R.refl _, (hwp _ hst hview).1 e⟩
  | write w k =>
    refine h.setProc fun P' hP' => ?_
    cases hP'
    exact ⟨s.view i, R.refl _, (hwp _ hst hview).1 e⟩
  | commit k =>
    refine h.setProc fun P' hP' => ?_
    cases hP'
    exact ⟨st, hst, hwp.1 e⟩
  | rollback p => exact h

theorem Sound.commit_committed (h : R.Sound s) (i : ι) :
    R.rel s.committed (s.commit i).committed := by
  rcases hw : s.writer with _ | ⟨j, t⟩
  · simpa only [Sys.commit, hw] using R.refl _
  by_cases hji : j = i
  · simpa only [Sys.commit, hw, hji, if_true] using (h.writer j t hw).2
  · simpa only [Sys.commit, hw, hji, if_false] using R.refl _

theorem Sound.step_committed (h : R.Sound s) (body : ο → Prog σ ω ε Unit) (e : Event ι ο ε) :
    R.rel s.committed (s.step body e).committed := by
  cases e with
  | call i op =>
    rcases hp : s.procs i with _ | P <;> simp only [Sys.step, hp] <;> exact R.refl _
  | step i =>
    rcases hp : s.procs i with _ | P
    · simp only [Sys.step, hp]
      exact R.refl _
    · simp only [Sys.step, hp]
      rcases Sys.committed_next s i P with hsame | hcommit
      · rw [hsame]
        exact R.refl _
      · rw [hcommit]
        exact h.commit_committed i
  | fail i e =>
    rcases hp : s.procs i with _ | P
    · simp only [Sys.step, hp]
      exact R.refl _
    · simp only [Sys.step, hp, Sys.committed_failNext]
      exact R.refl _

section runs

variable {body : ο → Prog σ ω ε Unit}
  (hbody : ∀ op st, R.inv st → (R.contract op).Wp (fun _ _ _ => True) (body op) [] st)

include hbody

theorem Sound.step (h : R.Sound s) {e : Event ι ο ε} (hallow : R.Allows s e) :
    R.Sound (s.step body e) := by
  cases e with
  | call i op =>
    rcases hp : s.procs i with _ | P
    · simp only [Sys.step, hp]
      refine h.setProc fun P' hP' => ?_
      cases hP'
      exact ⟨s.view i, R.refl _, hbody op _ (h.view i).1⟩
    · simpa only [Sys.step, hp] using h
  | step i =>
    rcases hp : s.procs i with _ | P
    · simpa only [Sys.step, hp] using h
    · simpa only [Sys.step, hp] using h.next hp hallow
  | fail i e =>
    rcases hp : s.procs i with _ | P
    · simpa only [Sys.step, hp] using h
    · simpa only [Sys.step, hp] using h.failNext hp e

/-- Operations that keep their contracts one by one keep the invariant together. -/
theorem Sound.run (h : R.Sound s) {events : List (Event ι ο ε)}
    (hallow : R.AllowsRun body s events) : R.Sound (s.run body events) := by
  induction events generalizing s with
  | nil => exact h
  | cons e es ih => exact ih (h.step hbody hallow.1) hallow.2

theorem Sound.run_committed (h : R.Sound s) {events : List (Event ι ο ε)}
    (hallow : R.AllowsRun body s events) : R.rel s.committed (s.run body events).committed := by
  induction events generalizing s with
  | nil => exact R.refl _
  | cons e es ih => exact R.trans (h.step_committed body e) (ih (h.step hbody hallow.1) hallow.2)

end runs

theorem Sound.start {st : σ} (h : R.inv st) : R.Sound ({ committed := st } : Sys ι ο σ ω ε) :=
  ⟨h, nofun, nofun⟩

end Protocol

end Quinn.Store
