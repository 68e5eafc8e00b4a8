import Mathlib.Data.Finset.Card
import Mathlib.Data.Fintype.Card
import Quinn.Store.Sends

/-! A limit that is checked before the writes that it is about.  Nothing holds between the two, so that every
connection but one may go past it; none goes past it twice. -/

namespace Quinn.Store

variable {ι ο σ ω ε α β : Type}

namespace Prog

variable {P : ω → Prop} {Full : σ → Prop} {Q : α → Prop} {R : β → Prop}

/-- As long as it reads of nothing but full stores the program sends no write of `P`, and it returns what is `Q`. -/
def Barred (P : ω → Prop) (Full : σ → Prop) (Q : α → Prop) : Prog σ ω ε α → Prop
  | .ret a => Q a
  | .raise _ => True
  | .read k => ∀ r, (∀ s, r = .ok s → Full s) → (k r).Barred P Full Q
  | .write w k => ¬P w ∧ ∀ r, (k r).Barred P Full Q
  | .commit k => ∀ r, (k r).Barred P Full Q
  | .rollback p => p.Barred P Full Q

def Once (P : ω → Prop) : Prog σ ω ε α → Prop
  | .ret _ => True
  | .raise _ => True
  | .read k => ∀ r, (k r).Once P
  | .write w k => (P w → ∀ n, (k (.ok n)).Sends (¬P ·)) ∧ ∀ r, (k r).Once P
  | .commit k => ∀ r, (k r).Once P
  | .rollback p => p.Once P

theorem Sends.barred {p : Prog σ ω ε α} (h : p.Sends (¬P ·)) : p.Barred P Full fun _ => True := by
  induction p with
  | ret a => trivial
  | raise e => trivial
  | read k ih => exact fun r _ => ih r (h r)
  | write w k ih => exact ⟨h.1, fun r => ih r (h.2 r)⟩
  | commit k ih => exact fun r => ih r (h r)
  | rollback p ih => exact ih h

theorem Sends.once {p : Prog σ ω ε α} (h : p.Sends (¬P ·)) : p.Once P := by
  induction p with
  | ret a => trivial
  | raise e => trivial
  | read k ih => exact fun r => ih r (h r)
  | write w k ih => exact ⟨fun hw => absurd hw h.1, fun r => ih r (h.2 r)⟩
  | commit k ih => exact fun r => ih r (h r)
  | rollback p ih => exact ih h

theorem Barred.bind {p : Prog σ ω ε α} {f : α → Prog σ ω ε β} (h : p.Barred P Full Q)
    (hf : ∀ a, Q a → (f a).Barred P Full R) : (p.bind f).Barred P Full R := by
  induction p with
  | ret a => exact hf a h
  | raise e => trivial
  | read k ih => exact fun r hr => ih r (h r hr)
  | write w k ih => exact ⟨h.1, fun r => ih r (h.2 r)⟩
  | commit k ih => exact fun r => ih r (h r)
  | rollback p ih => exact ih h

theorem Sends.bind_once {p : Prog σ ω ε α} {f : α → Prog σ ω ε β} (h : p.Sends (¬P ·)) (hf : ∀ a, (f a).Once P) :
    (p.bind f).Once P := by
  induction p with
  | ret a => exact hf a
  | raise e => trivial
  | read k ih => exact fun r => ih r (h r)
  | write w k ih => exact ⟨fun hw => absurd hw h.1, fun r => ih r (h.2 r)⟩
  | commit k ih => exact fun r => ih r (h r)
  | rollback p ih => exact ih h

theorem Once.bind {p : Prog σ ω ε α} {f : α → Prog σ ω ε β} (h : p.Once P) (hf : ∀ a, (f a).Sends (¬P ·)) :
    (p.bind f).Once P := by
  induction p with
  | ret a => exact (hf a).once
  | raise e => trivial
  | read k ih => exact fun r => ih r (h r)
  | write w k ih => exact ⟨fun hw n => (h.1 hw n).bind hf, fun r => ih r (h.2 r)⟩
  | commit k ih => exact fun r => ih r (h r)
  | rollback p ih => exact ih h

theorem barred_select {q : σ → α} (h : ∀ s, Full s → Q (q s)) : (select q : Prog σ ω ε α).Barred P Full Q := by
  intro r hr
  cases r with
  | ok s => exact h s (hr s rfl)
  | error e => trivial

end Prog

/-- A limit on what is counted in the store; only the writes that are `Counted` add to it. -/
structure Quota (σ ω ε : Type) [Writes ω σ ε] where
  inv : σ → Prop
  count : σ → Nat
  max : Nat
  Sent : ω → Prop
  Counted : ω → Prop
  inv_apply : ∀ {w s t n}, Sent w → inv s → (Writes.apply w s : Except ε (σ × Nat)) = .ok (t, n) → inv t
  count_apply : ∀ {w s t n}, Sent w → inv s → (Writes.apply w s : Except ε (σ × Nat)) = .ok (t, n) →
    count s ≤ count t ∧ count t ≤ count s + 1 ∧ (¬Counted w → count t = count s)

namespace Quota

variable [Writes ω σ ε]

def Full (q : Quota σ ω ε) (s : σ) : Prop := q.inv s ∧ q.max ≤ q.count s

/-- The program checks the limit before its one write that counts. -/
structure Checked (q : Quota σ ω ε) (p : Prog σ ω ε α) : Prop where
  sends : p.Sends q.Sent
  once : p.Once q.Counted
  barred : p.Barred q.Counted q.Full fun _ => True

variable [DecidableEq ι] [Fintype ι] {q : Quota σ ω ε} {s : Sys ι ο σ ω ε} {i : ι} {P : Proc ο σ ω ε}

def Passed (q : Quota σ ω ε) (P : Option (Proc ο σ ω ε)) : Prop :=
  ∃ P' ∈ P, ¬P'.prog.Barred q.Counted q.Full fun _ => True

open Classical in
noncomputable def passed (q : Quota σ ω ε) (s : Sys ι ο σ ω ε) : Finset ι :=
  Finset.univ.filter fun i => q.Passed (s.procs i)

omit [DecidableEq ι] in
@[simp] theorem mem_passed : i ∈ q.passed s ↔ q.Passed (s.procs i) := by
  simp [passed]

/-- What the store comes to if the open transaction is committed. -/
def top (s : Sys ι ο σ ω ε) : σ := (s.writer.map Prod.snd).getD s.committed

open Classical in
/-- While what is committed leaves room, an open transaction has not filled it up further than its own check allowed;
from then on nobody passes. -/
structure Sound (q : Quota σ ω ε) (s : Sys ι ο σ ω ε) : Prop where
  committed : q.inv s.committed
  writer : ∀ i t, s.writer = some (i, t) → q.inv t ∧ q.count s.committed ≤ q.count t ∧
    (q.count s.committed < q.max → q.count t + (if i ∈ q.passed s then 1 else 0) ≤ q.max)
  procs : ∀ i, ∀ P ∈ s.procs i, P.prog.Sends q.Sent ∧ P.prog.Once q.Counted
  load : q.max ≤ q.count s.committed →
    q.count (top s) + (q.passed s).card ≤ q.max + (Fintype.card ι - 1)

theorem Sound.load_le (h : q.Sound s) : q.count (top s) + (q.passed s).card ≤ q.max + (Fintype.card ι - 1) := by
  classical
  by_cases hroom : q.count s.committed < q.max
  · have hcard := Finset.card_le_univ (q.passed s)
    cases hw : s.writer with
    | none =>
      have htop : top s = s.committed := by simp [top, hw]
      rw [htop]
      omega
    | some writer =>
      obtain ⟨j, t⟩ := writer
      have htop : top s = t := by simp [top, hw]
      have hle := (h.writer j t hw).2.2 hroom
      rw [htop]
      by_cases hj : j ∈ q.passed s
      · rw [if_pos hj] at hle
        omega
      · have hlt : (q.passed s).card < Fintype.card ι :=
          Finset.card_lt_univ_of_notMem hj
        rw [if_neg hj] at hle
        omega
  · exact h.load (Nat.le_of_not_lt hroom)

theorem Sound.view (h : q.Sound s) (i : ι) : q.inv (s.view i) ∧ q.count s.committed ≤ q.count (s.view i) := by
  cases hw : s.writer with
  | none =>
    rw [Sys.view_of_none hw]
    exact ⟨h.committed, le_rfl⟩
  | some writer =>
    obtain ⟨j, t⟩ := writer
    by_cases hji : j = i
    · subst hji
      rw [Sys.view_self hw]
      exact ⟨(h.writer j t hw).1, (h.writer j t hw).2.1⟩
    · rw [Sys.view_of_ne hw hji]
      exact ⟨h.committed, le_rfl⟩

omit [Fintype ι] [Writes ω σ ε] in
theorem view_eq_top (hi : s.MayWrite i) : s.view i = top s := by
  cases hw : s.writer with
  | none => rw [Sys.view_of_none hw, top, hw]; rfl
  | some writer =>
    obtain ⟨j, t⟩ := writer
    obtain rfl : j = i := hi _ hw
    rw [Sys.view_self hw, top, hw]
    rfl

theorem passed_setProc {P' : Option (Proc ο σ ω ε)} (hP : q.Passed P' → i ∈ q.passed s) :
    q.passed (s.setProc i P') ⊆ q.passed s := by
  intro j hj
  rw [mem_passed] at hj
  by_cases hji : j = i
  · subst hji
    rw [Sys.procs_setProc_self] at hj
    exact hP hj
  · rw [Sys.procs_setProc_of_ne s hji] at hj
    exact mem_passed.2 hj

theorem passed_setProc_erase {P' : Option (Proc ο σ ω ε)} (hP : ¬q.Passed P') :
    q.passed (s.setProc i P') ⊆ (q.passed s).erase i := by
  intro j hj
  rw [mem_passed] at hj
  by_cases hji : j = i
  · subst hji
    rw [Sys.procs_setProc_self] at hj
    exact absurd hj hP
  · rw [Sys.procs_setProc_of_ne s hji] at hj
    exact Finset.mem_erase.2 ⟨hji, mem_passed.2 hj⟩

theorem Sound.setProc (h : q.Sound s) {P' : Option (Proc ο σ ω ε)}
    (hP : ∀ P ∈ P', P.prog.Sends q.Sent ∧ P.prog.Once q.Counted) (hpassed : q.Passed P' → i ∈ q.passed s) :
    q.Sound (s.setProc i P') := by
  classical
  have hsub := passed_setProc hpassed
  refine ⟨h.committed, fun j t hw => ?_, fun j P hj => ?_, fun hfull => ?_⟩
  · obtain ⟨hinv, hle, hroom⟩ := h.writer j t hw
    refine ⟨hinv, hle, fun hlt => ?_⟩
    have hbound := hroom hlt
    split
    · next hj =>
      rw [if_pos (hsub hj)] at hbound
      exact hbound
    · split at hbound <;> omega
  · by_cases hji : j = i
    · subst hji
      rw [Sys.procs_setProc_self] at hj
      exact hP P hj
    · rw [Sys.procs_setProc_of_ne s hji] at hj
      exact h.procs j P hj
  · exact (Nat.add_le_add_left (Finset.card_le_card hsub) _).trans (h.load hfull)

theorem Sound.finish (h : q.Sound s) : q.Sound (s.setProc i none) :=
  h.setProc (fun _ hP => by cases hP) fun hpassed => by
    obtain ⟨_, hP, -⟩ := hpassed
    cases hP

theorem Sound.goOn (h : q.Sound s) {P' : Proc ο σ ω ε} (hP : P'.prog.Sends q.Sent ∧ P'.prog.Once q.Counted)
    (hpassed : q.Passed (some P') → i ∈ q.passed s) : q.Sound (s.setProc i (some P')) := by
  refine h.setProc (fun P hmem => ?_) hpassed
  obtain rfl := Option.some.inj hmem
  exact hP

/-- It passes the check: then what it sees leaves room. -/
theorem Sound.pass (h : q.Sound s) {P' : Proc ο σ ω ε} (hP : P'.prog.Sends q.Sent ∧ P'.prog.Once q.Counted)
    (hroom : q.count (s.view i) < q.max) : q.Sound (s.setProc i (some P')) := by
  classical
  have hcommitted : q.count s.committed < q.max := (h.view i).2.trans_lt hroom
  refine ⟨h.committed, fun j t (hw : s.writer = some (j, t)) => ?_, fun j P hj => ?_, fun hfull => ?_⟩
  · obtain ⟨hinv, hle, hbound⟩ := h.writer j t hw
    refine ⟨hinv, hle, fun hlt => ?_⟩
    by_cases hji : j = i
    · subst hji
      rw [Sys.view_self hw] at hroom
      split <;> omega
    · have hsame : j ∈ q.passed (s.setProc i (some P')) ↔ j ∈ q.passed s := by
        rw [mem_passed, mem_passed, Sys.procs_setProc_of_ne s hji]
      simp only [hsame]
      exact hbound hlt
  · by_cases hji : j = i
    · subst hji
      rw [Sys.procs_setProc_self] at hj
      obtain rfl := Option.some.inj hj
      exact hP
    · rw [Sys.procs_setProc_of_ne s hji] at hj
      exact h.procs j P hj
  · exact absurd hcommitted (Nat.not_lt.2 hfull)

theorem Sound.commit (h : q.Sound s) (i : ι) : q.Sound (s.commit i) := by
  classical
  unfold Sys.commit
  split
  · next j t hw =>
    split
    · next hji =>
      have hload := h.load_le
      have htop : top s = t := by simp [top, hw]
      rw [htop] at hload
      exact ⟨(h.writer j t hw).1, fun _ _ hnone => (by cases hnone), h.procs, fun _ => hload⟩
    · exact h
  · exact h

theorem Sound.rollback (h : q.Sound s) (i : ι) : q.Sound (s.rollback i) := by
  classical
  unfold Sys.rollback
  split
  · next j t hw =>
    split
    · have hload := h.load
      have htop : top s = t := by simp [top, hw]
      rw [htop] at hload
      refine ⟨h.committed, fun _ _ hnone => (by cases hnone), h.procs, fun hfull => ?_⟩
      exact (Nat.add_le_add_right (h.writer j t hw).2.1 _).trans (hload hfull)
    · exact h
  · exact h

theorem Sound.write (h : q.Sound s) (hi : s.MayWrite i) {t : σ} (ht : q.inv t)
    (hcount : q.count (s.view i) ≤ q.count t) {P' : Proc ο σ ω ε}
    (hP : P'.prog.Sends q.Sent ∧ P'.prog.Once q.Counted)
    (hpassed : q.count t = q.count (s.view i) ∧ (q.Passed (some P') → i ∈ q.passed s) ∨
      q.count t ≤ q.count (s.view i) + 1 ∧ i ∈ q.passed s ∧ ¬q.Passed (some P')) :
    q.Sound ({ s with writer := some (i, t) }.setProc i (some P')) := by
  classical
  have hview := h.view i
  -- Before the write, what the connection saw left room for it.
  have hbefore : q.count s.committed < q.max →
      q.count (s.view i) + (if i ∈ q.passed s then 1 else 0) ≤ q.max := by
    intro hlt
    cases hw : s.writer with
    | none =>
      rw [Sys.view_of_none hw]
      split <;> omega
    | some writer =>
      obtain ⟨j, t'⟩ := writer
      obtain rfl : j = i := hi _ hw
      rw [Sys.view_self hw]
      exact (h.writer j t' hw).2.2 hlt
  have hsub : q.passed (({ s with writer := some (i, t) } : Sys ι ο σ ω ε).setProc i (some P')) ⊆ q.passed s := by
    refine passed_setProc (s := { s with writer := some (i, t) }) fun hP' => ?_
    obtain ⟨-, hin⟩ | ⟨-, hin, -⟩ := hpassed
    · exact hin hP'
    · exact hin
  have hself : i ∈ q.passed (({ s with writer := some (i, t) } : Sys ι ο σ ω ε).setProc i (some P')) ↔
      q.Passed (some P') := by rw [mem_passed, Sys.procs_setProc_self]
  refine ⟨h.committed, fun j t' hw => ?_, fun j P hj => ?_, fun hfull => ?_⟩
  · obtain ⟨rfl, rfl⟩ := Prod.mk.inj (Option.some.inj hw)
    refine ⟨ht, hview.2.trans hcount, fun hlt => ?_⟩
    have hbound := hbefore hlt
    simp only [hself]
    obtain ⟨hsame, hin⟩ | ⟨hmore, hin, hout⟩ := hpassed
    · rw [hsame]
      split
      · next hP' =>
        rw [if_pos (hin hP')] at hbound
        exact hbound
      · split at hbound <;> omega
    · rw [if_pos hin] at hbound
      rw [if_neg hout]
      omega
  · by_cases hji : j = i
    · subst hji
      rw [Sys.procs_setProc_self] at hj
      obtain rfl := Option.some.inj hj
      exact hP
    · rw [Sys.procs_setProc_of_ne _ hji] at hj
      exact h.procs j P hj
  · have hload := h.load hfull
    rw [← view_eq_top hi] at hload
    have htop : top (({ s with writer := some (i, t) } : Sys ι ο σ ω ε).setProc i (some P')) = t := rfl
    rw [htop]
    obtain ⟨hsame, -⟩ | ⟨hmore, hin, hout⟩ := hpassed
    · rw [hsame]
      exact (Nat.add_le_add_left (Finset.card_le_card hsub) _).trans hload
    · have herase := Finset.card_le_card
        (passed_setProc_erase (s := { s with writer := some (i, t) }) (i := i) hout)
      have hcard : ((q.passed s).erase i).card + 1 = (q.passed s).card := Finset.card_erase_add_one hin
      have hle : (q.passed (({ s with writer := some (i, t) } : Sys ι ο σ ω ε).setProc i (some P'))).card ≤
          ((q.passed s).erase i).card := herase
      omega

omit [DecidableEq ι] [Fintype ι] in
theorem passed_some {P : Proc ο σ ω ε} :
    q.Passed (some P) ↔ ¬P.prog.Barred q.Counted q.Full fun _ => True := by
  simp [Passed]

omit [Fintype ι] [Writes ω σ ε] in
theorem procs_commit (s : Sys ι ο σ ω ε) (i : ι) : (s.commit i).procs = s.procs := by
  unfold Sys.commit
  split
  · split <;> rfl
  · rfl

omit [Fintype ι] [Writes ω σ ε] in
theorem procs_rollback (s : Sys ι ο σ ω ε) (i : ι) : (s.rollback i).procs = s.procs := by
  unfold Sys.rollback
  split
  · split <;> rfl
  · rfl

theorem Sound.next (h : q.Sound s) (hP : s.procs i = some P) : q.Sound (s.next i P) := by
  obtain ⟨hsends, honce⟩ := h.procs i P hP
  have hmem : ¬P.prog.Barred q.Counted q.Full (fun _ => True) → i ∈ q.passed s := by
    intro hopen
    rw [mem_passed, hP]
    exact passed_some.2 hopen
  obtain ⟨op, prog, seen⟩ := P
  cases prog with
  | ret a => exact h.finish
  | raise e => exact h.finish
  | read k =>
    by_cases hroom : q.count (s.view i) < q.max
    · exact h.pass ⟨hsends _, honce _⟩ hroom
    · refine h.goOn ⟨hsends _, honce _⟩ fun hopen => hmem fun hbarred => passed_some.1 hopen (hbarred _ fun t ht => ?_)
      obtain rfl := Except.ok.inj ht
      exact ⟨(h.view i).1, Nat.le_of_not_lt hroom⟩
  | write w k =>
    simp only [Sys.next]
    split
    · next hi =>
      split
      · next t n happly =>
        have hw : q.Sent w := hsends.1
        obtain ⟨hle, hmore, hsame⟩ := q.count_apply hw (h.view i).1 happly
        refine h.write hi (q.inv_apply hw (h.view i).1 happly) hle ⟨hsends.2 _, honce.2 _⟩ ?_
        by_cases hcounted : q.Counted w
        · exact .inr ⟨hmore, hmem fun hbarred => hbarred.1 hcounted,
            fun hopen => passed_some.1 hopen (honce.1 hcounted n).barred⟩
        · exact .inl ⟨hsame hcounted, fun hopen => hmem fun hbarred => passed_some.1 hopen (hbarred.2 _)⟩
      · next e happly =>
        exact h.write hi (h.view i).1 le_rfl ⟨hsends.2 _, honce.2 _⟩
          (.inl ⟨rfl, fun hopen => hmem fun hbarred => passed_some.1 hopen (hbarred.2 _)⟩)
    · exact h
  | commit k =>
    refine (h.commit i).goOn ⟨hsends _, honce _⟩ fun hopen => ?_
    rw [mem_passed, procs_commit, ← mem_passed]
    exact hmem fun hbarred => passed_some.1 hopen (hbarred _)
  | rollback p =>
    refine (h.rollback i).goOn ⟨hsends, honce⟩ fun hopen => ?_
    rw [mem_passed, procs_rollback, ← mem_passed]
    exact hmem fun hbarred => passed_some.1 hopen hbarred

theorem Sound.failNext (h : q.Sound s) (hP : s.procs i = some P) (e : ε) : q.Sound (s.failNext i P e) := by
  obtain ⟨hsends, honce⟩ := h.procs i P hP
  have hmem : ¬P.prog.Barred q.Counted q.Full (fun _ => True) → i ∈ q.passed s := by
    intro hopen
    rw [mem_passed, hP]
    exact passed_some.2 hopen
  obtain ⟨op, prog, seen⟩ := P
  cases prog with
  | read k =>
    exact h.goOn ⟨hsends _, honce _⟩ fun hopen => hmem fun hbarred =>
      passed_some.1 hopen (hbarred _ fun _ hr => by cases hr)
  | write w k =>
    exact h.goOn ⟨hsends.2 _, honce.2 _⟩ fun hopen => hmem fun hbarred => passed_some.1 hopen (hbarred.2 _)
  | commit k =>
    exact h.goOn ⟨hsends _, honce _⟩ fun hopen => hmem fun hbarred => passed_some.1 hopen (hbarred _)
  | ret a => exact h
  | raise e => exact h
  | rollback p => exact h

variable {body : ο → Prog σ ω ε Unit}

theorem Sound.step (h : q.Sound s) (hbody : ∀ op, q.Checked (body op)) (e : Event ι ο ε) :
    q.Sound (s.step body e) := by
  cases e with
  | call i op =>
    simp only [Sys.step]
    split
    · exact h
    · exact h.goOn ⟨(hbody op).sends, (hbody op).once⟩ fun hopen => absurd (hbody op).barred (passed_some.1 hopen)
  | step i =>
    simp only [Sys.step]
    split
    · next P hP => exact h.next hP
    · exact h
  | fail i e =>
    simp only [Sys.step]
    split
    · next P hP => exact h.failNext hP e
    · exact h

theorem Sound.run (h : q.Sound s) (hbody : ∀ op, q.Checked (body op)) (events : List (Event ι ο ε)) :
    q.Sound (s.run body events) := by
  induction events generalizing s with
  | nil => exact h
  | cons e events ih => exact ih (h.step hbody e)

theorem Sound.start {s : σ} (hinv : q.inv s) (hroom : q.count s ≤ q.max) :
    q.Sound ({ committed := s } : Sys ι ο σ ω ε) where
  committed := hinv
  writer _ _ hw := by cases hw
  procs _ _ hP := by cases hP
  load _ := by
    have hnone : q.passed ({ committed := s } : Sys ι ο σ ω ε) = ∅ := by
      ext i
      simp [Passed]
    rw [hnone]
    exact hroom.trans (Nat.le_add_right _ _)

theorem Sound.view_le (h : q.Sound s) (i : ι) : q.count (s.view i) ≤ q.max + (Fintype.card ι - 1) := by
  have hload := h.load_le
  have hle : q.count (s.view i) ≤ q.count (top s) := by
    cases hw : s.writer with
    | none => rw [Sys.view_of_none hw, top, hw]; rfl
    | some writer =>
      obtain ⟨j, t⟩ := writer
      have htop : top s = t := by simp [top, hw]
      by_cases hji : j = i
      · subst hji
        rw [Sys.view_self hw, htop]
      · rw [Sys.view_of_ne hw hji, htop]
        exact (h.writer j t hw).2.1
  omega

end Quota

end Quinn.Store
