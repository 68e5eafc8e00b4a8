import Quinn.Store.Interleaving

/-! What single commits of an interleaving do.  The holder of the write lock commits what it
made of the store it found, so the commits of a run form a chain. -/

namespace Quinn.Store

variable {ι ο σ ω ε α β : Type}

/-- A commit that changed the store: who sent it, in which operation and having read what. -/
structure Commit (ι ο σ : Type) where
  conn : ι
  op : ο
  seen : List σ
  before : σ
  after : σ

inductive Chain : σ → List (Commit ι ο σ) → σ → Prop
  | nil (s : σ) : Chain s [] s
  | cons {c : Commit ι ο σ} {cs : List (Commit ι ο σ)} {s : σ} :
      Chain c.after cs s → Chain c.before (c :: cs) s

namespace Sys

variable [DecidableEq ι]

/-- The transaction connection `i` has open: what it found, and what it has made of it. -/
def transaction (s : Sys ι ο σ ω ε) (i : ι) : Option (σ × σ) :=
  match s.writer with
  | some (j, t) => if j = i then some (s.committed, t) else none
  | none => none

theorem transaction_self {s : Sys ι ο σ ω ε} (h : s.writer = some (i, t)) :
    s.transaction i = some (s.committed, t) := by
  simp [transaction, h]

theorem transaction_of_ne {s : Sys ι ο σ ω ε} (h : s.writer = some (j, t)) (hji : j ≠ i) :
    s.transaction i = none := by
  simp [transaction, h, hji]

theorem transaction_of_none {s : Sys ι ο σ ω ε} (h : s.writer = none) :
    s.transaction i = none := by
  simp [transaction, h]

theorem writer_of_transaction {s : Sys ι ο σ ω ε} {x : σ × σ} (h : s.transaction i = some x) :
    s.writer = some (i, x.2) ∧ s.committed = x.1 := by
  rcases hw : s.writer with _ | ⟨j, t⟩
  · rw [transaction_of_none hw] at h
    cases h
  by_cases hji : j = i
  · subst hji
    rw [transaction_self hw] at h
    cases h
    exact ⟨rfl, rfl⟩
  · rw [transaction_of_ne hw hji] at h
    cases h

theorem transaction_commit (s : Sys ι ο σ ω ε) (i j : ι) :
    (s.commit i).transaction j = if j = i then none else s.transaction j := by
  rcases hw : s.writer with _ | ⟨k, t⟩
  · simp [commit, transaction, hw]
  by_cases hki : k = i
  · subst hki
    by_cases hjk : j = k <;> simp [commit, transaction, hw, hjk, eq_comm]
  · by_cases hji : j = i <;> simp [commit, transaction, hw, hki, hji]

theorem transaction_rollback (s : Sys ι ο σ ω ε) (i j : ι) :
    (s.rollback i).transaction j = if j = i then none else s.transaction j := by
  rcases hw : s.writer with _ | ⟨k, t⟩
  · simp [rollback, transaction, hw]
  by_cases hki : k = i
  · subst hki
    by_cases hjk : j = k <;> simp [rollback, transaction, hw, hjk, eq_comm]
  · by_cases hji : j = i <;> simp [rollback, transaction, hw, hki, hji]

def commitOf (s : Sys ι ο σ ω ε) : Event ι ο ε → Option (Commit ι ο σ)
  | .step i =>
    match s.procs i with
    | some ⟨op, .commit _, seen⟩ =>
      (s.transaction i).map fun x => { conn := i, op, seen, before := x.1, after := x.2 }
    | _ => none
  | _ => none

variable [Writes ω σ ε]

/-- The commits of a run, in their order. -/
def commits (body : ο → Prog σ ω ε Unit) (s : Sys ι ο σ ω ε) : List (Event ι ο ε) → List (Commit ι ο σ)
  | [] => []
  | e :: es => (s.commitOf e).toList ++ (s.step body e).commits body es

omit [Writes ω σ ε] in
theorem committed_commit (s : Sys ι ο σ ω ε) (i : ι) :
    (s.commit i).committed = ((s.transaction i).map Prod.snd).getD s.committed := by
  rcases hw : s.writer with _ | ⟨j, t⟩
  · simp [commit, transaction, hw]
  by_cases hji : j = i <;> simp [commit, transaction, hw, hji]

theorem committed_step (body : ο → Prog σ ω ε Unit) (s : Sys ι ο σ ω ε) (e : Event ι ο ε) :
    (s.step body e).committed = ((s.commitOf e).map Commit.after).getD s.committed := by
  cases e with
  | call i op =>
    simp only [step, commitOf]
    split <;> rfl
  | fail i e =>
    simp only [step, commitOf]
    split
    · exact committed_failNext s i _ e
    · rfl
  | step i =>
    simp only [step, commitOf]
    rcases hp : s.procs i with _ | ⟨op, prog, seen⟩
    · rfl
    cases prog with
    | commit k =>
      simp only [next, setProc, committed_commit, Option.map_map]
      rfl
    | write w k =>
      simp only [next]
      split
      · split <;> rfl
      · rfl
    | rollback p => exact committed_rollback s i
    | ret a => rfl
    | raise e => rfl
    | read k => rfl

omit [Writes ω σ ε] in
theorem before_commitOf {s : Sys ι ο σ ω ε} {e : Event ι ο ε} {c : Commit ι ο σ}
    (h : s.commitOf e = some c) : c.before = s.committed := by
  cases e with
  | call i op => cases h
  | fail i e => cases h
  | step i =>
    simp only [commitOf] at h
    split at h
    · obtain ⟨x, hx, rfl⟩ := Option.map_eq_some_iff.mp h
      exact (writer_of_transaction hx).2.symm
    · cases h

theorem chain_commits (body : ο → Prog σ ω ε Unit) (s : Sys ι ο σ ω ε)
    (events : List (Event ι ο ε)) :
    Chain s.committed (s.commits body events) (s.run body events).committed := by
  induction events generalizing s with
  | nil => exact .nil s.committed
  | cons e es ih =>
    have hrest := ih (s.step body e)
    rw [committed_step] at hrest
    simp only [commits]
    rcases hc : s.commitOf e with _ | c
    · rw [hc] at hrest
      exact hrest
    · rw [hc] at hrest
      rw [← before_commitOf hc]
      exact .cons hrest

end Sys

/-- What is asked of each write that is sent, given the snapshots read and the store written
to, and what a commit then does, given the snapshots read and the store before and after. -/
structure Discipline (σ ω : Type) where
  guard : List σ → σ → ω → Prop
  commits : List σ → σ → σ → Prop

namespace Discipline

variable [Writes ω σ ε]

/-- The commits of `p` are as the discipline has them.  `seen` are the snapshots read, `open_`
is the transaction under way: `Q` is what holds when `p` returns, `E` of the transaction it is
in when it raises. -/
def Keeps (D : Discipline σ ω) (Q : α → List σ → Option (σ × σ) → Prop) (E : Option (σ × σ) → Prop) :
    Prog σ ω ε α → List σ → Option (σ × σ) → Prop
  | .ret a, seen, open_ => Q a seen open_
  | .raise _, _, open_ => E open_
  | .read k, seen, open_ => (∀ e, D.Keeps Q E (k (.error e)) seen open_) ∧
      ∀ s, (∀ x ∈ open_, s = x.2) → D.Keeps Q E (k (.ok s)) (s :: seen) open_
  | .write w k, seen, open_ => (∀ e, D.Keeps Q E (k (.error e)) seen open_) ∧
      ∀ x : σ × σ, (∀ y ∈ open_, y = x) → (open_ = none → x.1 = x.2) →
        (∀ e, Writes.apply w x.2 = .error e → D.Keeps Q E (k (.error e)) seen (some x)) ∧
        (D.guard seen x.2 w → ∀ t n, Writes.apply w x.2 = .ok (t, n) →
          D.Keeps Q E (k (.ok n)) seen (some (x.1, t)))
  | .commit k, seen, open_ => (∀ e, D.Keeps Q E (k (.error e)) seen open_) ∧
      (∀ x ∈ open_, D.commits seen x.1 x.2) ∧ D.Keeps Q E (k (.ok ())) seen none
  | .rollback p, seen, _ => D.Keeps Q E p seen none

abbrev Closes (D : Discipline σ ω) (p : Prog σ ω ε α) (seen : List σ) (open_ : Option (σ × σ)) : Prop :=
  D.Keeps (fun _ _ open_ => open_ = none) (fun open_ => open_ = none) p seen open_

section rules

variable {D : Discipline σ ω} {Q : α → List σ → Option (σ × σ) → Prop}
  {E : Option (σ × σ) → Prop} {seen : List σ} {open_ : Option (σ × σ)}

@[simp] theorem keeps_ret (a : α) :
    D.Keeps Q E (.ret a : Prog σ ω ε α) seen open_ ↔ Q a seen open_ := Iff.rfl

@[simp] theorem keeps_bind (p : Prog σ ω ε α) (f : α → Prog σ ω ε β)
    {Q : β → List σ → Option (σ × σ) → Prop} :
    D.Keeps Q E (p.bind f) seen open_ ↔
      D.Keeps (fun a seen' open' => D.Keeps Q E (f a) seen' open') E p seen open_ := by
  induction p generalizing seen open_ with
  | ret a => rfl
  | raise e => rfl
  | read k ih => simp only [Prog.bind, Keeps, ih]
  | write w k ih => simp only [Prog.bind, Keeps, ih]
  | commit k ih => simp only [Prog.bind, Keeps, ih]
  | rollback p ih => simp only [Prog.bind, Keeps, ih]

theorem keeps_orRollback {p : Prog σ ω ε α} (hE : E none)
    (h : D.Keeps Q (fun _ => True) p seen open_) : D.Keeps Q E p.orRollback seen open_ := by
  induction p generalizing seen open_ with
  | ret a => exact h
  | raise e => exact hE
  | read k ih => exact ⟨fun e => ih _ (h.1 e), fun s hs => ih _ (h.2 s hs)⟩
  | write w k ih =>
    refine ⟨fun e => ih _ (h.1 e), fun x hx hn => ?_⟩
    obtain ⟨herror, hok⟩ := h.2 x hx hn
    exact ⟨fun e he => ih _ (herror e he), fun hg t n hw => ih _ (hok hg t n hw)⟩
  | commit k ih => exact ⟨fun e => ih _ (h.1 e), h.2.1, ih _ h.2.2⟩
  | rollback p ih => exact ih h

@[simp] theorem keeps_select (q : σ → α) :
    D.Keeps Q (fun _ => True) (Prog.select q : Prog σ ω ε α) seen open_ ↔
      ∀ s, (∀ x ∈ open_, s = x.2) → Q (q s) (s :: seen) open_ :=
  ⟨fun h => h.2, fun h => ⟨fun _ => trivial, h⟩⟩

@[simp] theorem keeps_execute (w : ω) {Q : Nat → List σ → Option (σ × σ) → Prop} :
    D.Keeps Q (fun _ => True) (Prog.execute w : Prog σ ω ε Nat) seen open_ ↔
      ∀ x : σ × σ, (∀ y ∈ open_, y = x) → (open_ = none → x.1 = x.2) → D.guard seen x.2 w →
        ∀ t n, Writes.apply w x.2 = .ok (t, n) → Q n seen (some (x.1, t)) :=
  ⟨fun h x hx hn => (h.2 x hx hn).2,
    fun h => ⟨fun _ => trivial, fun x hx hn => ⟨fun _ _ => trivial, h x hx hn⟩⟩⟩

@[simp] theorem keeps_commitNow {Q : Unit → List σ → Option (σ × σ) → Prop} :
    D.Keeps Q (fun _ => True) (Prog.commitNow : Prog σ ω ε Unit) seen open_ ↔
      (∀ x ∈ open_, D.commits seen x.1 x.2) ∧ Q () seen none :=
  ⟨fun h => h.2, fun h => ⟨fun _ => trivial, h⟩⟩

@[simp] theorem keeps_raiseIf (c : Prop) [Decidable c] (e : ε)
    {Q : Unit → List σ → Option (σ × σ) → Prop} :
    D.Keeps Q (fun _ => True) (Prog.raiseIf c e : Prog σ ω ε Unit) seen open_ ↔
      (¬c → Q () seen open_) := by
  by_cases hc : c <;> simp [Prog.raiseIf, hc, Keeps]

theorem closes_transaction {p : Prog σ ω ε α}
    (h : D.Keeps (fun _ seen open_ => ∀ x ∈ open_, D.commits seen x.1 x.2) (fun _ => True) p seen
      open_) : D.Closes p.transaction seen open_ := by
  refine keeps_orRollback rfl ?_
  simpa using h

end rules

/-- The state of an interleaving in which everybody keeps the discipline of its operation. -/
structure Kept [DecidableEq ι] (D : ο → Discipline σ ω) (s : Sys ι ο σ ω ε) : Prop where
  writer : ∀ j t, s.writer = some (j, t) → ∃ P, s.procs j = some P
  procs : ∀ i P, s.procs i = some P → (D P.op).Closes P.prog P.seen (s.transaction i)

variable {D : ο → Discipline σ ω}

def protocol (D : ο → Discipline σ ω) : Protocol ο σ ω where
  inv _ := True
  rel _ _ := True
  guard op := (D op).guard
  refl _ := trivial
  trans _ _ := trivial

instance [h : ∀ op seen st w, Decidable ((D op).guard seen st w)] (op : ο) (seen : List σ) (st : σ)
    (w : ω) : Decidable ((protocol D).guard op seen st w) := h op seen st w

variable [DecidableEq ι] {s : Sys ι ο σ ω ε} {i : ι} {op : ο} {seen : List σ}

theorem Kept.setProc (h : Kept D s) {P : Option (Proc ο σ ω ε)}
    (hnone : P = none → s.transaction i = none)
    (hP : ∀ Q ∈ P, (D Q.op).Closes Q.prog Q.seen (s.transaction i)) : Kept D (s.setProc i P) where
  writer j t hw := by
    by_cases hji : j = i
    · subst hji
      rw [Sys.procs_setProc_self]
      refine Option.ne_none_iff_exists'.mp fun hn => ?_
      have hopen := Sys.transaction_self (s := s) hw
      rw [hnone hn] at hopen
      cases hopen
    · rw [Sys.procs_setProc_of_ne s hji]
      exact h.writer j t hw
  procs j Q hj := by
    by_cases hji : j = i
    · subst hji
      rw [Sys.procs_setProc_self] at hj
      exact hP Q hj
    · rw [Sys.procs_setProc_of_ne s hji] at hj
      exact h.procs j Q hj

theorem Kept.lock (h : Kept D s) (hmay : s.MayWrite i) {t : σ} {P : Proc ο σ ω ε}
    (hP : (D P.op).Closes P.prog P.seen (some (s.committed, t))) :
    Kept D ({ s with writer := some (i, t) }.setProc i (some P)) where
  writer j u hw := by
    cases hw
    exact ⟨P, Sys.procs_setProc_self _ _ _⟩
  procs j Q hj := by
    by_cases hji : j = i
    · subst hji
      rw [Sys.procs_setProc_self] at hj
      cases hj
      exact (Sys.transaction_self (s := { s with writer := some (j, t) }.setProc j (some P)) rfl) ▸ hP
    · rw [Sys.procs_setProc_of_ne _ hji] at hj
      have hQ := h.procs j Q hj
      have hopen : s.transaction j = none := by
        rcases hw : s.writer with _ | ⟨k, u⟩
        · exact Sys.transaction_of_none hw
        · have hk : k = i := hmay _ hw
          exact Sys.transaction_of_ne hw fun hkj => hji (hkj ▸ hk)
      rw [hopen] at hQ
      rw [Sys.transaction_of_ne (i := j) rfl (Ne.symm hji)]
      exact hQ

theorem Kept.unlock (h : Kept D s) {s' : Sys ι ο σ ω ε} (hprocs : s'.procs = s.procs)
    (hopen : ∀ j, s'.transaction j = if j = i then none else s.transaction j) {P : Proc ο σ ω ε}
    (hP : (D P.op).Closes P.prog P.seen none) : Kept D (s'.setProc i (some P)) where
  writer j t hw := by
    by_cases hji : j = i
    · subst hji
      exact ⟨P, Sys.procs_setProc_self _ _ _⟩
    · have hself : s'.transaction j = some (s'.committed, t) := Sys.transaction_self hw
      rw [hopen, if_neg hji] at hself
      rw [Sys.procs_setProc_of_ne _ hji, hprocs]
      exact h.writer j t (Sys.writer_of_transaction hself).1
  procs j Q hj := by
    change (D Q.op).Closes Q.prog Q.seen (s'.transaction j)
    rw [hopen]
    by_cases hji : j = i
    · subst hji
      rw [Sys.procs_setProc_self] at hj
      cases hj
      rw [if_pos rfl]
      exact hP
    · rw [Sys.procs_setProc_of_ne _ hji, hprocs] at hj
      rw [if_neg hji]
      exact h.procs j Q hj

theorem Kept.next (h : Kept D s) {P : Proc ο σ ω ε} (hP : s.procs i = some P)
    (hallow : (protocol D).Allows s (.step i)) :
    Kept D (s.next i P) ∧ ∀ c ∈ s.commitOf (.step i : Event ι ο ε),
      (D c.op).commits c.seen c.before c.after := by
  have hkeeps := h.procs i P hP
  obtain ⟨op, prog, seen⟩ := P
  cases prog with
  | ret a => exact ⟨h.setProc (fun _ => hkeeps) (by simp), by simp [Sys.commitOf, hP]⟩
  | raise e => exact ⟨h.setProc (fun _ => hkeeps) (by simp), by simp [Sys.commitOf, hP]⟩
  | read k =>
    refine ⟨h.setProc (by simp) fun Q hQ => ?_, by simp [Sys.commitOf, hP]⟩
    cases hQ
    refine hkeeps.2 _ fun x hx => ?_
    obtain ⟨hw, -⟩ := Sys.writer_of_transaction hx
    exact Sys.view_self hw
  | write w k =>
    refine ⟨?_, by simp [Sys.commitOf, hP]⟩
    by_cases hmay : s.MayWrite i
    · have hrest := hkeeps.2 (s.committed, s.view i) (fun y hy => ?_) fun hnone => ?_
      · simp only [Protocol.Allows, hP] at hallow
        rcases happly : (Writes.apply w (s.view i) : Except ε (σ × Nat)) with e | ⟨t, n⟩
        · simp only [Sys.next, hmay, if_true, happly]
          exact h.lock hmay (hrest.1 e happly)
        · simp only [Sys.next, hmay, if_true, happly]
          exact h.lock hmay (hrest.2 (hallow hmay) t n happly)
      · obtain ⟨hw, hc⟩ := Sys.writer_of_transaction hy
        rw [hc, Sys.view_self hw]
      · rcases hw : s.writer with _ | ⟨j, t⟩
        · exact (Sys.view_of_none hw).symm
        · have hj : j = i := hmay _ hw
          rw [Sys.transaction_self (hj ▸ hw)] at hnone
          cases hnone
    · simpa only [Sys.next, hmay, if_false] using h
  | commit k =>
    refine ⟨h.unlock ?_ (s.transaction_commit i) hkeeps.2.2, ?_⟩
    · unfold Sys.commit
      split
      · split <;> rfl
      · rfl
    · intro c hc
      simp only [Sys.commitOf, hP] at hc
      obtain ⟨x, hx, rfl⟩ := Option.map_eq_some_iff.mp hc
      exact hkeeps.2.1 x hx
  | rollback p =>
    refine ⟨h.unlock ?_ (s.transaction_rollback i) hkeeps, by simp [Sys.commitOf, hP]⟩
    unfold Sys.rollback
    split
    · split <;> rfl
    · rfl

theorem Kept.failNext (h : Kept D s) {P : Proc ο σ ω ε} (hP : s.procs i = some P) (e : ε) :
    Kept D (s.failNext i P e) := by
  have hkeeps := h.procs i P hP
  obtain ⟨op, prog, seen⟩ := P
  cases prog with
  | read k =>
    refine h.setProc (by simp) fun Q hQ => ?_
    cases hQ
    exact hkeeps.1 e
  | write w k =>
    refine h.setProc (by simp) fun Q hQ => ?_
    cases hQ
    exact hkeeps.1 e
  | commit k =>
    refine h.setProc (by simp) fun Q hQ => ?_
    cases hQ
    exact hkeeps.1 e
  | ret a => exact h
  | raise e => exact h
  | rollback p => exact h

section runs

variable {body : ο → Prog σ ω ε Unit} (hbody : ∀ op, (D op).Closes (body op) [] none)

include hbody

theorem Kept.step (h : Kept D s) {e : Event ι ο ε} (hallow : (protocol D).Allows s e) :
    Kept D (s.step body e) ∧ ∀ c ∈ s.commitOf e, (D c.op).commits c.seen c.before c.after := by
  cases e with
  | call i op =>
    refine ⟨?_, by simp [Sys.commitOf]⟩
    rcases hp : s.procs i with _ | P
    · simp only [Sys.step, hp]
      refine h.setProc (by simp) fun Q hQ => ?_
      cases hQ
      -- a connection that is not at work has nothing open
      rcases hopen : s.transaction i with _ | x
      · exact hbody op
      · obtain ⟨P, hP⟩ := h.writer i x.2 (Sys.writer_of_transaction hopen).1
        rw [hp] at hP
        cases hP
    · simpa only [Sys.step, hp] using h
  | step i =>
    rcases hp : s.procs i with _ | P
    · simpa only [Sys.step, Sys.commitOf, hp, Option.not_mem_none, false_imp_iff, implies_true,
        and_true] using h
    · simpa only [Sys.step, hp] using h.next hp hallow
  | fail i e =>
    refine ⟨?_, by simp [Sys.commitOf]⟩
    rcases hp : s.procs i with _ | P
    · simpa only [Sys.step, hp] using h
    · simpa only [Sys.step, hp] using h.failNext hp e

theorem Kept.commits (h : Kept D s) {events : List (Event ι ο ε)}
    (hallow : (protocol D).AllowsRun body s events) {c : Commit ι ο σ}
    (hc : c ∈ s.commits body events) : (D c.op).commits c.seen c.before c.after := by
  induction events generalizing s with
  | nil => cases hc
  | cons e es ih =>
    obtain ⟨hnext, hmade⟩ := h.step hbody hallow.1
    rcases List.mem_append.mp hc with hc | hc
    · exact hmade c (by simpa using hc)
    · exact ih hnext hallow.2 hc

end runs

theorem Kept.start {st : σ} : Kept D ({ committed := st } : Sys ι ο σ ω ε) where
  writer j t h := by cases h
  procs i P h := by cases h

end Discipline

end Quinn.Store
