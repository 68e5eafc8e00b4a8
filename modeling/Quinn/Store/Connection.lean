import Mathlib.Logic.Basic
import Quinn.Machine.Run

/-! Programs over a shared store, one statement at a time.  A statement may fail, and
what follows it is told; nothing here says how statements are executed. -/

namespace Quinn.Store

/-- `σ` is a snapshot of the store, `ω` its write statements, `ε` what can be raised. -/
inductive Prog (σ ω ε α : Type) : Type
  | ret : α → Prog σ ω ε α
  | raise : ε → Prog σ ω ε α
  | read : (Except ε σ → Prog σ ω ε α) → Prog σ ω ε α
  | write : ω → (Except ε Nat → Prog σ ω ε α) → Prog σ ω ε α
  | commit : (Except ε Unit → Prog σ ω ε α) → Prog σ ω ε α
  | rollback : Prog σ ω ε α → Prog σ ω ε α

namespace Prog

variable {σ ω ε α β γ : Type}

def bind : Prog σ ω ε α → (α → Prog σ ω ε β) → Prog σ ω ε β
  | .ret a, f => f a
  | .raise e, _ => .raise e
  | .read k, f => .read fun r => (k r).bind f
  | .write w k, f => .write w fun r => (k r).bind f
  | .commit k, f => .commit fun r => (k r).bind f
  | .rollback p, f => .rollback (p.bind f)

instance : Monad (Prog σ ω ε) where
  pure := .ret
  bind := .bind

@[simp] theorem pure_eq (a : α) : (pure a : Prog σ ω ε α) = .ret a := rfl

@[simp] theorem bind_eq (p : Prog σ ω ε α) (f : α → Prog σ ω ε β) : p >>= f = p.bind f := rfl

theorem bind_assoc (p : Prog σ ω ε α) (f : α → Prog σ ω ε β) (g : β → Prog σ ω ε γ) :
    (p.bind f).bind g = p.bind fun a => (f a).bind g := by
  induction p with
  | ret a => rfl
  | raise e => rfl
  | read k ih => simp only [bind, ih]
  | write w k ih => simp only [bind, ih]
  | commit k ih => simp only [bind, ih]
  | rollback p ih => simp only [bind, ih]

/-- Hand on the answer of a statement, or raise what it failed with. -/
def reply : Except ε α → Prog σ ω ε α
  | .ok a => .ret a
  | .error e => .raise e

/-- A `SELECT`: one consistent snapshot, and a question asked of it. -/
def select (q : σ → α) : Prog σ ω ε α := .read fun r => reply (r.map q)

/-- An `INSERT`, `UPDATE` or `DELETE`; the answer is the number of rows changed. -/
def execute (w : ω) : Prog σ ω ε Nat := .write w reply

def commitNow : Prog σ ω ε Unit := .commit reply

def executeNow (w : ω) (a : α) : Prog σ ω ε α :=
  (execute w).bind fun _ => commitNow.bind fun _ => .ret a

def raiseIf (c : Prop) [Decidable c] (e : ε) : Prog σ ω ε Unit :=
  if c then .raise e else .ret ()

def require (x : Option α) (e : ε) : Prog σ ω ε α :=
  match x with
  | some a => .ret a
  | none => .raise e

/-- Roll back before passing on whatever is raised. -/
def orRollback : Prog σ ω ε α → Prog σ ω ε α
  | .ret a => .ret a
  | .raise e => .rollback (.raise e)
  | .read k => .read fun r => (k r).orRollback
  | .write w k => .write w fun r => (k r).orRollback
  | .commit k => .commit fun r => (k r).orRollback
  | .rollback p => .rollback p.orRollback

/-- `with transaction():` commits at the end of the block and rolls back on an exception. -/
def transaction (body : Prog σ ω ε α) : Prog σ ω ε α :=
  (body.bind fun a => commitNow.bind fun _ => .ret a).orRollback

end Prog

end Quinn.Store

/-! One connection at a time.  A transaction is opened by the first write after a commit,
and until it is committed only this connection sees what it wrote. -/

namespace Quinn.Store

/-- What a write statement does to a snapshot: the new one and the number of rows changed. -/
class Writes (ω : Type) (σ ε : outParam Type) where
  apply : ω → σ → Except ε (σ × Nat)

structure Conn (σ : Type) where
  committed : σ
  pending : Option σ := none
  deriving DecidableEq

def Conn.view (c : Conn σ) : σ := c.pending.getD c.committed

@[simp] theorem Conn.view_none (s : σ) : (Conn.mk s none).view = s := rfl

@[simp] theorem Conn.view_some (s t : σ) : (Conn.mk s (some t)).view = t := rfl

variable {σ ω ε α β : Type}

/-- A statement that fails is undone alone: the transaction it opened stays open. -/
def Conn.write [Writes ω σ ε] (w : ω) (c : Conn σ) : Except ε Nat × Conn σ :=
  match Writes.apply w c.view with
  | .ok (s, n) => (.ok n, { c with pending := some s })
  | .error e => (.error e, { c with pending := some c.view })

/-- What happens around one statement: another connection commits first, and the statement
itself may fail. -/
structure Move (σ ε : Type) where
  foreign : σ → σ := id
  fault : Option ε := none

def Move.quiet : Move σ ε where

@[simp] theorem Move.quiet_fault : (Move.quiet : Move σ ε).fault = none := rfl

/-- Nobody can commit while this connection holds the write lock. -/
def Conn.disturb (m : Move σ ε) : Conn σ → Conn σ
  | ⟨s, none⟩ => ⟨m.foreign s, none⟩
  | ⟨s, some t⟩ => ⟨s, some t⟩

@[simp] theorem Conn.disturb_quiet (c : Conn σ) : c.disturb (Move.quiet : Move σ ε) = c := by
  rcases c with ⟨s, _ | t⟩ <;> rfl

/-- The statement numbered `n` fails, counting from zero, and no other. -/
def failAt (n : Nat) (e : ε) : List (Move σ ε) :=
  List.replicate n Move.quiet ++ [{ fault := some e }]

theorem failAt_zero (e : ε) : (failAt 0 e : List (Move σ ε)) = [{ fault := some e }] := rfl

theorem failAt_succ (n : Nat) (e : ε) :
    (failAt (n + 1) e : List (Move σ ε)) = .quiet :: failAt n e := rfl

namespace Prog

variable [Writes ω σ ε]

/-- Execution under a list of moves, one for each statement sent; statements past the end of
the list are undisturbed.  A commit outside a transaction sends nothing. -/
def run : Prog σ ω ε α → Conn σ → List (Move σ ε) → Except ε α × Conn σ × List (Move σ ε)
  | .ret a, c, ms => (.ok a, c, ms)
  | .raise e, c, ms => (.error e, c, ms)
  | .read k, c, ms =>
    let m := ms.headD .quiet
    match m.fault with
    | some e => (k (.error e)).run (c.disturb m) ms.tail
    | none => (k (.ok (c.disturb m).view)).run (c.disturb m) ms.tail
  | .write w k, c, ms =>
    let m := ms.headD .quiet
    match m.fault with
    | some e => (k (.error e)).run (c.disturb m) ms.tail
    | none => (k ((c.disturb m).write w).1).run ((c.disturb m).write w).2 ms.tail
  | .commit k, ⟨s, none⟩, ms => (k (.ok ())).run ⟨s, none⟩ ms
  | .commit k, ⟨s, some t⟩, ms =>
    match (ms.headD .quiet).fault with
    | some e => (k (.error e)).run ⟨s, some t⟩ ms.tail
    | none => (k (.ok ())).run ⟨t, none⟩ ms.tail
  | .rollback p, c, ms => p.run ⟨c.committed, none⟩ ms

def exec : Prog σ ω ε α → Conn σ → Except ε α × Conn σ
  | .ret a, c => (.ok a, c)
  | .raise e, c => (.error e, c)
  | .read k, c => (k (.ok c.view)).exec c
  | .write w k, c => (k (c.write w).1).exec (c.write w).2
  | .commit k, c => (k (.ok ())).exec ⟨c.view, none⟩
  | .rollback p, c => p.exec ⟨c.committed, none⟩

attribute [local simp] run exec in
theorem run_nil (p : Prog σ ω ε α) (c : Conn σ) :
    p.run c [] = ((p.exec c).1, (p.exec c).2, []) := by
  induction p generalizing c with
  | ret a => rfl
  | raise e => rfl
  | read k ih => simp [ih]
  | write w k ih => simp [ih]
  | commit k ih => rcases c with ⟨s, _ | t⟩ <;> simp [ih]
  | rollback p ih => simp [ih]

theorem exec_bind (p : Prog σ ω ε α) (f : α → Prog σ ω ε β) (c : Conn σ) :
    (p.bind f).exec c =
      match p.exec c with
      | (.ok a, c') => (f a).exec c'
      | (.error e, c') => (.error e, c') := by
  induction p generalizing c with
  | ret a => rfl
  | raise e => rfl
  | read k ih => exact ih _ _
  | write w k ih => exact ih _ _
  | commit k ih => exact ih _ _
  | rollback p ih => exact ih _

theorem exec_bind_cases {P : Except ε β × Conn σ → Prop} {p : Prog σ ω ε α}
    {f : α → Prog σ ω ε β} {c : Conn σ}
    (hok : ∀ a c', p.exec c = (.ok a, c') → P ((f a).exec c'))
    (herror : ∀ e c', p.exec c = (.error e, c') → P (.error e, c')) : P ((p.bind f).exec c) := by
  rw [exec_bind]
  cases h : p.exec c with
  | mk r c' =>
    cases r with
    | ok a => exact hok a c' h
    | error e => exact herror e c' h

theorem exec_bind_ret (p : Prog σ ω ε α) (f : α → β) (c : Conn σ) :
    ((p.bind fun a => .ret (f a)).exec c).2 = (p.exec c).2 := by
  rw [exec_bind]
  rcases p.exec c with ⟨_ | a, c'⟩ <;> rfl

theorem run_bind (p : Prog σ ω ε α) (f : α → Prog σ ω ε β) (c : Conn σ) (ms : List (Move σ ε)) :
    (p.bind f).run c ms =
      match p.run c ms with
      | (.ok a, c', ms') => (f a).run c' ms'
      | (.error e, c', ms') => (.error e, c', ms') := by
  induction p generalizing c ms with
  | ret a => rfl
  | raise e => rfl
  | read k ih =>
    simp only [bind, run]
    cases (ms.headD .quiet).fault <;> exact ih _ _ _
  | write w k ih =>
    simp only [bind, run]
    cases (ms.headD .quiet).fault <;> exact ih _ _ _
  | commit k ih =>
    rcases c with ⟨s, _ | t⟩
    · exact ih _ _ _
    · simp only [bind, run]
      cases (ms.headD .quiet).fault <;> exact ih _ _ _
  | rollback p ih => exact ih _ _

theorem run_bind_ne_ok (p : Prog σ ω ε α) {f : α → Prog σ ω ε β}
    (hf : ∀ a c ms b, ((f a).run c ms).1 ≠ .ok b) (c : Conn σ) (ms : List (Move σ ε)) (b : β) :
    ((p.bind f).run c ms).1 ≠ .ok b := by
  rw [run_bind]
  rcases p.run c ms with ⟨_ | a, c', ms'⟩
  · exact nofun
  · exact hf a c' ms' b

theorem run_orRollback (p : Prog σ ω ε α) (c : Conn σ) (ms : List (Move σ ε)) :
    p.orRollback.run c ms =
      match p.run c ms with
      | (.ok a, c', ms') => (.ok a, c', ms')
      | (.error e, c', ms') => (.error e, ⟨c'.committed, none⟩, ms') := by
  induction p generalizing c ms with
  | ret a => rfl
  | raise e => rfl
  | read k ih =>
    simp only [orRollback, run]
    cases (ms.headD .quiet).fault <;> exact ih _ _ _
  | write w k ih =>
    simp only [orRollback, run]
    cases (ms.headD .quiet).fault <;> exact ih _ _ _
  | commit k ih =>
    rcases c with ⟨s, _ | t⟩
    · exact ih _ _ _
    · simp only [orRollback, run]
      cases (ms.headD .quiet).fault <;> exact ih _ _ _
  | rollback p ih => exact ih _ _

@[simp] theorem exec_ret (a : α) (c : Conn σ) : (ret a : Prog σ ω ε α).exec c = (.ok a, c) := rfl

@[simp] theorem exec_raise (e : ε) (c : Conn σ) :
    (raise e : Prog σ ω ε α).exec c = (.error e, c) := rfl

@[simp] theorem exec_select (q : σ → α) (c : Conn σ) :
    (select q : Prog σ ω ε α).exec c = (.ok (q c.view), c) := rfl

@[simp] theorem exec_execute (w : ω) (c : Conn σ) : (execute w).exec c = c.write w := by
  simp only [execute, exec]
  rcases c.write w with ⟨_ | n, c'⟩ <;> rfl

@[simp] theorem exec_commitNow (c : Conn σ) :
    (commitNow : Prog σ ω ε Unit).exec c = (.ok (), ⟨c.view, none⟩) := rfl

theorem exec_raiseIf (p : Prop) [Decidable p] (e : ε) (f : Unit → Prog σ ω ε α) (c : Conn σ) :
    ((raiseIf p e).bind f).exec c = if p then (.error e, c) else (f ()).exec c := by
  unfold raiseIf
  split <;> rfl

theorem exec_executeNow (w : ω) (a : α) (c : Conn σ) :
    (executeNow w a : Prog σ ω ε α).exec c =
      match (Writes.apply w c.view : Except ε (σ × Nat)) with
      | .ok (s, _) => (.ok a, ⟨s, none⟩)
      | .error e => (.error e, { c with pending := some c.view }) := by
  simp only [executeNow, exec_bind, exec_execute, Conn.write]
  rcases (Writes.apply w c.view : Except ε (σ × Nat)) with e | ⟨s, n⟩ <;> rfl

section faults

variable (e : ε) (n : Nat) (c : Conn σ)

@[simp] theorem run_ret (a : α) (ms : List (Move σ ε)) :
    (ret a : Prog σ ω ε α).run c ms = (.ok a, c, ms) := rfl

@[simp] theorem run_raise (ms : List (Move σ ε)) :
    (raise e : Prog σ ω ε α).run c ms = (.error e, c, ms) := rfl

@[simp] theorem run_commitNow (s : σ) (ms : List (Move σ ε)) :
    (commitNow : Prog σ ω ε Unit).run ⟨s, none⟩ ms = (.ok (), ⟨s, none⟩, ms) := rfl

@[simp] theorem run_select_zero (q : σ → α) :
    (select q : Prog σ ω ε α).run c (failAt 0 e) = (.error e, c, []) := by
  rcases c with ⟨s, _ | t⟩ <;> simp [select, run, failAt_zero, Conn.disturb, reply, Except.map]

@[simp] theorem run_select_succ (q : σ → α) :
    (select q : Prog σ ω ε α).run c (failAt (n + 1) e) = (.ok (q c.view), c, failAt n e) := by
  simp [select, run, failAt_succ, reply, Except.map]

@[simp] theorem run_executeNow_zero (w : ω) (a : α) :
    (executeNow w a).run c (failAt 0 e) = (.error e, c, []) := by
  rcases c with ⟨s, _ | t⟩ <;>
    simp [executeNow, execute, Prog.bind, run, failAt_zero, Conn.disturb, reply]

theorem run_executeNow_error {w : ω} {e' : ε} (a : α)
    (h : Writes.apply w c.view = .error e') :
    (executeNow w a).run c (failAt (n + 1) e) = (.error e', ⟨c.committed, some c.view⟩, failAt n e) := by
  simp [executeNow, execute, Prog.bind, run, failAt_succ, Conn.write, reply, h]

/-- The commit fails: the statement stands in a transaction still open. -/
theorem run_executeNow_one {w : ω} {s : σ} {m : Nat} (a : α)
    (h : (Writes.apply w c.view : Except ε (σ × Nat)) = .ok (s, m)) :
    (executeNow w a).run c (failAt 1 e) = (.error e, ⟨c.committed, some s⟩, []) := by
  simp [executeNow, execute, commitNow, Prog.bind, run, failAt_succ, failAt_zero, Conn.write, reply, h]

theorem run_executeNow_ok {w : ω} {s : σ} {m : Nat} (a : α)
    (h : (Writes.apply w c.view : Except ε (σ × Nat)) = .ok (s, m)) :
    (executeNow w a).run c (failAt (n + 2) e) = (.ok a, ⟨s, none⟩, failAt n e) := by
  simp [executeNow, execute, commitNow, Prog.bind, run, failAt_succ, Conn.write, reply, h]

end faults

end Prog

end Quinn.Store

/-! Runs of operations on one connection, each step under a condition on what it finds. -/

namespace Quinn.Store

variable {Op σ : Type} {exec : Op → Conn σ → Conn σ} {cond : Op → σ → Prop}

def runOps (exec : Op → Conn σ → Conn σ) (c : Conn σ) (ops : List Op) : Conn σ :=
  ops.foldl (fun c op => exec op c) c

/-- Every operation of a run meets the condition on the state it is called in. -/
def EachMeets (exec : Op → Conn σ → Conn σ) (cond : Op → σ → Prop) : Conn σ → List Op → Prop
  | _, [] => True
  | c, op :: ops => cond op c.view ∧ EachMeets exec cond (exec op c) ops

instance EachMeets.decide [∀ op s, Decidable (cond op s)] :
    (c : Conn σ) → (ops : List Op) → Decidable (EachMeets exec cond c ops)
  | _, [] => .isTrue trivial
  | c, op :: ops =>
    have := EachMeets.decide (exec op c) ops
    inferInstanceAs (Decidable (_ ∧ _))

theorem EachMeets.invariant {inv : σ → Prop}
    (hstep : ∀ op c, cond op c.view → inv c.view → inv (exec op c).view) {c : Conn σ} {ops : List Op}
    (h : EachMeets exec cond c ops) (hc : inv c.view) : inv (runOps exec c ops).view := by
  induction ops generalizing c with
  | nil => exact hc
  | cons op ops ih => exact ih h.2 (hstep op c h.1 hc)

theorem EachMeets.of_forall (h : ∀ op s, cond op s) (c : Conn σ) (ops : List Op) :
    EachMeets exec cond c ops := by
  induction ops generalizing c with
  | nil => trivial
  | cons op ops ih => exact ⟨h op c.view, ih _⟩

end Quinn.Store

/-! A connection counts the rows that its statements change, in `total_changes`.  No rollback takes
anything off it. -/

namespace Quinn.Store

open Machine

structure Counted (σ : Type) where
  conn : Conn σ
  totalChanges : Nat := 0

namespace Counted

variable {σ : Type}

/-- What happens on a connection, and on another one.  A statement leaves a snapshot and has changed so
many rows, those that its triggers change among them; one that fails changes none. -/
inductive Event (σ : Type)
  | statement (apply : σ → σ × Nat)
  | commit
  | rollback
  | elsewhere (foreign : σ → σ)

def view (c : Counted σ) : σ := c.conn.view

def execute (apply : σ → σ × Nat) (c : Counted σ) : Counted σ where
  conn := { c.conn with pending := some (apply c.view).1 }
  totalChanges := c.totalChanges + (apply c.view).2

def commit (c : Counted σ) : Counted σ := { c with conn := ⟨c.view, none⟩ }

def step (c : Counted σ) : Event σ → Counted σ
  | .statement apply => c.execute apply
  | .commit => c.commit
  | .rollback => { c with conn := ⟨c.conn.committed, none⟩ }
  | .elsewhere foreign => { c with conn := c.conn.disturb (ε := Empty) { foreign } }

def opened (s : σ) (events : List (Event σ)) : Counted σ := run step { conn := { committed := s } } events

def Event.Silent (c : Counted σ) : Event σ → Prop
  | .statement apply => (apply c.view).2 = 0
  | _ => True

/-- The answer of a function that asks whether there are any changes on its connection. -/
def anyChange (apply : σ → σ × Nat) (c : Counted σ) : Counted σ × Bool :=
  let c := (c.execute apply).commit
  (c, decide (0 < c.totalChanges))

theorem totalChanges_step_eq_zero (c : Counted σ) (event : Event σ) :
    (c.step event).totalChanges = 0 ↔ c.totalChanges = 0 ∧ event.Silent c := by
  cases event with
  | statement apply => exact Nat.add_eq_zero_iff
  | commit => exact (and_iff_left trivial).symm
  | rollback => exact (and_iff_left trivial).symm
  | elsewhere foreign => exact (and_iff_left trivial).symm

theorem totalChanges_run_eq_zero (c : Counted σ) (events : List (Event σ)) :
    (run step c events).totalChanges = 0 ↔
      c.totalChanges = 0 ∧ Along step (fun c event => event.Silent c) c events := by
  induction events generalizing c with
  | nil => exact (and_iff_left trivial).symm
  | cons event events ih => rw [run_cons, ih, totalChanges_step_eq_zero, and_assoc, Along]

/-- What is asked has been `P` if the statement was to change a row just then, so the answer is right
where it has changed one, and where none was changed before. -/
theorem anyChange_iff {P : Prop} {apply : σ → σ × Nat} {c : Counted σ} (h : 0 < (apply c.view).2 ↔ P) :
    ((c.anyChange apply).2 = true ↔ P) ↔ P ∨ c.totalChanges = 0 := by
  have hanswer : (c.anyChange apply).2 = true ↔ P ∨ c.totalChanges ≠ 0 := by
    rw [← h, anyChange, decide_eq_true_iff]
    change 0 < c.totalChanges + (apply c.view).2 ↔ _
    omega
  rw [hanswer]
  tauto

end Counted

end Quinn.Store
