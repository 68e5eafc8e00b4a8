import Mathlib.Logic.Function.Basic
import Quinn.Object.Program

/-! Any number of threads on one object, their accesses in any order. -/

namespace Quinn.Object

variable {τ ο σ κ ν δ ε ω : Type}

structure Thread (ο σ κ ν δ ε ω : Type) where
  op : ο
  prog : Prog σ κ ν δ ε Unit
  sight : Sight ω := {}

structure Sys (τ ο σ κ ν δ ε ω : Type) where
  obj : σ
  threads : τ → Option (Thread ο σ κ ν δ ε ω) := fun _ => none

inductive Event (τ ο ν δ : Type)
  | call (i : τ) (op : ο)
  | step (i : τ)
  /-- what thread `i` asks for is answered -/
  | answer (i : τ) (r : Except δ ν)

namespace Sys

variable [DecidableEq τ] [DecidableEq ω]

def setThread (s : Sys τ ο σ κ ν δ ε ω) (i : τ) (t : Option (Thread ο σ κ ν δ ε ω)) :
    Sys τ ο σ κ ν δ ε ω :=
  { s with threads := Function.update s.threads i t }

/-- The next access of thread `i`, or its end; a thread that asks waits.  What a thread sees of
the object goes by its operation. -/
def next (look : ο → σ → ω) (s : Sys τ ο σ κ ν δ ε ω) (i : τ) (t : Thread ο σ κ ν δ ε ω) :
    Sys τ ο σ κ ν δ ε ω :=
  let disturbed := t.sight.meets (look t.op s.obj)
  match t.prog with
  | .ret _ => s.setThread i none
  | .raise _ => s.setThread i none
  | .get k =>
    s.setThread i (some { t with prog := k s.obj, sight := ⟨some (look t.op s.obj), disturbed⟩ })
  | .put g k =>
    { s with obj := g s.obj }.setThread i
      (some { t with prog := k s.obj, sight := ⟨some (look t.op (g s.obj)), disturbed⟩ })
  | .ask _ _ => s

def answer (s : Sys τ ο σ κ ν δ ε ω) (i : τ) (t : Thread ο σ κ ν δ ε ω) (r : Except δ ν) :
    Sys τ ο σ κ ν δ ε ω :=
  match t.prog with
  | .ask _ k => s.setThread i (some { t with prog := k r })
  | _ => s

def step (look : ο → σ → ω) (body : ο → Prog σ κ ν δ ε Unit) (s : Sys τ ο σ κ ν δ ε ω) :
    Event τ ο ν δ → Sys τ ο σ κ ν δ ε ω
  | .call i op =>
    match s.threads i with
    | some _ => s
    | none => s.setThread i (some { op, prog := body op })
  | .step i =>
    match s.threads i with
    | some t => s.next look i t
    | none => s
  | .answer i r =>
    match s.threads i with
    | some t => s.answer i t r
    | none => s

def run (look : ο → σ → ω) (body : ο → Prog σ κ ν δ ε Unit) (s : Sys τ ο σ κ ν δ ε ω)
    (events : List (Event τ ο ν δ)) : Sys τ ο σ κ ν δ ε ω :=
  events.foldl (step look body) s

def raised (s : Sys τ ο σ κ ν δ ε ω) : Event τ ο ν δ → Option (Thread ο σ κ ν δ ε ω × ε)
  | .step i =>
    match s.threads i with
    | some t =>
      match t.prog with
      | .raise e => some (t, e)
      | _ => none
    | none => none
  | _ => none

/-- `P` holds of every event of the run, in the state it happens in. -/
def Along (P : Sys τ ο σ κ ν δ ε ω → Event τ ο ν δ → Prop) (look : ο → σ → ω)
    (body : ο → Prog σ κ ν δ ε Unit) : Sys τ ο σ κ ν δ ε ω → List (Event τ ο ν δ) → Prop
  | _, [] => True
  | s, e :: es => P s e ∧ Along P look body (s.step look body e) es

instance Along.decide {P : Sys τ ο σ κ ν δ ε ω → Event τ ο ν δ → Prop} [h : ∀ s e, Decidable (P s e)]
    (look : ο → σ → ω) (body : ο → Prog σ κ ν δ ε Unit) :
    (s : Sys τ ο σ κ ν δ ε ω) → (events : List (Event τ ο ν δ)) → Decidable (s.Along P look body events)
  | _, [] => .isTrue trivial
  | s, e :: es => @instDecidableAnd _ _ (h s e) (Along.decide look body (s.step look body e) es)

omit [DecidableEq ω] in
@[simp] theorem threads_setThread_self (s : Sys τ ο σ κ ν δ ε ω) (i : τ)
    (t : Option (Thread ο σ κ ν δ ε ω)) : (s.setThread i t).threads i = t := by
  simp [setThread]

omit [DecidableEq ω] in
theorem threads_setThread_of_ne (s : Sys τ ο σ κ ν δ ε ω) {i j : τ} (h : j ≠ i)
    (t : Option (Thread ο σ κ ν δ ε ω)) : (s.setThread i t).threads j = s.threads j := by
  simp [setThread, h]

section along

variable {P Q : Sys τ ο σ κ ν δ ε ω → Event τ ο ν δ → Prop} {look : ο → σ → ω}
  {body : ο → Prog σ κ ν δ ε Unit}

theorem Along.and {s : Sys τ ο σ κ ν δ ε ω} {events : List (Event τ ο ν δ)}
    (hP : s.Along P look body events) (hQ : s.Along Q look body events) :
    s.Along (fun s e => P s e ∧ Q s e) look body events := by
  induction events generalizing s with
  | nil => trivial
  | cons e es ih => exact ⟨⟨hP.1, hQ.1⟩, ih hP.2 hQ.2⟩

theorem Along.mono {s : Sys τ ο σ κ ν δ ε ω} {events : List (Event τ ο ν δ)}
    (hP : s.Along P look body events) (hPQ : ∀ s e, P s e → Q s e) : s.Along Q look body events := by
  induction events generalizing s with
  | nil => trivial
  | cons e es ih => exact ⟨hPQ s e hP.1, ih hP.2⟩

theorem Along.stays {s : Sys τ ο σ κ ν δ ε ω} (inv : σ → Prop)
    (hkeep : ∀ s e, P s e → inv s.obj → inv (s.step look body e).obj) {before after : List (Event τ ο ν δ)}
    (hP : s.Along P look body (before ++ after)) (hinv : inv (s.run look body before).obj) :
    inv (s.run look body (before ++ after)).obj := by
  induction before generalizing s with
  | nil =>
    induction after generalizing s with
    | nil => exact hinv
    | cons e es ih => exact ih hP.2 (hkeep s e hP.1 hinv)
  | cons e es ih => exact ih hP.2 hinv

end along

end Sys

section conduct

variable [DecidableEq τ] [DecidableEq ω] {look : ο → σ → ω} {C : ο → Conduct σ ε ω}
  {s : Sys τ ο σ κ ν δ ε ω} {i : τ}

def Behaves (C : ο → Conduct σ ε ω) (t : Thread ο σ κ ν δ ε ω) : Prop :=
  (C t.op).Obeys (fun _ _ => True) (fun e v => (C t.op).raises v.disturbed e) t.prog t.sight

/-- The event changes the object as the operation of its thread may, and no thread raises with
it what it should not. -/
structure Proper (look : ο → σ → ω) (C : ο → Conduct σ ε ω) (body : ο → Prog σ κ ν δ ε Unit)
    (s : Sys τ ο σ κ ν δ ε ω) (e : Event τ ο ν δ) : Prop where
  change : (s.step look body e).obj = s.obj ∨ ∃ i t, e = .step i ∧ s.threads i = some t ∧
    (C t.op).change (t.sight.meets (look t.op s.obj)) s.obj (s.step look body e).obj
  raises : ∀ t x, s.raised e = some (t, x) → (C t.op).raises t.sight.disturbed x

def AllBehave (C : ο → Conduct σ ε ω) (s : Sys τ ο σ κ ν δ ε ω) : Prop :=
  ∀ i t, s.threads i = some t → Behaves C t

theorem AllBehave.setThread (h : AllBehave C s) {t : Option (Thread ο σ κ ν δ ε ω)}
    (ht : ∀ t' ∈ t, Behaves C t') : AllBehave C (s.setThread i t) := by
  intro j t' hj
  by_cases hji : j = i
  · subst hji
    rw [Sys.threads_setThread_self] at hj
    exact ht t' hj
  · rw [Sys.threads_setThread_of_ne s hji] at hj
    exact h j t' hj

variable (hlook : ∀ op, (C op).look = look op)

include hlook

theorem AllBehave.next (h : AllBehave C s) {t : Thread ο σ κ ν δ ε ω} (ht : s.threads i = some t) :
    AllBehave C (s.next look i t) ∧ ((s.next look i t).obj = s.obj ∨
      (C t.op).change (t.sight.meets (look t.op s.obj)) s.obj (s.next look i t).obj) := by
  have hbehaves := h i t ht
  have hl := hlook t.op
  obtain ⟨op, prog, sight⟩ := t
  cases prog with
  | ret a => exact ⟨h.setThread (by simp), .inl rfl⟩
  | raise e => exact ⟨h.setThread (by simp), .inl rfl⟩
  | get k =>
    refine ⟨h.setThread fun t' ht' => ?_, .inl rfl⟩
    cases ht'
    have hk := hbehaves s.obj
    rw [hl] at hk
    exact hk
  | put g k =>
    obtain ⟨hchange, hk⟩ := hbehaves s.obj
    rw [hl] at hchange hk
    have hobj : AllBehave C ({ s with obj := g s.obj } : Sys τ ο σ κ ν δ ε ω) := h
    refine ⟨hobj.setThread fun t' ht' => ?_, .inr hchange⟩
    cases ht'
    exact hk
  | ask q k => exact ⟨h, .inl rfl⟩

variable {body : ο → Prog σ κ ν δ ε Unit}
  (hbody : ∀ op, (C op).Obeys (fun _ _ => True) (fun e v => (C op).raises v.disturbed e) (body op) {})

include hbody

theorem AllBehave.step (h : AllBehave C s) (e : Event τ ο ν δ) :
    AllBehave C (s.step look body e) ∧ Proper look C body s e := by
  cases e with
  | call i op =>
    refine ⟨?_, ⟨.inl ?_, by simp [Sys.raised]⟩⟩
    · simp only [Sys.step]
      split
      · exact h
      · refine h.setThread fun t' ht' => ?_
        cases ht'
        exact hbody op
    · simp only [Sys.step]
      split <;> rfl
  | answer i r =>
    rcases ht : s.threads i with _ | t
    · refine ⟨by simpa only [Sys.step, ht] using h, ⟨.inl (by simp only [Sys.step, ht]), by simp [Sys.raised]⟩⟩
    have hbehaves := h i t ht
    obtain ⟨op, prog, sight⟩ := t
    refine ⟨?_, ⟨.inl ?_, by simp [Sys.raised]⟩⟩
    · simp only [Sys.step, ht]
      cases prog with
      | ask q k =>
        refine h.setThread fun t' ht' => ?_
        cases ht'
        exact hbehaves r
      | ret a => exact h
      | raise e => exact h
      | get k => exact h
      | put g k => exact h
    · simp only [Sys.step, ht]
      cases prog <;> rfl
  | step i =>
    rcases ht : s.threads i with _ | t
    · refine ⟨by simpa only [Sys.step, ht] using h, ⟨.inl (by simp only [Sys.step, ht]), ?_⟩⟩
      simp [Sys.raised, ht]
    obtain ⟨hnext, hchange⟩ := h.next hlook ht
    refine ⟨by simpa only [Sys.step, ht] using hnext, ⟨?_, fun t' x hraised => ?_⟩⟩
    · simp only [Sys.step, ht]
      exact hchange.imp_right fun hc => ⟨i, t, rfl, ht, hc⟩
    · have hbehaves := h i t ht
      simp only [Sys.raised, ht] at hraised
      split at hraised
      · next e hprog =>
        cases hraised
        rw [Behaves, hprog] at hbehaves
        exact hbehaves
      · cases hraised

theorem AllBehave.along (h : AllBehave C s) (events : List (Event τ ο ν δ)) :
    s.Along (Proper look C body) look body events := by
  induction events generalizing s with
  | nil => trivial
  | cons e es ih =>
    obtain ⟨hnext, hproper⟩ := h.step hlook hbody e
    exact ⟨hproper, ih hnext⟩

theorem AllBehave.run (h : AllBehave C s) (before : List (Event τ ο ν δ)) (e : Event τ ο ν δ) :
    Proper look C body (s.run look body before) e := by
  have hall : AllBehave C (s.run look body before) := by
    induction before generalizing s with
    | nil => exact h
    | cons e' es ih => exact ih (h.step hlook hbody e').1
  exact (hall.step hlook hbody e).2

end conduct

end Quinn.Object
