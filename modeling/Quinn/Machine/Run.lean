import Mathlib.Data.List.Infix

/-! Runs of a machine that each operation takes from one state to the next. -/

namespace Quinn.Machine

variable {σ ο : Type} (step : σ → ο → σ)

def run (s : σ) (ops : List ο) : σ := ops.foldl step s

def Along (C : σ → ο → Prop) : σ → List ο → Prop
  | _, [] => True
  | s, op :: ops => C s op ∧ Along C (step s op) ops

/-- `P` in every state, the first and the last among them. -/
def Throughout (P : σ → Prop) : σ → List ο → Prop
  | s, [] => P s
  | s, op :: ops => P s ∧ Throughout P (step s op) ops

variable {step} {s : σ} {ops : List ο} {P Q : σ → Prop} {C D : σ → ο → Prop}

@[simp] theorem run_nil : run step s [] = s := rfl

@[simp] theorem run_cons (op : ο) : run step s (op :: ops) = run step (step s op) ops := rfl

instance [∀ s op, Decidable (C s op)] : Decidable (Along step C s ops) :=
  let rec decide (s : σ) : (ops : List ο) → Decidable (Along step C s ops)
    | [] => inferInstanceAs (Decidable True)
    | op :: ops =>
      have := decide (step s op) ops
      inferInstanceAs (Decidable (_ ∧ _))
  decide s ops

theorem run_append (ops' : List ο) : run step s (ops ++ ops') = run step (run step s ops) ops' :=
  List.foldl_append

theorem along_append {ops' : List ο} :
    Along step C s (ops ++ ops') ↔ Along step C s ops ∧ Along step C (run step s ops) ops' := by
  induction ops generalizing s with
  | nil => simp [Along]
  | cons op ops ih => simp only [List.cons_append, Along, ih, run_cons, and_assoc]

theorem throughout_append {ops' : List ο} :
    Throughout step P s (ops ++ ops') ↔
      Throughout step P s ops ∧ Throughout step P (run step s ops) ops' := by
  induction ops generalizing s with
  | nil =>
    refine ⟨fun h => ⟨?_, h⟩, fun h => h.2⟩
    cases ops' with
    | nil => exact h
    | cons op ops' => exact h.1
  | cons op ops ih => simp only [List.cons_append, Throughout, ih, run_cons, and_assoc]

theorem Along.mono (h : Along step C s ops) (himp : ∀ s op, C s op → D s op) : Along step D s ops := by
  induction ops generalizing s with
  | nil => trivial
  | cons op ops ih => exact ⟨himp s op h.1, ih h.2⟩

theorem along_of_forall (h : ∀ s op, C s op) : Along step C s ops := by
  induction ops generalizing s with
  | nil => trivial
  | cons op ops ih => exact ⟨h s op, ih⟩

theorem Throughout.start (h : Throughout step P s ops) : P s := by
  cases ops with
  | nil => exact h
  | cons op ops => exact h.1

theorem throughout_of_forall (h : ∀ s, P s) : Throughout step P s ops := by
  induction ops generalizing s with
  | nil => exact h s
  | cons op ops ih => exact ⟨h s, ih⟩

theorem Throughout.mono (h : Throughout step P s ops) (himp : ∀ s, P s → Q s) :
    Throughout step Q s ops := by
  induction ops generalizing s with
  | nil => exact himp s h
  | cons op ops ih => exact ⟨himp s h.1, ih h.2⟩

theorem Throughout.run (h : Throughout step P s ops) : P (run step s ops) := by
  induction ops generalizing s with
  | nil => exact h
  | cons op ops ih => exact ih h.2

theorem throughout_of_along (hstep : ∀ s op, P s → C s op → P (step s op)) (hs : P s)
    (h : Along step C s ops) : Throughout step P s ops := by
  induction ops generalizing s with
  | nil => exact hs
  | cons op ops ih => exact ⟨hs, ih (hstep s op hs h.1) h.2⟩

/-- What `P` after a step tells of it, given an invariant of all steps. -/
theorem along_of_throughout {I : σ → Prop} (hinv : ∀ s op, I s → I (step s op))
    (hstep : ∀ s op, I s → P (step s op) → C s op) (hs : I s) (h : Throughout step P s ops) :
    Along step C s ops := by
  induction ops generalizing s with
  | nil => trivial
  | cons op ops ih => exact ⟨hstep s op hs h.2.start, ih (hinv s op hs) h.2⟩

/-- An invariant that the steps under a condition keep, and a trap that the other steps lead into. -/
theorem along_or_trapped {I D : σ → Prop} (hgood : ∀ s op, I s → C s op → I (step s op))
    (hbad : ∀ s op, I s → ¬C s op → D (step s op)) (htrap : ∀ s op, D s → D (step s op)) (hs : I s) :
    (Along step C s ops ∧ I (run step s ops)) ∨ (¬Along step C s ops ∧ D (run step s ops)) := by
  have hstuck (s : σ) (ops : List ο) (hs : D s) : D (Machine.run step s ops) := by
    induction ops generalizing s with
    | nil => exact hs
    | cons op ops ih => exact ih _ (htrap s op hs)
  induction ops generalizing s with
  | nil => exact .inl ⟨trivial, hs⟩
  | cons op ops ih =>
    by_cases hC : C s op
    · obtain ⟨halong, hrun⟩ | ⟨hnot, hrun⟩ := ih (hgood s op hs hC)
      · exact .inl ⟨⟨hC, halong⟩, hrun⟩
      · exact .inr ⟨fun h => hnot h.2, hrun⟩
    · exact .inr ⟨fun h => hC h.1, hstuck (step s op) ops (hbad s op hs hC)⟩

/-- And where the steps that keep it are the steps that meet their condition, only then; what else
is known of the steps may be used. -/
theorem throughout_iff_along_under {R : σ → ο → Prop}
    (hstep : ∀ s op, P s → R s op → (P (step s op) ↔ C s op)) (hs : P s) (hR : Along step R s ops) :
    Throughout step P s ops ↔ Along step C s ops := by
  induction ops generalizing s with
  | nil => exact ⟨fun _ => trivial, fun _ => hs⟩
  | cons op ops ih =>
    constructor
    · intro h
      have hnext : P (step s op) := h.2.start
      exact ⟨(hstep s op hs hR.1).1 hnext, (ih hnext hR.2).1 h.2⟩
    · intro h
      have hnext : P (step s op) := (hstep s op hs hR.1).2 h.1
      exact ⟨hs, (ih hnext hR.2).2 h.2⟩

theorem along_true : Along step (fun _ _ => True) s ops := by
  induction ops generalizing s with
  | nil => trivial
  | cons op ops ih => exact ⟨trivial, ih⟩

theorem along_iff_forall {C : ο → Prop} : Along step (fun _ op => C op) s ops ↔ ∀ op ∈ ops, C op := by
  induction ops generalizing s with
  | nil => exact iff_of_true trivial (List.forall_mem_nil _)
  | cons op ops ih => rw [List.forall_mem_cons, Along, ih]

theorem throughout_iff_along (hstep : ∀ s op, P s → (P (step s op) ↔ C s op)) (hs : P s) :
    Throughout step P s ops ↔ Along step C s ops :=
  throughout_iff_along_under (fun s op hP _ => hstep s op hP) hs along_true

theorem throughout_and :
    Throughout step (fun s => P s ∧ Q s) s ops ↔ Throughout step P s ops ∧ Throughout step Q s ops := by
  induction ops generalizing s with
  | nil => exact Iff.rfl
  | cons op ops ih =>
    simp only [Throughout, ih]
    exact and_and_and_comm

/-- Two conditions that agree wherever an invariant holds, which steps under one of them keep. -/
theorem along_iff_along {I : σ → Prop} (hiff : ∀ s op, I s → (D s op ↔ C s op))
    (hstep : ∀ s op, I s → C s op → I (step s op)) (hs : I s) :
    Along step D s ops ↔ Along step C s ops := by
  induction ops generalizing s with
  | nil => exact Iff.rfl
  | cons op ops ih =>
    constructor
    · intro h
      have hC : C s op := (hiff s op hs).1 h.1
      exact ⟨hC, (ih (hstep s op hs hC)).1 h.2⟩
    · intro h
      exact ⟨(hiff s op hs).2 h.1, (ih (hstep s op hs h.1)).2 h.2⟩

/-- Two conditions that agree on the steps of which something else is known, which keep an invariant. -/
theorem along_congr_under {I : σ → Prop} {R : σ → ο → Prop} (hiff : ∀ s op, I s → R s op → (C s op ↔ D s op))
    (hstep : ∀ s op, I s → R s op → I (step s op)) (hs : I s) (hR : Along step R s ops) :
    Along step C s ops ↔ Along step D s ops := by
  induction ops generalizing s with
  | nil => exact Iff.rfl
  | cons op ops ih => exact and_congr (hiff s op hs hR.1) (ih (hstep s op hs hR.1) hR.2)

end Quinn.Machine

/-! What is seen of a run, and what must come between two things that are seen. -/

namespace Quinn.Machine

section trace

variable {σ ο ε : Type} (step : σ → ο → σ) (see : σ → ο → ε)

def trace : σ → List ο → List ε
  | _, [] => []
  | s, op :: ops => see s op :: trace (step s op) ops

variable {step see} {s : σ} {ops : List ο}

@[simp] theorem trace_nil : trace step see s [] = [] := rfl

theorem trace_append (ops' : List ο) :
    trace step see s (ops ++ ops') = trace step see s ops ++ trace step see (run step s ops) ops' := by
  induction ops generalizing s with
  | nil => rfl
  | cons op ops ih => simp only [List.cons_append, trace, ih, run_cons]

theorem trace_snoc (op : ο) :
    trace step see s (ops ++ [op]) = trace step see s ops ++ [see (run step s ops) op] :=
  trace_append [op]

theorem run_snoc (op : ο) : run step s (ops ++ [op]) = step (run step s ops) op := run_append [op]

theorem along_snoc {C : σ → ο → Prop} {op : ο} :
    Along step C s (ops ++ [op]) ↔ Along step C s ops ∧ C (run step s ops) op := by
  simp [along_append, Along]

/-- An invariant of the state and what has been seen so far. -/
theorem inv_of_along {C : σ → ο → Prop} {I : σ → List ε → Prop} (hstart : I s [])
    (hstep : ∀ s t op, I s t → C s op → I (step s op) (t ++ [see s op]))
    (h : Along step C s ops) : I (run step s ops) (trace step see s ops) := by
  induction ops using List.reverseRecOn with
  | nil => exact hstart
  | append_singleton ops op ih =>
    obtain ⟨hops, hop⟩ := along_snoc.1 h
    rw [run_snoc, trace_snoc]
    exact hstep _ _ _ (ih hops) hop

end trace

section simulation

variable {σ τ ο ε : Type} {step : σ → ο → σ} {step' : τ → ο → τ} {see : σ → ο → ε} {see' : τ → ο → ε}

/-- Two machines that the same is seen of, as long as `R` relates their states. -/
structure Simulates (step : σ → ο → σ) (see : σ → ο → ε) (step' : τ → ο → τ) (see' : τ → ο → ε)
    (R : σ → τ → Prop) : Prop where
  step : ∀ s t op, R s t → R (step s op) (step' t op)
  see : ∀ s t op, R s t → see s op = see' t op

namespace Simulates

variable {R : σ → τ → Prop} {s : σ} {t : τ}

theorem run (h : Simulates step see step' see' R) (hR : R s t) (ops : List ο) :
    R (Machine.run step s ops) (Machine.run step' t ops) := by
  induction ops generalizing s t with
  | nil => exact hR
  | cons op ops ih => exact ih (h.step s t op hR)

theorem trace_eq (h : Simulates step see step' see' R) (hR : R s t) (ops : List ο) :
    trace step see s ops = trace step' see' t ops := by
  induction ops generalizing s t with
  | nil => rfl
  | cons op ops ih => rw [trace, trace, h.see s t op hR, ih (h.step s t op hR)]

end Simulates

end simulation

section view

variable {σ ο ν : Type} {step : σ → ο → σ} {view : σ → ν} {mine : ο → Bool} {I : σ → Prop} {P : ο → Prop} {s s' : σ}
  {ops : List ο}

theorem view_run_filter_of_step (hinv : ∀ s op, I s → P op → I (step s op))
    (hother : ∀ s op, I s → P op → mine op = false → view (step s op) = view s)
    (hown : ∀ s s' op, I s → I s' → view s = view s' → mine op = true → view (step s op) = view (step s' op))
    (hs : I s) (hs' : I s') (hview : view s = view s') (hops : ∀ op ∈ ops, P op) :
    view (run step s ops) = view (run step s' (ops.filter mine)) := by
  induction ops generalizing s s' with
  | nil => exact hview
  | cons op ops ih =>
    obtain ⟨hop, hops⟩ := List.forall_mem_cons.1 hops
    rw [run_cons, List.filter_cons]
    split
    · next hmine => exact ih (hinv s op hs hop) (hinv s' op hs' hop) (hown s s' op hs hs' hview hmine) hops
    · next hmine =>
      exact ih (hinv s op hs hop) hs' ((hother s op hs hop (Bool.eq_false_iff.2 hmine)).trans hview) hops

end view

section spans

variable {ε : Type} (opens closes : ε → Prop)

def Pending (t : List ε) : Prop :=
  ∃ before e after, t = before ++ e :: after ∧ opens e ∧ ∀ e' ∈ after, ¬closes e'

def Alternates (t : List ε) : Prop :=
  ∀ before e between e' after, t = before ++ e :: between ++ e' :: after → opens e → opens e' →
    ∃ c ∈ between, closes c

variable {opens closes} {t : List ε} {e : ε}

@[simp] theorem not_pending_nil : ¬Pending opens closes [] := by
  rintro ⟨before, e, after, h, -⟩
  simp at h

theorem pending_snoc :
    Pending opens closes (t ++ [e]) ↔ opens e ∨ (Pending opens closes t ∧ ¬closes e) := by
  constructor
  · rintro ⟨before, o, after, hsplit, ho, hafter⟩
    induction after using List.reverseRecOn with
    | nil =>
      obtain ⟨-, he⟩ := List.append_inj' hsplit rfl
      obtain rfl : e = o := by simpa using he
      exact .inl ho
    | append_singleton after last =>
      rw [← List.cons_append, ← List.append_assoc] at hsplit
      obtain ⟨ht, he⟩ := List.append_inj' hsplit rfl
      obtain rfl : e = last := by simpa using he
      exact .inr ⟨⟨before, o, after, ht, ho, fun e' he' => hafter e' (by simp [he'])⟩,
        hafter e (by simp)⟩
  · rintro (ho | ⟨⟨before, o, after, rfl, ho, hafter⟩, hclose⟩)
    · exact ⟨t, e, [], rfl, ho, by simp⟩
    · refine ⟨before, o, after ++ [e], by simp, ho, fun e' he' => ?_⟩
      cases List.mem_append.1 he' with
      | inl he' => exact hafter e' he'
      | inr he' => exact List.mem_singleton.1 he' ▸ hclose

@[simp] theorem alternates_nil : Alternates opens closes [] := by
  intro before e between e' after h
  simp at h

theorem alternates_snoc :
    Alternates opens closes (t ++ [e]) ↔
      Alternates opens closes t ∧ (opens e → ¬Pending opens closes t) := by
  constructor
  · intro h
    refine ⟨fun before o between o' after ht => ?_, ?_⟩
    · exact h before o between o' (after ++ [e]) (by simp [ht])
    · rintro he ⟨before, o, between, rfl, ho, hbetween⟩
      obtain ⟨c, hc, hclose⟩ := h before o between e [] (by simp) ho he
      exact hbetween c hc hclose
  · rintro ⟨h, hlast⟩ before o between o' after ht ho ho'
    induction after using List.reverseRecOn with
    | nil =>
      obtain ⟨rfl, he⟩ := List.append_inj' ht rfl
      obtain rfl : e = o' := by simpa using he
      by_contra hnone
      refine hlast ho' ⟨before, o, between, rfl, ho, fun c hc hclose => hnone ⟨c, hc, hclose⟩⟩
    | append_singleton after last =>
      rw [← List.cons_append, ← List.append_assoc] at ht
      obtain ⟨rfl, -⟩ := List.append_inj' ht rfl
      exact h before o between o' after rfl ho ho'

end spans

end Quinn.Machine
