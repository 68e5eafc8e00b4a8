import Quinn.Object.Sequential

/-! Calls that go through stages, each of which may fail; what they promise is that a call that fails has
changed nothing. -/

namespace Quinn.Object

inductive Timing
  | before | after
  deriving DecidableEq

structure Stage where
  fails : Option Timing := none
  changes : Bool := false

namespace Stage

def Fine (stages : List Stage) : Prop := ∀ st ∈ stages, st.fails = none

def Unharmed : List Stage → Prop
  | [] => True
  | st :: stages =>
    match st.fails with
    | some .before => True
    | some .after => st.changes = false
    | none => if st.changes then Fine stages else Unharmed stages

instance (stages : List Stage) : Decidable (Fine stages) := inferInstanceAs (Decidable (∀ _ ∈ _, _))

instance decidableUnharmed : (stages : List Stage) → Decidable (Unharmed stages)
  | [] => inferInstanceAs (Decidable True)
  | st :: stages =>
    have := decidableUnharmed stages
    match h : st.fails with
    | some .before => .isTrue (by rw [Unharmed, h]; trivial)
    | some .after => decidable_of_iff (st.changes = false) (by rw [Unharmed, h])
    | none => decidable_of_iff (if st.changes then Fine stages else Unharmed stages) (by rw [Unharmed, h])

variable {st : Stage} {stages stages' : List Stage}

@[simp] theorem fine_nil : Fine [] := nofun

@[simp] theorem fine_cons : Fine (st :: stages) ↔ st.fails = none ∧ Fine stages := List.forall_mem_cons

@[simp] theorem fine_append : Fine (stages ++ stages') ↔ Fine stages ∧ Fine stages' := List.forall_mem_append

@[simp] theorem unharmed_nil : Unharmed [] := trivial

theorem unharmed_cons_of_before (h : st.fails = some .before) : Unharmed (st :: stages) := by
  rw [Unharmed, h]
  trivial

theorem unharmed_cons_of_after (h : st.fails = some .after) : Unharmed (st :: stages) ↔ st.changes = false := by
  rw [Unharmed, h]

theorem unharmed_cons_of_changes (h : st.fails = none) (hchanges : st.changes = true) :
    Unharmed (st :: stages) ↔ Fine stages := by
  rw [Unharmed, h]
  simp only [hchanges, if_true]

theorem unharmed_cons_of_not_changes (h : st.fails = none) (hchanges : st.changes = false) :
    Unharmed (st :: stages) ↔ Unharmed stages := by
  rw [Unharmed, h]
  simp only [hchanges, Bool.false_eq_true, if_false]

theorem Fine.unharmed (h : Fine stages) : Unharmed stages := by
  induction stages with
  | nil => trivial
  | cons st stages ih =>
    rw [fine_cons] at h
    cases hchanges : st.changes with
    | false => exact (unharmed_cons_of_not_changes h.1 hchanges).2 (ih h.2)
    | true => exact (unharmed_cons_of_changes h.1 hchanges).2 h.2

/-- Of the rest of a call that has changed something already, or not. -/
def UnharmedFrom (dirty : Bool) (stages : List Stage) : Prop :=
  if dirty then Fine stages else Unharmed stages

def dirtyAfter (dirty : Bool) (stages : List Stage) : Bool := dirty || stages.any (·.changes)

variable {dirty : Bool}

theorem dirtyAfter_append : dirtyAfter dirty (stages ++ stages') = dirtyAfter (dirtyAfter dirty stages) stages' := by
  simp only [dirtyAfter, List.any_append, Bool.or_assoc]

theorem unharmedFrom_append_of_not_fine (h : ¬Fine stages) :
    UnharmedFrom dirty (stages ++ stages') ↔ UnharmedFrom dirty stages := by
  cases dirty with
  | true =>
    simp only [UnharmedFrom, if_true, fine_append]
    exact ⟨fun hfine => hfine.1, fun hfine => absurd hfine h⟩
  | false =>
    simp only [UnharmedFrom, Bool.false_eq_true, if_false]
    induction stages with
    | nil => exact absurd fine_nil h
    | cons st stages ih =>
      rw [List.cons_append]
      cases hfails : st.fails with
      | some timing =>
        cases timing with
        | before => exact iff_of_true (unharmed_cons_of_before hfails) (unharmed_cons_of_before hfails)
        | after => rw [unharmed_cons_of_after hfails, unharmed_cons_of_after hfails]
      | none =>
        have hrest : ¬Fine stages := fun hfine => h (fine_cons.2 ⟨hfails, hfine⟩)
        cases hchanges : st.changes with
        | false =>
          rw [unharmed_cons_of_not_changes hfails hchanges, unharmed_cons_of_not_changes hfails hchanges, ih hrest]
        | true =>
          rw [unharmed_cons_of_changes hfails hchanges, unharmed_cons_of_changes hfails hchanges, fine_append]
          exact ⟨fun hfine => hfine.1, fun hfine => absurd hfine hrest⟩

theorem unharmedFrom_append_of_fine (h : Fine stages) :
    UnharmedFrom dirty (stages ++ stages') ↔ UnharmedFrom (dirtyAfter dirty stages) stages' := by
  cases dirty with
  | true =>
    simp only [UnharmedFrom, dirtyAfter, Bool.true_or, if_true, fine_append]
    exact ⟨fun hfine => hfine.2, fun hfine => ⟨h, hfine⟩⟩
  | false =>
    induction stages with
    | nil => rfl
    | cons st stages ih =>
      obtain ⟨hfails, hrest⟩ := fine_cons.1 h
      have hih := ih hrest
      simp only [UnharmedFrom, dirtyAfter, Bool.false_eq_true, if_false, Bool.false_or, List.cons_append,
        List.any_cons] at hih ⊢
      cases hchanges : st.changes with
      | false =>
        rw [unharmed_cons_of_not_changes hfails hchanges, hih]
        rfl
      | true =>
        rw [unharmed_cons_of_changes hfails hchanges, fine_append]
        exact ⟨fun hfine => hfine.2, fun hfine => ⟨hrest, hfine⟩⟩

theorem not_fine_single {timing : Timing} (hst : st.fails = some timing) : ¬Fine [st] := by
  intro hfine
  rw [fine_cons, hst] at hfine
  cases hfine.1

theorem unharmedFrom_single_before (hst : st.fails = some .before) : UnharmedFrom dirty [st] ↔ dirty = false := by
  cases dirty with
  | false => exact iff_of_true (unharmed_cons_of_before hst) rfl
  | true => exact iff_of_false (not_fine_single hst) nofun

theorem unharmedFrom_single_after (hst : st.fails = some .after) :
    UnharmedFrom dirty [st] ↔ dirty = false ∧ st.changes = false := by
  cases dirty with
  | false => exact (unharmed_cons_of_after hst).trans (and_iff_right rfl).symm
  | true => exact iff_of_false (not_fine_single hst) nofun

theorem unharmedFrom_cons_changes {changes : Bool} :
    UnharmedFrom false ({ changes } :: stages) ↔ UnharmedFrom changes stages := by
  cases changes with
  | false =>
    have h : Unharmed ({ changes := false } :: stages) ↔ Unharmed stages := unharmed_cons_of_not_changes rfl rfl
    exact h
  | true =>
    have h : Unharmed ({ changes := true } :: stages) ↔ Fine stages := unharmed_cons_of_changes rfl rfl
    exact h

end Stage

section goes

open Stage

variable {σ κ ν δ ε ρ α β : Type}

structure Promise (σ ρ : Type) where
  rows : σ → ρ
  start : ρ
  Away : σ → Prop
  ne_of_away : ∀ s, Away s → rows s ≠ start

namespace Promise

variable (P : Promise σ ρ) (T : Terms σ κ ν δ)

def Standing (dirty : Bool) (s : σ) : Prop := if dirty then P.Away s else P.rows s = P.start

/-- `p` returns when no stage fails, with `Q` besides; and when it raises, everything is as it was if and only
if nothing had changed. -/
def Goes (dirty : Bool) (stages : List Stage) (Q : α → σ → Prop) (p : Prog σ κ ν δ ε α) (s : σ) : Prop :=
  T.Ensures (fun a s' => Fine stages ∧ P.Standing (dirtyAfter dirty stages) s' ∧ Q a s')
    (fun _ s' => ¬Fine stages ∧ (P.rows s' = P.start ↔ UnharmedFrom dirty stages)) p s

variable {P T} {dirty : Bool} {stages stages' : List Stage} {Q : α → σ → Prop} {p : Prog σ κ ν δ ε α} {s : σ}

theorem goes_ret {a : α} (h : P.Standing dirty s) (hQ : Q a s) : P.Goes T dirty [] Q (.ret a : Prog σ κ ν δ ε α) s := by
  refine ⟨fine_nil, ?_, hQ⟩
  rw [dirtyAfter, List.any_nil, Bool.or_false]
  exact h

theorem Goes.bind (h : P.Goes T dirty stages Q p s) {f : α → Prog σ κ ν δ ε β} {Q' : β → σ → Prop}
    (hf : ∀ a s', P.Standing (dirtyAfter dirty stages) s' → Q a s' →
      P.Goes T (dirtyAfter dirty stages) stages' Q' (f a) s') :
    P.Goes T dirty (stages ++ stages') Q' (p.bind f) s := by
  refine Terms.Ensures.bind h ?_ ?_
  · rintro e s' ⟨hfine, hrows⟩
    refine ⟨fun h => hfine (fine_append.1 h).1, ?_⟩
    rw [hrows, unharmedFrom_append_of_not_fine hfine]
  · rintro a s' ⟨hfine, hstanding, hQ⟩
    refine (hf a s' hstanding hQ).mono ?_ ?_
    · rintro b s'' ⟨hfine', hstanding', hQ'⟩
      rw [fine_append, dirtyAfter_append]
      exact ⟨⟨hfine, hfine'⟩, hstanding', hQ'⟩
    · rintro e s'' ⟨hfine', hrows⟩
      refine ⟨fun h => hfine' (fine_append.1 h).2, ?_⟩
      rw [hrows, unharmedFrom_append_of_fine hfine]

theorem Goes.mono {Q' : α → σ → Prop} (h : P.Goes T dirty stages Q p s) (hQ : ∀ a s, Q a s → Q' a s) :
    P.Goes T dirty stages Q' p s := by
  refine Terms.Ensures.mono h ?_ fun _ _ he => he
  exact fun a s ⟨hfine, hstanding, ha⟩ => ⟨hfine, hstanding, hQ a s ha⟩

theorem Standing.rows_eq_iff (h : P.Standing dirty s) : P.rows s = P.start ↔ dirty = false := by
  cases dirty with
  | false => exact iff_of_true h rfl
  | true => exact iff_of_false (P.ne_of_away s h) nofun

variable (st : Stage)

theorem raised_before (hst : st.fails = some .before) (h : P.Standing dirty s) :
    ¬Fine [st] ∧ (P.rows s = P.start ↔ UnharmedFrom dirty [st]) :=
  ⟨not_fine_single hst, h.rows_eq_iff.trans (unharmedFrom_single_before hst).symm⟩

theorem raised_after (hst : st.fails = some .after) (h : P.Standing (dirty || st.changes) s) :
    ¬Fine [st] ∧ (P.rows s = P.start ↔ UnharmedFrom dirty [st]) := by
  refine ⟨not_fine_single hst, h.rows_eq_iff.trans ?_⟩
  rw [unharmedFrom_single_after hst, Bool.or_eq_false_iff]

theorem returned (hst : st.fails = none) (h : P.Standing (dirty || st.changes) s) :
    Fine [st] ∧ P.Standing (dirtyAfter dirty [st]) s := by
  refine ⟨fine_cons.2 ⟨hst, fine_nil⟩, ?_⟩
  rw [dirtyAfter, List.any_cons, List.any_nil, Bool.or_false]
  exact h

variable {st}

theorem Goes.skip (h : P.Goes T dirty stages Q p s) (hst : st.fails = none) (hchanges : st.changes = false) :
    P.Goes T dirty (st :: stages) Q p s := by
  have hdirty : dirtyAfter dirty (st :: stages) = dirtyAfter dirty stages := by
    rw [dirtyAfter, List.any_cons, hchanges, Bool.false_or]
    rfl
  have hunharmed : UnharmedFrom dirty (st :: stages) ↔ UnharmedFrom dirty stages := by
    cases dirty with
    | false => exact unharmed_cons_of_not_changes hst hchanges
    | true => exact fine_cons.trans (and_iff_right hst)
  unfold Goes at h ⊢
  simp only [fine_cons, hst, true_and, hdirty, hunharmed]
  exact h

theorem goes_raise (hst : st.fails = some .before) (h : P.Standing dirty s) (e : ε) :
    P.Goes T dirty (st :: stages) Q (.raise e : Prog σ κ ν δ ε α) s := by
  have hraised := P.raised_before st hst h
  refine ⟨fun hfine => hraised.1 (fine_cons.2 ⟨(fine_cons.1 hfine).1, fine_nil⟩), hraised.2.trans ?_⟩
  exact (unharmedFrom_append_of_not_fine hraised.1).symm

end Promise

end goes

end Quinn.Object
