import Mathlib.Data.List.Basic
import Mathlib.Order.Monotone.Defs
import Mathlib.Order.RelIso.Basic

/-! Programs that may raise, by a view of their state on which they can only go up.  A run that
returns with the view it started from has not left it on the way. -/

namespace Quinn.Machine

variable {ε σ α β υ ι : Type} {x : EStateM ε σ α} {f : α → EStateM ε σ β} {s s' : σ}

theorem run_bind_ok {b : β} : (x >>= f).run s = .ok b s' ↔
    ∃ a t, x.run s = .ok a t ∧ (f a).run t = .ok b s' := by
  rw [EStateM.run_bind]
  cases x.run s <;> simp [and_assoc]

/-- What holds of the states before and after, whenever the program returns. -/
def Relates (R : σ → σ → Prop) (x : EStateM ε σ α) : Prop :=
  ∀ s a s', x.run s = .ok a s' → R s s'

/-- What holds of the answer and the state after, whenever the program returns. -/
def Ensures (P : α → σ → Prop) (x : EStateM ε σ α) : Prop :=
  ∀ s a s', x.run s = .ok a s' → P a s'

namespace Relates

variable {R : σ → σ → Prop}

theorem of_throw (e : ε) : Relates R (throw e : EStateM ε σ α) := by
  intro s a s' h
  cases h

section

variable [Std.Refl R]

theorem of_pure (a : α) : Relates R (pure a : EStateM ε σ α) := by
  intro s b s' h
  cases h
  exact Std.Refl.refl s

theorem of_get : Relates R (get : EStateM ε σ σ) := by
  intro s b s' h
  cases h
  exact Std.Refl.refl s

end

theorem of_modify {g : σ → σ} (hg : ∀ s, R s (g s)) :
    Relates R (modify g : EStateM ε σ PUnit) := by
  intro s a s' h
  cases h
  exact hg s

theorem bind [IsTrans σ R] (hx : Relates R x) (hf : ∀ a, Relates R (f a)) :
    Relates R (x >>= f) := by
  intro s b s' h
  obtain ⟨a, t, hxt, hft⟩ := run_bind_ok.1 h
  exact Trans.trans (hx s a t hxt) (hf a t b s' hft)

theorem forM [Std.Refl R] [IsTrans σ R] {xs : List ι} {g : ι → EStateM ε σ PUnit}
    (hg : ∀ i ∈ xs, Relates R (g i)) : Relates R (forM xs g) := by
  induction xs with
  | nil => exact of_pure _
  | cons i xs ih =>
    rw [List.forM_cons]
    exact (hg i List.mem_cons_self).bind fun _ => ih fun j hj => hg j (List.mem_cons_of_mem _ hj)

end Relates

theorem Ensures.bind {P : β → σ → Prop} (hf : ∀ a, Ensures P (f a)) : Ensures P (x >>= f) := by
  intro s b s' h
  obtain ⟨a, t, -, hft⟩ := run_bind_ok.1 h
  exact hf a t b s' hft

/-- What holds after, of a program started where `P` holds, whenever it returns. -/
def Returns (P : σ → Prop) (x : EStateM ε σ α) (Q : α → σ → Prop) : Prop :=
  ∀ s, P s → ∀ a s', x.run s = .ok a s' → Q a s'

namespace Returns

variable {P : σ → Prop} {Q : α → σ → Prop} {R : β → σ → Prop}

theorem mono {P' : σ → Prop} {Q' : α → σ → Prop} (h : Returns P x Q) (hP : ∀ s, P' s → P s)
    (hQ : ∀ a s, Q a s → Q' a s) : Returns P' x Q' :=
  fun s hs a s' hrun => hQ a s' (h s (hP s hs) a s' hrun)

theorem of_pure {a : α} (h : ∀ s, P s → Q a s) : Returns P (pure a : EStateM ε σ α) Q := by
  intro s hs b s' hrun
  cases hrun
  exact h s hs

theorem of_get {R : σ → σ → Prop} (h : ∀ s, P s → R s s) : Returns P (get : EStateM ε σ σ) R := by
  intro s hs b s' hrun
  cases hrun
  exact h s hs

theorem of_modify {P' : σ → Prop} {g : σ → σ} (h : ∀ s, P s → P' (g s)) :
    Returns P (modify g : EStateM ε σ PUnit) fun _ => P' := by
  intro s hs b s' hrun
  cases hrun
  exact h s hs

theorem of_throw {e : ε} : Returns P (throw e : EStateM ε σ α) Q := by
  intro s hs a s' hrun
  cases hrun

theorem of_throw_bind {e : ε} : Returns P (throw e >>= f) R := by
  intro s hs b s' hrun
  cases hrun

theorem bind (hx : Returns P x Q) (hf : ∀ a, Returns (Q a) (f a) R) : Returns P (x >>= f) R := by
  intro s hs b s' hrun
  obtain ⟨a, t, hxt, hft⟩ := run_bind_ok.1 hrun
  exact hf a t (hx s hs a t hxt) b s' hft

theorem forM {xs : List υ} {g : υ → EStateM ε σ PUnit} {I : Nat → σ → Prop}
    (h : ∀ n (hn : n < xs.length), Returns (I n) (g xs[n]) fun _ => I (n + 1)) :
    Returns (I 0) (xs.forM g) fun _ => I xs.length := by
  induction xs generalizing I with
  | nil => exact of_pure fun _ hs => hs
  | cons y xs ih =>
    have hhead := h 0 (Nat.succ_pos _)
    have htail := ih (I := fun n => I (n + 1)) fun n hn => h (n + 1) (Nat.succ_lt_succ hn)
    exact hhead.bind fun _ => htail

theorem forM_zipIdx {xs : List υ} {g : υ → Nat → EStateM ε σ PUnit} {I : Nat → σ → Prop}
    (h : ∀ n (hn : n < xs.length), Returns (I n) (g xs[n] n) fun _ => I (n + 1)) :
    Returns (I 0) (xs.zipIdx.forM fun y => g y.1 y.2) fun _ => I xs.length := by
  have hloop : Returns (I 0) (xs.zipIdx.forM fun y => g y.1 y.2) fun _ => I xs.zipIdx.length :=
    forM fun n hn => by simpa using h n (by simpa using hn)
  simpa only [List.length_zipIdx] using hloop

end Returns

theorem exists_run_forM {I : σ → Prop} {xs : List ι} {g : ι → EStateM ε σ PUnit}
    (hg : ∀ i ∈ xs, ∀ s, I s → ∃ s', (g i).run s = .ok ⟨⟩ s' ∧ I s') (hs : I s) :
    ∃ s', (forM xs g).run s = .ok ⟨⟩ s' ∧ I s' := by
  induction xs generalizing s with
  | nil => exact ⟨s, rfl, hs⟩
  | cons i xs ih =>
    obtain ⟨t, hi, ht⟩ := hg i List.mem_cons_self s hs
    obtain ⟨s', hrest, hs'⟩ := ih (fun j hj => hg j (List.mem_cons_of_mem _ hj)) ht
    rw [List.forM_cons]
    exact ⟨s', run_bind_ok.2 ⟨_, t, hi, hrest⟩, hs'⟩

section inflationary

variable [PartialOrder υ] {view : σ → υ}

def Inflationary (view : σ → υ) (x : EStateM ε σ α) : Prop := Relates (Order.Preimage view (· ≤ ·)) x

theorem Ensures.bind_of_monotone {P : υ → Prop} (hP : Monotone P)
    (hx : Ensures (fun _ s => P (view s)) x) (hf : ∀ a, Inflationary view (f a)) :
    Ensures (fun _ s => P (view s)) (x >>= f) := by
  intro s b s' h
  obtain ⟨a, t, hxt, hft⟩ := run_bind_ok.1 h
  exact hP (hf a t b s' hft) (hx s a t hxt)

theorem Ensures.forM {P : ι → υ → Prop} (hP : ∀ i, Monotone (P i)) {xs : List ι}
    {g : ι → EStateM ε σ PUnit} (hg : ∀ i, Inflationary view (g i))
    (hensures : ∀ i, Ensures (fun _ s => P i (view s)) (g i)) :
    Ensures (fun _ s => ∀ i ∈ xs, P i (view s)) (forM xs g) := by
  induction xs with
  | nil =>
    intro s a s' h i hi
    cases hi
  | cons i xs ih =>
    intro s a s' h
    rw [List.forM_cons] at h
    have hhead := (hensures i).bind_of_monotone (hP i) (f := fun _ => ForM.forM xs g)
      (fun _ => Relates.forM fun j _ => hg j) s a s' h
    have htail := Ensures.bind (x := g i) (fun _ => ih) s a s' h
    exact List.forall_mem_cons.2 ⟨hhead, htail⟩

def Stays (view : σ → υ) (x : EStateM ε σ α) (s : σ) : Prop :=
  ∃ a s', x.run s = .ok a s' ∧ view s' = view s

theorem Stays.bind (h : Stays view (x >>= f) s) (hx : Inflationary view x)
    (hf : ∀ a, Inflationary view (f a)) :
    ∃ a t, x.run s = .ok a t ∧ view t = view s ∧ Stays view (f a) t := by
  obtain ⟨b, s', hrun, hview⟩ := h
  obtain ⟨a, t, hxt, hft⟩ := run_bind_ok.1 hrun
  have hup : view s ≤ view t := hx s a t hxt
  have hback : view t ≤ view s := hview ▸ hf a t b s' hft
  have hsame := le_antisymm hback hup
  exact ⟨a, t, hxt, hsame, b, s', hft, hview.trans hsame.symm⟩

theorem Stays.forM {I : σ → Prop} {xs : List ι} {g : ι → EStateM ε σ PUnit}
    (h : Stays view (ForM.forM xs g) s) (hg : ∀ i, Inflationary view (g i))
    (hI : ∀ i, Relates (fun s s' => I s → I s') (g i)) (hs : I s) :
    ∀ i ∈ xs, ∃ t, view t = view s ∧ I t ∧ Stays view (g i) t := by
  induction xs generalizing s with
  | nil =>
    intro i hi
    cases hi
  | cons j xs ih =>
    rw [List.forM_cons] at h
    obtain ⟨a, t, hj, hview, hrest⟩ := h.bind (hg j) fun _ => Relates.forM fun i _ => hg i
    intro i hi
    cases hi with
    | head => exact ⟨s, rfl, hs, a, t, hj, hview⟩
    | tail _ hi =>
      obtain ⟨u, hu, hIu, hstays⟩ := ih hrest (hI j s a t hj hs) i hi
      exact ⟨u, hu.trans hview, hIu, hstays⟩

end inflationary

end Quinn.Machine

/-! Programs that take steps in turn, and raise at the first of them that fails. -/

namespace Quinn.Machine

variable {ε σ ι α β υ : Type}

structure Course (ι σ : Type) where
  fails : ι → Bool
  halted : ι → σ → Prop

/-- Started where `P` holds, the program takes the steps `l`: if none of them fails it returns where
`Q` holds, and otherwise it raises at the first that does. -/
def Takes (c : Course ι σ) (l : List ι) (P : σ → Prop) (p : EStateM ε σ α) (Q : α → σ → Prop) : Prop :=
  ∀ s, P s →
    match p.run s with
    | .ok a t => l.find? c.fails = none ∧ Q a t
    | .error _ t => ∃ i, l.find? c.fails = some i ∧ c.halted i t

namespace Takes

variable {c : Course ι σ} {l l' : List ι} {P P' : σ → Prop} {p : EStateM ε σ α} {Q Q' : α → σ → Prop}

theorem mono (h : Takes c l P p Q) (hP : ∀ s, P' s → P s) (hQ : ∀ a s, Q a s → Q' a s) : Takes c l P' p Q' := by
  intro s hs
  have hp := h s (hP s hs)
  split at hp
  next => exact ⟨hp.1, hQ _ _ hp.2⟩
  next => exact hp

theorem pure (a : α) (h : ∀ s, P s → Q a s) : Takes c [] P (pure a : EStateM ε σ α) Q :=
  fun s hs => ⟨rfl, h s hs⟩

theorem get {R : σ → σ → Prop} (h : ∀ s, P s → R s s) : Takes c [] P (get : EStateM ε σ σ) R :=
  fun s hs => ⟨rfl, h s hs⟩

theorem modify {f : σ → σ} (h : ∀ s, P s → P' (f s)) :
    Takes c [] P (modify f : EStateM ε σ PUnit) fun _ => P' :=
  fun s hs => ⟨rfl, h s hs⟩

theorem bind {f : α → EStateM ε σ β} {R : β → σ → Prop} (hp : Takes c l P p Q)
    (hf : ∀ a, Takes c l' (Q a) (f a) R) : Takes c (l ++ l') P (p >>= f) R := by
  intro s hs
  have hhead := hp s hs
  rw [EStateM.run_bind]
  cases hrun : p.run s with
  | error e t =>
    rw [hrun] at hhead
    obtain ⟨i, hi, hhalted⟩ := hhead
    exact ⟨i, by rw [List.find?_append, hi, Option.some_or], hhalted⟩
  | ok a t =>
    rw [hrun] at hhead
    obtain ⟨hnone, hQ⟩ := hhead
    have hrest := hf a t hQ
    simp only [List.find?_append, hnone, Option.none_or]
    exact hrest

theorem bind_nil {f : α → EStateM ε σ β} {R : β → σ → Prop} (hp : Takes c [] P p Q)
    (hf : ∀ a, Takes c l (Q a) (f a) R) : Takes c l P (p >>= f) R := hp.bind hf

theorem bind_last {f : α → EStateM ε σ β} {R : β → σ → Prop} (hp : Takes c l P p Q)
    (hf : ∀ a, Takes c [] (Q a) (f a) R) : Takes c l P (p >>= f) R :=
  l.append_nil ▸ hp.bind hf

theorem cons {i : ι} {f : α → EStateM ε σ β} {R : β → σ → Prop} (hp : Takes c [i] P p Q)
    (hf : ∀ a, Takes c l (Q a) (f a) R) : Takes c (i :: l) P (p >>= f) R := hp.bind hf

/-- A loop, by an invariant of the turns that have been made. -/
theorem forM {xs : List υ} {l : υ → List ι} {g : υ → EStateM ε σ PUnit} {I : Nat → σ → Prop}
    (h : ∀ n (hn : n < xs.length), Takes c (l xs[n]) (I n) (g xs[n]) fun _ => I (n + 1)) :
    Takes c (xs.flatMap l) (I 0) (xs.forM g) fun _ => I xs.length := by
  induction xs generalizing I with
  | nil => exact .pure _ fun _ hs => hs
  | cons y xs ih =>
    have hhead := h 0 (Nat.succ_pos _)
    have htail := ih (I := fun n => I (n + 1)) fun n hn => h (n + 1) (Nat.succ_lt_succ hn)
    exact hhead.bind fun _ => htail

theorem forM_zipIdx {xs : List υ} {l : υ → Nat → List ι} {g : υ → Nat → EStateM ε σ PUnit} {I : Nat → σ → Prop}
    (h : ∀ n (hn : n < xs.length), Takes c (l xs[n] n) (I n) (g xs[n] n) fun _ => I (n + 1)) :
    Takes c (xs.zipIdx.flatMap fun y => l y.1 y.2) (I 0) (xs.zipIdx.forM fun y => g y.1 y.2)
      fun _ => I xs.length := by
  have hloop : Takes c (xs.zipIdx.flatMap fun y => l y.1 y.2) (I 0) (xs.zipIdx.forM fun y => g y.1 y.2)
      fun _ => I xs.zipIdx.length :=
    forM fun n hn => by simpa using h n (by simpa using hn)
  simpa only [List.length_zipIdx] using hloop

end Takes

end Quinn.Machine
