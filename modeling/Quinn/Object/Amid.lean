import Quinn.Object.Interleaving

/-! One call amid the calls of others, which may do anything between two of its accesses. -/

namespace Quinn.Object

variable {τ ο σ κ ν δ ε ω α β : Type}

/-- What a call has done: of each access the object as it was found and as it was left, and of each
question what came of it. -/
structure Trace (σ κ ν δ : Type) where
  accesses : List (σ × σ) := []
  asked : List (κ × Except δ ν) := []

namespace Trace

def access (t : Trace σ κ ν δ) (found left : σ) : Trace σ κ ν δ :=
  { t with accesses := t.accesses ++ [(found, left)] }

def ask (t : Trace σ κ ν δ) (q : κ) (r : Except δ ν) : Trace σ κ ν δ := { t with asked := t.asked ++ [(q, r)] }

variable {t : Trace σ κ ν δ} {found left : σ} {q : κ} {r : Except δ ν}

@[simp] theorem accesses_access : (t.access found left).accesses = t.accesses ++ [(found, left)] := rfl

@[simp] theorem asked_access : (t.access found left).asked = t.asked := rfl

@[simp] theorem accesses_ask : (t.ask q r).accesses = t.accesses := rfl

@[simp] theorem asked_ask : (t.ask q r).asked = t.asked ++ [(q, r)] := rfl

/-- `P` of the access that is the `n`th. -/
def At (t : Trace σ κ ν δ) (n : Nat) (P : σ → Prop) : Prop := ∃ c ∈ t.accesses[n]?, P c.1

instance (n : Nat) (P : σ → Prop) [DecidablePred P] : Decidable (t.At n P) :=
  inferInstanceAs (Decidable (∃ c ∈ t.accesses[n]?, P c.1))

@[simp] theorem at_ask {n : Nat} {P : σ → Prop} : (t.ask q r).At n P ↔ t.At n P := Iff.rfl

theorem at_access {n : Nat} {P : σ → Prop} :
    (t.access found left).At n P ↔ t.At n P ∨ t.accesses.length = n ∧ P found := by
  unfold At
  rw [accesses_access]
  rcases Nat.lt_trichotomy n t.accesses.length with hlt | rfl | hgt
  · rw [List.getElem?_append_left hlt]
    exact ⟨.inl, fun h => h.resolve_right fun hn => absurd hn.1 (Nat.ne_of_gt hlt)⟩
  · simp
  · have hend : (t.accesses ++ [(found, left)]).length ≤ n := by simp; omega
    rw [List.getElem?_eq_none hend, List.getElem?_eq_none (Nat.le_of_lt hgt)]
    simpa using fun hn => absurd hn (Nat.ne_of_lt hgt)

theorem not_at_of_length_le {n : Nat} {P : σ → Prop} (h : t.accesses.length ≤ n) : ¬t.At n P := by
  rintro ⟨c, hc, -⟩
  rw [List.getElem?_eq_none h] at hc
  cases hc

end Trace

/-- What there is around a call: what an operation looks at and does, the events of the others before
its `n`th access, or after its last, and what comes of its `n`th question. -/
structure Setting (τ ο σ κ ν δ ε ω : Type) where
  look : ο → σ → ω
  body : ο → Prog σ κ ν δ ε Unit
  meanwhile : Nat → List (Event τ ο ν δ)
  answer : Nat → κ → Except δ ν

structure Played (τ ο σ κ ν δ ε ω α : Type) where
  result : Except ε α
  trace : Trace σ κ ν δ
  sys : Sys τ ο σ κ ν δ ε ω

variable [DecidableEq τ] [DecidableEq ω]

/-- How the last of the events that is seen to change the object leaves it. -/
def Sys.lastSet (look : ο → σ → ω) (body : ο → Prog σ κ ν δ ε Unit) (view : σ → ω) :
    Sys τ ο σ κ ν δ ε ω → List (Event τ ο ν δ) → Option ω
  | _, [] => none
  | s, e :: es =>
    let s' := s.step look body e
    s'.lastSet look body view es <|> if view s'.obj = view s.obj then none else some (view s'.obj)

theorem Sys.view_run (look : ο → σ → ω) (body : ο → Prog σ κ ν δ ε Unit) (view : σ → ω)
    (s : Sys τ ο σ κ ν δ ε ω) (events : List (Event τ ο ν δ)) :
    view (s.run look body events).obj = (s.lastSet look body view events).getD (view s.obj) := by
  induction events generalizing s with
  | nil => rfl
  | cons e es ih =>
    refine (ih (s.step look body e)).trans ?_
    rw [lastSet]
    cases (s.step look body e).lastSet look body view es with
    | some v => rfl
    | none =>
      by_cases h : view (s.step look body e).obj = view s.obj <;> simp [h]

namespace Setting

def pass (w : Setting τ ο σ κ ν δ ε ω) (t : Trace σ κ ν δ) (s : Sys τ ο σ κ ν δ ε ω) : Sys τ ο σ κ ν δ ε ω :=
  s.run w.look w.body (w.meanwhile t.accesses.length)

/-- What the others do to the object next is seen to leave it as this at last, if they do anything to it
that is seen. -/
def lastSet (w : Setting τ ο σ κ ν δ ε ω) (view : σ → ω) (t : Trace σ κ ν δ) (s : Sys τ ο σ κ ν δ ε ω) : Option ω :=
  s.lastSet w.look w.body view (w.meanwhile t.accesses.length)

def play (w : Setting τ ο σ κ ν δ ε ω) :
    Prog σ κ ν δ ε α → Trace σ κ ν δ → Sys τ ο σ κ ν δ ε ω → Played τ ο σ κ ν δ ε ω α
  | .ret a, t, s => ⟨.ok a, t, s⟩
  | .raise e, t, s => ⟨.error e, t, s⟩
  | .get k, t, s =>
    let found := (w.pass t s).obj
    w.play (k found) (t.access found found) (w.pass t s)
  | .put g k, t, s =>
    let found := (w.pass t s).obj
    w.play (k found) (t.access found (g found)) { w.pass t s with obj := g found }
  | .ask q k, t, s =>
    let r := w.answer t.asked.length q
    w.play (k r) (t.ask q r) s

def call (w : Setting τ ο σ κ ν δ ε ω) (p : Prog σ κ ν δ ε α) (s : Sys τ ο σ κ ν δ ε ω) :
    Played τ ο σ κ ν δ ε ω α :=
  let o := w.play p {} s
  { o with sys := w.pass o.trace o.sys }

def Ensures (w : Setting τ ο σ κ ν δ ε ω) (Q : α → Trace σ κ ν δ → Sys τ ο σ κ ν δ ε ω → Prop)
    (E : ε → Trace σ κ ν δ → Sys τ ο σ κ ν δ ε ω → Prop) :
    Prog σ κ ν δ ε α → Trace σ κ ν δ → Sys τ ο σ κ ν δ ε ω → Prop
  | .ret a, t, s => Q a t s
  | .raise e, t, s => E e t s
  | .get k, t, s =>
    let found := (w.pass t s).obj
    w.Ensures Q E (k found) (t.access found found) (w.pass t s)
  | .put g k, t, s =>
    let found := (w.pass t s).obj
    w.Ensures Q E (k found) (t.access found (g found)) { w.pass t s with obj := g found }
  | .ask q k, t, s =>
    let r := w.answer t.asked.length q
    w.Ensures Q E (k r) (t.ask q r) s

variable {w : Setting τ ο σ κ ν δ ε ω} {Q : α → Trace σ κ ν δ → Sys τ ο σ κ ν δ ε ω → Prop}
  {E : ε → Trace σ κ ν δ → Sys τ ο σ κ ν δ ε ω → Prop} {t : Trace σ κ ν δ} {s : Sys τ ο σ κ ν δ ε ω}

@[simp] theorem ensures_ret (a : α) : w.Ensures Q E (.ret a : Prog σ κ ν δ ε α) t s ↔ Q a t s := Iff.rfl

@[simp] theorem ensures_raise (e : ε) : w.Ensures Q E (.raise e : Prog σ κ ν δ ε α) t s ↔ E e t s := Iff.rfl

theorem Ensures.play {p : Prog σ κ ν δ ε α} (h : w.Ensures Q E p t s) :
    (∀ a, (w.play p t s).result = .ok a → Q a (w.play p t s).trace (w.play p t s).sys) ∧
      ∀ e, (w.play p t s).result = .error e → E e (w.play p t s).trace (w.play p t s).sys := by
  induction p generalizing t s with
  | ret a => exact ⟨fun _ hok => Except.ok.inj hok ▸ h, nofun⟩
  | raise e => exact ⟨nofun, fun _ herror => Except.error.inj herror ▸ h⟩
  | get k ih => exact ih _ h
  | put g k ih => exact ih _ h
  | ask q k ih => exact ih _ h

theorem Ensures.mono {Q' : α → Trace σ κ ν δ → Sys τ ο σ κ ν δ ε ω → Prop}
    {E' : ε → Trace σ κ ν δ → Sys τ ο σ κ ν δ ε ω → Prop} {p : Prog σ κ ν δ ε α} (h : w.Ensures Q E p t s)
    (hQ : ∀ a t s, Q a t s → Q' a t s) (hE : ∀ e t s, E e t s → E' e t s) : w.Ensures Q' E' p t s := by
  induction p generalizing t s with
  | ret a => exact hQ a t s h
  | raise e => exact hE e t s h
  | get k ih => exact ih _ h
  | put g k ih => exact ih _ h
  | ask q k ih => exact ih _ h

@[simp] theorem ensures_bind (p : Prog σ κ ν δ ε α) (f : α → Prog σ κ ν δ ε β)
    {Q : β → Trace σ κ ν δ → Sys τ ο σ κ ν δ ε ω → Prop} :
    w.Ensures Q E (p.bind f) t s ↔ w.Ensures (fun a t s => w.Ensures Q E (f a) t s) E p t s := by
  induction p generalizing t s with
  | ret a => rfl
  | raise e => rfl
  | get k ih => exact ih _
  | put g k ih => exact ih _
  | ask q k ih => exact ih _

@[simp] theorem ensures_handle (p : Prog σ κ ν δ ε α) (h : ε → Prog σ κ ν δ ε α) :
    w.Ensures Q E (p.handle h) t s ↔ w.Ensures Q (fun e t s => w.Ensures Q E (h e) t s) p t s := by
  induction p generalizing t s with
  | ret a => rfl
  | raise e => rfl
  | get k ih => exact ih _
  | put g k ih => exact ih _
  | ask q k ih => exact ih _

@[simp] theorem ensures_ensure (p : Prog σ κ ν δ ε α) (fin : Prog σ κ ν δ ε Unit) :
    w.Ensures Q E (p.ensure fin) t s ↔
      w.Ensures (fun a t s => w.Ensures (fun _ t s => Q a t s) E fin t s)
        (fun e t s => w.Ensures (fun _ t s => E e t s) E fin t s) p t s := by
  induction p generalizing t s with
  | ret a => simp [Prog.ensure, Ensures]
  | raise e => simp [Prog.ensure, Ensures]
  | get k ih => exact ih _
  | put g k ih => exact ih _
  | ask q k ih => exact ih _

theorem Ensures.bind {Q' : β → Trace σ κ ν δ → Sys τ ο σ κ ν δ ε ω → Prop}
    {E' : ε → Trace σ κ ν δ → Sys τ ο σ κ ν δ ε ω → Prop} {p : Prog σ κ ν δ ε α}
    {f : α → Prog σ κ ν δ ε β} (h : w.Ensures Q E p t s) (hE : ∀ e t s, E e t s → E' e t s)
    (hQ : ∀ a t s, Q a t s → w.Ensures Q' E' (f a) t s) : w.Ensures Q' E' (p.bind f) t s :=
  (ensures_bind p f).2 (h.mono hQ hE)

@[simp] theorem ensures_raiseIf (c : Prop) [Decidable c] (e : ε)
    {Q : Unit → Trace σ κ ν δ → Sys τ ο σ κ ν δ ε ω → Prop} :
    w.Ensures Q E (Prog.raiseIf c e : Prog σ κ ν δ ε Unit) t s ↔ (c → E e t s) ∧ (¬c → Q () t s) := by
  by_cases hc : c <;> simp [Prog.raiseIf, hc]

@[simp] theorem ensures_request (lift : δ → ε) (q : κ) {Q : ν → Trace σ κ ν δ → Sys τ ο σ κ ν δ ε ω → Prop} :
    w.Ensures Q E (Prog.request lift q : Prog σ κ ν δ ε ν) t s ↔
      (∀ a, w.answer t.asked.length q = .ok a → Q a (t.ask q (.ok a)) s) ∧
        ∀ e, w.answer t.asked.length q = .error e → E (lift e) (t.ask q (.error e)) s := by
  rw [Prog.request, Ensures]
  cases w.answer t.asked.length q <;> simp

theorem ensures_of_lasting {P : Trace σ κ ν δ → Prop} (haccess : ∀ t found left, P t → P (t.access found left))
    (hask : ∀ t q r, P t → P (t.ask q r)) (p : Prog σ κ ν δ ε α) (ht : P t) :
    w.Ensures (fun _ t _ => P t) (fun _ t _ => P t) p t s := by
  induction p generalizing t s with
  | ret a => exact ht
  | raise e => exact ht
  | get k ih => exact ih _ (haccess _ _ _ ht)
  | put g k ih => exact ih _ (haccess _ _ _ ht)
  | ask q k ih => exact ih _ (hask _ _ _ ht)

end Setting

def Event.OfOps (P : ο → Prop) : Event τ ο ν δ → Prop
  | .call _ op => P op
  | _ => True

namespace Sys

/-- The calls under way are of operations in `P`. -/
def OfOps (P : ο → Prop) (s : Sys τ ο σ κ ν δ ε ω) : Prop := ∀ i t, s.threads i = some t → P t.op

variable {P : ο → Prop} {s : Sys τ ο σ κ ν δ ε ω} {look : ο → σ → ω} {body : ο → Prog σ κ ν δ ε Unit}

omit [DecidableEq ω] in
theorem OfOps.setThread (h : s.OfOps P) {i : τ} {t : Option (Thread ο σ κ ν δ ε ω)} (ht : ∀ t' ∈ t, P t'.op) :
    (s.setThread i t).OfOps P := by
  intro j t' hj
  by_cases hji : j = i
  · subst hji
    rw [threads_setThread_self] at hj
    exact ht t' hj
  · rw [threads_setThread_of_ne s hji] at hj
    exact h j t' hj

theorem OfOps.next (h : s.OfOps P) {i : τ} {t : Thread ο σ κ ν δ ε ω} (ht : P t.op) :
    (s.next look i t).OfOps P := by
  obtain ⟨op, prog, sight⟩ := t
  cases prog with
  | ret a => exact h.setThread (by simp)
  | raise e => exact h.setThread (by simp)
  | get k => exact h.setThread fun t' ht' => by cases ht'; exact ht
  | put g k =>
    have hobj : OfOps P ({ s with obj := g s.obj } : Sys τ ο σ κ ν δ ε ω) := h
    exact hobj.setThread fun t' ht' => by cases ht'; exact ht
  | ask q k => exact h

theorem OfOps.step (h : s.OfOps P) {e : Event τ ο ν δ} (he : e.OfOps P) : (s.step look body e).OfOps P := by
  cases e with
  | call i op =>
    simp only [Sys.step]
    split
    · exact h
    · exact h.setThread fun t' ht' => by cases ht'; exact he
  | step i =>
    simp only [Sys.step]
    split
    · exact h.next (h i _ ‹_›)
    · exact h
  | answer i r =>
    simp only [Sys.step]
    split
    · next t ht =>
      have hop := h i t ht
      obtain ⟨op, prog, sight⟩ := t
      cases prog with
      | ask q k => exact h.setThread fun t' ht' => by cases ht'; exact hop
      | ret a => exact h
      | raise e => exact h
      | get k => exact h
      | put g k => exact h
    · exact h

end Sys

/-- The others behave, and their operations are in `P`. -/
structure Others (C : ο → Conduct σ ε ω) (P : ο → Prop) (s : Sys τ ο σ κ ν δ ε ω) : Prop where
  behave : AllBehave C s
  ops : s.OfOps P

section others

variable {C : ο → Conduct σ ε ω} {P : ο → Prop} {s : Sys τ ο σ κ ν δ ε ω} {look : ο → σ → ω}
  {body : ο → Prog σ κ ν δ ε Unit} (hlook : ∀ op, (C op).look = look op)
  (hbody : ∀ op, (C op).Obeys (fun _ _ => True) (fun e v => (C op).raises v.disturbed e) (body op) {})

include hlook hbody

theorem Others.run (h : Others C P s) {I : σ → Prop} (hchange : ∀ op d a b, P op → (C op).change d a b → I a → I b)
    {events : List (Event τ ο ν δ)} (hevents : ∀ e ∈ events, e.OfOps P) (hI : I s.obj) :
    Others C P (s.run look body events) ∧ I (s.run look body events).obj := by
  induction events generalizing s with
  | nil => exact ⟨h, hI⟩
  | cons e es ih =>
    obtain ⟨hbehave, hproper⟩ := h.behave.step hlook hbody e
    obtain ⟨he, hes⟩ := List.forall_mem_cons.1 hevents
    refine ih ⟨hbehave, h.ops.step he⟩ hes ?_
    rcases hproper.change with heq | ⟨i, t, -, ht, hc⟩
    · rw [heq]
      exact hI
    · exact hchange t.op _ _ _ (h.ops i t ht) hc hI

end others

end Quinn.Object
