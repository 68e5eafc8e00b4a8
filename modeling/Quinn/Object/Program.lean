import Mathlib.Logic.Basic

/-! Programs of the threads that share one object.  Each access to the object is atomic; what a
program asks of its surroundings is answered from outside, or fails. -/

namespace Quinn.Object

/-- `σ` is the object, `κ` what is asked, `ν` an answer, `δ` what asking may fail with, `ε` what
the program itself raises.  Both accesses hand on the object as they find it. -/
inductive Prog (σ κ ν δ ε α : Type) : Type
  | ret : α → Prog σ κ ν δ ε α
  | raise : ε → Prog σ κ ν δ ε α
  | get : (σ → Prog σ κ ν δ ε α) → Prog σ κ ν δ ε α
  | put : (σ → σ) → (σ → Prog σ κ ν δ ε α) → Prog σ κ ν δ ε α
  | ask : κ → (Except δ ν → Prog σ κ ν δ ε α) → Prog σ κ ν δ ε α

namespace Prog

variable {σ κ ν δ ε α β : Type}

def bind : Prog σ κ ν δ ε α → (α → Prog σ κ ν δ ε β) → Prog σ κ ν δ ε β
  | .ret a, f => f a
  | .raise e, _ => .raise e
  | .get k, f => .get fun s => (k s).bind f
  | .put g k, f => .put g fun s => (k s).bind f
  | .ask q k, f => .ask q fun r => (k r).bind f

instance : Monad (Prog σ κ ν δ ε) where
  pure := .ret
  bind := .bind

@[simp] theorem pure_eq (a : α) : (pure a : Prog σ κ ν δ ε α) = .ret a := rfl

@[simp] theorem bind_eq (p : Prog σ κ ν δ ε α) (f : α → Prog σ κ ν δ ε β) : p >>= f = p.bind f := rfl

theorem bind_assoc {γ : Type} (p : Prog σ κ ν δ ε α) (f : α → Prog σ κ ν δ ε β) (g : β → Prog σ κ ν δ ε γ) :
    (p.bind f).bind g = p.bind fun a => (f a).bind g := by
  induction p with
  | ret a => rfl
  | raise e => rfl
  | get k ih => exact congrArg _ (funext ih)
  | put h k ih => exact congrArg _ (funext ih)
  | ask q k ih => exact congrArg _ (funext ih)

/-- `except`: whatever is raised is handed to `h`. -/
def handle : Prog σ κ ν δ ε α → (ε → Prog σ κ ν δ ε α) → Prog σ κ ν δ ε α
  | .ret a, _ => .ret a
  | .raise e, h => h e
  | .get k, h => .get fun s => (k s).handle h
  | .put g k, h => .put g fun s => (k s).handle h
  | .ask q k, h => .ask q fun r => (k r).handle h

/-- `finally`: `fin` is run at the end, and what it raises takes the place of what was raised. -/
def ensure : Prog σ κ ν δ ε α → Prog σ κ ν δ ε Unit → Prog σ κ ν δ ε α
  | .ret a, fin => fin.bind fun _ => .ret a
  | .raise e, fin => fin.bind fun _ => .raise e
  | .get k, fin => .get fun s => (k s).ensure fin
  | .put g k, fin => .put g fun s => (k s).ensure fin
  | .ask q k, fin => .ask q fun r => (k r).ensure fin

/-- Whether it has been raised is told instead of raising it. -/
def attempt (p : Prog σ κ ν δ ε α) : Prog σ κ ν δ ε (Except ε α) :=
  (p.bind fun a => .ret (.ok a)).handle fun e => .ret (.error e)

def read : Prog σ κ ν δ ε σ := .get .ret

def modify (g : σ → σ) : Prog σ κ ν δ ε Unit := .put g fun _ => .ret ()

def raiseIf (c : Prop) [Decidable c] (e : ε) : Prog σ κ ν δ ε Unit := if c then .raise e else .ret ()

def request (lift : δ → ε) (q : κ) : Prog σ κ ν δ ε ν :=
  .ask q fun
    | .ok a => .ret a
    | .error e => .raise (lift e)

/-- Every change the program may make is in `R`. -/
def Puts (R : σ → σ → Prop) : Prog σ κ ν δ ε α → Prop
  | .ret _ => True
  | .raise _ => True
  | .get k => ∀ s, (k s).Puts R
  | .put g k => ∀ s, R s (g s) ∧ (k s).Puts R
  | .ask _ k => ∀ r, (k r).Puts R

section puts

variable {R R' : σ → σ → Prop}

@[simp] theorem puts_ret (a : α) : (.ret a : Prog σ κ ν δ ε α).Puts R := trivial

@[simp] theorem puts_raise (e : ε) : (.raise e : Prog σ κ ν δ ε α).Puts R := trivial

theorem Puts.bind {p : Prog σ κ ν δ ε α} {f : α → Prog σ κ ν δ ε β} (h : p.Puts R)
    (hf : ∀ a, (f a).Puts R) : (p.bind f).Puts R := by
  induction p with
  | ret a => exact hf a
  | raise e => trivial
  | get k ih => exact fun s => ih s (h s)
  | put g k ih => exact fun s => ⟨(h s).1, ih s (h s).2⟩
  | ask q k ih => exact fun r => ih r (h r)

theorem Puts.handle {p : Prog σ κ ν δ ε α} {f : ε → Prog σ κ ν δ ε α} (h : p.Puts R)
    (hf : ∀ e, (f e).Puts R) : (p.handle f).Puts R := by
  induction p with
  | ret a => trivial
  | raise e => exact hf e
  | get k ih => exact fun s => ih s (h s)
  | put g k ih => exact fun s => ⟨(h s).1, ih s (h s).2⟩
  | ask q k ih => exact fun r => ih r (h r)

theorem Puts.ensure {p : Prog σ κ ν δ ε α} {fin : Prog σ κ ν δ ε Unit} (h : p.Puts R)
    (hfin : fin.Puts R) : (p.ensure fin).Puts R := by
  induction p with
  | ret a => exact hfin.bind fun _ => trivial
  | raise e => exact hfin.bind fun _ => trivial
  | get k ih => exact fun s => ih s (h s)
  | put g k ih => exact fun s => ⟨(h s).1, ih s (h s).2⟩
  | ask q k ih => exact fun r => ih r (h r)

theorem Puts.attempt {p : Prog σ κ ν δ ε α} (h : p.Puts R) : p.attempt.Puts R :=
  (h.bind fun _ => puts_ret _).handle fun _ => puts_ret _

@[simp] theorem puts_read : (read : Prog σ κ ν δ ε σ).Puts R := fun _ => trivial

theorem puts_modify {g : σ → σ} (hg : ∀ s, R s (g s)) : (modify g : Prog σ κ ν δ ε Unit).Puts R :=
  fun s => ⟨hg s, trivial⟩

@[simp] theorem puts_raiseIf (c : Prop) [Decidable c] (e : ε) :
    (raiseIf c e : Prog σ κ ν δ ε Unit).Puts R := by
  unfold raiseIf
  split <;> trivial

@[simp] theorem puts_request (lift : δ → ε) (q : κ) :
    (request lift q : Prog σ κ ν δ ε ν).Puts R := by
  rintro (e | a) <;> trivial

theorem Puts.mono {p : Prog σ κ ν δ ε α} (h : p.Puts R) (hR : ∀ s s', R s s' → R' s s') :
    p.Puts R' := by
  induction p with
  | ret a => trivial
  | raise e => trivial
  | get k ih => exact fun s => ih s (h s)
  | put g k ih => exact fun s => ⟨hR _ _ (h s).1, ih s (h s).2⟩
  | ask q k ih => exact fun r => ih r (h r)

end puts

def Raises (R : ε → Prop) : Prog σ κ ν δ ε α → Prop
  | .ret _ => True
  | .raise e => R e
  | .get k => ∀ s, (k s).Raises R
  | .put _ k => ∀ s, (k s).Raises R
  | .ask _ k => ∀ r, (k r).Raises R

section raises

variable {R : ε → Prop} {p : Prog σ κ ν δ ε α}

theorem Raises.bind {f : α → Prog σ κ ν δ ε β} (h : p.Raises R) (hf : ∀ a, (f a).Raises R) :
    (p.bind f).Raises R := by
  induction p with
  | ret a => exact hf a
  | raise e => exact h
  | get k ih => exact fun s => ih s (h s)
  | put g k ih => exact fun s => ih s (h s)
  | ask q k ih => exact fun r => ih r (h r)

theorem raises_request {lift : δ → ε} (hlift : ∀ e, R (lift e)) (q : κ) :
    (request lift q : Prog σ κ ν δ ε ν).Raises R := by
  intro r
  cases r with
  | ok a => trivial
  | error e => exact hlift e

theorem Raises.handle_eq (h : p.Raises R) {f : ε → Prog σ κ ν δ ε α} (hf : ∀ e, R e → f e = .raise e) :
    p.handle f = p := by
  induction p with
  | ret a => rfl
  | raise e => exact hf e h
  | get k ih => exact congrArg _ (funext fun s => ih s (h s))
  | put g k ih => exact congrArg _ (funext fun s => ih s (h s))
  | ask q k ih => exact congrArg _ (funext fun r => ih r (h r))

end raises

end Prog

/-- What a thread has seen of the object: how its last access left it, and whether an access
has found it otherwise than the one before had left it. -/
structure Sight (ω : Type) where
  left : Option ω := none
  disturbed : Bool := false
  deriving DecidableEq

/-- An access finds `found`. -/
def Sight.meets {ω : Type} [DecidableEq ω] (v : Sight ω) (found : ω) : Bool :=
  v.disturbed || decide (∃ l ∈ v.left, l ≠ found)

theorem Sight.meets_eq_false {ω : Type} [DecidableEq ω] {v : Sight ω} {found : ω} :
    v.meets found = false ↔ v.disturbed = false ∧ ∀ l ∈ v.left, l = found := by
  simp [meets]

/-- An access that is not disturbed finds what satisfies `P`. -/
def Sight.Knows {ω : Type} [DecidableEq ω] (P : ω → Prop) (v : Sight ω) : Prop :=
  ∀ found, v.meets found = false → P found

section knows

variable {ω : Type} [DecidableEq ω] {P P' : ω → Prop} {v : Sight ω}

theorem Sight.Knows.mono (h : v.Knows P) (hP : ∀ x, P x → P' x) : v.Knows P' :=
  fun found hfound => hP found (h found hfound)

theorem Sight.knows_left {d : Bool} {x : ω} (h : d = false → P x) : Sight.Knows P ⟨some x, d⟩ := by
  intro found hfound
  obtain ⟨hd, hleft⟩ := Sight.meets_eq_false.1 hfound
  rw [← hleft x rfl]
  exact h hd

theorem Sight.knows_of_disturbed (hv : v.disturbed = true) : v.Knows P := by
  intro found hfound
  rw [(Sight.meets_eq_false.1 hfound).1] at hv
  cases hv

end knows

/-- What is expected of a thread: of each change it makes, given whether it has been disturbed,
and of what it raises. -/
structure Conduct (σ ε ω : Type) where
  look : σ → ω
  change : Bool → σ → σ → Prop
  raises : Bool → ε → Prop

namespace Conduct

variable {σ κ ν δ ε ω α β : Type} [DecidableEq ω]

/-- `p` behaves; it returns with `Q` and raises with `E`, each told what has been seen by then. -/
def Obeys (C : Conduct σ ε ω) (Q : α → Sight ω → Prop) (E : ε → Sight ω → Prop) :
    Prog σ κ ν δ ε α → Sight ω → Prop
  | .ret a, v => Q a v
  | .raise e, v => E e v
  | .get k, v => ∀ s, C.Obeys Q E (k s) ⟨some (C.look s), v.meets (C.look s)⟩
  | .put g k, v => ∀ s, C.change (v.meets (C.look s)) s (g s) ∧
      C.Obeys Q E (k s) ⟨some (C.look (g s)), v.meets (C.look s)⟩
  | .ask _ k, v => ∀ r, C.Obeys Q E (k r) v

variable {C : Conduct σ ε ω} {Q : α → Sight ω → Prop} {E : ε → Sight ω → Prop} {v : Sight ω}

@[simp] theorem obeys_ret (a : α) : C.Obeys Q E (.ret a : Prog σ κ ν δ ε α) v ↔ Q a v := Iff.rfl

@[simp] theorem obeys_raise (e : ε) : C.Obeys Q E (.raise e : Prog σ κ ν δ ε α) v ↔ E e v := Iff.rfl

@[simp] theorem obeys_bind (p : Prog σ κ ν δ ε α) (f : α → Prog σ κ ν δ ε β) {Q : β → Sight ω → Prop} :
    C.Obeys Q E (p.bind f) v ↔ C.Obeys (fun a v' => C.Obeys Q E (f a) v') E p v := by
  induction p generalizing v with
  | ret a => rfl
  | raise e => rfl
  | get k ih => simp only [Prog.bind, Obeys, ih]
  | put g k ih => simp only [Prog.bind, Obeys, ih]
  | ask q k ih => simp only [Prog.bind, Obeys, ih]

@[simp] theorem obeys_handle (p : Prog σ κ ν δ ε α) (h : ε → Prog σ κ ν δ ε α) :
    C.Obeys Q E (p.handle h) v ↔ C.Obeys Q (fun e v' => C.Obeys Q E (h e) v') p v := by
  induction p generalizing v with
  | ret a => rfl
  | raise e => rfl
  | get k ih => simp only [Prog.handle, Obeys, ih]
  | put g k ih => simp only [Prog.handle, Obeys, ih]
  | ask q k ih => simp only [Prog.handle, Obeys, ih]

@[simp] theorem obeys_ensure (p : Prog σ κ ν δ ε α) (fin : Prog σ κ ν δ ε Unit) :
    C.Obeys Q E (p.ensure fin) v ↔
      C.Obeys (fun a v' => C.Obeys (fun _ v'' => Q a v'') E fin v')
        (fun e v' => C.Obeys (fun _ v'' => E e v'') E fin v') p v := by
  induction p generalizing v with
  | ret a => simp [Prog.ensure, Obeys]
  | raise e => simp [Prog.ensure, Obeys]
  | get k ih => simp only [Prog.ensure, Obeys, ih]
  | put g k ih => simp only [Prog.ensure, Obeys, ih]
  | ask q k ih => simp only [Prog.ensure, Obeys, ih]

theorem Obeys.mono {Q' : α → Sight ω → Prop} {E' : ε → Sight ω → Prop} {p : Prog σ κ ν δ ε α}
    (h : C.Obeys Q E p v) (hQ : ∀ a v, Q a v → Q' a v) (hE : ∀ e v, E e v → E' e v) :
    C.Obeys Q' E' p v := by
  induction p generalizing v with
  | ret a => exact hQ a v h
  | raise e => exact hE e v h
  | get k ih => exact fun s => ih s (h s)
  | put g k ih => exact fun s => ⟨(h s).1, ih s (h s).2⟩
  | ask q k ih => exact fun r => ih r (h r)

theorem Obeys.of_disturbed {p : Prog σ κ ν δ ε α} (h : C.Obeys Q E p v) (hv : v.disturbed = true) :
    C.Obeys (fun a v' => Q a v' ∧ v'.disturbed = true) (fun e v' => E e v' ∧ v'.disturbed = true) p v := by
  induction p generalizing v with
  | ret a => exact ⟨h, hv⟩
  | raise e => exact ⟨h, hv⟩
  | get k ih => exact fun s => ih s (h s) (by simp [Sight.meets, hv])
  | put g k ih => exact fun s => ⟨(h s).1, ih s (h s).2 (by simp [Sight.meets, hv])⟩
  | ask q k ih => exact fun r => ih r (h r) hv

theorem obeys_of_puts {R : σ → σ → Prop} (hchange : ∀ d s s', R s s' → C.change d s s')
    (hlook : ∀ s s', R s s' → C.look s' = C.look s) {P : ω → Prop} {p : Prog σ κ ν δ ε α}
    (h : p.Puts R) (hv : v.Knows P) :
    C.Obeys (fun _ v => v.Knows P) (fun _ v => v.Knows P) p v := by
  induction p generalizing v with
  | ret a => exact hv
  | raise e => exact hv
  | get k ih => exact fun s => ih s (h s) (Sight.knows_left (hv _))
  | put g k ih =>
    intro s
    obtain ⟨hput, hk⟩ := h s
    refine ⟨hchange _ _ _ hput, ih s hk (Sight.knows_left fun hmeets => ?_)⟩
    rw [hlook _ _ hput]
    exact hv _ hmeets
  | ask q k ih => exact fun r => ih r (h r) hv

theorem obeys_of_puts_true {R : σ → σ → Prop} (hchange : ∀ d s s', R s s' → C.change d s s')
    {p : Prog σ κ ν δ ε α} (h : p.Puts R) : C.Obeys (fun _ _ => True) (fun _ _ => True) p v := by
  induction p generalizing v with
  | ret a => trivial
  | raise e => trivial
  | get k ih => exact fun s => ih s (h s)
  | put g k ih => exact fun s => ⟨hchange _ _ _ (h s).1, ih s (h s).2⟩
  | ask q k ih => exact fun r => ih r (h r)

theorem Obeys.bind {Q' : β → Sight ω → Prop} {E' : ε → Sight ω → Prop} {p : Prog σ κ ν δ ε α}
    {f : α → Prog σ κ ν δ ε β} (h : C.Obeys Q E p v) (hE : ∀ e v, E e v → E' e v)
    (hQ : ∀ a v, Q a v → C.Obeys Q' E' (f a) v) : C.Obeys Q' E' (p.bind f) v :=
  (obeys_bind p f).2 (h.mono hQ hE)

@[simp] theorem obeys_read {Q : σ → Sight ω → Prop} :
    C.Obeys Q E (Prog.read : Prog σ κ ν δ ε σ) v ↔
      ∀ s, Q s ⟨some (C.look s), v.meets (C.look s)⟩ := Iff.rfl

@[simp] theorem obeys_raiseIf (c : Prop) [Decidable c] (e : ε) {Q : Unit → Sight ω → Prop} :
    C.Obeys Q E (Prog.raiseIf c e : Prog σ κ ν δ ε Unit) v ↔ (c → E e v) ∧ (¬c → Q () v) := by
  by_cases hc : c <;> simp [Prog.raiseIf, hc]

@[simp] theorem obeys_request (lift : δ → ε) (q : κ) {Q : ν → Sight ω → Prop} :
    C.Obeys Q E (Prog.request lift q : Prog σ κ ν δ ε ν) v ↔ (∀ a, Q a v) ∧ ∀ e, E (lift e) v := by
  constructor
  · intro h
    exact ⟨fun a => h (.ok a), fun e => h (.error e)⟩
  · rintro ⟨hok, herror⟩ (e | a)
    · exact herror e
    · exact hok a

end Conduct

end Quinn.Object
