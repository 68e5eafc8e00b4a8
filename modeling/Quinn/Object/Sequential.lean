import Quinn.Object.Program

/-! Calls on one object, one after the other.  What a call asks is answered by a list, and by a
default when the list is at its end. -/

namespace Quinn.Object

variable {σ κ ν δ ε α β : Type}

/-- What has come of a call: beside its result, what it has asked with the answers it got, and
each change of the object. -/
structure Outcome (σ κ ν δ ε α : Type) where
  result : Except ε α
  obj : σ
  asked : List (κ × Except δ ν) := []
  changes : List (σ × σ) := []

structure Call (ο ν δ : Type) where
  op : ο
  answers : List (Except δ ν) := []

namespace Prog

def outcome [Inhabited ν] : Prog σ κ ν δ ε α → List (Except δ ν) → σ → Outcome σ κ ν δ ε α
  | .ret a, _, s => { result := .ok a, obj := s }
  | .raise e, _, s => { result := .error e, obj := s }
  | .get k, rs, s => (k s).outcome rs s
  | .put g k, rs, s =>
    let o := (k s).outcome rs (g s)
    { o with changes := (s, g s) :: o.changes }
  | .ask q k, rs, s =>
    let r := rs.headD (.ok default)
    let o := (k r).outcome rs.tail s
    { o with asked := (q, r) :: o.asked }

theorem forall_asked [Inhabited ν] {A : Except δ ν → Prop} (hdefault : A (.ok default))
    (p : Prog σ κ ν δ ε α) {rs : List (Except δ ν)} (hrs : ∀ r ∈ rs, A r) (s : σ) :
    ∀ qa ∈ (p.outcome rs s).asked, A qa.2 := by
  induction p generalizing rs s with
  | ret a => exact fun _ hqa => absurd hqa List.not_mem_nil
  | raise e => exact fun _ hqa => absurd hqa List.not_mem_nil
  | get k ih => exact ih s hrs s
  | put g k ih => exact ih s hrs (g s)
  | ask q k ih =>
    refine List.forall_mem_cons.2 ⟨?_, ih _ (fun r hr => hrs r (List.mem_of_mem_tail hr)) s⟩
    cases rs with
    | nil => exact hdefault
    | cons r rs => exact hrs r List.mem_cons_self

def answered (answer : κ → Except δ ν) : Prog σ κ ν δ ε α → σ → Outcome σ κ ν δ ε α
  | .ret a, s => { result := .ok a, obj := s }
  | .raise e, s => { result := .error e, obj := s }
  | .get k, s => (k s).answered answer s
  | .put g k, s =>
    let o := (k s).answered answer (g s)
    { o with changes := (s, g s) :: o.changes }
  | .ask q k, s =>
    let o := (k (answer q)).answered answer s
    { o with asked := (q, answer q) :: o.asked }

end Prog

structure Terms (σ κ ν δ : Type) where
  answer : κ → Except δ ν → Prop
  change : σ → σ → Prop

namespace Terms

variable {T : Terms σ κ ν δ} {Q : α → σ → Prop} {E : ε → σ → Prop} {s : σ}

/-- From `s`, nothing else coming between, `p` returns with `Q` or raises with `E`. -/
def Ensures (T : Terms σ κ ν δ) (Q : α → σ → Prop) (E : ε → σ → Prop) :
    Prog σ κ ν δ ε α → σ → Prop
  | .ret a, s => Q a s
  | .raise e, s => E e s
  | .get k, s => T.Ensures Q E (k s) s
  | .put g k, s => T.change s (g s) ∧ T.Ensures Q E (k s) (g s)
  | .ask q k, s => ∀ r, T.answer q r → T.Ensures Q E (k r) s

@[simp] theorem ensures_ret (a : α) : T.Ensures Q E (.ret a : Prog σ κ ν δ ε α) s ↔ Q a s := Iff.rfl

@[simp] theorem ensures_raise (e : ε) : T.Ensures Q E (.raise e : Prog σ κ ν δ ε α) s ↔ E e s := Iff.rfl

theorem Ensures.mono {Q' : α → σ → Prop} {E' : ε → σ → Prop} {p : Prog σ κ ν δ ε α}
    (h : T.Ensures Q E p s) (hQ : ∀ a s, Q a s → Q' a s) (hE : ∀ e s, E e s → E' e s) :
    T.Ensures Q' E' p s := by
  induction p generalizing s with
  | ret a => exact hQ a s h
  | raise e => exact hE e s h
  | get k ih => exact ih s h
  | put g k ih => exact ⟨h.1, ih s h.2⟩
  | ask q k ih => exact fun r hr => ih r (h r hr)

theorem Ensures.and {Q' : α → σ → Prop} {E' : ε → σ → Prop} {p : Prog σ κ ν δ ε α}
    (h : T.Ensures Q E p s) (h' : T.Ensures Q' E' p s) :
    T.Ensures (fun a s => Q a s ∧ Q' a s) (fun e s => E e s ∧ E' e s) p s := by
  induction p generalizing s with
  | ret a => exact ⟨h, h'⟩
  | raise e => exact ⟨h, h'⟩
  | get k ih => exact ih s h h'
  | put g k ih => exact ⟨h.1, ih s h.2 h'.2⟩
  | ask q k ih => exact fun r hr => ih r (h r hr) (h' r hr)

@[simp] theorem ensures_bind (p : Prog σ κ ν δ ε α) (f : α → Prog σ κ ν δ ε β) {Q : β → σ → Prop} :
    T.Ensures Q E (p.bind f) s ↔ T.Ensures (fun a s' => T.Ensures Q E (f a) s') E p s := by
  induction p generalizing s with
  | ret a => rfl
  | raise e => rfl
  | get k ih => simp only [Prog.bind, Ensures, ih]
  | put g k ih => simp only [Prog.bind, Ensures, ih]
  | ask q k ih => simp only [Prog.bind, Ensures, ih]

@[simp] theorem ensures_handle (p : Prog σ κ ν δ ε α) (h : ε → Prog σ κ ν δ ε α) :
    T.Ensures Q E (p.handle h) s ↔ T.Ensures Q (fun e s' => T.Ensures Q E (h e) s') p s := by
  induction p generalizing s with
  | ret a => rfl
  | raise e => rfl
  | get k ih => simp only [Prog.handle, Ensures, ih]
  | put g k ih => simp only [Prog.handle, Ensures, ih]
  | ask q k ih => simp only [Prog.handle, Ensures, ih]

@[simp] theorem ensures_ensure (p : Prog σ κ ν δ ε α) (fin : Prog σ κ ν δ ε Unit) :
    T.Ensures Q E (p.ensure fin) s ↔
      T.Ensures (fun a s' => T.Ensures (fun _ s'' => Q a s'') E fin s')
        (fun e s' => T.Ensures (fun _ s'' => E e s'') E fin s') p s := by
  induction p generalizing s with
  | ret a => simp [Prog.ensure, Ensures]
  | raise e => simp [Prog.ensure, Ensures]
  | get k ih => simp only [Prog.ensure, Ensures, ih]
  | put g k ih => simp only [Prog.ensure, Ensures, ih]
  | ask q k ih => simp only [Prog.ensure, Ensures, ih]

@[simp] theorem ensures_attempt (p : Prog σ κ ν δ ε α) {Q : Except ε α → σ → Prop} :
    T.Ensures Q E p.attempt s ↔
      T.Ensures (fun a s' => Q (.ok a) s') (fun e s' => Q (.error e) s') p s := by
  simp [Prog.attempt]

@[simp] theorem ensures_read {Q : σ → σ → Prop} :
    T.Ensures Q E (Prog.read : Prog σ κ ν δ ε σ) s ↔ Q s s := Iff.rfl

@[simp] theorem ensures_modify (g : σ → σ) {Q : Unit → σ → Prop} :
    T.Ensures Q E (Prog.modify g : Prog σ κ ν δ ε Unit) s ↔ T.change s (g s) ∧ Q () (g s) := Iff.rfl

@[simp] theorem ensures_raiseIf (c : Prop) [Decidable c] (e : ε) {Q : Unit → σ → Prop} :
    T.Ensures Q E (Prog.raiseIf c e : Prog σ κ ν δ ε Unit) s ↔ (c → E e s) ∧ (¬c → Q () s) := by
  by_cases hc : c <;> simp [Prog.raiseIf, hc]

@[simp] theorem ensures_request (lift : δ → ε) (q : κ) {Q : ν → σ → Prop} :
    T.Ensures Q E (Prog.request lift q : Prog σ κ ν δ ε ν) s ↔
      (∀ a, T.answer q (.ok a) → Q a s) ∧ ∀ e, T.answer q (.error e) → E (lift e) s := by
  constructor
  · intro h
    exact ⟨fun a => h (.ok a), fun e => h (.error e)⟩
  · rintro ⟨hok, herror⟩ (e | a)
    · exact herror e
    · exact hok a

theorem Ensures.bind {Q' : β → σ → Prop} {p : Prog σ κ ν δ ε α} {f : α → Prog σ κ ν δ ε β}
    {E' : ε → σ → Prop} (h : T.Ensures Q E p s) (hE : ∀ e s, E e s → E' e s)
    (hQ : ∀ a s, Q a s → T.Ensures Q' E' (f a) s) : T.Ensures Q' E' (p.bind f) s :=
  (ensures_bind p f).2 (h.mono hQ hE)

theorem Ensures.and_puts {R : σ → σ → Prop} {I : σ → Prop} (hinv : ∀ s s', R s s' → I s → I s')
    {p : Prog σ κ ν δ ε α} (h : T.Ensures Q E p s) (hp : p.Puts R) (hs : I s) :
    T.Ensures (fun a s => Q a s ∧ I s) (fun e s => E e s ∧ I s) p s := by
  induction p generalizing s with
  | ret a => exact ⟨h, hs⟩
  | raise e => exact ⟨h, hs⟩
  | get k ih => exact ih s h (hp s) hs
  | put g k ih => exact ⟨h.1, ih s h.2 (hp s).2 (hinv _ _ (hp s).1 hs)⟩
  | ask q k ih => exact fun r hr => ih r (h r hr) (hp r) hs

theorem ensures_trivial (hchange : ∀ s s', T.change s s') (hQ : ∀ a s, Q a s) (hE : ∀ e s, E e s)
    (p : Prog σ κ ν δ ε α) (s : σ) : T.Ensures Q E p s := by
  induction p generalizing s with
  | ret a => exact hQ a s
  | raise e => exact hE e s
  | get k ih => exact ih s s
  | put g k ih => exact ⟨hchange s (g s), ih s (g s)⟩
  | ask q k ih => exact fun r _ => ih r s

theorem Ensures.outcome [Inhabited ν] {p : Prog σ κ ν δ ε α} (h : T.Ensures Q E p s)
    (rs : List (Except δ ν)) (hrs : ∀ qa ∈ (p.outcome rs s).asked, T.answer qa.1 qa.2) :
    (∀ c ∈ (p.outcome rs s).changes, T.change c.1 c.2) ∧
      (∀ a, (p.outcome rs s).result = .ok a → Q a (p.outcome rs s).obj) ∧
      ∀ e, (p.outcome rs s).result = .error e → E e (p.outcome rs s).obj := by
  induction p generalizing s rs with
  | ret a => exact ⟨by simp [Prog.outcome], by rintro _ ⟨⟩; exact h, by rintro _ ⟨⟩⟩
  | raise e => exact ⟨by simp [Prog.outcome], by rintro _ ⟨⟩, by rintro _ ⟨⟩; exact h⟩
  | get k ih => exact ih s h rs hrs
  | put g k ih =>
    obtain ⟨hchanges, hok, herror⟩ := ih s h.2 rs hrs
    exact ⟨List.forall_mem_cons.2 ⟨h.1, hchanges⟩, hok, herror⟩
  | ask q k ih =>
    obtain ⟨hr, hrs⟩ := List.forall_mem_cons.1 hrs
    exact ih _ (h _ hr) _ hrs

theorem Ensures.answered {p : Prog σ κ ν δ ε α} (h : T.Ensures Q E p s) {answer : κ → Except δ ν}
    (hanswer : ∀ q, T.answer q (answer q)) :
    (∀ c ∈ (p.answered answer s).changes, T.change c.1 c.2) ∧
      (∀ a, (p.answered answer s).result = .ok a → Q a (p.answered answer s).obj) ∧
      ∀ e, (p.answered answer s).result = .error e → E e (p.answered answer s).obj := by
  induction p generalizing s with
  | ret a => exact ⟨nofun, fun _ hok => Except.ok.inj hok ▸ h, nofun⟩
  | raise e => exact ⟨nofun, nofun, fun _ herror => Except.error.inj herror ▸ h⟩
  | get k ih => exact ih s h
  | put g k ih =>
    obtain ⟨hchanges, hok, herror⟩ := ih s h.2
    exact ⟨List.forall_mem_cons.2 ⟨h.1, hchanges⟩, hok, herror⟩
  | ask q k ih => exact ih _ (h _ (hanswer q))

theorem Ensures.obj [Inhabited ν] {inv : σ → Prop} {p : Prog σ κ ν δ ε α}
    (h : T.Ensures (fun _ => inv) (fun _ => inv) p s) (rs : List (Except δ ν))
    (hrs : ∀ qa ∈ (p.outcome rs s).asked, T.answer qa.1 qa.2) : inv (p.outcome rs s).obj := by
  obtain ⟨-, hok, herror⟩ := h.outcome rs hrs
  rcases hresult : (p.outcome rs s).result with e | a
  · exact herror e hresult
  · exact hok a hresult

end Terms

section calls

variable {ο : Type} [Inhabited ν] (body : ο → Prog σ κ ν δ ε Unit)

def Call.outcome (c : Call ο ν δ) (s : σ) : Outcome σ κ ν δ ε Unit := (body c.op).outcome c.answers s

def after (s : σ) (calls : List (Call ο ν δ)) : σ := calls.foldl (fun s c => (c.outcome body s).obj) s

def changes : σ → List (Call ο ν δ) → List (ο × σ × σ)
  | _, [] => []
  | s, c :: calls => (c.outcome body s).changes.map (c.op, ·) ++ changes (c.outcome body s).obj calls

/-- `C` holds of each call, of the object as the call finds it. -/
def EachCall (C : σ → Call ο ν δ → Prop) : σ → List (Call ο ν δ) → Prop
  | _, [] => True
  | s, c :: calls => C s c ∧ EachCall C (c.outcome body s).obj calls

variable {body}

theorem EachCall.keeps {C : σ → Call ο ν δ → Prop} {I : σ → Prop}
    (hstep : ∀ s c, I s → C s c → I (c.outcome body s).obj) {s : σ} {calls : List (Call ο ν δ)}
    (hcalls : EachCall body C s calls) (hs : I s) : I (after body s calls) := by
  induction calls generalizing s with
  | nil => exact hs
  | cons c calls ih => exact ih hcalls.2 (hstep s c hs hcalls.1)

theorem EachCall.take {C : σ → Call ο ν δ → Prop} {s : σ} {before rest : List (Call ο ν δ)}
    (hcalls : EachCall body C s (before ++ rest)) : EachCall body C s before := by
  induction before generalizing s with
  | nil => trivial
  | cons c calls ih => exact ⟨hcalls.1, ih hcalls.2⟩

theorem forall_changes {R : ο → σ → σ → Prop}
    (hstep : ∀ s (c : Call ο ν δ), ∀ d ∈ (c.outcome body s).changes, R c.op d.1 d.2) (s : σ)
    (calls : List (Call ο ν δ)) : ∀ d ∈ changes body s calls, R d.1 d.2.1 d.2.2 := by
  induction calls generalizing s with
  | nil => simp [changes]
  | cons c calls ih =>
    intro d hd
    rcases List.mem_append.1 hd with hd | hd
    · obtain ⟨d₀, hd₀, rfl⟩ := List.mem_map.1 hd
      exact hstep s c d₀ hd₀
    · exact ih _ d hd

end calls

end Quinn.Object
