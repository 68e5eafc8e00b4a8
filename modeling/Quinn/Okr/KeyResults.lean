import Mathlib.Data.List.Permutation
import Quinn.Machine.Run
import Quinn.Okr.Queries
import Quinn.Store.Interleaving

/-! Clients that change the key results of objectives, their statements interleaved. -/

namespace Quinn.Okr

open Store Store.Prog Machine

/-- `UPDATE okrs SET key_results = ?, updated_at = ? WHERE id = ?` -/
structure Update where
  id : OKRId
  keyResults : List KeyResult
  now : Time

instance : Writes Update Db SqlError where
  apply w db := .ok (db.setKeyResults w.id w.keyResults w.now, (db.okrs.rows.filter (·.id = w.id)).length)

inductive Change
  | update (metric : String) (current : ℚ)
  | add (kr : KeyResult)

/-- `none` where nothing is to be saved. -/
def Change.apply : Change → List KeyResult → Option (List KeyResult)
  | update metric current => setCurrent metric current
  | add kr => addKeyResult kr

/-- `update_okr_key_result` or `add_okr_key_result`, with the time it takes. -/
structure Call where
  id : OKRId
  change : Change
  now : Time

/-- The call by itself, from beginning to end. -/
def Db.call (db : Db) (c : Call) : Option OKR × Db :=
  match c.change with
  | .update metric current => db.updateOkrKeyResult c.id metric current c.now
  | .add kr => db.addOkrKeyResult c.id kr c.now

namespace Call

variable (c : Call)

/-- What is done about the objective that has been read. -/
def save (okr : Option OKR) : Prog Db Update SqlError (Option OKR) :=
  match okr with
  | none => .ret none
  | some okr =>
    match c.change.apply okr.keyResults with
    | none => .ret none
    | some keyResults => executeNow ⟨c.id, keyResults, c.now⟩ (some { okr with keyResults, updatedAt := c.now })

def prog : Prog Db Update SqlError (Option OKR) := (select (·.getOkr c.id)).bind c.save

def body : Prog Db Update SqlError Unit := c.prog.bind fun _ => .ret ()

/-- What the call reads, and writes back whole. -/
def keyResults (db : Db) : Option (List KeyResult) := (db.getOkr c.id).map (·.keyResults)

variable {c} {db : Db}

theorem call_eq : db.call c =
    match db.getOkr c.id with
    | none => (none, db)
    | some okr =>
      match c.change.apply okr.keyResults with
      | none => (none, db)
      | some keyResults => (some { okr with keyResults, updatedAt := c.now }, db.setKeyResults c.id keyResults c.now) := by
  obtain ⟨id, change, now⟩ := c
  cases change <;> rfl

theorem exec_prog : c.prog.exec ⟨db, none⟩ = (.ok (db.call c).1, ⟨(db.call c).2, none⟩) := by
  have hread : c.prog.exec ⟨db, none⟩ = (c.save (db.getOkr c.id)).exec ⟨db, none⟩ := rfl
  rw [hread, call_eq]
  cases db.getOkr c.id with
  | none => rfl
  | some okr =>
    simp only [save]
    split
    · rfl
    · rfl

theorem call_of_keyResults {keyResults keyResults' : List KeyResult} (hread : c.keyResults db = some keyResults)
    (happly : c.change.apply keyResults = some keyResults') :
    (db.call c).2 = db.setKeyResults c.id keyResults' c.now := by
  obtain ⟨okr, hokr, rfl⟩ := Option.map_eq_some_iff.1 hread
  simp only [call_eq, hokr, happly]

end Call

variable {ι : Type} [DecidableEq ι]

structure Clients (ι : Type) where
  sys : Sys ι Call Db Update SqlError
  /-- the calls that have returned, and not raised -/
  returned : List Call := []

namespace Clients

def step (s : Clients ι) (e : Event ι Call SqlError) : Clients ι where
  sys := s.sys.step Call.body e
  returned :=
    match e with
    | .step i =>
      match s.sys.procs i with
      | some ⟨c, .ret _, _⟩ => s.returned ++ [c]
      | _ => s.returned
    | _ => s.returned

/-- Once all have returned, what is stored has come of the calls one after another. -/
def Serial (init : Db) (s : Clients ι) : Prop :=
  (∀ i, s.sys.procs i = none) →
    ∃ order : List Call, order.Perm s.returned ∧ s.sys.committed = order.foldl (fun db c => (db.call c).2) init

/-- No other connection holds the lock, or this one from a call before. -/
def Outside (s : Clients ι) (i : ι) : Prop := ∀ h ∈ s.sys.writer, h.1 ≠ i

/-- An update finds the key results as its call has read them; and a connection whose commit has failed
makes no further call. -/
def Current (s : Clients ι) : Event ι Call SqlError → Prop
  | .call i _ => s.sys.procs i = none → s.Outside i
  | .step i =>
    match s.sys.procs i with
    | some ⟨c, .write _ _, seen⟩ =>
      s.sys.MayWrite i → ∀ read ∈ seen, c.keyResults read = c.keyResults (s.sys.view i)
    | _ => True
  | .fail _ _ => True

inductive At (s : Clients ι) (i : ι) : Proc Call Db Update SqlError → Prop
  | begun {c : Call} (h : s.Outside i) : At s i ⟨c, c.body, []⟩
  /-- it has read what it is about to save -/
  | read {c : Call} {read : Db} {keyResults keyResults' : List KeyResult} {a : Option OKR} (h : s.Outside i)
    (hread : c.keyResults read = some keyResults) (happly : c.change.apply keyResults = some keyResults') :
    At s i ⟨c, (executeNow ⟨c.id, keyResults', c.now⟩ a).bind fun _ => .ret (), [read]⟩
  /-- it holds the lock, with the call done on what is committed -/
  | saved {c : Call} {seen : List Db} {a : Option OKR} (h : s.sys.writer = some (i, (s.sys.committed.call c).2)) :
    At s i ⟨c, (commitNow.bind fun _ => .ret a).bind fun _ => .ret (), seen⟩
  | returns {c : Call} {seen : List Db} : At s i ⟨c, .ret (), seen⟩
  | raises {c : Call} {e : SqlError} {seen : List Db} : At s i ⟨c, .raise e, seen⟩

/-- `order` are the calls that have taken effect, of which `waiting` have yet to return. -/
structure Linear (init : Db) (s : Clients ι) (order : List Call) (waiting : List (ι × Call)) : Prop where
  committed : s.sys.committed = order.foldl (fun db c => (db.call c).2) init
  perm : order.Perm (s.returned ++ waiting.map (·.2))
  nodup : (waiting.map (·.1)).Nodup
  mem_waiting : ∀ i c, (i, c) ∈ waiting ↔ ∃ seen, s.sys.procs i = some ⟨c, .ret (), seen⟩
  stands : ∀ i P, s.sys.procs i = some P → s.At i P

variable {s s' : Clients ι} {i j : ι} {P : Proc Call Db Update SqlError} {init : Db} {order : List Call}
  {waiting : List (ι × Call)}

omit [DecidableEq ι] in
theorem Linear.serial (h : s.Linear init order waiting) : s.Serial init := by
  intro hidle
  have hnone : waiting = [] := by
    apply List.eq_nil_iff_forall_not_mem.2
    rintro ⟨i, c⟩ hmem
    obtain ⟨seen, hprocs⟩ := (h.mem_waiting i c).1 hmem
    cases (hidle i).symm.trans hprocs
  refine ⟨order, ?_, h.committed⟩
  simpa [hnone] using h.perm

theorem Outside.view (h : s.Outside i) : s.sys.view i = s.sys.committed := by
  cases hw : s.sys.writer with
  | none => exact Sys.view_of_none hw
  | some w => exact Sys.view_of_ne hw (h w hw)

omit [DecidableEq ι] in
theorem At.congr (h : s.At i P) (hwriter : s'.sys.writer = s.sys.writer)
    (hcommitted : s'.sys.committed = s.sys.committed) : s'.At i P := by
  cases h with
  | begun h => exact .begun (by rwa [Outside, hwriter])
  | read h hread happly => exact .read (by rwa [Outside, hwriter]) hread happly
  | saved h => exact .saved (by rw [hwriter, hcommitted, h])
  | returns => exact .returns
  | raises => exact .raises

omit [DecidableEq ι] in
theorem At.of_outside (h : s.At i P) (hbefore : ∀ t, s.sys.writer ≠ some (i, t)) (hafter : s'.Outside i) : s'.At i P := by
  cases h with
  | begun h => exact .begun hafter
  | read h hread happly => exact .read hafter hread happly
  | saved h => exact (hbefore _ h).elim
  | returns => exact .returns
  | raises => exact .raises

def IsRet (P : Proc Call Db Update SqlError) : Prop := ∃ c seen, P = ⟨c, .ret (), seen⟩

theorem Linear.silent (h : s.Linear init order waiting) (P' : Option (Proc Call Db Update SqlError))
    (hprocs : s'.sys.procs = Function.update s.sys.procs i P') (hreturned : s'.returned = s.returned)
    (hcommitted : s'.sys.committed = s.sys.committed) (hbefore : ∀ P ∈ s.sys.procs i, ¬IsRet P) (hafter : ∀ P ∈ P', ¬IsRet P)
    (hat : ∀ P ∈ P', s'.At i P) (hothers : ∀ j P, j ≠ i → s.At j P → s'.At j P) : s'.Linear init order waiting where
  committed := hcommitted.trans h.committed
  perm := hreturned ▸ h.perm
  nodup := h.nodup
  mem_waiting := by
    intro j c
    rw [h.mem_waiting, hprocs]
    by_cases hj : j = i
    · subst hj
      rw [Function.update_self]
      constructor
      · exact fun ⟨seen, hseen⟩ => (hbefore _ hseen ⟨c, seen, rfl⟩).elim
      · exact fun ⟨seen, hseen⟩ => (hafter _ hseen ⟨c, seen, rfl⟩).elim
    · rw [Function.update_of_ne hj]
  stands := by
    intro j P hP
    rw [hprocs] at hP
    by_cases hj : j = i
    · subst hj
      rw [Function.update_self] at hP
      exact hat P hP
    · rw [Function.update_of_ne hj] at hP
      exact hothers j P hj (h.stands j P hP)

theorem Linear.effect (h : s.Linear init order waiting) (c : Call) (seen : List Db)
    (hprocs : s'.sys.procs = Function.update s.sys.procs i (some ⟨c, .ret (), seen⟩)) (hreturned : s'.returned = s.returned)
    (hcommitted : s'.sys.committed = (s.sys.committed.call c).2) (hbefore : ∀ P ∈ s.sys.procs i, ¬IsRet P)
    (hothers : ∀ j P, j ≠ i → s.At j P → s'.At j P) : s'.Linear init (order ++ [c]) (waiting ++ [(i, c)]) where
  committed := by
    rw [hcommitted, h.committed, List.foldl_append]
    rfl
  perm := by
    rw [hreturned, List.map_append, ← List.append_assoc]
    exact h.perm.append_right _
  nodup := by
    rw [List.map_append, List.nodup_append]
    refine ⟨h.nodup, List.nodup_singleton _, ?_⟩
    rintro j hj i' hi' rfl
    obtain rfl := List.mem_singleton.1 hi'
    obtain ⟨⟨j, c'⟩, hmem, rfl⟩ := List.mem_map.1 hj
    obtain ⟨seen', hseen⟩ := (h.mem_waiting j c').1 hmem
    exact hbefore _ hseen ⟨c', seen', rfl⟩
  mem_waiting := by
    intro j c'
    rw [List.mem_append, h.mem_waiting, hprocs, List.mem_singleton]
    by_cases hj : j = i
    · subst hj
      rw [Function.update_self]
      constructor
      · rintro (⟨seen', hseen⟩ | hnew)
        · exact (hbefore _ hseen ⟨c', seen', rfl⟩).elim
        · cases hnew
          exact ⟨seen, rfl⟩
      · rintro ⟨seen', hseen⟩
        cases hseen
        exact .inr rfl
    · rw [Function.update_of_ne hj]
      exact or_iff_left fun heq => hj (congrArg Prod.fst heq)
  stands := by
    intro j P hP
    rw [hprocs] at hP
    by_cases hj : j = i
    · subst hj
      rw [Function.update_self] at hP
      cases hP
      exact .returns
    · rw [Function.update_of_ne hj] at hP
      exact hothers j P hj (h.stands j P hP)

theorem perm_cons_filter {l : List (ι × Call)} (h : (l.map (·.1)).Nodup) {c : Call} (hmem : (i, c) ∈ l) :
    l.Perm ((i, c) :: l.filter (·.1 ≠ i)) := by
  have hnodup : l.Nodup := List.Nodup.of_map _ h
  have hnot : (i, c) ∉ l.filter (·.1 ≠ i) := fun hfilter => of_decide_eq_true (List.mem_filter.1 hfilter).2 rfl
  rw [List.perm_ext_iff_of_nodup hnodup (List.nodup_cons.2 ⟨hnot, hnodup.filter _⟩)]
  rintro ⟨j, c'⟩
  rw [List.mem_cons, List.mem_filter, decide_eq_true_iff]
  constructor
  · intro hj
    by_cases hji : j = i
    · exact .inl (List.inj_on_of_nodup_map h hj hmem hji)
    · exact .inr ⟨hj, hji⟩
  · rintro (heq | ⟨hj, -⟩)
    · exact heq ▸ hmem
    · exact hj

theorem Linear.returns (h : s.Linear init order waiting) {c : Call} {seen : List Db}
    (hP : s.sys.procs i = some ⟨c, .ret (), seen⟩) (hprocs : s'.sys.procs = Function.update s.sys.procs i none)
    (hreturned : s'.returned = s.returned ++ [c]) (hcommitted : s'.sys.committed = s.sys.committed)
    (hwriter : s'.sys.writer = s.sys.writer) : s'.Linear init order (waiting.filter (·.1 ≠ i)) where
  committed := hcommitted.trans h.committed
  perm := by
    have hwaiting := perm_cons_filter h.nodup ((h.mem_waiting i c).2 ⟨seen, hP⟩)
    rw [hreturned, List.append_assoc]
    exact h.perm.trans ((hwaiting.map _).append_left _)
  nodup := List.Nodup.sublist (List.filter_sublist.map _) h.nodup
  mem_waiting := by
    intro j c'
    rw [List.mem_filter, h.mem_waiting, hprocs, decide_eq_true_iff]
    by_cases hj : j = i
    · subst hj
      simp
    · rw [Function.update_of_ne hj]
      exact and_iff_left hj
  stands := by
    intro j P hP
    rw [hprocs] at hP
    by_cases hj : j = i
    · subst hj
      rw [Function.update_self] at hP
      cases hP
    · rw [Function.update_of_ne hj] at hP
      exact (h.stands j P hP).congr hwriter hcommitted

theorem not_isRet {P : Proc Call Db Update SqlError} (h : ∀ a, P.prog ≠ .ret a) : ¬IsRet P := by
  rintro ⟨c, seen, rfl⟩
  exact h () rfl

omit [DecidableEq ι] in
theorem working (hP : s.sys.procs i = some P) (hnot : ¬IsRet P) : ∀ P ∈ s.sys.procs i, ¬IsRet P := by
  intro P' hP'
  cases hP.symm.trans hP'
  exact hnot

theorem Linear.setProc (h : s.Linear init order waiting) (hbefore : ∀ P ∈ s.sys.procs i, ¬IsRet P)
    (P' : Option (Proc Call Db Update SqlError)) (hsys : s'.sys = s.sys.setProc i P') (hreturned : s'.returned = s.returned)
    (hafter : ∀ P ∈ P', ¬IsRet P) (hat : ∀ P ∈ P', s.At i P) : s'.Linear init order waiting := by
  have hcongr (j : ι) (P : Proc Call Db Update SqlError) (hat : s.At j P) : s'.At j P :=
    hat.congr (by rw [hsys]; rfl) (by rw [hsys]; rfl)
  apply h.silent P' (by rw [hsys]; rfl) hreturned (by rw [hsys]; rfl) hbefore hafter
  · exact fun P hP => hcongr i P (hat P hP)
  · exact fun j P _ => hcongr j P

def Linearised (init : Db) (s : Clients ι) : Prop := ∃ order waiting, s.Linear init order waiting

theorem Linearised.begun (h : s.Linear init order waiting) {c : Call} (hP : s.sys.procs i = some ⟨c, c.body, []⟩)
    (houtside : s.Outside i) : (s.step (.step i)).Linearised init := by
  have hreturned : (s.step (.step i)).returned = s.returned := by
    simp only [step, hP]
    rfl
  have hsys : (s.step (.step i)).sys = s.sys.setProc i
      (some ⟨c, (c.save (s.sys.committed.getOkr c.id)).bind fun _ => .ret (), [s.sys.committed]⟩) := by
    simp only [step, Sys.step, hP, ← houtside.view]
    rfl
  have hnot : ¬IsRet ⟨c, c.body, []⟩ := not_isRet (by rintro a ⟨⟩)
  -- a call with nothing to save takes effect as it reads
  have hnothing (hsave : c.save (s.sys.committed.getOkr c.id) = .ret none)
      (hcall : (s.sys.committed.call c).2 = s.sys.committed) :
      (s.step (.step i)).Linearised init := by
    rw [hsave] at hsys
    refine ⟨order ++ [c], waiting ++ [(i, c)], h.effect c [s.sys.committed] ?_ hreturned ?_ (working hP hnot) ?_⟩
    · rw [hsys]
      exact rfl
    · rw [hsys, hcall]
      rfl
    · exact fun j P _ hat => hat.congr (by rw [hsys]; rfl) (by rw [hsys]; rfl)
  cases hokr : s.sys.committed.getOkr c.id with
  | none =>
    apply hnothing
    · rw [hokr]
      rfl
    · simp only [Call.call_eq, hokr]
  | some okr =>
    cases happly : c.change.apply okr.keyResults with
    | none =>
      apply hnothing
      · simp only [hokr, Call.save, happly]
      · simp only [Call.call_eq, hokr, happly]
    | some keyResults =>
      refine ⟨order, waiting, h.setProc (working hP hnot) _ hsys hreturned ?_ ?_⟩
      · intro P hP'
        cases hP'
        simp only [hokr, Call.save, happly]
        exact not_isRet (by rintro a ⟨⟩)
      · intro P hP'
        cases hP'
        simp only [hokr, Call.save, happly]
        exact .read houtside (by rw [Call.keyResults, hokr, Option.map_some]) happly

theorem Linearised.read (h : s.Linear init order waiting) {c : Call} {read : Db}
    {keyResults keyResults' : List KeyResult} {a : Option OKR}
    (hP : s.sys.procs i = some ⟨c, (executeNow ⟨c.id, keyResults', c.now⟩ a).bind fun _ => .ret (), [read]⟩)
    (houtside : s.Outside i) (hread : c.keyResults read = some keyResults)
    (happly : c.change.apply keyResults = some keyResults') (hcurrent : s.Current (.step i)) : (s.step (.step i)).Linearised init := by
  have hnot : ¬IsRet ⟨c, (executeNow ⟨c.id, keyResults', c.now⟩ a).bind fun _ => .ret (), [read]⟩ :=
    not_isRet (by rintro a ⟨⟩)
  have hreturned : (s.step (.step i)).returned = s.returned := by
    simp only [step, hP]
    rfl
  by_cases hmay : s.sys.MayWrite i
  · have hview : c.keyResults s.sys.committed = some keyResults := by
      simp only [Current, hP] at hcurrent
      rw [← houtside.view, ← hread]
      exact (hcurrent hmay read List.mem_cons_self).symm
    have hcall : (s.sys.committed.call c).2 = (s.sys.view i).setKeyResults c.id keyResults' c.now := by
      rw [houtside.view, Call.call_of_keyResults hview happly]
    have hsys : (s.step (.step i)).sys = Sys.setProc { s.sys with writer := some (i, (s.sys.committed.call c).2) } i
        (some ⟨c, (commitNow.bind fun _ => .ret a).bind fun _ => .ret (), [read]⟩) := by
      simp only [step, Sys.step, hP, hcall]
      exact if_pos hmay
    refine ⟨order, waiting, h.silent _ (by rw [hsys]; rfl) hreturned (by rw [hsys]; rfl) (working hP hnot) ?_ ?_ ?_⟩
    · intro P hP'
      cases hP'
      exact not_isRet (by rintro a ⟨⟩)
    · intro P hP'
      cases hP'
      exact .saved (by rw [hsys]; rfl)
    · intro j P hj hat
      refine hat.of_outside (fun t hwriter => hj (hmay _ hwriter)) ?_
      rw [Outside, hsys]
      rintro w hw rfl
      exact hj (congrArg Prod.fst (Option.some.inj hw)).symm
  · have hsame : s.step (.step i) = s := by
      simp only [step, Sys.step, hP]
      exact congrArg (Clients.mk · s.returned) (if_neg hmay)
    rw [hsame]
    exact ⟨order, waiting, h⟩

theorem Linearised.saved (h : s.Linear init order waiting) {c : Call} {seen : List Db} {a : Option OKR}
    (hP : s.sys.procs i = some ⟨c, (commitNow.bind fun _ => .ret a).bind fun _ => .ret (), seen⟩)
    (hwriter : s.sys.writer = some (i, (s.sys.committed.call c).2)) : (s.step (.step i)).Linearised init := by
  have hreturned : (s.step (.step i)).returned = s.returned := by
    simp only [step, hP]
    rfl
  have hcommit : s.sys.commit i = { s.sys with committed := (s.sys.committed.call c).2, writer := none } := by
    simp only [Sys.commit, hwriter, if_true]
  have hsys : (s.step (.step i)).sys =
      Sys.setProc { s.sys with committed := (s.sys.committed.call c).2, writer := none } i (some ⟨c, .ret (), seen⟩) := by
    simp only [step, Sys.step, hP, ← hcommit]
    rfl
  refine ⟨order ++ [c], waiting ++ [(i, c)], h.effect c seen (by rw [hsys]; rfl) hreturned (by rw [hsys]; rfl)
    (working hP (not_isRet (by rintro a ⟨⟩))) fun j P hj hat => ?_⟩
  refine hat.of_outside (fun t hw => ?_) (by rw [Outside, hsys]; rintro w ⟨⟩)
  rw [hwriter] at hw
  exact hj (congrArg Prod.fst (Option.some.inj hw)).symm

theorem Linearised.next (hlinear : s.Linearised init) (hP : s.sys.procs i = some P) (hcurrent : s.Current (.step i)) :
    (s.step (.step i)).Linearised init := by
  obtain ⟨order, waiting, h⟩ := hlinear
  have hsys : (s.step (.step i)).sys = s.sys.next i P := by simp only [step, Sys.step, hP]
  cases h.stands i P hP with
  | begun houtside => exact .begun h hP houtside
  | read houtside hread happly => exact .read h hP houtside hread happly hcurrent
  | saved hwriter => exact .saved h hP hwriter
  | returns =>
    refine ⟨order, _, h.returns hP (by rw [hsys]; rfl) ?_ (by rw [hsys]; rfl) (by rw [hsys]; rfl)⟩
    simp only [step, hP]
  | raises =>
    refine ⟨order, waiting, h.setProc (working hP (not_isRet (by rintro a ⟨⟩))) none hsys ?_
      (by rintro P ⟨⟩) (by rintro P ⟨⟩)⟩
    simp only [step, hP]

theorem Linearised.fail (hlinear : s.Linearised init) (hP : s.sys.procs i = some P) (e : SqlError) :
    (s.step (.fail i e)).Linearised init := by
  obtain ⟨order, waiting, h⟩ := hlinear
  have hraised (c : Call) (seen : List Db) (hnot : ¬IsRet P)
      (hsys : s.sys.failNext i P e = s.sys.setProc i (some ⟨c, .raise e, seen⟩)) :
      (s.step (.fail i e)).Linearised init := by
    refine ⟨order, waiting, h.setProc (working hP hnot) (some ⟨c, .raise e, seen⟩) ?_ rfl ?_ ?_⟩
    · simp only [step, Sys.step, hP]
      exact hsys
    · intro P hP'
      cases hP'
      exact not_isRet (by rintro a ⟨⟩)
    · intro P hP'
      cases hP'
      exact .raises
  have hsame (hsys : s.sys.failNext i P e = s.sys) : (s.step (.fail i e)).Linearised init := by
    have hstep : s.step (.fail i e) = s := by
      simp only [step, Sys.step, hP, hsys]
    rw [hstep]
    exact ⟨order, waiting, h⟩
  cases h.stands i P hP with
  | begun => exact hraised _ _ (not_isRet (by rintro a ⟨⟩)) rfl
  | read => exact hraised _ _ (not_isRet (by rintro a ⟨⟩)) rfl
  | saved => exact hraised _ _ (not_isRet (by rintro a ⟨⟩)) rfl
  | returns => exact hsame rfl
  | raises => exact hsame rfl

theorem Linearised.step (hlinear : s.Linearised init) {e : Event ι Call SqlError} (hcurrent : s.Current e) :
    (s.step e).Linearised init := by
  cases e with
  | call i c =>
    obtain ⟨order, waiting, h⟩ := hlinear
    cases hP : s.sys.procs i with
    | some P =>
      have hsame : s.step (.call i c) = s := by simp only [Clients.step, Sys.step, hP]
      rw [hsame]
      exact ⟨order, waiting, h⟩
    | none =>
      refine ⟨order, waiting, h.setProc (by rw [hP]; rintro P ⟨⟩) (some ⟨c, c.body, []⟩) ?_ rfl ?_ ?_⟩
      · simp only [Clients.step, Sys.step, hP]
      · intro P hP'
        cases hP'
        exact not_isRet (by rintro a ⟨⟩)
      · intro P hP'
        cases hP'
        exact .begun (hcurrent hP)
  | step i =>
    cases hP : s.sys.procs i with
    | some P => exact hlinear.next hP hcurrent
    | none =>
      have hsame : s.step (.step i) = s := by simp only [Clients.step, Sys.step, hP]
      rw [hsame]
      exact hlinear
  | fail i e =>
    cases hP : s.sys.procs i with
    | some P => exact hlinear.fail hP e
    | none =>
      have hsame : s.step (.fail i e) = s := by simp only [Clients.step, Sys.step, hP]
      rw [hsame]
      exact hlinear

/-- Where updates find what their calls have read, no call is lost. -/
theorem serial_of_current (init : Db) (events : List (Event ι Call SqlError))
    (h : Along step Current ({ sys := { committed := init } } : Clients ι) events) :
    Throughout step (Serial init) ({ sys := { committed := init } } : Clients ι) events := by
  have hstart : ({ sys := { committed := init } } : Clients ι).Linearised init :=
    ⟨[], [], rfl, .nil, List.nodup_nil, fun i c => ⟨nofun, nofun⟩, nofun⟩
  have hlinear := throughout_of_along (fun _ _ hs hcurrent => hs.step hcurrent) hstart h
  exact hlinear.mono fun s ⟨_, _, hs⟩ => hs.serial

def shipping : Db where
  workers := ["ada"]
  okrs := .single {
    id := "okr-1", title := "ship", ownerWorkerId := "ada", createdAt := 0, updatedAt := 0
    keyResults := [⟨"releases", 10, 0, "count"⟩, ⟨"coverage", 90, 50, "%"⟩] }
  owner_of_okr := by simp [Table.single]
  parent_of_okr := by simp [Table.single]

def released : Call := ⟨"okr-1", .update "releases" 1, 1⟩

def covered : Call := ⟨"okr-1", .update "coverage" 60, 2⟩

/-- A client goes through a call from beginning to end. -/
def through (i : Bool) (c : Call) : List (Event Bool Call SqlError) := .call i c :: List.replicate 4 (.step i)

theorem serial_of_calls_in_turn :
    Throughout step (Serial shipping) ({ sys := { committed := shipping } } : Clients Bool)
      (through true released ++ through false covered) := by
  apply serial_of_current
  refine ⟨fun _ => nofun, trivial, fun _ read hread => ?_, trivial, trivial, fun _ => nofun, trivial, fun _ read hread => ?_,
    trivial, trivial, trivial⟩
  · cases hread with
    | head => rfl
    | tail _ h => cases h
  · cases hread with
    | head => rfl
    | tail _ h => cases h

/-- Two clients update different key results, and both read before either has written. -/
theorem update_lost :
    ¬Throughout step (Serial shipping) ({ sys := { committed := shipping } } : Clients Bool)
      [.call true released, .call false covered, .step true, .step false, .step true, .step true, .step true,
        .step false, .step false, .step false] := by
  intro h
  obtain ⟨order, hperm, hcommitted⟩ := h.run fun i => by cases i <;> rfl
  have hstored := congrArg released.keyResults hcommitted
  have hreturned : order.Perm [released, covered] := hperm
  obtain rfl | rfl := List.perm_pair.1 hreturned
  · revert hstored
    decide
  · revert hstored
    decide

end Clients

end Quinn.Okr
