import Quinn.Delegation.Audit
import Quinn.Store.Admission

/-! How many reports a manager comes to have. -/

namespace Quinn.Delegation

open Store Prog

def Stmt.Inserts (Q : Worker → Prop) : Stmt → Prop
  | .insertWorker w => Q w
  | _ => True

/-- Nobody gets another manager, or another limit. -/
def KeepsPlace (f : Worker → Worker) : Prop := ∀ w, (f w).managerId = w.managerId ∧ (f w).maxReports = w.maxReports

theorem keepsPlace_ite {p : Worker → Prop} [DecidablePred p] {f : Worker → Worker} (hf : KeepsPlace f) :
    KeepsPlace fun w => if p w then f w else w := by
  intro w
  by_cases hp : p w
  · simp only [hp, if_true]
    exact hf w
  · simp only [hp, if_false, and_self]

theorem KeepsPlace.comp {f g : Worker → Worker} (hg : KeepsPlace g) (hf : KeepsPlace f) : KeepsPlace (g ∘ f) :=
  fun w => ⟨(hg (f w)).1.trans (hf w).1, (hg (f w)).2.trans (hf w).2⟩

theorem keepsPlace_id : KeepsPlace id := fun _ => ⟨rfl, rfl⟩

theorem Stmt.apply_workers {st : Stmt} {db db' : Db} {n : Nat} (h : st.apply db = .ok (db', n)) :
    (∃ w, st = .insertWorker w ∧ db'.workers.rows = db.workers.rows ++ [w]) ∨
      ∃ f, KeepsPlace f ∧ db'.workers.rows = db.workers.rows.map f := by
  have hsame : db'.workers = db.workers → ∃ f, KeepsPlace f ∧ db'.workers.rows = db.workers.rows.map f := by
    intro heq
    exact ⟨id, keepsPlace_id, by rw [heq, List.map_id]⟩
  have hupdate : ∀ (w : WorkerId) (f : Worker → Worker), KeepsPlace f → ∀ t : Table Worker,
      t.rows = (db.workers.rows.map fun r => if r.id = w then f r else r) →
        ∃ f, KeepsPlace f ∧ t.rows = db.workers.rows.map f :=
    fun w f hf t ht => ⟨_, keepsPlace_ite hf, ht⟩
  cases st with
  | insertWorker w =>
    simp only [Stmt.apply, Db.insertWorker] at h
    split at h
    · cases h
    · split at h
      · cases h
      · split at h
        · cases h
        · obtain ⟨rfl, -⟩ := Prod.mk.inj (Except.ok.inj h)
          exact .inl ⟨w, rfl, rfl⟩
  | insertGrant g =>
    right
    simp only [Stmt.apply, Db.insertGrant] at h
    split at h
    · cases h
    · split at h
      · cases h
      · split at h
        · cases h
        · obtain ⟨rfl, -⟩ := Prod.mk.inj (Except.ok.inj h)
          exact hsame rfl
  | revokeGrant id at_ by_ reason =>
    obtain ⟨rfl, -⟩ := Prod.mk.inj (Except.ok.inj h)
    exact .inr (hsame rfl)
  | clearAuthority worker =>
    obtain ⟨rfl, -⟩ := Prod.mk.inj (Except.ok.inj h)
    exact .inr (hupdate worker clearedWorker (fun _ => ⟨rfl, rfl⟩) _ rfl)
  | updateDelegation worker scope budget by_ expiresAt version =>
    obtain ⟨rfl, -⟩ := Prod.mk.inj (Except.ok.inj h)
    exact .inr ⟨_, keepsPlace_ite (f := delegatedWorker scope budget by_ expiresAt) fun _ => ⟨rfl, rfl⟩, rfl⟩
  | deleteGrant id =>
    right
    cases hdelete : db.deleteGrant id with
    | error e =>
      rw [Stmt.apply, hdelete] at h
      cases h
    | ok db₁ =>
      rw [Stmt.apply, hdelete] at h
      obtain ⟨rfl, -⟩ := Prod.mk.inj (Except.ok.inj h)
      unfold Db.deleteGrant at hdelete
      split at hdelete
      · cases hdelete
      · exact hsame (Except.ok.inj hdelete ▸ rfl)
  | updateStatus worker status at_ =>
    right
    obtain ⟨rfl, -⟩ := Prod.mk.inj (Except.ok.inj h)
    unfold Db.updateStatus
    split
    · refine ⟨_, (keepsPlace_ite (p := (·.id = worker)) (f := clearedWorker) fun _ => ⟨rfl, rfl⟩).comp
        (keepsPlace_ite (p := (·.id = worker)) (f := withStatus status) fun _ => ⟨rfl, rfl⟩), ?_⟩
      exact List.map_map
    · exact hupdate worker (withStatus status) (fun _ => ⟨rfl, rfl⟩) _ rfl

theorem apply_of_writes {st : Stmt} {db db' : Db} {n : Nat}
    (h : (Writes.apply st db : Except Error (Db × Nat)) = .ok (db', n)) : st.apply db = .ok (db', n) := by
  simp only [Writes.apply] at h
  cases happly : st.apply db with
  | error e =>
    rw [happly] at h
    cases h
  | ok r =>
    rw [happly] at h
    exact congrArg Except.ok (Except.ok.inj h)

theorem getWorkersByManager_map {f : Worker → Worker} (hf : KeepsPlace f) (rows : List Worker) (manager : WorkerId) :
    ((rows.map f).filter fun w => w.managerId = some manager).length =
      (rows.filter fun w => w.managerId = some manager).length := by
  rw [List.filter_map, List.length_map]
  refine congrArg List.length (List.filter_congr fun w _ => ?_)
  simp only [Function.comp_apply, (hf w).1]

def reportsQuota (manager : WorkerId) : Quota Db Stmt Error where
  inv db := ∀ w ∈ db.workers.rows, w.maxReports = 10
  count db := (getWorkersByManager db manager).length
  max := 10
  Sent := Stmt.Inserts fun w => w.maxReports = 10
  Counted st := ∃ w, st = .insertWorker w ∧ w.managerId = some manager
  inv_apply := by
    intro st db db' n hsent hinv happly
    obtain ⟨w, rfl, hrows⟩ | ⟨f, hf, hrows⟩ := Stmt.apply_workers (apply_of_writes happly)
    · rw [hrows]
      exact List.forall_mem_append.2 ⟨hinv, List.forall_mem_singleton.2 hsent⟩
    · rw [hrows]
      refine List.forall_mem_map.2 fun w hw => ?_
      rw [(hf w).2]
      exact hinv w hw
  count_apply := by
    intro st db db' n hsent hinv happly
    simp only [getWorkersByManager]
    obtain ⟨w, rfl, hrows⟩ | ⟨f, hf, hrows⟩ := Stmt.apply_workers (apply_of_writes happly)
    · rw [hrows, List.filter_append, List.length_append]
      by_cases hmanager : w.managerId = some manager
      · simp [hmanager]
      · simp [hmanager]
    · rw [hrows, getWorkersByManager_map hf]
      exact ⟨le_rfl, Nat.le_succ _, fun _ => rfl⟩

def DelegationOp.Hires : DelegationOp → Worker → Prop
  | .createRoot id name role cost scope budget, w =>
    w = { id, name, role, managerId := none, cost, hiringAuthorityScope := scope, delegatedBudget := budget }
  | .hire self id name role cost _, w => w = { id, name, role, managerId := some self, cost }
  | _, _ => False

theorem DelegationOp.sends_hires (op : DelegationOp) : op.body.Sends (Stmt.Inserts op.Hires) := by
  cases op with
  | createRoot id name role cost scope budget =>
    refine Sends.bind ?_ fun _ => trivial
    exact sends_createWorker rfl
  | hire self worker name role cost now =>
    refine Sends.bind ?_ fun _ => trivial
    refine (sends_canHire (fun _ => trivial) (fun _ => trivial) _ _ _).bind fun _ => ?_
    exact (readOnly_raiseIf _ _).sends.bind fun _ => sends_createWorker rfl
  | delegate call =>
    refine Sends.bind ?_ fun _ => trivial
    exact sends_delegateAuthority (fun _ _ => trivial) (fun _ _ _ _ _ _ => trivial) (fun _ => trivial) _ _ _ _ _ _ _
  | revoke self other cascade reason d =>
    exact (sends_revokeAuthority (fun _ => trivial) (fun _ _ _ _ => trivial) _ _ _ _ _).bind fun _ => trivial
  | expire now => exact (sends_expireDelegations (fun _ => trivial) fun _ => trivial).bind fun _ => trivial
  | setStatus worker status now => exact sends_updateWorkerStatus trivial

section checked

variable {manager : WorkerId}

theorem not_counted {st : Stmt} (h : st.Inserts fun _ => False) : ¬(reportsQuota manager).Counted st := by
  rintro ⟨w, rfl, -⟩
  exact h

theorem once_createWorker (w : Worker) : (createWorker w).Once (reportsQuota manager).Counted := by
  have hrest : ∀ r : Except Error Nat, (Prog.bind (reply r : Prog Nat) fun _ => Prog.bind (commitNow : Prog Unit)
      fun _ => (Prog.ret w : Prog Worker)).Sends (¬(reportsQuota manager).Counted ·) := by
    intro r
    cases r with
    | ok n => exact sends_commitNow.bind fun _ => trivial
    | error e => trivial
  exact ⟨fun _ n => hrest (.ok n), fun r => (hrest r).once⟩

theorem barred_canHire (role : String) (cost : Int) (now : Time) :
    (canHire manager role cost now).Barred (reportsQuota manager).Counted (reportsQuota manager).Full (· = false) := by
  have hsweep : (expireDelegations now).Sends (Stmt.Inserts fun _ => False) :=
    sends_expireDelegations (fun _ => trivial) fun _ => trivial
  have hown : (select (getWorker · manager) : Prog (Option Worker)).Barred (reportsQuota manager).Counted
      (reportsQuota manager).Full fun own => ∀ w ∈ own, w.maxReports = 10 :=
    barred_select fun db hfull w hw => hfull.1 w (Table.find?_eq_some.1 hw).1
  refine (hsweep.mono fun _ => not_counted).barred.bind fun _ _ => hown.bind fun found hfound => ?_
  cases found with
  | none => trivial
  | some own =>
    have hmax : own.maxReports = 10 := hfound own rfl
    simp only [require, bind_eq, Prog.bind]
    split
    · rfl
    split
    · rfl
    split
    · rfl
    have hreports : (select (getWorkersByManager · manager) : Prog (List Worker)).Barred (reportsQuota manager).Counted
        (reportsQuota manager).Full fun reports => 10 ≤ reports.length := barred_select fun db hfull => hfull.2
    refine hreports.bind fun reports hlength => ?_
    rw [if_pos (hmax ▸ hlength)]
    rfl

theorem checked_hire (id : WorkerId) (name role : String) (cost : Int) (now : Time) :
    (hire manager id name role cost now).Once (reportsQuota manager).Counted ∧
      (hire manager id name role cost now).Barred (reportsQuota manager).Counted (reportsQuota manager).Full
        fun _ => True := by
  have hcheck : (canHire manager role cost now).Sends (Stmt.Inserts fun _ => False) :=
    sends_canHire (fun _ => trivial) (fun _ => trivial) _ _ _
  constructor
  · refine (hcheck.mono fun _ => not_counted).bind_once fun canDo => ?_
    exact (readOnly_raiseIf _ _).sends.bind_once fun _ => once_createWorker _
  · refine (barred_canHire role cost now).bind fun canDo hno => ?_
    rw [hno]
    trivial

theorem DelegationOp.checked (op : DelegationOp) : (reportsQuota manager).Checked op.body := by
  have hsends : op.body.Sends (reportsQuota manager).Sent := by
    refine op.sends_hires.mono fun st hst => ?_
    cases st with
    | insertWorker w => cases op <;> cases hst <;> rfl
    | _ => trivial
  by_cases hnone : ∀ w, op.Hires w → w.managerId ≠ some manager
  · have hnever : op.body.Sends (¬(reportsQuota manager).Counted ·) := by
      refine op.sends_hires.mono fun st hst => ?_
      rintro ⟨w, rfl, hw⟩
      exact hnone w hst hw
    exact ⟨hsends, hnever.once, hnever.barred⟩
  · push Not at hnone
    obtain ⟨w, hires, hw⟩ := hnone
    cases op with
    | hire self id name role cost now =>
      cases hires
      obtain rfl : self = manager := Option.some.inj hw
      obtain ⟨honce, hbarred⟩ := checked_hire id name role cost now
      exact ⟨hsends, honce.bind fun _ => trivial, hbarred.bind fun _ _ => trivial⟩
    | createRoot id name role cost scope budget =>
      cases hires
      cases hw
    | _ => cases hires

end checked

/-- However the statements of any number of connections come after each other, a manager has at most as many reports
beyond its limit as there are other connections. -/
theorem reports_le_of_run {ι : Type} [DecidableEq ι] [Fintype ι] (events : List (Event ι DelegationOp Error)) (i : ι) :
    ∀ w ∈ (((idle ι).run DelegationOp.body events).view i).workers.rows,
      (getWorkersByManager (((idle ι).run DelegationOp.body events).view i) w.id).length ≤
        w.maxReports + (Fintype.card ι - 1) := by
  intro w hw
  have hsound := (Quota.Sound.start (q := reportsQuota w.id) (ι := ι) (ο := DelegationOp) (s := ({} : Db))
    (fun _ hw => by cases hw) (Nat.zero_le _)).run DelegationOp.checked events
  have hmax : w.maxReports = 10 := (hsound.view i).1 w hw
  rw [hmax]
  exact hsound.view_le i

def ceoHires (id : WorkerId) : DelegationOp := .hire "ceo" id id "dev" 1 0

/-- Nine are hired one after the other.  Then two processes ask, before either of them hires. -/
def raceRun : List (Event (Fin 2) DelegationOp Error) :=
  ((.createRoot "ceo" "C" "ceo" 100 (some { allowedRoles := ["dev"], maxCost := 100 }) 1000000 ::
    ["a", "b", "c", "d", "e", "f", "g", "h", "i"].map ceoHires).flatMap fun op =>
      .call 0 op :: List.replicate 12 (.step 0)) ++
  [.call 0 (ceoHires "j"), .call 1 (ceoHires "k")] ++ List.replicate 3 (.step 0) ++ List.replicate 12 (.step 1) ++
  List.replicate 12 (.step 0)

/-- The bound is reached. -/
theorem raceRun_reports : ∃ w ∈ (((idle (Fin 2)).run DelegationOp.body raceRun).view 0).workers.rows,
    (getWorkersByManager (((idle (Fin 2)).run DelegationOp.body raceRun).view 0) w.id).length = w.maxReports + 1 ∧
      (getWorkersByManager (((idle (Fin 2)).run DelegationOp.body raceRun).view 0) w.id).length ≤
        w.maxReports + (Fintype.card (Fin 2) - 1) := by
  have hfull : ∃ w ∈ (((idle (Fin 2)).run DelegationOp.body raceRun).view 0).workers.rows,
      (getWorkersByManager (((idle (Fin 2)).run DelegationOp.body raceRun).view 0) w.id).length =
        w.maxReports + 1 := by
    decide +kernel
  obtain ⟨w, hw, hlength⟩ := hfull
  exact ⟨w, hw, hlength, reports_le_of_run raceRun 0 w hw⟩

end Quinn.Delegation
