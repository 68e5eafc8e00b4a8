import Quinn.Templates.Teams

/-! When `hire_team` does all or nothing. -/

namespace Quinn.Templates

open Store Machine

variable {κ : Type} {x : Surroundings κ} {registry : List (Template κ)} {call : Call} {db : Db} {s : World}

/-- Unless the run succeeds, the rows are what they were. -/
def Restores (db : Db) : EStateM.Result Error World HireTeamResult → Prop
  | .ok result s => result.rolledBack = true → s.conn = { committed := db }
  | .error _ s => s.conn = { committed := db }

def AllOrNothing (x : Surroundings κ) (registry : List (Template κ)) (call : Call) (db : Db) : Prop :=
  Restores db ((hireTeam x registry call).run (.start db))

/-- What the checks let through, of which none writes. -/
def admitted (x : Surroundings κ) (registry : List (Template κ)) (call : Call) (db : Db) :
    Option (Template κ × Option String) :=
  match (validate x registry call).run (.start db) with
  | .ok r _ => some r
  | .error _ _ => none

theorem keeps_validate {I : World → Prop} : Keeps I (validate x registry call) := by
  unfold validate
  split
  · exact keeps_throw
  next template _ =>
  refine (keeps_validateParentReference template call.parentTeamName).bind fun _ => keeps_fetch.bind fun managerExists => ?_
  dsimp only
  split
  · exact keeps_throw_bind
  refine (keeps_deriveChannelName template).bind fun derivedChannelName => ?_
  cases given derivedChannelName with
  | none => exact keeps_pure
  | some name =>
    refine keeps_fetch.bind fun taken => ?_
    split
    · exact keeps_throw_bind
    · exact keeps_pure

section run

variable {template : Template κ} {derivedChannelName : Option String}

theorem runWithRollback_eq : runWithRollback x template call derivedChannelName s =
    match forward x template call derivedChannelName s with
    | .ok result t => .ok result t
    | .error e t => rollback x e t := by
  unfold runWithRollback
  simp only [tryCatch, tryCatchThe, MonadExceptOf.tryCatch, EStateM.tryCatch]
  cases forward x template call derivedChannelName s with
  | ok result t => rfl
  | error e t => rfl

theorem restores_rollback_iff (e : Error) : Restores db (rollback x e s) ↔ undone s.rollbackStack s.conn.view = db := by
  obtain ⟨hconn, hrolled⟩ := rollback_eq x e s
  have hiff : (left (rollback x e s)).conn = { committed := db } ↔ undone s.rollbackStack s.conn.view = db := by
    rw [hconn, Conn.mk.injEq]
    exact and_iff_left rfl
  rw [← hiff]
  cases hrollback : rollback x e s with
  | ok result t => exact ⟨fun h => h (hrolled result t hrollback), fun h _ => h⟩
  | error e' t => exact Iff.rfl

theorem restores_run_iff (hdb : db.Valid) (hmanager : db.workers.Has call.managerId) :
    Restores db (runWithRollback x template call derivedChannelName (.start db)) ↔
      ∀ step ∈ (steps template call derivedChannelName).find? (fails x template call db),
        ¬LeavesBehind template call step := by
  have htakes := @takes_forward κ x template call db hdb hmanager derivedChannelName (.start db) ⟨rfl, rfl, rfl, rfl⟩
  rw [EStateM.run] at htakes
  rw [runWithRollback_eq]
  cases hforward : forward x template call derivedChannelName (.start db) with
  | ok result t =>
    rw [hforward] at htakes
    obtain ⟨hnone, hok⟩ := htakes
    refine iff_of_true (fun hrolled => ?_) fun step hstep => ?_
    · rw [hok] at hrolled
      cases hrolled
    · rw [show (steps template call derivedChannelName).find? (fails x template call db) = none from hnone] at hstep
      cases hstep
  | error e t =>
    rw [hforward] at htakes
    obtain ⟨step, hstep, hhalts⟩ := htakes
    have hstep : (steps template call derivedChannelName).find? (fails x template call db) = some step := hstep
    refine (restores_rollback_iff e).trans ?_
    rw [hstep]
    by_cases hleaves : LeavesBehind template call step
    · exact iff_of_false (hhalts.spoiled hleaves).undone_ne fun h => h step rfl hleaves
    · obtain ⟨hkept, hlast, hspares, hundoable⟩ := hhalts.rolls hleaves
      refine iff_of_true (hundoable.undone_eq hdb hkept hlast hspares) fun step' heq => ?_
      cases heq
      exact hleaves

end run

/-- It is all or nothing if and only if the first step that fails, if one does, is made up for. -/
theorem allOrNothing_iff (hdb : db.Valid) : AllOrNothing x registry call db ↔
    ∀ r ∈ admitted x registry call db, call.dryRun = false →
      ∀ step ∈ (steps r.1 call r.2).find? (fails x r.1 call db), ¬LeavesBehind r.1 call step := by
  unfold AllOrNothing admitted hireTeam
  rw [EStateM.run_bind]
  have hkeeps : left (validate x registry call (.start db)) = .start db :=
    keeps_validate (I := (· = .start db)) _ rfl
  cases hvalidate : (validate x registry call).run (.start db) with
  | error e s =>
    rw [EStateM.run] at hvalidate
    rw [hvalidate] at hkeeps
    obtain rfl : s = .start db := hkeeps
    exact iff_of_true rfl nofun
  | ok r s =>
    obtain ⟨rfl, -, hmanager⟩ := returns_validate (P := (· = .start db)) _ rfl _ _ hvalidate
    obtain ⟨template, derivedChannelName⟩ := r
    cases hreal : call.dryRun with
    | true => exact iff_of_true nofun fun _ _ hdry => nomatch hdry
    | false =>
      refine (restores_run_iff hdb hmanager).trans ?_
      constructor
      · rintro h _ ⟨⟩ -
        exact h
      · intro h
        exact h (template, derivedChannelName) rfl rfl

def faulty (step : Step) : Surroundings Unit :=
  { calm with fault := fun step' => if step' = step then some (.other "disk I/O error") else none }

theorem outage_restored :
    AllOrNothing (faulty .setTeamTemplate) [incidentTeam] (outage "paula" fun _ => none) company := by
  rw [allOrNothing_iff company_valid]
  intro r hr _ step hstep
  have hadmitted : admitted (faulty .setTeamTemplate) [incidentTeam] (outage "paula" fun _ => none) company =
      some (incidentTeam, none) := rfl
  rw [hadmitted] at hr
  cases hr
  have hfirst : (steps incidentTeam (outage "paula" fun _ => none) none).find?
      (fails (faulty .setTeamTemplate) incidentTeam (outage "paula" fun _ => none) company) =
      some .setTeamTemplate := by decide +kernel
  cases hfirst.symm.trans hstep
  exact fun hleaves => absurd rfl hleaves.2

def leavesRows (db : Db) : EStateM.Result Error World HireTeamResult → Bool
  | .ok result s => result.rolledBack && s.conn.committed ≠ db
  | .error _ s => s.conn.committed ≠ db

theorem not_restores_of_leavesRows {r : EStateM.Result Error World HireTeamResult} (h : leavesRows db r = true) :
    ¬Restores db r := by
  cases r with
  | ok result s =>
    obtain ⟨hrolled, hne⟩ := Bool.and_eq_true_iff.1 h
    exact fun hrestores => of_decide_eq_true hne (congrArg Conn.committed (hrestores hrolled))
  | error e s => exact fun hrestores => of_decide_eq_true h (congrArg Conn.committed hrestores)

/-- The row of the team has no entry on the stack when its commit fails, and the rollback commits it. -/
theorem outage_not_restored :
    ¬AllOrNothing (faulty .commitTeam) [incidentTeam] (outage "paula" fun _ => none) company := by
  have hleft : leavesRows company ((hireTeam (faulty .commitTeam) [incidentTeam] (outage "paula" fun _ => none)).run
      (.start company)) = true := by decide +kernel
  rw [AllOrNothing]
  intro hrestores
  exact not_restores_of_leavesRows hleft hrestores

end Quinn.Templates
