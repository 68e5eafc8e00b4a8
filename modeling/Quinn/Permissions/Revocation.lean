import Quinn.Beads.Wrapper
import Quinn.Machine.Run

/-! What a revoked permission still opens, and where the two checkers of a worker's permissions
answer alike. -/

namespace Quinn.Permissions

open Store Machine Beads

/-- A recomputation stores what `check_bead_permission` answers. -/
inductive Op
  | grant (a : GrantArgs)
  | revoke (id : PermissionId)
  | revokeForGrantee (bead : Option BeadId) (type : GranteeType) (grantee : String)
  | recompute (worker : WorkerId) (bead : BeadId)
  | deleteEffective (worker : WorkerId) (bead : BeadId)
  | deleteEffectiveForBead (bead : BeadId)

namespace Op

def perform (db : Db) : Op → Except SqlError Db
  | grant a => db.grantPermission a
  | revoke id => .ok (db.revokePermission id)
  | revokeForGrantee bead type grantee => .ok (db.revokePermissionForGrantee bead type grantee)
  | recompute worker bead =>
    db.setEffectivePermission worker bead (db.checkBeadPermission worker bead).value
  | deleteEffective worker bead => .ok (db.deleteEffectivePermission worker bead)
  | deleteEffectiveForBead bead => .ok (db.deleteEffectivePermissionsForBead bead)

/-- An operation that is refused leaves the database as it was. -/
def next (db : Db) (op : Op) : Db :=
  match op.perform db with
  | .ok db' => db'
  | .error _ => db

/-- The permissions that are gone afterwards: revoked, or replaced by the one granted. -/
def Removes (p : Permission) : Op → Prop
  | grant a => (PermissionLevel.ofInt? a.level).any fun level => (a.permission level).Clash p
  | revoke id => p.id = id
  | revokeForGrantee bead type grantee => p.IsFor bead type grantee
  | _ => False

instance (p : Permission) : (op : Op) → Decidable (op.Removes p)
  | grant _ => inferInstanceAs (Decidable (_ = true))
  | revoke _ => inferInstanceAs (Decidable (_ = _))
  | revokeForGrantee bead type grantee =>
    inferInstanceAs (Decidable (p.IsFor bead type grantee))
  | recompute _ _ | deleteEffective _ _ | deleteEffectiveForBead _ => inferInstanceAs (Decidable False)

end Op

namespace Db

/-- The permission is one of those `check_bead_permission` looks for. -/
def BearsOn (db : Db) (worker : WorkerId) (bead : BeadId) (p : Permission) : Prop :=
  p.IsFor (some bead) .worker worker ∨
    (∃ m ∈ db.getWorkerTeamMemberships worker, p.IsFor (some bead) .team m.teamId) ∨
    p.IsFor none .worker worker

instance (db : Db) (worker : WorkerId) (bead : BeadId) : DecidablePred (db.BearsOn worker bead) :=
  fun _ => inferInstanceAs (Decidable (_ ∨ _ ∨ _))

/-- What the worker's grants and role give, whatever was computed before. -/
def standing (db : Db) (worker : WorkerId) (bead : BeadId) : PermissionLevel :=
  highest (db.sources worker bead)

def Backed (db : Db) : Prop :=
  ∀ e ∈ db.effectivePermissions.rows, e.level ≤ db.standing e.workerId e.beadId

instance (db : Db) : Decidable db.Backed :=
  inferInstanceAs (Decidable (∀ e ∈ db.effectivePermissions.rows, _))

theorem globalLevel_mem {db : Db} {worker : WorkerId} {bead : BeadId} {level : PermissionLevel}
    (h : level ≤ globalLevel db worker) : level ≤ db.standing worker bead := by
  rw [standing, le_highest]
  unfold globalLevel at h
  cases hget : db.getPermissionForGrantee none .worker worker with
  | none =>
    rw [hget] at h
    exact .inl (PermissionLevel.le_none.1 h)
  | some p =>
    rw [hget] at h
    exact .inr ⟨p.level, by simp [sources, hget], h⟩

theorem standing_mono {db db' : Db} (hworkers : db'.workers = db.workers)
    (hmembers : db'.teamMembers = db.teamMembers) {worker : WorkerId} {bead : BeadId}
    (hkeep : ∀ b type grantee p, db.getPermissionForGrantee b type grantee = some p →
      db.BearsOn worker bead p → db'.getPermissionForGrantee b type grantee = some p) :
    db.standing worker bead ≤ db'.standing worker bead := by
  have hfor : ∀ {b type grantee p}, db.getPermissionForGrantee b type grantee = some p →
      p.IsFor b type grantee := fun h => by simpa using List.find?_some h
  have hmem : ∀ l ∈ db.sources worker bead, l ∈ db'.sources worker bead := by
    intro l hl
    simp only [sources, getWorkerTeamMemberships, hworkers, hmembers, List.mem_append,
      List.mem_filterMap, Option.mem_toList, Option.map_eq_some_iff] at hl ⊢
    rcases hl with ((⟨p, hp, rfl⟩ | ⟨m, hm, p, hp, rfl⟩) | hceo) | ⟨p, hp, rfl⟩
    · exact .inl (.inl (.inl ⟨p, hkeep _ _ _ p hp (.inl (hfor hp)), rfl⟩))
    · exact .inl (.inl (.inr ⟨m, hm, p, hkeep _ _ _ p hp (.inr (.inl ⟨m, hm, hfor hp⟩)), rfl⟩))
    · exact .inl (.inr hceo)
    · exact .inr ⟨p, hkeep _ _ _ p hp (.inr (.inr (hfor hp))), rfl⟩
  unfold standing
  rw [le_highest]
  rcases le_highest.1 (le_refl (highest (db.sources worker bead))) with h | ⟨l, hl, hle⟩
  · exact .inl h
  · exact .inr ⟨l, hmem l hl, hle⟩

theorem getPermissionForGrantee_delete {db : Db} {q : Permission → Prop} [DecidablePred q]
    {bead : Option BeadId} {type : GranteeType} {grantee : String} {p : Permission}
    (hget : db.getPermissionForGrantee bead type grantee = some p) (hp : ¬q p) :
    (db.deletePermissions q).getPermissionForGrantee bead type grantee = some p := by
  unfold getPermissionForGrantee at hget ⊢
  obtain ⟨hfor, before, after, hrows, hbefore⟩ := List.find?_eq_some_iff_append.1 hget
  refine List.find?_eq_some_iff_append.2 ⟨hfor, before.filter (¬q ·), after.filter (¬q ·), ?_, ?_⟩
  · simp [deletePermissions, Table.deleteWhere, hrows, hp]
  · exact fun r hr => hbefore r (List.mem_of_mem_filter hr)

theorem getPermissionForGrantee_insert {db : Db} {new : Permission} {bead : Option BeadId}
    {type : GranteeType} {grantee : String} {p : Permission}
    (hget : db.getPermissionForGrantee bead type grantee = some p) (hp : ¬new.Clash p) :
    (db.insertPermission new).getPermissionForGrantee bead type grantee = some p := by
  have hdelete := getPermissionForGrantee_delete hget hp
  unfold getPermissionForGrantee at hdelete ⊢
  simp only [insertPermission, Table.insertOrReplace, Table.insert, List.find?_append]
  simp only [deletePermissions] at hdelete
  rw [hdelete, Option.some_or]

end Db

inductive Op.Effect (db : Db) : Op → Db → Prop
  | granted {a : GrantArgs} {level : PermissionLevel} (h : PermissionLevel.ofInt? a.level = some level) :
    Effect db (.grant a) (db.insertPermission (a.permission level))
  | revoked {op : Op} (q : Permission → Prop) [DecidablePred q] (h : ∀ p, q p → op.Removes p) :
    Effect db op (db.deletePermissions q)
  | recomputed {worker : WorkerId} {bead : BeadId} (h : db.workers.Has worker) :
    Effect db (.recompute worker bead)
      (db.putEffective ⟨worker, bead, db.checkBeadPermission worker bead⟩ h)
  | dropped {op : Op} (q : EffectivePermission → Prop) [DecidablePred q] (h : ∀ p, ¬op.Removes p) :
    Effect db op (db.deleteEffective q)
  | refused {op : Op} : Effect db op db

namespace Op

theorem effect_next (db : Db) (op : Op) : op.Effect db (op.next db) := by
  cases op with
  | grant a =>
    simp only [next, perform, Db.grantPermission]
    cases hlevel : PermissionLevel.ofInt? a.level with
    | none => exact .refused
    | some level => exact .granted hlevel
  | revoke id => exact .revoked _ fun _ h => h
  | revokeForGrantee bead type grantee => exact .revoked _ fun _ h => h
  | recompute worker bead =>
    simp only [next, perform, Db.setEffectivePermission, PermissionLevel.ofInt?_value]
    by_cases h : db.workers.Has worker
    · simpa only [h, dif_pos] using .recomputed h
    · simpa only [h, dif_neg, not_false_eq_true] using .refused
  | deleteEffective worker bead => exact .dropped _ fun _ => id
  | deleteEffectiveForBead bead => exact .dropped _ fun _ => id

theorem Effect.workers_eq {db db' : Db} {op : Op} (h : op.Effect db db') : db'.workers = db.workers := by
  cases h <;> rfl

theorem Effect.teamMembers_eq {db db' : Db} {op : Op} (h : op.Effect db db') :
    db'.teamMembers = db.teamMembers := by
  cases h <;> rfl

theorem Effect.keeps {db db' : Db} {op : Op} (h : op.Effect db db') {bead : Option BeadId}
    {type : GranteeType} {grantee : String} {p : Permission}
    (hget : db.getPermissionForGrantee bead type grantee = some p) (hp : ¬op.Removes p) :
    db'.getPermissionForGrantee bead type grantee = some p := by
  cases h with
  | granted h => exact Db.getPermissionForGrantee_insert hget (by simpa [Removes, h] using hp)
  | revoked q h => exact Db.getPermissionForGrantee_delete hget fun hq => hp (h p hq)
  | recomputed h => exact hget
  | dropped q _ => exact hget
  | refused => exact hget

/-- A step keeps what the permissions give, unless it removes one of them. -/
theorem standing_le_next {db : Db} {op : Op} {worker : WorkerId} {bead : BeadId}
    (h : ∀ p ∈ db.permissions.rows, db.BearsOn worker bead p → ¬op.Removes p) :
    db.standing worker bead ≤ (op.next db).standing worker bead := by
  have heffect := op.effect_next db
  refine Db.standing_mono heffect.workers_eq heffect.teamMembers_eq fun b type grantee p hget hbears => ?_
  exact heffect.keeps hget (h p (List.mem_of_find?_eq_some hget) hbears)

/-- A permission is removed only where each stored level that it bears on is one that the others,
or the one that replaces it, give too. -/
def KeepsBacked (db : Db) (op : Op) : Prop :=
  ∀ p ∈ db.permissions.rows, op.Removes p →
    ∀ e ∈ db.effectivePermissions.rows, db.BearsOn e.workerId e.beadId p →
      e.level ≤ (op.next db).standing e.workerId e.beadId

instance (db : Db) (op : Op) : Decidable (op.KeepsBacked db) :=
  inferInstanceAs (Decidable (∀ p ∈ db.permissions.rows, _ → ∀ e ∈ db.effectivePermissions.rows, _ → _))

end Op

theorem checkBeadPermission_le_of_backed {db : Db} (h : db.Backed) (worker : WorkerId) (bead : BeadId) :
    db.checkBeadPermission worker bead ≤ db.standing worker bead := by
  unfold Db.checkBeadPermission
  cases db.workers.find? worker with
  | none => exact PermissionLevel.none_le _
  | some w =>
    unfold Db.standing
    rw [le_highest]
    rcases le_highest.1 (le_refl (highest (_ ++ db.sources worker bead))) with hnone | ⟨l, hl, hle⟩
    · exact .inl hnone
    · rcases List.mem_append.1 hl with hl | hl
      · obtain ⟨e, he, rfl⟩ : ∃ e, db.getEffectivePermission worker bead = some e ∧ e.level = l := by
          simpa using hl
        obtain ⟨hmem, hkey⟩ := Table.find?_eq_some.1 he
        cases hkey
        exact le_highest.1 (hle.trans (h e hmem))
      · exact .inr ⟨l, hl, hle⟩

theorem actualLevel_le_of_backed {db : Db} (h : db.Backed) (worker : WorkerId) (bead : BeadId) :
    actualLevel db worker (some bead) ≤ db.standing worker bead := by
  simp only [actualLevel]
  cases he : db.getEffectivePermission worker bead with
  | none => exact Db.globalLevel_mem le_rfl
  | some e =>
    obtain ⟨hmem, hkey⟩ := Table.find?_eq_some.1 he
    cases hkey
    exact h e hmem

theorem Op.Effect.of_mem {db db' : Db} {op : Op} (h : op.Effect db db') {e : EffectivePermission}
    (he : e ∈ db'.effectivePermissions.rows) :
    e ∈ db.effectivePermissions.rows ∨
      e.level = db.checkBeadPermission e.workerId e.beadId ∧ ∀ p, ¬op.Removes p := by
  cases h with
  | granted h => exact .inl he
  | revoked q h => exact .inl he
  | recomputed h =>
    simp only [Db.putEffective, Table.mem_insertOrReplace] at he
    rcases he with ⟨he, -⟩ | rfl
    · exact .inl he
    · exact .inr ⟨rfl, fun _ => id⟩
  | dropped q h => exact .inl (Table.mem_deleteWhere.1 he).1
  | refused => exact .inl he

theorem Op.Effect.mem_of_removes {db db' : Db} {op : Op} (h : op.Effect db db') {p : Permission}
    (hp : op.Removes p) {e : EffectivePermission} (he : e ∈ db.effectivePermissions.rows) :
    e ∈ db'.effectivePermissions.rows := by
  cases h with
  | granted h => exact he
  | revoked q h => exact he
  | recomputed h => exact hp.elim
  | dropped q h => exact (h p hp).elim
  | refused => exact he

theorem backed_next_iff {db : Db} (h : db.Backed) (op : Op) : (op.next db).Backed ↔ op.KeepsBacked db := by
  have heffect := op.effect_next db
  constructor
  · intro hnext p _ hremoves e he _
    exact hnext e (heffect.mem_of_removes hremoves he)
  · intro hkeeps e he
    rcases heffect.of_mem he with hmem | ⟨hlevel, hremoves⟩
    · by_cases hremoved : ∃ p ∈ db.permissions.rows, db.BearsOn e.workerId e.beadId p ∧ op.Removes p
      · obtain ⟨p, hp, hbears, hremoves⟩ := hremoved
        exact hkeeps p hp hremoves e hmem hbears
      · push Not at hremoved
        exact (h e hmem).trans (Op.standing_le_next hremoved)
    · calc
        e.level = db.checkBeadPermission e.workerId e.beadId := hlevel
        _ ≤ db.standing e.workerId e.beadId := checkBeadPermission_le_of_backed h _ _
        _ ≤ (op.next db).standing e.workerId e.beadId := Op.standing_le_next fun p _ _ => hremoves p

/-- No check of the worker on the bead, by either checker, succeeds by anything but a permission
that stands, or the role; every worker may read through the wrapper. -/
structure TakesEffect (db : Db) (worker : WorkerId) (bead : BeadId) : Prop where
  access : db.checkBeadPermission worker bead ≤ db.standing worker bead
  wrapper : ∀ args command, getCommandFromArgs args = some command →
    getBeadIdFromArgs args = some bead → .read < requiredLevel command →
    checkBdPermission (some db) worker args = .ok () → requiredLevel command ≤ db.standing worker bead

def AnswerAlike (db : Db) (worker : WorkerId) (args : List String) (command : String) (bead : BeadId) :
    Prop :=
  checkBdPermission (some db) worker args = .ok () ↔
    requiredLevel command ≤ db.checkBeadPermission worker bead

theorem checkBdPermission_iff {db : Db} {worker : WorkerId} {args : List String} {command : String}
    {bead : BeadId} (hcommand : getCommandFromArgs args = some command)
    (hbead : getBeadIdFromArgs args = some bead) :
    checkBdPermission (some db) worker args = .ok () ↔
      requiredLevel command ≤ .read ∨ requiredLevel command ≤ actualLevel db worker (some bead) := by
  simp only [checkBdPermission, hcommand, hbead]
  by_cases hread : requiredLevel command ≤ .read
  · simp [hread]
  · by_cases hlevel : actualLevel db worker (some bead) < requiredLevel command
    · simp [hread, hlevel, not_le.2 hlevel]
    · simp [hread, hlevel, not_lt.1 hlevel]

/-- A level the checkers differ on.  The wrapper takes a stored level, or else a global permission,
for all there is; it lets everybody read; and it does not ask whether the worker is there. -/
def Overlooked (db : Db) (worker : WorkerId) (bead : BeadId) (level : PermissionLevel) : Prop :=
  if ¬db.workers.Has worker then level ≤ .read ∨ level ≤ globalLevel db worker
  else if level ≤ .read then
    ∀ l ∈ ((db.getEffectivePermission worker bead).map (·.level)).toList ++ db.sources worker bead,
      ¬level ≤ l
  else ¬level ≤ actualLevel db worker (some bead) ∧ ∃ l ∈ db.sources worker bead, level ≤ l

theorem le_checkBeadPermission {db : Db} {worker : WorkerId} {bead : BeadId} {level : PermissionLevel}
    (hlevel : level ≠ .none) :
    level ≤ db.checkBeadPermission worker bead ↔ db.workers.Has worker ∧
      ∃ l ∈ ((db.getEffectivePermission worker bead).map (·.level)).toList ++ db.sources worker bead,
        level ≤ l := by
  unfold Db.checkBeadPermission
  cases hfind : db.workers.find? worker with
  | none => simp [PermissionLevel.le_none, hlevel, Table.find?_eq_none.1 hfind]
  | some w => simp only [le_highest, hlevel, false_or, Table.has_iff.2 ⟨w, hfind⟩, true_and]

theorem getEffectivePermission_of_not_has {db : Db} {worker : WorkerId} (h : ¬db.workers.Has worker)
    (bead : BeadId) : db.getEffectivePermission worker bead = none := by
  cases he : db.getEffectivePermission worker bead with
  | none => rfl
  | some e =>
    obtain ⟨hmem, hkey⟩ := Table.find?_eq_some.1 he
    cases hkey
    exact (h (db.worker_of_effective e hmem)).elim

/-- What the wrapper goes by is among what `check_bead_permission` adds up. -/
theorem exists_of_le_actualLevel {db : Db} {worker : WorkerId} {bead : BeadId} {level : PermissionLevel}
    (hlevel : level ≠ .none) (h : level ≤ actualLevel db worker (some bead)) :
    ∃ l ∈ ((db.getEffectivePermission worker bead).map (·.level)).toList ++ db.sources worker bead,
      level ≤ l := by
  simp only [actualLevel] at h
  cases he : db.getEffectivePermission worker bead with
  | none =>
    rw [he] at h
    simpa [hlevel] using le_highest.1 (Db.globalLevel_mem h)
  | some e =>
    rw [he] at h
    exact ⟨e.level, by simp, h⟩

theorem answerAlike_iff {db : Db} {worker : WorkerId} {args : List String} {command : String}
    {bead : BeadId} (hcommand : getCommandFromArgs args = some command)
    (hbead : getBeadIdFromArgs args = some bead) :
    AnswerAlike db worker args command bead ↔ ¬Overlooked db worker bead (requiredLevel command) := by
  have hlevel := requiredLevel_ne_none command
  rw [AnswerAlike, checkBdPermission_iff hcommand hbead, le_checkBeadPermission hlevel, Overlooked]
  by_cases hworker : db.workers.Has worker
  · by_cases hread : requiredLevel command ≤ .read
    · simp [hworker, hread]
    · simp only [hworker, hread, not_true_eq_false, if_false, true_and, false_or, not_and]
      constructor
      · rintro h hactual ⟨l, hl, hle⟩
        exact hactual (h.2 ⟨l, List.mem_append_right _ hl, hle⟩)
      · refine fun h => ⟨exists_of_le_actualLevel hlevel, fun ⟨l, hl, hle⟩ => ?_⟩
        by_contra hactual
        rcases List.mem_append.1 hl with hl | hl
        · obtain ⟨e, he, rfl⟩ : ∃ e, db.getEffectivePermission worker bead = some e ∧ e.level = l := by
            simpa using hl
          exact hactual (by simpa [actualLevel, he] using hle)
        · exact h hactual ⟨l, hl, hle⟩
  · simp [hworker, actualLevel, getEffectivePermission_of_not_has hworker]

theorem backed_iff {db : Db} : db.Backed ↔ ∀ worker bead, TakesEffect db worker bead := by
  constructor
  · intro h worker bead
    refine ⟨checkBeadPermission_le_of_backed h worker bead, fun args command hcommand hbead hread hok => ?_⟩
    have hactual := ((checkBdPermission_iff hcommand hbead).1 hok).resolve_left (not_le.2 hread)
    exact hactual.trans (actualLevel_le_of_backed h worker bead)
  · intro h e he
    have hget : db.getEffectivePermission e.workerId e.beadId = some e := Table.find?_eq_some.2 ⟨he, rfl⟩
    obtain ⟨w, hw⟩ := Table.has_iff.1 (db.worker_of_effective e he)
    have hcached : e.level ≤ db.checkBeadPermission e.workerId e.beadId := by
      simp only [Db.checkBeadPermission, hw, hget, le_highest]
      exact .inr ⟨e.level, by simp, le_rfl⟩
    exact hcached.trans (h e.workerId e.beadId).access

/-- Revocations take effect all along a run if and only if none removes what a stored level rests
on; and the checkers answer alike but for the levels that the wrapper overlooks. -/
theorem takesEffect_iff {db : Db} (hbacked : db.Backed) (ops : List Op) :
    (Throughout Op.next (fun db => ∀ worker bead, TakesEffect db worker bead) db ops ↔
        Along Op.next (fun db op => op.KeepsBacked db) db ops) ∧
      Throughout Op.next (fun db => ∀ worker args command bead,
        getCommandFromArgs args = some command → getBeadIdFromArgs args = some bead →
        (AnswerAlike db worker args command bead ↔
          ¬Overlooked db worker bead (requiredLevel command))) db ops := by
  constructor
  · rw [← throughout_iff_along (P := Db.Backed) (fun db op h => backed_next_iff h op) hbacked]
    exact ⟨fun h => h.mono fun _ => backed_iff.2, fun h => h.mono fun _ => backed_iff.1⟩
  · exact throughout_of_forall fun db worker args command bead => answerAlike_iff

def staffed : Db where
  workers := .single { id := "w-1", name := "Ada", role := "worker", managerId := none }

def grantWrite : Op :=
  .grant { granteeType := .worker, granteeId := "w-1", level := 3, beadId := some "b-1", permissionId := "p-1" }

/-- The stored level is deleted before the permission is revoked. -/
theorem deletedFirst_takesEffect :
    TakesEffect
      (run Op.next staffed
        [grantWrite, .recompute "w-1" "b-1", .deleteEffective "w-1" "b-1", .revoke "p-1"]) "w-1" "b-1" :=
  ((takesEffect_iff (by decide) _).1.2 (by decide)).run "w-1" "b-1"

/-- A revoked permission that was stored still opens the bead; and one that is not stored is seen
by one checker alone. -/
theorem storedGrant_outlives :
    ¬TakesEffect (run Op.next staffed [grantWrite, .recompute "w-1" "b-1", .revoke "p-1"]) "w-1" "b-1" ∧
      ¬AnswerAlike (run Op.next staffed [grantWrite]) "w-1" ["update", "b-1"] "update" "b-1" :=
  ⟨fun h => absurd h.access (by decide), by unfold AnswerAlike; decide⟩

end Quinn.Permissions
