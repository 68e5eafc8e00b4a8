import Quinn.Permissions.Revocation

/-! Which grants the rows of `permissions` stand for.  The history of the grants and revocations is
kept beside the table, the newest grant first. -/

namespace Quinn.Permissions

open Store Machine

structure Grant where
  permission : Permission
  revoked : Bool := false
  /-- A later grant has taken its id. -/
  retaken : Bool := false
  deriving DecidableEq

namespace Grant

def IsFor (bead : Option BeadId) (type : GranteeType) (grantee : String) (g : Grant) : Prop :=
  g.permission.IsFor bead type grantee

instance (bead : Option BeadId) (type : GranteeType) (grantee : String) :
    DecidablePred (Grant.IsFor bead type grantee) :=
  fun g => inferInstanceAs (Decidable (g.permission.IsFor bead type grantee))

def Lasts (g : Grant) : Prop := g.revoked = false ∧ g.retaken = false

instance : DecidablePred Lasts := fun _ => inferInstanceAs (Decidable (_ ∧ _))

def revokeIf (q : Permission → Prop) [DecidablePred q] (g : Grant) : Grant :=
  if q g.permission then { g with revoked := true } else g

def retakeIf (q : Permission → Prop) [DecidablePred q] (g : Grant) : Grant :=
  if q g.permission then { g with retaken := true } else g

variable {q : Permission → Prop} [DecidablePred q] {g : Grant}

@[simp] theorem permission_revokeIf : (g.revokeIf q).permission = g.permission := by
  unfold revokeIf
  split <;> rfl

@[simp] theorem permission_retakeIf : (g.retakeIf q).permission = g.permission := by
  unfold retakeIf
  split <;> rfl

theorem lasts_revokeIf : (g.revokeIf q).Lasts ↔ g.Lasts ∧ ¬q g.permission := by
  unfold revokeIf Lasts
  split <;> simp [*]

theorem lasts_retakeIf : (g.retakeIf q).Lasts ↔ g.Lasts ∧ ¬q g.permission := by
  unfold retakeIf Lasts
  split <;> simp [*]

end Grant

variable {grants : List Grant} {db : Db} {bead : Option BeadId} {type : GranteeType} {grantee : String}

/-- What an operation adds to the history; a grant that is refused is none. -/
def Op.record (grants : List Grant) : Op → List Grant
  | grant a =>
    match PermissionLevel.ofInt? a.level with
    | none => grants
    | some level => ⟨a.permission level, false, false⟩ :: grants.map (Grant.retakeIf (·.id = a.permissionId))
  | revoke id => grants.map (Grant.revokeIf (·.id = id))
  | revokeForGrantee bead type grantee => grants.map (Grant.revokeIf (Permission.IsFor bead type grantee))
  | _ => grants

def Db.history (db : Db) (ops : List Op) : List Grant :=
  run Op.record (db.permissions.rows.reverse.map fun p => ⟨p, false, false⟩) ops

/-- The pair holds what was written last: the newest grant, or nothing if that is revoked. -/
def lastWritten (grants : List Grant) (bead : Option BeadId) (type : GranteeType) (grantee : String) :
    Option Grant :=
  (grants.find? (Grant.IsFor bead type grantee ·)).filter (!·.revoked)

/-- The newest of the grants that are not revoked, one that was replaced among them. -/
def lastUnrevoked (grants : List Grant) (bead : Option BeadId) (type : GranteeType) (grantee : String) :
    Option Grant :=
  grants.find? fun g => g.IsFor bead type grantee ∧ g.revoked = false

def oldestLasting (grants : List Grant) (bead : Option BeadId) (type : GranteeType) (grantee : String) :
    Option Grant :=
  grants.reverse.find? fun g => g.IsFor bead type grantee ∧ g.Lasts

def Grant.level (g : Grant) : PermissionLevel := g.permission.level

namespace Db

def grantedLevel (db : Db) (bead : Option BeadId) (type : GranteeType) (grantee : String) :
    Option PermissionLevel :=
  (db.getPermissionForGrantee bead type grantee).map (·.level)

def checkBy (db : Db) (look : Option BeadId → GranteeType → String → Option PermissionLevel)
    (worker : WorkerId) (bead : BeadId) : PermissionLevel :=
  match db.workers.find? worker with
  | none => .none
  | some _ =>
    let cached := (db.getEffectivePermission worker bead).map (·.level)
    let team := (db.getWorkerTeamMemberships worker).filterMap fun m => look (some bead) .team m.teamId
    let ceo := (db.workers.find? worker).bind fun w => if w.role = ceoRole then some .admin else none
    highest (cached.toList ++ ((look (some bead) .worker worker).toList ++ team ++ ceo.toList ++
      (look none .worker worker).toList))

theorem checkBeadPermission_eq (db : Db) : db.checkBeadPermission = db.checkBy db.grantedLevel := rfl

end Db

/-- The level of the pair is seen to be `last`, by a look-up and by every check. -/
structure SeesLast (db : Db) (last : Option PermissionLevel) (bead : Option BeadId) (type : GranteeType)
    (grantee : String) : Prop where
  get : db.grantedLevel bead type grantee = last
  check : ∀ worker b, db.checkBeadPermission worker b = db.checkBy (fun bead' type' grantee' =>
    if bead' = bead ∧ type' = type ∧ grantee' = grantee then last
    else db.grantedLevel bead' type' grantee') worker b

theorem seesLast_iff {last : Option PermissionLevel} :
    SeesLast db last bead type grantee ↔ db.grantedLevel bead type grantee = last := by
  refine ⟨SeesLast.get, fun h => ⟨h, fun worker b => ?_⟩⟩
  rw [db.checkBeadPermission_eq]
  congr 1
  funext bead' type' grantee'
  split
  · obtain ⟨rfl, rfl, rfl⟩ := ‹_ ∧ _›
    exact h
  · rfl

/-- The rows, the oldest first.  A grant on a bead takes the place of the one before it. -/
def standing : List Grant → List Permission
  | [] => []
  | g :: older =>
    ((standing older).filter fun p =>
      ¬(g.permission.beadId ≠ none ∧
        p.IsFor g.permission.beadId g.permission.granteeType g.permission.granteeId)) ++
      if g.Lasts then [g.permission] else []

theorem standing_mark {q : Permission → Prop} [DecidablePred q] {mark : Grant → Grant}
    (hpermission : ∀ g, (mark g).permission = g.permission)
    (hlasts : ∀ g, (mark g).Lasts ↔ g.Lasts ∧ ¬q g.permission) (grants : List Grant) :
    standing (grants.map mark) = (standing grants).filter (¬q ·) := by
  induction grants with
  | nil => rfl
  | cons g older ih =>
    have hlast : (if (mark g).Lasts then [g.permission] else []) =
        (if g.Lasts then [g.permission] else []).filter (¬q ·) := by
      by_cases hg : g.Lasts
      · by_cases hq : q g.permission <;> simp [hlasts, hg, hq]
      · simp [hlasts, hg]
    rw [List.map_cons, standing, standing, ih, List.filter_append, hpermission, hlast, List.filter_filter,
      List.filter_filter]
    simp only [Bool.and_comm]

theorem standing_grants {rows : List Permission} (h : rows.Pairwise fun p p' => ¬p'.Clash p) :
    standing (rows.reverse.map fun p => ⟨p, false, false⟩) = rows := by
  induction rows using List.reverseRecOn with
  | nil => rfl
  | append_singleton rows p ih =>
    rw [List.pairwise_append] at h
    rw [List.reverse_append, List.reverse_singleton, List.singleton_append, List.map_cons, standing, ih h.1,
      List.filter_eq_self.2, if_pos (show Grant.Lasts ⟨p, false, false⟩ from ⟨rfl, rfl⟩)]
    intro p' hp'
    exact decide_eq_true fun hclash => h.2.2 p' hp' p (List.mem_singleton_self p) (.inr hclash)

theorem rows_next (h : db.permissions.rows = standing grants) (op : Op) :
    (op.next db).permissions.rows = standing (op.record grants) := by
  cases op with
  | grant a =>
    simp only [Op.next, Op.perform, Db.grantPermission, Op.record]
    cases PermissionLevel.ofInt? a.level with
    | none => exact h
    | some level =>
      simp only [standing, standing_mark (fun _ => Grant.permission_retakeIf) (fun _ => Grant.lasts_retakeIf),
        Db.insertPermission, Table.insertOrReplace, Table.insert, Table.deleteWhere, h, List.filter_filter]
      rw [if_pos (show Grant.Lasts ⟨a.permission level, false, false⟩ from ⟨rfl, rfl⟩)]
      congr 2
      funext p
      simp [Permission.Clash, GrantArgs.permission, Bool.and_comm]
  | revoke id =>
    rw [Op.record, standing_mark (fun _ => Grant.permission_revokeIf) (fun _ => Grant.lasts_revokeIf), ← h]
    rfl
  | revokeForGrantee bead type grantee =>
    rw [Op.record, standing_mark (fun _ => Grant.permission_revokeIf) (fun _ => Grant.lasts_revokeIf), ← h]
    rfl
  | recompute worker bead =>
    simp only [Op.next, Op.perform, Db.setEffectivePermission, PermissionLevel.ofInt?_value]
    by_cases hworker : db.workers.Has worker
    · simp only [hworker, dif_pos]
      exact h
    · simp only [hworker, dif_neg, not_false_eq_true]
      exact h
  | deleteEffective worker bead => exact h
  | deleteEffectiveForBead bead => exact h

theorem rows_run (h : db.permissions.rows = standing grants) (ops : List Op) :
    (run Op.next db ops).permissions.rows = standing (run Op.record grants ops) := by
  induction ops generalizing db grants with
  | nil => exact h
  | cons op ops ih => exact ih (rows_next h op)

theorem filter_standing_global (grants : List Grant) : (standing grants).filter (·.beadId = none) =
    ((grants.filter (Grant.Lasts ·)).reverse.map Grant.permission).filter (·.beadId = none) := by
  induction grants with
  | nil => rfl
  | cons g older ih =>
    have hkept : ((standing older).filter fun p => ¬(g.permission.beadId ≠ none ∧
        p.IsFor g.permission.beadId g.permission.granteeType g.permission.granteeId)).filter (·.beadId = none) =
        (standing older).filter (·.beadId = none) := by
      rw [List.filter_filter]
      refine List.filter_congr fun p _ => ?_
      by_cases hp : p.beadId = none
      · have hspared : ¬(g.permission.beadId ≠ none ∧
            p.IsFor g.permission.beadId g.permission.granteeType g.permission.granteeId) :=
          fun ⟨hbead, hfor⟩ => hbead (hfor.1.symm.trans hp)
        simp [hp, hspared]
      · simp [hp]
    rw [standing, List.filter_append, hkept, ih]
    by_cases hg : g.Lasts <;> simp [hg]

theorem grantedLevel_global (h : db.permissions.rows = standing grants) :
    db.grantedLevel none type grantee = (oldestLasting grants none type grantee).map Grant.level := by
  have hfind (rows : List Permission) : rows.find? (Permission.IsFor none type grantee ·) =
      (rows.filter (·.beadId = none)).find? (Permission.IsFor none type grantee ·) := by
    rw [List.find?_filter]
    congr 1
    funext p
    by_cases hp : p.beadId = none <;> simp [Permission.IsFor, hp]
  rw [Db.grantedLevel, Db.getPermissionForGrantee, h, hfind, filter_standing_global, ← hfind, oldestLasting,
    List.find?_map, ← List.filter_reverse, List.find?_filter, Option.map_map]
  congr 2
  funext g
  simp [Grant.IsFor, and_comm]

theorem filter_standing_bead (b : BeadId) (type : GranteeType) (grantee : String) (grants : List Grant) :
    (standing grants).filter (Permission.IsFor (some b) type grantee ·) =
      (((grants.find? (Grant.IsFor (some b) type grantee ·)).filter (Grant.Lasts ·)).map
        Grant.permission).toList := by
  induction grants with
  | nil => rfl
  | cons g older ih =>
    rw [standing, List.filter_append, List.filter_filter]
    by_cases hg : g.IsFor (some b) type grantee
    · have hgone : (standing older).filter (fun p => decide (p.IsFor (some b) type grantee) &&
          decide ¬(g.permission.beadId ≠ none ∧
            p.IsFor g.permission.beadId g.permission.granteeType g.permission.granteeId)) = [] := by
        obtain ⟨hbead, htype, hgrantee⟩ := hg
        rw [List.filter_eq_nil_iff]
        intro p _
        simp [hbead, htype, hgrantee]
      rw [hgone, List.find?_cons_of_pos (by simpa using hg)]
      have hfor : g.permission.IsFor (some b) type grantee := hg
      by_cases hlasts : g.Lasts <;> simp [Option.filter_some, hlasts, hfor]
    · have hkept : (standing older).filter (fun p => decide (p.IsFor (some b) type grantee) &&
          decide ¬(g.permission.beadId ≠ none ∧
            p.IsFor g.permission.beadId g.permission.granteeType g.permission.granteeId)) =
          (standing older).filter (Permission.IsFor (some b) type grantee ·) := by
        refine List.filter_congr fun p _ => ?_
        by_cases hp : p.IsFor (some b) type grantee
        · have hspared : ¬p.IsFor g.permission.beadId g.permission.granteeType g.permission.granteeId := by
            rintro ⟨hbead, htype, hgrantee⟩
            exact hg ⟨hbead ▸ hp.1, htype ▸ hp.2.1, hgrantee ▸ hp.2.2⟩
          simp [hp, hspared]
        · simp [hp]
      rw [hkept, ih, List.find?_cons_of_neg (by simpa using hg)]
      have hfor : ¬g.permission.IsFor (some b) type grantee := hg
      by_cases hlasts : g.Lasts <;> simp [hlasts, hfor]

theorem grantedLevel_bead (h : db.permissions.rows = standing grants) (b : BeadId) :
    db.grantedLevel (some b) type grantee =
      ((grants.find? (Grant.IsFor (some b) type grantee ·)).filter (Grant.Lasts ·)).map Grant.level := by
  have hhead : db.permissions.rows.find? (Permission.IsFor (some b) type grantee ·) =
      (db.permissions.rows.filter (Permission.IsFor (some b) type grantee ·)).head? :=
    List.head?_filter.symm
  rw [Db.grantedLevel, Db.getPermissionForGrantee, hhead, h, filter_standing_bead, Option.head?_toList,
    Option.map_map]
  rfl

/-- What was written last is there: no later grant has taken the id of the newest; and of the global
grants of the pair the oldest that lasts has the level of the newest. -/
def LastWrittenKept (grants : List Grant) (bead : Option BeadId) (type : GranteeType) (grantee : String) :
    Prop :=
  match bead with
  | some b => ∀ g ∈ lastWritten grants (some b) type grantee, g.retaken = false
  | none => (oldestLasting grants none type grantee).map Grant.level =
      (lastWritten grants none type grantee).map Grant.level

/-- The newest grant that is not revoked is there: it is the newest of the pair and no later one
has taken its id; and of the global grants of the pair the oldest that lasts has its level. -/
def LastUnrevokedKept (grants : List Grant) (bead : Option BeadId) (type : GranteeType) (grantee : String) :
    Prop :=
  ∀ g ∈ lastUnrevoked grants bead type grantee,
    match bead with
    | some b => grants.find? (Grant.IsFor (some b) type grantee ·) = some g ∧ g.retaken = false
    | none => (oldestLasting grants none type grantee).map Grant.level = some g.level

theorem grantedLevel_lastWritten (h : db.permissions.rows = standing grants) :
    db.grantedLevel bead type grantee = (lastWritten grants bead type grantee).map Grant.level ↔
      LastWrittenKept grants bead type grantee := by
  cases bead with
  | none => rw [grantedLevel_global h, LastWrittenKept]
  | some b =>
    rw [grantedLevel_bead h, LastWrittenKept, lastWritten]
    cases grants.find? (Grant.IsFor (some b) type grantee ·) with
    | none => simp
    | some g =>
      by_cases hrevoked : g.revoked = true
      · simp [Option.filter_some, Grant.Lasts, hrevoked]
      · by_cases hretaken : g.retaken = true <;> simp [Option.filter_some, Grant.Lasts, hrevoked, hretaken]

theorem grantedLevel_lastUnrevoked (h : db.permissions.rows = standing grants) :
    db.grantedLevel bead type grantee = (lastUnrevoked grants bead type grantee).map Grant.level ↔
      LastUnrevokedKept grants bead type grantee := by
  cases bead with
  | none =>
    rw [grantedLevel_global h, LastUnrevokedKept]
    cases hlast : lastUnrevoked grants none type grantee with
    | none =>
      have hnone : oldestLasting grants none type grantee = none := by
        rw [lastUnrevoked, List.find?_eq_none] at hlast
        rw [oldestLasting, List.find?_eq_none]
        intro g hg
        have hunrevoked := hlast g (List.mem_reverse.1 hg)
        simp only [decide_eq_true_eq] at hunrevoked ⊢
        exact fun ⟨hfor, hlasts⟩ => hunrevoked ⟨hfor, hlasts.1⟩
      simp [hnone]
    | some g => simp
  | some b =>
    rw [grantedLevel_bead h, LastUnrevokedKept]
    cases hnewest : grants.find? (Grant.IsFor (some b) type grantee ·) with
    | none =>
      have hnone : lastUnrevoked grants (some b) type grantee = none := by
        rw [List.find?_eq_none] at hnewest
        rw [lastUnrevoked, List.find?_eq_none]
        intro g hg
        have hother := hnewest g hg
        simp only [decide_eq_true_eq] at hother ⊢
        exact fun hfor => hother hfor.1
      simp [hnone]
    | some g =>
      by_cases hrevoked : g.revoked = true
      · -- nothing is there, and the newest is not the one looked for
        have hother : ∀ g' ∈ lastUnrevoked grants (some b) type grantee, g ≠ g' := by
          rintro g' hg' rfl
          have hfound := List.find?_some hg'
          simp [hrevoked] at hfound
        cases hlast : lastUnrevoked grants (some b) type grantee with
        | none => simp [Option.filter_some, Grant.Lasts, hrevoked]
        | some g' =>
          have hne := hother g' hlast
          simp [Option.filter_some, Grant.Lasts, hnewest, hrevoked, hne]
      · have hlast : lastUnrevoked grants (some b) type grantee = some g := by
          obtain ⟨hfor, before, after, hgrants, hbefore⟩ := List.find?_eq_some_iff_append.1 hnewest
          refine List.find?_eq_some_iff_append.2 ⟨?_, before, after, hgrants, fun g' hg' => ?_⟩
          · simpa [hrevoked] using hfor
          · have hnot := hbefore g' hg'
            simp only [Bool.not_eq_true', decide_eq_false_iff_not] at hnot ⊢
            exact fun h => hnot h.1
        by_cases hretaken : g.retaken = true <;>
          simp [Option.filter_some, Grant.Lasts, hlast, hnewest, hrevoked, hretaken]

/-- Whichever grant is taken for the last, the pair shows its level exactly where the grant is kept. -/
theorem seesLast_run_iff (db : Db) (hunique : db.permissions.rows.Pairwise fun p p' => ¬p'.Clash p)
    (ops : List Op) (bead : Option BeadId) (type : GranteeType) (grantee : String) :
    (SeesLast (run Op.next db ops)
        ((lastUnrevoked (db.history ops) bead type grantee).map Grant.level) bead type grantee ↔
      LastUnrevokedKept (db.history ops) bead type grantee) ∧
    (SeesLast (run Op.next db ops)
        ((lastWritten (db.history ops) bead type grantee).map Grant.level) bead type grantee ↔
      LastWrittenKept (db.history ops) bead type grantee) := by
  have hrows := rows_run (standing_grants hunique).symm ops
  rw [seesLast_iff, seesLast_iff]
  exact ⟨grantedLevel_lastUnrevoked hrows, grantedLevel_lastWritten hrows⟩

def readThenAdmin (bead : Option BeadId) : List Op :=
  [.grant { granteeType := .worker, granteeId := "w-1", level := 1, beadId := bead, permissionId := "p-1" },
    .grant { granteeType := .worker, granteeId := "w-1", level := 5, beadId := bead, permissionId := "p-2" }]

/-- On a bead the second grant takes the place of the first. -/
theorem secondOnBead_seen :
    SeesLast (run Op.next staffed (readThenAdmin (some "b-1")))
      ((lastUnrevoked (staffed.history (readThenAdmin (some "b-1"))) (some "b-1") .worker "w-1").map
        Grant.level) (some "b-1") .worker "w-1" :=
  (seesLast_run_iff staffed .nil (readThenAdmin (some "b-1")) (some "b-1") .worker "w-1").1.2
    (by unfold LastUnrevokedKept; decide)

/-- A global grant stays behind the one before it. -/
theorem secondGlobal_not_seen :
    ¬SeesLast (run Op.next staffed (readThenAdmin none))
      ((lastUnrevoked (staffed.history (readThenAdmin none)) none .worker "w-1").map Grant.level)
      none .worker "w-1" :=
  fun h => absurd h.get (by decide)

end Quinn.Permissions
