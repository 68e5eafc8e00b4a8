import Quinn.Beads.Wrapper

/-! Argument lists as `bd` reads them. -/

namespace Quinn.Beads

open Text

/-- `flag` stands without a value, `spaced` before it, `joined` with `=` between the two. -/
inductive Item
  | id (bead : String)
  | flag (name : String)
  | spaced (name value : String)
  | joined (name value : String)
  deriving DecidableEq

namespace Item

def render : Item → List String
  | id bead => [bead]
  | flag name => [name]
  | spaced name value => [name, value]
  | joined name value => [name ++ "=" ++ value]

def FlagName (name : String) : Prop := IsFlag name ∧ '=' ∉ name.toList

instance (name : String) : Decidable (FlagName name) := inferInstanceAs (Decidable (_ ∧ _))

def WellFormed : Item → Prop
  | id bead => ¬IsFlag bead
  | flag name | spaced name _ | joined name _ => FlagName name

instance : (item : Item) → Decidable item.WellFormed
  | id _ => inferInstanceAs (Decidable (¬_))
  | flag name | spaced name _ | joined name _ => inferInstanceAs (Decidable (FlagName name))

def bead? : Item → Option String
  | id bead => some bead
  | _ => none

def status? : Item → Option String
  | spaced name value | joined name value => if name ∈ statusFlags then some value else none
  | _ => none

end Item

structure Invocation where
  subcommand : String
  items : List Item

namespace Invocation

def args (inv : Invocation) : List String := inv.subcommand :: inv.items.flatMap Item.render

structure WellFormed (inv : Invocation) : Prop where
  subcommand : ¬IsFlag inv.subcommand
  items : ∀ item ∈ inv.items, item.WellFormed

/-- The beads `bd` acts on. -/
def ids (inv : Invocation) : List String := inv.items.filterMap Item.bead?

/-- The status `bd` sets: the last one wins. -/
def status (inv : Invocation) : Option String := (inv.items.filterMap Item.status?).getLast?

end Invocation

namespace Item

def words : Item → List String
  | id bead => [bead]
  | spaced _ value => if IsFlag value then [] else [value]
  | flag _ | joined _ _ => []

/-- The status that can be read at the item, before the word `next`. -/
def statusMention (next : Option String) : Item → Option String
  | id _ => none
  | flag name => if name ∈ statusFlags then next else none
  | spaced name value =>
    if name ∈ statusFlags then some value
    else if value ∈ statusFlags then next
    else if StartsWith value "--status=" ∨ StartsWith value "--state=" then some (afterFirst '=' value)
    else none
  | joined name value => if name ∈ ["--status", "--state"] then some value else none

end Item

/-- The words that look like the id of a bead, in order. -/
def lookalikes (items : List Item) : List String := (items.flatMap Item.words).filter (Contains · "-")

/-- The statuses that can be read in the items, in order. -/
def statusMentions : List Item → List String
  | [] => []
  | item :: items =>
    (item.statusMention (items.flatMap Item.render).head?).toList ++ statusMentions items

theorem isFlag_joined {name value : String} (h : IsFlag name) :
    IsFlag (name ++ "=" ++ value) :=
  ((startsWith_append _ value).trans (startsWith_append name _)).trans h

theorem isFlag_of_mem_statusFlags {arg : String} (h : arg ∈ statusFlags) : IsFlag arg := by
  have hall : ∀ arg ∈ statusFlags, IsFlag arg := by decide
  exact hall arg h

theorem eq_not_mem_statusFlags {arg : String} (h : arg ∈ statusFlags) : '=' ∉ arg.toList := by
  have hall : ∀ arg ∈ statusFlags, '=' ∉ arg.toList := by decide
  exact hall arg h

theorem getCommandFromArgs_args {inv : Invocation} (h : inv.WellFormed) :
    getCommandFromArgs inv.args = some inv.subcommand := by
  simp [getCommandFromArgs, Invocation.args, h.subcommand]

theorem findBeadId_render {item : Item} (h : item.WellFormed) (args : List String) :
    findBeadId true (item.render ++ args) =
      ((item.words.filter (Contains · "-")).head?).or (findBeadId true args) := by
  cases item with
  | id bead =>
    have hbead : ¬IsFlag bead := h
    by_cases hdash : Contains bead "-" <;> simp [Item.render, Item.words, findBeadId, hbead, hdash]
  | flag name =>
    have hname : IsFlag name := h.1
    simp [Item.render, Item.words, findBeadId, hname]
  | spaced name value =>
    have hname : IsFlag name := h.1
    by_cases hvalue : IsFlag value
    · simp [Item.render, Item.words, findBeadId, hname, hvalue]
    · by_cases hdash : Contains value "-" <;>
        simp [Item.render, Item.words, findBeadId, hname, hvalue, hdash]
  | joined name value =>
    have hjoined : IsFlag (name ++ "=" ++ value) := isFlag_joined h.1
    simp [Item.render, Item.words, findBeadId, hjoined]

theorem findBeadId_items {items : List Item} (h : ∀ item ∈ items, item.WellFormed) :
    findBeadId true (items.flatMap Item.render) = (lookalikes items).head? := by
  induction items with
  | nil => rfl
  | cons item items ih =>
    rw [List.flatMap_cons, findBeadId_render (h item List.mem_cons_self),
      ih fun i hi => h i (List.mem_cons_of_mem _ hi)]
    simp only [lookalikes, List.flatMap_cons, List.filter_append, List.head?_append]

theorem getBeadIdFromArgs_args {inv : Invocation} (h : inv.WellFormed) :
    getBeadIdFromArgs inv.args = (lookalikes inv.items).head? := by
  rw [← findBeadId_items h.items]
  simp [getBeadIdFromArgs, Invocation.args, findBeadId, h.subcommand]

theorem joined_not_mem_statusFlags (name value : String) : name ++ "=" ++ value ∉ statusFlags :=
  fun h => eq_not_mem_statusFlags h (by simp)

theorem startsWith_joined {name : String} (h : Item.FlagName name) (value : String) :
    StartsWith (name ++ "=" ++ value) "--status=" ∨ StartsWith (name ++ "=" ++ value) "--state=" ↔
      name ∈ ["--status", "--state"] := by
  have hstatus := startsWith_append_iff h.2 (t := "--status") (by decide) value
  have hstate := startsWith_append_iff h.2 (t := "--state") (by decide) value
  simp only [List.mem_cons, List.not_mem_nil, or_false]
  exact or_congr hstatus hstate

theorem not_startsWith_name {name : String} (h : Item.FlagName name) :
    ¬(StartsWith name "--status=" ∨ StartsWith name "--state=") := by
  have heq : ∀ t : String, '=' ∈ t.toList → ¬StartsWith name t := fun t ht hs => h.2 (hs.subset ht)
  rintro (hs | hs)
  · exact heq _ (by decide) hs
  · exact heq _ (by decide) hs

theorem not_startsWith_word {word : String} (h : ¬IsFlag word) :
    ¬(StartsWith word "--status=" ∨ StartsWith word "--state=") := by
  have hflag : ∀ t : String, IsFlag t → ¬StartsWith word t := fun t ht hs => h (StartsWith.trans hs ht)
  rintro (hs | hs)
  · exact hflag _ (by decide) hs
  · exact hflag _ (by decide) hs

theorem parseStatusFromArgs_skip {arg : String} {args : List String} (hflag : arg ∉ statusFlags)
    (hvalue : ¬(StartsWith arg "--status=" ∨ StartsWith arg "--state=")) :
    parseStatusFromArgs (arg :: args) = parseStatusFromArgs args := by
  simp only [parseStatusFromArgs, if_neg hflag, if_neg hvalue]

theorem parseStatusFromArgs_flag {arg : String} (h : arg ∈ statusFlags) (args : List String) :
    parseStatusFromArgs (arg :: args) = args.head? := by
  cases args <;> simp [parseStatusFromArgs, h]

theorem parseStatusFromArgs_value {arg : String} {args : List String} (hflag : arg ∉ statusFlags)
    (hvalue : StartsWith arg "--status=" ∨ StartsWith arg "--state=") :
    parseStatusFromArgs (arg :: args) = some (afterFirst '=' arg) := by
  simp only [parseStatusFromArgs, if_neg hflag, if_pos hvalue]

theorem parseStatusFromArgs_render {item : Item} (h : item.WellFormed) (args : List String) :
    parseStatusFromArgs (item.render ++ args) =
      (item.statusMention args.head?).or (parseStatusFromArgs args) := by
  cases item with
  | id bead => 
    exact parseStatusFromArgs_skip (fun hb => h (isFlag_of_mem_statusFlags hb)) (not_startsWith_word h)
  | flag name =>
    simp only [Item.render, Item.statusMention, List.cons_append, List.nil_append]
    by_cases hname : name ∈ statusFlags
    · rw [parseStatusFromArgs_flag hname, if_pos hname]
      cases args <;> rfl
    · rw [parseStatusFromArgs_skip hname (not_startsWith_name h), if_neg hname, Option.none_or]
  | spaced name value =>
    simp only [Item.render, Item.statusMention, List.cons_append, List.nil_append]
    by_cases hname : name ∈ statusFlags
    · rw [parseStatusFromArgs_flag hname, if_pos hname]
      rfl
    · rw [parseStatusFromArgs_skip hname (not_startsWith_name h), if_neg hname]
      by_cases hvalue : value ∈ statusFlags
      · rw [parseStatusFromArgs_flag hvalue, if_pos hvalue]
        cases args <;> rfl
      · rw [if_neg hvalue]
        by_cases hstarts : StartsWith value "--status=" ∨ StartsWith value "--state="
        · rw [parseStatusFromArgs_value hvalue hstarts, if_pos hstarts, Option.some_or]
        · rw [parseStatusFromArgs_skip hvalue hstarts, if_neg hstarts, Option.none_or]
  | joined name value =>
    simp only [Item.render, Item.statusMention, List.cons_append, List.nil_append]
    have hflag := joined_not_mem_statusFlags name value
    by_cases hname : name ∈ ["--status", "--state"]
    · rw [parseStatusFromArgs_value hflag ((startsWith_joined h value).2 hname), if_pos hname,
        Option.some_or]
      exact congrArg some (afterFirst_append h.2 value)
    · rw [parseStatusFromArgs_skip hflag fun hs => hname ((startsWith_joined h value).1 hs),
        if_neg hname, Option.none_or]

theorem parseStatusFromArgs_items {items : List Item} (h : ∀ item ∈ items, item.WellFormed) :
    parseStatusFromArgs (items.flatMap Item.render) = (statusMentions items).head? := by
  induction items with
  | nil => rfl
  | cons item items ih =>
    rw [List.flatMap_cons, parseStatusFromArgs_render (h item List.mem_cons_self),
      ih fun i hi => h i (List.mem_cons_of_mem _ hi), statusMentions, List.head?_append]
    cases item.statusMention (items.flatMap Item.render).head? <;> rfl

theorem parseStatusFromArgs_args {inv : Invocation} (h : inv.WellFormed) :
    parseStatusFromArgs inv.args = (statusMentions inv.items).head? := by
  rw [← parseStatusFromArgs_items h.items]
  exact parseStatusFromArgs_skip (fun hb => h.subcommand (isFlag_of_mem_statusFlags hb))
    (not_startsWith_word h.subcommand)

end Quinn.Beads

/-! When the guards examine what `bd` will do. -/

namespace Quinn.Beads

open Store Permissions

namespace Invocation

/-- What a permission is asked for: each bead, or none in particular. -/
def targets (inv : Invocation) : List (Option BeadId) :=
  if inv.ids = [] then [none] else inv.ids.map some

def Permitted (inv : Invocation) (db : Option Db) (worker : WorkerId) : Prop :=
  requiredLevel inv.subcommand ≤ .read ∨
    ∀ db' ∈ db, ∀ target ∈ inv.targets, requiredLevel inv.subcommand ≤ actualLevel db' worker target

/-- Every bead that `bd` updates or closes may take the status that it is given. -/
def Lawful (inv : Invocation) (org : Org) : Prop :=
  inv.subcommand ∈ ["update", "close"] →
    ∀ bead ∈ inv.ids, checkBead org inv.subcommand inv.status bead = .ok ()

/-- The guards go by the subcommand, the beads and the status of the invocation. -/
structure Examined (inv : Invocation) : Prop where
  subcommand : getCommandFromArgs inv.args = some inv.subcommand ∧ inv.args.head? = some inv.subcommand
  permission : ∀ db worker, checkBdPermission db worker inv.args = .ok () ↔ inv.Permitted db worker
  lifecycle : ∀ org, checkLifecycleTransition org inv.args = .ok () ↔ inv.Lawful org

/-- The first word that looks like an id is the only bead `bd` acts on, or there is neither; and on
an update of a bead the first status that can be read, if it is not empty, is the one `bd` sets. -/
structure ReadRight (inv : Invocation) : Prop where
  ids : .read < requiredLevel inv.subcommand →
    ∀ target ∈ inv.targets, target = (lookalikes inv.items).head?
  status : inv.subcommand = "update" → inv.ids ≠ [] →
    (statusMentions inv.items).head?.filter (· ≠ "") = inv.status

variable {inv : Invocation}

theorem checkBdPermission_args (h : inv.WellFormed) (db : Option Db) (worker : WorkerId) :
    checkBdPermission db worker inv.args = .ok () ↔ requiredLevel inv.subcommand ≤ .read ∨
      ∀ db' ∈ db, requiredLevel inv.subcommand ≤ actualLevel db' worker (lookalikes inv.items).head? := by
  simp only [checkBdPermission, getCommandFromArgs_args h, getBeadIdFromArgs_args h]
  by_cases hread : requiredLevel inv.subcommand ≤ .read
  · simp [hread]
  · cases db with
    | none => simp
    | some db =>
      by_cases hlevel : actualLevel db worker (lookalikes inv.items).head? < requiredLevel inv.subcommand
      · simp [hread, hlevel, not_le.2 hlevel]
      · simp [hread, hlevel, not_lt.1 hlevel]

def storedLevel (bead : BeadId) (level : PermissionLevel) (permissions : Table Permission) : Db where
  workers := .single { id := "w-1", name := "Ada", role := "worker", managerId := none }
  permissions
  effectivePermissions := .single ⟨"w-1", bead, level⟩
  worker_of_effective := by simp [Table.single, Table.Has, Row.key]

theorem getEffectivePermission_storedLevel (bead bead' : BeadId) (level : PermissionLevel)
    (permissions : Table Permission) :
    (storedLevel bead level permissions).getEffectivePermission "w-1" bead' =
      if bead = bead' then some ⟨"w-1", bead, level⟩ else none := by
  simp only [storedLevel, Db.getEffectivePermission, Table.find?, Table.single, Row.key, Prod.mk.injEq,
    true_and, List.find?_cons, List.find?_nil]
  by_cases h : bead = bead' <;> simp [h]

theorem exists_actualLevel {read target : Option BeadId} (h : target ≠ read) :
    ∃ db worker, actualLevel db worker read = .admin ∧ actualLevel db worker target = .none := by
  cases read with
  | some bead =>
    refine ⟨storedLevel bead .admin {}, "w-1", ?_, ?_⟩
    · simp [actualLevel, getEffectivePermission_storedLevel]
    · cases target with
      | none => rfl
      | some bead' =>
        have hne : bead ≠ bead' := fun he => h (congrArg some he.symm)
        simp only [actualLevel, getEffectivePermission_storedLevel, if_neg hne]
        rfl
  | none =>
    cases target with
    | none => exact (h rfl).elim
    | some bead =>
      refine ⟨storedLevel bead .none (.single ⟨"p-1", none, .worker, "w-1", .admin⟩), "w-1", rfl, ?_⟩
      simp [actualLevel, getEffectivePermission_storedLevel]

theorem permission_iff (h : inv.WellFormed) :
    (∀ db worker, checkBdPermission db worker inv.args = .ok () ↔ inv.Permitted db worker) ↔
      (.read < requiredLevel inv.subcommand →
        ∀ target ∈ inv.targets, target = (lookalikes inv.items).head?) := by
  have htargets : ∃ target, target ∈ inv.targets := by
    unfold targets
    split
    · exact ⟨none, List.mem_singleton_self _⟩
    · obtain ⟨bead, hbead⟩ := List.exists_mem_of_ne_nil _ ‹inv.ids ≠ []›
      exact ⟨some bead, List.mem_map_of_mem hbead⟩
  simp only [checkBdPermission_args h, Permitted]
  constructor
  · intro hiff hrequired target htarget
    by_contra hne
    obtain ⟨db, worker, hread, hnone⟩ := exists_actualLevel hne
    have hpermitted := ((hiff (some db) worker).1 (.inr fun db' hdb' => by
      cases hdb'
      rw [hread]
      exact PermissionLevel.le_admin _)).resolve_left (not_le.2 hrequired)
    have hlevel := hpermitted db rfl target htarget
    rw [hnone, PermissionLevel.le_none] at hlevel
    exact absurd hlevel (requiredLevel_ne_none _)
  · intro hreads db worker
    by_cases hread : requiredLevel inv.subcommand ≤ .read
    · simp [hread]
    · have hall := hreads (not_le.1 hread)
      refine or_congr_right (forall₂_congr fun db' _ => ⟨fun hle target ht => ?_, fun hle => ?_⟩)
      · rw [hall target ht]
        exact hle
      · obtain ⟨target, ht⟩ := htargets
        rw [← hall target ht]
        exact hle target ht

theorem checkLifecycleTransition_args (h : inv.WellFormed) (org : Org) :
    checkLifecycleTransition org inv.args = .ok () ↔ (inv.subcommand ∈ ["update", "close"] →
      ∀ bead ∈ (lookalikes inv.items).head?, checkBead org inv.subcommand
        ((statusMentions inv.items).head?.filter (· ≠ "")) bead = .ok ()) := by
  simp only [checkLifecycleTransition, getCommandFromArgs_args h, getBeadIdFromArgs_args h,
    parseStatusFromArgs_args h]
  by_cases hsub : inv.subcommand ∈ ["update", "close"]
  · rw [if_neg (not_not.2 hsub)]
    cases (lookalikes inv.items).head? <;> simp [hsub]
  · simp [hsub]

/-- A bead of the given status, whose type has no states. -/
def stateless (status : String) : Org where
  db := none
  bead _ := some ⟨"task", status, []⟩
  lifecycle _ := ⟨[], [], fun _ => []⟩

theorem checkBead_stateless_iff (status : String) (target : Option String) (bead : BeadId) :
    checkBead (stateless status) "update" target bead = .ok () ↔ ∀ t ∈ target, t = status := by
  cases target with
  | none => simp [checkBead, stateless]
  | some t =>
    by_cases h : t = status <;>
      simp [checkBead, stateless, h, LifecycleConfig.validateStateTransition, LifecycleConfig.allStates]

theorem target_ext {target target' : Option String}
    (h : ∀ status, (∀ t ∈ target, t = status) ↔ ∀ t ∈ target', t = status) : target = target' := by
  have hne : ∀ t : String, t ++ "-" ≠ t := fun t he => by
    simpa using congrArg String.length he
  cases target with
  | none =>
    cases target' with
    | none => rfl
    | some t => exact (hne t ((h (t ++ "-")).1 (by simp) t rfl).symm).elim
  | some t =>
    cases target' with
    | none => exact (hne t ((h (t ++ "-")).2 (by simp) t rfl).symm).elim
    | some t' => exact congrArg some ((h t').2 (by simp) t rfl)

theorem checkBead_close (org : Org) (target target' : Option String) (bead : BeadId) :
    checkBead org "close" target bead = checkBead org "close" target' bead := by
  simp [checkBead]

/-- Where the permission is asked for what `bd` acts on, the lifecycle is too. -/
theorem forall_lookalike_iff (h : ∀ target ∈ inv.targets, target = (lookalikes inv.items).head?)
    (P : BeadId → Prop) : (∀ bead ∈ (lookalikes inv.items).head?, P bead) ↔ ∀ bead ∈ inv.ids, P bead := by
  unfold targets at h
  by_cases hids : inv.ids = []
  · rw [if_pos hids] at h
    simp [← h none (List.mem_singleton_self _), hids]
  · rw [if_neg hids] at h
    have hall : ∀ bead ∈ inv.ids, (lookalikes inv.items).head? = some bead := fun bead hbead =>
      (h _ (List.mem_map_of_mem hbead)).symm
    obtain ⟨bead, hbead⟩ := List.exists_mem_of_ne_nil _ hids
    constructor
    · intro hP bead' hbead'
      exact hP bead' (hall bead' hbead')
    · intro hP bead' hbead'
      rw [Option.mem_def, hall bead hbead, Option.some.injEq] at hbead'
      exact hbead' ▸ hP bead hbead

theorem lifecycle_iff (h : inv.WellFormed)
    (hids : .read < requiredLevel inv.subcommand →
      ∀ target ∈ inv.targets, target = (lookalikes inv.items).head?) :
    (∀ org, checkLifecycleTransition org inv.args = .ok () ↔ inv.Lawful org) ↔
      (inv.subcommand = "update" → inv.ids ≠ [] →
        (statusMentions inv.items).head?.filter (· ≠ "") = inv.status) := by
  simp only [checkLifecycleTransition_args h, Lawful]
  by_cases hsub : inv.subcommand ∈ ["update", "close"]
  · have hwrites : .read < requiredLevel inv.subcommand := by
      have hall : ∀ command ∈ ["update", "close"], .read < requiredLevel command := by decide
      exact hall _ hsub
    simp only [forall_lookalike_iff (hids hwrites), hsub, true_imp_iff]
    constructor
    · intro hiff hupdate hne
      obtain ⟨bead, hbead⟩ := List.exists_mem_of_ne_nil _ hne
      rw [hupdate] at hiff
      refine target_ext fun status => ?_
      have hstateless := hiff (stateless status)
      simp only [checkBead_stateless_iff] at hstateless
      exact ⟨fun ht => hstateless.1 (fun _ _ => ht) bead hbead, fun ht => hstateless.2 (fun _ _ => ht) bead hbead⟩
    · intro hstatus org
      refine forall₂_congr fun bead hbead => ?_
      rcases List.mem_pair.1 hsub with hupdate | hclose
      · rw [hstatus hupdate (List.ne_nil_of_mem hbead)]
      · rw [hclose, checkBead_close]
  · have hnot : inv.subcommand ≠ "update" := fun he => hsub (by simp [he])
    simp [hsub, hnot]

/-- The guards examine what `bd` will do if and only if the words of the invocation are read right. -/
theorem examined_iff (inv : Invocation) (h : inv.WellFormed) : inv.Examined ↔ inv.ReadRight := by
  constructor
  · intro hexamined
    have hids := (permission_iff h).1 hexamined.permission
    exact ⟨hids, (lifecycle_iff h hids).1 hexamined.lifecycle⟩
  · intro hright
    exact ⟨⟨getCommandFromArgs_args h, rfl⟩, (permission_iff h).2 hright.ids,
      (lifecycle_iff h hright.ids).2 hright.status⟩

def oneStatus : Invocation where
  subcommand := "update"
  items := [.id "b-1", .spaced "--title" "fix-it", .joined "--status" "closed"]

theorem oneStatus_examined : oneStatus.Examined :=
  (examined_iff oneStatus ⟨by decide, by decide⟩).2 ⟨by decide, by decide⟩

def twoBeads : Invocation where
  subcommand := "close"
  items := [.id "b-1", .id "b-2"]

def titleFirst : Invocation where
  subcommand := "update"
  items := [.spaced "--title" "fix-it", .id "b-1"]

def twoStatuses : Invocation where
  subcommand := "update"
  items := [.id "b-1", .spaced "--status" "open", .spaced "--status" "closed"]

/-- The second bead, the bead behind a title, and the last status are not examined. -/
theorem firstWords_not_examined :
    ¬twoBeads.Examined ∧ ¬titleFirst.Examined ∧ ¬twoStatuses.Examined := by
  refine ⟨fun h => ?_, fun h => ?_, fun h => ?_⟩
  · have hpermitted := (h.permission (some (storedLevel "b-1" .admin {})) "w-1").1 (by decide)
    exact absurd (hpermitted.resolve_left (by decide) _ rfl (some "b-2") (by decide)) (by decide)
  · have hpermitted := (h.permission (some (storedLevel "fix-it" .admin {})) "w-1").1 (by decide)
    exact absurd (hpermitted.resolve_left (by decide) _ rfl (some "b-1") (by decide)) (by decide)
  · have hlawful := (h.lifecycle (stateless "open")).1 (by decide)
    exact absurd (hlawful (by decide) "b-1" (by decide)) (by decide)

end Invocation

end Quinn.Beads
