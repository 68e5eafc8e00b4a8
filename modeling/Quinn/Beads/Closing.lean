import Quinn.Beads.Wrapper

/-! The guard of `bd close`, with all that a look-up may come to.  `Wrapper` has the answers of the
look-ups that succeed. -/

namespace Quinn.Beads.Closing

open Text Permissions

/-- What `json.loads` gives.  Of `null`, a truth value or a number it counts whether it is true. -/
inductive Json
  | text (s : String)
  | scalar (truthy : Bool)
  | list (items : List Json)
  | dict (entries : List (String × Json))

namespace Json

def truthy : Json → Bool
  | text s => s ≠ ""
  | scalar truthy => truthy
  | list items => !items.isEmpty
  | dict entries => !entries.isEmpty

/-- `entries.get(key, default)`; the last of two entries for one key counts. -/
def getD (entries : List (String × Json)) (key : String) (default : Json) : Json :=
  ((entries.reverse.find? (·.1 = key)).map (·.2)).getD default

/-- What a loop over the value runs through. -/
def items? : Json → Option (List Json)
  | text s => some (s.toList.map fun c => text (String.singleton c))
  | scalar _ => none
  | list items => some items
  | dict entries => some ((entries.map (·.1)).eraseDups.map text)

end Json

/-- What comes of running `bd show`. -/
inductive Shown
  | noBinary
  | failed
  | timedOut
  | notJson
  | raised
  | printed (data : Json)

/-- What `_get_bead_info` returns, but for the id. -/
structure Info where
  type : Json
  status : Json
  dependsOn : Json

inductive CloseError
  | lifecycle (e : LifecycleError)
  /-- An `InvalidStateError` for a status that is no text. -/
  | invalidState (bead : String)
  | beadBlocked (bead : String) (blocking : List Json)
  | typeError
  | attributeError

/-- A method that the value does not have is an error like all others. -/
def infoOf : Json → Option Info
  | .dict data =>
    let type := Json.getD data "type" (.text "default")
    let status := Json.getD data "status" (.text "open")
    let dependsOn := Json.getD data "depends_on" (.list [])
    if dependsOn.truthy then some { type, status, dependsOn }
    else
      match Json.getD data "dependencies" (.dict []) with
      | .dict deps =>
        let dependsOn := Json.getD deps "depends_on" (.list [])
        if dependsOn.truthy then some { type, status, dependsOn }
        else some { type, status, dependsOn := Json.getD deps "blocks" (.list []) }
      | _ => none
  | _ => none

def getBeadInfo (run : BeadId → Shown) : Json → Option Info
  | .text bead =>
    match run bead with
    | .printed data => infoOf data
    | _ => none
  | _ => none

def Info.isOpen (info : Info) : Except CloseError Bool :=
  match info.status with
  | .text status => .ok (decide (lower status ∉ closedStatuses))
  | _ => .error .attributeError

section

variable (lifecycle : Json → Option LifecycleConfig) (look : Nat → BeadId → Shown)

def getOpenBlockers (k : Nat) : List Json → Except CloseError (List Json)
  | [] => return []
  | dep :: deps => do
    let blocking ←
      match getBeadInfo (look k) dep with
      | none => pure false
      | some info => info.isOpen
    let rest ← getOpenBlockers (k + 1) deps
    return if blocking then dep :: rest else rest

/-- A type that cannot be hashed has no lifecycle, and looking for it raises. -/
def validateCanClose (bead : BeadId) (info : Info) : Except CloseError Unit :=
  match lifecycle info.type with
  | none => .error .typeError
  | some config =>
    match info.status with
    | .text status =>
      (config.validateCanClose bead (match info.type with | .text type => type | _ => "") status).mapError
        .lifecycle
    | .scalar _ => .error (.invalidState bead)
    | _ => .error .typeError

def checkClose (bead : BeadId) : Except CloseError Unit :=
  match getBeadInfo (look 0) (.text bead) with
  | none => .ok ()
  | some info => do
    validateCanClose lifecycle bead info
    if info.dependsOn.truthy then
      match info.dependsOn.items? with
      | none => throw .typeError
      | some deps =>
        match ← getOpenBlockers look 1 deps with
        | [] => return ()
        | blocking => throw (.beadBlocked bead blocking)

def Info.dependencies (info : Info) : List (Json × Nat) := (info.dependsOn.items?.getD []).zipIdx 1

def KnownClosed (told : Option Info) : Prop := ∃ info ∈ told, info.isOpen matches .ok false

/-- It is told of a bead that is not closed, or of which that cannot be said. -/
def Stops (told : Option Info) : Prop := ∃ info ∈ told, ¬info.isOpen matches .ok false

/-- A close is let through only if each dependency that the bead is told to have is known to be closed. -/
def FailSafe (bead : BeadId) : Prop :=
  checkClose lifecycle look bead = .ok () →
    ∀ info ∈ getBeadInfo (look 0) (.text bead), ∀ dep ∈ info.dependencies,
      KnownClosed (getBeadInfo (look dep.2) dep.1)

def FailSafeThroughout (bead : BeadId) : Prop :=
  checkClose lifecycle look bead = .ok () →
    ∃ info ∈ getBeadInfo (look 0) (.text bead), ∀ dep ∈ info.dependencies,
      KnownClosed (getBeadInfo (look dep.2) dep.1)

/-- The state of the bead forbids it, the dependencies are no list, one of the dependencies is told
not to be closed, or all of them are told of. -/
def ToldEnough (bead : BeadId) : Prop :=
  ∀ info ∈ getBeadInfo (look 0) (.text bead),
    (¬validateCanClose lifecycle bead info matches .ok ()) ∨
      (info.dependsOn.truthy = true ∧ info.dependsOn.items? = none) ∨
      (∃ dep ∈ info.dependencies, Stops (getBeadInfo (look dep.2) dep.1)) ∨
      ∀ dep ∈ info.dependencies, (getBeadInfo (look dep.2) dep.1).isSome

variable {lifecycle look} {k : Nat} {deps : List Json} {bead : BeadId} {info : Info}

theorem knownClosed_iff {told : Option Info} : KnownClosed told ↔ told.isSome ∧ ¬Stops told := by
  cases told with
  | none => simp [KnownClosed]
  | some info => simp [KnownClosed, Stops]

theorem getOpenBlockers_eq_nil : getOpenBlockers look k deps = .ok [] ↔
    ∀ dep ∈ deps.zipIdx k, ¬Stops (getBeadInfo (look dep.2) dep.1) := by
  induction deps generalizing k with
  | nil => simp [getOpenBlockers, pure, Except.pure]
  | cons dep deps ih =>
    rw [List.zipIdx_cons, List.forall_mem_cons, ← ih, getOpenBlockers]
    cases getBeadInfo (look k) dep with
    | none => cases getOpenBlockers look (k + 1) deps <;> simp [Stops]
    | some info =>
      cases hopen : info.isOpen with
      | error e => simp [Stops, hopen, bind, Except.bind]
      | ok blocking =>
        cases blocking with
        | true => cases getOpenBlockers look (k + 1) deps <;> simp [Stops, hopen, bind, Except.bind, pure, Except.pure]
        | false => cases getOpenBlockers look (k + 1) deps <;> simp [Stops, hopen, bind, Except.bind, pure, Except.pure]

theorem dependencies_of_not_truthy (h : info.dependsOn.truthy = false) : info.dependencies = [] := by
  rw [Info.dependencies]
  cases hdeps : info.dependsOn with
  | text s => simp_all [Json.truthy, Json.items?]
  | scalar truthy => rfl
  | list items => simp_all [Json.truthy, Json.items?]
  | dict entries => simp_all [Json.truthy, Json.items?]

theorem checkClose_eq_ok (htold : getBeadInfo (look 0) (.text bead) = some info) :
    checkClose lifecycle look bead = .ok () ↔ validateCanClose lifecycle bead info = .ok () ∧
      ¬(info.dependsOn.truthy = true ∧ info.dependsOn.items? = none) ∧
      ∀ dep ∈ info.dependencies, ¬Stops (getBeadInfo (look dep.2) dep.1) := by
  rw [checkClose, htold]
  dsimp only
  cases validateCanClose lifecycle bead info with
  | error e => exact ⟨fun h => (nomatch h), fun h => nomatch h.1⟩
  | ok =>
    cases htruthy : info.dependsOn.truthy with
    | false => simp [dependencies_of_not_truthy htruthy, bind, Except.bind, pure, Except.pure]
    | true =>
      rw [Info.dependencies]
      cases info.dependsOn.items? with
      | none => simp [bind, Except.bind, throw, throwThe, MonadExceptOf.throw]
      | some deps =>
        rw [Option.getD_some, ← getOpenBlockers_eq_nil]
        cases hblockers : getOpenBlockers look 1 deps with
        | error e => simp [hblockers, bind, Except.bind]
        | ok blocking =>
          cases blocking with
          | nil => simp [hblockers, bind, Except.bind, pure, Except.pure]
          | cons dep blocking => simp [hblockers, bind, Except.bind, throw, throwThe, MonadExceptOf.throw]

/-- The guard of a close fails safe exactly where it is told enough, and knows what the bead depends on
exactly where the look-up of the bead succeeds. -/
theorem failSafe_iff (lifecycle : Json → Option LifecycleConfig) (look : Nat → BeadId → Shown) (bead : BeadId) :
    (FailSafe lifecycle look bead ↔ ToldEnough lifecycle look bead) ∧
      (FailSafeThroughout lifecycle look bead ↔
        (getBeadInfo (look 0) (.text bead)).isSome ∧ ToldEnough lifecycle look bead) := by
  cases htold : getBeadInfo (look 0) (.text bead) with
  | none =>
    have hok : checkClose lifecycle look bead = .ok () := by rw [checkClose, htold]
    simp [FailSafe, FailSafeThroughout, ToldEnough, htold, hok]
  | some info =>
    have hiff : (checkClose lifecycle look bead = .ok () →
        ∀ dep ∈ info.dependencies, KnownClosed (getBeadInfo (look dep.2) dep.1)) ↔
        ToldEnough lifecycle look bead := by
      have hclosed : (validateCanClose lifecycle bead info matches .ok ()) ↔
          validateCanClose lifecycle bead info = .ok () := by
        cases validateCanClose lifecycle bead info <;> simp
      simp only [ToldEnough, htold, Option.mem_some_iff, forall_eq', checkClose_eq_ok htold, knownClosed_iff,
        hclosed]
      by_cases hstops : ∃ dep ∈ info.dependencies, Stops (getBeadInfo (look dep.2) dep.1)
      · -- it is refused
        refine ⟨fun _ => .inr (.inr (.inl hstops)), fun _ hok => ?_⟩
        obtain ⟨dep, hdep, hstop⟩ := hstops
        exact absurd hstop (hok.2.2 dep hdep)
      · push Not at hstops
        constructor
        · intro h
          by_contra hnot
          push Not at hnot
          obtain ⟨hclose, hlist, -, dep, hdep, hunknown⟩ := hnot
          exact hunknown (h ⟨hclose, fun hbad => hlist hbad.1 hbad.2, hstops⟩ dep hdep).1
        · rintro (hclose | hlist | ⟨dep, hdep, hstop⟩ | hknown) hok
          · exact absurd hok.1 hclose
          · exact absurd hlist hok.2.1
          · exact absurd hstop (hstops dep hdep)
          · exact fun dep hdep => ⟨hknown dep hdep, hstops dep hdep⟩
    simp only [FailSafe, FailSafeThroughout, htold, Option.mem_some_iff, forall_eq', exists_eq_left', hiff,
      Option.isSome_some, true_and, and_self]

def taskLifecycle : LifecycleConfig where
  states := ["investigation", "planning", "implementation", "review", "done"]
  terminal := ["done", "rejected", "abandoned"]
  transitions
    | "investigation" => ["planning", "rejected", "abandoned"]
    | "planning" => ["implementation", "investigation", "rejected", "abandoned"]
    | "implementation" => ["review", "planning", "rejected", "abandoned"]
    | "review" => ["done", "implementation", "rejected", "abandoned"]
    | _ => []

def dependencyMissing : Nat → BeadId → Shown
  | 0, _ => .printed
    (.dict [("type", .text "task"), ("status", .text "done"), ("depends_on", .list [.text "qn-2"])])
  | _, _ => .failed

theorem dependencyMissing_let_through : ¬FailSafe (fun _ => some taskLifecycle) dependencyMissing "qn-1" := by
  intro h
  have hok : checkClose (fun _ => some taskLifecycle) dependencyMissing "qn-1" = .ok () := rfl
  obtain ⟨info, hinfo, -⟩ := h hok _ rfl (.text "qn-2", 1) (by simp [Info.dependencies, Json.getD, Json.items?])
  cases hinfo

def printedOf (info : BeadInfo) : Json :=
  .dict [("type", .text info.type), ("status", .text info.status),
    ("depends_on", .list (info.dependsOn.map .text))]

def toldOf (info : BeadInfo) : Info := ⟨.text info.type, .text info.status, .list (info.dependsOn.map .text)⟩

theorem infoOf_printed (info : BeadInfo) : infoOf (printedOf info) = some (toldOf info) := by
  obtain ⟨type, status, dependsOn⟩ := info
  cases dependsOn <;> rfl

def shownBy (org : Org) (_ : Nat) (bead : BeadId) : Shown :=
  match org.bead bead with
  | none => .failed
  | some info => .printed (printedOf info)

def lifecycleOf (org : Org) : Json → Option LifecycleConfig
  | .text type => some (org.lifecycle type)
  | _ => none

theorem getBeadInfo_shownBy (org : Org) (k : Nat) (bead : BeadId) :
    getBeadInfo (shownBy org k) (.text bead) = (org.bead bead).map toldOf := by
  rw [getBeadInfo, shownBy]
  cases org.bead bead with
  | none => rfl
  | some info => exact infoOf_printed info

theorem stops_shownBy {org : Org} {k : Nat} {bead : BeadId} :
    Stops (getBeadInfo (shownBy org k) (.text bead)) ↔
      (org.bead bead).any fun info => lower info.status ∉ closedStatuses := by
  rw [getBeadInfo_shownBy]
  cases org.bead bead with
  | none => simp [Stops]
  | some info => by_cases h : lower info.status ∈ closedStatuses <;> simp [Stops, toldOf, Info.isOpen, h]

theorem stops_dependencies (org : Org) (info : BeadInfo) :
    (∀ dep ∈ (toldOf info).dependencies, ¬Stops (getBeadInfo (shownBy org dep.2) dep.1)) ↔
      Beads.getOpenBlockers org info.dependsOn = [] := by
  have hfst : (toldOf info).dependencies.map Prod.fst = info.dependsOn.map .text := List.zipIdx_map_fst 1 _
  rw [Beads.getOpenBlockers, List.filter_eq_nil_iff]
  constructor
  · intro h bead hbead
    have hdep : Json.text bead ∈ (toldOf info).dependencies.map Prod.fst := hfst ▸ List.mem_map_of_mem hbead
    obtain ⟨⟨dep, k⟩, hdep, rfl⟩ := List.mem_map.1 hdep
    exact fun hopen => h _ hdep (stops_shownBy.2 hopen)
  · rintro h ⟨dep, k⟩ hdep
    obtain ⟨bead, hbead, rfl⟩ : ∃ bead ∈ info.dependsOn, .text bead = dep :=
      List.mem_map.1 (hfst ▸ List.mem_map_of_mem hdep)
    exact fun hstop => h bead hbead (stops_shownBy.1 hstop)

theorem checkBead_close_iff (org : Org) (target : Option String) (bead : BeadId) :
    checkBead org "close" target bead = .ok () ↔ checkClose (lifecycleOf org) (shownBy org) bead = .ok () := by
  have htold := getBeadInfo_shownBy org 0 bead
  unfold checkBead
  cases hbead : org.bead bead with
  | none =>
    rw [hbead] at htold
    unfold checkClose
    rw [htold]
    exact ⟨fun _ => rfl, fun _ => rfl⟩
  | some info =>
    rw [hbead] at htold
    have hvalid : validateCanClose (lifecycleOf org) bead (toldOf info) =
        ((org.lifecycle info.type).validateCanClose bead info.type info.status).mapError .lifecycle := rfl
    have hlist : ¬((toldOf info).dependsOn.truthy = true ∧ (toldOf info).dependsOn.items? = none) :=
      fun h => nomatch h.2
    rw [checkClose_eq_ok htold, hvalid, stops_dependencies]
    dsimp only
    cases (org.lifecycle info.type).validateCanClose bead info.type info.status with
    | error e => simp [Except.mapError, bind, Except.bind]
    | ok =>
      cases Beads.getOpenBlockers org info.dependsOn with
      | nil => simp [Except.mapError, bind, Except.bind, hlist]
      | cons dep blocking => simp [Except.mapError, bind, Except.bind]

end

end Quinn.Beads.Closing
