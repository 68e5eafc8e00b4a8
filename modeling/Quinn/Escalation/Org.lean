import Quinn.Checks.Order
import Quinn.Escalation.Hierarchical
import Quinn.Logs.Json

/-! `shared/org/escalation.py`: what is recorded of an issue that goes up, and what the board hears of it. -/

namespace Quinn.Escalation

open Logs Search

abbrev Dict := List (String × Json)

/-- The dictionary that `route` makes. -/
def Context.dict (context : Context) : Dict :=
  [("worker_id", .str context.workerId), ("escalation_path", .arr (context.escalationPath.map .str))]

/-- An issue that bd is to create; the types and priorities are `BeadsType` and `BeadsPriority`. -/
structure NewIssue where
  title : String
  type : String
  priority : Nat
  metadata : Dict
  deriving DecidableEq

/-- A message to the board; the text is made of the issue, the path and the context as JSON. -/
structure BoardMessage where
  channelName : String
  fromWorkerId : String
  issue : String
  path : String
  context : Dict
  priority : Nat
  timeSensitivity : String
  deriving DecidableEq

structure Notification where
  issue : String
  context : Context
  notifiedAt : String

/-- What comes of a creation: without an id it has failed, or it has raised. -/
abbrev Creation := Except Unit (Option String)

inductive Deed
  | asked (target : String) (context : Dict)
  | notified (issue : String) (context : Dict)
  | issue (new : NewIssue) (answer : Creation)
  | message (new : BoardMessage) (answer : Creation)
  | called (answer : Except Unit Unit)

/-- The world of the handlers, the notifications that the board has not cleared, what has been done, which nobody
looks at, and whether an exception is on its way to the caller. -/
structure Desk (σ : Type) where
  world : σ
  notifications : List Notification := []
  deeds : List Deed := []
  raised : Bool := false

variable {σ : Type}

def Desk.did (d : Desk σ) (deed : Deed) (world : σ) : Desk σ := { d with world, deeds := d.deeds ++ [deed] }

/-- `create_issue` of a client, which catches what it takes for a failure of bd. -/
def Desk.createIssue (d : Desk σ) (create : NewIssue → σ → Creation × σ) (new : NewIssue) : Creation × Desk σ :=
  let (answer, world) := create new d.world
  (answer, d.did (.issue new answer) world)

/-- The first characters, as many as there are. -/
def headOf (n : Nat) (issue : String) : String := String.ofList (issue.toList.take n)

structure BoardNotifier (σ : Type) where
  createIssue : NewIssue → σ → Creation × σ
  messageCreator : Option (BoardMessage → σ → Creation × σ) := none
  dbPath : Option String := none
  callback : Option (String → Context → σ → Except Unit Unit × σ) := none
  maxNotifications : Option Nat := none
  now : σ → String

namespace BoardNotifier

variable (n : BoardNotifier σ)

def maxSize : Nat := (n.maxNotifications.filter (· ≠ 0)).getD 1000

def messages : Option (BoardMessage → σ → Creation × σ) :=
  if ∃ path ∈ n.dbPath, path ≠ "" then n.messageCreator else none

end BoardNotifier

def boardBead (issue : String) (context : Context) (notifiedAt : String) : NewIssue where
  title := "BOARD: " ++ headOf 70 issue
  type := "board-escalation"
  priority := 0
  metadata := [
    ("requires_human_review", .bool true),
    ("escalation_chain", .arr (context.escalationPath.map .str)),
    ("original_worker", .str context.workerId),
    ("notified_at", .str notifiedAt)]

def boardMessage (issue : String) (context : Context) : BoardMessage where
  channelName := "board-channel"
  fromWorkerId := context.workerId
  issue := issue
  path := " → ".intercalate context.escalationPath
  context := context.dict
  priority := 4
  timeSensitivity := "immediate"

def Desk.createMessage (d : Desk σ) (create : BoardMessage → σ → Creation × σ) (new : BoardMessage) : Desk σ :=
  let (answer, world) := create new d.world
  d.did (.message new answer) world

def Desk.remember (d : Desk σ) (maxSize : Nat) (notification : Notification) : Desk σ :=
  let notifications := d.notifications ++ [notification]
  { d with
    notifications := notifications.drop (notifications.length - maxSize)
    deeds := d.deeds ++ [.notified notification.issue notification.context.dict] }

def BoardNotifier.spread (n : BoardNotifier σ) (issue : String) (context : Context) (beadId : Option String) (d : Desk σ) :
    Creation × Desk σ :=
  let d :=
    match n.messages with
    | some create => d.createMessage create (boardMessage issue context)
    | none => d
  match n.callback with
  | some callback =>
    let (answer, world) := callback issue context d.world
    (answer.map fun _ => beadId, d.did (.called answer) world)
  | none => (.ok beadId, d)

def BoardNotifier.notify (n : BoardNotifier σ) (issue : String) (context : Context) (d : Desk σ) : Creation × Desk σ :=
  let notifiedAt := n.now d.world
  let d := d.remember n.maxSize ⟨issue, context, notifiedAt⟩
  match d.createIssue n.createIssue (boardBead issue context notifiedAt) with
  | (.ok beadId, d) => n.spread issue context beadId d
  | (.error e, d) => (.error e, d)

def boardResponse (beadId : Option String) : Response where
  resolved := true
  guidance := "Escalated to board for human review. Tracking: " ++ ((beadId.filter (· ≠ "")).getD "pending")
  escalatedTo := some "board"

/-- `BoardEscalation`.  An exception ends the routing as a resolution does. -/
def boardEscalation (n : BoardNotifier σ) : Escalator (Desk σ) where
  canHandle _ d := (true, d)
  ask issue context d :=
    match n.notify issue context d with
    | (.ok beadId, d) => (boardResponse beadId, d)
    | (.error _, d) => ({ resolved := true }, { d with raised := true })

structure OrgEscalation (σ : Type) where
  workerId : String
  topology : OrgTopology
  workerHandlers : String → Option (Escalator σ) := fun _ => none
  boardNotifier : Option (BoardNotifier σ) := none
  createIssue : NewIssue → σ → Creation × σ
  now : σ → String

def watched (target : String) (handler : Escalator σ) : Escalator (Desk σ) where
  canHandle issue d :=
    let (can, world) := handler.canHandle issue d.world
    (can, { d with world })
  ask issue context d :=
    let (response, world) := handler.ask issue context d.world
    (response, d.did (.asked target context.dict) world)

namespace OrgEscalation

variable (o : OrgEscalation σ)

def escalators (target : String) : Option (Escalator (Desk σ)) :=
  match o.boardNotifier with
  | some n => if target = "board" then some (boardEscalation n) else (o.workerHandlers target).map (watched target)
  | none => (o.workerHandlers target).map (watched target)

def escalationBead (issue : String) (context : Dict) (escalatedTo escalatedAt : String) : NewIssue where
  title := "Escalation: " ++ headOf 80 issue
  type := "escalation"
  priority := 1
  metadata := [
    ("escalation_from", .str o.workerId),
    ("escalation_to", .str escalatedTo),
    ("escalation_path", (context.lookup "escalation_path").getD (.arr [])),
    ("original_context", .obj context),
    ("escalated_at", .str escalatedAt)]

def createEscalationBead (issue : String) (context : Dict) (escalatedTo : String) (d : Desk σ) : Creation × Desk σ :=
  d.createIssue o.createIssue (o.escalationBead issue context escalatedTo (o.now d.world))

def track (issue : String) (context : Dict) (r : Routed (Desk σ)) : Except Unit Response × Desk σ :=
  match r.response.escalatedTo.filter (· ≠ "") with
  | some escalatedTo =>
    let (answer, d) := o.createEscalationBead issue context escalatedTo r.world
    (answer.map fun _ => r.response, d)
  | none => (.ok r.response, r.world)

/-- The context of the caller is for the tracking bead alone. -/
def ask (fuel : Nat) (issue : String) (context : Dict) (d : Desk σ) : Option (Except Unit Response × Desk σ) :=
  (route o.escalators o.topology fuel o.workerId issue { d with raised := false }).map fun r =>
    if r.world.raised then (.error (), r.world) else o.track issue context r

end OrgEscalation

/-- Creating a bead, or the callback, has raised, which nobody catches. -/
def Deed.Raises : Deed → Prop
  | .issue _ answer => answer = .error ()
  | .called answer => answer = .error ()
  | .asked _ _ | .notified _ _ | .message _ _ => False

/-- The board has been told, and what is to be kept of it has been tried, the message unless something was raised. -/
structure TellsBoard (n : BoardNotifier σ) (issue : String) (context : Context) (raised : Bool) (deeds : List Deed) :
    Prop where
  notified : .notified issue context.dict ∈ deeds
  bead : ∃ notifiedAt answer, .issue (boardBead issue context notifiedAt) answer ∈ deeds
  message : raised = false → n.messages.isSome = true → ∃ answer, .message (boardMessage issue context) answer ∈ deeds
  quiet : raised = false → ∀ deed ∈ deeds, ¬deed.Raises

/-- What is done when it is somebody's turn: the board is told, or a handler is asked or not. -/
inductive Done (o : OrgEscalation σ) (issue : String) (context : Context) (raised : Bool) :
    String × Option Response → List Deed → Prop
  | board {n : BoardNotifier σ} {response : Response} {deeds : List Deed} (hn : o.boardNotifier = some n)
      (hresolved : response.resolved = true) (htold : TellsBoard n issue context raised deeds) :
      Done o issue context raised ("board", some response) deeds
  | passed {target : String} (hnot : o.boardNotifier.isSome = true → target ≠ "board") :
      Done o issue context raised (target, none) []
  | asked {target : String} (hnot : o.boardNotifier.isSome = true → target ≠ "board") (response : Response) :
      Done o issue context raised (target, some response) [.asked target context.dict]

variable {o : OrgEscalation σ} {n : BoardNotifier σ} {issue : String} {context : Context} {raised : Bool}

theorem deeds_createIssue (d : Desk σ) (create : NewIssue → σ → Creation × σ) (new : NewIssue) :
    (d.createIssue create new).2.deeds = d.deeds ++ [.issue new (create new d.world).1] := rfl

theorem deeds_spread (n : BoardNotifier σ) (issue : String) (context : Context) (beadId : Option String) (d : Desk σ) :
    ∃ messages calls, (n.spread issue context beadId d).2.deeds = d.deeds ++ messages ++ calls ∧
      (n.spread issue context beadId d).2.raised = d.raised ∧
      (∀ deed ∈ messages, ∃ answer, deed = .message (boardMessage issue context) answer) ∧
      (n.messages.isSome = true → messages ≠ []) ∧
      ((n.spread issue context beadId d).1 = .error () ↔ ∃ deed ∈ calls, deed.Raises) := by
  have hmessages : ∃ messages,
      (match n.messages with
        | some create => d.createMessage create (boardMessage issue context)
        | none => d).deeds = d.deeds ++ messages ∧
      (match n.messages with
        | some create => d.createMessage create (boardMessage issue context)
        | none => d).raised = d.raised ∧
      (∀ deed ∈ messages, ∃ answer, deed = .message (boardMessage issue context) answer) ∧
      (n.messages.isSome = true → messages ≠ []) := by
    cases n.messages with
    | none => exact ⟨[], (List.append_nil _).symm, rfl, List.forall_mem_nil _, nofun⟩
    | some create => exact ⟨_, rfl, rfl, List.forall_mem_singleton.2 ⟨_, rfl⟩, fun _ => List.cons_ne_nil _ _⟩
  obtain ⟨messages, hdeeds, hraised, hall, hsome⟩ := hmessages
  rw [BoardNotifier.spread]
  dsimp only
  cases n.callback with
  | none =>
    exact ⟨messages, [], by rw [hdeeds, List.append_nil], hraised, hall, hsome, iff_of_false nofun (by simp)⟩
  | some callback =>
    refine ⟨messages, [.called (callback issue context _).1], congrArg (· ++ [_]) hdeeds, hraised, hall, hsome, ?_⟩
    simp only [List.mem_singleton, exists_eq_left, Deed.Raises]
    cases (callback issue context _).1 with
    | error e => exact iff_of_true rfl rfl
    | ok u => exact iff_of_false nofun nofun

theorem deeds_notify (n : BoardNotifier σ) (issue : String) (context : Context) (d : Desk σ) :
    ∃ deeds, (n.notify issue context d).2.deeds = d.deeds ++ deeds ∧
      (n.notify issue context d).2.raised = d.raised ∧
      ((n.notify issue context d).1 = .error () → ∃ deed ∈ deeds, deed.Raises) ∧
      ∀ raised, ((n.notify issue context d).1 = .error () → raised = true) → TellsBoard n issue context raised deeds := by
  rw [BoardNotifier.notify]
  generalize hcreate : (d.remember n.maxSize ⟨issue, context, n.now d.world⟩).createIssue n.createIssue
    (boardBead issue context (n.now d.world)) = created
  have hdeeds : created.2.deeds = d.deeds ++ [.notified issue context.dict] ++
      [.issue (boardBead issue context (n.now d.world)) created.1] := hcreate ▸ rfl
  have hraised : created.2.raised = d.raised := hcreate ▸ rfl
  obtain ⟨answer, d₁⟩ := created
  cases answer with
  | error e =>
    refine ⟨_, hdeeds.trans (List.append_assoc _ _ _), hraised, fun _ => ⟨_, List.mem_cons_of_mem _ List.mem_cons_self, rfl⟩,
      fun raised hraises => ?_⟩
    obtain rfl := hraises rfl
    exact ⟨List.mem_cons_self, ⟨_, _, List.mem_cons_of_mem _ List.mem_cons_self⟩, nofun, nofun⟩
  | ok beadId =>
    obtain ⟨messages, calls, hspread, hraised', hall, hsome, hcalls⟩ := deeds_spread n issue context beadId d₁
    refine ⟨[.notified issue context.dict] ++ [.issue (boardBead issue context (n.now d.world)) (.ok beadId)] ++
      messages ++ calls, ?_, hraised'.trans hraised, fun hraises => ?_, fun raised hraises => ⟨by simp, ⟨_, _, by simp; exact .inl ⟨rfl, rfl⟩⟩, ?_, ?_⟩⟩
    · rw [hspread, hdeeds]
      simp only [List.append_assoc]
    · obtain ⟨deed, hmem, hdeed⟩ := hcalls.1 hraises
      exact ⟨deed, List.mem_append_right _ hmem, hdeed⟩
    · rintro - hmessages
      obtain ⟨deed, hdeed⟩ := List.exists_mem_of_ne_nil messages (hsome hmessages)
      obtain ⟨answer, rfl⟩ := hall deed hdeed
      exact ⟨answer, by simp [hdeed]⟩
    · rintro rfl deed hdeed hraisesDeed
      have hnot : (n.spread issue context beadId d₁).1 ≠ .error () := fun h => Bool.noConfusion (hraises h)
      simp only [List.mem_append, List.mem_singleton] at hdeed
      obtain ((rfl | rfl) | hdeed) | hdeed := hdeed
      · exact hraisesDeed
      · cases hraisesDeed
      · obtain ⟨answer, rfl⟩ := hall deed hdeed
        exact hraisesDeed
      · exact hnot (hcalls.2 ⟨deed, hdeed, hraisesDeed⟩)

/-- What a turn leaves of the exceptions and the deeds, for the answer it gives. -/
structure Turn (o : OrgEscalation σ) (issue : String) (context : Context) (visit : String × Option Response)
    (d d' : Desk σ) (deeds : List Deed) : Prop where
  does : d'.deeds = d.deeds ++ deeds
  raises : d'.raised = true → d.raised = true ∨ ∃ deed ∈ deeds, deed.Raises
  raised : d.raised = true → d'.raised = true
  done : Done o issue context d'.raised visit deeds

theorem turn_watched {d d' : Desk σ} {target : String} {answer : Option Response}
    (hescalator : o.escalators target = (o.workerHandlers target).map (watched target))
    (hnot : o.boardNotifier.isSome = true → target ≠ "board")
    (h : attempt o.escalators issue context target d = (answer, d')) :
    ∃ deeds, Turn o issue context (target, answer) d d' deeds := by
  rw [attempt, hescalator] at h
  cases hhandler : o.workerHandlers target with
  | none =>
    rw [hhandler] at h
    cases h
    exact ⟨[], (List.append_nil _).symm, .inl, id, .passed hnot⟩
  | some handler =>
    rw [hhandler, Option.map_some] at h
    dsimp only [watched] at h
    split at h
    · next hcan =>
      obtain ⟨-, rfl⟩ := Prod.mk.inj hcan
      cases h
      exact ⟨[], (List.append_nil _).symm, .inl, id, .passed hnot⟩
    · next hcan =>
      obtain ⟨-, rfl⟩ := Prod.mk.inj hcan
      cases h
      exact ⟨_, rfl, .inl, id, .asked hnot _⟩

theorem turn_board {d d' : Desk σ} {answer : Option Response} (hn : o.boardNotifier = some n)
    (h : attempt o.escalators issue context "board" d = (answer, d')) :
    ∃ deeds, Turn o issue context ("board", answer) d d' deeds := by
  have hescalator : o.escalators "board" = some (boardEscalation n) := by
    rw [OrgEscalation.escalators, hn]
    exact if_pos rfl
  obtain ⟨deeds, hdeeds, hraised, hraises, htold⟩ := deeds_notify n issue context d
  rw [attempt, hescalator] at h
  dsimp only [boardEscalation] at h
  generalize n.notify issue context d = notified at *
  obtain ⟨creation, d₁⟩ := notified
  cases creation with
  | ok beadId =>
    cases h
    exact ⟨deeds, hdeeds, fun hd => .inl (hraised ▸ hd), fun hd => hraised ▸ hd, .board hn rfl (htold _ nofun)⟩
  | error e =>
    cases h
    exact ⟨deeds, hdeeds, fun _ => .inr (hraises rfl), fun _ => rfl, .board hn rfl (htold _ fun _ => rfl)⟩

theorem turn_attempt {d d' : Desk σ} {target : String} {answer : Option Response}
    (h : attempt o.escalators issue context target d = (answer, d')) :
    ∃ deeds, Turn o issue context (target, answer) d d' deeds := by
  cases hn : o.boardNotifier with
  | none =>
    have hescalator : o.escalators target = (o.workerHandlers target).map (watched target) := by
      rw [OrgEscalation.escalators, hn]
    refine turn_watched hescalator (fun hsome => ?_) h
    rw [hn] at hsome
    cases hsome
  | some n =>
    by_cases hboard : target = "board"
    · subst hboard
      exact turn_board hn h
    · have hescalator : o.escalators target = (o.workerHandlers target).map (watched target) := by
        rw [OrgEscalation.escalators, hn]
        exact if_neg hboard
      exact turn_watched hescalator (fun _ => hboard) h

theorem Done.mono {raised' : Bool} {visit : String × Option Response} {deeds : List Deed}
    (h : Done o issue context raised visit deeds) (hle : raised = true → raised' = true) :
    Done o issue context raised' visit deeds := by
  have hquiet : raised' = false → raised = false := by
    rintro rfl
    simpa using hle
  cases h with
  | board hn hresolved htold =>
    exact .board hn hresolved ⟨htold.notified, htold.bead, fun h => htold.message (hquiet h), fun h => htold.quiet (hquiet h)⟩
  | passed hnot => exact .passed hnot
  | asked hnot response => exact .asked hnot response

structure Turns (o : OrgEscalation σ) (issue : String) (context : Context) (visits : List (String × Option Response))
    (d d' : Desk σ) (deeds : List (List Deed)) : Prop where
  does : d'.deeds = d.deeds ++ deeds.flatten
  raises : d'.raised = true → d.raised = true ∨ ∃ deed ∈ deeds.flatten, deed.Raises
  raised : d.raised = true → d'.raised = true
  done : List.Forall₂ (Done o issue context d'.raised) visits deeds

theorem turns_attempted {d d' : Desk σ} {visits : List (String × Option Response)}
    (h : Attempted o.escalators issue context d visits d') : ∃ deeds, Turns o issue context visits d d' deeds := by
  induction h with
  | nil d => exact ⟨[], (List.append_nil _).symm, .inl, id, .nil⟩
  | cons hattempt hrest ih =>
    obtain ⟨deeds, hturn⟩ := turn_attempt hattempt
    obtain ⟨rest, hrest⟩ := ih
    refine ⟨deeds :: rest, ?_, fun hraised => ?_, hrest.raised ∘ hturn.raised, .cons (hturn.done.mono hrest.raised) hrest.done⟩
    · rw [hrest.does, hturn.does, List.append_assoc, List.flatten_cons]
    · rw [List.flatten_cons]
      obtain hraised | ⟨deed, hdeed, hraises⟩ := hrest.raises hraised
      · exact (hturn.raises hraised).imp_right fun ⟨deed, hdeed, hraises⟩ =>
          ⟨deed, List.mem_append_left _ hdeed, hraises⟩
      · exact .inr ⟨deed, List.mem_append_right _ hdeed, hraises⟩

def Deed.Recorded : Deed → Prop
  | .asked _ _ | .notified _ _ | .called _ => False
  | .issue _ answer | .message _ answer => ∃ id, answer = .ok (some id)

def Notified (deeds : List Deed) : Prop := ∃ about c, .notified about c ∈ deeds

/-- The creation of the tracking bead has failed, and, if the board was notified, so have the bead and
the message for the board. -/
def AllFailed (o : OrgEscalation σ) (issue : String) (context : Dict) (routing : Context) (deeds : List Deed) : Prop :=
  (∃ escalatedAt, .issue (o.escalationBead issue context "board" escalatedAt) (.ok none) ∈ deeds) ∧
    (Notified deeds → ∃ n ∈ o.boardNotifier,
      (∃ notifiedAt, .issue (boardBead issue routing notifiedAt) (.ok none) ∈ deeds) ∧
      (n.messages.isSome = true → ∃ answer, .message (boardMessage issue routing) answer ∈ deeds ∧
        ∀ id, answer ≠ .ok (some id)))

/-- What there is to say of the deeds of a call, given who was visited on the way, the response of the routing and
what the caller gets. -/
structure Accounts (o : OrgEscalation σ) (issue : String) (context : Dict) (routing : Context)
    (visits : List (String × Option Response)) (response : Response) (answer : Except Unit Response)
    (deeds : List Deed) : Prop where
  returned : ∀ r, answer = .ok r → r = response
  raised : answer = .error () ↔ ∃ deed ∈ deeds, deed.Raises
  notified : Notified deeds ↔
    o.boardNotifier.isSome = true ∧ ∀ visit ∈ visits, visit.1 ≠ "board" → ¬Resolves visit
  recorded : ∀ r, answer = .ok r → r.resolved = true → r.escalatedTo = some "board" →
    (∃ deed ∈ deeds, deed.Recorded) ∨ AllFailed o issue context routing deeds

theorem Done.notified_iff {visit : String × Option Response} {deeds : List Deed}
    (h : Done o issue context raised visit deeds) :
    Notified deeds ↔ o.boardNotifier.isSome = true ∧ visit.1 = "board" := by
  cases h with
  | board hn hresolved htold => exact iff_of_true ⟨_, _, htold.notified⟩ ⟨hn ▸ rfl, rfl⟩
  | passed hnot =>
    refine iff_of_false ?_ fun ⟨hsome, hboard⟩ => hnot hsome hboard
    rintro ⟨about, c, hmem⟩
    cases hmem
  | asked hnot response =>
    refine iff_of_false ?_ fun ⟨hsome, hboard⟩ => hnot hsome hboard
    rintro ⟨about, c, hmem⟩
    cases List.mem_singleton.1 hmem

theorem Done.resolves {visit : String × Option Response} {deeds : List Deed} (h : Done o issue context raised visit deeds)
    (hsome : o.boardNotifier.isSome = true) (hboard : visit.1 = "board") :
    Resolves visit ∧ ∃ n ∈ o.boardNotifier, TellsBoard n issue context raised deeds := by
  cases h with
  | board hn hresolved htold => exact ⟨⟨_, rfl, hresolved⟩, _, hn, htold⟩
  | passed hnot => exact absurd hboard (hnot hsome)
  | asked hnot response => exact absurd hboard (hnot hsome)

theorem Done.quiet {visit : String × Option Response} {deeds : List Deed} (h : Done o issue context false visit deeds) :
    ∀ deed ∈ deeds, ¬deed.Raises := by
  cases h with
  | board hn hresolved htold => exact htold.quiet rfl
  | passed hnot => exact List.forall_mem_nil _
  | asked hnot response => exact List.forall_mem_singleton.2 id

section visits

variable {visits : List (String × Option Response)} {deeds : List (List Deed)}

theorem notified_flatten (h : List.Forall₂ (Done o issue context raised) visits deeds) :
    Notified deeds.flatten ↔ o.boardNotifier.isSome = true ∧ ∃ visit ∈ visits, visit.1 = "board" := by
  constructor
  · rintro ⟨about, c, hmem⟩
    obtain ⟨ds, hds, hin⟩ := List.mem_flatten.1 hmem
    obtain ⟨visit, hvisit, hdone⟩ := Checks.exists_of_mem_right h hds
    obtain ⟨hsome, hboard⟩ := hdone.notified_iff.1 ⟨about, c, hin⟩
    exact ⟨hsome, visit, hvisit, hboard⟩
  · rintro ⟨hsome, visit, hvisit, hboard⟩
    obtain ⟨ds, hds, hdone⟩ := Checks.exists_of_mem_left h hvisit
    obtain ⟨about, c, hin⟩ := hdone.notified_iff.2 ⟨hsome, hboard⟩
    exact ⟨about, c, List.mem_flatten.2 ⟨ds, hds, hin⟩⟩

theorem visitsBoard_iff {d : Desk σ} {bosses : List String} {r : Routed (Desk σ)}
    (h : List.Forall₂ (Done o issue context raised) r.visits deeds) (hsome : o.boardNotifier.isSome = true)
    (halong : GoesAlong o.escalators issue context d (bosses ++ ["board"]) r) :
    (∃ visit ∈ r.visits, visit.1 = "board") ↔ ∀ visit ∈ r.visits, visit.1 ≠ "board" → ¬Resolves visit := by
  constructor
  · rintro ⟨board, hmem, hboard⟩ visit hvisit hne hresolves
    obtain ⟨ds, -, hdone⟩ := Checks.exists_of_mem_left h hmem
    obtain ⟨before, after, hsplit⟩ := List.append_of_mem hmem
    obtain ⟨before', after', hsplit'⟩ := List.append_of_mem hvisit
    obtain ⟨rfl, -⟩ := halong.stops _ _ _ hsplit (hdone.resolves hsome hboard).1
    obtain ⟨rfl, -⟩ := halong.stops _ _ _ hsplit' hresolves
    -- both of them would be the last
    obtain ⟨-, hlast⟩ := List.append_inj' (hsplit.symm.trans hsplit') rfl
    exact hne ((List.cons.inj hlast).1 ▸ hboard)
  · intro hnone
    by_contra hnot
    have hpath := (halong.goesOn fun visit hvisit => hnone visit hvisit fun hboard => hnot ⟨visit, hvisit, hboard⟩).1
    have hmem : "board" ∈ r.visits.map Prod.fst := hpath ▸ List.mem_append_right _ List.mem_cons_self
    obtain ⟨visit, hvisit, hboard⟩ := List.mem_map.1 hmem
    exact hnot ⟨visit, hvisit, hboard⟩

end visits

theorem deeds_track (o : OrgEscalation σ) (issue : String) (context : Dict) (r : Routed (Desk σ)) :
    ∃ tracking, (o.track issue context r).2.deeds = r.world.deeds ++ tracking ∧
      (∀ deed ∈ tracking, ∃ new answer, deed = .issue new answer) ∧
      ((o.track issue context r).1 = .error () ↔ ∃ deed ∈ tracking, deed.Raises) ∧
      (∀ response, (o.track issue context r).1 = .ok response → response = r.response) ∧
      (r.response.escalatedTo = some "board" →
        ∃ escalatedAt answer, .issue (o.escalationBead issue context "board" escalatedAt) answer ∈ tracking) := by
  unfold OrgEscalation.track
  cases hto : r.response.escalatedTo.filter (· ≠ "") with
  | none =>
    refine ⟨[], (List.append_nil _).symm, List.forall_mem_nil _, iff_of_false nofun (by simp), ?_, fun hboard => ?_⟩
    · rintro response ⟨⟩
      rfl
    · rw [hboard] at hto
      cases hto
  | some escalatedTo =>
    dsimp only [OrgEscalation.createEscalationBead]
    refine ⟨_, deeds_createIssue _ _ _, List.forall_mem_singleton.2 ⟨_, _, rfl⟩, ?_, ?_, fun hboard => ?_⟩
    · simp only [List.mem_singleton, exists_eq_left, Deed.Raises]
      change Except.map _ (o.createIssue _ _).1 = _ ↔ (o.createIssue _ _).1 = _
      cases (o.createIssue _ _).1 with
      | error e => exact iff_of_true rfl rfl
      | ok id => exact iff_of_false nofun nofun
    · intro response hresponse
      change Except.map _ (o.createIssue _ _).1 = _ at hresponse
      cases hanswer : (o.createIssue _ _).1 with
      | error e =>
        rw [hanswer] at hresponse
        cases hresponse
      | ok id =>
        rw [hanswer] at hresponse
        cases hresponse
        rfl
    · rw [hboard] at hto
      cases hto
      exact ⟨_, _, List.mem_singleton_self _⟩

theorem eq_none_of_not_recorded {deeds : List Deed} (hnone : ∀ deed ∈ deeds, ¬deed.Recorded)
    (hquiet : ∀ deed ∈ deeds, ¬deed.Raises) {new : NewIssue} {answer : Creation} (h : .issue new answer ∈ deeds) :
    .issue new (.ok none) ∈ deeds := by
  cases answer with
  | error e => exact absurd rfl (hquiet _ h)
  | ok id =>
    cases id with
    | none => exact h
    | some id => exact absurd ⟨id, rfl⟩ (hnone _ h)

/-- In every organisation where the way up from the worker ends, whatever the handlers answer and whatever
comes of the creations: the issue goes along the path, the caller gets its response unless a creation or the callback
raises, the board is notified, if there is a notifier, exactly if nobody else resolves it, and what goes by the board is
on record unless each creation has failed. -/
theorem ask_accounts (o : OrgEscalation σ) (issue : String) (context : Dict) (d : Desk σ)
    (hends : Ends o.topology.getBoss o.workerId) :
    ∃ fuel bosses r answer d' deeds,
      Escalates o.escalators o.topology fuel o.workerId issue { d with raised := false } bosses r ∧
      o.ask fuel issue context d = some (answer, d') ∧
      d'.deeds = d.deeds ++ deeds ∧
      Accounts o issue context ⟨o.workerId, bosses ++ ["board"]⟩ r.visits r.response answer deeds := by
  obtain ⟨fuel, bosses, r, hescalates⟩ := exists_escalates hends issue o.escalators { d with raised := false }
  obtain ⟨deeds, hturns⟩ := turns_attempted hescalates.along.attempted
  have hvisits : Notified deeds.flatten ↔
      o.boardNotifier.isSome = true ∧ ∀ visit ∈ r.visits, visit.1 ≠ "board" → ¬Resolves visit := by
    rw [notified_flatten hturns.done]
    exact and_congr_right fun hsome => visitsBoard_iff hturns.done hsome hescalates.along
  cases hraised : r.world.raised with
  | true =>
    have hraises := (hturns.raises hraised).resolve_left Bool.false_ne_true
    refine ⟨fuel, bosses, r, .error (), r.world, deeds.flatten, hescalates, ?_, hturns.does, nofun, iff_of_true rfl hraises,
      hvisits, nofun⟩
    rw [OrgEscalation.ask, hescalates.returned, Option.map_some, if_pos hraised]
  | false =>
    have hdone := hturns.done
    rw [hraised] at hdone
    have hquiet : ∀ deed ∈ deeds.flatten, ¬deed.Raises := by
      intro deed hdeed
      obtain ⟨ds, hds, hin⟩ := List.mem_flatten.1 hdeed
      obtain ⟨visit, -, hvisit⟩ := Checks.exists_of_mem_right hdone hds
      exact hvisit.quiet deed hin
    obtain ⟨tracking, htracking, hissues, hraises, hresponse, hboard⟩ := deeds_track o issue context r
    have hnotified : Notified (deeds.flatten ++ tracking) ↔ Notified deeds.flatten := by
      refine exists₂_congr fun about c => List.mem_append.trans (or_iff_left fun h => ?_)
      obtain ⟨new, answer, hnew⟩ := hissues _ h
      cases hnew
    refine ⟨fuel, bosses, r, (o.track issue context r).1, (o.track issue context r).2, deeds.flatten ++ tracking,
      hescalates, ?_, ?_, hresponse, ?_, hnotified.trans hvisits, ?_⟩
    · rw [OrgEscalation.ask, hescalates.returned, Option.map_some, if_neg (by simp [hraised])]
    · rw [htracking, hturns.does, List.append_assoc]
    · rw [hraises]
      simp only [List.mem_append, or_and_right, exists_or]
      exact (or_iff_right fun ⟨deed, hdeed, h⟩ => hquiet deed hdeed h).symm
    · intro response hanswer _ hto
      obtain rfl := hresponse response hanswer
      have hall : ∀ deed ∈ deeds.flatten ++ tracking, ¬deed.Raises := by
        intro deed hdeed hdeedRaises
        obtain hdeed | hdeed := List.mem_append.1 hdeed
        · exact hquiet deed hdeed hdeedRaises
        · cases hanswer.symm.trans (hraises.2 ⟨deed, hdeed, hdeedRaises⟩)
      refine or_iff_not_imp_left.2 fun hnone => ?_
      simp only [not_exists, not_and] at hnone
      obtain ⟨escalatedAt, answer, htracked⟩ := hboard hto
      refine ⟨⟨escalatedAt, eq_none_of_not_recorded hnone hall (List.mem_append_right _ htracked)⟩, fun hnot => ?_⟩
      obtain ⟨hsome, visit, hvisit, hname⟩ := (notified_flatten hdone).1 (hnotified.1 hnot)
      obtain ⟨ds, hds, hturn⟩ := Checks.exists_of_mem_left hdone hvisit
      obtain ⟨-, n, hn, htold⟩ := hturn.resolves hsome hname
      have hin (deed : Deed) (h : deed ∈ ds) : deed ∈ deeds.flatten ++ tracking :=
        List.mem_append_left _ (List.mem_flatten.2 ⟨ds, hds, h⟩)
      obtain ⟨notifiedAt, answer, hbead⟩ := htold.bead
      refine ⟨n, hn, ⟨notifiedAt, eq_none_of_not_recorded hnone hall (hin _ hbead)⟩, fun hmessages => ?_⟩
      obtain ⟨answer, hmessage⟩ := htold.message rfl hmessages
      exact ⟨answer, hin _ hmessage, fun id hok => hnone _ (hin _ hmessage) ⟨id, hok⟩⟩

/-- A developer whose manager declines whatever comes, and bd creates what it is asked to. -/
def declined : OrgEscalation Unit where
  workerId := "dev"
  topology := createSimpleTopology [{ id := "mgr", name := "M" }, { id := "dev", name := "D", bossId := some "mgr" }]
  workerHandlers target := if target = "mgr" then some ⟨fun _ w => (true, w), fun _ _ w => (unresolved, w)⟩ else none
  boardNotifier := some { createIssue := fun _ w => (.ok (some "qn-1"), w), now := fun _ => "2026-01-01T00:00:00" }
  createIssue _ w := (.ok (some "qn-2"), w)
  now _ := "2026-01-01T00:00:00"

theorem ask_accounts_declined :
    Ends declined.topology.getBoss declined.workerId ∧ ∃ fuel bosses r answer d' deeds,
      Escalates declined.escalators declined.topology fuel declined.workerId "stuck" { world := () } bosses r ∧
      declined.ask fuel "stuck" [] { world := () } = some (answer, d') ∧
      d'.deeds = [] ++ deeds ∧
      Accounts declined "stuck" [] ⟨declined.workerId, bosses ++ ["board"]⟩ r.visits r.response answer deeds := by
  have hends : Ends declined.topology.getBoss declined.workerId := by
    have hup : declined.topology.getBoss declined.workerId = some "mgr" := by decide +kernel
    have htop : declined.topology.getBoss "mgr" = none := by decide +kernel
    exact (Chain.up hup (.top htop)).ends
  exact ⟨hends, ask_accounts declined "stuck" [] { world := () } hends⟩

/-- No bead is created, and there is nobody to create a message. -/
def unrecorded : OrgEscalation Unit where
  workerId := "dev"
  topology := {}
  boardNotifier := some { createIssue := fun _ w => (.ok none, w), now := fun _ => "2026-01-01T00:00:00" }
  createIssue _ w := (.ok none, w)
  now _ := "2026-01-01T00:00:00"

/-- The board accepts the issue, and nothing durable is left of it. -/
theorem unrecorded_leaves_nothing : ∃ response d',
    unrecorded.ask 1 "stuck" [("task_id", .str "42")] { world := () } = some (.ok response, d') ∧
      response.resolved = true ∧ response.escalatedTo = some "board" ∧ ∀ deed ∈ d'.deeds, ¬deed.Recorded := by
  refine ⟨_, _, rfl, rfl, rfl, ?_⟩
  exact List.forall_mem_cons.2 ⟨id, List.forall_mem_cons.2 ⟨nofun, List.forall_mem_singleton.2 nofun⟩⟩

end Quinn.Escalation
