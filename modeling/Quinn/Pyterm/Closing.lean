import Quinn.Pyterm.Controller

/-! What `send_prompt` leaves behind when it returns or raises. -/

namespace Quinn.Pyterm.Control

open Machine

variable {J T : Type}

namespace Controller

def OpenAt (c : Controller J T) (i : Nat) : Prop := ∃ turn, c.transcript.turns[i]? = some turn ∧ turn.response = none

/-- No turn is completed twice, since `complete` refuses that. -/
def CompletedAt (c : Controller J T) (i : Nat) : Prop :=
  ∃ turn, c.transcript.turns[i]? = some turn ∧ turn.response.isSome = true

variable {c : Controller J T} {i : Nat}

@[simp] theorem transcript_transition (new : AgentState) : (c.transition new).transcript = c.transcript := rfl

theorem exists_request (request : Request) : ∃ state cancelRequested pauseRequested,
    c.request request = { c with state, cancelRequested, pauseRequested } := by
  cases request with
  | cancel => exact ⟨_, _, _, rfl⟩
  | pause =>
    change ∃ state cancelRequested pauseRequested, c.pause = { c with state, cancelRequested, pauseRequested }
    unfold pause
    split
    · exact ⟨_, _, _, rfl⟩
    · exact ⟨_, _, _, rfl⟩
  | resume =>
    change ∃ state cancelRequested pauseRequested, c.resume = { c with state, cancelRequested, pauseRequested }
    unfold resume
    split
    · exact ⟨_, _, _, rfl⟩
    · exact ⟨_, _, _, rfl⟩

theorem exists_requests (rs : List Request) : ∃ state cancelRequested pauseRequested,
    c.requests rs = { c with state, cancelRequested, pauseRequested } := by
  induction rs generalizing c with
  | nil => exact ⟨_, _, _, rfl⟩
  | cons request rs ih =>
    obtain ⟨state, cancelRequested, pauseRequested, hfirst⟩ := exists_request (c := c) request
    obtain ⟨state', cancelRequested', pauseRequested', hrest⟩ := ih (c := c.request request)
    refine ⟨state', cancelRequested', pauseRequested', ?_⟩
    rw [requests, List.foldl_cons]
    apply hrest.trans
    rw [hfirst]

@[simp] theorem transcript_requests (rs : List Request) : (c.requests rs).transcript = c.transcript := by
  obtain ⟨state, cancelRequested, pauseRequested, h⟩ := exists_requests (c := c) rs
  rw [h]

@[simp] theorem tracked_requests (rs : List Request) : (c.requests rs).tracked = c.tracked := by
  obtain ⟨state, cancelRequested, pauseRequested, h⟩ := exists_requests (c := c) rs
  rw [h]

theorem OpenAt.addToolCall (h : c.OpenAt i) (toolCall : ToolCall J T) : (c.addToolCall i toolCall).OpenAt i := by
  unfold Controller.addToolCall
  split
  · exact h
  · obtain ⟨turn, hturn, hopen⟩ := h
    exact ⟨turn.addToolCall toolCall, by simp [Transcript.modify, hturn], hopen⟩

theorem OpenAt.addToolCalls (h : c.OpenAt i) (toolCalls : List (ToolCall J T)) :
    (toolCalls.foldl (fun c toolCall => c.addToolCall i toolCall) c).OpenAt i := by
  induction toolCalls generalizing c with
  | nil => exact h
  | cons toolCall toolCalls ih => exact ih (h.addToolCall toolCall)

theorem state_addToolCall (toolCall : ToolCall J T) : (c.addToolCall i toolCall).state = c.state := by
  unfold Controller.addToolCall
  split <;> rfl

@[simp] theorem state_addToolCalls (toolCalls : List (ToolCall J T)) :
    (toolCalls.foldl (fun c toolCall => c.addToolCall i toolCall) c).state = c.state := by
  induction toolCalls generalizing c with
  | nil => rfl
  | cons toolCall toolCalls ih => exact ih.trans (state_addToolCall toolCall)

theorem OpenAt.completeTurn [EmptyCollection J] (h : c.OpenAt i) (content : String) (now : T) :
    (c.completeTurn i content now).CompletedAt i := by
  obtain ⟨turn, hturn, hopen⟩ := h
  refine ⟨{ turn with response := some (.assistant content now), completedAt := some now }, ?_, rfl⟩
  simp [Controller.completeTurn, Transcript.modify, hturn, Turn.complete_of_open hopen]

/-- Where a prompt that is through can have left it, with what was asked since. -/
def Settled (c : Controller J T) : Prop := c.state = .idle ∨ c.state = .error ∨ c.state = .paused

theorem Settled.pause (h : c.Settled) : c.pause.Settled := by
  unfold Controller.pause
  split
  next hvalid => exact .inr (.inr (if_pos hvalid))
  next => exact h

theorem Settled.resume (h : c.Settled) : c.resume.Settled := by
  unfold Controller.resume
  split
  next hpaused =>
    apply Or.inl
    simp [transition, AgentState.next, hpaused, validAgentTransitions]
  next => exact h

theorem Settled.requests (h : c.Settled) (rs : List Request) : (c.requests rs).Settled := by
  induction rs generalizing c with
  | nil => exact h
  | cons request rs ih =>
    apply ih
    cases request with
    | cancel => exact h
    | pause => exact h.pause
    | resume => exact h.resume

end Controller

namespace Sending

variable {s : Sending J T} {r : Reply T} {parser : OutputParser J T}

structure Closed (s : Sending J T) : Prop where
  completed : s.controller.CompletedAt s.turn
  state : s.controller.state = .idle ∨ s.controller.state = .error

def Closes (s : Sending J T) : Prop := ∀ outcome, s.pc = .ended outcome → s.Closed

/-- The call that is waited for returns, and where nothing is waited for any more the agent is not left paused. -/
def Proceeds (s : Sending J T) (r : Reply T) : Prop :=
  match s.pc with
  | .ended _ => True
  | .closing _ => (s.controller.requests r.meanwhile).state ≠ .paused
  | .injecting => r.raises = false ∧ s.rounds.isSome = true
  | .pausing | .capturing | .parsing _ | .notifying _ | .sleeping | .signalling => r.raises = false

def Holds (s : Sending J T) : Pc → Prop
  | .ended _ => True
  | .closing _ => s.controller.CompletedAt s.turn ∧ s.controller.Settled
  | .notifying (some _) => s.controller.OpenAt s.turn ∧ s.controller.Settled
  | .injecting | .pausing | .capturing | .parsing _ | .notifying none | .sleeping | .signalling =>
    s.controller.OpenAt s.turn

def Invariant (s : Sending J T) : Prop := s.Holds s.pc

variable [EmptyCollection J]

theorem getElem?_start (c : Controller J T) (p : Prompt J T) : ∃ turn,
    (start c p).controller.transcript.turns[(start c p).turn]? = some turn ∧ turn.response = none ∧ turn.toolCalls = [] := by
  have hturns : (start c p).controller.transcript.turns =
      (c.transcript.newTurn p.text p.askId p.okrId p.metadata p.promptAt p.startedAt).turns := by
    simp [start]
  have hlast := congrArg (·[c.transcript.turns.length]?) hturns
  exact ⟨_, hlast.trans List.getElem?_concat_length, rfl, rfl⟩

theorem invariant_start (c : Controller J T) (p : Prompt J T) : (start c p).Invariant := by
  obtain ⟨turn, hturn, hopen, -⟩ := getElem?_start c p
  exact ⟨turn, hturn, hopen⟩

inductive Round (s : Sending J T) (r : Reply T) : Sending J T → Prop
  | late (left : Nat) : Round s r (timeOut { s with left } r)
  | capturing (left : Nat) : Round s r { s with left, pc := .capturing }
  | pausing (left : Nat) : Round s r { s with left, pc := .pausing }
  | signalling (left : Nat) : Round s r { s with left, pc := .signalling }

theorem Round.of_left {s' : Sending J T} {left : Nat} (h : Round { s with left } r s') : s.Round r s' := by
  cases h with
  | late left => exact .late left
  | capturing left => exact .capturing left
  | pausing left => exact .pausing left
  | signalling left => exact .signalling left

theorem round_checkTimeout : s.Round r (s.checkTimeout r) := by
  unfold checkTimeout
  split
  · exact .late s.left
  · exact .capturing s.left

theorem round_beginRound : s.Round r (s.beginRound r) := by
  unfold beginRound
  split
  · exact .late s.left
  next left _ =>
    dsimp only
    split
    · exact .signalling left
    · split
      · exact .pausing left
      · exact round_checkTimeout.of_left

theorem invariant_timeOut (h : s.controller.OpenAt s.turn) : (s.timeOut r).Invariant := by
  have hopen : (({ s.controller with cancelRequested := false }).forceTransition .error).OpenAt s.turn := h
  exact ⟨hopen.completeTurn "" r.now, .inr (.inl rfl)⟩

theorem invariant_round {s' : Sending J T} (hround : s.Round r s') (h : s.controller.OpenAt s.turn) : s'.Invariant := by
  cases hround with
  | late left => exact invariant_timeOut (s := { s with left }) h
  | capturing | pausing | signalling => exact h

theorem invariant_enterLoop (h : s.controller.OpenAt s.turn) : (s.enterLoop r).Invariant := by
  unfold enterLoop
  split
  next left _ => exact invariant_round (s := { s with left }) round_beginRound h
  next => trivial

theorem invariant_handleCancel (h : s.controller.OpenAt s.turn) : (s.handleCancel r).Invariant := by
  have hopen : (s.controller.transition .error).OpenAt s.turn := h
  refine ⟨hopen.completeTurn "" r.now, .inr (.inl ?_)⟩
  change s.controller.state.next .error = .error
  cases s.controller.state <;> rfl

theorem invariant_complete (h : s.controller.OpenAt s.turn ∧ s.controller.Settled) (response : Screen) :
    (s.complete r response).Invariant := ⟨h.1.completeTurn _ r.now, h.2⟩

omit [EmptyCollection J] in
theorem settled_parse (screen : Screen) {response : Screen}
    (h : responseOf (parser.detectState screen) (parser.parseOutput r.draws screen) = some response) :
    (s.parse parser r screen).controller.Settled := by
  have hidle : parser.detectState screen = some .idle := by
    unfold responseOf at h
    split at h
    next hcomplete => exact hcomplete.1
    next => cases h
  apply Or.inl
  simp only [parse, Controller.state_addToolCalls, hidle]
  change s.controller.state.next .idle = .idle
  cases s.controller.state <;> rfl

omit [EmptyCollection J] in
theorem invariant_parse (h : s.controller.OpenAt s.turn) (screen : Screen) :
    (s.parse parser r screen).Invariant := by
  have hopen : (s.parse parser r screen).controller.OpenAt s.turn := by
    apply Controller.OpenAt.addToolCalls
    split
    · exact h
    · exact h
  change (s.parse parser r screen).Holds (.notifying (responseOf _ _))
  cases hresponse : responseOf (parser.detectState screen) (parser.parseOutput r.draws screen) with
  | none => exact hopen
  | some response => exact ⟨hopen, settled_parse screen hresponse⟩

omit [EmptyCollection J] in
theorem Invariant.requests (h : s.Invariant) (rs : List Request) :
    ({ s with controller := s.controller.requests rs } : Sending J T).Holds s.pc := by
  unfold Invariant at h
  cases hpc : s.pc with
  | ended outcome => trivial
  | closing outcome =>
    rw [hpc] at h
    exact ⟨by simpa [Controller.CompletedAt] using h.1, h.2.requests rs⟩
  | notifying response =>
    rw [hpc] at h
    cases response with
    | none => simpa [Holds, Controller.OpenAt] using h
    | some response => exact ⟨by simpa [Controller.OpenAt] using h.1, h.2.requests rs⟩
  | injecting | pausing | capturing | parsing screen | sleeping | signalling =>
    rw [hpc] at h
    simpa [Holds, Controller.OpenAt] using h

/-- What follows on a call that returns keeps the invariant. -/
theorem invariant_proceed {pc : Pc} (h : s.Holds pc) (hpc : s.pc = pc) : (s.proceed parser r pc).Invariant := by
  cases pc with
  | injecting => exact invariant_enterLoop h
  | pausing =>
    rw [proceed]
    split
    · rw [Invariant, hpc]
      exact h
    · exact invariant_round round_checkTimeout h
  | capturing =>
    rw [proceed, capture]
    dsimp only
    split
    · exact h
    · exact h
  | parsing screen => exact invariant_parse h screen
  | notifying response =>
    cases response with
    | none => exact h
    | some response => exact invariant_complete h response
  | sleeping => exact invariant_round round_beginRound h
  | signalling => exact invariant_handleCancel h
  | closing outcome => trivial
  | ended outcome => trivial

theorem invariant_step (h : s.Invariant) : (s.step parser r).Invariant := by
  have hafter := h.requests r.meanwhile
  unfold step
  dsimp only
  split
  · exact h
  · trivial
  · split
    · trivial
    · exact invariant_proceed hafter rfl

def Running (s : Sending J T) : Prop := ∀ outcome, s.pc ≠ .closing outcome ∧ s.pc ≠ .ended outcome

omit [EmptyCollection J] in
theorem Invariant.openAt (h : s.Invariant) (hrun : s.Running) : s.controller.OpenAt s.turn := by
  unfold Invariant at h
  cases hpc : s.pc with
  | ended outcome => exact ((hrun outcome).2 hpc).elim
  | closing outcome => exact ((hrun outcome).1 hpc).elim
  | notifying response =>
    rw [hpc] at h
    cases response with
    | none => exact h
    | some response => exact h.1
  | injecting | pausing | capturing | parsing screen | sleeping | signalling =>
    rw [hpc] at h
    exact h

omit [EmptyCollection J] in
theorem proceeds_of_running (hrun : s.Running) :
    s.Proceeds r ↔ r.raises = false ∧ (s.pc = .injecting → s.rounds.isSome = true) := by
  unfold Proceeds
  cases hpc : s.pc with
  | ended outcome => exact ((hrun outcome).2 hpc).elim
  | closing outcome => exact ((hrun outcome).1 hpc).elim
  | injecting => simp
  | pausing | capturing | parsing screen | notifying response | sleeping | signalling => simp

theorem step_of_running (hrun : s.Running) : s.step parser r =
    if r.raises then { s with controller := s.controller.requests r.meanwhile, pc := .ended .raised }
    else ({ s with controller := s.controller.requests r.meanwhile } : Sending J T).proceed parser r s.pc := by
  unfold step
  cases hpc : s.pc with
  | ended outcome => exact ((hrun outcome).2 hpc).elim
  | closing outcome => exact ((hrun outcome).1 hpc).elim
  | injecting | pausing | capturing | parsing screen | notifying response | sleeping | signalling => rfl

theorem Round.ne_ended {s' : Sending J T} (hround : s.Round r s') (outcome : Outcome) : s'.pc ≠ .ended outcome := by
  cases hround <;> nofun

theorem proceed_ne_ended (hrun : s.Running) (hrounds : s.pc = .injecting → s.rounds.isSome = true) (outcome : Outcome) :
    (s.proceed parser r s.pc).pc ≠ .ended outcome := by
  cases hpc : s.pc with
  | ended outcome => exact ((hrun outcome).2 hpc).elim
  | closing outcome => exact ((hrun outcome).1 hpc).elim
  | injecting =>
    obtain ⟨left, hleft⟩ := Option.isSome_iff_exists.1 (hrounds hpc)
    rw [proceed, enterLoop, hleft]
    exact round_beginRound.ne_ended outcome
  | pausing =>
    rw [proceed]
    split
    · rw [hpc]
      nofun
    · exact round_checkTimeout.ne_ended outcome
  | capturing =>
    rw [proceed, capture]
    dsimp only
    split <;> nofun
  | notifying response => cases response <;> nofun
  | sleeping => exact round_beginRound.ne_ended outcome
  | parsing screen | signalling => nofun

omit [EmptyCollection J] in
theorem not_closed_of_openAt (h : s.controller.OpenAt s.turn) : ¬s.Closed := by
  intro hclosed
  obtain ⟨turn, hturn, hopen⟩ := h
  obtain ⟨turn', hturn', hcomplete⟩ := hclosed.completed
  cases hturn.symm.trans hturn'
  rw [hopen] at hcomplete
  cases hcomplete

theorem closes_step_of_running (h : s.Invariant) (hrun : s.Running) : (s.step parser r).Closes ↔ s.Proceeds r := by
  have hopen : (s.controller.requests r.meanwhile).OpenAt s.turn := by
    simpa [Controller.OpenAt] using h.openAt hrun
  rw [step_of_running hrun, proceeds_of_running hrun]
  cases hraises : r.raises with
  | true => exact iff_of_false (fun hcloses => not_closed_of_openAt hopen (hcloses _ rfl)) nofun
  | false =>
    by_cases hrounds : s.pc = .injecting → s.rounds.isSome = true
    · refine iff_of_true (fun outcome hend => ?_) ⟨rfl, hrounds⟩
      exact (proceed_ne_ended (s := { s with controller := s.controller.requests r.meanwhile }) hrun hrounds outcome
        hend).elim
    · obtain ⟨hpc, hnone⟩ := Classical.not_imp.1 hrounds
      rw [Option.not_isSome_iff_eq_none] at hnone
      refine iff_of_false (fun hcloses => ?_) fun hproceeds => hrounds hproceeds.2
      have hend := hcloses .raised (by simp [hpc, proceed, enterLoop, hnone])
      exact not_closed_of_openAt (by simpa [hpc, proceed, enterLoop, hnone] using hopen) hend

theorem closes_step_iff (h : s.Invariant) (hs : s.Closes) : (s.step parser r).Closes ↔ s.Proceeds r := by
  have hafter := h.requests r.meanwhile
  cases hpc : s.pc with
  | ended outcome =>
    have hstep : s.step parser r = s := by simp only [step, hpc]
    rw [hstep, Proceeds, hpc]
    exact iff_of_true hs trivial
  | closing outcome =>
    rw [hpc] at hafter
    obtain ⟨hcompleted, hsettled⟩ := hafter
    have hstep : s.step parser r = { s with controller := s.controller.requests r.meanwhile, pc := .ended outcome } := by
      simp only [step, hpc]
    rw [hstep, Proceeds, hpc]
    constructor
    · intro hcloses hpaused
      obtain hidle | herror := (hcloses outcome rfl).state
      · cases hpaused.symm.trans hidle
      · cases hpaused.symm.trans herror
    · intro hpaused outcome' _
      refine ⟨hcompleted, ?_⟩
      obtain hidle | herror | hstill := hsettled
      · exact .inl hidle
      · exact .inr herror
      · exact (hpaused hstill).elim
  | injecting | pausing | capturing | parsing screen | notifying response | sleeping | signalling =>
    exact closes_step_of_running h (by simp [Running, hpc])

/-- The turn is closed whenever the prompt is through, just when each call on the way returns and the agent is not left
paused. -/
theorem closes_iff (parser : OutputParser J T) (c : Controller J T) (p : Prompt J T) (replies : List (Reply T)) :
    Throughout (step parser) Closes (start c p) replies ↔ Along (step parser) Proceeds (start c p) replies := by
  have hinvariant : Throughout (step parser) Invariant (start c p) replies :=
    throughout_of_along (fun _ _ h _ => invariant_step h) (invariant_start c p) along_true
  have hboth : Throughout (step parser) (fun s => s.Invariant ∧ s.Closes) (start c p) replies ↔
      Along (step parser) Proceeds (start c p) replies := by
    apply throughout_iff_along
    · intro s r h
      rw [and_iff_right (invariant_step h.1)]
      exact closes_step_iff h.1 h.2
    · exact ⟨invariant_start c p, nofun⟩
  rw [← hboth, throughout_and]
  exact (and_iff_right hinvariant).symm

/-- The agent cannot be reached: the prompt was begun, and its turn is never completed. -/
theorem injection_not_closes : ¬Throughout
    (step (⟨fun _ _ => ⟨[], []⟩, fun _ => none⟩ : OutputParser (List (String × String)) Nat)) Closes
    (start {} { text := "hello", metadata := [], promptAt := 0, startedAt := 0, rounds := some 100 })
    [{ raises := true, now := 1, draws := fun _ => ⟨"", 1⟩ }] := by
  intro h
  have hclosed : Closed _ := h.2 .raised rfl
  obtain hidle | herror := hclosed.state
  · cases hidle
  · cases herror

end Sending

end Quinn.Pyterm.Control
