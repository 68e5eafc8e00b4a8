import Quinn.Pyterm.AgentSession
import Quinn.Pyterm.RoundTrip

/-! When the stored transcript is the one in memory. -/

namespace Quinn.Pyterm

variable {J T : Type}

def Transcript.size (t : Transcript J T) : Nat :=
  t.turns.length + (t.turns.flatMap (·.toolCalls)).length + t.turns.countP (·.response.isSome)

/-- The turn at work is the last one, and not complete. -/
def Transcript.AtTurn (i : Nat) (t : Transcript J T) : Prop :=
  ∃ before turn, t.turns = before ++ [turn] ∧ before.length = i ∧ turn.response = none

theorem Transcript.modify_last {t : Transcript J T} {before : List (Turn J T)} {turn : Turn J T}
    (h : t.turns = before ++ [turn]) (f : Turn J T → Turn J T) :
    (t.modify before.length f).turns = before ++ [f turn] := by
  have hlast (l : List (Turn J T)) : (l ++ [turn]).modify l.length f = l ++ [f turn] := by
    induction l with
    | nil => rfl
    | cons a l ih => simp [ih]
  rw [Transcript.modify, h, hlast]

section sessions

variable [EmptyCollection J] (json : Codec J) (iso : Codec T)

/-- What is loaded is what is in memory; nothing stored is an empty transcript. -/
def InStep (s : AgentSession J T) : Prop :=
  ∃ t, s.db.loadTranscript json iso s.workerId = .ok t ∧ t.getD {} = s.transcript

def Behind (s : AgentSession J T) : Prop :=
  ∃ t, s.db.loadTranscript json iso s.workerId = .ok t ∧ (t.getD {}).size < s.transcript.size

variable {json iso}

theorem Behind.not_inStep {s : AgentSession J T} (h : Behind json iso s) : ¬InStep json iso s := by
  rintro ⟨t, ht, hsame⟩
  obtain ⟨t', ht', hlt⟩ := h
  obtain rfl : t' = t := Except.ok.inj (ht'.symm.trans ht)
  rw [hsame] at hlt
  exact lt_irrefl _ hlt

theorem behind_of_size_lt {s s' : AgentSession J T} (h : InStep json iso s ∨ Behind json iso s)
    (hdb : s'.db = s.db) (hworker : s'.workerId = s.workerId)
    (hsize : s.transcript.size < s'.transcript.size) : Behind json iso s' := by
  obtain ⟨t, ht, hsame⟩ | ⟨t, ht, hlt⟩ := h
  · exact ⟨t, by rw [hdb, hworker, ht], hsame ▸ hsize⟩
  · exact ⟨t, by rw [hdb, hworker, ht], hlt.trans hsize⟩

def Kept (json : Codec J) (iso : Codec T) (kept : Bool) (s : AgentSession J T) : Prop :=
  if kept then InStep json iso s else Behind json iso s

theorem Kept.or {kept : Bool} {s : AgentSession J T} (h : Kept json iso kept s) :
    InStep json iso s ∨ Behind json iso s := by
  cases kept with
  | true => exact .inl h
  | false => exact .inr h

theorem Kept.inStep_iff {kept : Bool} {s : AgentSession J T} (h : Kept json iso kept s) :
    InStep json iso s ↔ kept = true := by
  cases kept with
  | true => exact iff_of_true h rfl
  | false => exact iff_of_false h.not_inStep (by simp)

variable [DecidableEq J]

/-- What a session keeps between two rounds: its transcript can be stored as it is. -/
structure Storable (s : AgentSession J T) : Prop where
  sound : s.transcript.Sound
  tracked : s.tracked = (s.transcript.turns.flatMap (·.toolCalls)).map (·.id)
  nodup : s.tracked.Nodup
  plain : ∀ turn ∈ s.transcript.turns, ∀ r ∈ turn.response, r.Plain
  auto : s.autoPersist = true
  atRest : s.needsPersist = false

theorem exists_maybePersist_eq {s : AgentSession J T} (h : Storable s) (json : Codec J) (iso : Codec T)
    (now : T) :
    ∃ db, AgentSession.maybePersist json iso { s with needsPersist := true } now = { s with db } ∧
      InStep json iso { s with db } := by
  obtain ⟨db, hsave, hload⟩ := exists_save_load json iso s.db s.workerId h.sound (h.tracked ▸ h.nodup)
    none none now
  rw [(map_stored_eq_self h.sound).2 h.plain] at hload
  refine ⟨db, ?_, _, hload, rfl⟩
  obtain ⟨workerId, autoPersist, transcript, state, tracked, needsPersist, db₀⟩ := s
  obtain rfl : autoPersist = true := h.auto
  obtain rfl : needsPersist = false := h.atRest
  simp only [AgentSession.maybePersist, AgentSession.save, Bool.and_self, if_true, hsave]
  rfl

theorem forceTransition_spec {s : AgentSession J T} (h : Storable s) {kept : Bool}
    (hkept : Kept json iso kept s) (new : AgentState) (now : T) :
    ∃ db, s.forceTransition json iso new now = { s with state := new, db } ∧
      Kept json iso (kept || decide (new = .idle ∧ s.state ≠ .idle)) { s with state := new, db } := by
  unfold AgentSession.forceTransition
  by_cases hrest : new = .idle ∧ s.state ≠ .idle
  · have hset : Storable { s with state := new } := ⟨h.sound, h.tracked, h.nodup, h.plain, h.auto, h.atRest⟩
    obtain ⟨db, heq, hdb⟩ := exists_maybePersist_eq hset json iso now
    refine ⟨db, ?_, by simpa [Kept, decide_eq_true hrest] using hdb⟩
    rw [if_pos (by simp only [h.auto, decide_eq_true hrest, Bool.and_self])]
    exact heq
  · refine ⟨s.db, ?_, ?_⟩
    · rw [if_neg (by simp only [decide_eq_false hrest, Bool.and_false, Bool.false_eq_true, not_false_eq_true])]
    · rw [decide_eq_false hrest, Bool.or_false]
      exact hkept

theorem transition_spec {s : AgentSession J T} (h : Storable s) {kept : Bool}
    (hkept : Kept json iso kept s) (new : AgentState) (now : T) :
    ∃ db, s.transition json iso new now = { s with state := s.state.next new, db } ∧
      Kept json iso (kept || decide (s.state.next new = .idle ∧ s.state ≠ .idle))
        { s with state := s.state.next new, db } := by
  unfold AgentSession.transition AgentState.next
  split
  · exact forceTransition_spec h hkept new now
  · refine ⟨s.db, rfl, ?_⟩
    have hsame : ¬(s.state = .idle ∧ s.state ≠ .idle) := fun h => h.2 h.1
    rw [decide_eq_false hsame, Bool.or_false]
    exact hkept

structure AtWork (i : Nat) (s : AgentSession J T) : Prop where
  storable : Storable s
  turn : s.transcript.AtTurn i

omit [EmptyCollection J] [DecidableEq J] in
theorem AtWork.congr {i : Nat} {s : AgentSession J T} (h : AtWork i s) (state : AgentState) (db : Db) :
    AtWork i { s with state, db } :=
  ⟨⟨h.storable.sound, h.storable.tracked, h.storable.nodup, h.storable.plain, h.storable.auto,
    h.storable.atRest⟩, h.turn⟩

def track (tracked : List String) (toolCall : ToolCall J T) : List String :=
  if toolCall.id ∈ tracked then tracked else tracked ++ [toolCall.id]

def ParsedOutput.nextState (parsed : ParsedOutput J T) (state : AgentState) : AgentState :=
  match parsed.detectedState with
  | some new => state.next new
  | none => state

/-- Whether the turn, stored before or not, is stored as it is after this output: the agent has come
to rest, or was stored, and there are no new tool calls. -/
def ParsedOutput.rests (parsed : ParsedOutput J T) (state : AgentState) (tracked : List String)
    (kept : Bool) : Bool :=
  (kept || decide (parsed.nextState state = .idle ∧ state ≠ .idle)) &&
    parsed.toolCalls.all fun toolCall => toolCall.id ∈ tracked

omit [DecidableEq J] in
theorem addToolCall_spec {i : Nat} {s : AgentSession J T} (h : AtWork i s) {kept : Bool}
    (hkept : Kept json iso kept s) (toolCall : ToolCall J T) :
    AtWork i (s.addToolCall i toolCall) ∧ (s.addToolCall i toolCall).state = s.state ∧
      (s.addToolCall i toolCall).tracked = track s.tracked toolCall ∧
      Kept json iso (kept && decide (toolCall.id ∈ s.tracked)) (s.addToolCall i toolCall) := by
  by_cases hknown : toolCall.id ∈ s.tracked
  · have hsame : s.addToolCall i toolCall = s := if_pos hknown
    rw [hsame, decide_eq_true hknown, Bool.and_true, track, if_pos hknown]
    exact ⟨h, rfl, rfl, hkept⟩
  · obtain ⟨before, turn, hturns, rfl, hopen⟩ := h.turn
    have hlast := Transcript.modify_last hturns (Turn.addToolCall toolCall)
    have hcalls : (s.transcript.modify before.length (Turn.addToolCall toolCall)).turns.flatMap (·.toolCalls) =
        s.transcript.turns.flatMap (·.toolCalls) ++ [toolCall] := by
      rw [hlast, hturns]
      simp [Turn.addToolCall]
    have hadd : s.addToolCall before.length toolCall = { s with
        transcript := s.transcript.modify before.length (Turn.addToolCall toolCall)
        tracked := s.tracked ++ [toolCall.id] } := if_neg hknown
    rw [hadd, decide_eq_false hknown, Bool.and_false, track, if_neg hknown]
    refine ⟨⟨⟨?_, ?_, ?_, ?_, h.storable.auto, h.storable.atRest⟩, before, _, hlast, rfl, hopen⟩, rfl, rfl, ?_⟩
    · exact h.storable.sound.modify (f := Turn.addToolCall toolCall) (fun _ => rfl) (fun _ => rfl) _
    · simp only [hcalls, List.map_append, ← h.storable.tracked, List.map_singleton]
    · exact List.nodup_append.2 ⟨h.storable.nodup, List.nodup_singleton _, fun a ha b hb hab => hknown
        (List.mem_singleton.1 hb ▸ hab ▸ ha)⟩
    · intro turn' hturn'
      simp only [hlast, List.mem_append, List.mem_singleton] at hturn'
      obtain hturn' | rfl := hturn'
      · exact h.storable.plain turn' (by simp [hturns, hturn'])
      · exact h.storable.plain turn (by simp [hturns])
    · refine behind_of_size_lt hkept.or rfl rfl ?_
      simp only [Transcript.size, hlast, hturns, List.length_append, List.flatMap_append,
        List.countP_append, List.flatMap_singleton, Turn.addToolCall, List.countP_singleton,
        List.length_singleton]
      omega

omit [DecidableEq J] in
theorem completeTurn_spec {i : Nat} {s : AgentSession J T} (h : AtWork i s)
    (hs : InStep json iso s ∨ Behind json iso s) (content : String) (now : T) :
    Storable (s.completeTurn i content now) ∧ Behind json iso (s.completeTurn i content now) := by
  obtain ⟨before, turn, hturns, rfl, hopen⟩ := h.turn
  have hlast := Transcript.modify_last hturns fun turn =>
    (turn.complete (.assistant content now) now).toOption.getD turn
  rw [Turn.complete_of_open hopen] at hlast
  refine ⟨⟨?_, ?_, h.storable.nodup, ?_, h.storable.auto, h.storable.atRest⟩, ?_⟩
  · refine h.storable.sound.modify (fun turn => ?_) (fun turn => ?_) _
    · obtain hkept | hdone := turn.complete_cases (.assistant content now) now
      · rw [hkept]
      · rw [hdone]
    · obtain hkept | hdone := turn.complete_cases (.assistant content now) now
      · rw [hkept]
      · rw [hdone]
  · simp [AgentSession.completeTurn, hlast, h.storable.tracked, hturns]
  · intro turn' hturn' r hr
    simp only [AgentSession.completeTurn, hlast, List.mem_append, List.mem_singleton] at hturn'
    obtain hturn' | rfl := hturn'
    · exact h.storable.plain turn' (by simp [hturns, hturn']) r hr
    · obtain rfl : Message.assistant content now = r := Option.some.inj hr
      exact ⟨rfl, rfl⟩
  · refine behind_of_size_lt hs rfl rfl ?_
    simp [AgentSession.completeTurn, Transcript.size, hlast, hturns, hopen]

omit [DecidableEq J] in
theorem addToolCalls_spec {i : Nat} {s : AgentSession J T} (h : AtWork i s) {kept : Bool}
    (hkept : Kept json iso kept s) (toolCalls : List (ToolCall J T)) :
    let s' := toolCalls.foldl (fun s toolCall => s.addToolCall i toolCall) s
    AtWork i s' ∧ s'.state = s.state ∧ s'.tracked = toolCalls.foldl track s.tracked ∧
      Kept json iso (kept && toolCalls.all fun toolCall => toolCall.id ∈ s.tracked) s' := by
  induction toolCalls generalizing s kept with
  | nil => exact ⟨h, rfl, rfl, by simpa using hkept⟩
  | cons toolCall toolCalls ih =>
    obtain ⟨hwork, hstate, htracked, hadded⟩ := addToolCall_spec h hkept toolCall
    obtain ⟨hwork', hstate', htracked', hadded'⟩ := ih hwork hadded
    refine ⟨hwork', hstate'.trans hstate, htracked'.trans (by rw [htracked]; rfl), ?_⟩
    have hall : (kept && (toolCall :: toolCalls).all fun toolCall => toolCall.id ∈ s.tracked) =
        ((kept && decide (toolCall.id ∈ s.tracked)) &&
          toolCalls.all fun toolCall' => toolCall'.id ∈ (s.addToolCall i toolCall).tracked) := by
      rw [List.all_cons, ← Bool.and_assoc, htracked, track]
      by_cases hknown : toolCall.id ∈ s.tracked <;> simp [hknown]
    rw [hall]
    exact hadded'

theorem observe_spec {i : Nat} {s : AgentSession J T} (h : AtWork i s) {kept : Bool}
    (hkept : Kept json iso kept s) (parsed : ParsedOutput J T) (now : T) :
    let s' := s.observe json iso i parsed now
    AtWork i s' ∧ s'.state = parsed.nextState s.state ∧
      s'.tracked = parsed.toolCalls.foldl track s.tracked ∧
      Kept json iso (parsed.rests s.state s.tracked kept) s' := by
  unfold AgentSession.observe ParsedOutput.rests ParsedOutput.nextState
  cases parsed.detectedState with
  | none =>
    have hsame : ¬(s.state = .idle ∧ s.state ≠ .idle) := fun h => h.2 h.1
    simp only [decide_eq_false hsame, Bool.or_false]
    exact addToolCalls_spec h hkept parsed.toolCalls
  | some new =>
    obtain ⟨db, heq, hnew⟩ := transition_spec h.storable hkept new now
    simp only [heq]
    exact addToolCalls_spec (h.congr (s.state.next new) db) hnew parsed.toolCalls

/-- Whether the turn is stored as it is when the rounds end: the prompt returns, or it fails and
nothing was added since the agent came to rest. -/
def rests (state : AgentState) (tracked : List String) (kept : Bool) : List (Poll J T) → Bool
  | [] => false
  | ⟨_, .cancelled signalFails⟩ :: _ => !signalFails || kept
  | ⟨_, .timedOut⟩ :: _ => false
  | ⟨_, .unreadable⟩ :: _ => kept
  | ⟨_, .unchanged⟩ :: polls => rests state tracked kept polls
  | ⟨_, .output parsed callbackFails⟩ :: polls =>
    if callbackFails then parsed.rests state tracked kept
    else parsed.complete.isSome ||
      rests (parsed.nextState state) (parsed.toolCalls.foldl track tracked)
        (parsed.rests state tracked kept) polls

/-- The prompt leaves its turn stored, when it is sent to an agent in this state. -/
def Prompt.rests (p : Prompt J T) (state : AgentState) (tracked : List String) : Bool :=
  !p.injectFails && Pyterm.rests (state.next .thinking) tracked false p.polls

/-- How a prompt leaves the session: where it returns, the session is still to be saved. -/
structure Leaves (json : Codec J) (iso : Codec T) (kept : Bool) (r : AgentSession J T × Outcome) :
    Prop where
  storable : Storable r.1
  returns : r.2.Returns → kept = true
  raises : ¬r.2.Returns → Kept json iso kept r.1

omit [DecidableEq J] in
theorem leaves_of_raises {s : AgentSession J T} {kept : Bool} {o : Outcome} (hs : Storable s)
    (ho : ¬o.Returns) (hkept : Kept json iso kept s) : Leaves json iso kept (s, o) :=
  ⟨hs, fun h => absurd h ho, fun _ => hkept⟩

omit [DecidableEq J] in
theorem leaves_of_returns {s : AgentSession J T} {o : Outcome} (hs : Storable s) (ho : o.Returns) :
    Leaves json iso true (s, o) :=
  ⟨hs, fun _ => rfl, fun h => absurd ho h⟩

theorem leaves_timeout {i : Nat} {s : AgentSession J T} (h : AtWork i s) {kept : Bool}
    (hkept : Kept json iso kept s) (now : T) :
    Leaves json iso false ((s.forceTransition json iso .error now).completeTurn i "" now, .timeout) := by
  obtain ⟨db, heq, herror⟩ := forceTransition_spec h.storable hkept .error now
  rw [heq]
  obtain ⟨hs, hbehind⟩ := completeTurn_spec (h.congr .error db) herror.or "" now
  exact leaves_of_raises hs (by decide) hbehind

theorem leaves_poll {i : Nat} {s : AgentSession J T} (h : AtWork i s) {kept : Bool}
    (hkept : Kept json iso kept s) (endsAt : T) (polls : List (Poll J T)) :
    Leaves json iso (rests s.state s.tracked kept polls)
      (AgentSession.poll json iso i endsAt polls s) := by
  induction polls generalizing s kept with
  | nil => exact leaves_timeout h hkept endsAt
  | cons poll polls ih =>
    obtain ⟨now, seen⟩ := poll
    cases seen with
    | cancelled signalFails =>
      cases signalFails with
      | true => exact leaves_of_raises h.storable (by decide) hkept
      | false =>
        obtain ⟨db, heq, herror⟩ := transition_spec h.storable hkept .error now
        simp only [AgentSession.poll, heq]
        exact leaves_of_returns (completeTurn_spec (h.congr _ db) herror.or "" now).1 (by decide)
    | timedOut => exact leaves_timeout h hkept now
    | unreadable => exact leaves_of_raises h.storable (by decide) hkept
    | unchanged => exact ih h hkept
    | output parsed callbackFails =>
      obtain ⟨hwork, hstate, htracked, hseen⟩ := observe_spec h hkept parsed now
      cases callbackFails with
      | true => exact leaves_of_raises hwork.storable (by decide) hseen
      | false =>
        simp only [AgentSession.poll, rests, Bool.false_eq_true, if_false]
        cases parsed.complete with
        | some content =>
          exact leaves_of_returns (completeTurn_spec hwork hseen.or content now).1 (by decide)
        | none =>
          rw [Option.isSome_none, Bool.false_or, ← hstate, ← htracked]
          exact ih hwork hseen

omit [DecidableEq J] in
theorem newTurn_spec {s : AgentSession J T} (h : Storable s) (hs : InStep json iso s ∨ Behind json iso s)
    (p : Prompt J T) :
    let s' := { s with
      transcript := s.transcript.newTurn p.text p.askId p.okrId p.metadata p.promptAt p.startedAt }
    AtWork s.transcript.turns.length s' ∧ Behind json iso s' := by
  refine ⟨⟨⟨h.sound.newTurn .., ?_, h.nodup, ?_, h.auto, h.atRest⟩, _, _, rfl, rfl, rfl⟩, ?_⟩
  · simp [Transcript.newTurn, h.tracked]
  · intro turn hturn r hr
    rw [Transcript.newTurn, List.mem_append, List.mem_singleton] at hturn
    obtain hturn | rfl := hturn
    · exact h.plain turn hturn r hr
    · simp at hr
  · refine behind_of_size_lt hs rfl rfl ?_
    simp only [Transcript.size, Transcript.newTurn, List.length_append, List.flatMap_append,
      List.countP_append, List.length_singleton]
    omega

theorem leaves_control {s : AgentSession J T} (h : Storable s) (hs : InStep json iso s ∨ Behind json iso s)
    (p : Prompt J T) :
    Leaves json iso (p.rests s.state s.tracked) (s.control json iso p) := by
  obtain ⟨hwork, hbehind⟩ := newTurn_spec h hs p
  have hbehind : Kept json iso false _ := hbehind
  obtain ⟨db, heq, hkept⟩ := transition_spec hwork.storable hbehind .thinking p.startedAt
  have hthinks : decide (s.state.next .thinking = .idle ∧ s.state ≠ .idle) = false := by
    cases s.state <;> rfl
  simp only [hthinks, Bool.or_false] at hkept
  have hpoll := leaves_poll (hwork.congr (s.state.next .thinking) db) hkept p.endsAt p.polls
  simp only [AgentSession.control, heq, Prompt.rests]
  cases hfails : p.injectFails with
  | true => exact leaves_of_raises (hwork.congr _ db).storable (by decide) hkept
  | false => exact hpoll

theorem sendPrompt_spec {s : AgentSession J T} (h : Storable s) (hs : InStep json iso s ∨ Behind json iso s)
    (p : Prompt J T) :
    Storable (s.sendPrompt json iso p) ∧
      Kept json iso (p.rests s.state s.tracked) (s.sendPrompt json iso p) := by
  have hleaves := leaves_control h hs p
  unfold AgentSession.sendPrompt
  split
  next s' outcome heq =>
  rw [heq] at hleaves
  split
  · next hreturns =>
    obtain ⟨db, hpersist, hin⟩ := exists_maybePersist_eq hleaves.storable json iso p.endsAt
    rw [hpersist, hleaves.returns hreturns]
    obtain ⟨sound, tracked, nodup, plain, auto, atRest⟩ := hleaves.storable
    exact ⟨⟨sound, tracked, nodup, plain, auto, atRest⟩, hin⟩
  · next hraises => exact ⟨hleaves.storable, hleaves.raises hraises⟩

end sessions

end Quinn.Pyterm

/-! What the store holds after a session has stopped. -/

namespace Quinn.Pyterm

open Machine

section stored

variable {J T : Type}

theorem storable_start (workerId : WorkerId) (db : Db) :
    Storable ({ workerId, db } : AgentSession J T) where
  sound := .empty
  tracked := rfl
  nodup := List.nodup_nil
  plain := by simp
  auto := rfl
  atRest := rfl

variable [EmptyCollection J] [DecidableEq J] {json : Codec J} {iso : Codec T}

/-- Between two prompts there is nothing left that `stop` would still save. -/
theorem stop_eq_self {s : AgentSession J T} (h : Storable s) (now : T) : s.stop json iso now = s := by
  simp [AgentSession.stop, AgentSession.maybePersist, h.atRest]

theorem run_spec {s : AgentSession J T} (h : Storable s) (hs : InStep json iso s) (prompts : List (Prompt J T)) :
    let s' := run (AgentSession.sendPrompt json iso) s prompts
    Storable s' ∧ (InStep json iso s' ∨ Behind json iso s') :=
  (throughout_of_along (P := fun s => Storable s ∧ (InStep json iso s ∨ Behind json iso s))
    (fun _ p hs _ => (sendPrompt_spec hs.1 hs.2 p).imp_right Kept.or) ⟨h, .inl hs⟩ along_true).run

/-- A session that starts with nothing stored but what is in memory stops so if its last prompt, if
there was one, rests. -/
theorem inStep_stop_iff (json : Codec J) (iso : Codec T) (workerId : WorkerId) (db : Db)
    (hstart : InStep json iso { workerId, db }) (prompts : List (Prompt J T)) (now : T) :
    InStep json iso ((run (AgentSession.sendPrompt json iso) { workerId, db } prompts).stop json iso now) ↔
      ∀ before p, prompts = before ++ [p] →
        p.rests (run (AgentSession.sendPrompt json iso) { workerId, db } before).state
          (run (AgentSession.sendPrompt json iso) { workerId, db } before).tracked = true := by
  have hs := storable_start (J := J) (T := T) workerId db
  rw [stop_eq_self (run_spec hs hstart prompts).1]
  obtain rfl | ⟨before, p, rfl⟩ := List.eq_nil_or_concat prompts
  · simpa using hstart
  · obtain ⟨hbefore, hor⟩ := run_spec hs hstart before
    rw [List.concat_eq_append, run_append, run_cons, run_nil, (sendPrompt_spec hbefore hor p).2.inStep_iff]
    constructor
    · rintro h before' p' heq
      obtain ⟨rfl, hp⟩ := List.append_inj' heq rfl
      obtain rfl : p = p' := by simpa using hp
      exact h
    · exact fun h => h before p rfl

end stored

/-- What the terminal shows when the agent has answered. -/
def answered (text now : String) : Poll Note String :=
  ⟨now, .output { detectedState := some .idle, assistantResponse := some text } false⟩

def working (now : String) : Poll Note String :=
  ⟨now, .output { detectedState := some .executingTool, toolCalls := [⟨"call-1", "bash", .text "make", now⟩] } false⟩

def mixed : List (Prompt Note String) :=
  [{ text := "build", metadata := ∅, promptAt := "09:00:00", startedAt := "09:00:00", endsAt := "09:05:00"
     polls := [working "09:00:01", ⟨"09:05:00", .timedOut⟩] },
    { text := "stop", metadata := ∅, promptAt := "09:06:00", startedAt := "09:06:00", endsAt := "09:06:02"
      polls := [⟨"09:06:01", .cancelled false⟩] },
    { text := "again", metadata := .text "retry", promptAt := "09:07:00", startedAt := "09:07:00"
      endsAt := "09:07:03"
      polls := [working "09:07:01", ⟨"09:07:02", .unchanged⟩, answered "done" "09:07:03"] }]

theorem nothing_stored : InStep noteJson dayIso { workerId := "ic" } := ⟨none, by decide +kernel, rfl⟩

theorem mixed_inStep :
    InStep noteJson dayIso
      ((run (AgentSession.sendPrompt noteJson dayIso) { workerId := "ic" } mixed).stop noteJson dayIso "10:00:00") := by
  refine (inStep_stop_iff noteJson dayIso "ic" {} nothing_stored mixed "10:00:00").2 fun before p h => ?_
  obtain ⟨rfl, hp⟩ := List.append_inj' (show mixed.dropLast ++ [_] = before ++ [p] from h) rfl
  obtain rfl := by simpa using hp
  decide +kernel

def unanswered : List (Prompt Note String) :=
  [{ text := "build", metadata := ∅, promptAt := "09:00:00", startedAt := "09:00:00", endsAt := "09:05:00"
     polls := [⟨"09:05:00", .timedOut⟩] }]

/-- Its turn is in memory, and the store has no session at all. -/
theorem unanswered_not_inStep :
    InStep noteJson dayIso { workerId := "ic" } ∧
      ¬InStep noteJson dayIso
        ((run (AgentSession.sendPrompt noteJson dayIso) { workerId := "ic" } unanswered).stop noteJson dayIso
          "10:00:00") := by
  refine ⟨nothing_stored, ?_⟩
  rintro ⟨t, ht, hsame⟩
  have hnone : Db.loadTranscript noteJson dayIso "ic"
      ((run (AgentSession.sendPrompt noteJson dayIso) { workerId := "ic" } unanswered).stop noteJson dayIso
        "10:00:00").db = .ok none := by decide +kernel
  obtain rfl : none = t := Except.ok.inj (hnone.symm.trans ht)
  exact absurd hsame (by decide +kernel)

end Quinn.Pyterm
