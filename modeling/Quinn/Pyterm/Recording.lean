import Mathlib.Data.List.Perm.Basic
import Quinn.Pyterm.ClaudeCode
import Quinn.Pyterm.Closing

/-! The tool calls that a prompt records. -/

namespace Quinn.Pyterm

open Control

def ToolCall.block {T : Type} (toolCall : ToolCall Arguments T) : Block := ⟨toolCall.name, toolCall.arguments⟩

namespace Control

open Machine

variable {T : Type}

def changedFrom : List Char → List Screen → List Screen
  | _, [] => []
  | last, screen :: rest =>
    if screen.text = last then changedFrom last rest else screen :: changedFrom screen.text rest

def changed (captures : List Screen) : List Screen := changedFrom [] captures

def lastText (last : List Char) (captures : List Screen) : List Char := (captures.getLast?.map Screen.text).getD last

theorem changedFrom_concat (last : List Char) (captures : List Screen) (screen : Screen) :
    changedFrom last (captures ++ [screen]) =
      changedFrom last captures ++ if screen.text = lastText last captures then [] else [screen] := by
  induction captures generalizing last with
  | nil =>
    simp only [lastText, List.nil_append, changedFrom]
    split <;> simp_all
  | cons capture captures ih =>
    have hlast : lastText last (capture :: captures) = lastText capture.text captures := by
      rw [lastText, lastText, List.getLast?_cons]
      cases captures.getLast? <;> rfl
    rw [List.cons_append, changedFrom, changedFrom, hlast]
    split
    next hsame => rw [ih, hsame]
    next => rw [ih, List.cons_append]

/-- A turn's tool calls, apart from what was drawn for them. -/
def Controller.records (c : Controller Arguments T) (i : Nat) : List Block :=
  (c.transcript.turns[i]?).elim [] fun turn => turn.toolCalls.map ToolCall.block

namespace Sending

variable (s : Sending Arguments T)

def records : List Block := s.controller.records s.turn

def finalScreen : Screen := s.captures.getLast?.getD []

def RecordsOnce : Prop := s.records.Perm (blocks s.finalScreen)

instance : Decidable s.RecordsOnce := inferInstanceAs (Decidable (List.Perm _ _))

def parsed : List Screen :=
  match s.pc with
  | .parsing _ => (changed s.captures).dropLast
  | _ => changed s.captures

end Sending

def shown (screen : Screen) : List Block := blocks (truncateInput screen)

/-- Of each block of the final screen one capture, of those that are parsed, shows it once. -/
def ShownOnce (captures : List Screen) : Prop :=
  ((changed captures).flatMap shown).Perm (blocks (captures.getLast?.getD []))

/-- `uuid4` returns nothing twice, and nothing that is known. -/
structure Fresh (tracked : List String) (replies : List (Reply T)) : Prop where
  injective : ∀ r ∈ replies, Function.Injective fun i => (r.draws i).hex
  apart : replies.Pairwise fun r r' => ∀ i j, (r.draws i).hex ≠ (r'.draws j).hex
  unknown : ∀ r ∈ replies, ∀ i, "tc-" ++ (r.draws i).hex ∉ tracked

namespace Controller

variable {c : Controller Arguments T} {i : Nat}

theorem records_transition (new : AgentState) : (c.transition new).records i = c.records i := rfl

theorem records_addToolCall (hturn : i < c.transcript.turns.length) {toolCall : ToolCall Arguments T}
    (hnew : toolCall.id ∉ c.tracked) : (c.addToolCall i toolCall).records i = c.records i ++ [toolCall.block] := by
  simp [addToolCall, hnew, records, Transcript.modify, List.getElem?_eq_getElem hturn, Turn.addToolCall]

theorem records_addToolCalls (hturn : i < c.transcript.turns.length) (toolCalls : List (ToolCall Arguments T))
    (hnodup : (toolCalls.map ToolCall.id).Nodup) (hnew : ∀ toolCall ∈ toolCalls, toolCall.id ∉ c.tracked) :
    (toolCalls.foldl (fun c toolCall => c.addToolCall i toolCall) c).records i =
      c.records i ++ toolCalls.map ToolCall.block := by
  induction toolCalls generalizing c with
  | nil => simp
  | cons toolCall toolCalls ih =>
    obtain ⟨hhead, hrest⟩ := List.nodup_cons.1 hnodup
    obtain ⟨hthis, hothers⟩ := List.forall_mem_cons.1 hnew
    rw [List.foldl_cons, ih _ hrest, records_addToolCall hturn hthis, List.map_cons, List.append_assoc,
      List.singleton_append]
    · intro other hother
      simp only [addToolCall, hthis, if_false, List.mem_append, List.mem_singleton, not_or]
      exact ⟨hothers other hother, fun hsame => hhead (hsame ▸ List.mem_map_of_mem hother)⟩
    · simpa [addToolCall, hthis, Transcript.modify] using hturn

theorem mem_tracked_addToolCall {id : String} {toolCall : ToolCall Arguments T}
    (h : id ∈ (c.addToolCall i toolCall).tracked) : id ∈ c.tracked ∨ id = toolCall.id := by
  unfold addToolCall at h
  split at h
  · exact .inl h
  · rwa [List.mem_append, List.mem_singleton] at h

theorem mem_tracked_addToolCalls {id : String} (toolCalls : List (ToolCall Arguments T))
    (h : id ∈ (toolCalls.foldl (fun c toolCall => c.addToolCall i toolCall) c).tracked) :
    id ∈ c.tracked ∨ id ∈ toolCalls.map ToolCall.id := by
  induction toolCalls generalizing c with
  | nil => exact .inl h
  | cons toolCall toolCalls ih =>
    rw [List.map_cons, List.mem_cons]
    obtain hknown | hlater := ih h
    · exact (mem_tracked_addToolCall hknown).imp_right .inl
    · exact .inr (.inr hlater)

theorem length_addToolCall (toolCall : ToolCall Arguments T) :
    (c.addToolCall i toolCall).transcript.turns.length = c.transcript.turns.length := by
  unfold addToolCall
  split <;> simp [Transcript.modify]

theorem length_addToolCalls (toolCalls : List (ToolCall Arguments T)) :
    (toolCalls.foldl (fun c toolCall => c.addToolCall i toolCall) c).transcript.turns.length =
      c.transcript.turns.length := by
  induction toolCalls generalizing c with
  | nil => rfl
  | cons toolCall toolCalls ih => exact ih.trans (length_addToolCall toolCall)

theorem records_completeTurn (content : String) (now : T) :
    (c.completeTurn i content now).records i = c.records i := by
  have hkeeps (turn : Turn Arguments T) :
      ((turn.complete (.assistant content now) now).toOption.getD turn).toolCalls = turn.toolCalls := by
    obtain hkept | hdone := turn.complete_cases (.assistant content now) now
    · rw [hkept]
    · rw [hdone]
  simp only [records, completeTurn, Transcript.modify, List.getElem?_modify_eq]
  cases c.transcript.turns[i]? with
  | none => rfl
  | some turn => simp [hkeeps]

theorem length_completeTurn (content : String) (now : T) :
    (c.completeTurn i content now).transcript.turns.length = c.transcript.turns.length := by
  simp [completeTurn, Transcript.modify]

end Controller

theorem blocks_extractToolCalls (draws : Nat → Draw T) (raw : Screen) :
    (extractToolCalls draws raw).map ToolCall.block = blocks raw := by
  apply List.ext_getElem
  · simp [extractToolCalls]
  · intro i h _
    simp [extractToolCalls, ToolCall.block, Block.toolCall]

theorem ids_extractToolCalls (draws : Nat → Draw T) (raw : Screen) :
    (extractToolCalls draws raw).map ToolCall.id = (List.range (blocks raw).length).map fun i => "tc-" ++ (draws i).hex := by
  apply List.ext_getElem
  · simp [extractToolCalls]
  · intro i h _
    simp [extractToolCalls, Block.toolCall]

theorem nodup_ids_extractToolCalls {draws : Nat → Draw T} (raw : Screen)
    (h : Function.Injective fun i => (draws i).hex) : ((extractToolCalls draws raw).map ToolCall.id).Nodup := by
  rw [ids_extractToolCalls]
  apply List.nodup_range.map
  intro i j hij
  exact h (by simpa using hij)

theorem mem_ids_extractToolCalls {draws : Nat → Draw T} {raw : Screen} {id : String}
    (h : id ∈ (extractToolCalls draws raw).map ToolCall.id) : ∃ i, "tc-" ++ (draws i).hex = id := by
  rw [ids_extractToolCalls] at h
  obtain ⟨i, -, hid⟩ := List.mem_map.1 h
  exact ⟨i, hid⟩

namespace Sending

variable {s s' : Sending Arguments T} {r : Reply T}

structure Keeps (s s' : Sending Arguments T) : Prop where
  turn : s'.turn = s.turn
  captures : s'.captures = s.captures
  lastOutput : s'.lastOutput = s.lastOutput
  records : s'.records = s.records
  length : s'.controller.transcript.turns.length = s.controller.transcript.turns.length
  tracked : s'.controller.tracked = s.controller.tracked
  pc : ∀ screen, s'.pc ≠ .parsing screen

theorem keeps_timeOut : Keeps s (s.timeOut r) where
  turn := rfl
  captures := rfl
  lastOutput := rfl
  records := Controller.records_completeTurn "" r.now
  length := Controller.length_completeTurn "" r.now
  tracked := rfl
  pc := nofun

theorem keeps_handleCancel : Keeps s (s.handleCancel r) where
  turn := rfl
  captures := rfl
  lastOutput := rfl
  records := Controller.records_completeTurn "" r.now
  length := Controller.length_completeTurn "" r.now
  tracked := rfl
  pc := nofun

theorem keeps_complete (response : Screen) : Keeps s (s.complete r response) where
  turn := rfl
  captures := rfl
  lastOutput := rfl
  records := Controller.records_completeTurn _ r.now
  length := Controller.length_completeTurn _ r.now
  tracked := rfl
  pc := nofun

theorem keeps_pc {pc : Pc} (left : Nat) (hpc : ∀ screen, pc ≠ .parsing screen) : Keeps s { s with left, pc } :=
  ⟨rfl, rfl, rfl, rfl, rfl, rfl, hpc⟩

theorem Keeps.of_left {left : Nat} (h : Keeps { s with left } s') : Keeps s s' :=
  ⟨h.turn, h.captures, h.lastOutput, h.records, h.length, h.tracked, h.pc⟩

theorem Round.keeps (h : s.Round r s') : Keeps s s' := by
  cases h with
  | late left => exact keeps_timeOut.of_left
  | capturing left | pausing left | signalling left => exact keeps_pc left nofun

theorem keeps_enterLoop : Keeps s (s.enterLoop r) := by
  unfold enterLoop
  split
  · exact round_beginRound.keeps.of_left
  · exact keeps_pc s.left nofun

structure Recorded (s : Sending Arguments T) : Prop where
  turn_lt : s.turn < s.controller.transcript.turns.length
  last : s.lastOutput = lastText [] s.captures
  pending : ∀ screen, s.pc = .parsing screen → (changed s.captures).getLast? = some screen
  records : s.records = s.parsed.flatMap shown

theorem parsed_of_ne (h : ∀ screen, s.pc ≠ .parsing screen) : s.parsed = changed s.captures := by
  unfold parsed
  split
  next screen hpc => exact (h screen hpc).elim
  next => rfl

theorem Keeps.recorded (h : Keeps s s') (hs : s.Recorded) (hpc : ∀ screen, s.pc ≠ .parsing screen) : s'.Recorded where
  turn_lt := by
    rw [h.turn, h.length]
    exact hs.turn_lt
  last := by rw [h.lastOutput, h.captures, hs.last]
  pending screen hscreen := (h.pc screen hscreen).elim
  records := by rw [h.records, hs.records, parsed_of_ne h.pc, parsed_of_ne hpc, h.captures]

theorem recorded_capture (h : s.Recorded) (hpc : ∀ screen, s.pc ≠ .parsing screen) : (s.capture r).Recorded := by
  have hrecords := h.records
  rw [parsed_of_ne hpc] at hrecords
  have hchanged : changed (s.captures ++ [r.screen]) =
      changed s.captures ++ if r.screen.text = s.lastOutput then [] else [r.screen] := by
    rw [h.last]
    exact changedFrom_concat [] s.captures r.screen
  unfold capture
  dsimp only
  split
  next hsame =>
    rw [if_pos hsame, List.append_nil] at hchanged
    exact {
      turn_lt := h.turn_lt
      last := by simp [lastText, hsame]
      pending := nofun
      records := by
        rw [parsed_of_ne (by nofun)]
        exact hrecords.trans (by rw [hchanged]) }
  next hnew =>
    rw [if_neg hnew] at hchanged
    refine ⟨h.turn_lt, by simp [lastText], ?_, ?_⟩
    · rintro screen ⟨⟩
      simp [hchanged]
    · exact hrecords.trans (by simp only [parsed, hchanged, List.dropLast_concat])

section parse

variable {parser : OutputParser Arguments T} {screen : Screen}

theorem turn_parse : (s.parse parser r screen).turn = s.turn := rfl

theorem captures_parse : (s.parse parser r screen).captures = s.captures := rfl

theorem lastOutput_parse : (s.parse parser r screen).lastOutput = s.lastOutput := rfl

theorem pc_parse (screen' : Screen) : (s.parse parser r screen).pc ≠ .parsing screen' := nofun

end parse

theorem controller_parse (screen : Screen) : (s.parse claudeCode r screen).controller =
    (extractToolCalls r.draws (truncateInput screen)).foldl (fun c toolCall => c.addToolCall s.turn toolCall)
      (s.controller.transition (detectState screen)) := by
  simp only [parse, claudeCode]

theorem recorded_parse (h : s.Recorded) {screen : Screen} (hpc : s.pc = .parsing screen)
    (hinj : Function.Injective fun i => (r.draws i).hex) (hnew : ∀ i, "tc-" ++ (r.draws i).hex ∉ s.controller.tracked) :
    (s.parse claudeCode r screen).Recorded := by
  have hcontroller := controller_parse (s := s) (r := r) screen
  have hlast := h.pending screen hpc
  have hrecords : s.records = (changed s.captures).dropLast.flatMap shown := by
    rw [h.records, parsed, hpc]
  have hids : ∀ toolCall ∈ extractToolCalls r.draws (truncateInput screen), toolCall.id ∉ s.controller.tracked := by
    intro toolCall hmem
    obtain ⟨i, hi⟩ := mem_ids_extractToolCalls (List.mem_map_of_mem hmem)
    rw [← hi]
    exact hnew i
  have hadded := Controller.records_addToolCalls (c := s.controller.transition (detectState screen)) h.turn_lt
    (extractToolCalls r.draws (truncateInput screen)) (nodup_ids_extractToolCalls _ hinj) hids
  rw [blocks_extractToolCalls, ← hcontroller] at hadded
  exact {
    turn_lt := by
      rw [hcontroller, turn_parse, Controller.length_addToolCalls]
      exact h.turn_lt
    last := by rw [lastOutput_parse, captures_parse, h.last]
    pending := fun screen' hpc => (pc_parse screen' hpc).elim
    records := by
      have hall : (changed s.captures).dropLast ++ [screen] = changed s.captures := List.dropLast_append_getLast? screen hlast
      rw [parsed_of_ne pc_parse]
      rw [captures_parse, ← hall, List.flatMap_append, ← hrecords, List.flatMap_singleton, shown]
      rw [Controller.records_transition] at hadded
      rw [Sending.records, turn_parse, hadded]
      rfl }

theorem recorded_requests (h : s.Recorded) (rs : List Request) :
    ({ s with controller := s.controller.requests rs } : Sending Arguments T).Recorded where
  turn_lt := by simpa using h.turn_lt
  last := h.last
  pending := h.pending
  records := by
    have hparsed : ({ s with controller := s.controller.requests rs } : Sending Arguments T).parsed = s.parsed := rfl
    rw [hparsed, ← h.records]
    simp only [Sending.records, Controller.records, Controller.transcript_requests]

theorem controller_capture : (s.capture r).controller = s.controller := by
  unfold capture
  dsimp only
  split <;> rfl

theorem proceed_cases (pc : Pc) (hpc : s.pc = pc) :
    (Keeps s (s.proceed claudeCode r pc) ∧ ∀ screen, s.pc ≠ .parsing screen) ∨
    (s.proceed claudeCode r pc = s.capture r ∧ ∀ screen, s.pc ≠ .parsing screen) ∨
    ∃ screen, s.pc = .parsing screen ∧ s.proceed claudeCode r pc = s.parse claudeCode r screen := by
  subst hpc
  cases hpc : s.pc with
  | parsing screen => exact .inr (.inr ⟨screen, rfl, rfl⟩)
  | capturing => exact .inr (.inl ⟨rfl, by rintro screen ⟨⟩⟩)
  | injecting => exact .inl ⟨keeps_enterLoop, by rintro screen ⟨⟩⟩
  | pausing =>
    refine .inl ⟨?_, by rintro screen ⟨⟩⟩
    rw [proceed]
    split
    · exact keeps_pc s.left (by simp [hpc])
    · exact round_checkTimeout.keeps
  | notifying response =>
    refine .inl ⟨?_, by rintro screen ⟨⟩⟩
    cases response with
    | none => exact keeps_pc s.left (by rintro screen ⟨⟩)
    | some response => exact keeps_complete response
  | sleeping => exact .inl ⟨round_beginRound.keeps, by rintro screen ⟨⟩⟩
  | signalling => exact .inl ⟨keeps_handleCancel, by rintro screen ⟨⟩⟩
  | closing outcome | ended outcome => exact .inl ⟨keeps_pc s.left (by rintro screen ⟨⟩), by rintro screen ⟨⟩⟩

theorem recorded_proceed (h : s.Recorded) (hinj : Function.Injective fun i => (r.draws i).hex)
    (hnew : ∀ i, "tc-" ++ (r.draws i).hex ∉ s.controller.tracked) (pc : Pc) (hpc : s.pc = pc) :
    (s.proceed claudeCode r pc).Recorded := by
  obtain ⟨hkeeps, hne⟩ | ⟨hcapture, hne⟩ | ⟨screen, hparsing, hparse⟩ := proceed_cases (r := r) pc hpc
  · exact hkeeps.recorded h hne
  · rw [hcapture]
    exact recorded_capture h hne
  · rw [hparse]
    exact recorded_parse h hparsing hinj hnew

def Sound (s : Sending Arguments T) : Prop := s.pc = .ended .raised ∨ s.Recorded

theorem sound_step (h : s.Sound) (hinj : Function.Injective fun i => (r.draws i).hex)
    (hnew : ∀ i, "tc-" ++ (r.draws i).hex ∉ s.controller.tracked) : (s.step claudeCode r).Sound := by
  by_cases hraised : s.pc = .ended .raised
  · apply Or.inl
    simp only [step, hraised]
  · have hs := recorded_requests (h.resolve_left hraised) r.meanwhile
    have hafter : ∀ i, "tc-" ++ (r.draws i).hex ∉ (s.controller.requests r.meanwhile).tracked := by
      rwa [Controller.tracked_requests]
    unfold step
    dsimp only
    split
    · exact h
    next outcome hpc =>
      have hkeeps : Keeps { s with controller := s.controller.requests r.meanwhile }
          { s with controller := s.controller.requests r.meanwhile, pc := .ended outcome } :=
        keeps_pc s.left (by rintro screen ⟨⟩)
      exact .inr (hkeeps.recorded hs (by simp [hpc]))
    · split
      · exact .inl rfl
      · exact .inr (recorded_proceed hs hinj hafter s.pc rfl)

theorem tracked_proceed (pc : Pc) (hpc : s.pc = pc) : ∀ id ∈ (s.proceed claudeCode r pc).controller.tracked,
    id ∈ s.controller.tracked ∨ ∃ i, "tc-" ++ (r.draws i).hex = id := by
  intro id hid
  obtain ⟨hkeeps, -⟩ | ⟨hcapture, -⟩ | ⟨screen, -, hparse⟩ := proceed_cases (r := r) pc hpc
  · rw [hkeeps.tracked] at hid
    exact .inl hid
  · rw [hcapture, controller_capture] at hid
    exact .inl hid
  · rw [hparse, controller_parse] at hid
    obtain hknown | hdrawn := Controller.mem_tracked_addToolCalls _ hid
    · exact .inl hknown
    · exact .inr (mem_ids_extractToolCalls hdrawn)

theorem tracked_step : ∀ id ∈ (s.step claudeCode r).controller.tracked,
    id ∈ s.controller.tracked ∨ ∃ i, "tc-" ++ (r.draws i).hex = id := by
  intro id hid
  unfold step at hid
  dsimp only at hid
  split at hid
  · exact .inl hid
  · exact .inl (by simpa using hid)
  · split at hid
    · exact .inl (by simpa using hid)
    · simpa using tracked_proceed (s := { s with controller := s.controller.requests r.meanwhile }) s.pc rfl id hid

theorem sound_run {replies : List (Reply T)} (h : s.Sound) (hfresh : Fresh s.controller.tracked replies) :
    (run (step claudeCode) s replies).Sound := by
  induction replies generalizing s with
  | nil => exact h
  | cons r replies ih =>
    obtain ⟨hinj, hinjs⟩ := List.forall_mem_cons.1 hfresh.injective
    obtain ⟨hapart, haparts⟩ := List.pairwise_cons.1 hfresh.apart
    obtain ⟨hnew, hnews⟩ := List.forall_mem_cons.1 hfresh.unknown
    refine ih (sound_step h hinj hnew) ⟨hinjs, haparts, fun r' hr' i hid => ?_⟩
    obtain hknown | ⟨j, hdrawn⟩ := tracked_step _ hid
    · exact hnews r' hr' i hknown
    · exact hapart r' hr' j i (by simpa using hdrawn)

theorem recorded_start (c : Controller Arguments T) (p : Prompt Arguments T) : (start c p).Recorded := by
  obtain ⟨turn, hturn, -, hcalls⟩ := getElem?_start c p
  exact {
    turn_lt := (List.getElem?_eq_some_iff.1 hturn).1
    last := rfl
    pending := nofun
    records := by
      rw [Sending.records, Controller.records, hturn, Option.elim_some, hcalls]
      rfl }

/-- A prompt that has returned, and was not cancelled, has recorded each block of the final screen once, just when the
captures that it has parsed show each of them once. -/
theorem recordsOnce_iff (c : Controller Arguments T) (p : Prompt Arguments T) (replies : List (Reply T))
    (hfresh : Fresh (start c p).controller.tracked replies)
    (hend : (run (step claudeCode) (start c p) replies).pc = .ended (.returned false)) :
    (run (step claudeCode) (start c p) replies).RecordsOnce ↔
      ShownOnce (run (step claudeCode) (start c p) replies).captures := by
  have hsound : Sound _ := sound_run (.inr (recorded_start c p)) hfresh
  have hrecorded := hsound.resolve_left (by simp [hend])
  rw [RecordsOnce, hrecorded.records, parsed_of_ne (by simp [hend])]
  rfl

end Sending

theorem shownOnce_iff_of_short {captures : List Screen} {final : Screen} (hlast : captures.getLast? = some final)
    (hchanged : (changed captures).getLast? = some final) (hshort : final.length ≤ maxParseInputSize) :
    ShownOnce captures ↔ ∀ screen ∈ (changed captures).dropLast, shown screen = [] := by
  have hall : (changed captures).dropLast ++ [final] = changed captures := List.dropLast_append_getLast? final hchanged
  have hfinal : shown final = blocks final := by
    rw [shown, truncateInput, Nat.sub_eq_zero_of_le hshort, List.drop_zero]
  rw [ShownOnce, hlast, Option.getD_some, ← hall, List.flatMap_append, List.flatMap_singleton, hfinal,
    List.dropLast_concat, ← List.flatMap_eq_nil_iff]
  constructor
  · intro hperm
    have hlength := hperm.length_eq
    rw [List.length_append] at hlength
    exact List.length_eq_zero_iff.1 (by omega)
  · intro hnil
    rw [hnil, List.nil_append]

def repliesOf (screens : List Screen) : List (Reply Nat) :=
  screens.mapIdx fun n screen => { now := n, screen, draws := fun i => ⟨toString (i * screens.length + n), n⟩ }

theorem fresh_repliesOf (screens : List Screen) : Fresh [] (repliesOf screens) where
  injective := by
    intro r hr i j hij
    obtain ⟨n, hn, rfl⟩ := List.mem_mapIdx.1 hr
    have hsame : i * screens.length + n = j * screens.length + n := Text.toString_injective hij
    exact Nat.eq_of_mul_eq_mul_right (Nat.zero_lt_of_lt hn) (by omega)
  apart := by
    rw [List.pairwise_iff_getElem]
    intro n m hn hm hlt i j hij
    simp only [repliesOf, List.getElem_mapIdx, List.length_mapIdx] at hn hm hij
    have hsame : i * screens.length + n = j * screens.length + m := Text.toString_injective hij
    have hmod := congrArg (· % screens.length) hsame
    simp only [Nat.mul_add_mod_self_right, Nat.mod_eq_of_lt hn, Nat.mod_eq_of_lt hm] at hmod
    exact hlt.ne hmod
  unknown := fun _ _ _ => List.not_mem_nil

def screenOf (text : String) : Screen := text.toList.map (⟨·, true⟩)

def listing : Prompt Arguments Nat :=
  { text := "list", metadata := [], promptAt := 0, startedAt := 0, rounds := some 100 }

def atOnce : List Screen := [[], screenOf "<invoke name=\x22Bash\x22></invoke>\ndone\n>", [], [], []]

theorem recordsOnce_iff_atOnce : (run (Sending.step claudeCode) (.start {} listing) (repliesOf atOnce)).RecordsOnce ↔
    ShownOnce (run (Sending.step claudeCode) (.start {} listing) (repliesOf atOnce)).captures :=
  Sending.recordsOnce_iff {} listing (repliesOf atOnce) (fresh_repliesOf atOnce) (by decide +kernel)

def onTheWay : List Screen :=
  [[], screenOf "<invoke name=\x22Bash\x22></invoke>", [], [], [],
    screenOf "<invoke name=\x22Bash\x22></invoke>\ndone\n>", [], [], []]

/-- A block that is on the screen twice is recorded twice. -/
theorem onTheWay_not_recordsOnce : Fresh [] (repliesOf onTheWay) ∧
    (run (Sending.step claudeCode) (.start {} listing) (repliesOf onTheWay)).pc = .ended (.returned false) ∧
    ¬(run (Sending.step claudeCode) (.start {} listing) (repliesOf onTheWay)).RecordsOnce :=
  ⟨fresh_repliesOf onTheWay, by decide +kernel, by decide +kernel⟩

end Control

end Quinn.Pyterm
