import Mathlib.Data.List.Flatten
import Quinn.Pyterm.Recording

/-! The capture that a prompt is answered by. -/

namespace Quinn.Pyterm.Control

open Machine

variable {T : Type}

section blank

variable {α : Type} {p : α → Bool} {l t : List α}

theorem filter_dropWhile_not (p : α → Bool) (l : List α) : (l.dropWhile p).filter (!p ·) = l.filter (!p ·) := by
  induction l with
  | nil => rfl
  | cons a l ih => cases h : p a <;> simp [h, ih]

theorem filter_rdropWhile_not (p : α → Bool) (l : List α) : (l.rdropWhile p).filter (!p ·) = l.filter (!p ·) := by
  rw [List.rdropWhile, List.filter_reverse, filter_dropWhile_not, List.filter_reverse, List.reverse_reverse]

theorem rdropWhile_append_of_forall (ht : ∀ a ∈ t, p a = true) : (l ++ t).rdropWhile p = l.rdropWhile p := by
  rw [List.rdropWhile, List.reverse_append, List.dropWhile_append_of_pos (by simpa using ht), List.rdropWhile]

end blank

def Screen.ink (screen : Screen) : Screen := screen.filter (!·.isSpace)

namespace Screen

variable (s t : Screen)

theorem ink_append : ink (s ++ t) = ink s ++ ink t := List.filter_append s t

theorem mem_ink {cell : Cell} : cell ∈ s.ink ↔ cell ∈ s ∧ cell.isSpace = false := by
  simp [ink]

theorem ink_strip : s.strip.ink = s.ink := by
  rw [ink, strip, filter_rdropWhile_not, filter_dropWhile_not, ink]

theorem ink_eq_nil {s : Screen} (h : ∀ cell ∈ s, cell.isSpace = true) : s.ink = [] := by
  simpa [ink] using h

theorem strip_eq_nil {s : Screen} (h : s.strip.ink = []) : s.strip = [] := by
  by_contra hne
  have hlast : ¬(s.strip.getLast hne).isSpace = true := List.rdropWhile_last_not _ _ hne
  have hmem : s.strip.getLast hne ∈ s.strip.ink := (mem_ink _).2 ⟨List.getLast_mem hne, by simpa using hlast⟩
  rw [h] at hmem
  cases hmem

theorem strip_eq_singleton_iff {s : Screen} {cell : Cell} (hcell : cell.isSpace = false) :
    s.strip = [cell] ↔ ∃ before after, s = before ++ cell :: after ∧
      (∀ b ∈ before, b.isSpace = true) ∧ ∀ a ∈ after, a.isSpace = true := by
  constructor
  · intro h
    have hfront : s.takeWhile Cell.isSpace ++ s.dropWhile Cell.isSpace = s := List.takeWhile_append_dropWhile
    have hback := List.rdropWhile_append_rtakeWhile (p := Cell.isSpace) (l := s.dropWhile Cell.isSpace)
    rw [show List.rdropWhile Cell.isSpace (s.dropWhile Cell.isSpace) = [cell] from h] at hback
    refine ⟨s.takeWhile Cell.isSpace, List.rtakeWhile Cell.isSpace (s.dropWhile Cell.isSpace), ?_, ?_, ?_⟩
    · rw [← List.singleton_append, hback, hfront]
    · exact fun b => List.mem_takeWhile_imp
    · exact fun a => List.mem_rtakeWhile_imp
  · rintro ⟨before, after, rfl, hbefore, hafter⟩
    rw [strip, List.dropWhile_append_of_pos hbefore, List.dropWhile_cons_of_neg (by simp [hcell]), ← List.singleton_append,
      rdropWhile_append_of_forall hafter, List.rdropWhile_singleton, if_neg (by simp [hcell])]

end Screen

structure ReadyAt (before marker : Screen) : Prop where
  line : ∀ cell ∈ before.getLast?, cell.char = '\n'
  marker : marker.strip.text = ['>']

theorem exists_cell_of_marker {marker : Screen} (h : marker.strip.text = ['>']) :
    ∃ cell, marker.strip = [cell] ∧ cell.char = '>' ∧ cell.isSpace = false := by
  obtain ⟨cell, hcell, hchar⟩ : ∃ cell, marker.strip = [cell] ∧ cell.char = '>' := by
    unfold Screen.text at h
    cases hstrip : marker.strip with
    | nil => simp [hstrip] at h
    | cons cell rest =>
      rw [hstrip] at h
      cases rest with
      | nil => exact ⟨cell, rfl, by simpa using h⟩
      | cons other rest => simp at h
  exact ⟨cell, hcell, hchar, by rw [Cell.isSpace, hchar]; rfl⟩

theorem forall_isSpace_lastLine {before lead : Screen} {cell : Cell} (hbefore : ∀ b ∈ before.getLast?, b.char = '\n')
    (hlead : ∀ b ∈ lead, b.isSpace = true) (hcell : cell.char = '>') :
    ∃ blank : Screen, List.rtakeWhile (·.char ≠ '\n') (before ++ lead ++ [cell]) = blank ++ [cell] ∧
      ∀ b ∈ blank, b.isSpace = true := by
  have hkept : decide (cell.char ≠ '\n') = true := by
    rw [hcell]
    rfl
  refine ⟨List.rtakeWhile (·.char ≠ '\n') (before ++ lead), List.rtakeWhile_concat_pos _ _ _ hkept, ?_⟩
  induction lead using List.reverseRecOn with
  | nil =>
    intro b hb
    rw [List.append_nil] at hb
    cases before using List.reverseRecOn with
    | nil => cases hb
    | append_singleton before last =>
      have hlast : last.char = '\n' := hbefore last (by simp)
      rw [List.rtakeWhile_concat_neg _ _ _ (by simp [hlast])] at hb
      cases hb
  | append_singleton lead last ih =>
    have hlast : last.isSpace = true := hlead last (by simp)
    intro b hb
    rw [← List.append_assoc] at hb
    by_cases hline : last.char = '\n'
    · rw [List.rtakeWhile_concat_neg _ _ _ (by simp [hline])] at hb
      cases hb
    · rw [List.rtakeWhile_concat_pos _ _ _ (by simp [hline]), List.mem_append, List.mem_singleton] at hb
      obtain hb | rfl := hb
      · exact ih (fun b hb => hlead b (List.mem_append_left _ hb)) b hb
      · exact hlast

theorem detectPromptReady_iff {screen : Screen} :
    detectPromptReady screen = true ↔ ∃ before marker, screen = before ++ marker ∧ ReadyAt before marker := by
  unfold detectPromptReady
  rw [decide_eq_true_eq]
  constructor
  · intro h
    refine ⟨List.rdropWhile (·.char ≠ '\n') (List.rdropWhile Cell.isSpace screen),
      List.rtakeWhile (·.char ≠ '\n') (List.rdropWhile Cell.isSpace screen) ++ List.rtakeWhile Cell.isSpace screen, ?_, ?_⟩
    · rw [← List.append_assoc, List.rdropWhile_append_rtakeWhile, List.rdropWhile_append_rtakeWhile]
    · obtain ⟨cell, hstrip, hchar, hcell⟩ := exists_cell_of_marker h
      obtain ⟨lead, after, hline, hlead, hafter⟩ := (Screen.strip_eq_singleton_iff hcell).1 hstrip
      constructor
      · intro b hb
        have hne : List.rdropWhile (·.char ≠ '\n') (List.rdropWhile Cell.isSpace screen) ≠ [] := by
          intro hnil
          rw [hnil] at hb
          cases hb
        have hlast := List.rdropWhile_last_not _ _ hne
        rw [List.getLast?_eq_some_getLast hne] at hb
        cases hb
        simpa using hlast
      · have hmarker : Screen.strip (List.rtakeWhile (·.char ≠ '\n') (List.rdropWhile Cell.isSpace screen) ++
            List.rtakeWhile Cell.isSpace screen) = [cell] := by
          refine (Screen.strip_eq_singleton_iff hcell).2 ⟨lead, after ++ List.rtakeWhile Cell.isSpace screen, ?_, hlead, ?_⟩
          · rw [hline, List.append_assoc, List.cons_append]
          · intro a ha
            obtain ha | ha := List.mem_append.1 ha
            · exact hafter a ha
            · exact List.mem_rtakeWhile_imp ha
        rw [hmarker, Screen.text, List.map_singleton, hchar]
  · rintro ⟨before, marker, rfl, hline, hmarker⟩
    obtain ⟨cell, hstrip, hchar, hcell⟩ := exists_cell_of_marker hmarker
    obtain ⟨lead, after, rfl, hlead, hafter⟩ := (Screen.strip_eq_singleton_iff hcell).1 hstrip
    have hrstrip : List.rdropWhile Cell.isSpace (before ++ (lead ++ cell :: after)) = before ++ lead ++ [cell] := by
      rw [← List.append_assoc, ← List.singleton_append, ← List.append_assoc, rdropWhile_append_of_forall hafter,
        List.rdropWhile_concat_neg _ _ _ (by simp [hcell])]
    obtain ⟨blank, hlast, hblank⟩ := forall_isSpace_lastLine hline hlead hchar
    rw [hrstrip, hlast, (Screen.strip_eq_singleton_iff hcell).2 ⟨blank, [], rfl, hblank, nofun⟩, Screen.text,
      List.map_singleton, hchar]

theorem flatten_lines (screen : Screen) : (lines screen).flatten = screen := by
  induction screen with
  | nil => rfl
  | cons cell rest ih =>
    rw [lines]
    split
    · rw [List.flatten_cons, ih]
      rfl
    · split
      next hrest =>
        rw [hrest] at ih
        rw [← ih]
        rfl
      next line more hrest =>
        rw [hrest] at ih
        rw [← ih]
        rfl

theorem ink_flatten_filter (ls : List Screen) :
    Screen.ink (ls.filter (¬·.all Cell.isSpace)).flatten = Screen.ink ls.flatten := by
  induction ls with
  | nil => rfl
  | cons line ls ih =>
    rw [List.flatten_cons, Screen.ink_append, List.filter_cons]
    split
    · rw [List.flatten_cons, Screen.ink_append, ih]
    next hblank =>
      have hline : Screen.ink line = [] := Screen.ink_eq_nil (by simpa using hblank)
      rw [hline, List.nil_append, ih]

theorem ink_extractAssistantResponse (raw : Screen) : (extractAssistantResponse raw).ink = (withoutBlocks raw).ink := by
  rw [extractAssistantResponse, Screen.ink_strip, ink_flatten_filter, flatten_lines]

theorem remove_sublist (m : Bool → Screen → Option Nat) (start : Bool) (skip : Nat) (screen : Screen) :
    (remove m start skip screen).Sublist screen := by
  induction screen generalizing start skip with
  | nil => cases skip <;> exact .slnil
  | cons cell rest ih =>
    cases skip with
    | succ skip => exact (ih _ skip).cons cell
    | zero =>
      rw [remove]
      split
      · exact (ih _ _).cons cell
      · exact (ih _ 0).cons_cons cell

theorem strip_sublist (screen : Screen) : screen.strip.Sublist screen :=
  (List.rdropWhile_prefix _ _).sublist.trans (List.dropWhile_suffix _).sublist

theorem extractAssistantResponse_sublist (raw : Screen) : (extractAssistantResponse raw).Sublist raw := by
  have hlines : ((lines (withoutBlocks raw)).filter (¬·.all Cell.isSpace)).flatten.Sublist
      (lines (withoutBlocks raw)).flatten := List.filter_sublist.flatten
  rw [flatten_lines] at hlines
  have hblocks : (withoutBlocks raw).Sublist raw :=
    (remove_sublist _ _ _ _).trans ((remove_sublist _ _ _ _).trans (remove_sublist _ _ _ _))
  exact (strip_sublist _).trans (hlines.trans hblocks)

def NewThenReady (screen : Screen) : Prop := ∃ before marker, screen = before ++ marker ∧ ReadyAt before marker ∧
  ∃ cell ∈ before, cell.isSpace = false ∧ cell.isNew = true

def AllNew (screen : Screen) : Prop := ∀ cell ∈ screen, cell.isSpace = false → cell.isNew = true

/-- The agent looks idle on it, and text is left of it without blocks and prompts. -/
structure LooksDone (screen : Screen) : Prop where
  idle : detectState screen = .idle
  text : (withoutBlocks (truncateInput screen)).ink ≠ []

inductive Misleading (screen : Screen) : Prop
  /-- a short text without a sign of work, on which the marker has yet to come -/
  | unmarked (done : LooksDone screen) (marker : detectPromptReady screen = false)
  /-- the marker of the prompt before, with nothing new above it -/
  | unanswered (done : LooksDone screen) (above : ∀ cell ∈ screen.ink.dropLast, cell.isNew = false)
  /-- text that was there before, and is no block and no prompt -/
  | old (done : LooksDone screen) (cell : Cell) (mem : cell ∈ (withoutBlocks (truncateInput screen)).ink)
    (isOld : cell.isNew = false)

theorem Misleading.done {screen : Screen} (h : Misleading screen) : LooksDone screen := by
  cases h <;> assumption

theorem newThenReady_iff {screen : Screen} : NewThenReady screen ↔
    detectPromptReady screen = true ∧ ∃ cell ∈ screen.ink.dropLast, cell.isNew = true := by
  have hink {before marker : Screen} (h : ReadyAt before marker) : (Screen.ink (before ++ marker)).dropLast = before.ink := by
    obtain ⟨cell, hstrip, -, hcell⟩ := exists_cell_of_marker h.marker
    have hmarker : marker.ink = [cell] := by
      rw [← Screen.ink_strip, hstrip]
      simp [Screen.ink, hcell]
    rw [Screen.ink_append, hmarker, List.dropLast_concat]
  rw [detectPromptReady_iff]
  constructor
  · rintro ⟨before, marker, rfl, hready, cell, hcell, hspace, hnew⟩
    refine ⟨⟨before, marker, rfl, hready⟩, cell, ?_, hnew⟩
    rw [hink hready, Screen.mem_ink]
    exact ⟨hcell, hspace⟩
  · rintro ⟨⟨before, marker, rfl, hready⟩, cell, hcell, hnew⟩
    rw [hink hready, Screen.mem_ink] at hcell
    exact ⟨before, marker, rfl, hready, cell, hcell.1, hcell.2, hnew⟩

theorem allNew_iff_ink {screen : Screen} : AllNew screen ↔ ∀ cell ∈ screen.ink, cell.isNew = true := by
  simp only [AllNew, Screen.mem_ink, and_imp]

theorem allNew_response_iff {raw : Screen} : AllNew (extractAssistantResponse raw) ↔ AllNew (withoutBlocks raw) := by
  rw [allNew_iff_ink, ink_extractAssistantResponse, ← allNew_iff_ink]

namespace Sending

variable {s : Sending Arguments T} {r : Reply T}

def AnswerOf (captures : List Screen) (response : Screen) : Prop :=
  ∃ screen, captures.getLast? = some screen ∧ response = extractAssistantResponse (truncateInput screen)

def HasResponse (s : Sending Arguments T) (response : Screen) : Prop :=
  ∃ turn, s.controller.transcript.turns[s.turn]? = some turn ∧
    turn.response.map (·.content) = some (String.ofList response.text)

def AnsweredAt (s : Sending Arguments T) : Pc → Prop
  | .parsing screen => s.captures.getLast? = some screen
  | .notifying (some response) => AnswerOf s.captures response
  | .closing (.returned false) | .ended (.returned false) => ∃ response, AnswerOf s.captures response ∧ s.HasResponse response
  | _ => True

def Answered (s : Sending Arguments T) : Prop := s.AnsweredAt s.pc

theorem Round.answered {s' : Sending Arguments T} (h : s.Round r s') : s'.Answered := by
  cases h <;> trivial

theorem answered_enterLoop : (s.enterLoop r).Answered := by
  unfold enterLoop
  split
  · exact round_beginRound.answered
  · trivial

theorem answered_capture : (s.capture r).Answered := by
  unfold capture
  dsimp only
  split
  · trivial
  · exact List.getLast?_concat

theorem eq_of_responseOf {detected : Option AgentState} {toolCalls : List (ToolCall Arguments T)} {text response : Screen}
    (h : responseOf detected ⟨toolCalls, text⟩ = some response) : response = text := by
  unfold responseOf at h
  split at h
  · exact (Option.some_inj.1 h).symm
  · cases h

theorem pc_parse_claudeCode (screen : Screen) : (s.parse claudeCode r screen).pc = .notifying
    (responseOf (some (detectState screen))
      ⟨extractToolCalls r.draws (truncateInput screen), extractAssistantResponse (truncateInput screen)⟩) := by
  simp only [parse, claudeCode]

theorem answered_parse {screen : Screen} (h : s.captures.getLast? = some screen) :
    (s.parse claudeCode r screen).Answered := by
  have hlast : (s.parse claudeCode r screen).captures.getLast? = some screen := by rw [captures_parse, h]
  rw [Answered, pc_parse_claudeCode]
  generalize hresponse : responseOf _ _ = response
  cases response with
  | none => trivial
  | some response => exact ⟨screen, hlast, eq_of_responseOf hresponse⟩

theorem hasResponse_complete (h : s.controller.OpenAt s.turn) (response : Screen) :
    (s.complete r response).HasResponse response := by
  obtain ⟨turn, hturn, hopen⟩ := h
  let message : Message Arguments T := .assistant (String.ofList response.text) r.now
  refine ⟨{ turn with response := some message, completedAt := some r.now }, ?_, rfl⟩
  simp [complete, Controller.completeTurn, Transcript.modify, hturn, Turn.complete_of_open hopen, message]

theorem answered_ended {outcome : Outcome} (h : s.AnsweredAt (.closing outcome)) :
    ({ s with pc := .ended outcome } : Sending Arguments T).Answered := by
  cases outcome with
  | returned wasCancelled =>
    cases wasCancelled with
    | false => exact h
    | true => trivial
  | timedOut | raised => trivial

theorem answered_proceed {pc : Pc} (h : s.AnsweredAt pc) (hopen : s.Holds pc) (hpc : s.pc = pc) :
    (s.proceed claudeCode r pc).Answered := by
  cases pc with
  | injecting => exact answered_enterLoop
  | pausing =>
    rw [proceed]
    split
    · rw [Answered, hpc]
      trivial
    · exact round_checkTimeout.answered
  | capturing => exact answered_capture
  | parsing screen => exact answered_parse h
  | notifying response =>
    cases response with
    | none => trivial
    | some response => exact ⟨response, h, hasResponse_complete hopen.1 response⟩
  | sleeping => exact round_beginRound.answered
  | signalling => trivial
  | closing outcome => exact answered_ended h
  | ended outcome =>
    rw [proceed, Answered]
    exact h

theorem Answered.requests (h : s.Answered) (rs : List Request) :
    ({ s with controller := s.controller.requests rs } : Sending Arguments T).AnsweredAt s.pc := by
  have hresponse (response : Screen) (hs : s.HasResponse response) :
      ({ s with controller := s.controller.requests rs } : Sending Arguments T).HasResponse response := by
    simpa [HasResponse] using hs
  unfold Answered at h
  cases hpc : s.pc with
  | closing outcome | ended outcome =>
    rw [hpc] at h
    cases outcome with
    | returned wasCancelled =>
      cases wasCancelled with
      | false =>
        obtain ⟨response, hanswer, hs⟩ := h
        exact ⟨response, hanswer, hresponse response hs⟩
      | true => trivial
    | timedOut | raised => trivial
  | notifying response =>
    rw [hpc] at h
    cases response with
    | none => trivial
    | some response => exact h
  | parsing screen =>
    rw [hpc] at h
    exact h
  | injecting | pausing | capturing | sleeping | signalling => trivial

theorem answered_step (h : s.Answered) (hopen : s.Invariant) : (s.step claudeCode r).Answered := by
  have hafter := h.requests r.meanwhile
  unfold step
  dsimp only
  split
  · exact h
  next outcome hpc =>
    rw [hpc] at hafter
    exact answered_ended hafter
  · split
    · trivial
    · exact answered_proceed hafter (hopen.requests r.meanwhile) rfl

theorem answered_run (c : Controller Arguments T) (p : Prompt Arguments T) (replies : List (Reply T)) :
    (run (step claudeCode) (start c p) replies).Answered := by
  have hboth : Throughout (step claudeCode) (fun s => s.Invariant ∧ s.Answered) (start c p) replies := by
    apply throughout_of_along
    · intro s r h _
      exact ⟨invariant_step h.1, answered_step h.2 h.1⟩
    · exact ⟨invariant_start c p, trivial⟩
    · exact along_true
  exact hboth.run.2

def EndsOn (captures : List Screen) (screen : Screen) : Prop :=
  captures.getLast? = some screen ∧ ∃ before, changed captures = before ++ [screen] ∧ ∀ s ∈ before, ¬LooksDone s

def PolledAt (s : Sending Arguments T) : Pc → Prop
  | .parsing screen => EndsOn s.captures screen
  | .notifying (some _) | .closing (.returned false) | .ended (.returned false) =>
    ∃ screen, EndsOn s.captures screen ∧ LooksDone screen
  | .closing _ | .ended _ => True
  | _ => ∀ screen ∈ changed s.captures, ¬LooksDone screen

structure Polled (s : Sending Arguments T) : Prop where
  last : s.lastOutput = lastText [] s.captures
  polled : s.PolledAt s.pc

section polling

variable {s s' : Sending Arguments T} {r : Reply T} {screen : Screen}

theorem Keeps.last (h : Keeps s s') (hs : s.lastOutput = lastText [] s.captures) :
    s'.lastOutput = lastText [] s'.captures := by
  rw [h.lastOutput, h.captures, hs]

theorem Round.polled (h : s.Round r s') (hs : s.lastOutput = lastText [] s.captures)
    (hnone : ∀ screen ∈ changed s.captures, ¬LooksDone screen) : s'.Polled := by
  refine ⟨h.keeps.last hs, ?_⟩
  cases h with
  | late left => trivial
  | capturing left | pausing left | signalling left => exact hnone

theorem polled_enterLoop (hs : s.lastOutput = lastText [] s.captures)
    (hnone : ∀ screen ∈ changed s.captures, ¬LooksDone screen) : (s.enterLoop r).Polled := by
  refine ⟨keeps_enterLoop.last hs, ?_⟩
  unfold enterLoop
  split
  next left _ => exact (round_beginRound.polled (s := { s with left }) hs hnone).polled
  · trivial

theorem polled_capture (hs : s.lastOutput = lastText [] s.captures)
    (hnone : ∀ screen ∈ changed s.captures, ¬LooksDone screen) : (s.capture r).Polled := by
  have hchanged : changed (s.captures ++ [r.screen]) =
      changed s.captures ++ if r.screen.text = s.lastOutput then [] else [r.screen] := by
    rw [hs]
    exact changedFrom_concat [] s.captures r.screen
  unfold capture
  dsimp only
  split
  next hsame =>
    rw [if_pos hsame, List.append_nil] at hchanged
    refine ⟨by simp [lastText, hsame], fun screen hscreen => hnone screen ?_⟩
    rwa [hchanged] at hscreen
  next hnew =>
    rw [if_neg hnew] at hchanged
    exact ⟨by simp [lastText], List.getLast?_concat, changed s.captures, hchanged, hnone⟩

theorem extractAssistantResponse_ne_nil {raw : Screen} :
    extractAssistantResponse raw ≠ [] ↔ (withoutBlocks raw).ink ≠ [] := by
  rw [← ink_extractAssistantResponse, not_iff_not]
  constructor
  · intro h
    rw [h]
    rfl
  · exact Screen.strip_eq_nil

theorem isSome_responseOf {detected : AgentState} {parsed : Parsed Arguments T} :
    (responseOf (some detected) parsed).isSome = true ↔ detected = .idle ∧ parsed.assistantResponse ≠ [] := by
  unfold responseOf
  split
  next h => exact iff_of_true rfl ⟨Option.some.inj h.1, h.2⟩
  next h => exact iff_of_false nofun fun hdone => h ⟨congrArg some hdone.1, hdone.2⟩

theorem looksDone_iff (screen : Screen) :
    LooksDone screen ↔ detectState screen = .idle ∧ extractAssistantResponse (truncateInput screen) ≠ [] := by
  rw [extractAssistantResponse_ne_nil]
  exact ⟨fun h => ⟨h.idle, h.text⟩, fun h => ⟨h.1, h.2⟩⟩

theorem polled_parse (hs : s.lastOutput = lastText [] s.captures) (h : EndsOn s.captures screen) :
    (s.parse claudeCode r screen).Polled := by
  refine ⟨by rw [lastOutput_parse, captures_parse, hs], ?_⟩
  unfold PolledAt
  rw [pc_parse_claudeCode, captures_parse]
  generalize hresponse : responseOf _ _ = response
  have hdone : response.isSome = true ↔ LooksDone screen := by rw [← hresponse, isSome_responseOf, looksDone_iff]
  cases response with
  | some response => exact ⟨screen, h, hdone.1 rfl⟩
  | none =>
    obtain ⟨-, before, hchanged, hbefore⟩ := h
    intro other hother
    rw [hchanged, List.mem_append, List.mem_singleton] at hother
    obtain hother | rfl := hother
    · exact hbefore other hother
    · exact fun hlooks => Bool.noConfusion (hdone.2 hlooks)

theorem polledAt_ended {outcome : Outcome} (h : s.PolledAt (.closing outcome)) : s.PolledAt (.ended outcome) := by
  cases outcome with
  | returned wasCancelled =>
    cases wasCancelled with
    | false => exact h
    | true => trivial
  | timedOut | raised => trivial

theorem polled_proceed {pc : Pc} (h : s.Polled) (hpc : s.pc = pc) : (s.proceed claudeCode r pc).Polled := by
  obtain ⟨hlast, hpolled⟩ := h
  rw [hpc] at hpolled
  cases pc with
  | injecting => exact polled_enterLoop hlast hpolled
  | pausing =>
    rw [proceed]
    split
    · exact ⟨hlast, hpc ▸ hpolled⟩
    · exact round_checkTimeout.polled hlast hpolled
  | capturing => exact polled_capture hlast hpolled
  | parsing screen => exact polled_parse hlast hpolled
  | notifying response =>
    cases response with
    | none => exact ⟨hlast, hpolled⟩
    | some response => exact ⟨hlast, hpolled⟩
  | sleeping => exact round_beginRound.polled hlast hpolled
  | signalling => exact ⟨hlast, trivial⟩
  | closing outcome => exact ⟨hlast, polledAt_ended hpolled⟩
  | ended outcome => exact ⟨hlast, hpolled⟩

theorem polled_step (h : s.Polled) : (s.step claudeCode r).Polled := by
  have hafter : ({ s with controller := s.controller.requests r.meanwhile } : Sending Arguments T).Polled :=
    ⟨h.last, h.polled⟩
  unfold step
  dsimp only
  split
  · exact h
  next outcome hpc =>
    have hpolled := hafter.polled
    rw [hpc] at hpolled
    exact ⟨h.last, polledAt_ended hpolled⟩
  · split
    · exact ⟨h.last, trivial⟩
    · exact polled_proceed hafter rfl

theorem polled_run (c : Controller Arguments T) (p : Prompt Arguments T) (replies : List (Reply T)) :
    (run (step claudeCode) (start c p) replies).Polled := by
  have hall : Throughout (step claudeCode) Polled (start c p) replies :=
    throughout_of_along (fun _ _ h _ => polled_step h) ⟨rfl, fun _ h => by cases h⟩ along_true
  exact hall.run

end polling

/-- New output is followed by the ready marker, and the response is the capture's, all of it new. -/
def AnsweredNewly (s : Sending Arguments T) : Prop :=
  NewThenReady s.finalScreen ∧ ∃ response, AnswerOf s.captures response ∧ s.HasResponse response ∧ AllNew response

end Sending

def oldScreenOf (text : String) : Screen := text.toList.map (⟨·, false⟩)

def redrawn : List Screen := [[], screenOf "hello\n>", [], [], []]

def stale : List Screen := [[], oldScreenOf "hello\n>", [], [], []]

end Quinn.Pyterm.Control
