import Mathlib.Data.List.DropRight
import Quinn.Machine.Run
import Quinn.Work.BaseWorker

/-! What is reported of a worker that has nothing to do. -/

namespace Quinn.Work.BaseWorker

open Machine

inductive Mark
  /-- a task is handled -/
  | handled
  /-- a tick finds no task, and then reads the clock a second time -/
  | polled (now : Nat)
  | idle (now : Nat)
  deriving DecidableEq

structure Sight where
  mark : Option Mark := none
  issued : List String := []

def State.mark (s : State) : Event → Option Mark
  | .stop => none
  | .step env =>
    match s.ended, s.todo with
    | none, .beginTask _ :: _ => some .handled
    | none, .beginIdle :: _ => some (.polled env.before)
    | none, .report :: _ => some (.idle env.before)
    | _, _ => none

def sight (s : State) (e : Event) : Sight where
  mark := s.mark e
  issued := (step s e).reports.drop s.reports.length

def Sight.IsHandled (e : Sight) : Prop := e.mark = some .handled

def Sight.Reports (e : Sight) : Prop := e.issued ≠ []

instance (e : Sight) : Decidable e.IsHandled := inferInstanceAs (Decidable (_ = _))

def Sight.polled? (e : Sight) : Option Nat :=
  match e.mark with
  | some (.polled now) => some now
  | _ => none

/-- What has been seen since the last task. -/
def period (t : List Sight) : List Sight := t.rtakeWhile fun e => ¬e.IsHandled

/-- When the first idle tick of the period began. -/
def idleSince (t : List Sight) : Option Nat := (period t).findSome? Sight.polled?

def Reaches (threshold : Nat) (t : List Sight) (now : Nat) : Prop :=
  ∃ since ∈ idleSince t, threshold ≤ now - since ∧
    ∀ e ∈ period t, ∀ then_, e.mark = some (.idle then_) → then_ - since < threshold

/-- One report in an idle period at most, and that at the first idle tick late enough. -/
structure ReportsOnce (threshold : Nat) (t : List Sight) : Prop where
  once : Alternates Sight.Reports Sight.IsHandled t
  single : ∀ e ∈ t, e.issued.length ≤ 1
  reports_iff : ∀ before e after, t = before ++ e :: after →
    (e.Reports ↔ ∃ now, e.mark = some (.idle now) ∧ Reaches threshold before now)

def Config.threshold (c : Config) : Nat := c.noWorkEscalationThresholdMinutes * 60000

/-- A tick that finds no task begins to idle before it may report. -/
def Paired : List Instr → Prop
  | [] => True
  | .beginIdle :: .report :: rest => Paired rest
  | .beginIdle :: _ => False
  | .report :: _ => False
  | _ :: rest => Paired rest

theorem paired_beginIdle {rest : List Instr} (h : Paired (.beginIdle :: rest)) :
    ∃ rest', rest = .report :: rest' ∧ Paired rest' := by
  cases rest with
  | nil => exact absurd h id
  | cons instr rest =>
    cases instr with
    | report => exact ⟨rest, rfl, h⟩
    | _ => exact absurd h id

/-- The rest of the run is so, or a tick is just about to report. -/
def Poised (s : State) : Prop :=
  Paired s.todo ∨ s.noWorkSince.isSome = true ∧ ∃ rest, s.todo = .report :: rest ∧ Paired rest

/-- Nothing of what idling is about has changed. -/
structure Quiet (s s' : State) : Prop where
  config : s'.config = s.config
  since : s'.noWorkSince = s.noWorkSince
  escalated : s'.noWorkEscalated = s.noWorkEscalated
  reports : s'.reports = s.reports

theorem quiet_transitionTo (s : State) (new : WorkerState) :
    Quiet s (s.transitionTo new) ∧ ((s.transitionTo new).todo = s.todo ∨ Paired (s.transitionTo new).todo) := by
  unfold State.transitionTo State.invalidTransition
  split
  · exact ⟨⟨rfl, rfl, rfl, rfl⟩, .inl rfl⟩
  · split
    · exact ⟨⟨rfl, rfl, rfl, rfl⟩, .inr trivial⟩
    · exact ⟨⟨rfl, rfl, rfl, rfl⟩, .inr trivial⟩

theorem quiet_stop (s : State) : Quiet s s.stop ∧ (s.stop.todo = s.todo ∨ Paired s.stop.todo) := by
  unfold State.stop
  dsimp only
  split
  · obtain ⟨hquiet, htodo⟩ := quiet_transitionTo { s with shouldStop := true } .offboarding
    exact ⟨⟨hquiet.config, hquiet.since, hquiet.escalated, hquiet.reports⟩, htodo⟩
  · exact ⟨⟨rfl, rfl, rfl, rfl⟩, .inl rfl⟩

theorem Quiet.poised {s s' : State} (h : Quiet s s') (htodo : s'.todo = s.todo ∨ Paired s'.todo)
    (hs : Poised s) : Poised s' := by
  obtain htodo | htodo := htodo
  · rw [Poised, htodo, h.since]
    exact hs
  · exact .inl htodo

inductive Moves (s s' : State) : Sight → Prop
  | quiet (h : Quiet s s') : Moves s s' ⟨none, []⟩
  | handled (hsince : s'.noWorkSince = none) (hescalated : s'.noWorkEscalated = false) :
      Moves s s' ⟨some .handled, []⟩
  | polled (now : Nat) (hsince : s'.noWorkSince = some (s.noWorkSince.getD now))
      (hescalated : s'.noWorkEscalated = s.noWorkEscalated) : Moves s s' ⟨some (.polled now), []⟩
  | reported (now since : Nat) (text : String) (hsince : s.noWorkSince = some since) (hsame : s'.noWorkSince = s.noWorkSince)
      (hnot : s.noWorkEscalated = false) (hlate : s.config.threshold ≤ now - since)
      (hescalated : s'.noWorkEscalated = true) : Moves s s' ⟨some (.idle now), [text]⟩
  | silent (now since : Nat) (hsince : s.noWorkSince = some since) (hsame : s'.noWorkSince = s.noWorkSince)
      (hwhy : s.noWorkEscalated = true ∨ now - since < s.config.threshold)
      (hescalated : s'.noWorkEscalated = s.noWorkEscalated) : Moves s s' ⟨some (.idle now), []⟩

theorem sight_eq {s : State} {e : Event} {mark : Option Mark} (hmark : s.mark e = mark) (issued : List String)
    (hreports : (step s e).reports = s.reports ++ issued) : sight s e = ⟨mark, issued⟩ := by
  rw [sight, hmark, hreports, List.drop_left]

theorem quiet_exec {s : State} {env : Env} {instr : Instr} {rest : List Instr} (hrest : Paired (instr :: rest))
    (hbegin : instr ≠ .beginIdle) (hhandle : ∀ task, instr ≠ .beginTask task) :
    Quiet s (s.exec env rest instr) ∧ Paired (s.exec env rest instr).todo := by
  cases instr with
  | beginIdle => exact absurd rfl hbegin
  | beginTask task => exact absurd rfl (hhandle task)
  | report => exact absurd hrest id
  | transitionTo new =>
    obtain ⟨hquiet, htodo⟩ := quiet_transitionTo { s with todo := rest } new
    refine ⟨⟨hquiet.config, hquiet.since, hquiet.escalated, hquiet.reports⟩, htodo.elim (fun h => ?_) id⟩
    exact h ▸ hrest
  | finishIdle =>
    unfold State.exec
    dsimp only
    split
    · obtain ⟨hquiet, htodo⟩ := quiet_stop { s with todo := rest }
      refine ⟨⟨hquiet.config, hquiet.since, hquiet.escalated, hquiet.reports⟩, htodo.elim (fun h => ?_) id⟩
      exact h ▸ hrest
    · exact ⟨⟨rfl, rfl, rfl, rfl⟩, hrest⟩
  | handleResult task result =>
    refine ⟨⟨rfl, rfl, rfl, rfl⟩, ?_⟩
    change Paired (State.handleResult task result ++ rest)
    unfold State.handleResult
    split
    · exact hrest
    · split
      · exact hrest
      · exact hrest
  | escalate task result =>
    refine ⟨⟨rfl, rfl, rfl, rfl⟩, ?_⟩
    change Paired (State.handleResponse task result env.response ++ rest)
    unfold State.handleResponse
    split
    · exact hrest
    · exact hrest
  | rescue =>
    unfold State.exec
    dsimp only
    split
    · exact ⟨⟨rfl, rfl, rfl, rfl⟩, trivial⟩
    · exact ⟨⟨rfl, rfl, rfl, rfl⟩, hrest⟩
  | testStop | testState | tick | leave | leaveElse =>
    unfold State.exec
    dsimp only
    split
    · exact ⟨⟨rfl, rfl, rfl, rfl⟩, hrest⟩
    · exact ⟨⟨rfl, rfl, rfl, rfl⟩, hrest⟩
  | push tasks =>
    cases tasks with
    | nil => exact ⟨⟨rfl, rfl, rfl, rfl⟩, hrest⟩
    | cons task tasks => exact ⟨⟨rfl, rfl, rfl, rfl⟩, hrest⟩
  | onboard | execute task | record task result | markDone id | markBlocked id reason =>
    exact ⟨⟨rfl, rfl, rfl, rfl⟩, hrest⟩

theorem Quiet.moves {s : State} {e : Event} (h : Quiet s (step s e)) (hmark : s.mark e = none) :
    Moves s (step s e) (sight s e) := by
  rw [sight_eq hmark [] (by rw [h.reports, List.append_nil])]
  exact .quiet h

theorem moves_exec {s : State} {env : Env} {instr : Instr} {rest : List Instr} (hs : Poised s)
    (hended : s.ended = none) (htodo : s.todo = instr :: rest) (hstep : step s (.step env) = s.exec env rest instr) :
    Poised (step s (.step env)) ∧ (step s (.step env)).config = s.config ∧
      Moves s (step s (.step env)) (sight s (.step env)) := by
  rw [Poised, htodo] at hs
  obtain hpaired | ⟨hsome, rest', heq, hrest⟩ := hs
  · by_cases hbegin : instr = .beginIdle
    · -- the clock is read, for the first time in the period or not
      subst hbegin
      have hmark : s.mark (.step env) = some (.polled env.before) := by simp only [State.mark, hended, htodo]
      rw [sight_eq hmark [] (by rw [hstep, List.append_nil]; rfl), hstep]
      exact ⟨.inr ⟨rfl, paired_beginIdle hpaired⟩, rfl, .polled env.before rfl rfl⟩
    by_cases hhandle : ∃ task, instr = .beginTask task
    · obtain ⟨task, rfl⟩ := hhandle
      have hmark : s.mark (.step env) = some .handled := by simp only [State.mark, hended, htodo]
      rw [sight_eq hmark [] (by rw [hstep, List.append_nil]; rfl), hstep]
      exact ⟨.inl hpaired, rfl, .handled rfl rfl⟩
    · obtain ⟨hquiet, hpaired'⟩ := @quiet_exec s env instr rest hpaired hbegin fun task h => hhandle ⟨task, h⟩
      have hmark : s.mark (.step env) = none := by
        simp only [State.mark, hended, htodo]
        cases instr with
        | beginIdle => exact absurd rfl hbegin
        | beginTask task => exact absurd ⟨task, rfl⟩ hhandle
        | report => exact absurd hpaired id
        | _ => rfl
      rw [← hstep] at hquiet hpaired'
      exact ⟨.inl hpaired', hquiet.config, hquiet.moves hmark⟩
  · -- the second half of an idle tick
    cases heq
    obtain ⟨since, hsince⟩ := Option.isSome_iff_exists.1 hsome
    have hmark : s.mark (.step env) = some (.idle env.before) := by simp only [State.mark, hended, htodo]
    unfold State.exec at hstep
    dsimp only at hstep
    rw [hsince, Option.getD_some] at hstep
    split at hstep
    · next hdue =>
      rw [Bool.and_eq_true] at hdue
      obtain ⟨hnot, hlate⟩ := hdue
      rw [sight_eq hmark [_] (by rw [hstep]), hstep]
      exact ⟨.inl hrest, rfl, .reported env.before since _ hsince hsince.symm (by simpa using hnot)
        (of_decide_eq_true hlate) rfl⟩
    · next hdue =>
      rw [sight_eq hmark [] (by rw [hstep, List.append_nil]), hstep]
      refine ⟨.inl hrest, rfl, .silent env.before since hsince hsince.symm ?_ rfl⟩
      rw [Bool.and_eq_true, not_and_or] at hdue
      refine hdue.imp (fun h => by simpa using h) fun h => ?_
      exact not_le.1 fun hle => h (decide_eq_true hle)

theorem moves {s : State} (hs : Poised s) (e : Event) :
    Poised (step s e) ∧ (step s e).config = s.config ∧ Moves s (step s e) (sight s e) := by
  cases e with
  | stop =>
    obtain ⟨hquiet, htodo⟩ := quiet_stop s
    exact ⟨hquiet.poised htodo hs, hquiet.config, hquiet.moves rfl⟩
  | step env =>
    cases hended : s.ended with
    | some ending =>
      have hstep : step s (.step env) = s := by simp only [step, hended]
      have hquiet : Quiet s (step s (.step env)) := by
        rw [hstep]
        exact ⟨rfl, rfl, rfl, rfl⟩
      exact ⟨hquiet.poised (.inl (by rw [hstep])) hs, hquiet.config, hquiet.moves (by simp only [State.mark, hended])⟩
    | none =>
    cases htodo : s.todo with
    | nil =>
      have hstep : step s (.step env) = { s with ended := some (if s.rescuing then .raised else .returned) } := by
        simp only [step, hended, htodo]
      have hquiet : Quiet s (step s (.step env)) := by
        rw [hstep]
        exact ⟨rfl, rfl, rfl, rfl⟩
      refine ⟨hquiet.poised (.inl ?_) hs, hquiet.config, hquiet.moves (by simp only [State.mark, hended, htodo])⟩
      rw [hstep]
    | cons instr rest =>
      have hstep : step s (.step env) = s.exec env rest instr := by simp only [step, hended, htodo]
      exact moves_exec hs hended htodo hstep

section period

variable {t : List Sight} {e : Sight}

theorem period_handled (h : e.IsHandled) : period (t ++ [e]) = [] :=
  List.rtakeWhile_concat_neg _ _ e (by simpa using h)

theorem period_snoc (h : ¬e.IsHandled) : period (t ++ [e]) = period t ++ [e] :=
  List.rtakeWhile_concat_pos _ _ e (by simpa using h)

theorem idleSince_handled (h : e.IsHandled) : idleSince (t ++ [e]) = none := by
  rw [idleSince, period_handled h]
  rfl

theorem idleSince_snoc (h : ¬e.IsHandled) : idleSince (t ++ [e]) = (idleSince t).or e.polled? := by
  rw [idleSince, period_snoc h, List.findSome?_append, List.findSome?_singleton]
  rfl

end period

def Late (threshold : Nat) (t : List Sight) : Prop :=
  ∃ since ∈ idleSince t, ∃ e ∈ period t, ∃ then_, e.mark = some (.idle then_) ∧ threshold ≤ then_ - since

theorem late_snoc {threshold : Nat} {t : List Sight} {e : Sight} (h : ¬e.IsHandled) (hpolled : e.polled? = none) :
    Late threshold (t ++ [e]) ↔ Late threshold t ∨
      ∃ since ∈ idleSince t, ∃ then_, e.mark = some (.idle then_) ∧ threshold ≤ then_ - since := by
  rw [Late, idleSince_snoc h, hpolled, Option.or_none, period_snoc h]
  constructor
  · rintro ⟨since, hsince, e', he', then_, hmark, hlate⟩
    obtain he' | he' := List.mem_append.1 he'
    · exact .inl ⟨since, hsince, e', he', then_, hmark, hlate⟩
    · obtain rfl := List.mem_singleton.1 he'
      exact .inr ⟨since, hsince, then_, hmark, hlate⟩
  · rintro (⟨since, hsince, e', he', hlate⟩ | ⟨since, hsince, hlate⟩)
    · exact ⟨since, hsince, e', List.mem_append_left _ he', hlate⟩
    · exact ⟨since, hsince, e, List.mem_append_right _ (.head _), hlate⟩

theorem ReportsOnce.snoc {threshold : Nat} {t : List Sight} {e : Sight} (h : ReportsOnce threshold t)
    (hpending : e.Reports → ¬Pending Sight.Reports Sight.IsHandled t) (hsingle : e.issued.length ≤ 1)
    (hreports : e.Reports ↔ ∃ now, e.mark = some (.idle now) ∧ Reaches threshold t now) :
    ReportsOnce threshold (t ++ [e]) where
  once := alternates_snoc.2 ⟨h.once, hpending⟩
  single e' he' := by
    obtain he' | he' := List.mem_append.1 he'
    · exact h.single e' he'
    · exact List.mem_singleton.1 he' ▸ hsingle
  reports_iff before e' after hsplit := by
    induction after using List.reverseRecOn with
    | nil =>
      obtain ⟨rfl, he⟩ := List.append_inj' hsplit rfl
      obtain rfl : e = e' := by simpa using he
      exact hreports
    | append_singleton after last =>
      rw [← List.cons_append, ← List.append_assoc] at hsplit
      exact h.reports_iff before e' after (List.append_inj' hsplit rfl).1

/-- Between two steps, what the worker keeps track of is what has been seen. -/
structure Watched (config : Config) (s : State) (t : List Sight) : Prop extends
    ReportsOnce config.threshold t where
  config_eq : s.config = config
  poised : Poised s
  since : s.noWorkSince = idleSince t
  begun : ∀ e ∈ period t, ∀ then_, e.mark = some (.idle then_) → (idleSince t).isSome = true
  escalated : s.noWorkEscalated = true ↔ Pending Sight.Reports Sight.IsHandled t
  late : s.noWorkEscalated = true ↔ Late config.threshold t

theorem watched_start (config : Config) (offers : List (Option Task)) : Watched config (start config offers) [] where
  once := alternates_nil
  single _ h := absurd h List.not_mem_nil
  reports_iff before e after h := by simp at h
  config_eq := rfl
  poised := .inl trivial
  since := rfl
  begun _ h := absurd h List.not_mem_nil
  escalated := iff_of_false Bool.false_ne_true not_pending_nil
  late := iff_of_false Bool.false_ne_true fun ⟨_, hsome, _⟩ => Option.not_mem_none _ hsome

theorem Watched.reaches_iff {config : Config} {s : State} {t : List Sight} (h : Watched config s t) {since now : Nat}
    (hsince : s.noWorkSince = some since) :
    Reaches config.threshold t now ↔ s.noWorkEscalated = false ∧ config.threshold ≤ now - since := by
  rw [h.since] at hsince
  have hnot : s.noWorkEscalated = false ↔ ∀ e ∈ period t, ∀ then_, e.mark = some (.idle then_) →
      then_ - since < config.threshold := by
    rw [← Bool.not_eq_true, h.late, Late, hsince]
    simp
  rw [hnot, Reaches, hsince]
  simp [and_comm]

theorem Watched.other {config : Config} {s s' : State} {t : List Sight} (h : Watched config s t) {seen : Sight}
    (hpoised : Poised s') (hconfig : s'.config = config) (hhandled : ¬seen.IsHandled) (hissued : seen.issued = [])
    (hidle : ∀ now, seen.mark ≠ some (.idle now)) (hsince : s'.noWorkSince = (idleSince t).or seen.polled?)
    (hescalated : s'.noWorkEscalated = s.noWorkEscalated) : Watched config s' (t ++ [seen]) := by
  have hsilent : ¬seen.Reports := fun hreports => hreports hissued
  refine { config_eq := hconfig, poised := hpoised, since := ?_, begun := ?_, escalated := ?_, late := ?_
           toReportsOnce := h.toReportsOnce.snoc (fun hreports => absurd hreports hsilent) ?_ ?_ }
  · rw [hissued]
    exact Nat.zero_le 1
  · exact iff_of_false hsilent fun ⟨now, hnow, _⟩ => hidle now hnow
  · rw [hsince, idleSince_snoc hhandled]
  · rw [period_snoc hhandled, idleSince_snoc hhandled]
    intro e he then_ hmark
    obtain he | he := List.mem_append.1 he
    · obtain ⟨since, hsome⟩ := Option.isSome_iff_exists.1 (h.begun e he then_ hmark)
      rw [hsome]
      rfl
    · exact absurd (List.mem_singleton.1 he ▸ hmark) (hidle then_)
  · rw [hescalated, h.escalated, pending_snoc, or_iff_right hsilent, and_iff_left hhandled]
  · rw [hescalated, h.late, Late, Late, idleSince_snoc hhandled, period_snoc hhandled]
    constructor
    · rintro ⟨since, hmem, e, he, hlate⟩
      exact ⟨since, by rw [Option.mem_def.1 hmem]; rfl, e, List.mem_append_left _ he, hlate⟩
    · rintro ⟨since, hmem, e, he, then_, hmark, hlate⟩
      obtain he | he := List.mem_append.1 he
      · obtain ⟨since', hsome⟩ := Option.isSome_iff_exists.1 (h.begun e he then_ hmark)
        rw [hsome, Option.some_or] at hmem
        exact ⟨since, hsome ▸ hmem, e, he, then_, hmark, hlate⟩
      · exact absurd (List.mem_singleton.1 he ▸ hmark) (hidle then_)

theorem Watched.idle {config : Config} {s s' : State} {t : List Sight} (h : Watched config s t) {now since : Nat}
    {issued : List String} (hpoised : Poised s') (hconfig : s'.config = config)
    (hsince : s.noWorkSince = some since) (hsame : s'.noWorkSince = s.noWorkSince) (hsingle : issued.length ≤ 1)
    (hissued : issued ≠ [] ↔ s.noWorkEscalated = false ∧ config.threshold ≤ now - since)
    (hescalated : s'.noWorkEscalated = true ↔ s.noWorkEscalated = true ∨ config.threshold ≤ now - since) :
    Watched config s' (t ++ [⟨some (.idle now), issued⟩]) := by
  have hhandled : ¬(⟨some (.idle now), issued⟩ : Sight).IsHandled := nofun
  have hbegun : idleSince t = some since := h.since ▸ hsince
  refine { config_eq := hconfig, poised := hpoised, since := ?_, begun := ?_, escalated := ?_, late := ?_
           toReportsOnce := h.toReportsOnce.snoc (fun hreports => ?_) hsingle ?_ }
  · rw [← h.escalated, (hissued.1 hreports).1]
    exact Bool.false_ne_true
  · refine (hissued.trans (h.reaches_iff hsince).symm).trans ⟨fun hreaches => ⟨now, rfl, hreaches⟩, ?_⟩
    rintro ⟨_, ⟨⟩, hreaches⟩
    exact hreaches
  · rw [hsame, h.since, idleSince_snoc hhandled]
    exact (Option.or_none).symm
  · rw [idleSince_snoc hhandled, hbegun]
    exact fun _ _ _ _ => rfl
  · rw [hescalated, pending_snoc, ← h.escalated, and_iff_left hhandled, or_comm]
    change _ ↔ issued ≠ [] ∨ _
    rw [hissued]
    cases s.noWorkEscalated <;> simp
  · rw [hescalated, late_snoc hhandled rfl, ← h.late, hbegun]
    simp

theorem watched_step {config : Config} {s : State} {t : List Sight} (h : Watched config s t) (e : Event) :
    Watched config (step s e) (t ++ [sight s e]) := by
  obtain ⟨hpoised, hconfig, hmoves⟩ := moves h.poised e
  have hconfig := hconfig.trans h.config_eq
  generalize sight s e = seen at hmoves
  generalize step s e = s' at hpoised hconfig hmoves
  cases hmoves with
  | quiet hquiet =>
    refine h.other hpoised hconfig nofun rfl nofun ?_ hquiet.escalated
    rw [hquiet.since, h.since]
    exact (Option.or_none).symm
  | polled now hsince hescalated =>
    refine h.other hpoised hconfig nofun rfl nofun ?_ hescalated
    rw [hsince, h.since]
    cases idleSince t <;> rfl
  | handled hsince hescalated =>
    have hhandled : (⟨some .handled, []⟩ : Sight).IsHandled := rfl
    refine { config_eq := hconfig, poised := hpoised, since := ?_, begun := ?_, escalated := ?_, late := ?_
             toReportsOnce := h.toReportsOnce.snoc (fun hreports => absurd rfl hreports) (Nat.zero_le 1) ?_ }
    · exact iff_of_false (fun hreports => hreports rfl) nofun
    · rw [hsince, idleSince_handled hhandled]
    · rw [period_handled hhandled]
      exact List.forall_mem_nil _
    · rw [hescalated, pending_snoc]
      exact iff_of_false Bool.false_ne_true (not_or.2 ⟨fun hreports => hreports rfl, fun hold => hold.2 hhandled⟩)
    · rw [hescalated, Late, idleSince_handled hhandled]
      exact iff_of_false Bool.false_ne_true fun ⟨_, hsome, _⟩ => Option.not_mem_none _ hsome
  | reported now since text hsince hsame hnot hlate hescalated =>
    rw [h.config_eq] at hlate
    refine h.idle hpoised hconfig hsince hsame le_rfl ?_ ?_
    · exact iff_of_true (List.cons_ne_nil text []) ⟨hnot, hlate⟩
    · exact iff_of_true hescalated (.inr hlate)
  | silent now since hsince hsame hwhy hescalated =>
    rw [h.config_eq] at hwhy
    refine h.idle hpoised hconfig hsince hsame (Nat.zero_le 1) ?_ ?_
    · refine iff_of_false (fun hne => hne rfl) fun ⟨hnot, hlate⟩ => ?_
      obtain hdone | hearly := hwhy
      · exact Bool.false_ne_true (hnot.symm.trans hdone)
      · exact absurd hlate hearly.not_ge
    · rw [hescalated]
      refine ⟨.inl, fun hor => hor.elim id fun hlate => ?_⟩
      exact hwhy.elim id fun hearly => absurd hlate hearly.not_ge

/-- In every run, each idle period has one report at most, issued at the first idle tick that is late
enough. -/
theorem reportsOnce_run (config : Config) (offers : List (Option Task)) (events : List Event) :
    ReportsOnce config.threshold (trace step sight (start config offers) events) :=
  (inv_of_along (watched_start config offers) (fun _ _ e h _ => watched_step h e)
    (along_true : Along step (fun _ _ => True) (start config offers) events)).toReportsOnce

end Quinn.Work.BaseWorker
