import Quinn.Machine.Run
import Quinn.Schema.Worker
import Quinn.Text.Basic

/-! `core/session_capture.py`: the lines of the workers' panes, each pane captured from time to time. -/

namespace Quinn.Session.Capture

open Machine Text

def captureLines : Nat := 100

abbrev Line := { s : String // '\n' ∉ s.toList }

/-- A capture shows the last lines of the pane. -/
def window (lines : List Line) : List String := (lines.drop (lines.length - captureLines)).map (·.1)

/-- The text of a capture: tmux ends each line with a newline; without one after the last they are
merely separated. -/
def capturePane (terminated : Bool) (lines : List Line) : String :=
  if terminated then String.join ((window lines).map (· ++ "\n")) else "\n".intercalate (window lines)

/-- What is left of the lines in the loop: `line.strip()`, and no blank ones. -/
def worked (lines : List String) : List String := (lines.map strip).filter (· ≠ "")

structure SessionCaptureService where
  /-- `_last_captured` -/
  lastCaptured : WorkerId → Nat := fun _ => 0

def SessionCaptureService.parseAndLogActivity (s : SessionCaptureService) (worker : WorkerId) (output : String) :
    List String × SessionCaptureService :=
  let lines := split '\n' output
  let lastLineCount := s.lastCaptured worker
  let currentLineCount := lines.length
  if currentLineCount ≤ lastLineCount then ([], s)
  else
    (worked (lines.drop lastLineCount),
      { s with lastCaptured := Function.update s.lastCaptured worker currentLineCount })

inductive Event
  | append (worker : WorkerId) (lines : List Line)
  /-- `_capture_worker_session`, which does nothing when `tmux` fails -/
  | capture (worker : WorkerId) (fails : Bool)

structure State where
  panes : WorkerId → List Line
  service : SessionCaptureService := {}
  processed : WorkerId → List String := fun _ => []
  /-- how many lines a pane had at its last capture -/
  seen : WorkerId → Option Nat := fun _ => none
  /-- what the first capture showed, and what has been appended up to the last one -/
  due : WorkerId → List String := fun _ => []

namespace State

/-- The lines that a capture has to look at. -/
def fresh (s : State) (worker : WorkerId) : List String :=
  match s.seen worker with
  | none => window (s.panes worker)
  | some n => ((s.panes worker).drop n).map (·.1)

variable (terminated : Bool)

def step (s : State) : Event → State
  | .append worker lines => { s with panes := Function.update s.panes worker (s.panes worker ++ lines) }
  | .capture _ true => s
  | .capture worker false =>
    let (looked, service) :=
      s.service.parseAndLogActivity worker (capturePane terminated (s.panes worker))
    { s with
      service
      processed := Function.update s.processed worker (s.processed worker ++ looked)
      seen := Function.update s.seen worker (some (s.panes worker).length)
      due := Function.update s.due worker (s.due worker ++ s.fresh worker) }

/-- Each line that was due has been looked at, once and in order. -/
def EachOnce (s : State) : Prop := ∀ worker, s.processed worker = worked (s.due worker)

/-- What a capture has counted too many: the empty text after the last newline, or that of no lines
at all. -/
def surplus (n : Nat) : Nat := if terminated ∨ n = 0 then 1 else 0

def count (n : Nat) : Nat := min n captureLines + surplus terminated n

/-- Past the first capture of a pane, the lines that the counts pass over are blank. -/
def Covers (s : State) : Event → Prop
  | .append _ _ => True
  | .capture _ true => True
  | .capture worker false =>
    ∀ n, s.seen worker = some n →
      worked ((s.fresh worker).take (surplus terminated n + ((s.panes worker).length - captureLines))) = []

def Counted (s : State) : Prop :=
  ∀ worker, match s.seen worker with
    | none => s.service.lastCaptured worker = 0
    | some n => n ≤ (s.panes worker).length ∧ s.service.lastCaptured worker = count terminated n

variable {terminated} {s : State} {worker : WorkerId}

theorem length_window (lines : List Line) : (window lines).length = min lines.length captureLines := by
  rw [window, List.length_map, List.length_drop]
  omega

theorem split_capturePane (lines : List Line) :
    split '\n' (capturePane terminated lines) = window lines ++ List.replicate (surplus terminated lines.length) "" := by
  have hlines : ∀ line ∈ window lines, '\n' ∉ line.toList := by
    intro line hline
    obtain ⟨line, -, rfl⟩ := List.mem_map.1 hline
    exact line.2
  cases terminated with
  | true => exact split_join hlines
  | false =>
    cases lines with
    | nil => rfl
    | cons line lines =>
      have hne : window (line :: lines) ≠ [] := by
        apply List.ne_nil_of_length_pos
        rw [length_window, List.length_cons, captureLines]
        omega
      apply (split_intercalate hlines hne).trans
      simp [surplus]

theorem length_split_capturePane (lines : List Line) :
    (split '\n' (capturePane terminated lines)).length = count terminated lines.length := by
  rw [split_capturePane, List.length_append, length_window, List.length_replicate, count]

theorem worked_append (lines lines' : List String) : worked (lines ++ lines') = worked lines ++ worked lines' := by
  rw [worked, List.map_append, List.filter_append]
  rfl

@[simp] theorem worked_replicate (n : Nat) : worked (List.replicate n "") = [] := by
  simp [worked, show strip "" = "" from rfl]

theorem count_mono {n n' : Nat} (h : n ≤ n') : count terminated n ≤ count terminated n' := by
  have hsurplus : surplus terminated n ≤ surplus terminated n' ∨ n = 0 ∧ 0 < n' := by
    rw [surplus, surplus]
    split_ifs <;> grind
  have hle : surplus terminated n ≤ 1 := by
    rw [surplus]
    split_ifs <;> omega
  rw [count, count, captureLines]
  omega

theorem looked_eq (lines : List Line) (service : SessionCaptureService) :
    (service.parseAndLogActivity worker (capturePane terminated lines)).1 =
      worked ((window lines).drop (service.lastCaptured worker)) := by
  have hworked : worked ((split '\n' (capturePane terminated lines)).drop (service.lastCaptured worker)) =
      worked ((window lines).drop (service.lastCaptured worker)) := by
    rw [split_capturePane, List.drop_append, worked_append, List.drop_replicate, worked_replicate, List.append_nil]
  rw [SessionCaptureService.parseAndLogActivity]
  split_ifs with hle
  · rw [← hworked, List.drop_eq_nil_of_le hle]
    rfl
  · exact hworked

theorem lastCaptured_eq (lines : List Line) (service : SessionCaptureService) :
    (service.parseAndLogActivity worker (capturePane terminated lines)).2.lastCaptured =
      Function.update service.lastCaptured worker (max (service.lastCaptured worker) (count terminated lines.length)) := by
  rw [SessionCaptureService.parseAndLogActivity, length_split_capturePane]
  split_ifs with hle
  · rw [max_eq_left hle, Function.update_eq_self]
  · rw [max_eq_right (by omega)]

theorem window_drop (hcounted : s.Counted terminated) {n : Nat} (hn : s.seen worker = some n) :
    (window (s.panes worker)).drop (s.service.lastCaptured worker) =
      (s.fresh worker).drop (surplus terminated n + ((s.panes worker).length - captureLines)) := by
  have h := hcounted worker
  rw [hn] at h
  obtain ⟨hle, hlast⟩ := h
  rw [fresh, hn, window, hlast, count, ← List.map_drop, ← List.map_drop, List.drop_drop, List.drop_drop]
  congr 1
  by_cases hfull : n ≤ captureLines
  · congr 1
    omega
  · rw [List.drop_eq_nil_of_le (by omega), List.drop_eq_nil_of_le (by omega)]

theorem Counted.step (hcounted : s.Counted terminated) (e : Event) : (s.step terminated e).Counted terminated := by
  intro other
  have h := hcounted other
  match e with
  | .capture _ true => exact h
  | .append worker lines =>
    by_cases hother : other = worker
    · subst hother
      cases hn : s.seen other with
      | none => simpa [State.step, hn] using h
      | some n =>
        rw [hn] at h
        have hle : n ≤ (s.panes other ++ lines).length := by
          rw [List.length_append]
          omega
        simpa [State.step, hn] using And.intro hle h.2
    · simpa [State.step, hother] using h
  | .capture worker false =>
    by_cases hother : other = worker
    · subst hother
      have hlast : max (s.service.lastCaptured other) (count terminated (s.panes other).length) =
          count terminated (s.panes other).length := by
        apply max_eq_right
        cases hn : s.seen other with
        | none =>
          rw [hn] at h
          rw [h]
          exact Nat.zero_le _
        | some n =>
          rw [hn] at h
          rw [h.2]
          exact count_mono h.1
      simp [State.step, lastCaptured_eq, hlast]
    · simpa [State.step, lastCaptured_eq, hother] using h

def looked (terminated : Bool) (s : State) (worker : WorkerId) : List String :=
  (s.service.parseAndLogActivity worker (capturePane terminated (s.panes worker))).1

theorem looked_of_covers (hcounted : s.Counted terminated) (hcovers : s.Covers terminated (.capture worker false)) :
    s.looked terminated worker = worked (s.fresh worker) := by
  rw [looked, looked_eq]
  cases hn : s.seen worker with
  | none =>
    have h := hcounted worker
    rw [hn] at h
    rw [h, fresh, hn, List.drop_zero]
  | some n =>
    rw [window_drop hcounted hn]
    conv_rhs => rw [← List.take_append_drop _ (s.fresh worker), worked_append, hcovers n hn, List.nil_append]

theorem looked_of_not_covers (hcounted : s.Counted terminated)
    (hcovers : ¬s.Covers terminated (.capture worker false)) :
    (s.looked terminated worker).length < (worked (s.fresh worker)).length := by
  simp only [Covers, not_forall] at hcovers
  obtain ⟨n, hn, hne⟩ := hcovers
  rw [looked, looked_eq, window_drop hcounted hn]
  conv_rhs =>
    rw [← List.take_append_drop (surplus terminated n + ((s.panes worker).length - captureLines)) (s.fresh worker),
      worked_append, List.length_append]
  exact Nat.lt_add_of_pos_left (List.length_pos_of_ne_nil hne)

def Missed (s : State) : Prop := ∃ worker, (s.processed worker).length < (worked (s.due worker)).length

theorem EachOnce.step (hcounted : s.Counted terminated) (honce : s.EachOnce) {e : Event}
    (hcovers : s.Covers terminated e) : (s.step terminated e).EachOnce := by
  intro other
  match e with
  | .append _ _ | .capture _ true => exact honce other
  | .capture worker false =>
    by_cases hother : other = worker
    · subst hother
      have hlooked := looked_of_covers hcounted hcovers
      rw [looked] at hlooked
      simp [State.step, worked_append, honce other, hlooked]
    · simpa [State.step, hother] using honce other

theorem EachOnce.missed (hcounted : s.Counted terminated) (honce : s.EachOnce) {e : Event}
    (hcovers : ¬s.Covers terminated e) : (s.step terminated e).Missed := by
  match e with
  | .append _ _ | .capture _ true => exact (hcovers trivial).elim
  | .capture worker false =>
    have hlooked := looked_of_not_covers hcounted hcovers
    rw [looked] at hlooked
    refine ⟨worker, ?_⟩
    simp [State.step, worked_append, honce worker, hlooked]

theorem Missed.step (hcounted : s.Counted terminated) (hmissed : s.Missed) (e : Event) :
    (s.step terminated e).Missed := by
  obtain ⟨other, hlt⟩ := hmissed
  refine ⟨other, ?_⟩
  match e with
  | .append _ _ | .capture _ true => exact hlt
  | .capture worker false =>
    by_cases hother : other = worker
    · subst hother
      have hle : (s.looked terminated other).length ≤ (worked (s.fresh other)).length := by
        by_cases hcovers : s.Covers terminated (.capture other false)
        · exact (congrArg List.length (looked_of_covers hcounted hcovers)).le
        · exact (looked_of_not_covers hcounted hcovers).le
      rw [looked] at hle
      simp only [State.step, Function.update_self, worked_append, List.length_append]
      omega
    · simpa [State.step, hother] using hlt

theorem along_or_missed (terminated : Bool) (panes : WorkerId → List Line) (events : List Event) :
    (Along (State.step terminated) (Covers terminated) { panes } events ∧
        (run (State.step terminated) { panes } events).EachOnce) ∨
      (¬Along (State.step terminated) (Covers terminated) { panes } events ∧
        ¬(run (State.step terminated) { panes } events).EachOnce) := by
  let I (s : State) : Prop := s.Counted terminated ∧ s.EachOnce
  let D (s : State) : Prop := s.Counted terminated ∧ s.Missed
  have hgood (s : State) (e : Event) (h : I s) (hcovers : s.Covers terminated e) : I (s.step terminated e) :=
    ⟨h.1.step e, h.2.step h.1 hcovers⟩
  have hbad (s : State) (e : Event) (h : I s) (hcovers : ¬s.Covers terminated e) : D (s.step terminated e) :=
    ⟨h.1.step e, h.2.missed h.1 hcovers⟩
  have htrap (s : State) (e : Event) (h : D s) : D (s.step terminated e) := ⟨h.1.step e, h.2.step h.1 e⟩
  have hstart : I { panes } := ⟨fun _ => rfl, fun _ => rfl⟩
  apply (along_or_trapped hgood hbad htrap hstart).imp (And.imp_right And.right) (And.imp_right ?_)
  rintro ⟨-, worker, hlt⟩ honce
  rw [honce worker] at hlt
  exact lt_irrefl _ hlt

/-- Each line is looked at once just in the runs in which each capture covers what is new. -/
theorem eachOnce_iff (terminated : Bool) (panes : WorkerId → List Line) (events : List Event) :
    (run (State.step terminated) { panes } events).EachOnce ↔
      Along (State.step terminated) (Covers terminated) { panes } events := by
  obtain ⟨halong, honce⟩ | ⟨hnot, hmissed⟩ := along_or_missed terminated panes events
  · exact iff_of_true honce halong
  · exact iff_of_false hmissed hnot

theorem not_eachOnce_of_full (terminated : Bool) {panes : WorkerId → List Line} (hfull : captureLines ≤ (panes worker).length)
    {lines : List Line} (hlines : worked (lines.map (·.1)) ≠ []) :
    ¬(run (State.step terminated) { panes }
      [.capture worker false, .append worker lines, .capture worker false]).EachOnce := by
  intro honce
  obtain ⟨⟨-, -, hcovers, -⟩, -⟩ | ⟨-, hmissed⟩ :=
    along_or_missed terminated panes [.capture worker false, .append worker lines, .capture worker false]
  · have htake := hcovers (panes worker).length (by simp [State.step])
    rw [List.take_of_length_le] at htake
    · apply hlines
      simpa [State.step, fresh] using htake
    · simp [State.step, fresh]
      omega
  · exact hmissed honce

theorem full_not_eachOnce :
    let line : Line := ⟨"$ ls", by decide⟩
    let more : Line := ⟨"$ cd", by decide⟩
    let events : List Event := [.capture "ada" false, .append "ada" [more], .capture "ada" false]
    [more].length < captureLines ∧
      ∀ terminated, ¬(run (State.step terminated) { panes := fun _ => List.replicate captureLines line } events).EachOnce :=
  ⟨by decide, fun terminated => not_eachOnce_of_full terminated (List.length_replicate).ge (by decide)⟩

end State

end Quinn.Session.Capture
