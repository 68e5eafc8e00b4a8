import Quinn.Rules.Verdict

/-! Rules of different severities in one rule set.  The first that matches decides alone, however
severe those behind it are. -/

namespace Quinn.Rules

open Search Text

variable {Re : Type} {lib : Library Re} {compiled : Compiled Re} {db : Db} {action : String}
  {context : Context} {flags : Flags} {ruleset larger : RuleSet} {l : List Rule} {r : Rule}

def IsBlock (result : Except Raised Decision) : Prop := ∃ d, result = .ok d ∧ d.kind = .block

def Matches (lib : Library Re) (compiled : Compiled Re) (context : Context) (r : Rule) : Prop :=
  verdict lib compiled context r = .ok true

instance : Decidable (Matches lib compiled context r) := inferInstanceAs (Decidable (_ = _))

def Refuses (db : Db) (context : Context) (flags : Flags) (r : Rule) : Prop :=
  r.severity = .absolute ∨
    (r.severity = .encouraged ∧ ∃ bead ∈ flags.justify, ¬justifyIsValid db context bead) ∨
    (r.severity = .required ∧ ∃ bead ∈ flags.override, ¬overrideIsValid db context bead)

instance : Decidable (Refuses db context flags r) := inferInstanceAs (Decidable (_ ∨ _ ∨ _))

/-- The rule set of an action, with a larger one: a matching `ABSOLUTE` rule blocks, and what is
added weakens no block. -/
structure Unweakened (lib : Library Re) (compiled : Compiled Re) (ruleset larger : RuleSet) (db : Db)
    (action : String) (context : Context) (flags : Flags) : Prop where
  absolute : (∃ r ∈ candidates ruleset.rules action,
      Matches lib compiled context r ∧ r.severity = .absolute) →
    IsBlock (decision lib compiled ruleset db action context flags)
  monotone : IsBlock (decision lib compiled ruleset db action context flags) →
    IsBlock (decision lib compiled larger db action context flags)

theorem kind_applySeverity : (applySeverity db context flags r).kind = .block ↔ Refuses db context flags r := by
  unfold applySeverity Refuses
  cases r.severity with
  | absolute => simp
  | suggested => simp
  | encouraged =>
    cases flags.justify with
    | none => simp
    | some bead => by_cases h : justifyIsValid db context bead <;> simp [h]
  | required =>
    cases flags.override with
    | none => simp
    | some bead => by_cases h : overrideIsValid db context bead <;> simp [h]

theorem isBlock_iff : IsBlock (decision lib compiled ruleset db action context flags) ↔
    ∃ r, firstStop (verdict lib compiled context) (candidates ruleset.rules action) = some r ∧
      Matches lib compiled context r ∧ Refuses db context flags r := by
  rw [IsBlock, decision_eq]
  constructor
  · rintro ⟨d, hd, hkind⟩
    cases hmatch : firstMatch (verdict lib compiled context) (candidates ruleset.rules action) with
    | error e =>
      rw [hmatch] at hd
      cases hd
    | ok matched =>
      rw [hmatch] at hd
      cases hd
      cases matched with
      | none => cases hkind
      | some r =>
        obtain ⟨hstop, htrue⟩ := firstMatch_eq_firstStop.1 hmatch
        exact ⟨r, hstop, htrue, kind_applySeverity.1 hkind⟩
  · rintro ⟨r, hstop, htrue, hrefuses⟩
    rw [firstMatch_eq_firstStop.2 ⟨hstop, htrue⟩]
    exact ⟨_, rfl, kind_applySeverity.2 hrefuses⟩

def ahead (rules : List Rule) (action : String) (r : Rule) : List Rule :=
  (candidates rules action).takeWhile fun s => s.id ≠ r.id

def GivesNoWay (lib : Library Re) (compiled : Compiled Re) (db : Db) (context : Context) (flags : Flags)
    (l : List Rule) : Prop :=
  ∀ s ∈ firstStop (verdict lib compiled context) l,
    Matches lib compiled context s ∧ Refuses db context flags s

instance : Decidable (GivesNoWay lib compiled db context flags l) :=
  inferInstanceAs (Decidable (∀ s ∈ firstStop _ _, _))

theorem eq_of_id {rs : RuleSet} {s : Rule} (hr : r ∈ candidates rs.rules action)
    (hs : s ∈ candidates rs.rules action) (h : s.id = r.id) : s = r :=
  List.inj_on_of_nodup_map rs.distinct (mem_candidates.1 hs).1 (mem_candidates.1 hr).1 h

/-- A rule that matches and refuses brings a block about, unless one ahead of it gives way. -/
theorem isBlock_iff_givesNoWay (hr : r ∈ candidates ruleset.rules action)
    (hmatches : Matches lib compiled context r) (hrefuses : Refuses db context flags r) :
    IsBlock (decision lib compiled ruleset db action context flags) ↔
      GivesNoWay lib compiled db context flags (ahead ruleset.rules action r) := by
  have hstop : verdict lib compiled context r ≠ .ok false := by
    rw [hmatches]
    exact fun h => nomatch h
  rw [isBlock_iff, firstStop_of_mem Rule.id hr (fun s hs => eq_of_id hr hs) hstop, GivesNoWay, ahead]
  cases firstStop (verdict lib compiled context)
      ((candidates ruleset.rules action).takeWhile fun s => s.id ≠ r.id) with
  | none => simp [hmatches, hrefuses]
  | some s => simp

theorem candidates_sublist {rules more : List Rule} (h : rules.Sublist more) :
    (candidates rules action).Sublist (candidates more action) := by
  unfold candidates
  induction h with
  | slnil => exact .slnil
  | cons r _ ih =>
    rw [List.flatMap_cons]
    exact ih.trans (List.sublist_append_right _ _)
  | cons_cons r _ ih =>
    rw [List.flatMap_cons, List.flatMap_cons]
    exact (List.Sublist.refl _).append ih

/-- No rule gives way ahead of a matching `ABSOLUTE` one, nor, in the larger rule set, ahead of the
one that blocks by itself. -/
structure GivenNoWay (lib : Library Re) (compiled : Compiled Re) (ruleset larger : RuleSet) (db : Db)
    (action : String) (context : Context) (flags : Flags) : Prop where
  absolute : ∀ r ∈ candidates ruleset.rules action, Matches lib compiled context r →
    r.severity = .absolute →
    GivesNoWay lib compiled db context flags (ahead ruleset.rules action r)
  first : ∀ r ∈ firstStop (verdict lib compiled context) (candidates ruleset.rules action),
    Matches lib compiled context r → Refuses db context flags r →
    GivesNoWay lib compiled db context flags (ahead larger.rules action r)

theorem unweakened_iff (lib : Library Re) (compiled : Compiled Re) (ruleset larger : RuleSet)
    (hlarger : ruleset.rules.Sublist larger.rules) (db : Db) (action : String) (context : Context)
    (flags : Flags) :
    Unweakened lib compiled ruleset larger db action context flags ↔
      GivenNoWay lib compiled ruleset larger db action context flags := by
  constructor
  · intro h
    refine ⟨fun r hr hmatches habsolute => ?_, fun r hfirst hmatches hrefuses => ?_⟩
    · exact (isBlock_iff_givesNoWay hr hmatches (.inl habsolute)).1 (h.absolute ⟨r, hr, hmatches, habsolute⟩)
    · have hblock := h.monotone (isBlock_iff.2 ⟨r, hfirst, hmatches, hrefuses⟩)
      have hr := (candidates_sublist hlarger).subset (firstStop_mem hfirst).1
      exact (isBlock_iff_givesNoWay hr hmatches hrefuses).1 hblock
  · intro h
    constructor
    · rintro ⟨r, hr, hmatches, habsolute⟩
      exact (isBlock_iff_givesNoWay hr hmatches (.inl habsolute)).2 (h.absolute r hr hmatches habsolute)
    · intro hblock
      obtain ⟨r, hfirst, hmatches, hrefuses⟩ := isBlock_iff.1 hblock
      have hr := (candidates_sublist hlarger).subset (firstStop_mem hfirst).1
      exact (isBlock_iff_givesNoWay hr hmatches hrefuses).2 (h.first r hfirst hmatches hrefuses)

/-- No pattern is a regular expression. -/
def plainLibrary : Library Unit where
  compile _ := none
  search _ _ := false
  fnmatch value expr := value = expr
  str _ := ""

def silentDb : Db where
  getBead _ := none
  getDirectManager _ := none

def noDropDatabase : Rule where
  id := "no-drop-database"
  severity := .absolute
  actions := ["qn-bd.create", "qn-bd.update", "shell.bash"]
  description := "Destructive SQL is refused."
  pattern := some ⟨.str "contains", .str "body", .str "DROP TABLE"⟩

def prTitlePrefix : Rule where
  id := "pr-title-prefix"
  severity := .suggested
  actions := ["qn-bd.update"]
  description := "Beads touching cli/core/ should use a module-prefixed title."

def coverageFloor : Rule where
  id := "coverage-floor"
  severity := .encouraged
  actions := ["qn-bd.update"]
  description := "Don't drop overall coverage below the current baseline."

/-- What is added stands behind. -/
theorem suggestionBehind_unweakened :
    Unweakened plainLibrary (fun _ => none) ⟨.int 1, [noDropDatabase], "", by decide⟩
      ⟨.int 1, [noDropDatabase, prTitlePrefix], "", by decide⟩ silentDb "qn-bd.update"
      { body := some "DROP TABLE beads" } {} :=
  (unweakened_iff plainLibrary (fun _ => none) _ _ (List.sublist_append_left [noDropDatabase] [prTitlePrefix])
    silentDb "qn-bd.update" { body := some "DROP TABLE beads" } {}).2
    ⟨by decide +kernel, by decide +kernel⟩

/-- The catalogue that comes with the code has an unscoped `ENCOURAGED` rule ahead. -/
theorem coverageFloor_weakens :
    ¬Unweakened plainLibrary (fun _ => none) ⟨.int 1, [coverageFloor, noDropDatabase], "", by decide⟩
      ⟨.int 1, [coverageFloor, noDropDatabase], "", by decide⟩ silentDb "qn-bd.update"
      { body := some "DROP TABLE beads" } {} := by
  intro h
  obtain ⟨d, hd, hkind⟩ := h.absolute ⟨noDropDatabase, by simp [candidates, coverageFloor, noDropDatabase],
    by decide +kernel, rfl⟩
  have hweak := congrArg (fun result => result.toOption.map Decision.kind) hd
  rw [show (Except.ok d : Except Raised Decision).toOption.map Decision.kind = some .block from
    congrArg some hkind] at hweak
  revert hweak
  decide +kernel

end Quinn.Rules
