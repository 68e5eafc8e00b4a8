import Mathlib.Data.List.Perm.Basic
import Quinn.Rules.Isolation
import Quinn.Rules.Shadowing

/-! Patterns that examine the paths of an action.  The scope of a rule looks at all of them, the
pattern at the first. -/

namespace Quinn.Rules

open Search Text

variable {Re : Type} {lib : Library Re} {compiled : Compiled Re} {context : Context} {rule : Rule}
  {pattern : Pattern} {paths : List String}

def Context.withPaths (context : Context) (paths : List String) : Context :=
  { context with targetPaths := paths }

def patternTest (lib : Library Re) (re : Except Raised (Option Re)) (pattern : Pattern) (value : String) :
    Except Raised Bool := do
  if pattern.isRegex then
    let re ← re
    return re.any (lib.search · value)
  else if pattern.kind.equalsText "contains" then containsExpr pattern.expr value
  else if pattern.kind.equalsText "glob" then globMatches lib pattern.expr value
  else return false

def Fits (lib : Library Re) (pattern : Pattern) (path : String) : Prop :=
  patternTest lib (compileExpr lib pattern.expr) pattern path = .ok true

/-- It matches, as the process has it under the id of the rule. -/
def Found (lib : Library Re) (compiled : Compiled Re) (rule : Rule) (pattern : Pattern) (path : String) : Prop :=
  patternTest lib (regexOf lib compiled rule pattern.expr) pattern path = .ok true

instance (path : String) : Decidable (Fits lib pattern path) := inferInstanceAs (Decidable (_ = _))

instance (path : String) : Decidable (Found lib compiled rule pattern path) :=
  inferInstanceAs (Decidable (_ = _))

/-- In whatever order the paths come, the rule matches as soon as one of them fits. -/
def SeesEveryPath (lib : Library Re) (compiled : Compiled Re) (context : Context) (rule : Rule)
    (pattern : Pattern) : Prop :=
  ∀ paths, paths.Perm context.targetPaths → ∀ inline, Faithful lib [rule] inline →
    ((firstMatchOf lib compiled (context.withPaths paths) [rule]).run' inline = .ok (some rule) ↔
      scopeMatches rule context = .ok true ∧ ∃ path ∈ paths, Fits lib pattern path)

/-- The paths of an action within the scope are all alike: none fits, nor is found to, or one fits
and all are found to. -/
def PathsAlike (lib : Library Re) (compiled : Compiled Re) (context : Context) (rule : Rule)
    (pattern : Pattern) : Prop :=
  scopeMatches rule context = .ok true →
    (∀ path ∈ context.targetPaths, ¬Fits lib pattern path ∧ ¬Found lib compiled rule pattern path) ∨
      (∃ path ∈ context.targetPaths, Fits lib pattern path) ∧
        ∀ path ∈ context.targetPaths, Found lib compiled rule pattern path

instance : Decidable (PathsAlike lib compiled context rule pattern) :=
  inferInstanceAs (Decidable (_ → _ ∨ _ ∧ _))

theorem prefixFound_perm (pathPrefix : Yaml) (h : paths.Perm context.targetPaths) :
    prefixFound pathPrefix paths = prefixFound pathPrefix context.targetPaths := by
  have hany (start : String) : (paths.any fun p => StartsWith p start) =
      context.targetPaths.any fun p => StartsWith p start := by
    rw [Bool.eq_iff_iff, List.any_eq_true, List.any_eq_true]
    simp only [h.mem_iff]
  cases paths with
  | nil => rw [h.nil_eq]
  | cons path paths =>
    cases htarget : context.targetPaths with
    | nil => exact absurd (htarget ▸ h) (List.not_perm_cons_nil)
    | cons path' paths' =>
      rw [htarget] at hany
      cases pathPrefix <;> simp only [prefixFound, hany]

theorem scopeMatches_perm (h : paths.Perm context.targetPaths) :
    scopeMatches rule (context.withPaths paths) = scopeMatches rule context := by
  unfold scopeMatches
  cases rule.scope with
  | none => rfl
  | some scope =>
    dsimp only [Context.withPaths]
    rw [prefixFound_perm _ h]
    rfl

theorem patternVerdict_path (hpattern : rule.pattern = some pattern) (htarget : pattern.target = .str "path") :
    patternVerdict lib compiled context rule =
      match context.targetPaths.head? with
      | none => .ok false
      | some path => patternTest lib (regexOf lib compiled rule pattern.expr) pattern path := by
  have hresolve : resolvePatternTarget (.str "path") context = .ok context.targetPaths.head? := rfl
  unfold patternVerdict
  rw [hpattern]
  dsimp only
  rw [htarget, hresolve]
  cases context.targetPaths.head? <;> rfl

theorem matches_path (hpattern : rule.pattern = some pattern) (htarget : pattern.target = .str "path") :
    Matches lib compiled context rule ↔
      scopeMatches rule context = .ok true ∧
        ∃ path ∈ context.targetPaths.head?, Found lib compiled rule pattern path := by
  rw [Matches, verdict, patternVerdict_path hpattern htarget]
  cases hscope : scopeMatches rule context with
  | error e =>
    constructor
    · intro h
      cases h
    · intro h
      cases h.1
  | ok inScope =>
    cases inScope with
    | false =>
      constructor
      · intro h
        cases h
      · intro h
        cases h.1
    | true =>
      cases context.targetPaths.head? with
      | none =>
        constructor
        · intro h
          cases h
        · rintro ⟨-, path, hnone, -⟩
          cases hnone
      | some path =>
        refine ⟨fun h => ⟨rfl, path, rfl, h⟩, ?_⟩
        rintro ⟨-, path', hpath', hfound⟩
        cases hpath'
        exact hfound

theorem firstMatchOf_singleton {inline : Compiled Re} (hinline : Faithful lib [rule] inline) :
    (firstMatchOf lib compiled context [rule]).run' inline = .ok (some rule) ↔
      Matches lib compiled context rule := by
  have hdistinct : ([rule].map Rule.id).Nodup := List.nodup_singleton rule.id
  obtain ⟨inline', -, hrun⟩ := yields_firstMatchOf lib compiled context hdistinct (fun _ h => h) inline hinline
  rw [StateT.run'_eq, hrun, Matches, firstMatch]
  cases verdict lib compiled context rule with
  | error e =>
    constructor
    · intro h
      cases h
    · intro h
      cases h
  | ok matched =>
    cases matched with
    | false =>
      constructor
      · intro h
        cases h
      · intro h
        cases h
    | true => exact ⟨fun _ => rfl, fun _ => rfl⟩

theorem firstMatchOf_path (hpattern : rule.pattern = some pattern) (htarget : pattern.target = .str "path")
    (h : paths.Perm context.targetPaths) {inline : Compiled Re} (hinline : Faithful lib [rule] inline) :
    (firstMatchOf lib compiled (context.withPaths paths) [rule]).run' inline = .ok (some rule) ↔
      scopeMatches rule context = .ok true ∧
        ∃ path ∈ paths.head?, Found lib compiled rule pattern path := by
  rw [firstMatchOf_singleton hinline, matches_path hpattern htarget, scopeMatches_perm h]
  rfl

theorem seesEveryPath_iff (lib : Library Re) (compiled : Compiled Re) (context : Context) (rule : Rule)
    (pattern : Pattern) (hpattern : rule.pattern = some pattern) (htarget : pattern.target = .str "path") :
    SeesEveryPath lib compiled context rule pattern ↔ PathsAlike lib compiled context rule pattern := by
  constructor
  · intro h hscope
    -- the path is moved to the front
    have hfirst (path : String) (hpath : path ∈ context.targetPaths) :
        Found lib compiled rule pattern path ↔ ∃ path' ∈ context.targetPaths, Fits lib pattern path' := by
      have hperm := (List.perm_cons_erase hpath).symm
      have hinline : Faithful lib [rule] (fun _ => none) := fun _ _ _ _ _ h => nomatch h
      have hseen := h _ hperm _ hinline
      rw [firstMatchOf_path hpattern htarget hperm hinline] at hseen
      simpa [hscope, hperm.mem_iff] using hseen
    by_cases hfits : ∃ path ∈ context.targetPaths, Fits lib pattern path
    · exact .inr ⟨hfits, fun path hpath => (hfirst path hpath).2 hfits⟩
    · exact .inl fun path hpath => ⟨fun hfit => hfits ⟨path, hpath, hfit⟩, fun hfound => hfits ((hfirst path hpath).1 hfound)⟩
  · intro h paths hperm inline hinline
    rw [firstMatchOf_path hpattern htarget hperm hinline]
    refine and_congr_right fun hscope => ?_
    cases h hscope with
    | inl hnone =>
      constructor
      · rintro ⟨path, hpath, hfound⟩
        exact absurd hfound (hnone path (hperm.mem_iff.1 (List.mem_of_mem_head? hpath))).2
      · rintro ⟨path, hpath, hfit⟩
        exact absurd hfit (hnone path (hperm.mem_iff.1 hpath)).1
    | inr hall =>
      obtain ⟨⟨path, hpath, hfit⟩, hfound⟩ := hall
      refine ⟨fun _ => ⟨path, hperm.mem_iff.2 hpath, hfit⟩, fun _ => ?_⟩
      cases paths with
      | nil => exact absurd (hperm.mem_iff.2 hpath) List.not_mem_nil
      | cons first paths => exact ⟨first, rfl, hfound first (hperm.mem_iff.1 List.mem_cons_self)⟩

def noStorageWrites : Rule where
  id := "no-storage-writes"
  severity := .absolute
  actions := ["tool.edit"]
  description := "The storage directory is not written to by hand."
  pattern := some ⟨.str "contains", .str "path", .str "storage/"⟩

theorem storageOnly_seen :
    SeesEveryPath literalPatterns (fun _ => none) { targetPaths := ["storage/a", "storage/b"] } noStorageWrites
      ⟨.str "contains", .str "path", .str "storage/"⟩ :=
  (seesEveryPath_iff literalPatterns (fun _ => none) _ noStorageWrites _ rfl rfl).2 (by decide +kernel)

/-- The path within the storage directory is not the first. -/
theorem readmeFirst_not_seen :
    ¬SeesEveryPath literalPatterns (fun _ => none) { targetPaths := ["README.md", "storage/a"] } noStorageWrites
      ⟨.str "contains", .str "path", .str "storage/"⟩ := by
  intro h
  have hseen := h ["README.md", "storage/a"] (.refl _) (fun _ => none) fun _ _ _ _ _ h => nomatch h
  have hmatched := congrArg (fun result => result.toOption.map Option.isSome)
    (hseen.2 ⟨by decide +kernel, "storage/a", by decide, by decide +kernel⟩)
  revert hmatched
  decide +kernel

end Quinn.Rules
