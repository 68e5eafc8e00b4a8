import Mathlib.Data.List.Flatten
import Quinn.Rules.Engine

/-! What an engine decides, without its cache: the first rule for the action that matches
decides, and the patterns compiled on the way are not seen from outside. -/

namespace Quinn.Rules

open Search Text

variable {Re : Type} {lib : Library Re} {compiled : Compiled Re} {context : Context} {α β : Type}

/-- The pattern stored in the process, else the rule's own. -/
def regexOf (lib : Library Re) (compiled : Compiled Re) (rule : Rule) (expr : Yaml) :
    Except Raised (Option Re) :=
  match compiled rule.id with
  | some re => .ok (some re)
  | none => compileExpr lib expr

def patternVerdict (lib : Library Re) (compiled : Compiled Re) (context : Context) (rule : Rule) :
    Except Raised Bool := do
  match rule.pattern with
  | none => return true
  | some pattern =>
    match ← resolvePatternTarget pattern.target context with
    | none => return false
    | some value =>
      if pattern.isRegex then
        let re ← regexOf lib compiled rule pattern.expr
        return re.any (lib.search · value)
      else if pattern.kind.equalsText "contains" then containsExpr pattern.expr value
      else if pattern.kind.equalsText "glob" then globMatches lib pattern.expr value
      else return false

def verdict (lib : Library Re) (compiled : Compiled Re) (context : Context) (rule : Rule) :
    Except Raised Bool := do
  if !(← scopeMatches rule context) then return false
  patternVerdict lib compiled context rule

def Faithful (lib : Library Re) (rules : List Rule) (inline : Compiled Re) : Prop :=
  ∀ r ∈ rules, ∀ p, r.pattern = some p → ∀ re, inline r.id = some re →
    compileExpr lib p.expr = .ok (some re)

/-- Whatever faithful cache it starts with, `m` comes to `x` and leaves the cache faithful. -/
def Yields (lib : Library Re) (rules : List Rule) (m : EvalM Re α) (x : Except Raised α) : Prop :=
  ∀ inline, Faithful lib rules inline →
    ∃ inline', Faithful lib rules inline' ∧ m.run inline = x.map (·, inline')

variable {rules : List Rule} {m : EvalM Re α} {x : Except Raised α}

theorem yields_lift (x : Except Raised α) : Yields lib rules (liftM x) x := by
  intro inline h
  refine ⟨inline, h, ?_⟩
  cases x <;> rfl

theorem yields_pure (a : α) : Yields lib rules (pure a) (pure a) := fun inline h => ⟨inline, h, rfl⟩

theorem Yields.bind {f : α → EvalM Re β} {g : α → Except Raised β} (h : Yields lib rules m x)
    (hf : ∀ a, Yields lib rules (f a) (g a)) : Yields lib rules (m >>= f) (x >>= g) := by
  intro inline hinline
  obtain ⟨inline', hinline', hrun⟩ := h inline hinline
  cases x with
  | error e =>
    refine ⟨inline', hinline', ?_⟩
    rw [StateT.run_bind, hrun]
    rfl
  | ok a =>
    obtain ⟨inline'', hinline'', hrun'⟩ := hf a inline' hinline'
    refine ⟨inline'', hinline'', ?_⟩
    rw [StateT.run_bind, hrun]
    exact hrun'

theorem yields_getCompiledRegex (hdistinct : (rules.map Rule.id).Nodup) {rule : Rule} (hrule : rule ∈ rules)
    {p : Pattern} (hp : rule.pattern = some p) :
    Yields lib rules (getCompiledRegex lib compiled rule p.expr) (regexOf lib compiled rule p.expr) := by
  intro inline h
  rw [getCompiledRegex, regexOf]
  cases hcompiled : compiled rule.id with
  | some re => exact ⟨inline, h, rfl⟩
  | none =>
    cases hinline : inline rule.id with
    | some re =>
      refine ⟨inline, h, ?_⟩
      rw [h rule hrule p hp re hinline]
      simp [StateT.run_bind, hinline]
      rfl
    | none =>
      cases hexpr : compileExpr lib p.expr with
      | error e =>
        refine ⟨inline, h, ?_⟩
        simp [StateT.run_bind, hinline, Except.map]
        rfl
      | ok re =>
        cases re with
        | none =>
          refine ⟨inline, h, ?_⟩
          simp [StateT.run_bind, hinline, Except.map]
          rfl
        | some re =>
          refine ⟨Function.update inline rule.id (some re), ?_, ?_⟩
          · intro r hr q hq re' hre'
            by_cases hid : r.id = rule.id
            · cases List.inj_on_of_nodup_map hdistinct hr hrule hid
              rw [Function.update_self] at hre'
              cases hp.symm.trans hq
              cases hre'
              exact hexpr
            · rw [Function.update_of_ne hid] at hre'
              exact h r hr q hq re' hre'
          · simp [StateT.run_bind, hinline, Except.map]
            rfl

theorem yields_patternMatches (hdistinct : (rules.map Rule.id).Nodup) {rule : Rule} (hrule : rule ∈ rules) :
    Yields lib rules (patternMatches lib compiled rule context)
      (patternVerdict lib compiled context rule) := by
  unfold patternMatches patternVerdict
  cases hp : rule.pattern with
  | none => exact yields_pure true
  | some pattern =>
    refine (yields_lift _).bind fun value => ?_
    cases value with
    | none => exact yields_pure false
    | some value =>
      dsimp only
      split
      · exact (yields_getCompiledRegex hdistinct hrule hp).bind fun _ => yields_pure _
      · split
        · exact yields_lift _
        · split
          · exact yields_lift _
          · exact yields_pure false

variable (lib compiled context) in
theorem yields_firstMatchOf (hdistinct : (rules.map Rule.id).Nodup) {l : List Rule}
    (hl : ∀ r ∈ l, r ∈ rules) :
    Yields lib rules (firstMatchOf lib compiled context l) (firstMatch (verdict lib compiled context) l) := by
  induction l with
  | nil => exact yields_pure none
  | cons rule l ih =>
    have hrest := ih fun r hr => hl r (List.mem_cons_of_mem _ hr)
    have hrule := hl rule List.mem_cons_self
    rw [firstMatch_cons, verdict, bind_assoc, firstMatchOf]
    refine (yields_lift _).bind fun inScope => ?_
    cases inScope with
    | false => exact hrest
    | true =>
      refine (yields_patternMatches hdistinct hrule).bind fun matched => ?_
      cases matched with
      | false => exact hrest
      | true => exact yields_pure (some rule)

/-- The rules for an action, in the order of the rule set. -/
def candidates (rules : List Rule) (action : String) : List Rule :=
  rules.flatMap fun r => (r.actions.filter (· = action)).map fun _ => r

theorem foldl_update (r : Rule) (action : String) (actions : List String) (index : String → List Rule) :
    actions.foldl (fun index action => Function.update index action (index action ++ [r])) index action =
      index action ++ (actions.filter (· = action)).map fun _ => r := by
  induction actions generalizing index with
  | nil => simp
  | cons a actions ih =>
    rw [List.foldl_cons, ih]
    by_cases ha : a = action
    · simp [ha]
    · rw [Function.update_of_ne (Ne.symm ha)]
      simp [ha]

theorem rulesByAction_eq (rules : List Rule) (action : String) :
    rulesByAction rules action = candidates rules action := by
  suffices h : ∀ index : String → List Rule,
      rules.foldl (fun index rule => rule.actions.foldl
        (fun index action => Function.update index action (index action ++ [rule])) index) index action =
      index action ++ candidates rules action by
    exact h _
  induction rules with
  | nil => simp [candidates]
  | cons r rules ih =>
    intro index
    rw [List.foldl_cons, ih, foldl_update]
    simp [candidates]

theorem mem_candidates {rules : List Rule} {action : String} {r : Rule} :
    r ∈ candidates rules action ↔ r ∈ rules ∧ action ∈ r.actions := by
  simp only [candidates, List.mem_flatMap, List.mem_map, List.mem_filter, decide_eq_true_eq]
  constructor
  · rintro ⟨r', hr', a, ⟨ha, rfl⟩, rfl⟩
    exact ⟨hr', ha⟩
  · rintro ⟨hr, ha⟩
    exact ⟨r, hr, action, ⟨ha, rfl⟩, rfl⟩

theorem decision_eq (ruleset : RuleSet) (db : Db) (action : String) (flags : Flags) :
    decision lib compiled ruleset db action context flags =
      (firstMatch (verdict lib compiled context) (candidates ruleset.rules action)).map
        (decisionFor db context flags) := by
  have hmem : ∀ r ∈ candidates ruleset.rules action, r ∈ ruleset.rules := fun r hr => (mem_candidates.1 hr).1
  obtain ⟨inline', -, hrun⟩ := yields_firstMatchOf lib compiled context ruleset.distinct hmem
    (fun _ => none) (fun _ _ _ _ _ h => nomatch h)
  rw [decision, evaluate, rulesByAction_eq, StateT.run'_eq, StateT.run_bind, hrun]
  cases firstMatch (verdict lib compiled context) (candidates ruleset.rules action) <;> rfl

theorem decisionFor_rule (db : Db) (flags : Flags) (matched : Option Rule) :
    (decisionFor db context flags matched).rule = matched := by
  cases matched with
  | none => rfl
  | some rule =>
    rw [decisionFor, applySeverity]
    cases rule.severity with
    | absolute => rfl
    | suggested => rfl
    | encouraged =>
      cases flags.justify with
      | none => rfl
      | some bead => dsimp only; split <;> rfl
    | required =>
      cases flags.override with
      | none => rfl
      | some bead => dsimp only; split <;> rfl

end Quinn.Rules
