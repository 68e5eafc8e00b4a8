import Quinn.Rules.Isolation
import Quinn.Rules.Shadowing
import Quinn.Session.ToolGuard

/-! `qn_tool_guard.py`: the hook that asks the engine before a tool is used, in a process of its own each time.  What
goes wrong with the rules lets the call through; what is wrong with the call does not. -/

namespace Quinn.Rules.Guard

open Logs Search Session.ToolGuard Text

def truthy : Json → Bool
  | .null => false
  | .bool b => b
  | .num x => decide (x ≠ ((0 : ℚ) : WithTop ℚ))
  | .nan => true
  | .str s => decide (s ≠ "")
  | .arr items => !items.isEmpty
  | .obj fields => !fields.isEmpty

/-- Values are looked at as texts, `None` alone is not. -/
def textOf (str : Json → String) : Json → Option String
  | .null => none
  | v => some (str v)

structure Environ where
  quinnOrgPath : Option String := none
  orgPath : Option String := none
  quinnWorkerId : Option String := none
  workerId : Option String := none
  quinnEnv : Option String := none

/-- `a or b`, of two variables -/
def orElse (a b : Option String) : Option String :=
  match a with
  | none | some "" => b
  | some s => some s

def Environ.org (env : Environ) : Option String := (orElse env.quinnOrgPath env.orgPath).filter (· ≠ "")

def Environ.worker (env : Environ) : Option String := orElse env.quinnWorkerId env.workerId

/-- What there is at the path of an organisation: its rules, and whether `live/rules-audit.jsonl` can be made and
written. -/
structure OrgDir where
  org : Org
  auditOpens : Bool

structure GuardResult where
  allowed : Bool
  ruleId : Option RuleId := none
  message : Option String := none

variable {Re : Type} (lib : Library Re) (str : Json → String)

def extractActionAndBody (toolName toolInput : Json) : Option (Option String × Option String) := do
  if toolName = .str "Bash" then
    let cmd ← getD toolInput "command" (.str "")
    return (some "shell.bash", textOf str cmd)
  else if toolName = .str "Write" ∨ toolName = .str "NotebookEdit" then
    let path ← getD toolInput "file_path" (← getD toolInput "notebook_path" (.str ""))
    let content ← getD toolInput "content" (← getD toolInput "new_source" (.str ""))
    return (some "session.write", some (str path ++ " " ++ str content))
  else if toolName = .str "Edit" then
    let path ← getD toolInput "file_path" (.str "")
    let newStr ← getD toolInput "new_string" (.str "")
    return (some "session.edit", some (str path ++ " " ++ str newStr))
  else return (none, some "")

def NamesFile (toolName : Json) : Prop := toolName = .str "Write" ∨ toolName = .str "Edit" ∨ toolName = .str "Read"

instance : DecidablePred NamesFile := fun _ => inferInstanceAs (Decidable (_ ∨ _ ∨ _))

def extractTargetPaths (toolName toolInput : Json) : Option (List String) := do
  if NamesFile toolName then
    let p ← getD toolInput "file_path" .null
    return if truthy p then [str p] else []
  else return []

/-- `worker_role` and `worker_role_level` are `None`, and `args` is empty. -/
def contextOf (env : Environ) (body : Option String) (targetPaths : List String) : Context where
  workerId := env.worker
  env := some (env.quinnEnv.getD "dev")
  body := body
  command := body
  targetPaths := targetPaths

def resultOf (decision : Decision) : GuardResult :=
  if decision.kind = .allow ∨ decision.kind = .allowWithNudge then
    { allowed := true, message := some decision.message }
  else
    let ruleId := (decision.rule.map Rule.id).getD "unknown"
    let msg := if decision.message = "" then s!"Blocked by rule: {ruleId}" else decision.message
    { allowed := false, ruleId := some ruleId
      message := some (if decision.remediation = "" then msg else msg ++ "\n" ++ decision.remediation) }

abbrev Answer := GuardResult × List AuditRecord

def askEngine (env : Environ) (dir : OrgDir) (action : String) (body : Option String) (toolName toolInput : Json) :
    Option Answer := do
  match (loadRules lib dir.org).run fun _ => none with
  | (.error _, _) => none
  | (.ok ruleset, compiled) =>
    if dir.auditOpens then
      let targetPaths ← extractTargetPaths str toolName toolInput
      let context := contextOf env body targetPaths
      match (evaluate lib compiled ruleset noDb action context {}).run' fun _ => none with
      | .error _ => none
      | .ok (decision, record) => return (resultOf decision, [record])
    else none

/-- `evaluate_tool_call`, which may raise before its `try`. -/
def evaluateToolCall (env : Environ) (dir : OrgDir) (toolName toolInput : Json) : Option Answer := do
  match ← extractActionAndBody str toolName toolInput with
  | (none, _) => return ({ allowed := true }, [])
  | (some action, body) =>
    return (askEngine lib str env dir action body toolName toolInput).getD ({ allowed := true }, [])

inductive Stdin
  | unreadable | blank | notJson
  | json (payload : Json)

inductive Ending
  | exits (status : ℕ) (printed : Option String)
  /-- an exception nobody catches -/
  | raises

def Ending.status : Ending → ℕ
  | .exits status _ => status
  | .raises => 1

structure Exit where
  ending : Ending
  audit : List AuditRecord := []

def letThrough : Exit where
  ending := .exits 0 none

def exitOf (answer : Answer) : Exit where
  ending :=
    if answer.1.allowed then .exits 0 none
    else
      let ruleId := answer.1.ruleId.getD "None"
      .exits 1 (orElse answer.1.message (some s!"Blocked by board rule: {ruleId}"))
  audit := answer.2

/-- What is answered to the call that came in, unless something raises. -/
def answer (env : Environ) (dir : OrgDir) (payload : Json) : Option Answer := do
  let toolName ← getD payload "tool_name" (.str "")
  let toolInput ← getD payload "tool_input" (.obj [])
  evaluateToolCall lib str env dir toolName toolInput

def toolGuardMain (dirs : String → OrgDir) (env : Environ) (stdin : Stdin) : Exit :=
  match env.org with
  | none => letThrough
  | some path =>
    match stdin with
    | .unreadable | .blank | .notJson => letThrough
    | .json payload =>
      match answer lib str env (dirs path) payload with
      | none => { ending := .raises }
      | some answer => exitOf answer

variable {lib : Library Re} {str : Json → String} {ruleset : RuleSet} {compiled : Compiled Re} {action : String}
  {context : Context} {r : Rule} {rules : List Rule}

structure Decides (lib : Library Re) (rules : List Rule) (action : String) (context : Context) (r : Rule) : Prop where
  mem : r ∈ candidates rules action
  matches_self : ownVerdict lib context r = .ok true
  ahead : ∀ s ∈ ahead rules action r, ownVerdict lib context s = .ok false

theorem firstStop_eq_none {test : Rule → Except Raised Bool} {l : List Rule} :
    firstStop test l = none ↔ ∀ s ∈ l, test s = .ok false := by
  induction l with
  | nil => exact iff_of_true rfl (List.forall_mem_nil _)
  | cons s l ih =>
    rw [firstStop, List.forall_mem_cons]
    split
    · next hs => rw [ih, and_iff_right hs]
    · next hs => exact iff_of_false (by simp) fun h => hs h.1

theorem firstStop_candidates {test : Rule → Except Raised Bool} (hr : r ∈ candidates ruleset.rules action)
    (hstop : test r ≠ .ok false) : firstStop test (candidates ruleset.rules action) =
      some ((firstStop test (ahead ruleset.rules action r)).getD r) :=
  firstStop_of_mem Rule.id hr (fun _ hs => eq_of_id hr hs) hstop

theorem decides_iff : Decides lib ruleset.rules action context r ↔
    firstMatch (ownVerdict lib context) (candidates ruleset.rules action) = .ok (some r) := by
  constructor
  · intro h
    have hstop : ownVerdict lib context r ≠ .ok false := by
      rw [h.matches_self]
      exact fun h => nomatch h
    refine firstMatch_eq_firstStop.2 ⟨?_, h.matches_self⟩
    rw [firstStop_candidates h.mem hstop, firstStop_eq_none.2 h.ahead]
    rfl
  · intro h
    obtain ⟨hstop, htrue⟩ := firstMatch_eq_firstStop.1 h
    obtain ⟨hmem, hne⟩ := firstStop_mem hstop
    refine ⟨hmem, htrue, firstStop_eq_none.1 ?_⟩
    rw [firstStop_candidates hmem hne] at hstop
    cases hahead : firstStop (ownVerdict lib context) (ahead ruleset.rules action r) with
    | none => rfl
    | some s =>
      -- the rule would stand ahead of itself
      rw [hahead] at hstop
      obtain rfl : s = r := Option.some.inj hstop
      have hid := List.mem_takeWhile_imp (firstStop_mem hahead).1
      exact absurd rfl (of_decide_eq_true hid)

theorem firstMatch_verdict {org : Org} (hload : (loadRules lib org).run (fun _ => none) = (.ok ruleset, compiled)) :
    firstMatch (verdict lib compiled context) (candidates ruleset.rules action) =
      firstMatch (ownVerdict lib context) (candidates ruleset.rules action) :=
  firstMatch_congr fun r hr =>
    verdict_of_registered (loadRules_ok hload r (mem_candidates.1 (mem_of_mem_reached hr)).1)

theorem evaluate_eq (db : Db) (flags : Flags) :
    (evaluate lib compiled ruleset db action context flags).run' (fun _ => none) =
      (firstMatch (verdict lib compiled context) (candidates ruleset.rules action)).map fun matched =>
        (decisionFor db context flags matched,
          auditRecord action context flags (decisionFor db context flags matched)) := by
  have hmem : ∀ r ∈ candidates ruleset.rules action, r ∈ ruleset.rules := fun r hr => (mem_candidates.1 hr).1
  obtain ⟨inline', -, hrun⟩ := yields_firstMatchOf lib compiled context ruleset.distinct hmem
    (fun _ => none) (fun _ _ _ _ _ h => nomatch h)
  rw [evaluate, rulesByAction_eq, StateT.run'_eq, StateT.run_bind, hrun]
  cases firstMatch (verdict lib compiled context) (candidates ruleset.rules action) <;> rfl

def guardedTools : List String := ["Bash", "Write", "NotebookEdit", "Edit"]

def IsDict (v : Json) : Prop := ∃ fields, v = .obj fields

/-- No `dict` came in, or the tool is one that is looked at and its input is no `dict`. -/
def Malformed (payload : Json) : Prop :=
  ¬IsDict payload ∨ ∃ tool ∈ guardedTools, ∃ toolInput, getD payload "tool_name" (.str "") = some (.str tool) ∧
    getD payload "tool_input" (.obj []) = some toolInput ∧ ¬IsDict toolInput

/-- What the engine is asked about a call. -/
structure Asks (str : Json → String) (payload : Json) (action : String) (body : Option String)
    (targetPaths : List String) : Prop where
  exists_input : ∃ toolName toolInput, getD payload "tool_name" (.str "") = some toolName ∧
    getD payload "tool_input" (.obj []) = some toolInput ∧
    extractActionAndBody str toolName toolInput = some (some action, body) ∧
    extractTargetPaths str toolName toolInput = some targetPaths

def refusal (action : String) (context : Context) (r : Rule) : Exit :=
  let decision := applySeverity noDb context {} r
  { ending := .exits 1 (some (decision.message ++ "
" ++ decision.remediation))
    audit := [auditRecord action context {} decision] }

theorem getD_obj (fields : List (String × Json)) (key : String) (default : Json) :
    getD (.obj fields) key default = some ((Json.get fields key).getD default) := rfl

theorem getD_of_not_isDict {v : Json} (h : ¬IsDict v) (key : String) (default : Json) : getD v key default = none := by
  cases v with
  | obj fields => exact absurd ⟨fields, rfl⟩ h
  | null | bool _ | num _ | nan | str _ | arr _ => rfl

theorem isDict_of_getD {v w : Json} {key : String} {default : Json} (h : getD v key default = some w) : IsDict v := by
  by_contra hnot
  rw [getD_of_not_isDict hnot] at h
  cases h

theorem append_ne_left {s : String} (h : s ≠ "") (t : String) : s ++ t ≠ "" :=
  fun heq => h (String.append_eq_empty_iff.1 heq).1

structure Refusing (decision : Decision) : Prop where
  kind : ¬(decision.kind = .allow ∨ decision.kind = .allowWithNudge)
  message : decision.message ≠ ""
  remediation : decision.remediation ≠ ""

theorem refusing_applySeverity (hseverity : r.severity ≠ .suggested) : Refusing (applySeverity noDb context {} r) := by
  have hmessage (s t u v : String) (hs : s ≠ "") : s ++ t ++ u ++ v ≠ "" :=
    append_ne_left (append_ne_left (append_ne_left hs t) u) v
  unfold applySeverity
  cases h : r.severity with
  | suggested => exact absurd h hseverity
  | absolute =>
    exact ⟨by simp, hmessage _ _ _ _ (by decide), by simp⟩
  | encouraged =>
    exact ⟨by simp, hmessage _ _ _ _ (by decide), by simp⟩
  | required =>
    exact ⟨by simp, hmessage _ _ _ _ (by decide), by simp⟩

theorem orElse_some {s : String} (h : s ≠ "") (t : Option String) : orElse (some s) t = some s := by
  unfold orElse
  split
  · cases ‹some s = none›
  · next heq => exact absurd (Option.some.inj heq) h
  · next heq => exact congrArg some (Option.some.inj heq).symm

theorem exitOf_of_refusing {decision : Decision} {record : AuditRecord} (h : Refusing decision) :
    exitOf (resultOf decision, [record]) =
      { ending := .exits 1 (some (decision.message ++ "\n" ++ decision.remediation)), audit := [record] } := by
  have hprinted := append_ne_left (append_ne_left h.message "\n") decision.remediation
  rw [resultOf, if_neg h.kind]
  simp [exitOf, h.message, h.remediation, orElse_some hprinted]

theorem exitOf_allowed {decision : Decision} (h : decision.kind = .allow ∨ decision.kind = .allowWithNudge)
    (audit : List AuditRecord) : (exitOf (resultOf decision, audit)).ending = .exits 0 none := by
  rw [resultOf, if_pos h]
  rfl

variable {env : Environ} {dir : OrgDir} {toolName toolInput payload : Json} {body : Option String}
  {targetPaths : List String}

variable (str) in
theorem extractTargetPaths_of_isDict (h : IsDict toolInput) (toolName : Json) :
    ∃ targetPaths, extractTargetPaths str toolName toolInput = some targetPaths := by
  obtain ⟨fields, rfl⟩ := h
  unfold extractTargetPaths
  split
  · exact ⟨_, rfl⟩
  · exact ⟨_, rfl⟩

theorem extractActionAndBody_eq_none : extractActionAndBody str toolName toolInput = none ↔
    (∃ tool ∈ guardedTools, toolName = .str tool) ∧ ¬IsDict toolInput := by
  by_cases hdict : IsDict toolInput
  · obtain ⟨fields, rfl⟩ := hdict
    refine iff_of_false ?_ fun h => h.2 ⟨fields, rfl⟩
    unfold extractActionAndBody
    simp only [getD_obj]
    split
    · simp
    · split
      · simp
      · split <;> simp
  · rw [and_iff_left hdict]
    unfold extractActionAndBody
    simp only [getD_of_not_isDict hdict, guardedTools, List.mem_cons, List.not_mem_nil, or_false, exists_eq_or_imp,
      exists_eq_left]
    split
    · next h => simp [h]
    · split
      · next h => obtain rfl | rfl := h <;> simp
      · split <;> simp_all

theorem isDict_of_extract (h : extractActionAndBody str toolName toolInput = some (some action, body)) :
    IsDict toolInput := by
  unfold extractActionAndBody at h
  split at h
  · obtain ⟨_, hget, -⟩ := Option.bind_eq_some_iff.1 h
    exact isDict_of_getD hget
  · split at h
    · obtain ⟨_, hget, -⟩ := Option.bind_eq_some_iff.1 h
      exact isDict_of_getD hget
    · split at h
      · obtain ⟨_, hget, -⟩ := Option.bind_eq_some_iff.1 h
        exact isDict_of_getD hget
      · cases h

theorem askEngine_eq (htargetPaths : extractTargetPaths str toolName toolInput = some targetPaths)
    (hload : loaded lib dir.org = .ok ruleset) (hopens : dir.auditOpens) :
    askEngine lib str env dir action body toolName toolInput =
      match firstMatch (ownVerdict lib (contextOf env body targetPaths)) (candidates ruleset.rules action) with
      | .error _ => none
      | .ok matched =>
        let decision := decisionFor noDb (contextOf env body targetPaths) {} matched
        some (resultOf decision, [auditRecord action (contextOf env body targetPaths) {} decision]) := by
  have hrun : (loadRules lib dir.org).run (fun _ => none) =
      (.ok ruleset, ((loadRules lib dir.org).run fun _ => none).2) := Prod.ext hload rfl
  rw [askEngine, hrun]
  dsimp only
  rw [if_pos hopens, htargetPaths]
  dsimp only [Option.bind_eq_bind, Option.bind_some]
  rw [evaluate_eq, firstMatch_verdict hrun]
  cases firstMatch (ownVerdict lib (contextOf env body targetPaths)) (candidates ruleset.rules action) <;> rfl

theorem askEngine_eq_none (h : ¬(dir.auditOpens ∧ ∃ ruleset, loaded lib dir.org = .ok ruleset)) :
    askEngine lib str env dir action body toolName toolInput = none := by
  rw [askEngine]
  split
  · rfl
  · next ruleset compiled hrun => exact if_neg fun hopens => h ⟨hopens, ruleset, congrArg Prod.fst hrun⟩

theorem exitOf_applySeverity (hseverity : r.severity ≠ .suggested) :
    exitOf (resultOf (applySeverity noDb context {} r),
      [auditRecord action context {} (applySeverity noDb context {} r)]) = refusal action context r :=
  exitOf_of_refusing (refusing_applySeverity hseverity)

variable (lib env dir action body) in
theorem askEngine_cases (htargetPaths : extractTargetPaths str toolName toolInput = some targetPaths) :
    let exit := exitOf ((askEngine lib str env dir action body toolName toolInput).getD ({ allowed := true }, []))
    let found (ruleset : RuleSet) (r : Rule) := dir.auditOpens ∧ loaded lib dir.org = .ok ruleset ∧
      firstMatch (ownVerdict lib (contextOf env body targetPaths)) (candidates ruleset.rules action) = .ok (some r) ∧
      r.severity ≠ .suggested
    (exit.ending = .exits 0 none ∧ ∀ ruleset r, ¬found ruleset r) ∨
      ∃ ruleset r, found ruleset r ∧ exit = refusal action (contextOf env body targetPaths) r := by
  by_cases hready : dir.auditOpens ∧ ∃ ruleset, loaded lib dir.org = .ok ruleset
  · obtain ⟨hopens, ruleset, hload⟩ := hready
    rw [askEngine_eq htargetPaths hload hopens]
    cases hmatch : firstMatch (ownVerdict lib (contextOf env body targetPaths)) (candidates ruleset.rules action) with
    | error e =>
      refine .inl ⟨rfl, ?_⟩
      rintro ruleset' r ⟨-, hload', hmatch', -⟩
      cases hload.symm.trans hload'
      cases hmatch.symm.trans hmatch'
    | ok matched =>
      cases matched with
      | none =>
        refine .inl ⟨rfl, ?_⟩
        rintro ruleset' r ⟨-, hload', hmatch', -⟩
        cases hload.symm.trans hload'
        cases hmatch.symm.trans hmatch'
      | some r =>
        by_cases hseverity : r.severity = .suggested
        · refine .inl ⟨exitOf_allowed (.inr ?_) _, ?_⟩
          · rw [decisionFor, applySeverity, hseverity]
          · rintro ruleset' r' ⟨-, hload', hmatch', hmore⟩
            cases hload.symm.trans hload'
            cases hmatch.symm.trans hmatch'
            exact hmore hseverity
        · exact .inr ⟨ruleset, r, ⟨hopens, hload, hmatch, hseverity⟩, exitOf_applySeverity hseverity⟩
  · rw [askEngine_eq_none hready]
    refine .inl ⟨rfl, ?_⟩
    rintro ruleset r ⟨hopens, hload, -⟩
    exact hready ⟨hopens, ruleset, hload⟩

structure RefusedBy (lib : Library Re) (str : Json → String) (env : Environ) (dir : OrgDir) (payload : Json)
    (action : String) (context : Context) (r : Rule) : Prop where
  asks : ∃ body targetPaths, Asks str payload action body targetPaths ∧ context = contextOf env body targetPaths
  auditOpens : dir.auditOpens
  decides : ∃ ruleset, loaded lib dir.org = .ok ruleset ∧ Decides lib ruleset.rules action context r
  severity : r.severity ≠ .suggested

theorem evaluateToolCall_eq_none : evaluateToolCall lib str env dir toolName toolInput = none ↔
    extractActionAndBody str toolName toolInput = none := by
  rw [evaluateToolCall]
  cases extractActionAndBody str toolName toolInput with
  | none => exact iff_of_true rfl rfl
  | some asked =>
    obtain ⟨_ | action, body⟩ := asked
    · exact iff_of_false (by simp) (by simp)
    · exact iff_of_false (by simp) (by simp)

theorem answer_eq (hname : getD payload "tool_name" (.str "") = some toolName)
    (hinput : getD payload "tool_input" (.obj []) = some toolInput) :
    answer lib str env dir payload = evaluateToolCall lib str env dir toolName toolInput := by
  rw [answer, hname, hinput]
  rfl

theorem answer_eq_none : answer lib str env dir payload = none ↔ Malformed payload := by
  by_cases hdict : IsDict payload
  · obtain ⟨fields, rfl⟩ := hdict
    have hname := getD_obj fields "tool_name" (.str "")
    have hinput := getD_obj fields "tool_input" (.obj [])
    rw [answer_eq hname hinput, evaluateToolCall_eq_none, extractActionAndBody_eq_none, Malformed,
      or_iff_right (not_not_intro ⟨fields, rfl⟩), hname, hinput]
    constructor
    · rintro ⟨⟨tool, hmem, htool⟩, hnot⟩
      exact ⟨tool, hmem, _, congrArg some htool, rfl, hnot⟩
    · rintro ⟨tool, hmem, toolInput, htool, htoolInput, hnot⟩
      exact ⟨⟨tool, hmem, Option.some.inj htool⟩, Option.some.inj htoolInput ▸ hnot⟩
  · rw [answer, getD_of_not_isDict hdict]
    exact iff_of_true rfl (.inl hdict)

section asked

variable (hname : getD payload "tool_name" (.str "") = some toolName)
  (hinput : getD payload "tool_input" (.obj []) = some toolInput)

include hname hinput in
theorem asks_iff {action' : String} {body' : Option String} {targetPaths' : List String} :
    Asks str payload action' body' targetPaths' ↔
      extractActionAndBody str toolName toolInput = some (some action', body') ∧
        extractTargetPaths str toolName toolInput = some targetPaths' := by
  constructor
  · rintro ⟨toolName', toolInput', hname', hinput', hasked⟩
    cases hname.symm.trans hname'
    cases hinput.symm.trans hinput'
    exact hasked
  · intro hasked
    exact ⟨toolName, toolInput, hname, hinput, hasked⟩

include hname hinput in
theorem refusedBy_iff {action' : String} {context' : Context}
    (hextract : extractActionAndBody str toolName toolInput = some (some action, body))
    (htargetPaths : extractTargetPaths str toolName toolInput = some targetPaths) :
    RefusedBy lib str env dir payload action' context' r ↔
      action' = action ∧ context' = contextOf env body targetPaths ∧ ∃ ruleset, dir.auditOpens ∧
        loaded lib dir.org = .ok ruleset ∧
        firstMatch (ownVerdict lib context') (candidates ruleset.rules action') = .ok (some r) ∧
        r.severity ≠ .suggested := by
  constructor
  · rintro ⟨⟨body', targetPaths', hasks, rfl⟩, hopens, ⟨ruleset, hload, hdecides⟩, hseverity⟩
    obtain ⟨hextract', htargetPaths'⟩ := (asks_iff hname hinput).1 hasks
    cases hextract.symm.trans hextract'
    cases htargetPaths.symm.trans htargetPaths'
    exact ⟨rfl, rfl, ruleset, hopens, hload, decides_iff.1 hdecides, hseverity⟩
  · rintro ⟨rfl, rfl, ruleset, hopens, hload, hmatch, hseverity⟩
    exact ⟨⟨body, targetPaths, (asks_iff hname hinput).2 ⟨hextract, htargetPaths⟩, rfl⟩, hopens,
      ⟨ruleset, hload, decides_iff.2 hmatch⟩, hseverity⟩

end asked

theorem answer_cases {answered : Answer} (h : answer lib str env dir payload = some answered) :
    ((exitOf answered).ending = .exits 0 none ∧
        ∀ action context r, ¬RefusedBy lib str env dir payload action context r) ∨
      ((∃ action context r, RefusedBy lib str env dir payload action context r) ∧
        ∀ action context r, RefusedBy lib str env dir payload action context r →
          exitOf answered = refusal action context r) := by
  obtain ⟨toolName, hname, h⟩ := Option.bind_eq_some_iff.1 h
  obtain ⟨toolInput, hinput, h⟩ := Option.bind_eq_some_iff.1 h
  obtain ⟨⟨_ | action, body⟩, hextract, h⟩ := Option.bind_eq_some_iff.1 h
  · obtain rfl := Option.some.inj h
    refine .inl ⟨rfl, fun action context r hrefused => ?_⟩
    obtain ⟨body', targetPaths', hasks, -⟩ := hrefused.asks
    cases hextract.symm.trans ((asks_iff hname hinput).1 hasks).1
  · obtain rfl := Option.some.inj h
    obtain ⟨targetPaths, htargetPaths⟩ := extractTargetPaths_of_isDict str (isDict_of_extract hextract) toolName
    obtain ⟨hexit, hnot⟩ | ⟨ruleset, r, hfound, hexit⟩ :=
      askEngine_cases lib action env dir body htargetPaths
    · refine .inl ⟨hexit, fun action' context' r h => ?_⟩
      obtain ⟨rfl, rfl, ruleset, hfound⟩ := (refusedBy_iff hname hinput hextract htargetPaths).1 h
      exact hnot ruleset r hfound
    · have hrefused := (refusedBy_iff hname hinput hextract htargetPaths).2 ⟨rfl, rfl, ruleset, hfound⟩
      refine .inr ⟨⟨action, _, r, hrefused⟩, fun action' context' r' h => ?_⟩
      obtain ⟨rfl, rfl, ruleset', hfound'⟩ := (refusedBy_iff hname hinput hextract htargetPaths).1 h
      cases hfound.2.1.symm.trans hfound'.2.1
      cases hfound.2.2.1.symm.trans hfound'.2.2.1
      exact hexit

theorem answer_of_refusedBy (h : RefusedBy lib str env dir payload action context r) :
    ∃ answered, answer lib str env dir payload = some answered := by
  obtain ⟨body, targetPaths, ⟨toolName, toolInput, hname, hinput, hextract, -⟩, -⟩ := h.asks
  rw [answer_eq hname hinput, evaluateToolCall, hextract]
  exact ⟨_, rfl⟩

variable (lib str) (dirs : String → OrgDir)

theorem toolGuardMain_of_malformed {path : String} (horg : env.org = some path) (h : Malformed payload) :
    toolGuardMain lib str dirs env (.json payload) = { ending := .raises } := by
  have hanswer : answer lib str env (dirs path) payload = none := answer_eq_none.2 h
  rw [toolGuardMain, horg]
  dsimp only
  rw [hanswer]

theorem toolGuardMain_of_refusedBy {path : String} (horg : env.org = some path)
    (h : RefusedBy lib str env (dirs path) payload action context r) :
    toolGuardMain lib str dirs env (.json payload) = refusal action context r := by
  obtain ⟨answered, hanswer⟩ := answer_of_refusedBy h
  rw [toolGuardMain, horg]
  dsimp only
  rw [hanswer]
  obtain ⟨-, hnot⟩ | ⟨-, hrefusal⟩ := answer_cases hanswer
  · exact absurd h (hnot action context r)
  · exact hrefusal action context r h

theorem toolGuardMain_cases (env : Environ) (stdin : Stdin) :
    (toolGuardMain lib str dirs env stdin).ending = .exits 0 none ∨
      ∃ path payload, env.org = some path ∧ stdin = .json payload ∧
        (Malformed payload ∨ ∃ action context r, RefusedBy lib str env (dirs path) payload action context r) := by
  unfold toolGuardMain
  cases env.org with
  | none => exact .inl rfl
  | some path =>
    cases stdin with
    | unreadable | blank | notJson => exact .inl rfl
    | json payload =>
      dsimp only
      cases hanswer : answer lib str env (dirs path) payload with
      | none => exact .inr ⟨path, payload, rfl, rfl, .inl (answer_eq_none.1 hanswer)⟩
      | some answered =>
        obtain ⟨hexit, -⟩ | ⟨hrefused, -⟩ := answer_cases hanswer
        · exact .inl hexit
        · exact .inr ⟨path, payload, rfl, rfl, .inr hrefused⟩

/-- A call is refused if something is wrong with it, or if the rules can be read, the log can be written, and the
first rule that matches is more than a suggestion; that rule is then what is printed and logged.  Every other call is
let through, whatever goes wrong with the rules. -/
theorem refuses_iff (env : Environ) (stdin : Stdin) :
    ((toolGuardMain lib str dirs env stdin).ending.status = 1 ↔
      ∃ path payload, env.org = some path ∧ stdin = .json payload ∧
        (Malformed payload ∨ ∃ action context r, RefusedBy lib str env (dirs path) payload action context r)) ∧
    (∀ path payload action context r, env.org = some path ∧ stdin = .json payload ∧
        RefusedBy lib str env (dirs path) payload action context r →
      toolGuardMain lib str dirs env stdin = refusal action context r) ∧
    ((toolGuardMain lib str dirs env stdin).ending.status ≠ 1 →
      (toolGuardMain lib str dirs env stdin).ending = .exits 0 none) := by
  refine ⟨⟨fun hstatus => ?_, ?_⟩, ?_, fun hstatus => ?_⟩
  · refine (toolGuardMain_cases lib str dirs env stdin).resolve_left fun hexit => ?_
    rw [hexit] at hstatus
    cases hstatus
  · rintro ⟨path, payload, horg, rfl, hmalformed | ⟨action, context, r, hrefused⟩⟩
    · rw [toolGuardMain_of_malformed lib str dirs horg hmalformed]
      rfl
    · rw [toolGuardMain_of_refusedBy lib str dirs horg hrefused]
      rfl
  · rintro path payload action context r ⟨horg, rfl, hrefused⟩
    exact toolGuardMain_of_refusedBy lib str dirs horg hrefused
  · refine (toolGuardMain_cases lib str dirs env stdin).resolve_right ?_
    rintro ⟨path, payload, horg, rfl, hmalformed | ⟨action, context, r, hrefused⟩⟩
    · rw [toolGuardMain_of_malformed lib str dirs horg hmalformed] at hstatus
      exact hstatus rfl
    · rw [toolGuardMain_of_refusedBy lib str dirs horg hrefused] at hstatus
      exact hstatus rfl

variable {lib str}

/-- A target of patterns that no call of the tool has. -/
def Unseen (toolName : Json) : Yaml → Prop
  | .str t => t ≠ "body" ∧ t ≠ "command" ∧ (t = "path" → ¬NamesFile toolName)
  | _ => False

instance (toolName : Json) : DecidablePred (Unseen toolName) := fun target => by
  unfold Unseen
  split <;> infer_instance

def PrefixIsText (scope : Scope) : Prop :=
  match scope.targetPathPrefix with
  | .null | .str _ => True
  | _ => False

instance : DecidablePred PrefixIsText := fun scope => by
  unfold PrefixIsText
  split <;> infer_instance

/-- The rule asks for what no call of the tool has: a role, a level, an argument, or a file where the tool is none of
those whose file is looked at. -/
def Inert (toolName : Json) (r : Rule) : Prop :=
  (∃ scope ∈ r.scope, ¬scope.workerRole.isNull ∨ ¬scope.workerRoleMinLevel.isNull ∨
    ¬scope.targetPathPrefix.isNull ∧ ¬NamesFile toolName) ∨
  (∃ pattern ∈ r.pattern, Unseen toolName pattern.target) ∧ ∀ scope ∈ r.scope, PrefixIsText scope

instance (toolName : Json) : DecidablePred (Inert toolName) := fun _ => inferInstanceAs (Decidable (_ ∨ _))

theorem equalsText_none {y : Yaml} (h : ¬y.isNull) : ¬y.equalsText none := by
  cases y <;> simp_all [Yaml.isNull, Yaml.equalsText]

theorem levelReached_none (y : Yaml) : levelReached y none = .ok y.isNull := by
  cases y <;> rfl

theorem prefixFound_nil (y : Yaml) : prefixFound y [] = .ok y.isNull := by
  cases y <;> rfl

theorem prefixFound_of_text {scope : Scope} (h : PrefixIsText scope) (paths : List String) :
    ∃ b, prefixFound scope.targetPathPrefix paths = .ok b := by
  unfold PrefixIsText at h
  split at h
  · next heq => exact ⟨true, by rw [heq]; rfl⟩
  · next heq =>
    rw [heq]
    cases paths with
    | nil => exact ⟨false, rfl⟩
    | cons path paths => exact ⟨_, rfl⟩
  · cases h

variable (env body targetPaths) in
theorem scopeMatches_cases {scope : Scope} (hscope : r.scope = some scope) :
    scopeMatches r (contextOf env body targetPaths) = .ok false ∨
      scope.workerRole.isNull ∧ scope.workerRoleMinLevel.isNull ∧
        scopeMatches r (contextOf env body targetPaths) = prefixFound scope.targetPathPrefix targetPaths := by
  rw [scopeMatches, hscope]
  dsimp only
  split
  · exact .inl rfl
  · split
    · exact .inl rfl
    · next hrole =>
      have hnull : scope.workerRole.isNull := by
        by_contra hnot
        exact hrole ⟨hnot, equalsText_none hnot⟩
      rw [show (contextOf env body targetPaths).workerRoleLevel = none from rfl, levelReached_none]
      cases hlevel : scope.workerRoleMinLevel.isNull with
      | false => exact .inl rfl
      | true => exact .inr ⟨hnull, rfl, rfl⟩

theorem resolvePatternTarget_unseen {target : Yaml} (h : Unseen toolName target)
    (hpaths : ¬NamesFile toolName → targetPaths = []) :
    resolvePatternTarget target (contextOf env body targetPaths) = .ok none := by
  unfold Unseen at h
  split at h
  · next t =>
    obtain ⟨hbody, hcommand, hpath⟩ := h
    rw [resolvePatternTarget.eq_def]
    split
    · next heq => exact absurd (Yaml.str.inj heq) hbody
    · next heq => exact absurd (Yaml.str.inj heq) hcommand
    · next heq =>
      rw [hpaths (hpath (Yaml.str.inj heq))]
      rfl
    · split <;> rfl
    · next hnot => exact absurd rfl (hnot t)
  · cases h

theorem ownVerdict_inert (hinert : Inert toolName r) (hpaths : ¬NamesFile toolName → targetPaths = []) :
    ownVerdict lib (contextOf env body targetPaths) r = .ok false := by
  rw [ownVerdict, verdict]
  obtain ⟨scope, hscope, h⟩ | ⟨⟨pattern, hpattern, hunseen⟩, htext⟩ := hinert
  · obtain hfalse | ⟨hrole, hlevel, hfound⟩ := scopeMatches_cases env body targetPaths hscope
    · rw [hfalse]
      rfl
    · obtain hnot | hnot | ⟨hnot, hfile⟩ := h
      · exact absurd hrole hnot
      · exact absurd hlevel hnot
      · rw [hfound, hpaths hfile, prefixFound_nil, Bool.of_not_eq_true hnot]
        rfl
  · have hscope : ∃ b, scopeMatches r (contextOf env body targetPaths) = .ok b := by
      cases hscope : r.scope with
      | none => exact ⟨true, by rw [scopeMatches, hscope]; rfl⟩
      | some scope =>
        obtain hfalse | ⟨-, -, hfound⟩ := scopeMatches_cases env body targetPaths hscope
        · exact ⟨false, hfalse⟩
        · rw [hfound]
          exact prefixFound_of_text (htext scope hscope) targetPaths
    obtain ⟨inScope, hscope⟩ := hscope
    rw [hscope]
    cases inScope with
    | false => rfl
    | true =>
      rw [patternVerdict, hpattern]
      dsimp only
      rw [resolvePatternTarget_unseen hunseen hpaths]
      rfl

structure SameButInert (lib : Library Re) (toolName : Json) (dir dir' : OrgDir) : Prop where
  auditOpens : dir'.auditOpens = dir.auditOpens
  rules : ∃ ruleset ruleset', loaded lib dir.org = .ok ruleset ∧ loaded lib dir'.org = .ok ruleset' ∧
    ruleset'.rules = ruleset.rules.filter fun r => ¬Inert toolName r

theorem candidates_cons (r : Rule) (rules : List Rule) (action : String) : candidates (r :: rules) action =
    ((r.actions.filter (· = action)).map fun _ => r) ++ candidates rules action := rfl

theorem candidates_filter (keep : Rule → Bool) (rules : List Rule) (action : String) :
    candidates (rules.filter keep) action = (candidates rules action).filter keep := by
  induction rules with
  | nil => rfl
  | cons r rules ih =>
    rw [candidates_cons, List.filter_append, ← ih, List.filter_map]
    cases hr : keep r with
    | true => simp [hr, candidates_cons, Function.comp_def]
    | false => simp [hr, Function.comp_def]

theorem nil_of_extractTargetPaths (h : extractTargetPaths str toolName toolInput = some targetPaths)
    (hfile : ¬NamesFile toolName) : targetPaths = [] := by
  rw [extractTargetPaths, if_neg hfile] at h
  exact (Option.some.inj h).symm

theorem askEngine_congr {dir' : OrgDir} (hsame : SameButInert lib toolName dir dir')
    (htargetPaths : extractTargetPaths str toolName toolInput = some targetPaths) :
    askEngine lib str env dir' action body toolName toolInput =
      askEngine lib str env dir action body toolName toolInput := by
  obtain ⟨hopens, ruleset, ruleset', hload, hload', hrules⟩ := hsame
  by_cases h : dir.auditOpens
  · rw [askEngine_eq htargetPaths hload h, askEngine_eq htargetPaths hload' (hopens ▸ h), hrules, candidates_filter,
      firstMatch_filter]
    intro r _ hr
    exact ownVerdict_inert (by simpa using hr) (nil_of_extractTargetPaths htargetPaths)
  · rw [askEngine_eq_none fun hready => h hready.1, askEngine_eq_none fun hready => h (hopens ▸ hready.1)]

/-- Rules that ask for what no call of the tool has might as well not be there. -/
theorem inert_ignored {lib : Library Re} {str : Json → String} {dirs dirs' : String → OrgDir} {env : Environ}
    {payload toolName : Json} (hname : getD payload "tool_name" (.str "") = some toolName)
    (hsame : ∀ path, env.org = some path → SameButInert lib toolName (dirs path) (dirs' path)) :
    toolGuardMain lib str dirs' env (.json payload) = toolGuardMain lib str dirs env (.json payload) := by
  obtain ⟨fields, rfl⟩ := isDict_of_getD hname
  unfold toolGuardMain
  cases horg : env.org with
  | none => rfl
  | some path =>
    have hinput := getD_obj fields "tool_input" (.obj [])
    dsimp only
    rw [answer_eq hname hinput, answer_eq hname hinput, evaluateToolCall, evaluateToolCall]
    cases hextract : extractActionAndBody str toolName ((Json.get fields "tool_input").getD (.obj [])) with
    | none => rfl
    | some asked =>
      obtain ⟨_ | action, body⟩ := asked
      · rfl
      · obtain ⟨targetPaths, htargetPaths⟩ :=
          extractTargetPaths_of_isDict str (isDict_of_extract hextract) toolName
        dsimp only [Option.bind_eq_bind, Option.bind_some]
        rw [askEngine_congr (hsame path horg) htargetPaths]

/-- An organisation with a rule that nothing is written under `config/`, or with none. -/
def orgOf (rules : List Yaml) : OrgDir where
  org :=
    { rulesFile := some ⟨"org/config/rules.yaml", .parsed (.map [("version", .int 1), ("rules", .seq rules)])⟩
      defaultCatalog := ⟨"default_rules.yaml", .unreadable⟩ }
  auditOpens := true

def noConfigWrites : Yaml :=
  .map [("id", .str "no-config-writes"), ("severity", .str "ABSOLUTE"), ("actions", .seq [.str "session.write"]),
    ("description", .str "The configuration is the board's."),
    ("scope", .map [("target_path_prefix", .str "config/")])]

def writing (tool key : String) : Json :=
  .obj [("tool_name", .str tool), ("tool_input", .obj [(key, .str "config/rules.yaml")])]

def textsOnly : Json → String
  | .str s => s
  | _ => ""

def org : Environ where
  orgPath := some "org"

/-- The tool whose file is not looked at passes the rule that stops the other. -/
theorem notebookEdit_passes :
    toolGuardMain literalPatterns textsOnly (fun _ => orgOf []) org (.json (writing "NotebookEdit" "notebook_path")) =
      toolGuardMain literalPatterns textsOnly (fun _ => orgOf [noConfigWrites]) org
        (.json (writing "NotebookEdit" "notebook_path")) ∧
    (toolGuardMain literalPatterns textsOnly (fun _ => orgOf [noConfigWrites]) org
      (.json (writing "Write" "file_path"))).ending.status = 1 := by
  have hname : getD (writing "NotebookEdit" "notebook_path") "tool_name" (.str "") = some (.str "NotebookEdit") := rfl
  refine ⟨inert_ignored hname fun path _ => ⟨rfl, _, _, rfl, rfl, rfl⟩, ?_⟩
  decide +kernel

end Quinn.Rules.Guard
