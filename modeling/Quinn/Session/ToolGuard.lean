import Quinn.Logs.Json
import Quinn.Text.Basic

/-! `core/session/tool_guard.py`: a hook put into the settings that are there already.  The settings are what
`json` makes of the file's text, and writes texts of. -/

namespace Quinn.Session.ToolGuard

open Logs

/-- `v.get(key, default)`, which raises unless `v` is a `dict`. -/
def getD (v : Json) (key : String) (default : Json) : Option Json :=
  match v with
  | .obj fields => some ((Json.get fields key).getD default)
  | .null | .bool _ | .num _ | .nan | .str _ | .arr _ => none

def setItem (fields : List (String × Json)) (key : String) (value : Json) : List (String × Json) :=
  if key ∈ fields.map Prod.fst then fields.map fun field => if field.1 = key then (key, value) else field
  else fields ++ [(key, value)]

def iterate : Json → Option (List Json)
  | .arr items => some items
  | .obj fields => some (fields.map fun field => .str field.1)
  | .str s => some (s.toList.map fun c => .str (String.singleton c))
  | .null | .bool _ | .num _ | .nan => none

def hashable : Json → Bool
  | .arr _ | .obj _ => false
  | .null | .bool _ | .num _ | .nan | .str _ => true

/-- A `set` is gone through in an order of its own. -/
structure SetOrder where
  visit : List Json → List Json
  mem_visit : ∀ l x, x ∈ visit l ↔ x ∈ l

def toolGuardExecutable : String := "qn-tool-guard"

def firstWord (s : String) : Option String :=
  match (s.toList.dropWhile Text.isSpace).takeWhile (!Text.isSpace ·) with
  | [] => none
  | c :: word => some (String.ofList (c :: word))

def pathName (s : String) : String :=
  String.ofList (((s.toList.splitOn '/').filter fun part => part ≠ [] ∧ part ≠ ['.']).getLast?.getD [])

def guardEntry (command : String) : Json :=
  .obj [("matcher", .str ""), ("hooks", .arr [.obj [("type", .str "command"), ("command", .str command)]])]

/-- `cmd and Path(str(cmd).split()[0]).name == TOOL_GUARD_EXECUTABLE`; no number and no truth value has a text of
that name. -/
def isGuard : Json → Option Bool
  | .str s => if s = "" then some false else (firstWord s).map fun word => pathName word = toolGuardExecutable
  | .null | .bool _ | .num _ | .nan | .arr _ | .obj _ => some false

def entryCmds (entry : Json) : Option (List Json) := do
  (← iterate (← getD entry "hooks" (.arr []))).mapM fun hook => do
    let cmd ← getD hook "command" .null
    if hashable cmd then return cmd else none

def existingCmds (entries : Json) : Option (List Json) := do
  let cmds ← (← iterate entries).mapM entryCmds
  return cmds.flatten

def merge (order : SetOrder) (command : String) (hooks : List (String × Json)) : Option (List (String × Json)) :=
  match Json.get hooks "PreToolUse" with
  | none => return setItem hooks "PreToolUse" (.arr [guardEntry command])
  | some entries => do
    if ← (order.visit (← existingCmds entries)).anyM isGuard then return hooks
    else
      match entries with
      | .arr items => return setItem hooks "PreToolUse" (.arr (items ++ [guardEntry command]))
      | .null | .bool _ | .num _ | .nan | .str _ | .obj _ => none

inductive Content
  | absent
  | notJson
  | json (v : Json)

def Content.settings : Content → Json
  | absent | notJson => .obj []
  | json v => v

/-- The settings to write, unless something raises; whether hooks other than a `dict` have the event or not, it
cannot be set. -/
def newSettings (order : SetOrder) (command : String) (settings : Json) : Option Json := do
  match settings, ← getD settings "hooks" (.obj []) with
  | .obj fields, .obj hooks => return .obj (setItem fields "hooks" (.obj (← merge order command hooks)))
  | _, _ => none

inductive Ending
  | returns | raises
  deriving DecidableEq

def writeToolGuardHookConfig (order : SetOrder) (command : String) (file : Content) : Ending × Content :=
  match newSettings order command file.settings with
  | some v => (.returns, .json v)
  | none => (.raises, file)

def item (v : Json) (key : String) : Option Json :=
  match v with
  | .obj fields => Json.get fields key
  | .null | .bool _ | .num _ | .nan | .str _ | .arr _ => none

def hooksFor (v : Json) (event : String) : Option Json := (item v "hooks").bind (item · event)

def entriesOf (v : Json) : List Json :=
  match hooksFor v "PreToolUse" with
  | some (.arr items) => items
  | _ => []

/-- Every setting, every hook of another event and every entry of this one is there as it was. -/
structure Keeps (v v' : Json) : Prop where
  settings : ∀ key, key ≠ "hooks" → item v' key = item v key
  hooks : ∀ event, event ≠ "PreToolUse" → hooksFor v' event = hooksFor v event
  entries : entriesOf v <+: entriesOf v'

def IsGuardHook (command : String) (cmd : Json) : Prop := cmd = .str command ∨ isGuard cmd = some true

instance (command : String) : DecidablePred (IsGuardHook command) := fun _ => inferInstanceAs (Decidable (_ ∨ _))

def guards (command : String) (v : Json) : ℕ :=
  ((existingCmds (.arr (entriesOf v))).getD []).countP (IsGuardHook command ·)

/-- A call raises and changes nothing, or adds the one hook that is missing, and another changes nothing. -/
def InstallsOnce (order : SetOrder) (command : String) (file : Content) : Prop :=
  match writeToolGuardHookConfig order command file with
  | (.raises, file') => file' = file
  | (.returns, file') =>
    Keeps file.settings file'.settings ∧ guards command file'.settings = max 1 (guards command file.settings) ∧
      ∀ order', (writeToolGuardHookConfig order' command file').2 = file'

/-- The settings are in order, and no guard is recognised in them. -/
def NeedsGuard (v : Json) : Prop :=
  ∃ hooks items cmds, getD v "hooks" (.obj []) = some (.obj hooks) ∧
    getD (.obj hooks) "PreToolUse" (.arr []) = some (.arr items) ∧ existingCmds (.arr items) = some cmds ∧
    ∀ cmd ∈ cmds, isGuard cmd = some false

section setItem

variable {fields : List (String × Json)} {key : String} {value : Json}

def replaced (key : String) (value : Json) (field : String × Json) : String × Json :=
  if field.1 = key then (key, value) else field

theorem replaced_fst (field : String × Json) : (replaced key value field).1 = field.1 := by
  rw [replaced]
  split
  · next heq => exact heq.symm
  · rfl

theorem setItem_of_mem (hmem : key ∈ fields.map Prod.fst) :
    setItem fields key value = fields.map (replaced key value) :=
  if_pos hmem

theorem setItem_of_not_mem (hnew : key ∉ fields.map Prod.fst) : setItem fields key value = fields ++ [(key, value)] :=
  if_neg hnew

theorem find?_replaced (key' : String) (fields : List (String × Json)) :
    (fields.map (replaced key value)).reverse.find? (·.1 = key') =
      (fields.reverse.find? (·.1 = key')).map (replaced key value) := by
  rw [← List.map_reverse, List.find?_map]
  congr 2
  funext field
  rw [Function.comp_apply, replaced_fst]

theorem get_setItem_self : Json.get (setItem fields key value) key = some value := by
  by_cases hmem : key ∈ fields.map Prod.fst
  · obtain ⟨field, hfield, hkey⟩ := List.mem_map.1 hmem
    rw [setItem_of_mem hmem, Json.get, find?_replaced]
    cases hfind : fields.reverse.find? (·.1 = key) with
    | none => exact absurd (decide_eq_true hkey) (List.find?_eq_none.1 hfind field (List.mem_reverse.2 hfield))
    | some found =>
      have hfound : found.1 = key := by simpa using List.find?_some hfind
      rw [Option.map_some, Option.map_some, replaced, if_pos hfound]
  · rw [setItem_of_not_mem hmem, Json.get, List.reverse_append, List.reverse_singleton, List.singleton_append,
      List.find?_cons_of_pos (by simp)]
    rfl

theorem get_setItem_of_ne {key' : String} (hne : key' ≠ key) :
    Json.get (setItem fields key value) key' = Json.get fields key' := by
  by_cases hmem : key ∈ fields.map Prod.fst
  · rw [setItem_of_mem hmem, Json.get, find?_replaced, Json.get]
    cases hfind : fields.reverse.find? (·.1 = key') with
    | none => rfl
    | some found =>
      have hfound : found.1 = key' := by simpa using List.find?_some hfind
      rw [Option.map_some, replaced, if_neg (hfound ▸ hne)]
  · rw [setItem_of_not_mem hmem, Json.get, List.reverse_append, List.reverse_singleton, List.singleton_append,
      List.find?_cons_of_neg (by simpa using hne.symm), Json.get]

theorem replaced_replaced (value' : Json) (field : String × Json) :
    replaced key value' (replaced key value field) = replaced key value' field := by
  by_cases hkey : field.1 = key
  · rw [replaced, replaced_fst, if_pos hkey, replaced, if_pos hkey]
  · rw [replaced, replaced_fst, if_neg hkey, replaced, if_neg hkey, replaced, if_neg hkey]

theorem setItem_setItem (value' : Json) :
    setItem (setItem fields key value) key value' = setItem fields key value' := by
  by_cases hmem : key ∈ fields.map Prod.fst
  · have hmem' : key ∈ (fields.map (replaced key value)).map Prod.fst := by
      have hkeys : Prod.fst ∘ replaced key value = Prod.fst := funext replaced_fst
      rwa [List.map_map, hkeys]
    rw [setItem_of_mem hmem, setItem_of_mem hmem', setItem_of_mem hmem, List.map_map]
    exact List.map_congr_left fun field _ => replaced_replaced value' field
  · have hmem' : key ∈ (fields ++ [(key, value)]).map Prod.fst := by simp
    have hsame : fields.map (replaced key value') = fields := by
      refine (List.map_congr_left fun field hfield => if_neg fun hkey => ?_).trans (List.map_id fields)
      exact hmem (hkey ▸ List.mem_map_of_mem hfield)
    rw [setItem_of_not_mem hmem, setItem_of_mem hmem', setItem_of_not_mem hmem, List.map_append, hsame,
      List.map_singleton, replaced, if_pos rfl]

end setItem

section cmds

variable {command : String} {items : List Json} {cmds : List Json} {order : SetOrder}

theorem existingCmds_append_guardEntry (command : String) (h : existingCmds (.arr items) = some cmds) :
    existingCmds (.arr (items ++ [guardEntry command])) = some (cmds ++ [.str command]) := by
  obtain ⟨lists, hlists, hflatten⟩ := Option.bind_eq_some_iff.1 h
  obtain rfl : lists.flatten = cmds := Option.some.inj hflatten
  have hguard : [guardEntry command].mapM entryCmds = some [[.str command]] := rfl
  have hall : (items ++ [guardEntry command]).mapM entryCmds = some (lists ++ [[.str command]]) := by
    rw [List.mapM_append, show items.mapM entryCmds = some lists from hlists, hguard]
    rfl
  rw [existingCmds, iterate]
  change ((items ++ [guardEntry command]).mapM entryCmds).bind _ = _
  rw [hall, Option.bind_some, List.flatten_append]
  rfl

theorem anyM_eq_false {l : List Json} : l.anyM isGuard = some false ↔ ∀ cmd ∈ l, isGuard cmd = some false := by
  induction l with
  | nil => exact iff_of_true rfl (List.forall_mem_nil _)
  | cons cmd l ih =>
    rw [List.forall_mem_cons, ← ih, List.anyM]
    cases isGuard cmd with
    | none => simp
    | some recognised => cases recognised <;> simp

theorem exists_of_anyM {l : List Json} (h : l.anyM isGuard = some true) : ∃ cmd ∈ l, isGuard cmd = some true := by
  induction l with
  | nil => cases h
  | cons cmd l ih =>
    rw [List.anyM] at h
    cases hcmd : isGuard cmd with
    | none =>
      rw [hcmd] at h
      cases h
    | some recognised =>
      cases recognised with
      | true => exact ⟨cmd, List.mem_cons_self, hcmd⟩
      | false =>
        rw [hcmd] at h
        obtain ⟨cmd', hmem, hcmd'⟩ := ih h
        exact ⟨cmd', List.mem_cons_of_mem _ hmem, hcmd'⟩

theorem mapM_entryCmds_str {strs : List String} {lists : List (List Json)}
    (h : (strs.map Json.str).mapM entryCmds = some lists) : lists = [] := by
  cases strs with
  | nil => exact (Option.some.inj h).symm
  | cons s strs =>
    rw [List.map_cons, List.mapM_cons] at h
    cases h

theorem arr_or_nil {entries : Json} (h : existingCmds entries = some cmds) :
    (∃ items, entries = .arr items) ∨ cmds = [] := by
  obtain ⟨items, hitems, h⟩ := Option.bind_eq_some_iff.1 h
  obtain ⟨lists, hlists, hflatten⟩ := Option.bind_eq_some_iff.1 h
  obtain rfl : lists.flatten = cmds := Option.some.inj hflatten
  have hnil (strs : List String) (hstrs : items = strs.map Json.str) : lists.flatten = [] := by
    rw [hstrs] at hlists
    rw [mapM_entryCmds_str hlists, List.flatten_nil]
  cases entries with
  | null | bool _ | num _ | nan => cases hitems
  | arr items => exact .inl ⟨items, rfl⟩
  | str s =>
    refine .inr (hnil (s.toList.map String.singleton) ?_)
    rw [List.map_map]
    exact (Option.some.inj hitems).symm
  | obj fields =>
    refine .inr (hnil (fields.map Prod.fst) ?_)
    rw [List.map_map]
    exact (Option.some.inj hitems).symm

theorem merge_cases {hooks merged : List (String × Json)} (h : merge order command hooks = some merged) :
    (merged = hooks ∧ ∃ items cmds, Json.get hooks "PreToolUse" = some (.arr items) ∧
      existingCmds (.arr items) = some cmds ∧ ∃ cmd ∈ cmds, isGuard cmd = some true) ∨
    ∃ items cmds, getD (.obj hooks) "PreToolUse" (.arr []) = some (.arr items) ∧
      existingCmds (.arr items) = some cmds ∧ (∀ cmd ∈ cmds, isGuard cmd = some false) ∧
      merged = setItem hooks "PreToolUse" (.arr (items ++ [guardEntry command])) := by
  rw [merge] at h
  cases hget : Json.get hooks "PreToolUse" with
  | none =>
    rw [hget] at h
    refine .inr ⟨[], [], ?_, rfl, List.forall_mem_nil _, (Option.some.inj h).symm⟩
    rw [getD, hget]
    rfl
  | some entries =>
    rw [hget] at h
    obtain ⟨cmds, hcmds, h⟩ := Option.bind_eq_some_iff.1 h
    obtain ⟨present, hany, h⟩ := Option.bind_eq_some_iff.1 h
    cases present with
    | true =>
      obtain ⟨cmd, hmem, hcmd⟩ := exists_of_anyM hany
      have hmem : cmd ∈ cmds := (order.mem_visit cmds cmd).1 hmem
      obtain ⟨items, rfl⟩ | rfl := arr_or_nil hcmds
      · exact .inl ⟨(Option.some.inj h).symm, items, cmds, rfl, hcmds, cmd, hmem, hcmd⟩
      · cases hmem
    | false =>
      have hfalse := anyM_eq_false.1 hany
      cases entries with
      | arr items =>
        refine .inr ⟨items, cmds, ?_, hcmds, fun cmd hmem => hfalse cmd ((order.mem_visit cmds cmd).2 hmem),
          (Option.some.inj h).symm⟩
        rw [getD, hget]
        rfl
      | null | bool _ | num _ | nan | str _ | obj _ => cases h

theorem merge_of_needs {hooks : List (String × Json)}
    (hitems : getD (.obj hooks) "PreToolUse" (.arr []) = some (.arr items))
    (hcmds : existingCmds (.arr items) = some cmds) (hfalse : ∀ cmd ∈ cmds, isGuard cmd = some false) :
    merge order command hooks = some (setItem hooks "PreToolUse" (.arr (items ++ [guardEntry command]))) := by
  rw [getD] at hitems
  rw [merge]
  cases hget : Json.get hooks "PreToolUse" with
  | none =>
    rw [hget] at hitems
    cases hitems
    rfl
  | some entries =>
    rw [hget] at hitems
    cases hitems
    have hany : (order.visit cmds).anyM isGuard = some false :=
      anyM_eq_false.2 fun cmd hmem => hfalse cmd ((order.mem_visit cmds cmd).1 hmem)
    change (existingCmds (.arr items)).bind _ = _
    rw [hcmds, Option.bind_some]
    change ((order.visit cmds).anyM isGuard).bind _ = _
    rw [hany]
    rfl

end cmds

section call

variable {order : SetOrder} {command : String} {v v' : Json} {fields hooks merged : List (String × Json)}

theorem newSettings_eq_some : newSettings order command v = some v' ↔
    ∃ fields hooks merged, v = .obj fields ∧ getD v "hooks" (.obj []) = some (.obj hooks) ∧
      merge order command hooks = some merged ∧ v' = .obj (setItem fields "hooks" (.obj merged)) := by
  constructor
  · intro h
    obtain ⟨found, hfound, h⟩ := Option.bind_eq_some_iff.1 h
    cases v with
    | null | bool _ | num _ | nan | str _ | arr _ => cases hfound
    | obj fields =>
      cases found with
      | null | bool _ | num _ | nan | str _ | arr _ => cases h
      | obj hooks =>
        obtain ⟨merged, hmerged, h⟩ := Option.bind_eq_some_iff.1 h
        exact ⟨fields, hooks, merged, rfl, hfound, hmerged, (Option.some.inj h).symm⟩
  · rintro ⟨fields, hooks, merged, rfl, hhooks, hmerged, rfl⟩
    rw [newSettings, hhooks]
    change (merge order command hooks).bind _ = _
    rw [hmerged]
    rfl

theorem hooksFor_eq (hhooks : getD v "hooks" (.obj []) = some (.obj hooks)) (event : String) :
    hooksFor v event = Json.get hooks event := by
  cases v with
  | null | bool _ | num _ | nan | str _ | arr _ => cases hhooks
  | obj fields =>
    rw [getD] at hhooks
    rw [hooksFor, item]
    cases hget : Json.get fields "hooks" with
    | none =>
      rw [hget] at hhooks
      cases hhooks
      rfl
    | some found =>
      rw [hget] at hhooks
      cases hhooks
      rfl

theorem entriesOf_eq {items : List Json} (hhooks : getD v "hooks" (.obj []) = some (.obj hooks))
    (hitems : getD (.obj hooks) "PreToolUse" (.arr []) = some (.arr items)) : entriesOf v = items := by
  rw [getD] at hitems
  rw [entriesOf, hooksFor_eq hhooks]
  cases hget : Json.get hooks "PreToolUse" with
  | none =>
    rw [hget] at hitems
    cases hitems
    rfl
  | some entries =>
    rw [hget] at hitems
    cases hitems
    rfl

theorem getD_written (default : Json) :
    getD (.obj (setItem fields "hooks" (.obj merged))) "hooks" default = some (.obj merged) := by
  rw [getD, get_setItem_self]
  rfl

theorem item_written {key : String} (hne : key ≠ "hooks") :
    item (.obj (setItem fields "hooks" (.obj merged))) key = item (.obj fields) key :=
  get_setItem_of_ne hne

theorem newSettings_of_needs (order : SetOrder) (command : String) (hneeds : NeedsGuard v) :
    ∃ v', newSettings order command v = some v' := by
  obtain ⟨hooks, items, cmds, hhooks, hitems, hcmds, hfalse⟩ := hneeds
  cases v with
  | null | bool _ | num _ | nan | str _ | arr _ => cases hhooks
  | obj fields =>
    exact ⟨_, newSettings_eq_some.2 ⟨fields, hooks, _, rfl, hhooks, merge_of_needs hitems hcmds hfalse, rfl⟩⟩

theorem write_again (hwritten : v = .obj (setItem fields "hooks" (.obj merged))) (hneeds : ¬NeedsGuard v)
    (order : SetOrder) : (writeToolGuardHookConfig order command (.json v)).2 = .json v := by
  rw [writeToolGuardHookConfig, Content.settings]
  cases hnew : newSettings order command v with
  | none => rfl
  | some v' =>
    obtain ⟨fields', hooks', merged', hfields, hhooks', hmerged', rfl⟩ := newSettings_eq_some.1 hnew
    obtain ⟨rfl, -⟩ | ⟨items, cmds, hitems, hcmds, hfalse, -⟩ := merge_cases hmerged'
    · rw [hwritten, getD_written] at hhooks'
      cases hhooks'
      rw [hwritten] at hfields
      cases hfields
      rw [setItem_setItem, hwritten]
    · exact absurd ⟨hooks', items, cmds, hhooks', hitems, hcmds, hfalse⟩ hneeds

theorem not_needsGuard {items cmds : List Json} (hhooks : getD v "hooks" (.obj []) = some (.obj hooks))
    (hitems : getD (.obj hooks) "PreToolUse" (.arr []) = some (.arr items))
    (hcmds : existingCmds (.arr items) = some cmds) {cmd : Json} (hmem : cmd ∈ cmds)
    (hcmd : isGuard cmd ≠ some false) : ¬NeedsGuard v := by
  rintro ⟨hooks', items', cmds', hhooks', hitems', hcmds', hfalse⟩
  rw [hhooks] at hhooks'
  cases hhooks'
  rw [hitems] at hitems'
  cases hitems'
  rw [hcmds] at hcmds'
  cases hcmds'
  exact hcmd (hfalse cmd hmem)

theorem getD_merged {items : List Json} :
    getD (.obj (setItem hooks "PreToolUse" (.arr items))) "PreToolUse" (.arr []) = some (.arr items) := by
  rw [getD, get_setItem_self]
  rfl

theorem entriesOf_newSettings (hneeds : NeedsGuard v) (hnew : newSettings order command v = some v') :
    entriesOf v' = entriesOf v ++ [guardEntry command] := by
  obtain ⟨fields, hooks, merged, rfl, hhooks, hmerged, rfl⟩ := newSettings_eq_some.1 hnew
  obtain ⟨hooks', items, cmds, hhooks', hitems, hcmds, hfalse⟩ := hneeds
  obtain rfl : hooks' = hooks := by
    rw [hhooks] at hhooks'
    cases hhooks'
    rfl
  rw [merge_of_needs hitems hcmds hfalse] at hmerged
  cases hmerged
  rw [entriesOf_eq (getD_written _) getD_merged, entriesOf_eq hhooks hitems]

theorem guards_eq {items cmds : List Json} (hitems : entriesOf v = items) (hcmds : existingCmds (.arr items) = some cmds) :
    guards command v = cmds.countP (IsGuardHook command ·) := by
  rw [guards, hitems, hcmds]
  rfl

end call

section installs

variable {order : SetOrder} {command : String} {file : Content} {v : Json}
  {fields hooks merged : List (String × Json)} {items cmds : List Json}
  (hnew : newSettings order command file.settings = some v) (hfields : file.settings = .obj fields)
  (hhooks : getD file.settings "hooks" (.obj []) = some (.obj hooks))
  (hwritten : v = .obj (setItem fields "hooks" (.obj merged)))
  (hcmds : existingCmds (.arr items) = some cmds)

include hnew in
theorem installsOnce_returns : InstallsOnce order command file ↔
    Keeps file.settings v ∧ guards command v = max 1 (guards command file.settings) ∧
      ∀ order', (writeToolGuardHookConfig order' command (.json v)).2 = .json v := by
  rw [InstallsOnce, writeToolGuardHookConfig, hnew]
  rfl

include hfields hhooks hwritten in
theorem keeps_written (hevents : ∀ event, event ≠ "PreToolUse" → Json.get merged event = Json.get hooks event)
    (hentries : entriesOf file.settings <+: entriesOf v) : Keeps file.settings v where
  settings key hne := by rw [hfields, hwritten, item_written hne]
  hooks event hne := by
    rw [hooksFor_eq hhooks, ← hevents event hne]
    exact hooksFor_eq (hwritten ▸ getD_written _) event
  entries := hentries

include hnew hfields hhooks hwritten hcmds in
theorem installsOnce_of_recognised (hget : Json.get hooks "PreToolUse" = some (.arr items)) (hsame : merged = hooks)
    {cmd : Json} (hmem : cmd ∈ cmds) (hcmd : isGuard cmd = some true) : InstallsOnce order command file := by
  have hitems : getD (.obj hooks) "PreToolUse" (.arr []) = some (.arr items) := by
    rw [getD, hget]
    rfl
  have hhooks' : getD v "hooks" (.obj []) = some (.obj hooks) := by rw [hwritten, getD_written, hsame]
  have hold : entriesOf file.settings = items := entriesOf_eq hhooks hitems
  have hnow : entriesOf v = items := entriesOf_eq hhooks' hitems
  have hpos : 1 ≤ cmds.countP (IsGuardHook command ·) :=
    List.countP_pos_iff.2 ⟨cmd, hmem, decide_eq_true (.inr hcmd)⟩
  have hnot : ¬NeedsGuard v := not_needsGuard hhooks' hitems hcmds hmem (by rw [hcmd]; exact nofun)
  refine (installsOnce_returns hnew).2 ⟨?_, ?_, write_again hwritten hnot⟩
  · refine keeps_written hfields hhooks hwritten (fun event _ => by rw [hsame]) ?_
    rw [hold, hnow]
  · rw [guards_eq hold hcmds, guards_eq hnow hcmds, max_eq_right hpos]

include hnew hfields hhooks hwritten hcmds in
theorem installsOnce_iff_of_needs (hitems : getD (.obj hooks) "PreToolUse" (.arr []) = some (.arr items))
    (hmerged : merged = setItem hooks "PreToolUse" (.arr (items ++ [guardEntry command])))
    (hfalse : ∀ cmd ∈ cmds, isGuard cmd = some false) :
    InstallsOnce order command file ↔ isGuard (.str command) ≠ some false := by
  have hhooks' : getD v "hooks" (.obj []) = some (.obj merged) := hwritten ▸ getD_written _
  have hitems' : getD (.obj merged) "PreToolUse" (.arr []) = some (.arr (items ++ [guardEntry command])) :=
    hmerged ▸ getD_merged
  have hcmds' := existingCmds_append_guardEntry command hcmds
  have hold : entriesOf file.settings = items := entriesOf_eq hhooks hitems
  have hnow : entriesOf v = items ++ [guardEntry command] := entriesOf_eq hhooks' hitems'
  have hmem : Json.str command ∈ cmds ++ [.str command] := List.mem_append_right _ List.mem_cons_self
  rw [installsOnce_returns hnew]
  constructor
  · rintro ⟨-, -, hagain⟩ hfalse'
    have hneeds : NeedsGuard v := by
      refine ⟨merged, _, _, hhooks', hitems', hcmds', fun cmd hmem => ?_⟩
      obtain hmem | hmem := List.mem_append.1 hmem
      · exact hfalse cmd hmem
      · exact List.mem_singleton.1 hmem ▸ hfalse'
    obtain ⟨v', hv'⟩ := newSettings_of_needs order command hneeds
    have hsame := hagain order
    rw [writeToolGuardHookConfig, Content.settings, hv'] at hsame
    obtain rfl : v' = v := Content.json.inj hsame
    exact absurd (congrArg List.length (entriesOf_newSettings hneeds hv')) (by simp)
  · intro hrecognised
    have hnone : cmds.countP (IsGuardHook command ·) = 0 := by
      apply List.countP_eq_zero.2
      intro cmd hmem hguard
      obtain heq | htrue := of_decide_eq_true hguard
      · exact hrecognised (heq ▸ hfalse cmd hmem)
      · rw [hfalse cmd hmem] at htrue
        cases htrue
    refine ⟨?_, ?_, write_again hwritten (not_needsGuard hhooks' hitems' hcmds' hmem hrecognised)⟩
    · refine keeps_written hfields hhooks hwritten (fun event hne => by rw [hmerged, get_setItem_of_ne hne]) ?_
      rw [hold, hnow]
      exact List.prefix_append _ _
    · rw [guards_eq hold hcmds, guards_eq hnow hcmds', List.countP_append, hnone]
      simp [IsGuardHook]

end installs

/-- Where the guard's own command is read as another's, it is put there each time. -/
theorem installsOnce_iff (order : SetOrder) (command : String) (file : Content) :
    InstallsOnce order command file ↔ isGuard (.str command) ≠ some false ∨ ¬NeedsGuard file.settings := by
  cases hnew : newSettings order command file.settings with
  | none =>
    rw [InstallsOnce, writeToolGuardHookConfig, hnew]
    refine iff_of_true rfl (.inr fun hneeds => ?_)
    obtain ⟨v, hv⟩ := newSettings_of_needs order command hneeds
    rw [hnew] at hv
    cases hv
  | some v =>
    obtain ⟨fields, hooks, merged, hfields, hhooks, hmerged, hwritten⟩ := newSettings_eq_some.1 hnew
    obtain ⟨hsame, items, cmds, hget, hcmds, cmd, hmem, hcmd⟩ | ⟨items, cmds, hitems, hcmds, hfalse, hput⟩ :=
      merge_cases hmerged
    · have hitems : getD (.obj hooks) "PreToolUse" (.arr []) = some (.arr items) := by
        rw [getD, hget]
        rfl
      refine iff_of_true (installsOnce_of_recognised hnew hfields hhooks hwritten hcmds hget hsame hmem hcmd) (.inr ?_)
      exact not_needsGuard hhooks hitems hcmds hmem (by rw [hcmd]; exact nofun)
    · rw [or_iff_left (not_not_intro ⟨hooks, items, cmds, hhooks, hitems, hcmds, hfalse⟩)]
      exact installsOnce_iff_of_needs hnew hfields hhooks hwritten hcmds hitems hput hfalse

/-- The executable of an environment whose path has a space in it. -/
def spaced : String := "/home/ann lee/venv/bin/qn-tool-guard"

/-- The second call does not recognise what the first has put there. -/
theorem spaced_not_installsOnce :
    pathName spaced = toolGuardExecutable ∧ ¬InstallsOnce ⟨id, fun _ _ => Iff.rfl⟩ spaced .absent := by
  refine ⟨by decide +kernel, fun h => ?_⟩
  have hneeds : NeedsGuard (.obj []) := ⟨[], [], [], rfl, rfl, rfl, List.forall_mem_nil _⟩
  have hcommand : isGuard (.str spaced) = some false := by decide +kernel
  exact (installsOnce_iff_of_needs rfl rfl rfl rfl rfl rfl rfl (List.forall_mem_nil _)).1 h hcommand

end Quinn.Session.ToolGuard
