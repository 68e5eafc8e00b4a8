import Quinn.Rules.Verdict

/-! One process loads several rule sets.  The patterns they compile share one table, under the
ids of the rules. -/

namespace Quinn.Rules

open Search Store Text

variable {Re : Type} {lib : Library Re} {C C' : Compiled Re} {context : Context} {α β : Type}

theorem run_bind (m : LoadM Re α) (f : α → LoadM Re β) (C : Compiled Re) :
    (m >>= f).run C = match m.run C with
      | (.ok a, C₁) => (f a).run C₁
      | (.error e, C₁) => (.error e, C₁) := by
  rw [ExceptT.run_bind]
  show StateT.bind _ _ C = _
  rw [StateT.bind]
  rcases m.run C with ⟨result, C₁⟩
  cases result <;> rfl

theorem run_bind_ok {m : LoadM Re α} {f : α → LoadM Re β} {b : β} :
    (m >>= f).run C = (.ok b, C') ↔ ∃ a C₁, m.run C = (.ok a, C₁) ∧ (f a).run C₁ = (.ok b, C') := by
  rw [run_bind]
  constructor
  · intro h
    split at h
    · exact ⟨_, _, ‹_›, h⟩
    · cases h
  · rintro ⟨a, C₁, hm, hf⟩
    rw [hm]
    exact hf

def Silent (m : LoadM Re α) : Prop := ∃ result, ∀ C, m.run C = (result, C)

theorem silent_pure (a : α) : Silent (pure a : LoadM Re α) := ⟨.ok a, fun _ => rfl⟩

theorem silent_throw (e : LoadError) : Silent (throw e : LoadM Re α) := ⟨.error e, fun _ => rfl⟩

theorem Silent.ok {m : LoadM Re α} {a : α} (hm : Silent m) (h : m.run C = (.ok a, C')) : C' = C := by
  obtain ⟨result, hrun⟩ := hm
  rw [hrun] at h
  cases h
  rfl

theorem silent_require (entries : List (String × Yaml)) (key : String) (e : LoadError) :
    Silent (require entries key e : LoadM Re Yaml) := by
  unfold require
  split
  · exact silent_pure _
  · exact silent_throw e

theorem silent_buildScope (raw : Yaml) (rule : RuleId) (path : String) :
    Silent (buildScope raw rule path : LoadM Re Scope) := by
  unfold buildScope
  split
  · exact silent_pure _
  · exact silent_throw _

theorem silent_buildId (raw : Yaml) (path : String) : Silent (buildId raw path : LoadM Re RuleId) := by
  unfold buildId
  split
  · split
    · exact silent_throw _
    · exact silent_pure _
  · exact silent_throw _

theorem silent_buildSeverity (raw : Yaml) (rule : RuleId) (path : String) :
    Silent (buildSeverity raw rule path : LoadM Re Severity) := by
  unfold buildSeverity
  split
  · exact silent_pure _
  · exact silent_throw _

theorem silent_buildActions (raw : Yaml) (rule : RuleId) (path : String) :
    Silent (buildActions lib raw rule path) := by
  unfold buildActions
  split
  · exact silent_pure _
  · exact silent_throw _

theorem silent_buildDescription (raw : Yaml) (rule : RuleId) (path : String) :
    Silent (buildDescription raw rule path : LoadM Re String) := by
  unfold buildDescription
  split
  · exact silent_pure _
  · exact silent_throw _

theorem silent_readYaml (file : RulesFile) : Silent (readYaml file : LoadM Re _) := by
  unfold readYaml
  split
  · exact silent_throw _
  · exact silent_throw _
  · exact silent_throw _
  · exact silent_pure _
  · exact silent_throw _

/-- What comes of `m` does not depend on the table. -/
def Oblivious (m : LoadM Re α) : Prop :=
  ∃ (result : Except LoadError α) (write : Compiled Re → Compiled Re), ∀ C, m.run C = (result, write C)

theorem Silent.oblivious {m : LoadM Re α} (hm : Silent m) : Oblivious m := by
  obtain ⟨result, hrun⟩ := hm
  exact ⟨result, id, hrun⟩

theorem Oblivious.bind {m : LoadM Re α} {f : α → LoadM Re β} (hm : Oblivious m) (hf : ∀ a, Oblivious (f a)) :
    Oblivious (m >>= f) := by
  obtain ⟨result, write, hrun⟩ := hm
  cases result with
  | error e =>
    refine ⟨.error e, write, fun C => ?_⟩
    rw [run_bind, hrun]
  | ok a =>
    obtain ⟨result', write', hrun'⟩ := hf a
    refine ⟨result', write' ∘ write, fun C => ?_⟩
    rw [run_bind, hrun]
    exact hrun' (write C)

theorem Silent.bind {m : LoadM Re α} {f : α → LoadM Re β} (hm : Silent m) (hf : ∀ a, Oblivious (f a)) :
    Oblivious (m >>= f) :=
  hm.oblivious.bind hf

theorem oblivious_compilePattern (rule : RuleId) (expr : Yaml) (path : String) :
    Oblivious (compilePattern lib rule expr path) := by
  unfold compilePattern
  split
  · split
    · exact ⟨.ok (), fun C => Function.update C rule _, fun _ => rfl⟩
    · exact (silent_throw _).oblivious
  · exact (silent_throw _).oblivious

theorem oblivious_buildPattern (raw : Yaml) (rule : RuleId) (path : String) :
    Oblivious (buildPattern lib raw rule path) := by
  unfold buildPattern
  split
  · refine (silent_require _ _ _).bind fun kind => (silent_require _ _ _).bind fun target =>
      (silent_require _ _ _).bind fun expr => ?_
    split
    · exact (oblivious_compilePattern _ _ _).bind fun _ => (silent_pure _).oblivious
    · exact (silent_pure _).oblivious
  · exact (silent_throw _).oblivious

theorem oblivious_buildOptional (entries : List (String × Yaml)) (key : String)
    {build : Yaml → LoadM Re α} (h : ∀ raw, Oblivious (build raw)) :
    Oblivious (buildOptional entries key build) := by
  unfold buildOptional
  split
  · exact (h _).bind fun _ => (silent_pure _).oblivious
  · exact (silent_pure _).oblivious

theorem oblivious_buildRule (raw : Yaml) (path : String) : Oblivious (buildRule lib raw path) := by
  unfold buildRule
  split
  · refine (silent_require _ _ _).bind fun rawId => (silent_require _ _ _).bind fun rawSeverity =>
      (silent_require _ _ _).bind fun rawActions => (silent_require _ _ _).bind fun rawDescription => ?_
    refine (silent_buildId _ _).bind fun id => (silent_buildSeverity _ _ _).bind fun severity =>
      (silent_buildActions _ _ _).bind fun actions => (silent_buildDescription _ _ _).bind fun description => ?_
    exact (oblivious_buildOptional _ _ fun _ => oblivious_buildPattern _ _ _).bind fun pattern =>
      (oblivious_buildOptional _ _ fun _ => (silent_buildScope _ _ _).oblivious).bind fun scope =>
        (silent_pure _).oblivious
  · exact (silent_throw _).oblivious

theorem oblivious_buildRules (path : String) (raws : List Yaml) : Oblivious (buildRules lib path raws) := by
  induction raws with
  | nil => exact (silent_pure _).oblivious
  | cons raw raws ih =>
    exact (oblivious_buildRule raw path).bind fun _ => ih.bind fun _ => (silent_pure _).oblivious

theorem oblivious_buildRuleset (data : List (String × Yaml)) (path : String) :
    Oblivious (buildRuleset lib data path) := by
  unfold buildRuleset
  dsimp only
  split
  · exact (silent_throw _).oblivious
  · split
    · exact (silent_throw _).oblivious
    · exact (silent_throw _).oblivious
    · refine (oblivious_buildRules _ _).bind fun rules => ?_
      split
      · exact (silent_throw _).oblivious
      · exact (silent_pure _).oblivious
    · exact (silent_throw _).oblivious

variable (lib) in
theorem oblivious_loadRules (org : Org) : Oblivious (loadRules lib org) :=
  (silent_readYaml _).bind fun data => oblivious_buildRuleset data _

def Registered (lib : Library Re) (C : Compiled Re) (r : Rule) : Prop :=
  ∀ p, r.pattern = some p → p.isRegex → ∃ re, compileExpr lib p.expr = .ok (some re) ∧ C r.id = some re

def SameBut (ids : List RuleId) (C C' : Compiled Re) : Prop := ∀ id, id ∉ ids → C' id = C id

theorem compilePattern_ok {rule : RuleId} {expr : Yaml} {path : String} {u : Unit}
    (h : (compilePattern lib rule expr path).run C = (.ok u, C')) :
    ∃ re, compileExpr lib expr = .ok (some re) ∧ C' = Function.update C rule (some re) := by
  unfold compilePattern at h
  split at h
  · split at h
    · rename_i e re hcompile
      cases h
      exact ⟨re, by rw [compileExpr, hcompile], rfl⟩
    · cases h
  · cases h

theorem buildPattern_ok {raw : Yaml} {rule : RuleId} {path : String} {p : Pattern}
    (h : (buildPattern lib raw rule path).run C = (.ok p, C')) :
    (p.isRegex → ∃ re, compileExpr lib p.expr = .ok (some re) ∧ C' rule = some re) ∧
      SameBut [rule] C C' := by
  unfold buildPattern at h
  split at h
  · obtain ⟨kind, C₁, hkind, h⟩ := run_bind_ok.1 h
    obtain ⟨target, C₂, htarget, h⟩ := run_bind_ok.1 h
    obtain ⟨expr, C₃, hexpr, h⟩ := run_bind_ok.1 h
    cases (silent_require _ _ _).ok hkind
    cases (silent_require _ _ _).ok htarget
    cases (silent_require _ _ _).ok hexpr
    split at h
    · obtain ⟨u, C₄, hcompile, h⟩ := run_bind_ok.1 h
      obtain ⟨re, hre, rfl⟩ := compilePattern_ok hcompile
      cases h
      refine ⟨fun _ => ⟨re, hre, Function.update_self ..⟩, fun id hid => ?_⟩
      exact Function.update_of_ne (fun heq => hid (List.mem_singleton.2 heq)) ..
    · rename_i hregex
      cases h
      exact ⟨fun h => absurd h hregex, fun _ _ => rfl⟩
  · cases h

theorem buildOptional_ok {entries : List (String × Yaml)} {key : String} {build : Yaml → LoadM Re α}
    {a : Option α} (h : (buildOptional entries key build).run C = (.ok a, C')) :
    (a = none ∧ C' = C) ∨ ∃ raw b, a = some b ∧ (build raw).run C = (.ok b, C') := by
  unfold buildOptional at h
  split at h
  · obtain ⟨b, C₁, hb, h⟩ := run_bind_ok.1 h
    cases h
    exact .inr ⟨_, b, rfl, hb⟩
  · cases h
    exact .inl ⟨rfl, rfl⟩

theorem buildRule_ok {raw : Yaml} {path : String} {r : Rule}
    (h : (buildRule lib raw path).run C = (.ok r, C')) : Registered lib C' r ∧ SameBut [r.id] C C' := by
  unfold buildRule at h
  split at h
  · obtain ⟨rawId, C₁, h₁, h⟩ := run_bind_ok.1 h
    obtain ⟨rawSeverity, C₂, h₂, h⟩ := run_bind_ok.1 h
    obtain ⟨rawActions, C₃, h₃, h⟩ := run_bind_ok.1 h
    obtain ⟨rawDescription, C₄, h₄, h⟩ := run_bind_ok.1 h
    obtain ⟨id, C₅, h₅, h⟩ := run_bind_ok.1 h
    obtain ⟨severity, C₆, h₆, h⟩ := run_bind_ok.1 h
    obtain ⟨actions, C₇, h₇, h⟩ := run_bind_ok.1 h
    obtain ⟨description, C₈, h₈, h⟩ := run_bind_ok.1 h
    obtain ⟨pattern, C₉, hpattern, h⟩ := run_bind_ok.1 h
    obtain ⟨scope, C₁₀, hscope, h⟩ := run_bind_ok.1 h
    cases h
    cases (silent_require _ _ _).ok h₁
    cases (silent_require _ _ _).ok h₂
    cases (silent_require _ _ _).ok h₃
    cases (silent_require _ _ _).ok h₄
    cases (silent_buildId _ _).ok h₅
    cases (silent_buildSeverity _ _ _).ok h₆
    cases (silent_buildActions _ _ _).ok h₇
    cases (silent_buildDescription _ _ _).ok h₈
    have hsame : C' = C₉ := by
      cases buildOptional_ok hscope with
      | inl hnone => exact hnone.2
      | inr hsome =>
        obtain ⟨raw, s, -, hs⟩ := hsome
        exact (silent_buildScope _ _ _).ok hs
    cases hsame
    cases buildOptional_ok hpattern with
    | inl hnone =>
      obtain ⟨rfl, rfl⟩ := hnone
      exact ⟨fun _ hp => (nomatch hp), fun _ _ => rfl⟩
    | inr hsome =>
      obtain ⟨raw, p, rfl, hp⟩ := hsome
      refine ⟨fun q hq hregex => ?_, (buildPattern_ok hp).2⟩
      cases hq
      exact (buildPattern_ok hp).1 hregex
  · cases h

theorem Registered.of_same {r : Rule} (h : Registered lib C r) (hsame : C' r.id = C r.id) :
    Registered lib C' r := by
  intro p hp hregex
  obtain ⟨re, hre, hC⟩ := h p hp hregex
  exact ⟨re, hre, hsame.trans hC⟩

theorem buildRules_ok {path : String} {raws : List Yaml} {rules : List Rule}
    (h : (buildRules lib path raws).run C = (.ok rules, C')) (hdistinct : (rules.map Rule.id).Nodup) :
    (∀ r ∈ rules, Registered lib C' r) ∧ SameBut (rules.map Rule.id) C C' := by
  induction raws generalizing rules C with
  | nil =>
    cases h
    exact ⟨fun _ hr => (nomatch hr), fun _ _ => rfl⟩
  | cons raw raws ih =>
    obtain ⟨r, C₁, hr, h⟩ := run_bind_ok.1 h
    obtain ⟨rs, C₂, hrs, h⟩ := run_bind_ok.1 h
    cases h
    rw [List.map_cons, List.nodup_cons] at hdistinct
    obtain ⟨hregistered, hsame⟩ := buildRule_ok hr
    obtain ⟨hrest, hsames⟩ := ih hrs hdistinct.2
    refine ⟨fun r' hr' => ?_, fun id hid => ?_⟩
    · cases List.mem_cons.1 hr' with
      | inl heq => exact heq ▸ hregistered.of_same (hsames r.id hdistinct.1)
      | inr htail => exact hrest r' htail
    · rw [List.map_cons, List.mem_cons, not_or] at hid
      exact (hsames id hid.2).trans (hsame id fun hmem => hid.1 (List.mem_singleton.1 hmem))

theorem loadRules_ok {org : Org} {ruleset : RuleSet} (h : (loadRules lib org).run C = (.ok ruleset, C')) :
    ∀ r ∈ ruleset.rules, Registered lib C' r := by
  obtain ⟨data, C₁, hdata, h⟩ := run_bind_ok.1 h
  unfold buildRuleset at h
  dsimp only at h
  split at h
  · cases h
  · split at h
    · cases h
    · cases h
    · obtain ⟨rules, C₂, hrules, h⟩ := run_bind_ok.1 h
      split at h
      · cases h
      · rename_i hseen
        cases h
        intro r hr
        exact (buildRules_ok hrules (nodup_of_seenTwice List.nodup_nil hseen).1).1 r (mem_orderBy.1 hr)
    · cases h

/-- What the engine decides on the rules of `org`, which are loaded after those of `before` and
before those of `after`. -/
def decisionIn (lib : Library Re) (before : List Org) (org : Org) (after : List Org) (db : Db)
    (action : String) (context : Context) (flags : Flags) : Except LoadError (Except Raised Decision) :=
  ((loadRules lib org).run (loadAll lib before)).1.map fun ruleset =>
    decision lib (loadAll lib (before ++ org :: after)) ruleset db action context flags

def loaded (lib : Library Re) (org : Org) : Except LoadError RuleSet :=
  ((loadRules lib org).run fun _ => none).1

theorem loadRules_fst (org : Org) (C : Compiled Re) : ((loadRules lib org).run C).1 = loaded lib org := by
  obtain ⟨result, write, hrun⟩ := oblivious_loadRules lib org
  rw [loaded, hrun, hrun]

def ownVerdict (lib : Library Re) (context : Context) (rule : Rule) : Except Raised Bool :=
  verdict lib (fun _ => none) context rule

def AgreesOn (lib : Library Re) (C : Compiled Re) (context : Context) (r : Rule) : Prop :=
  ∀ p value own stored, r.pattern = some p → p.isRegex → scopeMatches r context = .ok true →
    resolvePatternTarget p.target context = .ok (some value) →
    compileExpr lib p.expr = .ok (some own) → C r.id = some stored →
    lib.search stored value = lib.search own value

/-- The patterns stored for the rules as far as the first that matches by its own. -/
def Undisturbed (lib : Library Re) (C : Compiled Re) (ruleset : RuleSet) (action : String)
    (context : Context) : Prop :=
  ∀ r ∈ reached (ownVerdict lib context) (candidates ruleset.rules action), AgreesOn lib C context r

theorem verdict_cases (lib : Library Re) (context : Context) (r : Rule) :
    (∀ C, verdict lib C context r = ownVerdict lib context r ∧ AgreesOn lib C context r) ∨
      ∃ p value, r.pattern = some p ∧ p.isRegex ∧ scopeMatches r context = .ok true ∧
        resolvePatternTarget p.target context = .ok (some value) ∧
        ∀ C, verdict lib C context r =
          (regexOf lib C r p.expr).map fun re => re.any (lib.search · value) := by
  unfold ownVerdict verdict patternVerdict AgreesOn
  cases hscope : scopeMatches r context with
  | error e => exact .inl fun C => ⟨rfl, fun _ _ _ _ _ _ h => (nomatch h)⟩
  | ok inScope =>
    cases inScope with
    | false => exact .inl fun C => ⟨rfl, fun _ _ _ _ _ _ h => (nomatch h)⟩
    | true =>
      cases hp : r.pattern with
      | none => exact .inl fun C => ⟨rfl, fun _ _ _ _ h => (nomatch h)⟩
      | some p =>
        cases htarget : resolvePatternTarget p.target context with
        | error e =>
          refine .inl fun C => ⟨by simp only [htarget]; rfl, fun q _ _ _ hq _ _ h => ?_⟩
          cases hq
          rw [htarget] at h
          cases h
        | ok target =>
          cases target with
          | none =>
            refine .inl fun C => ⟨by simp only [htarget]; rfl, fun q _ _ _ hq _ _ h => ?_⟩
            cases hq
            rw [htarget] at h
            cases h
          | some value =>
            by_cases hregex : p.isRegex
            · refine .inr ⟨p, value, rfl, hregex, rfl, htarget, fun C => ?_⟩
              simp only [htarget, hregex, if_true]
              cases regexOf lib C r p.expr <;> rfl
            · refine .inl fun C => ⟨by simp only [htarget, hregex]; rfl, fun q _ _ _ hq h => ?_⟩
              cases hq
              exact absurd h hregex

variable {r : Rule} (hcompiles : ∀ p, r.pattern = some p → p.isRegex →
  ∃ re, compileExpr lib p.expr = .ok (some re))

include hcompiles

theorem differ_in_answer : ownVerdict lib context r = verdict lib C context r ∨
    ∃ b b', ownVerdict lib context r = .ok b ∧ verdict lib C context r = .ok b' := by
  cases verdict_cases lib context r with
  | inl h => exact .inl (h C).1.symm
  | inr h =>
    obtain ⟨p, value, hp, hregex, -, -, h⟩ := h
    obtain ⟨own, hown⟩ := hcompiles p hp hregex
    rw [ownVerdict, h, h]
    cases hC : C r.id with
    | none => exact .inl (by rw [regexOf, regexOf, hC])
    | some stored =>
      exact .inr ⟨lib.search own value, lib.search stored value, by rw [regexOf, hown]; rfl,
        by rw [regexOf, hC]; rfl⟩

theorem agreesOn_iff : ownVerdict lib context r = verdict lib C context r ↔ AgreesOn lib C context r := by
  cases verdict_cases lib context r with
  | inl h => exact ⟨fun _ => (h C).2, fun _ => (h C).1.symm⟩
  | inr h =>
    obtain ⟨p, value, hp, hregex, hscope, htarget, h⟩ := h
    obtain ⟨own, hown⟩ := hcompiles p hp hregex
    have hverdict : ownVerdict lib context r = .ok (lib.search own value) := by
      rw [ownVerdict, h, regexOf, hown]
      rfl
    rw [hverdict, h]
    constructor
    · intro heq q value' own' stored hq _ _ htarget' hown' hstored
      cases hp.symm.trans hq
      cases htarget.symm.trans htarget'
      cases hown.symm.trans hown'
      rw [regexOf, hstored] at heq
      exact (Except.ok.inj heq).symm
    · intro hagrees
      cases hC : C r.id with
      | none => rw [regexOf, hC, hown]; rfl
      | some stored =>
        rw [regexOf, hC]
        exact congrArg Except.ok (hagrees p value own stored hp hregex hscope htarget hown hC).symm

omit hcompiles

theorem verdict_of_registered (h : Registered lib C r) :
    verdict lib C context r = ownVerdict lib context r := by
  refine ((agreesOn_iff fun p hp hregex => ?_).2 fun p value own stored hp hregex _ _ hown hstored => ?_).symm
  · obtain ⟨re, hre, -⟩ := h p hp hregex
    exact ⟨re, hre⟩
  · obtain ⟨re, hre, hC⟩ := h p hp hregex
    cases hown.symm.trans hre
    cases hstored.symm.trans hC
    rfl

theorem decisions_eq_iff {db : Db} {flags : Flags} {x y : Except Raised (Option Rule)} :
    x.map (decisionFor db context flags) = y.map (decisionFor db context flags) ↔ y = x := by
  refine ⟨fun h => ?_, fun h => h ▸ rfl⟩
  cases x with
  | error e =>
    cases y with
    | error e' => exact congrArg Except.error (Except.error.inj h).symm
    | ok b => cases h
  | ok a =>
    cases y with
    | error e' => cases h
    | ok b =>
      have hrule := congrArg Decision.rule (Except.ok.inj h)
      rw [decisionFor_rule, decisionFor_rule] at hrule
      rw [hrule]

/-- A decision is the one of a process that loads nothing else, if and only if the patterns of
the rules are undisturbed. -/
theorem isolated_iff (lib : Library Re) (before : List Org) (org : Org) (after : List Org) (db : Db)
    (action : String) (context : Context) (flags : Flags) :
    decisionIn lib before org after db action context flags =
        decisionIn lib [] org [] db action context flags ↔
      ∀ ruleset, loaded lib org = .ok ruleset →
        Undisturbed lib (loadAll lib (before ++ org :: after)) ruleset action context := by
  rw [decisionIn, decisionIn, loadRules_fst, loadRules_fst]
  cases hload : loaded lib org with
  | error e => simp [Except.map]
  | ok ruleset =>
    have hfresh : ∀ r ∈ ruleset.rules, Registered lib (loadAll lib [org]) r :=
      loadRules_ok (C := fun _ => none) (Prod.ext hload rfl)
    have hcompiles : ∀ r ∈ candidates ruleset.rules action, ∀ p, r.pattern = some p → p.isRegex →
        ∃ re, compileExpr lib p.expr = .ok (some re) := by
      intro r hr p hp hregex
      obtain ⟨re, hre, -⟩ := hfresh r (mem_candidates.1 hr).1 p hp hregex
      exact ⟨re, hre⟩
    have halone : firstMatch (verdict lib (loadAll lib [org]) context) (candidates ruleset.rules action) =
        firstMatch (ownVerdict lib context) (candidates ruleset.rules action) :=
      firstMatch_congr fun r hr =>
        verdict_of_registered (hfresh r (mem_candidates.1 (mem_of_mem_reached hr)).1)
    simp only [Except.ok.injEq, forall_eq', Undisturbed]
    rw [← forall₂_congr fun r hr => agreesOn_iff (hcompiles r (mem_of_mem_reached hr)),
      ← firstMatch_eq_iff fun r hr => differ_in_answer (hcompiles r hr)]
    show Except.ok (decision ..) = Except.ok (decision ..) ↔ _
    rw [Except.ok.injEq, decision_eq, decision_eq, List.nil_append, halone, decisions_eq_iff]

/-- Regular expressions without special characters, which are found where they stand. -/
def literalPatterns : Library String where
  compile := some
  search re value := Contains value re
  fnmatch value expr := value = expr
  str
    | .str s => s
    | _ => ""

def orgRefusing (path expr : String) : Org where
  defaultCatalog := ⟨"default_rules.yaml", .unreadable⟩
  rulesFile := some ⟨path, .parsed (.map [("version", .int 1), ("rules", .seq [.map
    [("id", .str "no-secrets"), ("severity", .str "ABSOLUTE"), ("actions", .seq [.str "session.write"]),
     ("description", .str "Secrets stay out of files."),
     ("pattern", .map [("kind", .str "regex"), ("target", .str "body"), ("expr", .str expr)])]])])⟩

def noDb : Db where
  getBead _ := none
  getDirectManager _ := none

/-- The second organisation has a rule of the same id. -/
theorem reusedId_not_isolated :
    decisionIn literalPatterns [] (orgRefusing "a/config/rules.yaml" "token")
        [orgRefusing "b/config/rules.yaml" "password"] noDb "session.write" { body := some "a token" } {} ≠
      decisionIn literalPatterns [] (orgRefusing "a/config/rules.yaml" "token") [] noDb "session.write"
        { body := some "a token" } {} := by
  intro h
  have hkind := congrArg (fun result => result.toOption.bind fun d => d.toOption.map Decision.kind) h
  revert hkind
  decide +kernel

end Quinn.Rules
