import Quinn.Loading.Checking

/-! When loading a tree ends as it is meant to. -/

namespace Quinn.Loading

open Checks

variable {p : Platform} {path baseDir : Path}

/-- Loading the file either raises an `OrgSpecError`, or returns what is built of a tree in which each
reference has been replaced by the definition it names, and none is left. -/
def Loads (p : Platform) (path : Path) (raw : Yaml) : Prop :=
  match loadOrgSpec p path with
  | .error e => e.IsOrgSpecError
  | .ok spec => ∃ t, resolveRefs p (p.parent path) raw.orEmpty = .ok t ∧ buildSpec p path t = .ok spec ∧
    Expands p (p.parent path) raw.orEmpty t ∧ t.NoRefs

/-- What the references name has no references itself. -/
def Flat (p : Platform) (baseDir : Path) (raw : Yaml) : Prop := ∀ ref ∈ raw.refs, (definition p baseDir ref).NoRefs

instance (v : Yaml) : Decidable v.NoRefs := decidable_of_iff (v.refs.isEmpty = true) List.isEmpty_iff

instance (p : Platform) (baseDir : Path) (raw : Yaml) : Decidable (Flat p baseDir raw) :=
  inferInstanceAs (Decidable (∀ ref ∈ raw.refs, _))

theorem obeys_parse {failed : List Piece} (hfailed : failed.all Piece.printable = true) :
    Obeys [checkFile p path] (parse p failed path) := by
  unfold checkFile parse
  rcases p.safeLoad path with (text | e) | v
  · refine follows_error (iff_of_true ((isOrgSpecError_refusal _).2 ?_) rfl)
    rw [List.all_append, hfailed]
    rfl
  · exact follows_error (iff_of_false id Bool.false_ne_true)
  · exact rfl

theorem obeys_loadRef (ref : Yaml) : Obeys (checksRef p baseDir ref) (loadRef p baseDir ref) := by
  unfold checksRef loadRef
  refine (obeys_check (by simp [Piece.printable])).cons fun _ _ => ?_
  rcases p.resolve baseDir ⟨ref⟩ with e | refPath
  · exact follows_error (iff_of_false id Bool.false_ne_true)
  · change Obeys _ (outside (p.isFile refPath) >>= _)
    dsimp only
    rcases p.isFile refPath with e | found
    · exact follows_error (iff_of_false id Bool.false_ne_true)
    · exact (obeys_check (by simp [Piece.printable])).cons fun _ _ => obeys_parse rfl

theorem loadRef_eq_ok {ref t : Yaml} (h : loadRef p baseDir ref = .ok t) : t = definition p baseDir ref := by
  obtain ⟨_, -, h⟩ := bind_eq_ok.1 h
  obtain ⟨refPath, hresolve, h⟩ := bind_eq_ok.1 h
  obtain ⟨_, -, h⟩ := bind_eq_ok.1 h
  obtain ⟨_, -, h⟩ := bind_eq_ok.1 h
  have hpath : p.resolve baseDir ⟨ref⟩ = .ok refPath := by
    unfold outside at hresolve
    split at hresolve
    · next hpath =>
      cases hresolve
      exact hpath
    · cases hresolve
  unfold definition
  rw [hpath]
  dsimp only
  unfold parse at h
  split at h
  · next hload =>
    cases h
    rw [hload]
  · cases h
  · cases h

theorem names_of_allPass {ref : Yaml} (h : AllPass (checksRef p baseDir ref)) :
    Names p baseDir ref (definition p baseDir ref) := by
  unfold checksRef at h
  obtain ⟨htext, h⟩ := List.forall_mem_cons.1 h
  refine ⟨of_decide_eq_true htext, ?_⟩
  split at h
  · cases List.forall_mem_singleton.1 h
  next refPath hresolve =>
  split at h
  · cases List.forall_mem_singleton.1 h
  next found hfound =>
  obtain ⟨htrue, h⟩ := List.forall_mem_cons.1 h
  have hfile := List.forall_mem_singleton.1 h
  obtain rfl : found = true := of_decide_eq_true htrue
  refine ⟨refPath, hresolve, hfound, ?_⟩
  unfold checkFile at hfile
  unfold definition
  rw [hresolve]
  dsimp only
  split at hfile
  · next v hload => exact ⟨v, hload, by rw [hload]⟩
  · cases hfile
  · cases hfile

theorem obeys_resolveItems {items : List Yaml}
    (h : ∀ v ∈ items, Obeys (v.refs.flatMap (checksRef p baseDir)) (resolveRefs p baseDir v)) :
    Obeys ((items.flatMap Yaml.refs).flatMap (checksRef p baseDir)) (resolveItems p baseDir items) := by
  induction items with
  | nil => exact follows_ok []
  | cons v vs ih =>
    obtain ⟨hv, hvs⟩ := List.forall_mem_cons.1 h
    rw [List.flatMap_cons, List.flatMap_append]
    exact hv.bind fun _ _ => (ih hvs).done

theorem obeys_resolveEntries {entries : List (Scalar × Yaml)}
    (h : ∀ e ∈ entries, Obeys (e.2.refs.flatMap (checksRef p baseDir)) (resolveRefs p baseDir e.2)) :
    Obeys ((entries.flatMap fun e => e.2.refs).flatMap (checksRef p baseDir)) (resolveEntries p baseDir entries) := by
  induction entries with
  | nil => exact follows_ok []
  | cons e es ih =>
    obtain ⟨he, hes⟩ := List.forall_mem_cons.1 h
    rw [List.flatMap_cons, List.flatMap_append]
    exact he.bind fun _ _ => (ih hes).done

theorem obeys_resolveRefs (v : Yaml) :
    Obeys (v.refs.flatMap (checksRef p baseDir)) (resolveRefs p baseDir v) := by
  induction v with
  | scalar s => exact follows_ok _
  | list items ih =>
    rw [Yaml.refs_list, resolveRefs]
    exact (obeys_resolveItems ih).done
  | map entries ih =>
    rw [resolveRefs]
    cases hlookup : Yaml.lookup refKey entries with
    | none =>
      rw [Yaml.refs_map hlookup]
      exact (obeys_resolveEntries ih).done
    | some ref =>
      rw [Yaml.refs_ref hlookup, List.flatMap_singleton]
      exact obeys_loadRef ref

theorem resolveItems_eq_ok {items items' : List Yaml} (h : resolveItems p baseDir items = .ok items')
    (hitems : ∀ v ∈ items, ∀ t, resolveRefs p baseDir v = .ok t → t = v.expand (definition p baseDir)) :
    items' = items.map (Yaml.expand (definition p baseDir)) := by
  induction items generalizing items' with
  | nil =>
    cases h
    rfl
  | cons v vs ih =>
    obtain ⟨t, hv, h⟩ := bind_eq_ok.1 h
    obtain ⟨ts, hvs, h⟩ := bind_eq_ok.1 h
    cases h
    obtain ⟨hitem, hrest⟩ := List.forall_mem_cons.1 hitems
    rw [List.map_cons, hitem t hv, ih hvs hrest]

theorem resolveEntries_eq_ok {entries entries' : List (Scalar × Yaml)}
    (h : resolveEntries p baseDir entries = .ok entries')
    (hentries : ∀ e ∈ entries, ∀ t, resolveRefs p baseDir e.2 = .ok t → t = e.2.expand (definition p baseDir)) :
    entries' = entries.map fun e => (e.1, e.2.expand (definition p baseDir)) := by
  induction entries generalizing entries' with
  | nil =>
    cases h
    rfl
  | cons e es ih =>
    obtain ⟨t, he, h⟩ := bind_eq_ok.1 h
    obtain ⟨ts, hes, h⟩ := bind_eq_ok.1 h
    cases h
    obtain ⟨hentry, hrest⟩ := List.forall_mem_cons.1 hentries
    rw [List.map_cons, hentry t he, ih hes hrest]

theorem resolveRefs_eq_ok {v t : Yaml} (h : resolveRefs p baseDir v = .ok t) :
    t = v.expand (definition p baseDir) := by
  induction v generalizing t with
  | scalar s =>
    cases h
    rfl
  | list items ih =>
    rw [resolveRefs] at h
    obtain ⟨items', hitems, h⟩ := bind_eq_ok.1 h
    cases h
    rw [Yaml.expand_list, resolveItems_eq_ok hitems fun v hv t => ih v hv]
  | map entries ih =>
    rw [resolveRefs] at h
    cases hlookup : Yaml.lookup refKey entries with
    | none =>
      rw [hlookup] at h
      obtain ⟨entries', hentries, h⟩ := bind_eq_ok.1 h
      cases h
      rw [Yaml.expand_map _ hlookup, resolveEntries_eq_ok hentries fun e he t => ih e he]
    | some ref =>
      rw [hlookup] at h
      rw [Yaml.expand_ref _ hlookup, loadRef_eq_ok h]

section loading

variable {raw : Yaml}

theorem loadOrgSpec_eq (hfile : p.isFile path = .ok true) (hraw : p.safeLoad path = .ok raw) :
    loadOrgSpec p path = (do
      require (raw.orEmpty.isMap = true)
        (refusal [.lit "org spec must be a mapping, got ", .lit raw.orEmpty.typeName])
      let t ← resolveRefs p (p.parent path) raw.orEmpty
      buildSpec p path t) := by
  unfold loadOrgSpec parse
  rw [hfile, hraw]
  rfl

theorem obeys_loadOrgSpec (hfile : p.isFile path = .ok true) (hraw : p.safeLoad path = .ok raw) :
    Obeys (checks p path raw.orEmpty) (loadOrgSpec p path) := by
  rw [loadOrgSpec_eq hfile hraw]
  refine (obeys_check rfl).cons fun _ _ => (obeys_resolveRefs _).bind fun t ht => ?_
  rw [resolveRefs_eq_ok ht]
  exact obeys_buildSpec p path _

theorem names_of_checks (h : AllPass (checks p path raw)) :
    ∀ ref ∈ raw.refs, Names p (p.parent path) ref (definition p (p.parent path) ref) := by
  intro ref href
  obtain ⟨hrefs, -⟩ := AllPass.append.1 (List.forall_mem_cons.1 h).2
  exact names_of_allPass fun c hc => hrefs c (List.mem_flatMap.2 ⟨ref, href, hc⟩)

/-- Of a tree the parser gives, loading ends as it is meant to just when the first check to fail is one
that refuses the tree, and, if none fails, what the references name has no references itself. -/
theorem loads_iff (hfile : p.isFile path = .ok true) (hraw : p.safeLoad path = .ok raw) :
    Loads p path raw ↔ Orderly (checks p path raw.orEmpty) ∧
      (AllPass (checks p path raw.orEmpty) → Flat p (p.parent path) raw.orEmpty) := by
  have hobeys := obeys_loadOrgSpec hfile hraw
  rw [← hobeys.meant_iff, ← hobeys.returns_iff, Loads]
  rcases hload : loadOrgSpec p path with e | spec
  · refine ⟨fun he => ⟨fun _ heq => ?_, fun ⟨_, heq⟩ => by cases heq⟩, fun h => h.1 e rfl⟩
    cases heq
    exact he
  · have hnames := names_of_checks (hobeys.returns_iff.1 ⟨spec, hload⟩)
    constructor
    · rintro ⟨t, ht, -, -, hnone⟩
      rw [resolveRefs_eq_ok ht] at hnone
      exact ⟨nofun, fun _ => (Yaml.noRefs_expand _).1 hnone⟩
    · rintro ⟨-, hflat⟩
      have hflat := hflat ⟨spec, rfl⟩
      rw [loadOrgSpec_eq hfile hraw] at hload
      obtain ⟨_, -, hload⟩ := bind_eq_ok.1 hload
      obtain ⟨t, ht, hbuild⟩ := bind_eq_ok.1 hload
      refine ⟨t, ht, hbuild, ?_⟩
      rw [resolveRefs_eq_ok ht]
      refine ⟨expands_expand fun ref href => ⟨_, hnames ref href, (hflat ref href).expands⟩, ?_⟩
      exact (Yaml.noRefs_expand _).2 hflat

end loading

def disk (files : List (Path × Yaml)) : Platform where
  isDecimal _ := false
  isSpace _ := false
  isIdStart _ := false
  isIdContinue _ := false
  parent _ := "/org"
  resolve baseDir text := .ok (baseDir ++ "/" ++ (text.of.text?.getD ""))
  isFile path := .ok (files.any (·.1 = path))
  safeLoad path :=
    match files.find? (·.1 = path) with
    | some (_, v) => .ok v
    | none => .error (.outside "FileNotFoundError")

def orgYml : Path := "/org/org.yml"

def providersYaml : Path := "/org/config/providers.yaml"

def mapping (entries : List (String × Yaml)) : Yaml := .map (entries.map fun e => (.str e.1, e.2))

def minimal (key : String) (value : Yaml) : Yaml :=
  mapping [("apiVersion", .text "quinnai/v1"), ("metadata", mapping [("name", .text "simpli")]),
    ("ceo", mapping [("name", .text "Quinn")]), (key, value)]

def withProviders : Yaml := minimal "providers" (mapping [(refKey, .text "config/providers.yaml")])

def blankTarget : Yaml := minimal "okrs" (.list [mapping [("title", .text "Reliability"),
  ("keyResults", .list [mapping [("metric", .text "coverage"), ("target", .null)]])]])

def flatProviders : Yaml := mapping [("default", .text "claude_code")]

def nestedProviders : Yaml := mapping [("providers", mapping [(refKey, .text "config/claude.yaml")])]

def flatDisk : Platform := disk [(orgYml, withProviders), (providersYaml, flatProviders)]

def nestedDisk : Platform := disk [(orgYml, withProviders), (providersYaml, nestedProviders)]

theorem withProviders_loads : Loads flatDisk orgYml withProviders := by
  refine (loads_iff ?_ ?_).2 ⟨?_, fun _ => ?_⟩
  · decide +kernel
  · rfl
  · decide +kernel
  · decide +kernel

/-- A blank target is a `TypeError`, and the reference in the file that is referred to stays. -/
theorem not_loads : ¬Loads (disk [(orgYml, blankTarget)]) orgYml blankTarget ∧
    ¬Loads nestedDisk orgYml withProviders ∧
    ∃ spec, loadOrgSpec nestedDisk orgYml = .ok spec ∧ ¬(Yaml.map spec.providers).NoRefs := by
  have hraises : (loadOrgSpec (disk [(orgYml, blankTarget)]) orgYml matches .error .typeError) = true := by
    decide +kernel
  have hreturns : (match loadOrgSpec nestedDisk orgYml with
      | .ok spec => !(Yaml.map spec.providers).refs.isEmpty
      | .error _ => false) = true := by decide +kernel
  refine ⟨?_, ?_, ?_⟩
  · unfold Loads
    split
    · next e he =>
      rw [he] at hraises
      cases e <;> first | exact id | cases hraises
    · next spec hspec =>
      rw [hspec] at hraises
      cases hraises
  · unfold Loads
    split
    · next e he =>
      rw [he] at hreturns
      cases hreturns
    · rintro ⟨t, ht, -, -, hnone⟩
      rw [resolveRefs_eq_ok ht] at hnone
      revert hnone
      decide +kernel
  · rcases hload : loadOrgSpec nestedDisk orgYml with e | spec
    · rw [hload] at hreturns
      cases hreturns
    · rw [hload] at hreturns
      refine ⟨spec, rfl, fun hnone => ?_⟩
      rw [Yaml.NoRefs] at hnone
      simp [hnone] at hreturns

end Quinn.Loading
