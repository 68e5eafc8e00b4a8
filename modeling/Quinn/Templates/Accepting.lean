import Quinn.Loading.Outcome
import Quinn.Templates.Catalog

/-! Which trees the loader of `templates.yaml` accepts, and what it makes of them. -/

namespace Quinn.Templates.Loader

open Quinn.Checks Quinn.Loading

def OnlyKeys (allowed : List String) (raw : Yaml) : Prop := ∀ e ∈ raw.entries, ∃ key ∈ allowed, e.1 = .str key

def At (key : String) (raw v : Yaml) : Prop := Yaml.lookup key raw.entries = some v

structure DocumentedMember (raw : Yaml) : Prop where
  isMap : raw.isMap = true
  keys : OnlyKeys memberKeys raw
  role : ∃ s, s ≠ "" ∧ At "role" raw (.text s)
  count : ∃ n : Int, 1 ≤ n ∧ At "count" raw (.scalar (.int n))
  cost : ∃ n : Int, 0 ≤ n ∧ n ≤ 100 ∧ At "cost" raw (.scalar (.int n))
  isManager : ∀ v, At "is_manager" raw v → ∃ b, v = .scalar (.bool b)

structure DocumentedChannel (raw : Yaml) : Prop where
  isMap : raw.isMap = true
  keys : OnlyKeys channelKeys raw
  autoCreate : ∀ v, At "auto_create" raw v → ∃ b, v = .scalar (.bool b)
  nameTemplate : ∀ v, At "name_template" raw v → ∃ s, v = .text s

structure DocumentedOkr (raw : Yaml) : Prop where
  isMap : raw.isMap = true
  keys : OnlyKeys okrKeys raw
  title : ∃ s, At "title" raw (.text s)
  description : ∃ s, At "description" raw (.text s)
  keyResults : ∀ v, At "key_results" raw v → ∃ items, v = .list items

def Manages (raw : Yaml) : Prop := At "is_manager" raw (.scalar (.bool true))

structure DocumentedTemplate (raw : Yaml) : Prop where
  isMap : raw.isMap = true
  keys : OnlyKeys templateKeys raw
  name : ∃ s, s ≠ "" ∧ At "name" raw (.text s)
  description : ∃ s, At "description" raw (.text s)
  members : ∃ items, At "members" raw (.list items) ∧ (∀ m ∈ items, DocumentedMember m) ∧
    ∃ before m after, items = before ++ m :: after ∧ Manages m ∧ (∀ m' ∈ before, ¬Manages m') ∧
      ∀ m' ∈ after, ¬Manages m'
  channel : ∀ v, At "channel" raw v → DocumentedChannel v
  requires : ∀ v, At "requires" raw v → ∃ names : List String, v = .list (names.map .text)
  initialOkrs : ∀ v, At "initial_okrs" raw v → ∃ items, v = .list items ∧ ∀ o ∈ items, DocumentedOkr o
  ttlHours : ∀ v, At "ttl_hours" raw v → v = .null ∨ ∃ n : Int, 1 ≤ n ∧ v = .scalar (.int n)

/-- The tree is as the design describes it, with what a template requires in the same file. -/
structure Documented (data : Yaml) : Prop where
  isMap : data.isMap = true
  version : At "version" data (.scalar (.int 1))
  templates : ∃ items, At "templates" data (.list items) ∧ (∀ t ∈ items, DocumentedTemplate t) ∧
    (items.map nameOf).Nodup ∧ ∀ t ∈ items, ∀ s, .text s ∈ (requiresOf t).items → s ∈ items.map nameOf

structure Sound (r : TemplateRegistry) : Prop where
  names : (r.templates.map (·.name)).Nodup
  managers : ∀ t ∈ r.templates, (t.members.filter (·.isManager)).length = 1
  counts : ∀ t ∈ r.templates, ∀ m ∈ t.members, 1 ≤ m.count
  costs : ∀ t ∈ r.templates, ∀ m ∈ t.members, 0 ≤ m.cost ∧ m.cost ≤ 100
  requires : ∀ t ∈ r.templates, ∀ name ∈ t.requires, ∃ t' ∈ r.templates, t'.name = name

section accepting

variable (p : Platform) (sourcePath : Path)

theorem names_of_forEach {raws : List Yaml} {templates : List LoadedTemplate}
    (h : forEach (buildTemplate p sourcePath) 0 raws = .ok templates) :
    templates.map (·.name) = raws.map nameOf := by
  refine map_of_forEach ?_ h
  exact fun _ _ _ ht => (buildTemplate_eq_ok p sourcePath ht).1

theorem requires_of_forEach {raws : List Yaml} {templates : List LoadedTemplate}
    (h : forEach (buildTemplate p sourcePath) 0 raws = .ok templates) :
    templates.map (·.requires) = raws.map fun raw => (requiresOf raw).items.map p.str := by
  refine map_of_forEach ?_ h
  exact fun _ _ _ ht => (buildTemplate_eq_ok p sourcePath ht).2.1

theorem requires_iff {raws : List Yaml} {templates : List LoadedTemplate}
    (h : forEach (buildTemplate p sourcePath) 0 raws = .ok templates) :
    (∀ t ∈ templates, ∀ name ∈ t.requires, name ∈ templates.map (·.name)) ↔
      ∀ t ∈ raws, ∀ v ∈ (requiresOf t).items, p.str v ∈ raws.map nameOf := by
  rw [names_of_forEach p sourcePath h]
  refine (forall_mem_of_map_eq (requires_of_forEach p sourcePath h)
    fun names => ∀ name ∈ names, name ∈ raws.map nameOf).trans ?_
  exact forall₂_congr fun _ _ => List.forall_mem_map

theorem obeys_buildRegistry (data : Yaml) : Obeys (checksRegistry p data) (buildRegistry p sourcePath data) := by
  refine (obeys_check sourcePath (by simp [Piece.printable])).cons fun _ _ => ?_
  refine (obeys_check sourcePath rfl).cons fun _ _ => (obeys_check sourcePath rfl).cons fun _ _ => ?_
  refine (follows_forEach (obeys_buildTemplate p sourcePath) 0 _).bind fun templates htemplates => ?_
  have hnames := names_of_forEach p sourcePath htemplates
  refine Follows.cons (follows_of_iff ?_ fun _ => meant_rejectDuplicates sourcePath) fun _ _ => ?_
  · rw [rejectDuplicates_eq_ok, hnames]
    exact and_iff_right fun _ _ => List.not_mem_nil
  · refine (follows_of_iff ?_ fun _ => meant_of_forEach fun _ _ _ => meant_resolveRequires sourcePath).done
    rw [← requires_iff p sourcePath htemplates]
    refine forEach_returns_iff ?_
    exact fun _ _ => resolveRequires_eq_ok sourcePath

theorem obeys_readYaml {path : Path} {data : Yaml} (hraw : p.safeLoad path = .ok data) :
    Obeys [Loading.check (data.isNull = false) [], Loading.check (data.isMap = true) []] (readYaml p path) := by
  unfold readYaml
  rw [hraw]
  refine (obeys_check path rfl).cons fun _ _ => ?_
  exact (obeys_check path rfl).cons fun _ _ => follows_ok _

theorem readYaml_eq_ok {path : Path} {data data' : Yaml} (hraw : p.safeLoad path = .ok data)
    (h : readYaml p path = .ok data') : data' = data := by
  unfold readYaml at h
  rw [hraw] at h
  obtain ⟨_, -, h⟩ := bind_eq_ok.1 h
  obtain ⟨_, -, h⟩ := bind_eq_ok.1 h
  cases h
  rfl

theorem obeys_loadTemplates {orgTemplates catalog : Path} {data : Yaml}
    (hraw : p.safeLoad (target p orgTemplates catalog) = .ok data) :
    Obeys (checks p data) (loadTemplates p orgTemplates catalog) := by
  refine (obeys_readYaml p hraw).bind fun data' hdata => ?_
  rw [readYaml_eq_ok p hraw hdata]
  exact obeys_buildRegistry p _ data

theorem sound_of_buildRegistry {data : Yaml} {r : TemplateRegistry} (h : buildRegistry p sourcePath data = .ok r) :
    Sound r := by
  obtain ⟨_, -, h⟩ := bind_eq_ok.1 h
  obtain ⟨_, -, h⟩ := bind_eq_ok.1 h
  obtain ⟨_, -, h⟩ := bind_eq_ok.1 h
  obtain ⟨templates, htemplates, h⟩ := bind_eq_ok.1 h
  obtain ⟨u, hnames, h⟩ := bind_eq_ok.1 h
  obtain ⟨us, hrequires, h⟩ := bind_eq_ok.1 h
  cases h
  have hperm := List.perm_insertionSort (fun t t' : LoadedTemplate => t.name ≤ t'.name) templates
  have hbuilt : ∀ t ∈ templates, (t.members.filter (·.isManager)).length = 1 ∧
      ∀ m ∈ t.members, 1 ≤ m.count ∧ 0 ≤ m.cost ∧ m.cost ≤ 100 := by
    refine forall_of_forEach ?_ htemplates
    exact fun _ _ _ ht => (buildTemplate_eq_ok p sourcePath ht).2.2
  have hresolved : ∀ t ∈ templates, ∀ name ∈ t.requires, name ∈ templates.map (·.name) := by
    refine (forEach_returns_iff ?_).1 ⟨us, hrequires⟩
    exact fun _ _ => resolveRequires_eq_ok sourcePath
  constructor
  · exact (hperm.map _).nodup_iff.2 ((rejectDuplicates_eq_ok sourcePath).1 ⟨u, hnames⟩).2
  · exact fun t ht => (hbuilt t (hperm.mem_iff.1 ht)).1
  · exact fun t ht m hm => ((hbuilt t (hperm.mem_iff.1 ht)).2 m hm).1
  · exact fun t ht m hm => ((hbuilt t (hperm.mem_iff.1 ht)).2 m hm).2
  · intro t ht name hname
    obtain ⟨t', ht', rfl⟩ := List.mem_map.1 (hresolved t (hperm.mem_iff.1 ht) name hname)
    exact ⟨t', hperm.mem_iff.2 ht', rfl⟩

end accepting

section documented

variable {raw v : Yaml} {key : String}

theorem At.has (h : At key raw v) : has raw key = true := congrArg Option.isSome h

theorem At.getD (h : At key raw v) (default : Yaml) : raw.getD key default = v := congrArg (Option.getD · default) h

theorem At.get (h : At key raw v) : raw.get key = v := h.getD .null

theorem getD_of_forall {P : Yaml → Prop} {default : Yaml} (hdefault : P default) (h : ∀ v, At key raw v → P v) :
    P (raw.getD key default) := by
  unfold Yaml.getD
  cases hlookup : Yaml.lookup key raw.entries with
  | none => exact hdefault
  | some v => exact h v hlookup

theorem pass_check {c : Prop} [Decidable c] {shown : List Yaml} (h : c) : (Loading.check c shown).passes = true :=
  decide_eq_true h

theorem pass_convert {c : Prop} [Decidable c] (h : c) : (Loading.convert c).passes = true := decide_eq_true h

theorem allPass_nil : AllPass [] := List.forall_mem_nil _

theorem allPass_checksKeys {shown : List Yaml} {keys : List String} (h : ∀ key ∈ keys, has raw key = true) :
    AllPass (checksKeys shown raw keys) :=
  List.forall_mem_map.2 fun key hkey => pass_check (h key hkey)

theorem OnlyKeys.extras_eq_nil {allowed : List String} (h : OnlyKeys allowed raw) : extras allowed raw = [] := by
  refine List.filter_eq_nil_iff.2 fun k hk hextra => ?_
  obtain ⟨e, he, rfl⟩ := List.mem_map.1 hk
  obtain ⟨key, hkey, heq⟩ := h e he
  exact of_decide_eq_true hextra key hkey heq

theorem OnlyKeys.allPass {allowed : List String} (h : OnlyKeys allowed raw) :
    AllPass (checksStrict allowed raw) := by
  unfold checksStrict
  rw [h.extras_eq_nil]
  exact allPass_cons.2 ⟨rfl, allPass_cons.2 ⟨rfl, allPass_nil⟩⟩

theorem manages_iff : bool? (isManagerOf raw) = some true ↔ Manages raw := by
  unfold isManagerOf Yaml.getD Manages At
  cases Yaml.lookup "is_manager" raw.entries with
  | none => exact iff_of_false (by simp [bool?]) nofun
  | some v =>
    rw [Option.getD_some, Option.some.injEq]
    constructor
    · intro hv
      unfold bool? at hv
      split at hv
      · rw [Option.some.inj hv]
      · cases hv
    · rintro rfl
      rfl

theorem DocumentedMember.allPass (h : DocumentedMember raw) (i : Nat) : AllPass (checksMember i raw) := by
  obtain ⟨role, hne, hrole⟩ := h.role
  obtain ⟨count, hpos, hcount⟩ := h.count
  obtain ⟨cost, hnonneg, hle, hcost⟩ := h.cost
  have hkeys : ∀ key ∈ ["role", "count", "cost"], has raw key = true := by
    simp only [List.forall_mem_cons]
    exact ⟨hrole.has, hcount.has, hcost.has, fun _ h => nomatch h⟩
  have hisManager : (bool? (isManagerOf raw)).isSome = true := by
    refine @getD_of_forall _ _ (fun v => (bool? v).isSome = true) _ rfl fun v hv => ?_
    obtain ⟨b, rfl⟩ := h.isManager v hv
    rfl
  refine allPass_cons.2 ⟨pass_check h.isMap, AllPass.append.2 ⟨allPass_checksKeys hkeys, ?_⟩⟩
  rw [hrole.get, hcount.get, hcost.get]
  refine allPass_cons.2 ⟨pass_convert rfl, AllPass.append.2 ⟨h.keys.allPass, ?_⟩⟩
  refine allPass_cons.2 ⟨pass_check ⟨role, rfl, hne⟩, allPass_cons.2 ⟨pass_check ⟨count, rfl, hpos⟩, ?_⟩⟩
  refine AllPass.append.2 ⟨?_, allPass_cons.2 ⟨pass_check hisManager, allPass_nil⟩⟩
  refine allPass_cons.2 ⟨pass_check rfl, allPass_cons.2 ⟨pass_check rfl, ?_⟩⟩
  exact allPass_cons.2 ⟨pass_check ⟨hnonneg, hle⟩, allPass_nil⟩

theorem DocumentedChannel.allPass (h : DocumentedChannel raw) : AllPass (checksChannel raw) := by
  have hauto : (bool? (raw.getD "auto_create" (.scalar (.bool true)))).isSome = true := by
    refine @getD_of_forall _ _ (fun v => (bool? v).isSome = true) _ rfl fun v hv => ?_
    obtain ⟨b, rfl⟩ := h.autoCreate v hv
    rfl
  have hname : (raw.getD "name_template" (.text "")).text?.isSome = true := by
    refine @getD_of_forall _ _ (fun v => v.text?.isSome = true) _ rfl fun v hv => ?_
    obtain ⟨s, rfl⟩ := h.nameTemplate v hv
    rfl
  refine allPass_cons.2 ⟨pass_check h.isMap, AllPass.append.2 ⟨h.keys.allPass, ?_⟩⟩
  exact allPass_cons.2 ⟨pass_check hauto, allPass_cons.2 ⟨pass_check hname, allPass_nil⟩⟩

theorem DocumentedOkr.allPass (h : DocumentedOkr raw) (i : Nat) : AllPass (checksOkr i raw) := by
  obtain ⟨title, htitle⟩ := h.title
  obtain ⟨description, hdescription⟩ := h.description
  have hkeys : ∀ key ∈ ["title", "description"], has raw key = true := by
    simp only [List.forall_mem_cons]
    exact ⟨htitle.has, hdescription.has, fun _ h => nomatch h⟩
  have hresults : (raw.getD "key_results" (.list [])).isList = true := by
    refine @getD_of_forall _ _ (fun v => v.isList = true) _ rfl fun v hv => ?_
    obtain ⟨items, rfl⟩ := h.keyResults v hv
    rfl
  refine allPass_cons.2 ⟨pass_check h.isMap, AllPass.append.2 ⟨h.keys.allPass, ?_⟩⟩
  rw [htitle.get, hdescription.get]
  refine AllPass.append.2 ⟨allPass_checksKeys hkeys, allPass_cons.2 ⟨pass_check hresults, ?_⟩⟩
  exact allPass_cons.2 ⟨pass_convert rfl, allPass_cons.2 ⟨pass_convert rfl, allPass_nil⟩⟩

theorem length_managers {before after : List Yaml} {m : Yaml} (hm : Manages m)
    (hbefore : ∀ m' ∈ before, ¬Manages m') (hafter : ∀ m' ∈ after, ¬Manages m') :
    ((before ++ m :: after).filter fun m => bool? (isManagerOf m) = some true).length = 1 := by
  have hnone {ms : List Yaml} (h : ∀ m' ∈ ms, ¬Manages m') :
      (ms.filter fun m => bool? (isManagerOf m) = some true) = [] := by
    refine List.filter_eq_nil_iff.2 fun m' hm' hmanages => h m' hm' ?_
    exact manages_iff.1 (of_decide_eq_true hmanages)
  have hone : ((m :: after).filter fun m => bool? (isManagerOf m) = some true) =
      m :: after.filter fun m => bool? (isManagerOf m) = some true :=
    List.filter_cons_of_pos (by exact decide_eq_true (manages_iff.2 hm))
  rw [List.filter_append, hnone hbefore, List.nil_append, hone, hnone hafter]
  rfl

theorem requiresOf_eq (h : DocumentedTemplate raw) : ∃ names : List String, requiresOf raw = .list (names.map .text) :=
  @getD_of_forall _ _ (fun v => ∃ names : List String, v = .list (names.map .text)) _ ⟨[], rfl⟩ h.requires

theorem DocumentedTemplate.allPass (h : DocumentedTemplate raw) (i : Nat) : AllPass (checksTemplate i raw) := by
  obtain ⟨name, hne, hname⟩ := h.name
  obtain ⟨description, hdescription⟩ := h.description
  obtain ⟨members, hmembers, hdocumented, before, m, after, rfl, hm, hbefore, hafter⟩ := h.members
  obtain ⟨names, hrequires⟩ := requiresOf_eq h
  obtain ⟨okrs, hokrs, hokr⟩ : ∃ items, okrsOf raw = .list items ∧ ∀ o ∈ items, DocumentedOkr o :=
    @getD_of_forall _ _ (fun v => ∃ items, v = .list items ∧ ∀ o ∈ items, DocumentedOkr o) _
      ⟨[], rfl, List.forall_mem_nil _⟩ h.initialOkrs
  have hkeys : ∀ key ∈ ["name", "description", "members"], has raw key = true := by
    simp only [List.forall_mem_cons]
    exact ⟨hname.has, hdescription.has, hmembers.has, fun _ h => nomatch h⟩
  have hmanagers : (managersOf raw).length = 1 := by
    rw [managersOf, hmembers.get]
    exact length_managers hm hbefore hafter
  have hchannel : AllPass ((Yaml.lookup "channel" raw.entries).elim [] checksChannel) := by
    cases hlookup : Yaml.lookup "channel" raw.entries with
    | none => exact allPass_nil
    | some v => exact (h.channel v hlookup).allPass
  have httl : (raw.get "ttl_hours").isNull = true ∨ ∃ n ∈ int? (raw.get "ttl_hours"), 1 ≤ n := by
    refine @getD_of_forall _ _ (fun v => v.isNull = true ∨ ∃ n ∈ int? v, 1 ≤ n) _ (.inl rfl) fun v hv => ?_
    rcases h.ttlHours v hv with rfl | ⟨n, hn, rfl⟩
    · exact .inl rfl
    · exact .inr ⟨n, rfl, hn⟩
  refine allPass_cons.2 ⟨pass_check h.isMap, AllPass.append.2 ⟨allPass_checksKeys hkeys, ?_⟩⟩
  rw [hname.get, hdescription.get, hmembers.get, hrequires, hokrs]
  refine allPass_cons.2 ⟨pass_check ⟨name, rfl, hne⟩, AllPass.append.2 ⟨h.keys.allPass, ?_⟩⟩
  refine allPass_cons.2 ⟨pass_check rfl, allPass_cons.2 ⟨pass_check ⟨rfl, ?_⟩, AllPass.append.2 ⟨?_, ?_⟩⟩⟩
  · exact List.append_ne_nil_of_right_ne_nil _ (List.cons_ne_nil _ _)
  · exact allPass_checksEach fun i m hm => (hdocumented m hm).allPass i
  refine allPass_cons.2 ⟨pass_check hmanagers, AllPass.append.2 ⟨hchannel, ?_⟩⟩
  refine allPass_cons.2 ⟨pass_check rfl, AllPass.append.2 ⟨allPass_checksEach fun _ v hv => ?_, ?_⟩⟩
  · obtain ⟨s, -, rfl⟩ := List.mem_map.1 hv
    exact allPass_cons.2 ⟨pass_convert rfl, allPass_nil⟩
  refine allPass_cons.2 ⟨pass_check rfl, AllPass.append.2 ⟨?_, allPass_cons.2 ⟨pass_check httl, allPass_nil⟩⟩⟩
  exact allPass_checksEach fun i o ho => (hokr o ho).allPass i

theorem Documented.allPass (p : Platform) {data : Yaml} (h : Documented data) : AllPass (checks p data) := by
  obtain ⟨items, htemplates, hdocumented, hnodup, hrequires⟩ := h.templates
  have hnull : data.isNull = false := by
    cases data with
    | scalar s => cases h.isMap
    | list items => rfl
    | map entries => rfl
  refine allPass_cons.2 ⟨pass_check hnull, allPass_cons.2 ⟨pass_check h.isMap, ?_⟩⟩
  unfold checksRegistry
  rw [h.version.get, htemplates.get]
  refine allPass_cons.2 ⟨pass_check rfl, allPass_cons.2 ⟨pass_check rfl, allPass_cons.2 ⟨pass_check rfl, ?_⟩⟩⟩
  refine AllPass.append.2 ⟨allPass_checksEach fun i t ht => (hdocumented t ht).allPass i, ?_⟩
  refine allPass_cons.2 ⟨pass_check hnodup, allPass_cons.2 ⟨pass_check fun t ht v hv => ?_, allPass_nil⟩⟩
  obtain ⟨names, heq⟩ := requiresOf_eq (hdocumented t ht)
  have hv' : v ∈ names.map Yaml.text := by
    rw [heq] at hv
    exact hv
  obtain ⟨s, -, rfl⟩ := List.mem_map.1 hv'
  rw [p.str_text]
  exact hrequires t ht s hv

end documented

/-- Loading either raises a `TemplateSchemaError`, for a tree that is not as documented, or returns a
registry that is sound. -/
def Accepts (p : Platform) (orgTemplates catalog : Path) (data : Yaml) : Prop :=
  match loadTemplates p orgTemplates catalog with
  | .error e => e.IsTemplateSchemaError ∧ ¬Documented data
  | .ok r => Sound r

/-- It does so just when the first check that fails, if one does, refuses the tree. -/
theorem accepts_iff {p : Platform} {orgTemplates catalog : Path} {data : Yaml}
    (hraw : p.safeLoad (target p orgTemplates catalog) = .ok data) :
    Accepts p orgTemplates catalog data ↔ Orderly (checks p data) := by
  have hobeys := obeys_loadTemplates p hraw
  rw [← hobeys.meant_iff, Accepts]
  rcases hload : loadTemplates p orgTemplates catalog with e | r
  · have hundocumented : ¬Documented data := fun h => by
      obtain ⟨r, hr⟩ := hobeys.returns_iff.2 (h.allPass p)
      rw [hload] at hr
      cases hr
    constructor
    · rintro ⟨he, -⟩ _ ⟨⟩
      exact he
    · exact fun h => ⟨h e rfl, hundocumented⟩
  · refine iff_of_true ?_ fun _ he => nomatch he
    obtain ⟨_, -, hbuild⟩ := bind_eq_ok.1 hload
    exact sound_of_buildRegistry p _ hbuild

/-- The organisation has no file of its own, and no node but a text is shown. -/
def bundled (data : Yaml) : Platform where
  exists_ _ := false
  safeLoad _ := .ok data
  resolve path := path
  str v := v.text?.getD ""
  str_text _ := rfl

def orgTemplates : Path := "/org/config/templates.yaml"

def catalog : Path := "/cli/config/default_team_templates.yaml"

def incidentTeam (more : List (Scalar × Yaml)) : Yaml :=
  mapping [("version", .scalar (.int 1)), ("templates", .list [
    mapping [("name", .text "incident_team"), ("description", .text "Resolves one incident."),
      ("ttl_hours", .scalar (.int 24)),
      ("members", .list [
        .map ([(.str "role", .text "incident-commander"), (.str "count", .scalar (.int 1)),
          (.str "cost", .scalar (.int 60)), (.str "is_manager", .scalar (.bool true))] ++ more),
        mapping [("role", .text "engineer"), ("count", .scalar (.int 2)), ("cost", .scalar (.int 50))]])],
    mapping [("name", .text "review_team"), ("description", .text "Looks back on an incident."),
      ("members", .list [
        mapping [("role", .text "pm"), ("count", .scalar (.int 1)), ("cost", .scalar (.int 60)),
          ("is_manager", .scalar (.bool true))],
        mapping [("role", .text "analyst"), ("count", .scalar (.int 1)), ("cost", .scalar (.int 45))]]),
      ("requires", .list [.text "incident_team"])]])]

theorem incidentTeam_accepted : Accepts (bundled (incidentTeam [])) orgTemplates catalog (incidentTeam []) :=
  (accepts_iff rfl).2 (by decide +kernel)

def raisesTypeError : Load TemplateRegistry → Bool
  | .error .typeError => true
  | _ => false

theorem of_raisesTypeError {x : Load TemplateRegistry} (h : raisesTypeError x = true) : x = .error .typeError := by
  unfold raisesTypeError at h
  split at h
  · rfl
  · cases h

/-- The keys `1` and `foo` are not compared with one another. -/
theorem unknown_keys_unsorted :
    loadTemplates (bundled (incidentTeam [(.int 1, .null), (.str "foo", .null)])) orgTemplates catalog =
        .error .typeError ∧
      ¬Accepts (bundled (incidentTeam [(.int 1, .null), (.str "foo", .null)])) orgTemplates catalog
        (incidentTeam [(.int 1, .null), (.str "foo", .null)]) := by
  have herror : loadTemplates (bundled (incidentTeam [(.int 1, .null), (.str "foo", .null)])) orgTemplates catalog =
      .error .typeError := of_raisesTypeError (by decide +kernel)
  refine ⟨herror, ?_⟩
  unfold Accepts
  rw [herror]
  exact fun h => h.1

end Quinn.Templates.Loader
