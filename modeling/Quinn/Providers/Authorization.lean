import Mathlib.Data.List.Find
import Quinn.Providers.Base
import Quinn.Search.FirstMatch

/-! Which providers the selections reach, when they agree, and what they keep of the requirements. -/

namespace Quinn.Providers

open Store Search

theorem foldl_append_new (allowed : String → Bool) {l names : List String} (hl : l.Nodup) :
    l.foldl (fun names name => if name ∉ names ∧ allowed name then names ++ [name] else names) names =
      names ++ l.filter fun name => name ∉ names && allowed name := by
  induction l generalizing names with
  | nil => simp
  | cons name l ih =>
    obtain ⟨hname, hl⟩ := List.nodup_cons.1 hl
    rw [List.foldl_cons, ih hl, List.filter_cons]
    by_cases hnew : name ∉ names ∧ allowed name
    · have hrest : l.filter (fun n => n ∉ names ++ [name] && allowed n) =
          l.filter fun n => n ∉ names && allowed n := by
        refine List.filter_congr fun n hn => ?_
        have hne : n ≠ name := fun heq => hname (heq ▸ hn)
        simp [hne]
      rw [if_pos hnew, if_pos (by simpa using hnew), hrest, List.append_assoc]
      rfl
    · rw [if_neg hnew, if_neg (by simpa using hnew)]

theorem nodup_listProviders (r : Registry) : r.listProviders.Nodup := r.providers.nodup

variable {r : Registry} {preferred : Option String} {org : Option (List String)}

theorem buildProviderOrder_eq (r : Registry) (preferred : Option String) (org : Option (List String)) :
    buildProviderOrder r preferred org =
      (let first := (given preferred).toList.filter fun p => isAuthorized p org && r.providers.Has p
       let second := first ++ (given r.defaultProvider).toList.filter fun d => d ∉ first && isAuthorized d org
       second ++ r.listProviders.filter fun name => name ∉ second && isAuthorized name org) :=
  foldl_append_new (fun name => isAuthorized name org) (nodup_listProviders r)

theorem buildProviderOrder_eq_filter (r : Registry) (preferred : Option String) (org : Option (List String)) :
    buildProviderOrder r preferred org = (buildProviderOrder r preferred none).filter (isAuthorized · org) := by
  simp only [buildProviderOrder_eq, List.filter_append, List.filter_filter, isAuthorized_none, Bool.true_and,
    Bool.and_true]
  congr 1
  · congr 1
    refine List.filter_congr fun d _ => ?_
    by_cases hd : isAuthorized d org
    · simp [hd]
    · simp [hd]
  · refine List.filter_congr fun name _ => ?_
    by_cases hname : isAuthorized name org
    · simp [hname]
    · simp [hname]

/-- The empty name stands for no preference and no default. -/
def Considered (r : Registry) (preferred : Option String) (name : String) : Bool :=
  !(name = "" && (preferred = some "" || r.defaultProvider = some ""))

theorem considered_of_ne {name : String} (h : name ≠ "") : Considered r preferred name = true := by
  simp [Considered, h]

theorem selectOrder_eq_filter (r : Registry) (preferred : Option String) :
    r.selectOrder preferred =
      (buildProviderOrder r preferred none).filter fun name => r.isAuthorized name && Considered r preferred name := by
  simp only [Registry.selectOrder, buildProviderOrder_eq, List.filter_append, List.filter_filter,
    isAuthorized_none, Bool.true_and, Bool.and_true]
  congr 1
  · congr 1
    · refine List.filter_congr fun p hp => ?_
      have hne := (given_eq_some.1 (Option.mem_toList.1 hp)).2
      rw [considered_of_ne hne, Bool.and_true, Bool.and_comm]
    · refine List.filter_congr fun d hd => ?_
      obtain ⟨hdefault, hne⟩ := given_eq_some.1 (Option.mem_toList.1 hd)
      have hhas := r.default_has d hdefault
      have hpreferred : given preferred = some d ↔ preferred = some d := by simp [given_eq_some, hne]
      rw [considered_of_ne hne, Bool.and_true, Bool.and_comm]
      simp [hhas, hpreferred, eq_comm]
  · refine List.filter_congr fun name hname => ?_
    have hhas : r.providers.Has name := hname
    have hpreferred : preferred = some name ↔ some name = preferred := eq_comm
    have hdefault : r.defaultProvider = some name ↔ some name = r.defaultProvider := eq_comm
    rw [Bool.eq_iff_iff]
    by_cases hempty : name = ""
    · subst hempty
      simp [Considered, given_eq_some, hpreferred, hdefault]
      tauto
    · simp [considered_of_ne hempty, given_eq_some, hpreferred, hdefault, hhas, hempty]
      tauto

namespace Registry

def offersCost (r : Registry) (preferred : Option String) (cost : Int) (name : String) : Bool :=
  r.isAuthorized name && Considered r preferred name && (r.providers.find? name).any fun p => p.ServesCost cost

def offersTier (r : Registry) (org : Option (List String)) (cost : Int) (required : List String) (name : String) :
    Bool :=
  Providers.isAuthorized name org && (r.providers.find? name).any fun p => p.ServesTier (costToTier cost) required

def SameModel (r : Registry) (cost : Int) (required : List String) (name : String) : Prop :=
  ∀ p ∈ r.providers.find? name,
    (p.selectModel cost required).toOption = (p.selectModelForTier (costToTier cost) required).toOption

end Registry

theorem isOk_eq_true {ε α : Type} {x : Except ε α} : x.isOk = true ↔ ∃ a, x = .ok a := by
  cases x with
  | error e => simp [Except.isOk, Except.toBool]
  | ok a => simp [Except.isOk, Except.toBool]

variable {cost : Int} {skills : Skills} {required : List String} {p : Provider} {m : ModelInfo}

theorem picks_selectModel (name : String) :
    r.Picks (·.selectModel cost required) name = (r.providers.find? name).any fun p => p.ServesCost cost := by
  rw [Registry.Picks]
  cases r.providers.find? name with
  | none => rfl
  | some p =>
    rw [Option.any_some, Bool.eq_iff_iff, isOk_eq_true, decide_eq_true_iff]
    exact Provider.servesCost_iff.symm

theorem picks_selectModelForTier (tier : CostTier) (name : String) :
    r.Picks (·.selectModelForTier tier required) name =
      (r.providers.find? name).any fun p => p.ServesTier tier required := by
  rw [Registry.Picks]
  cases r.providers.find? name with
  | none => rfl
  | some p =>
    rw [Option.any_some, Bool.eq_iff_iff, isOk_eq_true, decide_eq_true_iff]
    exact Provider.servesTier_iff.symm

theorem has_of_mem_order {name : String} (h : name ∈ buildProviderOrder r preferred org) :
    r.providers.Has name := by
  rw [buildProviderOrder_eq] at h
  simp only [List.mem_append, List.mem_filter, Option.mem_toList, Bool.and_eq_true] at h
  obtain (⟨-, -, hhas⟩ | ⟨hdefault, -⟩) | ⟨hlisted, -⟩ := h
  · exact of_decide_eq_true hhas
  · exact r.default_has name (given_eq_some.1 hdefault).1
  · exact hlisted

theorem selectForWorker_eq_ok :
    r.selectForWorker cost skills preferred = .ok (p, m) ↔
      (buildProviderOrder r preferred none).find? (r.offersCost preferred cost) = some p.name ∧
        p ∈ r.providers.rows ∧ p.selectModel cost (skillsToCapabilities skills r.thresholds) = .ok m := by
  rw [Registry.selectForWorker, selectOrder_eq_filter, Registry.tryEach_eq_ok, List.find?_filter]
  · simp only [picks_selectModel, Bool.decide_and, Bool.decide_eq_true]
    rfl
  · exact fun name hname => has_of_mem_order (List.mem_of_mem_filter hname)

theorem chooseByTier_eq_ok :
    chooseByTier r cost required preferred org = .ok (p, m) ↔
      (buildProviderOrder r preferred none).find? (r.offersTier org cost required) = some p.name ∧
        p ∈ r.providers.rows ∧ p.selectModelForTier (costToTier cost) required = .ok m := by
  rw [chooseByTier, Registry.tryEach_eq_ok fun _ => has_of_mem_order, buildProviderOrder_eq_filter, List.find?_filter]
  simp only [picks_selectModelForTier, Bool.decide_and, Bool.decide_eq_true]
  rfl

theorem selectProviderForWorker_eq_ok {s : ProviderSelection} :
    selectProviderForWorker r cost skills preferred org = .ok s ↔
      chooseByTier r cost (skillsToCapabilities skills r.thresholds) preferred org = .ok (s.provider, s.model) ∧
        s.tier = costToTier cost ∧ s.requiredCapabilities = skillsToCapabilities skills r.thresholds := by
  obtain ⟨provider, model, tier, capabilities⟩ := s
  simp only [selectProviderForWorker, bind, Except.bind]
  cases chooseByTier r cost (skillsToCapabilities skills r.thresholds) preferred org with
  | error e => simp
  | ok chosen => simp [pure, Except.pure, Prod.ext_iff, eq_comm, and_assoc]

theorem getModelForWorker_eq_ok :
    getModelForWorker r cost (some required) preferred org = .ok m ↔
      ∃ p, chooseByTier r cost required preferred org = .ok (p, m) := by
  simp only [getModelForWorker, bind, Except.bind, Option.getD_some]
  cases chooseByTier r cost required preferred org with
  | error e => simp
  | ok chosen => simp [pure, Except.pure, Prod.ext_iff, eq_comm]

theorem exists_selectModel {names : List String} {name : String}
    (h : names.find? (r.offersCost preferred cost) = some name) (required : List String) :
    ∃ p m, p ∈ r.providers.rows ∧ p.name = name ∧ p.selectModel cost required = .ok m := by
  have hoffers := List.find?_some h
  simp only [Registry.offersCost, Bool.and_eq_true, Option.any_eq_true] at hoffers
  obtain ⟨-, p, hfind, hserves⟩ := hoffers
  obtain ⟨hmem, hname⟩ := Table.find?_eq_some.1 hfind
  obtain ⟨m, hm⟩ := Provider.servesCost_iff.1 (of_decide_eq_true hserves)
  exact ⟨p, m, hmem, hname, hm⟩

theorem exists_selectModelForTier {names : List String} {name : String}
    (h : names.find? (r.offersTier org cost required) = some name) :
    ∃ p m, p ∈ r.providers.rows ∧ p.name = name ∧ p.selectModelForTier (costToTier cost) required = .ok m := by
  have hoffers := List.find?_some h
  simp only [Registry.offersTier, Bool.and_eq_true, Option.any_eq_true] at hoffers
  obtain ⟨-, p, hfind, hserves⟩ := hoffers
  obtain ⟨hmem, hname⟩ := Table.find?_eq_some.1 hfind
  obtain ⟨m, hm⟩ := Provider.servesTier_iff.1 (of_decide_eq_true hserves)
  exact ⟨p, m, hmem, hname, hm⟩

theorem authorized_of_find?_offersCost {names : List String} {name : String}
    (h : names.find? (r.offersCost preferred cost) = some name) : r.isAuthorized name = true := by
  have hoffers := List.find?_some h
  simp only [Registry.offersCost, Bool.and_eq_true] at hoffers
  exact hoffers.1.1

theorem authorized_of_find?_offersTier {names : List String} {name : String}
    (h : names.find? (r.offersTier org cost required) = some name) : isAuthorized name org = true := by
  have hoffers := List.find?_some h
  simp only [Registry.offersTier, Bool.and_eq_true] at hoffers
  exact hoffers.1

def Registry.Authorizes (r : Registry) (org : Option (List String)) (name : String) : Prop :=
  r.isAuthorized name = true ∧ Providers.isAuthorized name org = true

structure Lawful (r : Registry) (org : Option (List String)) (cost : Int) (skills : Skills)
    (preferred : Option String) : Prop where
  byCost : ∀ p m, r.selectForWorker cost skills preferred = .ok (p, m) → r.Authorizes org p.name
  byTier : ∀ s, selectProviderForWorker r cost skills preferred org = .ok s → r.Authorizes org s.provider.name
  model : ∀ m, getModelForWorker r cost (some (skillsToCapabilities skills r.thresholds)) preferred org = .ok m →
    ∃ p ∈ r.providers.rows, r.Authorizes org p.name ∧
      p.selectModelForTier (costToTier cost) (skillsToCapabilities skills r.thresholds) = .ok m
  agree : ∀ p m s m', r.selectForWorker cost skills preferred = .ok (p, m) →
    selectProviderForWorker r cost skills preferred org = .ok s →
    getModelForWorker r cost (some (skillsToCapabilities skills r.thresholds)) preferred org = .ok m' →
    s.provider = p ∧ s.model = m ∧ m' = m

section lawful

variable (r preferred org cost skills)

theorem byCost_iff : (∀ p m, r.selectForWorker cost skills preferred = .ok (p, m) → r.Authorizes org p.name) ↔
    Led (r.offersCost preferred cost) (fun name => isAuthorized name org = true)
      (buildProviderOrder r preferred none) := by
  rw [led_iff]
  constructor
  · intro h name hfind
    obtain ⟨p, m, hmem, rfl, hm⟩ := exists_selectModel hfind (skillsToCapabilities skills r.thresholds)
    exact (h p m (selectForWorker_eq_ok.2 ⟨hfind, hmem, hm⟩)).2
  · intro h p m hselect
    obtain ⟨hfind, -⟩ := selectForWorker_eq_ok.1 hselect
    exact ⟨authorized_of_find?_offersCost hfind, h p.name hfind⟩

theorem byTier_iff : (∀ p m, chooseByTier r cost (skillsToCapabilities skills r.thresholds) preferred org = .ok (p, m) →
      r.Authorizes org p.name) ↔
    Led (r.offersTier org cost (skillsToCapabilities skills r.thresholds)) (fun name => r.isAuthorized name = true)
      (buildProviderOrder r preferred none) := by
  rw [led_iff]
  constructor
  · intro h name hfind
    obtain ⟨p, m, hmem, rfl, hm⟩ := exists_selectModelForTier hfind
    exact (h p m (chooseByTier_eq_ok.2 ⟨hfind, hmem, hm⟩)).1
  · intro h p m hchoose
    obtain ⟨hfind, -⟩ := chooseByTier_eq_ok.1 hchoose
    exact ⟨h p.name hfind, authorized_of_find?_offersTier hfind⟩

theorem agree_iff : (∀ p m q m', r.selectForWorker cost skills preferred = .ok (p, m) →
      chooseByTier r cost (skillsToCapabilities skills r.thresholds) preferred org = .ok (q, m') → q = p ∧ m' = m) ↔
    ∀ x ∈ (buildProviderOrder r preferred none).find? (r.offersCost preferred cost),
      ∀ y ∈ (buildProviderOrder r preferred none).find?
          (r.offersTier org cost (skillsToCapabilities skills r.thresholds)),
        x = y ∧ r.SameModel cost (skillsToCapabilities skills r.thresholds) x := by
  constructor
  · intro h x hx y hy
    obtain ⟨p, m, hp, rfl, hm⟩ := exists_selectModel hx (skillsToCapabilities skills r.thresholds)
    obtain ⟨q, m', hq, rfl, hm'⟩ := exists_selectModelForTier hy
    obtain ⟨rfl, rfl⟩ := h p m q m' (selectForWorker_eq_ok.2 ⟨hx, hp, hm⟩) (chooseByTier_eq_ok.2 ⟨hy, hq, hm'⟩)
    refine ⟨rfl, fun p' hp' => ?_⟩
    obtain ⟨hmem, hname⟩ := Table.find?_eq_some.1 hp'
    rw [Table.key_inj hmem hp hname, hm, hm']
  · intro h p m q m' hselect hchoose
    obtain ⟨hx, hp, hm⟩ := selectForWorker_eq_ok.1 hselect
    obtain ⟨hy, hq, hm'⟩ := chooseByTier_eq_ok.1 hchoose
    obtain ⟨hname, hsame⟩ := h p.name hx q.name hy
    have hpq : q = p := Table.key_inj hq hp hname.symm
    subst hpq
    have hmodel := hsame q (Table.find?_eq_some.2 ⟨hq, rfl⟩)
    rw [hm, hm'] at hmodel
    exact ⟨rfl, (Option.some.inj hmodel).symm⟩

/-- In the order of attempts: what one list authorizes and has a model is led by what the other list
authorizes as well; and where both paths have something to offer, whatever is offered on one is led by
what is offered on both, with the same model. -/
theorem lawful_iff :
    Lawful r org cost skills preferred ↔
      let order := buildProviderOrder r preferred none
      let required := skillsToCapabilities skills r.thresholds
      let byCost := r.offersCost preferred cost
      let byTier := r.offersTier org cost required
      Led byCost (fun name => isAuthorized name org = true) order ∧
        Led byTier (fun name => r.isAuthorized name = true) order ∧
        ((∃ x ∈ order, byCost x) → (∃ y ∈ order, byTier y) →
          Led byCost (fun name => byTier name ∧ r.SameModel cost required name) order ∧
            Led byTier (fun name => byCost name) order) := by
  dsimp only
  rw [← byCost_iff r preferred org cost skills, ← byTier_iff, ← found_agree_iff, ← agree_iff]
  constructor
  · rintro ⟨hcost, htier, -, hagree⟩
    refine ⟨hcost, fun p m hchoose => ?_, fun p m q m' hselect hchoose => ?_⟩
    · exact htier ⟨p, m, _, _⟩ (selectProviderForWorker_eq_ok.2 ⟨hchoose, rfl, rfl⟩)
    · obtain ⟨hq, hm', -⟩ := hagree p m ⟨q, m', _, _⟩ m' hselect (selectProviderForWorker_eq_ok.2 ⟨hchoose, rfl, rfl⟩)
        (getModelForWorker_eq_ok.2 ⟨q, hchoose⟩)
      exact ⟨hq, hm'⟩
  · rintro ⟨hcost, htier, hagree⟩
    refine ⟨hcost, fun s hs => ?_, fun m hm => ?_, fun p m s m' hselect hs hm' => ?_⟩
    · exact htier s.provider s.model (selectProviderForWorker_eq_ok.1 hs).1
    · obtain ⟨p, hchoose⟩ := getModelForWorker_eq_ok.1 hm
      obtain ⟨-, hmem, hpick⟩ := chooseByTier_eq_ok.1 hchoose
      exact ⟨p, hmem, htier p m hchoose, hpick⟩
    · obtain ⟨hprovider, hmodel⟩ := hagree p m s.provider s.model hselect (selectProviderForWorker_eq_ok.1 hs).1
      obtain ⟨q, hchoose⟩ := getModelForWorker_eq_ok.1 hm'
      exact ⟨hprovider, hmodel, (hagree p m q m' hselect hchoose).2⟩

end lawful

/-- Two providers with a model for every cost, of which only the second is authorized. -/
def restricted : Registry :=
  (((({} : Registry).register { name := "claude", models := [{ id := "sonnet", name := "Sonnet" }] }).register
    { name := "openai", models := [{ id := "gpt", name := "GPT" }] }).setAuthorizedProviders ["openai"])

/-- The functions that select by tier do not see the list set on the registry. -/
theorem restricted_not_lawful : ¬Lawful restricted none 10 (fun _ => none) none := by
  intro h
  have hchosen : (chooseByTier restricted 10 [] none none).toOption.map (·.1.name) = some "claude" := by
    decide +kernel
  have hrequired : skillsToCapabilities (fun _ => none) restricted.thresholds = [] := by decide +kernel
  cases hchoose : chooseByTier restricted 10 [] none none with
  | error e =>
    rw [hchoose] at hchosen
    cases hchosen
  | ok chosen =>
    obtain ⟨p, m⟩ := chosen
    rw [hchoose] at hchosen
    have hname : p.name = "claude" := Option.some.inj hchosen
    have hauthorized := h.byTier ⟨p, m, _, _⟩ (selectProviderForWorker_eq_ok.2 ⟨by rw [hrequired]; exact hchoose, rfl, rfl⟩)
    have hlisted : restricted.isAuthorized p.name = true := hauthorized.1
    rw [hname] at hlisted
    exact absurd hlisted (by decide +kernel)

namespace CostTier

def rank : CostTier → ℕ
  | budget => 0
  | standard => 1
  | advanced => 2
  | premium => 3

theorem mem_higher {t t' : CostTier} : t' ∈ t.higher ↔ t.rank < t'.rank := by
  cases t <;> cases t' <;> decide

theorem higher_pairwise (t : CostTier) : t.higher.Pairwise (·.rank < ·.rank) := by
  cases t <;> decide

theorem rank_injective : Function.Injective rank := by
  intro t t' h
  cases t <;> cases t' <;> first | rfl | cases h

end CostTier

namespace Provider

def HasCapable (p : Provider) (tier : CostTier) (required : List String) : Prop :=
  ∃ t, tier.rank ≤ t.rank ∧ ∃ m ∈ p.models, m.matchesTier t ∧ m.capabilities.hasCapabilities required

def IsLowestCapable (p : Provider) (tier : CostTier) (required : List String) (m : ModelInfo) : Prop :=
  ∃ t, tier.rank ≤ t.rank ∧
    (p.models.filter (·.matchesTier t)).find? (·.capabilities.hasCapabilities required) = some m ∧
    ∀ t', tier.rank ≤ t'.rank → t'.rank < t.rank →
      ∀ m' ∈ p.models, ¬(m'.matchesTier t' ∧ m'.capabilities.hasCapabilities required)

/-- Capabilities come before the tier where both can be had, and are a preference where they cannot. -/
structure IsChoice (p : Provider) (tier : CostTier) (required : List String) (m : ModelInfo) : Prop where
  capable : p.HasCapable tier required → p.IsLowestCapable tier required m
  otherwise : ¬p.HasCapable tier required → p.models.find? (·.matchesTier tier) = some m

variable {p : Provider} {tier : CostTier} {required : List String} {m : ModelInfo}

theorem IsLowestCapable.isChoice (h : p.IsLowestCapable tier required m) : p.IsChoice tier required m := by
  refine ⟨fun _ => h, fun hnone => ?_⟩
  obtain ⟨t, hle, hfind, -⟩ := h
  obtain ⟨hmem, htier⟩ := List.mem_filter.1 (List.mem_of_find?_eq_some hfind)
  have hcapable := List.find?_some hfind
  exact absurd ⟨t, hle, m, hmem, htier, hcapable⟩ hnone

theorem isLowestCapable_of_own
    (h : (p.models.filter (·.matchesTier tier)).find? (·.capabilities.hasCapabilities required) = some m) :
    p.IsLowestCapable tier required m :=
  ⟨tier, le_rfl, h, fun _ hle hlt => absurd hle hlt.not_ge⟩

theorem isLowestCapable_of_upgrade (h : p.tryUpgradeTier tier required = some m)
    (hown : ∀ m' ∈ p.models, ¬(m'.matchesTier tier ∧ m'.capabilities.hasCapabilities required)) :
    p.IsLowestCapable tier required m := by
  obtain ⟨lower, t, upper, hhigher, hfind, hlower⟩ := List.findSome?_eq_some_iff.1 h
  have hlt : tier.rank < t.rank := CostTier.mem_higher.1 (hhigher ▸ List.mem_append_right _ List.mem_cons_self)
  refine ⟨t, hlt.le, hfind, fun t' hle hlt' m' hmem hm' => ?_⟩
  obtain heq | hbetween := hle.eq_or_lt
  · exact hown m' hmem (CostTier.rank_injective heq ▸ hm')
  · have hsorted := tier.higher_pairwise
    have hmem' : t' ∈ tier.higher := CostTier.mem_higher.2 hbetween
    rw [hhigher, List.pairwise_append, List.pairwise_cons] at hsorted
    rw [hhigher, List.mem_append, List.mem_cons] at hmem'
    obtain hin | rfl | hin := hmem'
    · exact List.find?_eq_none.1 (hlower t' hin) m' (List.mem_filter.2 ⟨hmem, hm'.1⟩) hm'.2
    · exact hlt'.false
    · exact (hsorted.2.1.1 t' hin).not_gt hlt'

theorem not_hasCapable (hup : p.tryUpgradeTier tier required = none)
    (hown : ∀ m' ∈ p.models, ¬(m'.matchesTier tier ∧ m'.capabilities.hasCapabilities required)) :
    ¬p.HasCapable tier required := by
  rintro ⟨t, hle, m', hmem, hm'⟩
  obtain heq | hlt := hle.eq_or_lt
  · exact hown m' hmem (CostTier.rank_injective heq ▸ hm')
  · exact tryUpgradeTier_eq_none.1 hup ⟨t, CostTier.mem_higher.2 hlt, m', hmem, hm'⟩

theorem isChoice_of_selectModelForTier (h : p.selectModelForTier tier required = .ok m) :
    p.IsChoice tier required m := by
  have hfirst : p.models.find? (·.matchesTier tier) = (p.models.filter (·.matchesTier tier)).head? :=
    List.head?_filter.symm
  rw [selectModelForTier] at h
  cases htier : p.models.filter (·.matchesTier tier) with
  | nil =>
    have hown : ∀ m' ∈ p.models, ¬(m'.matchesTier tier ∧ m'.capabilities.hasCapabilities required) :=
      fun m' hmem hm' => List.filter_eq_nil_iff.1 htier m' hmem hm'.1
    rw [htier] at h
    cases hup : p.tryUpgradeTier tier required with
    | none =>
      rw [hup] at h
      cases h
    | some upgraded =>
      rw [hup] at h
      cases h
      exact (isLowestCapable_of_upgrade hup hown).isChoice
  | cons first others =>
    rw [htier] at h
    dsimp only at h
    split at h
    · next hrequired =>
      cases h
      apply IsLowestCapable.isChoice
      apply isLowestCapable_of_own
      rw [htier, hrequired]
      rfl
    · cases hcapable : (first :: others).find? (·.capabilities.hasCapabilities required) with
      | some capable =>
        rw [hcapable] at h
        cases h
        exact (isLowestCapable_of_own (htier ▸ hcapable)).isChoice
      | none =>
        have hown : ∀ m' ∈ p.models, ¬(m'.matchesTier tier ∧ m'.capabilities.hasCapabilities required) :=
          fun m' hmem hm' =>
            List.find?_eq_none.1 hcapable m' (htier ▸ List.mem_filter.2 ⟨hmem, hm'.1⟩) hm'.2
        rw [hcapable] at h
        cases hup : p.tryUpgradeTier tier required with
        | some upgraded =>
          rw [hup] at h
          cases h
          exact (isLowestCapable_of_upgrade hup hown).isChoice
        | none =>
          rw [hup] at h
          cases h
          exact ⟨fun hhas => absurd hhas (not_hasCapable hup hown), fun _ => by rw [hfirst, htier]; rfl⟩

end Provider

section order

variable {r : Registry} {preferred : Option String} {org : Option (List String)} {cost : Int} {required : List String}

def turns (r : Registry) (preferred : Option String) : List String :=
  (given preferred).toList ++ (given r.defaultProvider).toList ++ r.listProviders

theorem find?_filter_of_imp {keep test : String → Bool} {names : List String}
    (h : ∀ name ∈ names, test name → keep name) : (names.filter keep).find? test = names.find? test := by
  rw [List.find?_filter]
  refine List.find?_congr fun name hmem => ?_
  rw [Bool.eq_iff_iff, decide_eq_true_iff]
  exact and_iff_right_of_imp (h name hmem)

theorem find?_append_new (test : String → Bool) (names others : List String) :
    (names ++ others.filter fun name => name ∉ names).find? test = (names ++ others).find? test := by
  rw [List.find?_append, List.find?_append]
  cases hnames : names.find? test with
  | some name => rfl
  | none =>
    apply congrArg (Option.or none)
    apply find?_filter_of_imp
    intro name _ htest
    exact decide_eq_true fun hmem => List.find?_eq_none.1 hnames name hmem htest

theorem find?_order (test : String → Bool) (hhas : ∀ name, test name → r.providers.Has name) :
    (buildProviderOrder r preferred none).find? test = (turns r preferred).find? test := by
  have hfirst : ((given preferred).toList.filter fun p => r.providers.Has p).find? test =
      (given preferred).toList.find? test :=
    find?_filter_of_imp fun name _ htest => decide_eq_true (hhas name htest)
  rw [buildProviderOrder_eq]
  simp only [isAuthorized_none, Bool.true_and, Bool.and_true, turns]
  rw [find?_append_new, List.find?_append, find?_append_new, List.find?_append, hfirst, ← List.find?_append,
    ← List.find?_append]

theorem has_of_offersTier {name : String} (h : r.offersTier org cost required name) : r.providers.Has name := by
  rw [Registry.offersTier, Bool.and_eq_true, Option.any_eq_true] at h
  obtain ⟨-, p, hfind, -⟩ := h
  exact Table.has_iff.2 ⟨p, hfind⟩

end order

section selected

variable (r : Registry) (cost : Int) (skills : Skills) (required : List String) (preferred : Option String)
  (org : Option (List String))

/-- The first authorized provider, in the order of attempts, that has a model at the worker's tier or a
capable one above it, and what it gives. -/
structure Selected (p : Provider) (m : ModelInfo) : Prop where
  first : (turns r preferred).find? (r.offersTier org cost required) = some p.name
  mem : p ∈ r.providers.rows
  choice : p.IsChoice (costToTier cost) required m

/-- `ProviderSelectionError`, where no authorized provider has such a model. -/
structure NoneSelected (e : SelectionError) : Prop where
  error : ∃ attempted errors, e = .providerSelectionError cost required attempted errors
  none : ∀ p ∈ r.providers.rows, isAuthorized p.name org → ¬p.ServesTier (costToTier cost) required

variable {r cost skills required preferred org}

theorem tryEach_eq_error {pick : Provider → Except SelectionError ModelInfo}
    {fail : List (String × SelectionError) → SelectionError} {names : List String}
    (hnames : ∀ name ∈ names, r.providers.Has name) {errors : List (String × SelectionError)} {e : SelectionError}
    (h : r.tryEach pick fail names errors = .error e) : ∃ errors', e = fail errors' := by
  induction names generalizing errors with
  | nil =>
    cases h
    exact ⟨errors, rfl⟩
  | cons name names ih =>
    obtain ⟨q, hq⟩ := Table.has_iff.1 (hnames name List.mem_cons_self)
    have hget : r.get name = .ok q := by rw [Registry.get, hq]
    simp only [Registry.tryEach, hget, bind, Except.bind] at h
    cases hpick : pick q with
    | ok m =>
      rw [hpick] at h
      cases h
    | error e' =>
      rw [hpick] at h
      exact ih (fun n hn => hnames n (List.mem_cons_of_mem _ hn)) h

theorem selected_of_chooseByTier {p : Provider} {m : ModelInfo}
    (h : chooseByTier r cost required preferred org = .ok (p, m)) : Selected r cost required preferred org p m := by
  obtain ⟨hfirst, hmem, hpick⟩ := chooseByTier_eq_ok.1 h
  rw [find?_order _ fun _ => has_of_offersTier] at hfirst
  exact ⟨hfirst, hmem, Provider.isChoice_of_selectModelForTier hpick⟩

theorem noneSelected_of_chooseByTier {e : SelectionError} (h : chooseByTier r cost required preferred org = .error e) :
    NoneSelected r cost required org e := by
  constructor
  · obtain ⟨errors, rfl⟩ := tryEach_eq_error (fun _ => has_of_mem_order) h
    exact ⟨_, errors, rfl⟩
  · intro p hmem hauthorized hserves
    have hoffers : r.offersTier org cost required p.name = true := by
      rw [Registry.offersTier, Bool.and_eq_true, Option.any_eq_true]
      exact ⟨hauthorized, p, Table.find?_eq_some.2 ⟨hmem, rfl⟩, decide_eq_true hserves⟩
    cases hfind : (buildProviderOrder r preferred none).find? (r.offersTier org cost required) with
    | none =>
      rw [find?_order _ fun _ => has_of_offersTier] at hfind
      have hlisted : p.name ∈ turns r preferred := List.mem_append_right _ (List.mem_map_of_mem hmem)
      exact List.find?_eq_none.1 hfind p.name hlisted hoffers
    | some name =>
      obtain ⟨q, m, hq, rfl, hpick⟩ := exists_selectModelForTier hfind
      have hok : chooseByTier r cost required preferred org = .ok (q, m) := chooseByTier_eq_ok.2 ⟨hfind, hq, hpick⟩
      rw [hok] at h
      cases h

end selected

/-- What the two functions select, and when they select nothing. -/
theorem selections (r : Registry) (cost : Int) (skills : Skills) (required : Option (List String))
    (preferred : Option String) (org : Option (List String)) :
    (match selectProviderForWorker r cost skills preferred org with
      | .ok s =>
        s.tier = costToTier cost ∧ s.requiredCapabilities = skillsToCapabilities skills r.thresholds ∧
          Selected r cost s.requiredCapabilities preferred org s.provider s.model
      | .error e => NoneSelected r cost (skillsToCapabilities skills r.thresholds) org e) ∧
    (match getModelForWorker r cost required preferred org with
      | .ok m => ∃ p, Selected r cost (required.getD []) preferred org p m
      | .error e => NoneSelected r cost (required.getD []) org e) := by
  constructor
  · rw [selectProviderForWorker]
    cases hchoose : chooseByTier r cost (skillsToCapabilities skills r.thresholds) preferred org with
    | ok chosen => exact ⟨rfl, rfl, selected_of_chooseByTier hchoose⟩
    | error e => exact noneSelected_of_chooseByTier hchoose
  · rw [getModelForWorker]
    cases hchoose : chooseByTier r cost (required.getD []) preferred org with
    | ok chosen => exact ⟨chosen.1, selected_of_chooseByTier hchoose⟩
    | error e => exact noneSelected_of_chooseByTier hchoose

def limited : Registry :=
  ({} : Registry).register
    { name := "limited", models := [{ id := "limited-model", name := "Limited", tier := some .budget }] }

/-- A worker who codes is given a model that does not. -/
theorem limited_not_capable : ∃ s, selectProviderForWorker limited 20 (fun s => if s = "coding" then some 90 else none)
    none none = .ok s ∧ s.requiredCapabilities = ["coding"] ∧
      ¬s.model.capabilities.hasCapabilities s.requiredCapabilities := by
  exact ⟨_, rfl, by decide, by decide⟩

end Quinn.Providers
