import Quinn.Templates.Loader

/-! What the loader checks of `templates.yaml`, in its order, and when that ends as it is meant to. -/

namespace Quinn.Templates.Loader

open Quinn.Checks Quinn.Loading

def checksStrict (allowed : List String) (raw : Yaml) : List Check :=
  [Loading.convert (Sortable (extras allowed raw)),
    Loading.check (extras allowed raw = []) ((extras allowed raw).map .scalar)]

def checksKeys (shown : List Yaml) (raw : Yaml) (keys : List String) : List Check :=
  keys.map fun key => Loading.check (has raw key = true) shown

def checksCost (raw role : Yaml) : List Check :=
  [Loading.check (bool? raw = none) [role, raw], Loading.check ((int? raw).isSome = true) [role, raw],
    Loading.check (0 ≤ (int? raw).getD 0 ∧ (int? raw).getD 0 ≤ 100) [role, raw]]

def isManagerOf (raw : Yaml) : Yaml := raw.getD "is_manager" (.scalar (.bool false))

def checksMember (_ : Nat) (raw : Yaml) : List Check :=
  Loading.check (raw.isMap = true) [] :: (checksKeys [raw] raw ["role", "count", "cost"] ++
  (Loading.convert ((raw.get "role").printable = true) :: (checksStrict memberKeys raw ++
  (Loading.check (∃ s ∈ (raw.get "role").text?, s ≠ "") [raw.get "role"] ::
  Loading.check (∃ n ∈ int? (raw.get "count"), 1 ≤ n) [raw.get "role", raw.get "count"] ::
  (checksCost (raw.get "cost") (raw.get "role") ++
  [Loading.check ((bool? (isManagerOf raw)).isSome = true) [raw.get "role", isManagerOf raw]])))))

def checksChannel (raw : Yaml) : List Check :=
  Loading.check (raw.isMap = true) [] :: (checksStrict channelKeys raw ++
  [Loading.check ((bool? (raw.getD "auto_create" (.scalar (.bool true)))).isSome = true) [],
    Loading.check ((raw.getD "name_template" (.text "")).text?.isSome = true) []])

def checksOkr (_ : Nat) (raw : Yaml) : List Check :=
  Loading.check (raw.isMap = true) [] :: (checksStrict okrKeys raw ++ (checksKeys [] raw ["title", "description"] ++
  [Loading.check ((raw.getD "key_results" (.list [])).isList = true) [],
    Loading.convert ((raw.get "title").printable = true), Loading.convert ((raw.get "description").printable = true)]))

def managersOf (raw : Yaml) : List Yaml := (raw.get "members").items.filter fun m => bool? (isManagerOf m) = some true

def requiresOf (raw : Yaml) : Yaml := raw.getD "requires" (.list [])

def okrsOf (raw : Yaml) : Yaml := raw.getD "initial_okrs" (.list [])

def checksTemplate (_ : Nat) (raw : Yaml) : List Check :=
  Loading.check (raw.isMap = true) [] :: (checksKeys [raw] raw ["name", "description", "members"] ++
  (Loading.check (∃ s ∈ (raw.get "name").text?, s ≠ "") [raw.get "name"] :: (checksStrict templateKeys raw ++
  (Loading.check ((raw.get "description").text?.isSome = true) [] ::
  Loading.check ((raw.get "members").isList = true ∧ (raw.get "members").items ≠ []) [] ::
  (checksEach checksMember 0 (raw.get "members").items ++ (Loading.check ((managersOf raw).length = 1) [] ::
  ((Yaml.lookup "channel" raw.entries).elim [] checksChannel ++ (Loading.check ((requiresOf raw).isList = true) [] ::
  (checksEach (fun _ v => [Loading.convert (v.printable = true)]) 0 (requiresOf raw).items ++
  (Loading.check ((okrsOf raw).isList = true) [] :: (checksEach checksOkr 0 (okrsOf raw).items ++
  [Loading.check ((raw.get "ttl_hours").isNull = true ∨ ∃ n ∈ int? (raw.get "ttl_hours"), 1 ≤ n) []])))))))))))

def nameOf (raw : Yaml) : String := (raw.get "name").text?.getD ""

section checks

variable (p : Platform)

def checksRegistry (data : Yaml) : List Check :=
  Loading.check (isOne (data.get "version") = true) [data.get "version"] ::
  Loading.check ((data.get "templates").isNull = false) [] ::
  Loading.check ((data.get "templates").isList = true) [] ::
  (checksEach checksTemplate 0 (data.get "templates").items ++
  [Loading.check ((data.get "templates").items.map nameOf).Nodup [],
    Loading.check (∀ t ∈ (data.get "templates").items, ∀ v ∈ (requiresOf t).items,
      p.str v ∈ (data.get "templates").items.map nameOf) []])

/-- What is checked of the tree, once the file has been parsed. -/
def checks (data : Yaml) : List Check :=
  Loading.check (data.isNull = false) [] :: Loading.check (data.isMap = true) [] :: checksRegistry p data

end checks

abbrev Obeys {α : Type} (cs : List Check) (x : Load α) : Prop := Follows Exc.IsTemplateSchemaError cs x

section obeys

variable (p : Platform) (sourcePath : Path)

theorem isTemplateSchemaError_refusal (message : List Piece) :
    (refusal sourcePath message).IsTemplateSchemaError ↔ message.all Piece.printable = true := by
  unfold refusal
  split
  · next h => exact iff_of_true trivial h
  · next h => exact iff_of_false (fun he => nomatch he) h

theorem obeys_check {c : Prop} [Decidable c] {message : List Piece} {shown : List Yaml}
    (hshown : message.all Piece.printable = shown.all Yaml.printable) :
    Obeys [Loading.check c shown] (require c (refusal sourcePath message)) :=
  follows_require (by rw [isTemplateSchemaError_refusal, hshown])

theorem obeys_convert {c : Prop} [Decidable c] {e : Exc} (he : ¬e.IsTemplateSchemaError) :
    Obeys [Loading.convert c] (require c e) := follows_require (iff_of_false he Bool.false_ne_true)

theorem obeys_str (v : Yaml) : Obeys [Loading.convert (v.printable = true)] (str p v) :=
  (obeys_convert id).cons fun _ _ => follows_ok _

theorem obeys_strictKeys (allowed : List String) {context : List Piece} (hcontext : context.all Piece.printable = true)
    (raw : Yaml) : Obeys (checksStrict allowed raw) (strictKeys sourcePath allowed context raw) := by
  unfold checksStrict strictKeys
  dsimp only
  split
  · next hnone =>
    rw [hnone]
    exact rfl
  · next hsome =>
    refine (obeys_convert id).cons fun _ _ => ?_
    rw [Loading.check, decide_eq_false hsome]
    refine follows_error ?_
    rw [isTemplateSchemaError_refusal]
    simp [hcontext, Piece.printable, Function.comp_def, Yaml.printable, Scalar.printable]

theorem obeys_requireKeys {at_ shown : List Piece} {nodes : List Yaml} (hat : at_.all Piece.printable = true)
    (hshown : shown.all Piece.printable = nodes.all Yaml.printable) (raw : Yaml) (keys : List String) :
    Obeys (checksKeys nodes raw keys) (requireKeys sourcePath at_ shown raw keys) := by
  induction keys with
  | nil => exact follows_ok _
  | cons key keys ih =>
    refine (obeys_check sourcePath ?_).cons fun _ _ => ih
    simp [hat, hshown, Piece.printable, Yaml.printable, Scalar.printable]

theorem obeys_validateCost (raw role : Yaml) : Obeys (checksCost raw role) (validateCost sourcePath raw role) := by
  refine (obeys_check sourcePath (by simp [Piece.printable])).cons fun _ _ => ?_
  refine (obeys_check sourcePath (by simp [Piece.printable])).cons fun _ _ => ?_
  exact (obeys_check sourcePath (by simp [Piece.printable])).cons fun _ _ => follows_ok _

theorem obeys_buildMember (i : Nat) (raw : Yaml) : Obeys (checksMember i raw) (buildMember sourcePath i raw) := by
  refine (obeys_check sourcePath rfl).cons fun _ _ => ?_
  refine (obeys_requireKeys sourcePath rfl (by simp [Piece.printable]) raw _).bind fun _ _ => ?_
  refine (obeys_convert id).cons fun _ hrole => ?_
  have hprintable : (raw.get "role").printable = true := require_eq_ok.1 hrole
  refine (obeys_strictKeys sourcePath _ (by simp [Piece.printable, hprintable]) raw).bind fun _ _ => ?_
  refine (obeys_check sourcePath (by simp [Piece.printable])).cons fun _ _ => ?_
  refine (obeys_check sourcePath (by simp [Piece.printable])).cons fun _ _ => ?_
  refine (obeys_validateCost sourcePath _ _).bind fun _ _ => ?_
  exact (obeys_check sourcePath (by simp [Piece.printable, isManagerOf])).cons fun _ _ => follows_ok _

theorem obeys_buildChannel (raw : Yaml) (templateName : String) :
    Obeys (checksChannel raw) (buildChannel sourcePath raw templateName) := by
  refine (obeys_check sourcePath rfl).cons fun _ _ => (obeys_strictKeys sourcePath _ rfl raw).bind fun _ _ => ?_
  refine (obeys_check sourcePath rfl).cons fun _ _ => ?_
  exact (obeys_check sourcePath rfl).cons fun _ _ => follows_ok _

theorem obeys_buildOkr (templateName : String) (i : Nat) (raw : Yaml) :
    Obeys (checksOkr i raw) (buildOkr p sourcePath templateName i raw) := by
  refine (obeys_check sourcePath rfl).cons fun _ _ => (obeys_strictKeys sourcePath _ rfl raw).bind fun _ _ => ?_
  refine (obeys_requireKeys sourcePath rfl rfl raw _).bind fun _ _ => ?_
  refine (obeys_check sourcePath rfl).cons fun _ _ => ?_
  exact (obeys_str p _).cons fun _ _ => (obeys_str p _).cons fun _ _ => follows_ok _

theorem buildMember_eq_ok {i : Nat} {raw : Yaml} {m : TemplateMember} (h : buildMember sourcePath i raw = .ok m) :
    1 ≤ m.count ∧ (0 ≤ m.cost ∧ m.cost ≤ 100) ∧ m.isManager = decide (bool? (isManagerOf raw) = some true) := by
  obtain ⟨_, -, h⟩ := bind_eq_ok.1 h
  obtain ⟨_, -, h⟩ := bind_eq_ok.1 h
  obtain ⟨_, -, h⟩ := bind_eq_ok.1 h
  obtain ⟨_, -, h⟩ := bind_eq_ok.1 h
  obtain ⟨_, -, h⟩ := bind_eq_ok.1 h
  obtain ⟨_, hcount, h⟩ := bind_eq_ok.1 h
  obtain ⟨cost, hcost, h⟩ := bind_eq_ok.1 h
  obtain ⟨_, -, h⟩ := bind_eq_ok.1 h
  cases h
  obtain ⟨n, hn, hpos⟩ := require_eq_ok.1 hcount
  obtain ⟨_, -, hcost⟩ := bind_eq_ok.1 hcost
  obtain ⟨_, -, hcost⟩ := bind_eq_ok.1 hcost
  obtain ⟨_, hrange, hcost⟩ := bind_eq_ok.1 hcost
  cases hcost
  refine ⟨?_, require_eq_ok.1 hrange, ?_⟩
  · rw [Option.mem_def.1 hn]
    exact hpos
  · rw [← isManagerOf]
    cases bool? (isManagerOf raw) with
    | none => rfl
    | some b => cases b <;> rfl

theorem length_filter_of_map_eq {α β : Type} {f : β → Bool} {g : α → Bool} {as : List α} {bs : List β}
    (h : bs.map f = as.map g) : (bs.filter f).length = (as.filter g).length := by
  have hcount := congrArg (List.countP id) h
  rw [List.countP_map, List.countP_map, List.countP_eq_length_filter, List.countP_eq_length_filter] at hcount
  exact hcount

theorem forall_mem_of_map_eq {α β γ : Type} {f : β → γ} {g : α → γ} {as : List α} {bs : List β}
    (h : bs.map f = as.map g) (P : γ → Prop) : (∀ b ∈ bs, P (f b)) ↔ ∀ a ∈ as, P (g a) := by
  have hbs : (∀ c ∈ bs.map f, P c) ↔ ∀ b ∈ bs, P (f b) := List.forall_mem_map
  rw [← hbs, h]
  exact List.forall_mem_map

theorem obeys_buildTemplate (i : Nat) (raw : Yaml) :
    Obeys (checksTemplate i raw) (buildTemplate p sourcePath i raw) := by
  refine (obeys_check sourcePath rfl).cons fun _ _ => ?_
  refine (obeys_requireKeys sourcePath rfl (by simp [Piece.printable]) raw _).bind fun _ _ => ?_
  refine (obeys_check sourcePath (by simp [Piece.printable])).cons fun _ _ => ?_
  refine (obeys_strictKeys sourcePath _ rfl raw).bind fun _ _ => (obeys_check sourcePath rfl).cons fun _ _ => ?_
  refine (obeys_check sourcePath rfl).cons fun _ _ => ?_
  refine (follows_forEach (obeys_buildMember sourcePath) 0 _).bind fun members hmembers => ?_
  have hmap : members.map (·.isManager) =
      (raw.get "members").items.map fun m => decide (bool? (isManagerOf m) = some true) := by
    refine map_of_forEach ?_ hmembers
    exact fun _ _ _ hm => (buildMember_eq_ok sourcePath hm).2.2
  have hmanagers : (members.filter (·.isManager)).length = (managersOf raw).length := length_filter_of_map_eq hmap
  rw [← hmanagers]
  refine (obeys_check sourcePath rfl).cons fun _ _ => Follows.bind ?_ fun _ _ => ?_
  · cases Yaml.lookup "channel" raw.entries with
    | none => exact follows_ok _
    | some v => exact (obeys_buildChannel sourcePath v _).done
  refine (obeys_check sourcePath rfl).cons fun _ _ => ?_
  refine (follows_forEach (fun _ => obeys_str p) 0 _).bind fun _ _ => ?_
  refine (obeys_check sourcePath rfl).cons fun _ _ => ?_
  refine (follows_forEach (obeys_buildOkr p sourcePath _) 0 _).bind fun _ _ => ?_
  exact (obeys_check sourcePath rfl).cons fun _ _ => follows_ok _

theorem buildTemplate_eq_ok {i : Nat} {raw : Yaml} {t : LoadedTemplate} (h : buildTemplate p sourcePath i raw = .ok t) :
    t.name = nameOf raw ∧ t.requires = (requiresOf raw).items.map p.str ∧
      (t.members.filter (·.isManager)).length = 1 ∧ ∀ m ∈ t.members, 1 ≤ m.count ∧ 0 ≤ m.cost ∧ m.cost ≤ 100 := by
  obtain ⟨_, -, h⟩ := bind_eq_ok.1 h
  obtain ⟨_, -, h⟩ := bind_eq_ok.1 h
  obtain ⟨_, -, h⟩ := bind_eq_ok.1 h
  obtain ⟨_, -, h⟩ := bind_eq_ok.1 h
  obtain ⟨_, -, h⟩ := bind_eq_ok.1 h
  obtain ⟨_, -, h⟩ := bind_eq_ok.1 h
  obtain ⟨members, hmembers, h⟩ := bind_eq_ok.1 h
  obtain ⟨_, hmanagers, h⟩ := bind_eq_ok.1 h
  obtain ⟨_, -, h⟩ := bind_eq_ok.1 h
  obtain ⟨_, -, h⟩ := bind_eq_ok.1 h
  obtain ⟨required, hrequired, h⟩ := bind_eq_ok.1 h
  obtain ⟨_, -, h⟩ := bind_eq_ok.1 h
  obtain ⟨_, -, h⟩ := bind_eq_ok.1 h
  obtain ⟨_, -, h⟩ := bind_eq_ok.1 h
  cases h
  have hstr (i : Nat) (v : Yaml) (s : String) (hs : str p v = .ok s) : s = p.str v := by
    obtain ⟨_, -, hs⟩ := bind_eq_ok.1 hs
    cases hs
    rfl
  refine ⟨rfl, ?_, require_eq_ok.1 hmanagers, ?_⟩
  · have hmap := map_of_forEach (g := id) hstr hrequired
    rwa [List.map_id] at hmap
  · refine forall_of_forEach ?_ hmembers
    exact fun _ _ m hm => ⟨(buildMember_eq_ok sourcePath hm).1, (buildMember_eq_ok sourcePath hm).2.1⟩

theorem rejectDuplicates_eq_ok {seen : List String} {ts : List LoadedTemplate} :
    (∃ u, rejectDuplicates sourcePath seen ts = .ok u) ↔ (∀ t ∈ ts, t.name ∉ seen) ∧ (ts.map (·.name)).Nodup := by
  induction ts generalizing seen with
  | nil => exact iff_of_true ⟨(), rfl⟩ ⟨List.forall_mem_nil _, List.nodup_nil⟩
  | cons t ts ih =>
    have hstep : (∃ u, rejectDuplicates sourcePath seen (t :: ts) = .ok u) ↔
        t.name ∉ seen ∧ ∃ u, rejectDuplicates sourcePath (t.name :: seen) ts = .ok u := by
      simp only [rejectDuplicates, bind_eq_ok, require_eq_ok, exists_const, exists_and_left]
    rw [hstep, ih, List.forall_mem_cons, List.map_cons, List.nodup_cons, List.mem_map]
    constructor
    · rintro ⟨ht, hts, hnodup⟩
      refine ⟨⟨ht, fun t' ht' hseen => hts t' ht' (.tail _ hseen)⟩, ?_, hnodup⟩
      rintro ⟨t', ht', hname⟩
      exact hts t' ht' (hname ▸ .head _)
    · rintro ⟨⟨ht, hts⟩, hnew, hnodup⟩
      refine ⟨ht, fun t' ht' hseen => ?_, hnodup⟩
      rcases List.mem_cons.1 hseen with hname | hseen
      · exact hnew ⟨t', ht', hname⟩
      · exact hts t' ht' hseen

theorem meant_rejectDuplicates {seen : List String} {ts : List LoadedTemplate} {e : Exc}
    (h : rejectDuplicates sourcePath seen ts = .error e) : e.IsTemplateSchemaError := by
  induction ts generalizing seen with
  | nil => cases h
  | cons t ts ih =>
    unfold rejectDuplicates require at h
    split at h
    · exact ih h
    · cases h
      exact (isTemplateSchemaError_refusal sourcePath _).2 rfl

theorem resolveRequires_eq_ok {declared : List String} {t : LoadedTemplate} {requires : List String} :
    (∃ u, resolveRequires sourcePath declared t requires = .ok u) ↔ ∀ name ∈ requires, name ∈ declared := by
  induction requires with
  | nil => exact iff_of_true ⟨(), rfl⟩ (List.forall_mem_nil _)
  | cons name rest ih =>
    rw [List.forall_mem_cons, ← ih]
    simp only [resolveRequires, bind_eq_ok, require_eq_ok, exists_const, exists_and_left]

theorem meant_resolveRequires {declared : List String} {t : LoadedTemplate} {requires : List String} {e : Exc}
    (h : resolveRequires sourcePath declared t requires = .error e) : e.IsTemplateSchemaError := by
  induction requires with
  | nil => cases h
  | cons name rest ih =>
    unfold resolveRequires require at h
    split at h
    · exact ih h
    · cases h
      refine (isTemplateSchemaError_refusal sourcePath _).2 ?_
      simp [Piece.printable, Yaml.printable, Scalar.printable, Function.comp_def]

end obeys

end Quinn.Templates.Loader
