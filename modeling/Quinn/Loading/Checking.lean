import Quinn.Loading.References

/-! What the loader checks, in its order, and that it does. -/

namespace Quinn.Loading

open Checks

/-- Unless it passes, the loader raises an `OrgSpecError`, whose text shows some nodes. -/
def check (c : Prop) [Decidable c] (shown : List Yaml) : Check := ⟨decide c, shown.all Yaml.printable⟩

/-- Unless it passes, Python raises something else. -/
def convert (c : Prop) [Decidable c] : Check := ⟨decide c, false⟩

def checksMapping (value : Yaml) : List Check := if value.isNull then [] else [check (value.isMap = true) []]

def checksToolchain (value : Yaml) : List Check :=
  if value.isNull then [] else
    [check (value.isMap = true) [],
      convert ((value.get "require").truthy = true → (value.get "require").items?.isSome = true),
      convert ((value.get "optional").truthy = true → (value.get "optional").items?.isSome = true)]

def checksManager (value : Yaml) : List Check :=
  if value.isNull then [] else
    [check (value.isMap = true) [], check ((value.get "name").truthy = true) [],
      convert ((value.get "name").printable = true),
      convert ((value.getD "role" (.text "Manager")).printable = true)]

def checksMember (teamName : Yaml) (_ : Nat) (member : Yaml) : List Check :=
  [check (member.isMap = true) [teamName], check ((member.get "role").truthy = true) [teamName],
    convert ((member.get "role").printable = true)]

def checksMembers (value teamName : Yaml) : List Check :=
  if value.isNull then [] else
    check (value.isList = true) [teamName] :: checksEach (checksMember teamName) 0 value.items

def checksTeam (_ : Nat) (team : Yaml) : List Check :=
  check (team.isMap = true) [] :: check ((team.get "name").truthy = true) [] ::
  convert ((team.get "name").printable = true) :: (checksManager (team.get "manager") ++
  (checksMembers (team.get "members") (team.get "name") ++
  [convert ((team.get "seedOkrs").truthy = true → (team.get "seedOkrs").items?.isSome = true)]))

def checksTeams (structure_ : Yaml) : List Check :=
  if structure_.isNull then [] else
    check (structure_.isMap = true) [] ::
    check ((structure_.get "teams").truthy = true → (structure_.get "teams").isList = true) [] ::
    checksEach checksTeam 0 (structure_.get "teams").items

def checksDelegation (_ : Nat) (grant : Yaml) : List Check :=
  [check (grant.isMap = true) [], check ((grant.get "to").truthy = true) [],
    convert ((grant.get "to").printable = true)]

def checksDelegations (value : Yaml) : List Check :=
  if value.isNull then [] else check (value.isList = true) [] :: checksEach checksDelegation 0 value.items

section checks

variable (p : Platform)

def checksKeyResult (_ : Nat) (kr : Yaml) : List Check :=
  [check (kr.isMap = true) [], check ((kr.get "metric").truthy = true) [],
    convert ((kr.get "metric").printable = true),
    convert ((floatFault p (kr.getD "target" (.scalar (.int 0)))).isNone = true),
    convert ((kr.getD "unit" (.text "")).printable = true)]

def checksKeyResults (value : Yaml) : List Check :=
  if value.isNull then [] else check (value.isList = true) [] :: checksEach (checksKeyResult p) 0 value.items

def checksOkr (_ : Nat) (okr : Yaml) : List Check :=
  check (okr.isMap = true) [] :: check ((okr.get "title").truthy = true) [] ::
  convert ((okr.get "title").printable = true) :: checksKeyResults p (okr.get "keyResults")

def checksOkrs (value : Yaml) : List Check :=
  if value.isNull then [] else check (value.isList = true) [] :: checksEach (checksOkr p) 0 value.items

def checksSecretName (team : Scalar) (_ : Nat) (name : Yaml) : List Check :=
  [check (∃ s ∈ name.text?, s ≠ "") [.scalar team],
    check (∃ s ∈ name.text?, p.isIdentifier s = true) [.scalar team, name]]

def checksScope (_ : Nat) (scope : Scalar × Yaml) : List Check :=
  check (scope.2.isList = true) [.scalar scope.1] ::
  (checksEach (checksSecretName p scope.1) 0 scope.2.items ++ [convert (scope.1.printable = true)])

def checksSecrets (value : Yaml) : List Check :=
  if value.isNull then [] else check (value.isMap = true) [] :: checksEach (checksScope p) 0 value.entries

def checksHost (value : Yaml) (baseDir : Path) : List Check :=
  if value.isNull then [] else
    [check (value.isMap = true) [], check ((value.get "project_root").truthy = true) [],
      convert ((value.get "project_root").printable = true),
      convert ((p.resolve baseDir ⟨value.get "project_root"⟩).isOk = true)]

def checksBuild (path : Path) (raw : Yaml) : List Check :=
  convert (raw.isMap = true) ::
  check ((raw.get "apiVersion").text? = some "quinnai/v1") [raw.get "apiVersion"] ::
  (checksMapping (raw.get "metadata") ++ (check (((raw.get "metadata").get "name").truthy = true) [] ::
  (checksMapping (raw.get "ceo") ++ (check (((raw.get "ceo").get "name").truthy = true) [] ::
  convert (((raw.get "metadata").get "name").printable = true) ::
  convert (((raw.get "ceo").get "name").printable = true) ::
  convert (((raw.get "ceo").getD "role" (.text "CEO")).printable = true) ::
  (checksHost p (raw.get "host") (p.parent path) ++ (checksToolchain (raw.get "toolchain") ++
  (checksMapping (raw.get "providers") ++ (checksMapping (raw.get "roles") ++
  (checksMapping (raw.get "teamTemplates") ++ (checksTeams (raw.get "structure") ++
  (checksDelegations (raw.get "delegations") ++ (checksOkrs p (raw.get "okrs") ++
  checksSecrets p (raw.get "secrets")))))))))))))

def checkFile (path : Path) : Check :=
  match p.safeLoad path with
  | .ok _ => ⟨true, true⟩
  | .error (.yamlError _) => ⟨false, true⟩
  | .error (.outside _) => ⟨false, false⟩

def checksRef (baseDir : Path) (ref : Yaml) : List Check :=
  check (ref.text?.isSome = true) [ref] ::
  match p.resolve baseDir ⟨ref⟩ with
  | .error _ => [convert False]
  | .ok refPath =>
    match p.isFile refPath with
    | .error _ => [convert False]
    | .ok found => [check (found = true) [ref], checkFile p refPath]

/-- What is checked of the tree, once the file has been parsed. -/
def checks (path : Path) (raw : Yaml) : List Check :=
  check (raw.isMap = true) [] :: (raw.refs.flatMap (checksRef p (p.parent path)) ++
  checksBuild p path (raw.expand (definition p (p.parent path))))

end checks

abbrev Obeys (cs : List Check) (x : Load α) : Prop := Follows Exc.IsOrgSpecError cs x

theorem isOrgSpecError_refusal (message : List Piece) :
    (refusal message).IsOrgSpecError ↔ message.all Piece.printable = true := by
  unfold refusal
  split
  · next h => exact iff_of_true trivial h
  · next h => exact iff_of_false nofun h

theorem obeys_check {c : Prop} [Decidable c] {message : List Piece} {shown : List Yaml}
    (hshown : message.all Piece.printable = shown.all Yaml.printable) :
    Obeys [check c shown] (require c (refusal message)) :=
  follows_require (by rw [isOrgSpecError_refusal, hshown])

theorem obeys_convert {c : Prop} [Decidable c] {e : Exc} (he : ¬e.IsOrgSpecError) :
    Obeys [convert c] (require c e) := follows_require (iff_of_false he nofun)

theorem obeys_outside (x : Except Outside α) : Obeys [convert (x.isOk = true)] (outside x) := by
  cases x with
  | ok a => exact rfl
  | error e => exact follows_error (iff_of_false id Bool.false_ne_true)

theorem obeys_str (v : Yaml) : Obeys [convert (v.printable = true)] (str v) :=
  (obeys_convert id).cons fun _ _ => follows_ok _

theorem obeys_list (v : Yaml) : Obeys [convert (v.truthy = true → v.items?.isSome = true)] (list v) := by
  unfold list
  by_cases hv : v.truthy = true
  · rw [if_pos hv]
    cases hitems : v.items? with
    | none => exact ⟨⟨false, false⟩, by simp [firstFailing, convert, hv], iff_of_false id Bool.false_ne_true⟩
    | some items => simp [Obeys, Follows, firstFailing, convert]
  · rw [if_neg hv]
    simp [Obeys, Follows, firstFailing, convert, hv]

theorem obeys_requireMapping (raw : Yaml) (key : String) :
    Obeys (checksMapping (raw.get key)) (requireMapping raw key true) := by
  unfold checksMapping requireMapping
  dsimp only
  split
  · exact follows_ok _
  · exact (obeys_check rfl).cons fun _ _ => follows_ok _

theorem requireMapping_eq_ok {raw value : Yaml} {key : String} (h : requireMapping raw key true = .ok value)
    (k : String) (default : Yaml) : value.getD k default = (raw.get key).getD k default := by
  unfold requireMapping at h
  dsimp only at h
  split at h
  · next hnull =>
    cases h
    rw [Yaml.get_of_isNull hnull]
    rfl
  · obtain ⟨_, -, h⟩ := bind_eq_ok.1 h
    cases h
    rfl

theorem obeys_asMapping (value : Yaml) (key : String) : Obeys (checksMapping value) (asMapping value key) := by
  unfold checksMapping asMapping
  split
  · exact follows_ok _
  · exact (obeys_check rfl).cons fun _ _ => follows_ok _

theorem obeys_parseToolchain (value : Yaml) : Obeys (checksToolchain value) (parseToolchain value) := by
  unfold checksToolchain parseToolchain
  split
  · exact follows_ok _
  · refine (obeys_check rfl).cons fun _ _ => (obeys_list _).cons fun _ _ => ?_
    exact (obeys_list _).cons fun _ _ => follows_ok _

theorem obeys_parseManager (value : Yaml) : Obeys (checksManager value) (parseManager value) := by
  unfold checksManager parseManager
  split
  · exact follows_ok _
  · refine (obeys_check rfl).cons fun _ _ => (obeys_check rfl).cons fun _ _ => ?_
    exact (obeys_str _).cons fun _ _ => (obeys_str _).cons fun _ _ => follows_ok _

theorem obeys_parseMembers (value teamName : Yaml) :
    Obeys (checksMembers value teamName) (parseMembers value teamName) := by
  unfold checksMembers parseMembers
  split
  · exact follows_ok _
  · refine (obeys_check (by simp [Piece.printable])).cons fun _ _ => follows_forEach (fun i member => ?_) 0 _
    refine (obeys_check (by simp [Piece.printable])).cons fun _ _ => ?_
    refine (obeys_check (by simp [Piece.printable])).cons fun _ _ => ?_
    exact (obeys_str _).cons fun _ _ => follows_ok _

theorem obeys_parseTeam (i : Nat) (team : Yaml) : Obeys (checksTeam i team) (parseTeam i team) := by
  refine (obeys_check rfl).cons fun _ _ => (obeys_check rfl).cons fun _ _ => (obeys_str _).cons fun _ _ => ?_
  refine (obeys_parseManager _).bind fun _ _ => (obeys_parseMembers _ _).bind fun _ _ => ?_
  exact (obeys_list _).cons fun _ _ => follows_ok _

theorem obeys_parseTeams (structure_ : Yaml) : Obeys (checksTeams structure_) (parseTeams structure_) := by
  unfold checksTeams parseTeams
  split
  · exact follows_ok _
  · refine (obeys_check rfl).cons fun _ _ => (obeys_check rfl).cons fun _ _ => ?_
    exact follows_forEach obeys_parseTeam 0 _

theorem obeys_parseDelegations (value : Yaml) : Obeys (checksDelegations value) (parseDelegations value) := by
  unfold checksDelegations parseDelegations
  split
  · exact follows_ok _
  · refine (obeys_check rfl).cons fun _ _ => follows_forEach (fun i grant => ?_) 0 _
    refine (obeys_check rfl).cons fun _ _ => (obeys_check rfl).cons fun _ _ => ?_
    exact (obeys_str _).cons fun _ _ => follows_ok _

section parsers

variable (p : Platform)

theorem obeys_float (v : Yaml) : Obeys [convert ((floatFault p v).isNone = true)] (float p v) := by
  unfold float
  cases hfault : floatFault p v with
  | none => rfl
  | some e =>
    refine follows_error (iff_of_false ?_ nofun)
    unfold floatFault at hfault
    split at hfault <;> first | split at hfault | skip
    all_goals cases hfault
    all_goals exact nofun

theorem obeys_parseKeyResults (value : Yaml) (okrIndex : Nat) :
    Obeys (checksKeyResults p value) (parseKeyResults p value okrIndex) := by
  unfold checksKeyResults parseKeyResults
  split
  · exact follows_ok _
  · refine (obeys_check rfl).cons fun _ _ => follows_forEach (fun i kr => ?_) 0 _
    refine (obeys_check rfl).cons fun _ _ => (obeys_check rfl).cons fun _ _ => (obeys_str _).cons fun _ _ => ?_
    exact (obeys_float p _).cons fun _ _ => (obeys_str _).cons fun _ _ => follows_ok _

theorem obeys_parseOkrs (value : Yaml) : Obeys (checksOkrs p value) (parseOkrs p value) := by
  unfold checksOkrs parseOkrs
  split
  · exact follows_ok _
  · refine (obeys_check rfl).cons fun _ _ => follows_forEach (fun i okr => ?_) 0 _
    refine (obeys_check rfl).cons fun _ _ => (obeys_check rfl).cons fun _ _ => (obeys_str _).cons fun _ _ => ?_
    exact (obeys_parseKeyResults p _ i).done

theorem obeys_parseSecrets (value : Yaml) : Obeys (checksSecrets p value) (parseSecrets p value) := by
  unfold checksSecrets parseSecrets
  split
  · exact follows_ok _
  · refine (obeys_check rfl).cons fun _ _ => follows_forEach (fun i scope => ?_) 0 _
    refine (obeys_check (by simp [Piece.printable])).cons fun _ _ => ?_
    refine (follows_forEach (fun i name => ?_) 0 _).bind fun _ _ => (obeys_str _).cons fun _ _ => follows_ok _
    refine (obeys_check (by simp [Piece.printable])).cons fun _ _ => ?_
    exact (obeys_check (by simp [Piece.printable])).cons fun _ _ => follows_ok _

theorem obeys_parseHost (value : Yaml) (baseDir : Path) :
    Obeys (checksHost p value baseDir) (parseHost p value baseDir) := by
  unfold checksHost parseHost
  split
  · exact follows_ok _
  · refine (obeys_check rfl).cons fun _ _ => (obeys_check rfl).cons fun _ _ => (obeys_str _).cons fun root hroot => ?_
    have hof : root = ⟨value.get "project_root"⟩ := by
      unfold str require at hroot
      split at hroot
      · cases hroot
        rfl
      · cases hroot
    rw [hof]
    exact (obeys_outside _).cons fun _ _ => follows_ok _

theorem obeys_buildSpec (path : Path) (raw : Yaml) : Obeys (checksBuild p path raw) (buildSpec p path raw) := by
  have hversion : Obeys [convert (raw.isMap = true),
      check ((raw.get "apiVersion").text? = some "quinnai/v1") [raw.get "apiVersion"]] (validateApiVersion raw) :=
    (obeys_convert id).cons fun _ _ => obeys_check (by simp [Piece.printable])
  refine hversion.bind fun _ _ => (obeys_requireMapping raw _).bind fun metadata hmetadata => ?_
  have hmetadata := requireMapping_eq_ok hmetadata
  simp only [Yaml.get, hmetadata]
  refine (obeys_check rfl).cons fun _ _ => (obeys_requireMapping raw _).bind fun ceo hceo => ?_
  have hceo := requireMapping_eq_ok hceo
  simp only [Yaml.get, hceo]
  refine (obeys_check rfl).cons fun _ _ => (obeys_str _).cons fun _ _ => (obeys_str _).cons fun _ _ => ?_
  refine (obeys_str _).cons fun _ _ => (obeys_parseHost p _ _).bind fun _ _ => ?_
  refine (obeys_parseToolchain _).bind fun _ _ => (obeys_asMapping _ _).bind fun _ _ => ?_
  refine (obeys_asMapping _ _).bind fun _ _ => (obeys_asMapping _ _).bind fun _ _ => ?_
  refine (obeys_parseTeams _).bind fun _ _ => (obeys_parseDelegations _).bind fun _ _ => ?_
  exact (obeys_parseOkrs p _).bind fun _ _ => (obeys_parseSecrets p _).done

end parsers

end Quinn.Loading
