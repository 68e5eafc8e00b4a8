import Quinn.Escalation.Manager
import Quinn.Search.Acyclic
import Quinn.Work.BeadsQueue

/-! `escalation/hierarchical.py`: an issue goes up from boss to boss, and to the board at last. -/

namespace Quinn.Escalation

open Search

structure WorkerNode where
  id : String
  name : String
  bossId : Option String
  isManager : Bool
  deriving DecidableEq

structure WorkerDict where
  id : String
  name : String
  bossId : Option String := none
  deriving DecidableEq

/-- The values of `nodes`, in the order of their keys. -/
structure OrgTopology where
  nodes : List WorkerNode := []

namespace OrgTopology

variable (t : OrgTopology)

def addNode (node : WorkerNode) : OrgTopology where
  nodes :=
    if t.nodes.any (·.id = node.id) then t.nodes.map fun n => if n.id = node.id then node else n
    else t.nodes ++ [node]

def getBoss (workerId : String) : Option String := (t.nodes.find? (·.id = workerId)).bind (·.bossId)

end OrgTopology

def createSimpleTopology (workers : List WorkerDict) : OrgTopology :=
  workers.foldl
    (fun t w => t.addNode {
      id := w.id
      name := w.name
      bossId := w.bossId
      isManager := 0 < workers.countP (·.bossId = some w.id) })
    {}

/-- `get_escalation_path`, as long as its loop goes on for less than `fuel` rounds. -/
def getEscalationPath (t : OrgTopology) (fuel : Nat) (workerId : String) : Option (List String) :=
  (climb t.getBoss fuel workerId).map (· ++ ["board"])

structure Context where
  workerId : String
  escalationPath : List String

structure Response extends EscalationResponse where
  newTasks : List Work.Task := []

/-- One who is asked, and what comes of it in a world `σ`. -/
structure Escalator (σ : Type) where
  canHandle : String → σ → Bool × σ
  ask : String → Context → σ → Response × σ

variable {σ : Type} (escalators : String → Option (Escalator σ))

/-- One round of the loop in `route`: whoever is missing, or cannot handle it, is passed over. -/
def attempt (issue : String) (context : Context) (target : String) (world : σ) :
    Option Response × σ :=
  match escalators target with
  | none => (none, world)
  | some escalator =>
    match escalator.canHandle issue world with
    | (false, world) => (none, world)
    | (true, world) =>
      let (response, world) := escalator.ask issue context world
      (some response, world)

/-- What `route` returns, and what has come of each target that the loop got to. -/
structure Routed (σ : Type) where
  response : Response
  visits : List (String × Option Response)
  world : σ

def unresolved : Response := { resolved := false }

def routeAlong (issue : String) (context : Context) : List String → σ → Routed σ
  | [], world => ⟨unresolved, [], world⟩
  | target :: path, world =>
    match attempt escalators issue context target world with
    | (some response, world) =>
      if response.resolved then ⟨response, [(target, some response)], world⟩
      else
        let r := routeAlong issue context path world
        { r with visits := (target, some response) :: r.visits }
    | (none, world) =>
      let r := routeAlong issue context path world
      { r with visits := (target, none) :: r.visits }

def route (t : OrgTopology) (fuel : Nat) (workerId issue : String) (world : σ) : Option (Routed σ) := do
  let path ← getEscalationPath t fuel workerId
  return routeAlong escalators issue ⟨workerId, path⟩ path world

def Resolves (visit : String × Option Response) : Prop := ∃ response ∈ visit.2, response.resolved = true

inductive Attempted (issue : String) (context : Context) : σ → List (String × Option Response) → σ → Prop
  | nil (world : σ) : Attempted issue context world [] world
  | cons {world world' world'' : σ} {target : String} {answer : Option Response}
      {visits : List (String × Option Response)}
      (h : attempt escalators issue context target world = (answer, world'))
      (hrest : Attempted issue context world' visits world'') :
      Attempted issue context world ((target, answer) :: visits) world''

/-- It goes along `path` as far as the first that resolves it, and to the end if none does. -/
structure GoesAlong (issue : String) (context : Context) (world : σ) (path : List String) (r : Routed σ) : Prop where
  attempted : Attempted escalators issue context world r.visits r.world
  order : (r.visits.map Prod.fst).IsPrefix path
  stops : ∀ before visit after, r.visits = before ++ visit :: after → Resolves visit →
    after = [] ∧ visit.2 = some r.response
  goesOn : (∀ visit ∈ r.visits, ¬Resolves visit) → r.visits.map Prod.fst = path ∧ r.response = unresolved

structure Escalates (t : OrgTopology) (fuel : Nat) (workerId issue : String) (world : σ) (bosses : List String)
    (r : Routed σ) : Prop where
  chain : Chain t.getBoss workerId bosses
  nodup : bosses.Nodup
  path : getEscalationPath t fuel workerId = some (bosses ++ ["board"])
  returned : route escalators t fuel workerId issue world = some r
  along : GoesAlong escalators issue ⟨workerId, bosses ++ ["board"]⟩ world (bosses ++ ["board"]) r
  board : r.visits.map Prod.fst = bosses ++ ["board"] ↔ ∀ visit ∈ r.visits.take bosses.length, ¬Resolves visit

variable {escalators} {issue : String} {context : Context}

theorem goesAlong_routeAlong (path : List String) (world : σ) :
    GoesAlong escalators issue context world path (routeAlong escalators issue context path world) := by
  induction path generalizing world with
  | nil =>
    refine ⟨.nil world, List.prefix_rfl, fun before visit after h => ?_, fun _ => ⟨rfl, rfl⟩⟩
    exact absurd h (by simp [routeAlong])
  | cons target path ih =>
    rw [routeAlong]
    split
    · next response world' hattempt =>
      split
      · next hresolved =>
        refine ⟨.cons hattempt (.nil world'), ?_, fun before visit after h hvisit => ?_, fun hnone => ?_⟩
        · exact List.prefix_append [target] path
        · cases before with
          | nil =>
            cases h
            exact ⟨rfl, rfl⟩
          | cons v before => simp at h
        · exact absurd ⟨response, rfl, hresolved⟩ (hnone _ (.head _))
      · next hnot =>
        obtain ⟨hmade, horder, hstops, hgoesOn⟩ := ih world'
        refine ⟨.cons hattempt hmade, ?_, fun before visit after h hvisit => ?_, fun hnone => ?_⟩
        · exact List.cons_prefix_cons.2 ⟨rfl, horder⟩
        · cases before with
          | nil =>
            cases h
            obtain ⟨_, ⟨⟩, hyes⟩ := hvisit
            exact absurd hyes hnot
          | cons v before => exact hstops before visit after (List.cons.inj h).2 hvisit
        · obtain ⟨hpath, hresponse⟩ := hgoesOn (List.forall_mem_cons.1 hnone).2
          exact ⟨congrArg _ hpath, hresponse⟩
    · next world' hattempt =>
      obtain ⟨hmade, horder, hstops, hgoesOn⟩ := ih world'
      refine ⟨.cons hattempt hmade, ?_, fun before visit after h hvisit => ?_, fun hnone => ?_⟩
      · exact List.cons_prefix_cons.2 ⟨rfl, horder⟩
      · cases before with
        | nil =>
          cases h
          obtain ⟨_, ⟨⟩, -⟩ := hvisit
        | cons v before => exact hstops before visit after (List.cons.inj h).2 hvisit
      · obtain ⟨hpath, hresponse⟩ := hgoesOn (List.forall_mem_cons.1 hnone).2
        exact ⟨congrArg _ hpath, hresponse⟩

theorem GoesAlong.last_iff {world : σ} {bosses : List String} {last : String} {r : Routed σ}
    (h : GoesAlong escalators issue context world (bosses ++ [last]) r) :
    r.visits.map Prod.fst = bosses ++ [last] ↔ ∀ visit ∈ r.visits.take bosses.length, ¬Resolves visit := by
  constructor
  · intro hall visit hvisit hresolves
    obtain ⟨before, after, hsplit⟩ := List.append_of_mem hvisit
    have hwhole : r.visits = before ++ visit :: (after ++ r.visits.drop bosses.length) := by
      rw [← List.cons_append, ← List.append_assoc, ← hsplit, List.take_append_drop]
    have hnil := (List.append_eq_nil_iff.1 (h.stops _ _ _ hwhole hresolves).1).2
    have hlen := congrArg List.length hall
    rw [List.drop_eq_nil_iff] at hnil
    rw [List.length_map, List.length_append, List.length_singleton] at hlen
    omega
  · intro hnone
    by_cases hall : ∀ visit ∈ r.visits, ¬Resolves visit
    · exact (h.goesOn hall).1
    · -- who resolves it is visited last, and is none of the bosses
      simp only [not_forall, not_not] at hall
      obtain ⟨visit, hvisit, hresolves⟩ := hall
      obtain ⟨before, after, hsplit⟩ := List.append_of_mem hvisit
      obtain ⟨rfl, -⟩ := h.stops before visit after hsplit hresolves
      have hlong : bosses.length ≤ before.length := by
        by_contra hshort
        refine hnone visit ?_ hresolves
        rw [hsplit, List.take_append]
        refine List.mem_append_right _ ?_
        obtain ⟨n, hn⟩ := Nat.exists_eq_succ_of_ne_zero (Nat.sub_ne_zero_of_lt (not_le.1 hshort))
        rw [hn]
        exact .head _
      refine h.order.eq_of_length ?_
      have hle := h.order.length_le
      rw [hsplit] at hle ⊢
      simp only [List.length_map, List.length_append, List.length_singleton] at hle ⊢
      omega

theorem mem_ids_of_getBoss {t : OrgTopology} {x : String} (h : (t.getBoss x).isSome = true) :
    x ∈ t.nodes.map (·.id) := by
  unfold OrgTopology.getBoss at h
  cases hfind : t.nodes.find? (·.id = x) with
  | none =>
    rw [hfind] at h
    cases h
  | some node =>
    have hid : node.id = x := by simpa using List.find?_some hfind
    exact hid ▸ List.mem_map_of_mem (List.mem_of_find?_eq_some hfind)

theorem exists_escalates {t : OrgTopology} {workerId : String} (hends : Ends t.getBoss workerId) (issue : String)
    (escalators : String → Option (Escalator σ)) (world : σ) :
    ∃ fuel bosses r, Escalates escalators t fuel workerId issue world bosses r := by
  obtain ⟨bosses, hclimb⟩ := (exists_climb_iff fun _ _ => mem_ids_of_getBoss).2 hends
  have hchain := climb_eq_some hclimb
  have hpath : getEscalationPath t _ workerId = some (bosses ++ ["board"]) :=
    congrArg (Option.map (· ++ ["board"])) hclimb
  have halong : GoesAlong escalators issue ⟨workerId, bosses ++ ["board"]⟩ world (bosses ++ ["board"]) _ :=
    goesAlong_routeAlong _ world
  refine ⟨_, bosses, _, hchain, (List.nodup_cons.1 hchain.nodup).2, hpath, ?_, halong, halong.last_iff⟩
  rw [route, hpath]
  rfl

/-- Of any list of workers: the path is returned, and the issue goes along it, if nobody on the way up
is a boss of himself, directly or not. -/
theorem escalates_iff (workers : List WorkerDict) (workerId issue : String)
    (escalators : String → Option (Escalator σ)) (world : σ) :
    (∃ fuel bosses r, Escalates escalators (createSimpleTopology workers) fuel workerId issue world bosses r) ↔
      Ends (createSimpleTopology workers).getBoss workerId := by
  constructor
  · rintro ⟨fuel, bosses, r, h⟩
    exact h.chain.ends
  · intro hends
    exact exists_escalates hends issue escalators world

def ownBoss : List WorkerDict := [{ id := "dev", name := "Dev", bossId := some "dev" }]

/-- The loop never ends. -/
theorem ownBoss_loops : ¬∃ fuel path, getEscalationPath (createSimpleTopology ownBoss) fuel "dev" = some path := by
  have hboss : (createSimpleTopology ownBoss).getBoss "dev" = some "dev" := by decide +kernel
  rintro ⟨fuel, path, hpath⟩
  obtain ⟨bosses, hclimb, -⟩ := Option.map_eq_some_iff.1 hpath
  induction fuel generalizing bosses path with
  | zero => cases hclimb
  | succ fuel ih =>
    rw [climb] at hclimb
    simp only [hboss] at hclimb
    obtain ⟨rest, hrest, -⟩ := Option.map_eq_some_iff.1 hclimb
    exact ih (rest ++ ["board"]) (congrArg (Option.map (· ++ ["board"])) hrest) rest hrest

end Quinn.Escalation
