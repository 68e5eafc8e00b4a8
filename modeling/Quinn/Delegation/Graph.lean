import Quinn.Delegation.Authority
import Quinn.Search.Acyclic
import Quinn.Store.ReadOnly

/-! The loops over the delegation graph are searches in it. -/

namespace Quinn.Delegation

open Store Store.Prog Relation

variable {db db' : Db} {clock : Nat → Time} {g : DelegationGrant} {x : WorkerId}

theorem Delegates.mono (h : ∀ g, Unrevoked db' g → Unrevoked db g) (x y : WorkerId)
    (hxy : Delegates db' x y) : Delegates db x y := by
  obtain ⟨g, hg, hx, hy⟩ := hxy
  exact ⟨g, h g hg, hx, hy⟩

theorem getDelegationGrant_eq_some {now : Time} (h : getDelegationGrant db x now = some g) :
    Unrevoked db g ∧ g.delegateId = x ∧ g.IsActive now := by
  rw [getDelegationGrant, Option.filter_eq_some_iff] at h
  have hfound := List.find?_some h.1
  simp only [decide_eq_true_eq] at hfound
  exact ⟨⟨List.mem_of_find?_eq_some h.1, hfound.2⟩, hfound.1, by simpa using h.2⟩

theorem mem_getDelegationsByDelegator :
    g ∈ getDelegationsByDelegator db x ↔ Unrevoked db g ∧ g.delegatorId = x := by
  simp [getDelegationsByDelegator, Unrevoked, and_left_comm, and_comm]

def delegatesOf (db : Db) (x : WorkerId) : List WorkerId :=
  (getDelegationsByDelegator db x).map (·.delegateId)

theorem mem_delegatesOf {y : WorkerId} : y ∈ delegatesOf db x ↔ Delegates db x y := by
  simp only [delegatesOf, List.mem_map, mem_getDelegationsByDelegator, Delegates, and_assoc]

def everyDelegate (db : Db) : List WorkerId := db.delegationGrants.rows.map (·.delegateId)

/-- A search that stops in time answers, and one that does not is still running. -/
def answer {α : Type} : Option α → Except Error α
  | some a => .ok a
  | none => .error .outOfTurns

theorem exec_chainFrom (c : Conn Db) (turns : Nat) (visited : List WorkerId) :
    (chainFrom clock turns visited x).exec c =
      (answer (Search.follow (fun n y => getDelegationGrant c.view y (clock n))
        DelegationGrant.delegatorId turns visited x), c) := by
  induction turns generalizing visited x with
  | zero => rfl
  | succ n ih =>
    rw [chainFrom, Search.follow]
    split
    · rfl
    · simp only [bind_eq, exec_bind, exec_select]
      cases getDelegationGrant c.view x (clock n) with
      | none => rfl
      | some grant =>
        simp only [exec_bind, ih]
        cases Search.follow (fun n y => getDelegationGrant c.view y (clock n))
          DelegationGrant.delegatorId n (x :: visited) grant.delegatorId <;> rfl

theorem exec_subtreeFrom (c : Conn Db) (turns : Nat) (subtree toVisit : List WorkerId) :
    (subtreeFrom turns subtree toVisit).exec c =
      (answer (Search.explore (delegatesOf c.view) turns subtree toVisit), c) := by
  induction turns generalizing subtree toVisit with
  | zero => cases toVisit <;> rfl
  | succ n ih =>
    cases toVisit with
    | nil => rfl
    | cons current toVisit =>
      simp only [subtreeFrom, Search.explore, bind_eq, exec_bind, exec_select, ih]
      rfl

theorem readOnly_chainFrom (turns : Nat) (visited : List WorkerId) :
    (chainFrom clock turns visited x).ReadOnly := by
  induction turns generalizing visited x with
  | zero => trivial
  | succ n ih =>
    rw [chainFrom]
    split
    · trivial
    · refine (readOnly_select _).bind fun found => ?_
      cases found with
      | none => trivial
      | some grant => exact (ih _).bind fun _ => trivial

theorem readOnly_subtreeFrom (turns : Nat) (subtree toVisit : List WorkerId) :
    (subtreeFrom turns subtree toVisit).ReadOnly := by
  induction turns generalizing subtree toVisit with
  | zero => cases toVisit <;> trivial
  | succ n ih =>
    cases toVisit with
    | nil => trivial
    | cons current toVisit => exact (readOnly_select _).bind fun _ => ih _ _

theorem readOnly_checkDelegationCycle (turns : Nat) (delegator delegate : WorkerId) :
    (checkDelegationCycle turns clock delegator delegate).ReadOnly := by
  refine (readOnly_chainFrom turns []).bind fun chain => ?_
  split
  · trivial
  · exact (readOnly_subtreeFrom turns _ _).bind fun _ => trivial

theorem reaches_of_mem_chain {turns : Nat} {visited : List WorkerId} {chain : List DelegationGrant}
    (h : Search.follow (fun n y => getDelegationGrant db y (clock n)) DelegationGrant.delegatorId
      turns visited x = some chain) (hg : g ∈ chain) :
    ReflTransGen (Delegates db) g.delegateId x :=
  Search.mem_follow (fun _ _ _ hfound => (getDelegationGrant_eq_some hfound).2.1)
    (fun _ _ g hfound =>
      have hgrant := getDelegationGrant_eq_some hfound
      ⟨g, hgrant.1, rfl, hgrant.2.1⟩) h hg

/-- An answer of `check_delegation_cycle` is right, however many turns it took. -/
theorem checkDelegationCycle_ok {c : Conn Db} {turns : Nat} {delegator delegate : WorkerId} {b : Bool}
    (h : ((checkDelegationCycle turns clock delegator delegate).exec c).1 = .ok b) :
    b = true ↔ ReflTransGen (Delegates c.view) delegate delegator := by
  simp only [checkDelegationCycle, getDelegationChain, getDelegationSubtree, bind_eq, exec_bind,
    exec_chainFrom] at h
  cases hchain : Search.follow (fun n y => getDelegationGrant c.view y (clock n))
      DelegationGrant.delegatorId turns [] delegator with
  | none =>
    rw [hchain] at h
    cases h
  | some chain =>
    rw [hchain] at h
    simp only [answer] at h
    split at h
    · next hmem =>
      cases h
      simp only [true_iff]
      rcases List.mem_cons.mp hmem with rfl | hmem
      · exact .refl
      · obtain ⟨g, hg, rfl⟩ := List.mem_map.mp hmem
        exact reaches_of_mem_chain hchain hg
    · simp only [exec_bind, exec_subtreeFrom] at h
      cases hsub : Search.explore (delegatesOf c.view) turns [delegate] [delegate] with
      | none =>
        rw [hsub] at h
        cases h
      | some subtree =>
        rw [hsub] at h
        cases h
        have hedge : (fun x y => y ∈ delegatesOf c.view x) = Delegates c.view := by
          funext x y
          exact propext mem_delegatesOf
        rw [decide_eq_true_iff, Search.mem_explore hsub, hedge]

theorem checkDelegationCycle_isOk (clock : Nat → Time) (c : Conn Db) (delegator delegate : WorkerId) {turns : Nat}
    (hturns : c.view.delegationGrants.rows.length < turns) :
    ∃ b, ((checkDelegationCycle turns clock delegator delegate).exec c).1 = .ok b := by
  have hunseen (seen : List WorkerId) : ((everyDelegate c.view).filter fun y => y ∉ seen).length < turns :=
    calc ((everyDelegate c.view).filter fun y => y ∉ seen).length
        ≤ (everyDelegate c.view).length := List.length_filter_le _ _
      _ = c.view.delegationGrants.rows.length := List.length_map _
      _ < turns := hturns
  have hfound (n : Nat) (x : WorkerId) (g : DelegationGrant)
      (h : getDelegationGrant c.view x (clock n) = some g) : x ∈ everyDelegate c.view := by
    have hgrant := getDelegationGrant_eq_some h
    exact List.mem_map.mpr ⟨g, hgrant.1.1, hgrant.2.1⟩
  have hdelegates (x y : WorkerId) (hy : y ∈ delegatesOf c.view x) : y ∈ everyDelegate c.view := by
    obtain ⟨g, hg, -, rfl⟩ := mem_delegatesOf.mp hy
    exact List.mem_map_of_mem hg.1
  have hroom : [delegate].length +
      ((everyDelegate c.view).filter fun y => y ∉ [delegate]).length ≤ turns := by
    have := hunseen [delegate]
    rw [List.length_singleton]
    omega
  obtain ⟨chain, hchain⟩ : ∃ chain, Search.follow
      (fun n y => getDelegationGrant c.view y (clock n)) DelegationGrant.delegatorId turns []
        delegator = some chain :=
    Search.follow_isSome (everyDelegate c.view) hfound (hunseen [])
  obtain ⟨subtree, hsub⟩ := Search.explore_isSome (everyDelegate c.view) hdelegates hroom
  simp only [checkDelegationCycle, getDelegationChain, getDelegationSubtree, bind_eq, exec_bind,
    exec_chainFrom, hchain, answer]
  split
  · exact ⟨true, rfl⟩
  · simp only [exec_bind, exec_subtreeFrom, hsub, answer]
    exact ⟨_, rfl⟩

end Quinn.Delegation
