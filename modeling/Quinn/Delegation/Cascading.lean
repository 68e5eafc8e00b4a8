import Quinn.Delegation.Cascade

/-! A cascade is complete or changes nothing, and when it is neither. -/

namespace Quinn.Delegation

open Store Store.Prog Relation

variable {db db' : Db} {g r : DelegationGrant} {k : WorkerId} {clock : Nat → Time} {n : Nat} {c : Conn Db}
  {revokedBy : WorkerId} {reason : Option String}

def revokedRows (db db' : Db) : List DelegationGrant := (unrevokedRows db).filter fun g => g ∉ unrevokedRows db'

/-- An error changes nothing; a result leaves no grant and no authority beneath the worker, and has
counted the grants that went with its own. -/
def Cascaded (db : Db) (k : WorkerId) (result : Except Error RevokeResult) (db' : Db) : Prop :=
  match result with
  | .error _ => db'.delegationGrants = db.delegationGrants ∧ ∀ w, db'.authorityOf w = db.authorityOf w
  | .ok a =>
    (∀ g, Unrevoked db' g → ¬ReflTransGen (Delegates db) k g.delegatorId) ∧
      (∀ d, ReflTransGen (Delegates db) k d → ∀ x ∈ db'.authorityOf d, x = {}) ∧
      (revokedRows db db').length = 1 + a.cascadeCount

def spine (db : Db) : Nat → WorkerId → Option WorkerId
  | 0, k => some k
  | j + 1, k => (getDelegationsByDelegator db k).head?.bind fun g => spine db j g.delegateId

/-- One of the workers that are come to before anything is written has no active grant, or lies too deep. -/
def StopsAtOnce (clock : Nat → Time) (depth : Nat) (db : Db) (k : WorkerId) : Prop :=
  ∃ j d, spine db j k = some d ∧ (depth ≤ j ∨ getDelegationGrant db d (clock (depth - 1 - j)) = none)

theorem stopsAtOnce_zero (clock : Nat → Time) (db : Db) (k : WorkerId) : StopsAtOnce clock 0 db k :=
  ⟨0, k, rfl, .inl (Nat.le_refl 0)⟩

theorem stopsAtOnce_succ_iff : StopsAtOnce clock (n + 1) db k ↔ getDelegationGrant db k (clock n) = none ∨
    ∃ g ∈ (getDelegationsByDelegator db k).head?, StopsAtOnce clock n db g.delegateId := by
  have hlevel (j : Nat) : n + 1 - 1 - (j + 1) = n - 1 - j := by omega
  constructor
  · rintro ⟨j, d, hspine, hstop⟩
    cases j with
    | zero =>
      cases hspine
      exact .inl (hstop.resolve_left (Nat.not_succ_le_zero n))
    | succ j =>
      obtain ⟨g, hg, hd⟩ := Option.bind_eq_some_iff.1 hspine
      refine .inr ⟨g, hg, j, d, hd, ?_⟩
      rw [hlevel] at hstop
      exact hstop.imp_left Nat.le_of_succ_le_succ
  · rintro (hnone | ⟨g, hg, j, d, hd, hstop⟩)
    · exact ⟨0, k, rfl, .inr hnone⟩
    · refine ⟨j + 1, d, Option.bind_eq_some_iff.2 ⟨g, hg, hd⟩, ?_⟩
      rw [hlevel]
      exact hstop.imp_left Nat.succ_le_succ

theorem exec_stopsAtOnce (h : StopsAtOnce clock n c.view k) :
    ∃ e, (revokeDelegationGrant clock revokedBy n k reason true).exec c = (.error e, c) := by
  induction n generalizing k reason with
  | zero => exact ⟨_, rfl⟩
  | succ n ih =>
    simp only [revokeDelegationGrant, bind_eq, exec_bind (select _), exec_select]
    cases hlookup : getDelegationGrant c.view k (clock n) with
    | none => exact ⟨_, rfl⟩
    | some grant =>
      obtain ⟨g, hg, hstop⟩ := (stopsAtOnce_succ_iff.1 h).resolve_left (by simp [hlookup])
      obtain ⟨e, hfirst⟩ : ∃ e, (revokeDelegationGrant clock revokedBy n g.delegateId
          (some "cascade: parent delegation revoked") true).exec c = (.error e, c) := ih hstop
      refine ⟨e, ?_⟩
      simp only [require, Prog.bind]
      rw [exec_bind, exec_subDelegations (.inl rfl)]
      cases hsubs : getDelegationsByDelegator c.view k with
      | nil =>
        rw [hsubs] at hg
        cases hg
      | cons sub subs =>
        rw [hsubs] at hg
        cases hg
        simp only [revokeEach, bind_eq, exec_bind, hfirst]

theorem exec_revokeEach_cons {revoke : WorkerId → Prog RevokeResult}
    (hrevoke : ∀ k c, RevokesUntil (Stripped · k) c.view ((revoke k).exec c)) (sub : DelegationGrant)
    (subs : List DelegationGrant) (hgone : ¬Unrevoked ((revoke sub.delegateId).exec c).2.view g) :
    ¬Unrevoked ((revokeEach revoke (sub :: subs)).exec c).2.view g := by
  rw [revokeEach, bind_eq]
  refine exec_bind_cases (P := fun result => ¬Unrevoked result.2.view g) (fun a c₁ hr => ?_) fun e c₁ hr => ?_
  · rw [hr] at hgone
    have hrest := (exec_revokeEach hrevoke subs c₁).revokes.withdraws
    refine exec_bind_cases (P := fun result => ¬Unrevoked result.2.view g) (fun b c₂ hrs => ?_) fun e c₂ hrs => ?_
    · rw [hrs] at hrest
      exact fun hg => hgone (hrest.unrevoked g hg)
    · rw [hrs] at hrest
      exact fun hg => hgone (hrest.unrevoked g hg)
  · rw [hr] at hgone
    exact hgone

theorem exec_of_not_stopsAtOnce (h : ¬StopsAtOnce clock n c.view k) :
    ∃ g, Unrevoked c.view g ∧
      ¬Unrevoked ((revokeDelegationGrant clock revokedBy n k reason true).exec c).2.view g := by
  induction n generalizing k reason with
  | zero => exact absurd (stopsAtOnce_zero _ _ _) h
  | succ n ih =>
    rw [stopsAtOnce_succ_iff, not_or] at h
    obtain ⟨hactive, hspine⟩ := h
    simp only [revokeDelegationGrant, bind_eq, exec_bind (select _), exec_select]
    cases hlookup : getDelegationGrant c.view k (clock n) with
    | none => exact absurd hlookup hactive
    | some grant =>
      obtain ⟨hgrant, hk, -⟩ := getDelegationGrant_eq_some hlookup
      simp only [require, Prog.bind]
      rw [exec_bind, exec_subDelegations (.inl rfl)]
      simp only
      cases hsubs : getDelegationsByDelegator c.view k with
      | nil =>
        refine exec_bind_cases (P := fun result => ∃ g, Unrevoked c.view g ∧ ¬Unrevoked result.2.view g)
          (fun rs c₁ hrs => ?_) fun e c₁ hrs => ?_
        · cases hrs
          rw [exec_release hk]
          exact ⟨grant, hgrant, fun hg => (unrevoked_release.1 hg).2 rfl⟩
        · cases hrs
      | cons sub subs =>
        obtain ⟨g, hg, hgone⟩ : ∃ g, Unrevoked c.view g ∧ ¬Unrevoked ((revokeDelegationGrant clock revokedBy n
            sub.delegateId (some "cascade: parent delegation revoked") true).exec c).2.view g :=
          ih fun hstop => hspine ⟨sub, by rw [hsubs]; rfl, hstop⟩
        have heach := exec_revokeEach_cons (fun d c => exec_revokeDelegationGrant (k := d) (c := c) n
          (some "cascade: parent delegation revoked") (.inl rfl)) sub subs hgone
        refine exec_bind_cases (P := fun result => ∃ g, Unrevoked c.view g ∧ ¬Unrevoked result.2.view g)
          (fun rs c₁ hrs => ?_) fun e c₁ hrs => ?_
        · rw [hrs] at heach
          rw [exec_release hk]
          exact ⟨g, hg, fun hleft => heach (unrevoked_release.1 hleft).1⟩
        · rw [hrs] at heach
          exact ⟨g, hg, heach⟩

namespace Clears

variable {count : Nat}

theorem complete (h : Clears db db' k [r] count) {x : WorkerId} (hx : ReflTransGen (Delegates db) k x) :
    ∀ g, Unrevoked db' g → g.delegatorId ≠ x := by
  induction hx with
  | refl => exact h.barren
  | tail _ hedge ih =>
    obtain ⟨e, he, hex, hey⟩ := hedge
    intro g hg hgy
    have hgone : ¬Unrevoked db' e := fun hleft => ih e hleft hex
    exact h.cascades e g he hgone (h.withdraws.unrevoked g hg) (hgy.trans hey.symm) hg

theorem authority (h : Clears db db' k [r] count) (hr : Unrevoked db r) (hrk : r.delegateId = k) {d : WorkerId}
    (hd : ReflTransGen (Delegates db) k d) : ∀ x ∈ db'.authorityOf d, x = {} := by
  have hempty : db'.authorityOf d = (db.authorityOf d).map fun _ => {} := by
    cases hd.cases_tail with
    | inl heq =>
      rw [heq, ← hrk]
      exact h.withdraws.cleared r hr (h.gone r List.mem_cons_self)
    | inr hlast =>
      obtain ⟨x, hx, e, he, hex, hed⟩ := hlast
      have hgone : ¬Unrevoked db' e := fun hleft => h.complete hx e hleft hex
      rw [← hed]
      exact h.withdraws.cleared e he hgone
  intro x hx
  rw [hempty] at hx
  obtain ⟨-, -, rfl⟩ := Option.map_eq_some_iff.1 hx
  rfl

theorem length_revokedRows (h : Clears db db' k [r] count) : (revokedRows db db').length = count := by
  have hkept : ((unrevokedRows db).filter fun g => g ∈ unrevokedRows db').Perm (unrevokedRows db') := by
    rw [List.perm_ext_iff_of_nodup ((nodup_unrevokedRows db).filter _) (nodup_unrevokedRows db')]
    intro g
    rw [List.mem_filter, decide_eq_true_iff, mem_unrevokedRows, mem_unrevokedRows]
    exact and_iff_right_of_imp (h.withdraws.unrevoked g)
  have hsplit := List.length_eq_length_filter_add (l := unrevokedRows db) fun g => g ∈ unrevokedRows db'
  rw [hkept.length_eq, h.count] at hsplit
  have hrevoked : revokedRows db db' = (unrevokedRows db).filter fun g => !decide (g ∈ unrevokedRows db') := by
    simp [revokedRows]
  rw [hrevoked]
  exact (Nat.add_left_cancel hsplit).symm

end Clears

theorem cascaded_revokeDelegationGrant_iff (hf : Search.Forest (Delegates c.view)) :
    Cascaded c.view k ((revokeDelegationGrant clock revokedBy n k reason true).exec c).1
        ((revokeDelegationGrant clock revokedBy n k reason true).exec c).2.view ↔
      StopsAtOnce clock n c.view k ∨ ActiveBeneath clock n c.view k := by
  have hreturns : Returns clock n k c ((revokeDelegationGrant clock revokedBy n k reason true).exec c) :=
    returns_revokeDelegationGrant reason c hf
  by_cases hstop : StopsAtOnce clock n c.view k
  · obtain ⟨e, hexec⟩ : ∃ e, (revokeDelegationGrant clock revokedBy n k reason true).exec c = (.error e, c) :=
      exec_stopsAtOnce hstop
    rw [hexec]
    exact iff_of_true ⟨rfl, fun _ => rfl⟩ (.inl hstop)
  · obtain ⟨g, hg, hgone⟩ : ∃ g, Unrevoked c.view g ∧
        ¬Unrevoked ((revokeDelegationGrant clock revokedBy n k reason true).exec c).2.view g :=
      exec_of_not_stopsAtOnce hstop
    rw [or_iff_right hstop]
    cases hexec : (revokeDelegationGrant clock revokedBy n k reason true).exec c with
    | mk result c' =>
      rw [hexec] at hreturns hgone
      cases result with
      | error e =>
        refine iff_of_false (fun h => hgone ?_) fun hlive => ?_
        · exact ⟨h.1 ▸ hg.1, hg.2⟩
        · have hpos : 0 < n := Nat.pos_of_ne_zero fun hzero => hstop (hzero ▸ stopsAtOnce_zero _ _ _)
          have hactive : getDelegationGrant c.view k (clock (n - 1)) ≠ none :=
            fun hnone => hstop ⟨0, k, rfl, .inr hnone⟩
          obtain ⟨a, ha⟩ := hreturns.ok_iff.2 ⟨hpos, Option.ne_none_iff_exists'.1 hactive, hlive⟩
          cases ha
      | ok a =>
        obtain ⟨r, hfound, hclears⟩ := hreturns.clears a rfl
        obtain ⟨hr, hrk, -⟩ := getDelegationGrant_eq_some hfound
        refine iff_of_true ⟨fun g hg hreach => ?_, fun d hd => ?_, hclears.length_revokedRows⟩
          (hreturns.ok_iff.1 ⟨a, rfl⟩).2.2
        · exact hclears.complete hreach g hg rfl
        · exact hclears.authority hr hrk hd

/-- In a forest of grants, a cascade is complete or changes nothing exactly when it stops before anything is
written, or every grant beneath the worker is active when the cascade comes to it, and none lies too deep. -/
theorem cascade_iff (c : Conn Db) (hf : Search.Forest (Delegates c.view)) :
    (∀ clock revokedBy n k reason,
      let run := (revokeDelegationGrant clock revokedBy n k reason true).exec c
      Cascaded c.view k run.1 run.2.view ↔ StopsAtOnce clock n c.view k ∨ ActiveBeneath clock n c.view k) ∧
    ∀ (self delegate : Handle) reason (d : RevokeDraws),
      let run := (revokeAuthority self delegate true reason d).exec c
      Cascaded c.view delegate.id run.1 run.2.view ↔
        ∀ grant ∈ getDelegationGrant c.view delegate.id d.lookupNow, grant.delegatorId = self.id →
          StopsAtOnce d.clock d.depth c.view delegate.id ∨ ActiveBeneath d.clock d.depth c.view delegate.id := by
  refine ⟨fun clock revokedBy n k reason => cascaded_revokeDelegationGrant_iff hf, fun self delegate reason d => ?_⟩
  simp only [revokeAuthority, bind_eq, exec_bind (select _), exec_select]
  cases hlookup : getDelegationGrant c.view delegate.id d.lookupNow with
  | none => exact iff_of_true ⟨rfl, fun _ => rfl⟩ fun _ hgrant => absurd hgrant (Option.not_mem_none _)
  | some grant =>
    simp only [require, Prog.bind, exec_raiseIf, exec_bind (select _), exec_select, not_true_eq_false, and_false,
      if_false]
    by_cases hself : grant.delegatorId = self.id
    · rw [if_neg (not_not.2 hself)]
      refine (cascaded_revokeDelegationGrant_iff hf).trans ⟨fun h _ _ _ => h, fun h => h grant rfl hself⟩
    · rw [if_pos hself]
      refine iff_of_true ⟨rfl, fun _ => rfl⟩ fun g hg hself' => ?_
      cases hg
      exact absurd hself' hself

/-- A manager and the two he has delegated to; the second grant runs out at 4. -/
def mixedDb : Db where
  workers := ⟨[{ id := "ceo", name := "CEO", role := "ceo", managerId := none },
    { id := "m", name := "M", role := "lead", managerId := some "ceo" },
    { id := "a", name := "A", role := "dev", managerId := some "m" },
    { id := "b", name := "B", role := "dev", managerId := some "m" }], by decide⟩
  delegationGrants := ⟨[
    { id := "g", delegatorId := "ceo", delegateId := "m", scope := {}, budgetAmount := 0, grantedAt := 1 },
    { id := "ga", delegatorId := "m", delegateId := "a", scope := {}, budgetAmount := 0, grantedAt := 2 },
    { id := "gb", delegatorId := "m", delegateId := "b", scope := {}, budgetAmount := 0, grantedAt := 3,
      expiresAt := some 4 }], by decide⟩

theorem delegates_mixedDb {x y : WorkerId} (h : Delegates mixedDb x y) :
    x = "ceo" ∧ y = "m" ∨ x = "m" ∧ y = "a" ∨ x = "m" ∧ y = "b" := by
  obtain ⟨g, ⟨hg, -⟩, rfl, rfl⟩ := h
  simp only [mixedDb, List.mem_cons, List.not_mem_nil, or_false] at hg
  obtain rfl | rfl | rfl := hg <;> decide

theorem forest_mixedDb : Search.Forest (Delegates mixedDb) where
  acyclic := by
    refine Search.acyclic_of_rank (fun x => if x = "ceo" then 0 else if x = "m" then 1 else 2) fun x y h => ?_
    obtain ⟨rfl, rfl⟩ | ⟨rfl, rfl⟩ | ⟨rfl, rfl⟩ := delegates_mixedDb h <;> decide
  oneParent ha hb := by
    obtain ⟨rfl, rfl⟩ | ⟨rfl, rfl⟩ | ⟨rfl, rfl⟩ := delegates_mixedDb ha <;>
      obtain ⟨rfl, h⟩ | ⟨rfl, h⟩ | ⟨rfl, h⟩ := delegates_mixedDb hb <;> first | rfl | exact absurd h (by decide)

theorem cascade_iff_mixedDb : Search.Forest (Delegates mixedDb) ∧
    let run := (revokeDelegationGrant (fun _ => 4) "ceo" 10 "m" none true).exec ⟨mixedDb, none⟩
    Cascaded mixedDb "m" run.1 run.2.view ↔
      StopsAtOnce (fun _ => 4) 10 mixedDb "m" ∨ ActiveBeneath (fun _ => 4) 10 mixedDb "m" :=
  ⟨forest_mixedDb, (cascade_iff ⟨mixedDb, none⟩ forest_mixedDb).1 _ _ _ _ _⟩

/-- At 5 the first has lost his grant and his authority when the second is found to hold none. -/
theorem mixedDb_halfRevoked : Search.Forest (Delegates mixedDb) ∧
    let run := (revokeAuthority ⟨"ceo", none⟩ ⟨"m", none⟩ true none ⟨5, 10, fun _ => 5⟩).exec ⟨mixedDb, none⟩
    run.1 = .error (.noActiveDelegation "b") ∧ (unrevokedRows run.2.view).map (·.id) = ["g", "gb"] ∧
      ¬Cascaded mixedDb "m" run.1 run.2.view := by
  refine ⟨forest_mixedDb, ?_⟩
  intro run
  have herror : run.1 = .error (.noActiveDelegation "b") := by decide +kernel
  have hrows : (unrevokedRows run.2.view).map (·.id) = ["g", "gb"] := by decide +kernel
  refine ⟨herror, hrows, fun h => ?_⟩
  rw [herror] at h
  have hsame : (unrevokedRows run.2.view).map (·.id) = ["g", "ga", "gb"] := by
    rw [unrevokedRows, h.1]
    decide +kernel
  rw [hrows] at hsame
  exact absurd hsame (by decide)

end Quinn.Delegation
