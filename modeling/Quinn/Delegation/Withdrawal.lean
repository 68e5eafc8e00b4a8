import Quinn.Delegation.Graph

/-! What the revocations and the sweep do: they take grants back, and with each grant the
columns of the worker it was given to. -/

namespace Quinn.Delegation

open Store Store.Prog

variable {db db' db'' : Db} {g g' : DelegationGrant} {k : WorkerId}

/-- The two updates that take one grant back. -/
def Db.release (db : Db) (g : DelegationGrant) (at_ : Time) (by_ : Actor) (reason : Option String) :
    Db :=
  (db.revokeWhere (·.id = g.id) at_ by_ reason).clearAuthority g.delegateId

structure Withdraws (db db' : Db) : Prop where
  unrevoked : ∀ g, Unrevoked db' g → Unrevoked db g
  granted : ∀ k, Granted db' k ↔ Granted db k
  cleared : ∀ g, Unrevoked db g → ¬Unrevoked db' g →
    db'.authorityOf g.delegateId = (db.authorityOf g.delegateId).map fun _ => {}
  kept : ∀ k, (∀ g, Unrevoked db g → g.delegateId = k → Unrevoked db' g) →
    db'.authorityOf k = db.authorityOf k
  manager : ∀ k, db'.managerOf k = db.managerOf k

/-- With a grant go all that were given by the worker who held it. -/
def Cascades (db db' : Db) : Prop :=
  ∀ g g', Unrevoked db g → ¬Unrevoked db' g → Unrevoked db g' → g'.delegatorId = g.delegateId →
    ¬Unrevoked db' g'

namespace Withdraws

theorem refl (db : Db) : Withdraws db db where
  unrevoked _ h := h
  granted _ := Iff.rfl
  cleared _ h hnot := absurd h hnot
  kept _ _ := rfl
  manager _ := rfl

theorem authorityOf_cases (h : Withdraws db db') (k : WorkerId) :
    db'.authorityOf k = db.authorityOf k ∨
      db'.authorityOf k = (db.authorityOf k).map fun _ => {} := by
  by_cases hk : ∀ g, Unrevoked db g → g.delegateId = k → Unrevoked db' g
  · exact .inl (h.kept k hk)
  · simp only [not_forall] at hk
    obtain ⟨g, hg, rfl, hnot⟩ := hk
    exact .inr (h.cleared g hg hnot)

theorem map_authorityOf (h : Withdraws db db') (k : WorkerId) :
    (db'.authorityOf k).map (fun _ => ({} : Authority)) = (db.authorityOf k).map fun _ => {} := by
  cases h.authorityOf_cases k with
  | inl hkept => rw [hkept]
  | inr hcleared =>
    rw [hcleared, Option.map_map]
    rfl

theorem trans (h : Withdraws db db') (h' : Withdraws db' db'') : Withdraws db db'' where
  unrevoked g hg := h.unrevoked g (h'.unrevoked g hg)
  granted k := (h'.granted k).trans (h.granted k)
  cleared g hg hnot := by
    by_cases hg' : Unrevoked db' g
    · rw [h'.cleared g hg' hnot, h.map_authorityOf]
    · have hempty := h.cleared g hg hg'
      cases h'.authorityOf_cases g.delegateId with
      | inl hkept => rw [hkept, hempty]
      | inr hcleared => rw [hcleared, h.map_authorityOf]
  kept k hk := by
    rw [h'.kept k fun g hg => hk g (h.unrevoked g hg),
      h.kept k fun g hg hgk => h'.unrevoked g (hk g hg hgk)]
  manager k := (h'.manager k).trans (h.manager k)

theorem oneGrant (h : Withdraws db db') (hone : OneGrant db) : OneGrant db' := hone.mono h.unrevoked

end Withdraws

section release

variable {at_ : Time} {by_ : Actor} {reason : Option String}

theorem unrevoked_release : Unrevoked (db.release g at_ by_ reason) g' ↔ Unrevoked db g' ∧ g'.id ≠ g.id :=
  unrevoked_revokeWhere

theorem authorityOf_release : (db.release g at_ by_ reason).authorityOf k =
    (db.authorityOf k).map fun a => if k = g.delegateId then {} else a :=
  authorityOf_clearAuthority

theorem Withdraws.release (h : Withdraws db db') (hg : Unrevoked db g) (at_ : Time) (by_ : Actor)
    (reason : Option String) : Withdraws db (db'.release g at_ by_ reason) where
  unrevoked g' hg' := h.unrevoked g' (unrevoked_release.mp hg').1
  granted k := granted_revokeWhere.trans (h.granted k)
  cleared g' hg' hnot := by
    rw [authorityOf_release]
    by_cases hk : g'.delegateId = g.delegateId
    · simpa [hk] using h.map_authorityOf g.delegateId
    · have hid : g'.id ≠ g.id := fun hid => hk (by rw [Table.key_inj hg'.1 hg.1 hid])
      have hgone : ¬Unrevoked db' g' := fun hleft => hnot (unrevoked_release.mpr ⟨hleft, hid⟩)
      simpa [hk] using h.cleared g' hg' hgone
  kept k hk := by
    rw [authorityOf_release]
    by_cases hgk : k = g.delegateId
    · exact absurd rfl (unrevoked_release.mp (hk g hg hgk.symm)).2
    · simpa [hgk] using h.kept k fun g' hg' hgk' => (unrevoked_release.mp (hk g' hg' hgk')).1
  manager k := managerOf_clearAuthority.trans (h.manager k)

theorem exec_release {α : Type} {delegate : WorkerId} (hdelegate : g.delegateId = delegate)
    (f : Nat → Prog α) (c : Conn Db) :
    ((execute (.revokeGrant g.id at_ by_ reason)).bind fun _ =>
        (execute (.clearAuthority delegate)).bind f).exec c =
      (f (if c.view.workers.Has delegate then 1 else 0)).exec
        ⟨c.committed, some (c.view.release g at_ by_ reason)⟩ := by
  subst hdelegate
  simp only [exec_bind, exec_execute, Conn.write, Writes.apply, Stmt.apply, Except.mapError]
  rfl

end release

/-- Grants go together with what hangs on them, as long as nobody holds two. -/
structure Revokes (db db' : Db) : Prop where
  withdraws : Withdraws db db'
  cascades : OneGrant db → Cascades db db'

theorem Revokes.refl (db : Db) : Revokes db db := ⟨.refl db, fun _ _ _ h hnot => absurd h hnot⟩

theorem Revokes.trans (h : Revokes db db') (h' : Revokes db' db'') : Revokes db db'' := by
  refine ⟨h.withdraws.trans h'.withdraws, fun hone g g' hg hnot hg' hby hleft => ?_⟩
  have hg'₁ := h'.withdraws.unrevoked g' hleft
  by_cases hg₁ : Unrevoked db' g
  · exact h'.cascades (h.withdraws.oneGrant hone) g g' hg₁ hnot hg'₁ hby hleft
  · exact h.cascades hone g g' hg hg₁ hg' hby hg'₁

def Stripped (db : Db) (k : WorkerId) : Prop := ∀ g, Unrevoked db g → g.delegateId ≠ k

theorem Stripped.mono (h : Stripped db k) (hw : Withdraws db db') : Stripped db' k :=
  fun g hg => h g (hw.unrevoked g hg)

structure RevokesUntil {α : Type} (done : Db → Prop) (db : Db) (r : Except Error α × Conn Db) :
    Prop where
  revokes : Revokes db r.2.view
  done : OneGrant db → ∀ a, r.1 = .ok a → done r.2.view

theorem RevokesUntil.error {α : Type} {done : Db → Prop} {e : Error} {c : Conn Db}
    (h : Revokes db c.view) : RevokesUntil done db ((.error e, c) : Except Error α × Conn Db) :=
  ⟨h, nofun⟩

theorem exec_revokeEach {revoke : WorkerId → Prog RevokeResult}
    (hrevoke : ∀ k c, RevokesUntil (Stripped · k) c.view ((revoke k).exec c))
    (subs : List DelegationGrant) (c : Conn Db) :
    RevokesUntil (fun db => ∀ sub ∈ subs, Stripped db sub.delegateId) c.view
      ((revokeEach revoke subs).exec c) := by
  induction subs generalizing c with
  | nil => exact ⟨.refl c.view, fun _ _ _ _ h => nomatch h⟩
  | cons sub subs ih =>
    have hsub := hrevoke sub.delegateId c
    refine exec_bind_cases (fun a c₁ hr => ?_) fun e c₁ hr => ?_
    · rw [hr] at hsub
      have hrest := ih c₁
      refine exec_bind_cases (fun b c₂ hrs => ?_) fun e c₂ hrs => ?_
      · rw [hrs] at hrest
        refine ⟨hsub.revokes.trans hrest.revokes, fun hone _ _ sub' hsub' => ?_⟩
        cases hsub' with
        | head => exact (hsub.done hone a rfl).mono hrest.revokes.withdraws
        | tail _ hsub' =>
          exact hrest.done (hsub.revokes.withdraws.oneGrant hone) b rfl sub' hsub'
      · rw [hrs] at hrest
        exact .error (hsub.revokes.trans hrest.revokes)
    · rw [hr] at hsub
      exact .error hsub.revokes

theorem Revokes.release (h : Revokes db db') (hg : Unrevoked db g) (at_ : Time) (by_ : Actor)
    (reason : Option String)
    (hsubs : OneGrant db → ∀ g', Unrevoked db g' → g'.delegatorId = g.delegateId → ¬Unrevoked db' g') :
    Revokes db (db'.release g at_ by_ reason) ∧
      (OneGrant db → Stripped (db'.release g at_ by_ reason) g.delegateId) := by
  refine ⟨⟨h.withdraws.release hg at_ by_ reason, fun hone g₀ g' hg₀ hnot hg' hby hleft => ?_⟩,
    fun hone g' hg' hk => ?_⟩
  · have hleft' := (unrevoked_release.mp hleft).1
    by_cases hgone : Unrevoked db' g₀
    · have hid : g₀.id = g.id := by
        by_contra hid
        exact hnot (unrevoked_release.mpr ⟨hgone, hid⟩)
      rw [Table.key_inj hg₀.1 hg.1 hid] at hby
      exact hsubs hone g' hg' hby hleft'
    · exact h.cascades hone g₀ g' hg₀ hgone hg' hby hleft'
  · obtain ⟨hleft, hid⟩ := unrevoked_release.mp hg'
    exact hid (congrArg _ (hone g' g (h.withdraws.unrevoked g' hleft) hg hk))

variable {clock : Nat → Time} {revokedBy : WorkerId}

theorem exec_subDelegations {cascade : Bool} {c : Conn Db}
    (hsubs : cascade = true ∨ getDelegationsByDelegator c.view k = []) :
    (subDelegations cascade k).exec c =
      (.ok (getDelegationsByDelegator c.view k), c) := by
  cases cascade with
  | true => rfl
  | false =>
    have hnone : getDelegationsByDelegator c.view k = [] := by simpa using hsubs
    rw [hnone]
    rfl

theorem exec_revokeDelegationGrant (depth : Nat) (reason : Option String) {cascade : Bool}
    {c : Conn Db} (hsubs : cascade = true ∨ getDelegationsByDelegator c.view k = []) :
    RevokesUntil (Stripped · k) c.view
      ((revokeDelegationGrant clock revokedBy depth k reason cascade).exec c) := by
  induction depth generalizing k reason cascade c with
  | zero => exact .error (.refl c.view)
  | succ n ih =>
    simp only [revokeDelegationGrant, bind_eq, exec_bind (select _), exec_select]
    cases hlookup : getDelegationGrant c.view k (clock n) with
    | none => exact .error (.refl c.view)
    | some grant =>
      obtain ⟨hgrant, hk, -⟩ := getDelegationGrant_eq_some hlookup
      simp only [require, Prog.bind]
      rw [exec_bind, exec_subDelegations hsubs]
      have hrest := exec_revokeEach (fun sub c => ih (k := sub) (c := c)
        (some "cascade: parent delegation revoked") (.inl rfl)) (getDelegationsByDelegator c.view k) c
      refine exec_bind_cases (fun rs c₁ hrs => ?_) fun e c₁ hrs => ?_
      · rw [hrs] at hrest
        rw [exec_release hk]
        obtain ⟨hrevokes, hstripped⟩ := hrest.revokes.release hgrant (clock n) revokedBy reason
          fun hone g' hg' hby hleft =>
            hrest.done hone rs rfl g' (mem_getDelegationsByDelegator.mpr ⟨hg', hby.trans hk⟩) g' hleft rfl
        exact ⟨hrevokes, fun hone _ _ => hk ▸ hstripped hone⟩
      · rw [hrs] at hrest
        exact .error hrest.revokes

theorem exec_revokeAuthority (self delegate : Handle) (cascade : Bool) (reason : Option String)
    (d : RevokeDraws) (c : Conn Db) :
    Revokes c.view ((revokeAuthority self delegate cascade reason d).exec c).2.view := by
  simp only [revokeAuthority, bind_eq, exec_bind (select _), exec_select]
  cases getDelegationGrant c.view delegate.id d.lookupNow with
  | none => exact .refl c.view
  | some grant =>
    simp only [require, Prog.bind, exec_raiseIf, exec_bind (select _), exec_select]
    split
    · exact .refl c.view
    · split
      · exact .refl c.view
      · next hsubs =>
        have hcascade : cascade = true ∨ getDelegationsByDelegator c.view delegate.id = [] := by
          rw [not_and, not_not] at hsubs
          by_cases hnil : getDelegationsByDelegator c.view delegate.id = []
          · exact .inr hnil
          · exact .inl (hsubs hnil)
        exact (exec_revokeDelegationGrant d.depth reason hcascade).revokes

/-- What the sweep at `now` looks for. -/
def DelegationGrant.IsDue (now : Time) (g : DelegationGrant) : Prop := ∃ e ∈ g.expiresAt, e ≤ now

/-- Exactly the grants that are due have gone. -/
structure Sweeps (now : Time) (db db' : Db) : Prop where
  withdraws : Withdraws db db'
  unrevoked : ∀ g, Unrevoked db' g ↔ Unrevoked db g ∧ ¬g.IsDue now

theorem mem_expiredGrants {now : Time} : g ∈ expiredGrants db now ↔ Unrevoked db g ∧ g.IsDue now := by
  simp [expiredGrants, Unrevoked, DelegationGrant.IsDue, and_assoc, and_comm]

theorem exec_expireEach (now : Time) (rows : List DelegationGrant)
    (hrows : ∀ row ∈ rows, Unrevoked db row) {c : Conn Db} (h : Withdraws db c.view) :
    ∃ c', (expireEach now rows).exec c = (.ok (), c') ∧ Withdraws db c'.view ∧
      ∀ g, Unrevoked c'.view g ↔ Unrevoked c.view g ∧ ∀ row ∈ rows, g.id ≠ row.id := by
  induction rows generalizing c with
  | nil => exact ⟨c, rfl, h, fun g => by simp⟩
  | cons row rows ih =>
    have hrelease := h.release (hrows row List.mem_cons_self) now "system" (some "expired")
    obtain ⟨c', hexec, hw, hleft⟩ := ih (fun r hr => hrows r (List.mem_cons_of_mem row hr))
      (c := ⟨c.committed, some (c.view.release row now "system" (some "expired"))⟩) hrelease
    refine ⟨c', ?_, hw, fun g => ?_⟩
    · simp only [expireEach, bind_eq]
      rw [exec_release rfl]
      exact hexec
    · rw [hleft, Conn.view_some, unrevoked_release, List.forall_mem_cons, and_assoc]

theorem exec_expireDelegations (now : Time) (c : Conn Db) :
    ∃ ids c', (expireDelegations now).exec c = (.ok ids, c') ∧ Sweeps now c.view c'.view := by
  obtain ⟨c', hexec, hw, hleft⟩ := exec_expireEach now (expiredGrants c.view now)
    (fun row hrow => (mem_expiredGrants.mp hrow).1) (.refl c.view)
  have hsweeps : Sweeps now c.view c'.view := by
    refine ⟨hw, fun g => ?_⟩
    rw [hleft]
    refine and_congr_right fun hg => ⟨fun hne hdue => ?_, fun hdue row hrow hid => ?_⟩
    · exact hne g (mem_expiredGrants.mpr ⟨hg, hdue⟩) rfl
    · obtain ⟨hrow, hrowdue⟩ := mem_expiredGrants.mp hrow
      exact hdue (Table.key_inj hg.1 hrow.1 hid ▸ hrowdue)
  simp only [expireDelegations, bind_eq, exec_bind, exec_select, hexec]
  split
  · exact ⟨_, ⟨c'.view, none⟩, rfl, hsweeps⟩
  · exact ⟨_, c', rfl, hsweeps⟩

end Quinn.Delegation
