import Quinn.Delegation.Withdrawal
import Quinn.Search.Acyclic

/-! What a cascade goes through in a forest of grants, and when it comes to its end. -/

namespace Quinn.Delegation

open Store Store.Prog Relation

variable {db db' db'' : Db} {g g' r : DelegationGrant} {k d : WorkerId}

def unrevokedRows (db : Db) : List DelegationGrant := db.delegationGrants.rows.filter (·.revokedAt = none)

theorem mem_unrevokedRows : g ∈ unrevokedRows db ↔ Unrevoked db g := by
  simp [unrevokedRows, Unrevoked]

theorem nodup_unrevokedRows (db : Db) : (unrevokedRows db).Nodup :=
  (List.Nodup.of_map _ db.delegationGrants.nodup).filter _

def rowsFrom (db : Db) (k : WorkerId) : List DelegationGrant := (unrevokedRows db).filter (·.delegatorId = k)

theorem mem_rowsFrom : g ∈ rowsFrom db k ↔ Unrevoked db g ∧ g.delegatorId = k := by
  simp [rowsFrom, mem_unrevokedRows]

theorem nodup_rowsFrom (db : Db) (k : WorkerId) : (rowsFrom db k).Nodup := (nodup_unrevokedRows db).filter _

theorem perm_erase {l l' : List DelegationGrant} (hl : l.Nodup) (hl' : l'.Nodup) (hr : r ∈ l)
    (h : ∀ g, g ∈ l' ↔ g ∈ l ∧ g ≠ r) : l.Perm (r :: l') := by
  have herase : (l.erase r).Perm l' := by
    rw [List.perm_ext_iff_of_nodup (hl.erase r) hl']
    intro g
    rw [h, hl.mem_erase_iff, and_comm]
  exact (List.perm_cons_erase hr).trans (herase.cons r)

theorem getDelegationsByDelegator_perm (db : Db) (k : WorkerId) :
    (getDelegationsByDelegator db k).Perm (rowsFrom db k) := by
  refine (List.perm_insertionSort _ _).trans ?_
  rw [rowsFrom, unrevokedRows, List.filter_filter]
  simp only [Bool.decide_and]
  exact .refl _

/-- A grant so many levels down. -/
inductive Beneath (db : Db) : Nat → WorkerId → DelegationGrant → Prop
  | child {g : DelegationGrant} : Unrevoked db g → Beneath db 1 g.delegatorId g
  | deeper {g : DelegationGrant} {j : Nat} {g' : DelegationGrant} :
    Unrevoked db g → Beneath db j g.delegateId g' → Beneath db (j + 1) g.delegatorId g'

namespace Beneath

variable {j : Nat}

theorem unrevoked (h : Beneath db j k g) : Unrevoked db g := by
  induction h with
  | child hg => exact hg
  | deeper _ _ ih => exact ih

theorem of_kept (h : Beneath db j k g)
    (hkept : ∀ g, Unrevoked db g → ReflTransGen (Delegates db) k g.delegatorId → Unrevoked db' g) :
    Beneath db' j k g := by
  induction h with
  | child hg => exact .child (hkept _ hg .refl)
  | deeper hg _ ih =>
    refine .deeper (hkept _ hg .refl) (ih fun g' hg' hreach => hkept g' hg' ?_)
    exact .head ⟨_, hg, rfl, rfl⟩ hreach

theorem mono (h : Beneath db j k g) (hsub : ∀ g, Unrevoked db g → Unrevoked db' g) : Beneath db' j k g :=
  h.of_kept fun g hg _ => hsub g hg

end Beneath

/-- Every grant beneath the worker is active when the cascade comes to it, and none lies too deep. -/
def ActiveBeneath (clock : Nat → Time) (depth : Nat) (db : Db) (k : WorkerId) : Prop :=
  ∀ j g, Beneath db j k g → j < depth ∧ g.IsActive (clock (depth - 1 - j))

variable {clock : Nat → Time} {n : Nat}

theorem activeBeneath_succ_iff : ActiveBeneath clock (n + 1) db k ↔
    ∀ g ∈ rowsFrom db k, 0 < n ∧ g.IsActive (clock (n - 1)) ∧ ActiveBeneath clock n db g.delegateId := by
  constructor
  · intro h g hg
    obtain ⟨hunrevoked, rfl⟩ := mem_rowsFrom.1 hg
    obtain ⟨hpos, hactive⟩ := h 1 g (.child hunrevoked)
    refine ⟨Nat.lt_of_succ_lt_succ hpos, hactive, fun j g' hg' => ?_⟩
    obtain ⟨hlt, hactive'⟩ := h (j + 1) g' (.deeper hunrevoked hg')
    refine ⟨Nat.lt_of_succ_lt_succ hlt, ?_⟩
    have hlevel : n + 1 - 1 - (j + 1) = n - 1 - j := by omega
    rwa [hlevel] at hactive'
  · intro h j g hg
    cases hg with
    | child hunrevoked =>
      obtain ⟨hpos, hactive, -⟩ := h g (mem_rowsFrom.2 ⟨hunrevoked, rfl⟩)
      exact ⟨Nat.succ_lt_succ hpos, hactive⟩
    | @deeper g₁ j _ hunrevoked hbeneath =>
      obtain ⟨-, -, hlive⟩ := h g₁ (mem_rowsFrom.2 ⟨hunrevoked, rfl⟩)
      obtain ⟨hlt, hactive⟩ := hlive j g hbeneath
      have hlevel : n + 1 - 1 - (j + 1) = n - 1 - j := by omega
      exact ⟨Nat.succ_lt_succ hlt, hlevel ▸ hactive⟩

theorem ActiveBeneath.of_kept (h : ActiveBeneath clock n db' k)
    (hkept : ∀ g, Unrevoked db g → ReflTransGen (Delegates db) k g.delegatorId → Unrevoked db' g) :
    ActiveBeneath clock n db k :=
  fun j g hg => h j g (hg.of_kept hkept)

theorem ActiveBeneath.mono (h : ActiveBeneath clock n db k) (hw : Withdraws db db') : ActiveBeneath clock n db' k :=
  fun j g hg => h j g (hg.mono hw.unrevoked)

/-- All that lies beneath the worker has gone, with the rows in `also`, and nothing else. -/
structure Clears (db db' : Db) (k : WorkerId) (also : List DelegationGrant) (count : Nat) : Prop where
  withdraws : Withdraws db db'
  cascades : Cascades db db'
  barren : ∀ g, Unrevoked db' g → g.delegatorId ≠ k
  gone : ∀ r ∈ also, ¬Unrevoked db' r
  within : ∀ g, Unrevoked db g → ¬Unrevoked db' g → g ∈ also ∨ ReflTransGen (Delegates db) k g.delegatorId
  count : (unrevokedRows db).length = (unrevokedRows db').length + count

theorem cascades_trans (h : Cascades db db') (hw' : Withdraws db' db'')
    (h' : Cascades db' db'') : Cascades db db'' := by
  intro g g' hg hnot hg' hby hleft
  have hg'₁ := hw'.unrevoked g' hleft
  by_cases hg₁ : Unrevoked db' g
  · exact h' g g' hg₁ hnot hg'₁ hby hleft
  · exact h g g' hg hg₁ hg' hby hg'₁

namespace Clears

variable {count count' : Nat}

theorem refl (h : rowsFrom db k = []) : Clears db db k [] 0 where
  withdraws := .refl db
  cascades _ _ hg hnot := absurd hg hnot
  barren g hg hk := by
    have hmem := mem_rowsFrom.2 ⟨hg, hk⟩
    rw [h] at hmem
    cases hmem
  gone := List.forall_mem_nil _
  within _ hg hnot := absurd hg hnot
  count := rfl

theorem rowsFrom_perm (h : Clears db db' d [r] count) (hf : Search.Forest (Delegates db))
    (hr : r ∈ rowsFrom db k) (hd : r.delegateId = d) : (rowsFrom db k).Perm (r :: rowsFrom db' k) := by
  obtain ⟨hunrevoked, hk⟩ := mem_rowsFrom.1 hr
  refine perm_erase (nodup_rowsFrom db k) (nodup_rowsFrom db' k) hr fun g => ?_
  rw [mem_rowsFrom, mem_rowsFrom]
  constructor
  · rintro ⟨hg, hgk⟩
    exact ⟨⟨h.withdraws.unrevoked g hg, hgk⟩, fun heq => h.gone r List.mem_cons_self (heq ▸ hg)⟩
  · rintro ⟨⟨hg, hgk⟩, hne⟩
    refine ⟨by_contra fun hnot => ?_, hgk⟩
    cases h.within g hg hnot with
    | inl hmem => exact hne (List.mem_singleton.1 hmem)
    | inr hreach => exact hf.not_back (x := d) ⟨r, hunrevoked, hk, hd⟩ (hgk ▸ hreach)

theorem cons (h : Clears db db' d [r] count) (hr : r ∈ rowsFrom db k) (hd : r.delegateId = d)
    (h' : Clears db' db'' k [] count') : Clears db db'' k [] (count + count') where
  withdraws := h.withdraws.trans h'.withdraws
  cascades := cascades_trans h.cascades h'.withdraws h'.cascades
  barren := h'.barren
  gone := List.forall_mem_nil _
  within g hg hnot := by
    obtain ⟨hunrevoked, hk⟩ := mem_rowsFrom.1 hr
    refine .inr ?_
    by_cases hg' : Unrevoked db' g
    · have hreach := (h'.within g hg' hnot).resolve_left List.not_mem_nil
      exact ReflTransGen.mono (Delegates.mono h.withdraws.unrevoked) _ _ hreach
    · cases h.within g hg hg' with
      | inl hmem =>
        rw [List.mem_singleton.1 hmem, hk]
      | inr hreach => exact .head ⟨r, hunrevoked, hk, hd⟩ hreach
  count := by rw [h.count, h'.count, Nat.add_assoc, Nat.add_comm count']

theorem release (h : Clears db db' k [] count) (hf : Search.Forest (Delegates db)) (hr : Unrevoked db r)
    (hd : r.delegateId = k) (at_ : Time) (by_ : Actor) (reason : Option String) :
    Clears db (db'.release r at_ by_ reason) k [r] (1 + count) where
  withdraws := h.withdraws.release hr at_ by_ reason
  cascades g g' hg hnot hg' hby hleft := by
    obtain ⟨hleft', -⟩ := unrevoked_release.1 hleft
    by_cases hg₁ : Unrevoked db' g
    · have hid : g.id = r.id := by_contra fun hid => hnot (unrevoked_release.2 ⟨hg₁, hid⟩)
      rw [Table.key_inj hg.1 hr.1 hid, hd] at hby
      exact h.barren g' hleft' hby
    · exact h.cascades g g' hg hg₁ hg' hby hleft'
  barren g hg := h.barren g (unrevoked_release.1 hg).1
  gone g hmem hg := by
    rw [List.mem_singleton.1 hmem] at hg
    exact (unrevoked_release.1 hg).2 rfl
  within g hg hnot := by
    by_cases hg' : Unrevoked db' g
    · have hid : g.id = r.id := by_contra fun hid => hnot (unrevoked_release.2 ⟨hg', hid⟩)
      exact .inl (List.mem_singleton.2 (Table.key_inj hg.1 hr.1 hid))
    · exact .inr ((h.within g hg hg').resolve_left List.not_mem_nil)
  count := by
    have hkept : Unrevoked db' r := by_contra fun hnot =>
      hf.not_back (x := k) ⟨r, hr, rfl, hd⟩ ((h.within r hr hnot).resolve_left List.not_mem_nil)
    have hperm : (unrevokedRows db').Perm (r :: unrevokedRows (db'.release r at_ by_ reason)) := by
      refine perm_erase (nodup_unrevokedRows _) (nodup_unrevokedRows _) (mem_unrevokedRows.2 hkept) fun g => ?_
      rw [mem_unrevokedRows, mem_unrevokedRows, unrevoked_release]
      refine and_congr_right fun hg => not_congr ⟨fun hid => Table.key_inj hg.1 hkept.1 hid, fun heq => heq ▸ rfl⟩
    rw [h.count, hperm.length_eq, List.length_cons, Nat.add_assoc]

end Clears

/-- A call at `depth` returns exactly when the worker's own grant is active and all beneath it are. -/
structure Returns (clock : Nat → Time) (depth : Nat) (k : WorkerId) (c : Conn Db)
    (result : Except Error RevokeResult × Conn Db) : Prop where
  ok_iff : (∃ a, result.1 = .ok a) ↔
    0 < depth ∧ (∃ r, getDelegationGrant c.view k (clock (depth - 1)) = some r) ∧ ActiveBeneath clock depth c.view k
  clears : ∀ a, result.1 = .ok a → ∃ r, getDelegationGrant c.view k (clock (depth - 1)) = some r ∧
    Clears c.view result.2.view k [r] (1 + a.cascadeCount)

theorem exists_getDelegationGrant {now : Time} (hg : Unrevoked db g) (hd : g.delegateId = d)
    (hactive : ∀ g, Unrevoked db g → g.delegateId = d → g.IsActive now) :
    ∃ r, getDelegationGrant db d now = some r := by
  obtain ⟨r, hr⟩ : ∃ r, db.delegationGrants.rows.find? (fun g => g.delegateId = d ∧ g.revokedAt = none) = some r := by
    rw [← Option.isSome_iff_exists, List.find?_isSome]
    exact ⟨g, hg.1, by simp [hd, hg.2]⟩
  have hfound := List.find?_some hr
  simp only [decide_eq_true_eq] at hfound
  have hr' := hactive r ⟨List.mem_of_find?_eq_some hr, hfound.2⟩ hfound.1
  exact ⟨r, by rw [getDelegationGrant, hr, Option.filter_some, if_pos (decide_eq_true hr')]⟩

/-- The sub-delegations are visited one after the other; they are the rows of the worker, in some order. -/
theorem exec_revokeEach_iff {revoke : WorkerId → Prog RevokeResult}
    (hrevoke : ∀ d c, Search.Forest (Delegates c.view) → Returns clock n d c ((revoke d).exec c))
    (subs : List DelegationGrant) (c : Conn Db) (hf : Search.Forest (Delegates c.view))
    (hperm : (subs.map (·.delegateId)).Perm ((rowsFrom c.view k).map (·.delegateId))) :
    ((∃ a, ((revokeEach revoke subs).exec c).1 = .ok a) ↔
      ∀ g ∈ rowsFrom c.view k, 0 < n ∧ g.IsActive (clock (n - 1)) ∧ ActiveBeneath clock n c.view g.delegateId) ∧
    ∀ a, ((revokeEach revoke subs).exec c).1 = .ok a →
      Clears c.view ((revokeEach revoke subs).exec c).2.view k [] a.cascadeCount := by
  induction subs generalizing c with
  | nil =>
    have hnil : rowsFrom c.view k = [] := List.map_eq_nil_iff.1 (List.nil_perm.1 hperm)
    refine ⟨iff_of_true ⟨_, rfl⟩ (by simp [hnil]), fun a ha => ?_⟩
    cases ha
    exact .refl hnil
  | cons sub subs ih =>
    have hsub := hrevoke sub.delegateId c hf
    obtain ⟨g₀, hg₀, (hd : g₀.delegateId = sub.delegateId)⟩ :=
      List.mem_map.1 (hperm.subset List.mem_cons_self)
    obtain ⟨hunrevoked, hk⟩ := mem_rowsFrom.1 hg₀
    have hedge : Delegates c.view k sub.delegateId := ⟨g₀, hunrevoked, hk, hd⟩
    rw [revokeEach, bind_eq, exec_bind]
    cases hvisit : (revoke sub.delegateId).exec c with
    | mk result c₁ =>
      rw [hvisit] at hsub
      cases result with
      | error e =>
        refine ⟨iff_of_false nofun fun hlive => ?_, nofun⟩
        -- the rows of the delegate are all given by `k`, so one that is active would have been found
        obtain ⟨hpos, -, hbeneath⟩ := hlive g₀ hg₀
        have hfound : ∃ r, getDelegationGrant c.view sub.delegateId (clock (n - 1)) = some r :=
          exists_getDelegationGrant hunrevoked hd fun g hg hgd =>
            (hlive g (mem_rowsFrom.2 ⟨hg, hf.oneParent ⟨g, hg, rfl, hgd⟩ hedge⟩)).2.1
        obtain ⟨a, ha⟩ := hsub.ok_iff.2 ⟨hpos, hfound, hd ▸ hbeneath⟩
        cases ha
      | ok a =>
        obtain ⟨hpos, -, hbeneath⟩ := hsub.ok_iff.1 ⟨a, rfl⟩
        obtain ⟨r, hfound, hclears⟩ := hsub.clears a rfl
        obtain ⟨hr, hrd, hactive⟩ := getDelegationGrant_eq_some hfound
        have hrow : r ∈ rowsFrom c.view k := mem_rowsFrom.2 ⟨hr, hf.oneParent ⟨r, hr, rfl, hrd⟩ hedge⟩
        have hrows := hclears.rowsFrom_perm hf hrow hrd
        have hrest : (subs.map (·.delegateId)).Perm ((rowsFrom c₁.view k).map (·.delegateId)) := by
          have hmap := hperm.trans (hrows.map (·.delegateId))
          rw [List.map_cons, List.map_cons, hrd] at hmap
          exact hmap.cons_inv
        obtain ⟨hok, hcleared⟩ := ih c₁ (hf.mono (Delegates.mono hclears.withdraws.unrevoked)) hrest
        have hlive_iff :
            (∀ g ∈ rowsFrom c.view k,
              0 < n ∧ g.IsActive (clock (n - 1)) ∧ ActiveBeneath clock n c.view g.delegateId) ↔
            ∀ g ∈ rowsFrom c₁.view k,
              0 < n ∧ g.IsActive (clock (n - 1)) ∧ ActiveBeneath clock n c₁.view g.delegateId := by
          constructor
          · intro h g hg
            obtain ⟨hg₁, hgk⟩ := mem_rowsFrom.1 hg
            obtain ⟨-, hgactive, hglive⟩ := h g (mem_rowsFrom.2 ⟨hclears.withdraws.unrevoked g hg₁, hgk⟩)
            exact ⟨hpos, hgactive, hglive.mono hclears.withdraws⟩
          · intro h g hg
            cases List.mem_cons.1 (hrows.subset hg) with
            | inl heq =>
              rw [heq, hrd]
              exact ⟨hpos, hactive, hbeneath⟩
            | inr hleft =>
              obtain ⟨-, hgactive, hglive⟩ := h g hleft
              refine ⟨hpos, hgactive, ?_⟩
              by_cases hsame : g.delegateId = sub.delegateId
              · exact hsame ▸ hbeneath
              · -- what lies beneath another delegate was not visited
                obtain ⟨hgu, hgk⟩ := mem_rowsFrom.1 hg
                have hgedge : Delegates c.view k g.delegateId := ⟨g, hgu, hgk, rfl⟩
                refine hglive.of_kept fun g' hg' hreach => by_contra fun hnot => ?_
                cases hclears.within g' hg' hnot with
                | inl hmem =>
                  rw [List.mem_singleton.1 hmem, (mem_rowsFrom.1 hrow).2] at hreach
                  exact hf.not_back hgedge hreach
                | inr hreach' => exact hf.disjoint hgedge hedge hsame hreach hreach'
        rw [hlive_iff, ← hok]
        simp only
        rw [bind_eq, exec_bind]
        cases hothers : (revokeEach revoke subs).exec c₁ with
        | mk result₂ c₂ =>
          rw [hothers] at hcleared
          cases result₂ with
          | error e => exact ⟨iff_of_false nofun nofun, nofun⟩
          | ok rs =>
            refine ⟨iff_of_true ⟨_, rfl⟩ ⟨_, rfl⟩, fun b hb => ?_⟩
            cases hb
            exact hclears.cons hrow hrd (hcleared rs rfl)

theorem returns_revokeDelegationGrant {revokedBy : WorkerId} (reason : Option String) (c : Conn Db)
    (hf : Search.Forest (Delegates c.view)) :
    Returns clock n k c ((revokeDelegationGrant clock revokedBy n k reason true).exec c) := by
  induction n generalizing k reason c with
  | zero =>
    constructor
    · apply iff_of_false
      · rintro ⟨a, ha⟩
        cases ha
      · intro h
        exact Nat.lt_irrefl 0 h.1
    · intro a ha
      cases ha
  | succ n ih =>
    simp only [revokeDelegationGrant, bind_eq, exec_bind (select _), exec_select]
    cases hlookup : getDelegationGrant c.view k (clock n) with
    | none =>
      constructor
      · apply iff_of_false
        · rintro ⟨a, ha⟩
          cases ha
        · rintro ⟨-, ⟨r, hr⟩, -⟩
          cases hlookup.symm.trans hr
      · intro a ha
        cases ha
    | some grant =>
      obtain ⟨hgrant, hk, -⟩ := getDelegationGrant_eq_some hlookup
      simp only [require, Prog.bind]
      rw [exec_bind, exec_subDelegations (.inl rfl)]
      have hperm := (getDelegationsByDelegator_perm c.view k).map (·.delegateId)
      obtain ⟨hok, hclears⟩ := exec_revokeEach_iff (fun d c hf =>
        ih (k := d) (some "cascade: parent delegation revoked") c hf) _ c hf hperm
      rw [← activeBeneath_succ_iff] at hok
      simp only
      rw [exec_bind]
      cases hsubs : (revokeEach (fun sub => revokeDelegationGrant clock revokedBy n sub
          (some "cascade: parent delegation revoked") true) (getDelegationsByDelegator c.view k)).exec c with
      | mk result c₁ =>
        rw [hsubs] at hok hclears
        cases result with
        | error e =>
          constructor
          · apply iff_of_false
            · rintro ⟨a, ha⟩
              cases ha
            · intro h
              obtain ⟨a, ha⟩ := hok.2 h.2.2
              cases ha
          · intro a ha
            cases ha
        | ok rs =>
          simp only
          rw [exec_release hk]
          refine ⟨iff_of_true ⟨_, rfl⟩ ⟨Nat.succ_pos n, ⟨grant, hlookup⟩, hok.1 ⟨rs, rfl⟩⟩, fun a ha => ?_⟩
          cases ha
          exact ⟨grant, hlookup, (hclears rs rfl).release hf hgrant hk _ _ _⟩

end Quinn.Delegation
