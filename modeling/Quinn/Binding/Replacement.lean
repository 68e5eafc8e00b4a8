import Quinn.Binding.Bijection

/-! State changes of a session that a worker is no longer bound to. -/

namespace Quinn.Binding

open Store Index Quinn.Runtime

def Callback.worker : Callback → WorkerId
  | .binding worker => worker
  | .sync worker => worker

namespace World

/-- The callback writes its worker's runtime status. -/
def Writes (x : World) : Callback → Prop
  | .binding _ => x.hasDb = true
  | .sync _ => True

instance (x : World) : (cb : Callback) → Decidable (x.Writes cb)
  | .binding _ => inferInstanceAs (Decidable (_ = _))
  | .sync _ => inferInstanceAs (Decidable True)

/-- No foreign key stands in the way of the callback. -/
def Passes (x : World) (cb : Callback) : Prop := x.Writes cb → Known x.db cb.worker

instance (x : World) (cb : Callback) : Decidable (x.Passes cb) :=
  inferInstanceAs (Decidable (_ → _))

/-- The callbacks a state change of session `r` gets to. -/
def reached (x : World) (r : SessionRef) : List Callback :=
  (x.objects r).callbacks.takeWhile fun cb => x.Passes cb

/-- The state change is none, or every callback it gets to leaves worker `w` as it is: what is
written for `w` is stored already, and nothing is unbound. -/
def Spares (x : World) (r : SessionRef) (new : SessionState) (w : WorkerId) : Prop :=
  new = (x.objects r).state ∨ ∀ cb ∈ x.reached r, cb.worker = w →
    (x.Writes cb → runtimeStatusOf x.db w = some new) ∧
    (cb = .sync w → x.AutoUnbinds new → x.workerToSession.lookup w = none)

/-- Neither the runtime status of `w` nor its binding changes. -/
def Unaffected (w : WorkerId) (x y : World) : Prop :=
  runtimeStatusOf y.db w = runtimeStatusOf x.db w ∧
    y.workerToSession.lookup w = x.workerToSession.lookup w

structure SameSettings (x y : World) : Prop where
  hasDb : y.hasDb = x.hasDb
  config : y.config = x.config
  known : ∀ w, Known y.db w ↔ Known x.db w

theorem SameSettings.refl (x : World) : SameSettings x x := ⟨rfl, rfl, fun _ => Iff.rfl⟩

theorem SameSettings.trans {x y z : World} (h : SameSettings x y) (h' : SameSettings y z) :
    SameSettings x z :=
  ⟨h'.hasDb.trans h.hasDb, h'.config.trans h.config, fun w => (h'.known w).trans (h.known w)⟩

variable {x y : World} {w : WorkerId} (new : SessionState)

theorem SameSettings.writes (h : SameSettings x y) (cb : Callback) : y.Writes cb ↔ x.Writes cb := by
  cases cb <;> simp [Writes, h.hasDb]

theorem SameSettings.passes (h : SameSettings x y) (cb : Callback) : y.Passes cb ↔ x.Passes cb := by
  rw [Passes, Passes, h.writes, h.known]

theorem SameSettings.autoUnbinds (h : SameSettings x y) :
    y.AutoUnbinds new ↔ x.AutoUnbinds new := by
  rw [AutoUnbinds, AutoUnbinds, h.config]

section operations

variable (v : WorkerId) (x : World)

theorem updateRuntimeStatus_spec (w : WorkerId) :
    SameSettings x (x.updateRuntimeStatus v new).2 ∧
      (x.updateRuntimeStatus v new).2.workerToSession = x.workerToSession ∧
      (Known x.db v ∧ w = v ∧ runtimeStatusOf (x.updateRuntimeStatus v new).2.db w = some new ∨
        runtimeStatusOf (x.updateRuntimeStatus v new).2.db w = runtimeStatusOf x.db w) ∧
      (¬Known x.db v → ∃ e, (x.updateRuntimeStatus v new).1 = .error e) := by
  unfold updateRuntimeStatus write
  split
  · exact ⟨⟨rfl, rfl, fun _ => Iff.rfl⟩, rfl, .inr rfl, fun _ => ⟨_, rfl⟩⟩
  · split
    · next db hdb =>
      have hknown : Known x.db v := withRuntimeStatus_isOk.mp ⟨db, hdb⟩
      refine ⟨⟨rfl, rfl, known_withRuntimeStatus hdb⟩, rfl, ?_, fun hn => (hn hknown).elim⟩
      rw [runtimeStatusOf_withRuntimeStatus hdb]
      by_cases hw : w = v
      · exact .inl ⟨hknown, hw, if_pos hw⟩
      · exact .inr (if_neg hw)
    · exact ⟨⟨rfl, rfl, fun _ => Iff.rfl⟩, rfl, .inr rfl, fun _ => ⟨_, rfl⟩⟩

theorem updateRuntimeStatus_quiet (h : x.faults = []) (hknown : Known x.db v) :
    (x.updateRuntimeStatus v new).1 = .ok () ∧ (x.updateRuntimeStatus v new).2.faults = [] ∧
      runtimeStatusOf (x.updateRuntimeStatus v new).2.db v = some new := by
  have hwrites : ∃ db, withRuntimeStatus v new none x.db = .ok db :=
    withRuntimeStatus_isOk.mpr hknown
  obtain ⟨db, hdb⟩ := hwrites
  have hwritten : x.updateRuntimeStatus v new = (.ok (), { x with db, faults := [] }) := by
    simp [updateRuntimeStatus, write, h, hdb]
  rw [hwritten]
  refine ⟨rfl, rfl, ?_⟩
  rw [runtimeStatusOf_withRuntimeStatus hdb, if_pos rfl]

/-- Unbinding sets the pid to `NULL` and leaves the rest of the database alone. -/
theorem removeBinding_spec :
    SameSettings x (x.removeBinding v).2 ∧
      (x.removeBinding v).2.workerToSession = x.workerToSession ∧
      ∀ w, runtimeStatusOf (x.removeBinding v).2.db w = runtimeStatusOf x.db w := by
  unfold removeBinding updatePid write
  split
  · split
    · exact ⟨⟨rfl, rfl, fun _ => Iff.rfl⟩, rfl, fun _ => rfl⟩
    · exact ⟨⟨rfl, rfl, known_updateWorkerState⟩, rfl, runtimeStatusOf_updateWorkerState fun _ => rfl⟩
  · exact ⟨SameSettings.refl x, rfl, fun _ => rfl⟩

theorem removeBinding_quiet (h : x.faults = []) :
    (x.removeBinding v).1 = .ok () ∧ (x.removeBinding v).2.faults = [] := by
  unfold removeBinding updatePid write
  split <;> simp [h]

theorem unbind_spec (w : WorkerId) :
    SameSettings x (x.unbind v).2 ∧
      runtimeStatusOf (x.unbind v).2.db w = runtimeStatusOf x.db w ∧
      (x.unbind v).2.workerToSession.lookup w =
        if w = v then none else x.workerToSession.lookup w := by
  unfold unbind
  split
  · next hv =>
    refine ⟨SameSettings.refl x, rfl, ?_⟩
    split
    · next hw => rw [hw, hv]
    · rfl
  · next b hb =>
    obtain ⟨hsettings, hindex, hstatus⟩ := removeBinding_spec v (x.removeFromIndices b v)
    have hlookup : (x.workerToSession.erase v).lookup w =
        if w = v then none else x.workerToSession.lookup w := by
      split
      · next hw => rw [hw, AList.lookup_erase]
      · next hw => exact AList.lookup_erase_ne hw
    have hremoved : SameSettings x (x.removeFromIndices b v) := ⟨rfl, rfl, fun _ => Iff.rfl⟩
    rcases hr : (x.removeFromIndices b v).removeBinding v with ⟨e | u, z⟩
    all_goals
      rw [hr] at hsettings hindex hstatus
      refine ⟨hremoved.trans hsettings, hstatus w, ?_⟩
      rw [show z.workerToSession = x.workerToSession.erase v from hindex]
      exact hlookup

theorem unbind_quiet (h : x.faults = []) :
    (∃ b, (x.unbind v).1 = .ok b) ∧ (x.unbind v).2.faults = [] := by
  unfold unbind
  split
  · exact ⟨⟨none, rfl⟩, h⟩
  · next b hb =>
    obtain ⟨hok, hfaults⟩ := removeBinding_quiet v (x.removeFromIndices b v) h
    rcases hr : (x.removeFromIndices b v).removeBinding v with ⟨e | u, z⟩
    · rw [hr] at hok
      cases hok
    · rw [hr] at hfaults
      exact ⟨⟨some b, rfl⟩, hfaults⟩

end operations

/-- What one callback may change of worker `w`. -/
structure Touches (x y : World) (new : SessionState) (cb : Callback) (w : WorkerId) : Prop where
  settings : SameSettings x y
  status : x.Passes cb ∧ x.Writes cb ∧ cb.worker = w ∧ runtimeStatusOf y.db w = some new ∨
    runtimeStatusOf y.db w = runtimeStatusOf x.db w
  binding : x.Passes cb ∧ cb = .sync w ∧ x.AutoUnbinds new ∧ y.workerToSession.lookup w = none ∨
    y.workerToSession.lookup w = x.workerToSession.lookup w

theorem callback_touches (cb : Callback) (x : World) (w : WorkerId) :
    Touches x (x.callback new cb).2 new cb w ∧
      (¬x.Passes cb → ∃ e, (x.callback new cb).1 = .error e) := by
  cases cb with
  | binding v =>
    obtain ⟨hsettings, hindex, hstatus, herror⟩ := updateRuntimeStatus_spec new v x w
    unfold callback
    by_cases hdb : x.hasDb
    · simp only [hdb, if_true]
      refine ⟨⟨hsettings, ?_, .inr (by rw [hindex])⟩, fun hpass => herror fun hk => hpass fun _ => hk⟩
      exact hstatus.imp_left fun ⟨hk, hw, hs⟩ => ⟨fun _ => hk, hdb, hw.symm, hs⟩
    · simp only [hdb]
      exact ⟨⟨SameSettings.refl x, .inr rfl, .inr rfl⟩, fun hpass => (hpass fun hw => (hdb hw).elim).elim⟩
  | sync v =>
    obtain ⟨hsettings, hindex, hstatus, herror⟩ := updateRuntimeStatus_spec new v x w
    have hstatus' : x.Passes (.sync v) ∧ x.Writes (.sync v) ∧ (Callback.sync v).worker = w ∧
        runtimeStatusOf (x.updateRuntimeStatus v new).2.db w = some new ∨
        runtimeStatusOf (x.updateRuntimeStatus v new).2.db w = runtimeStatusOf x.db w :=
      hstatus.imp_left fun ⟨hk, hw, hs⟩ => ⟨fun _ => hk, trivial, hw.symm, hs⟩
    refine ⟨?_, fun hpass => ?_⟩
    · simp only [callback, handleStateChange]
      rcases hu : x.updateRuntimeStatus v new with ⟨e | u, y⟩
      · rw [hu] at hsettings hindex hstatus'
        exact ⟨hsettings, hstatus', .inr (congrArg _ hindex)⟩
      · rw [hu] at hsettings hindex hstatus' herror
        have hknown : Known x.db v := by
          by_contra hn
          obtain ⟨e, he⟩ := herror hn
          cases he
        by_cases hauto : y.AutoUnbinds new
        · simp only [hauto, if_true]
          obtain ⟨hsettings', hsame, hlookup⟩ := unbind_spec v y w
          rcases hb : y.unbind v with ⟨e | b, z⟩
          all_goals
            rw [hb] at hsettings' hsame hlookup
            refine ⟨hsettings.trans hsettings', ?_, ?_⟩
            · rw [hsame]
              exact hstatus'
            · rw [hlookup, show y.workerToSession = x.workerToSession from hindex]
              by_cases hw : w = v
              · exact .inl ⟨fun _ => hknown, by rw [hw], (hsettings.autoUnbinds new).mp hauto, if_pos hw⟩
              · exact .inr (if_neg hw)
        · simp only [hauto, if_false]
          exact ⟨hsettings, hstatus', .inr (congrArg _ hindex)⟩
    · have hunknown : ¬Known x.db v := fun hk => hpass fun _ => hk
      obtain ⟨e, he⟩ := herror hunknown
      refine ⟨e, ?_⟩
      simp only [callback, handleStateChange]
      rcases hu : x.updateRuntimeStatus v new with ⟨e' | u, y⟩
      · rw [hu] at he
        cases he
        rfl
      · rw [hu] at he
        cases he

theorem callback_quiet {cb : Callback} {x : World} (h : x.faults = []) (hpass : x.Passes cb) :
    (x.callback new cb).1 = .ok () ∧ (x.callback new cb).2.faults = [] ∧
      (x.Writes cb → runtimeStatusOf (x.callback new cb).2.db cb.worker = some new) ∧
      (∀ w, cb = .sync w → x.AutoUnbinds new →
        (x.callback new cb).2.workerToSession.lookup w = none) := by
  cases cb with
  | binding v =>
    unfold callback
    by_cases hdb : x.hasDb
    · obtain ⟨hok, hfaults, hstatus⟩ := updateRuntimeStatus_quiet new v x h (hpass hdb)
      simp only [hdb, if_true]
      exact ⟨hok, hfaults, fun _ => hstatus, by simp⟩
    · simp only [hdb]
      exact ⟨rfl, h, fun hw => (hdb hw).elim, by simp⟩
  | sync v =>
    obtain ⟨hok, hfaults, hstatus⟩ := updateRuntimeStatus_quiet new v x h (hpass trivial)
    obtain ⟨hsettings, -⟩ := updateRuntimeStatus_spec new v x v
    simp only [callback, handleStateChange]
    rcases hu : x.updateRuntimeStatus v new with ⟨e | u, y⟩
    · rw [hu] at hok
      cases hok
    · rw [hu] at hfaults hstatus hsettings
      by_cases hauto : y.AutoUnbinds new
      · simp only [hauto, if_true]
        obtain ⟨⟨b, hok'⟩, hfaults'⟩ := unbind_quiet v y hfaults
        obtain ⟨-, hsame, hlookup⟩ := unbind_spec v y v
        rcases hb : y.unbind v with ⟨e | b', z⟩
        · rw [hb] at hok'
          cases hok'
        · rw [hb] at hfaults' hsame hlookup
          refine ⟨rfl, hfaults', fun _ => hsame.trans hstatus, ?_⟩
          rintro w ⟨⟩ -
          rw [hlookup, if_pos rfl]
      · simp only [hauto, if_false]
        refine ⟨trivial, hfaults, fun _ => hstatus, ?_⟩
        rintro w ⟨⟩ hx
        exact (hauto ((hsettings.autoUnbinds new).mpr hx)).elim

def Sparing (x : World) (cbs : List Callback) (new : SessionState) (w : WorkerId) : Prop :=
  ∀ cb ∈ cbs.takeWhile fun cb => x.Passes cb, cb.worker = w →
    (x.Writes cb → runtimeStatusOf x.db w = some new) ∧
    (cb = .sync w → x.AutoUnbinds new → x.workerToSession.lookup w = none)

variable {new}

theorem Sparing.tail {cb : Callback} {cbs : List Callback} (h : x.Sparing (cb :: cbs) new w)
    (hpass : x.Passes cb) (hsettings : SameSettings x y) (hsame : Unaffected w x y) :
    y.Sparing cbs new w := by
  intro cb' hcb' hw
  simp only [hsettings.passes] at hcb'
  rw [hsettings.writes, hsettings.autoUnbinds, hsame.1, hsame.2]
  refine h cb' ?_ hw
  rw [List.takeWhile_cons_of_pos (by simpa using hpass)]
  exact List.mem_cons_of_mem _ hcb'

theorem Touches.unaffected {cb : Callback} (h : Touches x y new cb w)
    (hstatus : x.Passes cb → cb.worker = w → x.Writes cb → runtimeStatusOf x.db w = some new)
    (hbinding : x.Passes cb → cb = .sync w → x.AutoUnbinds new → x.workerToSession.lookup w = none) :
    Unaffected w x y := by
  refine ⟨?_, ?_⟩
  · rcases h.status with ⟨hpass, hwrites, hw, hs⟩ | hs
    · rw [hs, hstatus hpass hw hwrites]
    · exact hs
  · rcases h.binding with ⟨hpass, hw, hauto, hs⟩ | hs
    · rw [hs, hbinding hpass hw hauto]
    · exact hs

theorem Unaffected.trans {z : World} (h : Unaffected w x y) (h' : Unaffected w y z) :
    Unaffected w x z :=
  ⟨h'.1.trans h.1, h'.2.trans h.2⟩

theorem Sparing.unaffected {cbs : List Callback} (h : x.Sparing cbs new w) :
    Unaffected w x (runCallbacks new cbs x).2 := by
  induction cbs generalizing x with
  | nil => exact ⟨rfl, rfl⟩
  | cons cb cbs ih =>
    obtain ⟨htouches, herror⟩ := callback_touches new cb x w
    have hfirst : x.Passes cb → cb ∈ (cb :: cbs).takeWhile fun cb => x.Passes cb := by
      intro hpass
      rw [List.takeWhile_cons_of_pos (by simpa using hpass)]
      exact List.mem_cons_self
    have hhead : Unaffected w x (x.callback new cb).2 :=
      htouches.unaffected (fun hpass hw => (h cb (hfirst hpass) hw).1) fun hpass hw => by
        exact (h cb (hfirst hpass) (by rw [hw]; rfl)).2 hw
    simp only [runCallbacks]
    rcases hc : x.callback new cb with ⟨e | u, y⟩
    · rw [hc] at hhead
      exact hhead
    · rw [hc] at hhead htouches herror
      have hpass : x.Passes cb := by
        by_contra hn
        obtain ⟨e, he⟩ := herror hn
        cases he
      exact hhead.trans (ih (h.tail hpass htouches.settings hhead))

variable (new) in
/-- Once a status is written for `w`, or `w` is unbound, the callbacks that follow leave it so. -/
theorem runCallbacks_keeps (cbs : List Callback) (x : World) (w : WorkerId) :
    (runtimeStatusOf x.db w = some new → runtimeStatusOf (runCallbacks new cbs x).2.db w = some new) ∧
      (x.workerToSession.lookup w = none →
        (runCallbacks new cbs x).2.workerToSession.lookup w = none) := by
  induction cbs generalizing x with
  | nil => exact ⟨id, id⟩
  | cons cb cbs ih =>
    obtain ⟨⟨-, hstatus, hbinding⟩, -⟩ := callback_touches new cb x w
    have hs : runtimeStatusOf x.db w = some new →
        runtimeStatusOf (x.callback new cb).2.db w = some new := fun h =>
      hstatus.elim (fun hs => hs.2.2.2) fun hs => hs.trans h
    have hb : x.workerToSession.lookup w = none →
        (x.callback new cb).2.workerToSession.lookup w = none := fun h =>
      hbinding.elim (fun hb => hb.2.2.2) fun hb => hb.trans h
    simp only [runCallbacks]
    rcases hc : x.callback new cb with ⟨e | u, y⟩
    · rw [hc] at hs hb
      exact ⟨hs, hb⟩
    · rw [hc] at hs hb
      exact ⟨fun h => (ih y).1 (hs h), fun h => (ih y).2 (hb h)⟩

variable (new) in
theorem runCallbacks_quiet {cbs : List Callback} {x : World} (h : x.faults = []) {cb : Callback}
    (hcb : cb ∈ cbs.takeWhile fun cb => x.Passes cb) :
    (x.Writes cb → runtimeStatusOf (runCallbacks new cbs x).2.db cb.worker = some new) ∧
      ∀ w, cb = .sync w → x.AutoUnbinds new →
        (runCallbacks new cbs x).2.workerToSession.lookup w = none := by
  induction cbs generalizing x with
  | nil => cases hcb
  | cons c cbs ih =>
    have hpass : x.Passes c := by
      by_contra hn
      rw [List.takeWhile_cons_of_neg (by simpa using hn)] at hcb
      cases hcb
    obtain ⟨hok, hfaults, hstatus, hbinding⟩ := callback_quiet new h hpass
    obtain ⟨⟨hsettings, -, -⟩, -⟩ := callback_touches new c x cb.worker
    rw [List.takeWhile_cons_of_pos (by simpa using hpass)] at hcb
    simp only [runCallbacks]
    rcases hc : x.callback new c with ⟨e | u, y⟩
    · rw [hc] at hok
      cases hok
    · rw [hc] at hfaults hstatus hbinding hsettings
      dsimp only
      rcases List.mem_cons.mp hcb with rfl | hcb
      · exact ⟨fun hw => (runCallbacks_keeps new cbs y _).1 (hstatus hw),
          fun w hw hauto => (runCallbacks_keeps new cbs y w).2 (hbinding w hw hauto)⟩
      · have hrest := ih (x := y) hfaults (by simpa only [hsettings.passes] using hcb)
        rw [hsettings.writes, hsettings.autoUnbinds] at hrest
        exact hrest

/-- A state change that spares a worker leaves it as it is; one that does not would change it,
were it not for a failure of the database. -/
theorem Spares.unaffected {r : SessionRef} (h : x.Spares r new w) :
    Unaffected w x (x.setState r new).2 := by
  simp only [setState]
  split
  · exact ⟨rfl, rfl⟩
  · next hne =>
    have hsparing : (x.updateObject r { x.objects r with state := new }).Sparing
        (x.objects r).callbacks new w := h.resolve_left hne
    exact hsparing.unaffected

theorem spares_of_unaffected {r : SessionRef} (hfaults : x.faults = [])
    (h : Unaffected w x (x.setState r new).2) : x.Spares r new w := by
  by_cases hne : new = (x.objects r).state
  · exact .inl hne
  refine .inr fun cb hcb hw => ?_
  simp only [setState, hne, if_false] at h
  obtain ⟨hstatus, hbinding⟩ := runCallbacks_quiet new
    (x := x.updateObject r { x.objects r with state := new }) hfaults hcb
  refine ⟨fun hwrites => ?_, fun hsync hauto => ?_⟩
  · rw [← h.1, ← hw]
    exact hstatus hwrites
  · rw [← h.2]
    exact hbinding w hsync hauto

end World

def Held (held : WorkerId → SessionRef → Prop) (x : World) (w : WorkerId) (r : SessionRef) : Prop :=
  held w r ∨ x.getSessionForWorker w = some r

/-- No state change of a session has touched a worker that was bound to it and no longer is. -/
def IgnoresReplaced (held : WorkerId → SessionRef → Prop) : World → List Call → Prop
  | _, [] => True
  | x, c :: cs =>
    (∀ r new w, c.op = .setState r new → held w r → x.getSessionForWorker w ≠ some r →
      World.Unaffected w x (c.exec x)) ∧ IgnoresReplaced (Held held (c.exec x)) (c.exec x) cs

/-- Every state change of the run spares the workers that were bound to the session and no longer are. -/
def SparesReplaced (held : WorkerId → SessionRef → Prop) : World → List Call → Prop
  | _, [] => True
  | x, c :: cs =>
    (∀ r new w, c.op = .setState r new → held w r → x.getSessionForWorker w ≠ some r →
      x.Spares r new w) ∧ SparesReplaced (Held held (c.exec x)) (c.exec x) cs

open World

theorem ignoresReplaced_of_spares {held : WorkerId → SessionRef → Prop} {x : World} {calls : List Call}
    (h : SparesReplaced held x calls) : IgnoresReplaced held x calls := by
  induction calls generalizing held x with
  | nil => trivial
  | cons c cs ih =>
    refine ⟨fun r new w hop hheld hbound => ?_, ih h.2⟩
    have hspares : (c.enter x).Spares r new w := h.1 r new w hop hheld hbound
    have hunaffected := hspares.unaffected
    rw [Call.exec, hop]
    exact hunaffected

theorem sparesReplaced_of_ignores {held : WorkerId → SessionRef → Prop} {x : World} {calls : List Call}
    (hfaults : ∀ c ∈ calls, c.faults = []) (h : IgnoresReplaced held x calls) : SparesReplaced held x calls := by
  induction calls generalizing held x with
  | nil => trivial
  | cons c cs ih =>
    refine ⟨fun r new w hop hheld hbound => ?_, ih (fun c hc => hfaults c (List.mem_cons_of_mem _ hc)) h.2⟩
    have hquiet : (c.enter x).faults = [] := hfaults c List.mem_cons_self
    have hunaffected := h.1 r new w hop hheld hbound
    rw [Call.exec, hop] at hunaffected
    have hspares : (c.enter x).Spares r new w := spares_of_unaffected hquiet hunaffected
    exact hspares

def nobody : WorkerId → SessionRef → Prop := fun _ _ => False

def twoSessions : World :=
  World.start
    { budget := { workers := .single { id := "w", name := "w", role := "dev", managerId := none } } }
    true {} fun _ => .idle

def bindTo (session : SessionId) : Call :=
  { op := .bind { workerId := "w", sessionId := session, session := some session, now := 0 } }

/-- The old session comes to run when the new one runs already. -/
def quietReplacement : List Call :=
  [bindTo "old", { op := .unbind "w" }, bindTo "new", { op := .setState "new" .running },
   { op := .setState "old" .running }]

theorem eq_of_getSessionForWorker {x : World} {v w : WorkerId} {r : SessionRef} (hkeys : ∀ k ∈ x.workerToSession.keys, k = v)
    (h : x.getSessionForWorker w = some r) : w = v := by
  obtain ⟨b, hb, -⟩ := Option.map_eq_some_iff.1 h
  have hmem : w ∈ x.workerToSession := AList.lookup_isSome.1 (by rw [hb]; rfl)
  exact hkeys w (AList.mem_keys.1 hmem)

def lateCrash : List Call :=
  [bindTo "old", { op := .registerSession "old" "w" }, { op := .unbind "w" }, bindTo "new",
   { op := .setState "old" .crashed }]

end Quinn.Binding
