import Quinn.Binding.Manager

/-! The two indices of the manager, as one pairing of workers and sessions. -/

namespace Quinn.Binding

open Store Index Quinn.Runtime

abbrev Pairing := WorkerId ≃. SessionId

namespace World

abbrev Holds (x : World) (f : Pairing) : Prop :=
  Indexes SessionBinding.workerId SessionBinding.sessionId x.workerToSession x.sessionToWorker f

variable {x : World} {f : Pairing}

theorem Holds.unique {g : Pairing} (hf : x.Holds f) (hg : x.Holds g) : f = g := by
  refine PEquiv.ext fun w => ?_
  rw [← hf.forward, hg.forward]

theorem write_snd (g : Db → Except SqlError Db) (x : World) :
    ∃ db, (x.write g).2 = { x with db, faults := x.faults.tail } := by
  unfold write
  split
  · exact ⟨x.db, rfl⟩
  · split
    · exact ⟨_, rfl⟩
    · exact ⟨x.db, rfl⟩

theorem Holds.write (h : x.Holds f) (g : Db → Except SqlError Db) : (x.write g).2.Holds f := by
  obtain ⟨db, hdb⟩ := write_snd g x
  rw [hdb]
  exact h

theorem Holds.persistBinding (h : x.Holds f) (b : SessionBinding) : (x.persistBinding b).2.Holds f := by
  unfold World.persistBinding updatePid
  split
  · exact h.write _
  · exact h

theorem Holds.removeBinding (h : x.Holds f) (w : WorkerId) : (x.removeBinding w).2.Holds f := by
  unfold World.removeBinding updatePid
  split
  · exact h.write _
  · exact h

theorem Holds.keepSession (h : x.Holds f) (a : BindArgs) : (x.keepSession a).Holds f := by
  unfold World.keepSession
  split <;> exact h

theorem removeBinding_snd (w : WorkerId) (x : World) :
    ∃ db faults, (x.removeBinding w).2 = { x with db, faults } := by
  unfold World.removeBinding updatePid
  split
  · obtain ⟨db, hdb⟩ := write_snd _ x
    exact ⟨db, _, hdb⟩
  · exact ⟨x.db, x.faults, rfl⟩

theorem unbind_of_lookup {w : WorkerId} {b : SessionBinding}
    (hb : x.workerToSession.lookup w = some b) :
    ∃ db faults, (x.unbind w).2 = { x.removeFromIndices b w with db, faults } := by
  obtain ⟨db, faults, hremoved⟩ := removeBinding_snd w (x.removeFromIndices b w)
  refine ⟨db, faults, ?_⟩
  rw [← hremoved]
  unfold World.unbind
  rw [hb]
  dsimp only
  split <;> simp_all

theorem Holds.unbind (h : x.Holds f) (w : WorkerId) : (x.unbind w).2.Holds (unlink f w) := by
  unfold World.unbind
  split
  · next hw =>
    rw [unlink_of_none (h.apply_eq_none hw)]
    exact h
  · next b hb =>
    have hremoved : (x.removeFromIndices b w).Holds (unlink f w) := h.unlink hb
    have hwritten := hremoved.removeBinding w
    split <;> simp_all

theorem config_unbind (w : WorkerId) (x : World) : (x.unbind w).2.config = x.config := by
  rcases hb : x.workerToSession.lookup w with _ | b
  · unfold World.unbind
    rw [hb]
  · obtain ⟨db, faults, hx⟩ := unbind_of_lookup hb
    rw [hx]
    rfl

theorem Holds.unbindSession (h : x.Holds f) (s : SessionId) :
    (x.unbindSession s).2.Holds (unlink f.symm s).symm := by
  unfold World.unbindSession
  split
  · next hs =>
    rw [h.backward] at hs
    rw [unlink_of_none hs]
    exact h
  · next w hw =>
    rw [h.backward, PEquiv.eq_some_iff] at hw
    rw [symm_unlink_symm hw]
    exact h.unbind w

def Conflicts (f : Pairing) (a : BindArgs) : Prop :=
  (∃ s ∈ f a.workerId, s ≠ a.sessionId) ∨ ∃ w ∈ f.symm a.sessionId, w ≠ a.workerId

/-- The database operation of a `bind` that gets to it goes through. -/
def Persists (x : World) (a : BindArgs) : Prop :=
  x.hasDb → x.workerToSession.lookup a.workerId = none →
    x.sessionToWorker.lookup a.sessionId = none → x.faults.head?.join = none

theorem persistBinding_ok {b : SessionBinding} :
    (x.persistBinding b).1 = .ok () ↔ (x.hasDb → x.faults.head?.join = none) := by
  unfold persistBinding updatePid write
  by_cases hdb : x.hasDb
  · cases x.faults.head?.join <;> simp [hdb]
  · simp [hdb]

theorem keepSession_eq (a : BindArgs) (x : World) :
    (x.keepSession a).hasDb = x.hasDb ∧ (x.keepSession a).faults = x.faults := by
  unfold keepSession
  split <;> exact ⟨rfl, rfl⟩

theorem createBinding_eq (a : BindArgs) (x : World) :
    x.createBinding a =
      ((((x.fileBinding a.binding).keepSession a).persistBinding a.binding).1.map fun _ => a.binding,
        (((x.fileBinding a.binding).keepSession a).persistBinding a.binding).2) := by
  unfold createBinding
  split <;> simp_all [Except.map]

theorem bind_of_conflict (h : x.Holds f) {a : BindArgs} (hc : Conflicts f a) :
    ∃ e, x.bind a = (.error e, x) := by
  unfold bind
  rcases hw : x.workerToSession.lookup a.workerId with _ | existing
  · rcases hc with ⟨s, hs, -⟩ | ⟨w, hs, hne⟩
    · rw [h.apply_eq_none hw] at hs
      cases hs
    · simp only [h.backward, Option.mem_def.mp hs, ne_eq, hne, not_false_iff, if_true]
      exact ⟨_, rfl⟩
  · have hf := h.apply_of_lookup hw
    have hne : existing.sessionId ≠ a.sessionId := by
      rintro heq
      rcases hc with ⟨s, hs, hne⟩ | ⟨w, hs, hne⟩
      · rw [hf] at hs
        cases hs
        exact hne heq
      · rw [Option.mem_def, PEquiv.eq_some_iff] at hs
        rw [heq] at hf
        exact hne (f.inj hs hf)
    simp only [ne_eq, hne, not_false_iff, if_true]
    exact ⟨_, rfl⟩

theorem bind_of_bound (h : x.Holds f) {a : BindArgs} (hf : f a.workerId = some a.sessionId) :
    ∃ b, x.bind a = (.ok b, x) := by
  unfold bind
  rcases hw : x.workerToSession.lookup a.workerId with _ | existing
  · rw [h.apply_eq_none hw] at hf
    cases hf
  · rw [h.apply_of_lookup hw, Option.some.injEq] at hf
    simp [hf]

/-- A `bind` of two that are free files them both, and raises only what the database raises. -/
theorem bind_of_free (h : x.Holds f) {a : BindArgs} (hw : f a.workerId = none)
    (hs : f.symm a.sessionId = none) :
    (x.bind a).2.Holds (link f a.workerId a.sessionId hw hs) ∧
      (x.Persists a ↔ ∃ b, (x.bind a).1 = .ok b) := by
  have hlw : x.workerToSession.lookup a.workerId = none := by
    have hforward := h.forward a.workerId
    rw [hw] at hforward
    exact Option.map_eq_none_iff.mp hforward
  have hls : x.sessionToWorker.lookup a.sessionId = none := (h.backward _).trans hs
  have hfiled : (x.fileBinding a.binding).Holds (link f a.workerId a.sessionId hw hs) :=
    h.link a.binding hw hs
  have hbind : x.bind a = x.createBinding a := by
    unfold bind
    rw [hlw, hls]
  rw [hbind, createBinding_eq]
  refine ⟨(hfiled.keepSession a).persistBinding a.binding, ?_⟩
  obtain ⟨hdb, hfaults⟩ := keepSession_eq a (x.fileBinding a.binding)
  have hok : x.Persists a ↔
      (((x.fileBinding a.binding).keepSession a).persistBinding a.binding).1 = .ok () := by
    rw [persistBinding_ok, hdb, hfaults]
    exact ⟨fun hp hd => hp hd hlw hls, fun hp hd _ _ => hp hd⟩
  rw [hok]
  rcases (((x.fileBinding a.binding).keepSession a).persistBinding a.binding).1 with e | u
  · simp [Except.map]
  · simp [Except.map]

/-- Where one list of pairings is left after some workers have been taken out. -/
def Without (P : WorkerId → Prop) (f g : Pairing) : Prop := ∀ w, g w = f w ∨ g w = none ∧ P w

theorem Without.refl (P : WorkerId → Prop) (f : Pairing) : Without P f f := fun _ => .inl rfl

theorem Without.trans {P : WorkerId → Prop} {f g k : Pairing} (hfg : Without P f g)
    (hgk : Without P g k) : Without P f k := by
  intro w
  rcases hgk w with hw | hw
  · rw [hw]
    exact hfg w
  · exact .inr hw

theorem Without.mono {P Q : WorkerId → Prop} {f g : Pairing} (h : Without P f g)
    (hPQ : ∀ w, P w → Q w) : Without Q f g :=
  fun w => (h w).imp id (And.imp id (hPQ w))

theorem without_unlink {P : WorkerId → Prop} {w : WorkerId} (hw : P w) (f : Pairing) :
    Without P f (unlink f w) := by
  intro w'
  rw [unlink_apply]
  by_cases hw' : w' = w
  · rw [if_pos hw', hw']
    exact .inr ⟨rfl, hw⟩
  · exact .inl (if_neg hw')

def StaleAmong (x : World) (alive : Pid → Bool) (l : List (WorkerId × SessionBinding)) (w : WorkerId) :
    Prop :=
  ∃ b, (w, b) ∈ l ∧ x.IsStale alive b

theorem Holds.after_unbind (h : x.Holds f) {w : WorkerId} {b : SessionBinding}
    (hb : x.workerToSession.lookup w = some b) (alive : Pid → Bool) {w' : WorkerId} (hne : w' ≠ w)
    {b' : SessionBinding} (hb' : x.workerToSession.lookup w' = some b') :
    (x.unbind w).2.workerToSession.lookup w' = some b' ∧
      ((x.unbind w).2.IsStale alive b' ↔ x.IsStale alive b') := by
  obtain ⟨db, faults, hx⟩ := unbind_of_lookup hb
  have hsession : b'.sessionId ≠ b.sessionId := by
    intro heq
    have hf := h.apply_of_lookup hb
    have hf' := h.apply_of_lookup hb'
    rw [heq] at hf'
    exact hne (f.inj hf' hf)
  rw [hx]
  refine ⟨(AList.lookup_erase_ne hne).trans hb', ?_⟩
  have hlookup : (x.sessions.erase b.sessionId).lookup b'.sessionId = x.sessions.lookup b'.sessionId :=
    AList.lookup_erase_ne hsession
  simp only [IsStale, removeFromIndices, hlookup]

theorem Holds.sweep (alive : Pid → Bool) (l : List (WorkerId × SessionBinding)) (v : Validation)
    (h : x.Holds f) (hnodup : (l.map Prod.fst).Nodup)
    (hl : ∀ p ∈ l, x.workerToSession.lookup p.1 = some p.2) :
    ∃ g, (sweep alive l v x).2.Holds g ∧ Without (x.StaleAmong alive l) f g ∧
      ∀ v', (sweep alive l v x).1 = .ok v' → ∀ w, x.StaleAmong alive l w → g w = none := by
  induction l generalizing x f v with
  | nil => exact ⟨f, h, Without.refl _ f, by simp [StaleAmong]⟩
  | cons p l ih =>
    obtain ⟨w, b⟩ := p
    rw [List.map_cons, List.nodup_cons] at hnodup
    have hb : x.workerToSession.lookup w = some b := hl _ List.mem_cons_self
    by_cases hstale : x.IsStale alive b
    · have hother : ∀ p ∈ l, p.1 ≠ w := by
        rintro p hp rfl
        exact hnodup.1 (List.mem_map.mpr ⟨p, hp, rfl⟩)
      have hlater : ∀ p ∈ l, (x.unbind w).2.workerToSession.lookup p.1 = some p.2 ∧
          ((x.unbind w).2.IsStale alive p.2 ↔ x.IsStale alive p.2) := fun p hp =>
        h.after_unbind hb alive (hother p hp) (hl p (List.mem_cons_of_mem _ hp))
      have hwithout : Without (x.StaleAmong alive ((w, b) :: l)) f (unlink f w) :=
        without_unlink ⟨b, List.mem_cons_self, hstale⟩ f
      have hunbound := h.unbind w
      simp only [World.sweep, hstale, if_true]
      rcases hu : x.unbind w with ⟨_ | u, x'⟩
      · rw [hu] at hunbound
        exact ⟨_, hunbound, hwithout, by simp⟩
      · rw [hu] at hunbound hlater
        obtain ⟨g, hg, hgw, hall⟩ := ih { v with stale := v.stale ++ [w] } hunbound hnodup.2
          fun p hp => (hlater p hp).1
        refine ⟨g, hg, hwithout.trans (hgw.mono ?_), fun v' hv' w' => ?_⟩
        · rintro w' ⟨b', hb', hs⟩
          exact ⟨b', List.mem_cons_of_mem _ hb', (hlater _ hb').2.mp hs⟩
        · rintro ⟨b', hb', hs⟩
          rcases List.mem_cons.mp hb' with heq | hb'
          · cases heq
            rcases hgw w with hw | hw
            · rw [hw, unlink_apply, if_pos rfl]
            · exact hw.1
          · exact hall v' hv' w' ⟨b', hb', (hlater _ hb').2.mpr hs⟩
    · simp only [World.sweep, hstale, if_false]
      obtain ⟨g, hg, hgw, hall⟩ := ih { v with valid := v.valid ++ [w] } h hnodup.2
        fun p hp => hl p (List.mem_cons_of_mem _ hp)
      refine ⟨g, hg, hgw.mono ?_, fun v' hv' w' => ?_⟩
      · rintro w' ⟨b', hb', hs⟩
        exact ⟨b', List.mem_cons_of_mem _ hb', hs⟩
      · rintro ⟨b', hb', hs⟩
        rcases List.mem_cons.mp hb' with heq | hb'
        · cases heq
          exact (hstale hs).elim
        · exact hall v' hv' w' ⟨b', hb', hs⟩

theorem dropOrphans_eq {l : List (SessionId × WorkerId)} (hl : ∀ p ∈ l, p.2 ∈ x.workerToSession)
    (v : Validation) : dropOrphans l v x = (v, x) := by
  induction l with
  | nil => rfl
  | cons p l ih =>
    obtain ⟨s, w⟩ := p
    rw [dropOrphans, if_pos (hl _ List.mem_cons_self)]
    exact ih fun p hp => hl p (List.mem_cons_of_mem _ hp)

theorem Holds.dropOrphans (h : x.Holds f) (v : Validation) :
    dropOrphans (items x.sessionToWorker) v x = (v, x) := by
  refine dropOrphans_eq (fun p hp => ?_) v
  obtain ⟨s, w⟩ := p
  have hs := mem_items.mp hp
  rw [h.backward, PEquiv.eq_some_iff, ← h.forward] at hs
  obtain ⟨b, hb, -⟩ := Option.map_eq_some_iff.mp hs
  exact AList.lookup_isSome.mp (by rw [hb]; rfl)

theorem nodup_items {κ α : Type} (d : Dict κ α) : ((items d).map Prod.fst).Nodup := by
  have hkeys : (items d).map Prod.fst = d.keys.reverse := by
    simp [items, AList.keys, List.keys, Function.comp_def]
  rw [hkeys, List.nodup_reverse]
  exact d.keys_nodup

def Stale (x : World) (alive : Pid → Bool) (w : WorkerId) : Prop :=
  ∃ b ∈ x.workerToSession.lookup w, x.IsStale alive b

theorem Holds.validateBindings (h : x.Holds f) (alive : Pid → Bool) :
    ∃ g, (x.validateBindings alive).2.Holds g ∧ Without (x.Stale alive) f g ∧
      ∀ v, (x.validateBindings alive).1 = .ok v → ∀ w, x.Stale alive w → g w = none := by
  have hstale : ∀ w, x.StaleAmong alive (items x.workerToSession) w ↔ x.Stale alive w := by
    intro w
    simp only [StaleAmong, Stale, mem_items, Option.mem_def]
  obtain ⟨g, hg, hwithout, hall⟩ := h.sweep alive (items x.workerToSession) {} (nodup_items _)
    fun p hp => mem_items.mp hp
  unfold World.validateBindings
  rcases hs : World.sweep alive (items x.workerToSession) {} x with ⟨_ | v, x'⟩
  · rw [hs] at hg
    exact ⟨g, hg, hwithout.mono fun w => (hstale w).mp, by simp⟩
  · rw [hs] at hg hall
    refine ⟨g, ?_, hwithout.mono fun w => (hstale w).mp, fun _ _ w hw => ?_⟩
    · simp only [hg.dropOrphans]
      exact hg
    · exact hall v rfl w ((hstale w).mpr hw)

theorem config_write (g : Db → Except SqlError Db) (x : World) : (x.write g).2.config = x.config := by
  obtain ⟨db, hdb⟩ := write_snd g x
  rw [hdb]

theorem Holds.callback (h : x.Holds f) (new : SessionState) (cb : Callback) :
    (x.callback new cb).2.config = x.config ∧ ∃ g, (x.callback new cb).2.Holds g ∧
      Without (fun w => cb = .sync w ∧ x.AutoUnbinds new) f g := by
  cases cb with
  | binding w =>
    unfold World.callback updateRuntimeStatus
    by_cases hdb : x.hasDb
    · simp only [hdb, if_true]
      exact ⟨config_write _ x, f, h.write _, Without.refl _ f⟩
    · simp only [hdb]
      exact ⟨rfl, f, h, Without.refl _ f⟩
  | sync w =>
    have hconfig := config_write (withRuntimeStatus w new none) x
    have hwritten := h.write (withRuntimeStatus w new none)
    simp only [World.callback, handleStateChange, updateRuntimeStatus]
    rcases hw : x.write (withRuntimeStatus w new none) with ⟨e | u, y⟩
    · rw [hw] at hconfig hwritten
      exact ⟨hconfig, f, hwritten, Without.refl _ f⟩
    · rw [hw] at hconfig hwritten
      by_cases hauto : y.AutoUnbinds new
      · simp only [hauto, if_true]
        have hx : x.AutoUnbinds new := by
          unfold AutoUnbinds at hauto ⊢
          rw [← hconfig]
          exact hauto
        have hunbound := hwritten.unbind w
        have hcu := config_unbind w y
        rcases hu : y.unbind w with ⟨e | u', z⟩
        all_goals
          rw [hu] at hunbound hcu
          exact ⟨hcu.trans hconfig, _, hunbound, without_unlink ⟨rfl, hx⟩ f⟩
      · simp only [hauto, if_false]
        exact ⟨hconfig, f, hwritten, Without.refl _ f⟩

theorem Holds.runCallbacks (h : x.Holds f) (new : SessionState) (cbs : List Callback) :
    ∃ g, (World.runCallbacks new cbs x).2.Holds g ∧
      Without (fun w => .sync w ∈ cbs ∧ x.AutoUnbinds new) f g := by
  induction cbs generalizing x f with
  | nil => exact ⟨f, h, Without.refl _ f⟩
  | cons cb cbs ih =>
    obtain ⟨hconfig, g, hg, hfg⟩ := h.callback new cb
    have hfirst : Without (fun w => .sync w ∈ cb :: cbs ∧ x.AutoUnbinds new) f g :=
      hfg.mono fun w hw => ⟨by rw [hw.1]; exact List.mem_cons_self, hw.2⟩
    simp only [World.runCallbacks]
    rcases hc : x.callback new cb with ⟨e | u, y⟩
    · rw [hc] at hg
      exact ⟨g, hg, hfirst⟩
    · rw [hc] at hg hconfig
      obtain ⟨k, hk, hgk⟩ := ih hg
      refine ⟨k, hk, hfirst.trans (hgk.mono fun w hw => ⟨List.mem_cons_of_mem _ hw.1, ?_⟩)⟩
      have hauto := hw.2
      unfold AutoUnbinds at hauto ⊢
      rw [← hconfig]
      exact hauto

def AutoUnbound (x : World) (r : SessionRef) (new : SessionState) (w : WorkerId) : Prop :=
  .sync w ∈ (x.objects r).callbacks ∧ x.AutoUnbinds new

theorem Holds.setState (h : x.Holds f) (r : SessionRef) (new : SessionState) :
    ∃ g, (x.setState r new).2.Holds g ∧ Without (x.AutoUnbound r new) f g := by
  simp only [World.setState]
  split
  · exact ⟨f, h, Without.refl _ f⟩
  · have hset : (x.updateObject r { x.objects r with state := new }).Holds f := h
    exact hset.runCallbacks new _

end World

def Op.Rebinds (x : World) (f g : Pairing) : Op → Prop
  | .bind a =>
    match (x.bind a).1 with
    | .ok _ => ∀ w, g w = if w = a.workerId then some a.sessionId else f w
    | .error _ => g = f
  | .unbind w => g = unlink f w
  | .unbindSession s => g = (unlink f.symm s).symm
  | .validateBindings alive => World.Without (x.Stale alive) f g ∧
      ∀ v, (x.validateBindings alive).1 = .ok v → ∀ w, x.Stale alive w → g w = none
  | .registerSession _ _ => g = f
  | .setState r new => World.Without (x.AutoUnbound r new) f g

/-- A `bind` raises for a conflict and for nothing else, and then changes neither index. -/
def Op.RaisesOnConflict (x : World) (f : Pairing) : Op → Prop
  | .bind a => ((∃ e, (x.bind a).1 = .error e) ↔ World.Conflicts f a) ∧
      ((∃ e, (x.bind a).1 = .error e) →
        (x.bind a).2.workerToSession = x.workerToSession ∧
        (x.bind a).2.sessionToWorker = x.sessionToWorker)
  | _ => True

/-- In every state of the run the indices hold the pairs bound and no others, and every `bind`
raises as it should. -/
def Faithful : World → List Call → Prop
  | x, [] => ∃ f, x.Holds f
  | x, c :: cs =>
    (∃ f g, x.Holds f ∧ (c.exec x).Holds g ∧ c.op.Rebinds (c.enter x) f g ∧
      c.op.RaisesOnConflict (c.enter x) f) ∧ Faithful (c.exec x) cs

/-- Every `bind` of the run that gets to the database gets through to it. -/
def Persists : World → List Call → Prop
  | _, [] => True
  | x, c :: cs => (∀ a, c.op = .bind a → (c.enter x).Persists a) ∧ Persists (c.exec x) cs

open World

/-- A `bind` finds a conflict, or the pair bound already, or both free. -/
theorem bind_cases (f : Pairing) (a : BindArgs) :
    Conflicts f a ∨ f a.workerId = some a.sessionId ∨
      f a.workerId = none ∧ f.symm a.sessionId = none := by
  rcases hw : f a.workerId with _ | s
  · rcases hs : f.symm a.sessionId with _ | w
    · exact .inr (.inr ⟨rfl, rfl⟩)
    · refine .inl (.inr ⟨w, hs, ?_⟩)
      rintro rfl
      rw [PEquiv.eq_some_iff, hw] at hs
      cases hs
  · by_cases heq : s = a.sessionId
    · exact .inr (.inl (by rw [heq]))
    · exact .inl (.inl ⟨s, hw, heq⟩)

theorem not_conflicts_of_bound {f : Pairing} {a : BindArgs} (h : f a.workerId = some a.sessionId) :
    ¬Conflicts f a := by
  rintro (⟨s, hs, hne⟩ | ⟨w, hw, hne⟩)
  · rw [Option.mem_def, h] at hs
    cases hs
    exact hne rfl
  · rw [Option.mem_def, PEquiv.eq_some_iff] at hw
    exact hne (f.inj hw h)

theorem not_conflicts_of_free {f : Pairing} {a : BindArgs} (hw : f a.workerId = none)
    (hs : f.symm a.sessionId = none) : ¬Conflicts f a := by
  rintro (⟨s, h, -⟩ | ⟨w, h, -⟩)
  · rw [hw] at h
    cases h
  · rw [hs] at h
    cases h

theorem World.Holds.exec_bind {x : World} {f : Pairing} (h : x.Holds f) {a : BindArgs}
    (hp : x.Persists a) :
    ∃ g, (x.bind a).2.Holds g ∧ (Op.bind a).Rebinds x f g ∧ (Op.bind a).RaisesOnConflict x f := by
  rcases bind_cases f a with hc | hb | ⟨hw, hs⟩
  · obtain ⟨e, hbind⟩ := bind_of_conflict h hc
    refine ⟨f, ?_, ?_, ?_, ?_⟩
    · rw [hbind]
      exact h
    · simp only [Op.Rebinds, hbind]
    · exact ⟨fun _ => hc, fun _ => ⟨e, by rw [hbind]⟩⟩
    · rw [hbind]
      exact fun _ => ⟨rfl, rfl⟩
  · obtain ⟨b, hbind⟩ := bind_of_bound h hb
    refine ⟨f, ?_, ?_, ?_, ?_⟩
    · rw [hbind]
      exact h
    · simp only [Op.Rebinds, hbind]
      intro w
      split
      · next hw => rw [hw, hb]
      · rfl
    · refine ⟨fun ⟨e, he⟩ => ?_, fun hc => (not_conflicts_of_bound hb hc).elim⟩
      rw [hbind] at he
      cases he
    · rw [hbind]
      exact fun _ => ⟨rfl, rfl⟩
  · obtain ⟨hholds, hok⟩ := bind_of_free h hw hs
    obtain ⟨b, hbind⟩ := hok.mp hp
    refine ⟨_, hholds, ?_, ?_, ?_⟩
    · simp only [Op.Rebinds, hbind]
      exact link_apply
    · refine ⟨fun ⟨e, he⟩ => ?_, fun hc => (not_conflicts_of_free hw hs hc).elim⟩
      rw [hbind] at he
      cases he
    · rintro ⟨e, he⟩
      rw [hbind] at he
      cases he

theorem World.Holds.persists {x : World} {f : Pairing} (h : x.Holds f) {a : BindArgs}
    (hraises : (Op.bind a).RaisesOnConflict x f) : x.Persists a := by
  intro hdb hw hs
  have hf := h.apply_eq_none hw
  have hfs : f.symm a.sessionId = none := (h.backward _).symm.trans hs
  rcases hr : (x.bind a).1 with e | b
  · exact (not_conflicts_of_free hf hfs (hraises.1.mp ⟨e, hr⟩)).elim
  · exact (bind_of_free h hf hfs).2.mpr ⟨b, hr⟩ hdb hw hs

theorem World.Holds.exec {x : World} {f : Pairing} (h : x.Holds f) (op : Op)
    (hop : ∀ a, op = .bind a → x.Persists a) :
    ∃ g, (op.exec x).Holds g ∧ op.Rebinds x f g ∧ op.RaisesOnConflict x f := by
  cases op with
  | bind a => exact h.exec_bind (hop a rfl)
  | unbind w => exact ⟨_, h.unbind w, rfl, trivial⟩
  | unbindSession s => exact ⟨_, h.unbindSession s, rfl, trivial⟩
  | validateBindings alive =>
    obtain ⟨g, hg, hwithout, hall⟩ := h.validateBindings alive
    exact ⟨g, hg, ⟨hwithout, hall⟩, trivial⟩
  | registerSession r w => exact ⟨f, h, rfl, trivial⟩
  | setState r new =>
    obtain ⟨g, hg, hwithout⟩ := h.setState r new
    exact ⟨g, hg, hwithout, trivial⟩

/-- The pairs are the pairs bound, and `bind` raises on conflicts, through a run exactly when
no `bind` of it fails in the database. -/
theorem faithful_iff_of_holds {x : World} (h : ∃ f, x.Holds f) (calls : List Call) :
    Faithful x calls ↔ Persists x calls := by
  induction calls generalizing x with
  | nil => exact ⟨fun _ => trivial, fun _ => h⟩
  | cons c cs ih =>
    constructor
    · rintro ⟨⟨f, g, hf, hg, -, hraises⟩, hrest⟩
      refine ⟨fun a ha => ?_, (ih ⟨g, hg⟩).mp hrest⟩
      have henter : (c.enter x).Holds f := hf
      rw [ha] at hraises
      exact henter.persists hraises
    · rintro ⟨hpersists, hrest⟩
      obtain ⟨f, hf⟩ := h
      have henter : (c.enter x).Holds f := hf
      obtain ⟨g, hg, hrebinds, hraises⟩ := henter.exec c.op hpersists
      exact ⟨⟨f, g, hf, hg, hrebinds, hraises⟩, (ih ⟨g, hg⟩).mpr hrest⟩

theorem faithful_iff (db : Db) (hasDb : Bool) (config : StateSyncConfig)
    (states : SessionRef → SessionState) (calls : List Call) :
    Faithful (World.start db hasDb config states) calls ↔
      Persists (World.start db hasDb config states) calls :=
  faithful_iff_of_holds ⟨⊥, Indexes.empty⟩ calls

/-- A `bind` whose `UPDATE` of the pid fails. -/
def lockedBind : Call where
  op := .bind { workerId := "w", sessionId := "s", now := 0 }
  faults := [some .locked]

/-- It raises without a conflict, and the pair stays in both indices. -/
theorem lockedBind_not_faithful :
    ¬Faithful (World.start {} true {} fun _ => .stopped) [lockedBind] := by
  intro h
  obtain ⟨hpersists, -⟩ := (faithful_iff_of_holds ⟨⊥, Indexes.empty⟩ [lockedBind]).mp h
  have hfault := hpersists _ rfl rfl rfl rfl
  cases hfault

end Quinn.Binding
