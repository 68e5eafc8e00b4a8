import Quinn.Workers.Calls

/-! What the methods of a session come to, with the callbacks they call. -/

namespace Quinn.Workers

open Quinn.Object Quinn.Object.Terms Quinn.Runtime Quinn.Session

variable {T : Terms} {id : SessionId} {w : World}

def Terms.OnSession (T : Terms) (id : SessionId) (Q : α → World → Prop)
    (E : Session.Exc → World → Prop) : Method α → World → Prop
  | .ret a, w => Q a w
  | .raise e, w => E e w
  | .get k, w => T.OnSession id Q E (k (w.sessions id).interface) w
  | .put g k, w => T.change w (w.setInterface id g) ∧
      T.OnSession id Q E (k (w.sessions id).interface) (w.setInterface id g)
  | .ask (.callback h _ new) k, w =>
    T.Ensures (fun _ w' => T.OnSession id Q E (k (.ok {})) w')
      (fun e w' => T.OnSession id Q E (k (.error e.kind)) w') (onSessionStateChange h new) w
  | .ask q k, w => ∀ r, T.answer (.session id q) r → T.OnSession id Q E (k r) w

section rules

variable {Q : α → World → Prop} {E : Session.Exc → World → Prop}

@[simp] theorem onSession_ret (a : α) : T.OnSession id Q E (.ret a) w ↔ Q a w := Iff.rfl

@[simp] theorem onSession_raise (e : Session.Exc) :
    T.OnSession id Q E (.raise e : Method α) w ↔ E e w := Iff.rfl

theorem ensures_onSession {E : Exc → World → Prop} {m : Method α} :
    T.Ensures Q E (onSession id m) w ↔ T.OnSession id Q (fun e => E (.session e)) m w := by
  induction m generalizing w with
  | ret a => rfl
  | raise e => rfl
  | get k ih => exact ih _
  | put g k ih => exact and_congr_right fun _ => ih _
  | ask q k ih =>
    cases q with
    | callback h old new =>
      simp only [onSession, Terms.OnSession, ensures_bind, ensures_attempt, ih, Except.map,
        Except.mapError]
    | _ => exact forall₂_congr fun r _ => ih r

theorem onSession_mono {Q' : α → World → Prop} {E' : Session.Exc → World → Prop} {m : Method α}
    (h : T.OnSession id Q E m w) (hQ : ∀ a w, Q a w → Q' a w) (hE : ∀ e w, E e w → E' e w) :
    T.OnSession id Q' E' m w := by
  induction m generalizing w with
  | ret a => exact hQ a w h
  | raise e => exact hE e w h
  | get k ih => exact ih _ h
  | put g k ih => exact ⟨h.1, ih _ h.2⟩
  | ask q k ih =>
    cases q with
    | callback cb old new => exact Ensures.mono h (fun _ _ => ih _) fun _ _ => ih _
    | _ => exact fun r hr => ih r (h r hr)

theorem onSession_and {Q' : α → World → Prop} {E' : Session.Exc → World → Prop} {m : Method α}
    (h : T.OnSession id Q E m w) (h' : T.OnSession id Q' E' m w) :
    T.OnSession id (fun a w => Q a w ∧ Q' a w) (fun e w => E e w ∧ E' e w) m w := by
  induction m generalizing w with
  | ret a => exact ⟨h, h'⟩
  | raise e => exact ⟨h, h'⟩
  | get k ih => exact ih _ h h'
  | put g k ih => exact ⟨h.1, ih _ h.2 h'.2⟩
  | ask q k ih =>
    cases q with
    | callback cb old new =>
      exact (Ensures.and h h').mono (fun _ _ hw => ih _ hw.1 hw.2) fun _ _ hw => ih _ hw.1 hw.2
    | _ => exact fun r hr => ih r (h r hr) (h' r hr)

@[simp] theorem onSession_bind {Q : β → World → Prop} (m : Method α) (f : α → Method β) :
    T.OnSession id Q E (m.bind f) w ↔ T.OnSession id (fun a => T.OnSession id Q E (f a)) E m w := by
  induction m generalizing w with
  | ret a => rfl
  | raise e => rfl
  | get k ih => exact ih _
  | put g k ih => exact and_congr_right fun _ => ih _
  | ask q k ih =>
    cases q with
    | callback cb old new => simp only [Prog.bind, Terms.OnSession, ih]
    | _ => exact forall₂_congr fun r _ => ih r

@[simp] theorem onSession_handle (m : Method α) (f : Session.Exc → Method α) :
    T.OnSession id Q E (m.handle f) w ↔ T.OnSession id Q (fun e => T.OnSession id Q E (f e)) m w := by
  induction m generalizing w with
  | ret a => rfl
  | raise e => rfl
  | get k ih => exact ih _
  | put g k ih => exact and_congr_right fun _ => ih _
  | ask q k ih =>
    cases q with
    | callback cb old new => simp only [Prog.handle, Terms.OnSession, ih]
    | _ => exact forall₂_congr fun r _ => ih r

@[simp] theorem onSession_ensure (m : Method α) (fin : Method Unit) :
    T.OnSession id Q E (m.ensure fin) w ↔
      T.OnSession id (fun a => T.OnSession id (fun _ => Q a) E fin)
        (fun e => T.OnSession id (fun _ => E e) E fin) m w := by
  induction m generalizing w with
  | ret a => exact onSession_bind _ _
  | raise e => exact onSession_bind _ _
  | get k ih => exact ih _
  | put g k ih => exact and_congr_right fun _ => ih _
  | ask q k ih =>
    cases q with
    | callback cb old new => simp only [Prog.ensure, Terms.OnSession, ih]
    | _ => exact forall₂_congr fun r _ => ih r

@[simp] theorem onSession_read {Q : SessionInterface → World → Prop} :
    T.OnSession id Q E (.read : Method _) w ↔ Q (w.sessions id).interface w := Iff.rfl

@[simp] theorem onSession_raiseIf (c : Prop) [Decidable c] (e : Session.Exc) {Q : Unit → World → Prop} :
    T.OnSession id Q E (.raiseIf c e) w ↔ (c → E e w) ∧ (¬c → Q () w) := by
  by_cases hc : c <;> simp [Prog.raiseIf, hc]

def IsOutward : Session.Question → Prop
  | .callback _ _ _ => False
  | _ => True

theorem onSession_ask {q : Session.Question} (hq : IsOutward q) {Q : Answer → World → Prop} :
    T.OnSession id Q E (ask q) w ↔ (∀ a, T.answer (.session id q) (.ok a) → Q a w) ∧
      ∀ e, T.answer (.session id q) (.error e) → E (.outside e) w := by
  cases q with
  | callback cb old new => exact hq.elim
  | _ =>
    constructor
    · intro h
      exact ⟨fun a => h (.ok a), fun e => h (.error e)⟩
    · rintro ⟨hok, herror⟩ (e | a) hr
      · exact herror e hr
      · exact hok a hr

end rules

/-- The loop over the callbacks: `P` tells what is so while these are left to call. -/
theorem onSession_notify {P : List Callback → World → Prop} {E : Session.Exc → World → Prop}
    {old new : SessionState} (hcall : ∀ cb L w, P (cb :: L) w → T.Ensures (fun _ w' => P L w')
      (fun e w' => if (Session.Exc.outside e.kind).isSwallowed then P L w' else E (.outside e.kind) w')
      (onSessionStateChange cb new) w) {L : List Callback} {w : World} (hw : P L w) :
    T.OnSession id (fun _ w' => P [] w') E (notify old new L) w := by
  induction L generalizing w with
  | nil => exact hw
  | cons cb L ih =>
    refine (onSession_bind _ _).2 ((onSession_handle _ _).2 (Ensures.mono (hcall cb L w hw) (fun _ _ => ih)
      fun e w' hw' => ?_))
    simp only [onSession_raise]
    split
    · next hswallowed =>
      rw [if_pos hswallowed] at hw'
      exact ih hw'
    · next hswallowed =>
      rw [if_neg hswallowed] at hw'
      exact hw'

abbrev World.stateOf (w : World) (id : SessionId) : SessionState := (w.sessions id).interface.state

abbrev World.callbacksOf (w : World) (id : SessionId) : List Callback :=
  (w.sessions id).interface.stateCallbacks

@[simp] theorem World.stateOf_setInterface (w : World) (id : SessionId)
    (f : SessionInterface → SessionInterface) :
    (w.setInterface id f).stateOf id = (f (w.sessions id).interface).state := by simp [stateOf]

@[simp] theorem World.callbacksOf_setInterface (w : World) (id : SessionId)
    (f : SessionInterface → SessionInterface) :
    (w.setInterface id f).callbacksOf id = (f (w.sessions id).interface).stateCallbacks := by
  simp [callbacksOf]

/-- What a session may do without breaking `I`: change itself, but for its callbacks, and call
those about the state it has come to, if that is in `S`. -/
structure Withstands (T : Terms) (id : SessionId) (S : List SessionState) (I : World → Prop) : Prop where
  interface : ∀ w g, I w →
    (g (w.sessions id).interface).stateCallbacks = (w.sessions id).interface.stateCallbacks →
    T.change w (w.setInterface id g) ∧ I (w.setInterface id g)
  callback : ∀ w, I w → w.stateOf id ∈ S → ∀ cb ∈ w.callbacksOf id,
    T.Ensures (fun _ => I) (fun _ => I) (onSessionStateChange cb (w.stateOf id)) w

/-- `m` keeps `I`, whether it returns or raises. -/
def Terms.Keeps (T : Terms) (id : SessionId) (I : World → Prop) (m : Method α) : Prop :=
  ∀ w, I w → T.OnSession id (fun _ => I) (fun _ => I) m w

section keeps

variable {I : World → Prop} {S : List SessionState}

theorem keeps_ret (a : α) : T.Keeps id I (.ret a) := fun _ hw => hw

theorem keeps_raise (e : Session.Exc) : T.Keeps id I (.raise e : Method α) := fun _ hw => hw

theorem keeps_bind {m : Method α} {f : α → Method β} (hm : T.Keeps id I m) (hf : ∀ a, T.Keeps id I (f a)) :
    T.Keeps id I (m.bind f) := fun w hw =>
  (onSession_bind m f).2 (onSession_mono (hm w hw) (fun a => hf a) fun _ _ hw => hw)

theorem keeps_handle {m : Method α} {f : Session.Exc → Method α} (hm : T.Keeps id I m)
    (hf : ∀ e, T.Keeps id I (f e)) : T.Keeps id I (m.handle f) := fun w hw =>
  (onSession_handle m f).2 (onSession_mono (hm w hw) (fun _ _ hw => hw) fun e => hf e)

theorem keeps_ensure {m : Method α} {fin : Method Unit} (hm : T.Keeps id I m) (hfin : T.Keeps id I fin) :
    T.Keeps id I (m.ensure fin) := fun w hw =>
  (onSession_ensure m fin).2 (onSession_mono (hm w hw) (fun _ => hfin) fun _ => hfin)

theorem keeps_read : T.Keeps id I (.read : Method _) := fun _ hw => hw

theorem keeps_raiseIf (c : Prop) [Decidable c] (e : Session.Exc) : T.Keeps id I (.raiseIf c e) :=
  fun _ hw => (onSession_raiseIf c e).2 ⟨fun _ => hw, fun _ => hw⟩

theorem keeps_ask {q : Session.Question} (hq : IsOutward q) : T.Keeps id I (ask q) :=
  fun _ hw => (onSession_ask hq).2 ⟨fun _ _ => hw, fun _ _ => hw⟩

theorem keeps_validateStateTransition (new : SessionState) : T.Keeps id I (validateStateTransition new) :=
  keeps_bind keeps_read fun _ => keeps_raiseIf _ _

theorem keeps_allowStop : T.Keeps id I allowStop := by
  refine keeps_bind keeps_read fun s => ?_
  split
  · refine keeps_handle (keeps_validateStateTransition _) fun e => ?_
    split
    · exact keeps_ret _
    · exact keeps_raise e
  · exact keeps_ret _

theorem keeps_tearDown (force : Bool) : T.Keeps id I (tearDown force) := by
  refine keeps_bind keeps_read fun s => ?_
  split
  · exact keeps_bind (keeps_ask trivial) fun _ => keeps_bind (keeps_ask trivial) fun _ => keeps_ret _
  · exact keeps_bind (keeps_ask trivial) fun _ => keeps_ret _

def SameSessions (w w' : World) : Prop := w'.sessions = w.sessions

theorem puts_onSessionStateChange_sessions (cb : Callback) (new : SessionState) :
    (onSessionStateChange cb new).Puts SameSessions := by
  refine Prog.Puts.bind ((Prog.puts_request _ _).bind fun _ w => ⟨rfl, puts_answerOf _ _⟩) fun _ => ?_
  exact puts_setWorker fun _ => rfl

variable (hI : Withstands T id S I)

include hI

theorem keeps_notify {old new : SessionState} (hnew : new ∈ S) {L : List Callback} {w : World}
    (hw : I w) (hstate : w.stateOf id = new) (hL : L ⊆ w.callbacksOf id) :
    T.OnSession id (fun _ => I) (fun _ => I) (notify old new L) w := by
  let P (L : List Callback) (w : World) := I w ∧ w.stateOf id = new ∧ L ⊆ w.callbacksOf id
  refine onSession_mono (onSession_notify (P := P) (E := fun _ => I) (fun cb L w hP => ?_)
    ⟨hw, hstate, hL⟩) (fun _ _ hP => hP.1) fun _ _ hw => hw
  obtain ⟨hw, hstate, hL⟩ := hP
  have hcallback := (hI.callback w hw (hstate ▸ hnew) cb (hL List.mem_cons_self)).and_puts
    (fun _ _ hsame hs => hsame.trans hs) (puts_onSessionStateChange_sessions cb _) (rfl : _ = w.sessions)
  rw [hstate] at hcallback
  have hrest : ∀ w', I w' ∧ w'.sessions = w.sessions → P L w' := by
    rintro w' ⟨hw', hsessions⟩
    refine ⟨hw', ?_, ?_⟩
    · rw [World.stateOf, hsessions]
      exact hstate
    · rw [World.callbacksOf, hsessions]
      exact fun c hc => hL (List.mem_cons_of_mem _ hc)
  refine Ensures.mono hcallback (fun _ w' => hrest w') fun e w' hw' => ?_
  split
  · exact hrest w' hw'
  · exact hw'.1

theorem keeps_setState {new : SessionState} (hnew : new ∈ S) : T.Keeps id I (setState new) := by
  intro w hw
  obtain ⟨hchange, hw'⟩ := hI.interface w (·.withState new) hw (by simp)
  refine ⟨hchange, ?_⟩
  dsimp only
  split
  · exact hw'
  · refine keeps_notify hI hnew hw' ?_ ?_
    · rw [World.stateOf, World.interface_setInterface_self, SessionInterface.state_withState]
    · rw [World.callbacksOf, World.interface_setInterface_self,
        SessionInterface.stateCallbacks_withState]
      exact fun _ hc => hc

theorem keeps_startMonitor : T.Keeps id I startMonitor := by
  refine keeps_bind (keeps_ask trivial) fun a => keeps_bind (fun w hw => ?_) fun _ => ?_
  · exact hI.interface w _ hw rfl
  · refine keeps_bind keeps_read fun s => ?_
    split
    · exact keeps_bind (keeps_ask trivial) fun _ => keeps_ret _
    · exact keeps_ret _

theorem keeps_start (hS : [.starting, .running, .idle, .crashed] ⊆ S) : T.Keeps id I start := by
  have hset : ∀ new ∈ [SessionState.starting, .running, .idle, .crashed], T.Keeps id I (setState new) :=
    fun new hnew => keeps_setState hI (hS hnew)
  refine keeps_bind keeps_read fun s => keeps_bind (keeps_raiseIf _ _) fun _ => ?_
  refine keeps_bind (keeps_validateStateTransition _) fun _ => ?_
  refine keeps_bind (hset .starting (by decide)) fun _ => keeps_handle ?_ fun e => ?_
  · refine keeps_bind (keeps_ask trivial) fun _ => keeps_bind (keeps_validateStateTransition _) fun _ => ?_
    refine keeps_bind (hset .running (by decide)) fun _ => keeps_bind (keeps_startMonitor hI) fun _ => ?_
    refine keeps_bind (keeps_ask trivial) fun _ => keeps_bind (keeps_validateStateTransition _) fun _ => ?_
    exact hset .idle (by decide)
  · split
    · exact keeps_bind (hset .crashed (by decide)) fun _ => keeps_raise e
    · exact keeps_raise e

theorem keeps_stop (hS : .stopped ∈ S) (force : Bool) : T.Keeps id I (stop force) := by
  refine keeps_bind keeps_read fun s => ?_
  split
  · exact keeps_ret _
  · exact keeps_bind keeps_allowStop fun _ => keeps_ensure (keeps_tearDown force) (keeps_setState hI hS)

end keeps

section writes

variable (hT : T.Lenient) (hmirrors : T.Mirrors) {old new : SessionState} {x : WorkerId}

include hT

theorem ensures_onSessionStateChange {cb : Callback} {Q : Unit → World → Prop} {E : Exc → World → Prop}
    (hfail : ∀ e, T.answer (.database .updateWorkerRuntimeStatus) (.error e) → E (.outside e) w)
    (herror : ¬Known w.db cb.workerId → ∀ e, E (.db e) w)
    (hok : ∀ db', Turned cb.workerId new w.db db' →
      T.change w (w.withDb db') ∧ Q () ((w.withDb db').dropState cb)) :
    T.Ensures Q E (onSessionStateChange cb new) w := by
  refine (ensures_bind _ _).2 (ensures_updateWorkerRuntimeStatus hT hfail herror fun db' hdb => ?_)
  obtain ⟨hchange, hdone⟩ := hok db' hdb
  exact ⟨hchange, ensures_setWorker hT hdone⟩

omit hT in
theorem isSwallowed_db (e : Runtime.Exc) : (Session.Exc.outside (Exc.db e).kind).isSwallowed = false := by
  cases e <;> rfl

include hmirrors

theorem onSession_notify_status (hswallow : ∀ e,
      T.answer (.database .updateWorkerRuntimeStatus) (.error e) → (Session.Exc.outside e).isSwallowed = false)
    {L : List Callback} {w : World} (hstate : w.stateOf id = new) (hL : L ⊆ w.callbacksOf id)
    (hx : (∃ cb ∈ L, cb.workerId = x) ∨ runtimeStatusOf w.db x = some new) :
    T.OnSession id (fun _ w' => runtimeStatusOf w'.db x = some new ∧ w'.stateOf id = new) (fun _ _ => True)
      (notify old new L) w := by
  let P (L : List Callback) (w : World) := w.stateOf id = new ∧ L ⊆ w.callbacksOf id ∧
    ((∃ cb ∈ L, cb.workerId = x) ∨ runtimeStatusOf w.db x = some new)
  refine onSession_mono (onSession_notify (P := P) (E := fun _ _ => True) (fun cb L w hP => ?_)
    ⟨hstate, hL, hx⟩) (fun _ w hP => ⟨hP.2.2.resolve_left (by simp), hP.1⟩) fun _ _ hw => hw
  obtain ⟨hstate, hL, hx⟩ := hP
  refine ensures_onSessionStateChange hT (fun e he => ?_) (fun _ e => ?_) fun db' hdb => ?_
  · rw [Exc.kind, hswallow e he]
    trivial
  · rw [isSwallowed_db]
    trivial
  · rw [← hstate] at hdb
    refine ⟨hmirrors w id db' cb (hL List.mem_cons_self) hdb, hstate,
      fun c hc => hL (List.mem_cons_of_mem _ hc), ?_⟩
    rw [World.db_dropState, World.db_withDb, hdb.status, hstate]
    by_cases hcb : x = cb.workerId
    · exact .inr (if_pos hcb)
    · rw [if_neg hcb]
      refine hx.imp_left ?_
      rintro ⟨c, hc, hcx⟩
      rcases List.mem_cons.1 hc with rfl | hc
      · exact absurd hcx.symm hcb
      · exact ⟨c, hc, hcx⟩

theorem onSession_setState_status (hswallow : ∀ e,
      T.answer (.database .updateWorkerRuntimeStatus) (.error e) → (Session.Exc.outside e).isSwallowed = false)
    {w : World} (hx : (w.stateOf id ≠ new ∧ ∃ cb ∈ w.callbacksOf id, cb.workerId = x) ∨
      runtimeStatusOf w.db x = some new) :
    T.OnSession id (fun _ w' => runtimeStatusOf w'.db x = some new ∧ w'.stateOf id = new) (fun _ _ => True)
      (setState new) w := by
  refine ⟨hT _ _ fun _ => rfl, ?_⟩
  dsimp only
  split
  · next hsame => exact ⟨hx.resolve_left fun hne => hne.1 hsame.symm, by simp⟩
  · refine onSession_notify_status hT hmirrors hswallow (by simp) (by simp) (hx.imp_left fun hne => hne.2)

/-- The session has callbacks, all for the worker `x`, of whom a status can be written. -/
structure Wired (id : SessionId) (x : WorkerId) (w : World) : Prop where
  called : w.callbacksOf id ≠ []
  only : ∀ cb ∈ w.callbacksOf id, cb.workerId = x
  known : Known w.db x

structure Mirrored (id : SessionId) (x : WorkerId) (state : SessionState) (w : World) : Prop extends
    Wired id x w where
  inState : w.stateOf id = state
  status : runtimeStatusOf w.db x = some state

theorem onSession_setState_mirrors
    (hfaults : ∀ e, ¬T.answer (.database .updateWorkerRuntimeStatus) (.error e)) {w : World}
    (hw : Wired id x w) (hnew : w.stateOf id ≠ new) :
    T.OnSession id (fun _ w' => Mirrored id x new w') (fun _ _ => False) (setState new) w := by
  refine ⟨hT _ _ fun _ => rfl, ?_⟩
  dsimp only
  rw [if_neg (Ne.symm hnew)]
  let P (L : List Callback) (w' : World) := Wired id x w' ∧ w'.stateOf id = new ∧
    L ⊆ w'.callbacksOf id ∧ (L ≠ [] ∨ runtimeStatusOf w'.db x = some new)
  refine onSession_mono (onSession_notify (P := P) (E := fun _ _ => False) (fun cb L w' hP => ?_)
    (L := w.callbacksOf id) ⟨⟨?_, ?_, hw.known⟩, by simp, by simp, .inl hw.called⟩) ?_ fun _ _ hw => hw
  · obtain ⟨hw', hstate, hL, hx⟩ := hP
    have hcb := hw'.only cb (hL List.mem_cons_self)
    refine ensures_onSessionStateChange hT (fun e he => absurd he (hfaults e)) (fun hunknown => ?_)
      fun db' hdb => ?_
    · exact absurd hw'.known (hcb ▸ hunknown)
    · rw [← hstate] at hdb
      refine ⟨hmirrors w' id db' cb (hL List.mem_cons_self) hdb,
        ⟨hw'.called, hw'.only, (hdb.known x).2 hw'.known⟩, hstate,
        fun c hc => hL (List.mem_cons_of_mem _ hc), .inr ?_⟩
      rw [World.db_dropState, World.db_withDb, hdb.status, hstate, if_pos hcb.symm]
  · simpa using hw.called
  · simpa using hw.only
  · rintro _ w' ⟨hw', hstate, -, hx⟩
    exact ⟨hw', hstate, hx.resolve_left (by simp)⟩

theorem onSession_stop_status (hswallow : ∀ e,
      T.answer (.database .updateWorkerRuntimeStatus) (.error e) → (Session.Exc.outside e).isSwallowed = false)
    {force : Bool} {w : World} (hstate : w.stateOf id ≠ .stopped) (hx : ∃ cb ∈ w.callbacksOf id, cb.workerId = x) :
    T.OnSession id (fun _ w' => runtimeStatusOf w'.db x = some .stopped) (fun _ _ => True) (stop force) w := by
  refine (onSession_bind _ _).2 (onSession_read.2 ?_)
  rw [if_neg hstate]
  refine (onSession_bind _ _).2 (onSession_mono (keeps_allowStop (I := (· = w)) w rfl) ?_ fun _ _ _ => trivial)
  rintro _ w' rfl
  refine (onSession_ensure _ _).2 (onSession_mono (keeps_tearDown (I := (· = w')) force w' rfl) ?_ ?_)
  · rintro _ w' rfl
    exact onSession_mono (onSession_setState_status hT hmirrors hswallow (.inl ⟨hstate, hx⟩))
      (fun _ _ hw => hw.1) fun _ _ _ => trivial
  · rintro _ w' rfl
    exact onSession_mono (onSession_setState_status hT hmirrors hswallow (.inl ⟨hstate, hx⟩))
      (fun _ _ _ => trivial) fun _ _ _ => trivial

theorem withstands_callbacks (L : List Callback) (S : List SessionState) :
    Withstands T id S fun w => w.callbacksOf id = L where
  interface w g hw hcallbacks := by
    refine ⟨hT _ _ fun _ => rfl, ?_⟩
    rw [World.callbacksOf_setInterface, hcallbacks]
    exact hw
  callback w hw hstate cb hcb := by
    refine ensures_onSessionStateChange hT (fun _ _ => hw) (fun _ _ => hw) fun db' hdb => ?_
    exact ⟨hmirrors w id db' cb hcb hdb, hw⟩

theorem onSession_start_status (hswallow : ∀ e,
      T.answer (.database .updateWorkerRuntimeStatus) (.error e) → (Session.Exc.outside e).isSwallowed = false)
    {w : World} (hx : ∃ cb ∈ w.callbacksOf id, cb.workerId = x) :
    T.OnSession id (fun _ w' => runtimeStatusOf w'.db x = some .idle ∧ w'.stateOf id = .idle)
      (fun _ _ => True) start w := by
  let I (w' : World) := w'.callbacksOf id = w.callbacksOf id
  have hI : Withstands T id [.stopped, .starting, .idle, .running, .crashed] I :=
    withstands_callbacks hT hmirrors _ _
  have hset : ∀ new, T.Keeps id I (setState new) := fun new => keeps_setState hI (by cases new <;> decide)
  refine (onSession_bind _ _).2 (onSession_read.2 ((onSession_bind _ _).2 ((onSession_raiseIf _ _).2
    ⟨fun _ => trivial, fun _ => ?_⟩)))
  refine (onSession_bind _ _).2 (onSession_mono (keeps_validateStateTransition (I := I) _ w rfl)
    (fun _ w hw => ?_) fun _ _ _ => trivial)
  refine (onSession_bind _ _).2 (onSession_mono (hset _ w hw) (fun _ w hw => ?_) fun _ _ _ => trivial)
  refine (onSession_handle _ _).2 (onSession_mono (E := fun _ => I) ?_ (fun _ _ hw => hw) fun e w hw => ?_)
  · refine (onSession_bind _ _).2 (onSession_mono (keeps_ask (q := .spawnProcess) trivial w hw) (fun _ w hw => ?_)
      fun _ _ hw => hw)
    refine (onSession_bind _ _).2 (onSession_mono (keeps_validateStateTransition _ w hw) (fun _ w hw => ?_)
      fun _ _ hw => hw)
    refine (onSession_bind _ _).2 (onSession_mono (hset _ w hw) (fun _ w hw => ?_) fun _ _ hw => hw)
    refine (onSession_bind _ _).2 (onSession_mono (keeps_startMonitor hI w hw) (fun _ w hw => ?_)
      fun _ _ hw => hw)
    refine (onSession_bind _ _).2 (onSession_mono (keeps_ask (q := .waitForReady) trivial w hw) (fun _ w hw => ?_)
      fun _ _ hw => hw)
    refine (onSession_bind _ _).2 ((onSession_bind _ _).2 (onSession_read.2 ((onSession_raiseIf _ _).2
      ⟨fun _ => hw, fun hvalid => ?_⟩)))
    -- no state has an edge to itself
    have hne : w.stateOf id ≠ .idle := by
      intro hidle
      rw [World.stateOf] at hidle
      rw [hidle] at hvalid
      exact hvalid (by decide)
    have hw' : ∃ cb ∈ w.callbacksOf id, cb.workerId = x := by
      rw [hw]
      exact hx
    exact onSession_mono (onSession_and (onSession_setState_status hT hmirrors hswallow (.inl ⟨hne, hw'⟩))
      (hset _ w hw)) (fun _ _ hw => hw.1) fun _ _ hw => hw.2
  · split
    · exact (onSession_bind _ _).2 (onSession_mono (hset _ w hw) (fun _ _ _ => trivial) fun _ _ _ => trivial)
    · trivial

omit hT hmirrors in
theorem onSession_validateStateTransition {Q : Unit → World → Prop} {E : Session.Exc → World → Prop}
    {w : World} (hvalid : new ∈ sessionStateTransitions (w.stateOf id)) (hok : Q () w) :
    T.OnSession id Q E (validateStateTransition new) w :=
  (onSession_bind _ _).2 (onSession_read.2 ((onSession_raiseIf _ _).2
    ⟨fun hnot => absurd hvalid hnot, fun _ => hok⟩))

/-- What a method asks of its surroundings has failed with this. -/
def FailsWith (T : Terms) (id : SessionId) (e : Session.Exc) : Prop :=
  ∃ q e', T.answer (.session id q) (.error e') ∧ e = .outside e'

omit hT hmirrors in
theorem onSession_ask_failing {q : Session.Question} (hq : IsOutward q) {Q : Answer → World → Prop}
    {P : World → Prop} {w : World} (hok : ∀ a, Q a w) (hw : P w) :
    T.OnSession id Q (fun e w => FailsWith T id e ∧ P w) (ask q) w :=
  (onSession_ask hq).2 ⟨fun a _ => hok a, fun e he => ⟨⟨q, e, he, rfl⟩, hw⟩⟩

def ComingUp (id : SessionId) (x : WorkerId) (w : World) : Prop :=
  Mirrored id x .starting w ∨ Mirrored id x .running w

omit hmirrors in
theorem onSession_startMonitor_mirrors {w : World} (hw : Mirrored id x .running w) :
    T.OnSession id (fun _ w' => Mirrored id x .running w') (fun e w' => FailsWith T id e ∧ ComingUp id x w')
      startMonitor w := by
  refine (onSession_bind _ _).2 (onSession_ask_failing (q := .createStateMonitor) trivial (fun a => ?_) (.inr hw))
  have hw' : Mirrored id x .running (w.setInterface id fun s => { s with stateMonitor := a.monitor }) :=
    { called := by simpa using hw.called, only := by simpa using hw.only, known := hw.known
      inState := by simpa using hw.inState, status := hw.status }
  refine (onSession_bind _ _).2 ⟨hT _ _ fun _ => rfl, (onSession_bind _ _).2 (onSession_read.2 ?_)⟩
  split
  · exact (onSession_bind _ _).2 (onSession_ask_failing (q := .startMonitoring) trivial (fun _ => hw') (.inr hw'))
  · exact hw'

section faultless

variable (hfaults : ∀ e, ¬T.answer (.database .updateWorkerRuntimeStatus) (.error e))

include hfaults

theorem onSession_bringUp_mirrors {w : World} (hw : Mirrored id x .starting w) :
    T.OnSession id (fun _ w' => Mirrored id x .idle w') (fun e w' => FailsWith T id e ∧ ComingUp id x w')
      bringUp w := by
  refine (onSession_bind _ _).2 (onSession_ask_failing (q := .spawnProcess) trivial (fun _ => ?_) (.inl hw))
  refine (onSession_bind _ _).2 (onSession_validateStateTransition (by rw [hw.inState]; decide) ?_)
  refine (onSession_bind _ _).2 (onSession_mono (onSession_setState_mirrors hT hmirrors hfaults hw.toWired
    (by rw [hw.inState]; decide)) (fun _ w hw => ?_) fun _ _ hfalse => hfalse.elim)
  refine (onSession_bind _ _).2 (onSession_mono (onSession_startMonitor_mirrors hT hw)
    (fun _ w hw => ?_) fun _ _ hw => hw)
  refine (onSession_bind _ _).2 (onSession_ask_failing (q := .waitForReady) trivial (fun _ => ?_) (.inr hw))
  refine (onSession_bind _ _).2 (onSession_validateStateTransition (by rw [hw.inState]; decide) ?_)
  exact onSession_mono (onSession_setState_mirrors hT hmirrors hfaults hw.toWired
    (by rw [hw.inState]; decide)) (fun _ _ hw => hw) fun _ _ hfalse => hfalse.elim

/-- A start that returns leaves session and worker idle; one that raises leaves both crashed, unless
what it raises is no `Exception`. -/
theorem onSession_start_mirrors {w : World} (hw : Wired id x w)
    (hstate : w.stateOf id = .stopped ∨ w.stateOf id = .crashed) :
    T.OnSession id (fun _ w' => Mirrored id x .idle w') (fun e w' => FailsWith T id e ∧
      (Mirrored id x .crashed w' ∨ ComingUp id x w' ∧ e.isException = false)) start w := by
  have hvalid : w.stateOf id ∉ activeStates ∧ .starting ∈ sessionStateTransitions (w.stateOf id) := by
    rcases hstate with hstate | hstate <;> rw [hstate] <;> decide
  refine (onSession_bind _ _).2 (onSession_read.2 ((onSession_bind _ _).2 ((onSession_raiseIf _ _).2
    ⟨fun hactive => absurd hactive hvalid.1, fun _ => ?_⟩)))
  refine (onSession_bind _ _).2 (onSession_validateStateTransition hvalid.2 ?_)
  refine (onSession_bind _ _).2 (onSession_mono (onSession_setState_mirrors hT hmirrors hfaults hw ?_)
    (fun _ w hw => ?_) fun _ _ hfalse => hfalse.elim)
  · rcases hstate with hstate | hstate <;> rw [hstate] <;> decide
  refine (onSession_handle _ _).2 (onSession_mono (onSession_bringUp_mirrors hT hmirrors hfaults hw)
    (fun _ _ hw => hw) ?_)
  rintro e w' ⟨hfails, hup⟩
  split
  · have hwired : Wired id x w' ∧ w'.stateOf id ≠ .crashed := by
      rcases hup with hup | hup
      · exact ⟨hup.toWired, by rw [hup.inState]; decide⟩
      · exact ⟨hup.toWired, by rw [hup.inState]; decide⟩
    refine (onSession_bind _ _).2 (onSession_mono (onSession_setState_mirrors hT hmirrors hfaults hwired.1
      hwired.2) (fun _ w hw => ?_) fun _ _ hfalse => hfalse.elim)
    exact ⟨hfails, .inl hw⟩
  · next hexception => exact ⟨hfails, .inr ⟨hup, by simpa using hexception⟩⟩

end faultless

end writes

end Quinn.Workers
