import Quinn.Machine.Run
import Quinn.Machine.Window

/-! `notifications/dispatcher.py`: what is sent, and when nothing is.  Times are microseconds of the
naive clock. -/

namespace Quinn.Notifications

open Machine

inductive NotificationPriority
  | urgent | high | normal | low | info
  deriving DecidableEq

def NotificationPriority.value : NotificationPriority → Nat
  | urgent => 0
  | high => 1
  | normal => 2
  | low => 3
  | info => 4

inductive NotificationResult
  | success | failed | skipped
  deriving DecidableEq

structure BoardNotification where
  title : String
  message : String
  priority : NotificationPriority
  workerId : Option String := none

/-- A channel, with what it answers to one notification; `send` may raise. -/
structure NotificationChannel where
  name : String
  isAvailable : Bool := true
  send : Option NotificationResult := some .success
  deriving DecidableEq

def minute : ℤ := 60000000

def hour : ℤ := 60 * minute

def day : ℤ := 24 * hour

/-- `datetime.time` -/
structure TimeOfDay where
  micros : ℤ
  nonneg : 0 ≤ micros
  lt_day : micros < day
  deriving DecidableEq

namespace TimeOfDay

def of (now : ℤ) : TimeOfDay where
  micros := now % day
  nonneg := Int.emod_nonneg now (by decide)
  lt_day := Int.emod_lt_of_pos now (by decide)

def hm (h m : Fin 60) (hh : h < 24) : TimeOfDay where
  micros := h * hour + m * minute
  nonneg := by simp only [hour, minute]; omega
  lt_day := by simp only [day, hour, minute]; omega

instance : LE TimeOfDay := ⟨fun t t' => t.micros ≤ t'.micros⟩

instance : LT TimeOfDay := ⟨fun t t' => t.micros < t'.micros⟩

instance (t t' : TimeOfDay) : Decidable (t ≤ t') := inferInstanceAs (Decidable (_ ≤ _))

instance (t t' : TimeOfDay) : Decidable (t < t') := inferInstanceAs (Decidable (_ < _))

end TimeOfDay

structure Dispatcher where
  maxPerMinute : ℤ := 5
  maxPerHour : ℤ := 20
  quietHoursEnabled : Bool := false
  quietHoursStart : TimeOfDay := .hm 22 0 (by decide)
  quietHoursEnd : TimeOfDay := .hm 7 0 (by decide)
  /-- `_recent_notifications` -/
  recent : List ℤ := []

/-- A call, with what its three looks at the clock show and what the channels answer. -/
structure Dispatch where
  notification : BoardNotification
  channels : List NotificationChannel
  checkedAt : ℤ
  quietAt : ℤ
  sentAt : ℤ
  checked_le : checkedAt ≤ quietAt
  quiet_le : quietAt ≤ sentAt

abbrev Results := String → Option NotificationResult

inductive Outcome
  /-- nothing but the reason is in the results -/
  | skipped (reason : String)
  /-- with the channels that `send` was called on -/
  | sent (results : Results) (sentTo : List NotificationChannel)

def Outcome.IsSent : Outcome → Prop
  | skipped _ => False
  | sent _ _ => True

def Outcome.sentTo : Outcome → List NotificationChannel
  | skipped _ => []
  | sent _ channels => channels

instance : DecidablePred Outcome.IsSent
  | .skipped _ => inferInstanceAs (Decidable False)
  | .sent _ _ => inferInstanceAs (Decidable True)

namespace Dispatcher

variable (d : Dispatcher)

def checkRateLimit (now : ℤ) : Bool × Dispatcher :=
  let recent := d.recent.dropWhile (· < now - hour)
  let recentMinute := (recent.filter (now - minute < ·)).length
  let recentHour := recent.length
  (if d.maxPerMinute ≤ recentMinute then false
    else if d.maxPerHour ≤ recentHour then false
    else true,
   { d with recent })

def isQuietHours (now : ℤ) : Bool :=
  if !d.quietHoursEnabled then false
  else if d.quietHoursStart < d.quietHoursEnd then
    decide (d.quietHoursStart ≤ TimeOfDay.of now ∨ TimeOfDay.of now < d.quietHoursEnd)
  else decide (d.quietHoursStart ≤ TimeOfDay.of now ∧ TimeOfDay.of now < d.quietHoursEnd)

def sendAll : List NotificationChannel → Results × List NotificationChannel → Results × List NotificationChannel
  | [], done => done
  | c :: cs, (results, sentTo) =>
    if c.isAvailable then
      sendAll cs (Function.update results c.name (some (c.send.getD .failed)), sentTo ++ [c])
    else sendAll cs (Function.update results c.name (some .skipped), sentTo)

def dispatch (call : Dispatch) : Outcome × Dispatcher :=
  match d.checkRateLimit call.checkedAt with
  | (false, d) => (.skipped "rate_limited", d)
  | (true, d) =>
    if d.isQuietHours call.quietAt ∧ NotificationPriority.high.value < call.notification.priority.value then
      (.skipped "quiet_hours", d)
    else
      let (results, sentTo) := sendAll call.channels (fun _ => none, [])
      (.sent results sentTo, { d with recent := d.recent ++ [call.sentAt] })

end Dispatcher

/-- From `start` on around the clock until `stop`. -/
def InCircle (start stop t : TimeOfDay) : Prop :=
  (t.micros - start.micros) % day < (stop.micros - start.micros) % day

instance (start stop t : TimeOfDay) : Decidable (InCircle start stop t) := inferInstanceAs (Decidable (_ < _))

theorem not_inCircle_self (start t : TimeOfDay) : ¬InCircle start start t := by
  rw [InCircle, Int.sub_self, Int.zero_emod]
  exact (Int.emod_nonneg _ (by decide)).not_gt

structure History where
  dispatcher : Dispatcher
  sent : List ℤ := []
  /-- the last look at the clock -/
  clock : ℤ

namespace History

def outcome (h : History) (call : Dispatch) : Outcome := (h.dispatcher.dispatch call).1

def next (h : History) (call : Dispatch) : History where
  dispatcher := (h.dispatcher.dispatch call).2
  sent := if (h.outcome call).IsSent then h.sent ++ [call.sentAt] else h.sent
  clock := call.sentAt

def WithinLimits (h : History) (call : Dispatch) : Prop :=
  ((lastIn minute call.checkedAt h.sent).length : ℤ) < h.dispatcher.maxPerMinute ∧
    ((lastIn hour call.checkedAt h.sent).length : ℤ) < h.dispatcher.maxPerHour

instance (h : History) (call : Dispatch) : Decidable (h.WithinLimits call) := inferInstanceAs (Decidable (_ ∧ _))

end History

def Dispatcher.Mutes (d : Dispatcher) (call : Dispatch) : Prop :=
  d.quietHoursEnabled = true ∧ NotificationPriority.high.value < call.notification.priority.value

instance (d : Dispatcher) (call : Dispatch) : Decidable (d.Mutes call) := inferInstanceAs (Decidable (_ ∧ _))

/-- Nothing less urgent is sent in the quiet hours, and what breaks no rule is sent to every channel that
is available. -/
structure Policy (h : History) (call : Dispatch) : Prop where
  quiet : h.dispatcher.Mutes call →
    InCircle h.dispatcher.quietHoursStart h.dispatcher.quietHoursEnd (.of call.quietAt) → ¬(h.outcome call).IsSent
  sent : h.WithinLimits call →
    ¬(h.dispatcher.Mutes call ∧
      InCircle h.dispatcher.quietHoursStart h.dispatcher.quietHoursEnd (.of call.quietAt)) →
    (h.outcome call).IsSent ∧ ∀ c ∈ call.channels, c.isAvailable = true → c ∈ (h.outcome call).sentTo

/-- The looks at the clock come in order. -/
def InOrder (h : History) (calls : List Dispatch) : Prop :=
  Along History.next (fun h call => h.clock ≤ call.checkedAt) h calls

instance (h : History) (calls : List Dispatch) : Decidable (InOrder h calls) :=
  inferInstanceAs (Decidable (Along _ _ _ _))

structure KeepsPolicy (h : History) (calls : List Dispatch) : Prop where
  perMinute : AtMost h.dispatcher.maxPerMinute minute (run History.next h calls).sent
  perHour : AtMost h.dispatcher.maxPerHour hour (run History.next h calls).sent
  each : Along History.next Policy h calls

def History.start (d : Dispatcher) (now : ℤ) : History where
  dispatcher := { d with recent := [] }
  clock := now

namespace Dispatcher

variable (d : Dispatcher)

theorem isQuietHours_eq (now : ℤ) :
    d.isQuietHours now = true ↔ d.quietHoursEnabled = true ∧ d.quietHoursStart < d.quietHoursEnd := by
  unfold isQuietHours
  cases d.quietHoursEnabled with
  | false => simp
  | true =>
    simp only [Bool.not_true, Bool.false_eq_true, if_false, true_and]
    split
    · next hlt =>
      refine iff_of_true (decide_eq_true ?_) hlt
      obtain hle | hlt' := le_or_gt d.quietHoursStart.micros (TimeOfDay.of now).micros
      · exact .inl hle
      · exact .inr (hlt'.trans hlt)
    · next hge =>
      refine iff_of_false (fun h => ?_) hge
      obtain ⟨hle, hlt⟩ := of_decide_eq_true h
      exact hge (lt_of_le_of_lt (α := ℤ) hle hlt)

theorem sendAll_snd (channels : List NotificationChannel) (done : Results × List NotificationChannel) :
    (sendAll channels done).2 = done.2 ++ channels.filter (·.isAvailable) := by
  induction channels generalizing done with
  | nil => exact (List.append_nil _).symm
  | cons c channels ih =>
    rw [sendAll]
    split
    · next havailable => rw [ih, List.filter_cons_of_pos havailable, List.append_assoc, List.singleton_append]
    · next hnot => rw [ih, List.filter_cons_of_neg hnot]

end Dispatcher

namespace History

/-- An hour old or younger are as many as may be sent in an hour. -/
def HourFull (h : History) (call : Dispatch) : Prop :=
  h.dispatcher.maxPerHour ≤ ((h.sent.filter (call.checkedAt - hour ≤ ·)).length : ℤ)

instance (h : History) (call : Dispatch) : Decidable (h.HourFull call) := inferInstanceAs (Decidable (_ ≤ _))

/-- The dispatcher remembers what has been sent, except what was an hour old at its last look. -/
structure Sound (h : History) : Prop where
  recent : ∃ a ≤ h.clock - hour, h.dispatcher.recent = h.sent.filter (a ≤ ·)
  sorted : h.sent.Pairwise (· ≤ ·)
  le_clock : ∀ s ∈ h.sent, s ≤ h.clock

variable {h : History} {call : Dispatch}

theorem sound_start (d : Dispatcher) (now : ℤ) : (start d now).Sound :=
  ⟨⟨now - hour, le_rfl, rfl⟩, .nil, List.forall_mem_nil _⟩

theorem Sound.le (hs : h.Sound) (hclock : h.clock ≤ call.checkedAt) : ∀ s ∈ h.sent, s ≤ call.checkedAt :=
  fun s hmem => (hs.le_clock s hmem).trans hclock

theorem Sound.pruned (hs : h.Sound) (hclock : h.clock ≤ call.checkedAt) :
    h.dispatcher.recent.dropWhile (· < call.checkedAt - hour) = h.sent.filter (call.checkedAt - hour ≤ ·) := by
  obtain ⟨a, ha, hrecent⟩ := hs.recent
  rw [hrecent, dropWhile_lt_eq_filter (hs.sorted.filter _), List.filter_filter]
  refine List.filter_congr fun s _ => ?_
  rw [← Bool.decide_and, decide_eq_decide]
  omega

theorem Sound.inMinute (hs : h.Sound) (hclock : h.clock ≤ call.checkedAt) :
    (h.sent.filter (call.checkedAt - hour ≤ ·)).filter (call.checkedAt - minute < ·) =
      lastIn minute call.checkedAt h.sent := by
  rw [lastIn_eq_filter (hs.le hclock), List.filter_filter]
  refine List.filter_congr fun s _ => ?_
  rw [← Bool.decide_and, decide_eq_decide]
  simp only [hour, minute]
  omega

theorem Sound.checkRateLimit (hs : h.Sound) (hclock : h.clock ≤ call.checkedAt) :
    h.dispatcher.checkRateLimit call.checkedAt =
      (decide (((lastIn minute call.checkedAt h.sent).length : ℤ) < h.dispatcher.maxPerMinute ∧ ¬h.HourFull call),
        { h.dispatcher with recent := h.sent.filter (call.checkedAt - hour ≤ ·) }) := by
  simp only [Dispatcher.checkRateLimit, hs.pruned hclock, hs.inMinute hclock, HourFull]
  congr 1
  split_ifs with hminute hhour
  · exact (decide_eq_false fun h => hminute.not_gt h.1).symm
  · exact (decide_eq_false fun h => h.2 hhour).symm
  · exact (decide_eq_true ⟨not_le.1 hminute, hhour⟩).symm

theorem withinLimits_of_not_hourFull (hle : ∀ s ∈ h.sent, s ≤ call.checkedAt)
    (hminute : ((lastIn minute call.checkedAt h.sent).length : ℤ) < h.dispatcher.maxPerMinute)
    (hhour : ¬h.HourFull call) : h.WithinLimits call := by
  refine ⟨hminute, lt_of_le_of_lt ?_ (not_le.1 hhour)⟩
  rw [lastIn_eq_filter hle]
  refine Int.ofNat_le.2 (List.monotone_filter_right h.sent fun s hs => ?_).length_le
  rw [decide_eq_true_iff] at hs ⊢
  exact hs.le

def Silent (h : History) (call : Dispatch) : Prop :=
  h.dispatcher.Mutes call ∧ h.dispatcher.quietHoursStart < h.dispatcher.quietHoursEnd

instance (h : History) (call : Dispatch) : Decidable (h.Silent call) := inferInstanceAs (Decidable (_ ∧ _))

theorem Sound.dispatch (hs : h.Sound) (hclock : h.clock ≤ call.checkedAt) :
    h.dispatcher.dispatch call =
      if ((lastIn minute call.checkedAt h.sent).length : ℤ) < h.dispatcher.maxPerMinute ∧ ¬h.HourFull call then
        if h.Silent call then
          (.skipped "quiet_hours",
            { h.dispatcher with recent := h.sent.filter (call.checkedAt - hour ≤ ·) })
        else
          (.sent (Dispatcher.sendAll call.channels (fun _ => none, [])).1
            (call.channels.filter (·.isAvailable)),
            { h.dispatcher with recent := h.sent.filter (call.checkedAt - hour ≤ ·) ++ [call.sentAt] })
      else (.skipped "rate_limited",
        { h.dispatcher with recent := h.sent.filter (call.checkedAt - hour ≤ ·) }) := by
  have hquiet (recent : List ℤ) : (({ h.dispatcher with recent } : Dispatcher).isQuietHours call.quietAt = true ∧
      NotificationPriority.high.value < call.notification.priority.value) ↔ h.Silent call := by
    rw [Dispatcher.isQuietHours_eq, Silent, Dispatcher.Mutes, and_right_comm]
  rw [Dispatcher.dispatch, hs.checkRateLimit hclock]
  by_cases hfree : ((lastIn minute call.checkedAt h.sent).length : ℤ) < h.dispatcher.maxPerMinute ∧ ¬h.HourFull call
  · simp only [decide_eq_true hfree, hquiet, Dispatcher.sendAll_snd, List.nil_append, if_pos hfree]
  · simp only [decide_eq_false hfree, if_neg hfree]

theorem Sound.outcome (hs : h.Sound) (hclock : h.clock ≤ call.checkedAt) :
    ((h.outcome call).IsSent ↔ ((lastIn minute call.checkedAt h.sent).length : ℤ) < h.dispatcher.maxPerMinute ∧
      ¬h.HourFull call ∧ ¬h.Silent call) ∧
    ((h.outcome call).IsSent → (h.outcome call).sentTo = call.channels.filter (·.isAvailable)) := by
  rw [History.outcome, hs.dispatch hclock, ← and_assoc]
  split
  · next hfree =>
    split
    · next hsilent => exact ⟨iff_of_false id fun h => h.2 hsilent, False.elim⟩
    · next hloud => exact ⟨iff_of_true trivial ⟨hfree, hloud⟩, fun _ => rfl⟩
  · next hfull => exact ⟨iff_of_false id fun h => hfull h.1, False.elim⟩

theorem Sound.dispatcher_next (hs : h.Sound) (hclock : h.clock ≤ call.checkedAt) :
    ∃ recent, (h.next call).dispatcher = { h.dispatcher with recent } := by
  rw [History.next, hs.dispatch hclock]
  split_ifs <;> exact ⟨_, rfl⟩

theorem Sound.next (hs : h.Sound) (hclock : h.clock ≤ call.checkedAt) : (h.next call).Sound := by
  have hlater : call.checkedAt ≤ call.sentAt := call.checked_le.trans call.quiet_le
  have hle (s : ℤ) (hmem : s ∈ h.sent) : s ≤ call.sentAt := (hs.le hclock s hmem).trans hlater
  have hcut : call.checkedAt - hour ≤ call.sentAt - hour := Int.sub_le_sub_right hlater hour
  have hskip (recent : List ℤ) (hrecent : recent = h.sent.filter (call.checkedAt - hour ≤ ·)) :
      Sound ⟨{ h.dispatcher with recent }, h.sent, call.sentAt⟩ := ⟨⟨_, hcut, hrecent⟩, hs.sorted, hle⟩
  rw [History.next, History.outcome, hs.dispatch hclock]
  split
  · split
    · exact hskip _ rfl
    · refine ⟨⟨_, hcut, ?_⟩, ?_, ?_⟩
      · have hyoung : call.checkedAt - hour ≤ call.sentAt := hcut.trans (by simp only [hour, minute]; omega)
        have hkept : [call.sentAt].filter (call.checkedAt - hour ≤ ·) = [call.sentAt] :=
          List.filter_cons_of_pos (decide_eq_true hyoung)
        dsimp only
        rw [if_pos (show (Outcome.sent _ _).IsSent from trivial), List.filter_append, hkept]
      · refine List.pairwise_append.2 ⟨hs.sorted, List.pairwise_singleton _ _, ?_⟩
        simpa using hle
      · intro s hmem
        obtain hmem | rfl := by simpa [Outcome.IsSent] using hmem
        · exact hle s hmem
        · exact le_rfl
  · exact hskip _ rfl

/-- A dispatch within the limits: one that is not muted must not come exactly an hour after one that
counts still; one that is must come in the quiet hours if they end later in the day than they start, and
else outside of them. -/
def Fits (h : History) (call : Dispatch) : Prop :=
  h.WithinLimits call →
    if ¬h.dispatcher.Mutes call ∨ h.dispatcher.quietHoursStart = h.dispatcher.quietHoursEnd then ¬h.HourFull call
    else if h.dispatcher.quietHoursStart < h.dispatcher.quietHoursEnd then
      InCircle h.dispatcher.quietHoursStart h.dispatcher.quietHoursEnd (.of call.quietAt)
    else InCircle h.dispatcher.quietHoursStart h.dispatcher.quietHoursEnd (.of call.quietAt) ↔ h.HourFull call

instance (h : History) (call : Dispatch) : Decidable (h.Fits call) := by
  unfold Fits
  infer_instance

theorem Sound.policy_iff (hs : h.Sound) (hclock : h.clock ≤ call.checkedAt) : Policy h call ↔ h.Fits call := by
  obtain ⟨hsent, hto⟩ := hs.outcome hclock
  constructor
  · intro hpolicy hwithin
    split
    · next hnever =>
      have hfree : ¬(h.dispatcher.Mutes call ∧
          InCircle h.dispatcher.quietHoursStart h.dispatcher.quietHoursEnd (.of call.quietAt)) := by
        rintro ⟨hmutes, hcircle⟩
        rw [hnever.resolve_left (not_not_intro hmutes)] at hcircle
        exact not_inCircle_self _ _ hcircle
      exact (hsent.1 (hpolicy.sent hwithin hfree).1).2.1
    · next hmay =>
      have hmutes : h.dispatcher.Mutes call := not_not.1 fun hnot => hmay (.inl hnot)
      split
      · next hlt =>
        by_contra hcircle
        exact (hsent.1 (hpolicy.sent hwithin fun hin => hcircle hin.2).1).2.2 ⟨hmutes, hlt⟩
      · next hge =>
        constructor
        · intro hcircle
          by_contra hfull
          exact hpolicy.quiet hmutes hcircle (hsent.2 ⟨hwithin.1, hfull, fun hsilent => hge hsilent.2⟩)
        · intro hfull
          by_contra hcircle
          exact (hsent.1 (hpolicy.sent hwithin fun hin => hcircle hin.2).1).2.1 hfull
  · intro hfits
    constructor
    · intro hmutes hcircle his
      obtain ⟨hminute, hfull, hsilent⟩ := hsent.1 his
      have hne : h.dispatcher.quietHoursStart ≠ h.dispatcher.quietHoursEnd := by
        intro heq
        rw [heq] at hcircle
        exact not_inCircle_self _ _ hcircle
      have hrule := hfits (withinLimits_of_not_hourFull (hs.le hclock) hminute hfull)
      rw [if_neg (not_or.2 ⟨not_not_intro hmutes, hne⟩), if_neg fun hlt => hsilent ⟨hmutes, hlt⟩] at hrule
      exact hfull (hrule.1 hcircle)
    · intro hwithin hout
      have hloud : ¬h.HourFull call ∧ ¬h.Silent call := by
        have hrule := hfits hwithin
        split at hrule
        · next hnever =>
          refine ⟨hrule, fun hsilent => ?_⟩
          obtain hnot | heq := hnever
          · exact hnot hsilent.1
          · rw [Silent, heq] at hsilent
            exact Int.lt_irrefl _ hsilent.2
        · next hmay =>
          have hmutes : h.dispatcher.Mutes call := not_not.1 fun hnot => hmay (.inl hnot)
          split at hrule
          · exact (hout ⟨hmutes, hrule⟩).elim
          · next hge => exact ⟨fun hfull => hout ⟨hmutes, hrule.2 hfull⟩, fun hsilent => hge hsilent.2⟩
      have his := hsent.2 ⟨hwithin.1, hloud⟩
      refine ⟨his, fun c hc havailable => ?_⟩
      rw [hto his]
      exact List.mem_filter.2 ⟨hc, havailable⟩

theorem Sound.atMost_next (hs : h.Sound) (hclock : h.clock ≤ call.checkedAt)
    (hminute : AtMost h.dispatcher.maxPerMinute minute h.sent)
    (hhour : AtMost h.dispatcher.maxPerHour hour h.sent) :
    AtMost (h.next call).dispatcher.maxPerMinute minute (h.next call).sent ∧
      AtMost (h.next call).dispatcher.maxPerHour hour (h.next call).sent := by
  have hlater : call.checkedAt ≤ call.sentAt := call.checked_le.trans call.quiet_le
  obtain ⟨recent, hdispatcher⟩ := hs.dispatcher_next hclock
  rw [hdispatcher, History.next]
  dsimp only
  split
  · next hsent =>
    obtain ⟨hfew, hfull, -⟩ := (hs.outcome hclock).1.1 hsent
    have hwithin := withinLimits_of_not_hourFull (hs.le hclock) hfew hfull
    exact ⟨hminute.concat (hs.le hclock) hlater hwithin.1, hhour.concat (hs.le hclock) hlater hwithin.2⟩
  · exact ⟨hminute, hhour⟩

theorem Sound.limits (hs : h.Sound) {calls : List Dispatch} (hclock : InOrder h calls)
    (hminute : AtMost h.dispatcher.maxPerMinute minute h.sent)
    (hhour : AtMost h.dispatcher.maxPerHour hour h.sent) :
    AtMost h.dispatcher.maxPerMinute minute (run History.next h calls).sent ∧
      AtMost h.dispatcher.maxPerHour hour (run History.next h calls).sent := by
  induction calls generalizing h with
  | nil => exact ⟨hminute, hhour⟩
  | cons call calls ih =>
    obtain ⟨recent, hdispatcher⟩ := hs.dispatcher_next hclock.1
    obtain ⟨hminute', hhour'⟩ := hs.atMost_next hclock.1 hminute hhour
    have hrest := ih (hs.next hclock.1) hclock.2 hminute' hhour'
    rw [hdispatcher] at hrest
    exact hrest

end History

theorem keepsPolicy_iff (d : Dispatcher) (now : ℤ) (calls : List Dispatch) (hclock : InOrder (.start d now) calls) :
    KeepsPolicy (.start d now) calls ↔ Along History.next History.Fits (.start d now) calls := by
  have hs := History.sound_start d now
  have heach : Along History.next Policy (.start d now) calls ↔
      Along History.next History.Fits (.start d now) calls :=
    along_congr_under (I := History.Sound) (fun h call hs hclock => hs.policy_iff hclock)
      (fun h call hs hclock => hs.next hclock) hs hclock
  obtain ⟨hminute, hhour⟩ := hs.limits hclock atMost_nil atMost_nil
  exact ⟨fun h => heach.1 h.each, fun h => ⟨hminute, hhour, heach.2 h⟩⟩

/-- A call whose looks at the clock show the same. -/
def at_ (now : ℤ) (priority : NotificationPriority) : Dispatch where
  notification := { title := "Worker Update", message := "done", priority }
  channels := [{ name := "file_queue" }]
  checkedAt := now
  quietAt := now
  sentAt := now
  checked_le := le_rfl
  quiet_le := le_rfl

/-- Outside of the quiet hours. -/
theorem noon_keepsPolicy :
    KeepsPolicy (.start { quietHoursEnabled := true } 0) [at_ (12 * hour) .low, at_ (12 * hour) .urgent] :=
  (keepsPolicy_iff _ _ _ (by decide)).2 (by decide)

/-- From ten in the evening to seven in the morning all shall be quiet, and an hour before midnight a
notification of LOW priority is sent. -/
theorem night_not_keepsPolicy : InOrder (.start { quietHoursEnabled := true } 0) [at_ (23 * hour) .low] ∧
    ¬KeepsPolicy (.start { quietHoursEnabled := true } 0) [at_ (23 * hour) .low] := by
  refine ⟨by decide, fun h => ?_⟩
  exact h.each.1.quiet (by decide) (by decide) (by decide)

end Quinn.Notifications
