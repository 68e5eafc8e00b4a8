import Quinn.Providers.Completion

/-! When a completed call has been charged for. -/

namespace Quinn.Providers

open Store Store.Prog Budget

variable {w : WorkerId} {c : Conn Budget.Db}

def ledger (db : Budget.Db) (w : WorkerId) : List BudgetTransaction :=
  db.budgetTransactions.rows.filter (·.workerId = w)

def available (db : Budget.Db) (w : WorkerId) (now fallbackNow : Time) : Option (AllocationId × Credits) :=
  match getWorkerBalance db w now with
  | some b => some (b.allocationId, b.available)
  | none =>
    (getCurrentAllocation db w fallbackNow).map fun a =>
      (a.id, a.allocatedCredits - a.spentCredits - a.reservedCredits)

theorem exec_availableBudget (w : WorkerId) (now fallbackNow : Time) (c : Conn Budget.Db) :
    (availableBudget w now fallbackNow).exec c =
      ((available c.view w now fallbackNow).elim (.error (.noBudgetAllocation w)) .ok, c) := by
  rw [available]
  cases h : getWorkerBalance c.view w now with
  | some b => exact exec_availableBudget_some h fallbackNow
  | none =>
    cases ha : getCurrentAllocation c.view w fallbackNow with
    | some a => exact exec_availableBudget_fallback h ha
    | none => exact exec_availableBudget_none h ha

def Insertable (db : Budget.Db) (w : WorkerId) (a : AllocationId) (id : TransactionId) : Prop :=
  ¬db.budgetTransactions.Has id ∧ db.budgetAllocations.Has a ∧ db.workers.Has w

/-- A positive amount that the budget covers, and a row that is accepted. -/
def Recordable (db : Budget.Db) (w : WorkerId) (a : AllocationId) (amount : Credits) (d : SpendDraws) : Prop :=
  0 < amount ∧ (∃ b ∈ available db w d.balanceNow d.fallbackNow, amount ≤ b.2) ∧
    Insertable db w a d.transactionId

variable {a : AllocationId} {amount : Credits} {d : SpendDraws}

theorem apply_spend_ok {t : BudgetTransaction} {db : Budget.Db} (h : Insertable db t.workerId t.allocationId t.id) :
    ∃ db', (Stmt.insertTransaction t).apply db = .ok db' ∧
      ledger db' t.workerId = ledger db t.workerId ++ [t] := by
  obtain ⟨hnew, hrefers⟩ := h
  have hok := Db.insertTransaction_eq_ok.2 ⟨hnew, hrefers, rfl⟩
  refine ⟨_, hok, ?_⟩
  simp [ledger, Table.insert]

theorem insertable_of_apply {t : BudgetTransaction} {db db' : Budget.Db}
    (h : (Stmt.insertTransaction t).apply db = .ok db') : Insertable db t.workerId t.allocationId t.id := by
  obtain ⟨hnew, hrefers, -⟩ := Db.insertTransaction_eq_ok.1 h
  exact ⟨hnew, hrefers⟩

theorem exec_recordSpend_ok (h : Recordable c.view w a amount d) :
    ∃ db, (recordSpend w a amount d).exec c = (.ok ⟨d.transactionId, a, w, .spend, -amount⟩, ⟨db, none⟩) ∧
      ledger db w = ledger c.view w ++ [⟨d.transactionId, a, w, .spend, -amount⟩] := by
  obtain ⟨hpos, ⟨b, hb, hcover⟩, hinsertable⟩ := h
  have havailable : (availableBudget w d.balanceNow d.fallbackNow).exec c = (.ok (b.1, b.2), c) := by
    rw [exec_availableBudget, hb]
    rfl
  obtain ⟨db, hdb, hledger⟩ := apply_spend_ok (t := ⟨d.transactionId, a, w, .spend, -amount⟩) hinsertable
  refine ⟨db, ?_, hledger⟩
  rw [exec_recordSpend a amount havailable, if_neg (not_le.2 hpos), abs_of_pos hpos, if_neg (not_lt.2 hcover),
    createBudgetTransaction_eq, exec_insertRow, hdb]

theorem exec_recordSpend_error (h : ¬Recordable c.view w a amount d) :
    ∃ e c', (recordSpend w a amount d).exec c = (.error e, c') ∧ c'.view = c.view := by
  cases hb : available c.view w d.balanceNow d.fallbackNow with
  | none =>
    have havailable : (availableBudget w d.balanceNow d.fallbackNow).exec c = (.error (.noBudgetAllocation w), c) := by
      rw [exec_availableBudget, hb]
      rfl
    rw [recordSpend, bind_eq, exec_raiseIf]
    split
    · exact ⟨_, c, rfl, rfl⟩
    · exact ⟨_, c, by rw [bind_eq, exec_bind, havailable], rfl⟩
  | some b =>
    have havailable : (availableBudget w d.balanceNow d.fallbackNow).exec c = (.ok (b.1, b.2), c) := by
      rw [exec_availableBudget, hb]
      rfl
    rw [exec_recordSpend a amount havailable]
    split_ifs with hpos hcover
    · exact ⟨_, c, rfl, rfl⟩
    · exact ⟨_, c, rfl, rfl⟩
    · rw [abs_of_pos (not_le.1 hpos)] at hcover ⊢
      rw [createBudgetTransaction_eq, exec_insertRow]
      cases happly : (Stmt.insertTransaction ⟨d.transactionId, a, w, .spend, -amount⟩).apply c.view with
      | error e => exact ⟨_, _, rfl, rfl⟩
      | ok db => exact absurd ⟨not_le.1 hpos, ⟨b, hb, not_lt.1 hcover⟩, insertable_of_apply happly⟩ h

theorem readOnly_getRemainingBudget (w : WorkerId) (now fallbackNow : Time) :
    (getRemainingBudget w now fallbackNow).ReadOnly := by
  refine (readOnly_select _).bind fun balance => ?_
  cases balance with
  | some b => trivial
  | none =>
    refine (readOnly_select _).bind fun alloc => ?_
    cases alloc with
    | none => trivial
    | some a => trivial

/-- The world that is left, whether something was raised or not. -/
def left : EStateM.Result CompletionError World α → World
  | .ok _ s => s
  | .error _ s => s

def Call.cost (x : Call) : Credits := x.provider.estimateCost x.model.id x.inputTokens x.outputTokens

/-- No call was completed; or one was, and the ledger has one transaction more, for what it costs. -/
def Accounted (c : Conn Budget.Db) (w : WorkerId) (after : World) : Prop :=
  after.completed = [] ∨
    ∃ x t, after.completed = [x] ∧ ledger after.conn.view w = ledger c.view w ++ [t] ∧
      t.type = .spend ∧ t.amount = -x.cost

/-- The provider, if it is asked, answers with a mapping; the model has the price of the tier for the
tokens used; and the spend can be recorded. -/
structure Chargeable (db : Budget.Db) (q : Request) (s : ProviderSelection) (a : AllocationId) (response : Response)
    (d : SpendDraws) : Prop where
  mapping : response.IsMapping
  price :
    let input := response.usage.inputTokens.getD q.estimatedInputTokens
    let output := response.usage.outputTokens.getD 0
    s.provider.estimateCost s.model.id input output = estimateCost s.tier input output
  recordable : Recordable db q.workerId a
    (estimateCost s.tier (response.usage.inputTokens.getD q.estimatedInputTokens) (response.usage.outputTokens.getD 0)) d

variable {r : Registry} {q : Request} {complete : Complete} {s : ProviderSelection}

theorem left_bind_error {α β : Type} {x : M α} {f : α → M β} {w w' : World} {e : CompletionError}
    (h : x w = .error e w') : left ((x >>= f) w) = w' := by
  simp only [Bind.bind, EStateM.bind, h, left]

theorem run_bind_ok {α β : Type} {x : M α} {f : α → M β} {w w' : World} {y : α} (h : x w = .ok y w') :
    (x >>= f) w = f y w' := by
  simp only [Bind.bind, EStateM.bind, h]

theorem exec_enforceBudget_ok {b : AllocationId × Credits} {now fallbackNow : Time}
    (hb : available c.view w now fallbackNow = some b) (h : amount ≤ b.2) :
    ∃ check, (enforceBudget w amount now fallbackNow).exec c = (.ok check, c) ∧ check.allocationId = b.1 := by
  have hread : (availableBudget w now fallbackNow).exec c = (.ok (b.1, b.2), c) := by
    rw [exec_availableBudget, hb]
    rfl
  obtain ⟨check, hcheck, -, hallocation, hallowed⟩ := exec_checkBudget_ok amount hread
  refine ⟨check, ?_, hallocation⟩
  simp [enforceBudget, exec_bind, hcheck, raiseIf, hallowed.2 h]

theorem exec_enforceBudget_error {now fallbackNow : Time}
    (h : ∀ b ∈ available c.view w now fallbackNow, ¬amount ≤ b.2) :
    ∃ e, (enforceBudget w amount now fallbackNow).exec c = (.error e, c) := by
  cases hb : available c.view w now fallbackNow with
  | none =>
    have havailable : (availableBudget w now fallbackNow).exec c = (.error (.noBudgetAllocation w), c) := by
      rw [exec_availableBudget, hb]
      rfl
    exact ⟨.noBudgetAllocation w, by simp only [enforceBudget, checkBudget, bind_eq, exec_bind, havailable]⟩
  | some b =>
    have hread : (availableBudget w now fallbackNow).exec c = (.ok (b.1, b.2), c) := by
      rw [exec_availableBudget, hb]
      rfl
    obtain ⟨check, hcheck, -, -, hallowed⟩ := exec_checkBudget_ok amount hread
    have hnot : check.allowed ≠ true := fun htrue => h b hb (hallowed.1 htrue)
    refine ⟨.budgetExhausted w amount check.available, ?_⟩
    simp [enforceBudget, exec_bind, hcheck, raiseIf, hnot]

def Approved (r : Registry) (q : Request) (d : CompletionDraws) (db : Budget.Db) (s : ProviderSelection)
    (a : AllocationId) : Prop :=
  q.select r = .ok s ∧
    ∃ b ∈ available db q.workerId d.balanceNow d.fallbackNow, b.1 = a ∧
      estimateCost s.tier q.estimatedInputTokens q.maxTokens ≤ b.2

/-- What is done once a provider has answered. -/
def settle (q : Request) (s : ProviderSelection) (a : AllocationId) (d : CompletionDraws) (response : Response) :
    M Completion := do
  let (usage, content) ← readResponse response
  let actualInput := usage.inputTokens.getD q.estimatedInputTokens
  let actualOutput := usage.outputTokens.getD 0
  let actualCost := estimateCost s.tier actualInput actualOutput
  let _ ← onDb (recordSpend q.workerId a actualCost d.spend)
  let budgetRemaining ← onDb (getRemainingBudget q.workerId d.remainingNow d.remainingFallbackNow)
  return { content, model := s.model.id, provider := s.provider.name,
           inputTokens := actualInput, outputTokens := actualOutput, cost := actualCost, budgetRemaining }

theorem completeWithBudget_eq (d : CompletionDraws) :
    completeWithBudget r q complete d = (do
      let s ← select (q.select r)
      let check ← onDb (enforceBudget q.workerId (estimateCost s.tier q.estimatedInputTokens q.maxTokens)
        d.balanceNow d.fallbackNow)
      let response ← call s.provider s.model q.estimatedInputTokens
        (complete s.provider s.model.id q.messages q.maxTokens)
      settle q s check.allocationId d response) := rfl

variable {cd : CompletionDraws} {x : Call} {response : Response}

theorem left_onDb_readOnly {α β : Type} {p : Budget.Prog α} (hp : p.ReadOnly) (f : α → M β)
    (hf : ∀ a w, left (f a w) = w) (w : World) : left ((onDb p >>= f) w) = w := by
  have hsame := hp.exec w.conn
  cases h : p.exec w.conn with
  | mk result c' =>
    rw [h] at hsame
    obtain rfl : c' = w.conn := hsame
    cases result with
    | ok a =>
      rw [run_bind_ok (onDb_ok h)]
      exact hf a w
    | error e => exact left_bind_error (onDb_error h)

theorem not_accounted_of_same {after : World} (hcompleted : after.completed ≠ [])
    (hview : after.conn.view = c.view) : ¬Accounted c w after := by
  rintro (hnone | ⟨x, t, -, hledger, -⟩)
  · exact hcompleted hnone
  · rw [hview] at hledger
    exact absurd hledger (by simp)

theorem accounted_settle (hx : x = ⟨s.provider, s.model, response.usage.inputTokens.getD q.estimatedInputTokens,
      response.usage.outputTokens.getD 0⟩) :
    Accounted c q.workerId (left (settle q s a cd response ⟨c, [x]⟩)) ↔
      Chargeable c.view q s a response cd.spend := by
  cases response with
  | completionResult content usage =>
    exact iff_of_false (not_accounted_of_same (List.cons_ne_nil _ _) rfl) fun h => h.mapping
  | mapping content usage =>
    by_cases hrecordable : Recordable c.view q.workerId a
        (estimateCost s.tier (usage.inputTokens.getD q.estimatedInputTokens) (usage.outputTokens.getD 0)) cd.spend
    · obtain ⟨db, hexec, hledger⟩ := exec_recordSpend_ok hrecordable
      have hleft : left (settle q s a cd (.mapping content usage) ⟨c, [x]⟩) = ⟨⟨db, none⟩, [x]⟩ := by
        rw [settle, run_bind_ok (readResponse_mapping content usage _)]
        dsimp only
        rw [run_bind_ok (onDb_ok hexec)]
        exact left_onDb_readOnly (readOnly_getRemainingBudget _ _ _) _ (fun _ _ => rfl) _
      rw [hleft]
      constructor
      · rintro (hnone | ⟨y, t, hy, hledger', -, hamount⟩)
        · cases hnone
        · cases hy
          have ht := List.append_cancel_left (hledger.symm.trans hledger')
          cases ht
          subst hx
          exact ⟨trivial, (neg_inj.1 hamount).symm, hrecordable⟩
      · intro h
        refine .inr ⟨x, _, rfl, hledger, rfl, ?_⟩
        rw [Call.cost, hx]
        exact congrArg Neg.neg h.price.symm
    · obtain ⟨e, c', hexec, hview⟩ := exec_recordSpend_error hrecordable
      have hleft : left (settle q s a cd (.mapping content usage) ⟨c, [x]⟩) = ⟨c', [x]⟩ := by
        rw [settle, run_bind_ok (readResponse_mapping content usage _)]
        dsimp only
        exact left_bind_error (onDb_error hexec)
      rw [hleft]
      exact iff_of_false (not_accounted_of_same (List.cons_ne_nil _ _) hview) fun h => hrecordable h.recordable

/-- Every completed call is charged for exactly when, if a provider is asked and answers, it answers with a
mapping, the model that served has the price of the tier that was asked for, and the cost is positive, still
covered and accepted. -/
theorem completed_accounted_iff (r : Registry) (q : Request) (complete : Complete) (d : CompletionDraws)
    (c : Conn Budget.Db) :
    Accounted c q.workerId (left (completeWithBudget r q complete d ⟨c, []⟩)) ↔
      ∀ s a response, Approved r q d c.view s a →
        complete s.provider s.model.id q.messages q.maxTokens = .ok response →
          Chargeable c.view q s a response d.spend := by
  rw [completeWithBudget_eq]
  cases hselect : q.select r with
  | error e =>
    rw [left_bind_error (select_error e _)]
    refine iff_of_true (.inl rfl) fun s a response happroved => ?_
    cases hselect.symm.trans happroved.1
  | ok s =>
    rw [run_bind_ok (select_ok s _)]
    by_cases hcovered : ∃ b ∈ available c.view q.workerId d.balanceNow d.fallbackNow,
        estimateCost s.tier q.estimatedInputTokens q.maxTokens ≤ b.2
    · obtain ⟨b, hb, hle⟩ := hcovered
      obtain ⟨check, hcheck, hallocation⟩ := exec_enforceBudget_ok hb hle
      rw [run_bind_ok (onDb_ok hcheck)]
      have happroved : ∀ s' a, Approved r q d c.view s' a ↔ s' = s ∧ a = b.1 := by
        intro s' a
        constructor
        · rintro ⟨hs, b', hb', rfl, -⟩
          cases hselect.symm.trans hs
          cases Option.mem_unique hb hb'
          exact ⟨rfl, rfl⟩
        · rintro ⟨rfl, rfl⟩
          exact ⟨hselect, b, hb, rfl, hle⟩
      cases hanswer : complete s.provider s.model.id q.messages q.maxTokens with
      | error e =>
        rw [left_bind_error (call_error _ _ _ e _)]
        refine iff_of_true (.inl rfl) fun s' a response hs hresponse => ?_
        obtain ⟨rfl, -⟩ := (happroved s' a).1 hs
        cases hanswer.symm.trans hresponse
      | ok response =>
        rw [run_bind_ok (call_ok _ _ _ response _)]
        refine (accounted_settle rfl).trans ?_
        rw [hallocation]
        constructor
        · intro h s' a response' hs hresponse
          obtain ⟨rfl, rfl⟩ := (happroved s' a).1 hs
          cases hanswer.symm.trans hresponse
          exact h
        · intro h
          exact h s b.1 response ((happroved s b.1).2 ⟨rfl, rfl⟩) hanswer
    · obtain ⟨e, hcheck⟩ := exec_enforceBudget_error fun b hb hle => hcovered ⟨b, hb, hle⟩
      rw [left_bind_error (onDb_error hcheck)]
      refine iff_of_true (.inl rfl) fun s' a response hs => ?_
      obtain ⟨hs, b, hb, -, hle⟩ := hs
      cases hselect.symm.trans hs
      exact absurd ⟨b, hb, hle⟩ hcovered

def fundedDb : Budget.Db where
  workers := .single { id := "w", name := "W", role := "dev", managerId := none }
  budgetAllocations := .single (newAllocation "w" 50 0 100 none (some "p") false none "A")
  budgetBalances := .single (openingBalance "A" "w" 50 0 100)

def haiku : Provider where
  name := "anthropic"
  models := [{ id := "claude-haiku", name := "Claude Haiku", tier := some .budget }]
  defaultCosts := [("claude-haiku", ⟨0.00025, 0.00125⟩)]

/-- A provider answers as it is declared to, and the answer cannot be read: nothing is recorded. -/
theorem completion_not_recorded :
    let answer : Complete := fun _ _ _ _ => .ok (.completionResult "Hello" ⟨some 1000, some 200⟩)
    let after := left (completeWithBudget (({} : Registry).register haiku) ⟨"w", 10, fun _ => none, ["Hi"], 4096, none⟩
      answer ⟨5, 5, ⟨5, 5, "t"⟩, 5, 5⟩ ⟨⟨fundedDb, none⟩, []⟩)
    after.completed.map Call.cost = [0.0005] ∧ ledger after.conn.view "w" = [] ∧
      ¬Accounted ⟨fundedDb, none⟩ "w" after := by
  intro answer after
  have hcompleted : after.completed.map Call.cost = [0.0005] := by decide +kernel
  refine ⟨hcompleted, by decide +kernel, not_accounted_of_same (fun hnone => ?_) (by decide +kernel)⟩
  rw [hnone] at hcompleted
  cases hcompleted

end Quinn.Providers
