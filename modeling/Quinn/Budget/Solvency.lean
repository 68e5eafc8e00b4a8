import Mathlib.Tactic.Linarith
import Quinn.Budget.Ledger
import Quinn.Budget.Service

/-! No balance is overdrawn as long as each charge falls on the balance that was checked, which
has to bear what the trigger rounds. -/

namespace Quinn.Budget

open Store Store.Prog Arith
open Arith.Rounding (fl Representable unit)

namespace BudgetTransaction

variable {t : BudgetTransaction}

theorem abs_changes (h : t.reservedChange = 0) :
    |t.allocatedChange| + |t.spentChange| + |t.delegatedChange| = |t.amount| := by
  rcases t with ⟨_, _, _, _ | _ | _ | _ | _ | _ | _ | _, _⟩ <;>
    simp_all [reservedChange, allocatedChange, spentChange, delegatedChange]

theorem changes_of_credit (hres : t.reservedChange = 0) (h : 0 ≤ t.change .available) :
    0 ≤ t.allocatedChange ∧ t.spentChange ≤ 0 ∧ t.delegatedChange ≤ 0 := by
  rcases t with ⟨_, _, _, _ | _ | _ | _ | _ | _ | _ | _, _⟩ <;>
    simp_all [reservedChange, change, allocatedChange, spentChange, delegatedChange]

theorem whole_changes {x : ℤ} (h : t.amount = x) : ∃ a s r d : ℤ, t.allocatedChange = a ∧
    t.spentChange = s ∧ t.reservedChange = r ∧ t.delegatedChange = d ∧
      |a| + |s| + |r| + |d| = |x| := by
  rcases t with ⟨_, _, _, type, amount⟩
  obtain rfl : amount = x := h
  simp only [allocatedChange, spentChange, reservedChange, delegatedChange]
  cases type with
  | allocation | transferIn | adjustment => exact ⟨x, 0, 0, 0, by simp⟩
  | spend => exact ⟨0, |x|, 0, 0, by simp⟩
  | refund => exact ⟨0, -|x|, 0, 0, by simp⟩
  | reserve => exact ⟨0, 0, |x|, 0, by simp⟩
  | release => exact ⟨0, 0, -|x|, 0, by simp⟩
  | transferOut => exact ⟨0, 0, 0, |x|, by simp⟩

theorem representable_changes [Rounding] (h : Representable t.amount) :
    Representable t.allocatedChange ∧ Representable t.spentChange ∧
      Representable t.delegatedChange := by
  have habs := h.abs
  rcases t with ⟨_, _, _, _ | _ | _ | _ | _ | _ | _ | _, _⟩ <;>
    exact ⟨by first | exact h | exact Rounding.representable_zero,
      by first | exact habs | exact habs.neg | exact Rounding.representable_zero,
      by first | exact habs | exact Rounding.representable_zero⟩

end BudgetTransaction

/-- The credits allocated from a pool, nothing rounded. -/
def allocatedFrom (db : Db) (id : PoolId) : Credits :=
  ((db.budgetAllocations.rows.filter fun a => a.poolId = some id).map (·.allocatedCredits)).sum

def poolCount (db : Db) (id : PoolId) : ℕ :=
  (db.budgetAllocations.rows.filter fun a => a.poolId = some id).length

theorem allocatedFrom_insert {db : Db} {a : BudgetAllocation}
    (hnew : ¬db.budgetAllocations.Has (Row.key a)) (id : PoolId) :
    allocatedFrom { db with budgetAllocations := db.budgetAllocations.insert a hnew } id =
      allocatedFrom db id + if a.poolId = some id then a.allocatedCredits else 0 := by
  simp only [allocatedFrom, Table.insert, List.filter_append, List.map_append, List.sum_append,
    List.filter_singleton]
  by_cases hpool : a.poolId = some id <;> simp [hpool]

section

variable [Rounding]

namespace BudgetBalance

/-- What four roundings can make of the columns. -/
def rounding (b : BudgetBalance) : Credits :=
  ((1 + unit) ^ 4 - 1) * (|b.allocated| + |b.spent| + |b.delegated|)

/-- The arithmetic has these columns, and what is left of them is not rounded. -/
def HasColumns (a s r d : Credits) : Prop :=
  (Representable a ∧ Representable s ∧ Representable r ∧ Representable d) ∧
    remaining a s r d = a - s - r - d

instance (a s r d : Credits) : Decidable (HasColumns a s r d) :=
  inferInstanceAs (Decidable (_ ∧ _))

/-- Neither what is left in the row nor the sums that the transaction asks for are rounded. -/
def Exact (b : BudgetBalance) (t : BudgetTransaction) : Prop :=
  b.available = b.allocated - b.spent - b.reserved - b.delegated ∧
    HasColumns (b.allocated + t.allocatedChange) (b.spent + t.spentChange)
      (b.reserved + t.reservedChange) (b.delegated + t.delegatedChange)

instance (b : BudgetBalance) (t : BudgetTransaction) : Decidable (b.Exact t) :=
  inferInstanceAs (Decidable (_ ∧ _))

theorem Exact.onTransaction_eq {b : BudgetBalance} {t : BudgetTransaction} (h : b.Exact t) :
    b.onTransaction t = @onTransaction Rounding.exact b t := by
  obtain ⟨-, ⟨ha, hs, hr, hd⟩, hleft⟩ := h
  rw [Representable] at ha hs hr hd
  simp only [onTransaction, ha, hs, hr, hd, hleft, Rounding.exact_fl, remaining_exact]

/-- A charge takes no more than is left, whatever is rounded. -/
def Bears (b : BudgetBalance) (t : BudgetTransaction) : Prop :=
  b.Exact t ∨ Representable t.amount ∧ |t.amount| + b.rounding ≤ b.available

instance (b : BudgetBalance) (t : BudgetTransaction) : Decidable (b.Bears t) :=
  inferInstanceAs (Decidable (_ ∨ _))

theorem remaining_of_whole {bound : ℤ} (hwhole : ∀ n : ℤ, |n| < bound → fl n = n) {a s r d : ℤ}
    (h : |a| + |s| + |r| + |d| < bound) : remaining a s r d = a - s - r - d := by
  have hr := abs_nonneg r
  have hd := abs_nonneg d
  have h₁ := hwhole (a - s) (by linarith [abs_sub a s])
  have h₂ := hwhole (a - s - r) (by linarith [abs_sub a s, abs_sub (a - s) r])
  have h₃ := hwhole (a - s - r - d) (by
    linarith [abs_sub a s, abs_sub (a - s) r, abs_sub (a - s - r) d])
  push_cast at h₁ h₂ h₃
  rw [remaining, h₁, h₂, h₃]

/-- Whole credits are booked exactly, as long as the arithmetic has their sums. -/
theorem exact_of_whole {b : BudgetBalance} {t : BudgetTransaction} {bound : ℤ} {a s r d x : ℤ}
    (hwhole : ∀ n : ℤ, |n| < bound → fl n = n) (hb : b.Balanced)
    (hrow : b.allocated = a ∧ b.spent = s ∧ b.reserved = r ∧ b.delegated = d) (hx : t.amount = x)
    (hsum : |a| + |s| + |r| + |d| + |x| < bound) : b.Exact t := by
  obtain ⟨ha, hs, hr, hd⟩ := hrow
  obtain ⟨a', s', r', d', ha', hs', hr', hd', hchange⟩ := BudgetTransaction.whole_changes hx
  have hcolumns : |a + a'| + |s + s'| + |r + r'| + |d + d'| < bound := by
    linarith [abs_add_le a a', abs_add_le s s', abs_add_le r r', abs_add_le d d']
  have ha₀ := abs_nonneg (a + a')
  have hs₀ := abs_nonneg (s + s')
  have hr₀ := abs_nonneg (r + r')
  have hd₀ := abs_nonneg (d + d')
  have hallocated := hwhole (a + a') (by linarith)
  have hspent := hwhole (s + s') (by linarith)
  have hreserved := hwhole (r + r') (by linarith)
  have hdelegated := hwhole (d + d') (by linarith)
  have hleft := remaining_of_whole hwhole hcolumns
  push_cast at hallocated hspent hreserved hdelegated hleft
  constructor
  · rw [Balanced, ha, hs, hr, hd, remaining_of_whole hwhole (by linarith [abs_nonneg x])] at hb
    rw [hb, ha, hs, hr, hd]
  · rw [ha, hs, hr, hd, ha', hs', hr', hd']
    exact ⟨⟨hallocated, hspent, hreserved, hdelegated⟩, hleft⟩

structure Solvent (b : BudgetBalance) : Prop where
  balanced : b.Balanced
  unreserved : b.reserved = 0
  allocated : Representable b.allocated
  spent : Representable b.spent
  delegated : Representable b.delegated
  covered : b.spent + b.delegated ≤ b.allocated

variable {b : BudgetBalance} {t : BudgetTransaction}

theorem Solvent.available_eq (h : b.Solvent) :
    b.available = fl (fl (b.allocated - b.spent) - b.delegated) := by
  have hb := h.balanced
  rwa [Balanced, remaining, h.unreserved, sub_zero, Rounding.fl_fl] at hb

theorem Solvent.nonneg (h : b.Solvent) : 0 ≤ b.available := by
  have hleft : b.delegated ≤ fl (b.allocated - b.spent) :=
    h.delegated.le_fl (by linarith [h.covered])
  rw [h.available_eq]
  exact Rounding.fl_nonneg (sub_nonneg.mpr hleft)

/-- The two subtractions of the balance are off by no more than this. -/
theorem Solvent.available_le (h : b.Solvent) : b.available ≤ b.allocated - b.spent - b.delegated +
    ((1 + unit) ^ 2 - 1) * (|b.allocated| + |b.spent| + |b.delegated|) := by
  have hunit := Rounding.unit_nonneg
  have hspent := Rounding.fl_sub h.allocated h.spent
  have hdelegated := Rounding.fl_sub (Rounding.representable_fl (b.allocated - b.spent)) h.delegated
  have habs := abs_sub b.allocated b.spent
  have hleft : |fl (b.allocated - b.spent) - b.delegated| ≤
      (1 + unit) * (|b.allocated| + |b.spent|) + |b.delegated| := by
    calc |fl (b.allocated - b.spent) - b.delegated|
        ≤ |fl (b.allocated - b.spent)| + |b.delegated| := abs_sub _ _
      _ ≤ |fl (b.allocated - b.spent) - (b.allocated - b.spent)| + |b.allocated - b.spent| +
            |b.delegated| := by
          linarith [abs_sub_abs_le_abs_sub (fl (b.allocated - b.spent)) (b.allocated - b.spent)]
      _ ≤ (1 + unit) * (|b.allocated| + |b.spent|) + |b.delegated| := by
          linarith [mul_le_mul_of_nonneg_left habs hunit]
  rw [h.available_eq]
  linarith [le_abs_self (fl (b.allocated - b.spent) - (b.allocated - b.spent)),
    le_abs_self (fl (fl (b.allocated - b.spent) - b.delegated) -
      (fl (b.allocated - b.spent) - b.delegated)),
    mul_le_mul_of_nonneg_left habs hunit, mul_le_mul_of_nonneg_left hleft hunit,
    mul_nonneg hunit (abs_nonneg b.delegated),
    mul_nonneg (mul_nonneg hunit hunit) (abs_nonneg b.delegated)]

/-- The row stays solvent if the columns that the trigger writes still cover one another. -/
theorem Solvent.onTransaction (h : b.Solvent) (hres : t.reservedChange = 0)
    (hcover : fl (b.spent + t.spentChange) + fl (b.delegated + t.delegatedChange) ≤
      fl (b.allocated + t.allocatedChange)) : (b.onTransaction t).Solvent where
  balanced := b.onTransaction_balanced t
  unreserved := by simp [BudgetBalance.onTransaction, h.unreserved, hres]
  allocated := Rounding.representable_fl _
  spent := Rounding.representable_fl _
  delegated := Rounding.representable_fl _
  covered := hcover

theorem Solvent.credit (h : b.Solvent) (hres : t.reservedChange = 0)
    (hcredit : 0 ≤ t.change .available) : (b.onTransaction t).Solvent := by
  obtain ⟨ha, hs, hd⟩ := BudgetTransaction.changes_of_credit hres hcredit
  refine h.onTransaction hres ?_
  have hspent : fl (b.spent + t.spentChange) ≤ b.spent := h.spent.fl_le (by linarith)
  have hdelegated : fl (b.delegated + t.delegatedChange) ≤ b.delegated :=
    h.delegated.fl_le (by linarith)
  have hallocated : b.allocated ≤ fl (b.allocated + t.allocatedChange) :=
    h.allocated.le_fl (by linarith)
  linarith [h.covered]

theorem Solvent.charge_exact (h : b.Solvent) (hres : t.reservedChange = 0)
    (hcover : 0 ≤ b.available + t.change .available) (hexact : b.Exact t) :
    (b.onTransaction t).Solvent := by
  obtain ⟨hb, ⟨hallocated, hspent, -, hdelegated⟩, -⟩ := hexact
  rw [Representable] at hallocated hspent hdelegated
  refine h.onTransaction hres ?_
  rw [BudgetTransaction.change_available_eq, hres] at hcover
  rw [hspent, hdelegated, hallocated]
  linarith [h.unreserved]

theorem Solvent.charge_rounded (h : b.Solvent) (hres : t.reservedChange = 0)
    (hamount : Representable t.amount) (hleft : |t.amount| + b.rounding ≤ b.available) :
    (b.onTransaction t).Solvent := by
  have hunit : 0 ≤ (unit : ℚ) := Rounding.unit_nonneg
  obtain ⟨ha, hs, hd⟩ := BudgetTransaction.representable_changes hamount
  have hsum := BudgetTransaction.abs_changes hres
  have hspent := (abs_le.mp (Rounding.fl_add b.spent t.spentChange h.spent hs)).2
  have hdelegated :=
    (abs_le.mp (Rounding.fl_add b.delegated t.delegatedChange h.delegated hd)).2
  have hallocated :=
    (abs_le.mp (Rounding.fl_add b.allocated t.allocatedChange h.allocated ha)).1
  have habs : |b.spent + t.spentChange| + |b.delegated + t.delegatedChange| +
      |b.allocated + t.allocatedChange| ≤
      |b.allocated| + |b.spent| + |b.delegated| + |t.amount| := by
    linarith [abs_add_le b.spent t.spentChange, abs_add_le b.delegated t.delegatedChange,
      abs_add_le b.allocated t.allocatedChange]
  have hmoved : t.spentChange + t.delegatedChange - t.allocatedChange ≤ |t.amount| := by
    linarith [le_abs_self t.spentChange, le_abs_self t.delegatedChange,
      neg_abs_le t.allocatedChange]
  have havailable := h.available_le
  refine h.onTransaction hres ?_
  rw [rounding] at hleft
  set total := |b.allocated| + |b.spent| + |b.delegated|
  have htotal : 0 ≤ total := by positivity
  have hcolumns : b.allocated - b.spent - b.delegated ≤ total := by
    linarith [le_abs_self b.allocated, neg_abs_le b.spent, neg_abs_le b.delegated]
  -- two roundings made the balance, which bounds the amount; one more makes the column charged
  have hx : |t.amount| ≤ (1 + unit) ^ 2 * total := by
    have : 0 ≤ ((1 + unit) ^ 4 - 1) * total :=
      mul_nonneg (sub_nonneg.mpr (one_le_pow₀ (by linarith))) htotal
    linarith
  have herror := mul_le_mul_of_nonneg_left (habs.trans (add_le_add_right hx total)) hunit
  have hslack : 0 ≤ (3 * unit ^ 2 + 3 * unit ^ 3 + unit ^ 4) * total :=
    mul_nonneg (by positivity) htotal
  linarith

theorem Solvent.charge (h : b.Solvent) (hres : t.reservedChange = 0)
    (hcover : 0 ≤ b.available + t.change .available) (hbears : b.Bears t) :
    (b.onTransaction t).Solvent := by
  rcases hbears with hexact | ⟨hamount, hleft⟩
  · exact h.charge_exact hres hcover hexact
  · exact h.charge_rounded hres hamount hleft

end BudgetBalance

theorem openingBalance_solvent (id : AllocationId) (w : WorkerId) (s e : Time) :
    (openingBalance id w 0 s e).Solvent := by
  constructor <;>
    simp [openingBalance, BudgetBalance.Balanced, remaining, Rounding.representable_zero]

/-- An allocation takes no more than the pool has left, whatever is rounded. -/
def BearsAllocation (db : Db) (p : BudgetPool) (amount : Credits) : Prop :=
  let left := fl (p.totalCredits - getPoolAllocatedTotal db p.id)
  (Representable p.totalCredits ∧ Representable amount) ∧
    (left = p.totalCredits - allocatedFrom db p.id ∨
      amount + ((1 + unit) ^ (poolCount db p.id + 1) - 1) * p.totalCredits ≤ left)

instance (db : Db) (p : BudgetPool) (amount : Credits) : Decidable (BearsAllocation db p amount) :=
  inferInstanceAs (Decidable (_ ∧ _))

/-- The pools and what is allocated from them. -/
structure WithinPools (db : Db) : Prop where
  poolRefs : ∀ a ∈ db.budgetAllocations.rows, ∀ p ∈ a.poolId, db.budgetPools.Has p
  amounts : ∀ a ∈ db.budgetAllocations.rows, a.poolId ≠ none →
    Representable a.allocatedCredits ∧ 0 ≤ a.allocatedCredits
  totals : ∀ p ∈ db.budgetPools.rows, allocatedFrom db p.id ≤ p.totalCredits

/-- The rows are solvent, and so are the pools where they count. -/
structure Solvent (pooled : Prop) (db : Db) : Prop where
  balances : ∀ b ∈ db.budgetBalances.rows, b.Solvent
  pools : pooled → WithinPools db

theorem solvent_empty (pooled : Prop) : Solvent pooled {} := by
  refine ⟨List.forall_mem_nil _, fun _ => ?_⟩
  constructor <;> simp

namespace WithinPools

variable {db : Db} {p : BudgetPool} {amount : Credits}

theorem allocatedFrom_nonneg (h : WithinPools db) (id : PoolId) : 0 ≤ allocatedFrom db id := by
  refine List.sum_nonneg fun x hx => ?_
  obtain ⟨a, ha, rfl⟩ := List.mem_map.mp hx
  simp only [List.mem_filter, decide_eq_true_eq] at ha
  exact (h.amounts a ha.1 (by simp [ha.2])).2

theorem allocatedFrom_eq_zero (h : WithinPools db) {id : PoolId} (hid : ¬db.budgetPools.Has id) :
    allocatedFrom db id = 0 := by
  refine List.sum_eq_zero fun x hx => ?_
  obtain ⟨a, ha, rfl⟩ := List.mem_map.mp hx
  simp only [List.mem_filter, decide_eq_true_eq] at ha
  exact absurd (h.poolRefs a ha.1 id ha.2) hid

/-- The sum that SQLite forms is no further off than its additions make it. -/
theorem allocatedFrom_le (h : WithinPools db) (id : PoolId) :
    allocatedFrom db id ≤ getPoolAllocatedTotal db id +
      ((1 + unit) ^ poolCount db id - 1) * allocatedFrom db id := by
  have hrows : ∀ x ∈ (db.budgetAllocations.rows.filter fun a => a.poolId = some id).map
      (·.allocatedCredits), fl x = x ∧ |x| = x := by
    intro x hx
    obtain ⟨a, ha, rfl⟩ := List.mem_map.mp hx
    simp only [List.mem_filter, decide_eq_true_eq] at ha
    have hamount := h.amounts a ha.1 (by simp [ha.2])
    exact ⟨hamount.1, abs_of_nonneg hamount.2⟩
  have herror := Rounding.accurate.error _ fun x hx => (hrows x hx).1
  rw [List.map_congr_left fun x hx => (hrows x hx).2, List.map_id', List.length_map] at herror
  have hle := (abs_le.mp herror).1
  rw [poolCount, allocatedFrom, getPoolAllocatedTotal]
  linarith

theorem add_le_of_bears (h : WithinPools db) (hp : p ∈ db.budgetPools.rows) (hpos : 0 < amount)
    (hcover : amount ≤ fl (p.totalCredits - getPoolAllocatedTotal db p.id))
    (hbears : BearsAllocation db p amount) : allocatedFrom db p.id + amount ≤ p.totalCredits := by
  have htotal := h.totals p hp
  obtain ⟨⟨hcredits, -⟩, hexact | hleft⟩ := hbears
  · linarith
  have hunit : 0 ≤ (unit : ℚ) := Rounding.unit_nonneg
  have hsum := h.allocatedFrom_le p.id
  have hnonneg := h.allocatedFrom_nonneg p.id
  set total := p.totalCredits
  set sum := getPoolAllocatedTotal db p.id
  set allocated := allocatedFrom db p.id
  rw [pow_succ] at hleft
  set power := (1 + unit) ^ poolCount db p.id
  have hpower : 0 ≤ power - 1 := sub_nonneg.mpr (one_le_pow₀ (by linarith))
  have hslack : 0 ≤ (power - 1) * (1 + unit) * (total - allocated) :=
    mul_nonneg (mul_nonneg hpower (by linarith)) (by linarith)
  have hmargin : 0 ≤ (power * (1 + unit) - 1) * total := by
    refine mul_nonneg ?_ (hnonneg.trans htotal)
    linarith [mul_nonneg hpower hunit]
  -- a positive amount within what is left shows that the sum is not above the total
  have hpositive : 0 ≤ total - sum := by
    by_contra hneg
    have : fl (total - sum) ≤ 0 := Rounding.representable_zero.fl_le (not_le.mp hneg).le
    linarith
  have hrounded : fl (total - sum) ≤ (1 + unit) * (total - sum) :=
    Rounding.fl_sub_le hcredits (Rounding.accurate.rounded _) hpositive
  have hscaled := mul_le_mul_of_nonneg_left hsum (by linarith : 0 ≤ 1 + unit)
  linarith [mul_nonneg hunit hnonneg]

end WithinPools

/-- A statement that a solvent store can take. -/
def Admissible (pooled : Prop) (db : Db) : Stmt → Prop
  | .insertWorker _ => True
  | .insertPool p => 0 ≤ p.totalCredits
  | .insertAllocation a => pooled → a.poolId ≠ none →
      (Representable a.allocatedCredits ∧ 0 ≤ a.allocatedCredits) ∧
        ∀ p ∈ db.budgetPools.rows, a.poolId = some p.id →
          allocatedFrom db p.id + a.allocatedCredits ≤ p.totalCredits
  | .insertBalance b => b.Solvent
  | .insertTransaction t => t.reservedChange = 0 ∧
      ∀ b ∈ db.budgetBalances.rows, b.allocationId = t.allocationId →
        0 ≤ t.change .available ∨ 0 ≤ b.available + t.change .available ∧ b.Bears t

variable {pooled : Prop} {db db' : Db}

theorem WithinPools.insertPool {p : BudgetPool} (h : WithinPools db) (hp : 0 ≤ p.totalCredits)
    (hnew : ¬db.budgetPools.Has (Row.key p)) :
    WithinPools { db with budgetPools := db.budgetPools.insert p hnew } := by
  refine ⟨fun a ha q hq => (Table.has_insert hnew).mpr (.inl (h.poolRefs a ha q hq)), h.amounts,
    fun q hq => ?_⟩
  rcases (Table.mem_insert hnew).mp hq with hq | rfl
  · exact h.totals q hq
  · calc allocatedFrom db q.id = 0 := h.allocatedFrom_eq_zero hnew
      _ ≤ q.totalCredits := hp

theorem WithinPools.insertAllocation {a : BudgetAllocation} (h : WithinPools db)
    (ha : Admissible True db (.insertAllocation a)) (hrefers : db.Refers a)
    (hnew : ¬db.budgetAllocations.Has (Row.key a)) :
    WithinPools { db with budgetAllocations := db.budgetAllocations.insert a hnew } := by
  refine ⟨fun a' ha' p hp => ?_, fun a' ha' hpool => ?_, fun p hp => ?_⟩
  · rcases (Table.mem_insert hnew).mp ha' with ha' | rfl
    · exact h.poolRefs a' ha' p hp
    · exact hrefers.2.2 p hp
  · rcases (Table.mem_insert hnew).mp ha' with ha' | rfl
    · exact h.amounts a' ha' hpool
    · exact (ha trivial hpool).1
  · rw [allocatedFrom_insert hnew]
    have htotal := h.totals p hp
    split
    · next hpool => exact (ha trivial (by simp [hpool])).2 p hp hpool
    · rwa [add_zero]

theorem Solvent.apply {w : Stmt} (h : Solvent pooled db) (hw : Admissible pooled db w)
    (happly : w.apply db = .ok db') : Solvent pooled db' := by
  cases w with
  | insertWorker w =>
    obtain ⟨_, _, _, rfl⟩ := Db.insertWorker_eq_ok.mp happly
    exact ⟨h.balances, fun hp => ⟨(h.pools hp).poolRefs, (h.pools hp).amounts, (h.pools hp).totals⟩⟩
  | insertPool p =>
    obtain ⟨hnew, rfl⟩ := Db.insertPool_eq_ok.mp happly
    exact ⟨h.balances, fun hp => (h.pools hp).insertPool hw hnew⟩
  | insertAllocation a =>
    obtain ⟨hnew, _, hrefers, rfl⟩ := Db.insertAllocation_eq_ok.mp happly
    exact ⟨h.balances, fun hp => (h.pools hp).insertAllocation (fun _ => hw hp) hrefers hnew⟩
  | insertBalance b =>
    obtain ⟨hnew, _, rfl⟩ := Db.insertBalance_eq_ok.mp happly
    refine ⟨fun b' hb' => ?_, fun hp => ?_⟩
    · rcases (Table.mem_insert hnew).mp hb' with hb' | rfl
      · exact h.balances b' hb'
      · exact hw
    · exact ⟨(h.pools hp).poolRefs, (h.pools hp).amounts, (h.pools hp).totals⟩
  | insertTransaction t =>
    obtain ⟨_, _, rfl⟩ := Db.insertTransaction_eq_ok.mp happly
    refine ⟨fun b' hb' => ?_, fun hp => ?_⟩
    · obtain ⟨b, hb, rfl⟩ := Db.mem_onTransaction.mp hb'
      split
      · next hid =>
        rcases hw.2 b hb hid with hcredit | ⟨hcover, hbears⟩
        · exact (h.balances b hb).credit hw.1 hcredit
        · exact (h.balances b hb).charge hw.1 hcover hbears
      · exact h.balances b hb
    · exact ⟨(h.pools hp).poolRefs, (h.pools hp).amounts, (h.pools hp).totals⟩

end

/-- Doubles have all whole numbers of 53 binary digits. -/
theorem BudgetBalance.exact_of_whole_doubles {sum : List ℚ → ℚ}
    {h : Accurate nearestDouble (2 ^ (-53 : ℤ)) sum} {b : BudgetBalance} {t : BudgetTransaction}
    {a s r d x : ℤ} (hb : @BudgetBalance.Balanced (binary64With sum h) b)
    (hrow : b.allocated = a ∧ b.spent = s ∧ b.reserved = r ∧ b.delegated = d) (hx : t.amount = x)
    (hsum : |a| + |s| + |r| + |d| + |x| < 2 ^ 53) : @BudgetBalance.Exact (binary64With sum h) b t :=
  let _ : Rounding := binary64With sum h
  BudgetBalance.exact_of_whole binary64With_fl_intCast hb hrow hx hsum

def PoolsGrow (db db' : Db) : Prop := ∀ p ∈ db.budgetPools.rows, p ∈ db'.budgetPools.rows

theorem PoolsGrow.refl (db : Db) : PoolsGrow db db := fun _ hp => hp

theorem PoolsGrow.trans {db db' db'' : Db} (h : PoolsGrow db db') (h' : PoolsGrow db' db'') :
    PoolsGrow db db'' := fun p hp => h' p (h p hp)

theorem poolsGrow_apply [Rounding] {db db' : Db} {w : Stmt} (happly : w.apply db = .ok db') :
    PoolsGrow db db' := by
  intro p hp
  cases w with
  | insertWorker w =>
    obtain ⟨_, _, _, rfl⟩ := Db.insertWorker_eq_ok.mp happly
    exact hp
  | insertPool q =>
    obtain ⟨hnew, rfl⟩ := Db.insertPool_eq_ok.mp happly
    exact (Table.mem_insert hnew).mpr (.inl hp)
  | insertAllocation a =>
    obtain ⟨_, _, _, rfl⟩ := Db.insertAllocation_eq_ok.mp happly
    exact hp
  | insertBalance b =>
    obtain ⟨_, _, rfl⟩ := Db.insertBalance_eq_ok.mp happly
    exact hp
  | insertTransaction t =>
    obtain ⟨_, _, rfl⟩ := Db.insertTransaction_eq_ok.mp happly
    exact hp

end Quinn.Budget
