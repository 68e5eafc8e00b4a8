import Mathlib.Data.List.Basic
import Mathlib.Data.List.Forall2

/-! Programs that check one thing after the other and stop at the first that fails.  Some failures
are meant, as the answer to what the program is given, and others are not. -/

namespace Quinn.Checks

variable {ε α β : Type}

structure Check where
  passes : Bool
  /-- to fail here is meant -/
  meant : Bool
  deriving DecidableEq

def firstFailing (cs : List Check) : Option Check := cs.find? (!·.passes)

def Orderly (cs : List Check) : Prop := ∀ c ∈ firstFailing cs, c.meant = true

instance (cs : List Check) : Decidable (Orderly cs) := inferInstanceAs (Decidable (∀ c ∈ firstFailing cs, _))

def AllPass (cs : List Check) : Prop := ∀ c ∈ cs, c.passes = true

instance (cs : List Check) : Decidable (AllPass cs) := inferInstanceAs (Decidable (∀ c ∈ cs, _))

theorem allPass_cons {c : Check} {cs : List Check} : AllPass (c :: cs) ↔ c.passes = true ∧ AllPass cs :=
  List.forall_mem_cons

@[simp] theorem firstFailing_nil : firstFailing [] = none := rfl

theorem firstFailing_append (cs ds : List Check) :
    firstFailing (cs ++ ds) = (firstFailing cs).or (firstFailing ds) := List.find?_append

theorem firstFailing_eq_none {cs : List Check} : firstFailing cs = none ↔ AllPass cs := by
  simp [firstFailing, AllPass, List.find?_eq_none]

theorem AllPass.append {cs ds : List Check} : AllPass (cs ++ ds) ↔ AllPass cs ∧ AllPass ds :=
  List.forall_mem_append

def require (p : Prop) [Decidable p] (e : ε) : Except ε Unit := if p then .ok () else .error e

theorem bind_eq_ok {x : Except ε α} {f : α → Except ε β} {b : β} :
    (x >>= f) = .ok b ↔ ∃ a, x = .ok a ∧ f a = .ok b := by
  cases x with
  | error e => exact iff_of_false nofun fun ⟨_, h, _⟩ => by cases h
  | ok a => exact ⟨fun h => ⟨a, rfl, h⟩, fun ⟨_, h, hf⟩ => by cases h; exact hf⟩

theorem require_eq_ok {p : Prop} [Decidable p] {e : ε} {u : Unit} : require p e = .ok u ↔ p := by
  unfold require
  split
  · next hp => exact iff_of_true rfl hp
  · next hp => exact iff_of_false nofun hp

def forEach (f : Nat → α → Except ε β) : Nat → List α → Except ε (List β)
  | _, [] => .ok []
  | i, a :: as => do
    let b ← f i a
    let bs ← forEach f (i + 1) as
    return b :: bs

theorem map_of_forEach {γ : Type} {f : Nat → α → Except ε β} {g : β → γ} {h : α → γ}
    (hf : ∀ i a b, f i a = .ok b → g b = h a) {i : Nat} {as : List α} {bs : List β} (hbs : forEach f i as = .ok bs) :
    bs.map g = as.map h := by
  induction as generalizing i bs with
  | nil =>
    cases hbs
    rfl
  | cons a as ih =>
    obtain ⟨b, hb, hbs⟩ := bind_eq_ok.1 hbs
    obtain ⟨bs', hbs', hbs⟩ := bind_eq_ok.1 hbs
    cases hbs
    rw [List.map_cons, List.map_cons, hf i a b hb, ih hbs']

theorem forall_of_forEach {P : β → Prop} {f : Nat → α → Except ε β} (hf : ∀ i a b, f i a = .ok b → P b) {i : Nat}
    {as : List α} {bs : List β} (hbs : forEach f i as = .ok bs) : ∀ b ∈ bs, P b := by
  induction as generalizing i bs with
  | nil =>
    cases hbs
    exact List.forall_mem_nil P
  | cons a as ih =>
    obtain ⟨b, hb, hbs⟩ := bind_eq_ok.1 hbs
    obtain ⟨bs', hbs', hbs⟩ := bind_eq_ok.1 hbs
    cases hbs
    exact List.forall_mem_cons.2 ⟨hf i a b hb, ih hbs'⟩

theorem forEach_returns_iff {P : α → Prop} {f : Nat → α → Except ε β} (hf : ∀ i a, (∃ b, f i a = .ok b) ↔ P a) {i : Nat}
    {as : List α} : (∃ bs, forEach f i as = .ok bs) ↔ ∀ a ∈ as, P a := by
  induction as generalizing i with
  | nil => exact iff_of_true ⟨[], rfl⟩ (List.forall_mem_nil P)
  | cons a as ih =>
    rw [List.forall_mem_cons, ← hf i a, ← @ih (i + 1)]
    constructor
    · rintro ⟨_, h⟩
      obtain ⟨b, hb, h⟩ := bind_eq_ok.1 h
      obtain ⟨bs, hbs, -⟩ := bind_eq_ok.1 h
      exact ⟨⟨b, hb⟩, bs, hbs⟩
    · rintro ⟨⟨b, hb⟩, bs, hbs⟩
      exact ⟨b :: bs, bind_eq_ok.2 ⟨b, hb, bind_eq_ok.2 ⟨bs, hbs, rfl⟩⟩⟩

theorem meant_of_forEach {meant : ε → Prop} {f : Nat → α → Except ε β} (hf : ∀ i a e, f i a = .error e → meant e)
    {i : Nat} {as : List α} {e : ε} (h : forEach f i as = .error e) : meant e := by
  induction as generalizing i with
  | nil => cases h
  | cons a as ih =>
    rw [forEach] at h
    cases ha : f i a with
    | error e' =>
      rw [ha] at h
      cases h
      exact hf i a e ha
    | ok b =>
      rw [ha] at h
      change (forEach f (i + 1) as >>= fun bs => .ok (b :: bs)) = .error e at h
      cases has : forEach f (i + 1) as with
      | error e' =>
        rw [has] at h
        cases h
        exact ih has
      | ok bs =>
        rw [has] at h
        cases h

def checksEach (g : Nat → α → List Check) : Nat → List α → List Check
  | _, [] => []
  | i, a :: as => g i a ++ checksEach g (i + 1) as

theorem allPass_checksEach {g : Nat → α → List Check} {i : Nat} {as : List α} (h : ∀ i, ∀ a ∈ as, AllPass (g i a)) :
    AllPass (checksEach g i as) := by
  induction as generalizing i with
  | nil => exact List.forall_mem_nil _
  | cons a as ih =>
    exact AllPass.append.2 ⟨h i a (.head _), ih fun i a ha => h i a (.tail _ ha)⟩

/-- The program returns if the checks pass; otherwise it raises what is meant, or not, as the first
of them that fails. -/
def Follows (meant : ε → Prop) (cs : List Check) : Except ε α → Prop
  | .ok _ => firstFailing cs = none
  | .error e => ∃ c, firstFailing cs = some c ∧ (meant e ↔ c.meant = true)

section follows

variable {meant : ε → Prop} {cs ds : List Check} {x : Except ε α}

theorem follows_ok (a : α) : Follows meant [] (.ok a : Except ε α) := firstFailing_nil

theorem follows_error {e : ε} {m : Bool} (he : meant e ↔ m = true) :
    Follows meant [⟨false, m⟩] (.error e : Except ε α) := ⟨_, rfl, he⟩

theorem follows_require {p : Prop} [Decidable p] {e : ε} {m : Bool} (he : meant e ↔ m = true) :
    Follows meant [⟨decide p, m⟩] (require p e) := by
  by_cases hp : p
  · rw [require, if_pos hp, decide_eq_true hp]
    rfl
  · rw [require, if_neg hp, decide_eq_false hp]
    exact follows_error he

theorem follows_of_iff {p : Prop} [Decidable p] (hok : (∃ a, x = .ok a) ↔ p) (hmeant : ∀ e, x = .error e → meant e) :
    Follows meant [⟨decide p, true⟩] x := by
  cases x with
  | error e =>
    have hp : ¬p := fun hp => by
      obtain ⟨a, ha⟩ := hok.2 hp
      cases ha
    rw [decide_eq_false hp]
    exact follows_error (iff_of_true (hmeant e rfl) rfl)
  | ok a =>
    rw [decide_eq_true (hok.1 ⟨a, rfl⟩)]
    rfl

theorem Follows.bind {f : α → Except ε β} (hx : Follows meant cs x)
    (hf : ∀ a, x = .ok a → Follows meant ds (f a)) : Follows meant (cs ++ ds) (x >>= f) := by
  cases x with
  | error e =>
    obtain ⟨c, hc, hmeant⟩ := hx
    exact ⟨c, by rw [firstFailing_append, hc, Option.some_or], hmeant⟩
  | ok a =>
    have hpass : firstFailing (cs ++ ds) = firstFailing ds := by
      rw [firstFailing_append, show firstFailing cs = none from hx, Option.none_or]
    have hrest := hf a rfl
    change Follows meant (cs ++ ds) (f a)
    cases hfa : f a with
    | error e =>
      rw [hfa] at hrest
      obtain ⟨c, hc, hmeant⟩ := hrest
      exact ⟨c, hpass.trans hc, hmeant⟩
    | ok b =>
      rw [hfa] at hrest
      exact hpass.trans hrest

theorem Follows.cons {c : Check} {f : α → Except ε β} (hx : Follows meant [c] x)
    (hf : ∀ a, x = .ok a → Follows meant ds (f a)) : Follows meant (c :: ds) (x >>= f) := hx.bind hf

theorem Follows.done {f : α → β} (hx : Follows meant cs x) : Follows meant cs (x >>= fun a => .ok (f a)) := by
  cases x with
  | error e => exact hx
  | ok a => exact hx

theorem follows_forEach {g : Nat → α → List Check} {f : Nat → α → Except ε β}
    (hf : ∀ i a, Follows meant (g i a) (f i a)) (i : Nat) (as : List α) :
    Follows meant (checksEach g i as) (forEach f i as) := by
  induction as generalizing i with
  | nil => exact follows_ok []
  | cons a as ih => exact (hf i a).bind fun b _ => (ih (i + 1)).done

theorem Follows.returns_iff (hx : Follows meant cs x) : (∃ a, x = .ok a) ↔ AllPass cs := by
  rw [← firstFailing_eq_none]
  cases x with
  | error e =>
    obtain ⟨c, hc, -⟩ := hx
    exact iff_of_false (fun ⟨_, h⟩ => by cases h) (by rw [hc]; nofun)
  | ok a => exact iff_of_true ⟨a, rfl⟩ hx

/-- Whatever is raised is meant, just when the checks are in order. -/
theorem Follows.meant_iff (hx : Follows meant cs x) : (∀ e, x = .error e → meant e) ↔ Orderly cs := by
  cases x with
  | error e =>
    obtain ⟨c, hc, hmeant⟩ := hx
    rw [Orderly, hc]
    constructor
    · rintro h _ ⟨⟩
      exact hmeant.1 (h e rfl)
    · rintro h _ ⟨⟩
      exact hmeant.2 (h c rfl)
  | ok a =>
    have hnone : firstFailing cs = none := hx
    rw [Orderly, hnone]
    exact iff_of_true nofun nofun

end follows

end Quinn.Checks

/-! Loops over a list of which each turn may fail. -/

namespace Quinn.Checks

variable {ε α β γ : Type} {as : List α} {bs : List β}

section

variable {R : α → β → Prop}

theorem exists_of_mem_right (h : List.Forall₂ R as bs) {b : β} (hb : b ∈ bs) : ∃ a ∈ as, R a b := by
  induction h with
  | nil => cases hb
  | cons hab _ ih =>
    obtain rfl | hb := List.mem_cons.1 hb
    · exact ⟨_, List.mem_cons_self, hab⟩
    · obtain ⟨a, ha, hr⟩ := ih hb
      exact ⟨a, List.mem_cons_of_mem _ ha, hr⟩

theorem exists_of_mem_left (h : List.Forall₂ R as bs) {a : α} (ha : a ∈ as) : ∃ b ∈ bs, R a b :=
  exists_of_mem_right h.flip ha

theorem map_eq_of_forall₂ {f : α → γ} {g : β → γ} (h : List.Forall₂ R as bs) (hR : ∀ a b, R a b → g b = f a) :
    bs.map g = as.map f := by
  induction h with
  | nil => rfl
  | cons hab _ ih => rw [List.map_cons, List.map_cons, ih, hR _ _ hab]

end

theorem mapM_eq_ok_iff {f : α → Except ε β} : as.mapM f = .ok bs ↔ List.Forall₂ (fun a b => f a = .ok b) as bs := by
  induction as generalizing bs with
  | nil => cases bs with
    | nil => exact iff_of_true rfl .nil
    | cons b bs => exact iff_of_false nofun nofun
  | cons a as ih =>
    rw [List.mapM_cons, List.forall₂_cons_left_iff]
    constructor
    · intro h
      obtain ⟨b, hb, h⟩ := bind_eq_ok.1 h
      obtain ⟨bs', hbs, h⟩ := bind_eq_ok.1 h
      cases h
      exact ⟨b, bs', hb, ih.1 hbs, rfl⟩
    · rintro ⟨b, bs, hb, hbs, rfl⟩
      exact bind_eq_ok.2 ⟨b, hb, bind_eq_ok.2 ⟨bs, ih.2 hbs, rfl⟩⟩

theorem exists_mapM_eq_ok {f : α → Except ε β} (h : ∀ a ∈ as, ∃ b, f a = .ok b) : ∃ bs, as.mapM f = .ok bs := by
  induction as with
  | nil => exact ⟨[], rfl⟩
  | cons a as ih =>
    obtain ⟨⟨b, hb⟩, has⟩ := List.forall_mem_cons.1 h
    obtain ⟨bs, hbs⟩ := ih has
    exact ⟨b :: bs, mapM_eq_ok_iff.2 (.cons hb (mapM_eq_ok_iff.1 hbs))⟩

theorem mapM_eq_ok_map {f : α → Except ε β} {g : α → β} (h : ∀ a ∈ as, f a = .ok (g a)) :
    as.mapM f = .ok (as.map g) :=
  mapM_eq_ok_iff.2 (List.forall₂_map_right_iff.2 (List.forall₂_same.2 h))

theorem mapM_map_eq_ok {f : α → β} {g : β → Except ε α} (h : ∀ a, g (f a) = .ok a) (as : List α) :
    (as.map f).mapM g = .ok as :=
  mapM_eq_ok_iff.2 (List.forall₂_map_left_iff.2 (List.forall₂_same.2 fun a _ => h a))

end Quinn.Checks
