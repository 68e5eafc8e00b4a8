import Mathlib.Data.List.DropRight
import Mathlib.Data.List.Infix

/-! Methods of Python's `str`, and a function of SQLite. -/

namespace Quinn.Text

def StartsWith (s start : String) : Prop := start.toList <+: s.toList

instance (s start : String) : Decidable (StartsWith s start) :=
  inferInstanceAs (Decidable (_ <+: _))

def EndsWith (s end_ : String) : Prop := end_.toList <:+ s.toList

instance (s end_ : String) : Decidable (EndsWith s end_) :=
  inferInstanceAs (Decidable (_ <:+ _))

def Contains (s part : String) : Prop := part.toList <:+: s.toList

instance (s part : String) : Decidable (Contains s part) :=
  inferInstanceAs (Decidable (_ <:+: _))

/-- `LOWER(s)` of SQLite, which knows of the letters of ASCII alone. -/
def lower (s : String) : String := String.ofList (s.toList.map Char.toLower)

/-- `s.split(c, 1)[1]`, for a text that has `c`. -/
def afterFirst (c : Char) (s : String) : String :=
  String.ofList ((s.toList.dropWhile (· ≠ c)).drop 1)

def afterLast (c : Char) (s : String) : String := String.ofList (s.toList.rtakeWhile (· ≠ c))

def isSpace (c : Char) : Bool :=
  (9 ≤ c.toNat && c.toNat ≤ 13) || (28 ≤ c.toNat && c.toNat ≤ 32) || (0x2000 ≤ c.toNat && c.toNat ≤ 0x200a) ||
    [0x85, 0xa0, 0x1680, 0x2028, 0x2029, 0x202f, 0x205f, 0x3000].contains c.toNat

/-- The digits of Unicode come in tens, each from its zero on. -/
def zeros : List Nat :=
  [0x30, 0x660, 0x6f0, 0x7c0, 0x966, 0x9e6, 0xa66, 0xae6, 0xb66, 0xbe6, 0xc66, 0xce6, 0xd66, 0xde6, 0xe50,
    0xed0, 0xf20, 0x1040, 0x1090, 0x17e0, 0x1810, 0x1946, 0x19d0, 0x1a80, 0x1a90, 0x1b50, 0x1bb0, 0x1c40,
    0x1c50, 0xa620, 0xa8d0, 0xa900, 0xa9d0, 0xa9f0, 0xaa50, 0xabf0, 0xff10, 0x104a0, 0x10d30, 0x11066,
    0x110f0, 0x11136, 0x111d0, 0x112f0, 0x11450, 0x114d0, 0x11650, 0x116c0, 0x11730, 0x118e0, 0x11950,
    0x11c50, 0x11d50, 0x11da0, 0x16a60, 0x16ac0, 0x16b50, 0x1d7ce, 0x1d7d8, 0x1d7e2, 0x1d7ec, 0x1d7f6,
    0x1e140, 0x1e2f0, 0x1e950, 0x1fbf0]

/-- `unicodedata.decimal(c)` -/
def digit (c : Char) : Option Nat :=
  (zeros.find? fun z => z ≤ c.toNat ∧ c.toNat < z + 10).map (c.toNat - ·)

/-- `sys.int_info.default_max_str_digits` -/
def maxStrDigits : Nat := 4300

def strip (s : String) : String :=
  String.ofList ((s.toList.dropWhile isSpace).reverse.dropWhile isSpace).reverse

def split (c : Char) (s : String) : List String := (s.toList.splitOn c).map String.ofList

theorem StartsWith.trans {s t u : String} (h : StartsWith s t) (h' : StartsWith t u) : StartsWith s u :=
  List.IsPrefix.trans h' h

theorem startsWith_append (s t : String) : StartsWith (s ++ t) s := by
  rw [StartsWith, String.toList_append]
  exact List.prefix_append _ _

theorem toString_injective : Function.Injective (toString : Nat → String) := by
  intro k k' h
  have hdigits : Nat.toDigits 10 k = Nat.toDigits 10 k' := by
    simpa only [Nat.toString_eq_repr, Nat.toList_repr] using congrArg String.toList h
  simpa using congrArg (Nat.ofDigitChars 10 · 0) hdigits

theorem split_intercalate {c : Char} {parts : List String} (h : ∀ s ∈ parts, c ∉ s.toList) (hne : parts ≠ []) :
    split c ((String.singleton c).intercalate parts) = parts := by
  have hparts : ∀ l ∈ parts.map String.toList, c ∉ l := by
    intro l hl
    obtain ⟨s, hs, rfl⟩ := List.mem_map.1 hl
    exact h s hs
  rw [split, String.toList_intercalate, String.toList_singleton, List.splitOn_intercalate c hparts (by simpa using hne)]
  simp

theorem split_join {c : Char} {parts : List String} (h : ∀ s ∈ parts, c ∉ s.toList) :
    split c (String.join (parts.map (· ++ String.singleton c))) = parts ++ [""] := by
  induction parts with
  | nil => rfl
  | cons s parts ih =>
    obtain ⟨hs, hparts⟩ := List.forall_mem_cons.1 h
    have hlist : (String.join ((s :: parts).map (· ++ String.singleton c))).toList =
        s.toList ++ c :: (String.join (parts.map (· ++ String.singleton c))).toList := by
      simp
    rw [split, hlist, List.splitOn_append_cons_self_of_not_mem hs, List.map_cons, String.ofList_toList]
    exact congrArg _ (ih hparts)

theorem afterFirst_append {c : Char} {s : String} (hs : c ∉ s.toList) (t : String) :
    afterFirst c (s ++ String.singleton c ++ t) = t := by
  have hdrop : (s.toList ++ c :: t.toList).dropWhile (· ≠ c) = c :: t.toList := by
    rw [List.dropWhile_append_of_pos, List.dropWhile_cons_of_neg (by simp)]
    intro d hd
    simpa using fun h : d = c => hs (h ▸ hd)
  have hlist : (s ++ String.singleton c ++ t).toList = s.toList ++ c :: t.toList := by simp
  rw [afterFirst, hlist, hdrop, List.drop_one, List.tail_cons, String.ofList_toList]

theorem startsWith_append_iff {c : Char} {s t : String} (hs : c ∉ s.toList) (ht : c ∉ t.toList)
    (u : String) : StartsWith (s ++ String.singleton c ++ u) (t ++ String.singleton c) ↔ s = t := by
  have hlists : ∀ l l' : List Char, c ∉ l → c ∉ l' → ∀ m, l' ++ [c] <+: l ++ c :: m → l = l' := by
    intro l
    induction l with
    | nil =>
      rintro (_ | ⟨d, l'⟩) - hl' m h
      · rfl
      · rw [List.cons_append, List.nil_append, List.cons_prefix_cons] at h
        exact (hl' (h.1 ▸ List.mem_cons_self)).elim
    | cons d l ih =>
      rintro (_ | ⟨d', l'⟩) hl hl' m h
      · rw [List.nil_append, List.cons_append, List.cons_prefix_cons] at h
        exact (hl (h.1 ▸ List.mem_cons_self)).elim
      · rw [List.cons_append, List.cons_append, List.cons_prefix_cons] at h
        rw [h.1, ih l' (fun h => hl (List.mem_cons_of_mem _ h)) (fun h => hl' (List.mem_cons_of_mem _ h)) m h.2]
  constructor
  · intro h
    refine String.toList_injective (hlists _ _ hs ht u.toList ?_)
    simpa [StartsWith] using h
  · rintro rfl
    exact startsWith_append _ _

end Quinn.Text

/-! Where a word starts in a text. -/

namespace Quinn.Text

variable {α : Type} {c : α} {t tl v v' w : List α}

def Free (t : List α) : List α → List α → Prop
  | [], _ => True
  | a :: v, w => ¬t <+: a :: (v ++ w) ∧ Free t v w

theorem free_append : Free t (v ++ v') w ↔ Free t v (v' ++ w) ∧ Free t v' w := by
  induction v with
  | nil => exact (and_iff_right trivial).symm
  | cons a v ih => rw [List.cons_append, Free, Free, ih, List.append_assoc, and_assoc]

theorem free_of_not_mem (h : c ∉ v) : Free (c :: tl) v w := by
  induction v with
  | nil => trivial
  | cons a v ih =>
    obtain ⟨hne, hv⟩ := List.ne_and_not_mem_of_not_mem_cons h
    exact ⟨fun hprefix => hne (List.cons_prefix_cons.1 hprefix).1, ih hv⟩

/-- A word that `v` does not have, where what follows `v` starts as the word does, and the word never
goes on so. -/
theorem free_of_not_infix (hc : c ∉ tl) (h : ¬c :: tl <:+: v) (hw : ∀ a ∈ w.head?, a = c) : Free (c :: tl) v w := by
  induction v with
  | nil => trivial
  | cons a v ih =>
    refine ⟨fun hprefix => ?_, ih fun hin => h (hin.trans (List.suffix_cons a v).isInfix)⟩
    cases List.prefix_or_prefix_of_prefix hprefix (List.prefix_append (a :: v) w) with
    | inl hin => exact h hin.isInfix
    | inr hout =>
      -- the word would reach into `w`
      obtain ⟨r, hr⟩ := hout
      cases r with
      | nil =>
        rw [List.append_nil] at hr
        exact h (hr ▸ List.infix_rfl)
      | cons b r =>
        obtain ⟨rfl, rfl⟩ : a = c ∧ v ++ b :: r = tl := by simpa using hr
        have hrest : b :: r <+: w := by simpa using hprefix
        cases w with
        | nil => cases List.prefix_nil.1 hrest
        | cons d w =>
          cases (List.cons_prefix_cons.1 hrest).1
          cases hw b rfl
          exact hc (List.mem_append_right v (.head r))

/-- A text that starts as the word does, goes on otherwise, and does not start so again. -/
theorem free_cons (hv : c ∉ v) (h : ¬tl <+: v ++ w) : Free (c :: tl) (c :: v) w :=
  ⟨fun hprefix => h (List.cons_prefix_cons.1 hprefix).2, free_of_not_mem hv⟩

end Quinn.Text
