import Mathlib.Data.List.Forall2
import Quinn.Loading.Loader

/-! The references of a tree, and what comes of resolving them. -/

namespace Quinn.Loading

open Checks

namespace Yaml

mutual

/-- What the references of a tree refer to; there is none within another. -/
def refs : Yaml → List Yaml
  | .map entries =>
    match lookup refKey entries with
    | some ref => [ref]
    | none => refsOfEntries entries
  | .list items => refsOfItems items
  | .scalar _ => []

def refsOfItems : List Yaml → List Yaml
  | [] => []
  | v :: vs => v.refs ++ refsOfItems vs

def refsOfEntries : List (Scalar × Yaml) → List Yaml
  | [] => []
  | (_, v) :: es => v.refs ++ refsOfEntries es

end

/-- No reference is left, at any depth. -/
def NoRefs (v : Yaml) : Prop := v.refs = []

mutual

/-- Each reference is replaced by what `d` has for it. -/
def expand (d : Yaml → Yaml) : Yaml → Yaml
  | .map entries =>
    match lookup refKey entries with
    | some ref => d ref
    | none => .map (expandEntries d entries)
  | .list items => .list (expandItems d items)
  | .scalar s => .scalar s

def expandItems (d : Yaml → Yaml) : List Yaml → List Yaml
  | [] => []
  | v :: vs => v.expand d :: expandItems d vs

def expandEntries (d : Yaml → Yaml) : List (Scalar × Yaml) → List (Scalar × Yaml)
  | [] => []
  | (k, v) :: es => (k, v.expand d) :: expandEntries d es

end

section laws

variable (d : Yaml → Yaml) {entries : List (Scalar × Yaml)} {ref : Yaml}

theorem refsOfItems_eq (items : List Yaml) : refsOfItems items = items.flatMap refs := by
  induction items with
  | nil => rfl
  | cons v vs ih => rw [refsOfItems, ih, List.flatMap_cons]

theorem refsOfEntries_eq (entries : List (Scalar × Yaml)) :
    refsOfEntries entries = entries.flatMap fun e => e.2.refs := by
  induction entries with
  | nil => rfl
  | cons e es ih => rw [refsOfEntries, ih, List.flatMap_cons]

theorem expandItems_eq (items : List Yaml) : expandItems d items = items.map (expand d) := by
  induction items with
  | nil => rfl
  | cons v vs ih => rw [expandItems, ih, List.map_cons]

theorem expandEntries_eq (entries : List (Scalar × Yaml)) :
    expandEntries d entries = entries.map fun e => (e.1, e.2.expand d) := by
  induction entries with
  | nil => rfl
  | cons e es ih => rw [expandEntries, ih, List.map_cons]

theorem refs_list (items : List Yaml) : (Yaml.list items).refs = items.flatMap refs := refsOfItems_eq items

theorem refs_map (h : lookup refKey entries = none) :
    (Yaml.map entries).refs = entries.flatMap fun e => e.2.refs := by
  simp only [refs, h, refsOfEntries_eq]

theorem refs_ref (h : lookup refKey entries = some ref) : (Yaml.map entries).refs = [ref] := by
  simp only [refs, h]

theorem expand_list (items : List Yaml) : (Yaml.list items).expand d = .list (items.map (expand d)) := by
  rw [expand, expandItems_eq]

theorem expand_map (h : lookup refKey entries = none) :
    (Yaml.map entries).expand d = .map (entries.map fun e => (e.1, e.2.expand d)) := by
  simp only [expand, h, expandEntries_eq]

theorem expand_ref (h : lookup refKey entries = some ref) : (Yaml.map entries).expand d = d ref := by
  simp only [expand, h]

theorem lookup_map (key : String) (f : Yaml → Yaml) (entries : List (Scalar × Yaml)) :
    lookup key (entries.map fun e => (e.1, f e.2)) = (lookup key entries).map f := by
  induction entries with
  | nil => rfl
  | cons e es ih =>
    simp only [List.map_cons, lookup, ih]
    split <;> rfl

theorem refs_expand (v : Yaml) : (v.expand d).refs = v.refs.flatMap fun ref => (d ref).refs := by
  induction v with
  | scalar s => rfl
  | list items ih =>
    rw [expand_list, refs_list, refs_list, List.flatMap_map, List.flatMap_assoc]
    exact List.flatMap_congr ih
  | map entries ih =>
    rcases hlookup : lookup refKey entries with _ | ref
    · have hnone : lookup refKey (entries.map fun e => (e.1, e.2.expand d)) = none := by
        rw [lookup_map, hlookup]
        rfl
      rw [expand_map d hlookup, refs_map hnone, refs_map hlookup, List.flatMap_map, List.flatMap_assoc]
      exact List.flatMap_congr ih
    · rw [expand_ref d hlookup, refs_ref hlookup, List.flatMap_singleton]

theorem noRefs_expand {v : Yaml} : (v.expand d).NoRefs ↔ ∀ ref ∈ v.refs, (d ref).NoRefs := by
  rw [NoRefs, refs_expand, List.flatMap_eq_nil_iff]
  rfl

end laws

end Yaml

section definitions

variable (p : Platform) (baseDir : Path)

structure Names (ref content : Yaml) : Prop where
  isText : ref.text?.isSome = true
  found : ∃ path, p.resolve baseDir ⟨ref⟩ = .ok path ∧ p.isFile path = .ok true ∧
    ∃ v, p.safeLoad path = .ok v ∧ content = v.orEmpty

/-- In `t`, each reference of `v` has been replaced, at every depth, by the definition it names. -/
inductive Expands : Yaml → Yaml → Prop
  | scalar (s : Scalar) : Expands (.scalar s) (.scalar s)
  | list {items items' : List Yaml} : List.Forall₂ Expands items items' → Expands (.list items) (.list items')
  | map {entries entries' : List (Scalar × Yaml)} : Yaml.lookup refKey entries = none →
    entries.map Prod.fst = entries'.map Prod.fst →
    List.Forall₂ Expands (entries.map Prod.snd) (entries'.map Prod.snd) → Expands (.map entries) (.map entries')
  | ref {entries : List (Scalar × Yaml)} {ref content t : Yaml} : Yaml.lookup refKey entries = some ref →
    Names p baseDir ref content → Expands content t → Expands (.map entries) t

/-- The content of the file, if it can be read. -/
def definition (ref : Yaml) : Yaml :=
  match p.resolve baseDir ⟨ref⟩ with
  | .ok path =>
    match p.safeLoad path with
    | .ok v => v.orEmpty
    | .error _ => .null
  | .error _ => .null

variable {p baseDir}

theorem expands_expand {d : Yaml → Yaml} {v : Yaml}
    (h : ∀ ref ∈ v.refs, ∃ content, Names p baseDir ref content ∧ Expands p baseDir content (d ref)) :
    Expands p baseDir v (v.expand d) := by
  induction v with
  | scalar s => exact .scalar s
  | list items ih =>
    rw [Yaml.refs_list] at h
    rw [Yaml.expand_list]
    refine .list (List.forall₂_map_right_iff.2 (List.forall₂_same.2 fun v hv => ih v hv fun ref href => ?_))
    exact h ref (List.mem_flatMap.2 ⟨v, hv, href⟩)
  | map entries ih =>
    rcases hlookup : Yaml.lookup refKey entries with _ | ref
    · rw [Yaml.refs_map hlookup] at h
      rw [Yaml.expand_map d hlookup]
      refine .map hlookup (by rw [List.map_map]; rfl) ?_
      rw [List.map_map]
      refine List.forall₂_map_left_iff.2 (List.forall₂_map_right_iff.2 (List.forall₂_same.2 fun e he => ?_))
      exact ih e he fun ref href => h ref (List.mem_flatMap.2 ⟨e, he, href⟩)
    · obtain ⟨content, hnames, hexpands⟩ := h ref (by rw [Yaml.refs_ref hlookup]; exact List.mem_singleton_self ref)
      rw [Yaml.expand_ref d hlookup]
      exact .ref hlookup hnames hexpands

theorem expand_of_noRefs (d : Yaml → Yaml) {v : Yaml} (h : v.NoRefs) : v.expand d = v := by
  induction v with
  | scalar s => rfl
  | list items ih =>
    rw [Yaml.NoRefs, Yaml.refs_list, List.flatMap_eq_nil_iff] at h
    rw [Yaml.expand_list, List.map_congr_left fun v hv => ih v hv (h v hv), List.map_id']
  | map entries ih =>
    rcases hlookup : Yaml.lookup refKey entries with _ | ref
    · rw [Yaml.NoRefs, Yaml.refs_map hlookup, List.flatMap_eq_nil_iff] at h
      have hsame : ∀ e ∈ entries, (e.1, e.2.expand d) = e := fun e he => Prod.ext rfl (ih e he (h e he))
      rw [Yaml.expand_map d hlookup, List.map_congr_left hsame, List.map_id']
    · rw [Yaml.NoRefs, Yaml.refs_ref hlookup] at h
      cases h

theorem Yaml.NoRefs.expands {v : Yaml} (h : v.NoRefs) : Expands p baseDir v v := by
  have hexpands : Expands p baseDir v (v.expand id) := expands_expand fun ref href => by
    rw [h] at href
    cases href
  rwa [expand_of_noRefs id h] at hexpands

end definitions

end Quinn.Loading
