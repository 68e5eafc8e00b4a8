import Quinn.Machine.Run
import Quinn.Okr.Queries

/-! The objectives make up a forest, which can be gone through downwards and upwards. -/

namespace Quinn.Okr

open Store Search Machine Relation

namespace OKRTreeNode

mutual

def okrs : OKRTreeNode → List OKR
  | .node okr children => okr :: okrsOf children

def okrsOf : List OKRTreeNode → List OKR
  | [] => []
  | t :: ts => okrs t ++ okrsOf ts

end

theorem okrsOf_eq (ts : List OKRTreeNode) : okrsOf ts = (ts.map okrs).flatten := by
  induction ts with
  | nil => rfl
  | cons t ts ih => rw [okrsOf, ih, List.map_cons, List.flatten_cons]

end OKRTreeNode

def met (hierarchy : Option OKRTreeNode) : List OKR := hierarchy.elim [] (·.okrs)

namespace Db

def ParentOf (db : Db) (parent child : OKRId) : Prop :=
  ∃ o ∈ db.okrs.rows, o.id = child ∧ o.parentOkrId = some parent

/-- The recursions end, and the loop. -/
structure Terminates (db : Db) (id : OKRId) : Prop where
  hierarchy : ∃ fuel hierarchy, db.getOkrHierarchy fuel id = some hierarchy
  ancestors : ∃ fuel ancestors, db.getOkrAncestors fuel id = some ancestors
  work : ∃ fuel links, db.getWorkForOkrHierarchy fuel id = some links

/-- What is returned fits together. -/
structure Exact (db : Db) (root : OKRId) (hierarchy : Option OKRTreeNode) : Prop where
  within : ∀ o ∈ met hierarchy, o ∈ db.okrs.rows
  contains : ∀ d ∈ db.okrs.rows, ∀ fuel ancestors, db.getOkrAncestors fuel d.id = some ancestors →
    (met hierarchy).count d = if d.id = root ∨ root ∈ ancestors.map (·.id) then 1 else 0
  work : ∀ fuel links, db.getWorkForOkrHierarchy fuel root = some links →
    links.Perm (db.workOkrLinks.rows.filter fun l => l.okrId ∈ (met hierarchy).map (·.id))

structure IsForest (db : Db) : Prop where
  acyclic : Acyclic db.ParentOf
  terminates : ∀ id, db.Terminates id
  exact : ∀ root fuel hierarchy, db.getOkrHierarchy fuel root = some hierarchy → db.Exact root hierarchy

structure Sound (db : Db) : Prop where
  acyclic : Acyclic db.ParentOf
  /-- the empty text is nobody's parent -/
  named : ∀ o ∈ db.okrs.rows, o.parentOkrId ≠ some ""

def childIds (db : Db) (id : OKRId) : List OKRId := (db.getChildOkrs id).map (·.id)

variable {db : Db} {o : OKR} {root : OKRId} {fuel : Nat}

theorem getOkr_of_mem (ho : o ∈ db.okrs.rows) : db.getOkr o.id = some o := Table.find?_eq_some.2 ⟨ho, rfl⟩

theorem mem_getChildOkrs {parent : OKRId} : o ∈ db.getChildOkrs parent ↔ o ∈ db.okrs.rows ∧ o.parentOkrId = some parent := by
  rw [getChildOkrs, mem_orderBy, List.mem_filter, decide_eq_true_iff]

theorem down_childIds {parent child : OKRId} : Down db.childIds parent child ↔ db.ParentOf parent child := by
  rw [Down, childIds, List.mem_map]
  simp only [mem_getChildOkrs, ParentOf, and_assoc]
  exact exists_congr fun o => and_congr_right fun _ => and_comm

theorem nodup_childIds (db : Db) (id : OKRId) : (db.childIds id).Nodup := by
  have hfilter : ((db.okrs.rows.filter (·.parentOkrId = some id)).map (·.id)).Nodup :=
    List.Nodup.sublist (List.filter_sublist.map _) db.okrs.nodup
  exact ((List.perm_insertionSort _ _).map _).nodup_iff.2 hfilter

theorem forest_childIds (hacyclic : Acyclic db.ParentOf) : Forest (Down db.childIds) where
  acyclic := hacyclic.mono fun _ _ => down_childIds.1
  oneParent := by
    intro a b x ha hb
    obtain ⟨o, ho, hx, hparent⟩ := down_childIds.1 ha
    obtain ⟨o', ho', hx', hparent'⟩ := down_childIds.1 hb
    obtain rfl := Table.key_inj ho ho' (hx.trans hx'.symm)
    exact Option.some.inj (hparent.symm.trans hparent')

theorem preorder_of_buildTree {tree : OKRTreeNode} (h : db.buildTree fuel o = some tree) :
    preorder db.childIds fuel o.id = some (tree.okrs.map (·.id)) := by
  have hids (okr : OKR) (ts : List OKRTreeNode) :
      (OKRTreeNode.node okr ts).okrs.map (·.id) = okr.id :: (ts.map fun t => t.okrs.map (·.id)).flatten := by
    rw [OKRTreeNode.okrs, OKRTreeNode.okrsOf_eq, List.map_cons, List.map_flatten, List.map_map]
    rfl
  have hmap := descend_map (fun okr rest => okr.id :: rest.flatten) (fun t : OKRTreeNode => t.okrs.map (·.id)) hids h
  exact descend_rename db.childIds (fun id rest => id :: rest.flatten) OKR.id (fun _ => rfl) (fun _ _ => rfl) hmap

theorem mem_of_buildTree {tree : OKRTreeNode} (h : db.buildTree fuel o = some tree) (ho : o ∈ db.okrs.rows) :
    ∀ o' ∈ tree.okrs, o' ∈ db.okrs.rows := by
  have hokrs (okr : OKR) (ts : List OKRTreeNode) :
      (OKRTreeNode.node okr ts).okrs = okr :: (ts.map OKRTreeNode.okrs).flatten := by
    rw [OKRTreeNode.okrs, OKRTreeNode.okrsOf_eq]
  have hmap := descend_map (fun okr rest => okr :: rest.flatten) OKRTreeNode.okrs hokrs h
  intro o' ho'
  obtain rfl | ⟨z, -, hz⟩ := ((mem_preorder hmap).1 ho').cases_tail
  · exact ho
  · exact (mem_getChildOkrs.1 hz).1

theorem getOkrHierarchy_eq_some {hierarchy : Option OKRTreeNode} (h : db.getOkrHierarchy fuel root = some hierarchy) :
    (¬db.okrs.Has root ∧ hierarchy = none) ∨
      ∃ o ∈ db.okrs.rows, o.id = root ∧ ∃ tree, db.buildTree fuel o = some tree ∧ hierarchy = some tree := by
  rw [getOkrHierarchy] at h
  cases hroot : db.getOkr root with
  | none =>
    rw [hroot] at h
    exact .inl ⟨Table.find?_eq_none.1 hroot, (Option.some.inj h).symm⟩
  | some o =>
    rw [hroot] at h
    obtain ⟨tree, htree, rfl⟩ := Option.map_eq_some_iff.1 h
    obtain ⟨ho, hid⟩ := Table.find?_eq_some.1 hroot
    exact .inr ⟨o, ho, hid, tree, htree, rfl⟩

theorem mem_met {hierarchy : Option OKRTreeNode} (h : db.getOkrHierarchy fuel root = some hierarchy) {d : OKR}
    (hd : d ∈ db.okrs.rows) : d ∈ met hierarchy ↔ db.okrs.Has root ∧ ReflTransGen db.ParentOf root d.id := by
  obtain ⟨hnot, rfl⟩ | ⟨o, ho, rfl, tree, htree, rfl⟩ := getOkrHierarchy_eq_some h
  · simp [met, hnot]
  · have hdown : Down db.childIds = db.ParentOf := by
      funext parent child
      exact propext down_childIds
    have hids := mem_preorder (y := d.id) (preorder_of_buildTree htree)
    rw [hdown, List.mem_map] at hids
    rw [← hids]
    constructor
    · exact fun hmem => ⟨Table.has_of_mem ho, d, hmem, rfl⟩
    · rintro ⟨-, d', hd', hid⟩
      obtain rfl := Table.key_inj (mem_of_buildTree htree ho d' hd') hd hid
      exact hd'

theorem nodup_ids_met (hacyclic : Acyclic db.ParentOf) {hierarchy : Option OKRTreeNode}
    (h : db.getOkrHierarchy fuel root = some hierarchy) : ((met hierarchy).map (·.id)).Nodup := by
  obtain ⟨-, rfl⟩ | ⟨o, -, rfl, tree, htree, rfl⟩ := getOkrHierarchy_eq_some h
  · exact List.nodup_nil
  · exact nodup_preorder (forest_childIds hacyclic) db.nodup_childIds (preorder_of_buildTree htree)

theorem parentOf_eq_some {p : OKR} (h : db.parentOf o = some p) :
    p ∈ db.okrs.rows ∧ o.parentOkrId = some p.id := by
  obtain ⟨parent, hparent, hfind⟩ := Option.bind_eq_some_iff.1 h
  obtain ⟨hp, rfl⟩ := Table.find?_eq_some.1 hfind
  exact ⟨hp, (Option.filter_eq_some_iff.1 hparent).1⟩

theorem transGen_up (hnamed : ∀ o ∈ db.okrs.rows, o.parentOkrId ≠ some "") (ho : o ∈ db.okrs.rows) {id : OKRId}
    (h : TransGen db.ParentOf id o.id) : ∃ p, TransGen (Up db.parentOf) o p ∧ p.id = id := by
  have hup {parent : OKRId} {o : OKR} (ho : o ∈ db.okrs.rows) (h : db.ParentOf parent o.id) :
      ∃ p ∈ db.okrs.rows, Up db.parentOf o p ∧ p.id = parent := by
    obtain ⟨o', ho', hid, hparent⟩ := h
    obtain rfl := Table.key_inj ho' ho hid
    obtain ⟨p, hp⟩ := Table.has_iff.1 (db.parent_of_okr o' ho parent hparent)
    refine ⟨p, (Table.find?_eq_some.1 hp).1, ?_, (Table.find?_eq_some.1 hp).2⟩
    have hne : parent ≠ "" := fun he => hnamed o' ho (he ▸ hparent)
    rw [Up, parentOf, hparent, Option.filter_some, if_pos (decide_eq_true hne)]
    exact hp
  generalize hc : o.id = c at h
  induction h generalizing o with
  | single h =>
    obtain ⟨p, -, hp, hid⟩ := hup ho (hc ▸ h)
    exact ⟨p, .single hp, hid⟩
  | tail _ h ih =>
    obtain ⟨q, hq, hup, hid⟩ := hup ho (hc ▸ h)
    obtain ⟨p, hp, hpid⟩ := ih hq hid
    exact ⟨p, .head hup hp, hpid⟩

theorem transGen_parentOf (ho : o ∈ db.okrs.rows) {p : OKR} (h : TransGen (Up db.parentOf) o p) :
    p ∈ db.okrs.rows ∧ TransGen db.ParentOf p.id o.id := by
  induction h with
  | single h =>
    obtain ⟨hp, hparent⟩ := parentOf_eq_some h
    exact ⟨hp, .single ⟨o, ho, rfl, hparent⟩⟩
  | tail _ h ih =>
    obtain ⟨hp, hparent⟩ := parentOf_eq_some h
    exact ⟨hp, .head ⟨_, ih.1, rfl, hparent⟩ ih.2⟩

theorem mem_ancestors (hnamed : ∀ o ∈ db.okrs.rows, o.parentOkrId ≠ some "") (ho : o ∈ db.okrs.rows) {ancestors : List OKR}
    (h : db.getOkrAncestors fuel o.id = some ancestors) :
    root ∈ ancestors.map (·.id) ↔ TransGen db.ParentOf root o.id := by
  rw [getOkrAncestors, getOkr_of_mem ho] at h
  have hchain := climb_eq_some h
  constructor
  · intro hmem
    obtain ⟨p, hp, rfl⟩ := List.mem_map.1 hmem
    exact (transGen_parentOf ho (hchain.transGen_of_mem hp)).2
  · intro htrans
    obtain ⟨p, hp, rfl⟩ := transGen_up hnamed ho htrans
    exact List.mem_map_of_mem (hchain.mem_of_transGen hp)

theorem down_getChildOkrs {p c : OKR} (h : TransGen (Down fun okr => db.getChildOkrs okr.id) p c) :
    TransGen db.ParentOf p.id c.id := by
  induction h with
  | single h =>
    obtain ⟨hc, hparent⟩ := mem_getChildOkrs.1 h
    exact .single ⟨_, hc, rfl, hparent⟩
  | tail _ h ih =>
    obtain ⟨hc, hparent⟩ := mem_getChildOkrs.1 h
    exact ih.tail ⟨_, hc, rfl, hparent⟩

theorem exists_buildTree (hacyclic : Acyclic db.ParentOf) (o : OKR) : ∃ fuel tree, db.buildTree fuel o = some tree := by
  have hdown : Acyclic (Down fun okr => db.getChildOkrs okr.id) := fun x hx => hacyclic x.id (down_getChildOkrs hx)
  exact ⟨_, exists_descend hdown (fun _ _ hy => (mem_getChildOkrs.1 hy).1) o⟩

theorem exists_getWorkForOkrHierarchy (hacyclic : Acyclic db.ParentOf) (id : OKRId) :
    ∃ fuel links, db.getWorkForOkrHierarchy fuel id = some links := by
  have hdown : Acyclic (Down db.childIds) := hacyclic.mono fun _ _ => down_childIds.1
  have hids (parent child : OKRId) (h : child ∈ db.childIds parent) : child ∈ db.okrs.rows.map (·.id) := by
    obtain ⟨o, ho, hid, -⟩ := down_childIds.1 h
    exact List.mem_map.2 ⟨o, ho, hid⟩
  exact ⟨_, exists_descend hdown hids id⟩

theorem exists_getOkrAncestors (hacyclic : Acyclic db.ParentOf) (ho : o ∈ db.okrs.rows) :
    ∃ fuel ancestors, db.getOkrAncestors fuel o.id = some ancestors := by
  have hmem (p : OKR) (h : ReflTransGen (Up db.parentOf) o p) : p ∈ db.okrs.rows := by
    obtain rfl | h := reflTransGen_iff_eq_or_transGen.1 h
    · exact ho
    · exact (transGen_parentOf ho h).1
  have hends : Ends db.parentOf o := fun p hp hcycle => hacyclic p.id (transGen_parentOf (hmem p hp) hcycle).2
  obtain ⟨ancestors, hclimb⟩ := (exists_climb_iff fun p hp _ => hmem p hp).2 hends
  refine ⟨db.okrs.rows.length + 1, ancestors, ?_⟩
  rw [getOkrAncestors, getOkr_of_mem ho]
  exact hclimb

theorem terminates_of_acyclic (hacyclic : Acyclic db.ParentOf) (id : OKRId) : db.Terminates id where
  hierarchy := by
    cases hroot : db.getOkr id with
    | none => exact ⟨0, none, by rw [getOkrHierarchy, hroot]⟩
    | some o =>
      obtain ⟨fuel, tree, htree⟩ := exists_buildTree hacyclic o
      exact ⟨fuel, some tree, by simp only [getOkrHierarchy, hroot, htree, Option.map_some]⟩
  ancestors := by
    cases ho : db.getOkr id with
    | none => exact ⟨0, [], by rw [getOkrAncestors, ho]⟩
    | some o =>
      obtain ⟨hrow, rfl⟩ := Table.find?_eq_some.1 ho
      exact exists_getOkrAncestors hacyclic hrow
  work := exists_getWorkForOkrHierarchy hacyclic id

theorem mem_getWorkForOkr {l : WorkOKRLink} {id : OKRId} :
    l ∈ db.getWorkForOkr id ↔ l ∈ db.workOkrLinks.rows ∧ l.okrId = id := by
  rw [getWorkForOkr, mem_orderBy, List.mem_filter, decide_eq_true_iff]

theorem nodup_getWorkForOkr (db : Db) (id : OKRId) : (db.getWorkForOkr id).Nodup :=
  (List.perm_insertionSort _ _).nodup_iff.2 ((List.Nodup.of_map _ db.workOkrLinks.nodup).filter _)

theorem links_of_hierarchy {hierarchy : Option OKRTreeNode} (hhierarchy : db.getOkrHierarchy fuel root = some hierarchy)
    {fuel' : Nat} {links : List WorkOKRLink} (hlinks : db.getWorkForOkrHierarchy fuel' root = some links) :
    links = ((met hierarchy).map (·.id)).flatMap db.getWorkForOkr := by
  obtain ⟨hnot, rfl⟩ | ⟨o, -, rfl, tree, htree, rfl⟩ := getOkrHierarchy_eq_some hhierarchy
  · cases fuel' with
    | zero => cases hlinks
    | succ fuel' =>
      obtain ⟨bs, hbs, rfl⟩ := descend_succ.1 hlinks
      have hchildren : db.getChildOkrs root = [] := by
        apply List.eq_nil_iff_forall_not_mem.2
        intro o ho
        obtain ⟨ho, hparent⟩ := mem_getChildOkrs.1 ho
        exact hnot (db.parent_of_okr o ho root hparent)
      have hwork : db.getWorkForOkr root = [] := by
        apply List.eq_nil_iff_forall_not_mem.2
        intro l hl
        obtain ⟨hrow, rfl⟩ := mem_getWorkForOkr.1 hl
        exact hnot (db.okr_of_link l hrow)
      rw [hchildren, List.map_nil, List.forall₂_nil_left_iff] at hbs
      subst hbs
      rw [hwork]
      rfl
  · have hcollect (id : OKRId) (rest : List (List OKRId)) :
        (id :: rest.flatten).flatMap db.getWorkForOkr =
          db.getWorkForOkr id ++ (rest.map (·.flatMap db.getWorkForOkr)).flatten := by
      rw [List.flatMap_cons]
      simp only [List.flatMap_def, List.map_flatten, List.flatten_flatten, List.map_map]
      rfl
    have hmap := descend_map (fun id rest => db.getWorkForOkr id ++ rest.flatten) (·.flatMap db.getWorkForOkr) hcollect
      (preorder_of_buildTree htree)
    exact descend_unique hlinks hmap

theorem exact_of_sound (h : db.Sound) {hierarchy : Option OKRTreeNode}
    (hhierarchy : db.getOkrHierarchy fuel root = some hierarchy) : db.Exact root hierarchy := by
  have hnodup := nodup_ids_met h.acyclic hhierarchy
  constructor
  · obtain ⟨-, rfl⟩ | ⟨o, ho, rfl, tree, htree, rfl⟩ := getOkrHierarchy_eq_some hhierarchy
    · exact List.forall_mem_nil _
    · exact mem_of_buildTree htree ho
  · intro d hd fuel' ancestors hancestors
    rw [(List.Nodup.of_map _ hnodup).count]
    refine if_congr ?_ rfl rfl
    rw [mem_ancestors h.named hd hancestors, mem_met hhierarchy hd, reflTransGen_iff_eq_or_transGen]
    constructor
    · exact fun hd => hd.2
    · rintro (rfl | htrans)
      · exact ⟨Table.has_of_mem hd, .inl rfl⟩
      · refine ⟨?_, .inr htrans⟩
        obtain ⟨p, hp, rfl⟩ := transGen_up h.named hd htrans
        exact Table.has_of_mem (transGen_parentOf hd hp).1
  · intro fuel' links hlinks
    rw [links_of_hierarchy hhierarchy hlinks]
    have hlinks : (((met hierarchy).map (·.id)).flatMap db.getWorkForOkr).Nodup := by
      rw [List.nodup_flatMap]
      refine ⟨fun id _ => db.nodup_getWorkForOkr id, hnodup.imp fun hne l hl hl' => ?_⟩
      exact hne ((mem_getWorkForOkr.1 hl).2.symm.trans (mem_getWorkForOkr.1 hl').2)
    rw [List.perm_ext_iff_of_nodup hlinks ((List.Nodup.of_map _ db.workOkrLinks.nodup).filter _)]
    intro l
    rw [List.mem_flatMap, List.mem_filter, decide_eq_true_iff]
    simp only [mem_getWorkForOkr]
    constructor
    · rintro ⟨id, hid, hl, rfl⟩
      exact ⟨hl, hid⟩
    · exact fun ⟨hl, hid⟩ => ⟨_, hid, hl, rfl⟩

theorem sound_of_isForest (h : db.IsForest) : db.Sound where
  acyclic := h.acyclic
  named := by
    intro o ho hparent
    have hlink : db.ParentOf "" o.id := ⟨o, ho, rfl, hparent⟩
    obtain ⟨fuel, hierarchy, hhierarchy⟩ := (h.terminates "").hierarchy
    have hmet : o ∈ met hierarchy := (mem_met hhierarchy ho).2 ⟨db.parent_of_okr o ho "" hparent, .single hlink⟩
    have hancestors : db.getOkrAncestors 1 o.id = some [] := by
      have htop : db.parentOf o = none := by
        rw [parentOf, hparent, Option.filter_some, if_neg (by simp)]
        rfl
      rw [getOkrAncestors, getOkr_of_mem ho]
      simp only [climb, htop]
    have hcount := (h.exact "" fuel hierarchy hhierarchy).contains o ho 1 [] hancestors
    have hne : o.id ≠ "" := fun he => h.acyclic "" (.single (he ▸ hlink))
    rw [if_neg (by simpa using hne)] at hcount
    exact List.count_eq_zero.1 hcount hmet

theorem isForest_iff_sound : db.IsForest ↔ db.Sound :=
  ⟨sound_of_isForest, fun h => ⟨h.acyclic, terminates_of_acyclic h.acyclic, fun _ _ _ => exact_of_sound h⟩⟩

end Db

inductive Op
  | addWorker (worker : WorkerId)
  | deleteWorker (worker : WorkerId)
  | create (o : OKR)
  | updateStatus (id : OKRId) (status : String) (now : Time)
  | updateKeyResult (id : OKRId) (metric : String) (current : ℚ) (now : Time)
  | addKeyResult (id : OKRId) (kr : KeyResult) (now : Time)
  | link (l : WorkOKRLink)
  | unlink (workId : String) (id : OKRId)

namespace Db

def addWorker (db : Db) (worker : WorkerId) : Db :=
  { db with
    workers := worker :: db.workers
    owner_of_okr := fun o ho => List.mem_cons_of_mem _ (db.owner_of_okr o ho) }

/-- A call that raises leaves everything as it was. -/
def step (db : Db) : Op → Db
  | .addWorker worker => db.addWorker worker
  | .deleteWorker worker => db.deleteWorker worker
  | .create o => (db.createOkr o).toOption.getD db
  | .updateStatus id status now => (db.updateOkrStatus id status now).toOption.getD db
  | .updateKeyResult id metric current now => (db.updateOkrKeyResult id metric current now).2
  | .addKeyResult id kr now => (db.addOkrKeyResult id kr now).2
  | .link l => (db.linkWorkToOkr l).toOption.getD db
  | .unlink workId id => db.unlinkWorkFromOkr workId id

/-- The constraints of `okrs` are met. -/
def Accepts (db : Db) (o : OKR) : Prop := o.status ∈ statuses ∧ ¬db.okrs.Has o.id ∧ db.Refers o

/-- Where an objective is created, its parent is not itself, and not the one whose id is the empty text. -/
def Proper (db : Db) : Op → Prop
  | .create o => db.Accepts o → o.parentOkrId ≠ some o.id ∧ o.parentOkrId ≠ some ""
  | _ => True

variable {db db' : Db}

theorem Sound.mono (h : db.Sound)
    (hrows : ∀ o' ∈ db'.okrs.rows, ∃ o ∈ db.okrs.rows, o'.id = o.id ∧ ∀ parent ∈ o'.parentOkrId, o.parentOkrId = some parent) :
    db'.Sound where
  acyclic := by
    apply h.acyclic.mono
    rintro parent child ⟨o', ho', rfl, hparent⟩
    obtain ⟨o, ho, hid, hkept⟩ := hrows o' ho'
    exact ⟨o, ho, hid.symm, hkept parent hparent⟩
  named := by
    intro o' ho' hparent
    obtain ⟨o, ho, -, hkept⟩ := hrows o' ho'
    exact h.named o ho (hkept "" hparent)

theorem Sound.updateOkr (h : db.Sound) (id : OKRId) (f : OKR → OKR) (hf : ∀ o, (f o).id = o.id)
    (hrefs : ∀ o, (f o).ownerWorkerId = o.ownerWorkerId ∧ (f o).parentOkrId = o.parentOkrId) :
    (db.updateOkr id f hf hrefs).Sound := by
  apply h.mono
  intro o' ho'
  have hmem : o' ∈ (db.okrs.updateWhere (·.id = id) f hf).rows := ho'
  obtain ⟨o, ho, rfl⟩ := Table.mem_updateWhere.1 hmem
  refine ⟨o, ho, ?_⟩
  split_ifs
  · exact ⟨hf o, fun parent hparent => (hrefs o).2.symm.trans hparent⟩
  · exact ⟨rfl, fun parent hparent => hparent⟩

theorem Sound.setKeyResults (h : db.Sound) (id : OKRId) (keyResults : List KeyResult) (now : Time) :
    (db.setKeyResults id keyResults now).Sound :=
  h.updateOkr id ({ · with keyResults, updatedAt := now }) (fun _ => rfl) fun _ => ⟨rfl, rfl⟩

theorem Sound.of_okrs (h : db.Sound) (hokrs : db'.okrs = db.okrs) : db'.Sound := by
  apply h.mono
  rw [hokrs]
  exact fun o ho => ⟨o, ho, rfl, fun parent hparent => hparent⟩

theorem Sound.deleteWorker (h : db.Sound) (worker : WorkerId) : (db.deleteWorker worker).Sound := by
  apply h.mono
  intro o' ho'
  obtain ⟨o, ho, -, rfl⟩ := db.mem_deleted.1 ho'
  exact ⟨o, ho, rfl, fun parent hparent => (Option.filter_eq_some_iff.1 hparent).1⟩

theorem Sound.insertOkr (h : db.Sound) {o : OKR} (haccepts : db.Accepts o) (hid : ¬db.okrs.Has (Row.key o))
    (hproper : o.parentOkrId ≠ some o.id ∧ o.parentOkrId ≠ some "") :
    (db.insertOkr o hid haccepts.2.2).Sound where
  acyclic := by
    have hedges (parent child : OKRId) (hlink : (db.insertOkr o hid haccepts.2.2).ParentOf parent child) :
        db.ParentOf parent child ∨ child = o.id ∧ o.parentOkrId = some parent := by
      obtain ⟨o', ho', rfl, hparent⟩ := hlink
      obtain ho' | rfl := (Table.mem_insert hid).1 ho'
      · exact .inl ⟨o', ho', rfl, hparent⟩
      · exact .inr ⟨rfl, hparent⟩
    cases hparent : o.parentOkrId with
    | none =>
      apply h.acyclic.mono
      intro parent child hlink
      obtain hlink | ⟨-, hsome⟩ := hedges parent child hlink
      · exact hlink
      · cases hparent.symm.trans hsome
    | some parent =>
      have hback : ¬ReflTransGen db.ParentOf o.id parent := by
        intro hreach
        obtain heq | ⟨child, ⟨o', ho', -, hlink⟩, -⟩ := hreach.cases_head
        · exact hproper.1 (heq ▸ hparent)
        · exact hid (db.parent_of_okr o' ho' o.id hlink)
      apply (h.acyclic.addEdge hback).mono
      intro x child hlink
      obtain hlink | ⟨rfl, hsome⟩ := hedges x child hlink
      · exact .inl hlink
      · exact .inr ⟨Option.some.inj (hsome.symm.trans hparent), rfl⟩
  named := by
    intro o' ho'
    obtain ho' | rfl := (Table.mem_insert hid).1 ho'
    · exact h.named o' ho'
    · exact hproper.2

theorem proper_of_sound {o : OKR} (haccepts : db.Accepts o) (hid : ¬db.okrs.Has (Row.key o))
    (h : (db.insertOkr o hid haccepts.2.2).Sound) : o.parentOkrId ≠ some o.id ∧ o.parentOkrId ≠ some "" := by
  have hrow : o ∈ (db.insertOkr o hid haccepts.2.2).okrs.rows := (Table.mem_insert hid).2 (.inr rfl)
  exact ⟨fun hself => h.acyclic o.id (.single ⟨o, hrow, rfl, hself⟩), h.named o hrow⟩

theorem createOkr_of_accepts {o : OKR} (h : db.Accepts o) : db.createOkr o = .ok (db.insertOkr o h.2.1 h.2.2) := by
  rw [createOkr, if_neg (not_not.2 h.1), dif_neg, dif_pos]

theorem createOkr_of_not_accepts {o : OKR} (h : ¬db.Accepts o) : (db.createOkr o).toOption.getD db = db := by
  rw [createOkr]
  split_ifs with hstatus hid hrefers
  · rfl
  · exact (h ⟨hstatus, hid, hrefers⟩).elim
  · rfl
  · rfl

theorem sound_step (h : db.Sound) (op : Op) : (db.step op).Sound ↔ db.Proper op := by
  cases op with
  | create o =>
    by_cases haccepts : db.Accepts o
    · rw [step, createOkr_of_accepts haccepts]
      exact ⟨fun hsound _ => proper_of_sound haccepts _ hsound, fun hproper => h.insertOkr haccepts _ (hproper haccepts)⟩
    · rw [step, createOkr_of_not_accepts haccepts]
      exact iff_of_true h fun hyes => (haccepts hyes).elim
  | addWorker worker => exact iff_of_true (h.of_okrs rfl) trivial
  | deleteWorker worker => exact iff_of_true (h.deleteWorker worker) trivial
  | updateStatus id status now =>
    refine iff_of_true ?_ trivial
    rw [step, updateOkrStatus]
    split_ifs
    · exact h
    · exact h.updateOkr id ({ · with status, updatedAt := now }) (fun _ => rfl) fun _ => ⟨rfl, rfl⟩
  | updateKeyResult id metric current now =>
    refine iff_of_true ?_ trivial
    rw [step, updateOkrKeyResult]
    split
    · exact h
    · split
      · exact h
      · exact h.setKeyResults id _ now
  | addKeyResult id kr now =>
    refine iff_of_true ?_ trivial
    rw [step, addOkrKeyResult]
    split
    · exact h
    · split
      · exact h
      · exact h.setKeyResults id _ now
  | link l =>
    refine iff_of_true ?_ trivial
    rw [step, linkWorkToOkr]
    split_ifs
    · exact h.of_okrs rfl
    · exact h
    · exact h
  | unlink workId id => exact iff_of_true (h.of_okrs rfl) trivial

/-- In every state of a run the objectives are a forest, just where each is created properly. -/
theorem isForest_iff (ops : List Op) : Throughout step IsForest {} ops ↔ Along step Proper {} ops := by
  apply throughout_iff_along
  · intro db op h
    rw [isForest_iff_sound, sound_step (isForest_iff_sound.1 h)]
  · exact isForest_iff_sound.2 ⟨acyclic_of_rank (fun _ => 0) (by rintro x y ⟨o, ho, -⟩; cases ho), nofun⟩

/-- An objective that is its own parent. -/
theorem self_not_isForest :
    ¬Throughout step IsForest {} [.addWorker "ada", .create {
      id := "okr-1", title := "ship", ownerWorkerId := "ada", parentOkrId := some "okr-1", createdAt := 0, updatedAt := 0 }] := by
  rintro ⟨-, -, h⟩
  exact h.acyclic "okr-1" (.single ⟨_, List.mem_cons_self, rfl, rfl⟩)

end Db

end Quinn.Okr
