import Mathlib.Data.List.Dedup
import Mathlib.Data.List.Perm.Basic
import Mathlib.Tactic.IntervalCases
import Quinn.Checks.Order
import Quinn.Logs.Reader

/-! When `read_logs` returns all that it is asked for, and returns it once. -/

namespace Quinn.Logs

open Calendar Okr Search Checks
open Text (digit)

theorem digit_digitChar : ∀ n < 10, digit (Nat.digitChar n) = some n := by decide

theorem matchMonth_digits {month : Nat} (h : 1 ≤ month ∧ month ≤ 12) (rest : List Char) :
    matchMonth (Nat.digitChar (month / 10) :: Nat.digitChar (month % 10) :: rest) = some (month, rest) := by
  obtain ⟨hpos, hle⟩ := h
  interval_cases month <;> rfl

theorem matchDay_digits {day : Nat} (h : 1 ≤ day ∧ day ≤ 31) :
    matchDay [Nat.digitChar (day / 10), Nat.digitChar (day % 10)] = some day := by
  obtain ⟨hpos, hle⟩ := h
  interval_cases day <;> decide

theorem strptime_strftime (date : Date) : strptime (strftime date) = some date := by
  obtain ⟨year, month, day, hday⟩ := date
  have hyear : year ≤ 9999 := hday.year_mem.2
  have h₁ := digit_digitChar (year / 1000) (by omega)
  have h₂ := digit_digitChar (year / 100 % 10) (by omega)
  have h₃ := digit_digitChar (year / 10 % 10) (by omega)
  have h₄ := digit_digitChar (year % 10) (by omega)
  have hvalue : value [Nat.digitChar (year / 1000), Nat.digitChar (year / 100 % 10), Nat.digitChar (year / 10 % 10),
      Nat.digitChar (year % 10)] = year := by
    simp only [value, List.foldl, h₁, h₂, h₃, h₄, Option.getD_some]
    omega
  have hmonth := matchMonth_digits hday.month_mem
  have hday' := matchDay_digits ⟨hday.day_mem.1, hday.day_mem.2.trans (daysInMonth_le year month)⟩
  rw [strftime, strptime, String.toList_ofList]
  simp [isDigit, h₁, h₂, h₃, h₄, hmonth, hday', hvalue, hday]

theorem strftime_injective : Function.Injective strftime := by
  intro date date' h
  simpa [strptime_strftime] using congrArg strptime h

def Filter.covers (f : Filter) (file : LogFile) : Bool := (strptime file.stem).any (f.InRange ·)

/-- Its name is the one that the day is written with. -/
def isProper (file : LogFile) : Bool := (strptime file.stem).any (strftime · = file.stem)

def Filter.reads (f : Filter) (file : LogFile) : Bool := f.covers file && isProper file

def stamp (line : Line) : Json :=
  match line.entry with
  | .obj fields => ((Json.get fields "timestamp").getD (.str "")).norm
  | _ => .null

namespace Tree

variable (tree : Tree)

/-- The files that are read, in order. -/
def filesToRead (f : Filter) : List (String × LogFile) :=
  (tree.componentDirs f.component).flatMap fun d =>
    (tree.datesToRead f).filterMap fun date => (fileOf (d, date)).map (d.1, ·)

theorem filesToRead_eq (f : Filter) :
    tree.filesToRead f = (tree.lookups f).filterMap fun d => (fileOf d).map (d.1.1, ·) := by
  simp only [filesToRead, lookups, List.filterMap_flatMap, List.filterMap_map, Function.comp_def]

def dirsAt (paths : List String) : List (String × Dir) :=
  paths.filterMap fun path => (tree.dir path).map (path, ·)

def meantDirs (component : Option String) : List (String × Dir) :=
  match given component with
  | some component => tree.dirsAt (getComponentDirs component)
  | none => tree.dirsAt tree.listComponents

/-- What else is read: the directories under other names of each component. -/
def otherDirs (component : Option String) : List (String × Dir) :=
  match given component with
  | some _ => []
  | none => tree.listComponents.flatMap fun comp => tree.dirsAt (getComponentDirs comp).tail

end Tree

section reading

variable (loads : String → Except LoadError Json)

/-- The entry that a line is, if it is an object and has the level. -/
def matching (level : Option String) (text : String) : Option Json :=
  if Text.strip text = "" then none
  else match loads (Text.strip text) with
    | .ok (.obj fields) =>
      if ∀ l ∈ given level, Json.get fields "level" = some (.str l) then some (.obj fields) else none
    | _ => none

def linesOf (level : Option String) (dir : String) (file : LogFile) : List Line :=
  file.lines.zipIdx.filterMap fun line => (matching loads level line.1).map (⟨dir, file.stem, line.2, ·⟩)

def linesIn (level : Option String) (p : LogFile → Bool) (dirs : List (String × Dir)) : List Line :=
  dirs.flatMap fun d => (d.2.files.filter p).flatMap (linesOf loads level d.1)

def meantLines (tree : Tree) (f : Filter) : List Line :=
  linesIn loads f.level f.covers (tree.meantDirs f.component)

/-- The lines that match are returned, each once and the newest first, whole and page by page. -/
structure IsReading (tree : Tree) (f : Filter) (logs : List Line) : Prop where
  returns : ∀ limit offset, ∃ page, readLogs loads tree f limit offset = .ok page
  whole : ∀ limit : Int, logs.length ≤ limit → readLogs loads tree f limit 0 = .ok logs
  exact : logs.Perm (meantLines loads tree f)
  descending : Descending Json.ltNorm stamp logs
  paged : ∀ n : Nat, 0 < n → ∃ pages : Nat → List Line,
    (∀ k : Nat, readLogs loads tree f n (k * n : Nat) = .ok (pages k)) ∧
      ∀ m, logs.length ≤ m * n → (List.range m).flatMap pages = logs

def Decodes (text : String) : Prop :=
  Text.strip text = "" ∨ loads (Text.strip text) = .error .jsonDecodeError ∨
    ∃ fields, loads (Text.strip text) = .ok (.obj fields)

structure Readable (file : LogFile) : Prop where
  stop_ne : file.stop ≠ some .unicodeDecodeError
  decodes : ∀ text ∈ file.lines, Decodes loads text

def IsObj (entry : Json) : Prop := ∃ fields, entry = .obj fields

variable {loads} {level : Option String} {dir : String} {file : LogFile} {text : String}

theorem readLine_of_decodes (h : Decodes loads text) :
    readLine loads level text = .ok (matching loads level text) := by
  unfold readLine matching
  split
  · rfl
  next hstrip =>
    obtain hload | ⟨fields, hload⟩ := h.resolve_left hstrip
    · rw [hload]
    · rw [hload]
      cases given level <;> simp

theorem not_isObj_of_readLine {entry : Option Json} (h : ¬Decodes loads text)
    (hread : readLine loads level text = .ok entry) : ∃ e ∈ entry, ¬IsObj e := by
  obtain ⟨hstrip, hload, hobj⟩ : _ ∧ _ ∧ _ := by simpa only [Decodes, not_or] using h
  rw [readLine, if_neg hstrip] at hread
  cases hloads : loads (Text.strip text) with
  | error e =>
    cases e with
    | jsonDecodeError => exact (hload hloads).elim
    | other =>
      rw [hloads] at hread
      cases hread
  | ok e =>
    have hnot : ¬IsObj e := by
      rintro ⟨fields, rfl⟩
      exact hobj ⟨fields, hloads⟩
    rw [hloads] at hread
    cases hlevel : given level with
    | none =>
      rw [hlevel] at hread
      cases hread
      exact ⟨e, rfl, hnot⟩
    | some l =>
      rw [hlevel] at hread
      cases e with
      | obj fields => exact (hnot ⟨fields, rfl⟩).elim
      | null | bool _ | num _ | nan | str _ | arr _ => cases hread

theorem isObj_of_mem_linesOf {line : Line} (h : line ∈ linesOf loads level dir file) : IsObj line.entry := by
  obtain ⟨⟨text, number⟩, -, hline⟩ := List.mem_filterMap.1 h
  obtain ⟨entry, hentry, rfl⟩ := Option.map_eq_some_iff.1 hline
  unfold matching at hentry
  split at hentry
  · cases hentry
  · split at hentry
    · split at hentry
      · cases hentry
        exact ⟨_, rfl⟩
      · cases hentry
    · cases hentry

theorem readLogFile_of_readable (h : Readable loads file) :
    readLogFile loads level dir file = .ok (linesOf loads level dir file) := by
  have hlines : file.lines.zipIdx.mapM (readNumbered loads level dir file.stem) = .ok (file.lines.zipIdx.map fun line =>
      (matching loads level line.1).map (⟨dir, file.stem, line.2, ·⟩)) := by
    apply mapM_eq_ok_map
    intro line hmem
    rw [readNumbered, readLine_of_decodes (h.decodes line.1 (List.fst_mem_of_mem_zipIdx hmem))]
    rfl
  rw [readLogFile, hlines, linesOf]
  cases hstop : file.stop with
  | none => simp [bind, Except.bind, pure, Except.pure]
  | some e =>
    cases e with
    | osError => simp [bind, Except.bind, pure, Except.pure]
    | unicodeDecodeError => exact (h.stop_ne hstop).elim

theorem not_isObj_of_readLogFile {logs : List Line} (h : ¬Readable loads file)
    (hread : readLogFile loads level dir file = .ok logs) : ∃ line ∈ logs, ¬IsObj line.entry := by
  obtain ⟨read, hlines, hstop⟩ := bind_eq_ok.1 hread
  obtain ⟨hgood, rfl⟩ : file.stop ≠ some .unicodeDecodeError ∧ logs = read.filterMap id := by
    split at hstop
    next hs => cases hstop
    all_goals
      next hs =>
        cases hstop
        rw [hs]
        exact ⟨nofun, rfl⟩
  obtain ⟨text, hmem, hbad⟩ : ∃ text ∈ file.lines, ¬Decodes loads text := by
    by_contra hall
    push Not at hall
    exact h ⟨hgood, hall⟩
  obtain ⟨number, hlt, rfl⟩ := List.getElem_of_mem hmem
  have hnumber : (file.lines[number], number) ∈ file.lines.zipIdx :=
    List.mem_zipIdx_iff_getElem?.2 (List.getElem?_eq_getElem hlt)
  obtain ⟨line, hline, hnumbered⟩ := exists_of_mem_left (mapM_eq_ok_iff.1 hlines) hnumber
  obtain ⟨entry, hentry, hok⟩ := bind_eq_ok.1 hnumbered
  obtain ⟨e, rfl, hnot⟩ := not_isObj_of_readLine hbad hentry
  cases hok
  exact ⟨_, List.mem_filterMap.2 ⟨_, hline, rfl⟩, hnot⟩

theorem isPartialLt_ltNorm : IsPartialLt Json.ltNorm := ⟨Json.ltNorm_total, Json.ltNorm_asymm, Json.ltNorm_trans⟩

theorem isObj_of_timestamp {entry key : Json} (h : timestamp entry = .ok key) : IsObj entry := by
  cases entry with
  | obj fields => exact ⟨fields, rfl⟩
  | null | bool _ | num _ | nan | str _ | arr _ => cases h

variable {logs sorted : List Line}

theorem sortLogs_of_isObj (h : ∀ line ∈ logs, IsObj line.entry) :
    sortLogs logs = match sortDesc Json.lessNorm Prod.snd (logs.map fun line => (line, stamp line)) with
      | some sorted => .ok (sorted.map Prod.fst)
      | none => .error .typeError := by
  have hkeyed : (logs.mapM fun line => (do return (line, (← timestamp line.entry).norm) : Except Raised (Line × Json))) =
      .ok (logs.map fun line => (line, stamp line)) := by
    apply mapM_eq_ok_map
    intro line hline
    obtain ⟨fields, hfields⟩ := h line hline
    simp [hfields, timestamp, stamp, pure, Except.pure, bind, Except.bind]
  rw [sortLogs, hkeyed]
  rfl

theorem isObj_of_sortLogs (h : sortLogs logs = .ok sorted) : ∀ line ∈ logs, IsObj line.entry := by
  intro line hline
  obtain ⟨keyed, hkeyed, -⟩ := bind_eq_ok.1 h
  obtain ⟨pair, -, hpair⟩ := exists_of_mem_left (mapM_eq_ok_iff.1 hkeyed) hline
  obtain ⟨key, hkey, -⟩ := bind_eq_ok.1 hpair
  exact isObj_of_timestamp hkey

theorem sortLogs_perm (h : sortLogs logs = .ok sorted) : sorted.Perm logs := by
  rw [sortLogs_of_isObj (isObj_of_sortLogs h)] at h
  cases hsort : sortDesc Json.lessNorm Prod.snd (logs.map fun line => (line, stamp line)) with
  | none =>
    rw [hsort] at h
    cases h
  | some keyed =>
    rw [hsort] at h
    cases h
    simpa [Function.comp_def] using (sortDesc_perm hsort).map Prod.fst

theorem exists_sortLogs (h : ∀ line ∈ logs, IsObj line.entry)
    (hcomparable : logs.Pairwise (Comparable Json.ltNorm stamp)) :
    ∃ sorted, sortLogs logs = .ok sorted ∧ Descending Json.ltNorm stamp sorted := by
  obtain ⟨keyed, hsort⟩ : ∃ l, sortDesc Json.ltNorm Prod.snd (logs.map fun line => (line, stamp line)) = some l :=
    (exists_sortDesc_iff isPartialLt_ltNorm).2 (List.pairwise_map.2 hcomparable)
  have hkey : ∀ pair ∈ keyed, pair.2 = stamp pair.1 := by
    intro pair hpair
    obtain ⟨line, -, rfl⟩ := List.mem_map.1 ((sortDesc_perm hsort).mem_iff.1 hpair)
    rfl
  have hless := sortDesc_of_le (fun _ _ _ => Json.lessNorm_of_ltNorm) hsort
  refine ⟨keyed.map Prod.fst, by rw [sortLogs_of_isObj h, hless], List.pairwise_map.2 ?_⟩
  refine (descending_sortDesc isPartialLt_ltNorm hsort).imp_of_mem fun {a b} ha hb hab => ?_
  rwa [← hkey a ha, ← hkey b hb]

variable {tree : Tree} {f : Filter}

def readLines (loads : String → Except LoadError Json) (tree : Tree) (f : Filter) : List Line :=
  (tree.filesToRead f).flatMap fun d => linesOf loads f.level d.1 d.2

theorem isObj_of_mem_readLines : ∀ line ∈ readLines loads tree f, IsObj line.entry := by
  intro line hline
  obtain ⟨d, -, hd⟩ := List.mem_flatMap.1 hline
  exact isObj_of_mem_linesOf hd

structure Unbarred (tree : Tree) (f : Filter) : Prop where
  dirs : ¬tree.Bars f.component
  files : ∀ d ∈ tree.componentDirs f.component, ∀ date ∈ tree.datesToRead f, tree.barsFile d.1 (strftime date) = false

theorem Unbarred.of_mem (h : Unbarred tree f) {d : (String × Dir) × Date} (hd : d ∈ tree.lookups f) :
    tree.barsFile d.1.1 (strftime d.2) = false := by
  obtain ⟨e, he, hde⟩ := List.mem_flatMap.1 hd
  obtain ⟨date, hdate, rfl⟩ := List.mem_map.1 hde
  exact h.files e he date hdate

theorem readAll_of_readable (hbars : Unbarred tree f) (h : ∀ d ∈ tree.filesToRead f, Readable loads d.2) :
    readAll loads tree f = sortLogs (readLines loads tree f) := by
  have hfiles : (tree.lookups f).mapM (readDate loads tree f.level) =
      .ok ((tree.lookups f).map fun d => ((fileOf d).map (linesOf loads f.level d.1.1)).getD []) := by
    apply mapM_eq_ok_map
    intro d hd
    rw [readDate, hbars.of_mem hd, if_neg Bool.false_ne_true]
    cases hfile : fileOf d with
    | none => rfl
    | some file => exact readLogFile_of_readable (h (d.1.1, file) (tree.filesToRead_eq f ▸ List.mem_filterMap.2 ⟨d, hd, by rw [hfile]; rfl⟩))
  have hlines : ((tree.lookups f).map fun d => ((fileOf d).map (linesOf loads f.level d.1.1)).getD []).flatten =
      readLines loads tree f := by
    rw [readLines, Tree.filesToRead_eq, ← List.flatMap_def]
    induction tree.lookups f with
    | nil => rfl
    | cons d ds ih =>
      rw [List.flatMap_cons, ih]
      cases hfile : fileOf d with
      | none => simp [hfile]
      | some file => simp [hfile]
  rw [readAll, if_neg hbars.dirs, hfiles]
  change sortLogs (List.flatten _) = _
  rw [hlines]

theorem readable_of_readAll (h : readAll loads tree f = .ok logs) :
    Unbarred tree f ∧ ∀ d ∈ tree.filesToRead f, Readable loads d.2 := by
  unfold readAll at h
  split at h
  · cases h
  next hdirs =>
    obtain ⟨read, hfiles, hsort⟩ := bind_eq_ok.1 h
    refine ⟨⟨hdirs, fun e he date hdate => ?_⟩, fun d hd => ?_⟩
    · have hlookup : (e, date) ∈ tree.lookups f := List.mem_flatMap.2 ⟨e, he, List.mem_map.2 ⟨date, hdate, rfl⟩⟩
      obtain ⟨lines, -, hread⟩ := exists_of_mem_left (mapM_eq_ok_iff.1 hfiles) hlookup
      unfold readDate at hread
      split at hread
      · cases hread
      next hbars => simpa using hbars
    · by_contra hbad
      rw [Tree.filesToRead_eq] at hd
      obtain ⟨e, he, hde⟩ := List.mem_filterMap.1 hd
      obtain ⟨file, hfile, rfl⟩ := Option.map_eq_some_iff.1 hde
      obtain ⟨lines, hlines, hread⟩ := exists_of_mem_left (mapM_eq_ok_iff.1 hfiles) he
      unfold readDate at hread
      split at hread
      · cases hread
      · rw [hfile] at hread
        obtain ⟨line, hline, hnot⟩ := not_isObj_of_readLogFile hbad hread
        exact hnot (isObj_of_sortLogs hsort line (List.mem_flatten.2 ⟨lines, hlines, hline⟩))

theorem readAll_perm (h : readAll loads tree f = .ok logs) : logs.Perm (readLines loads tree f) := by
  obtain ⟨hbars, hread⟩ := readable_of_readAll h
  rw [readAll_of_readable hbars hread] at h
  exact sortLogs_perm h

theorem exists_readAll (hbars : Unbarred tree f) (hread : ∀ d ∈ tree.filesToRead f, Readable loads d.2)
    (hcomparable : (readLines loads tree f).Pairwise (Comparable Json.ltNorm stamp)) :
    ∃ logs, readAll loads tree f = .ok logs ∧ Descending Json.ltNorm stamp logs := by
  rw [readAll_of_readable hbars hread]
  exact exists_sortLogs isObj_of_mem_readLines hcomparable

theorem nodup_datesToRead : (tree.datesToRead f).Nodup :=
  ((List.perm_insertionSort _ _).nodup_iff.2 (List.nodup_dedup _)).filter _

theorem mem_datesToRead {date : Date} : date ∈ tree.datesToRead f ↔
    (∃ d ∈ tree.componentDirs f.component, ∃ file ∈ d.2.files, strptime file.stem = some date) ∧ f.InRange date := by
  simp only [Tree.datesToRead, Tree.listDates, List.mem_filter, List.mem_insertionSort, List.mem_dedup, List.mem_flatMap,
    List.mem_filterMap, decide_eq_true_eq]

theorem Dir.find?_eq_some_iff {d : Dir} {stem : String} :
    d.files.find? (·.stem = stem) = some file ↔ file ∈ d.files ∧ file.stem = stem := by
  constructor
  · intro h
    exact ⟨List.mem_of_find?_eq_some h, by simpa using List.find?_some h⟩
  · rintro ⟨hmem, rfl⟩
    cases hfind : d.files.find? (·.stem = file.stem) with
    | none => simpa using List.find?_eq_none.1 hfind file hmem
    | some file' =>
      have hstem : file'.stem = file.stem := by simpa using List.find?_some hfind
      rw [List.inj_on_of_nodup_map d.nodup (List.mem_of_find?_eq_some hfind) hmem hstem]

theorem Filter.reads_iff : f.reads file = true ↔ ∃ date, strftime date = file.stem ∧ f.InRange date := by
  simp only [Filter.reads, Filter.covers, isProper, Bool.and_eq_true, Option.any_eq_true, decide_eq_true_eq]
  constructor
  · rintro ⟨⟨date, hdate, hrange⟩, date', hdate', hstem⟩
    cases hdate.symm.trans hdate'
    exact ⟨date, hstem, hrange⟩
  · rintro ⟨date, hstem, hrange⟩
    have hdate : strptime file.stem = some date := hstem ▸ strptime_strftime date
    exact ⟨⟨date, hdate, hrange⟩, date, hdate, hstem⟩

theorem files_perm {d : String × Dir} (hd : d ∈ tree.componentDirs f.component) :
    ((tree.datesToRead f).filterMap fun date => fileOf (d, date)).Perm
      (d.2.files.filter f.reads) := by
  have hnodup : ((tree.datesToRead f).filterMap fun date => fileOf (d, date)).Nodup := by
    refine nodup_datesToRead.filterMap fun date date' file hfile hfile' => ?_
    exact strftime_injective ((Dir.find?_eq_some_iff.1 hfile).2.symm.trans (Dir.find?_eq_some_iff.1 hfile').2)
  rw [List.perm_ext_iff_of_nodup hnodup (d.2.nodup.of_map.filter _)]
  intro file
  rw [List.mem_filterMap, List.mem_filter, Filter.reads_iff]
  constructor
  · rintro ⟨date, hdate, hfile⟩
    obtain ⟨hmem, hstem⟩ := Dir.find?_eq_some_iff.1 hfile
    exact ⟨hmem, date, hstem.symm, (mem_datesToRead.1 hdate).2⟩
  · rintro ⟨hmem, date, hstem, hrange⟩
    refine ⟨date, mem_datesToRead.2 ⟨⟨d, hd, file, hmem, ?_⟩, hrange⟩, Dir.find?_eq_some_iff.2 ⟨hmem, hstem.symm⟩⟩
    rw [← hstem, strptime_strftime]

theorem mem_filesToRead {d : String × LogFile} : d ∈ tree.filesToRead f ↔
    ∃ e ∈ tree.componentDirs f.component, d.1 = e.1 ∧ d.2 ∈ e.2.files ∧ f.reads d.2 = true := by
  simp only [Tree.filesToRead, ← List.map_filterMap, List.mem_flatMap]
  refine exists_congr fun e => and_congr_right fun he => ?_
  rw [List.mem_map]
  constructor
  · rintro ⟨file, hfile, rfl⟩
    exact ⟨rfl, List.mem_filter.1 ((files_perm he).mem_iff.1 hfile)⟩
  · rintro ⟨hpath, hfile⟩
    exact ⟨d.2, (files_perm he).mem_iff.2 (List.mem_filter.2 hfile), Prod.ext hpath.symm rfl⟩

theorem readLines_perm :
    (readLines loads tree f).Perm (linesIn loads f.level f.reads (tree.componentDirs f.component)) := by
  simp only [readLines, Tree.filesToRead, linesIn, ← List.map_filterMap, List.flatMap_assoc, List.flatMap_map]
  exact List.Perm.flatMap_left _ fun d hd => (files_perm hd).flatMap_right _

theorem Tree.dirsAt_append (paths paths' : List String) :
    tree.dirsAt (paths ++ paths') = tree.dirsAt paths ++ tree.dirsAt paths' := List.filterMap_append

theorem Tree.dirsAt_eq_flatMap (paths : List String) : tree.dirsAt paths = paths.flatMap fun path => tree.dirsAt [path] := by
  induction paths with
  | nil => rfl
  | cons path paths ih => rw [List.flatMap_cons, ← ih, ← Tree.dirsAt_append, List.singleton_append]

theorem Tree.componentDirs_perm (component : Option String) :
    (tree.componentDirs component).Perm (tree.meantDirs component ++ tree.otherDirs component) := by
  unfold Tree.componentDirs Tree.components Tree.meantDirs Tree.otherDirs
  cases given component with
  | some component => simp [Tree.dirsAt]
  | none =>
    have hcons : ∀ comp, tree.dirsAt (getComponentDirs comp) =
        tree.dirsAt [comp] ++ tree.dirsAt (getComponentDirs comp).tail := fun comp =>
      Tree.dirsAt_append [comp] (getComponentDirs comp).tail
    change (tree.listComponents.flatMap fun comp => tree.dirsAt (getComponentDirs comp)).Perm _
    simp only [hcons, Tree.dirsAt_eq_flatMap tree.listComponents]
    exact (List.flatMap_append_perm _ _ _).symm

theorem linesIn_append {p : LogFile → Bool} {dirs dirs' : List (String × Dir)} :
    linesIn loads level p (dirs ++ dirs') = linesIn loads level p dirs ++ linesIn loads level p dirs' :=
  List.flatMap_append

theorem linesIn_split {p q : LogFile → Bool} {dirs : List (String × Dir)} :
    (linesIn loads level p dirs).Perm
      (linesIn loads level (fun file => p file && q file) dirs ++
        linesIn loads level (fun file => p file && !q file) dirs) := by
  refine (List.Perm.flatMap_left _ fun d _ => ?_).trans (List.flatMap_append_perm _ _ _).symm
  rw [← List.flatMap_append]
  apply List.Perm.flatMap_right
  have hsplit := (List.filter_append_perm q (d.2.files.filter p)).symm
  rw [List.filter_filter, List.filter_filter] at hsplit
  simpa only [Bool.and_comm] using hsplit

theorem mem_linesIn {p : LogFile → Bool} {dirs : List (String × Dir)} {line : Line} :
    line ∈ linesIn loads level p dirs ↔
      ∃ d ∈ dirs, ∃ file ∈ d.2.files, p file = true ∧ line ∈ linesOf loads level d.1 file := by
  simp only [linesIn, List.mem_flatMap, List.mem_filter, and_assoc]

theorem file_of_mem_linesOf {line : Line} (h : line ∈ linesOf loads level dir file) : line.file = file.stem := by
  obtain ⟨at_, -, hline⟩ := List.mem_filterMap.1 h
  obtain ⟨entry, -, rfl⟩ := Option.map_eq_some_iff.1 hline
  rfl

theorem clamp_natCast (length i : Nat) : clamp length i = min i length := by simp [clamp]

theorem slice_natCast (logs : List Line) (i n : Nat) : slice logs i ((i : Int) + n) = (logs.drop i).take n := by
  rw [slice, ← Int.natCast_add, clamp_natCast, clamp_natCast, ← List.take_eq_take_min, List.take_drop]
  obtain hle | hle := le_total i logs.length
  · rw [min_eq_left hle]
  · have hshort : (logs.take (i + n)).length ≤ logs.length := by
      rw [List.length_take]
      exact min_le_right _ _
    rw [min_eq_right hle, List.drop_eq_nil_of_le hshort, List.drop_eq_nil_of_le (hshort.trans hle)]

theorem slice_all (logs : List Line) {limit : Int} (h : logs.length ≤ limit) : slice logs 0 (0 + limit) = logs := by
  obtain ⟨n, rfl⟩ := Int.eq_ofNat_of_zero_le ((Int.natCast_nonneg _).trans h)
  have hslice := slice_natCast logs 0 n
  rw [List.drop_zero, List.take_of_length_le (Int.ofNat_le.1 h)] at hslice
  exact hslice

theorem flatMap_pages (logs : List Line) (n m : Nat) :
    (List.range m).flatMap (fun k => (logs.drop (k * n)).take n) = logs.take (m * n) := by
  induction m with
  | zero => simp
  | succ m ih => rw [List.range_succ, List.flatMap_append, ih, List.flatMap_singleton, Nat.succ_mul, List.take_add]

theorem readLogs_of_readAll (h : readAll loads tree f = .ok logs) (limit offset : Int) :
    readLogs loads tree f limit offset = .ok (slice logs offset (offset + limit)) := by
  rw [readLogs, h]
  rfl

theorem isReading_of_readAll (h : readAll loads tree f = .ok logs) (hdescending : Descending Json.ltNorm stamp logs)
    (hlines : (readLines loads tree f).Perm (meantLines loads tree f)) : IsReading loads tree f logs where
  returns limit offset := ⟨_, readLogs_of_readAll h limit offset⟩
  whole limit hle := by rw [readLogs_of_readAll h, slice_all logs hle]
  exact := (readAll_perm h).trans hlines
  descending := hdescending
  paged n hpos := by
    refine ⟨fun k => (logs.drop (k * n)).take n, fun k => ?_, fun m hle => ?_⟩
    · rw [readLogs_of_readAll h, slice_natCast]
    · rw [flatMap_pages, List.take_of_length_le hle]

theorem IsReading.readAll_eq (h : IsReading loads tree f logs) : readAll loads tree f = .ok logs := by
  cases hall : readAll loads tree f with
  | error e =>
    obtain ⟨page, hpage⟩ := h.returns 0 0
    rw [readLogs, hall] at hpage
    cases hpage
  | ok logs' =>
    have hle : (logs.length : Int) ≤ max (logs.length : Int) logs'.length := le_max_left _ _
    have hle' : (logs'.length : Int) ≤ max (logs.length : Int) logs'.length := le_max_right _ _
    have hwhole := h.whole _ hle
    rwa [readLogs_of_readAll hall, slice_all logs' hle'] at hwhole

/-- Nothing that is looked for is barred; what is read are objects, whose timestamps can be compared; of the days in the range none has lines in a file
under another of its names; and where all components are read, there are no lines in a directory under another name
of one. -/
structure WellKept (loads : String → Except LoadError Json) (tree : Tree) (f : Filter) : Prop where
  unbarred : Unbarred tree f
  readable : ∀ d ∈ tree.componentDirs f.component, ∀ file ∈ d.2.files, f.reads file = true → Readable loads file
  comparable : (meantLines loads tree f).Pairwise (Comparable Json.ltNorm stamp)
  proper : ∀ d ∈ tree.meantDirs f.component, ∀ file ∈ d.2.files, f.covers file = true → isProper file = false →
    linesOf loads f.level d.1 file = []
  apart : ∀ d ∈ tree.otherDirs f.component, ∀ file ∈ d.2.files, f.reads file = true →
    linesOf loads f.level d.1 file = []

theorem linesIn_eq_nil {p : LogFile → Bool} {dirs : List (String × Dir)} : linesIn loads level p dirs = [] ↔
    ∀ d ∈ dirs, ∀ file ∈ d.2.files, p file = true → linesOf loads level d.1 file = [] := by
  simp only [linesIn, List.flatMap_eq_nil_iff, List.mem_filter, and_imp]

theorem readLines_perm_iff : (readLines loads tree f).Perm (meantLines loads tree f) ↔
    linesIn loads f.level f.reads (tree.otherDirs f.component) = [] ∧
      linesIn loads f.level (fun file => f.covers file && !isProper file) (tree.meantDirs f.component) = [] := by
  have hread : (readLines loads tree f).Perm (linesIn loads f.level f.reads (tree.meantDirs f.component) ++
      linesIn loads f.level f.reads (tree.otherDirs f.component)) := by
    rw [← linesIn_append]
    exact readLines_perm.trans ((tree.componentDirs_perm f.component).flatMap_right _)
  rw [hread.congr_left, meantLines, (linesIn_split (q := isProper)).congr_right]
  change List.Perm _ (linesIn loads f.level f.reads (tree.meantDirs f.component) ++ _) ↔ _
  rw [List.perm_append_left_iff]
  constructor
  · intro h
    have hnil : linesIn loads f.level f.reads (tree.otherDirs f.component) = [] := by
      refine List.eq_nil_iff_forall_not_mem.2 fun line hline => ?_
      obtain ⟨d, -, file, -, hfile, hin⟩ := mem_linesIn.1 hline
      obtain ⟨d', -, file', -, hfile', hin'⟩ := mem_linesIn.1 (h.mem_iff.1 hline)
      have hproper : isProper file = true := (Bool.and_eq_true_iff.1 hfile).2
      have hnot : isProper file' = false := by simpa using (Bool.and_eq_true_iff.1 hfile').2
      have hstem : file.stem = file'.stem := (file_of_mem_linesOf hin).symm.trans (file_of_mem_linesOf hin')
      rw [isProper, hstem] at hproper
      exact Bool.noConfusion (hproper.symm.trans hnot)
    rw [hnil] at h
    exact ⟨hnil, h.nil_eq.symm⟩
  · rintro ⟨hother, hmeant⟩
    rw [hother, hmeant]

/-- Reading is complete, and without duplicates, just when the logs are kept so. -/
theorem exists_isReading_iff (loads : String → Except LoadError Json) (tree : Tree) (f : Filter) :
    (∃ logs, IsReading loads tree f logs) ↔ WellKept loads tree f := by
  have hfiles : (∀ d ∈ tree.filesToRead f, Readable loads d.2) ↔
      ∀ d ∈ tree.componentDirs f.component, ∀ file ∈ d.2.files, f.reads file = true → Readable loads file := by
    constructor
    · intro h d hd file hfile hreads
      exact h (d.1, file) (mem_filesToRead.2 ⟨d, hd, rfl, hfile, hreads⟩)
    · intro h d hd
      obtain ⟨e, he, -, hfile, hreads⟩ := mem_filesToRead.1 hd
      exact h e he d.2 hfile hreads
  constructor
  · rintro ⟨logs, h⟩
    have hall := h.readAll_eq
    have hlines := (readAll_perm hall).symm.trans h.exact
    obtain ⟨hbars, hreadable⟩ := readable_of_readAll hall
    obtain ⟨hother, hmeant⟩ := readLines_perm_iff.1 hlines
    exact {
      unbarred := hbars
      readable := hfiles.1 hreadable
      comparable := (h.exact.pairwise_iff isPartialLt_ltNorm.comparable_symm).1 <|
        h.descending.imp fun hab => Option.isSome_of_eq_some hab
      proper := by simpa [linesIn_eq_nil] using hmeant
      apart := linesIn_eq_nil.1 hother }
  · intro h
    have hlines := readLines_perm_iff.2 ⟨linesIn_eq_nil.2 h.apart, linesIn_eq_nil.2 (by simpa using h.proper)⟩
    obtain ⟨logs, hall, hdescending⟩ := exists_readAll h.unbarred (hfiles.2 h.readable) <|
      (hlines.pairwise_iff isPartialLt_ltNorm.comparable_symm).2 h.comparable
    exact ⟨logs, isReading_of_readAll hall hdescending hlines⟩

end reading

def numberTree : Tree where
  names := ["cli"]
  nodup := by decide
  dir path := if path = "cli" then some ⟨[⟨"2026-01-01", ["123"], none⟩], by decide⟩ else none
  isSome_dir := by decide

/-- It is valid JSON, so it is not skipped, and has no timestamp. -/
theorem number_not_isReading : ¬∃ logs, IsReading
    (fun text => if text = "123" then .ok (.num ((123 : ℚ) : WithTop ℚ)) else .error .jsonDecodeError) numberTree
    ⟨none, none, none, none⟩ logs := by
  rintro ⟨logs, h⟩
  obtain ⟨page, hpage⟩ := h.returns 100 0
  have hraises : readLogs (fun text => if text = "123" then .ok (.num ((123 : ℚ) : WithTop ℚ))
      else .error .jsonDecodeError) numberTree ⟨none, none, none, none⟩ 100 0 = .error .attributeError := by
    decide +kernel
  cases hraises.symm.trans hpage

end Quinn.Logs
