import Quinn.Index.Pairing
import Quinn.Pyterm.ClaudeCode

/-! Tool calls as they are written, and what the parser of `pyterm/parsers/claude_code.py` makes of them. -/

namespace Quinn.Pyterm.Control

open Index Text

/-- What may stand between the tags of a block. -/
structure Gap where
  text : String
  noParameter : ¬Contains text "<parameter"
  noClose : ¬Contains text "</invoke>"

/-- What may stand around the blocks. -/
structure Prose where
  text : String
  noInvoke : ¬Contains text "<invoke"

structure Parameter where
  name : String
  value : String
  named : name ≠ ""
  noQuote : '\x22' ∉ name.toList
  noTag : '<' ∉ name.toList
  noClose : ¬Contains value "</parameter>"
  noInvokeClose : ¬Contains value "</invoke>"

/-- A tool call, with what stands before each of its parameters and after the last. -/
structure Invocation where
  name : String
  parameters : List (Gap × Parameter)
  last : Gap
  named : name ≠ ""
  noQuote : '\x22' ∉ name.toList
  distinct : (parameters.map (·.2.name)).Nodup

def element (word name body : String) : String :=
  "<" ++ word ++ " name=\x22" ++ name ++ "\x22>" ++ body ++ "</" ++ word ++ ">"

def Parameter.render (p : Parameter) : String := element "parameter" p.name p.value

def renderParameters : List (Gap × Parameter) → String
  | [] => ""
  | (gap, p) :: ps => gap.text ++ p.render ++ renderParameters ps

def Invocation.body (call : Invocation) : String := renderParameters call.parameters ++ call.last.text

def Invocation.render (call : Invocation) : String := element "invoke" call.name call.body

def renderCalls : List (Prose × Invocation) → Prose → String
  | [], rest => rest.text
  | (prose, call) :: calls, rest => prose.text ++ call.render ++ renderCalls calls rest

section patterns

variable {s v w n after : Screen} {a b : List Char} {word close : String} {m : Screen → Option Element} {e : Element}

theorem text_append : Screen.text (v ++ w) = v.text ++ w.text := List.map_append

theorem length_text : s.text.length = s.length := List.length_map _

theorem exists_append_of_text (h : s.text = a ++ b) : ∃ v w : Screen, s = v ++ w ∧ v.text = a ∧ w.text = b :=
  List.map_eq_append_iff.1 h

theorem exists_cons_of_text {c : Char} (h : s.text = c :: a) :
    ∃ cell v, s = cell :: v ∧ cell.char = c ∧ Screen.text v = a :=
  List.map_eq_cons_iff.1 h

theorem startsWith_of_text (h : v.text = word.toList) : Screen.StartsWith (v ++ w) word := by
  rw [Screen.StartsWith, text_append, h]
  exact List.prefix_append _ _

theorem lengthUntil_append (hv : Free close.toList v.text w.text) (hw : w.StartsWith close) (hclose : close ≠ "") :
    lengthUntil close (v ++ w) = some v.length := by
  induction v with
  | nil =>
    cases w with
    | nil => exact absurd (String.toList_eq_nil_iff.1 (List.prefix_nil.1 hw)) hclose
    | cons cell w => exact if_pos hw
  | cons cell v ih =>
    have hnot : ¬Screen.StartsWith (cell :: (v ++ w)) close := by
      rw [Screen.StartsWith, Screen.text, List.map_cons, ← Screen.text, text_append]
      exact hv.1
    rw [List.cons_append, lengthUntil, if_neg hnot, ih hv.2]
    rfl

theorem findIter_skip : findIter m v.length (v ++ w) = findIter m 0 w := by
  induction v with
  | nil => rfl
  | cons cell v ih => exact ih

theorem findIter_free (hm : ∀ s e, m s = some e → s.StartsWith word) (hv : Free word.toList v.text w.text) :
    findIter m 0 (v ++ w) = findIter m 0 w := by
  induction v with
  | nil => rfl
  | cons cell v ih =>
    rw [List.cons_append, findIter]
    cases hmatch : m (cell :: (v ++ w)) with
    | none => exact ih hv.2
    | some e =>
      have hstarts := hm _ _ hmatch
      rw [Screen.StartsWith, Screen.text, List.map_cons, ← Screen.text, text_append] at hstarts
      exact absurd hstarts hv.1

theorem findIter_append (hm : m (v ++ w) = some e) (hlength : e.length = v.length) (hv : v ≠ []) :
    findIter m 0 (v ++ w) = e :: findIter m 0 w := by
  cases v with
  | nil => exact absurd rfl hv
  | cons cell v =>
    rw [List.cons_append] at hm ⊢
    rw [findIter, hm]
    dsimp only
    rw [hlength]
    exact congrArg (e :: ·) findIter_skip

theorem matchNamed_append {h : Screen} {q : Cell} (hh : h.text = ("<" ++ word ++ " name=\x22").toList) (hn : n ≠ [])
    (hname : '\x22' ∉ n.text) (hq : q.char = '\x22') :
    matchNamed word (h ++ (n ++ q :: after)) = some (n.text, after) := by
  have hparts : h.text = ("<" ++ word).toList ++ ' ' :: "name=\x22".toList := by simp [hh]
  obtain ⟨h₁, h₂, rfl, hword, hrest⟩ := exists_append_of_text hparts
  obtain ⟨space, attr, rfl, hspace, hattr⟩ := exists_cons_of_text hrest
  obtain ⟨first, attr', rfl, hfirst, -⟩ :=
    exists_cons_of_text (hattr.trans (show _ = 'n' :: "ame=\x22".toList from rfl))
  have hlength : h₁.length = word.length + 1 := by
    rw [← length_text, hword]
    simp [Nat.add_comm, String.length_toList]
  have hdrop : (h₁ ++ space :: first :: attr' ++ (n ++ q :: after)).drop (word.length + 1) =
      space :: first :: (attr' ++ (n ++ q :: after)) := by
    rw [List.append_assoc, List.drop_left' hlength]
    rfl
  have hblank : (space :: first :: (attr' ++ (n ++ q :: after))).dropWhile Cell.isSpace =
      first :: (attr' ++ (n ++ q :: after)) := by
    rw [List.dropWhile_cons_of_pos, List.dropWhile_cons_of_neg]
    · rw [Cell.isSpace, hfirst]
      decide
    · rw [Cell.isSpace, hspace]
      decide
  have hvalue : (first :: (attr' ++ (n ++ q :: after))).drop 6 = n ++ q :: after := by
    have hsix : (first :: attr').length = 6 := by
      rw [← length_text, hattr]
      rfl
    rw [← List.cons_append, List.drop_left' hsix]
  have hplain : ∀ cell ∈ n, decide (cell.char ≠ '\x22') = true := by
    intro cell hcell
    exact decide_eq_true fun heq => hname (heq ▸ List.mem_map_of_mem hcell)
  have hstarts : Screen.StartsWith (h₁ ++ space :: first :: attr' ++ (n ++ q :: after)) ("<" ++ word) := by
    rw [List.append_assoc]
    exact startsWith_of_text hword
  have hattrs : Screen.StartsWith (first :: (attr' ++ (n ++ q :: after))) "name=\x22" :=
    startsWith_of_text (v := first :: attr') hattr
  unfold matchNamed
  dsimp only
  rw [hdrop, hblank, hvalue, if_pos ⟨hstarts, by simp, hattrs⟩, List.takeWhile_append_of_pos hplain,
    List.dropWhile_append_of_pos hplain, List.takeWhile_cons_of_neg (by simp [hq]),
    List.dropWhile_cons_of_neg (by simp [hq]), List.append_nil]
  cases n with
  | nil => exact absurd rfl hn
  | cons cell n => rfl

theorem startsWith_of_matchNamed {r : List Char × Screen} (h : matchNamed word s = some r) :
    s.StartsWith ("<" ++ word) := by
  unfold matchNamed at h
  dsimp only at h
  split at h
  · next hstarts => exact hstarts.1
  · cases h

theorem closeElement_append {h c : Screen} (name : List Char) (hc : c.text = close.toList) (hclose : close ≠ "")
    (hv : Free close.toList v.text (close.toList ++ w.text)) :
    closeElement close (h ++ (v ++ (c ++ w))) name (v ++ (c ++ w)) = some ⟨name, v, (h ++ (v ++ c)).length⟩ := by
  have hlength : c.length = close.length := by
    rw [← length_text, hc, String.length_toList]
  have huntil : lengthUntil close (v ++ (c ++ w)) = some v.length := by
    refine lengthUntil_append ?_ (startsWith_of_text hc) hclose
    rw [text_append, hc]
    exact hv
  rw [closeElement, huntil]
  simp only [Option.bind_eq_bind, Option.bind_some, List.take_left, List.length_append, Option.pure_def]
  congr 2
  omega

theorem exists_element {name body : String} (hnamed : name ≠ "") (hquote : '\x22' ∉ name.toList)
    (hclose : "</" ++ word ++ ">" = close) (hbody : Free close.toList body.toList (close.toList ++ w.text))
    (hv : v.text = (element word name body).toList) :
    ∃ cell rest b, matchNamed word (v ++ w) = some (name.toList, cell :: rest) ∧ cell.char = '>' ∧
      closeElement close (v ++ w) name.toList rest = some ⟨name.toList, b, v.length⟩ ∧ b.text = body.toList := by
  have hparts : v.text = ("<" ++ word ++ " name=\x22").toList ++
      (name.toList ++ '\x22' :: '>' :: (body.toList ++ close.toList)) := by simp [hv, element, ← hclose]
  obtain ⟨h, v₁, rfl, hh, hv₁⟩ := exists_append_of_text hparts
  obtain ⟨n, v₂, rfl, hn, hv₂⟩ := exists_append_of_text hv₁
  obtain ⟨q, v₃, rfl, hq, hv₃⟩ := exists_cons_of_text hv₂
  obtain ⟨cell, v₄, rfl, hcell, hv₄⟩ := exists_cons_of_text hv₃
  obtain ⟨b, c, rfl, hb, hc⟩ := exists_append_of_text hv₄
  have hne : n ≠ [] := by
    rintro rfl
    exact hnamed (String.toList_eq_nil_iff.1 hn.symm)
  have htag : matchNamed word (h ++ (n ++ q :: cell :: (b ++ (c ++ w)))) =
      some (name.toList, cell :: (b ++ (c ++ w))) := by
    rw [matchNamed_append hh hne (by rwa [hn]) hq, hn]
  have hend : closeElement close ((h ++ (n ++ [q, cell])) ++ (b ++ (c ++ w))) name.toList (b ++ (c ++ w)) =
      some ⟨name.toList, b, ((h ++ (n ++ [q, cell])) ++ (b ++ c)).length⟩ := by
    have hne : close ≠ "" := by
      rintro rfl
      simpa using congrArg String.toList hclose
    refine closeElement_append _ hc hne ?_
    rw [hb]
    exact hbody
  refine ⟨cell, b ++ (c ++ w), b, ?_, hcell, ?_, hb⟩
  · simpa using htag
  · simpa using hend

end patterns

theorem startsWith_of_matchParameter {s : Screen} {e : Element} (h : matchParameter s = some e) :
    s.StartsWith "<parameter" := by
  unfold matchParameter at h
  cases htag : matchNamed "parameter" s with
  | none =>
    rw [htag] at h
    cases h
  | some r => exact startsWith_of_matchNamed htag

theorem startsWith_of_matchInvoke {s : Screen} {e : Element} (h : matchInvoke s = some e) : s.StartsWith "<invoke" := by
  unfold matchInvoke matchInvokeTag at h
  cases htag : matchNamed "invoke" s with
  | none =>
    rw [htag] at h
    cases h
  | some r => exact startsWith_of_matchNamed htag

theorem toList_invoke : "<invoke".toList = '<' :: ['i', 'n', 'v', 'o', 'k', 'e'] := by decide

theorem toList_invokeClose : "</invoke>".toList = '<' :: ['/', 'i', 'n', 'v', 'o', 'k', 'e', '>'] := by decide

theorem toList_parameter : "<parameter".toList = '<' :: ['p', 'a', 'r', 'a', 'm', 'e', 't', 'e', 'r'] := by decide

theorem toList_parameterClose :
    "</parameter>".toList = '<' :: ['/', 'p', 'a', 'r', 'a', 'm', 'e', 't', 'e', 'r', '>'] := by decide

theorem Gap.free_parameter (gap : Gap) {w : List Char} (hw : ∀ a ∈ w.head?, a = '<') :
    Free "<parameter".toList gap.text.toList w := by
  have hgap := gap.noParameter
  rw [Contains] at hgap
  rw [toList_parameter] at hgap ⊢
  exact free_of_not_infix (by decide) hgap hw

theorem free_invokeClose {text : String} (htext : ¬Contains text "</invoke>") {w : List Char}
    (hw : ∀ a ∈ w.head?, a = '<') : Free "</invoke>".toList text.toList w := by
  rw [Contains] at htext
  rw [toList_invokeClose] at htext ⊢
  exact free_of_not_infix (by decide) htext hw

theorem Prose.free_invoke (prose : Prose) {w : List Char} (hw : ∀ a ∈ w.head?, a = '<') :
    Free "<invoke".toList prose.text.toList w := by
  have hprose := prose.noInvoke
  rw [Contains] at hprose
  rw [toList_invoke] at hprose ⊢
  exact free_of_not_infix (by decide) hprose hw

namespace Parameter

variable (p : Parameter)

theorem toList_render : p.render.toList =
    '<' :: (['p', 'a', 'r', 'a', 'm', 'e', 't', 'e', 'r', ' ', 'n', 'a', 'm', 'e', '=', '\x22'] ++
      (p.name.toList ++ ['\x22', '>'])) ++ (p.value.toList ++ "</parameter>".toList) := by
  simp [render, element]

theorem head_render {w : List Char} : ∀ a ∈ (p.render.toList ++ w).head?, a = '<' := by
  simp [toList_render]

theorem ne_nil_of_render {v : Screen} (hv : v.text = p.render.toList) : v ≠ [] := by
  rintro rfl
  rw [toList_render] at hv
  cases hv

theorem matchParameter_render {v w : Screen} (hv : v.text = p.render.toList) : ∃ e, matchParameter (v ++ w) = some e ∧
    e.name = p.name.toList ∧ e.body.text = p.value.toList ∧ e.length = v.length := by
  have hfree : Free "</parameter>".toList p.value.toList ("</parameter>".toList ++ w.text) := by
    have hvalue := p.noClose
    rw [Contains] at hvalue
    rw [toList_parameterClose] at hvalue ⊢
    exact free_of_not_infix (by decide) hvalue (by simp)
  obtain ⟨cell, rest, b, htag, hcell, hclose, hb⟩ := exists_element p.named p.noQuote (by decide) hfree hv
  refine ⟨⟨p.name.toList, b, v.length⟩, ?_, rfl, hb, rfl⟩
  rw [matchParameter, htag]
  exact (if_pos hcell).trans hclose

theorem free_close {w : List Char} : Free "</invoke>".toList p.render.toList w := by
  rw [toList_render, free_append, free_append]
  refine ⟨?_, free_invokeClose p.noInvokeClose (by simp [toList_parameterClose]), ?_⟩
  · rw [toList_invokeClose]
    exact free_cons (by simp [p.noTag]) (by simp)
  · rw [toList_invokeClose, toList_parameterClose]
    exact free_cons (by simp) (by simp)

end Parameter

theorem free_renderParameters (ps : List (Gap × Parameter)) (last : Gap) {w : List Char} (hw : ∀ a ∈ w.head?, a = '<') :
    Free "</invoke>".toList (renderParameters ps ++ last.text).toList w := by
  induction ps with
  | nil =>
    rw [renderParameters, String.empty_append]
    exact free_invokeClose last.noClose hw
  | cons p ps ih =>
    obtain ⟨gap, p⟩ := p
    rw [renderParameters, String.append_assoc, String.append_assoc, String.toList_append, String.toList_append,
      free_append, free_append, List.append_assoc]
    exact ⟨free_invokeClose gap.noClose p.head_render, p.free_close, ih⟩

theorem findIter_parameters (ps : List (Gap × Parameter)) (last : Gap) (s : Screen)
    (hs : s.text = (renderParameters ps ++ last.text).toList) :
    (findIter matchParameter 0 s).map (fun e => (String.ofList e.name, String.ofList e.body.text)) =
      ps.map fun p => (p.2.name, p.2.value) := by
  induction ps generalizing s with
  | nil =>
    have hfree : Free "<parameter".toList s.text (Screen.text []) := by
      rw [hs, renderParameters, String.empty_append]
      exact last.free_parameter (by simp [Screen.text])
    have hnone := findIter_free (fun _ _ => startsWith_of_matchParameter) hfree
    rw [List.append_nil] at hnone
    rw [hnone]
    rfl
  | cons p ps ih =>
    obtain ⟨gap, p⟩ := p
    rw [renderParameters, String.append_assoc, String.append_assoc, String.toList_append, String.toList_append] at hs
    obtain ⟨g, s', rfl, hg, hs'⟩ := exists_append_of_text hs
    obtain ⟨v, rest, rfl, hv, hrest⟩ := exists_append_of_text hs'
    have hfree : Free "<parameter".toList g.text (Screen.text (v ++ rest)) := by
      rw [hg, text_append, hv]
      exact gap.free_parameter p.head_render
    obtain ⟨e, hmatch, hname, hbody, hlength⟩ := p.matchParameter_render hv
    rw [findIter_free (fun _ _ => startsWith_of_matchParameter) hfree,
      findIter_append hmatch hlength (p.ne_nil_of_render hv), List.map_cons, List.map_cons, ih rest hrest, hname, hbody,
      String.ofList_toList, String.ofList_toList]

theorem strip_text (s : Screen) : String.ofList s.strip.text = strip (String.ofList s.text) := by
  have hspace : Cell.isSpace = isSpace ∘ Cell.char := rfl
  rw [strip, String.toList_ofList, Screen.strip, List.rdropWhile, hspace]
  simp only [Screen.text, List.dropWhile_map, ← List.map_reverse]

namespace Invocation

variable (call : Invocation)

def arguments : Arguments := call.parameters.map fun p => (p.2.name, strip p.2.value)

theorem toList_render : call.render.toList = '<' :: ("invoke name=\x22".toList ++ (call.name.toList ++
    ("\x22>".toList ++ (call.body.toList ++ "</invoke>".toList)))) := by
  simp [render, element]

theorem ne_nil_of_render {v : Screen} (hv : v.text = call.render.toList) : v ≠ [] := by
  rintro rfl
  rw [toList_render] at hv
  cases hv

theorem block_of_body {e : Element} (hname : e.name = call.name.toList) (hbody : e.body.text = call.body.toList) :
    e.block = ⟨call.name, call.arguments⟩ := by
  have hread := findIter_parameters call.parameters call.last e.body hbody
  have hnodup : ((findIter matchParameter 0 e.body).map fun p => String.ofList p.name).Nodup := by
    have hnames := congrArg (List.map Prod.fst) hread
    rw [List.map_map, List.map_map] at hnames
    rw [show (fun p : Element => String.ofList p.name) =
      Prod.fst ∘ fun e : Element => (String.ofList e.name, String.ofList e.body.text) from rfl, hnames]
    exact call.distinct
  have hset : e.block = ⟨String.ofList e.name, (findIter matchParameter 0 e.body).foldl
      (fun d p => setItem d (String.ofList p.name) (String.ofList p.body.strip.text)) []⟩ := rfl
  rw [hset, foldl_setItem hnodup, hname, String.ofList_toList]
  congr 1
  have hstripped := congrArg (List.map fun a : String × String => (a.1, strip a.2)) hread
  rw [List.map_map, List.map_map] at hstripped
  rw [arguments]
  simpa only [Function.comp_def, ← strip_text] using hstripped

theorem matchInvoke_render {v w : Screen} (hv : v.text = call.render.toList) : ∃ e, matchInvoke (v ++ w) = some e ∧
    e.name = call.name.toList ∧ e.body.text = call.body.toList ∧ e.length = v.length := by
  have hfree : Free "</invoke>".toList call.body.toList ("</invoke>".toList ++ w.text) :=
    free_renderParameters call.parameters call.last (by simp [toList_invokeClose])
  obtain ⟨cell, rest, b, htag, hcell, hclose, hb⟩ := exists_element call.named call.noQuote (by decide) hfree hv
  refine ⟨⟨call.name.toList, b, v.length⟩, ?_, rfl, hb, rfl⟩
  have hend : (cell :: rest).dropWhile (·.char ≠ '>') = cell :: rest := List.dropWhile_cons_of_neg (by simp [hcell])
  rw [matchInvoke, matchInvokeTag, htag]
  simp only [Option.bind_eq_bind, Option.bind_some, hend]
  exact hclose

end Invocation

theorem blocks_render (calls : List (Prose × Invocation)) (rest : Prose) (raw : Screen)
    (hraw : raw.text = (renderCalls calls rest).toList) :
    blocks raw = calls.map fun c => ⟨c.2.name, c.2.arguments⟩ := by
  unfold blocks
  induction calls generalizing raw with
  | nil =>
    have hfree : Free "<invoke".toList raw.text (Screen.text []) := by
      rw [hraw, renderCalls]
      exact rest.free_invoke (by simp [Screen.text])
    have hnone := findIter_free (fun _ _ => startsWith_of_matchInvoke) hfree
    rw [List.append_nil] at hnone
    rw [hnone]
    rfl
  | cons c calls ih =>
    obtain ⟨prose, call⟩ := c
    rw [renderCalls, String.append_assoc, String.toList_append, String.toList_append] at hraw
    obtain ⟨t, raw', rfl, ht, hraw'⟩ := exists_append_of_text hraw
    obtain ⟨v, more, rfl, hv, hmore⟩ := exists_append_of_text hraw'
    have hfree : Free "<invoke".toList t.text (Screen.text (v ++ more)) := by
      rw [ht, text_append, hv]
      exact prose.free_invoke (by simp [call.toList_render])
    obtain ⟨e, hmatch, hname, hbody, hlength⟩ := call.matchInvoke_render hv
    rw [findIter_free (fun _ _ => startsWith_of_matchInvoke) hfree,
      findIter_append hmatch hlength (call.ne_nil_of_render hv), List.map_cons, List.map_cons, ih more hmore,
      call.block_of_body hname hbody]

theorem map_toolCall {T : Type} (draws : Nat → Draw T) (bs : List Block) :
    (bs.mapIdx fun i b => b.toolCall (draws i)).map (fun call => (call.name, call.arguments)) =
      bs.map fun b => (b.name, b.arguments) := by
  induction bs generalizing draws with
  | nil => rfl
  | cons b bs ih =>
    rw [List.mapIdx_cons, List.map_cons, List.map_cons]
    exact congrArg _ (ih fun i => draws (i + 1))

/-- Whatever is drawn for the calls, they are read as they were written, but for the white space around values. -/
theorem extractToolCalls_render {T : Type} (draws : Nat → Draw T) (calls : List (Prose × Invocation)) (rest : Prose)
    (raw : Screen) (hraw : raw.text = (renderCalls calls rest).toList) :
    (extractToolCalls draws raw).map (fun call => (call.name, call.arguments)) =
      calls.map fun c => (c.2.name, c.2.parameters.map fun p => (p.2.name, strip p.2.value)) := by
  rw [extractToolCalls, map_toolCall, blocks_render calls rest raw hraw, List.map_map]
  rfl

def lineBreak : Gap := ⟨"\n", by decide, by decide⟩

def twoCalls : List (Prose × Invocation) :=
  [(⟨"I will look first. <inv", by decide⟩,
    { name := "Bash"
      parameters := [(lineBreak, ⟨"command", " ls <dir> ", by decide, by decide, by decide, by decide, by decide⟩)]
      last := lineBreak
      named := by decide
      noQuote := by decide
      distinct := by decide }),
    (⟨"\n", by decide⟩,
    { name := "Write"
      parameters := [
        (lineBreak, ⟨"file_path", "a.xml", by decide, by decide, by decide, by decide, by decide⟩),
        (lineBreak, ⟨"content", "<invoke name=\x22Read\x22><parameter name=\x22x\x22>", by decide, by decide, by decide,
          by decide, by decide⟩)]
      last := lineBreak
      named := by decide
      noQuote := by decide
      distinct := by decide })]

def written (text : String) : Screen := text.toList.map fun char => { char, isNew := true }

theorem written_text (text : String) : (written text).text = text.toList := by
  simp [written, Screen.text, Function.comp_def]

def numbered (i : Nat) : Draw Nat := ⟨toString i, i⟩

theorem twoCalls_read :
    (extractToolCalls numbered (written (renderCalls twoCalls ⟨" Done.", by decide⟩))).map
      (fun call => (call.name, call.arguments)) =
    twoCalls.map fun c => (c.2.name, c.2.parameters.map fun p => (p.2.name, strip p.2.value)) :=
  extractToolCalls_render numbered twoCalls _ _ (written_text _)

end Quinn.Pyterm.Control
