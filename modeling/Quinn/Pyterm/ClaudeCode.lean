import Mathlib.Data.List.DropRight
import Quinn.Pyterm.Controller

/-! `ClaudeCodeParser` of `pyterm/parsers/claude_code.py`. -/

namespace Quinn.Pyterm.Control

def Cell.isSpace (cell : Cell) : Bool := Text.isSpace cell.char

namespace Screen

variable (s : Screen)

def strip : Screen := List.rdropWhile Cell.isSpace (s.dropWhile Cell.isSpace)

def Contains (part : String) : Prop := part.toList <:+: s.text

instance (part : String) : Decidable (s.Contains part) := inferInstanceAs (Decidable (_ <:+: _))

def StartsWith (word : String) : Prop := word.toList <+: s.text

instance (word : String) : Decidable (s.StartsWith word) := inferInstanceAs (Decidable (_ <+: _))

end Screen

/-- What lies before the first `close`, `[^<]*(?:<(?!/close)[^<]*)*`, by its length. -/
def lengthUntil (close : String) : Screen → Option Nat
  | [] => none
  | cell :: rest =>
    if Screen.StartsWith (cell :: rest) close then some 0 else (lengthUntil close rest).map (· + 1)

def matchNamed (word : String) (s : Screen) : Option (List Char × Screen) :=
  let rest := s.drop (word.length + 1)
  let attr : Screen := rest.dropWhile Cell.isSpace
  if s.StartsWith ("<" ++ word) ∧ attr.length < rest.length ∧ attr.StartsWith "name=\x22" then
    let value := attr.drop 6
    match value.takeWhile (·.char ≠ '\x22'), value.dropWhile (·.char ≠ '\x22') with
    | cell :: name, _ :: after => some (Screen.text (cell :: name), after)
    | _, _ => none
  else none

/-- `TAG_INVOKE_PATTERN`: the name of the tool, and what follows. -/
def matchInvokeTag (s : Screen) : Option (List Char × Screen) := do
  let (name, after) ← matchNamed "invoke" s
  match after.dropWhile (·.char ≠ '>') with
  | _ :: body => return (name, body)
  | [] => none

/-- A tag with its name, its body and its length up to the end of the closing tag. -/
structure Element where
  name : List Char
  body : Screen
  length : Nat

def closeElement (close : String) (s : Screen) (name : List Char) (after : Screen) : Option Element := do
  let n ← lengthUntil close after
  return ⟨name, after.take n, s.length - (after.length - n - close.length)⟩

/-- `invoke_block_pattern` -/
def matchInvoke (s : Screen) : Option Element := do
  let (name, body) ← matchInvokeTag s
  closeElement "</invoke>" s name body

/-- `TAG_PARAMETER_PATTERN` -/
def matchParameter (s : Screen) : Option Element := do
  match ← matchNamed "parameter" s with
  | (name, cell :: body) => if cell.char = '>' then closeElement "</parameter>" s name body else none
  | (_, []) => none

/-- `finditer`, after a match from its end on. -/
def findIter (m : Screen → Option Element) : Nat → Screen → List Element
  | _, [] => []
  | skip + 1, _ :: rest => findIter m skip rest
  | 0, cell :: rest =>
    match m (cell :: rest) with
    | some e => e :: findIter m (e.length - 1) rest
    | none => findIter m 0 rest

/-- `sub("", s)`; a pattern is told whether a line starts. -/
def remove (m : Bool → Screen → Option Nat) : Bool → Nat → Screen → Screen
  | _, _, [] => []
  | _, skip + 1, cell :: rest => remove m (cell.char = '\n') skip rest
  | start, 0, cell :: rest =>
    match m start (cell :: rest) with
    | some length => remove m (cell.char = '\n') (length - 1) rest
    | none => cell :: remove m (cell.char = '\n') 0 rest

/-- `fc_pattern` and `fr_pattern` -/
def matchBlock (opens close : String) (s : Screen) : Option Nat :=
  if s.StartsWith opens then (lengthUntil close (s.drop opens.length)).map (opens.length + · + close.length) else none

/-- `^>\s*$`: to the end, or to the last line break before something else. -/
def matchPrompt (start : Bool) : Screen → Option Nat
  | [] => none
  | cell :: rest =>
    if start ∧ cell.char = '>' then
      let blank := rest.takeWhile Cell.isSpace
      if blank.length = rest.length then some (1 + blank.length)
      else match (List.rdropWhile (·.char ≠ '\n') blank).length with
        | 0 => none
        | n + 1 => some (1 + n)
    else none

def maxParseInputSize : Nat := 100 * 1024

def truncateInput (raw : Screen) : Screen := raw.drop (raw.length - maxParseInputSize)

/-- A `dict`, in the order in which its keys came. -/
abbrev Arguments := List (String × String)

def Arguments.set (args : Arguments) (name value : String) : Arguments :=
  if name ∈ args.map Prod.fst then args.map fun a => if a.1 = name then (name, value) else a
  else args ++ [(name, value)]

/-- What a tool call is made of, apart from what is drawn for it. -/
structure Block where
  name : String
  arguments : Arguments
  deriving DecidableEq

def Element.block (e : Element) : Block where
  name := String.ofList e.name
  arguments := (findIter matchParameter 0 e.body).foldl
    (fun args p => args.set (String.ofList p.name) (String.ofList p.body.strip.text)) []

def blocks (raw : Screen) : List Block := (findIter matchInvoke 0 raw).map Element.block

def Block.toolCall {T : Type} (b : Block) (draw : Draw T) : ToolCall Arguments T where
  id := "tc-" ++ draw.hex
  name := b.name
  arguments := b.arguments
  timestamp := draw.now

def extractToolCalls {T : Type} (draws : Nat → Draw T) (raw : Screen) : List (ToolCall Arguments T) :=
  (blocks raw).mapIdx fun i b => b.toolCall (draws i)

def lines : Screen → List Screen
  | [] => []
  | cell :: rest =>
    if cell.char = '\n' then [cell] :: lines rest
    else match lines rest with
      | [] => [[cell]]
      | line :: more => (cell :: line) :: more

def withoutBlocks (raw : Screen) : Screen :=
  let text := remove (fun _ => matchBlock "<function_calls>" "</function_calls>") true 0 raw
  let text := remove (fun _ => matchBlock "<function_results>" "</function_results>") true 0 text
  remove matchPrompt true 0 text

def extractAssistantResponse (raw : Screen) : Screen :=
  Screen.strip ((lines (withoutBlocks raw)).filter (¬·.all Cell.isSpace)).flatten

def detectPromptReady (raw : Screen) : Bool :=
  let lastLine : Screen := List.rtakeWhile (·.char ≠ '\n') (List.rdropWhile Cell.isSpace raw)
  lastLine.strip.text = ['>']

/-- The letters that `re.IGNORECASE` takes for one of ASCII. -/
def foldCase (c : Char) : Char :=
  if c.toNat = 0x130 ∨ c.toNat = 0x131 then 'i'
  else if c.toNat = 0x17f then 's'
  else if c.toNat = 0x212a then 'k'
  else c.toLower

def hasToolInvocation (raw : Screen) : Bool :=
  raw.Contains "<function_calls>" || raw.tails.any fun s => (matchInvokeTag s).isSome

def detectState (raw : Screen) : AgentState :=
  if detectPromptReady raw then .idle
  else if ["Error:", "error:", "ERROR:", "Exception:", "Failed:"].any (raw.Contains ·) then .error
  else if raw.Contains "<function_results>" then .executingTool
  else if hasToolInvocation raw then .executingTool
  else if ["thinking", "processing", "analyzing", "let me"].any (·.toList <:+: raw.text.map foldCase) then .thinking
  else if 50 < raw.strip.length then .thinking
  else if ["(y/n)", "[y/n]", "continue?", "confirm"].any (·.toList <:+: raw.text.map Char.toLower) then .waitingInput
  else .idle

def claudeCode {T : Type} : OutputParser Arguments T where
  parseOutput draws raw :=
    let truncated := truncateInput raw
    { toolCalls := extractToolCalls draws truncated
      assistantResponse := extractAssistantResponse truncated }
  detectState raw := some (detectState raw)

end Quinn.Pyterm.Control
