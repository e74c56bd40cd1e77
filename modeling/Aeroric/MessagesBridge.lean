import Aeroric.ChatBridge

/-! Streams of Chat Completions made into streams of the Messages protocol. -/
namespace Aeroric.LocalRouter
open Json Sse

def ChatToMessagesSse.reasoningOf (value : Value) : Option String :=
  (value.getStr "reasoning_content" <|> value.getStr "reasoning").filter (· ≠ "")

def ChatToMessagesSse.stopReason (finish : Option String) (hasTools : Bool) : String :=
  match finish with
  | some "length" => "max_tokens"
  | some "tool_calls" | some "function_call" => "tool_use"
  | _ => if hasTools then "tool_use" else "end_turn"

/-- Arguments that are no object are kept as they are. -/
def toolInput (codec : Codec) (arguments : String) : Value :=
  if trim arguments.toList = [] then .obj []
  else
    match codec.fromStr arguments.toList with
    | some (.obj fields) => .obj fields
    | _ => .obj [("raw_arguments", .str arguments)]

def messagesUsage (usage : Option Value) : Value :=
  let get := fun key => (usage.bind (·.getU64 key)).getD 0
  let cached := (usage.map cachedPromptTokens).getD 0
  .obj ([("input_tokens", .int (get "prompt_tokens" - cached : ℕ)),
    ("output_tokens", .int (get "completion_tokens"))] ++
    if 0 < cached then [("cache_read_input_tokens", .int cached)] else [])

inductive OpenBlock
  | thinking
  | text
  deriving DecidableEq

structure PendingTool where
  id : String := ""
  name : String := ""
  arguments : String := ""

structure ChatToMessagesSse where
  messageId : String
  model : String
  started : Bool := false
  finished : Bool := false
  nextIndex : ℕ := 0
  opened : Option OpenBlock := none
  tools : Table ℕ PendingTool := .empty
  callIndexes : CallIndexer := {}
  finishReason : Option String := none
  usage : Option Value := none
  ids : Ids
  drawn : ℕ
  output : List Out := []

namespace ChatToMessagesSse

def new (ids : Ids) (model : String) : ChatToMessagesSse where
  messageId := "msg_" ++ ids 0
  model := model
  ids := ids
  drawn := 1

def emit (s : ChatToMessagesSse) (event : String) (fields : List (String × Value)) : ChatToMessagesSse :=
  { s with output := s.output ++ [.event event (.obj (("type", .str event) :: fields))] }

def emitStart (s : ChatToMessagesSse) : ChatToMessagesSse :=
  if s.started then s
  else { s with started := true }.emit "message_start" [("message", .obj [("id", .str s.messageId),
    ("type", .str "message"), ("role", .str "assistant"), ("model", .str s.model), ("content", .arr []),
    ("stop_reason", .null), ("stop_sequence", .null),
    ("usage", .obj [("input_tokens", .int 0), ("output_tokens", .int 0)])])]

def closeOpen (s : ChatToMessagesSse) : ChatToMessagesSse :=
  match s.opened with
  | none => s
  | some _ =>
    let s := s.emit "content_block_stop" [("index", .int s.nextIndex)]
    { s with opened := none, nextIndex := s.nextIndex + 1 }

def ensureOpen (s : ChatToMessagesSse) (kind : OpenBlock) : ChatToMessagesSse :=
  if s.opened = some kind then s
  else
    let s := s.closeOpen
    let block := match kind with
      | .thinking => [("type", .str "thinking"), ("thinking", .str "")]
      | .text => [("type", .str "text"), ("text", .str "")]
    { s with opened := some kind }.emit "content_block_start"
      [("index", .int s.nextIndex), ("content_block", .obj block)]

def delta (s : ChatToMessagesSse) (fields : List (String × Value)) : ChatToMessagesSse :=
  s.emit "content_block_delta" [("index", .int s.nextIndex), ("delta", .obj fields)]

def takeReasoning (s : ChatToMessagesSse) : Option String → ChatToMessagesSse
  | some reasoning =>
    (s.ensureOpen .thinking).delta [("type", .str "thinking_delta"), ("thinking", .str reasoning)]
  | none => s

def takeText (s : ChatToMessagesSse) (text : String) : ChatToMessagesSse :=
  if text = "" then s else (s.ensureOpen .text).delta [("type", .str "text_delta"), ("text", .str text)]

def takeCall (s : ChatToMessagesSse) (call : Value) (position : ℕ) : ChatToMessagesSse :=
  let indexed := s.callIndexes.index call position
  let function := call.member "function"
  let tool := (s.tools.get indexed.1).getD {}
  let first := fun (old : String) (new : Option String) => if old = "" then new.getD "" else old
  { s with
    callIndexes := indexed.2
    tools := s.tools.set indexed.1 {
      id := first tool.id (call.getStr "id")
      name := first tool.name (function.getStr "name")
      arguments := tool.arguments ++ (function.getStr "arguments").getD "" } }

def emitTool (codec : Codec) (s : ChatToMessagesSse) (tool : PendingTool) : ChatToMessagesSse :=
  let drawn := if tool.id = "" then s.drawn + 1 else s.drawn
  let id := if tool.id = "" then "toolu_" ++ s.ids s.drawn else tool.id
  let index : Value := .int s.nextIndex
  let s := ((s.emit "content_block_start" [("index", index), ("content_block", .obj [
      ("type", .str "tool_use"), ("id", .str id), ("name", .str (if tool.name = "" then "tool" else tool.name)),
      ("input", .obj [])])]).delta [("type", .str "input_json_delta"),
        ("partial_json", .str (codec.toText (toolInput codec tool.arguments)))]).emit
    "content_block_stop" [("index", index)]
  { s with nextIndex := s.nextIndex + 1, drawn := drawn }

def emitFinish (codec : Codec) (s : ChatToMessagesSse) : ChatToMessagesSse :=
  if s.finished then s
  else
    let s := { s with finished := true }.emitStart.closeOpen
    let tools := s.tools.keys.filterMap s.tools.get
    let s := tools.foldl (emitTool codec) { s with tools := .empty }
    (s.emit "message_delta" [("delta", .obj [
      ("stop_reason", .str (stopReason s.finishReason (!tools.isEmpty))), ("stop_sequence", .null)]),
      ("usage", messagesUsage s.usage)]).emit "message_stop" []

def handleDelta (s : ChatToMessagesSse) (delta : Value) : ChatToMessagesSse :=
  let s := (s.takeReasoning (reasoningOf delta)).takeText ((delta.getStr "content").getD "")
  (delta.items "tool_calls").zipIdx.foldl (fun s entry => s.takeCall entry.1 entry.2) s

def takeHead (s : ChatToMessagesSse) (chunk : Value) : ChatToMessagesSse :=
  { s with
    model := (chunk.getStr "model").getD s.model
    usage := ((chunk.get "usage").filter Value.isObject) <|> s.usage }.emitStart

def handleChunk (s : ChatToMessagesSse) (chunk : Value) : ChatToMessagesSse :=
  match chunk.get "error" with
  | some error =>
    { s with finished := true }.emit "error" [("error", .obj [("type", .str "api_error"),
      ("message", .str ((error.getStr "message" <|> error.asStr).getD "upstream stream failed"))])]
  | none =>
    let s := s.takeHead chunk
    match (chunk.items "choices").head? with
    | none => s
    | some choice =>
      let s := { s with finishReason := choice.getStr "finish_reason" <|> s.finishReason }
      match choice.get "delta" with
      | none => s
      | some delta => s.handleDelta delta

def handleEvent (codec : Codec) (s : ChatToMessagesSse) (message : Message) : ChatToMessagesSse :=
  if s.finished then s
  else match message with
    | .blank | .unreadable => s
    | .done => s.emitFinish codec
    | .chunk chunk => s.handleChunk chunk

end ChatToMessagesSse

end Aeroric.LocalRouter
