import Aeroric.BridgeCommon
import Aeroric.Sse

/-! Chat Completions answers made into Responses: a whole one, and one that comes as a stream. -/
namespace Aeroric.LocalRouter
open Json Sse

/-- From flat names to namespaces and the names in them. -/
abbrev ToolNamespaces := String → Option (String × String)

def nonEmpty (text : Option String) : Option String := text.filter (· ≠ "")

def extractReasoningText (value : Value) : Option String :=
  nonEmpty (value.getStr "reasoning_content") <|> nonEmpty (value.getStr "reasoning") <|>
  ((value.get "reasoning").bind fun reasoning =>
    ["content", "text", "summary"].findSome? fun key => nonEmpty (reasoning.getStr key)) <|>
  (value.get "reasoning_details").bind fun details =>
    match details with
    | .str details => nonEmpty (some details)
    | .arr details =>
      let parts := details.filterMap fun part =>
        ["text", "content", "summary"].findSome? fun key => part.getStr key
      if parts = [] then none else some ("\n\n".intercalate parts)
    | _ => none

def extractDeltaContentText : Value → String
  | .str value => value
  | .arr parts => String.join (parts.filterMap fun part =>
      match part with
      | .str value => some value
      | .obj fields =>
        if (part.getStr "type").any (["text", "output_text", "input_text"].contains ·) then
          (Value.obj fields).getStr "text"
        else none
      | _ => none)
  | _ => ""

def responsesUsage (usage : Value) : Value :=
  let input := (((usage.get "prompt_tokens") <|> usage.get "input_tokens").bind Value.asU64).getD 0
  let output := (((usage.get "completion_tokens") <|> usage.get "output_tokens").bind Value.asU64).getD 0
  let cached := cachedPromptTokens usage
  .obj ([("input_tokens", .int input), ("output_tokens", .int output),
    ("total_tokens", .int ((usage.getU64 "total_tokens").getD (min (input + output) (u64 - 1))))] ++
    if 0 < cached then [("input_tokens_details", .obj [("cached_tokens", .int cached)])] else [])

/-- The ids a program draws: the n-th one. -/
abbrev Ids := ℕ → String

def textPart (text : String) : Value :=
  .obj [("type", .str "output_text"), ("text", .str text), ("annotations", .arr [])]

def messageItem (id status : String) (content : List Value) : Value :=
  .obj [("id", .str id), ("type", .str "message"), ("status", .str status), ("role", .str "assistant"),
    ("content", .arr content)]

def callItem (id callId name arguments : Value) (status : String) : Value :=
  .obj [("id", id), ("type", .str "function_call"), ("status", .str status), ("call_id", callId),
    ("name", name), ("arguments", arguments)]

/-- The items of the calls of a whole answer, and how many ids have been drawn. -/
def callItems (ids : Ids) : ℕ → List Value → List Value
  | _, [] => []
  | drawn, call :: calls =>
    let function := call.member "function"
    let name := (function.get "name").getD (.str "tool")
    let arguments := (function.get "arguments").getD (.str "")
    match call.get "id" with
    | some id => callItem id id name arguments "completed" :: callItems ids drawn calls
    | none =>
      callItem (.str ("fc_" ++ ids drawn)) (.str ("call_" ++ ids (drawn + 1))) name arguments "completed" ::
        callItems ids (drawn + 2) calls

def chatResponseToResponses (ids : Ids) (payload : Value) (requestedModel : String) : Value :=
  let message := (((payload.items "choices").head?.bind (Value.get "message"))).getD (.obj [])
  let reasoning := (extractReasoningText message).toList.map fun reasoning =>
    Value.obj [("id", .str ("rs_" ++ ids 2)), ("type", .str "reasoning"),
      ("summary", .arr [.obj [("type", .str "summary_text"), ("text", .str reasoning)]])]
  let text := extractDeltaContentText (message.member "content")
  let output := reasoning ++
    (if text = "" then [] else [messageItem ("msg_" ++ ids 1) "completed" [textPart text]]) ++
    callItems ids (2 + reasoning.length) (message.items "tool_calls")
  .obj [("id", .str ("resp_" ++ ids 0)), ("object", .str "response"), ("status", .str "completed"),
    ("output", .arr output), ("model", .str ((payload.getStr "model").getD requestedModel)),
    ("usage", responsesUsage (payload.member "usage"))]

def splitCallName (namespaces : ToolNamespaces) (item : Value) : Value :=
  if item.getStr "type" = some "function_call" then
    match (item.getStr "name").bind namespaces with
    | some (space, name) => (item.set "name" (.str name)).set "namespace" (.str space)
    | none => item
  else item

/-- Without namespaces the source returns at once; the items are as they were then. -/
def restoreToolNamespaces (namespaces : ToolNamespaces) (response : Value) : Value :=
  match (response.get "output").bind Value.asArray with
  | some items => response.set "output" (.arr (items.map (splitCallName namespaces)))
  | none => response

def splitName (namespaces : ToolNamespaces) (flat : String) : String × Option String :=
  match namespaces flat with
  | some (space, name) => (name, some space)
  | none => (flat, none)

structure ToolState where
  id : String
  callId : String
  name : String
  space : Option String
  arguments : String
  outputIndex : ℕ

/-- What `emit_finish` puts into the response. -/
structure Gathered where
  responseId : String
  messageId : String
  model : String
  text : String := ""
  tools : Table ℕ ToolState := .empty
  namespaces : ToolNamespaces := fun _ => none
  usage : Option Value := none
  textStarted : Bool := false
  finished : Bool := false

structure ChatSseTransformer extends Gathered where
  reasoning : String := ""
  callIndexes : CallIndexer := {}
  started : Bool := false
  reasoningStarted : Bool := false
  ids : Ids
  drawn : ℕ
  output : List Out := []

namespace ChatSseTransformer

def new (ids : Ids) (model : String) : ChatSseTransformer where
  responseId := "resp_" ++ ids 0
  messageId := "msg_" ++ ids 1
  model := model
  ids := ids
  drawn := 2

def withNamespaces (s : ChatSseTransformer) (namespaces : ToolNamespaces) : ChatSseTransformer :=
  { s with namespaces := namespaces }

def emitEvent (s : ChatSseTransformer) (name : String) (fields : List (String × Value)) :
    ChatSseTransformer :=
  { s with output := s.output ++ [.event name (.obj (("type", .str name) :: fields))] }

def responseBase (responseId model status : String) (output : List Value) (usage : Option Value) : Value :=
  .obj ([("id", .str responseId), ("object", .str "response"), ("status", .str status),
    ("output", .arr output), ("model", .str model)] ++ usage.toList.map ("usage", ·))

def emitStart (s : ChatSseTransformer) : ChatSseTransformer :=
  if s.started then s
  else { s with started := true }.emitEvent "response.created"
    [("response", responseBase s.responseId s.model "in_progress" [] none)]

/-- The fields that say where in the response something belongs. -/
def place (id : String) (outputIndex : ℕ) (indexName : String) : List (String × Value) :=
  [("item_id", .str id), ("output_index", .int outputIndex), (indexName, .int 0)]

def openText (s : ChatSseTransformer) : ChatSseTransformer :=
  if s.textStarted then s
  else ({ s with textStarted := true }.emitEvent "response.output_item.added"
      [("output_index", .int 0), ("item", messageItem s.messageId "in_progress" [])]).emitEvent
    "response.content_part.added" (place s.messageId 0 "content_index" ++ [("part", textPart "")])

def emitTextDelta (s : ChatSseTransformer) (delta : String) : ChatSseTransformer :=
  let s := s.emitStart.openText
  { s with text := s.text ++ delta }.emitEvent "response.output_text.delta"
    (place s.messageId 0 "content_index" ++ [("delta", Value.str delta)])

def openReasoning (s : ChatSseTransformer) : ChatSseTransformer :=
  if s.reasoningStarted then s
  else { s with reasoningStarted := true }.emitEvent "response.reasoning_summary_part.added"
    (place s.messageId 0 "summary_index")

def emitReasoningDelta (s : ChatSseTransformer) (delta : String) : ChatSseTransformer :=
  let s := s.emitStart.openReasoning
  { s with reasoning := s.reasoning ++ delta }.emitEvent "response.reasoning_summary_text.delta"
    (place s.messageId 0 "summary_index" ++ [("delta", Value.str delta)])

def toolItem (state : ToolState) (status arguments : String) : Value :=
  let item := callItem (.str state.id) (.str state.callId) (.str state.name) (.str arguments) status
  match state.space with
  | some space => item.set "namespace" (.str space)
  | none => item

def tool (s : ChatSseTransformer) (index : ℕ) (call : Value) : ToolState × ChatSseTransformer :=
  match s.tools.get index with
  | some state => (state, s)
  | none =>
    let flat := ((call.member "function").getStr "name").getD "tool"
    let (name, space) := splitName s.namespaces flat
    let (id, callId, drawn) := match call.getStr "id" with
      | some id => (id, id, s.drawn)
      | none => ("fc_" ++ s.ids s.drawn, "call_" ++ s.ids (s.drawn + 1), s.drawn + 2)
    let state := ⟨id, callId, name, space, "", index + if s.textStarted then 1 else 0⟩
    (state, { s with tools := s.tools.set index state, drawn := drawn }.emitEvent
      "response.output_item.added"
      [("output_index", .int state.outputIndex), ("item", toolItem state "in_progress" "")])

def handleCall (s : ChatSseTransformer) (call : Value) (position : ℕ) : ChatSseTransformer :=
  let (index, callIndexes) := s.callIndexes.index call position
  let (state, s) := { s with callIndexes := callIndexes }.tool index call
  match (call.member "function").getStr "arguments" with
  | none => s
  | some arguments =>
    let tools := s.tools.set index { state with arguments := state.arguments ++ arguments }
    { s with tools := tools }.emitEvent "response.function_call_arguments.delta"
      [("item_id", .str state.id), ("output_index", .int state.outputIndex), ("delta", .str arguments)]

def emitToolDone (s : ChatSseTransformer) (state : ToolState) : ChatSseTransformer :=
  (s.emitEvent "response.function_call_arguments.done" [("item_id", .str state.id),
    ("output_index", .int state.outputIndex), ("arguments", .str state.arguments)]).emitEvent
    "response.output_item.done"
    [("output_index", .int state.outputIndex), ("item", toolItem state "completed" state.arguments)]

def toolStates (g : Gathered) : List ToolState := g.tools.keys.filterMap g.tools.get

def messageItems (g : Gathered) : List Value :=
  if g.textStarted then [messageItem g.messageId "completed" [textPart g.text]] else []

def completed (g : Gathered) : Value :=
  responseBase g.responseId g.model "completed" (messageItems g ++
    (toolStates g).map fun state => toolItem state "completed" state.arguments) g.usage

/-- What was open is done. -/
def emitDone (s : ChatSseTransformer) : ChatSseTransformer :=
  let s := if s.reasoningStarted then
      s.emitEvent "response.reasoning_summary_text.done"
        (place s.messageId 0 "summary_index" ++ [("text", Value.str s.reasoning)])
    else s
  let s := if s.textStarted then
      ((s.emitEvent "response.output_text.done"
        (place s.messageId 0 "content_index" ++ [("text", Value.str s.text)])).emitEvent
        "response.content_part.done"
        (place s.messageId 0 "content_index" ++ [("part", textPart s.text)])).emitEvent
        "response.output_item.done"
        [("output_index", .int 0), ("item", messageItem s.messageId "completed" [textPart s.text])]
    else s
  (toolStates s.toGathered).foldl emitToolDone s

def emitFinish (s : ChatSseTransformer) : ChatSseTransformer :=
  if s.finished then s
  else
    let s := { s with finished := true }.emitStart.emitDone
    s.emitEvent "response.completed" [("response", completed s.toGathered)]

def emitFailed (s : ChatSseTransformer) (message : String) : ChatSseTransformer :=
  if s.finished then s
  else
    let s := { s with finished := true }.emitStart
    s.emitEvent "response.failed"
      [("response", responseBase s.responseId s.model "failed" [] none),
        ("error", .obj [("type", .str "upstream_error"), ("message", .str message)])]

def takeReasoning (s : ChatSseTransformer) : Option String → ChatSseTransformer
  | some reasoning => s.emitReasoningDelta reasoning
  | none => s

def takeContent (s : ChatSseTransformer) (content : String) : ChatSseTransformer :=
  if content = "" then s else s.emitTextDelta content

def handleDelta (s : ChatSseTransformer) (delta : Value) : ChatSseTransformer :=
  let s := s.takeReasoning (extractReasoningText delta)
  let s := s.takeContent (extractDeltaContentText (delta.member "content"))
  (delta.items "tool_calls").zipIdx.foldl (fun s entry => s.handleCall entry.1 entry.2) s

def takeHead (s : ChatSseTransformer) (chunk : Value) : ChatSseTransformer :=
  { s with
    model := (chunk.getStr "model").getD s.model
    usage := if (chunk.get "usage").any Value.isObject then
      some (responsesUsage (chunk.member "usage")) else s.usage }

def handleChunk (s : ChatSseTransformer) (chunk : Value) : ChatSseTransformer :=
  match chunk.get "error" with
  | some error =>
    s.emitFailed ((error.getStr "message" <|> error.asStr).getD "upstream stream failed")
  | none =>
    let s := (s.takeHead chunk).emitStart
    match (chunk.items "choices").head?.bind (Value.get "delta") with
    | some delta => s.handleDelta delta
    | none => s

def handleEvent (s : ChatSseTransformer) : Message → ChatSseTransformer
  | .blank | .unreadable => s
  | .done => s.emitFinish
  | .chunk value => s.handleChunk value

def response (s : ChatSseTransformer) : Option Value :=
  match s.output.getLast? with
  | some (.event "response.completed" payload) => payload.get "response"
  | _ => none

end ChatSseTransformer

end Aeroric.LocalRouter
