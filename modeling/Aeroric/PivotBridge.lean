import Aeroric.BridgeCommon
import Aeroric.Sse

/-! Streams of the Responses and of the Messages protocol made into streams of Chat Completions. -/
namespace Aeroric.LocalRouter
open Json Sse

def partTexts (key : String) (item : Value) : String :=
  String.join ((item.items key).filterMap (·.getStr "text"))

def ofType (type : String) (item : Value) : Bool := item.getStr "type" = some type

def messagesFinish (stopReason : Option String) (hasCalls : Bool) : String :=
  match stopReason with
  | some "tool_use" => "tool_calls"
  | some "max_tokens" | some "model_context_window_exceeded" => "length"
  | _ => if hasCalls then "tool_calls" else "stop"

def chatChunk (model : String) (delta : Value) (finish : Option String) : Out :=
  .data (.obj [("object", .str "chat.completion.chunk"), ("model", .str model),
    ("choices", .arr [.obj [("index", .int 0), ("delta", delta),
      ("finish_reason", (finish.map .str).getD .null)]])])

def chatUsageChunk (model : String) (input output cached : ℕ) : Out :=
  .data (.obj [("object", .str "chat.completion.chunk"), ("model", .str model), ("choices", .arr []),
    ("usage", chatUsage input output cached)])

def chatErrorChunk (message : String) : Out :=
  .data (.obj [("error", .obj [("message", .str message)])])

def textChunk (model text : String) : Out := chatChunk model (.obj [("content", .str text)]) none

def reasoningChunk (model text : String) : Out :=
  chatChunk model (.obj [("reasoning_content", .str text)]) none

def callChunk (model : String) (index : ℕ) (id name : Value) : Out :=
  chatChunk model (.obj [("tool_calls", .arr [.obj [("index", .int index), ("id", id),
    ("type", .str "function"), ("function", .obj [("name", name), ("arguments", .str "")])]])]) none

def argumentsChunk (model : String) (index : ℕ) (arguments : String) : Out :=
  chatChunk model (.obj [("tool_calls", .arr [.obj [("index", .int index),
    ("function", .obj [("arguments", .str arguments)])]])]) none

/-- An event and its data, as `drain_events` reads them. -/
def eventOf (codec : Codec) (bytes : List UInt8) : Option (String × Value) :=
  let text := lines (codec.fromUtf8Lossy bytes)
  let event := ((text.filterMap (stripPrefix "event:".toList)).getLast?.map trim).getD []
  let data := dataOf (codec.fromUtf8Lossy bytes)
  if trim data = [] ∨ trim data = "[DONE]".toList then none
  else (codec.fromStr data).map fun value =>
    (if event = [] then (value.getStr "type").getD "" else String.ofList event, value)

structure ResponsesSseToChat where
  model : String
  /-- From the places in the output to the places of the calls. -/
  tools : Table ℕ ℕ := .empty
  reasoningStreamed : Table ℕ String := .empty
  finished : Bool := false
  output : List Out := []

namespace ResponsesSseToChat

def push (s : ResponsesSseToChat) (out : Out) : ResponsesSseToChat := { s with output := s.output ++ [out] }

def outputIndex (data : Value) : ℕ := (data.getU64 "output_index").getD 0

/-- The text of an item of reasoning. -/
def fullReasoning (item : Value) : String := partTexts "summary" item ++ partTexts "content" item

def reasoningDelta (s : ResponsesSseToChat) (data : Value) : ResponsesSseToChat :=
  match data.getStr "delta" with
  | some d =>
    let streamed := (s.reasoningStreamed.get (outputIndex data)).getD "" ++ d
    { s with reasoningStreamed := s.reasoningStreamed.set (outputIndex data) streamed }.push
      (reasoningChunk s.model d)
  | none => s

/-- What of a text has not been sent. -/
def missing (streamed full : String) : Option String :=
  match stripPrefix streamed.toList full.toList with
  | some (c :: tail) => some (String.ofList (c :: tail))
  | _ => none

def itemDone (s : ResponsesSseToChat) (data : Value) : ResponsesSseToChat :=
  if ofType "reasoning" (data.member "item") then
    let streamed := (s.reasoningStreamed.get (outputIndex data)).getD ""
    let s := { s with reasoningStreamed := s.reasoningStreamed.erase (outputIndex data) }
    match missing streamed (fullReasoning (data.member "item")) with
    | some tail => s.push (reasoningChunk s.model tail)
    | none => s
  else s

def itemAdded (s : ResponsesSseToChat) (data : Value) : ResponsesSseToChat :=
  let item := data.member "item"
  if ofType "function_call" item then
    let index := s.tools.size
    { s with tools := s.tools.set (outputIndex data) index }.push
      (callChunk s.model index ((item.get "call_id").getD (.str "")) ((item.get "name").getD (.str "")))
  else s

def argumentsDelta (s : ResponsesSseToChat) (data : Value) : ResponsesSseToChat :=
  match s.tools.get (outputIndex data), data.getStr "delta" with
  | some index, some d => s.push (argumentsChunk s.model index d)
  | _, _ => s

def ended (s : ResponsesSseToChat) (incomplete : Bool) (data : Value) : ResponsesSseToChat :=
  let finish := if s.tools.size ≠ 0 then "tool_calls" else if incomplete then "length" else "stop"
  let s := { s with finished := true }.push (chatChunk s.model (.obj []) (some finish))
  match (data.member "response").get "usage" with
  | some u => s.push (chatUsageChunk s.model ((u.getU64 "input_tokens").getD 0)
      ((u.getU64 "output_tokens").getD 0) (cachedPromptTokens u))
  | none => s

def failed (s : ResponsesSseToChat) (data : Value) : ResponsesSseToChat :=
  let message := (((data.member "response").member "error").getStr "message" <|>
    (data.member "error").getStr "message" <|> data.getStr "message").getD "upstream stream failed"
  { s with finished := true }.push (chatErrorChunk message)

def handle (s : ResponsesSseToChat) (e : String × Value) : ResponsesSseToChat :=
  if s.finished then s
  else match e.1 with
    | "response.output_text.delta" =>
      match e.2.getStr "delta" with
      | some d => s.push (textChunk s.model d)
      | none => s
    | "response.reasoning_summary_text.delta" | "response.reasoning_text.delta" => s.reasoningDelta e.2
    | "response.output_item.done" => s.itemDone e.2
    | "response.output_item.added" => s.itemAdded e.2
    | "response.function_call_arguments.delta" => s.argumentsDelta e.2
    | "response.completed" => s.ended false e.2
    | "response.incomplete" => s.ended true e.2
    | "response.failed" | "error" => s.failed e.2
    | _ => s

def finish (s : ResponsesSseToChat) : ResponsesSseToChat :=
  if s.finished then s
  else { s with finished := true }.push
    (chatChunk s.model (.obj []) (some (if s.tools.size = 0 then "stop" else "tool_calls")))

end ResponsesSseToChat

structure MessagesSseToChat where
  model : String
  tools : Table ℕ ℕ := .empty
  inputTokens : ℕ := 0
  cachedTokens : ℕ := 0
  outputTokens : ℕ := 0
  stopReason : Option String := none
  finished : Bool := false
  output : List Out := []

namespace MessagesSseToChat

def push (s : MessagesSseToChat) (out : Out) : MessagesSseToChat := { s with output := s.output ++ [out] }

def blockIndex (data : Value) : ℕ := (data.getU64 "index").getD 0

def emitEnd (s : MessagesSseToChat) : MessagesSseToChat :=
  if s.finished then s
  else ({ s with finished := true }.push
    (chatChunk s.model (.obj []) (some (messagesFinish s.stopReason (s.tools.size ≠ 0))))).push
    (chatUsageChunk s.model s.inputTokens s.outputTokens s.cachedTokens)

def messageStart (s : MessagesSseToChat) (data : Value) : MessagesSseToChat :=
  let usage := (data.member "message").member "usage"
  let get := fun key => (usage.getU64 key).getD 0
  { s with
    cachedTokens := get "cache_read_input_tokens"
    inputTokens := get "input_tokens" + get "cache_read_input_tokens" + get "cache_creation_input_tokens" }

def blockStart (s : MessagesSseToChat) (data : Value) : MessagesSseToChat :=
  let block := data.member "content_block"
  if ofType "tool_use" block then
    let index := s.tools.size
    { s with tools := s.tools.set (blockIndex data) index }.push
      (callChunk s.model index ((block.get "id").getD (.str "")) ((block.get "name").getD (.str "")))
  else s

def blockDelta (s : MessagesSseToChat) (data : Value) : MessagesSseToChat :=
  let delta := data.member "delta"
  match delta.getStr "type" with
  | some "text_delta" =>
    match delta.getStr "text" with
    | some t => s.push (textChunk s.model t)
    | none => s
  | some "thinking_delta" =>
    match delta.getStr "thinking" with
    | some t => s.push (reasoningChunk s.model t)
    | none => s
  | some "input_json_delta" =>
    match s.tools.get (blockIndex data), delta.getStr "partial_json" with
    | some index, some p => s.push (argumentsChunk s.model index p)
    | _, _ => s
  | _ => s

def messageDelta (s : MessagesSseToChat) (data : Value) : MessagesSseToChat :=
  { s with
    stopReason := (data.member "delta").getStr "stop_reason" <|> s.stopReason
    outputTokens := ((data.member "usage").getU64 "output_tokens").getD s.outputTokens }

def handle (s : MessagesSseToChat) (e : String × Value) : MessagesSseToChat :=
  if s.finished then s
  else match e.1 with
    | "message_start" => s.messageStart e.2
    | "content_block_start" => s.blockStart e.2
    | "content_block_delta" => s.blockDelta e.2
    | "message_delta" => s.messageDelta e.2
    | "message_stop" => s.emitEnd
    | "error" => { s with finished := true }.push
        (chatErrorChunk (((e.2.member "error").getStr "message").getD "upstream stream failed"))
    | _ => s

end MessagesSseToChat

end Aeroric.LocalRouter
