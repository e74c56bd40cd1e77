import Aeroric.ChatBridge
import Aeroric.Search

/-! Tool calls that a model has written into its text: read from a whole response, and from a stream. -/
namespace Aeroric.LocalRouter.Inline
open Json Sse Search

def bars : List Char := ['｜', '｜', 'D', 'S', 'M', 'L', '｜', '｜']

def sentinel : List Char := '<' :: bars

def opening (tag : String) : List Char := sentinel ++ tag.toList

def closing (tag : String) : List Char := '<' :: '/' :: (bars ++ tag.toList)

def toolCallsOpen : List Char := opening "tool_calls>"
def invokeOpen : List Char := opening "invoke"
def invokeClose : List Char := closing "invoke>"
def parameterOpen : List Char := opening "parameter"
def parameterClose : List Char := closing "parameter>"

structure InlineToolCall where
  name : String
  arguments : String

/-- The value of `key="value"`. -/
def attributeOf (header : List Char) (key : String) : Option (List Char) :=
  (find (key.toList ++ ['=', '"']) header).bind fun found => (find ['"'] found.2).map (·.1)

def parameterValue (codec : Codec) (raw : List Char) (isString : Bool) : Value :=
  if isString then .str (String.ofList raw)
  else (codec.fromStr (trim raw)).getD (.str (String.ofList raw))

/-- One turn of `parse_parameters`. -/
def nextParameter (codec : Codec) (rest : List Char) : Option (Option (String × Value) × List Char) :=
  (find parameterOpen rest).bind fun found => (find ['>'] found.2).bind fun header =>
    (find parameterClose header.2).map fun value =>
      let isString := ((attributeOf header.1 "string").map (·.map Char.toLower == "true".toList)).getD true
      ((attributeOf header.1 "name").map fun name =>
        (String.ofList name, parameterValue codec value.1 isString), value.2)

def parseParameters (codec : Codec) (body : List Char) : Value :=
  ((repeatedly (nextParameter codec) body.length body).filterMap id).foldl
    (fun arguments p => arguments.set p.1 p.2) (.obj [])

/-- One turn of `split_inline_tool_calls`. -/
def nextCall (codec : Codec) (rest : List Char) : Option (Option InlineToolCall × List Char) :=
  (find invokeOpen rest).bind fun found => (find ['>'] found.2).map fun header =>
    let body := (find invokeClose header.2).getD (header.2, [])
    (((attributeOf header.1 "name").filter (trim · ≠ [])).map fun name =>
      ⟨String.ofList name, codec.toText (parseParameters codec body.1)⟩, body.2)

def callsIn (codec : Codec) (text : List Char) : List InlineToolCall :=
  (repeatedly (nextCall codec) text.length text).filterMap id

def splitInlineToolCalls (codec : Codec) (text : List Char) : Option (List Char × List InlineToolCall) :=
  (find sentinel text).bind fun found =>
    let calls := callsIn codec (sentinel ++ found.2)
    if calls.isEmpty then none else some (trimEnd found.1, calls)

def looksComplete (text : List Char) : Bool :=
  contains invokeClose text && (!contains toolCallsOpen text || contains (closing "tool_calls>") text)

def partsText (parts : List Value) : String := String.join (parts.filterMap (·.getStr "text"))

def textOf (item : Value) : String := partsText (item.items "content")

/-- The first text becomes the given one, and the others are emptied. -/
def rewriteParts : String → List Value → List Value
  | _, [] => []
  | text, part :: parts =>
    if (part.get "text").isNone then part :: rewriteParts text parts
    else part.set "text" (.str text) :: rewriteParts "" parts

def rewriteMessageText (item : Value) (visible : String) : Value :=
  match (item.get "content").bind Value.asArray with
  | none => item
  | some parts =>
    let parts := rewriteParts visible parts
    item.set "content" (.arr (if visible = "" then parts.filter (·.getStr "text" ≠ some "") else parts))

def functionCallItem (ids : Ids) (drawn : ℕ) (call : InlineToolCall) : Value :=
  .obj [("id", .str ("fc_" ++ ids drawn)), ("type", .str "function_call"), ("status", .str "completed"),
    ("call_id", .str ("call_" ++ ids (drawn + 1))), ("name", .str call.name),
    ("arguments", .str call.arguments)]

def isMessage (item : Value) : Bool := item.getStr "type" = some "message"

def functionCallItems (ids : Ids) (drawn : ℕ) (calls : List InlineToolCall) : List Value :=
  calls.zipIdx.map fun c => functionCallItem ids (drawn + 2 * c.2) c.1

/-- The loop of `rewrite_response_payload`. -/
def rewriteItems (codec : Codec) (ids : Ids) : ℕ → List Value → List Value
  | _, [] => []
  | drawn, item :: items =>
    match isMessage item, splitInlineToolCalls codec (textOf item).toList with
    | true, some (visible, calls) =>
      (if visible = [] then [] else [rewriteMessageText item (String.ofList visible)]) ++
        functionCallItems ids drawn calls ++ rewriteItems codec ids (drawn + 2 * calls.length) items
    | _, _ => item :: rewriteItems codec ids drawn items

structure InlineToolCallStream where
  buffered : Option (List Char) := none
  pendingPrefix : List Char := []
  itemId : Option String := none
  outputIndex : ℕ := 0
  visible : List Char := []

namespace InlineToolCallStream

/-- The text that goes on to the client, unless the event is swallowed. -/
def pushTextDelta (s : InlineToolCallStream) (payload : Value) : Option (List Char) × InlineToolCallStream :=
  let delta := ((payload.getStr "delta").getD "").toList
  match s.buffered with
  | some buffered => (none, { s with buffered := some (buffered ++ delta) })
  | none =>
    let candidate := s.pendingPrefix ++ delta
    match find sentinel candidate with
    | some (head, rest) =>
      (some head, { s with
        pendingPrefix := []
        itemId := payload.getStr "item_id"
        outputIndex := (payload.getU64 "output_index").getD 0
        buffered := some (sentinel ++ rest)
        visible := s.visible ++ head })
    | none =>
      (some (free sentinel candidate), { s with
        pendingPrefix := heldBack sentinel candidate
        visible := s.visible ++ free sentinel candidate })

def readyToFlush (s : InlineToolCallStream) : Bool := (s.buffered.map looksComplete).getD false

end InlineToolCallStream

structure InlineToolCallSseFilter where
  stream : InlineToolCallStream := {}
  flushed : List Value := []
  active : Bool := false
  ids : Ids
  drawn : ℕ := 0
  output : List Out := []

namespace InlineToolCallSseFilter

def push (s : InlineToolCallSseFilter) (out : Out) : InlineToolCallSseFilter :=
  { s with output := s.output ++ [out] }

def emitEvent (s : InlineToolCallSseFilter) (name : String) (payload : Value) : InlineToolCallSseFilter :=
  s.push (.event name payload)

/-- The events of a call, as if it had come as one. -/
def emitCall (s : InlineToolCallSseFilter) (offset : ℕ) (item : Value) : InlineToolCallSseFilter :=
  let index : Value := .int (s.stream.outputIndex + 1 + offset : ℕ)
  let event := fun (type : String) (fields : List (String × Value)) => Value.obj (("type", .str type) :: fields)
  (((s.emitEvent "response.output_item.added" (event "response.output_item.added"
      [("output_index", index), ("item", .obj [("id", item.member "id"), ("type", .str "function_call"),
        ("status", .str "in_progress"), ("call_id", item.member "call_id"), ("name", item.member "name"),
        ("arguments", .str "")])])).emitEvent
    "response.function_call_arguments.delta" (event "response.function_call_arguments.delta"
      [("item_id", item.member "id"), ("output_index", index), ("delta", item.member "arguments")])).emitEvent
    "response.function_call_arguments.done" (event "response.function_call_arguments.done"
      [("item_id", item.member "id"), ("output_index", index),
        ("arguments", item.member "arguments")])).emitEvent
    "response.output_item.done" (event "response.output_item.done" [("output_index", index), ("item", item)])

/-- The text of markup without a call goes on as it is. -/
def giveBack (s : InlineToolCallSseFilter) (raw : List Char) : InlineToolCallSseFilter :=
  let s := match s.stream.itemId with
    | some itemId => s.emitEvent "response.output_text.delta" (.obj [
        ("type", .str "response.output_text.delta"), ("item_id", .str itemId),
        ("output_index", .int s.stream.outputIndex), ("content_index", .int 0),
        ("delta", .str (String.ofList raw))])
    | none => s
  { s with stream.visible := s.stream.visible ++ raw }

def flush (codec : Codec) (s : InlineToolCallSseFilter) : InlineToolCallSseFilter :=
  let buffered := s.stream.buffered
  let s := { s with stream.pendingPrefix := [], stream.buffered := none }
  match buffered with
  | none => s
  | some raw =>
    match splitInlineToolCalls codec raw with
    | none => s.giveBack raw
    | some (_, calls) =>
      let items := functionCallItems s.ids s.drawn calls
      let s := items.zipIdx.foldl (fun s item => s.emitCall item.2 item.1) s
      { s with flushed := s.flushed ++ items, drawn := s.drawn + 2 * calls.length }

def takeDelta (s : InlineToolCallSseFilter) (payload : Value) : InlineToolCallSseFilter :=
  { s with
    stream := (s.stream.pushTextDelta payload).2
    active := s.active || (s.stream.pushTextDelta payload).2.buffered.isSome }

def passOn (s : InlineToolCallSseFilter) (payload : Value) : Option (List Char) → InlineToolCallSseFilter
  | some (c :: head) =>
    s.emitEvent "response.output_text.delta" (payload.set "delta" (.str (String.ofList (c :: head))))
  | _ => s

def textDelta (codec : Codec) (s : InlineToolCallSseFilter) (payload : Value) : InlineToolCallSseFilter :=
  let taken := (s.takeDelta payload).passOn payload (s.stream.pushTextDelta payload).1
  if taken.stream.readyToFlush then taken.flush codec else taken

def visibleText (s : InlineToolCallSseFilter) : String := String.ofList s.stream.visible

def rewriteMessage (visible : String) (item : Value) : Value :=
  if isMessage item then rewriteMessageText item visible else item

/-- The event at the end of a response. -/
def ended (codec : Codec) (s : InlineToolCallSseFilter) (raw : List UInt8) (type : String) (payload : Value) :
    InlineToolCallSseFilter :=
  let s := s.flush codec
  if !s.active && s.flushed.isEmpty then s.push (.raw raw)
  else
    let response := payload.member "response"
    match (response.get "output").bind Value.asArray with
    | none => s.emitEvent type payload
    | some items =>
      { s with flushed := [] }.emitEvent type (payload.set "response" (response.set "output"
        (.arr (items.map (rewriteMessage s.visibleText) ++ s.flushed))))

def handlePayload (codec : Codec) (s : InlineToolCallSseFilter) (raw : List UInt8) (type : String)
    (payload : Value) : InlineToolCallSseFilter :=
  match type, s.active with
  | "response.output_text.delta", _ => s.textDelta codec payload
  | "response.output_text.done", true => s.emitEvent type (payload.set "text" (.str s.visibleText))
  | "response.content_part.done", true =>
    let part := payload.member "part"
    s.emitEvent type (if (part.get "text").isNone then payload
      else payload.set "part" (part.set "text" (.str s.visibleText)))
  | "response.output_item.done", true =>
    s.emitEvent type (if isMessage (payload.member "item") then
      payload.set "item" (rewriteMessageText (payload.member "item") s.visibleText) else payload)
  | "response.completed", _ | "response.incomplete", _ | "response.failed", _ => s.ended codec raw type payload
  | _, _ => s.push (.raw raw)

def handleEvent (codec : Codec) (s : InlineToolCallSseFilter) (raw : List UInt8) : InlineToolCallSseFilter :=
  match codec.fromStr (dataOf (codec.fromUtf8Lossy raw)) with
  | none => s.push (.raw raw)
  | some payload =>
    match payload.getStr "type" with
    | none => s.push (.raw raw)
    | some type => s.handlePayload codec raw type payload

end InlineToolCallSseFilter

end Aeroric.LocalRouter.Inline
