import Aeroric.InlineToolCalls
import Aeroric.MessagesBridge
import Aeroric.PivotBridge

/-! The bridges as consumers of bytes: how their input comes in chunks does not matter. -/
namespace Aeroric.LocalRouter
open Sse Framing

/-- What `push` does with an event, and `finish` after the last one. -/
structure Bridge (σ : Type) where
  start : σ
  handle : σ → Frame UInt8 → σ
  finish : σ → σ
  output : σ → List Out

/-- The output of a `push` for each chunk and then of `finish`. -/
def Bridge.run {σ : Type} (bridge : Bridge σ) (chunks : List (List UInt8)) : List Out :=
  bridge.output (bridge.finish (feed findSseDelimiter bridge.handle bridge.start chunks))

lemma Bridge.run_congr {σ : Type} (bridge : Bridge σ) {chunks chunks' : List (List UInt8)}
    (h : chunks.flatten = chunks'.flatten) : bridge.run chunks = bridge.run chunks' := by
  unfold Bridge.run
  rw [feed_congr bridge.handle findSseDelimiter_lawful h]

def chatSseTransformer (codec : Codec) (ids : Ids) (model : String) (namespaces : ToolNamespaces) :
    Bridge ChatSseTransformer where
  start := (ChatSseTransformer.new ids model).withNamespaces namespaces
  handle s frame := s.handleEvent (codec.message frame.body)
  finish := ChatSseTransformer.emitFinish
  output := ChatSseTransformer.output

def chatToMessagesSse (codec : Codec) (ids : Ids) (model : String) : Bridge ChatToMessagesSse where
  start := .new ids model
  handle s frame := s.handleEvent codec (codec.message frame.body)
  finish := ChatToMessagesSse.emitFinish codec
  output := ChatToMessagesSse.output

def responsesSseToChat (codec : Codec) (model : String) : Bridge ResponsesSseToChat where
  start := { model := model }
  handle s frame := (eventOf codec frame.body).elim s s.handle
  finish := ResponsesSseToChat.finish
  output := ResponsesSseToChat.output

def messagesSseToChat (codec : Codec) (model : String) : Bridge MessagesSseToChat where
  start := { model := model }
  handle s frame := (eventOf codec frame.body).elim s s.handle
  finish := MessagesSseToChat.emitEnd
  output := MessagesSseToChat.output

/-- It passes on the delimiters too. -/
def inlineToolCallSseFilter (codec : Codec) (ids : Ids) : Bridge Inline.InlineToolCallSseFilter where
  start := { ids := ids }
  handle s frame := s.handleEvent codec (frame.body ++ frame.delimiter)
  finish := Inline.InlineToolCallSseFilter.flush codec
  output := Inline.InlineToolCallSseFilter.output

/-- What a bridge writes does not depend on how the stream is cut into chunks. -/
theorem cuts_irrelevant (codec : Codec) (ids : Ids) (model : String) (namespaces : ToolNamespaces)
    {chunks chunks' : List (List UInt8)} (h : chunks.flatten = chunks'.flatten) :
    (chatSseTransformer codec ids model namespaces).run chunks =
        (chatSseTransformer codec ids model namespaces).run chunks' ∧
      (chatToMessagesSse codec ids model).run chunks = (chatToMessagesSse codec ids model).run chunks' ∧
      (responsesSseToChat codec model).run chunks = (responsesSseToChat codec model).run chunks' ∧
      (messagesSseToChat codec model).run chunks = (messagesSseToChat codec model).run chunks' ∧
      (inlineToolCallSseFilter codec ids).run chunks = (inlineToolCallSseFilter codec ids).run chunks' :=
  ⟨Bridge.run_congr _ h, Bridge.run_congr _ h, Bridge.run_congr _ h, Bridge.run_congr _ h,
    Bridge.run_congr _ h⟩

/-- Bytes as characters, and no values. -/
def plainCodec : Codec := ⟨fun bytes => bytes.map fun byte => Char.ofNat byte.toNat, fun _ => none, fun _ => ""⟩

/-- A carriage return and a line feed that come apart. -/
theorem cuts_irrelevant_crlf :
    (chatSseTransformer plainCodec (fun _ => "0") "m" fun _ => none).run [[97, 13], [], [10, 13, 10]] =
        (chatSseTransformer plainCodec (fun _ => "0") "m" fun _ => none).run [[97, 13, 10, 13, 10]] ∧
      (chatToMessagesSse plainCodec (fun _ => "0") "m").run [[97, 13], [], [10, 13, 10]] =
        (chatToMessagesSse plainCodec (fun _ => "0") "m").run [[97, 13, 10, 13, 10]] ∧
      (responsesSseToChat plainCodec "m").run [[97, 13], [], [10, 13, 10]] =
        (responsesSseToChat plainCodec "m").run [[97, 13, 10, 13, 10]] ∧
      (messagesSseToChat plainCodec "m").run [[97, 13], [], [10, 13, 10]] =
        (messagesSseToChat plainCodec "m").run [[97, 13, 10, 13, 10]] ∧
      (inlineToolCallSseFilter plainCodec fun _ => "0").run [[97, 13], [], [10, 13, 10]] =
        (inlineToolCallSseFilter plainCodec fun _ => "0").run [[97, 13, 10, 13, 10]] :=
  cuts_irrelevant plainCodec (fun _ => "0") "m" (fun _ => none) rfl

end Aeroric.LocalRouter
