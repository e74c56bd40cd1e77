import Aeroric.ChatBridge

/-! A Chat Completions answer and the ways of cutting it into the chunks of a stream: the response that
the stream ends with against the one made of the whole answer. -/
namespace Aeroric.LocalRouter
open Json Sse

def optional (key : String) (value : Option Value) : List (String × Value) :=
  value.toList.map (key, ·)

@[simp] lemma lookup_optional (key k : String) (value : Option Value) (rest : List (String × Value)) :
    (optional k value ++ rest).lookup key =
      if key = k then value <|> rest.lookup key else rest.lookup key := by
  unfold optional
  cases value with
  | none => simp
  | some v =>
    by_cases h : key = k
    · simp [h]
    · have hne : (key == k) = false := by simpa using h
      simp [List.lookup_cons, h, hne]

@[simp] lemma lookup_optional_nil (key k : String) (value : Option Value) :
    (optional k value).lookup key = if key = k then value else none := by
  have h := lookup_optional key k value []
  rw [List.append_nil] at h
  rw [h]
  cases value <;> rfl

structure AnswerCall where
  id : String
  name : String
  arguments : String

/-- A whole answer, of which a process can hold the calls. -/
structure Answer where
  model : Option String
  text : String
  reasoning : String
  calls : List AnswerCall
  finishReason : Option String
  usage : Option (List (String × Value))
  held : calls.length ≤ u64

namespace Answer

def callValue (c : AnswerCall) : Value :=
  .obj [("id", .str c.id), ("type", .str "function"),
    ("function", .obj [("name", .str c.name), ("arguments", .str c.arguments)])]

def message (a : Answer) : Value :=
  .obj ([("role", .str "assistant"), ("content", .str a.text)] ++
    optional "reasoning_content" (if a.reasoning = "" then none else some (.str a.reasoning)) ++
    optional "tool_calls" (if a.calls = [] then none else some (.arr (a.calls.map callValue))))

def payload (a : Answer) : Value :=
  .obj (optional "model" (a.model.map .str) ++
    [("choices", .arr [.obj [("index", .int 0), ("message", a.message),
      ("finish_reason", (a.finishReason.map .str).getD .null)]])] ++
    optional "usage" (a.usage.map .obj))

end Answer

/-- A part of a call. -/
structure Fragment where
  index : ℕ
  id : Option String
  name : Option String
  arguments : Option String

structure Delta where
  reasoning : Option String
  content : Option String
  calls : List Fragment

structure Chunk where
  model : Option String
  delta : Option Delta
  finishReason : Option String
  usage : Option (List (String × Value))

def Fragment.value (f : Fragment) : Value :=
  .obj ([("index", .int f.index)] ++ optional "id" (f.id.map .str) ++
    [("function", .obj (optional "name" (f.name.map .str) ++
      optional "arguments" (f.arguments.map .str)))])

def Delta.value (d : Delta) : Value :=
  .obj (optional "reasoning_content" (d.reasoning.map .str) ++ optional "content" (d.content.map .str) ++
    optional "tool_calls" (if d.calls = [] then none else some (.arr (d.calls.map Fragment.value))))

def Chunk.value (c : Chunk) : Value :=
  .obj (optional "model" (c.model.map .str) ++
    [("choices", .arr (c.delta.toList.map fun d => .obj [("index", .int 0), ("delta", d.value),
      ("finish_reason", (c.finishReason.map .str).getD .null)]))] ++
    optional "usage" (c.usage.map .obj))

def textOf (chunks : List Chunk) : String :=
  String.join (chunks.map fun c => (c.delta.bind (·.content)).getD "")

def reasoningOf (chunks : List Chunk) : String :=
  String.join (chunks.map fun c => (c.delta.bind (·.reasoning)).getD "")

def fragments (chunks : List Chunk) : List Fragment :=
  chunks.flatMap fun c => (c.delta.map (·.calls)).getD []

def parts (fs : List Fragment) (index : ℕ) : List Fragment := fs.filter (·.index = index)

def argumentsOf (fs : List Fragment) : String := String.join (fs.map (·.arguments.getD ""))

/-- The chunks are a way of cutting the answer. -/
structure IsCut (a : Answer) (chunks : List Chunk) : Prop where
  model : ∀ c ∈ chunks, c.model = a.model
  text : textOf chunks = a.text
  reasoning : reasoningOf chunks = a.reasoning
  index : ∀ f ∈ fragments chunks, f.index < a.calls.length
  id : ∀ i c, a.calls[i]? = some c → (parts (fragments chunks) i).findSome? (·.id) = some c.id
  name : ∀ i c, a.calls[i]? = some c →
    String.join ((parts (fragments chunks) i).map (·.name.getD "")) = c.name
  arguments : ∀ i c, a.calls[i]? = some c → argumentsOf (parts (fragments chunks) i) = c.arguments
  finishReason : chunks.foldl (fun r c => c.finishReason <|> r) none = a.finishReason
  usage : chunks.foldl (fun u c => c.usage <|> u) none = a.usage

/-- The first part of a call has the id of the call, and a name that stands for the same tool as the
whole one. -/
structure Fragment.Leads (namespaces : ToolNamespaces) (c : AnswerCall) (f : Fragment) : Prop where
  id : f.id.isSome = true
  name : splitName namespaces (f.name.getD "tool") = splitName namespaces c.name

/-- Nothing comes that only a whole answer is translated with: no reasoning, the usage is there, and
the first part of each call has its id and its name. -/
structure StreamsWhole (namespaces : ToolNamespaces) (a : Answer) (chunks : List Chunk) : Prop where
  reasoning : a.reasoning = ""
  usage : a.usage.isSome = true
  first : ∀ i c, a.calls[i]? = some c → ∀ f, (parts (fragments chunks) i).head? = some f →
    f.Leads namespaces c

/-! What the translation reads of them. -/

section Read

lemma Chunk.error_eq (c : Chunk) : c.value.get "error" = none := by
  simp [Chunk.value, List.lookup_cons]

lemma Chunk.model_eq (c : Chunk) : c.value.getStr "model" = c.model := by
  cases hm : c.model <;> simp [Chunk.value, Value.getStr, List.lookup_cons, hm]

lemma Chunk.usage_eq (c : Chunk) : c.value.get "usage" = c.usage.map .obj := by
  simp [Chunk.value, List.lookup_cons]

lemma Chunk.delta_eq (c : Chunk) :
    (c.value.items "choices").head?.bind (Value.get "delta") = c.delta.map Delta.value := by
  cases hd : c.delta <;> simp [Chunk.value, Value.items, List.lookup_cons, hd]

lemma Delta.reasoning_eq (d : Delta) : extractReasoningText d.value = nonEmpty d.reasoning := by
  cases hr : d.reasoning <;>
    simp [Delta.value, extractReasoningText, Value.getStr, hr, nonEmpty]

lemma Delta.content_eq (d : Delta) :
    extractDeltaContentText (d.value.member "content") = d.content.getD "" := by
  cases hc : d.content <;> simp [Delta.value, Value.member, hc, extractDeltaContentText]

lemma Delta.calls_eq (d : Delta) : d.value.items "tool_calls" = d.calls.map Fragment.value := by
  by_cases hc : d.calls = [] <;> simp [Delta.value, Value.items, hc]

variable {f : Fragment}

lemma Fragment.index_eq (h : f.index < u64) : f.value.getU64 "index" = some f.index := by
  have hget : f.value.get "index" = some (.int f.index) := by simp [Fragment.value]
  rw [Value.getU64, hget, Option.bind_some, Value.asU64_natCast h]

lemma Fragment.id_eq : f.value.getStr "id" = f.id := by
  cases hid : f.id <;> simp [Fragment.value, Value.getStr, List.lookup_cons, hid]

lemma Fragment.name_eq : (f.value.member "function").getStr "name" = f.name := by
  cases hn : f.name <;> simp [Fragment.value, Value.getStr, Value.member, List.lookup_cons, hn]

lemma Fragment.arguments_eq : (f.value.member "function").getStr "arguments" = f.arguments := by
  cases ha : f.arguments <;> simp [Fragment.value, Value.getStr, Value.member, List.lookup_cons, ha]

end Read

/-! What a stream leaves to be put together. -/

namespace ChatSseTransformer
variable {s : ChatSseTransformer}

@[simp] lemma emitEvent_toGathered {name : String} {fields : List (String × Value)} :
    (s.emitEvent name fields).toGathered = s.toGathered := rfl

@[simp] lemma emitStart_toGathered : s.emitStart.toGathered = s.toGathered := by
  unfold emitStart
  split <;> rfl

lemma openText_toGathered : s.openText.toGathered = { s.toGathered with textStarted := true } := by
  unfold openText
  split
  · next h => rw [← h]
  · rfl

lemma emitTextDelta_toGathered (delta : String) : (s.emitTextDelta delta).toGathered =
    { s.toGathered with text := s.text ++ delta, textStarted := true } := by
  have h := s.emitStart.openText_toGathered
  rw [emitStart_toGathered] at h
  unfold emitTextDelta
  dsimp only
  rw [emitEvent_toGathered, h]

lemma emitReasoningDelta_toGathered (delta : String) :
    (s.emitReasoningDelta delta).toGathered = s.toGathered := by
  unfold emitReasoningDelta openReasoning
  dsimp only
  rw [emitEvent_toGathered]
  split <;> exact emitStart_toGathered

end ChatSseTransformer

/-- The call is as this part has opened it. Without an id it got two that were drawn, and these
begin differently. -/
structure OpenedBy (namespaces : ToolNamespaces) (f : Fragment) (state : ToolState) : Prop where
  name : (state.name, state.space) = splitName namespaces (f.name.getD "tool")
  given : ∀ id, f.id = some id → state.id = id ∧ state.callId = id
  drawn : f.id = none → state.id ≠ state.callId

/-- All but the calls. -/
def Gathered.beside (g : Gathered) : Gathered := { g with tools := .empty }

/-- What the parts of a call have made of it. -/
def ToolFits (namespaces : ToolNamespaces) (fs : List Fragment) (state : Option ToolState) : Prop :=
  (fs = [] → state = none) ∧ ∀ f, fs.head? = some f →
    ∃ call, state = some call ∧ OpenedBy namespaces f call ∧ call.arguments = argumentsOf fs

lemma parts_append (fs : List Fragment) (f : Fragment) (i : ℕ) :
    parts (fs ++ [f]) i = parts fs i ++ if f.index = i then [f] else [] := by
  unfold parts
  rw [List.filter_append, List.filter_singleton]
  by_cases h : f.index = i <;> simp [h]

lemma argumentsOf_append (fs : List Fragment) (f : Fragment) :
    argumentsOf (fs ++ [f]) = argumentsOf fs ++ f.arguments.getD "" := by
  simp [argumentsOf, String.join_append]

namespace ChatSseTransformer
variable {s : ChatSseTransformer} {f : Fragment} {fs : List Fragment}

lemma drawn_ne (x y : String) : "fc_" ++ x ≠ "call_" ++ y := by
  intro h
  have hlist := congrArg (fun text => text.toList.head?) h
  simp at hlist

lemma tool_spec (h : ToolFits s.namespaces fs (s.tools.get f.index)) :
    (s.tool f.index f.value).2.toGathered.beside = s.toGathered.beside ∧
      (∀ i, i ≠ f.index → (s.tool f.index f.value).2.tools.get i = s.tools.get i) ∧
      (s.tool f.index f.value).2.tools.get f.index = some (s.tool f.index f.value).1 ∧
      (s.tool f.index f.value).1.arguments = argumentsOf fs ∧
      ∀ first, (fs ++ [f]).head? = some first →
        OpenedBy s.namespaces first (s.tool f.index f.value).1 := by
  unfold tool
  cases fs with
  | nil =>
    rw [h.1 rfl]
    simp only [Fragment.id_eq, Fragment.name_eq]
    refine ⟨rfl, fun i hi => Table.get_set_of_ne hi, Table.get_set_self .., rfl, ?_⟩
    rintro _ ⟨⟩
    cases hid : f.id with
    | none =>
      refine ⟨rfl, fun id hgiven => ?_, fun _ => drawn_ne _ _⟩
      cases hid.symm.trans hgiven
    | some id =>
      refine ⟨rfl, fun other hgiven => ?_, fun hnone => ?_⟩
      · cases hid.symm.trans hgiven
        exact ⟨rfl, rfl⟩
      · cases hid.symm.trans hnone
  | cons f0 fs =>
    obtain ⟨call, hcall, hopened, harguments⟩ := h.2 f0 rfl
    rw [hcall]
    refine ⟨rfl, fun _ _ => rfl, hcall, harguments, ?_⟩
    rintro _ ⟨⟩
    exact hopened

lemma handleCall_fragment (hindex : f.index < u64) (position : ℕ)
    (h : ∀ i, ToolFits s.namespaces (parts fs i) (s.tools.get i)) :
    (s.handleCall f.value position).toGathered.beside = s.toGathered.beside ∧
      ∀ i, ToolFits s.namespaces (parts (fs ++ [f]) i) ((s.handleCall f.value position).tools.get i) := by
  have hidx := CallIndexer.index_of_index (c := s.callIndexes) (Fragment.index_eq hindex) position
  unfold handleCall
  dsimp only
  rw [hidx, Fragment.arguments_eq]
  generalize hs1 : ({ s with callIndexes := (s.callIndexes.index f.value position).2 } :
    ChatSseTransformer) = s1
  have hgathered : s1.toGathered = s.toGathered := by rw [← hs1]
  have htools : s1.tools = s.tools := congrArg Gathered.tools hgathered
  have hspaces : s1.namespaces = s.namespaces := congrArg Gathered.namespaces hgathered
  have hfits : ToolFits s1.namespaces (parts fs f.index) (s1.tools.get f.index) := by
    rw [htools, hspaces]
    exact h f.index
  obtain ⟨hsame, hother, hself, hbefore, hopened⟩ := tool_spec hfits
  rw [hgathered] at hsame
  rw [htools] at hother
  rw [hspaces] at hopened
  -- the other calls are as they were, and the part is no part of theirs
  have hrest : ∀ (t : Table ℕ ToolState), (∀ i, i ≠ f.index → t.get i = s.tools.get i) →
      ∀ i, i ≠ f.index → ToolFits s.namespaces (parts (fs ++ [f]) i) (t.get i) := by
    intro t ht i hi
    rw [parts_append, if_neg (Ne.symm hi), List.append_nil, ht i hi]
    exact h i
  have hparts : parts (fs ++ [f]) f.index = parts fs f.index ++ [f] := by
    rw [parts_append, if_pos rfl]
  cases harguments : f.arguments with
  | none =>
    refine ⟨hsame, fun i => ?_⟩
    by_cases hi : i = f.index
    · subst hi
      rw [hself, hparts]
      refine ⟨by simp, fun first hfirst => ⟨_, rfl, hopened first hfirst, ?_⟩⟩
      rw [argumentsOf_append, harguments, Option.getD_none, String.append_empty, hbefore]
    · exact hrest _ hother i hi
  | some arguments =>
    refine ⟨hsame, fun i => ?_⟩
    by_cases hi : i = f.index
    · subst hi
      dsimp only [emitEvent]
      rw [Table.get_set_self, hparts]
      refine ⟨by simp, fun first hfirst => ⟨_, rfl, ?_, ?_⟩⟩
      · obtain ⟨hname, hgiven, hdrawn⟩ := hopened first hfirst
        exact ⟨hname, hgiven, hdrawn⟩
      · rw [argumentsOf_append, harguments, Option.getD_some, hbefore]
    · exact hrest _ (fun i hi => (Table.get_set_of_ne hi).trans (hother i hi)) i hi

lemma handleCalls_fragments {news : List Fragment} (hindex : ∀ f ∈ news, f.index < u64)
    (position : ℕ) (h : ∀ i, ToolFits s.namespaces (parts fs i) (s.tools.get i)) :
    let s' := ((news.map Fragment.value).zipIdx position).foldl
      (fun s entry => s.handleCall entry.1 entry.2) s
    s'.toGathered.beside = s.toGathered.beside ∧
      ∀ i, ToolFits s.namespaces (parts (fs ++ news) i) (s'.tools.get i) := by
  induction news generalizing s fs position with
  | nil => simpa using h
  | cons f news ih =>
    obtain ⟨hsame, hfits⟩ := handleCall_fragment (hindex f List.mem_cons_self) position h
    have hspaces : (s.handleCall f.value position).namespaces = s.namespaces := by
      have h := congrArg Gathered.namespaces hsame
      exact h
    have hparts : ∀ i, ToolFits (s.handleCall f.value position).namespaces (parts (fs ++ [f]) i)
        ((s.handleCall f.value position).tools.get i) := by
      rw [hspaces]
      exact hfits
    have hrest := ih (fun g hg => hindex g (List.mem_cons_of_mem f hg)) (position + 1) hparts
    dsimp only at hrest ⊢
    rw [List.append_assoc, hspaces] at hrest
    exact ⟨hrest.1.trans hsame, hrest.2⟩

def withText (g : Gathered) (content : String) : Gathered :=
  { g with text := g.text ++ content, textStarted := g.textStarted || content != "" }

lemma takeReasoning_toGathered (reasoning : Option String) :
    (s.takeReasoning reasoning).toGathered = s.toGathered := by
  cases reasoning with
  | none => rfl
  | some reasoning => exact emitReasoningDelta_toGathered reasoning

lemma takeContent_toGathered (content : String) :
    (s.takeContent content).toGathered = withText s.toGathered content := by
  unfold takeContent
  split
  · next hempty => simp [withText, hempty]
  · next hcontent =>
    rw [emitTextDelta_toGathered]
    simp [withText, hcontent]

lemma takeHead_toGathered (c : Chunk) : (s.takeHead c.value).toGathered = { s.toGathered with
    model := c.model.getD s.model
    usage := (c.usage.map fun u => responsesUsage (.obj u)) <|> s.usage } := by
  unfold takeHead Value.member
  rw [Chunk.model_eq, Chunk.usage_eq]
  cases c.usage <;> rfl

lemma handleDelta_gathered {d : Delta} (hindex : ∀ f ∈ d.calls, f.index < u64)
    (h : ∀ i, ToolFits s.namespaces (parts fs i) (s.tools.get i)) :
    (s.handleDelta d.value).toGathered.beside = (withText s.toGathered (d.content.getD "")).beside ∧
      ∀ i, ToolFits s.namespaces (parts (fs ++ d.calls) i) ((s.handleDelta d.value).tools.get i) := by
  have h2 : ((s.takeReasoning (nonEmpty d.reasoning)).takeContent (d.content.getD "")).toGathered =
      withText s.toGathered (d.content.getD "") := by
    rw [takeContent_toGathered, takeReasoning_toGathered]
  unfold handleDelta
  rw [Delta.reasoning_eq, Delta.content_eq, Delta.calls_eq]
  dsimp only
  generalize (s.takeReasoning (nonEmpty d.reasoning)).takeContent (d.content.getD "") = s2 at h2 ⊢
  have hcalls := handleCalls_fragments (s := s2) hindex 0
    (by rw [h2]; exact h)
  rw [h2] at hcalls
  exact hcalls

end ChatSseTransformer

/-- What these chunks say, apart from the calls. -/
def Gathered.said (start : Gathered) (chunks : List Chunk) : Gathered :=
  { start.beside with
    model := chunks.foldl (fun m c => c.model.getD m) start.model
    usage := (chunks.foldl (fun u c => c.usage <|> u) none).map fun u => responsesUsage (.obj u)
    text := textOf chunks
    textStarted := textOf chunks != "" }

/-- What a run over these chunks has put together. -/
structure Gathers (start : Gathered) (chunks : List Chunk) (g : Gathered) : Prop where
  said : g.beside = start.said chunks
  tools : ∀ i, ToolFits start.namespaces (parts (fragments chunks) i) (g.tools.get i)

section Run
variable {start : Gathered} {chunks : List Chunk} {c : Chunk} {s : ChatSseTransformer}

lemma textOf_append : textOf (chunks ++ [c]) = textOf chunks ++ (c.delta.bind (·.content)).getD "" := by
  simp [textOf, String.join_append]

lemma fragments_append :
    fragments (chunks ++ [c]) = fragments chunks ++ (c.delta.map (·.calls)).getD [] := by
  simp [fragments]

lemma said_append : start.said (chunks ++ [c]) =
    (ChatSseTransformer.withText { start.said chunks with
      model := c.model.getD (start.said chunks).model
      usage := (c.usage.map fun u => responsesUsage (.obj u)) <|> (start.said chunks).usage }
      ((c.delta.bind (·.content)).getD "")) := by
  unfold Gathered.said ChatSseTransformer.withText
  simp only [List.foldl_append, List.foldl_cons, List.foldl_nil, textOf_append]
  congr 1
  · cases c.usage <;> rfl
  · rw [Bool.eq_iff_iff]
    simp [String.append_eq_empty_iff, or_iff_not_imp_left]

lemma Gathers.handleChunk (h : Gathers start chunks s.toGathered)
    (hindex : ∀ f ∈ fragments (chunks ++ [c]), f.index < u64) :
    Gathers start (chunks ++ [c]) (s.handleChunk c.value).toGathered := by
  have hhead : (s.takeHead c.value).emitStart.toGathered = { s.toGathered with
      model := c.model.getD s.model
      usage := (c.usage.map fun u => responsesUsage (.obj u)) <|> s.usage } := by
    rw [ChatSseTransformer.emitStart_toGathered, ChatSseTransformer.takeHead_toGathered]
  unfold ChatSseTransformer.handleChunk
  rw [Chunk.error_eq, Chunk.delta_eq]
  generalize (s.takeHead c.value).emitStart = s1 at hhead
  have hspaces : s1.namespaces = start.namespaces := by
    rw [hhead]
    have h := congrArg Gathered.namespaces h.said
    exact h
  have htools : s1.tools = s.tools := by rw [hhead]
  have hsaid : (ChatSseTransformer.withText s1.toGathered ((c.delta.bind (·.content)).getD "")).beside =
      start.said (chunks ++ [c]) := by
    rw [said_append, ← h.said, hhead]
    rfl
  cases hdelta : c.delta with
  | none =>
    refine ⟨?_, ?_⟩
    · rw [← hsaid, hdelta]
      simp [ChatSseTransformer.withText]
    · rw [fragments_append, hdelta]
      simpa [htools] using h.tools
  | some d =>
    rw [hdelta] at hsaid
    rw [fragments_append, hdelta] at hindex
    obtain ⟨hbeside, hfits⟩ := ChatSseTransformer.handleDelta_gathered (s := s1)
      (fun f hf => hindex f (List.mem_append_right _ hf)) (by rw [hspaces, htools]; exact h.tools)
    refine ⟨hbeside.trans hsaid, ?_⟩
    rw [fragments_append, hdelta, ← hspaces]
    exact hfits

lemma gathers_run (hindex : ∀ f ∈ fragments chunks, f.index < u64) (hstart : s.toGathered = start)
    (htext : start.text = "" ∧ start.textStarted = false ∧ start.usage = none ∧ start.tools = .empty) :
    Gathers start chunks
      ((chunks.map Chunk.value).foldl ChatSseTransformer.handleChunk s).toGathered := by
  induction chunks using List.reverseRecOn with
  | nil =>
    refine ⟨?_, fun i => ⟨fun _ => ?_, nofun⟩⟩
    · obtain ⟨ht, hts, hu, -⟩ := htext
      rw [List.map_nil, List.foldl_nil, hstart]
      unfold Gathered.said Gathered.beside
      simp [textOf, ht, hts, hu]
    · rw [List.map_nil, List.foldl_nil, hstart, htext.2.2.2]
      rfl
  | append_singleton chunks c ih =>
    rw [List.map_append, List.foldl_append]
    refine (ih fun f hf => hindex f ?_).handleChunk hindex
    rw [fragments_append]
    exact List.mem_append_left _ hf

end Run

namespace ChatSseTransformer
variable {s : ChatSseTransformer}

lemma toolsDone_toGathered (states : List ToolState) :
    (states.foldl emitToolDone s).toGathered = s.toGathered := by
  induction states generalizing s with
  | nil => rfl
  | cons state states ih => exact ih

lemma emitDone_toGathered : s.emitDone.toGathered = s.toGathered := by
  unfold emitDone
  dsimp only
  rw [toolsDone_toGathered]
  split <;> split <;> rfl

lemma emitFinish_of_unfinished (h : s.finished = false) :
    s.emitFinish.toGathered = { s.toGathered with finished := true } ∧
      s.emitFinish.response = some (completed s.toGathered) := by
  unfold emitFinish
  rw [h, if_neg Bool.false_ne_true]
  dsimp only
  rw [emitEvent_toGathered, emitDone_toGathered, emitStart_toGathered]
  refine ⟨rfl, ?_⟩
  simp only [response, emitEvent, List.getLast?_concat]
  rfl

lemma emitFinish_emitFinish (h : s.finished = false) : s.emitFinish.emitFinish = s.emitFinish := by
  have hfinished : s.emitFinish.finished = true := by rw [(emitFinish_of_unfinished h).1]
  exact if_pos hfinished

end ChatSseTransformer

section Whole
variable {a : Answer} {ids : Ids} {requested : String}

lemma Answer.message_eq :
    ((a.payload.items "choices").head?.bind (Value.get "message")).getD (.obj []) = a.message := by
  simp [Answer.payload, Value.items, List.lookup_cons]

lemma Answer.reasoning_eq : extractReasoningText a.message = nonEmpty (some a.reasoning) := by
  by_cases h : a.reasoning = ""
  · simp [Answer.message, extractReasoningText, Value.getStr, List.lookup_cons, h, nonEmpty]
    rfl
  · simp [Answer.message, extractReasoningText, Value.getStr, List.lookup_cons, h, nonEmpty]

lemma Answer.text_eq : extractDeltaContentText (a.message.member "content") = a.text := by
  simp [Answer.message, Value.member, List.lookup_cons, extractDeltaContentText]

lemma Answer.calls_eq : a.message.items "tool_calls" = a.calls.map Answer.callValue := by
  by_cases hc : a.calls = [] <;> simp [Answer.message, Value.items, List.lookup_cons, hc]

lemma callItems_answer (drawn : ℕ) (calls : List AnswerCall) :
    callItems ids drawn (calls.map Answer.callValue) = calls.map fun c =>
      callItem (.str c.id) (.str c.id) (.str c.name) (.str c.arguments) "completed" := by
  induction calls with
  | nil => rfl
  | cons c calls ih =>
    simp [callItems, Answer.callValue, Value.member, List.lookup_cons, ih]

/-- The items that the two translations agree on. -/
def textItems (ids : Ids) (text : String) : List Value :=
  if text = "" then [] else [messageItem ("msg_" ++ ids 1) "completed" [textPart text]]

lemma chatResponseToResponses_answer (a : Answer) (ids : Ids) (requested : String) : ∃ reasoning : List Value,
    (a.reasoning = "" ↔ reasoning = []) ∧
      (∀ item ∈ reasoning, item.getStr "type" = some "reasoning") ∧
      chatResponseToResponses ids a.payload requested =
        ChatSseTransformer.responseBase ("resp_" ++ ids 0) (a.model.getD requested) "completed"
          (reasoning ++ (textItems ids a.text ++ a.calls.map fun c =>
            callItem (.str c.id) (.str c.id) (.str c.name) (.str c.arguments) "completed"))
          (some (responsesUsage ((a.usage.map .obj).getD .null))) := by
  have hmodel : a.payload.getStr "model" = a.model := by
    cases hm : a.model <;> simp [Answer.payload, Value.getStr, List.lookup_cons, hm]
  have hget : a.payload.member "usage" = (a.usage.map .obj).getD .null := by
    simp [Answer.payload, Value.member, List.lookup_cons]
  refine ⟨(nonEmpty (some a.reasoning)).toList.map fun reasoning =>
    .obj [("id", .str ("rs_" ++ ids 2)), ("type", .str "reasoning"),
      ("summary", .arr [.obj [("type", .str "summary_text"), ("text", .str reasoning)]])], ?_, ?_, ?_⟩
  · by_cases h : a.reasoning = "" <;> simp [nonEmpty, h]
  · intro item hitem
    obtain ⟨reasoning, -, rfl⟩ := List.mem_map.mp hitem
    simp [Value.getStr, List.lookup_cons]
  · unfold chatResponseToResponses
    simp only [Answer.message_eq, Answer.reasoning_eq, Answer.text_eq, Answer.calls_eq, hmodel,
      hget, callItems_answer, List.append_assoc]
    rfl

end Whole

section Items
variable {namespaces : ToolNamespaces}

lemma splitCallName_message (id : String) (content : List Value) :
    splitCallName namespaces (messageItem id "completed" content) =
      messageItem id "completed" content := by
  simp [splitCallName, messageItem, Value.getStr, List.lookup_cons]

lemma splitCallName_call (id name arguments : String) (outputIndex : ℕ) :
    splitCallName namespaces (callItem (.str id) (.str id) (.str name) (.str arguments) "completed") =
      ChatSseTransformer.toolItem ⟨id, id, (splitName namespaces name).1,
        (splitName namespaces name).2, arguments, outputIndex⟩ "completed" arguments := by
  unfold splitCallName ChatSseTransformer.toolItem splitName
  cases hname : namespaces name <;>
    simp [callItem, Value.getStr, List.lookup_cons, hname, Value.set]

lemma restoreToolNamespaces_base (responseId model : String) (items : List Value) (usage : Option Value) :
    restoreToolNamespaces namespaces
      (ChatSseTransformer.responseBase responseId model "completed" items usage) =
    ChatSseTransformer.responseBase responseId model "completed"
      (items.map (splitCallName namespaces)) usage := by
  cases usage <;>
    simp [restoreToolNamespaces, ChatSseTransformer.responseBase, List.lookup_cons, Value.set]

end Items

lemma toolItem_inj {x y : ToolState} :
    ChatSseTransformer.toolItem x "completed" x.arguments =
        ChatSseTransformer.toolItem y "completed" y.arguments ↔
      x.id = y.id ∧ x.callId = y.callId ∧ x.name = y.name ∧ x.arguments = y.arguments ∧
        x.space = y.space := by
  unfold ChatSseTransformer.toolItem
  cases hx : x.space <;> cases hy : y.space <;>
    simp [callItem, Value.set, List.lookup_cons]

section Agree
variable {a : Answer} {chunks : List Chunk} {namespaces : ToolNamespaces}

lemma IsCut.head (hcut : IsCut a chunks) {i : ℕ} {c : AnswerCall} (hc : a.calls[i]? = some c) :
    ∃ f, (parts (fragments chunks) i).head? = some f ∧ ∀ id, f.id = some id → id = c.id := by
  have hfind := hcut.id i c hc
  cases hparts : parts (fragments chunks) i with
  | nil => simp [hparts] at hfind
  | cons f fs =>
    refine ⟨f, rfl, fun id hid => ?_⟩
    rw [hparts, List.findSome?_cons, hid] at hfind
    exact Option.some.inj hfind

/-- The two translations of a call are alike just if its first part leads it. -/
lemma OpenedBy.item_eq_iff {f : Fragment} {state : ToolState} {c : AnswerCall}
    (h : OpenedBy namespaces f state) (hid : ∀ id, f.id = some id → id = c.id)
    (harguments : state.arguments = c.arguments) :
    ChatSseTransformer.toolItem state "completed" state.arguments = splitCallName namespaces
        (callItem (.str c.id) (.str c.id) (.str c.name) (.str c.arguments) "completed") ↔
      f.Leads namespaces c := by
  rw [splitCallName_call _ _ _ 0]
  refine (toolItem_inj (y := ⟨c.id, c.id, (splitName namespaces c.name).1,
    (splitName namespaces c.name).2, c.arguments, 0⟩)).trans ?_
  constructor
  · rintro ⟨hstate, hcall, hname, -, hspace⟩
    refine ⟨?_, h.name.symm.trans (Prod.ext hname hspace)⟩
    by_contra hnone
    exact h.drawn (by simpa using hnone) (hstate.trans hcall.symm)
  · rintro ⟨hsome, hname⟩
    obtain ⟨id, hf⟩ := Option.isSome_iff_exists.mp hsome
    obtain ⟨hstate, hcall⟩ := h.given id hf
    rw [hid id hf] at hstate hcall
    obtain ⟨hname, hspace⟩ := Prod.mk.inj (h.name.trans hname)
    exact ⟨hstate, hcall, hname, harguments, hspace⟩

/-- The calls in the order of their indexes are those of the answer just if their first parts lead
them. -/
lemma toolItems_eq_iff (hcut : IsCut a chunks) {g : Gathered}
    (hg : ∀ i, ToolFits namespaces (parts (fragments chunks) i) (g.tools.get i)) :
    (ChatSseTransformer.toolStates g).map (fun state =>
        ChatSseTransformer.toolItem state "completed" state.arguments) =
      (a.calls.map fun c => callItem (.str c.id) (.str c.id) (.str c.name) (.str c.arguments)
        "completed").map (splitCallName namespaces) ↔
    ∀ i c, a.calls[i]? = some c → ∀ f, (parts (fragments chunks) i).head? = some f →
      f.Leads namespaces c := by
  have hget : ∀ i c, a.calls[i]? = some c → ∃ f state, (parts (fragments chunks) i).head? = some f ∧
      g.tools.get i = some state ∧ (ChatSseTransformer.toolItem state "completed" state.arguments =
        splitCallName namespaces (callItem (.str c.id) (.str c.id) (.str c.name) (.str c.arguments)
          "completed") ↔ f.Leads namespaces c) := by
    intro i c hc
    obtain ⟨f, hf, hid⟩ := hcut.head hc
    obtain ⟨state, hstate, hopened, harguments⟩ := (hg i).2 f hf
    exact ⟨f, state, hf, hstate, hopened.item_eq_iff hid (harguments.trans (hcut.arguments i c hc))⟩
  have hkeys : g.tools.keys = List.range a.calls.length := by
    refine Table.keys_eq List.pairwise_lt_range fun i => ?_
    rw [List.mem_range]
    constructor
    · intro hi
      obtain ⟨f, state, -, hi, -⟩ := hget i _ (List.getElem?_eq_getElem hi)
      simp [hi]
    · intro hi
      cases hparts : parts (fragments chunks) i with
      | nil => simp [(hg i).1 hparts] at hi
      | cons f fs =>
        have hf : f ∈ parts (fragments chunks) i := by simp [hparts]
        obtain ⟨hf, hindex⟩ := List.mem_filter.mp hf
        rw [← of_decide_eq_true hindex]
        exact hcut.index f hf
  have hstream : (ChatSseTransformer.toolStates g).map (fun state =>
      ChatSseTransformer.toolItem state "completed" state.arguments) =
      (List.range a.calls.length).map fun i => ((g.tools.get i).map fun state =>
        ChatSseTransformer.toolItem state "completed" state.arguments).getD .null := by
    unfold ChatSseTransformer.toolStates
    rw [hkeys, List.map_filterMap, ← List.filterMap_eq_map]
    refine List.filterMap_congr fun i hi => ?_
    obtain ⟨f, state, -, hstate, -⟩ := hget i _ (List.getElem?_eq_getElem (List.mem_range.mp hi))
    simp [hstate]
  have hwhole : (a.calls.map fun c => callItem (.str c.id) (.str c.id) (.str c.name)
      (.str c.arguments) "completed").map (splitCallName namespaces) =
      (List.range a.calls.length).map fun i => ((a.calls[i]?).map fun c => splitCallName namespaces
        (callItem (.str c.id) (.str c.id) (.str c.name) (.str c.arguments) "completed")).getD .null := by
    rw [List.map_map]
    refine List.ext_getElem (by simp) fun i hi hi' => ?_
    rw [List.length_map] at hi
    simp [List.getElem?_eq_getElem hi]
  rw [hstream, hwhole, List.map_inj_left]
  constructor
  · intro h i c hc f hf
    obtain ⟨f', state, hf', hstate, hiff⟩ := hget i c hc
    cases hf.symm.trans hf'
    refine hiff.mp ?_
    have hi := h i (List.mem_range.mpr (List.getElem?_eq_some_iff.mp hc).1)
    rw [hstate, hc] at hi
    exact hi
  · intro h i hi
    have hc := List.getElem?_eq_getElem (List.mem_range.mp hi)
    obtain ⟨f, state, hf, hstate, hiff⟩ := hget i _ hc
    rw [hstate, hc]
    exact hiff.mpr (h i _ hc f hf)

lemma IsCut.model_run (hcut : IsCut a chunks) (husage : a.usage ≠ none) (requested : String) :
    chunks.foldl (fun m c => c.model.getD m) requested = a.model.getD requested := by
  have hmodel := hcut.model
  have hne : chunks ≠ [] := by
    rintro rfl
    exact husage hcut.usage.symm
  have hlast : ∀ m, chunks.foldl (fun m c => c.model.getD m) m = a.model.getD m := by
    clear hcut
    induction chunks with
    | nil => exact absurd rfl hne
    | cons c chunks ih =>
      intro m
      rw [List.foldl_cons, hmodel c List.mem_cons_self]
      by_cases hrest : chunks = []
      · rw [hrest, List.foldl_nil]
      · rw [ih (fun c hc => hmodel c (List.mem_cons_of_mem _ hc)) hrest]
        cases a.model <;> rfl
  exact hlast requested

lemma stream_response (namespaces : ToolNamespaces) (hcut : IsCut a chunks) (ids : Ids)
    (requested : String) (ended : Bool) :
    ∃ g : Gathered, (∀ i, ToolFits namespaces (parts (fragments chunks) i) (g.tools.get i)) ∧
      ((chunks.map (Message.chunk ·.value) ++ if ended then [Message.done] else []).foldl
        ChatSseTransformer.handleEvent
          ((ChatSseTransformer.new ids requested).withNamespaces namespaces)).emitFinish.response =
        some (ChatSseTransformer.responseBase ("resp_" ++ ids 0)
          (chunks.foldl (fun m c => c.model.getD m) requested) "completed"
          (textItems ids a.text ++ (ChatSseTransformer.toolStates g).map fun state =>
            ChatSseTransformer.toolItem state "completed" state.arguments)
          (a.usage.map fun usage => responsesUsage (.obj usage))) := by
  have hrun := gathers_run (s := (ChatSseTransformer.new ids requested).withNamespaces namespaces)
    (fun f hf => (hcut.index f hf).trans_le a.held) rfl ⟨rfl, rfl, rfl, rfl⟩
  have hevents : ∀ s, (chunks.map (Message.chunk ·.value)).foldl ChatSseTransformer.handleEvent s =
      (chunks.map Chunk.value).foldl ChatSseTransformer.handleChunk s := by
    intro s
    rw [List.foldl_map, List.foldl_map]
    rfl
  rw [List.foldl_append, hevents]
  generalize (chunks.map Chunk.value).foldl ChatSseTransformer.handleChunk _ = s at hrun ⊢
  have hunfinished : s.finished = false := by
    have h := congrArg Gathered.finished hrun.said
    exact h
  have hended : ((if ended then [Message.done] else []).foldl ChatSseTransformer.handleEvent
      s).emitFinish = s.emitFinish := by
    cases ended with
    | false => rfl
    | true => exact ChatSseTransformer.emitFinish_emitFinish hunfinished
  have hid : s.responseId = "resp_" ++ ids 0 := congrArg Gathered.responseId hrun.said
  have hmodel : s.model = chunks.foldl (fun m c => c.model.getD m) requested :=
    congrArg Gathered.model hrun.said
  have husage : s.usage = a.usage.map fun usage => responsesUsage (.obj usage) := by
    rw [← hcut.usage]
    exact congrArg Gathered.usage hrun.said
  have hmessage : ChatSseTransformer.messageItems s.toGathered = textItems ids a.text := by
    have hmessageId : s.messageId = "msg_" ++ ids 1 := congrArg Gathered.messageId hrun.said
    have htext : s.text = a.text := hcut.text ▸ congrArg Gathered.text hrun.said
    have hstarted : s.textStarted = (a.text != "") :=
      hcut.text ▸ congrArg Gathered.textStarted hrun.said
    unfold ChatSseTransformer.messageItems textItems
    rw [hmessageId, htext, hstarted]
    by_cases ht : a.text = "" <;> simp [ht]
  refine ⟨s.toGathered, hrun.tools, ?_⟩
  rw [hended, (ChatSseTransformer.emitFinish_of_unfinished hunfinished).2, ← hid, ← hmodel, ← husage,
    ← hmessage]
  rfl

lemma responseBase_inj {id model model' status : String} {items items' : List Value}
    {usage usage' : Option Value} :
    ChatSseTransformer.responseBase id model status items usage =
        ChatSseTransformer.responseBase id model' status items' usage' ↔
      model = model' ∧ items = items' ∧ usage = usage' := by
  unfold ChatSseTransformer.responseBase
  cases usage <;> cases usage' <;> simp <;> tauto

lemma getStr_type_ne {ids : Ids} {text : String} {states : List ToolState} {item : Value}
    (h : item ∈ textItems ids text ++ states.map fun state =>
      ChatSseTransformer.toolItem state "completed" state.arguments) :
    item.getStr "type" ≠ some "reasoning" := by
  rcases List.mem_append.mp h with h | h
  · unfold textItems at h
    split at h
    · cases h
    · rw [List.mem_singleton.mp h]
      simp [messageItem, Value.getStr, List.lookup_cons]
  · obtain ⟨state, -, rfl⟩ := List.mem_map.mp h
    unfold ChatSseTransformer.toolItem
    cases state.space <;> simp [callItem, Value.getStr, List.lookup_cons, Value.set]

/-- A stream and the whole answer are translated alike just if the stream says at first what only the
whole answer is translated with. -/
theorem stream_eq_whole_iff (hcut : IsCut a chunks) (ids : Ids) (requested : String) (ended : Bool) :
    ((chunks.map (Message.chunk ·.value) ++ if ended then [Message.done] else []).foldl
      ChatSseTransformer.handleEvent
        ((ChatSseTransformer.new ids requested).withNamespaces namespaces)).emitFinish.response =
      some (restoreToolNamespaces namespaces (chatResponseToResponses ids a.payload requested)) ↔
    StreamsWhole namespaces a chunks := by
  obtain ⟨g, htools, hresponse⟩ := stream_response namespaces hcut ids requested ended
  obtain ⟨reasoning, hreasoning, htype, hwhole⟩ :=
    chatResponseToResponses_answer a ids requested
  have htext : (textItems ids a.text).map (splitCallName namespaces) = textItems ids a.text := by
    unfold textItems
    split
    · rfl
    · rw [List.map_singleton, splitCallName_message]
  rw [hresponse, hwhole, restoreToolNamespaces_base, Option.some.injEq, responseBase_inj,
    List.map_append, List.map_append, htext]
  constructor
  · rintro ⟨-, hitems, husage⟩
    have hnone : reasoning = [] := by
      cases reasoning with
      | nil => rfl
      | cons item reasoning =>
        have hitem := htype item List.mem_cons_self
        have hsame : splitCallName namespaces item = item := if_neg (by rw [hitem]; decide)
        have hmem : item ∈ textItems ids a.text ++ (ChatSseTransformer.toolStates g).map fun state =>
            ChatSseTransformer.toolItem state "completed" state.arguments := by
          rw [hitems, List.map_cons, hsame]
          exact List.mem_cons_self
        exact absurd hitem (getStr_type_ne hmem)
    rw [hnone, List.map_nil, List.nil_append, List.append_cancel_left_eq] at hitems
    refine ⟨hreasoning.mpr hnone, ?_, (toolItems_eq_iff hcut htools).mp hitems⟩
    cases ha : a.usage with
    | none => simp [ha] at husage
    | some usage => rfl
  · intro h
    obtain ⟨usage, husage⟩ := Option.isSome_iff_exists.mp h.usage
    refine ⟨hcut.model_run (by simp [husage]) requested, ?_, by simp [husage]⟩
    rw [hreasoning.mp h.reasoning, List.map_nil, List.nil_append,
      (toolItems_eq_iff hcut htools).mpr h.first]

end Agree

/-- An answer with one call, and a stream of it: text, the call, its arguments, the usage. -/
def searchAnswer : Answer where
  model := some "m"
  text := "hi"
  reasoning := ""
  calls := [⟨"c1", "search", "\x7b\x7d"⟩]
  finishReason := some "tool_calls"
  usage := some [("prompt_tokens", .int 3)]
  held := by decide

def searchChunks : List Chunk :=
  [⟨some "m", some ⟨none, some "h", []⟩, none, none⟩,
    ⟨some "m", some ⟨none, some "i", [⟨0, some "c1", some "search", some "\x7b"⟩]⟩, none, none⟩,
    ⟨some "m", some ⟨none, none, [⟨0, none, none, some "\x7d"⟩]⟩, some "tool_calls", none⟩,
    ⟨some "m", none, none, some [("prompt_tokens", .int 3)]⟩]

theorem searchChunks_eq_whole :
    ((searchChunks.map (Message.chunk ·.value) ++ [Message.done]).foldl ChatSseTransformer.handleEvent
      ((ChatSseTransformer.new (fun _ => "0") "m").withNamespaces fun _ => none)).emitFinish.response =
      some (restoreToolNamespaces (fun _ => none)
        (chatResponseToResponses (fun _ => "0") searchAnswer.payload "m")) := by
  refine (stream_eq_whole_iff ⟨by decide, by decide, by decide, by decide, ?_, ?_, ?_, by decide,
    rfl⟩ (fun _ => "0") "m" true).mpr ⟨rfl, rfl, ?_⟩
  all_goals
    rintro (_ | i) c hc
    rotate_left
    · cases hc
  · cases hc
    decide
  · cases hc
    decide
  · cases hc
    decide
  · cases hc
    rintro f ⟨⟩
    exact ⟨rfl, rfl⟩

/-- An answer with reasoning and a call whose name comes in two parts. -/
def thoughtAnswer : Answer where
  model := none
  text := ""
  reasoning := "so"
  calls := [⟨"c1", "search", ""⟩]
  finishReason := none
  usage := some []
  held := by decide

def thoughtChunks : List Chunk :=
  [⟨none, some ⟨some "so", none, [⟨0, some "c1", some "sea", none⟩]⟩, none, none⟩,
    ⟨none, some ⟨none, none, [⟨0, none, some "rch", none⟩]⟩, none, some []⟩]

def outline (response : Value) : List (Option String × Option String) :=
  (response.items "output").map fun item => (item.getStr "type", item.getStr "name")

/-- The stream's response has no reasoning, and the first part of the name. -/
theorem stream_loses : IsCut thoughtAnswer thoughtChunks ∧
    ((thoughtChunks.map (Message.chunk ·.value)).foldl ChatSseTransformer.handleEvent
      (ChatSseTransformer.new (fun _ => "0") "m")).emitFinish.response.map outline =
      some [(some "function_call", some "sea")] ∧
    outline (chatResponseToResponses (fun _ => "0") thoughtAnswer.payload "m") =
      [(some "reasoning", none), (some "function_call", some "search")] := by
  refine ⟨⟨by decide, by decide, by decide, by decide, ?_, ?_, ?_, by decide, rfl⟩, by decide,
    by decide⟩
  all_goals
    rintro (_ | i) c hc
    · cases hc
      decide
    · cases hc

end Aeroric.LocalRouter
