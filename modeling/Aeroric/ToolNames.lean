import Aeroric.ChatStream

/-! The tools a request offers, under the names that Chat Completions know, and back. -/
namespace Aeroric.LocalRouter
open Json

def flatToolName (space name : String) : String :=
  if "__".toList.isSuffixOf space.toList then space ++ name else space ++ "__" ++ name

def spacedIn (tool : Value) : List (String × String × String) :=
  if tool.getStr "type" = some "namespace" then
    match tool.getStr "name" with
    | some space => (tool.items "tools").filterMap fun inner =>
        (inner.getStr "name").map fun name => (flatToolName space name, space, name)
    | none => []
  else []

/-- The flat names of the tools in namespaces, in the order in which they go into the map. -/
def spacedTools (body : Value) : List (String × String × String) := (body.items "tools").flatMap spacedIn

/-- The last one of a name wins. -/
def toolNamespaces (body : Value) : ToolNamespaces := fun flat => (spacedTools body).reverse.lookup flat

def flattenTool (tool : Value) : List Value :=
  if tool.getStr "type" = some "namespace" then
    (tool.items "tools").map fun inner =>
      match inner.getStr "name" with
      | some name => inner.set "name" (.str (flatToolName ((tool.getStr "name").getD "") name))
      | none => inner
  else [tool]

def chatTool (name : String) (fields : List (String × Value)) : Value :=
  .obj [("type", .str "function"), ("function", .obj (("name", .str name) :: fields))]

def objectSchema (fields : List (String × Value)) : Value := .obj (("type", .str "object") :: fields)

/-- A name alone is a custom tool. -/
def spelledOut : Value → Value
  | .str name => .obj [("type", .str "custom"), ("name", .str name)]
  | tool => tool

def convertTool (tool : Value) : Option Value :=
  let tool := spelledOut tool
  match tool.getStr "type" with
  | some "function" => (tool.getStr "name").map fun name => chatTool name [
      ("description", (tool.get "description").getD (.str "")),
      ("parameters", (tool.get "parameters").getD (objectSchema [("properties", .obj [])])),
      ("strict", tool.member "strict")]
  | some "custom" => (tool.getStr "name").map fun name => chatTool name [
      ("description", (tool.get "description").getD (.str "")),
      ("parameters", objectSchema [("properties", .obj [("input", .obj [("type", .str "string"),
        ("description", (tool.get "description").getD (.str ("Raw string input for the original custom tool. " ++
          "Preserve formatting exactly.")))])]), ("required", .arr [.str "input"])])]
  | some "tool_search" => some (chatTool "tool_search" [
      ("description", .str "Search and load Codex tools, plugins, connectors, and MCP namespaces."),
      ("parameters", objectSchema [("properties", .obj [("query", .obj [("type", .str "string")]),
        ("limit", .obj [("type", .str "integer")])]), ("required", .arr [.str "query"])])])
  | _ => none

def chatName (tool : Value) : Option String := (tool.member "function").getStr "name"

def unseen : List String → List Value → List Value
  | _, [] => []
  | seen, tool :: tools =>
    match chatName tool with
    | none => unseen seen tools
    | some name => if name ∈ seen then unseen seen tools else tool :: unseen (name :: seen) tools

def responseToolsToChat (body : Value) : List Value :=
  unseen [] (((body.items "tools").flatMap flattenTool).filterMap convertTool)

def chatToolChoice (choice : Value) : Value :=
  if choice.getStr "type" = some "function" then
    chatTool ((choice.getStr "name" <|> (choice.member "function").getStr "name").getD "") []
  else choice

/-! What a request offers. -/

structure Tool where
  value : Value
  name : String
  type : value.getStr "type" = some "function" ∨ value.getStr "type" = some "custom"
  named : value.getStr "name" = some name

inductive Offer
  | bare (name : String)
  | plain (tool : Tool)
  | spaced (value : Value) (space : String) (tools : List Tool)
      (type : value.getStr "type" = some "namespace") (named : value.getStr "name" = some space)
      (items : value.items "tools" = tools.map Tool.value)

namespace Offer

def value : Offer → Value
  | bare name => .str name
  | plain tool => tool.value
  | spaced value _ _ _ _ _ => value

def identities : Offer → List (Option String × String)
  | bare name => [(none, name)]
  | plain tool => [(none, tool.name)]
  | spaced _ space tools _ _ _ => tools.map fun tool => (some space, tool.name)

end Offer

def flatName : Option String × String → String
  | (none, name) => name
  | (some space, name) => flatToolName space name

/-- The names by which calls name their tools. -/
def seenName (identity : Option String × String) : Option String × Option String :=
  (identity.1, some identity.2)

def calledBy (items : List Value) : List (Option String × Option String) :=
  (items.filter (·.getStr "type" = some "function_call")).map fun item =>
    (item.getStr "namespace", item.getStr "name")

def calledIn (response : Value) : List (Option String × Option String) := calledBy (response.items "output")

lemma Tool.type_ne (tool : Tool) : tool.value.getStr "type" ≠ some "namespace" := by
  rcases tool.type with h | h <;> rw [h] <;> decide

def spacedEntry (identity : Option String × String) : Option (String × String × String) :=
  identity.1.map fun space => (flatName identity, space, identity.2)

lemma Offer.spacedIn_eq (offer : Offer) : spacedIn offer.value = offer.identities.filterMap spacedEntry := by
  cases offer with
  | bare name => rfl
  | plain tool => exact if_neg tool.type_ne
  | spaced value space tools type named items =>
    change spacedIn value = (tools.map fun tool => (some space, tool.name)).filterMap spacedEntry
    unfold spacedIn
    rw [if_pos type, named, items]
    dsimp only
    rw [List.filterMap_map, List.filterMap_map]
    refine List.filterMap_congr fun tool _ => ?_
    dsimp only [Function.comp_apply]
    rw [tool.named]
    rfl

lemma convertTool_spec {tool : Value} {name : String}
    (htype : tool.getStr "type" = some "function" ∨ tool.getStr "type" = some "custom")
    (hname : tool.getStr "name" = some name) : ∃ v, convertTool tool = some v ∧ chatName v = some name := by
  have hsame : spelledOut tool = tool := by
    cases tool with
    | str text => cases hname
    | null | bool | int | float | arr | obj => rfl
  unfold convertTool
  rw [hsame]
  dsimp only
  rcases htype with h | h <;> rw [h, hname] <;> exact ⟨_, rfl, rfl⟩

lemma Offer.converted (offer : Offer) : ((flattenTool offer.value).filterMap convertTool).map chatName =
    offer.identities.map fun identity => some (flatName identity) := by
  cases offer with
  | bare name => rfl
  | plain tool =>
    obtain ⟨v, hv, hname⟩ := convertTool_spec tool.type tool.named
    change ((flattenTool tool.value).filterMap convertTool).map chatName = [some tool.name]
    unfold flattenTool
    rw [if_neg tool.type_ne, List.filterMap_cons_some hv]
    simp [hname]
  | spaced value space tools type named items =>
    change ((flattenTool value).filterMap convertTool).map chatName =
      (tools.map fun tool => (some space, tool.name)).map fun identity => some (flatName identity)
    unfold flattenTool
    rw [if_pos type, items]
    clear items
    induction tools with
    | nil => rfl
    | cons tool tools ih =>
      have hobject : tool.value.isObject = true := by
        obtain ⟨v, hv, -⟩ := Option.bind_eq_some_iff.mp tool.named
        exact Value.isObject_of_get hv
      obtain ⟨v, hv, hname⟩ : ∃ v, convertTool (tool.value.set "name"
          (.str (flatToolName ((value.getStr "name").getD "") tool.name))) = some v ∧
          chatName v = some (flatToolName ((value.getStr "name").getD "") tool.name) := by
        refine convertTool_spec ?_ ?_
        · rw [Value.getStr, Value.get_set_of_ne (by decide)]
          exact tool.type
        · rw [Value.getStr, Value.get_set_self hobject]
          rfl
      rw [List.map_cons, List.map_cons, tool.named, List.filterMap_cons_some hv, List.map_cons, hname, ih,
        named]
      rfl

lemma unseen_subset (seen : List String) (tools : List Value) : unseen seen tools ⊆ tools := by
  induction tools generalizing seen with
  | nil => exact List.Subset.refl _
  | cons tool tools ih =>
    rw [unseen]
    split
    · exact fun x hx => List.mem_cons_of_mem _ (ih seen hx)
    · split
      · exact fun x hx => List.mem_cons_of_mem _ (ih seen hx)
      · exact List.cons_subset_cons _ (ih _)

lemma unseen_of_nodup {seen : List String} {tools : List Value} {names : List String}
    (hnames : tools.map chatName = names.map some) (hnodup : names.Nodup)
    (hseen : ∀ name ∈ names, name ∉ seen) : unseen seen tools = tools := by
  induction tools generalizing seen names with
  | nil => rfl
  | cons tool tools ih =>
    cases names with
    | nil => cases hnames
    | cons name names =>
      obtain ⟨hname, hnames⟩ := List.cons.inj hnames
      obtain ⟨hnew, hnodup⟩ := List.nodup_cons.mp hnodup
      rw [unseen, hname]
      dsimp only
      rw [if_neg (hseen name List.mem_cons_self), ih hnames hnodup]
      intro other hother hmem
      rcases List.mem_cons.mp hmem with rfl | hmem
      · exact hnew hother
      · exact hseen other (List.mem_cons_of_mem _ hother) hmem

section Names
variable {offers : List Offer} {body : Value}

lemma convertedTools_names (hbody : body.items "tools" = offers.map Offer.value) :
    (((body.items "tools").flatMap flattenTool).filterMap convertTool).map chatName =
      ((offers.flatMap Offer.identities).map flatName).map some := by
  rw [hbody, List.flatMap_map, List.filterMap_flatMap, List.map_flatMap, List.map_map, List.map_flatMap]
  exact List.flatMap_congr fun offer _ => offer.converted

lemma mem_of_offered (hbody : body.items "tools" = offers.map Offer.value) {name : String}
    (h : some name ∈ (responseToolsToChat body).map chatName) :
    ∃ identity ∈ offers.flatMap Offer.identities, flatName identity = name := by
  obtain ⟨tool, htool, hname⟩ := List.mem_map.mp h
  have hmem : chatName tool ∈ _ := List.mem_map_of_mem (unseen_subset _ _ htool)
  rw [convertedTools_names hbody, hname] at hmem
  obtain ⟨flat, hflat, heq⟩ := List.mem_map.mp hmem
  cases heq
  exact List.mem_map.mp hflat

lemma responseToolsToChat_names (hbody : body.items "tools" = offers.map Offer.value)
    (hflat : ((offers.flatMap Offer.identities).map flatName).Nodup) :
    (responseToolsToChat body).map chatName =
      (offers.flatMap Offer.identities).map fun identity => some (flatName identity) := by
  have hnames := convertedTools_names hbody
  unfold responseToolsToChat
  rw [unseen_of_nodup hnames hflat (by simp), hnames, List.map_map]
  rfl

lemma lookup_eq_some {α : Type} {entries : List (String × α)} {key : String} {value : α}
    (h : (key, value) ∈ entries) (honly : ∀ e ∈ entries, e.1 = key → e.2 = value) :
    entries.lookup key = some value := by
  induction entries with
  | nil => cases h
  | cons e entries ih =>
    by_cases he : key = e.1
    · rw [List.lookup_cons, beq_iff_eq.mpr he, honly e List.mem_cons_self he.symm]
    · rw [List.lookup_cons, beq_false_of_ne he]
      refine ih ?_ fun e he => honly e (List.mem_cons_of_mem _ he)
      rcases List.mem_cons.mp h with rfl | h
      · exact absurd rfl he
      · exact h

lemma splitName_flatName (hbody : body.items "tools" = offers.map Offer.value)
    (hflat : ((offers.flatMap Offer.identities).map flatName).Nodup) {identity : Option String × String}
    (h : identity ∈ offers.flatMap Offer.identities) :
    splitName (toolNamespaces body) (flatName identity) = (identity.2, identity.1) := by
  have hspaced : spacedTools body = (offers.flatMap Offer.identities).filterMap spacedEntry := by
    unfold spacedTools
    rw [hbody, List.flatMap_map, List.filterMap_flatMap]
    exact List.flatMap_congr fun offer _ => offer.spacedIn_eq
  have hentries : ∀ e ∈ (spacedTools body).reverse, e.1 = flatName identity →
      spacedEntry identity = some e := by
    intro e he heq
    rw [List.mem_reverse, hspaced] at he
    obtain ⟨i, hi, hentry⟩ := List.mem_filterMap.mp he
    obtain ⟨space, -, rfl⟩ := Option.map_eq_some_iff.mp hentry
    obtain rfl := List.inj_on_of_nodup_map hflat hi h heq
    exact hentry
  unfold splitName toolNamespaces
  obtain ⟨space, name⟩ := identity
  cases space with
  | none =>
    have hnone : (spacedTools body).reverse.lookup (flatName (none, name)) = none := by
      rw [List.lookup_eq_none_iff]
      intro e he
      rw [bne_iff_ne]
      intro heq
      cases hentries e he heq.symm
    rw [hnone]
    rfl
  | some space =>
    have hmem : (flatName (some space, name), space, name) ∈ (spacedTools body).reverse := by
      rw [List.mem_reverse, hspaced]
      exact List.mem_filterMap.mpr ⟨_, h, rfl⟩
    rw [lookup_eq_some hmem fun e he heq => by cases hentries e he heq; rfl]

end Names

/-! The calls of an answer. -/

def answerCalls (payload : Value) : List Value :=
  (((payload.items "choices").head?.bind (Value.get "message")).getD (.obj [])).items "tool_calls"

section Calls
variable {namespaces : ToolNamespaces}

lemma calledBy_append (l m : List Value) : calledBy (l ++ m) = calledBy l ++ calledBy m := by
  simp [calledBy]

def callee (namespaces : ToolNamespaces) (flat : String) : Option String × Option String :=
  ((splitName namespaces flat).2, some (splitName namespaces flat).1)

lemma calledBy_call (id callId arguments : Value) (status flat : String) (items : List Value) :
    calledBy (splitCallName namespaces (callItem id callId (.str flat) arguments status) :: items) =
      callee namespaces flat :: calledBy items := by
  unfold splitCallName callee splitName
  cases h : namespaces flat <;>
    simp [callItem, Value.getStr, List.lookup_cons, h, Value.set, calledBy]

lemma calledBy_callItems {calls : List Value} {names : List String} (ids : Ids) (drawn : ℕ)
    (h : calls.map (fun call => (call.member "function").getStr "name") = names.map some) :
    calledBy ((callItems ids drawn calls).map (splitCallName namespaces)) = names.map (callee namespaces) := by
  induction calls generalizing drawn names with
  | nil =>
    cases names with
    | nil => rfl
    | cons name names => cases h
  | cons call calls ih =>
    cases names with
    | nil => cases h
    | cons name names =>
      obtain ⟨hname, h⟩ := List.cons.inj h
      have hname : (call.member "function").get "name" = some (.str name) := by
        obtain ⟨v, hv, hstr⟩ := Option.bind_eq_some_iff.mp hname
        cases v <;> cases hstr
        exact hv
      unfold callItems
      dsimp only
      rw [hname, Option.getD_some]
      cases call.get "id" <;> rw [List.map_cons, calledBy_call, ih _ h, List.map_cons]

lemma calledBy_others {items : List Value} (h : ∀ item ∈ items, item.getStr "type" ≠ some "function_call") :
    calledBy (items.map (splitCallName namespaces)) = [] := by
  have hsame : items.map (splitCallName namespaces) = items := by
    conv_rhs => rw [← List.map_id items]
    exact List.map_congr_left fun item hitem => if_neg (h item hitem)
  rw [hsame, calledBy, List.filter_eq_nil_iff.mpr fun item hitem => by simpa using h item hitem]
  rfl

lemma chatResponseToResponses_output (ids : Ids) (payload : Value) (requested : String) :
    ∃ before drawn, ((chatResponseToResponses ids payload requested).get "output").bind Value.asArray =
        some (before ++ callItems ids drawn (answerCalls payload)) ∧
      ∀ item ∈ before, item.getStr "type" ≠ some "function_call" := by
  refine ⟨_, _, rfl, ?_⟩
  intro item hitem
  rcases List.mem_append.mp hitem with hitem | hitem
  · obtain ⟨reasoning, -, rfl⟩ := List.mem_map.mp hitem
    simp [Value.getStr, List.lookup_cons]
  · split at hitem
    · cases hitem
    · cases List.mem_singleton.mp hitem
      simp [messageItem, Value.getStr, List.lookup_cons]

lemma calledIn_whole (ids : Ids) (payload : Value) (requested : String) {names : List String}
    (h : (answerCalls payload).map (fun call => (call.member "function").getStr "name") = names.map some) :
    calledIn (restoreToolNamespaces namespaces (chatResponseToResponses ids payload requested)) =
      names.map (callee namespaces) := by
  obtain ⟨before, drawn, houtput, hbefore⟩ := chatResponseToResponses_output ids payload requested
  obtain ⟨output, hget, -⟩ := Option.bind_eq_some_iff.mp houtput
  unfold restoreToolNamespaces
  rw [houtput]
  dsimp only
  rw [calledIn, Value.items, Value.get_set_self (Value.isObject_of_get hget), Option.bind_some,
    Value.asArray_arr, Option.getD_some, List.map_append, calledBy_append, calledBy_others hbefore,
    calledBy_callItems ids drawn h]
  rfl

lemma calledBy_toolItems (states : List ToolState) :
    calledBy (states.map fun state => ChatSseTransformer.toolItem state "completed" state.arguments) =
      states.map fun state => (state.space, some state.name) := by
  induction states with
  | nil => rfl
  | cons state states ih =>
    rw [List.map_cons, List.map_cons, ← ih]
    unfold ChatSseTransformer.toolItem
    cases state.space <;> simp [callItem, Value.getStr, List.lookup_cons, Value.set, calledBy]

lemma calledIn_completed (g : Gathered) : calledIn (ChatSseTransformer.completed g) =
    (ChatSseTransformer.toolStates g).map fun state => (state.space, some state.name) := by
  have hmessage : calledBy (ChatSseTransformer.messageItems g) = [] := by
    unfold ChatSseTransformer.messageItems
    split <;> simp [calledBy, messageItem, Value.getStr, List.lookup_cons]
  rw [← calledBy_toolItems, ← List.nil_append (calledBy _), ← hmessage, ← calledBy_append]
  rfl

/-- The tools of a stream's calls are those that the first parts of the calls name. -/
lemma calledIn_stream {chunks : List Chunk} {called : ℕ → Option String × Option String}
    (hindex : ∀ f ∈ fragments chunks, f.index < u64)
    (hcalled : ∀ i f, (parts (fragments chunks) i).head? = some f →
      callee namespaces (f.name.getD "tool") = called i) (ids : Ids) (model : String) :
    ∃ indexes : List ℕ, indexes.Pairwise (· < ·) ∧ (∀ i, i ∈ indexes ↔ parts (fragments chunks) i ≠ []) ∧
      (((chunks.map Chunk.value).foldl ChatSseTransformer.handleChunk
        ((ChatSseTransformer.new ids model).withNamespaces namespaces)).emitFinish.response.map calledIn) =
        some (indexes.map called) := by
  have hrun := gathers_run (s := (ChatSseTransformer.new ids model).withNamespaces namespaces) hindex rfl
    ⟨rfl, rfl, rfl, rfl⟩
  generalize (chunks.map Chunk.value).foldl ChatSseTransformer.handleChunk
    ((ChatSseTransformer.new ids model).withNamespaces namespaces) = s at hrun
  have hgoing : s.finished = false := by
    have h := congrArg Gathered.finished hrun.said
    exact h
  have htools : ∀ i, ToolFits namespaces (parts (fragments chunks) i) (s.tools.get i) := hrun.tools
  refine ⟨s.tools.keys, s.tools.keys_sorted, fun i => ?_, ?_⟩
  · rw [Table.mem_keys]
    cases hparts : parts (fragments chunks) i with
    | nil => simp [(htools i).1 hparts]
    | cons f fs =>
      obtain ⟨state, hstate, -⟩ := (htools i).2 f (by rw [hparts]; rfl)
      simp [hstate]
  · rw [(ChatSseTransformer.emitFinish_of_unfinished hgoing).2, Option.map_some, calledIn_completed,
      ChatSseTransformer.toolStates, List.map_filterMap, ← List.filterMap_eq_map]
    refine congrArg some (List.filterMap_congr fun i hi => ?_)
    cases hparts : parts (fragments chunks) i with
    | nil =>
      rw [Table.mem_keys, (htools i).1 hparts] at hi
      cases hi
    | cons f fs =>
      have hhead : (parts (fragments chunks) i).head? = some f := by rw [hparts]; rfl
      obtain ⟨state, hstate, hopened, -⟩ := (htools i).2 f hhead
      have hname := hopened.name
      rw [hstate, Function.comp_apply, ← hcalled i f hhead, callee, ← hname]
      rfl

end Calls

/-- The tool that a choice names, in a request and in a translated one. -/
def Chooses (choice : Value) (identity : Option String × String) : Prop :=
  choice.getStr "type" = some "function" ∧
      (choice.getStr "name" <|> (choice.member "function").getStr "name") = some identity.2 ∨
    choice.getStr "type" = some "custom" ∧ choice.getStr "name" = some identity.2

def chosenName (choice : Value) : Option String :=
  if choice.getStr "type" = some "function" then chatName choice else none

/-- Every tool is offered under a name of its own, and can be called back and chosen by it. -/
structure CalledBack (offers : List Offer) (body choice : Value)
    (name : Option String × String → String) : Prop where
  offered : ∀ identity ∈ offers.flatMap Offer.identities,
    some (name identity) ∈ (responseToolsToChat body).map chatName
  apart : ∀ i ∈ offers.flatMap Offer.identities, ∀ j ∈ offers.flatMap Offer.identities,
    name i = name j → i = j
  whole : ∀ (ids : Ids) (payload : Value) (requested : String) (called : List (Option String × String)),
    (∀ identity ∈ called, identity ∈ offers.flatMap Offer.identities) →
    (answerCalls payload).map (fun call => (call.member "function").getStr "name") =
      (called.map name).map some →
    calledIn (restoreToolNamespaces (toolNamespaces body) (chatResponseToResponses ids payload requested)) =
      called.map seenName
  stream : ∀ (ids : Ids) (model : String) (chunks : List Chunk) (called : ℕ → Option String × String),
    (∀ f ∈ fragments chunks, f.index < u64) →
    (∀ i f, (parts (fragments chunks) i).head? = some f →
      called i ∈ offers.flatMap Offer.identities ∧ f.name = some (name (called i))) →
    ∃ indexes : List ℕ, indexes.Pairwise (· < ·) ∧
      (∀ i, i ∈ indexes ↔ parts (fragments chunks) i ≠ []) ∧
      (((chunks.map Chunk.value).foldl ChatSseTransformer.handleChunk
        ((ChatSseTransformer.new ids model).withNamespaces (toolNamespaces body))).emitFinish.response.map
          calledIn) = some (indexes.map fun i => seenName (called i))
  chosen : ∀ identity ∈ offers.flatMap Offer.identities, Chooses choice identity →
    chosenName (chatToolChoice choice) = some (name identity)

def answerCalling (name : String) : Value :=
  .obj [("choices", .arr [.obj [("message", .obj [("tool_calls", .arr [.obj [("id", .str "c1"),
    ("function", .obj [("name", .str name)])]])])]])]

section Back
variable {offers : List Offer} {body choice : Value} {name : Option String × String → String}

lemma callee_flatName (hbody : body.items "tools" = offers.map Offer.value)
    (hflat : ((offers.flatMap Offer.identities).map flatName).Nodup) {identity : Option String × String}
    (h : identity ∈ offers.flatMap Offer.identities) :
    callee (toolNamespaces body) (flatName identity) = seenName identity := by
  rw [callee, splitName_flatName hbody hflat h]
  rfl

lemma CalledBack.nodup (h : CalledBack offers body choice name)
    (hbody : body.items "tools" = offers.map Offer.value)
    (hidentities : (offers.flatMap Offer.identities).Nodup) :
    ((offers.flatMap Offer.identities).map flatName).Nodup := by
  have hnames : ((offers.flatMap Offer.identities).map name).Nodup :=
    hidentities.map_on h.apart
  have hsubset : (offers.flatMap Offer.identities).map name ⊆
      (offers.flatMap Offer.identities).map flatName := by
    intro flat hflat
    obtain ⟨identity, hmem, rfl⟩ := List.mem_map.mp hflat
    exact List.mem_map.mpr (mem_of_offered hbody (h.offered identity hmem))
  have hperm := (List.subperm_of_subset hnames hsubset).perm_of_length_le (by simp)
  exact hperm.nodup_iff.mp hnames

lemma CalledBack.name_eq (h : CalledBack offers body choice name)
    (hbody : body.items "tools" = offers.map Offer.value)
    (hflat : ((offers.flatMap Offer.identities).map flatName).Nodup) {identity : Option String × String}
    (hmem : identity ∈ offers.flatMap Offer.identities) : name identity = flatName identity := by
  obtain ⟨other, hother, hname⟩ := mem_of_offered hbody (h.offered identity hmem)
  have hback := h.whole (fun _ => "") (answerCalling (name identity)) "" [identity] (by simpa using hmem)
    rfl
  have hcalled : _ = [name identity].map (callee (toolNamespaces body)) :=
    calledIn_whole (fun _ => "") (answerCalling (name identity)) "" rfl
  rw [hcalled, ← hname] at hback
  have hsame := List.singleton_inj.mp hback
  rw [callee_flatName hbody hflat hother] at hsame
  obtain ⟨hspace, hinner⟩ := Prod.mk.inj hsame
  rw [← hname, Prod.ext hspace (Option.some.inj hinner)]

lemma flatToolName_ne (space name : String) : flatToolName space name ≠ name := by
  intro h
  have hlength := congrArg String.length h
  unfold flatToolName at hlength
  split at hlength
  · next hsuffix =>
    have hle : 2 ≤ space.toList.length := (List.isSuffixOf_iff_suffix.mp hsuffix).length_le
    rw [String.length_append, ← String.length_toList] at hlength
    omega
  · have htwo : "__".length = 2 := rfl
    rw [String.length_append, String.length_append, htwo] at hlength
    omega

lemma chosenName_chatToolChoice {identity : Option String × String} (h : Chooses choice identity) :
    chosenName (chatToolChoice choice) =
      if choice.getStr "type" = some "function" then some identity.2 else none := by
  rcases h with ⟨htype, hname⟩ | ⟨htype, -⟩
  · rw [chatToolChoice, if_pos htype, if_pos htype, hname]
    rfl
  · have hne : choice.getStr "type" ≠ some "function" := by rw [htype]; decide
    rw [chatToolChoice, if_neg hne, if_neg hne, chosenName, if_neg hne]

end Back

/-- The tools of a request can be called back just if their flat names differ, and its choice names
the same tool after translation just if that is a function without a namespace. -/
theorem calledBack_iff {offers : List Offer} {body : Value}
    (hbody : body.items "tools" = offers.map Offer.value)
    (hidentities : (offers.flatMap Offer.identities).Nodup) (choice : Value) :
    (∃ name, CalledBack offers body choice name) ↔
      ((offers.flatMap Offer.identities).map flatName).Nodup ∧
        ∀ identity ∈ offers.flatMap Offer.identities, Chooses choice identity →
          choice.getStr "type" = some "function" ∧ identity.1 = none := by
  constructor
  · rintro ⟨name, h⟩
    have hflat := h.nodup hbody hidentities
    refine ⟨hflat, fun identity hmem hchooses => ?_⟩
    have hchosen := h.chosen identity hmem hchooses
    rw [chosenName_chatToolChoice hchooses, h.name_eq hbody hflat hmem] at hchosen
    split at hchosen
    · next htype =>
      refine ⟨htype, ?_⟩
      obtain ⟨space, inner⟩ := identity
      cases space with
      | none => rfl
      | some space => exact absurd (Option.some.inj hchosen).symm (flatToolName_ne space inner)
    · cases hchosen
  · rintro ⟨hflat, hchoice⟩
    refine ⟨flatName, ?_, fun i hi j hj => List.inj_on_of_nodup_map hflat hi hj, ?_, ?_, ?_⟩
    · intro identity hmem
      rw [responseToolsToChat_names hbody hflat]
      exact List.mem_map.mpr ⟨identity, hmem, rfl⟩
    · intro ids payload requested called hcalled hnames
      rw [calledIn_whole ids payload requested hnames, List.map_map]
      exact List.map_congr_left fun identity h => callee_flatName hbody hflat (hcalled identity h)
    · intro ids model chunks called hindex hcalled
      refine calledIn_stream hindex (fun i f hf => ?_) ids model
      obtain ⟨hmem, hname⟩ := hcalled i f hf
      rw [hname]
      exact callee_flatName hbody hflat hmem
    · intro identity hmem hchooses
      obtain ⟨htype, hspace⟩ := hchoice identity hmem hchooses
      rw [chosenName_chatToolChoice hchooses, if_pos htype]
      obtain ⟨space, inner⟩ := identity
      cases hspace
      rfl

def functionTool (name : String) : Tool where
  value := .obj [("type", .str "function"), ("name", .str name)]
  name := name
  type := .inl rfl
  named := rfl

def spaceOffer (space : String) (tool : Tool) : Offer :=
  .spaced (.obj [("type", .str "namespace"), ("name", .str space), ("tools", .arr [tool.value])]) space [tool]
    rfl rfl rfl

def requestOf (offers : List Offer) : Value := .obj [("tools", .arr (offers.map Offer.value))]

def mcpOffers : List Offer := [.plain (functionTool "run"), spaceOffer "mcp" (functionTool "find")]

def choiceOf (name : String) : Value := .obj [("type", .str "function"), ("name", .str name)]

theorem mcpOffers_calledBack :
    ∃ name, CalledBack mcpOffers (requestOf mcpOffers) (choiceOf "run") name := by
  refine (@calledBack_iff mcpOffers (requestOf mcpOffers) rfl (by decide) (choiceOf "run")).mpr
    ⟨by decide, fun identity hmem hchooses => ⟨rfl, ?_⟩⟩
  have hname : identity.2 = "run" := by
    rcases hchooses with ⟨-, hname⟩ | ⟨htype, -⟩
    · exact (Option.some.inj hname).symm
    · exact absurd htype (by decide)
  have hall : ∀ identity ∈ mcpOffers.flatMap Offer.identities, identity.2 = "run" → identity.1 = none := by
    decide
  exact hall identity hmem hname

def collidingOffers : List Offer := [.plain (functionTool "a__b"), spaceOffer "a" (functionTool "b")]

/-- One of two tools is dropped, and the choice of a tool in a namespace does not name it. -/
theorem colliding_dropped : (collidingOffers.flatMap Offer.identities).Nodup ∧
    (responseToolsToChat (requestOf collidingOffers)).map chatName = [some "a__b"] ∧
    chosenName (chatToolChoice (choiceOf "find")) = some "find" ∧
    flatName (some "mcp", "find") = "mcp__find" := by
  refine ⟨by decide, by decide, by decide, by decide⟩

end Aeroric.LocalRouter
