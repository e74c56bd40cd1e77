import Aeroric.Routing
import Aeroric.Sse

/-! Connections, pools and configurations: the channels that can serve a model, and the menu of
models. -/
namespace Aeroric.Routing

inductive WireProtocol
  | responses
  | messages
  | chatCompletions
  deriving DecidableEq

inductive Harness
  | claude
  | codex
  | omp
  | dsh
  deriving DecidableEq

namespace Harness

def nativeProtocol : Harness → WireProtocol
  | .claude => .messages
  | .codex => .responses
  | .omp | .dsh => .chatCompletions

def gatewaySupported : Harness → Bool
  | .claude | .codex | .omp | .dsh => true

def slug : Harness → String
  | .claude => "claude"
  | .codex => "codex"
  | .omp => "omp"
  | .dsh => "dsh"

def fromSlug (slug : String) : Option Harness :=
  [claude, codex, omp, dsh].find? fun harness => harness.slug = slug

end Harness

inductive ConnectionKind
  | apiKey
  | officialOAuth
  | linkedLocalLogin
  deriving DecidableEq

def trimmed (text : String) : String := String.ofList (Sse.trim text.toList)

structure ModelEntry where
  upstreamId : String
  mappedName : String
  protocols : List WireProtocol
  enabled : Bool

def ModelEntry.routingName (entry : ModelEntry) : String :=
  if trimmed entry.mappedName = "" then trimmed entry.upstreamId else trimmed entry.mappedName

structure Connection where
  id : String
  kind : ConnectionKind
  protocols : List WireProtocol
  models : List ModelEntry
  enabled : Bool
  restOnLimit : Bool

def Connection.routableModels (connection : Connection) : List ModelEntry :=
  connection.models.filter (·.enabled)

def Connection.lists (connection : Connection) (name : String) : Bool :=
  connection.routableModels.any (·.routingName = name)

/-- What follows a start of a text. -/
def behind (start text : String) : Option String :=
  (start.toList.isPrefixOf? text.toList).map String.ofList

def Connection.loginHarness (connection : Connection) : Option Harness :=
  if connection.kind ≠ .linkedLocalLogin then none
  else (behind "login-" connection.id).bind fun slug =>
    (Harness.fromSlug slug).filter fun harness => harness = .codex || harness = .claude

structure PoolMember where
  connectionId : String
  priority : ℤ
  weight : ℕ
  free : Bool

structure Pool where
  id : String
  strategy : PoolStrategy
  members : List PoolMember
  stickySessions : Bool
  stickyTtlSeconds : ℕ

inductive ConfigTarget
  | connection (connectionId : String)
  | pool (poolId : String)
  | route (poolId : Option String)

structure AgentConfig where
  id : String
  harness : Harness
  target : ConfigTarget
  defaultModel : String
  fallbackModels : List String

structure LoginGatewayState where
  enabled : Bool
  acceptedAt : Option String
  models : List ModelEntry

structure ConnectionsDocument where
  connections : List Connection
  pools : List Pool
  configs : List AgentConfig
  loginCodex : LoginGatewayState
  loginClaude : LoginGatewayState

inductive Reach
  | direct
  | viaGateway (source goal : WireProtocol)

inductive Unavailable
  | connectionMissing (connectionId : String)
  | connectionDisabled
  | poolMissing (poolId : String)
  | noProtocol
  | gatewayNotYetForHarness (harness : Harness)
  | modelNotOffered (model : String)

def translations : WireProtocol → List WireProtocol
  | .messages => [.chatCompletions, .responses]
  | .responses => [.chatCompletions, .messages]
  | .chatCompletions => [.responses, .messages]

def reachIn (native : WireProtocol) (harness : Harness) (protocols : List WireProtocol) :
    Except Unavailable Reach :=
  if native ∈ protocols then .ok .direct
  else
    match (translations native).find? (· ∈ protocols) with
    | none => .error .noProtocol
    | some goal =>
      if !harness.gatewaySupported then .error (.gatewayNotYetForHarness harness)
      else .ok (.viaGateway native goal)

def modelProtocols (connection : Connection) (entry : ModelEntry) : List WireProtocol :=
  if entry.protocols = [] then connection.protocols else entry.protocols

def viaId (digest : String → String) (harness : Harness) (connectionId : String) : String :=
  "via-" ++ harness.slug ++ "-" ++ digest connectionId

def viaLoginId (harness : Harness) : String := "via-" ++ harness.slug ++ "-login"

def viaAllId (harness : Harness) : String := "via-" ++ harness.slug ++ "-all"

def loginConnectionId (harness : Harness) : String := "login-" ++ harness.slug

namespace ConnectionsDocument
variable (doc : ConnectionsDocument)

def lookup (id : String) : Option Connection := doc.connections.find? (·.id = id)

def findPool (id : String) : Option Pool := doc.pools.find? (·.id = id)

def connectionsBehind : ConfigTarget → List Connection
  | .connection connectionId => doc.connections.filter (·.id = connectionId)
  | .pool poolId =>
    match doc.findPool poolId with
    | none => []
    | some pool => doc.connections.filter fun c => pool.members.any (·.connectionId = c.id)
  | .route _ => doc.connections.filter (·.enabled)

def configProtocol (config : AgentConfig) : WireProtocol :=
  if config.harness ≠ .omp ∧ config.harness ≠ .dsh then config.harness.nativeProtocol
  else
    let behind := doc.connectionsBehind config.target
    if behind ≠ [] ∧ (behind.all fun c => .responses ∈ c.protocols) ∧
        !behind.any fun c => .messages ∈ c.protocols then .responses
    else .messages

def maxWeight : ℕ := 100

/-- The connection is a login, which serves the configuration for its own harness's login only. -/
def foreign (config : AgentConfig) (connection : Connection) : Bool :=
  connection.loginHarness.any fun owner => owner ≠ config.harness || config.id ≠ viaLoginId owner

/-- What a connection is for a model: nothing, a channel, or one that is excluded. -/
def consider (config : AgentConfig) (model : String) (connection : Connection)
    (member : Option PoolMember) : Option (Except (String × Unavailable) (Candidate × Reach)) :=
  if foreign config connection then none
  else if !connection.enabled then some (.error (connection.id, .connectionDisabled))
  else
    match connection.routableModels.find? (·.routingName = model) with
    | none => some (.error (connection.id, .modelNotOffered model))
    | some entry =>
      match reachIn (doc.configProtocol config) config.harness (modelProtocols connection entry) with
      | .error reason => some (.error (connection.id, reason))
      | .ok reach => some (.ok (⟨connection.id, entry.upstreamId, (member.map (·.priority)).getD 0,
          (member.map fun m => max 1 (min m.weight maxWeight)).getD 1,
          (member.map (·.free)).getD false⟩, reach))

def considerMember (config : AgentConfig) (model : String) (member : PoolMember) :
    Option (Except (String × Unavailable) (Candidate × Reach)) :=
  match doc.lookup member.connectionId with
  | some connection => doc.consider config model connection (some member)
  | none => some (.error (member.connectionId, .connectionMissing member.connectionId))

def considered (config : AgentConfig) (model : String) :
    List (Except (String × Unavailable) (Candidate × Reach)) :=
  match config.target with
  | .connection connectionId =>
    match doc.lookup connectionId with
    | some connection => (doc.consider config model connection none).toList
    | none => [.error (connectionId, .connectionMissing connectionId)]
  | .pool poolId =>
    match doc.findPool poolId with
    | some pool => pool.members.filterMap (doc.considerMember config model)
    | none => [.error (poolId, .poolMissing poolId)]
  | .route poolId =>
    let pool := poolId.bind doc.findPool
    doc.connections.filterMap fun connection => doc.consider config model connection
      (pool.bind fun p => p.members.find? (·.connectionId = connection.id))

/-- Under a harness's own login that login takes any model that no channel serves. -/
def anyModel (config : AgentConfig) (model : String) : List (Candidate × Reach) :=
  match config.target with
  | .route _ =>
    if config.id = viaLoginId config.harness then
      match doc.connections.find? fun c => c.id = loginConnectionId config.harness ∧ c.enabled with
      | some login =>
        match reachIn (doc.configProtocol config) config.harness login.protocols with
        | .ok reach => [(⟨login.id, model, 0, 1, false⟩, reach)]
        | .error _ => []
      | none => []
    else []
  | _ => []

def candidates (config : AgentConfig) (model : String) :
    List (Candidate × Reach) × List (String × Unavailable) :=
  let considered := doc.considered config model
  let out := considered.filterMap Except.toOption
  (if out.isEmpty then doc.anyModel config model else out,
    considered.filterMap fun outcome =>
      match outcome with
      | .ok _ => none
      | .error excluded => some excluded)

/-- The connections that the menu is made of. A pool that is missing holds none back. -/
def inReach (target : ConfigTarget) (connection : Connection) : Bool :=
  match target with
  | .connection connectionId => connection.id = connectionId
  | .pool poolId => (doc.findPool poolId).all fun pool =>
      pool.members.any (·.connectionId = connection.id)
  | .route _ => true

def offeredModels (config : AgentConfig) : List String :=
  let names := (doc.connections.filter fun c => c.enabled && doc.inReach config.target c).flatMap
    fun connection => (connection.routableModels.filter fun entry =>
      (reachIn (doc.configProtocol config) config.harness (modelProtocols connection entry)).isOk).map
        (·.routingName)
  (names.filter (· ≠ "")).dedup.insertionSort (· ≤ ·)

def loginState : Harness → LoginGatewayState
  | .codex => doc.loginCodex
  | .claude => doc.loginClaude
  | .omp | .dsh => ⟨false, none, []⟩

def loginActive (harness : Harness) : Bool :=
  (doc.loginState harness).enabled && (doc.loginState harness).acceptedAt.isSome

def loginConnection (harness : Harness) : Connection where
  id := loginConnectionId harness
  kind := .linkedLocalLogin
  protocols := [if harness = .codex then .responses else .messages]
  models := (doc.loginState harness).models
  enabled := true
  restOnLimit := true

/-- The document with the logins that are on, as connections. -/
def withLogins : ConnectionsDocument :=
  { doc with connections :=
      ([.claude, .codex].filter doc.loginActive).map doc.loginConnection ++ doc.connections }

def defaultOf (config : AgentConfig) (connections : List Connection) : Option AgentConfig :=
  (((connections.flatMap (·.routableModels)).map (·.routingName)).find?
    (· ∈ doc.offeredModels config)).map fun name => { config with defaultModel := name }

def derivedAll (harness : Harness) : Option AgentConfig :=
  if !harness.gatewaySupported || !doc.connections.any (·.enabled) then none
  else doc.defaultOf ⟨viaAllId harness, harness, .route none, "", []⟩
    (doc.connections.filter fun c => c.enabled && c.loginHarness.isNone)

def derivedLogin (harness : Harness) : Option AgentConfig :=
  (doc.lookup (loginConnectionId harness)).bind fun login =>
    login.routableModels.head?.map fun entry =>
      ⟨viaLoginId harness, harness, .route none, entry.routingName, []⟩

def derivedConfig (digest : String → String) (harness : Harness) (connection : Connection) :
    Option AgentConfig :=
  if !harness.gatewaySupported || !connection.enabled then none
  else doc.defaultOf ⟨viaId digest harness connection.id, harness, .connection connection.id, "", []⟩
    [connection]

/-- The harness and the rest that an id of a derived configuration names. -/
def splitVia (id : String) : Option (Harness × String) :=
  (behind "via-" id).bind fun text =>
    match text.toList.span (· ≠ '-') with
    | (_, []) => none
    | (slug, _ :: rest) => (Harness.fromSlug (String.ofList slug)).map (·, String.ofList rest)

def config (digest : String → String) (id : String) : Option AgentConfig :=
  match doc.configs.find? (·.id = id) with
  | some config => some config
  | none => (splitVia id).bind fun via =>
    if via.2 = "all" then doc.derivedAll via.1
    else if via.2 = "login" then doc.derivedLogin via.1
    else (doc.connections.find? fun c => viaId digest via.1 c.id = id).bind
      (doc.derivedConfig digest via.1)

/-! What a document is checked for before it is saved. -/

def validateModels (id : String) : List String → List ModelEntry → Except String Unit
  | _, [] => .ok ()
  | names, entry :: models =>
    if trimmed entry.upstreamId = "" then
      .error ("connection `" ++ id ++ "` has a model without upstream id")
    else if entry.enabled && decide (entry.routingName ∈ names) then
      .error ("connection `" ++ id ++ "` maps `" ++ entry.routingName ++ "` twice")
    else validateModels id (if entry.enabled then entry.routingName :: names else names) models

def validateConnections : List String → List Connection → Except String Unit
  | _, [] => .ok ()
  | ids, c :: connections =>
    if trimmed c.id = "" ∨ c.id ∈ ids then
      .error ("duplicate or empty connection id `" ++ c.id ++ "`")
    else if c.protocols = [] then .error ("connection `" ++ c.id ++ "` lists no protocol")
    else
      match validateModels c.id [] c.models with
      | .error message => .error message
      | .ok () => validateConnections (c.id :: ids) connections

def validatePools : List String → List Pool → Except String Unit
  | _, [] => .ok ()
  | ids, p :: pools =>
    if trimmed p.id = "" ∨ p.id ∈ ids then .error ("duplicate or empty pool id `" ++ p.id ++ "`")
    else
      match p.members.find? fun m => !doc.connections.any (·.id = m.connectionId) with
      | some m => .error ("pool `" ++ p.id ++ "` references missing connection `" ++ m.connectionId ++ "`")
      | none => validatePools (p.id :: ids) pools

def hasTarget : ConfigTarget → Bool
  | .connection connectionId => doc.connections.any (·.id = connectionId)
  | .pool poolId => doc.pools.any (·.id = poolId)
  | .route poolId => poolId.all fun id => doc.pools.any (·.id = id)

def maxFallbackModels : ℕ := 3

def validateFallbackNames (config : AgentConfig) : List String → List String → Except String Unit
  | _, [] => .ok ()
  | seen, name :: names =>
    if trimmed name = "" ∨ trimmed name = trimmed config.defaultModel ∨ trimmed name ∈ seen then
      .error ("config `" ++ config.id ++ "` has an empty, repeated or default fallback model `" ++
        trimmed name ++ "`")
    else validateFallbackNames config (trimmed name :: seen) names

def validateFallbacks (config : AgentConfig) : Except String Unit :=
  if maxFallbackModels < config.fallbackModels.length then
    .error ("config `" ++ config.id ++ "` lists more than 3 fallback models")
  else validateFallbackNames config [] config.fallbackModels

def validateConfigs : List String → List AgentConfig → Except String Unit
  | _, [] => .ok ()
  | ids, config :: configs =>
    if trimmed config.id = "" ∨ config.id ∈ ids then
      .error ("duplicate or empty config id `" ++ config.id ++ "`")
    else if !doc.hasTarget config.target then
      .error ("config `" ++ config.id ++ "` targets something that does not exist")
    else
      match validateFallbacks config with
      | .error message => .error message
      | .ok () => validateConfigs (config.id :: ids) configs

def validate : Except String Unit :=
  match validateConnections [] doc.connections with
  | .error message => .error message
  | .ok () =>
    match doc.validatePools [] doc.pools with
    | .error message => .error message
    | .ok () => doc.validateConfigs [] doc.configs

/-! The menu against the channels. -/

/-- A candidate comes through a connection, which lists the model then. -/
def Served (config : AgentConfig) (name : String) : Prop :=
  ∃ found ∈ (doc.candidates config name).1, ∃ c ∈ doc.connections, c.lists name = true ∧
    ∃ member, doc.consider config name c member = some (.ok found)

/-- A connection that the menu may have the name from. -/
structure Shows (config : AgentConfig) (name : String) (c : Connection) : Prop where
  mem : c ∈ doc.connections
  enabled : c.enabled = true
  inReach : doc.inReach config.target c = true
  lists : c.lists name = true

/-- The routing gets to the connection: it is not the login of another configuration, and, unless all
connections are gone through, it is the first one with its id. -/
structure Reaches (config : AgentConfig) (c : Connection) : Prop where
  own : foreign config c = false
  first : (∀ poolId, config.target ≠ .route poolId) → doc.lookup c.id = some c

/-- If connections show the name, the routing gets to one of them; and to none that shows a name that
is empty. -/
structure Fair (config : AgentConfig) (name : String) : Prop where
  reached : name ≠ "" → ∀ c, doc.Shows config name c →
    ∃ other, doc.Shows config name other ∧ doc.Reaches config other
  nameless : name = "" → ∀ c, doc.Shows config name c → ¬ doc.Reaches config c

variable {doc} {c : Connection} {target : ConfigTarget} {config : AgentConfig} {name : String}

lemma reachIn_ok (native : WireProtocol) (harness : Harness) {protocols : List WireProtocol}
    (h : protocols ≠ []) : ∃ reach, reachIn native harness protocols = .ok reach := by
  obtain ⟨p, hp⟩ := List.exists_mem_of_ne_nil _ h
  rw [reachIn]
  split
  · exact ⟨_, rfl⟩
  · next hnative =>
    have hother : p ∈ translations native := by
      have hne : p ≠ native := fun heq => hnative (heq ▸ hp)
      revert hne
      cases native <;> cases p <;> decide
    cases hfind : (translations native).find? (· ∈ protocols) with
    | none => exact absurd hp (by simpa using List.find?_eq_none.mp hfind p hother)
    | some goal =>
      refine ⟨.viaGateway native goal, ?_⟩
      cases harness <;> rfl

lemma modelProtocols_ne_nil (h : c.protocols ≠ []) (entry : ModelEntry) :
    modelProtocols c entry ≠ [] := by
  unfold modelProtocols
  split
  · exact h
  · assumption

lemma mem_offeredModels (hprotocols : ∀ c ∈ doc.connections, c.protocols ≠ []) :
    name ∈ doc.offeredModels config ↔ name ≠ "" ∧ ∃ c, doc.Shows config name c := by
  unfold offeredModels
  simp only [List.mem_insertionSort, List.mem_dedup, List.mem_filter, List.mem_flatMap, List.mem_map,
    decide_eq_true_eq, Bool.and_eq_true, and_comm (b := name ≠ "")]
  refine and_congr_right fun _ => exists_congr fun c => ?_
  constructor
  · rintro ⟨⟨hc, henabled, hreach⟩, entry, ⟨hentry, -⟩, hname⟩
    exact ⟨hc, henabled, hreach, List.any_eq_true.mpr ⟨entry, hentry, by simpa using hname⟩⟩
  · rintro ⟨hc, henabled, hreach, hlists⟩
    obtain ⟨entry, hentry, hname⟩ := List.any_eq_true.mp hlists
    obtain ⟨reach, hok⟩ := reachIn_ok (doc.configProtocol config) config.harness
      (modelProtocols_ne_nil (hprotocols c hc) entry)
    exact ⟨⟨hc, henabled, hreach⟩, entry, ⟨hentry, by rw [hok]; rfl⟩, by simpa using hname⟩

lemma consider_ok_iff (hprotocols : c.protocols ≠ []) (member : Option PoolMember) :
    (∃ found, doc.consider config name c member = some (.ok found)) ↔
      foreign config c = false ∧ c.enabled = true ∧ c.lists name = true := by
  unfold consider
  cases foreign config c with
  | true => simp
  | false =>
    cases c.enabled with
    | false => simp
    | true =>
      cases hfind : c.routableModels.find? (·.routingName = name) with
      | none =>
        have hlists : c.lists name = false := by
          simpa [Connection.lists] using List.find?_eq_none.mp hfind
        simp [hlists]
      | some entry =>
        have hentry := List.find?_some hfind
        have hlists : c.lists name = true :=
          List.any_eq_true.mpr ⟨entry, List.mem_of_find?_eq_some hfind, hentry⟩
        obtain ⟨reach, hreach⟩ := reachIn_ok (doc.configProtocol config) config.harness
          (modelProtocols_ne_nil hprotocols entry)
        simp [hlists, hreach]

/-- What is considered and serves the model comes through a connection that shows it. -/
lemma considered_ok (hpool : ∀ poolId, config.target = .pool poolId → (doc.findPool poolId).isSome = true)
    (hprotocols : ∀ c ∈ doc.connections, c.protocols ≠ []) {found : Candidate × Reach}
    (h : .ok found ∈ doc.considered config name) :
    ∃ c, doc.Shows config name c ∧ doc.Reaches config c ∧
      ∃ member, doc.consider config name c member = some (.ok found) := by
  have hone : ∀ {c member}, c ∈ doc.connections → doc.consider config name c member = some (.ok found) →
      doc.inReach config.target c = true →
      ((∀ poolId, config.target ≠ .route poolId) → doc.lookup c.id = some c) →
      ∃ c, doc.Shows config name c ∧ doc.Reaches config c ∧
        ∃ member, doc.consider config name c member = some (.ok found) := by
    intro c member hc hfound hreach hfirst
    obtain ⟨hown, henabled, hlists⟩ := (consider_ok_iff (hprotocols c hc) member).mp ⟨found, hfound⟩
    exact ⟨c, ⟨hc, henabled, hreach, hlists⟩, ⟨hown, hfirst⟩, member, hfound⟩
  have hlookup : ∀ {id c}, doc.lookup id = some c → c ∈ doc.connections ∧ c.id = id := by
    intro id c hfind
    exact ⟨List.mem_of_find?_eq_some hfind, by simpa using List.find?_some hfind⟩
  unfold considered at h
  cases htarget : config.target with
  | connection connectionId =>
    simp only [htarget] at h
    split at h
    · next c hfind =>
      obtain ⟨hc, rfl⟩ := hlookup hfind
      exact hone hc (Option.mem_toList.mp h) (by simp [htarget, inReach]) fun _ => hfind
    · simp at h
  | pool poolId =>
    obtain ⟨pool, hpool⟩ := Option.isSome_iff_exists.mp (hpool poolId htarget)
    simp only [htarget, hpool] at h
    obtain ⟨member, hmember, hfound⟩ := List.mem_filterMap.mp h
    unfold considerMember at hfound
    split at hfound
    · next c hfind =>
      obtain ⟨hc, hid⟩ := hlookup hfind
      refine hone hc hfound ?_ fun _ => hid ▸ hfind
      simp only [htarget, inReach, hpool, Option.all_some, List.any_eq_true, decide_eq_true_eq]
      exact ⟨member, hmember, hid.symm⟩
    · cases hfound
  | route poolId =>
    simp only [htarget] at h
    obtain ⟨c, hc, hfound⟩ := List.mem_filterMap.mp h
    exact hone hc hfound (by rw [htarget]; rfl) fun hother => absurd htarget (hother poolId)

/-- A connection that shows the model and that the routing gets to serves it. -/
lemma Shows.considered (h : doc.Shows config name c) (hreaches : doc.Reaches config c)
    (hpool : ∀ poolId, config.target = .pool poolId → (doc.findPool poolId).isSome = true)
    (hprotocols : ∀ c ∈ doc.connections, c.protocols ≠ []) :
    ∃ found member, doc.consider config name c member = some (.ok found) ∧
      .ok found ∈ doc.considered config name := by
  have hok (member : Option PoolMember) :
      ∃ found, doc.consider config name c member = some (.ok found) :=
    (consider_ok_iff (hprotocols c h.mem) member).mpr ⟨hreaches.own, h.enabled, h.lists⟩
  have hreach := h.inReach
  unfold ConnectionsDocument.considered
  cases htarget : config.target with
  | connection connectionId =>
    simp only [htarget, ConnectionsDocument.inReach, decide_eq_true_eq] at hreach
    obtain ⟨found, hfound⟩ := hok none
    have hfirst := hreaches.first (by simp [htarget])
    rw [hreach] at hfirst
    simp only [hfirst]
    exact ⟨found, none, hfound, Option.mem_toList.mpr hfound⟩
  | pool poolId =>
    obtain ⟨pool, hpool⟩ := Option.isSome_iff_exists.mp (hpool poolId htarget)
    simp only [htarget, ConnectionsDocument.inReach, hpool, Option.all_some, List.any_eq_true,
      decide_eq_true_eq] at hreach
    obtain ⟨member, hmember, hid⟩ := hreach
    obtain ⟨found, hfound⟩ := hok (some member)
    simp only [hpool]
    refine ⟨found, some member, hfound, List.mem_filterMap.mpr ⟨member, hmember, ?_⟩⟩
    rw [considerMember, hid, hreaches.first (by simp [htarget])]
    exact hfound
  | route poolId =>
    obtain ⟨found, hfound⟩ := hok _
    exact ⟨found, _, hfound, List.mem_filterMap.mpr ⟨c, h.mem, hfound⟩⟩

lemma anyModel_route {found : Candidate × Reach} (h : found ∈ doc.anyModel config name) :
    ∃ poolId, config.target = .route poolId := by
  unfold anyModel at h
  split at h
  · next poolId htarget => exact ⟨poolId, htarget⟩
  · cases h

/-- The model is served just if the routing gets to a connection that shows it. -/
lemma served_iff (hpool : ∀ poolId, config.target = .pool poolId → (doc.findPool poolId).isSome = true)
    (hprotocols : ∀ c ∈ doc.connections, c.protocols ≠ []) :
    doc.Served config name ↔ ∃ c, doc.Shows config name c ∧ doc.Reaches config c := by
  constructor
  · rintro ⟨found, hfound, c, hc, hlists, member, hconsider⟩
    rw [candidates] at hfound
    dsimp only at hfound
    split at hfound
    · -- the login that takes any model is not asked for one that a channel serves
      obtain ⟨poolId, htarget⟩ := anyModel_route hfound
      obtain ⟨hown, henabled, -⟩ := (consider_ok_iff (hprotocols c hc) member).mp ⟨found, hconsider⟩
      exact ⟨c, ⟨hc, henabled, by rw [htarget]; rfl, hlists⟩, hown,
        fun hother => absurd htarget (hother poolId)⟩
    · obtain ⟨outcome, houtcome, hsome⟩ := List.mem_filterMap.mp hfound
      cases outcome with
      | error excluded => cases hsome
      | ok channel =>
        obtain ⟨c, hshows, hreaches, -⟩ := considered_ok hpool hprotocols houtcome
        exact ⟨c, hshows, hreaches⟩
  · rintro ⟨c, hshows, hreaches⟩
    obtain ⟨found, member, hfound, hmem⟩ := hshows.considered hreaches hpool hprotocols
    have hout : found ∈ (doc.considered config name).filterMap Except.toOption :=
      List.mem_filterMap.mpr ⟨_, hmem, rfl⟩
    refine ⟨found, ?_, c, hshows.mem, hshows.lists, member, hfound⟩
    rw [candidates]
    dsimp only
    rwa [if_neg (by rw [List.isEmpty_iff]; exact List.ne_nil_of_mem hout)]

/-- A connection that the routing gets to is no login, or the configuration is its own. -/
lemma Reaches.login (h : doc.Reaches config c) (hother : config.id ≠ viaLoginId config.harness) :
    c.loginHarness = none := by
  have hown := h.own
  unfold foreign at hown
  cases howner : c.loginHarness with
  | none => rfl
  | some owner =>
    simp only [howner, Option.any_some, Bool.or_eq_false_iff, decide_eq_false_iff_not, ne_eq,
      not_not] at hown
    exact absurd (hown.1 ▸ hown.2) hother

lemma validateConnections_ok {ids : List String} {connections : List Connection}
    (h : validateConnections ids connections = .ok ()) : ∀ c ∈ connections, c.protocols ≠ [] := by
  induction connections generalizing ids with
  | nil => simp
  | cons c connections ih =>
    rw [validateConnections] at h
    split at h
    · cases h
    · split at h
      · cases h
      · next hprotocols =>
        split at h
        · cases h
        · exact List.forall_mem_cons.mpr ⟨hprotocols, ih h⟩

lemma validateConfigs_ok {ids : List String} {configs : List AgentConfig}
    (h : doc.validateConfigs ids configs = .ok ()) :
    ∀ config ∈ configs, doc.hasTarget config.target = true := by
  induction configs generalizing ids with
  | nil => simp
  | cons config configs ih =>
    rw [validateConfigs] at h
    split at h
    · cases h
    · split at h
      · cases h
      · next htarget =>
        split at h
        · cases h
        · exact List.forall_mem_cons.mpr ⟨by simpa using htarget, ih h⟩

lemma validate_ok (h : doc.validate = .ok ()) : (∀ c ∈ doc.connections, c.protocols ≠ []) ∧
    ∀ config ∈ doc.configs, doc.hasTarget config.target = true := by
  rw [validate] at h
  split at h
  · cases h
  · next hconnections =>
    split at h
    · cases h
    · exact ⟨validateConnections_ok hconnections, validateConfigs_ok h⟩

lemma defaultOf_target {config chosen : AgentConfig} {connections : List Connection}
    (h : doc.defaultOf config connections = some chosen) : chosen.target = config.target := by
  obtain ⟨name, -, rfl⟩ := Option.map_eq_some_iff.mp h
  rfl

lemma config_target {digest : String → String} {id : String} (h : doc.config digest id = some config) :
    config ∈ doc.configs ∨ ∀ poolId, config.target ≠ .pool poolId := by
  rw [ConnectionsDocument.config] at h
  split at h
  · next hfind =>
    cases h
    exact .inl (List.mem_of_find?_eq_some hfind)
  · right
    obtain ⟨via, -, h⟩ := Option.bind_eq_some_iff.mp h
    split at h
    · rw [derivedAll] at h
      split at h
      · cases h
      · simp [defaultOf_target h]
    · split at h
      · obtain ⟨login, -, h⟩ := Option.bind_eq_some_iff.mp h
        obtain ⟨entry, -, rfl⟩ := Option.map_eq_some_iff.mp h
        simp
      · obtain ⟨connection, -, h⟩ := Option.bind_eq_some_iff.mp h
        rw [derivedConfig] at h
        split at h
        · cases h
        · simp [defaultOf_target h]

lemma withLogins_protocols (h : ∀ c ∈ doc.connections, c.protocols ≠ []) :
    ∀ c ∈ doc.withLogins.connections, c.protocols ≠ [] := by
  intro c hc
  rcases List.mem_append.mp hc with hc | hc
  · obtain ⟨harness, -, rfl⟩ := List.mem_map.mp hc
    simp [loginConnection]
  · exact h c hc

end ConnectionsDocument

open ConnectionsDocument

/-- The menu names just the models that are served, and no model that only logins list unless the
configuration is a login's own, exactly if the routing gets to the connections that the menu has its
names from. -/
theorem menu_served_iff {digest : String → String} {doc : ConnectionsDocument}
    (hvalid : doc.validate = .ok ()) {id : String} {config : AgentConfig}
    (hconfig : doc.withLogins.config digest id = some config) (name : String) :
    ((name ∈ doc.withLogins.offeredModels config ↔ doc.withLogins.Served config name) ∧
      (config.id ≠ viaLoginId config.harness → name ∈ doc.withLogins.offeredModels config →
        ∃ c ∈ doc.withLogins.connections, c.loginHarness = none ∧ c.lists name = true)) ↔
    doc.withLogins.Fair config name := by
  obtain ⟨hstored, htargets⟩ := validate_ok hvalid
  have hprotocols := withLogins_protocols hstored
  have hpool : ∀ poolId, config.target = .pool poolId →
      (doc.withLogins.findPool poolId).isSome = true := by
    intro poolId htarget
    rcases config_target hconfig with hmem | hother
    · have hany := htargets config hmem
      rw [htarget] at hany
      simpa [hasTarget, findPool, withLogins, List.find?_isSome] using hany
    · exact absurd htarget (hother poolId)
  rw [mem_offeredModels hprotocols, served_iff hpool hprotocols]
  constructor
  · rintro ⟨hserved, -⟩
    refine ⟨fun hname c hshows => hserved.mp ⟨hname, c, hshows⟩, fun hname c hshows hreaches => ?_⟩
    exact (hserved.mpr ⟨c, hshows, hreaches⟩).1 hname
  · intro hfair
    refine ⟨⟨?_, ?_⟩, ?_⟩
    · rintro ⟨hname, c, hshows⟩
      exact hfair.reached hname c hshows
    · rintro ⟨c, hshows, hreaches⟩
      exact ⟨fun hname => hfair.nameless hname c hshows hreaches, c, hshows⟩
    · rintro hother ⟨hname, c, hshows⟩
      obtain ⟨reached, hreached, hreaches⟩ := hfair.reached hname c hshows
      exact ⟨reached, hreached.mem, hreaches.login hother, hreached.lists⟩

/-- One connection with the model `m`, and the login of Codex with the model `x`. -/
def withCodexLogin : ConnectionsDocument where
  connections := [⟨"a", .apiKey, [.responses], [⟨"m", "", [], true⟩], true, true⟩]
  pools := []
  configs := []
  loginCodex := ⟨true, some "2026", [⟨"x", "", [], true⟩]⟩
  loginClaude := ⟨false, none, []⟩

def allOfCodex : AgentConfig := ⟨"via-codex-all", .codex, .route none, "m", []⟩

theorem allOfCodex_served : "m" ∈ withCodexLogin.withLogins.offeredModels allOfCodex ∧
    withCodexLogin.withLogins.Served allOfCodex "m" := by
  have hconfig : withCodexLogin.withLogins.config id "via-codex-all" = some allOfCodex := by rfl
  have hshows : withCodexLogin.withLogins.Shows allOfCodex "m"
      ⟨"a", .apiKey, [.responses], [⟨"m", "", [], true⟩], true, true⟩ :=
    ⟨.tail _ (.head _), rfl, rfl, by decide⟩
  have hmenu := ((menu_served_iff (by rfl) hconfig "m").mpr
    ⟨fun _ _ _ => ⟨_, hshows, by rfl, fun hother => absurd rfl (hother none)⟩, fun hname =>
      absurd hname (by decide)⟩).1
  exact ⟨by decide, hmenu.mp (by decide)⟩

/-- The menu for all third-party models of Codex names the login's model, which no channel serves. -/
theorem menu_unserved : withCodexLogin.validate = .ok () ∧
    withCodexLogin.withLogins.config id "via-codex-all" = some allOfCodex ∧
    "x" ∈ withCodexLogin.withLogins.offeredModels allOfCodex ∧
    (withCodexLogin.withLogins.candidates allOfCodex "x").1 = [] :=
  ⟨by rfl, by rfl, by decide, by rfl⟩

end Aeroric.Routing
