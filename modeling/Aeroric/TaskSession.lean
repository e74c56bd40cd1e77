import Aeroric.TaskRecord

/-! Which protocol family a task's session belongs to, and what may continue it. -/
namespace Aeroric.TaskSession

open TaskRecord

/-- The host's table of agents. Three families, because they are three questions: how an
agent is started, which transcript it writes, and whose `--resume` reads that transcript. -/
structure AgentFamilies where
  launchFamily : String → ProtocolFamily
  sessionFamily : String → ProtocolFamily
  nativeResumeFamily : String → ProtocolFamily
  isBuiltin : String → Bool

structure SessionOwner where
  agent : String
  family : ProtocolFamily
  codexLike : Bool
  deriving DecidableEq

def familyPrefix (family : ProtocolFamily) : String := family.wire

def sessionIdKey (family : ProtocolFamily) : String := familyPrefix family ++ "SessionId"

def sessionPathKey (family : ProtocolFamily) : String := familyPrefix family ++ "SessionPath"

/-- Neither `null` nor the empty string. -/
def holdsText : Option Value → Bool
  | none | some .null => false
  | some v => decide (v ≠ .string "")

def hasSession (r : Record) (family : ProtocolFamily) : Bool :=
  holdsText (r.get (sessionIdKey family)) || holdsText (r.get (sessionPathKey family))

def owner (agent : String) (family : ProtocolFamily) : SessionOwner :=
  ⟨agent, family, decide (family = .codex)⟩

/-- A recorded `sessionFamily` wins; then the old `sessionCodexLike` flag; then the one
family that has session fields; then the agent's own family. -/
def resolveSessionOwner (families : AgentFamilies) (r : Record) : SessionOwner :=
  let agent := ((r.strField "sessionAgent").or (r.strField "agent")).getD ""
  match (r.strField "sessionFamily").bind ProtocolFamily.parse with
  | some family => owner agent family
  | none =>
    match (r.get "sessionCodexLike").bind Value.asBool with
    | some codexLike =>
      -- the flag is older than dsh: a lone dsh session outranks a `false`
      if !codexLike && hasSession r .dsh && !hasSession r .claude then owner agent .dsh
      else owner agent (if codexLike then .codex else .claude)
    | none =>
      match [ProtocolFamily.codex, .claude, .dsh, .omp].filter (hasSession r) with
      | [family] => owner agent family
      | _ => owner agent (families.sessionFamily agent)

def launchFamilyOf (families : AgentFamilies) (r : Record) : ProtocolFamily :=
  match (r.strField "launchFamily").bind ProtocolFamily.parse with
  | some stored => stored
  | none =>
    let agent := (((r.strField "sessionAgent").filter (· ≠ "")).or (r.strField "agent")).getD ""
    families.launchFamily agent

def resumeFamilyOf (families : AgentFamilies) (r : Record) : ProtocolFamily :=
  match (r.strField "resumeFamily").bind ProtocolFamily.parse with
  | some stored => stored
  | none => (resolveSessionOwner families r).family

structure SessionFields where
  sessionId : Option String
  sessionPath : Option String
  legacySessionId : Option String
  legacySessionPath : Option String
  deriving DecidableEq

def sessionFields (r : Record) (family : ProtocolFamily) : SessionFields :=
  let pair := fun f => (r.strField (sessionIdKey f), r.strField (sessionPathKey f))
  let legacy := ((ProtocolFamily.all.filter (· ≠ family)).map pair).find? fun p =>
    p.1.any (· ≠ "") || p.2.any (· ≠ "")
  ⟨(pair family).1, (pair family).2, legacy.bind Prod.fst, legacy.bind Prod.snd⟩

def canNativeResume (families : AgentFamilies) (r : Record) (targetAgent : String) : Bool :=
  let source := resolveSessionOwner families r
  let sourceResume := resumeFamilyOf families r
  if source.family = .dsh ∨ sourceResume = .dsh then false
  else if sourceResume ≠ families.nativeResumeFamily targetAgent then false
  else if families.isBuiltin source.agent && families.isBuiltin targetAgent then true
  else source.agent = targetAgent

def canAdopt (families : AgentFamilies) (r : Record) (targetAgent : String) : Bool :=
  let source := resolveSessionOwner families r
  let sourceResume := resumeFamilyOf families r
  if sourceResume = .dsh ∨ sourceResume = .omp then false
  else if sourceResume ≠ families.nativeResumeFamily targetAgent then false
  else source.agent ≠ targetAgent && !canNativeResume families r targetAgent

inductive ConfigSwitchStrategy
  | resume
  | adopt
  | handoff
  deriving DecidableEq, Repr

def resolveConfigSwitchStrategy (families : AgentFamilies) (r : Record) (targetAgent : String)
    (nativeResumeSupported : Bool) : ConfigSwitchStrategy :=
  if !nativeResumeSupported then .handoff
  else if canNativeResume families r targetAgent then .resume
  else if canAdopt families r targetAgent then .adopt
  else .handoff

def clearSessions (families : List ProtocolFamily) (r : Record) : Record :=
  families.foldl (fun r f => (r.remove (sessionIdKey f)).remove (sessionPathKey f)) r

def brand (r : Record) (agent : String) (family : ProtocolFamily) : Record :=
  ((r.insert "sessionAgent" (.string agent)).insert "sessionCodexLike"
    (.bool (family = .codex))).insert "sessionFamily" family.value

def insertText (r : Record) (key : String) : Option String → Record
  | some text => r.insert key (.string text)
  | none => r

/-- One task, one family: every family's fields go, then the owner's come back. -/
def applyResolvedSession (r : Record) (o : SessionOwner) (sessionId sessionPath : Option String) :
    Record :=
  if sessionId.isNone && sessionPath.isNone then r
  else
    let cleared := brand (clearSessions ProtocolFamily.all r) o.agent o.family
    insertText (insertText cleared (sessionIdKey o.family) sessionId)
      (sessionPathKey o.family) sessionPath

/-- The id and the path of the row's session: the recorded family's fields, then another
family's, and for what is still missing the oldest fields, which have no prefix. -/
def currentSession (r : Record) : Option String × Option String :=
  let family := ((r.strField "sessionFamily").bind ProtocolFamily.parse).getD .codex
  let fields := sessionFields r family
  let nonEmpty := fun (value : Option String) => value.filter (· ≠ "")
  let found := match nonEmpty fields.sessionId, nonEmpty fields.sessionPath with
    | none, none => (nonEmpty fields.legacySessionId, nonEmpty fields.legacySessionPath)
    | id, path => (id, path)
  (found.1.or (nonEmpty (r.strField "sessionId")), found.2.or (nonEmpty (r.strField "sessionPath")))

/-- The sessions a reset process reported, by family. -/
structure ResetOutcome where
  sessionId : ProtocolFamily → Option String
  sessionPath : ProtocolFamily → Option String

/-- Overlay what a reset reported. The row changes family only when exactly one reported. -/
def mergeResetSession (r : Record) (snapshot : ResetOutcome) : Record :=
  let order : List ProtocolFamily := [.codex, .claude, .dsh, .omp]
  let overlaid := order.foldl (fun r f =>
    insertText (insertText r (sessionIdKey f) (snapshot.sessionId f))
      (sessionPathKey f) (snapshot.sessionPath f)) r
  match order.filter fun f =>
      (snapshot.sessionId f).any (· ≠ "") || (snapshot.sessionPath f).any (· ≠ "") with
  | [family] =>
    brand (clearSessions (ProtocolFamily.all.filter (· ≠ family)) overlaid)
      ((overlaid.strField "agent").getD "") family
  | _ => overlaid

def sessionKeys : List String :=
  ["claudeSessionId", "claudeSessionPath", "codexSessionId", "codexSessionPath",
    "dshSessionId", "dshSessionPath", "ompSessionId", "ompSessionPath",
    "sessionAgent", "sessionCodexLike", "sessionFamily"]

lemma sessionIdKey_mem (f : ProtocolFamily) : sessionIdKey f ∈ sessionKeys := by
  cases f <;> decide

lemma sessionPathKey_mem (f : ProtocolFamily) : sessionPathKey f ∈ sessionKeys := by
  cases f <;> decide

lemma insertText_agreesOff {keys : List String} {r s : Record} {k : String}
    (h : Record.AgreesOff keys r s) (hk : k ∈ keys) (text : Option String) :
    Record.AgreesOff keys r (insertText s k text) := by
  cases text
  · exact h
  · exact h.insert _ hk

lemma clearSessions_agreesOff (families : List ProtocolFamily) {r s : Record}
    (h : Record.AgreesOff sessionKeys r s) :
    Record.AgreesOff sessionKeys r (clearSessions families s) := by
  induction families generalizing s with
  | nil => exact h
  | cons f fs ih => exact ih ((h.remove (sessionIdKey_mem f)).remove (sessionPathKey_mem f))

lemma brand_agreesOff {r s : Record} (h : Record.AgreesOff sessionKeys r s) (agent : String)
    (family : ProtocolFamily) : Record.AgreesOff sessionKeys r (brand s agent family) :=
  ((h.insert _ (by decide)).insert _ (by decide)).insert _ (by decide)

lemma applyResolvedSession_agreesOff (r : Record) (o : SessionOwner) (sid path : Option String) :
    Record.AgreesOff sessionKeys r (applyResolvedSession r o sid path) := by
  unfold applyResolvedSession
  split
  · exact .refl _ r
  · exact insertText_agreesOff (insertText_agreesOff
      (brand_agreesOff (clearSessions_agreesOff _ (.refl _ r)) _ _) (sessionIdKey_mem _) _)
      (sessionPathKey_mem _) _

lemma mergeResetSession_agreesOff (r : Record) (snapshot : ResetOutcome) :
    Record.AgreesOff sessionKeys r (mergeResetSession r snapshot) := by
  have overlay : ∀ (order : List ProtocolFamily) (s : Record), Record.AgreesOff sessionKeys r s →
      Record.AgreesOff sessionKeys r (order.foldl (fun r f =>
        insertText (insertText r (sessionIdKey f) (snapshot.sessionId f))
          (sessionPathKey f) (snapshot.sessionPath f)) s) := by
    intro order
    induction order with
    | nil => exact fun s h => h
    | cons f fs ih =>
      intro s h
      exact ih _ (insertText_agreesOff (insertText_agreesOff h (sessionIdKey_mem f) _)
        (sessionPathKey_mem f) _)
  unfold mergeResetSession
  dsimp only
  split
  · exact brand_agreesOff (clearSessions_agreesOff _ (overlay _ _ (.refl _ r))) _ _
  · exact overlay _ _ (.refl _ r)

end Aeroric.TaskSession
