/-
The sessions of a service (`service/Managers.cpp`): message histories,
each bound to one model.
-/
import LocalLLM.Core.Types
import LocalLLM.Lib.Maps

namespace LocalLLM

open Std

structure SessionManager where
  sessions : ExtTreeMap QString SessionSnapshot := ∅

namespace SessionManager

/-- `create`, with the UUID it draws. -/
def create (limit : Nat) (m : SessionManager)
    (id modelId systemPrompt : QString) :
    Except Exn SessionManager := do
  require (m.sessions.size < limit) .ResourceLimit "Session limit reached"
  let messages := if systemPrompt = [] then []
    else [{ role := .System, content := systemPrompt }]
  return { m with
    sessions := m.sessions.insertIfNew id ⟨id, modelId, messages⟩ }

/-- `get`. -/
def get (m : SessionManager) (id : QString) : Except Exn SessionSnapshot :=
  match m.sessions[id]? with
  | some session => .ok session
  | none => .error (err .NotFound "Session not found")

/-- An assignment to the messages of a session that was looked up. -/
def setMessages (m : SessionManager) (session : SessionSnapshot)
    (messages : List ChatMessage) : SessionManager :=
  { m with
    sessions := m.sessions.insert session.id { session with messages } }

/-- What `reset` keeps: the system message at the front, if there is one. -/
def afterReset : List ChatMessage → List ChatMessage
  | front :: _ => if front.role = .System then [front] else []
  | [] => []

/-- `reset`. -/
def reset (m : SessionManager) (id : QString) : Except Exn SessionManager := do
  let session ← m.get id
  return m.setMessages session (afterReset session.messages)

/-- `close`. -/
def close (m : SessionManager) (id : QString) : Except Exn SessionManager := do
  let _ ← m.get id
  return { m with sessions := m.sessions.erase id }

/-- `usesModel`. -/
def usesModel (m : SessionManager) (id : QString) : Bool :=
  m.sessions.toList.any fun p => p.2.modelId == id

end SessionManager

end LocalLLM
