import Mathlib.Data.List.AList
import OnoSendai.Link.Wire

/-!
# The streams of an agent

The agent's end of a link registers each stream it starts in a table, under an identifier the peer
chooses, and runs a body for it as a task of its own. The table entry and the body share the
stream's cancel token and its credit. A body spends a unit of credit for every message, puts an
end on the wire when it returns, and then takes the entry under its identifier out of the table.

What a body runs is a parameter `ρ`, and what it sends a parameter `μ`.
-/

namespace OnoSendai.Link

/-! ### Bodies -/

/-- How far a body has come: its task is spawned, it runs, its end is on the wire, or it has taken
its entry out of the table. -/
inductive Phase
  | spawned
  | running
  | ended
  | done
deriving DecidableEq

/-- Whether the end of the stream is still to be sent. -/
def Phase.isOpen : Phase → Bool
  | spawned | running => true
  | ended | done => false

/-- Whether the task is still there. -/
def Phase.isUnfinished : Phase → Bool
  | done => false
  | _ => true

/-- A body with the cancel token and the credit it shares with its entry. `inHand` counts the
messages it has paid for and not yet queued. -/
structure Body (ρ : Type) where
  stream : StreamId
  job : ρ
  cancelled : Bool
  permits : Nat
  closed : Bool
  inHand : Nat
  phase : Phase

/-- The table of an agent and every body it has started, in order. An entry names the body it
shares its credit and its cancel token with by its place. -/
structure Agent (ρ : Type) where
  table : AList fun _ : StreamId => Nat
  bodies : List (Body ρ)

namespace Agent

variable {ρ μ : Type}

/-- The agent of a link that was just accepted. -/
def empty : Agent ρ where
  table := ∅
  bodies := []

/-- The number of entries. -/
def size (agent : Agent ρ) : Nat :=
  agent.table.entries.length

/-- The bodies whose task is still there. -/
def unfinished (agent : Agent ρ) : List (Body ρ) :=
  agent.bodies.filter (·.phase.isUnfinished)

/-- The bodies whose end is still to be sent. -/
def streaming (agent : Agent ρ) : List (Body ρ) :=
  agent.bodies.filter (·.phase.isOpen)

/-! ### Frames of the peer -/

/-- Whether a stream can be registered under an identifier. -/
def admits (limits : Limits) (agent : Agent ρ) (id : StreamId) : Bool :=
  !(limits.maxStreams ≤ agent.size || id ∈ agent.table)

/-- The frames a stream that is not admitted is answered with. -/
def refusal (limits : Limits) (id : StreamId) : List (Frame μ) :=
  [⟨id, .failure (ProtocolError.tooManyStreams limits.maxStreams).toErrorValue⟩, ⟨id, .finish⟩]

/-- Registers a stream and spawns its body, or refuses it. -/
def start (limits : Limits) (window : Nat) (agent : Agent ρ) (id : StreamId) (job : ρ) :
    Agent ρ × List (Frame μ) :=
  if agent.admits limits id then
    let body : Body ρ :=
      { stream := id, job, cancelled := false, permits := window, closed := false, inHand := 0,
        phase := .spawned }
    ({ table := agent.table.insert id agent.bodies.length, bodies := agent.bodies ++ [body] }, [])
  else
    (agent, refusal limits id)

/-- Cancels the stream registered under an identifier. -/
def cancel (agent : Agent ρ) (id : StreamId) : Agent ρ :=
  match agent.table.lookup id with
  | some index =>
    { table := agent.table.erase id
      bodies := agent.bodies.modify index fun body =>
        { body with cancelled := true, closed := true } }
  | none => agent

/-- Adds credit without ever letting the counter run past the ceiling. -/
def grant (limits : Limits) (permits granted : Nat) : Nat :=
  permits + min granted (limits.maxCredit - permits)

/-- Grants credit to the stream registered under an identifier. -/
def credit (limits : Limits) (agent : Agent ρ) (id : StreamId) (granted : Nat) : Agent ρ :=
  match agent.table.lookup id with
  | some index =>
    { agent with
      bodies := agent.bodies.modify index fun body =>
        { body with permits := grant limits body.permits granted } }
  | none => agent

/-! ### Steps of a body -/

/-- The task is polled for the first time. -/
def poll (agent : Agent ρ) (index : Nat) : Option (Agent ρ) :=
  match agent.bodies[index]? with
  | some body =>
    if body.phase = .spawned then
      some { agent with bodies := agent.bodies.modify index fun body =>
        { body with phase := .running } }
    else
      none
  | none => none

/-- Spends one unit of credit, unless the stream is cancelled or its window closed. The responder
can be cloned, so this does not look at how far the body has come. -/
def spend (agent : Agent ρ) (index : Nat) : Option (Agent ρ) :=
  match agent.bodies[index]? with
  | some body =>
    if !body.cancelled && !body.closed && 0 < body.permits then
      some { agent with bodies := agent.bodies.modify index fun body =>
        { body with permits := body.permits - 1, inHand := body.inHand + 1 } }
    else
      none
  | none => none

/-- Takes one paid message out of the hands of a body, and names its stream. -/
def unhand (agent : Agent ρ) (index : Nat) : Option (Agent ρ × StreamId) :=
  match agent.bodies[index]? with
  | some body =>
    if 0 < body.inHand then
      some ({ agent with bodies := agent.bodies.modify index fun body =>
        { body with inHand := body.inHand - 1 } }, body.stream)
    else
      none
  | none => none

/-- Queues a paid message: a value, an event, a failure or an outcome, never an end. -/
def send (agent : Agent ρ) (index : Nat) (inbound : Inbound μ) :
    Option (Agent ρ × List (Frame μ)) :=
  if inbound.isFinish then none
  else (agent.unhand index).map fun (next, stream) => (next, [⟨stream, inbound⟩])

/-- A paid message that does not fit into a frame, and whose failure does not either, is lost. -/
def lose (agent : Agent ρ) (index : Nat) : Option (Agent ρ) :=
  (agent.unhand index).map (·.1)

/-- The body has returned and its end is queued. -/
def finish (agent : Agent ρ) (index : Nat) : Option (Agent ρ × List (Frame μ)) :=
  match agent.bodies[index]? with
  | some body =>
    if body.phase = .running then
      some ({ agent with bodies := agent.bodies.modify index fun body =>
        { body with phase := .ended } }, [⟨body.stream, .finish⟩])
    else
      none
  | none => none

/-- The task takes the entry under its identifier out of the table, and is gone. -/
def release (agent : Agent ρ) (index : Nat) : Option (Agent ρ) :=
  match agent.bodies[index]? with
  | some body =>
    if body.phase = .ended then
      some { table := agent.table.erase body.stream
             bodies := agent.bodies.modify index fun body => { body with phase := .done } }
    else
      none
  | none => none

end Agent

end OnoSendai.Link
