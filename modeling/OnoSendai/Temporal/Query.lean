import OnoSendai.Temporal.Session

/-!
# Reading the session ledger

What a caller asks of the events of a ledger, and how the session ledger answers: by filtering the
events it holds in memory.
-/

namespace OnoSendai.Temporal

/-! ### Queries -/

/-- Which way round a query returns its events. -/
inductive QueryOrder
  | ascending
  | descending
deriving DecidableEq

/-- What a caller wants from the events of a ledger. -/
structure EventQuery where
  scope : Option SpatialScope
  subjects : List SpatialId
  kinds : List EventKind
  range : TimeRange
  limit : Option Nat
  order : QueryOrder

/-- Whether an event meets every restriction of a query. -/
def EventQuery.matches (query : EventQuery) (event : TemporalEvent) : Bool :=
  if !query.range.contains event.instant then false
  else if query.scope.any fun scope => !scope.contains event.scope then false
  else if !query.kinds.isEmpty && !query.kinds.contains event.kind then false
  else if !query.subjects.isEmpty && !event.mentioned.any (query.subjects.contains ·) then false
  else true

/-- Whether an event is shown before another: by its instant, then by its identity. -/
def ShownBefore (a b : TemporalEvent) : Prop :=
  a.instant < b.instant ∨ (a.instant = b.instant ∧ a.eventId.text ≤ b.eventId.text)

instance : DecidableRel ShownBefore :=
  fun _ _ => inferInstanceAs (Decidable (_ ∨ _))

/-- Events in the order they are shown in. -/
def presentationOrder (events : List TemporalEvent) : List TemporalEvent :=
  events.insertionSort ShownBefore

/-- How long the start of an identity has to be for a neighbour not to share it. -/
def distinguishingLength (id neighbour : String) : Nat :=
  let shared := ((id.toList.zip neighbour.toList).takeWhile fun pair => pair.1 = pair.2).length
  min (shared + 1) id.toList.length

/-- The result of a lookup: a reference that names more than one event is refused with the events
it names. -/
abbrev Lookup : Type :=
  Except (List EventId) (Option TemporalEvent)

namespace SessionLedger

variable (ledger : SessionLedger)

/-- The events that match a query, in the order it asks for. -/
def events (query : EventQuery) : List TemporalEvent :=
  let found := presentationOrder (ledger.state.events.filter query.matches)
  let found := if query.order = .descending then found.reverse else found
  match query.limit with
  | some limit => found.take limit
  | none => found

/-- One event by reference, which may be shortened. -/
def event (id : EventId) : Lookup :=
  match ledger.state.events.filter fun event => id.text.toList.isPrefixOf event.eventId.text.toList
  with
  | [] => .ok none
  | [only] => .ok (some only)
  | many => .error (many.map (·.eventId))

/-- How long the start of each identity has to be to name at most one event. An event is compared
with the identities that begin as it does, as far as every answer reaches anyway. -/
def shortestUniquePrefixes (ids : List EventId) (minimum : Nat) : List Nat :=
  let floor := max minimum 1
  ids.map fun id =>
    ledger.state.events.foldl (fun length event =>
      let held := event.eventId.text
      if held.toList.take floor = id.text.toList.take floor && held ≠ id.text then
        max length (distinguishingLength id.text held)
      else length) (min floor id.text.toList.length)

end SessionLedger

end OnoSendai.Temporal
