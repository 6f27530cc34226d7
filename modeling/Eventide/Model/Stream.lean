import Eventide.Model.StoreCalls

/-! # The event stream of a run

The generator of `GET /api/runs/{run_id}/events` runs from one suspension point to the next
without interruption: `resume` is such a stretch. Other tasks append to the log only while the
generator is suspended. -/

namespace Eventide

/-- What the preview store holds for a run, as far as the generator compares it. -/
structure Preview where
  revision : ℕ

/-- What the generator yields. -/
inductive Sent where
  | event (event : Event)
  | preview (preview : Preview)
  | cleared
  | keepalive

/-- Where the generator is suspended. -/
inductive StreamPoint where
  /-- `await request.is_disconnected()` -/
  | connection
  /-- The yield of an event, with the rest of the batch and the whole batch. -/
  | event (rest read : List Event)
  /-- The yield of a preview after the batch. -/
  | preview (read : List Event)
  | keepalive
  | sleep
  /-- Left the loop by `break`. -/
  | finished
  /-- Left the loop because the client is gone. -/
  | disconnected

structure RunStream where
  runId : String
  includePreview : Bool
  cursor : ℕ
  idleTicks : ℕ := 0
  previewRevision : ℕ := 0
  previewActive : Bool := false
  point : StreamPoint := .connection

/-- `get_events(run_id, after)`. The log holds the events of a run in the order of their
numbers. -/
def RuntimeStore.getEvents (s : RuntimeStore) (runId : String) (after : ℕ) : List Event :=
  (s.runEvents runId).filter (after < ·.sessionSeq)

namespace RunStream

/-- `stream()`, before its first step. -/
def start (runId : String) (includePreview : Bool) (after : ℤ) : RunStream :=
  { runId, includePreview, cursor := (max after 0).toNat }

/-- The terminal check, and the end of the round. -/
def checkTerminal (st : RunStream) (s : RuntimeStore) (read : List Event) :
    RunStream × List Sent :=
  if s.runIsTerminal st.runId ∧ read = [] then ({ st with point := .finished }, [])
  else if read = [] then
    let idleTicks := st.idleTicks + 1
    if idleTicks % 20 = 0 then ({ st with idleTicks, point := .keepalive }, [.keepalive])
    else ({ st with idleTicks, point := .sleep }, [])
  else ({ st with idleTicks := 0, point := .sleep }, [])

/-- `if include_preview:` -/
def offerPreview (st : RunStream) (s : RuntimeStore) (preview : Option Preview)
    (read : List Event) : RunStream × List Sent :=
  if st.includePreview then
    match preview with
    | some p =>
      if p.revision ≠ st.previewRevision then
        ({ st with previewRevision := p.revision, previewActive := true, point := .preview read },
          [.preview p])
      else st.checkTerminal s read
    | none =>
      if st.previewActive then
        ({ st with previewActive := false, point := .preview read }, [.cleared])
      else st.checkTerminal s read
  else st.checkTerminal s read

/-- `for event in events:` -/
def sendEvents (st : RunStream) (s : RuntimeStore) (preview : Option Preview)
    (rest read : List Event) : RunStream × List Sent :=
  match rest with
  | [] => st.offerPreview s preview read
  | e :: rest => ({ st with cursor := e.sessionSeq, point := .event rest read }, [.event e])

/-- The stretch of code up to the next suspension, which finds this store and this preview. -/
def resume (st : RunStream) (s : RuntimeStore) (disconnected : Bool) (preview : Option Preview) :
    RunStream × List Sent :=
  match st.point with
  | .connection =>
    if disconnected then ({ st with point := .disconnected }, [])
    else
      let read := s.getEvents st.runId st.cursor
      st.sendEvents s preview read read
  | .event rest read => st.sendEvents s preview rest read
  | .preview read => st.checkTerminal s read
  | .keepalive => ({ st with point := .sleep }, [])
  | .sleep => ({ st with point := .connection }, [])
  | .finished | .disconnected => (st, [])

end RunStream

/-- The ids that reach the client. -/
def sentIds (sent : List Sent) : List ℕ :=
  sent.filterMap fun
    | .event e => some e.sessionSeq
    | _ => none

end Eventide
