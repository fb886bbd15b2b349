import AuraChat.Lib.Reach
import AuraChat.Model.Store

set_option autoImplicit false

/-!
# The batch writer

`DBBatchWriter::loop`, `submit`, `mark_delivered` and the destructor as the steps of several threads
on one store. The loop makes three kinds of steps: the test of `running_`, the critical section under
`mtx_` in which it takes messages from the queue, and the write of its batch. The wait in front of
the critical section ends by a notification or after 500 ms, so the loop can always go on.

An exception of `save_messages_file` ends the process (see `Host.step`): the runs here are those of a
process that is alive.
-/

namespace AuraChat

open Interleave

/-- Where the loop is: at the test of `running_`, at the wait, past the critical section with its
batch in hand, or returned. -/
inductive LoopPc
  | test | wait | write | done
  deriving DecidableEq, Repr

/-- How far `~DBBatchWriter` has come: not called, entered, past `running_ = false`, or returned. -/
inductive Destructor
  | live | entered | stopped | returned
  deriving DecidableEq, Repr

structure Writer where
  db : Store
  pc : LoopPc := .test
  running : Bool := true
  destructor : Destructor := .live
  /-- The messages submitted so far, for the statements about runs; no step reads it. -/
  submitted : List DBChatMessage := []
  deriving DecidableEq, Repr

inductive WriterLabel
  /-- A thread submits a message. -/
  | submit (m : DBChatMessage)
  /-- A thread marks messages as delivered; in MySQL mode the statement may fail. -/
  | markDelivered (uid maxId : Int) (ok : Bool)
  /-- The loop tests `running_`. -/
  | test
  /-- The loop wakes up and takes messages from the queue. -/
  | take
  /-- The loop writes its batch; in MySQL mode with the results of `ensure_connected` and of the
  `INSERT`. -/
  | write (connected inserted : Bool)
  /-- The destructor is called, once all calls of `submit` have returned. -/
  | enter
  /-- `running_ = false` and the notification. -/
  | stop
  /-- The destructor has joined the thread. -/
  | join
  deriving DecidableEq, Repr

/-- One step of the batch writer. The counter of messages has an upper limit (`idLimit`). -/
def Writer.step : WriterLabel → Writer → Option Writer
  | .submit m, s =>
      if s.destructor = .live then
        some { s with db := s.db.submit m, submitted := s.submitted ++ [m] }
      else none
  | .markDelivered uid maxId ok, s =>
      if s.destructor = .live then
        some { s with db := if s.db.useFileStorage || ok then s.db.markDelivered uid maxId else s.db }
      else none
  | .test, s =>
      if s.pc = .test then some { s with pc := if s.running then .wait else .done } else none
  | .take, s => if s.pc = .wait then some { s with db := s.db.drain, pc := .write } else none
  | .write connected inserted, s =>
      if s.pc ≠ .write then none
      else if s.db.batch = [] then some { s with pc := .test }
      else if s.db.nextMsgId + s.db.batch.length ≤ s.db.idLimit then
        some { s with db := s.db.flush (connected && inserted), pc := .test }
      else none
  | .enter, s => if s.destructor = .live then some { s with destructor := .entered } else none
  | .stop, s =>
      if s.destructor = .entered then some { s with destructor := .stopped, running := false } else none
  | .join, s =>
      if s.destructor = .stopped ∧ s.pc = .done then some { s with destructor := .returned } else none

/-- The states that a run of the writer reaches, from a start on the store `db`, when every step meets
the condition `C`. -/
abbrev WriterRunTo (db : Store) (C : WriterLabel → Writer → Prop) (s : Writer) : Prop :=
  Reach Writer.step C { db := db } s

end AuraChat
