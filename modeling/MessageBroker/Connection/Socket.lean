/-
  MessageBroker.Connection.Socket — reading and writing without waiting.

  What a socket answers to the reads and writes of one unit of work is a script; after
  its last answer the socket would have to wait. So everything that a socket can do
  during a unit that ends is some script.
  - `readInput` reads until the socket would have to wait, the input has ended, or the
    unit has read as much as it may.
  - `writeOutput` writes until nothing is left to write or the socket would have to wait.
-/

import MessageBroker.Error
import MessageBroker.Wire.Decoder
import MessageBroker.Wire.Outbox

namespace MessageBroker.Connection

open Wire

inductive Arrival where
  /-- These bytes have arrived, and as many reads as it takes get them; no bytes at all
      mean that the peer sends no more. -/
  | bytes (data : Bytes)
  | blocked
  | interrupted
  | failed (e : IoError)
  deriving DecidableEq, Repr

inductive Acceptance where
  /-- As many bytes are taken, or all there are. -/
  | bytes (count : Nat)
  | blocked
  | interrupted
  | failed (e : IoError)
  deriving DecidableEq, Repr

structure Socket where
  arrivals : List Arrival := []
  acceptances : List Acceptance := []
  deriving DecidableEq, Repr

def readSize : Nat := 8 * 1024

inductive ReadEnd where
  | blocked
  /-- It has read as much as it may. -/
  | budgetSpent
  | inputEnded
  | failed (e : IoError)
  deriving DecidableEq, Repr

structure Reading where
  /-- Has been fed what was read. -/
  decoder : Decoder
  /-- Bytes read. -/
  count : Nat := 0
  ending : ReadEnd
  /-- Answers that were not asked for. -/
  rest : List Arrival

/-- Bytes and answers of a script: what reading it can use up. -/
def weight : List Arrival → Nat
  | [] => 0
  | .bytes data :: rest => data.length + 1 + weight rest
  | _ :: rest => 1 + weight rest

/-- Read into `decoder`, at most `left` bytes. -/
def readInput (decoder : Decoder) (left : Nat) (arrivals : List Arrival) : Reading :=
  if _ : left = 0 then { decoder, ending := .budgetSpent, rest := arrivals }
  else
    match arrivals with
    | [] => { decoder, ending := .blocked, rest := [] }
    | .blocked :: rest => { decoder, ending := .blocked, rest }
    | .interrupted :: rest => readInput decoder left rest
    | .failed e :: rest => { decoder, ending := .failed e, rest }
    | .bytes [] :: rest => { decoder, ending := .inputEnded, rest }
    | .bytes (b :: more) :: rest =>
      let asked := min readSize left
      let taken := (b :: more).take asked
      let unread := (b :: more).drop asked
      let reading := readInput (decoder.feed taken) (left - taken.length)
        (if unread = [] then rest else .bytes unread :: rest)
      { reading with count := reading.count + taken.length }
termination_by weight arrivals
decreasing_by
  · simp [weight]
  · have hasked : 0 < min readSize left := by simp only [readSize]; omega
    split
    · simp only [weight]
      omega
    · simp only [weight, List.length_drop, List.length_cons]
      omega

structure Writing where
  /-- What is left to write. -/
  outbox : Outbox
  written : Bytes := []
  result : Except IoError Unit
  /-- Answers that were not asked for. -/
  rest : List Acceptance

def writeOutput (outbox : Outbox) (acceptances : List Acceptance) : Writing :=
  if outbox.isEmpty then { outbox, result := .ok (), rest := acceptances }
  else
    match acceptances with
    | [] => { outbox, result := .ok (), rest := [] }
    | .blocked :: rest => { outbox, result := .ok (), rest }
    | .interrupted :: rest => writeOutput outbox rest
    | .failed e :: rest => { outbox, result := .error e, rest }
    | .bytes 0 :: rest => { outbox, result := .error .wroteNothing, rest }
    | .bytes (n + 1) :: rest =>
      let taken := outbox.unwritten.take (n + 1)
      let writing := writeOutput (outbox.advance taken.length) rest
      { writing with written := taken ++ writing.written }

end MessageBroker.Connection
