/-
  MessageBroker.Error — why an operation was refused.

  One type for every refusal that a caller can see. `Error.message` is its wording;
  `Error.cause` is the input/output failure beneath it, if there is one.
-/

namespace MessageBroker

inductive IoKind where
  | notFound
  | isADirectory
  | alreadyExists
  | invalidData
  | writeZero
  | addressNotAvailable
  | networkUnreachable
  | invalidInput
  | notADirectory
  | other
  deriving DecidableEq, Repr

/-- An input/output failure: one that the operating system numbers, or one worded here. -/
inductive IoError where
  | system (code : Nat) (kind : IoKind) (text : String)
  | worded (kind : IoKind) (text : String)
  deriving DecidableEq, Repr

namespace IoError

def kind : IoError → IoKind
  | system _ kind _ => kind
  | worded kind _ => kind

def message : IoError → String
  | system code _ text => s!"{text} (os error {code})"
  | worded _ text => text

def noSuchFile : IoError := .system 2 .notFound "No such file or directory"

def fileIsDirectory : IoError := .system 21 .isADirectory "Is a directory"

def notUtf8 : IoError := .worded .invalidData "stream did not contain valid UTF-8"

def addressNotAvailable : IoError := .system 99 .addressNotAvailable "Cannot assign requested address"

def networkUnreachable : IoError := .system 101 .networkUnreachable "Network is unreachable"

def invalidArgument : IoError := .system 22 .invalidInput "Invalid argument"

def notADirectory : IoError := .system 20 .notADirectory "Not a directory"

def wroteNothing : IoError := .worded .writeZero "write returned 0"

end IoError

abbrev Tag := UInt64

inductive Error where
  /-- A configuration was not accepted. -/
  | invalidConfig (reason : String)
  /-- The operation is not allowed in the present stage of life. -/
  | invalidState (reason : String)
  | io (cause : IoError)
  /-- A frame announces more bytes than the limit. -/
  | frameTooLarge (len max : Nat)
  /-- The protocol engine refused a frame. -/
  | handler (reason : String)
  /-- The tag is outstanding already. -/
  | duplicateTag (tag : Tag)
  /-- The session has no credit left. -/
  | prefetchExhausted
  | sessionClosed
  deriving DecidableEq, Repr

namespace Error

def message : Error → String
  | invalidConfig reason => s!"Invalid configuration: {reason}"
  | invalidState reason => s!"Invalid state: {reason}"
  | io cause => s!"I/O error: {cause.message}"
  | frameTooLarge len max => s!"Frame too large: {len} bytes (max {max})"
  | handler reason => s!"Handler error: {reason}"
  | duplicateTag tag => s!"Delivery tag {tag} already outstanding"
  | prefetchExhausted => "Prefetch limit reached"
  | sessionClosed => "Session closed"

def cause : Error → Option IoError
  | io cause => some cause
  | _ => none

end Error

end MessageBroker
