import LiveTimetable.Feed.Codec
import LiveTimetable.Table

/-!
# Where batches of updates come from

A source hands out one batch of updates at a time. A **channel** hands out what was sent to it,
and tells when its sender is gone. A **replay** hands out the batches in the files of a directory,
in the order of their names; each file is tried once, whether or not it can be read.

Nothing waits: a channel hands out no batch where a patient one would, after a while, do the same.
-/

namespace LiveTimetable

/-- The updates of one message. -/
abbrev Batch := List TripUpdate

/-- Why there is no next batch. -/
inductive SourceError where
  | disconnected
  /-- A file cannot be read as text. -/
  | unreadable (file : String)
  /-- The text of a file is no batch. -/
  | malformed (file : String) (problem : DecodeError)
  deriving DecidableEq

/-- The wording of a source error that has one. -/
def SourceError.message? : SourceError → Option String
  | .disconnected => some "message source disconnected"
  | .unreadable _ => none
  | .malformed _ problem => problem.message?

/-- The files of a directory that are to be replayed, by name. -/
abbrev ReplayFiles := List (String × ByteArray)

/-- A source of batches. -/
inductive Source where
  /-- Batches that were sent, and whether more can come. -/
  | channel (queued : List Batch) (isOpen : Bool)
  | replay (files : ReplayFiles)

namespace Source

/-- A channel to which nothing was sent yet. -/
def openChannel : Source := channel [] true

/-- The channel after one more batch was sent. -/
def send (s : Source) (batch : Batch) : Source :=
  match s with
  | channel queued isOpen => channel (queued ++ [batch]) isOpen
  | replay files => replay files

/-- The channel after its sender went. -/
def hangUp : Source → Source
  | channel queued _ => channel queued false
  | replay files => replay files

/-- What follows the last dot of a file name, unless that dot is its first character. -/
def extension? (name : String) : Option String :=
  let cs := name.toList
  let ending := (cs.reverse.takeWhile (· != '.')).reverse
  if ending.length + 1 < cs.length then some (String.ofList ending) else none

/-- The replay of a directory: its files whose extension is `json`, in the order of their names.
An entry without content is no file. -/
def ofDirectory (entries : List (String × Option ByteArray)) : Source :=
  let files := entries.filterMap fun e => e.2.map fun content => (e.1, content)
  replay (Table.ofList (files.filter fun f => extension? f.1 == some "json")).entries

/-- The number of batches that wait. -/
def remaining : Source → Nat
  | channel queued _ => queued.length
  | replay files => files.length

/-- The batch in a file. -/
def batchOf (name : String) (content : ByteArray) : Except SourceError Batch :=
  match String.fromUTF8? content with
  | none => .error (.unreadable name)
  | some s => (Json.decode Decoder.batch s).mapError (.malformed name)

/-- The source after the next batch, and that batch; there is none if nothing waits. -/
def next : Source → Source × Except SourceError (Option Batch)
  | channel (batch :: queued) isOpen => (channel queued isOpen, .ok (some batch))
  | channel [] true => (channel [] true, .ok none)
  | channel [] false => (channel [] false, .error .disconnected)
  | replay [] => (replay [], .ok none)
  | replay ((name, content) :: files) => (replay files, (batchOf name content).map some)

end Source

end LiveTimetable
