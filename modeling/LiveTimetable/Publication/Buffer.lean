import LiveTimetable.Network.Pattern

/-!
# The buffer of realtime timetables

The writer keeps a realtime timetable for every pattern and date that realtime has changed, and
knows what changed since it last cut a snapshot. A snapshot holds the timetables as they were at
one commit; snapshots are numbered by their **generation**, the empty one of the start being 0.

A timetable that is not written to between two commits is one and the same in both snapshots. To
tell, each entry bears the generation after which it was last written to (`Held.writtenAfter`).

* `Buffer.update` reconciles an update, `sync` follows a new revision of a pattern, and
  `removePattern` and `dropBefore` take timetables out.
* `Buffer.commit` finishes what changed and cuts a snapshot.
-/

namespace LiveTimetable

/-- A realtime timetable, and the generation after which it was last written to. -/
structure Held where
  timetable : Timetable
  writtenAfter : Nat
  deriving DecidableEq

/-- Realtime timetables as of one commit. -/
structure Snapshot where
  timetables : Table PatternDate Held
  generation : Nat
  deriving DecidableEq

namespace Snapshot

/-- The snapshot of the start. -/
def initial : Snapshot := ⟨Table.empty, 0⟩

/-- The realtime timetable of a pattern on a date. -/
def get? (s : Snapshot) (pattern : PatternId) (date : ServiceDate) : Option Timetable :=
  (s.timetables.get? ⟨pattern, date⟩).map Held.timetable

/-- The timetable by which a pattern runs on a date. -/
def resolve (s : Snapshot) (p : Pattern) (date : ServiceDate) : Timetable :=
  (s.get? p.id date).getD p.timetable

/-- Whether two snapshots were cut by one and the same commit. -/
def isSame (s t : Snapshot) : Bool := s.generation == t.generation

/-- Whether two snapshots hold one and the same timetable for a pattern on a date, if both hold
one at all. -/
def shares? (s t : Snapshot) (pattern : PatternId) (date : ServiceDate) : Option Bool :=
  match s.timetables.get? ⟨pattern, date⟩, t.timetables.get? ⟨pattern, date⟩ with
  | some a, some b => some (a.writtenAfter == b.writtenAfter)
  | _, _ => none

end Snapshot

/-- The writer's realtime timetables. -/
structure Buffer where
  timetables : Table PatternDate Held
  /-- What was written to since the last commit. -/
  dirty : KeySet PatternDate
  /-- Whether a timetable was taken out since the last commit. -/
  removed : Bool
  /-- The generation of the last commit. -/
  generation : Nat
  recovery : Recovery
  deriving DecidableEq

namespace Buffer

/-- A buffer without timetables. -/
def empty (recovery : Recovery) : Buffer := ⟨Table.empty, Table.empty, false, 0, recovery⟩

/-- The number of realtime timetables. -/
def size (b : Buffer) : Nat := b.timetables.size

/-- Whether a commit would show anything new. -/
def isDirty (b : Buffer) : Bool := b.removed || !b.dirty.isEmpty

/-- The realtime timetable of a pattern on a date. -/
def get? (b : Buffer) (pattern : PatternId) (date : ServiceDate) : Option Timetable :=
  (b.timetables.get? ⟨pattern, date⟩).map Held.timetable

/-- The timetable by which a pattern runs on a date, as of the last write. -/
def resolve (b : Buffer) (p : Pattern) (date : ServiceDate) : Timetable :=
  (b.get? p.id date).getD p.timetable

/-- Writes a timetable without marking it. -/
def put (b : Buffer) (key : PatternDate) (t : Timetable) : Buffer :=
  { b with timetables := b.timetables.insert key ⟨t, b.generation⟩ }

/-- Writes a timetable and marks it as written to. -/
def write (b : Buffer) (key : PatternDate) (t : Timetable) : Buffer :=
  { b.put key t with dirty := b.dirty.insert key () }

/-! ## Updates -/

/-- Reconciles an update with its trip in a pattern. A date without a realtime timetable gets the
copy of the pattern's own. -/
def update (b : Buffer) (p : Pattern) (u : TripUpdate) : Attempt ReconcileError Buffer := do
  let key : PatternDate := ⟨p.id, u.date⟩
  let t := (b.get? p.id u.date).getD (p.timetable.forDate u.date)
  let (i, times) ← t.reconcile u b.recovery
  return b.write key (t.setTimes i times)

/-! ## Following a pattern -/

/-- A timetable on the way to following its pattern. -/
structure Following where
  timetable : Timetable
  /-- Whether a trip was dropped, added or reset. -/
  changed : Bool
  /-- Why a trip was not taken up. -/
  refusal : Option ScheduleError
  deriving DecidableEq

/-- Whether a timetable has a trip in this very publication. -/
def publishes (t : Timetable) (b : Baseline) : Bool :=
  (t.published? b.trip.id).any fun held => held.serial == b.serial

/-- Takes up each trip that the timetable does not have in this publication, up to a refusal. -/
def takeUp : List Baseline → Following → Following
  | [], f => f
  | b :: rest, f =>
    if publishes f.timetable b then takeUp rest f
    else
      match f.timetable.insert b with
      | .ok t => takeUp rest { f with timetable := t, changed := true }
      | .error e => { f with refusal := some e }

/-- A timetable brought in line with its pattern: without the trips that the pattern lost, and
with those it gained or published anew. -/
def follow (p : Pattern) (t : Timetable) : Following :=
  let gone := t.trips.filter fun trip => (p.published? trip).isNone
  takeUp (p.timetable.rows.map Row.published)
    ⟨gone.foldl Timetable.remove t, !gone.isEmpty, none⟩

/-- Brings one timetable in line with its pattern. Answers whether it changed. A refusal leaves a
copy behind that is not marked as written to. -/
def syncOne (b : Buffer) (p : Pattern) (key : PatternDate) (t : Timetable) :
    Buffer × Except ScheduleError Bool :=
  let f := follow p t
  let b := if f.changed then b.write key f.timetable else b
  match f.refusal with
  | some e => (b.put key f.timetable, .error e)
  | none => (b, .ok f.changed)

/-- Brings the listed timetables in line with a pattern, up to the first refusal. -/
def syncAll (p : Pattern) :
    List (PatternDate × Held) → Buffer → Buffer × Except ScheduleError Bool
  | [], b => (b, .ok false)
  | (key, held) :: rest, b =>
    match b.syncOne p key held.timetable with
    | (b, .error e) => (b, .error e)
    | (b, .ok changed) =>
      let (b, result) := syncAll p rest b
      (b, result.map (changed || ·))

/-- Brings the realtime timetables of a pattern in line with it. Answers whether any changed. -/
def sync (b : Buffer) (p : Pattern) : Buffer × Except ScheduleError Bool :=
  syncAll p (b.timetables.entries.filter fun e => e.1.pattern == p.id) b

/-! ## Taking out -/

/-- Keeps the timetables whose key satisfies `keep`. -/
def retain (b : Buffer) (keep : PatternDate → Bool) : Buffer :=
  { b with
    timetables := b.timetables.filter fun key _ => keep key
    dirty := b.dirty.filter fun key _ => keep key
    removed := b.removed || b.timetables.keys.any fun key => !keep key }

/-- Whether there is a timetable of a pattern. -/
def holdsPattern (b : Buffer) (pattern : PatternId) : Bool :=
  b.timetables.keys.any fun key => key.pattern == pattern

/-- Takes out the timetables of a pattern. -/
def removePattern (b : Buffer) (pattern : PatternId) : Buffer :=
  b.retain fun key => key.pattern != pattern

/-- Whether there is a timetable for a date before `date`. -/
def holdsBefore (b : Buffer) (date : ServiceDate) : Bool :=
  b.timetables.keys.any fun key => decide (key.date < date)

/-- Takes out the timetables for dates before `date`. -/
def dropBefore (b : Buffer) (date : ServiceDate) : Buffer :=
  b.retain fun key => !decide (key.date < date)

/-! ## Snapshots -/

/-- Finishes the timetables of the listed keys. -/
def finishAll : List PatternDate → Table PatternDate Held → Checked (Table PatternDate Held)
  | [], timetables => .ok timetables
  | key :: rest, timetables =>
    match timetables.get? key with
    | none => finishAll rest timetables
    | some held => do
      let timetable ← held.timetable.finish
      finishAll rest (timetables.insert key { held with timetable })

/-- Finishes what changed and cuts the next snapshot. -/
def commit (b : Buffer) : Checked (Buffer × Snapshot) := do
  let timetables ← finishAll b.dirty.keys b.timetables
  let generation := b.generation + 1
  return ({ b with timetables, generation, dirty := Table.empty, removed := false },
    ⟨timetables, generation⟩)

end Buffer

end LiveTimetable
