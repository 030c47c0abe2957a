import LiveTimetable.Network.Graph

/-!
# Finding patterns, stops and agencies

The index finds the pattern of a trip, and the stops and agencies of the schedule by their
identifiers. A trip belongs to one pattern; to register a pattern claims all its trips for it.
-/

namespace LiveTimetable

/-- The registry of the schedule. -/
structure TransitIndex where
  agencies : Table String Agency
  stops : Table StopId Stop
  patterns : Table PatternId Pattern
  /-- The pattern of each trip. -/
  patternOf : Table TripId PatternId
  deriving DecidableEq

namespace TransitIndex

/-- Nothing registered. -/
def empty : TransitIndex := ⟨Table.empty, Table.empty, Table.empty, Table.empty⟩

/-- Registers an agency, over one with its identifier. -/
def addAgency (x : TransitIndex) (a : Agency) : TransitIndex :=
  { x with agencies := x.agencies.insert a.id a }

/-- Registers a stop, over one with its identifier. -/
def addStop (x : TransitIndex) (s : Stop) : TransitIndex :=
  { x with stops := x.stops.insert s.id s }

/-- Registers a pattern and claims its trips for it. -/
def register (x : TransitIndex) (p : Pattern) : TransitIndex :=
  { x with
    patternOf := p.trips.foldl (fun t trip => t.insert trip p.id) x.patternOf
    patterns := x.patterns.insert p.id p }

/-- Registers a pattern whose number is new. -/
def addPattern (x : TransitIndex) (p : Pattern) : Except GraphError TransitIndex :=
  if x.patterns.contains p.id then .error (.duplicatePattern p.id) else .ok (x.register p)

/-- Takes out a pattern and releases its trips. -/
def removePattern (x : TransitIndex) (pattern : PatternId) : TransitIndex :=
  { x with
    patterns := x.patterns.erase pattern
    patternOf := x.patternOf.filter fun _ p => p != pattern }

/-- The pattern of a trip. -/
def patternForTrip? (x : TransitIndex) (trip : TripId) : Option Pattern :=
  (x.patternOf.get? trip).bind x.patterns.get?

/-- One more than every number in use; each of these numbers must have a successor. -/
def nextPatternId (x : TransitIndex) : Checked PatternId := do
  let successors ← x.patterns.keys.mapM fun p => Checked.word32 (p.number + 1)
  return ⟨successors.foldl max 0⟩

end TransitIndex

end LiveTimetable
