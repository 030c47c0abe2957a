import LiveTimetable.Calendar.Services
import LiveTimetable.Network.Error
import LiveTimetable.Network.Pattern

/-!
# The graph that routing walks

Each pattern has a vertex for every position of its stop sequence and an edge for every hop
between neighbours. Scheduled patterns are linked once and stay. For a trip that a feed adds the
graph **synthesizes** a pattern, or lets the trip join the synthesized pattern that has its route
and its stops; a trip can leave such a pattern again, and the last one takes the pattern along.

Identifiers of patterns, vertices and edges, and the serial numbers of publications, count up and
are never given out twice. A change that is refused comes with the graph that it leaves.
-/

namespace LiveTimetable

/-- A hop of a pattern between two vertices. -/
structure Edge where
  pattern : PatternId
  source : Nat
  target : Nat
  deriving DecidableEq

/-- A synthesized pattern and its part of the graph. -/
structure Synthesized where
  pattern : Pattern
  edges : List Nat
  vertices : List Nat
  deriving DecidableEq

/-- What added trips of one pattern have in common. -/
structure Course where
  routeId : RouteId
  stops : List StopId
  deriving DecidableEq

namespace Course

instance : Ord Course := ⟨compareLex (compareOn Course.routeId) (compareOn Course.stops)⟩

instance : Std.TransOrd Course := inferInstanceAs (Std.TransCmp (compareLex _ _))

instance : Std.LawfulEqOrd Course where
  eq_of_compare {a b} h := by
    obtain ⟨hr, hs⟩ := Ordering.then_eq_eq.mp h
    cases a
    cases b
    simp only [compareOn] at hr hs
    cases Std.LawfulEqCmp.eq_of_compare hr
    cases Std.LawfulEqCmp.eq_of_compare hs
    rfl

end Course

/-- The vertices and edges of all patterns, the synthesized patterns and the services. -/
structure Graph where
  /-- The stop of each vertex. -/
  vertices : Table Nat StopId
  edges : Table Nat Edge
  synthesized : Table Course Synthesized
  services : Services
  /-- The number of the next synthesized pattern. -/
  nextPattern : Nat
  nextVertex : Nat
  nextEdge : Nat
  /-- The serial number of the next publication. -/
  nextSerial : Nat
  deriving DecidableEq

namespace Graph

/-- The empty graph over registered services; the numbers below `firstPattern` and the serials
below `firstSerial` are taken. -/
def ofServices (firstPattern firstSerial : Nat) (services : Services) : Graph :=
  ⟨Table.empty, Table.empty, Table.empty, services, firstPattern, 0, 0, firstSerial⟩

/-- The stop pairs of a pattern's hops, in the order of its edges. -/
def hops (g : Graph) (pattern : PatternId) : List (StopId × StopId) :=
  g.edges.values.filterMap fun e =>
    if e.pattern = pattern then
      match g.vertices.get? e.source, g.vertices.get? e.target with
      | some source, some target => some (source, target)
      | _, _ => none
    else none

/-! ## Linking -/

/-- Adds a vertex for each stop, and lists the vertices. -/
def addVertices : List StopId → Graph → List Nat × Graph
  | [], g => ([], g)
  | stop :: rest, g =>
    let id := g.nextVertex
    let (ids, g) := addVertices rest
      { g with vertices := g.vertices.insert id stop, nextVertex := id + 1 }
    (id :: ids, g)

/-- Adds an edge between every two neighbours in a list of vertices, and lists the edges. -/
def addEdges (pattern : PatternId) : List Nat → Graph → List Nat × Graph
  | source :: target :: rest, g =>
    let id := g.nextEdge
    let (ids, g) := addEdges pattern (target :: rest)
      { g with edges := g.edges.insert id ⟨pattern, source, target⟩, nextEdge := id + 1 }
    (id :: ids, g)
  | _, g => ([], g)

/-- Adds the vertices and edges of a pattern; lists the edges, then the vertices. -/
def link (g : Graph) (pattern : PatternId) (stops : List StopId) : List Nat × List Nat × Graph :=
  let (vertices, g) := addVertices stops g
  let (edges, g) := addEdges pattern vertices g
  (edges, vertices, g)

/-- Adds the part of a scheduled pattern. -/
def addScheduled (g : Graph) (p : Pattern) : Graph := (g.link p.id p.stops).2.2

/-! ## Synthesized patterns -/

/-- Publishes a trip outside the schedule. It joins the synthesized pattern of its route and
stops, or gets a new one. -/
def addTrip (g : Graph) (trip : Trip) (stopTimes : List StopTime) :
    Checked (Graph × Except GraphError Synthesized) := do
  match Baseline.publish g.nextSerial trip stopTimes with
  | .error e => return (g, .error (.schedule e))
  | .ok b =>
    let course : Course := ⟨trip.routeId, stopTimes.map StopTime.stopId⟩
    match g.synthesized.get? course with
    | some existing =>
      match ← (existing.pattern.withTrip b).run with
      | .error e => return (g, .error (.schedule e))
      | .ok pattern =>
        let joined := { existing with pattern }
        return ({ g with
          synthesized := g.synthesized.insert course joined
          nextSerial := g.nextSerial + 1 }, .ok joined)
    | none =>
      let id : PatternId := ⟨g.nextPattern⟩
      match ← (Pattern.publish id trip.routeId course.stops [b] true).run with
      | .error e => return (g, .error (.schedule e))
      | .ok pattern =>
        let nextPattern ← Checked.word32 (g.nextPattern + 1)
        let nextSerial := g.nextSerial + 1
        let (edges, vertices, g) := { g with nextPattern, nextSerial }.link id course.stops
        let made : Synthesized := ⟨pattern, edges, vertices⟩
        return ({ g with synthesized := g.synthesized.insert course made }, .ok made)

/-- The course under which a synthesized pattern of a number is kept, and what is kept. -/
def findSynthesized? (g : Graph) (pattern : PatternId) : Option (Course × Synthesized) :=
  g.synthesized.entries.find? fun e => e.2.pattern.id == pattern

/-- Takes a trip out of a synthesized pattern, which stays. -/
def removeTrip (g : Graph) (s : Synthesized) (trip : TripId) :
    Checked (Graph × Except GraphError Synthesized) := do
  match g.findSynthesized? s.pattern.id with
  | none => return (g, .error (.unknownPattern s.pattern.id))
  | some (course, existing) =>
    let shrunk := { existing with pattern := ← existing.pattern.withoutTrip trip }
    return ({ g with synthesized := g.synthesized.insert course shrunk }, .ok shrunk)

/-- Takes a synthesized pattern and its part of the graph out. -/
def detach (g : Graph) (s : Synthesized) : Graph × Except GraphError Unit :=
  match s.edges.find? fun e => !g.edges.contains e with
  | some edge => (g, .error (.unknownEdge edge))
  | none =>
    match s.vertices.find? fun v => !g.vertices.contains v with
    | some vertex => (g, .error (.unknownVertex vertex))
    | none =>
      ({ g with
        edges := s.edges.foldl Table.erase g.edges
        vertices := s.vertices.foldl Table.erase g.vertices
        synthesized := g.synthesized.filter fun _ kept => kept.pattern.id != s.pattern.id }, .ok ())

end Graph

end LiveTimetable
