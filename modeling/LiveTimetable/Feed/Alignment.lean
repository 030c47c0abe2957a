import LiveTimetable.Checked
import LiveTimetable.Feed.TripUpdate

/-!
# Aligning patches with stops

The patches of an update describe one run of neighbouring stops. An update is **coherent** if all
its patches are its own and their positions go up by one. To align it with the stops of a trip is
to find the place where its stop ids match the stops one for one: the position named by the first
patch if they match there, else the only place where they match. Where a loop visits stops twice
there may be two such places, and then there is no alignment.
-/

namespace LiveTimetable.TripUpdate

/-- Whether each position is the one before plus one. -/
def positionsStep : List StopPatch → Checked Bool
  | p :: q :: rest => do
    let next ← Checked.word64 (p.position.toNat + 1)
    if next = q.position.toNat then positionsStep (q :: rest) else return false
  | _ => .ok true

/-- Whether all patches are the update's own and their positions go up by one. -/
def isCoherent (u : TripUpdate) : Checked Bool :=
  if u.patches.all u.owns then positionsStep u.patches else .ok false

/-- Whether the patches' stops are the stops from `start` on, one for one. -/
def matchesAt (u : TripUpdate) (stops : List StopId) (start : Nat) : Bool :=
  (stops.drop start).take u.patches.length == u.patches.map StopPatch.stopId

/-- The position in `stops` at which the first patch applies. -/
def startIn? (u : TripUpdate) (stops : List StopId) : Option Nat :=
  match u.patches with
  | [] => none
  | first :: _ =>
    if stops.length < u.patches.length then none
    else
      let lastStart := stops.length - u.patches.length
      let hint := first.position.toNat
      if hint ≤ lastStart ∧ u.matchesAt stops hint = true then some hint
      else
        match (List.range (lastStart + 1)).filter (u.matchesAt stops) with
        | [start] => some start
        | _ => none

end LiveTimetable.TripUpdate
