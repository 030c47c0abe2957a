import LiveTimetable.Feed.TripUpdate
import LiveTimetable.Times.Basic

/-!
# Laying a block of patches over the times of a trip

`TripTimes.cover` lays the patches of an update over the current times. A patch that closes its
stop becomes a marker, one with times gives these times, and any other gives the published ones;
an open stop has its published access. What the new block covers altogether is taken out from
under it (`TripTimes.uncover`), and then the block is made as small as it can be
(`Block.compact`) without a change to what is read through it: stops at its end that agree with
what lies under it are cut off (`trim`), and arrivals and access are dropped where reading on gives
the same (`dropArrivals`, `dropAccess`). Each of these steps is handed the flag `changed` of the
steps before it, and sets it when it drops something.
-/

namespace LiveTimetable

namespace Block

/-- The access at a position of the block over `under`. -/
def accessAt (b : Block) (under : TripTimes) (slot : Nat) : Checked Access :=
  match b.access with
  | some access => Checked.nth access slot
  | none => under.access (b.offset + slot)

/-- Whether a position of the block says what `under` says. -/
def agreesAt (b : Block) (under : TripTimes) (slot : Nat) : Checked Bool := do
  let stop := b.offset + slot
  if (← b.arrivalAt slot) = (← under.arrival stop) then
    if (← b.departureAt slot) = (← under.departure stop) then
      return decide ((← b.accessAt under slot) = (← under.access stop))
    else return false
  else return false

/-- The first `span` stops of the block. -/
def take (b : Block) (span : Nat) : Block :=
  { b with
    departures := b.departures.take span
    arrivals := b.arrivals.map (List.take span)
    access := b.access.map (List.take span) }

/-- Cuts stops that agree with `under` off the end of a block of the given span. -/
def trim (under : TripTimes) : (span : Nat) → Block → (changed : Bool) → Checked (Block × Bool)
  | 0, b, changed => .ok (b, changed)
  | span + 1, b, changed => do
    if ← b.agreesAt under span then trim under span (b.take span) true else return (b, changed)

/-- Whether each access in the list, from a stop on, is that of `under`. -/
def accessAgrees (under : TripTimes) : (stop : Nat) → List Access → Checked Bool
  | _, [] => .ok true
  | stop, a :: rest => do
    if a = (← under.access stop) then accessAgrees under (stop + 1) rest else return false

/-- The block without its arrivals, if they are the departures. -/
def dropArrivals (b : Block) (changed : Bool) : Block × Bool :=
  if b.arrivals = some b.departures then ({ b with arrivals := none }, true) else (b, changed)

/-- The block without its access, if it is that of `under`. -/
def dropAccess (b : Block) (under : TripTimes) (changed : Bool) : Checked (Block × Bool) :=
  match b.access with
  | none => .ok (b, changed)
  | some access => do
    if ← accessAgrees under b.offset access then return ({ b with access := none }, true)
    else return (b, changed)

/-- The smallest block that reads the same over `under`, and whether anything was dropped. -/
def compact (b : Block) (under : TripTimes) : Checked (Block × Bool) := do
  let (trimmed, changed) ← trim under b.span b false
  let (single, changed) := trimmed.dropArrivals changed
  single.dropAccess under changed

/-- What a patch makes of the call at a stop. -/
def callOf (published : Baseline) (stop : Nat) (p : StopPatch) : Checked Call :=
  match p.status with
  | .passed => .ok ⟨ServiceTime.passed, ServiceTime.passed, Access.closed⟩
  | .canceled => .ok ⟨ServiceTime.skipped, ServiceTime.skipped, Access.closed⟩
  | _ => do
    let call ← published.call stop
    match if p.status.hasTimes then p.arrival <|> p.departure else none with
    | some arrival => return { call with arrival, departure := p.departure.getD arrival }
    | none => return call

/-- What the patches make of the calls from a stop on. -/
def callsOf (published : Baseline) : (stop : Nat) → List StopPatch → Checked (List Call)
  | _, [] => .ok []
  | stop, p :: rest => do
    let call ← callOf published stop p
    return call :: (← callsOf published (stop + 1) rest)

end Block

namespace TripTimes

/-- The times without the outer blocks that lie within the stops from `start` up to `stop`. -/
def uncover (start stop : Nat) : TripTimes → TripTimes
  | updated b under =>
    if start ≤ b.offset ∧ b.stop ≤ stop then under.uncover start stop else updated b under
  | t => t

/-- The block that the patches of an update make from stop `offset` on, before it is compacted,
and what it lies over. -/
def lay (t : TripTimes) (u : TripUpdate) (offset : Nat) : Checked (Block × TripTimes) := do
  let stop ← Checked.word64 (offset + u.patches.length)
  if t.stopCount < stop then throw .assertion
  else
    let calls ← Block.callsOf t.baseline offset u.patches
    let block : Block := {
      offset
      arrivals := some (calls.map Call.arrival)
      departures := calls.map Call.departure
      access := some (calls.map Call.access)
      wheelchair := u.wheelchair.getD t.isWheelchair }
    return (block, t.uncover offset stop)

/-- The compacted block of an update from stop `offset` on, and what it lies over. The patches
must fit into the trip. -/
def cover (t : TripTimes) (u : TripUpdate) (offset : Nat) : Checked (Block × TripTimes) := do
  let (block, under) ← t.lay u offset
  let (smaller, _) ← block.compact under
  return (smaller, under)

/-- The times with the outer block compacted once more, and whether anything was dropped. -/
def recompact : TripTimes → Checked (TripTimes × Bool)
  | updated b under => do
    let (smaller, changed) ← b.compact under
    return (updated smaller under, changed)
  | t => .ok (t, false)

end TripTimes

end LiveTimetable
