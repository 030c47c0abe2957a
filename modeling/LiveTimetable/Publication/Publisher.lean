import LiveTimetable.Publication.Buffer

/-!
# Publishing snapshots

The publisher owns the buffer and holds the snapshot that readers see. It cuts a new snapshot only
if something changed, and then only if the last one is old enough; what is held back goes out
with a later snapshot. A forced call always cuts.

The clock is an argument: `now` is its reading, in milliseconds from any fixed start.
-/

namespace LiveTimetable

/-- The buffer, the published snapshot, and when the next one is due. -/
structure Publisher where
  buffer : Buffer
  published : Snapshot
  /-- The least age, in milliseconds, at which a snapshot may be replaced without force. -/
  minInterval : Nat
  /-- The clock reading at which the last snapshot was cut. -/
  lastCut : Option Nat
  deriving DecidableEq

namespace Publisher

/-- An empty buffer behind the snapshot of the start. -/
def start (minInterval : Nat) (recovery : Recovery) : Publisher :=
  ⟨Buffer.empty recovery, Snapshot.initial, minInterval, none⟩

/-- Whether a new snapshot may be cut without force. -/
def isDue (p : Publisher) (now : Nat) : Bool :=
  p.lastCut.all fun cut => decide (p.minInterval ≤ now - cut)

/-- Cuts a snapshot and publishes it. -/
def cut (p : Publisher) (now : Nat) : Checked Publisher := do
  let (buffer, published) ← p.buffer.commit
  return { p with buffer, published, lastCut := some now }

/-- Brings the published snapshot up to date, if that is forced or both due and needed. -/
def publish (p : Publisher) (now : Nat) (force : Bool) : Checked Publisher :=
  if force || (p.isDue now && p.buffer.isDirty) then p.cut now else .ok p

end Publisher

end LiveTimetable
