import LiveTimetable.Feed.TripUpdate

/-!
# Clearing a patch list

Three cleanups, each optional, in this order: patches for another trip or date go; of neighbours
for one position the last one stays (`lastOfRuns`); and patches at the end that carry no
information go (`dropTrailing`).
-/

namespace LiveTimetable

/-- Which cleanups apply. -/
structure FilterOptions where
  dropForeign : Bool
  collapseRepeats : Bool
  dropTrailingUnknown : Bool
  deriving DecidableEq

/-- All cleanups. -/
def FilterOptions.all : FilterOptions := ⟨true, true, true⟩

/-- Of each run of neighbours with one position, the last. -/
def lastOfRuns : List StopPatch → List StopPatch
  | [] => []
  | [p] => [p]
  | p :: q :: rest =>
    if p.position = q.position then lastOfRuns (q :: rest) else p :: lastOfRuns (q :: rest)

/-- The list without its longest end on which `p` holds throughout. -/
def dropTrailing {α : Type} (p : α → Bool) (xs : List α) : List α :=
  (xs.reverse.dropWhile p).reverse

/-- The update with its patch list cleared. -/
def TripUpdate.filter (u : TripUpdate) (o : FilterOptions) : TripUpdate :=
  let own := if o.dropForeign then u.patches.filter u.owns else u.patches
  let distinct := if o.collapseRepeats then lastOfRuns own else own
  let known :=
    if o.dropTrailingUnknown then dropTrailing (fun p => p.status == .unknown) distinct
    else distinct
  { u with patches := known }

/-- How many patches the cleanups take away. -/
def TripUpdate.dropped (u : TripUpdate) (o : FilterOptions) : Nat :=
  u.patches.length - (u.filter o).patches.length

end LiveTimetable
