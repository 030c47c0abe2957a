import LiveTimetable.Calendar.KnownZones
import LiveTimetable.Report.State
import LiveTimetable.Ticker
import LiveTimetable.Times.Listing
import LiveTimetable.Proofs.Calendar.Instants
import LiveTimetable.Proofs.Feed.Alignments
import LiveTimetable.Proofs.Feed.Clearing
import LiveTimetable.Proofs.Feed.RoundTrip
import LiveTimetable.Proofs.Feed.Spellings
import LiveTimetable.Proofs.Publication.Syncing
import LiveTimetable.Proofs.Publication.Throttling
import LiveTimetable.Proofs.Live.AddedPatterns
import LiveTimetable.Proofs.Live.Admission
import LiveTimetable.Proofs.Live.Commuting
import LiveTimetable.Proofs.Live.Failures
import LiveTimetable.Proofs.Live.Faults
import LiveTimetable.Proofs.Live.Ledger
import LiveTimetable.Proofs.Live.Monotonicity
import LiveTimetable.Proofs.Live.Refusal
import LiveTimetable.Proofs.Live.Replay
import LiveTimetable.Proofs.Live.ServiceDates
import LiveTimetable.Proofs.Live.Tracking
import LiveTimetable.Proofs.Network.Accounting
import LiveTimetable.Proofs.Network.Scheduling
import LiveTimetable.Proofs.Times.Journeys
import LiveTimetable.Proofs.Times.Redelivery
import LiveTimetable.Proofs.Times.Smallest
