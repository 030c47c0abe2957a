import LiveTimetable.Live.Source
import LiveTimetable.Proofs.Feed.Texts
import LiveTimetable.Proofs.Json.Trees

/-!
# Updates are read back from their JSON text

Writing an update and decoding the text gives the update back, whatever its status, its patches,
its numbers and its optional values are. Only the texts of identifiers and dates put a condition
on it (`TripUpdate.IsTextual`).

The text is first turned into the tree that was written (`Json.decode_write`). From there every
writer of a value has its decoder: the lemmas below go through them pair by pair, and a record
adds that its names are known, are all different and carry values that their tests take.
-/

namespace LiveTimetable

/-! ## Updates with a text -/

/-- The identifiers and the date of the patch have texts of their own. -/
structure StopPatch.IsTextual (p : StopPatch) : Prop where
  tripId : p.tripId.IsTextual
  stopId : p.stopId.IsTextual
  date : p.date.IsTextual

/-- The identifiers and the dates of the update and of its patches have texts of their own. -/
structure TripUpdate.IsTextual (u : TripUpdate) : Prop where
  tripId : u.tripId.IsTextual
  date : u.date.IsTextual
  patches : ∀ p ∈ u.patches, p.IsTextual
  routeId : ∀ f ∈ u.routeId, f.IsTextual
  serviceId : ∀ f ∈ u.serviceId, f.IsTextual

/-! ## Records -/

namespace Fields

/-- A form takes a member if it has the name, and the value passes its test. -/
def Takes (form : RecordForm) (m : String × Json) : Prop :=
  ∃ test, form.find? (fun f => f.1 == m.1) = some (m.1, test) ∧ test m.2 = .ok ()

/-- The walk over members with different names, all of which the form takes, meets no problem. -/
theorem walk_eq_ok {form : RecordForm} {seen : List String} {ms : List (String × Json)}
    (fresh : ∀ m ∈ ms, m.1 ∉ seen) (nodup : (ms.map Prod.fst).Nodup)
    (takes : ∀ m ∈ ms, Takes form m) :
    walk form seen (ms.map fun m => (some m.1, m.2)) = .ok () := by
  induction ms generalizing seen with
  | nil => rfl
  | cons m ms ih =>
    rw [List.forall_mem_cons] at fresh takes
    rw [List.map_cons, List.nodup_cons] at nodup
    obtain ⟨⟨test, known, passed⟩, takes⟩ := takes
    have unseen : seen.contains m.1 = false := by simpa using fresh.1
    have others : ∀ n ∈ ms, n.1 ∉ m.1 :: seen := by
      intro n hn
      rw [List.mem_cons, not_or]
      exact ⟨fun same => nodup.1 (same ▸ List.mem_map_of_mem hn), fresh.2 n hn⟩
    rw [List.map_cons, walk, known]
    simp only [unseen, Bool.false_eq_true, if_false, passed]
    exact ih others nodup.2 takes

theorem required_eq_ok {α : Type} {fs : Fields} {name : String} {dec : Decoder α} {j : Json}
    {a : α} (found : fs.find? name = some j) (h : dec j = .ok a) :
    fs.required name dec = .ok a := by
  rw [required, found]
  exact h

theorem withDefault_eq_ok {α : Type} {fs : Fields} {name : String} {dec : Decoder α} {j : Json}
    {a default : α} (found : fs.find? name = some j) (h : dec j = .ok a) :
    fs.withDefault name dec default = .ok a := by
  rw [withDefault, found]
  exact h

end Fields

/-- A written record has the fields that it was written from. -/
theorem Json.fields_record {form : RecordForm} {ms : List (String × Json)}
    (names : ms.map Prod.fst = form.map Prod.fst) (distinct : (form.map Prod.fst).Nodup)
    (takes : ∀ m ∈ ms, Fields.Takes form m) :
    (Json.record ms).fields form = .ok ⟨ms.map fun m => (some m.1, m.2)⟩ := by
  have walked := Fields.walk_eq_ok (fun _ _ => List.not_mem_nil) (names ▸ distinct) takes
  simp only [record, fields, walked]
  rfl

namespace Decoder

/-! ## Values -/

/-- A step that has been seen to succeed, and the rest behind it. -/
theorem then_ok {α β : Type} {x : Except DecodeError α} {f : α → Except DecodeError β} {a : α}
    {b : β} (first : x = .ok a) (rest : f a = .ok b) : (x >>= f) = .ok b := by
  rw [first]
  exact rest

theorem check_eq_ok {α : Type} {dec : Decoder α} {j : Json} {a : α} (h : dec j = .ok a) :
    check dec j = .ok () := by
  rw [check, h]
  rfl

theorem feedId_ofFeedId {f : FeedId} (h : f.IsTextual) : feedId (Json.ofFeedId f) = .ok f := by
  have written : string (Json.ofFeedId f) = .ok f.text := rfl
  refine then_ok written ?_
  rw [FeedId.parse_text h]
  rfl

theorem serviceDate_ofDate {d : ServiceDate} (h : d.IsTextual) :
    serviceDate (Json.ofDate d) = .ok d := by
  have written : string (Json.ofDate d) = .ok d.text := rfl
  refine then_ok written ?_
  rw [ServiceDate.parse_text h]
  rfl

theorem int32_toInt (n : Int32) : int32 (.int n.toInt) = .ok n := by
  have range : -2147483648 ≤ n.toInt ∧ n.toInt ≤ 2147483647 :=
    ⟨n.le_toInt, Int.le_of_lt_add_one n.toInt_lt⟩
  rw [int32, intIn, if_pos range, Except.map, Int32.ofInt_toInt]

theorem int64_toInt (n : Int64) : int64 (.int n.toInt) = .ok n := by
  have range : -9223372036854775808 ≤ n.toInt ∧ n.toInt ≤ 9223372036854775807 :=
    ⟨n.le_toInt, Int.le_of_lt_add_one n.toInt_lt⟩
  rw [int64, intIn, if_pos range, Except.map, Int64.ofInt_toInt]

theorem uint64_toNat (n : UInt64) : uint64 (.int n.toNat) = .ok n := by
  have range : (0 : Int) ≤ n.toNat ∧ (n.toNat : Int) ≤ 18446744073709551615 := by
    have := n.toNat_lt
    omega
  rw [uint64, intIn, if_pos range, Except.map, Int.toNat_natCast, UInt64.ofNat_toNat]

theorem stopStatus_name (s : StopStatus) : stopStatus (Json.text s.name) = .ok s := by
  cases s <;> rfl

theorem tripStatus_name (s : TripStatus) : tripStatus (Json.text s.name) = .ok s := by
  cases s <;> rfl

/-- A value that may be absent is read back if it is itself, and is not written as `null`. -/
theorem optional_orNull {α : Type} {dec : Decoder α} {write : α → Json} {o : Option α}
    (present : ∀ a, write a ≠ .null) (h : ∀ a ∈ o, dec (write a) = .ok a) :
    optional dec (Json.orNull write o) = .ok o := by
  cases o with
  | none => rfl
  | some a =>
    rw [Json.orNull, optional, h a rfl]
    · rfl
    · exact present a

theorem list_map {α : Type} {dec : Decoder α} {write : α → Json} {as : List α}
    (h : ∀ a ∈ as, dec (write a) = .ok a) : list dec (.arr (as.map write)) = .ok as := by
  rw [list]
  induction as with
  | nil => rfl
  | cons a as ih =>
    rw [List.forall_mem_cons] at h
    rw [List.map_cons, items, h.1, ih h.2]
    rfl

/-! ## Patches and updates -/

theorem stopPatch_ofStopPatch {p : StopPatch} (h : p.IsTextual) :
    stopPatch (Json.ofStopPatch p) = .ok p := by
  have tripId := feedId_ofFeedId h.tripId
  have stopId := feedId_ofFeedId h.stopId
  have date := serviceDate_ofDate h.date
  have arrival : optional int32 (Json.orNull Json.ofTime p.arrival) = .ok p.arrival :=
    optional_orNull nofun fun t _ => int32_toInt t
  have departure : optional int32 (Json.orNull Json.ofTime p.departure) = .ok p.departure :=
    optional_orNull nofun fun t _ => int32_toInt t
  refine then_ok (Json.fields_record rfl (by decide) ?_) ?_
  · simp only [List.forall_mem_cons, List.not_mem_nil, false_implies, implies_true, and_true]
    exact ⟨⟨_, rfl, check_eq_ok tripId⟩, ⟨_, rfl, check_eq_ok stopId⟩,
      ⟨_, rfl, check_eq_ok (uint64_toNat _)⟩, ⟨_, rfl, check_eq_ok arrival⟩,
      ⟨_, rfl, check_eq_ok departure⟩, ⟨_, rfl, check_eq_ok (stopStatus_name _)⟩,
      ⟨_, rfl, check_eq_ok (int32_toInt _)⟩, ⟨_, rfl, check_eq_ok date⟩⟩
  · refine then_ok (Fields.required_eq_ok rfl tripId) ?_
    refine then_ok (Fields.required_eq_ok rfl stopId) ?_
    refine then_ok (Fields.required_eq_ok rfl (uint64_toNat _)) ?_
    refine then_ok (Fields.withDefault_eq_ok rfl arrival) ?_
    refine then_ok (Fields.withDefault_eq_ok rfl departure) ?_
    refine then_ok (Fields.required_eq_ok rfl (stopStatus_name _)) ?_
    refine then_ok (Fields.withDefault_eq_ok rfl (int32_toInt _)) ?_
    refine then_ok (Fields.required_eq_ok rfl date) ?_
    rfl

theorem tripUpdate_ofTripUpdate {u : TripUpdate} (h : u.IsTextual) :
    tripUpdate (Json.ofTripUpdate u) = .ok u := by
  have tripId := feedId_ofFeedId h.tripId
  have date := serviceDate_ofDate h.date
  have patches : list stopPatch (.arr (u.patches.map Json.ofStopPatch)) = .ok u.patches :=
    list_map fun p hp => stopPatch_ofStopPatch (h.patches p hp)
  have wheelchair : optional bool (Json.orNull .bool u.wheelchair) = .ok u.wheelchair :=
    optional_orNull nofun fun _ _ => rfl
  have routeId : optional feedId (Json.orNull Json.ofFeedId u.routeId) = .ok u.routeId :=
    optional_orNull nofun fun f hf => feedId_ofFeedId (h.routeId f hf)
  have serviceId : optional feedId (Json.orNull Json.ofFeedId u.serviceId) = .ok u.serviceId :=
    optional_orNull nofun fun f hf => feedId_ofFeedId (h.serviceId f hf)
  refine then_ok (Json.fields_record rfl (by decide) ?_) ?_
  · simp only [List.forall_mem_cons, List.not_mem_nil, false_implies, implies_true, and_true]
    exact ⟨⟨_, rfl, check_eq_ok tripId⟩, ⟨_, rfl, check_eq_ok date⟩,
      ⟨_, rfl, check_eq_ok (tripStatus_name _)⟩, ⟨_, rfl, check_eq_ok patches⟩,
      ⟨_, rfl, check_eq_ok wheelchair⟩, ⟨_, rfl, check_eq_ok (int64_toInt _)⟩,
      ⟨_, rfl, check_eq_ok routeId⟩, ⟨_, rfl, check_eq_ok serviceId⟩⟩
  · refine then_ok (Fields.required_eq_ok rfl tripId) ?_
    refine then_ok (Fields.required_eq_ok rfl date) ?_
    refine then_ok (Fields.required_eq_ok rfl (tripStatus_name _)) ?_
    refine then_ok (Fields.withDefault_eq_ok rfl patches) ?_
    refine then_ok (Fields.withDefault_eq_ok rfl wheelchair) ?_
    refine then_ok (Fields.withDefault_eq_ok rfl (int64_toInt _)) ?_
    refine then_ok (Fields.withDefault_eq_ok rfl routeId) ?_
    refine then_ok (Fields.withDefault_eq_ok rfl serviceId) ?_
    rfl

end Decoder

/-! ## Written trees are exact -/

namespace Json

theorem isExact_int {n : Int} : isExact (.int n) = true ↔ HasWordSize n := decide_eq_true_iff

theorem isExact_int32 (n : Int32) : isExact (.int n.toInt) = true := by
  have lo := n.le_toInt
  have hi := n.toInt_lt
  exact isExact_int.mpr ⟨by omega, by omega⟩

theorem isExact_int64 (n : Int64) : isExact (.int n.toInt) = true := by
  have lo := n.le_toInt
  have hi := n.toInt_lt
  exact isExact_int.mpr ⟨by omega, by omega⟩

theorem isExact_uint64 (n : UInt64) : isExact (.int n.toNat) = true := by
  have hi := n.toNat_lt
  exact isExact_int.mpr ⟨by omega, by omega⟩

theorem isExact_ofStopPatch (p : StopPatch) : isExact (ofStopPatch p) = true := by
  refine isExact_record.mpr ?_
  simp only [List.forall_mem_cons, List.not_mem_nil, false_implies, implies_true, and_true]
  exact ⟨rfl, rfl, isExact_uint64 _, isExact_orNull fun t _ => isExact_int32 t,
    isExact_orNull fun t _ => isExact_int32 t, rfl, isExact_int32 _, rfl⟩

theorem isExact_map {α : Type} {write : α → Json} {as : List α}
    (h : ∀ a, isExact (write a) = true) : isExact (.arr (as.map write)) = true :=
  areExact_iff.mpr (List.forall_mem_map.mpr fun a _ => h a)

theorem isExact_ofTripUpdate (u : TripUpdate) : isExact (ofTripUpdate u) = true := by
  refine isExact_record.mpr ?_
  simp only [List.forall_mem_cons, List.not_mem_nil, false_implies, implies_true, and_true]
  exact ⟨rfl, rfl, rfl, isExact_map isExact_ofStopPatch, isExact_orNull fun _ _ => rfl,
    isExact_int64 _, isExact_orNull fun _ _ => rfl, isExact_orNull fun _ _ => rfl⟩

/-! ## The round trip -/

theorem decode_batch {us : List TripUpdate} (h : ∀ u ∈ us, u.IsTextual) :
    decode Decoder.batch (ofBatch us).write = .ok us := by
  rw [ofBatch, decode_write _ (isExact_map isExact_ofTripUpdate)]
  exact Decoder.list_map fun u hu => Decoder.tripUpdate_ofTripUpdate (h u hu)

/-- A file that holds the text of a batch has that batch in it. -/
theorem batchOf_write (name : String) {us : List TripUpdate} (h : ∀ u ∈ us, u.IsTextual) :
    Source.batchOf name (ofBatch us).write.toUTF8 = .ok us := by
  have bytes : String.fromUTF8? (ofBatch us).write.toUTF8 = some (ofBatch us).write :=
    dif_pos (ofBatch us).write.isValidUTF8
  simp only [Source.batchOf, bytes, decode_batch h]
  rfl

/-- **Updates are read back from their JSON text**, one by one, as the list of a message, and as
the next batch of a replay whose first file holds that list. -/
theorem decode_write_updates :
    (∀ u : TripUpdate, u.IsTextual →
      decode Decoder.tripUpdate (ofTripUpdate u).write = .ok u) ∧
    (∀ us : List TripUpdate, (∀ u ∈ us, u.IsTextual) →
      decode Decoder.batch (ofBatch us).write = .ok us ∧
      ∀ (name : String) (files : ReplayFiles),
        (Source.replay ((name, (ofBatch us).write.toUTF8) :: files)).next
          = (.replay files, .ok (some us))) := by
  constructor
  · intro u h
    rw [decode_write _ (isExact_ofTripUpdate u), Decoder.tripUpdate_ofTripUpdate h]
  · intro us h
    refine ⟨decode_batch h, fun name files => ?_⟩
    rw [Source.next, batchOf_write name h]
    rfl

/-- An update with what is hard to write: a local identifier with a colon, quotes, a backslash,
a control character and a letter outside ASCII, the ends of the ranges of its numbers, a leap day
of the year 0, and optional values both there and absent. -/
def awkwardUpdate : TripUpdate where
  tripId := ⟨"lijn 1", "a:\"b\"\\\n\x01é"⟩
  date := ⟨0, 2, 29, by decide⟩
  status := .modified
  patches := [⟨⟨"lijn 1", ":"⟩, ⟨"/", "\x00"⟩, 18446744073709551615, some (-2147483648), none,
    .predicted, -1, ⟨9999, 12, 31, by decide⟩⟩]
  wheelchair := some false
  timestamp := -9223372036854775808
  routeId := some ⟨"lijn 1", "1"⟩
  serviceId := none

theorem decode_write_updates_awkward :
    awkwardUpdate.IsTextual ∧
    decode Decoder.tripUpdate (ofTripUpdate awkwardUpdate).write = .ok awkwardUpdate ∧
    (Source.replay [("1.json", (ofBatch [awkwardUpdate]).write.toUTF8)]).next
      = (.replay [], .ok (some [awkwardUpdate])) := by
  have line : (⟨"lijn 1", "1"⟩ : FeedId).IsTextual := ⟨by decide, by decide, by decide⟩
  have patch : ∀ p ∈ awkwardUpdate.patches, p.IsTextual :=
    List.forall_mem_singleton.mpr ⟨⟨by decide, by decide, by decide⟩,
      ⟨by decide, by decide, by decide⟩, ⟨by decide, by decide⟩⟩
  have textual : awkwardUpdate.IsTextual :=
    ⟨⟨by decide, by decide, by decide⟩, ⟨by decide, by decide⟩, patch,
      fun _ h => Option.some.inj h ▸ line, nofun⟩
  exact ⟨textual, decode_write_updates.1 awkwardUpdate textual,
    (decode_write_updates.2 [awkwardUpdate] (List.forall_mem_singleton.mpr textual)).2 "1.json" []⟩

end Json

end LiveTimetable
