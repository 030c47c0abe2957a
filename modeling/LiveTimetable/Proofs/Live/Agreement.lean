import LiveTimetable.Proofs.Live.Books
import LiveTimetable.Proofs.Network.Registry

/-!
# Registry, graph and books on added trips

Three stores know of added trips: the index finds their patterns, the graph keeps these by course,
and the books count their users. They **agree** if what the graph keeps is what the other two have.

* `Agrees.changeAt`: the stores agree after a change under one number.
* `Agrees.put`: all three take up a synthesized pattern, or another revision of one.
* `Agrees.drop`: all three give one up.
-/

namespace LiveTimetable

/-- The synthesized patterns of the index and the patterns in the books are those of the graph, and
a trip is in the books under a pattern if it is one of its trips. -/
structure Agrees (x : TransitIndex) (g : Graph) (a : AddedTrips) : Prop where
  indexed : ∀ s, g.Keeps s → x.patterns.get? s.pattern.id = some s.pattern
  kept : ∀ id p, x.patterns.get? id = some p → p.isSynthesized = true →
    ∃ s, g.Keeps s ∧ s.pattern = p
  booked : ∀ id usage, a.patterns.get? id = some usage ↔
    ∃ s, g.Keeps s ∧ s.pattern.id = id ∧ usage = ⟨s.pattern.trips.length, s⟩
  listed : ∀ trip id, a.Lists trip id ↔
    ∃ s, g.Keeps s ∧ s.pattern.id = id ∧ trip ∈ s.pattern.trips

namespace Agrees

variable {x x' : TransitIndex} {g g' : Graph} {a a' : AddedTrips} {s : Synthesized}

/-- The services have no part in the agreement. -/
theorem setServices (h : Agrees x g a) (services : Services) : Agrees x { g with services } a :=
  ⟨h.indexed, h.kept, h.booked, h.listed⟩

/-- Three stores that change under one number only, and have the same there, agree as before. -/
theorem changeAt (h : Agrees x g a) (hx : x.WellFormed) {number : PatternId}
    (there : Option Synthesized)
    (hnumber : ∀ y, there = some y → y.pattern.id = number)
    (hsame : ∀ y, y.pattern.id = number → (g'.Keeps y ↔ there = some y))
    (hother : ∀ y, y.pattern.id ≠ number → (g'.Keeps y ↔ g.Keeps y))
    (hpatterns : ∀ id, x'.patterns.get? id =
      if id = number then there.map Synthesized.pattern else x.patterns.get? id)
    (hbooks : ∀ id, a'.patterns.get? id = if id = number then
      there.map fun y => ⟨y.pattern.trips.length, y⟩ else a.patterns.get? id)
    (hlists : ∀ trip id, a'.Lists trip id ↔ if id = number then
      ∃ y, there = some y ∧ trip ∈ y.pattern.trips else a.Lists trip id) :
    Agrees x' g' a' := by
  have hkeeps : ∀ y, there = some y → g'.Keeps y := fun y hy => (hsame y (hnumber y hy)).mpr hy
  constructor
  · intro y hy
    rw [hpatterns]
    by_cases hid : y.pattern.id = number
    · rw [if_pos hid, (hsame y hid).mp hy]
      rfl
    · rw [if_neg hid]
      exact h.indexed y ((hother y hid).mp hy)
  · intro id p hp hsynth
    rw [hpatterns] at hp
    split at hp
    · obtain ⟨y, hy, rfl⟩ := Option.map_eq_some_iff.mp hp
      exact ⟨y, hkeeps y hy, rfl⟩
    · rename_i hne
      obtain ⟨y, hy, rfl⟩ := h.kept id p hp hsynth
      have hid := hx.id_eq id y.pattern hp
      exact ⟨y, (hother y (hid ▸ hne)).mpr hy, rfl⟩
  · intro id usage
    rw [hbooks]
    by_cases hid : id = number
    · rw [if_pos hid, Option.map_eq_some_iff]
      constructor
      · rintro ⟨y, hy, rfl⟩
        exact ⟨y, hkeeps y hy, (hnumber y hy).trans hid.symm, rfl⟩
      · rintro ⟨y, hy, hyid, rfl⟩
        exact ⟨y, (hsame y (hyid.trans hid)).mp hy, rfl⟩
    · rw [if_neg hid, h.booked]
      constructor
      · rintro ⟨y, hy, rfl, rfl⟩
        exact ⟨y, (hother y hid).mpr hy, rfl, rfl⟩
      · rintro ⟨y, hy, rfl, rfl⟩
        exact ⟨y, (hother y hid).mp hy, rfl, rfl⟩
  · intro trip id
    rw [hlists]
    by_cases hid : id = number
    · rw [if_pos hid]
      constructor
      · rintro ⟨y, hy, hmem⟩
        exact ⟨y, hkeeps y hy, (hnumber y hy).trans hid.symm, hmem⟩
      · rintro ⟨y, hy, hyid, hmem⟩
        exact ⟨y, (hsame y (hyid.trans hid)).mp hy, hmem⟩
    · rw [if_neg hid, h.listed]
      constructor
      · rintro ⟨y, hy, rfl, hmem⟩
        exact ⟨y, (hother y hid).mpr hy, rfl, hmem⟩
      · rintro ⟨y, hy, rfl, hmem⟩
        exact ⟨y, (hother y hid).mp hy, rfl, hmem⟩

/-- **All three stores take up a pattern under its number**, in place of the one that had its
course, if there was one. -/
theorem put (h : Agrees x g a) (hx : x.WellFormed) (hput : g.Puts s g')
    (hrep : x.Replaces s.pattern x')
    (hplace : ∀ y, g.Keeps y → y.course = s.course → y.pattern.id = s.pattern.id)
    (hbooks : ∀ id, a'.patterns.get? id =
      if id = s.pattern.id then some ⟨s.pattern.trips.length, s⟩ else a.patterns.get? id)
    (hlists : ∀ trip id, a'.Lists trip id ↔
      if id = s.pattern.id then trip ∈ s.pattern.trips else a.Lists trip id) :
    Agrees x' g' a' := by
  refine h.changeAt hx (some s) ?_ (fun y hid => ?_) (fun y hne => ?_) hrep.get?_patterns hbooks
    fun trip id => ?_
  · rintro y ⟨⟩
    rfl
  · rw [hput.keeps_iff, Option.some.injEq]
    constructor
    · rintro (rfl | ⟨hc, hold⟩)
      · rfl
      · exact absurd hid (hput.apart y hold hc).1
    · rintro rfl
      exact Or.inl rfl
  · rw [hput.keeps_iff]
    constructor
    · rintro (rfl | ⟨-, hold⟩)
      · exact absurd rfl hne
      · exact hold
    · exact fun hold => Or.inr ⟨fun hc => hne (hplace y hold hc), hold⟩
  · rw [hlists]
    simp

/-- **All three stores give up a kept pattern.** -/
theorem drop (h : Agrees x g a) (hx : x.WellFormed) (hg : g.WellFormed) (hs : g.Keeps s)
    (hbooks : ∀ id, a'.patterns.get? id =
      if id = s.pattern.id then none else a.patterns.get? id)
    (hlists : ∀ trip id, a'.Lists trip id ↔ id ≠ s.pattern.id ∧ a.Lists trip id) :
    Agrees (x.removePattern s.pattern.id) (g.without s) a' := by
  refine h.changeAt hx none ?_ (fun y hid => ?_) (fun y hne => ?_)
    (x.get?_patterns_removePattern _) hbooks fun trip id => ?_
  · rintro y ⟨⟩
  · refine iff_of_false (fun hy => ?_) nofun
    obtain ⟨hys, hold⟩ := hg.keeps_without hs hy
    exact hys (hg.id_inj y s hold hs hid)
  · constructor
    · exact fun hy => (hg.keeps_without hs hy).2
    · intro hold
      have hc : y.course ≠ s.course := by
        intro hc
        have hys : some y = some s := hold.symm.trans (hc ▸ hs)
        cases hys
        exact hne rfl
      unfold Graph.Keeps
      rw [hg.get?_without hs, if_neg hc]
      exact hold
  · rw [hlists]
    by_cases hid : id = s.pattern.id <;> simp [hid]

end Agrees

end LiveTimetable
