import MainlineDht.Rust.RoutingTable

/-!
# How the rating of a routing entry moves when its node is heard from

A response makes the entry good.  A query makes it good once the node has ever
responded.  Before that it makes the entry bad, since only a node that was never
heard from is rated questionable without a response.
-/

namespace MainlineDht.Rust

/-- Bad, questionable, good. -/
def NodeRating.rank : NodeRating → Nat
  | .bad => 0
  | .questionable => 1
  | .good => 2

instance : LE NodeRating :=
  ⟨fun first second => first.rank ≤ second.rank⟩

instance (first second : NodeRating) : Decidable (first ≤ second) :=
  inferInstanceAs (Decidable (first.rank ≤ second.rank))

namespace NodeRating

theorem le_good (rating : NodeRating) : rating ≤ .good := by
  cases rating <;> decide

theorem bad_le (rating : NodeRating) : .bad ≤ rating :=
  Nat.zero_le rating.rank

theorem le_bad_iff {rating : NodeRating} : rating ≤ .bad ↔ rating = .bad := by
  cases rating <;> decide

end NodeRating

namespace RoutingEntry

variable {entry : RoutingEntry} {now : Instant}

theorem elapsedSecs_self (now : Instant) : elapsedSecs now now = 0 := by
  rw [elapsedSecs, Nat.sub_self, Nat.zero_div]

/-! ## The rating after each way of being seen -/

theorem rating_update_response : (entry.update .response now).rating now = .good := by
  cases queried : entry.lastQuery <;> simp [update, rating, elapsedSecs_self, queried]

theorem rating_update_query :
    (entry.update .query now).rating now = if entry.lastResponse.isSome then .good else .bad := by
  cases responded : entry.lastResponse <;> simp [update, rating, elapsedSecs_self, responded]

theorem rating_update_referral : (entry.update .referral now).rating now = entry.rating now :=
  rfl

/-- Without a response, the rating depends on whether there was a query. -/
theorem rating_of_no_response (silent : entry.lastResponse = none) :
    entry.rating now = if entry.lastQuery.isSome then .bad else .questionable := by
  cases queried : entry.lastQuery <;> simp [rating, silent, queried]

/-! ## Whether the rating falls -/

/-- The node is heard from for the first time, by a query. -/
structure FirstHeardByQuery (entry : RoutingEntry) (seenIn : SeenIn) : Prop where
  byQuery : seenIn = .query
  noQuery : entry.lastQuery = none
  noResponse : entry.lastResponse = none

/-- Being seen does not lower the rating of an entry, and an entry that was not
replaceable does not become so. -/
structure KeepsRating (entry : RoutingEntry) (seenIn : SeenIn) (now : Instant) : Prop where
  rating_le : entry.rating now ≤ (entry.update seenIn now).rating now
  usable : entry.rating now ≠ .bad → (entry.update seenIn now).rating now ≠ .bad

/-- An entry that keeps its rating stays usable. -/
theorem keepsRating_of_le {seenIn : SeenIn}
    (rating_le : entry.rating now ≤ (entry.update seenIn now).rating now) :
    entry.KeepsRating seenIn now where
  rating_le := rating_le
  usable := by
    intro usable becomesBad
    rw [becomesBad, NodeRating.le_bad_iff] at rating_le
    exact usable rating_le

/-- Being seen lowers the rating exactly of an entry that is first heard from by
a query, at every instant and whatever the times in the entry are. -/
theorem keepsRating_iff (entry : RoutingEntry) (seenIn : SeenIn) (now : Instant) :
    entry.KeepsRating seenIn now ↔ ¬ entry.FirstHeardByQuery seenIn := by
  cases seenIn with
  | response =>
      apply iff_of_true
      · apply keepsRating_of_le
        rw [rating_update_response]
        exact NodeRating.le_good _
      · rintro ⟨⟨⟩, _, _⟩
  | referral =>
      apply iff_of_true
      · apply keepsRating_of_le
        rw [rating_update_referral]
        exact Nat.le_refl _
      · rintro ⟨⟨⟩, _, _⟩
  | query =>
      cases responded : entry.lastResponse with
      | some instant =>
          apply iff_of_true
          · apply keepsRating_of_le
            rw [rating_update_query, responded]
            exact NodeRating.le_good _
          · rintro ⟨_, _, silent⟩
            rw [responded] at silent
            cases silent
      | none =>
          have before := @rating_of_no_response entry now responded
          have after := @rating_update_query entry now
          rw [responded] at after
          cases queried : entry.lastQuery with
          | some instant =>
              rw [queried] at before
              apply iff_of_true
              · apply keepsRating_of_le
                rw [before]
                exact NodeRating.bad_le _
              · rintro ⟨_, never, _⟩
                rw [queried] at never
                cases never
          | none =>
              -- from questionable to bad
              rw [queried] at before
              apply iff_of_false
              · rintro ⟨falls, _⟩
                rw [before, after] at falls
                exact absurd falls (by decide)
              · exact not_not.mpr ⟨rfl, queried, responded⟩

/-- A node that was learned of by a referral becomes replaceable with its first
query. -/
theorem not_keepsRating :
    ¬ (new ⟨⟨List.replicate 20 0, rfl⟩, ⟨2130706433, 6881⟩⟩).KeepsRating .query 0 := by
  rintro ⟨falls, _⟩
  exact absurd falls (by decide)

end RoutingEntry

end MainlineDht.Rust
