import MainlineDht.Rust.RoutingTableAnswers
import MainlineDht.Rust.RoutingTableFrame

/-!
# What the entries of the Rust routing table remember

Along a run, an entry is what the calls for its node make of a new entry, from
the call on that has brought the node into the table.  Calls for other nodes do
not change it, and as long as it is never bad they do not cost it its place.
-/

namespace MainlineDht.Rust

open Transition

namespace RoutingEntry

open RoutingTable (UpdateCall)

/-- The entry after a call, which updates it if it is for its node. -/
def after (call : UpdateCall) (entry : RoutingEntry) : RoutingEntry :=
  if call.node.id = entry.node.id then entry.update call.seenIn call.now else entry

/-- The entry after some calls, newest first. -/
def afterAll (calls : List UpdateCall) (entry : RoutingEntry) : RoutingEntry :=
  calls.foldr after entry

variable {call : UpdateCall} {calls : List UpdateCall} {entry stamped : RoutingEntry}

@[simp]
theorem after_node : (entry.after call).node = entry.node := by
  unfold after
  split
  · exact update_node entry call.seenIn call.now
  · rfl

@[simp]
theorem afterAll_node : (entry.afterAll calls).node = entry.node := by
  induction calls with
  | nil => rfl
  | cons call calls ih => exact after_node.trans ih

theorem after_of_ne (other : entry.node.id ≠ call.node.id) : entry.after call = entry :=
  if_neg other.symm

theorem after_of_eq (same : entry.node.id = call.node.id) :
    entry.after call = entry.update call.seenIn call.now :=
  if_pos same.symm

/-- What is stamped is what an update makes. -/
theorem Stamped.eq_update {seenIn : SeenIn} {now : Instant}
    (isStamped : entry.Stamped seenIn now stamped) : stamped = entry.update seenIn now := by
  rcases stamped with ⟨node, lastResponse, lastQuery⟩
  rcases isStamped with ⟨rfl, rfl, rfl⟩
  cases seenIn <;> rfl

end RoutingEntry

namespace RoutingTable

variable {t t' : RoutingTable} {call : UpdateCall} {outcome : Outcome} {entry : RoutingEntry}
  {referenceId : NodeId} {history : List (RoutingTable × UpdateCall)}

/-! ## One call -/

theorem ne_of_not_stores {id : NodeId} (absent : ¬ t.Stores id) (stored : entry ∈ t.storedEntries) :
    entry.node.id ≠ id :=
  fun same => absent (mem_idsOf.mpr ⟨entry, stored, same⟩)

/-- The other entries are for other nodes. -/
theorem ne_of_perm {seen : RoutingEntry} {others : List RoutingEntry}
    (distinct : (idsOf t.storedEntries).Nodup) (perm : t.storedEntries.Perm (seen :: others))
    (member : entry ∈ others) : entry.node.id ≠ seen.node.id := by
  have nodup : (idsOf (seen :: others)).Nodup := (perm.map _).nodup_iff.mp distinct
  rw [idsOf_cons, List.nodup_cons] at nodup
  intro same
  exact nodup.1 (mem_idsOf.mpr ⟨entry, member, same⟩)

/-- An entry was stored before the call, or the call has brought it in. -/
theorem Fares.mem_cases (fares : Fares t t' call.node call.seenIn call.now outcome)
    (distinct : (idsOf t.storedEntries).Nodup) (member : entry ∈ t'.storedEntries) :
    (∃ earlier ∈ t.storedEntries, entry = earlier.after call) ∨
      (¬ t.Stores call.node.id ∧ entry = (RoutingEntry.new call.node).after call) := by
  have isFresh : freshEntry call.node call.seenIn call.now = (RoutingEntry.new call.node).after call :=
    (RoutingEntry.after_of_eq rfl).symm
  have stays (absent : ¬ t.Stores call.node.id) (stored : entry ∈ t.storedEntries) :
      ∃ earlier ∈ t.storedEntries, entry = earlier.after call :=
    ⟨entry, stored, (RoutingEntry.after_of_ne (ne_of_not_stores absent stored)).symm⟩
  cases outcome with
  | refreshed =>
      rcases fares with ⟨seen, stamped, others, same, isStamped, perm, perm'⟩
      rcases List.mem_cons.mp (perm'.mem_iff.mp member) with rfl | isOther
      · refine Or.inl ⟨seen, perm.mem_iff.mpr List.mem_cons_self, ?_⟩
        rw [isStamped.eq_update, RoutingEntry.after_of_eq same]
      · have other := same ▸ ne_of_perm distinct perm isOther
        exact Or.inl ⟨entry, perm.mem_iff.mpr (List.mem_cons_of_mem _ isOther),
          (RoutingEntry.after_of_ne other).symm⟩
  | added =>
      rcases List.mem_cons.mp (fares.2.mem_iff.mp member) with rfl | stored
      · exact Or.inr ⟨fares.1, isFresh⟩
      · exact Or.inl (stays fares.1 stored)
  | replaced =>
      rcases fares with ⟨absent, _, _, badEntry, _, _, _, _, others, perm, perm'⟩
      rcases List.mem_cons.mp (perm'.mem_iff.mp member) with rfl | isOther
      · exact Or.inr ⟨absent, isFresh⟩
      · exact Or.inl (stays absent (perm.mem_iff.mpr (List.mem_cons_of_mem _ isOther)))
  | unchanged => exact Or.inl (stays fares.1 (fares.2.mem_iff.mp member))

/-- An entry that is not bad is stored after the call, too. -/
theorem Fares.mem_after (fares : Fares t t' call.node call.seenIn call.now outcome)
    (distinct : (idsOf t.storedEntries).Nodup) (stored : entry ∈ t.storedEntries)
    (usable : entry.rating call.now ≠ .bad) : entry.after call ∈ t'.storedEntries := by
  cases outcome with
  | refreshed =>
      rcases fares with ⟨seen, stamped, others, same, isStamped, perm, perm'⟩
      rcases List.mem_cons.mp (perm.mem_iff.mp stored) with rfl | isOther
      · rw [RoutingEntry.after_of_eq same, ← isStamped.eq_update]
        exact perm'.mem_iff.mpr List.mem_cons_self
      · rw [RoutingEntry.after_of_ne (same ▸ ne_of_perm distinct perm isOther)]
        exact perm'.mem_iff.mpr (List.mem_cons_of_mem _ isOther)
  | added =>
      rw [RoutingEntry.after_of_ne (ne_of_not_stores fares.1 stored)]
      exact fares.2.mem_iff.mpr (List.mem_cons_of_mem _ stored)
  | replaced =>
      rcases fares with ⟨absent, _, _, badEntry, _, _, _, isBad, others, perm, perm'⟩
      rw [RoutingEntry.after_of_ne (ne_of_not_stores absent stored)]
      rcases List.mem_cons.mp (perm.mem_iff.mp stored) with rfl | isOther
      · exact absurd isBad usable
      · exact perm'.mem_iff.mpr (List.mem_cons_of_mem _ isOther)
  | unchanged =>
      rw [RoutingEntry.after_of_ne (ne_of_not_stores fares.1 stored)]
      exact fares.2.mem_iff.mpr stored

theorem Sound.fares_of_step (sound : t.Sound) (stepped : step t call = some t') :
    ∃ outcome, Fares t t' call.node call.seenIn call.now outcome := by
  by_cases same : call.node.id = t.referenceId
  · have panics := sound.update_reference same call.seenIn call.now
    rw [step, panics] at stepped
    cases stepped
  · rcases sound.update_effect same call.seenIn call.now with
      ⟨before, bucket, after, news, located, updated, effect⟩
    rcases sound.exists_fares located effect with ⟨outcome, fares⟩
    cases updated.symm.trans stepped
    exact ⟨outcome, fares⟩

/-! ## Whole runs -/

/-- Some call of the history has brought the node of the entry into the table,
the node has been stored ever since, and the entry is what the calls since then
have made of a new one. -/
def Remembers (history : List (RoutingTable × UpdateCall)) (entry : RoutingEntry) : Prop :=
  ∃ since middle call before, history = since ++ (middle, call) :: before ∧
    ¬ middle.Stores entry.node.id ∧ (∀ visited ∈ since, visited.1.Stores entry.node.id) ∧
      entry = (RoutingEntry.new call.node).afterAll (since.map Prod.snd ++ [call])

theorem Remembers.push (remembers : Remembers history entry) (stored : entry ∈ t.storedEntries)
    (call : UpdateCall) : Remembers ((t, call) :: history) (entry.after call) := by
  rcases remembers with ⟨since, middle, learned, before, rfl, absent, stays, isAfter⟩
  refine ⟨(t, call) :: since, middle, learned, before, rfl, ?_, ?_, congrArg _ isAfter⟩
  · rwa [RoutingEntry.after_node]
  · rw [RoutingEntry.after_node]
    exact List.forall_mem_cons.mpr ⟨mem_idsOf.mpr ⟨entry, stored, rfl⟩, stays⟩

/-- Every stored entry remembers exactly the calls for its node since the node
was learned. -/
theorem remembers_of_run (run : Run step (new referenceId) history t)
    (stored : entry ∈ t.storedEntries) : Remembers history entry := by
  induction run generalizing entry with
  | initial => cases stored
  | @push history middle t call run stepped ih =>
      have sound := (sound_of_reachable ⟨history, run⟩).1
      rcases sound.fares_of_step stepped with ⟨outcome, fares⟩
      rcases fares.mem_cases sound.distinct stored with ⟨earlier, held, rfl⟩ | ⟨absent, rfl⟩
      · exact (ih held).push held call
      · refine ⟨[], middle, call, history, rfl, ?_, List.forall_mem_nil _, rfl⟩
        rwa [RoutingEntry.after_node, RoutingEntry.new_node]

/-- A response of a node. -/
def response : UpdateCall := { referral 9 with seenIn := .response, now := 5 }

/-- A query of the same node, later. -/
def query : UpdateCall := { referral 9 with seenIn := .query, now := 7 }

/-- Behind a query after a response, the entry has both readings of the clock. -/
theorem remembers_of_run_query :
    ∃ history, history.map Prod.snd = [query, response] ∧
      Remembers history ⟨(referral 9).node, some 5, some 7⟩ := by
  have checked : (perform step (new (leadingId 0)) [response, query]).any
      (fun t => ⟨(referral 9).node, some 5, some 7⟩ ∈ t.storedEntries) = true := by
    decide +kernel
  rcases (Option.any_eq_true _ _).mp checked with ⟨t, performed, stored⟩
  rcases Run.initial.append performed with ⟨history, run, taken⟩
  rw [List.append_nil] at run
  exact ⟨history, taken, remembers_of_run run (of_decide_eq_true stored)⟩

/-- The entry is not bad at any of the calls, newest first. -/
def Usable (entry : RoutingEntry) : List UpdateCall → Prop
  | [] => True
  | call :: calls => Usable entry calls ∧ (entry.afterAll calls).rating call.now ≠ .bad

theorem Sound.find_stored (sound : t.Sound) (stored : entry ∈ t.storedEntries) :
    t.find entry.node.id = some (.exact entry.node) := by
  rcases sound.find_answers (sound.ne_referenceId stored) with ⟨found, member, same, finds⟩ | ⟨absent, _⟩
  · rw [finds, sound.eq_of_id_eq member stored same]
  · exact absurd (mem_idsOf.mpr ⟨entry, stored, rfl⟩) absent

theorem mem_of_run (sound : t.Sound) (run : Run step t history t') (stored : entry ∈ t.storedEntries)
    (usable : Usable entry (history.map Prod.snd)) :
    t'.Sound ∧ entry.afterAll (history.map Prod.snd) ∈ t'.storedEntries := by
  induction run with
  | initial => exact ⟨sound, stored⟩
  | @push history middle t' call _ stepped ih =>
      rcases usable with ⟨earlier, last⟩
      rcases ih earlier with ⟨middleSound, held⟩
      rcases middleSound.fares_of_step stepped with ⟨outcome, fares⟩
      exact ⟨(middleSound.update stepped).1, fares.mem_after middleSound.distinct held last⟩

/-- An entry that is not bad at any later call stays in the table with all that
the calls say about its node, and a lookup finds its contact. -/
theorem stays_of_usable (reachable : Reachable step (new referenceId) t)
    (run : Run step t history t') (stored : entry ∈ t.storedEntries)
    (usable : Usable entry (history.map Prod.snd)) :
    entry.afterAll (history.map Prod.snd) ∈ t'.storedEntries ∧
      t'.find entry.node.id = some (.exact entry.node) := by
  rcases mem_of_run (sound_of_reachable reachable).1 run stored usable with ⟨sound, held⟩
  have finds := sound.find_stored held
  rw [RoutingEntry.afterAll_node] at finds
  exact ⟨held, finds⟩

/-- The node that has responded stays when it sends a query. -/
theorem stays_of_usable_query :
    ∃ t' : RoutingTable, ⟨(referral 9).node, some 5, some 7⟩ ∈ t'.storedEntries ∧
      t'.find (leadingId 9) = some (.exact (referral 9).node) := by
  have checked : (perform step (new (leadingId 0)) [response]).any (fun t =>
      ⟨(referral 9).node, some 5, none⟩ ∈ t.storedEntries ∧ (step t query).isSome) = true := by
    decide +kernel
  rcases exists_reachable checked with ⟨t, reachable, holds⟩
  rcases of_decide_eq_true holds with ⟨stored, answers⟩
  rcases Option.isSome_iff_exists.mp answers with ⟨t', stepped⟩
  have good : RoutingEntry.rating ⟨(referral 9).node, some 5, none⟩ 7 ≠ .bad := by decide
  exact ⟨t', stays_of_usable reachable (Run.initial.push stepped) stored ⟨trivial, good⟩⟩

end RoutingTable

end MainlineDht.Rust
