import OpcServer.Core.PollReads

/-! The groups of a poll. Which groups are due depends on the table of poll times
alone, and so do the reads that follow: a poll asks for the tags of the due groups, in
order, and absorbs the answers. A group whose device or whose names are not found is
passed over by the synchronous poll. -/

namespace OpcServer.Core

open Domain Project

variable [Platform]

/-- The groups that are not held back by a table of poll times, and the table after
they have been polled. -/
def dueGroups (endpointId : String) (now : TimestampMs) : List PollGroup →
    (String → Option TimestampMs) → List PollGroup × (String → Option TimestampMs)
  | [], times => ([], times)
  | group :: rest, times =>
    if recentlyPolled endpointId now group { lastPollMs := times } then
      dueGroups endpointId now rest times
    else
      let (groups, times) := dueGroups endpointId now rest
        (Function.update times (pollKey endpointId group) (some now))
      (group :: groups, times)

section Due
variable (endpointId : String) (now : TimestampMs)

omit [Platform] in
theorem pollKey_inj {g g' : PollGroup} (h : pollKey endpointId g = pollKey endpointId g') :
    g.id = g'.id := (String.append_right_inj _).mp h

theorem dueGroups_subset (groups : List PollGroup) (times : String → Option TimestampMs) :
    ∀ g ∈ (dueGroups endpointId now groups times).1, g ∈ groups := by
  induction groups generalizing times with
  | nil => simp [dueGroups]
  | cons group rest ih =>
    intro g hg
    rw [dueGroups] at hg
    split at hg
    · exact List.mem_cons_of_mem _ (ih _ g hg)
    · rcases List.mem_cons.mp hg with rfl | hg
      · exact List.mem_cons_self
      · exact List.mem_cons_of_mem _ (ih _ g hg)

/-- The table changes at the keys of the groups polled. -/
theorem dueGroups_times (groups : List PollGroup) (times : String → Option TimestampMs)
    (key : String) : (dueGroups endpointId now groups times).2 key =
      if ∃ g ∈ (dueGroups endpointId now groups times).1, pollKey endpointId g = key then some now
      else times key := by
  induction groups generalizing times with
  | nil => simp [dueGroups]
  | cons group rest ih =>
    rw [dueGroups]
    split
    · exact ih times
    · simp only [ih, List.mem_cons, exists_eq_or_imp, Function.update_apply]
      by_cases hkey : pollKey endpointId group = key
      · simp [hkey]
      · simp [hkey, Ne.symm hkey]

/-- Under distinct keys a group is due by its own entry at the start. -/
theorem mem_dueGroups {groups : List PollGroup} (hkeys : (groups.map (pollKey endpointId)).Nodup)
    (times : String → Option TimestampMs) :
    ∀ g ∈ groups, (g ∈ (dueGroups endpointId now groups times).1 ↔
      recentlyPolled endpointId now g { lastPollMs := times } = false) := by
  induction groups generalizing times with
  | nil => simp
  | cons group rest ih =>
    obtain ⟨hnew, hrest⟩ := List.nodup_cons.mp hkeys
    have hne : ∀ g ∈ rest, pollKey endpointId g ≠ pollKey endpointId group := by
      intro g hg heq
      exact hnew (heq ▸ List.mem_map_of_mem hg)
    have hnot : group ∉ rest := fun hmem => hne group hmem rfl
    intro g hg
    rw [dueGroups]
    split
    · rename_i hrecent
      rcases List.mem_cons.mp hg with rfl | hg
      · refine ⟨fun hdue => absurd (dueGroups_subset endpointId now rest times g hdue) hnot, ?_⟩
        intro hfalse
        rw [hrecent] at hfalse
        cases hfalse
      · exact ih hrest times g hg
    · rename_i hrecent
      rcases List.mem_cons.mp hg with rfl | hg
      · exact ⟨fun _ => by simpa using hrecent, fun _ => List.mem_cons_self⟩
      · have hsame : recentlyPolled endpointId now g
            { lastPollMs := Function.update times (pollKey endpointId group) (some now) } =
            recentlyPolled endpointId now g { lastPollMs := times } := by
          simp only [recentlyPolled, Function.update_of_ne (hne g hg)]
        have hgroup : g ≠ group := fun heq => hnot (heq ▸ hg)
        rw [← hsame, ← ih hrest _ g hg, List.mem_cons]
        exact or_iff_right hgroup

end Due

section Reads
variable {σ : Type} (index : RuntimeIndex) (transport : IModbusTransport σ) (endpointId : String)
  (now : TimestampMs)

/-- The asynchronous poll collects the tags of the same groups. -/
theorem collectDue_due (groups : List PollGroup) (w : World σ) :
    collectDue index endpointId now groups w =
      ((dueGroups endpointId now groups w.dispatcher.lastPollMs).1.flatMap
          (collectGroupTags index),
        w.mapDispatcher fun d =>
          d.setPollTimes (dueGroups endpointId now groups w.dispatcher.lastPollMs).2) := by
  induction groups generalizing w with
  | nil => rfl
  | cons group rest ih =>
    have hsame : recentlyPolled endpointId now group
        { lastPollMs := w.dispatcher.lastPollMs } =
          recentlyPolled endpointId now group w.dispatcher := rfl
    rw [collectDue, dueGroups, hsame]
    split
    · exact ih w
    · rw [ih]
      rfl

/-- The tags that the synchronous poll reads for a group. -/
def groupReads (group : PollGroup) : List TagBinding :=
  match index.device group.deviceId with
  | none => []
  | some _ =>
    if !group.tagNames.isEmpty then
      match namedTags index group.tagNames with
      | .error _ => []
      | .ok tags => tags
    else unnamedTags index group

/-- Of a group whose names are all found, both polls read the same tags. -/
theorem groupReads_of_resolved {group : PollGroup} (h : Resolved index group) :
    groupReads index group = collectGroupTags index group := by
  obtain ⟨d, hd⟩ := Option.isSome_iff_exists.mp h.1
  simp only [groupReads, hd, namedTags_eq h.2, collectGroupTags]

theorem pollGroup_absorb (group : PollGroup) {w : World σ} {t : σ}
    (ht : w.transports endpointId = some t) :
    (pollGroup index transport endpointId now group w).2 =
      w.absorb endpointId now syncReason (answers transport (groupReads index group) t) := by
  have hnil := World.absorb_nil endpointId now syncReason ht
  cases hdev : index.device group.deviceId with
  | none => simp only [pollGroup, groupReads, hdev, answers, hnil]
  | some d =>
    simp only [pollGroup, groupReads, hdev]
    split
    · cases hnames : namedTags index group.tagNames with
      | error e => simp only [answers, hnil]
      | ok tags => simp only [pollTags_eq transport endpointId now tags _ ht]
    · rw [pollTags_eq transport endpointId now _ _ ht]

/-- The loop over the groups absorbs the answers to the reads of the due ones. -/
theorem pollGroups_absorb (groups : List PollGroup) (first : Result Unit) {w : World σ} {t : σ}
    (ht : w.transports endpointId = some t) :
    (pollGroups index transport endpointId now groups first w).2 =
      (w.mapDispatcher fun d => d.setPollTimes
        (dueGroups endpointId now groups w.dispatcher.lastPollMs).2).absorb endpointId now syncReason
        (answers transport ((dueGroups endpointId now groups w.dispatcher.lastPollMs).1.flatMap
          (groupReads index)) t) := by
  induction groups generalizing first w t with
  | nil => exact (World.absorb_nil endpointId now syncReason ht).symm
  | cons group rest ih =>
    have hsame : recentlyPolled endpointId now group
        { lastPollMs := w.dispatcher.lastPollMs } =
          recentlyPolled endpointId now group w.dispatcher := rfl
    rw [pollGroups, dueGroups, hsame]
    split
    · exact ih first ht
    · let own := answers transport (groupReads index group) t
      let polled := (w.absorb endpointId now syncReason own).mapDispatcher
        fun d => d.setLastPoll (pollKey endpointId group) now
      have hpolled : polled.transports endpointId = some own.2 :=
        World.absorb_transports endpointId now syncReason w own
      have htimes : polled.dispatcher.lastPollMs = Function.update w.dispatcher.lastPollMs
          (pollKey endpointId group) (some now) :=
        World.absorb_lastPollMs endpointId now syncReason w own group
      dsimp only
      rw [pollGroup_absorb index transport endpointId now group ht]
      refine (ih _ hpolled).trans ?_
      rw [htimes, List.flatMap_cons, answers_append]
      simp only [World.absorb, World.mapDispatcher, List.foldl_append, Function.update_idem, polled,
        setPollTimes_setLastPoll, foldl_absorb_setPollTimes, own]

end Reads

end OpcServer.Core
