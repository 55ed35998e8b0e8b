import OpcServer.App.DataSourceWrite
import OpcServer.Core.StoredValue
import OpcServer.Core.WriteAccounting

/-! A confirmed write stays confirmed as long as no UA thread publishes a tag that the
strand has nothing left to publish for, and no flush drops a write. On such runs the
store differs from the strand's own publishes only in tags that the strand has still to
publish, so that the two agree once everything is done. Nothing in the server enforces
the condition: a flush may run between the handler of a UA write and its publish. -/

namespace OpcServer.App

open Domain Project OpcServer.Core

section Scene
variable [Platform]

/-! ### What the strand has still to publish -/

/-- Writes that a flush has taken and not yet published a result for. -/
def unpublished (pc : FlushPc) : List PendingWrite := pc.outcomes.map Outcome.write ++ pc.held

def Occupant.writes : Occupant → List PendingWrite
  | .flush _ pc => unpublished pc
  | .reports _ | .put .. => []

/-- Tags that the reports of a poll go to. -/
def Occupant.reported : Occupant → List TagId
  | .flush .. => []
  | .reports todo => todo.map Report.tagId
  | .put _ report todo => (report :: todo).map Report.tagId

/-- A flush is about to drop writes: a coil run of its batch breaks. -/
def Occupant.drops (index : RuntimeIndex) : Occupant → Bool
  | .flush _ (.loop (write :: batch)) => startsBrokenRun index write batch
  | _ => false

/-- Writes queued, or taken by a flush and not published. -/
def awaitedBy (queue : List PendingWrite) (o : Option Occupant) : List PendingWrite :=
  queue ++ (o.map Occupant.writes).getD []

/-- Tags that the strand has still to publish. -/
def owedBy (queue : List PendingWrite) (o : Option Occupant) : List TagId :=
  (awaitedBy queue o).map PendingWrite.tagId ++ (o.map Occupant.reported).getD []

namespace Scene
variable {σ : Type}

def awaited (endpointId : String) (s : Scene σ) : List PendingWrite :=
  awaitedBy (s.world.dispatcher.writeQueues endpointId) s.occupant

def owed (endpointId : String) (s : Scene σ) : List TagId :=
  owedBy (s.world.dispatcher.writeQueues endpointId) s.occupant

def drops (index : RuntimeIndex) (s : Scene σ) : Bool := s.occupant.any (Occupant.drops index)

/-- A UA thread publishes only while the strand has still to publish its tag, and no
flush drops writes. -/
def InTime (index : RuntimeIndex) (endpointId : String) (action : SceneAction) (s : Scene σ) :
    Prop :=
  match action with
  | .publish call _ => ∀ c ∈ s.calls[call]?, c.write.tagId ∈ s.owed endpointId
  | .advance => s.drops index = false
  | _ => True

instance (index : RuntimeIndex) (endpointId : String) (action : SceneAction) (s : Scene σ) :
    Decidable (InTime index endpointId action s) :=
  match action with
  | .publish call _ =>
    inferInstanceAs (Decidable (∀ c ∈ s.calls[call]?, c.write.tagId ∈ s.owed endpointId))
  | .advance => inferInstanceAs (Decidable (s.drops index = false))
  | .write .. | .get _ | .flush _ | .poll _ => .isTrue trivial

end Scene

section Strand
variable {σ : Type} {index : RuntimeIndex} {transport : IModbusTransport σ} {endpointId : String}

/-- A publish of the strand sets a tag in every store, or leaves it alone in every
store. -/
theorem note_cases (p : Option (TagId × TagValue)) (id : TagId) :
    (∃ value, p = some (id, value) ∧ ∀ store, (note store p).get id = some value) ∨
      (¬ ∃ value, p = some (id, value)) ∧ ∀ store, (note store p).get id = store.get id := by
  by_cases h : ∃ value, p = some (id, value)
  · obtain ⟨value, rfl⟩ := h
    exact .inl ⟨value, rfl, fun store => TagStore.get_publish_self ..⟩
  · refine .inr ⟨h, fun store => ?_⟩
    cases p with
    | none => rfl
    | some p =>
      refine TagStore.get_publish_of_ne _ _ ?_
      rintro rfl
      exact h ⟨p.2, rfl⟩

@[simp] theorem unpublished_publishing (todo : List Outcome) (after : After) :
    unpublished (.publishing todo after) = todo.map Outcome.write ++ after.held := by
  rw [unpublished, FlushPc.outcomes_publishing, FlushPc.held_publishing]

/-- A flush takes its writes from the queue, and puts back what it has taken. -/
theorem FlushMove_unpublished {clock : TimestampMs} {pc pc' : FlushPc} {w w' : World σ}
    (h : FlushMove index transport endpointId clock pc w pc' w') :
    (∀ x ∈ unpublished pc', x ∈ unpublished pc ∨
      pc = .start ∧ x ∈ w.dispatcher.writeQueues endpointId) ∧
    ∀ x ∈ w'.dispatcher.writeQueues endpointId,
      x ∈ unpublished pc ∨ x ∈ w.dispatcher.writeQueues endpointId := by
  cases h with
  | empty | done | unbound | bound | get => exact ⟨fun x hx => .inl hx, fun x hx => .inr hx⟩
  | take =>
    refine ⟨fun x hx => .inr ⟨rfl, hx⟩, fun x hx => ?_⟩
    simp [Dispatcher.setQueue] at hx
  | skip hp =>
    exact ⟨fun x hx => .inl (List.mem_cons_of_mem _ hx), fun x hx => .inr hx⟩
  | unencodable hp =>
    refine ⟨fun x hx => .inl ?_, fun x hx => .inr hx⟩
    simp only [unpublished, FlushPc.outcomes, FlushPc.held, plan_eq_unencodable hp]
    exact List.mem_append_right _ (List.mem_append_right _ hx)
  | refused => exact ⟨fun x hx => .inl hx, fun x hx => .inr hx⟩
  | granted =>
    refine ⟨fun x hx => .inl ?_, fun x hx => .inr hx⟩
    simpa [unpublished, FlushPc.outcomes, FlushPc.held, After.held, Outcome.write] using hx
  | put =>
    refine ⟨fun x hx => .inl ?_, fun x hx => .inr hx⟩
    rw [unpublished_publishing] at hx
    exact List.mem_cons_of_mem _ hx
  | requeue =>
    refine ⟨fun x hx => absurd hx List.not_mem_nil, fun x hx => ?_⟩
    simpa [Dispatcher.requeue, Dispatcher.setQueue, Dispatcher.record, unpublished,
      FlushPc.outcomes, FlushPc.held] using hx

/-- A move of a flush passes on the writes it has taken, except one whose result it
publishes, writes to unknown tags, and the writes of a broken coil run. -/
theorem FlushMove_awaited {clock : TimestampMs} {pc pc' : FlushPc} {w w' : World σ}
    (h : FlushMove index transport endpointId clock pc w pc' w')
    (hknown : ∀ x ∈ unpublished pc, (index.findById x.tagId).isSome = true)
    (hruns : ∀ write batch, pc = .loop (write :: batch) →
      startsBrokenRun index write batch = false) :
    (∀ x ∈ w'.dispatcher.writeQueues endpointId ++ unpublished pc',
      x ∈ w.dispatcher.writeQueues endpointId ++ unpublished pc) ∧
    ∀ x ∈ w.dispatcher.writeQueues endpointId ++ unpublished pc,
      x ∈ w'.dispatcher.writeQueues endpointId ++ unpublished pc' ∨
        ∃ previous outcome todo after, pc = .put previous outcome todo after ∧
          outcome.write = x := by
  constructor
  · obtain ⟨hpass, hback⟩ := FlushMove_unpublished h
    intro x hx
    rcases List.mem_append.mp hx with hx | hx
    · exact List.mem_append.mpr (hback x hx).symm
    · exact List.mem_append.mpr ((hpass x hx).imp_right And.right).symm
  intro x hx
  cases h with
  | empty | done | bound | unbound | get | refused => exact .inl hx
  | take =>
    refine .inl (List.mem_append_right _ ?_)
    rwa [show unpublished .start = [] from rfl, List.append_nil] at hx
  | @skip write batch w hp =>
    have hhead := hknown write (by simp [unpublished, FlushPc.outcomes, FlushPc.held])
    rw [plan_eq_skip hp] at hhead
    cases hhead
  | @unencodable write bad batch lost left e w hp =>
    have hlost : lost = [] := by
      by_contra hne
      have hbroken := (startsBrokenRun_iff index write batch).mpr ⟨_, _, _, _, hp, hne⟩
      rw [hruns write batch rfl] at hbroken
      cases hbroken
    have hbatch := plan_eq_unencodable hp
    rw [hlost, List.nil_append] at hbatch
    simp only [unpublished, FlushPc.outcomes, FlushPc.held, hbatch] at hx
    exact .inl hx
  | @granted write tail rest =>
    have hsame : unpublished (.get (.good write) (tail.map .good) (.loop rest)) =
        unpublished (.loop (write :: (tail ++ rest))) := by
      simp [unpublished, FlushPc.outcomes, FlushPc.held, After.held, Outcome.write,
        Function.comp_def]
    rw [hsame]
    exact .inl hx
  | @put previous outcome todo after w =>
    have hsplit : unpublished (.put previous outcome todo after) =
        outcome.write :: (todo.map Outcome.write ++ after.held) := rfl
    rw [hsplit, List.mem_append, List.mem_cons] at hx
    rw [unpublished_publishing]
    rcases hx with hq | rfl | hx
    · exact .inl (List.mem_append_left _ hq)
    · exact .inr ⟨previous, outcome, todo, after, rfl, rfl⟩
    · exact .inl (List.mem_append_right _ hx)
  | @requeue writes e w =>
    refine .inl ?_
    simp only [Dispatcher.requeue, Dispatcher.setQueue, Dispatcher.record, Function.update_self,
      unpublished, FlushPc.outcomes, FlushPc.held, List.map_nil, List.nil_append, List.append_nil,
      List.mem_append] at hx ⊢
    exact hx.symm

/-- A move of a flush publishes what its place announces, and nothing else. -/
theorem FlushMove_store {clock : TimestampMs} {pc pc' : FlushPc} {w w' : World σ}
    (h : FlushMove index transport endpointId clock pc w pc' w') :
    w'.dispatcher.tagStore =
      note w.dispatcher.tagStore (Occupant.publication (.flush clock pc)) := by
  cases h with
  | _ => rfl

theorem Occupant.publication_certain {o : Occupant} {id : TagId} {value : TagValue}
    (h : o.publication = some (id, value)) : value.quality ≠ .uncertain := by
  unfold Occupant.publication at h
  split at h
  · rename_i outcome _ _
    cases h
    cases outcome <;> simp [Outcome.update, Dispatcher.qualityUpdate, withQuality_eq]
  · cases h
    simp [Report.update]
  · rename_i report _
    cases h
    cases report <;> simp [Report.update, Dispatcher.qualityUpdate, withQuality_eq]
  · cases h

namespace Occupant

/-- What a step of the strand does to the store and to what is left to publish. -/
structure Move (endpointId : String) (o : Occupant) (w : World σ) (o' : Option Occupant)
    (w' : World σ) : Prop where
  store : w'.dispatcher.tagStore = note w.dispatcher.tagStore o.publication
  awaited : ∀ x ∈ awaitedBy (w'.dispatcher.writeQueues endpointId) o',
    x ∈ awaitedBy (w.dispatcher.writeQueues endpointId) (some o)
  owed : ∀ id ∈ owedBy (w.dispatcher.writeQueues endpointId) (some o),
    id ∈ owedBy (w'.dispatcher.writeQueues endpointId) o' ∨
      ∃ value, o.publication = some (id, value)

theorem step_flush (clock : TimestampMs) {pc : FlushPc} (h : pc.isFinished = false) (w : World σ) :
    Occupant.step index transport endpointId (.flush clock pc) w =
      (pc.step index transport endpointId clock w).map
        fun (pc, w) => (some (.flush clock pc), w) := by
  cases pc with
  | finished r => cases h
  | _ => rfl

theorem move_flush {clock : TimestampMs} {pc pc' : FlushPc} {w w' : World σ}
    (h : FlushMove index transport endpointId clock pc w pc' w')
    (hknown : ∀ x ∈ unpublished pc, (index.findById x.tagId).isSome = true)
    (hruns : Occupant.drops index (.flush clock pc) = false) :
    Move endpointId (.flush clock pc) w (some (.flush clock pc')) w' := by
  have hpass := FlushMove_awaited h hknown (fun write batch hpc => by
    rw [hpc] at hruns
    exact hruns)
  refine ⟨FlushMove_store h, hpass.1, ?_⟩
  intro id hid
  simp only [owedBy, reported, Option.map_some, Option.getD_some, List.append_nil] at hid ⊢
  obtain ⟨x, hx, rfl⟩ := List.mem_map.mp hid
  rcases hpass.2 x hx with hx | ⟨previous, outcome, todo, after, rfl, rfl⟩
  · exact .inl (List.mem_map_of_mem hx)
  · exact .inr ⟨_, rfl⟩

/-- A step that leaves the queue alone and takes the first report off the list, if it
makes one. -/
theorem move_reports {o : Occupant} {todo : List Report} {w w' : World σ}
    (hwrites : o.writes = [])
    (hqueue : w'.dispatcher.writeQueues = w.dispatcher.writeQueues)
    (hstore : w'.dispatcher.tagStore = note w.dispatcher.tagStore o.publication)
    (howed : ∀ id ∈ o.reported, id ∈ todo.map Report.tagId ∨
      ∃ value, o.publication = some (id, value)) :
    Move endpointId o w (some (.reports todo)) w' := by
  refine ⟨hstore, ?_, ?_⟩
  · intro x hx
    rw [hqueue] at hx
    exact List.mem_append_left _ (by simpa [awaitedBy, Occupant.writes] using hx)
  · intro id hid
    have hnone : (reports todo).writes = [] := rfl
    simp only [owedBy, awaitedBy, hwrites, hnone, hqueue, Option.map_some, Option.getD_some,
      List.append_nil, List.mem_append] at hid ⊢
    rcases hid with hid | hid
    · exact .inl (.inl hid)
    · exact (howed id hid).imp_left Or.inr

theorem move_of_step {o : Occupant} {o' : Option Occupant} {w w' : World σ}
    (h : o.step index transport endpointId w = some (o', w'))
    (hknown : ∀ x ∈ o.writes, (index.findById x.tagId).isSome = true)
    (hruns : o.drops index = false) : Move endpointId o w o' w' := by
  cases o with
  | flush clock pc =>
    cases hfin : pc.isFinished with
    | false =>
      rw [step_flush clock hfin] at h
      obtain ⟨⟨pc', w''⟩, hpc, hstep⟩ := Option.map_eq_some_iff.mp h
      cases hstep
      exact move_flush (FlushPc.move_of_step hpc) hknown hruns
    | true =>
      cases pc with
      | finished r =>
        cases h
        exact ⟨rfl, fun x hx => hx, fun id hid => .inl hid⟩
      | _ => cases hfin
  | reports todo =>
    cases todo with
    | nil =>
      cases h
      exact ⟨rfl, fun x hx => hx, fun id hid => .inl hid⟩
    | cons report todo =>
      cases report with
      | good id value now =>
        cases h
        refine move_reports rfl rfl rfl ?_
        intro id' hid
        rcases List.mem_cons.mp hid with rfl | hid
        · exact .inr ⟨_, rfl⟩
        · exact .inl hid
      | bad id reason now =>
        cases h
        exact ⟨rfl, fun x hx => hx, fun id hid => .inl hid⟩
  | put previous report todo =>
    cases h
    refine move_reports rfl rfl rfl ?_
    intro id hid
    rcases List.mem_cons.mp hid with rfl | hid
    · exact .inr ⟨_, rfl⟩
    · exact .inl hid

end Occupant

/-! ### The two stores -/

namespace Scene

/-- The invariant of the guarded runs: a tag on which the stores differ is one that the
strand has still to publish. -/
structure Steady (index : RuntimeIndex) (endpointId : String) (s : Scene σ) : Prop where
  known : ∀ x ∈ s.awaited endpointId, (index.findById x.tagId).isSome = true
  shows : ∀ id v, s.shown.get id = some v →
    s.world.dispatcher.tagStore.get id = some v ∨ id ∈ s.owed endpointId
  certain : ∀ id v, s.shown.get id = some v → v.quality ≠ .uncertain
  published : ∀ c ∈ s.calls,
    c.write.tagId ∈ s.owed endpointId ∨ (s.shown.get c.write.tagId).isSome = true

theorem Steady.of_fresh {s : Scene σ} (h : s.Fresh endpointId) : s.Steady index endpointId := by
  obtain ⟨hqueue, hcalls, hocc, hshown⟩ := h
  refine ⟨?_, ?_, ?_, ?_⟩
  · simp [awaited, awaitedBy, hqueue, hocc]
  · simp [hshown, TagStore.get]
  · simp [hshown, TagStore.get]
  · simp [hcalls]

/-- The stages of the UA threads do not matter. -/
theorem Steady.setCall {s : Scene σ} (h : s.Steady index endpointId) {call : ℕ} {c : UaWrite}
    (hget : s.calls[call]? = some c) (stage : Stage) :
    (s.setCall call { c with stage := stage }).Steady index endpointId := by
  refine ⟨h.known, h.shows, h.certain, ?_⟩
  intro c' hc'
  rcases List.mem_or_eq_of_mem_set hc' with hc' | rfl
  · exact h.published c' hc'
  · exact h.published c (List.mem_of_getElem? hget)

/-- A write accepted for a tag of the endpoint is owed a publish. -/
theorem Steady.write {s : Scene σ} (h : s.Steady index endpointId) {tagId : TagId}
    {value : ScalarValue} {b : TagBinding} (hb : index.findById tagId = some b) :
    Steady index endpointId { s with
      world := ⟨s.world.dispatcher.accept b.endpointId tagId value, s.world.transports⟩
      calls := if onEndpoint index endpointId ⟨tagId, value, s.world.dispatcher.nextSeq⟩ then
        s.calls ++ [{ write := ⟨tagId, value, s.world.dispatcher.nextSeq⟩ }] else s.calls } := by
  by_cases hep : b.endpointId = endpointId
  · have hours : onEndpoint index endpointId ⟨tagId, value, s.world.dispatcher.nextSeq⟩ = true := by
      simp [onEndpoint, hb, hep]
    have hqueue := s.world.dispatcher.accept_writeQueues endpointId tagId value
    have howed : ∀ id, id ∈ s.owed endpointId ∨ id = tagId → id ∈ owedBy
        ((s.world.dispatcher.accept endpointId tagId value).writeQueues endpointId) s.occupant := by
      intro id hid
      simp only [owed, owedBy, awaitedBy, hqueue, List.map_append, List.mem_append, List.map_cons,
        List.map_nil, List.mem_singleton] at hid ⊢
      tauto
    rw [if_pos hours, hep]
    refine ⟨?_, ?_, h.certain, ?_⟩
    · intro x hx
      simp only [awaited, awaitedBy, hqueue, List.mem_append, List.mem_singleton] at hx
      rcases hx with (hx | rfl) | hx
      · exact h.known x (List.mem_append_left _ hx)
      · simp [hb]
      · exact h.known x (List.mem_append_right _ hx)
    · intro id v hv
      exact (h.shows id v hv).imp_right fun hid => howed id (.inl hid)
    · intro c hc
      rcases List.mem_append.mp hc with hc | hc
      · exact (h.published c hc).imp_left fun hid => howed _ (.inl hid)
      · obtain rfl := List.mem_singleton.mp hc
        exact .inl (howed _ (.inr rfl))
  · have hours : onEndpoint index endpointId ⟨tagId, value, s.world.dispatcher.nextSeq⟩ = false := by
      simp [onEndpoint, hb, hep]
    have hqueue := s.world.dispatcher.accept_writeQueues_of_ne tagId value (Ne.symm hep)
    rw [if_neg (by simp [hours])]
    refine ⟨?_, ?_, h.certain, ?_⟩
    · simp only [awaited, hqueue]
      exact h.known
    · simp only [owed, hqueue]
      exact h.shows
    · simp only [owed, hqueue]
      exact h.published

/-- A UA thread publishes a tag that the strand has still to publish. -/
theorem Steady.publish {s : Scene σ} (h : s.Steady index endpointId) {id : TagId}
    (hid : id ∈ s.owed endpointId) (value : TagValue) :
    (s.mapDispatcher fun d => d.publish id value none).Steady index endpointId := by
  refine ⟨h.known, ?_, h.certain, h.published⟩
  intro id' v hv
  by_cases heq : id' = id
  · exact .inr (heq ▸ hid)
  · refine (h.shows id' v hv).imp_left fun hstore => ?_
    exact (TagStore.get_publish_of_ne _ _ heq).trans hstore

/-- The free strand takes up a flush or the reports of a poll. -/
theorem Steady.occupy {s : Scene σ} (h : s.Steady index endpointId) (hocc : s.occupant = none)
    {o : Occupant} (hwrites : o.writes = []) :
    Steady index endpointId { s with occupant := some o } := by
  have howed : ∀ id ∈ s.owed endpointId,
      id ∈ owedBy (s.world.dispatcher.writeQueues endpointId) (some o) := by
    intro id hid
    simp only [owed, owedBy, awaitedBy, hocc, hwrites, Option.map_none, Option.getD_none,
      Option.map_some, Option.getD_some, List.append_nil] at hid ⊢
    exact List.mem_append_left _ hid
  refine ⟨?_, ?_, h.certain, ?_⟩
  · have hknown := h.known
    simp only [awaited, awaitedBy, hocc, hwrites, Option.map_none, Option.getD_none,
      Option.map_some, Option.getD_some] at hknown ⊢
    exact hknown
  · intro id v hv
    exact (h.shows id v hv).imp_right (howed id)
  · intro c hc
    exact (h.published c hc).imp_left (howed _)

/-- What the strand publishes goes to both stores. -/
theorem Steady.advance {s : Scene σ} (h : s.Steady index endpointId) {o : Occupant}
    {o' : Option Occupant} {w : World σ} (ho : s.occupant = some o)
    (hmove : Occupant.Move endpointId o s.world o' w) :
    Steady index endpointId
      { s with world := w, occupant := o', shown := note s.shown o.publication } := by
  refine ⟨?_, ?_, ?_, ?_⟩
  · intro x hx
    refine h.known x ?_
    rw [awaited, ho]
    exact hmove.awaited x hx
  · intro id v hv
    rcases note_cases o.publication id with ⟨value, hp, hget⟩ | ⟨hp, hget⟩
    · refine .inl ?_
      rw [hmove.store, hget, ← hv, hget]
    · rw [hget] at hv
      rcases h.shows id v hv with hstore | hid
      · refine .inl ?_
        rw [hmove.store, hget, hstore]
      · rw [owed, ho] at hid
        exact .inr ((hmove.owed id hid).resolve_right hp)
  · intro id v hv
    rcases note_cases o.publication id with ⟨value, hp, hget⟩ | ⟨hp, hget⟩
    · rw [hget] at hv
      cases hv
      exact Occupant.publication_certain hp
    · rw [hget] at hv
      exact h.certain id v hv
  · intro c hc
    rcases note_cases o.publication c.write.tagId with ⟨value, hp, hget⟩ | ⟨hp, hget⟩
    · refine .inr ?_
      rw [hget]
      rfl
    · rcases h.published c hc with hid | hshown
      · rw [owed, ho] at hid
        exact .inl ((hmove.owed _ hid).resolve_right hp)
      · refine .inr ?_
        rw [hget]
        exact hshown

theorem step_steady {action : SceneAction} {s s' : Scene σ} (h : s.Steady index endpointId)
    (htime : InTime index endpointId action s)
    (hstep : step index transport endpointId action s = some s') : s'.Steady index endpointId := by
  cases action with
  | write tagId value =>
    simp only [step] at hstep
    obtain ⟨e, he⟩ | ⟨b, hb, -, -, he⟩ := s.world.dispatcher.enqueueWrite_cases index tagId value
    · rw [he] at hstep
      cases hstep
      exact h
    · rw [he] at hstep
      cases hstep
      exact h.write hb
  | get call =>
    simp only [step] at hstep
    split at hstep
    · rename_i write hget
      cases hstep
      exact h.setCall hget _
    · cases hstep
  | publish call clock =>
    simp only [step] at hstep
    split at hstep
    · rename_i write previous hget
      cases hstep
      have hid : write.tagId ∈ s.owed endpointId := htime _ hget
      exact (h.publish hid _).setCall hget _
    · cases hstep
  | flush clock =>
    simp only [step] at hstep
    split at hstep
    · rename_i hocc
      cases hstep
      exact h.occupy hocc rfl
    · cases hstep
  | poll reports =>
    simp only [step] at hstep
    split at hstep
    · rename_i hocc
      cases hstep
      exact h.occupy hocc rfl
    · cases hstep
  | advance =>
    simp only [step] at hstep
    split at hstep
    · cases hstep
    · rename_i o ho
      obtain ⟨⟨o', w⟩, hmove, rfl⟩ := Option.map_eq_some_iff.mp hstep
      have hruns : o.drops index = false := by simpa [InTime, drops, ho] using htime
      refine h.advance ho (Occupant.move_of_step hmove ?_ hruns)
      intro x hx
      refine h.known x ?_
      rw [awaited, ho]
      exact List.mem_append_right _ hx

/-- In every run whose UA threads publish in time and whose flushes drop nothing, once
everything is done the tag of every UA write shows what the strand published last. -/
theorem confirmed_of_settled {s : Scene σ}
    (h : Transition.Reachable (step index transport endpointId) (InTime index endpointId)
      (Fresh endpointId) s) (hsettled : s.Settled endpointId) : s.Confirmed := by
  have hsteady : s.Steady index endpointId := by
    refine h.invariant (Steady index endpointId) (fun s hs => Steady.of_fresh hs) ?_
    intro s t action _ hs htime hstep
    exact step_steady hs htime hstep
  obtain ⟨-, hocc, hqueue⟩ := hsettled
  have hnone : s.owed endpointId = [] := by simp [owed, owedBy, awaitedBy, hqueue, hocc]
  intro c hc
  have hshown := hsteady.published c hc
  rw [hnone] at hshown
  obtain ⟨v, hv⟩ := Option.isSome_iff_exists.mp (hshown.resolve_left (List.not_mem_nil))
  have hstore := hsteady.shows _ v hv
  rw [hnone] at hstore
  refine ⟨v, hv, hstore.resolve_right (List.not_mem_nil), ?_⟩
  rintro ⟨huncertain, -⟩
  exact hsteady.certain _ v hv huncertain

end Scene

end Strand

end Scene

/-! ### A flush between the handler and the publish -/

section Setpoint

attribute [local instance] exactPlatform

/-- Every write that was put to the transport succeeded. -/
def writesSucceed (trace : List Event) : Bool :=
  trace.all fun
    | .call _ (.write _) ok _ => ok
    | _ => true

def setpointScene : Scene Unit := { world := { transports := fun _ => some () } }

theorem setpointScene_fresh : setpointScene.Fresh "plc" := ⟨rfl, rfl, rfl, rfl⟩

/-- A flush of one register, from its start until the strand is free again. -/
def flushActions : List SceneAction :=
  [.flush 5, .advance, .advance, .advance, .advance, .advance, .advance, .advance]

/-- The write is confirmed while its UA thread is on the way to mark it pending. -/
theorem confirmed_write_unconfirmed :
    ¬ ∀ s, Transition.Reachable (Scene.step setpoint granting "plc") Transition.Free
      (Scene.Fresh "plc") s → s.Settled "plc" → writesSucceed s.world.dispatcher.trace = true →
      s.Confirmed := by
  intro h
  have hend : (Transition.run (Scene.step setpoint granting "plc")
      ([.write 1 (.uint16 10)] ++ flushActions ++ [.get 0, .publish 0 7]) setpointScene).map
      (fun s => (s.calls, s.occupant, s.world.dispatcher.writeQueues "plc",
        writesSucceed s.world.dispatcher.trace, s.world.dispatcher.tagStore.get 1)) =
      some ([⟨⟨1, .uint16 10, 0⟩, .finished⟩], none, [], true,
        some ⟨.uint16 10, .uncertain, .writePending, 5, 7, 0⟩) := by
    decide +kernel
  obtain ⟨s, hrun, hs⟩ := Option.map_eq_some_iff.mp hend
  simp only [Prod.mk.injEq] at hs
  obtain ⟨hcalls, hocc, hqueue, hok, hstore⟩ := hs
  have hreach := (Transition.Reachable.start setpointScene_fresh).of_run _ hrun
  have hsettled : s.Settled "plc" := ⟨by simp [hcalls], hocc, hqueue⟩
  obtain ⟨v, -, hv, hpending⟩ := h s hreach hsettled hok ⟨⟨1, .uint16 10, 0⟩, .finished⟩
    (by simp [hcalls])
  cases hstore.symm.trans hv
  exact hpending ⟨rfl, rfl⟩

/-- A write marked pending before its flush, with a poll of its tag in between. -/
theorem setpoint_confirmed : ∃ s, Transition.run (Scene.step setpoint granting "plc")
    ([.write 1 (.uint16 10), .get 0, .publish 0 7, .poll [.bad 1 .timeout 4], .advance, .advance,
      .advance] ++ flushActions) setpointScene = some s ∧ s.calls.length = 1 ∧ s.Confirmed := by
  have hend : (Transition.run (Scene.step setpoint granting "plc")
      ([.write 1 (.uint16 10), .get 0, .publish 0 7, .poll [.bad 1 .timeout 4], .advance, .advance,
        .advance] ++ flushActions) setpointScene).map
      (fun s => (s.calls, s.occupant, s.world.dispatcher.writeQueues "plc")) =
      some ([⟨⟨1, .uint16 10, 0⟩, .finished⟩], none, []) := by
    decide +kernel
  obtain ⟨s, hrun, hs⟩ := Option.map_eq_some_iff.mp hend
  simp only [Prod.mk.injEq] at hs
  obtain ⟨hcalls, hocc, hqueue⟩ := hs
  have hmeets : Transition.Meets (Scene.step setpoint granting "plc") (Scene.InTime setpoint "plc")
      ([.write 1 (.uint16 10), .get 0, .publish 0 7, .poll [.bad 1 .timeout 4], .advance, .advance,
        .advance] ++ flushActions) setpointScene := by
    decide +kernel
  have hreach := (Transition.Reachable.start setpointScene_fresh).of_meets _ hmeets hrun
  have hsettled : s.Settled "plc" := ⟨by simp [hcalls], hocc, hqueue⟩
  exact ⟨s, hrun, by simp [hcalls], Scene.confirmed_of_settled hreach hsettled⟩

end Setpoint

end OpcServer.App
