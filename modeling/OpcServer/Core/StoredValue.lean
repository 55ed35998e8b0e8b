import OpcServer.Core.WriteOrder

/-! The value stored for a tag, for flushes that do not overlap on an endpoint: it is
the value of the last delivered write whose result has been published. Reading and
writing the store are two steps of a flush; no other flush touches a tag of its
endpoint in between. -/

namespace OpcServer.Core

open Domain Project Transition

variable [Platform] {σ : Type} {index : RuntimeIndex} {transport : IModbusTransport σ}

/-- The last of some writes that goes to a tag. -/
def lastWrite (id : TagId) (writes : List PendingWrite) : Option PendingWrite :=
  writes.reverse.find? fun w => w.tagId == id

theorem lastWrite_concat (id : TagId) (writes : List PendingWrite) (w : PendingWrite) :
    lastWrite id (writes ++ [w]) = if w.tagId = id then some w else lastWrite id writes := by
  simp [lastWrite, List.find?_cons]
  split <;> simp_all

theorem lastWrite_mem {id : TagId} {writes : List PendingWrite} {w : PendingWrite}
    (h : lastWrite id writes = some w) : w ∈ writes ∧ w.tagId = id := by
  have hmem := List.mem_of_find?_eq_some h
  have hid := List.find?_some h
  exact ⟨List.mem_reverse.mp hmem, by simpa using hid⟩

/-! ### Publishes to come -/

/-- The delivered write that an outcome reports. -/
def Outcome.granted : Outcome → List PendingWrite
  | .good write => [write]
  | .bad _ _ => []

def FlushPc.outcomes : FlushPc → List Outcome
  | .get outcome todo _ | .put _ outcome todo _ => outcome :: todo
  | _ => []

/-- Delivered writes that a flush has not published yet. -/
def FlushPc.pending (pc : FlushPc) : List PendingWrite := pc.outcomes.flatMap Outcome.granted

@[simp] theorem FlushPc.outcomes_publishing (todo : List Outcome) (after : After) :
    (FlushPc.publishing todo after).outcomes = todo := by
  cases todo with
  | nil => cases after <;> rfl
  | cons outcome todo => rfl

theorem flatMap_granted_good (writes : List PendingWrite) :
    (writes.map Outcome.good).flatMap Outcome.granted = writes := by
  induction writes with
  | nil => rfl
  | cons write rest ih => simp [Outcome.granted, ih]

/-- A move leaves the store alone and puts newly delivered writes on the list of pending
publishes, or it makes the next publish. -/
theorem FlushMove.store_cases {endpointId : String} {now : TimestampMs} {pc pc' : FlushPc}
    {w w' : World σ} (h : FlushMove index transport endpointId now pc w pc' w') :
    (w'.dispatcher.tagStore = w.dispatcher.tagStore ∧ ∃ new,
      delivered endpointId w'.dispatcher.trace = delivered endpointId w.dispatcher.trace ++ new ∧
        pc'.pending = pc.pending ++ new) ∨
    ∃ previous outcome todo after, pc = .put previous outcome todo after ∧
      pc' = .publishing todo after ∧
      delivered endpointId w'.dispatcher.trace = delivered endpointId w.dispatcher.trace ∧
      w'.dispatcher.tagStore = w.dispatcher.tagStore.publish outcome.write.tagId
        (outcome.update now previous) := by
  cases h with
  | empty | done | refused | requeue =>
    refine .inl ⟨rfl, [], ?_, rfl⟩
    rw [delivered_record]
    exact congrArg _ rfl
  | @granted write tail =>
    refine .inl ⟨rfl, write :: tail, ?_, ?_⟩
    · rw [delivered_record]
      simp [delivered]
    · exact congrArg (List.cons _) (flatMap_granted_good _)
  | put => exact .inr ⟨_, _, _, _, rfl, rfl, delivered_publish .., rfl⟩
  | _ => exact .inl ⟨rfl, [], (List.append_nil _).symm, (List.append_nil _).symm⟩

/-- A flush about to publish has just read the store. -/
theorem FlushMove.reads {endpointId : String} {now : TimestampMs} {pc pc' : FlushPc}
    {w w' : World σ} (h : FlushMove index transport endpointId now pc w pc' w')
    {previous : Option TagValue} {o : Outcome} {todo : List Outcome} {after : After}
    (hpc : pc' = .put previous o todo after) :
    previous = w'.dispatcher.tagStore.get o.write.tagId := by
  cases h with
  | get =>
    cases hpc
    rfl
  | @put _ _ todo after =>
    cases todo with
    | nil => cases after <;> cases hpc
    | cons outcome todo => cases hpc
  | _ => cases hpc

/-- What a flush reports, it held before. -/
theorem FlushMove.outcomes_subset {endpointId : String} {now : TimestampMs} {pc pc' : FlushPc}
    {w w' : World σ} (h : FlushMove index transport endpointId now pc w pc' w') :
    ∀ o ∈ pc'.outcomes, o ∈ pc.outcomes ∨ o.write ∈ pc.held := by
  intro o ho
  cases h with
  | unencodable hp =>
    obtain rfl := List.mem_singleton.mp ho
    refine .inr ?_
    rw [FlushPc.held, plan_eq_unencodable hp]
    simp [Outcome.write]
  | refused =>
    obtain rfl := List.mem_singleton.mp ho
    exact .inr List.mem_cons_self
  | granted =>
    rcases List.mem_cons.mp ho with rfl | ho
    · exact .inr List.mem_cons_self
    · obtain ⟨w, hw, rfl⟩ := List.mem_map.mp ho
      exact .inr (List.mem_cons_of_mem _ (List.mem_append_left _ hw))
  | get => exact .inl ho
  | put =>
    rw [FlushPc.outcomes_publishing] at ho
    exact .inl (List.mem_cons_of_mem _ ho)
  | _ => cases ho

/-! ### The stored values -/

/-- The store holds, for each tag, the value of the last of these writes to it. -/
def StoreShows (store : TagStore) (writes : List PendingWrite) : Prop :=
  ∀ id w, lastWrite id writes = some w → ∃ v, store.get id = some v ∧ v.value = w.value

/-- A publish of the outcome of a write over the value just read. -/
theorem StoreShows.publish {store : TagStore} {writes : List PendingWrite}
    (h : StoreShows store writes) (now : TimestampMs) (o : Outcome) :
    StoreShows (store.publish o.write.tagId (o.update now (store.get o.write.tagId)))
      (writes ++ o.granted) := by
  intro id w hw
  cases o with
  | good write =>
    rw [Outcome.granted, lastWrite_concat] at hw
    by_cases hid : write.tagId = id
    · rw [if_pos hid] at hw
      cases hw
      subst hid
      exact ⟨_, TagStore.get_publish_self .., rfl⟩
    · rw [if_neg hid] at hw
      obtain ⟨v, hv, hval⟩ := h id w hw
      exact ⟨v, (TagStore.get_publish_of_ne _ _ (Ne.symm hid)).trans hv, hval⟩
  | bad reason write =>
    rw [Outcome.granted, List.append_nil] at hw
    obtain ⟨v, hv, hval⟩ := h id w hw
    by_cases hid : write.tagId = id
    · -- a Bad publish keeps the value it has read
      subst hid
      refine ⟨_, TagStore.get_publish_self .., ?_⟩
      rw [← hval]
      simp [Outcome.update, Outcome.write, Dispatcher.qualityUpdate, withQuality_eq, hv]
    · exact ⟨v, (TagStore.get_publish_of_ne _ _ (Ne.symm hid)).trans hv, hval⟩

theorem StoreShows.publish_other {store : TagStore} {writes : List PendingWrite}
    (h : StoreShows store writes) {id : TagId} (value : TagValue)
    (hid : ∀ w ∈ writes, w.tagId ≠ id) : StoreShows (store.publish id value) writes := by
  intro id' w hw
  obtain ⟨v, hv, hval⟩ := h id' w hw
  obtain ⟨hmem, rfl⟩ := lastWrite_mem hw
  exact ⟨v, (TagStore.get_publish_of_ne _ _ (hid w hmem)).trans hv, hval⟩

/-- The store shows all deliveries that no flush has still to publish, and a flush about
to publish has read the current value of its own tag. -/
structure System.Stored (index : RuntimeIndex) (s : System σ) : Prop where
  shows : ∀ ep, ∃ settled, StoreShows s.world.dispatcher.tagStore settled ∧
    delivered ep s.world.dispatcher.trace = settled ++ s.gather FlushPc.pending ep
  own : ∀ f ∈ s.flushes, ∀ o ∈ f.pc.outcomes, onEndpoint index f.endpointId o.write
  current : ∀ f ∈ s.flushes, ∀ previous o todo after, f.pc = .put previous o todo after →
    previous = s.world.dispatcher.tagStore.get o.write.tagId

theorem System.Stored.of_fresh {s : System σ} (h : s.Fresh) : s.Stored index := by
  obtain ⟨ht, -, hf⟩ := h
  refine ⟨fun ep => ⟨[], ?_, ?_⟩, ?_, ?_⟩
  · intro id w hw
    cases hw
  · simp [ht, hf, System.gather, delivered]
  · simp [hf]
  · simp [hf]

/-- The tags that flushes of different endpoints report differ. -/
theorem tagId_ne_of_endpoint {ep ep' : String} {w w' : PendingWrite} (hne : ep ≠ ep')
    (h : onEndpoint index ep w) (h' : onEndpoint index ep' w') : w.tagId ≠ w'.tagId := by
  intro heq
  have hw : onEndpoint index ep' w := by
    rw [onEndpoint, heq]
    exact h'
  exact hne (onEndpoint_unique h hw)

/-- A flush in progress holds writes of its own endpoint. -/
theorem System.Orderly.known_of_held {before after : List Flush} {f : Flush} {w : World σ}
    (ho : System.Orderly index ⟨w, before ++ f :: after⟩) (hf : f.pc.isFinished = false)
    {write : PendingWrite} (hw : write ∈ f.pc.held) : onEndpoint index f.endpointId write := by
  have hg := System.gather_eq FlushPc.held (fun _ => rfl) w f.pc ho.exclusive hf
  refine ho.known f.endpointId write ((ho.order f.endpointId).subset ?_)
  rw [lineup, hg]
  simp [hw]

/-- The calls other than the one that moves. -/
theorem mem_replaced {before after : List Flush} {f g h : Flush}
    (hg : g ∈ before ++ h :: after) : g ∈ before ++ f :: after ∧ g ∈ before ++ after ∨ g = h := by
  simp only [List.mem_append, List.mem_cons] at hg ⊢
  tauto

section Move
variable {before after : List Flush} {f : Flush} {pc : FlushPc} {w w' : World σ}

/-- A flush in progress reports writes of its own endpoint. -/
theorem System.Stored.own_of_move (h : System.Stored index ⟨w, before ++ f :: after⟩)
    (ho : System.Orderly index ⟨w, before ++ f :: after⟩)
    (hmove : FlushMove index transport f.endpointId f.now f.pc w pc w') :
    ∀ g ∈ before ++ { f with pc := pc } :: after, ∀ o ∈ g.pc.outcomes,
      onEndpoint index g.endpointId o.write := by
  intro g hg o hout
  rcases mem_replaced (f := f) hg with ⟨hg, -⟩ | rfl
  · exact h.own g hg o hout
  · rcases hmove.outcomes_subset o hout with hold | hheld
    · exact h.own f (by simp) o hold
    · exact ho.known_of_held hmove.not_finished hheld

/-- A move that leaves the store alone. -/
theorem System.Stored.advance_silent (h : System.Stored index ⟨w, before ++ f :: after⟩)
    (ho : System.Orderly index ⟨w, before ++ f :: after⟩)
    (hmove : FlushMove index transport f.endpointId f.now f.pc w pc w')
    (hstore : w'.dispatcher.tagStore = w.dispatcher.tagStore) {new : List PendingWrite}
    (hnew : delivered f.endpointId w'.dispatcher.trace =
      delivered f.endpointId w.dispatcher.trace ++ new)
    (hpc : pc.pending = f.pc.pending ++ new) :
    System.Stored index ⟨w', before ++ { f with pc := pc } :: after⟩ := by
  have hpending := System.gather_eq FlushPc.pending (fun _ => rfl) w f.pc ho.exclusive
    hmove.not_finished
  have hpending' := System.gather_eq FlushPc.pending (fun _ => rfl) w' pc ho.exclusive
    hmove.not_finished
  obtain ⟨-, -, hdel⟩ := hmove.trace_frame
  refine ⟨fun ep => ?_, h.own_of_move ho hmove, ?_⟩
  · obtain ⟨settled, hshows, hsplit⟩ := h.shows ep
    refine ⟨settled, by rw [hstore]; exact hshows, ?_⟩
    by_cases hep : f.endpointId = ep
    · subst hep
      rw [hpending', hpc, hnew, hsplit, hpending, List.append_assoc]
    · rw [System.gather_other FlushPc.pending w w' pc hep, hdel ep hep]
      exact hsplit
  · intro g hg previous o todo next hput
    rcases mem_replaced (f := f) hg with ⟨hg, -⟩ | rfl
    · rw [hstore]
      exact h.current g hg previous o todo next hput
    · exact hmove.reads hput

/-- A move that publishes the outcome of a write. -/
theorem System.Stored.advance_publish (h : System.Stored index ⟨w, before ++ f :: after⟩)
    (ho : System.Orderly index ⟨w, before ++ f :: after⟩)
    (hmove : FlushMove index transport f.endpointId f.now f.pc w pc w')
    {previous : Option TagValue} {o : Outcome} {todo : List Outcome} {next : After}
    (hput : f.pc = .put previous o todo next) (hpc : pc = .publishing todo next)
    (hsame : delivered f.endpointId w'.dispatcher.trace =
      delivered f.endpointId w.dispatcher.trace)
    (hstore : w'.dispatcher.tagStore =
      w.dispatcher.tagStore.publish o.write.tagId (o.update f.now previous)) :
    System.Stored index ⟨w', before ++ { f with pc := pc } :: after⟩ := by
  have hfm : f ∈ before ++ f :: after := by simp
  have hpending := System.gather_eq FlushPc.pending (fun _ => rfl) w f.pc ho.exclusive
    hmove.not_finished
  have hpending' := System.gather_eq FlushPc.pending (fun _ => rfl) w' pc ho.exclusive
    hmove.not_finished
  obtain ⟨-, -, hdel⟩ := hmove.trace_frame
  have hprev := h.current f hfm previous o todo next hput
  have hoOwn := h.own f hfm o (by rw [hput]; exact List.mem_cons_self)
  have hpend : f.pc.pending = o.granted ++ pc.pending := by
    rw [hput, hpc, FlushPc.pending, FlushPc.pending, FlushPc.outcomes_publishing]
    rfl
  refine ⟨fun ep => ?_, h.own_of_move ho hmove, ?_⟩
  · obtain ⟨settled, hshows, hsplit⟩ := h.shows ep
    by_cases hep : f.endpointId = ep
    · subst hep
      refine ⟨settled ++ o.granted, ?_, ?_⟩
      · rw [hstore, hprev]
        exact hshows.publish f.now o
      · rw [hpending', hsame, hsplit, hpending, hpend, List.append_assoc]
    · refine ⟨settled, ?_, ?_⟩
      · rw [hstore]
        refine hshows.publish_other _ fun write hw => ?_
        have hd : write ∈ delivered ep w.dispatcher.trace := by
          rw [hsplit]
          exact List.mem_append_left _ hw
        have hk := ho.known ep write ((ho.order ep).subset (List.mem_append_left _ hd))
        exact tagId_ne_of_endpoint (Ne.symm hep) hk hoOwn
      · rw [System.gather_other FlushPc.pending w w' pc hep, hdel ep hep]
        exact hsplit
  · intro g hg previous' o' todo' next' hput'
    rcases mem_replaced (f := f) hg with ⟨hg, hg'⟩ | rfl
    · -- another flush in progress belongs to another endpoint
      have hne : g.endpointId ≠ f.endpointId := by
        intro heq
        obtain ⟨hb, ha⟩ := ho.exclusive.others hmove.not_finished
        have hfin : g.pc.isFinished = true := (List.mem_append.mp hg').elim
          (fun hg => hb g hg heq) (fun hg => ha g hg heq)
        rw [hput'] at hfin
        cases hfin
      have hgOwn := h.own g hg o' (by rw [hput']; exact List.mem_cons_self)
      rw [hstore, TagStore.get_publish_of_ne _ _ (tagId_ne_of_endpoint hne hgOwn hoOwn)]
      exact h.current g hg previous' o' todo' next' hput'
    · exact hmove.reads hput'

/-- One move of a flush keeps the store in step with the deliveries. -/
theorem System.Stored.advance (h : System.Stored index ⟨w, before ++ f :: after⟩)
    (ho : System.Orderly index ⟨w, before ++ f :: after⟩)
    (hmove : FlushMove index transport f.endpointId f.now f.pc w pc w') :
    System.Stored index ⟨w', before ++ { f with pc := pc } :: after⟩ := by
  rcases hmove.store_cases with ⟨hstore, new, hnew, hpc⟩ | ⟨previous, o, todo, next, hput, hpc,
    hsame, hstore⟩
  · exact h.advance_silent ho hmove hstore hnew hpc
  · exact h.advance_publish ho hmove hput hpc hsame hstore

end Move

theorem System.step_stored {action : Action} {s s' : System σ} (h : s.Stored index)
    (ho : s.Orderly index) (hstep : System.step index transport action s = some s') :
    s'.Stored index := by
  cases action with
  | enqueue tagId value =>
    cases hstep
    obtain ⟨e, he⟩ | ⟨b, hb, -, -, he⟩ :=
      s.world.dispatcher.enqueueWrite_cases index tagId value
    · rw [he]
      exact h
    · rw [he]
      refine ⟨fun ep => ?_, h.own, h.current⟩
      obtain ⟨settled, hshows, hsplit⟩ := h.shows ep
      exact ⟨settled, hshows, (delivered_accept ..).trans hsplit⟩
  | flush endpointId now =>
    cases hstep
    refine ⟨fun ep => ?_, ?_, ?_⟩
    · obtain ⟨settled, hshows, hsplit⟩ := h.shows ep
      refine ⟨settled, hshows, hsplit.trans ?_⟩
      simp [System.gather, FlushPc.pending, FlushPc.outcomes]
    · intro f hf
      rcases List.mem_append.mp hf with hf | hf
      · exact h.own f hf
      · obtain rfl := List.mem_singleton.mp hf
        simp [FlushPc.outcomes]
    · intro f hf
      rcases List.mem_append.mp hf with hf | hf
      · exact h.current f hf
      · obtain rfl := List.mem_singleton.mp hf
        simp
  | advance call =>
    obtain ⟨before, f, after, pc, w, hf, hpc, rfl⟩ := System.step_advance hstep
    have hs : s = ⟨s.world, before ++ f :: after⟩ := by rw [← hf]
    rw [hs] at h ho
    exact h.advance ho (FlushPc.move_of_step hpc)

theorem stored_of_reachable {s : System σ}
    (h : Reachable (System.step index transport) Serialised System.Fresh s) : s.Stored index :=
  Reachable.invariant (System.Stored index) (fun _ hs => .of_fresh hs)
    (fun _ _ _ hr hs _ hstep => System.step_stored hs (orderly_of_reachable hr) hstep) h

end OpcServer.Core
