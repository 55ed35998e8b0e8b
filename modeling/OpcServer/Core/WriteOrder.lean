import OpcServer.Core.Interleaving
import OpcServer.Core.Ledger

/-! The order of deliveries and the stored values, for flushes that do not overlap
on an endpoint. A flush moves writes from the queue into its hand, from its hand to
the device, or back in front of the queue, and never changes their order: that is
one sublist relation for each of its steps. -/

namespace OpcServer.Core

open Domain Project Transition

variable [Platform] {σ : Type} {index : RuntimeIndex} {transport : IModbusTransport σ}

/-! ### Flushes that do not overlap -/

/-- A flush starts when all earlier flushes of its endpoint are over. -/
def Serialised : Action → System σ → Prop
  | .flush endpointId _, s => ∀ f ∈ s.flushes, f.endpointId = endpointId → f.pc.isFinished = true
  | _, _ => True

instance (action : Action) (s : System σ) : Decidable (Serialised action s) :=
  match action with
  | .enqueue .. => inferInstanceAs (Decidable True)
  | .flush endpointId _ => inferInstanceAs
      (Decidable (∀ f ∈ s.flushes, f.endpointId = endpointId → f.pc.isFinished = true))
  | .advance _ => inferInstanceAs (Decidable True)

/-- At most one flush of an endpoint is in progress. -/
def System.Exclusive (s : System σ) : Prop :=
  s.flushes.Pairwise fun f g =>
    f.endpointId = g.endpointId → f.pc.isFinished = true ∨ g.pc.isFinished = true

/-- Only a flush in progress can move. -/
theorem FlushMove.not_finished {endpointId : String} {now : TimestampMs} {pc pc' : FlushPc}
    {w w' : World σ} (h : FlushMove index transport endpointId now pc w pc' w') :
    pc.isFinished = false := by
  cases h <;> rfl

theorem System.Exclusive.others {before after : List Flush} {f : Flush} {w : World σ}
    (h : System.Exclusive ⟨w, before ++ f :: after⟩) (hf : f.pc.isFinished = false) :
    (∀ g ∈ before, g.endpointId = f.endpointId → g.pc.isFinished = true) ∧
      ∀ g ∈ after, g.endpointId = f.endpointId → g.pc.isFinished = true := by
  obtain ⟨-, hafter, hbefore⟩ := List.pairwise_append.mp h
  constructor
  · intro g hg heq
    have := hbefore g hg f List.mem_cons_self heq
    simpa [hf] using this
  · intro g hg heq
    have := List.rel_of_pairwise_cons hafter hg heq.symm
    simpa [hf] using this

theorem System.step_exclusive {action : Action} {s s' : System σ} (h : s.Exclusive)
    (hguard : Serialised action s) (hstep : System.step index transport action s = some s') :
    s'.Exclusive := by
  cases action with
  | enqueue tagId value =>
    cases hstep
    exact h
  | flush endpointId now =>
    cases hstep
    refine List.pairwise_append.mpr ⟨h, List.pairwise_singleton _ _, ?_⟩
    intro f hf g hg heq
    obtain rfl := List.mem_singleton.mp hg
    exact .inl (hguard f hf heq)
  | advance call =>
    obtain ⟨before, f, after, pc, w, hf, hpc, rfl⟩ := System.step_advance hstep
    have hrun := (FlushPc.move_of_step hpc).not_finished
    have h' : System.Exclusive ⟨s.world, before ++ f :: after⟩ := by rw [← hf]; exact h
    obtain ⟨hothers, hothers'⟩ := h'.others hrun
    obtain ⟨hb, ha, hba⟩ := List.pairwise_append.mp h'
    obtain ⟨-, ha'⟩ := List.pairwise_cons.mp ha
    refine List.pairwise_append.mpr ⟨hb, List.pairwise_cons.mpr ⟨?_, ha'⟩, ?_⟩
    · intro g hg heq
      exact .inr (hothers' g hg heq.symm)
    · intro g hg k hk heq
      rcases List.mem_cons.mp hk with rfl | hk
      · exact .inl (hothers g hg heq)
      · exact hba g hg k (List.mem_cons_of_mem _ hk) heq

/-- What the flushes of an endpoint have, joined over all of them. -/
def System.gather {α : Type} (s : System σ) (φ : FlushPc → List α) (endpointId : String) : List α :=
  s.flushes.flatMap fun f => if f.endpointId = endpointId then φ f.pc else []

/-- With one flush in progress, and nothing left to finished ones, it has it all. -/
theorem System.gather_eq {α : Type} (φ : FlushPc → List α) (hφ : ∀ r, φ (.finished r) = [])
    {before after : List Flush} {f : Flush} {w : World σ} (w' : World σ) (pc : FlushPc)
    (h : System.Exclusive ⟨w, before ++ f :: after⟩) (hf : f.pc.isFinished = false) :
    System.gather ⟨w', before ++ { f with pc := pc } :: after⟩ φ f.endpointId = φ pc := by
  obtain ⟨hb, ha⟩ := h.others hf
  have hnil : ∀ g : Flush, g.pc.isFinished = true → φ g.pc = [] := by
    rintro ⟨ep, now, pc⟩ hg
    cases pc with
    | finished r => exact hφ r
    | _ => cases hg
  have hempty : ∀ l : List Flush,
      (∀ g ∈ l, g.endpointId = f.endpointId → g.pc.isFinished = true) →
      (l.flatMap fun g => if g.endpointId = f.endpointId then φ g.pc else []) = [] := by
    intro l hl
    refine List.flatMap_eq_nil_iff.mpr fun g hg => ?_
    split
    · exact hnil g (hl g hg ‹_›)
    · rfl
  rw [System.gather, List.flatMap_append, List.flatMap_cons, hempty before hb, hempty after ha]
  simp

/-- A move of one flush changes nothing for the other endpoints. -/
theorem System.gather_other {α : Type} (φ : FlushPc → List α) {before after : List Flush}
    {f : Flush} (w w' : World σ) (pc : FlushPc) {ep : String} (hne : f.endpointId ≠ ep) :
    System.gather ⟨w', before ++ { f with pc := pc } :: after⟩ φ ep =
      System.gather ⟨w, before ++ f :: after⟩ φ ep := by
  simp [System.gather, hne]

/-! ### Order -/

def After.held : After → List PendingWrite
  | .loop batch => batch
  | .requeue writes _ => writes

/-- Writes that a flush may still send or put back. -/
def FlushPc.held : FlushPc → List PendingWrite
  | .start | .finished _ => []
  | .lookup batch | .loop batch => batch
  | .get _ _ after | .put _ _ _ after => after.held
  | .requeue writes _ => writes

@[simp] theorem FlushPc.held_publishing (todo : List Outcome) (after : After) :
    (FlushPc.publishing todo after).held = after.held := by
  cases todo with
  | nil => cases after <;> rfl
  | cons outcome todo => rfl

/-- Writes delivered, in the hands of a flush, and queued, in this order. -/
def lineup (endpointId : String) (d : Dispatcher) (held : List PendingWrite) : List PendingWrite :=
  delivered endpointId d.trace ++ (held ++ d.writeQueues endpointId)

/-- A move of a flush keeps the line-up, or takes writes out of it. -/
theorem FlushMove.lineup_sublist {endpointId : String} {now : TimestampMs} {pc pc' : FlushPc}
    {w w' : World σ} (h : FlushMove index transport endpointId now pc w pc' w') :
    (lineup endpointId w'.dispatcher pc'.held).Sublist (lineup endpointId w.dispatcher pc.held) := by
  have hsilent : ∀ (d : Dispatcher) (e : Event), delivered endpointId [e] = [] →
      delivered endpointId (d.record e).trace = delivered endpointId d.trace := by
    intro d e he
    rw [delivered_record, he, List.append_nil]
  cases h with
  | empty =>
    rw [lineup, hsilent _ _ rfl]
    exact .refl _
  | take =>
    simp only [lineup, FlushPc.held, Dispatcher.setQueue, Function.update_self, List.append_nil,
      List.nil_append]
    exact .refl _
  | unbound => exact .refl _
  | bound => exact .refl _
  | done =>
    rw [lineup, hsilent _ _ rfl]
    exact .refl _
  | skip => exact ((List.sublist_cons_self _ _).append_right _).append_left _
  | unencodable hp =>
    refine List.Sublist.append_left (List.Sublist.append_right ?_ _) _
    rw [FlushPc.held, plan_eq_unencodable hp]
    exact (List.sublist_cons_self _ _).trans (List.sublist_append_right _ _)
  | refused =>
    rw [lineup, hsilent _ _ rfl]
    exact ((List.sublist_cons_self _ _).append_right _).append_left _
  | @granted write tail rest request t t' =>
    have hd : delivered endpointId (w.dispatcher.record
        (.call endpointId (.write request) true (write :: tail))).trace =
          delivered endpointId w.dispatcher.trace ++ write :: tail := by
      rw [delivered_record]
      simp [delivered]
    rw [lineup, lineup, hd, FlushPc.held, FlushPc.held, After.held]
    simp only [Dispatcher.record, List.append_assoc, List.cons_append]
    exact .refl _
  | get => exact .refl _
  | put =>
    rw [lineup, FlushPc.held_publishing, delivered_publish]
    exact .refl _
  | requeue =>
    rw [lineup, hsilent _ _ rfl]
    simp only [lineup, FlushPc.held, Dispatcher.record, Dispatcher.requeue, Dispatcher.setQueue,
      Function.update_self, List.nil_append]
    exact .refl _

/-- A move accepts nothing, and delivers nothing on other endpoints. -/
theorem FlushMove.trace_frame {endpointId : String} {now : TimestampMs} {pc pc' : FlushPc}
    {w w' : World σ} (h : FlushMove index transport endpointId now pc w pc' w') :
    (∀ ep, accepted ep w'.dispatcher.trace = accepted ep w.dispatcher.trace) ∧
      w'.dispatcher.nextSeq = w.dispatcher.nextSeq ∧
      ∀ ep, endpointId ≠ ep → delivered ep w'.dispatcher.trace = delivered ep w.dispatcher.trace := by
  have hrecord : ∀ (d : Dispatcher) (e : Event), (∀ ep, accepted ep [e] = []) →
      ∀ ep, accepted ep (d.record e).trace = accepted ep d.trace := by
    intro d e he ep
    rw [Dispatcher.record, accepted_append, he, List.append_nil]
  cases h with
  | empty | done =>
    refine ⟨hrecord _ _ fun _ => rfl, rfl, fun ep _ => ?_⟩
    rw [delivered_record]
    exact List.append_nil _
  | refused =>
    refine ⟨hrecord _ _ fun _ => rfl, rfl, fun ep _ => ?_⟩
    rw [delivered_record]
    exact List.append_nil _
  | granted =>
    refine ⟨hrecord _ _ fun _ => rfl, rfl, fun ep hne => ?_⟩
    rw [delivered_record]
    simp [delivered, hne]
  | put =>
    refine ⟨fun ep => ?_, rfl, fun ep _ => delivered_publish ..⟩
    exact (accepted_append ep _ _).trans (List.append_nil _)
  | requeue =>
    refine ⟨hrecord _ _ fun _ => rfl, rfl, fun ep _ => ?_⟩
    rw [delivered_record]
    exact List.append_nil _
  | _ => exact ⟨fun _ => rfl, rfl, fun _ _ => rfl⟩

/-- The books of a system whose flushes do not overlap. -/
structure System.Orderly (index : RuntimeIndex) (s : System σ) : Prop where
  exclusive : s.Exclusive
  increasing : ∀ ep, (accepted ep s.world.dispatcher.trace).Pairwise fun a b => a.seq < b.seq
  numbered : ∀ ep, ∀ w ∈ accepted ep s.world.dispatcher.trace, w.seq < s.world.dispatcher.nextSeq
  known : ∀ ep, ∀ w ∈ accepted ep s.world.dispatcher.trace, onEndpoint index ep w
  order : ∀ ep, (lineup ep s.world.dispatcher (s.gather FlushPc.held ep)).Sublist
    (accepted ep s.world.dispatcher.trace)

theorem System.Orderly.of_fresh {s : System σ} (h : s.Fresh) : s.Orderly index := by
  obtain ⟨ht, hq, hf⟩ := h
  constructor
  · simp [System.Exclusive, hf]
  · simp [ht, accepted]
  · simp [ht, accepted]
  · simp [ht, accepted]
  · intro ep
    simp [lineup, System.gather, ht, hq, hf, delivered]

/-- An accepted write enters at the end of the line-up. -/
theorem System.Orderly.accept {s : System σ} (h : s.Orderly index) {tagId : TagId}
    {value : ScalarValue} {b : TagBinding} (hb : index.findById tagId = some b) :
    System.Orderly index ⟨⟨s.world.dispatcher.accept b.endpointId tagId value, s.world.transports⟩,
      s.flushes⟩ := by
  set d := s.world.dispatcher with hd
  set write : PendingWrite := ⟨tagId, value, d.nextSeq⟩ with hwrite
  have ha : ∀ ep, accepted ep (d.accept b.endpointId tagId value).trace =
      accepted ep d.trace ++ if b.endpointId = ep then [write] else [] :=
    fun ep => accepted_accept ep d b.endpointId tagId value
  have hmem : ∀ ep, ∀ w ∈ (if b.endpointId = ep then [write] else []), w = write ∧
      b.endpointId = ep := by
    intro ep w hw
    split at hw
    · exact ⟨List.mem_singleton.mp hw, ‹_›⟩
    · cases hw
  refine ⟨h.exclusive, ?_, ?_, ?_, ?_⟩
  · intro ep
    rw [ha ep]
    refine List.pairwise_append.mpr ⟨h.increasing ep, ?_, ?_⟩
    · split
      · exact List.pairwise_singleton _ _
      · exact List.Pairwise.nil
    · intro w hw w' hw'
      obtain ⟨rfl, -⟩ := hmem ep w' hw'
      exact h.numbered ep w hw
  · intro ep
    rw [ha ep]
    intro w hw
    rcases List.mem_append.mp hw with hw | hw
    · exact (h.numbered ep w hw).trans (Nat.lt_succ_self _)
    · obtain ⟨rfl, -⟩ := hmem ep w hw
      exact Nat.lt_succ_self _
  · intro ep
    rw [ha ep]
    intro w hw
    rcases List.mem_append.mp hw with hw | hw
    · exact h.known ep w hw
    · obtain ⟨rfl, hep⟩ := hmem ep w hw
      simp [onEndpoint, hwrite, hb, hep]
  · intro ep
    have ho := h.order ep
    rw [lineup] at ho ⊢
    rw [ha ep, delivered_accept]
    by_cases hep : b.endpointId = ep
    · subst hep
      rw [Dispatcher.accept_writeQueues, if_pos rfl, ← List.append_assoc, ← List.append_assoc]
      rw [← List.append_assoc] at ho
      exact ho.append_right _
    · rw [Dispatcher.accept_writeQueues_of_ne _ _ _ (Ne.symm hep), if_neg hep, List.append_nil]
      exact ho

theorem System.step_orderly {action : Action} {s s' : System σ} (h : s.Orderly index)
    (hguard : Serialised action s) (hstep : System.step index transport action s = some s') :
    s'.Orderly index := by
  have hexcl := System.step_exclusive h.exclusive hguard hstep
  cases action with
  | enqueue tagId value =>
    cases hstep
    obtain ⟨e, he⟩ | ⟨b, hb, -, -, he⟩ :=
      s.world.dispatcher.enqueueWrite_cases index tagId value
    · rw [he]
      exact h
    · rw [he]
      exact h.accept hb
  | flush endpointId now =>
    cases hstep
    refine ⟨hexcl, h.increasing, h.numbered, h.known, fun ep => ?_⟩
    have hg : System.gather ⟨s.world, s.flushes ++ [⟨endpointId, now, .start⟩]⟩ FlushPc.held ep =
        s.gather FlushPc.held ep := by
      simp [System.gather, FlushPc.held]
    rw [hg]
    exact h.order ep
  | advance call =>
    obtain ⟨before, f, after, pc, w, hf, hpc, rfl⟩ := System.step_advance hstep
    have hmove := FlushPc.move_of_step hpc
    obtain ⟨hacc, hseq, hdel⟩ := hmove.trace_frame
    refine ⟨hexcl, ?_, ?_, ?_, ?_⟩
    · intro ep
      rw [hacc ep]
      exact h.increasing ep
    · intro ep
      rw [hacc ep, hseq]
      exact h.numbered ep
    · intro ep
      rw [hacc ep]
      exact h.known ep
    · intro ep
      have ho := h.order ep
      have hex : System.Exclusive ⟨s.world, before ++ f :: after⟩ := by
        rw [← hf]
        exact h.exclusive
      have hs : s = ⟨s.world, before ++ f :: after⟩ := by rw [← hf]
      rw [hacc ep]
      by_cases hep : f.endpointId = ep
      · subst hep
        rw [System.gather_eq FlushPc.held (fun _ => rfl) w pc hex hmove.not_finished]
        rw [hs, System.gather_eq FlushPc.held (fun _ => rfl) s.world f.pc hex hmove.not_finished] at ho
        exact hmove.lineup_sublist.trans ho
      · rw [System.gather_other FlushPc.held s.world w pc hep, lineup, hdel ep hep,
          hmove.writeQueues_other (Ne.symm hep)]
        rw [hs] at ho
        exact ho

theorem orderly_of_reachable {s : System σ}
    (h : Reachable (System.step index transport) Serialised System.Fresh s) : s.Orderly index :=
  Reachable.invariant (System.Orderly index) (fun _ hs => .of_fresh hs)
    (fun _ _ _ _ hs hguard hstep => System.step_orderly hs hguard hstep) h

end OpcServer.Core
