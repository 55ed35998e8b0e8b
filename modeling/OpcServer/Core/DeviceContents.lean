import OpcServer.Core.AddressBounds
import OpcServer.Core.StoredValue

/-! What a device holds after a run of enqueues and flushes. A device is seen through
the transport: its memory is a function of the transport's state, a granted request
has been executed, and a failed one may or may not have been (a timeout does not
tell). The registers of a tag then hold what the last delivered write encodes to,
as long as no later request has touched them. -/

namespace OpcServer.Core

open Domain Project Transition

/-! ### Memory -/

abbrev Memory := Cell → UInt16

def Memory.apply (memory : Memory) (request : WriteRequest) : Memory :=
  request.assignments.foldl (fun m cv => Function.update m cv.1 cv.2) memory

theorem foldl_update_of_not_mem (memory : Memory) (l : List (Cell × UInt16)) {c : Cell}
    (h : c ∉ l.map Prod.fst) :
    l.foldl (fun m cv => Function.update m cv.1 cv.2) memory c = memory c := by
  induction l generalizing memory with
  | nil => rfl
  | cons cv l ih =>
    obtain ⟨hne, hl⟩ : c ≠ cv.1 ∧ c ∉ l.map Prod.fst := by simpa using h
    rw [List.foldl_cons, ih _ hl, Function.update_of_ne hne]

theorem foldl_update_of_mem (memory : Memory) (l : List (Cell × UInt16)) {c : Cell} {v : UInt16}
    (hnd : (l.map Prod.fst).Nodup) (h : (c, v) ∈ l) :
    l.foldl (fun m cv => Function.update m cv.1 cv.2) memory c = v := by
  induction l generalizing memory with
  | nil => cases h
  | cons cv l ih =>
    obtain ⟨hnot, hnd⟩ := List.nodup_cons.mp hnd
    rcases List.mem_cons.mp h with rfl | h
    · rw [List.foldl_cons, foldl_update_of_not_mem _ _ hnot, Function.update_self]
    · exact ih _ hnd h

/-- A device behind a transport: granted requests have been executed, failed ones have
been executed or not. -/
def Executes {σ : Type} (transport : IModbusTransport σ) (memory : σ → Memory) : Prop :=
  ∀ request t r t', transport.write request t = (r, t') →
    memory t' = (memory t).apply request ∨ (∃ e, r = .error e) ∧ memory t' = memory t

/-- A connected device accepts every legal request and stores what it is sent. -/
def Obeys {σ : Type} (transport : IModbusTransport σ) (memory : σ → Memory) : Prop :=
  ∀ request t, transport.isConnected t = true → (Request.write request).Legal →
    ∃ t', transport.write request t = (.ok (), t') ∧ transport.isConnected t' = true ∧
      memory t' = (memory t).apply request

/-- A list with one more element at its end, split at some element. -/
theorem concat_eq_append_cons {α : Type} {l before after : List α} {e x : α}
    (h : l ++ [e] = before ++ x :: after) :
    (after = [] ∧ e = x ∧ l = before) ∨ ∃ rest, after = rest ++ [e] ∧ l = before ++ x :: rest := by
  rcases List.eq_nil_or_concat' after with rfl | ⟨rest, y, rfl⟩
  · obtain ⟨hl, he⟩ := List.append_inj' h rfl
    exact .inl ⟨rfl, List.singleton_inj.mp he, hl⟩
  · rw [← List.cons_append, ← List.append_assoc] at h
    obtain ⟨hl, he⟩ := List.append_inj' h rfl
    exact .inr ⟨rest, by rw [List.singleton_inj.mp he], hl⟩

variable [Platform]

/-! ### Calls of a run -/

variable {σ : Type} {index : RuntimeIndex} {transport : IModbusTransport σ}

/-- A move leaves transports alone and adds events that are not calls, or makes the
call its plan says. -/
theorem FlushMove.call_cases {endpointId : String} {now : TimestampMs} {pc pc' : FlushPc}
    {w w' : World σ} (h : FlushMove index transport endpointId now pc w pc' w') :
    (w'.transports = w.transports ∧ (w'.dispatcher.trace = w.dispatcher.trace ∨
      ∃ e, w'.dispatcher.trace = w.dispatcher.trace ++ [e] ∧
        ∀ ep request ok carried, e ≠ .call ep request ok carried)) ∨
    ∃ write tail rest request t r t', plan index write (tail ++ rest) = .send request tail rest ∧
      w.transports endpointId = some t ∧ transport.write request t = (r, t') ∧
      w'.transports = Function.update w.transports endpointId (some t') ∧
      w'.dispatcher.trace = w.dispatcher.trace ++
        [.call endpointId (.write request) r.isOk (write :: tail)] := by
  cases h with
  | empty | done | put | requeue => exact .inl ⟨rfl, .inr ⟨_, rfl, by simp⟩⟩
  | refused hp ht hw => exact .inr ⟨_, _, _, _, _, _, _, hp, ht, hw, rfl, rfl⟩
  | granted hp ht hw => exact .inr ⟨_, _, _, _, _, _, _, hp, ht, hw, rfl, rfl⟩
  | _ => exact .inl ⟨rfl, .inl rfl⟩

/-- Every step adds at most one event; a call follows the plan of its writes. -/
theorem System.step_call_cases {action : Action} {s s' : System σ}
    (hstep : System.step index transport action s = some s') :
    (s'.world.transports = s.world.transports ∧
      (s'.world.dispatcher.trace = s.world.dispatcher.trace ∨
        ∃ e, s'.world.dispatcher.trace = s.world.dispatcher.trace ++ [e] ∧
          ∀ ep request ok carried, e ≠ .call ep request ok carried)) ∨
    ∃ endpointId write tail rest request t r t',
      plan index write (tail ++ rest) = .send request tail rest ∧
      s.world.transports endpointId = some t ∧ transport.write request t = (r, t') ∧
      s'.world.transports = Function.update s.world.transports endpointId (some t') ∧
      s'.world.dispatcher.trace = s.world.dispatcher.trace ++
        [.call endpointId (.write request) r.isOk (write :: tail)] := by
  cases action with
  | enqueue tagId value =>
    cases hstep
    left
    obtain ⟨e, he⟩ | ⟨b, -, -, -, he⟩ :=
      s.world.dispatcher.enqueueWrite_cases index tagId value
    · rw [he]
      exact ⟨rfl, .inl rfl⟩
    · rw [he]
      exact ⟨rfl, .inr ⟨_, rfl, by simp⟩⟩
  | flush endpointId now =>
    cases hstep
    exact .inl ⟨rfl, .inl rfl⟩
  | advance call =>
    obtain ⟨before, f, after, pc, w, hf, hpc, rfl⟩ := System.step_advance hstep
    exact (FlushPc.move_of_step hpc).call_cases.imp id fun h => ⟨f.endpointId, h⟩

/-- No call on the endpoint among some events writes a cell. -/
def Untouched (endpointId : String) (c : Cell) (events : List Event) : Prop :=
  ∀ request ok carried, .call endpointId (.write request) ok carried ∈ events →
    c ∉ request.assignments.map Prod.fst

/-- Calls follow their plans, and the device shows every granted request where no later
one has been. -/
structure System.Executed (index : RuntimeIndex) (memory : σ → Memory) (s : System σ) : Prop where
  planned : ∀ ep request ok carried,
    .call ep (.write request) ok carried ∈ s.world.dispatcher.trace →
      ∃ write tail rest, carried = write :: tail ∧
        plan index write (tail ++ rest) = .send request tail rest
  shows : ∀ ep before request carried after,
    s.world.dispatcher.trace = before ++ .call ep (.write request) true carried :: after →
      ∀ c v, (c, v) ∈ request.assignments → Untouched ep c after →
        ∃ t, s.world.transports ep = some t ∧ memory t c = v

theorem System.step_executed {memory : σ → Memory} (hdev : Executes transport memory)
    {action : Action} {s s' : System σ} (h : s.Executed index memory)
    (hstep : System.step index transport action s = some s') : s'.Executed index memory := by
  rcases System.step_call_cases hstep with ⟨ht, htr | ⟨e, htr, hne⟩⟩ | ⟨ep', write, tail, rest, req,
    t, r, t', hp, hbound, hw, ht, htr⟩
  · exact ⟨by rw [htr]; exact h.planned, by rw [htr, ht]; exact h.shows⟩
  · refine ⟨?_, ?_⟩
    · intro ep request ok carried hm
      rw [htr] at hm
      rcases List.mem_append.mp hm with hm | hm
      · exact h.planned ep request ok carried hm
      · exact absurd (List.mem_singleton.mp hm).symm (hne _ _ _ _)
    · intro ep before request carried after hsplit c v hcv hfree
      rw [htr] at hsplit
      rw [ht]
      obtain ⟨-, he, -⟩ | ⟨mid, rfl, hl⟩ := concat_eq_append_cons hsplit
      · exact absurd he (hne _ _ _ _)
      · exact h.shows ep before request carried mid hl c v hcv
          fun r ok cs hm => hfree r ok cs (List.mem_append_left _ hm)
  · refine ⟨?_, ?_⟩
    · intro ep request ok carried hm
      rw [htr] at hm
      rcases List.mem_append.mp hm with hm | hm
      · exact h.planned ep request ok carried hm
      · cases List.mem_singleton.mp hm
        exact ⟨write, tail, rest, rfl, hp⟩
    · intro ep before request carried after hsplit c v hcv hfree
      rw [htr] at hsplit
      rw [ht]
      obtain ⟨-, he, -⟩ | ⟨mid, rfl, hl⟩ := concat_eq_append_cons hsplit
      · -- the granted request is the one just executed
        simp only [Event.call.injEq, Request.write.injEq] at he
        obtain ⟨rfl, rfl, hok, -⟩ := he
        refine ⟨t', Function.update_self .., ?_⟩
        rcases hdev _ _ _ _ hw with hm | ⟨⟨e, rfl⟩, -⟩
        · rw [hm]
          exact foldl_update_of_mem _ _ req.assignments_nodup hcv
        · cases hok
      · obtain ⟨t₀, ht₀, hv⟩ := h.shows ep before request carried mid hl c v hcv
          fun r ok cs hm => hfree r ok cs (List.mem_append_left _ hm)
        by_cases hep : ep = ep'
        · subst hep
          rw [hbound] at ht₀
          cases ht₀
          refine ⟨t', Function.update_self .., ?_⟩
          have hnot := hfree req _ _ (List.mem_append_right _ (List.mem_singleton.mpr rfl))
          rcases hdev _ _ _ _ hw with hm | ⟨-, hm⟩
          · rw [hm, Memory.apply, foldl_update_of_not_mem _ _ hnot]
            exact hv
          · rw [hm]
            exact hv
        · exact ⟨t₀, by rw [Function.update_of_ne hep]; exact ht₀, hv⟩

theorem executed_of_reachable {memory : σ → Memory} (hdev : Executes transport memory)
    {guard : Action → System σ → Prop} {s : System σ}
    (h : Reachable (System.step index transport) guard System.Fresh s) :
    s.Executed index memory := by
  refine Reachable.invariant (System.Executed index memory) ?_ ?_ h
  · intro s hs
    constructor
    · intro ep request ok carried hm
      rw [hs.1] at hm
      cases hm
    · intro ep before request carried after hsplit
      rw [hs.1] at hsplit
      exact absurd hsplit (by simp)
  · intro s t action _ hs _ hstep
    exact System.step_executed hdev hs hstep

end OpcServer.Core
