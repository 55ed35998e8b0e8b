import OpcServer.Core.Dispatcher
import OpcServer.Lib.Transition

/-! The notifications of the tag store. `publish` and `mark_stale_before` change the
values under the lock and invoke the handlers after it is released, so that calls from
several threads overlap. A call in progress keeps the handlers it has copied and, for a
stale mark, the changed values it has not come to yet.

Both maps of the store are unordered: an action carries the order in which its loop
goes through one. -/

namespace OpcServer.Core

open Domain

section Notifications

variable [Platform]

abbrev SubscriptionId := ℕ

/-- An invocation of a handler: the subscription, the tag and the value. -/
abbrev Notification := SubscriptionId × TagId × TagValue

/-- What is left of a call after its locked section. -/
structure StoreCall where
  handlers : List Notification := []
  changed : List (TagId × TagValue) := []

structure SharedStore where
  store : TagStore := {}
  keys : List TagId := []
  subscribers : List SubscriptionId := []
  nextSubscription : SubscriptionId := 1
  calls : List StoreCall := []
  received : List Notification := []

inductive StoreAction where
  | publish (id : TagId) (value : TagValue) (subscribers : List SubscriptionId)
  | markStaleBefore (cutoff : TimestampMs) (reason : QualityReason) (order : List TagId)
  | copyHandlers (call : ℕ) (subscribers : List SubscriptionId)
  | notify (call : ℕ)
  | done (call : ℕ)
  | subscribe
  | unsubscribe (id : SubscriptionId)

def TagStore.isStale (store : TagStore) (cutoff : TimestampMs) (id : TagId) : Bool :=
  (store.get id).any fun value => value.quality = .good ∧ value.serverTs < cutoff

namespace SharedStore

/-- The locked sections, each with the handlers or changes it copies; the single
invocations of handlers; and the return of a call. -/
def step : StoreAction → SharedStore → Option SharedStore
  | .publish id value subscribers, s =>
    if subscribers.Perm s.subscribers then
      some { s with
        store := s.store.publish id value
        keys := s.keys.insert id
        calls := s.calls ++ [⟨subscribers.map (·, id, value), []⟩] }
    else none
  | .markStaleBefore cutoff reason order, s =>
    if order.Perm (s.keys.filter (s.store.isStale cutoff)) then
      let store := s.store.markStaleBefore cutoff reason
      some { s with
        store := store
        calls := s.calls ++ [⟨[], order.filterMap fun id => (store.get id).map (id, ·)⟩] }
    else none
  | .copyHandlers call subscribers, s =>
    match s.calls[call]? with
    | some ⟨[], (id, value) :: rest⟩ =>
      if subscribers.Perm s.subscribers then
        some { s with calls := s.calls.set call ⟨subscribers.map (·, id, value), rest⟩ }
      else none
    | _ => none
  | .notify call, s =>
    match s.calls[call]? with
    | some ⟨n :: rest, changed⟩ =>
      some { s with calls := s.calls.set call ⟨rest, changed⟩, received := s.received ++ [n] }
    | _ => none
  | .done call, s =>
    match s.calls[call]? with
    | some ⟨[], []⟩ => some { s with calls := s.calls.eraseIdx call }
    | _ => none
  | .subscribe, s => some { s with
      subscribers := s.subscribers ++ [s.nextSubscription]
      nextSubscription := s.nextSubscription + 1 }
  | .unsubscribe id, s => some { s with subscribers := s.subscribers.filter (· ≠ id) }

/-- An empty store with a subscriber, and no call in progress. -/
def Fresh (sub : SubscriptionId) (s : SharedStore) : Prop :=
  s.store = {} ∧ s.keys = [] ∧ s.calls = [] ∧ s.received = [] ∧ sub ∈ s.subscribers

/-- The value that a subscriber was last notified of for a tag. -/
def lastNotified (sub : SubscriptionId) (id : TagId) (received : List Notification) :
    Option TagValue :=
  ((received.filter fun n => n.1 = sub ∧ n.2.1 = id).getLast?).map (·.2.2)

/-- What a subscriber was last told is what the store holds. -/
def Agrees (sub : SubscriptionId) (s : SharedStore) : Prop :=
  ∀ id, lastNotified sub id s.received = s.store.get id

end SharedStore

/-! ### Steps without a race -/

/-- The subscription is not taken back. -/
def StoreAction.Keeps (sub : SubscriptionId) : StoreAction → Prop
  | .unsubscribe id => id ≠ sub
  | _ => True

/-- The tags whose values a locked section replaces. -/
def StoreAction.replaces : StoreAction → List TagId
  | .publish id _ _ => [id]
  | .markStaleBefore _ _ order => order
  | _ => []

/-- The call still has to notify a subscriber of a value of the tag. -/
def StoreCall.Owes (call : StoreCall) (sub : SubscriptionId) (id : TagId) : Prop :=
  (∃ n ∈ call.handlers, n.1 = sub ∧ n.2.1 = id) ∨ ∃ c ∈ call.changed, c.1 = id

/-- A locked section replaces no value that another call still notifies the subscriber
of. -/
def StoreAction.Quiet (sub : SubscriptionId) (action : StoreAction) (s : SharedStore) : Prop :=
  ∀ id ∈ action.replaces, ∀ call ∈ s.calls, ¬ call.Owes sub id

instance (sub : SubscriptionId) : ∀ action : StoreAction, Decidable (action.Keeps sub)
  | .unsubscribe id => inferInstanceAs (Decidable (id ≠ sub))
  | .publish .. | .markStaleBefore .. | .copyHandlers .. | .notify .. | .done .. | .subscribe =>
    .isTrue trivial

instance (call : StoreCall) (sub : SubscriptionId) (id : TagId) : Decidable (call.Owes sub id) :=
  inferInstanceAs (Decidable (_ ∨ _))

instance (sub : SubscriptionId) (action : StoreAction) (s : SharedStore) :
    Decidable (action.Quiet sub s) :=
  inferInstanceAs (Decidable (∀ id ∈ action.replaces, ∀ call ∈ s.calls, ¬ call.Owes sub id))

/-- The call still has to notify a subscriber of this value of the tag. -/
def StoreCall.Pending (call : StoreCall) (sub : SubscriptionId) (id : TagId) (value : TagValue) :
    Prop :=
  (sub, id, value) ∈ call.handlers ∨ (id, value) ∈ call.changed

theorem StoreCall.Pending.owes {call : StoreCall} {sub : SubscriptionId} {id : TagId}
    {value : TagValue} (h : call.Pending sub id value) : call.Owes sub id := by
  rcases h with h | h
  · exact .inl ⟨_, h, rfl, rfl⟩
  · exact .inr ⟨_, h, rfl⟩

theorem lastNotified_append_self (sub : SubscriptionId) (id : TagId) (value : TagValue)
    (received : List Notification) :
    SharedStore.lastNotified sub id (received ++ [(sub, id, value)]) = some value := by
  simp [SharedStore.lastNotified]

theorem lastNotified_append_of_ne {sub : SubscriptionId} {id : TagId} {n : Notification}
    (h : ¬ (n.1 = sub ∧ n.2.1 = id)) (received : List Notification) :
    SharedStore.lastNotified sub id (received ++ [n]) =
      SharedStore.lastNotified sub id received := by
  simp only [SharedStore.lastNotified, List.filter_append]
  rw [List.filter_cons_of_neg (by simpa using h), List.filter_nil, List.append_nil]

/-- Some call has a notification left for a subscriber. -/
def PendingIn (calls : List StoreCall) (sub : SubscriptionId) (id : TagId) (value : TagValue) :
    Prop :=
  ∃ call ∈ calls, call.Pending sub id value

theorem pendingIn_append {calls : List StoreCall} {call : StoreCall} {sub : SubscriptionId}
    {id : TagId} {value : TagValue} : PendingIn (calls ++ [call]) sub id value ↔
      PendingIn calls sub id value ∨ call.Pending sub id value := by
  simp [PendingIn, or_and_right, exists_or]

/-- A call that has moved on: what the others owe stays. -/
theorem pendingIn_set {calls : List StoreCall} {i : ℕ} {call : StoreCall}
    (h : calls[i]? = some call) (call' : StoreCall) (sub : SubscriptionId) (id : TagId)
    (value : TagValue) : PendingIn (calls.set i call') sub id value ↔
      call'.Pending sub id value ∨ PendingIn (calls.eraseIdx i) sub id value := by
  obtain ⟨hlt, rfl⟩ := List.getElem?_eq_some_iff.mp h
  rw [PendingIn, List.set_eq_take_append_cons_drop, if_pos hlt, PendingIn,
    List.eraseIdx_eq_take_drop_succ]
  simp only [List.mem_append, List.mem_cons]
  grind

theorem pendingIn_eraseIdx {calls : List StoreCall} {i : ℕ} {call : StoreCall}
    (h : calls[i]? = some call) (sub : SubscriptionId) (id : TagId) (value : TagValue) :
    PendingIn calls sub id value ↔
      call.Pending sub id value ∨ PendingIn (calls.eraseIdx i) sub id value := by
  have hset : calls.set i call = calls := by
    obtain ⟨hlt, rfl⟩ := List.getElem?_eq_some_iff.mp h
    exact List.set_getElem_self hlt
  rw [← pendingIn_set h call, hset]

/-! ### Steps -/

/-- What every state keeps for a subscriber: a notification still to come carries the
stored value, and without one the subscriber has been told that value. -/
structure SharedStore.Informed (sub : SubscriptionId) (s : SharedStore) : Prop where
  registered : sub ∈ s.subscribers
  keys : ∀ id value, s.store.get id = some value → id ∈ s.keys
  owed : ∀ id value, PendingIn s.calls sub id value → s.store.get id = some value
  told : ∀ id, (∀ value, ¬ PendingIn s.calls sub id value) →
    lastNotified sub id s.received = s.store.get id

section Steps
variable {sub : SubscriptionId} {s : SharedStore}

/-- A locked section that owes a notification of every value it replaces. -/
theorem SharedStore.Informed.replace (h : s.Informed sub) {action : StoreAction}
    (hquiet : action.Quiet sub s) {store : TagStore} {keys : List TagId} {call : StoreCall}
    (hkeys : ∀ id value, store.get id = some value → id ∈ keys)
    (hother : ∀ id, id ∉ action.replaces → store.get id = s.store.get id)
    (howes : ∀ id value, call.Pending sub id value ↔
      id ∈ action.replaces ∧ store.get id = some value)
    (hvalue : ∀ id ∈ action.replaces, (store.get id).isSome) :
    SharedStore.Informed sub
      { s with store := store, keys := keys, calls := s.calls ++ [call] } where
  registered := h.registered
  keys := hkeys
  owed id value hp := by
    rcases pendingIn_append.mp hp with ⟨old, hold, hp⟩ | hp
    · -- a call that was there owes nothing of what is replaced
      have hkept : id ∉ action.replaces := fun hid => hquiet id hid old hold hp.owes
      exact (hother id hkept).trans (h.owed id value ⟨old, hold, hp⟩)
    · exact ((howes id value).mp hp).2
  told id hnone := by
    have hkept : id ∉ action.replaces := by
      intro hid
      obtain ⟨value, hv⟩ := Option.isSome_iff_exists.mp (hvalue id hid)
      exact hnone value (pendingIn_append.mpr (.inr ((howes id value).mpr ⟨hid, hv⟩)))
    rw [hother id hkept]
    exact h.told id fun value hp => hnone value (pendingIn_append.mpr (.inl hp))

/-- A step of a call that neither delivers nor forgets. -/
theorem SharedStore.Informed.recall (h : s.Informed sub) {calls : List StoreCall}
    (hcalls : ∀ id value, PendingIn calls sub id value ↔ PendingIn s.calls sub id value) :
    SharedStore.Informed sub { s with calls := calls } where
  registered := h.registered
  keys := h.keys
  owed id value hp := h.owed id value ((hcalls id value).mp hp)
  told id hnone := h.told id fun value hp => hnone value ((hcalls id value).mpr hp)

theorem informed_publish (h : s.Informed sub) {id : TagId} {value : TagValue}
    {subscribers : List SubscriptionId}
    (hquiet : (StoreAction.publish id value subscribers).Quiet sub s)
    (hperm : subscribers.Perm s.subscribers) :
    SharedStore.Informed sub { s with
      store := s.store.publish id value
      keys := s.keys.insert id
      calls := s.calls ++ [⟨subscribers.map (·, id, value), []⟩] } := by
  have hsub : sub ∈ subscribers := hperm.mem_iff.mpr h.registered
  apply h.replace hquiet
  · intro other v hv
    by_cases heq : other = id
    · exact List.mem_insert_iff.mpr (.inl heq)
    · rw [TagStore.get_publish_of_ne _ _ heq] at hv
      exact List.mem_insert_iff.mpr (.inr (h.keys other v hv))
  · intro other hne
    exact TagStore.get_publish_of_ne _ _ fun heq => hne (by simp [StoreAction.replaces, heq])
  · intro other v
    constructor
    · rintro (hm | hm)
      · obtain ⟨_, _, heq⟩ := List.mem_map.mp hm
        cases heq
        exact ⟨List.mem_singleton_self id, TagStore.get_publish_self _ _ _⟩
      · cases hm
    · rintro ⟨hm, hv⟩
      obtain rfl := List.mem_singleton.mp hm
      rw [TagStore.get_publish_self] at hv
      cases hv
      exact .inl (List.mem_map_of_mem hsub)
  · intro other hm
    obtain rfl := List.mem_singleton.mp hm
    rw [TagStore.get_publish_self]
    rfl

theorem TagStore.get_markStaleBefore (store : TagStore) (cutoff : TimestampMs)
    (reason : QualityReason) (id : TagId) : (store.markStaleBefore cutoff reason).get id =
      (store.get id).map (TagStore.markStale cutoff reason) := rfl

/-- A stale mark leaves the values that are not stale. -/
theorem TagStore.get_markStaleBefore_of_not (store : TagStore) {cutoff : TimestampMs}
    (reason : QualityReason) {id : TagId} (h : store.isStale cutoff id = false) :
    (store.markStaleBefore cutoff reason).get id = store.get id := by
  rw [TagStore.get_markStaleBefore]
  unfold TagStore.isStale at h
  cases hv : store.get id with
  | none => rfl
  | some value =>
    rw [hv] at h
    have hnot : ¬ (value.quality = .good ∧ value.serverTs < cutoff) := by simpa using h
    rw [Option.map_some, TagStore.markStale, if_neg hnot]

theorem informed_markStaleBefore (h : s.Informed sub) {cutoff : TimestampMs}
    {reason : QualityReason} {order : List TagId}
    (hquiet : (StoreAction.markStaleBefore cutoff reason order).Quiet sub s)
    (hperm : order.Perm (s.keys.filter (s.store.isStale cutoff))) :
    SharedStore.Informed sub { s with
      store := s.store.markStaleBefore cutoff reason
      calls := s.calls ++ [⟨[], order.filterMap fun id =>
        ((s.store.markStaleBefore cutoff reason).get id).map (id, ·)⟩] } := by
  have hmem : ∀ id, id ∈ order ↔ id ∈ s.keys ∧ s.store.isStale cutoff id = true :=
    fun id => hperm.mem_iff.trans List.mem_filter
  have hstored : ∀ id, s.store.isStale cutoff id = true → ∃ value, s.store.get id = some value := by
    intro id hstale
    obtain ⟨value, hv, -⟩ := (Option.any_eq_true _ _).mp hstale
    exact ⟨value, hv⟩
  apply h.replace hquiet
  · intro id v hv
    obtain ⟨old, hold, -⟩ := Option.map_eq_some_iff.mp hv
    exact h.keys id old hold
  · intro id hid
    apply TagStore.get_markStaleBefore_of_not
    -- a stale value has a key, so the loop would have come to it
    by_contra hstale
    rw [Bool.not_eq_false] at hstale
    obtain ⟨value, hv⟩ := hstored id hstale
    exact hid ((hmem id).mpr ⟨h.keys id value hv, hstale⟩)
  · intro id value
    constructor
    · rintro (hm | hm)
      · cases hm
      · obtain ⟨other, hother, hsome⟩ := List.mem_filterMap.mp hm
        obtain ⟨v, hv, heq⟩ := Option.map_eq_some_iff.mp hsome
        cases heq
        exact ⟨hother, hv⟩
    · rintro ⟨hid, hv⟩
      refine .inr (List.mem_filterMap.mpr ⟨id, hid, ?_⟩)
      rw [hv, Option.map_some]
  · intro id hid
    obtain ⟨value, hv⟩ := hstored id ((hmem id).mp hid).2
    rw [TagStore.get_markStaleBefore, hv]
    rfl

theorem informed_copyHandlers (h : s.Informed sub) {call : ℕ} {id : TagId} {value : TagValue}
    {rest : List (TagId × TagValue)} {subscribers : List SubscriptionId}
    (hcall : s.calls[call]? = some ⟨[], (id, value) :: rest⟩)
    (hperm : subscribers.Perm s.subscribers) :
    SharedStore.Informed sub
      { s with calls := s.calls.set call ⟨subscribers.map (·, id, value), rest⟩ } := by
  have hsub : sub ∈ subscribers := hperm.mem_iff.mpr h.registered
  apply h.recall
  intro other v
  rw [pendingIn_set hcall, pendingIn_eraseIdx hcall]
  have hsame : StoreCall.Pending ⟨subscribers.map (·, id, value), rest⟩ sub other v ↔
      StoreCall.Pending ⟨[], (id, value) :: rest⟩ sub other v := by
    simp only [StoreCall.Pending, List.mem_map, Prod.mk.injEq, List.not_mem_nil, false_or,
      List.mem_cons]
    constructor
    · rintro (⟨_, _, -, rfl, rfl⟩ | hm)
      · exact .inl ⟨rfl, rfl⟩
      · exact .inr hm
    · rintro (⟨rfl, rfl⟩ | hm)
      · exact .inl ⟨sub, hsub, rfl, rfl, rfl⟩
      · exact .inr hm
  rw [hsame]

theorem informed_notify (h : s.Informed sub) {call : ℕ} {n : Notification}
    {rest : List Notification} {changed : List (TagId × TagValue)}
    (hcall : s.calls[call]? = some ⟨n :: rest, changed⟩) :
    SharedStore.Informed sub
      { s with calls := s.calls.set call ⟨rest, changed⟩, received := s.received ++ [n] } := by
  have hpending : ∀ id value, PendingIn s.calls sub id value ↔
      (sub, id, value) = n ∨ PendingIn (s.calls.set call ⟨rest, changed⟩) sub id value := by
    intro id value
    rw [pendingIn_set hcall, pendingIn_eraseIdx hcall]
    simp only [StoreCall.Pending, List.mem_cons, or_assoc]
  refine ⟨h.registered, h.keys, ?_, ?_⟩
  · intro id value hp
    exact h.owed id value ((hpending id value).mpr (.inr hp))
  · intro id hnone
    by_cases hn : n.1 = sub ∧ n.2.1 = id
    · obtain ⟨_, _, value⟩ := n
      obtain ⟨rfl, rfl⟩ := hn
      dsimp only
      rw [lastNotified_append_self]
      exact (h.owed _ value ((hpending _ value).mpr (.inl rfl))).symm
    · dsimp only
      rw [lastNotified_append_of_ne hn]
      refine h.told id fun value hp => ?_
      rcases (hpending id value).mp hp with heq | hp
      · exact hn ⟨by rw [← heq], by rw [← heq]⟩
      · exact hnone value hp

theorem informed_done (h : s.Informed sub) {call : ℕ} (hcall : s.calls[call]? = some ⟨[], []⟩) :
    SharedStore.Informed sub { s with calls := s.calls.eraseIdx call } := by
  apply h.recall
  intro id value
  rw [pendingIn_eraseIdx hcall]
  simp [StoreCall.Pending]

/-- A step that takes nothing back and replaces no value in flight keeps a subscriber
informed. -/
theorem step_informed (h : s.Informed sub) {action : StoreAction} {t : SharedStore}
    (hkeeps : action.Keeps sub) (hquiet : action.Quiet sub s)
    (hstep : SharedStore.step action s = some t) : t.Informed sub := by
  cases action with
  | publish id value subscribers =>
    simp only [SharedStore.step] at hstep
    split at hstep
    · rename_i hperm
      cases hstep
      exact informed_publish h hquiet hperm
    · cases hstep
  | markStaleBefore cutoff reason order =>
    simp only [SharedStore.step] at hstep
    split at hstep
    · rename_i hperm
      cases hstep
      exact informed_markStaleBefore h hquiet hperm
    · cases hstep
  | copyHandlers call subscribers =>
    simp only [SharedStore.step] at hstep
    split at hstep
    · rename_i hcall
      split at hstep
      · rename_i hperm
        cases hstep
        exact informed_copyHandlers h hcall hperm
      · cases hstep
    · cases hstep
  | notify call =>
    simp only [SharedStore.step] at hstep
    split at hstep
    · rename_i hcall
      cases hstep
      exact informed_notify h hcall
    · cases hstep
  | done call =>
    simp only [SharedStore.step] at hstep
    split at hstep
    · rename_i hcall
      cases hstep
      exact informed_done h hcall
    · cases hstep
  | subscribe =>
    cases hstep
    exact ⟨List.mem_append_left _ h.registered, h.keys, h.owed, h.told⟩
  | unsubscribe id =>
    cases hstep
    have hne : sub ≠ id := fun heq => hkeeps heq.symm
    exact ⟨List.mem_filter.mpr ⟨h.registered, by simpa using hne⟩, h.keys, h.owed, h.told⟩

/-! ### Runs -/

/-- A subscriber that stays agrees with the store whenever no call is in progress, in
every run in which no locked section replaces a value that another call still notifies
the subscriber of. -/
theorem subscriber_agrees (hs : Transition.Reachable SharedStore.step
    (fun action s => action.Keeps sub ∧ action.Quiet sub s) (SharedStore.Fresh sub) s)
    (hdone : s.calls = []) : s.Agrees sub := by
  have hinformed : s.Informed sub := by
    apply hs.invariant
    · rintro s ⟨hstore, hkeys, hcalls, hreceived, hsub⟩
      refine ⟨hsub, ?_, ?_, ?_⟩
      · intro id value hv
        rw [hstore] at hv
        cases hv
      · rintro id value ⟨call, hm, -⟩
        rw [hcalls] at hm
        cases hm
      · intro id _
        rw [hstore, hreceived]
        rfl
    · intro s t action _ hi hg hstep
      exact step_informed hi hg.1 hg.2 hstep
  intro id
  apply hinformed.told
  rintro value ⟨call, hm, -⟩
  rw [hdone] at hm
  cases hm

end Steps

end Notifications

/-! ### Two publishers of one tag -/

attribute [local instance] exactPlatform

def goodValue (level : UInt16) : TagValue := { value := .uint16 level, quality := .good }

/-- One subscriber of an empty store. -/
def subscribed : SharedStore := { subscribers := [1], nextSubscription := 2 }

/-- The second publisher notifies first. -/
def overtaking : List StoreAction :=
  [.publish 7 (goodValue 1) [1], .publish 7 (goodValue 2) [1], .notify 1, .notify 0, .done 0,
    .done 0]

/-- Each publisher notifies before the next one stores, and the value goes stale. -/
def inTurn : List StoreAction :=
  [.publish 7 (goodValue 1) [1], .notify 0, .publish 7 (goodValue 2) [1], .notify 1, .done 0,
    .markStaleBefore 5 .stale [7], .copyHandlers 1 [1], .notify 1, .done 0, .done 0]

/-- The store holds 2, and the subscriber was last told 1. -/
theorem overtaken_subscriber_disagrees : subscribed.Fresh 1 ∧
    (∀ action ∈ overtaking, action.Keeps 1) ∧
    ∃ s, Transition.run SharedStore.step overtaking subscribed = some s ∧ s.calls = [] ∧
      s.store.get 7 = some (goodValue 2) ∧
      SharedStore.lastNotified 1 7 s.received = some (goodValue 1) ∧ ¬ s.Agrees 1 := by
  have hend : (Transition.run SharedStore.step overtaking subscribed).map (fun s =>
      (s.calls.length, s.store.get 7, SharedStore.lastNotified 1 7 s.received)) =
        some (0, some (goodValue 2), some (goodValue 1)) := by decide +kernel
  obtain ⟨s, hrun, hs⟩ := Option.map_eq_some_iff.mp hend
  obtain ⟨hcalls, hstore, htold⟩ : s.calls.length = 0 ∧ s.store.get 7 = some (goodValue 2) ∧
      SharedStore.lastNotified 1 7 s.received = some (goodValue 1) := by simpa using hs
  refine ⟨⟨rfl, rfl, rfl, rfl, by decide⟩, by decide, s, hrun, List.length_eq_zero_iff.mp hcalls,
    hstore, htold, fun hagrees => ?_⟩
  have heq := hagrees 7
  rw [hstore, htold] at heq
  exact absurd heq (by decide)

theorem inTurn_subscriber_agrees :
    ∃ s, Transition.run SharedStore.step inTurn subscribed = some s ∧
      (s.store.get 7).map TagValue.quality = some .uncertain ∧ s.Agrees 1 := by
  have hend : (Transition.run SharedStore.step inTurn subscribed).map (fun s =>
      (s.calls.length, (s.store.get 7).map TagValue.quality)) = some (0, some .uncertain) := by
    decide +kernel
  obtain ⟨s, hrun, hs⟩ := Option.map_eq_some_iff.mp hend
  obtain ⟨hcalls, hquality⟩ := Prod.mk.inj hs
  have hfresh : subscribed.Fresh 1 := ⟨rfl, rfl, rfl, rfl, by decide⟩
  have hmeets : Transition.Meets SharedStore.step
      (fun action s => action.Keeps 1 ∧ action.Quiet 1 s) inTurn subscribed := by decide +kernel
  exact ⟨s, hrun, hquality, subscriber_agrees ((Transition.Reachable.start hfresh).of_meets inTurn
    hmeets hrun) (List.length_eq_zero_iff.mp hcalls)⟩

end OpcServer.Core
