import OpcServer.Lib.Transition
import OpcServer.Monitor.Session

/-! What holds of the monitor's client in every run. The library may notify an item until it
is deleted or the client object is replaced, so every item on its books has to be alive while
it is allowed to call back. -/

namespace OpcServer.Monitor

open Domain Project Transition

section Books
variable [Platform] {NodeId V : Type}

/-! ### The items of the map -/

/-- Give each item an id. -/
def setIds (id : String × Item → ℕ) (items : List (String × Item)) : List (String × Item) :=
  items.map fun p => (p.1, { p.2 with monitoredItemId := id p })

theorem mem_setIds {id : String × Item → ℕ} {items : List (String × Item)} {q : String × Item} :
    q ∈ setIds id items ↔ ∃ p ∈ items, (p.1, { p.2 with monitoredItemId := id p }) = q := by
  rw [setIds, List.mem_map]

/-- Give the items ids, and enter some of them in the books. -/
def Books.book (id : String × Item → ℕ) (more : List (ℕ × ℕ)) (b : Books) : Books :=
  { b with items := setIds id b.items, registered := more ++ b.registered }

theorem Books.book_nil (b : Books) : b.book (fun p => p.2.monitoredItemId) [] = b := by
  rw [book, setIds, List.nil_append]
  exact congrArg (fun items => { b with items }) (List.map_id' b.items)

theorem Books.book_book (f g : String × Item → ℕ) (more more' : List (ℕ × ℕ)) (b : Books) :
    (b.book f more).book g more' =
      b.book (fun p => g (p.1, { p.2 with monitoredItemId := f p })) (more' ++ more) := by
  simp only [book, setIds, List.map_map, List.append_assoc]
  rfl

theorem Books.book_congr {f g : String × Item → ℕ} {b : Books} (h : ∀ p ∈ b.items, f p = g p)
    (more : List (ℕ × ℕ)) : b.book f more = b.book g more := by
  have hids : setIds f b.items = setIds g b.items := by
    apply List.map_congr_left
    intro p hp
    rw [h p hp]
  rw [book, book, hids]

/-- The map holds every item under the key of its id, with a serial number of its own below
`made` and a node that can be named. -/
structure Tracked (parse : String → Option NodeId) (items : List (String × Item)) (made : ℕ) :
    Prop where
  keys : (items.map Prod.fst).Nodup
  key : ∀ p ∈ items, subscriptionKey p.2.externalId = some p.1
  parsed : ∀ p ∈ items, (parse p.2.nodeId).isSome
  serials : (items.map fun p => p.2.serial).Nodup
  fresh : ∀ p ∈ items, p.2.serial < made

namespace Tracked
variable {parse : String → Option NodeId} {items : List (String × Item)} {made : ℕ}

theorem eq_of_key (h : Tracked parse items made) {p q : String × Item} (hp : p ∈ items)
    (hq : q ∈ items) (he : p.1 = q.1) : p = q :=
  List.inj_on_of_nodup_map h.keys hp hq he

theorem eq_of_serial (h : Tracked parse items made) {p q : String × Item} (hp : p ∈ items)
    (hq : q ∈ items) (he : p.2.serial = q.2.serial) : p = q :=
  List.inj_on_of_nodup_map h.serials hp hq he

/-- The ids that the server gave are not part of it. -/
theorem setIds (h : Tracked parse items made) (id : String × Item → ℕ) :
    Tracked parse (Monitor.setIds id items) made where
  keys := by
    rw [Monitor.setIds, List.map_map]
    exact h.keys
  key := by
    intro q hq
    obtain ⟨p, hp, rfl⟩ := mem_setIds.mp hq
    exact h.key p hp
  parsed := by
    intro q hq
    obtain ⟨p, hp, rfl⟩ := mem_setIds.mp hq
    exact h.parsed p hp
  serials := by
    rw [Monitor.setIds, List.map_map]
    exact h.serials
  fresh := by
    intro q hq
    obtain ⟨p, hp, rfl⟩ := mem_setIds.mp hq
    exact h.fresh p hp

theorem filter (h : Tracked parse items made) (keep : String × Item → Bool) :
    Tracked parse (items.filter keep) made where
  keys := h.keys.sublist (List.filter_sublist.map _)
  key := fun p hp => h.key p (List.mem_filter.mp hp).1
  parsed := fun p hp => h.parsed p (List.mem_filter.mp hp).1
  serials := h.serials.sublist (List.filter_sublist.map _)
  fresh := fun p hp => h.fresh p (List.mem_filter.mp hp).1

theorem spend (h : Tracked parse items made) : Tracked parse items (made + 1) :=
  { h with fresh := fun p hp => Nat.lt_succ_of_lt (h.fresh p hp) }

/-- A new item under a new key. -/
theorem add (h : Tracked parse items made) {key : String} {item : Item}
    (hkey : subscriptionKey item.externalId = some key) (hparsed : (parse item.nodeId).isSome)
    (hserial : item.serial = made) (hnew : ∀ p ∈ items, p.1 ≠ key) :
    Tracked parse (items ++ [(key, item)]) (made + 1) where
  keys := by
    rw [List.map_append, List.nodup_append]
    refine ⟨h.keys, List.nodup_singleton _, ?_⟩
    rintro _ hx _ hy rfl
    obtain ⟨p, hp, he⟩ := List.mem_map.mp hx
    exact hnew p hp (he.trans (List.mem_singleton.mp hy))
  key := by
    intro p hp
    rcases List.mem_append.mp hp with hp | hp
    · exact h.key p hp
    · rw [List.mem_singleton.mp hp]
      exact hkey
  parsed := by
    intro p hp
    rcases List.mem_append.mp hp with hp | hp
    · exact h.parsed p hp
    · rw [List.mem_singleton.mp hp]
      exact hparsed
  serials := by
    rw [List.map_append, List.nodup_append]
    refine ⟨h.serials, List.nodup_singleton _, ?_⟩
    rintro _ hx _ hy rfl
    obtain ⟨p, hp, he⟩ := List.mem_map.mp hx
    have hlt := h.fresh p hp
    have heq := List.mem_singleton.mp hy
    simp only at he heq
    omega
  fresh := by
    intro p hp
    rcases List.mem_append.mp hp with hp | hp
    · exact Nat.lt_succ_of_lt (h.fresh p hp)
    · rw [List.mem_singleton.mp hp]
      exact Nat.lt_succ_of_le hserial.le

end Tracked

/-! ### The books of the library -/

/-- Without a connection nothing has an id; with one, what the library would notify is what
the map holds under an id, and there is a subscription for it. -/
structure Books.Kept (parse : String → Option NodeId) (b : Books) : Prop where
  tracked : Tracked parse b.items b.serials
  alive : b.dangling = false
  closed : b.connected = false →
    b.serverSubscriptionId = 0 ∧ ∀ p ∈ b.items, p.2.monitoredItemId = 0
  booked : b.connected = true → ∀ r, r ∈ b.registered ↔
    r.2 ≠ 0 ∧ ∃ p ∈ b.items, (p.2.serial, p.2.monitoredItemId) = r
  ids : b.connected = true → (b.registered.map Prod.snd).Nodup
  subscribed : b.connected = true → b.registered ≠ [] → b.serverSubscriptionId ≠ 0

/-- The id of an item after the server was asked for it. -/
def granted (answer : ℕ → Answer V) (p : String × Item) : ℕ :=
  if (answer p.2.serial).status = 0 then (answer p.2.serial).id else p.2.monitoredItemId

/-- What the library books while the server is asked for items, the latest first. -/
def bookings (answer : ℕ → Answer V) (items : List (String × Item)) : List (ℕ × ℕ) :=
  ((items.filter fun p => (answer p.2.serial).status = 0).map fun p =>
    (p.2.serial, (answer p.2.serial).id)).reverse

/-- Every item that the library would notify is alive. -/
def Books.Covered (b : Books) : Prop :=
  ∀ r ∈ b.registered, ∃ p ∈ b.items, p.2.serial = r.1

namespace Books.Kept
variable {parse : String → Option NodeId} {b : Books}

theorem covered (h : b.Kept parse) (hc : b.connected = true) : b.Covered := by
  intro r hr
  obtain ⟨-, p, hp, he⟩ := (h.booked hc r).mp hr
  exact ⟨p, hp, congrArg Prod.fst he⟩

/-- The connection is gone, and the ids with it. -/
theorem forget (h : b.Kept parse) :
    { b with connected := false, serverSubscriptionId := 0, items := forgetIds b.items }.Kept
      parse where
  tracked := h.tracked.setIds fun _ => 0
  alive := h.alive
  closed := by
    intro _
    refine ⟨rfl, ?_⟩
    intro q hq
    obtain ⟨p, hp, rfl⟩ := mem_setIds.mp hq
    rfl
  booked := fun hc => absurd hc Bool.false_ne_true
  ids := fun hc => absurd hc Bool.false_ne_true
  subscribed := fun hc => absurd hc Bool.false_ne_true

/-- A new client object has no item on its books. -/
theorem reset (h : b.Kept parse) (hc : b.connected = false) (connected : Bool) :
    { b with connected := connected, registered := [] }.Kept parse where
  tracked := h.tracked
  alive := h.alive
  closed := fun _ => h.closed hc
  booked := by
    intro _ r
    constructor
    · intro hr
      exact absurd hr List.not_mem_nil
    · rintro ⟨hne, p, hp, rfl⟩
      exact absurd ((h.closed hc).2 p hp) hne
  ids := fun _ => List.nodup_nil
  subscribed := fun _ hne => absurd rfl hne

theorem subscription (h : b.Kept parse) (hc : b.connected = true) {id : ℕ} (hid : id ≠ 0) :
    { b with serverSubscriptionId := id }.Kept parse where
  tracked := h.tracked
  alive := h.alive
  closed := fun hd => absurd (hc.symm.trans hd) Bool.noConfusion
  booked := h.booked
  ids := h.ids
  subscribed := fun _ _ => hid

/-- The last item took the subscription with it. -/
theorem noSubscription (h : b.Kept parse) (hitems : b.items = []) :
    { b with serverSubscriptionId := 0 }.Kept parse where
  tracked := h.tracked
  alive := h.alive
  closed := fun hc => ⟨rfl, (h.closed hc).2⟩
  booked := h.booked
  ids := h.ids
  subscribed := by
    intro hc hne
    obtain ⟨r, hr⟩ := List.exists_mem_of_ne_nil _ hne
    obtain ⟨-, p, hp, -⟩ := (h.booked hc r).mp hr
    rw [hitems] at hp
    exact absurd hp List.not_mem_nil

/-- A serial number is spent on an item that the server did not take. -/
theorem spend (h : b.Kept parse) : { b with serials := b.serials + 1 }.Kept parse where
  tracked := h.tracked.spend
  alive := h.alive
  closed := h.closed
  booked := h.booked
  ids := h.ids
  subscribed := h.subscribed

/-- The server took a new item. -/
theorem add (h : b.Kept parse) (hc : b.connected = true) (hsub : b.serverSubscriptionId ≠ 0)
    (key : String) (item : Item) (hkey : subscriptionKey item.externalId = some key)
    (hparsed : (parse item.nodeId).isSome) (hserial : item.serial = b.serials)
    (hnew : ∀ p ∈ b.items, p.1 ≠ key) (hid : item.monitoredItemId ≠ 0)
    (hids : ∀ r ∈ b.registered, item.monitoredItemId ≠ r.2) :
    { b with
      items := b.items ++ [(key, item)], serials := b.serials + 1
      registered := (item.serial, item.monitoredItemId) :: b.registered }.Kept parse where
  tracked := h.tracked.add hkey hparsed hserial hnew
  alive := h.alive
  closed := fun hd => absurd (hc.symm.trans hd) Bool.noConfusion
  booked := by
    intro _ r
    have hold := h.booked hc r
    simp only [List.mem_cons, List.mem_append, List.not_mem_nil, or_false]
    constructor
    · rintro (rfl | hr)
      · exact ⟨hid, (key, item), .inr rfl, rfl⟩
      · obtain ⟨hne, p, hp, he⟩ := hold.mp hr
        exact ⟨hne, p, .inl hp, he⟩
    · rintro ⟨hne, p, hp | rfl, he⟩
      · exact .inr (hold.mpr ⟨hne, p, hp, he⟩)
      · exact .inl he.symm
  ids := by
    intro _
    rw [List.map_cons, List.nodup_cons]
    refine ⟨?_, h.ids hc⟩
    intro hmem
    obtain ⟨r, hr, he⟩ := List.mem_map.mp hmem
    exact hids r hr he.symm
  subscribed := fun _ _ => hsub

/-- An item leaves the map, and the books of the library if it was there. -/
theorem remove (h : b.Kept parse) (hc : b.connected = true) {p : String × Item} (hp : p ∈ b.items) :
    { b with
      items := b.items.filter fun q => q.1 ≠ p.1
      registered := b.registered.filter fun r => r.2 ≠ p.2.monitoredItemId }.Kept parse where
  tracked := h.tracked.filter _
  alive := h.alive
  closed := fun hd => absurd (hc.symm.trans hd) Bool.noConfusion
  booked := by
    intro _ r
    have hold := h.booked hc r
    simp only [List.mem_filter, decide_eq_true_eq]
    constructor
    · rintro ⟨hr, hne⟩
      obtain ⟨hid, q, hq, he⟩ := hold.mp hr
      refine ⟨hid, q, ⟨hq, ?_⟩, he⟩
      intro hkey
      rw [h.tracked.eq_of_key hq hp hkey] at he
      exact hne (congrArg Prod.snd he).symm
    · rintro ⟨hid, q, ⟨hq, hkey⟩, he⟩
      refine ⟨hold.mpr ⟨hid, q, hq, he⟩, ?_⟩
      intro hsame
      -- Two entries with one id are one entry, so the items are the same.
      have hpr : (p.2.serial, p.2.monitoredItemId) ∈ b.registered :=
        (h.booked hc _).mpr ⟨hsame ▸ hid, p, hp, rfl⟩
      have hqr : (q.2.serial, q.2.monitoredItemId) ∈ b.registered :=
        (h.booked hc _).mpr ⟨by rw [he]; exact hid, q, hq, rfl⟩
      have hone := List.inj_on_of_nodup_map (h.ids hc) hqr hpr
        ((congrArg Prod.snd he).trans hsame)
      exact hkey (congrArg Prod.fst (h.tracked.eq_of_serial hq hp (congrArg Prod.fst hone)))
  ids := fun _ => (h.ids hc).sublist (List.filter_sublist.map _)
  subscribed := by
    intro _ hne
    apply h.subscribed hc
    rintro hnil
    apply hne
    simp only [hnil, List.filter_nil]

/-- An item without an id leaves the map. -/
theorem drop (h : b.Kept parse) {p : String × Item} (hp : p ∈ b.items)
    (hid : p.2.monitoredItemId = 0) :
    { b with items := b.items.filter fun q => q.1 ≠ p.1 }.Kept parse where
  tracked := h.tracked.filter _
  alive := h.alive
  closed := fun hc => ⟨(h.closed hc).1, fun q hq => (h.closed hc).2 q (List.mem_filter.mp hq).1⟩
  booked := by
    intro hc r
    rw [h.booked hc r]
    simp only [List.mem_filter, decide_eq_true_eq]
    constructor
    · rintro ⟨hne, q, hq, rfl⟩
      refine ⟨hne, q, ⟨hq, ?_⟩, rfl⟩
      intro hkey
      rw [h.tracked.eq_of_key hq hp hkey] at hne
      exact hne hid
    · rintro ⟨hne, q, ⟨hq, -⟩, he⟩
      exact ⟨hne, q, hq, he⟩
  ids := h.ids
  subscribed := h.subscribed

/-- The server was asked for every item of a new connection: those that it took are on the
books, the others have no id. -/
theorem monitored (h : b.Kept parse) (hc : b.connected = true) (hreg : b.registered = [])
    (hsub : b.serverSubscriptionId ≠ 0) {answer : ℕ → Answer V}
    (hid : ∀ n, (answer n).status = 0 → (answer n).id ≠ 0)
    (hone : ∀ m n, (answer m).status = 0 → (answer n).status = 0 → (answer m).id = (answer n).id →
      m = n)
    {order : List (String × Item)} (horder : order.Perm b.items) :
    (b.book (granted answer) (bookings answer order)).Kept parse where
  tracked := h.tracked.setIds _
  alive := h.alive
  closed := fun hd => absurd (hc.symm.trans hd) Bool.noConfusion
  booked := by
    intro _ r
    simp only [Books.book, hreg, List.append_nil, bookings, List.mem_reverse, List.mem_map,
      List.mem_filter, decide_eq_true_eq, mem_setIds]
    constructor
    · rintro ⟨p, ⟨hp, hok⟩, rfl⟩
      refine ⟨hid _ hok, _, ⟨p, horder.mem_iff.mp hp, rfl⟩, ?_⟩
      simp only [granted, if_pos hok]
    · rintro ⟨hne, _, ⟨p, hp, rfl⟩, rfl⟩
      by_cases hok : (answer p.2.serial).status = 0
      · exact ⟨p, ⟨horder.mem_iff.mpr hp, hok⟩, by simp only [granted, if_pos hok]⟩
      · -- An item that the server refused kept its id, and it had none.
        have hzero : p.2.monitoredItemId = 0 := by
          by_contra hp0
          have hmem := (h.booked hc (p.2.serial, p.2.monitoredItemId)).mpr ⟨hp0, p, hp, rfl⟩
          rw [hreg] at hmem
          exact List.not_mem_nil hmem
        simp only [granted, if_neg hok] at hne
        exact absurd hzero hne
  ids := by
    intro _
    rw [Books.book, hreg, List.append_nil, bookings, List.map_reverse, List.nodup_reverse, List.map_map]
    have hserials : (order.map fun p => p.2.serial).Nodup :=
      (horder.map _).nodup_iff.mpr h.tracked.serials
    have horderNodup : order.Nodup := List.Nodup.of_map _ hserials
    apply (horderNodup.filter _).map_on
    intro p hp q hq he
    obtain ⟨hp, hpok⟩ := List.mem_filter.mp hp
    obtain ⟨hq, hqok⟩ := List.mem_filter.mp hq
    apply List.inj_on_of_nodup_map hserials hp hq
    exact hone _ _ (of_decide_eq_true hpok) (of_decide_eq_true hqok) he
  subscribed := fun _ _ => hsub

end Books.Kept

/-! ### Services -/

namespace Session
variable {parse : String → Option NodeId} {s : Session V}

@[simp] theorem emit_toBooks (e : SessionEvent V) : (s.emit e).toBooks = s.toBooks := rfl

@[simp] theorem emitError_toBooks (message : String) (status : UInt32) (command : Option Json) :
    (s.emitError message status command).toBooks = s.toBooks := rfl

@[simp] theorem emitConnection_toBooks (state : String) (status : UInt32) (command : Option Json) :
    (s.emitConnection state status command).toBooks = s.toBooks := rfl

@[simp] theorem advance_toBooks (n : ℕ) : (s.advance n).toBooks = s.toBooks := rfl

@[simp] theorem backOff_toBooks : s.backOff.toBooks = s.toBooks := rfl

theorem notify_toBooks (h : s.toBooks.Covered) (n : ℕ × V) : (s.notify n).toBooks = s.toBooks := by
  unfold notify
  split
  · next hreg =>
    obtain ⟨r, hr, he⟩ := List.any_eq_true.mp hreg
    obtain ⟨p, hp, hserial⟩ := h r hr
    split
    · rfl
    · next hnone =>
      have hp' := List.find?_eq_none.mp hnone p hp
      rw [hserial] at hp'
      exact absurd he hp'
  · rfl

/-- Notifications find their items, and change nothing but the events. -/
theorem deliver_toBooks (h : s.toBooks.Covered) (notified : List (ℕ × V)) :
    (s.deliver notified).toBooks = s.toBooks := by
  induction notified generalizing s with
  | nil => rfl
  | cons n rest ih =>
    have hn := notify_toBooks h n
    exact (ih (hn ▸ h)).trans hn

theorem createServerSubscription_cases (h : s.toBooks.Covered) (a : Answer V) :
    (a.status ≠ 0 ∧ ∃ t, s.createServerSubscription a = (false, t) ∧ t.toBooks = s.toBooks) ∨
      (a.status = 0 ∧ ∃ t, s.createServerSubscription a = (true, t) ∧
        t.toBooks = { s.toBooks with serverSubscriptionId := a.id }) := by
  unfold createServerSubscription
  by_cases hstatus : a.status = 0
  · refine .inr ⟨hstatus, _, if_neg (not_not.mpr hstatus), ?_⟩
    simp only [deliver_toBooks h]
  · exact .inl ⟨hstatus, _, if_pos hstatus, deliver_toBooks h _⟩

theorem createMonitoredItem_cases (parse : String → Option NodeId) (h : s.toBooks.Covered)
    (a : Answer V) (item : Item) :
    (((parse item.nodeId).isSome → a.status ≠ 0) ∧
        ∃ t, s.createMonitoredItem parse a item = (none, t) ∧ t.toBooks = s.toBooks) ∨
      ((parse item.nodeId).isSome ∧ a.status = 0 ∧
        ∃ t, s.createMonitoredItem parse a item = (some a.id, t) ∧
          t.toBooks = { s.toBooks with registered := (item.serial, a.id) :: s.registered }) := by
  unfold createMonitoredItem
  by_cases hparse : (parse item.nodeId).isNone
  · refine .inl ⟨?_, _, if_pos hparse, rfl⟩
    intro hsome
    rw [Option.isNone_iff_eq_none.mp hparse] at hsome
    exact absurd hsome Bool.false_ne_true
  · rw [if_neg hparse]
    have hsome : (parse item.nodeId).isSome := by
      rw [← Option.not_isNone, Bool.not_eq_true']
      exact Bool.eq_false_iff.mpr hparse
    by_cases hstatus : a.status = 0
    · refine .inr ⟨hsome, hstatus, _, if_neg (not_not.mpr hstatus), ?_⟩
      simp only [deliver_toBooks h]
    · exact .inl ⟨fun _ => hstatus, _, if_pos hstatus, deliver_toBooks h _⟩

/-- A new id for one item. -/
def oneId (key : String) (id : ℕ) (p : String × Item) : ℕ :=
  if p.1 = key then id else p.2.monitoredItemId

theorem setMonitored_toBooks (key : String) (id : ℕ) :
    (s.setMonitored key id).toBooks = s.toBooks.book (oneId key id) [] := by
  have hitems : (s.setMonitored key id).items = setIds (oneId key id) s.items := by
    apply List.map_congr_left
    intro p _
    dsimp only [oneId]
    split <;> rfl
  rw [Books.book, ← hitems, List.nil_append]
  rfl

/-- What the loop makes of the ids. -/
def loopIds (answer : ℕ → Answer V) (rest : List (String × Item)) (p : String × Item) : ℕ :=
  if p.1 ∈ rest.map Prod.fst then granted answer p else p.2.monitoredItemId

/-- The items that the loop still goes through are in the map. -/
def Listed (parse : String → Option NodeId) (b : Books) (rest : List (String × Item)) : Prop :=
  ∀ p ∈ rest, (parse p.2.nodeId).isSome ∧ (∃ q ∈ b.items, q.1 = p.1) ∧
    ∀ q ∈ b.items, q.1 = p.1 → q.2.serial = p.2.serial

theorem Listed.book {b : Books} {rest : List (String × Item)} (h : Listed parse b rest)
    (id : String × Item → ℕ) (more : List (ℕ × ℕ)) : Listed parse (b.book id more) rest := by
  intro p hp
  obtain ⟨hparse, ⟨q, hq, he⟩, hserial⟩ := h p hp
  refine ⟨hparse, ⟨_, mem_setIds.mpr ⟨q, hq, rfl⟩, he⟩, ?_⟩
  intro q' hq' he'
  obtain ⟨q₀, hq₀, rfl⟩ := mem_setIds.mp hq'
  exact hserial q₀ hq₀ he'

theorem monitorAll_toBooks (answer : ℕ → Answer V) (rest : List (String × Item)) {s : Session V}
    (h : s.toBooks.Covered) (hrest : Listed parse s.toBooks rest) :
    (s.monitorAll parse answer rest).toBooks =
      s.toBooks.book (loopIds answer rest) (bookings answer rest) := by
  induction rest generalizing s with
  | nil => exact (Books.book_nil s.toBooks).symm
  | cons p rest ih =>
    obtain ⟨hparse, ⟨q, hq, hqp⟩, hserial⟩ := hrest p List.mem_cons_self
    have hlater : Listed parse s.toBooks rest := fun p' hp' => hrest p' (List.mem_cons_of_mem _ hp')
    rw [monitorAll]
    rcases createMonitoredItem_cases parse h (answer p.2.serial) p.2 with
      ⟨hbad, t, ht, hbooks⟩ | ⟨-, hok, t, ht, hbooks⟩
    · -- The server refused the item: its id stays what it was.
      have hbad := hbad hparse
      have hmore : bookings answer (p :: rest) = bookings answer rest := by
        simp only [bookings, hbad, List.filter_cons, decide_false, Bool.false_eq_true, if_false]
      rw [ht, ih (hbooks ▸ h) (hbooks ▸ hlater), hbooks, hmore]
      apply Books.book_congr
      intro q hq
      by_cases hkey : q.1 = p.1
      · simp only [loopIds, granted, hserial q hq hkey, if_neg hbad, ite_self]
      · simp only [loopIds, List.map_cons, List.mem_cons, hkey, false_or]
    · have hnext : (t.setMonitored p.1 (answer p.2.serial).id).toBooks =
          s.toBooks.book (oneId p.1 (answer p.2.serial).id)
            [(p.2.serial, (answer p.2.serial).id)] := by
        rw [setMonitored_toBooks, hbooks]
        rfl
      have hcov : (s.toBooks.book (oneId p.1 (answer p.2.serial).id)
          [(p.2.serial, (answer p.2.serial).id)]).Covered := by
        intro r hr
        obtain ⟨q', hq', he⟩ : ∃ q ∈ s.items, q.2.serial = r.1 := by
          rcases List.mem_cons.mp hr with rfl | hr
          · exact ⟨q, hq, hserial q hq hqp⟩
          · exact h r hr
        exact ⟨_, mem_setIds.mpr ⟨q', hq', rfl⟩, he⟩
      have hmore : bookings answer (p :: rest) =
          bookings answer rest ++ [(p.2.serial, (answer p.2.serial).id)] := by
        simp only [bookings, hok, List.filter_cons, decide_true, if_true, List.map_cons,
          List.reverse_cons]
      rw [ht]
      dsimp only
      rw [ih (hnext ▸ hcov) (hnext ▸ hlater.book _ _), hnext, Books.book_book, hmore]
      apply Books.book_congr
      intro q hq
      by_cases hkey : q.1 = p.1
      · simp only [loopIds, granted, oneId, hserial q hq hkey, if_pos hok, hkey, List.map_cons,
          List.mem_cons, true_or, if_true, ite_self]
      · simp only [loopIds, granted, oneId, List.map_cons, List.mem_cons, hkey, false_or, if_false]

/-! ### Connecting -/

theorem applySecurity_toBooks {a : Answers NodeId V} {t : Session V}
    (h : s.applySecurity a = some t) : t.toBooks = s.toBooks := by
  unfold applySecurity at h
  split_ifs at h
  · cases h
    rfl
  · split at h
    · cases h
      rfl
    · cases h
      rfl

theorem resetClient_toBooks {a : Answers NodeId V} (hreleased : a.released = []) {t : Session V}
    (h : s.resetClient a = some t) : t.toBooks = { s.toBooks with registered := [] } := by
  unfold resetClient at h
  rw [hreleased] at h
  split_ifs at h
  exact applySecurity_toBooks h

/-- The server accepts the client. -/
def Accepted (a : Answers NodeId V) (s : Session V) : Prop :=
  s.securityOk = true ∧ s.authenticate a = some (none, 0)

theorem establish_refused {a : Answers NodeId V} {command : Option Json} (h : ¬ s.Accepted a)
    {t : Session V} (ht : s.establish parse a command = some t) :
    t.toBooks = { s.toBooks with connected := false } := by
  unfold establish at ht
  split at ht
  · cases ht
    rfl
  · next hok =>
    split at ht
    · cases ht
    · cases ht
      rfl
    · next status hauth =>
      split at ht
      · cases ht
        rfl
      · next hstatus =>
        apply absurd _ h
        rw [Accepted, hauth, not_not.mp hstatus]
        exact ⟨by simpa only [Bool.not_eq_true', Bool.not_eq_false] using hok, rfl⟩

/-- A connection that was accepted, before its items. -/
def connectedTo (command : Option Json) (s : Session V) : Session V :=
  { s with connected := true, reconnectAt := 0 }.emitConnection "connected" 0 command

theorem establish_accepted (a : Answers NodeId V) (command : Option Json) (h : s.Accepted a) :
    s.establish parse a command = some (monitorItems parse a (s.connectedTo command)) := by
  obtain ⟨hsecure, hauth⟩ := h
  have hopen : ¬ (!s.securityOk) = true := by simp only [hsecure, Bool.not_true, Bool.false_eq_true,
    not_false_eq_true]
  unfold establish
  rw [if_neg hopen]
  simp only [hauth, ne_eq, not_true_eq_false, if_false]
  rfl

end Session

/-- What the library promises: a server never gives the id 0, nor one id to two items of a
subscription; no item is notified while a client object is deleted; and a map is gone through
whole, in some order. -/
structure Answers.Sound (a : Answers NodeId V) : Prop where
  released : a.released = []
  subscription : a.subscription.status = 0 → a.subscription.id ≠ 0
  item : ∀ n, (a.item n).status = 0 → (a.item n).id ≠ 0
  one : ∀ m n, (a.item m).status = 0 → (a.item n).status = 0 → (a.item m).id = (a.item n).id → m = n
  order : ∀ items, (a.order items).Perm items

namespace Session
variable {parse : String → Option NodeId} {s : Session V}

/-- The books after the server took the client, its subscription and its items. -/
def restored (a : Answers NodeId V) (s : Session V) : Books :=
  { s.toBooks with connected := true, serverSubscriptionId := a.subscription.id }.book
    (granted a.item) (bookings a.item (a.order s.items))

theorem establish_toBooks {a : Answers NodeId V} (command : Option Json) (h : s.Accepted a)
    (hsound : a.Sound) (hk : s.toBooks.Kept parse) (hreg : s.registered = []) {t : Session V}
    (ht : s.establish parse a command = some t) :
    t.toBooks =
      if s.items = [] ∨ a.subscription.status ≠ 0 then { s.toBooks with connected := true }
      else s.restored a := by
  rw [establish_accepted a command h] at ht
  cases ht
  rw [monitorItems]
  have hempty : (s.connectedTo command).items.isEmpty = true ↔ s.items = [] := List.isEmpty_iff
  by_cases hitems : s.items = []
  · rw [if_pos (hempty.mpr hitems), if_pos (.inl hitems)]
    rfl
  · have hcov : (s.connectedTo command).toBooks.Covered := by
      have hnone : (s.connectedTo command).registered = [] := hreg
      intro r hr
      rw [hnone] at hr
      exact absurd hr List.not_mem_nil
    rw [if_neg (fun h => hitems (hempty.mp h))]
    rcases createServerSubscription_cases hcov a.subscription with
      ⟨hbad, t, ht, hbooks⟩ | ⟨hok, t, ht, hbooks⟩
    · rw [ht, if_pos (.inr hbad)]
      exact hbooks
    · rw [ht, if_neg (by simp only [hitems, hok, false_or, not_true_eq_false, ne_eq,
        not_false_eq_true])]
      have hperm := hsound.order t.items
      have htitems : t.items = s.items := by rw [hbooks]; rfl
      have hlisted : Listed parse t.toBooks (a.order t.items) := by
        intro p hp
        have hp : p ∈ t.items := hperm.mem_iff.mp hp
        refine ⟨hk.tracked.parsed p (htitems ▸ hp), ⟨p, hp, rfl⟩, ?_⟩
        intro q hq hkey
        rw [hk.tracked.eq_of_key (htitems ▸ hq) (htitems ▸ hp) hkey]
      dsimp only
      rw [monitorAll_toBooks a.item _ (hbooks ▸ hcov) hlisted, htitems, hbooks]
      apply Books.book_congr
      intro p hp
      have hmem : p.1 ∈ (a.order s.items).map Prod.fst :=
        List.mem_map_of_mem ((htitems ▸ hperm).mem_iff.mpr hp)
      rw [loopIds, if_pos hmem]

theorem establish_kept {a : Answers NodeId V} (command : Option Json) (hsound : a.Sound)
    (hk : s.toBooks.Kept parse) (hc : s.connected = false) (hreg : s.registered = [])
    {t : Session V} (ht : s.establish parse a command = some t) : t.toBooks.Kept parse := by
  have hreset := hk.reset hc true
  rw [← hreg] at hreset
  by_cases h : s.Accepted a
  · rw [establish_toBooks command h hsound hk hreg ht]
    split_ifs with hnone
    · exact hreset
    · rw [not_or, not_not] at hnone
      exact (hreset.subscription rfl (hsound.subscription hnone.2)).monitored rfl hreg
        (hsound.subscription hnone.2) hsound.item hsound.one (hsound.order s.items)
  · rw [establish_refused h ht]
    have hsame := hk.reset hc false
    rw [← hreg] at hsame
    exact hsame

theorem close_toBooks (a : Answers NodeId V) (hk : s.toBooks.Kept parse) (notify : Bool)
    (command : Option Json) :
    (s.close a notify command).toBooks =
      { s.toBooks with
        connected := false, serverSubscriptionId := 0, items := forgetIds s.items } := by
  have hdeliver : s.connected = true →
      ({ s with wantConnected := false }.deliver a.disconnect.notified).toBooks = s.toBooks := by
    intro hc
    exact deliver_toBooks (s := { s with wantConnected := false }) (hk.covered hc) _
  unfold close
  dsimp only
  have hb : (if s.connected = true then
      { s with wantConnected := false }.deliver a.disconnect.notified
      else { s with wantConnected := false }).toBooks = s.toBooks := by
    split_ifs with hc
    · exact hdeliver hc
    · rfl
  split_ifs at hb ⊢ <;> simp only [emitConnection_toBooks, hb]

theorem close_kept (a : Answers NodeId V) (hk : s.toBooks.Kept parse) (notify : Bool)
    (command : Option Json) : (s.close a notify command).toBooks.Kept parse := by
  rw [close_toBooks a hk]
  exact hk.forget

theorem attempt_toBooks {a : Answers NodeId V} {command : Option Json} {t : Session V}
    (h : s.attempt parse a command = some t) :
    ∃ u, s.resetClient a = some u ∧ ∃ v, u.establish parse a command = some v ∧
      t.toBooks = v.toBooks := by
  simp only [attempt, Option.bind_eq_bind, Option.bind_eq_some_iff, Option.pure_def,
    Option.some.injEq] at h
  obtain ⟨u, hu, v, hv, rfl⟩ := h
  refine ⟨u, hu, v, hv, ?_⟩
  split_ifs
  · rfl
  · rfl

/-- A connection that is set up anew, on a client object of its own. -/
theorem attempt_kept {a : Answers NodeId V} {command : Option Json} (hsound : a.Sound)
    (hk : s.toBooks.Kept parse) (hc : s.connected = false) {t : Session V}
    (h : s.attempt parse a command = some t) : t.toBooks.Kept parse := by
  obtain ⟨u, hu, v, hv, hbooks⟩ := attempt_toBooks h
  have hreset := resetClient_toBooks hsound.released hu
  rw [hbooks]
  apply establish_kept command hsound _ _ _ hv
  · rw [hreset]
    have hnew := hk.reset hc false
    rwa [← hc] at hnew
  · rw [hreset]
    exact hc
  · rw [hreset]

/-! ### Commands -/

/-- The key is that of no item yet. -/
theorem subscribe_kept {a : Answers NodeId V} (command : Json) (hsound : a.Sound)
    (hfresh : s.connected = true → ∀ n, (a.item n).status = 0 → ∀ r ∈ s.registered,
      (a.item n).id ≠ r.2) (hk : s.toBooks.Kept parse) :
    (s.subscribe parse a command).toBooks.Kept parse := by
  unfold subscribe
  split
  · exact hk
  next hopen =>
  have hc : s.connected = true := by simpa only [Bool.not_eq_true', Bool.not_eq_false] using hopen
  split
  swap
  · exact hk
  next nodeId externalId hnode hext =>
  split
  · exact hk
  next key hkey =>
  split
  · exact hk
  next hnew =>
  have hnew : ∀ p ∈ s.items, p.1 ≠ key := by
    intro p hp he
    exact hnew (List.any_eq_true.mpr ⟨p, hp, beq_iff_eq.mpr he⟩)
  -- The subscription first, when there is none.
  have hsubscription : ∃ ok t, (if s.serverSubscriptionId = 0 then
        s.createServerSubscription a.subscription else (true, s)) = (ok, t) ∧
      t.toBooks.Kept parse ∧ t.connected = true ∧ t.items = s.items ∧ t.serials = s.serials ∧
      t.registered = s.registered ∧ (ok = true → t.serverSubscriptionId ≠ 0) := by
    split_ifs with hzero
    · rcases createServerSubscription_cases (hk.covered hc) a.subscription with
        ⟨-, t, ht, hbooks⟩ | ⟨hok, t, ht, hbooks⟩
      · refine ⟨false, t, ht, ?_⟩
        rw [hbooks]
        exact ⟨hk, hc, rfl, rfl, rfl, fun h => absurd h Bool.false_ne_true⟩
      · refine ⟨true, t, ht, ?_⟩
        rw [hbooks]
        exact ⟨hk.subscription hc (hsound.subscription hok), hc, rfl, rfl, rfl,
          fun _ => hsound.subscription hok⟩
    · exact ⟨true, s, rfl, hk, hc, rfl, rfl, rfl, fun _ => hzero⟩
  obtain ⟨ok, t, ht, hkt, hct, hitems, hserials, hregistered, hsub⟩ := hsubscription
  rw [ht]
  dsimp only
  split
  · exact hkt
  next hok =>
  have hok : ok = true := by simpa only [Bool.not_eq_true', Bool.not_eq_false] using hok
  have hcov : ({ t with serials := t.serials + 1 } : Session V).toBooks.Covered := hkt.covered hct
  rcases createMonitoredItem_cases parse hcov (a.item t.serials)
      { serial := t.serials, externalId, nodeId } with
    ⟨-, u, hu, hbooks⟩ | ⟨hparse, hgood, u, hu, hbooks⟩
  · rw [hu]
    dsimp only
    rw [hbooks]
    exact hkt.spend
  · rw [hu]
    have hadd := hkt.add hct (hsub hok) key
      { serial := t.serials, externalId, nodeId, monitoredItemId := (a.item t.serials).id }
      hkey hparse rfl (hitems ▸ hnew) (hsound.item _ hgood)
      (fun r hr => hfresh hc _ hgood r (hregistered ▸ hr))
    dsimp only
    rw [hbooks]
    exact hadd

theorem removeItem_toBooks {a : Answers NodeId V} (key : String)
    (hk : { s.toBooks with items := s.items.filter fun p => p.1 ≠ key }.Kept parse) :
    (s.removeItem a key).toBooks.Kept parse := by
  unfold removeItem
  dsimp only
  split
  · next hlast =>
    simp only [Bool.and_eq_true, List.isEmpty_iff] at hlast
    obtain ⟨⟨hnone, hc⟩, -⟩ := hlast
    have hbooks := deliver_toBooks
      (s := { s with items := s.items.filter fun p => p.1 ≠ key }) (hk.covered hc)
      a.deleteSubscription.notified
    rw [hbooks]
    exact hk.noSubscription hnone
  · exact hk

theorem unsubscribe_kept (a : Answers NodeId V) (command : Json) (hk : s.toBooks.Kept parse) :
    (s.unsubscribe a command).toBooks.Kept parse := by
  unfold unsubscribe
  split
  · exact hk
  split
  · exact hk
  next key hkey =>
  split
  · exact hk
  next key' item hfind =>
  have hmem : (key', item) ∈ s.items := List.mem_of_find?_eq_some hfind
  have hkey' : key' = key := by
    have := List.find?_some hfind
    exact beq_iff_eq.mp this
  subst hkey'
  split
  · next hopen =>
    simp only [Bool.and_eq_true, decide_eq_true_eq] at hopen
    have hbooks := deliver_toBooks (hk.covered hopen.1) a.delete.notified
    split
    · rw [emitError_toBooks, hbooks]
      exact hk
    · apply removeItem_toBooks
      dsimp only
      rw [hbooks]
      exact hk.remove hopen.1 hmem
  · next hclosed =>
    apply removeItem_toBooks
    apply hk.drop hmem
    by_cases hc : s.connected = true
    · simpa only [hc, Bool.true_and, decide_eq_true_eq, ne_eq, not_not] using hclosed
    · exact (hk.closed (Bool.eq_false_iff.mpr hc)).2 _ hmem

theorem browse_kept (print : NodeId → String) (a : Answers NodeId V) (command : Json)
    (hk : s.toBooks.Kept parse) : (s.browse print parse a command).toBooks.Kept parse := by
  unfold browse
  dsimp only
  rw [emit_toBooks]
  split
  · exact hk
  · next hasked =>
    -- The library was called, so there is a connection.
    have hc : s.connected = true := by
      by_contra hc
      rw [Bool.not_eq_true] at hc
      apply hasked
      simp only [Monitor.browse, hc, Bool.not_false, if_true, List.isEmpty_nil]
    rw [deliver_toBooks (hk.covered hc)]
    exact hk

theorem connect_kept {a : Answers NodeId V} (command : Json) (hsound : a.Sound)
    (hk : s.toBooks.Kept parse) {t : Session V} (h : s.connect parse a command = some t) :
    t.toBooks.Kept parse := by
  unfold connect at h
  split at h
  · cases h
    exact hk
  · simp only [Option.bind_eq_bind, Option.bind_eq_some_iff] at h
    obtain ⟨mode, -, policy, -, cert, -, key, -, userCert, -, userKey, -, h⟩ := h
    apply attempt_kept hsound _ _ h
    · exact close_kept a hk false none
    · exact congrArg Books.connected (close_toBooks a hk false none)

theorem tick_kept {a : Answers NodeId V} (hsound : a.Sound) (hk : s.toBooks.Kept parse)
    {t : Session V} (h : s.tick parse a = some t) : t.toBooks.Kept parse := by
  unfold tick at h
  split at h
  · next hc =>
    have hbooks := deliver_toBooks (hk.covered hc) a.iterate.notified
    dsimp only at h
    split at h
    · cases h
      have hforget := hk.forget
      rw [← hbooks] at hforget
      exact hforget
    · cases h
      rw [advance_toBooks, hbooks]
      exact hk
  · next hc =>
    split at h
    · exact attempt_kept hsound (s := { s.emitConnection "reconnecting" 0 none with
        marks := (true, s.clock) :: s.marks }) hk (Bool.eq_false_iff.mpr hc) h
    · cases h
      exact hk

theorem dispatch_kept (print : NodeId → String) {a : Answers NodeId V} (command : Json)
    (hsound : a.Sound)
    (hfresh : command.string? "command" = some "subscribe" → s.connected = true →
      ∀ n, (a.item n).status = 0 → ∀ r ∈ s.registered, (a.item n).id ≠ r.2)
    (hk : s.toBooks.Kept parse) {t : Session V} (h : s.dispatch print parse a command = some t) :
    t.toBooks.Kept parse := by
  unfold dispatch at h
  split at h
  · cases h
    exact hk
  next name hname =>
  split_ifs at h with hconnect hbrowse hsubscribe hunsubscribe hclose
  · exact connect_kept command hsound hk h
  · cases h
    exact browse_kept print a command hk
  · cases h
    exact subscribe_kept command hsound (hfresh (hname.trans (congrArg some hsubscribe))) hk
  · cases h
    exact unsubscribe_kept a command hk
  · cases h
    exact close_kept a hk true _
  · cases h
    exact hk

end Session

/-! ### Runs -/

/-- A command to watch one more item. -/
def SessionAction.subscribes : SessionAction NodeId V → Prop
  | .command request _ => request.string? "command" = some "subscribe"
  | _ => False

/-- The promises of the library, also for an item next to those that it has on its books. -/
def SessionAction.Contract (action : SessionAction NodeId V) (s : Session V) : Prop :=
  action.answers.Sound ∧
    (action.subscribes → s.connected = true → ∀ n, (action.answers.item n).status = 0 →
      ∀ r ∈ s.registered, (action.answers.item n).id ≠ r.2)

variable {print : NodeId → String} {parse : String → Option NodeId}

theorem sessionStep_kept {action : SessionAction NodeId V} {s t : Session V}
    (hk : s.toBooks.Kept parse) (hcontract : action.Contract s)
    (h : sessionStep print parse action s = some t) : t.toBooks.Kept parse := by
  cases action with
  | command command a =>
    exact Session.dispatch_kept (s := s.advance a.before) print command hcontract.1 hcontract.2 hk h
  | tick a => exact Session.tick_kept (s := s.advance a.before) hcontract.1 hk h
  | shutdown a =>
    cases h
    exact Session.close_kept (s := s.advance a.before) a hk false none

theorem kept_start : ({} : Session V).toBooks.Kept parse where
  tracked := ⟨List.nodup_nil, by simp, by simp, List.nodup_nil, by simp⟩
  alive := rfl
  closed := fun _ => ⟨rfl, by simp⟩
  booked := fun hc => absurd hc Bool.false_ne_true
  ids := fun hc => absurd hc Bool.false_ne_true
  subscribed := fun hc => absurd hc Bool.false_ne_true

theorem reachable_kept {s : Session V}
    (h : Reachable (sessionStep print parse) SessionAction.Contract (· = {}) s) :
    s.toBooks.Kept parse := by
  apply h.invariant (fun s => s.toBooks.Kept parse)
  · rintro _ rfl
    exact kept_start
  · intro s t action _ hk hcontract hstep
    exact sessionStep_kept hk hcontract hstep

/-- No notification ever meets an item that is gone. Without a connection nothing has an id;
with one, the library watches exactly the items that have one, each under its own, and never
without a subscription. No two items were asked for under the same id. -/
theorem reachable_books {s : Session V}
    (h : Reachable (sessionStep print parse) SessionAction.Contract (· = {}) s) :
    s.dangling = false ∧
      (s.connected = false →
        s.serverSubscriptionId = 0 ∧ ∀ p ∈ s.items, p.2.monitoredItemId = 0) ∧
      (s.connected = true →
        (s.registered.map Prod.snd).Nodup ∧
        (∀ serial id, (serial, id) ∈ s.registered ↔
          id ≠ 0 ∧ ∃ p ∈ s.items, p.2.serial = serial ∧ p.2.monitoredItemId = id) ∧
        (s.registered ≠ [] → s.serverSubscriptionId ≠ 0)) ∧
      s.items.Pairwise fun p q => p.2.externalId ≠ q.2.externalId := by
  have hk := reachable_kept h
  refine ⟨hk.alive, hk.closed, ?_, ?_⟩
  · intro hc
    refine ⟨hk.ids hc, ?_, hk.subscribed hc⟩
    intro serial id
    rw [hk.booked hc (serial, id)]
    simp only [Prod.mk.injEq]
  · have hkeys := hk.tracked.keys
    rw [List.Nodup, List.pairwise_map] at hkeys
    apply hkeys.imp_of_mem
    intro p q hp hq hne he
    apply hne
    have hsame := (hk.tracked.key p hp).symm.trans ((congrArg subscriptionKey he).trans
      (hk.tracked.key q hq))
    exact Option.some.inj hsame

/-- What was reported and when it was tried does not matter to the server. -/
theorem Session.accepted_congr {a : Answers NodeId V} (hreleased : a.released = [])
    (events : List (SessionEvent V)) (marks : List (Bool × ℕ)) {s t : Session V}
    (h : s.resetClient a = some t) (haccept : t.Accepted a) :
    ∃ u, { s with events := events, marks := marks }.resetClient a = some u ∧ u.Accepted a := by
  unfold resetClient applySecurity at h ⊢
  rw [hreleased] at h ⊢
  dsimp only [deliver, List.foldl_nil] at h ⊢
  split_ifs at h ⊢
  · cases h
    exact ⟨_, rfl, haccept⟩
  · split at h
    · cases h
      exact ⟨_, rfl, haccept⟩
    · cases h
      exact ⟨_, rfl, haccept⟩

theorem Session.tick_due {s : Session V} (a : Answers NodeId V) (hwant : s.wantConnected = true)
    (hclosed : s.connected = false) (hdue : s.reconnectAt ≤ s.clock) :
    s.tick parse a = { s.emitConnection "reconnecting" 0 none with
      marks := (true, s.clock) :: s.marks }.attempt parse a none := by
  have hgo : (s.wantConnected && decide (s.reconnectAt ≤ s.clock)) = true := by
    rw [hwant, decide_eq_true hdue, Bool.and_self]
  unfold tick
  rw [if_neg (by rw [hclosed]; exact Bool.false_ne_true), if_pos hgo]
  rfl

theorem Session.attempt_accepted (parse : String → Option NodeId) {s u : Session V}
    {a : Answers NodeId V} (command : Option Json)
    (hu : s.resetClient a = some u) (haccept : u.Accepted a) :
    ∃ t, s.attempt parse a command = some t := by
  unfold attempt
  rw [hu]
  rw [Option.bind_eq_bind, Option.bind_some, establish_accepted a command haccept]
  exact ⟨_, rfl⟩

/-- When the client has its connection back, it watches what it watched before, as far as the
server takes it, and forgets nothing. -/
theorem tick_restores {s : Session V}
    (h : Reachable (sessionStep print parse) SessionAction.Contract (· = {}) s)
    {a : Answers NodeId V} (hsound : a.Sound) (hwant : s.wantConnected = true)
    (hclosed : s.connected = false) (hdue : s.reconnectAt ≤ s.clock)
    (haccept : ∃ t, s.resetClient a = some t ∧ t.Accepted a) (hsub : a.subscription.status = 0) :
    ∃ t, s.tick parse a = some t ∧ t.connected = true ∧
      t.items = setIds (granted a.item) s.items ∧
      ∀ r, r ∈ t.registered ↔ ∃ p ∈ s.items, (a.item p.2.serial).status = 0 ∧
        (p.2.serial, (a.item p.2.serial).id) = r := by
  have hk := reachable_kept h
  obtain ⟨u₀, hu₀, haccept⟩ := haccept
  obtain ⟨u, hu, haccept⟩ := Session.accepted_congr hsound.released
    (s.events ++ [.connection "reconnecting" s.endpoint 0 none]) ((true, s.clock) :: s.marks)
    hu₀ haccept
  obtain ⟨t, ht⟩ := Session.attempt_accepted parse none hu haccept
  obtain ⟨u', hu', v, hv, hbooks⟩ := Session.attempt_toBooks ht
  cases hu.symm.trans hu'
  have hreset : u.toBooks = { s.toBooks with registered := [] } :=
    Session.resetClient_toBooks (s := { s.emitConnection "reconnecting" 0 none with
      marks := (true, s.clock) :: s.marks }) hsound.released hu
  have hrestored : t.toBooks =
      if s.items = [] then { s.toBooks with registered := [], connected := true }
      else u.restored a := by
    rw [hbooks, Session.establish_toBooks none haccept hsound _ _ hv, hreset]
    · simp only [hsub, ne_eq, not_true_eq_false, or_false]
    · rw [hreset]
      have := hk.reset hclosed false
      rwa [← hclosed] at this
    · rw [hreset]
  refine ⟨t, (Session.tick_due a hwant hclosed hdue).trans ht, ?_⟩
  rw [hrestored]
  split_ifs with hnone
  · refine ⟨rfl, ?_, ?_⟩
    · rw [hnone]
      rfl
    · intro r
      simp only [hnone, List.not_mem_nil, false_and, exists_false]
  · refine ⟨rfl, ?_, ?_⟩
    · simp only [Session.restored, Books.book, hreset]
    · intro r
      simp only [Session.restored, Books.book, hreset, List.append_nil, bookings, List.mem_reverse,
        List.mem_map, List.mem_filter, decide_eq_true_eq, (hsound.order s.items).mem_iff, and_assoc]

end Books

/-! ### A connection that is lost and regained -/

section Regained
attribute [local instance] exactPlatform

/-- A library that takes everything. -/
def obliging : Answers String ℕ := { subscription := { id := 1 }, item := fun n => { id := n + 1 } }

def connectLocal : Json :=
  .object [("command", .string "connect"), ("endpoint", .string "opc.tcp://localhost:4840")]

def watchLevel : Json :=
  .object [("command", .string "subscribe"), ("nodeId", .string "ns=1;s=level"),
    ("subscriptionId", .int 7)]

/-- An item is watched; a value comes in while the connection is lost, and two seconds pass
with a command that needs one. -/
def lost : List (SessionAction String ℕ) :=
  [.command connectLocal obliging, .command watchLevel obliging,
    .tick { obliging with iterate := { status := 1, notified := [(0, 42)] } },
    .command (.object [("command", .string "browse")]) { obliging with before := 2000 }]

theorem obliging_sound : obliging.Sound where
  released := rfl
  subscription := fun _ => by decide
  item := fun n _ => Nat.succ_ne_zero n
  one := fun _ _ _ _ h => Nat.succ.inj h
  order := fun items => List.Perm.refl items

theorem lost_some : (run (sessionStep id some) lost {}).isSome = true := by decide +kernel

def lostState : Session ℕ := (run (sessionStep id some) lost {}).get lost_some

theorem lost_meets : Meets (sessionStep id some) SessionAction.Contract lost {} := by
  have hsound : ∀ iterate before, ({ obliging with iterate := iterate, before := before } :
      Answers String ℕ).Sound := fun _ _ => { obliging_sound with }
  refine ⟨⟨obliging_sound, ?_⟩, fun t ht => ⟨⟨obliging_sound, ?_⟩, fun _ _ =>
    ⟨⟨hsound _ _, ?_⟩, fun _ _ => ⟨⟨hsound _ _, ?_⟩, fun _ _ => trivial⟩⟩⟩⟩
  · change connectLocal.string? "command" = some "subscribe" → _
    exact fun h => absurd h (by decide)
  · intro _ _ n _ r hr
    have hnone : t.registered = [] := by
      have h := congrArg (Option.map fun s : Session ℕ => s.registered) ht
      exact Option.some.inj h.symm
    rw [hnone] at hr
    exact absurd hr List.not_mem_nil
  · exact False.elim
  · change (Json.object [("command", .string "browse")]).string? "command" = some "subscribe" → _
    exact fun h => absurd h (by decide)

theorem lost_reachable :
    Reachable (sessionStep id some) SessionAction.Contract (· = {}) lostState :=
  .of_meets lost (.start rfl) lost_meets (Option.some_get lost_some).symm

theorem lost_books : lostState.items.length = 1 ∧ lostState.dangling = false ∧
    (lostState.connected = false →
      lostState.serverSubscriptionId = 0 ∧ ∀ p ∈ lostState.items, p.2.monitoredItemId = 0) :=
  ⟨by decide +kernel, (reachable_books lost_reachable).1, (reachable_books lost_reachable).2.1⟩

theorem lost_restored : lostState.items.length = 1 ∧
    ∃ t, lostState.tick some obliging = some t ∧ t.connected = true ∧
      t.items = setIds (granted obliging.item) lostState.items ∧
      ∀ r, r ∈ t.registered ↔ ∃ p ∈ lostState.items, (obliging.item p.2.serial).status = 0 ∧
        (p.2.serial, (obliging.item p.2.serial).id) = r :=
  ⟨by decide +kernel, tick_restores lost_reachable obliging_sound (by decide +kernel)
    (by decide +kernel) (by decide +kernel) ⟨_, rfl, by decide +kernel, by decide +kernel⟩
    (by decide +kernel)⟩

end Regained

end OpcServer.Monitor
