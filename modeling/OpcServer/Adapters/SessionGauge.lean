import Mathlib.Data.Finset.Card
import Mathlib.Data.Finset.Image
import Mathlib.Data.List.Induction

/-! The session gauge. The hooks around the access control of the server reduce the node id
of a session to a 32-bit key and count the keys. -/

namespace OpcServer.Adapters

/-- The identifiers of a `UA_NodeId`. -/
inductive Identifier where
  | numeric (value : UInt32)
  | string (text : List UInt8)
  | guid (value : BitVec 128)
  | byteString (bytes : List UInt8)
  deriving DecidableEq

/-- `identifierType`, by the values of `UA_NodeIdType`. -/
def Identifier.type : Identifier → UInt32
  | .numeric _ => 0
  | .string _ => 3
  | .guid _ => 4
  | .byteString _ => 5

structure NodeId where
  namespaceIndex : UInt16
  identifier : Identifier
  deriving DecidableEq

def sessionKey : Option NodeId → UInt32
  | none => 0
  | some ⟨_, .numeric value⟩ => value
  | some ⟨_, identifier⟩ => identifier.type <<< 24

/-- The keys of the active sessions, and the gauge `ua_sessions` when there are metrics. -/
structure Sessions where
  activeSessions : Finset UInt32 := ∅
  uaSessions : Option ℕ := none

namespace Sessions

def noteSessionActivate (s : Sessions) (key : UInt32) : Sessions :=
  let active := insert key s.activeSessions
  { activeSessions := active, uaSessions := s.uaSessions.map fun _ => active.card }

def noteSessionClose (s : Sessions) (key : UInt32) : Sessions :=
  let active := s.activeSessions.erase key
  { activeSessions := active, uaSessions := s.uaSessions.map fun _ => active.card }

/-- The server's hook after `orig_activate`, whose status is zero for a session it lets in. -/
def activateSessionHook (s : Sessions) (status : UInt32) (sessionId : Option NodeId) : Sessions :=
  if status = 0 then s.noteSessionActivate (sessionKey sessionId) else s

def closeSessionHook (s : Sessions) (sessionId : Option NodeId) : Sessions :=
  s.noteSessionClose (sessionKey sessionId)

/-- The gauge is set to zero when the server starts. -/
def started (metrics : Bool) : Sessions :=
  { uaSessions := if metrics then some 0 else none }

end Sessions

open Sessions

/-- A successful activation, or a close. -/
inductive SessionCall where
  | activate (session : NodeId)
  | close (session : NodeId)

def SessionCall.session : SessionCall → NodeId
  | activate session => session
  | close session => session

def Sessions.step (s : Sessions) : SessionCall → Sessions
  | .activate session => s.activateSessionHook 0 (some session)
  | .close session => s.closeSessionHook (some session)

def Sessions.run (metrics : Bool) (calls : List SessionCall) : Sessions :=
  calls.foldl step (started metrics)

/-- The sessions activated and not yet closed. -/
def stepLive (live : Finset NodeId) : SessionCall → Finset NodeId
  | .activate session => insert session live
  | .close session => live.erase session

def liveSessions (calls : List SessionCall) : Finset NodeId :=
  calls.foldl stepLive ∅

/-- No other live session has the key of the call's session. -/
def Separate (live : Finset NodeId) (call : SessionCall) : Prop :=
  ∀ t ∈ live, t ≠ call.session → sessionKey (some t) ≠ sessionKey (some call.session)

/-- The set of keys stands for the live sessions. -/
structure Tracks (metrics : Bool) (s : Sessions) (live : Finset NodeId) : Prop where
  active : s.activeSessions = live.image (sessionKey ∘ some)
  injOn : Set.InjOn (sessionKey ∘ some) (live : Set NodeId)
  gauge : s.uaSessions = if metrics then some s.activeSessions.card else none

variable {metrics : Bool} {s : Sessions} {live : Finset NodeId} {call : SessionCall}

theorem tracks_started (metrics : Bool) : Tracks metrics (started metrics) ∅ where
  active := rfl
  injOn := by simp
  gauge := rfl

theorem Tracks.card_eq (h : Tracks metrics s live) : s.activeSessions.card = live.card := by
  rw [h.active]
  exact Finset.card_image_of_injOn h.injOn

theorem map_gauge (metrics : Bool) (n m : ℕ) :
    ((if metrics then some n else none).map fun _ => m) = if metrics then some m else none := by
  cases metrics <;> rfl

/-- The gauge follows the set whatever the keys are. -/
theorem gauge_step (h : s.uaSessions = if metrics then some s.activeSessions.card else none)
    (call : SessionCall) :
    (s.step call).uaSessions = if metrics then some (s.step call).activeSessions.card else none := by
  cases call with
  | activate session => exact (congrArg _ h).trans (map_gauge ..)
  | close session => exact (congrArg _ h).trans (map_gauge ..)

theorem Tracks.step (h : Tracks metrics s live) (hsep : Separate live call) :
    Tracks metrics (s.step call) (stepLive live call) := by
  have hgauge := gauge_step h.gauge call
  cases call with
  | activate session =>
    refine ⟨?_, ?_, hgauge⟩
    · show insert _ s.activeSessions = _
      rw [h.active, stepLive, Finset.image_insert]
      rfl
    · intro a ha b hb hab
      rw [stepLive, Finset.mem_coe, Finset.mem_insert] at ha hb
      rcases ha with rfl | ha
      · rcases hb with rfl | hb
        · rfl
        · by_contra hne
          exact hsep b hb (Ne.symm hne) hab.symm
      · rcases hb with rfl | hb
        · by_contra hne
          exact hsep a ha hne hab
        · exact h.injOn ha hb hab
  | close session =>
    refine ⟨?_, ?_, hgauge⟩
    · show s.activeSessions.erase _ = _
      rw [h.active, stepLive]
      ext key
      simp only [Finset.mem_erase, Finset.mem_image]
      constructor
      · rintro ⟨hkey, t, ht, rfl⟩
        exact ⟨t, ⟨fun heq => hkey (congrArg _ heq), ht⟩, rfl⟩
      · rintro ⟨t, ⟨hne, ht⟩, rfl⟩
        exact ⟨hsep t ht hne, t, ht, rfl⟩
    · exact h.injOn.mono (Finset.coe_subset.mpr (Finset.erase_subset _ _))

/-- A call with the key of another live session makes the size wrong: an activation finds
the key in the set, a close takes the other session's key out of it. -/
theorem Tracks.separate_of_card (h : Tracks metrics s live)
    (hcard : (s.step call).activeSessions.card = (stepLive live call).card) :
    Separate live call := by
  intro t ht hne hkey
  have hnot : call.session ∉ live := fun hmem => hne (h.injOn ht hmem hkey)
  have hmem : sessionKey (some call.session) ∈ s.activeSessions := by
    rw [h.active, ← hkey]
    exact Finset.mem_image_of_mem _ ht
  have hbefore := h.card_eq
  cases call with
  | activate session =>
    have hsame : (s.step (.activate session)).activeSessions = s.activeSessions :=
      Finset.insert_eq_of_mem hmem
    have hmore : (stepLive live (.activate session)).card = live.card + 1 :=
      Finset.card_insert_of_notMem hnot
    rw [hsame, hmore] at hcard
    omega
  | close session =>
    have hless : (s.step (.close session)).activeSessions.card = s.activeSessions.card - 1 :=
      Finset.card_erase_of_mem hmem
    have hpos : 0 < s.activeSessions.card := Finset.card_pos.mpr ⟨_, hmem⟩
    have hsame : stepLive live (.close session) = live := Finset.erase_eq_of_notMem hnot
    rw [hless, hsame] at hcard
    omega

theorem run_snoc (metrics : Bool) (done : List SessionCall) (call : SessionCall) :
    run metrics (done ++ [call]) = (run metrics done).step call :=
  List.foldl_append

theorem liveSessions_snoc (done : List SessionCall) (call : SessionCall) :
    liveSessions (done ++ [call]) = stepLive (liveSessions done) call :=
  List.foldl_append

/-- The keys stand for the live sessions as long as every call so far was separate. -/
theorem tracks_run {calls : List SessionCall}
    (hsep : ∀ done call rest, calls = done ++ call :: rest →
      Tracks metrics (run metrics done) (liveSessions done) → Separate (liveSessions done) call)
    (done rest : List SessionCall) (hsplit : calls = done ++ rest) :
    Tracks metrics (run metrics done) (liveSessions done) := by
  induction done using List.reverseRecOn generalizing rest with
  | nil => exact tracks_started metrics
  | append_singleton done call ih =>
    rw [List.append_assoc, List.singleton_append] at hsplit
    have hdone := ih _ hsplit
    rw [run_snoc, liveSessions_snoc]
    exact hdone.step (hsep done call rest hsplit hdone)

/-- After every call the set and the gauge count the live sessions, if and only if no call
is on a session whose key another live session has. -/
theorem session_gauge_exact_iff (metrics : Bool) (calls : List SessionCall) :
    (∀ done call rest, calls = done ++ call :: rest →
      let s := run metrics (done ++ [call])
      let n := (liveSessions (done ++ [call])).card
      s.activeSessions.card = n ∧ s.uaSessions = if metrics then some n else none) ↔
    ∀ done call rest, calls = done ++ call :: rest → Separate (liveSessions done) call := by
  constructor
  · intro hexact
    have hcard : ∀ done call rest, calls = done ++ call :: rest →
        Tracks metrics (run metrics done) (liveSessions done) →
        Separate (liveSessions done) call := by
      intro done call rest hsplit htracks
      have h := (hexact done call rest hsplit).1
      rw [run_snoc, liveSessions_snoc] at h
      exact htracks.separate_of_card h
    intro done call rest hsplit
    exact hcard done call rest hsplit (tracks_run hcard done _ hsplit)
  · intro hsep done call rest hsplit
    have hnext : calls = (done ++ [call]) ++ rest := by simpa using hsplit
    have h : Tracks metrics (run metrics (done ++ [call])) (liveSessions (done ++ [call])) :=
      tracks_run (fun done call rest hsplit _ => hsep done call rest hsplit) _ rest hnext
    refine ⟨h.card_eq, ?_⟩
    rw [h.gauge, h.card_eq]

/-- Two clients with GUID session ids count as one session. -/
theorem guid_sessions_share_key :
    let calls := [SessionCall.activate ⟨0, .guid 1⟩, SessionCall.activate ⟨0, .guid 2⟩]
    (run true calls).activeSessions.card = 1 ∧ (run true calls).uaSessions = some 1 ∧
      (liveSessions calls).card = 2 := by
  decide

end OpcServer.Adapters
