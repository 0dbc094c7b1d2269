import Mdds.Lib.Notices
import Mdds.RemoteState

namespace Mdds

instance : Inhabited Clocks := ⟨⟨0, 0, fun _ => (0, 0)⟩⟩

/-- A call that a backend makes to its listener. -/
inductive Call
  | up (peer : PeerId)
  | down (peer : PeerId)
  | bytes (peer : PeerId) (data : Bytes)
  deriving DecidableEq

def peerBackendId (peer : PeerId) : PeerId := peer &&& 0x00ffffffffffffff#64

/-- The high 8 bits hold the transport index, the low 56 the backend's id. -/
def makePeerId (transportIndex : Nat) (backendId : PeerId) : PeerId :=
  (BitVec.ofNat 64 transportIndex <<< 56) ||| peerBackendId backendId

theorem peerBackendId_makePeerId (index : Nat) (peer : PeerId) :
    peerBackendId (makePeerId index peer) = peerBackendId peer := by
  refine BitVec.eq_of_getLsbD_eq (fun i small => ?_)
  have mask : (0x00ffffffffffffff#64).getLsbD i = decide (i < 56) := by
    rw [show (0x00ffffffffffffff#64) = BitVec.ofNat 64 (2 ^ 56 - 1) from rfl, BitVec.getLsbD_ofNat,
      Nat.testBit_two_pow_sub_one, decide_eq_true small, Bool.true_and]
  simp only [peerBackendId, makePeerId, BitVec.getLsbD_and, BitVec.getLsbD_or, BitVec.getLsbD_shiftLeft, mask]
  by_cases low : i < 56
  · simp [low]
  · simp [low]

/-- The id came through the relay of this transport. -/
def Relayed (index : Nat) (peer : PeerId) : Prop := makePeerId index (peerBackendId peer) = peer

instance (index : Nat) (peer : PeerId) : Decidable (Relayed index peer) :=
  inferInstanceAs (Decidable (makePeerId index (peerBackendId peer) = peer))

theorem relayed_makePeerId (index : Nat) (peer : PeerId) : Relayed index (makePeerId index peer) := by
  rw [Relayed, peerBackendId_makePeerId, makePeerId, makePeerId, peerBackendId, peerBackendId, BitVec.and_assoc,
    BitVec.and_self]

theorem peerBackendId_small {peer : PeerId} (small : peer.toNat < 2 ^ 56) : peerBackendId peer = peer := by
  refine BitVec.eq_of_toNat_eq ?_
  rw [peerBackendId, BitVec.toNat_and, show (0x00ffffffffffffff#64).toNat = 2 ^ 56 - 1 from rfl,
    Nat.and_two_pow_sub_one_eq_mod, Nat.mod_eq_of_lt small]

/-- Backend ids that fit into 56 bits stay apart. -/
theorem makePeerId_inj {index : Nat} {peer other : PeerId} (small : peer.toNat < 2 ^ 56) (alsoSmall : other.toNat < 2 ^ 56)
    (same : makePeerId index peer = makePeerId index other) : peer = other := by
  have low := congrArg peerBackendId same
  rwa [peerBackendId_makePeerId, peerBackendId_makePeerId, peerBackendId_small small,
    peerBackendId_small alsoSmall] at low

/-- The threads of the backends that call the listener: two of the UDP
backend, and the callback threads of DSoftBus, which do not wait for each other. -/
inductive Thread
  | receiving
  | announcing
  | callbacks
  deriving DecidableEq

def Thread.waitsFor (thread other : Thread) : Bool := thread = other && thread ≠ .callbacks

/-- A transport backend: what one locked section does to its tables and the
calls its thread makes to the listener after releasing the lock. -/
structure Backend (τ ε : Type) where
  step : τ → ε → τ × List Call
  stepThread : ε → Thread
  callThread : Call → Thread

def Call.peer : Call → PeerId
  | up peer => peer
  | down peer => peer
  | bytes peer _ => peer

/-- What `ListenerRelay` turns a call into. -/
def Call.turn (index : Nat) (clocks : Clocks) : Call → Section
  | up peer => .peerUp (makePeerId index peer)
  | down peer => .peerDown (makePeerId index peer)
  | bytes peer data => .bytes (makePeerId index peer) data clocks

/-- What a call says about a peer, in the ids of the participant. -/
def Call.tells (index : Nat) : Call → PeerId → Option Bool
  | up peer, asked => if asked = makePeerId index peer then some true else none
  | down peer, asked => if asked = makePeerId index peer then some false else none
  | bytes _ _, _ => none

/-- A participant and one of its transports, with the calls that the
transport's threads have decided on and not made yet, oldest first. -/
structure Stack (τ : Type) where
  transport : τ
  calls : List Call := []
  participant : Running

/-- `own` is a section of the participant that this transport has no part in. -/
inductive Stack.Event (ε : Type)
  | transport (event : ε)
  | call (index : Nat) (clocks : Clocks)
  | own (turn : Section)

namespace Stack
variable {τ ε : Type} (B : Backend τ ε) (index : Nat) (s : Stack τ)

/-- Every thread makes its calls one after the other. -/
def mayCall (i : Nat) (call : Call) : Bool :=
  (s.calls.take i).all (fun earlier => !(B.callThread call).waitsFor (B.callThread earlier))

/-- A thread goes on when the listener has returned. -/
def mayStep (event : ε) : Bool :=
  s.calls.all (fun call => !(B.stepThread event).waitsFor (B.callThread call))

/-- The section of the participant that an event runs. -/
def turn : Event ε → Option Section
  | .transport _ => none
  | .call i clocks => (s.calls[i]?.filter (s.mayCall B i)).map (Call.turn index clocks)
  | .own turn => if turn.caller.any (Relayed index) then none else some turn

def step (event : Event ε) : Stack τ where
  transport := match event with
    | .transport e => if s.mayStep B e then (B.step s.transport e).1 else s.transport
    | _ => s.transport
  calls := match event with
    | .transport e => if s.mayStep B e then s.calls ++ (B.step s.transport e).2 else s.calls
    | .call i _ => if (s.calls[i]?.filter (s.mayCall B i)).isSome then s.calls.eraseIdx i else s.calls
    | _ => s.calls
  participant := match s.turn B index event with
    | none => s.participant
    | some turn => (s.participant.step turn).1

/-- A call about a peer is made in order: it is the last one in flight for
that peer, or the newest one in flight says the same without it. -/
def InOrder : Event ε → Prop
  | .call i _ => ∀ call ∈ s.calls[i]?, s.mayCall B i call →
      let newest := fun calls => Notices.newest (Call.tells index) calls (makePeerId index call.peer)
      newest (s.calls.eraseIdx i) = none ∨ newest (s.calls.eraseIdx i) = newest s.calls
  | _ => True

instance (event : Event ε) : Decidable (s.InOrder B index event) :=
  match event with
  | .call i _ => inferInstanceAs (Decidable (∀ call ∈ s.calls[i]?, s.mayCall B i call →
      Notices.newest (Call.tells index) (s.calls.eraseIdx i) (makePeerId index call.peer) = none ∨
        Notices.newest (Call.tells index) (s.calls.eraseIdx i) (makePeerId index call.peer) =
          Notices.newest (Call.tells index) s.calls (makePeerId index call.peer)))
  | .transport _ | .own _ => isTrue trivial

/-- The participant of a stack runs the sections that the events amount to. -/
theorem participant_run (B : Backend τ ε) (index : Nat) (s : Stack τ) (events : List (Event ε)) :
    (Run.exec (step B index) s events).participant =
      Run.exec (fun p turn => (p.step turn).1) s.participant
        (Run.log (step B index) (fun s event => (s.turn B index event).toList) s events) := by
  have simulates (s : Stack τ) (event : Event ε) : (step B index s event).participant =
      Run.exec (fun p turn => (p.step turn).1) s.participant (s.turn B index event).toList := by
    simp only [step]
    cases s.turn B index event <;> rfl
  exact Run.exec_component simulates s events

end Stack

/-- What a backend owes its listener: a peer enters and leaves the set of the
connected ones, here in the ids of the participant, only with a call that
says so. `inv` is kept by the admitted steps. -/
structure Backend.Announces {τ ε : Type} (B : Backend τ ε) (index : Nat) (inv : τ → Prop) (admitted : τ → ε → Prop)
    (connected : τ → PeerId → Prop) : Prop where
  kept : ∀ t event, inv t → admitted t event → inv (B.step t event).1
  told : ∀ t event, inv t → admitted t event → ∀ peer, connected (B.step t event).1 peer ↔
    (Notices.newest (Call.tells index) (B.step t event).2 peer).elim (connected t peer) (· = true)

theorem Call.tells_eq_none {index : Nat} {call : Call} {peer : PeerId} (other : peer ≠ makePeerId index call.peer) :
    call.tells index peer = none := by
  cases call with
  | up p => exact if_neg other
  | down p => exact if_neg other
  | bytes p data => rfl

/-- What the participant makes of a call is what the call says. -/
theorem Call.heard (index : Nat) (clocks : Clocks) (call : Call) (p : Running) (peer : PeerId) :
    peer ∈ (p.step (call.turn index clocks)).1.peers ↔ (call.tells index peer).elim (peer ∈ p.peers) (· = true) := by
  cases call with
  | up up =>
    rw [turn, Running.mem_peers_peerUp, tells]
    by_cases here : peer = makePeerId index up
    · simp [here]
    · simp [here]
  | down down =>
    rw [turn, Running.mem_peers_peerDown, tells]
    by_cases here : peer = makePeerId index down
    · simp [here]
    · simp [here]
  | bytes origin data =>
    rw [turn, (p.step_bytes _ data clocks).1]
    exact Iff.rfl

namespace Stack
variable {τ ε : Type} {B : Backend τ ε} {index : Nat} {inv : τ → Prop} {admitted : τ → ε → Prop}
  {connected : τ → PeerId → Prop}

/-- The peers of this transport that the participant holds. -/
def Holds (index : Nat) (s : Stack τ) (peer : PeerId) : Prop := Relayed index peer ∧ peer ∈ s.participant.peers

/-- Calls come in order and the steps of the backend are admitted. -/
def Admitted (B : Backend τ ε) (index : Nat) (admitted : τ → ε → Prop) (s : Stack τ) : Event ε → Prop
  | .transport e => s.mayStep B e = true → admitted s.transport e
  | event => s.InOrder B index event

instance [∀ t e, Decidable (admitted t e)] (s : Stack τ) (event : Event ε) :
    Decidable (s.Admitted B index admitted event) :=
  match event with
  | .transport e => inferInstanceAs (Decidable (s.mayStep B e = true → admitted s.transport e))
  | .call i clocks => inferInstanceAs (Decidable (s.InOrder B index (.call i clocks)))
  | .own turn => inferInstanceAs (Decidable (s.InOrder B index (.own turn)))

/-- The participant will hold the connected peers once the calls in flight
are made. -/
structure OnTrack (index : Nat) (inv : τ → Prop) (connected : τ → PeerId → Prop) (s : Stack τ) : Prop where
  inv : inv s.transport
  follows : Notices.Follows (Call.tells index) s.calls (connected s.transport) (Holds index s)

theorem InOrder.orderly {s : Stack τ} {i : Nat} {call : Call} {clocks : Clocks} {before after : List Call}
    (ordered : s.InOrder B index (.call i clocks)) (found : s.calls[i]? = some call) (free : s.mayCall B i call = true)
    (split : s.calls = before ++ call :: after) (erased : s.calls.eraseIdx i = before ++ after) :
    Notices.Orderly (Call.tells index) before call after := by
  intro peer told
  obtain rfl : peer = makePeerId index call.peer := Classical.not_not.mp (fun other => told (Call.tells_eq_none other))
  have last := ordered call found free
  rwa [erased, split] at last

/-- Sections of the other transports leave the peers of this one alone. -/
theorem mem_peers_elsewhere {p : Running} {turn : Section} {peer : PeerId} (relayed : Relayed index peer)
    (others : ¬ turn.caller.any (Relayed index) = true) : peer ∈ (p.step turn).1.peers ↔ peer ∈ p.peers := by
  cases caller : turn.caller with
  | none => rw [(p.step_sameGraph caller).1.peers]
  | some other =>
    have differ : peer ≠ other := by
      rintro rfl
      exact others (by simp [caller, relayed])
    cases turn with
    | peerUp up =>
      cases caller
      exact Running.mem_peers_peerUp.trans (or_iff_right differ)
    | peerDown down =>
      cases caller
      exact Running.mem_peers_peerDown.trans (and_iff_right differ)
    | bytes origin data clocks => rw [(p.step_bytes origin data clocks).1]
    | _ => cases caller

/-- One step keeps the participant on track. -/
theorem OnTrack.step (law : B.Announces index inv admitted connected) {s : Stack τ} {event : Event ε}
    (track : s.OnTrack index inv connected) (allowed : s.Admitted B index admitted event) :
    (s.step B index event).OnTrack index inv connected := by
  cases event with
  | transport e =>
    by_cases free : s.mayStep B e = true
    · have ok := allowed free
      constructor
      · simp only [Stack.step, free, if_true]
        exact law.kept _ _ track.inv ok
      · simp only [Stack.step, free, if_true]
        exact track.follows.change (law.told _ _ track.inv ok)
    · have same : s.step B index (.transport e) = s := by simp only [Stack.step, free, turn, Bool.false_eq_true, if_false]
      rwa [same]
  | call i clocks =>
    cases taken : s.calls[i]?.filter (s.mayCall B i) with
    | none =>
      have same : s.step B index (.call i clocks) = s := by
        simp only [Stack.step, turn, taken, Option.isSome_none, Bool.false_eq_true, if_false, Option.map_none]
      rwa [same]
    | some call =>
      obtain ⟨found, free⟩ := Option.filter_eq_some_iff.mp taken
      obtain ⟨earlier, later, split, erased⟩ := Notices.eraseIdx_split found
      have orderly := @InOrder.orderly _ _ B index s i call clocks _ _ allowed found free split erased
      constructor
      · exact track.inv
      · have before := track.follows
        rw [split] at before
        simp only [Stack.step, turn, taken, Option.isSome_some, if_true, Option.map_some, erased]
        refine before.deliver orderly (fun peer => ?_)
        rw [Holds, call.heard]
        cases told : call.tells index peer with
        | none => exact Iff.rfl
        | some up =>
          have mine : Relayed index peer := by
            obtain rfl : peer = makePeerId index call.peer := Classical.not_not.mp (fun other =>
              Option.some_ne_none up (told.symm.trans (Call.tells_eq_none other)))
            exact relayed_makePeerId index call.peer
          exact and_iff_right mine
  | own turn =>
    by_cases mine : turn.caller.any (Relayed index) = true
    · have same : s.step B index (.own turn) = s := by simp only [Stack.step, Stack.turn, mine, if_true]
      rwa [same]
    · refine ⟨track.inv, fun peer => ?_⟩
      have elsewhere : Holds index (s.step B index (.own turn)) peer ↔ Holds index s peer := by
        simp only [Holds, Stack.step, Stack.turn, mine, Bool.false_eq_true, if_false]
        exact and_congr_right (fun relayed => mem_peers_elsewhere relayed mine)
      have before := track.follows peer
      rw [← elsewhere] at before
      exact before

/-- After a run that starts on track, a peer about which no call is in flight
is held by the participant exactly if it is connected. -/
theorem OnTrack.agree (law : B.Announces index inv admitted connected) {s : Stack τ} {events : List (Event ε)}
    (track : s.OnTrack index inv connected) (allowed : Run.Along (Stack.step B index) (Admitted B index admitted) s events)
    {peer : PeerId} (relayed : Relayed index peer)
    (quiet : ∀ call ∈ (Run.exec (Stack.step B index) s events).calls, call.tells index peer = none) :
    peer ∈ (Run.exec (Stack.step B index) s events).participant.peers ↔
      connected (Run.exec (Stack.step B index) s events).transport peer := by
  have after := allowed.invariant (fun s event track ok => OnTrack.step law track ok) track
  exact (and_iff_right relayed).symm.trans (after.follows.agree quiet)

end Stack

end Mdds
