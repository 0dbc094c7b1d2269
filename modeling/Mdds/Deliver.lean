import Mdds.Dsoftbus
import Mdds.Lib.Run

/- The sinks of the lanes. `deliver` checks its channel under the lock and calls
`SendBytes` without it, so that the callbacks may run in between. -/

namespace Mdds

/-- What the sink of a lane captured, and the frame with which its worker is
past the check. The worker makes one call at a time; a lane that was stopped
has no more turns. -/
structure BusLane where
  peerId : PeerId
  fd : Fd
  sending : Option Bytes := none
  deriving DecidableEq

/-- A transport with the lanes made so far, oldest first. -/
structure BusLanes where
  transport : DsoftbusTransport
  lanes : List BusLane := []

inductive BusLanes.Event
  | bus (event : BusEvent)
  | deliver (i : Nat) (data : Bytes)
  | sendBytes (i : Nat)

namespace DsoftbusTransport
variable (t : DsoftbusTransport)

/-- The lane that `on_bind` makes for a peer without a channel. -/
def newLane : BusEvent → Option (PeerId × Fd)
  | .onBind fd networkId _ =>
    if networkId.bytes = [] then none
    else
      ((t.enter networkId).peers.lookup networkId).bind
        (fun st => if st.socketFd = none then some (st.peerId, fd) else none)
  | _ => none

/-- The section takes this channel from the peers that have it. -/
def Drops : BusEvent → Fd → Prop
  | .onShutdown gone, fd => t.listenFd ≠ some gone ∧ fd = gone
  | _, _ => False

instance (event : BusEvent) (fd : Fd) : Decidable (t.Drops event fd) :=
  match event with
  | .onShutdown gone => inferInstanceAs (Decidable (t.listenFd ≠ some gone ∧ fd = gone))
  | .connectOnlinePeers _ | .bindPeer .. | .bindFailed .. | .onBind .. | .onError _ | .onBytesReceived .. => isFalse id

/-- This is the current channel of the peer. -/
def Holds (peer : PeerId) (fd : Fd) : Prop := ∃ entry ∈ t.peers, entry.2.peerId = peer ∧ entry.2.socketFd = some fd

/-- No other peer has the channel. -/
def Alone (peer : PeerId) (fd : Fd) : Prop := ∀ entry ∈ t.peers, entry.2.socketFd = some fd → entry.2.peerId = peer

instance (peer : PeerId) (fd : Fd) : Decidable (t.Holds peer fd) :=
  inferInstanceAs (Decidable (∃ entry ∈ t.peers, entry.2.peerId = peer ∧ entry.2.socketFd = some fd))

instance (peer : PeerId) (fd : Fd) : Decidable (t.Alone peer fd) :=
  inferInstanceAs (Decidable (∀ entry ∈ t.peers, entry.2.socketFd = some fd → entry.2.peerId = peer))

end DsoftbusTransport

/-- The locked part of `deliver`. -/
def BusLane.check (lane : BusLane) (t : DsoftbusTransport) (data : Bytes) : BusLane :=
  if lane.sending = none ∧ t.running = true ∧ t.Holds lane.peerId lane.fd then { lane with sending := some data }
  else lane

namespace BusLanes

def step (s : BusLanes) : Event → BusLanes
  | .bus event =>
    { transport := (s.transport.step event).transport
      lanes := s.lanes ++ (s.transport.newLane event).toList.map (fun sink => { peerId := sink.1, fd := sink.2 }) }
  | .deliver i data => { s with lanes := s.lanes.modify i (fun lane => lane.check s.transport data) }
  | .sendBytes i => { s with lanes := s.lanes.modify i (fun lane => { lane with sending := none }) }

/-- A transport that listens and has no peers yet. -/
def start (listenFd : Option Fd) : BusLanes := { transport := { listenFd := listenFd } }

/-- `SendBytes` gets the current channel of the lane's own peer, and it is
the channel of nobody else. -/
def WritesOwn (s : BusLanes) : Event → Prop
  | .sendBytes i => ∀ lane ∈ s.lanes[i]?, lane.sending.isSome →
      s.transport.Holds lane.peerId lane.fd ∧ s.transport.Alone lane.peerId lane.fd
  | _ => True

instance (s : BusLanes) (event : Event) : Decidable (s.WritesOwn event) :=
  match event with
  | .sendBytes i => inferInstanceAs (Decidable (∀ lane ∈ s.lanes[i]?, lane.sending.isSome →
      s.transport.Holds lane.peerId lane.fd ∧ s.transport.Alone lane.peerId lane.fd))
  | .bus _ | .deliver .. => isTrue trivial

/-- Nobody loses or takes the channel of a lane between the check and the
`SendBytes`, and a check that passes finds the channel at one peer only. -/
def Undisturbed (s : BusLanes) : Event → Prop
  | .bus event => ∀ lane ∈ s.lanes, lane.sending.isSome → ¬ s.transport.Drops event lane.fd ∧
      ∀ sink ∈ s.transport.newLane event, sink.2 = lane.fd → sink.1 = lane.peerId
  | .deliver i _ => ∀ lane ∈ s.lanes[i]?, lane.sending = none → s.transport.running = true →
      s.transport.Holds lane.peerId lane.fd → s.transport.Alone lane.peerId lane.fd
  | .sendBytes _ => True

end BusLanes

namespace DsoftbusTransport
variable {t : DsoftbusTransport} {peer : PeerId} {fd : Fd}

/-- The rest of the state of a peer stays when only its bind in progress changes. -/
def Pending (f : PeerState → PeerState) : Prop := ∀ st, ∃ pendingFd, f st = { st with pendingFd := pendingFd }

/-- What gives and takes no channel: entries of new devices, and binds in progress. -/
inductive Quiet (t : DsoftbusTransport) : DsoftbusTransport → Prop
  | refl : Quiet t t
  | enter {next : DsoftbusTransport} (quiet : Quiet t next) (networkId : NetworkId) : Quiet t (next.enter networkId)
  | pending {next : DsoftbusTransport} (quiet : Quiet t next) (networkId : NetworkId) {f : PeerState → PeerState}
      (only : Pending f) : Quiet t (next.update networkId f)

/-- What a section does to the tables. -/
inductive Moves (t : DsoftbusTransport) : BusEvent → DsoftbusTransport → Prop
  | quiet {event : BusEvent} {next : DsoftbusTransport} (same : t.Quiet next) (noLane : t.newLane event = none)
      (other : ∀ fd, event ≠ .onShutdown fd) : Moves t event next
  | connects {fd : Fd} {networkId : NetworkId} {limit : Nat} {st : PeerState}
      (lane : t.newLane (.onBind fd networkId limit) = some (st.peerId, fd))
      (found : (t.enter networkId).peers.lookup networkId = some st) (free : st.socketFd = none) :
      Moves t (.onBind fd networkId limit)
        ((t.enter networkId).update networkId (fun st => (st.bound fd).connect fd limit))
  | unlistens {fd : Fd} (listening : t.listenFd = some fd) : Moves t (.onShutdown fd) { t with running := false }
  | shuts {fd : Fd} (other : t.listenFd ≠ some fd) :
      Moves t (.onShutdown fd) { t with peers := t.peers.map (fun entry => (entry.1, entry.2.shutdown fd)) }

theorem pending_bound (fd : Fd) : Pending (fun st => st.bound fd) := by
  intro st
  dsimp only [PeerState.bound]
  split
  · exact ⟨none, rfl⟩
  · exact ⟨st.pendingFd, rfl⟩

theorem pending_set (fd : Option Fd) : Pending (fun st => { st with pendingFd := fd }) := fun _ => ⟨fd, rfl⟩

theorem quiet_connectOnlinePeers (t : DsoftbusTransport) (nodes : List NetworkId) :
    t.Quiet (t.connectOnlinePeers nodes).1 := by
  suffices loop : ∀ (next : DsoftbusTransport) (found : List NetworkId), t.Quiet next →
      t.Quiet (nodes.foldl poll (next, found)).1 from loop t [] .refl
  induction nodes with
  | nil => exact fun _ _ quiet => quiet
  | cons networkId rest ih => exact fun next found quiet => ih _ _ (quiet.enter networkId)

/-- A device is found after `enter`. -/
theorem exists_lookup_enter (t : DsoftbusTransport) (networkId : NetworkId) :
    ∃ st, (t.enter networkId).peers.lookup networkId = some st := by
  unfold enter
  cases found : t.peers.lookup networkId with
  | some st => exact ⟨st, found⟩
  | none => exact ⟨_, KeyedList.lookup_emplace_self found⟩

theorem onBind_moves (t : DsoftbusTransport) (fd : Fd) (networkId : NetworkId) (limit : Nat) :
    t.Moves (.onBind fd networkId limit) (t.onBind fd networkId limit).transport := by
  have other (gone : Fd) : BusEvent.onBind fd networkId limit ≠ .onShutdown gone := fun same => BusEvent.noConfusion same
  unfold onBind
  by_cases unnamed : networkId.bytes = []
  · rw [if_pos unnamed]
    exact .quiet .refl (if_pos unnamed) other
  · obtain ⟨st, found⟩ := exists_lookup_enter t networkId
    have lane : t.newLane (.onBind fd networkId limit) = if st.socketFd = none then some (st.peerId, fd) else none := by
      simp only [newLane, if_neg unnamed, found, Option.bind_some]
    simp only [if_neg unnamed, found]
    cases channel : st.socketFd with
    | none => exact .connects (lane.trans (if_pos channel)) found channel
    | some taken =>
      refine .quiet ((Quiet.refl.enter networkId).pending networkId (pending_bound fd)) (lane.trans (if_neg ?_)) other
      rw [channel]
      exact Option.some_ne_none taken

/-- The cases of a section, as far as channels are concerned. -/
theorem step_moves (t : DsoftbusTransport) (event : BusEvent) : t.Moves event (t.step event).transport := by
  cases event with
  | connectOnlinePeers nodes =>
    exact .quiet (quiet_connectOnlinePeers t nodes) rfl (fun _ same => BusEvent.noConfusion same)
  | bindPeer networkId fd =>
    refine .quiet ?_ rfl (fun _ same => BusEvent.noConfusion same)
    rw [step, bindPeer]
    split
    · exact .refl
    · exact Quiet.refl.pending networkId (pending_set (some fd))
  | bindFailed networkId fd =>
    exact .quiet (Quiet.refl.pending networkId (pending_bound fd)) rfl (fun _ same => BusEvent.noConfusion same)
  | onBind fd networkId limit => exact onBind_moves t fd networkId limit
  | onShutdown fd =>
    rw [step, onShutdown]
    split
    · rename_i listening
      exact .unlistens listening
    · rename_i other
      exact .shuts other
  | onError fd =>
    refine .quiet ?_ rfl (fun _ same => BusEvent.noConfusion same)
    rw [step, onError]
    split
    · exact .refl
    · exact Quiet.refl.pending _ (pending_set none)
  | onBytesReceived fd data =>
    refine .quiet ?_ rfl (fun _ same => BusEvent.noConfusion same)
    rw [step, onBytesReceived]
    split <;> exact .refl

theorem holds_enter {networkId : NetworkId} : (t.enter networkId).Holds peer fd ↔ t.Holds peer fd := by
  unfold enter
  cases found : t.peers.lookup networkId with
  | some st => exact Iff.rfl
  | none =>
    have inside {entry : NetworkId × PeerState} := @KeyedList.mem_emplace _ _ _ _ _ networkId
      ({ peerId := t.nextPeerId } : PeerState) t.peers entry (KeyedList.not_mem_keys found)
    constructor
    · rintro ⟨entry, member, owner, holds⟩
      rcases inside.mp member with rfl | before
      · cases holds
      · exact ⟨entry, before, owner, holds⟩
    · rintro ⟨entry, before, same⟩
      exact ⟨entry, inside.mpr (Or.inr before), same⟩

/-- An entry whose bind in progress changes is the same holder. -/
theorem Pending.same {f : PeerState → PeerState} (only : Pending f) (here : Prop) [Decidable here] (st : PeerState) :
    (if here then f st else st).peerId = st.peerId ∧ (if here then f st else st).socketFd = st.socketFd ∧
      (if here then f st else st).lane = st.lane := by
  obtain ⟨pendingFd, same⟩ := only st
  split
  · rw [same]
    exact ⟨rfl, rfl, rfl⟩
  · exact ⟨rfl, rfl, rfl⟩

theorem Quiet.holds {next : DsoftbusTransport} (quiet : t.Quiet next) : next.Holds peer fd ↔ t.Holds peer fd := by
  induction quiet with
  | refl => exact Iff.rfl
  | enter _ networkId ih => exact holds_enter.trans ih
  | pending _ networkId only ih =>
    rw [update_eq_map, ← ih]
    constructor
    · rintro ⟨_, member, owner, holds⟩
      obtain ⟨entry, inside, rfl⟩ := List.mem_map.mp member
      obtain ⟨sameId, sameFd, _⟩ := only.same (entry.1 = networkId) entry.2
      exact ⟨entry, inside, sameId.symm.trans owner, sameFd.symm.trans holds⟩
    · rintro ⟨entry, inside, owner, holds⟩
      obtain ⟨sameId, sameFd, _⟩ := only.same (entry.1 = networkId) entry.2
      exact ⟨_, List.mem_map_of_mem inside, sameId.trans owner, sameFd.trans holds⟩

theorem nodup_enter {networkId : NetworkId} (distinct : (t.peers.map Prod.fst).Nodup) :
    ((t.enter networkId).peers.map Prod.fst).Nodup := by
  unfold enter
  split
  · exact distinct
  · rename_i absent
    exact KeyedList.nodup_emplace distinct (KeyedList.not_mem_keys absent)

theorem nodup_update {networkId : NetworkId} {f : PeerState → PeerState} (distinct : (t.peers.map Prod.fst).Nodup) :
    ((t.update networkId f).peers.map Prod.fst).Nodup := by
  rw [update, KeyedList.keys_modify]
  exact distinct

theorem Quiet.nodup {next : DsoftbusTransport} (quiet : t.Quiet next) (distinct : (t.peers.map Prod.fst).Nodup) :
    (next.peers.map Prod.fst).Nodup := by
  induction quiet with
  | refl => exact distinct
  | enter _ networkId ih => exact nodup_enter ih
  | pending _ networkId only ih => exact nodup_update ih

theorem Moves.nodup {event : BusEvent} {next : DsoftbusTransport} (moves : t.Moves event next)
    (distinct : (t.peers.map Prod.fst).Nodup) : (next.peers.map Prod.fst).Nodup := by
  cases moves with
  | quiet same _ _ => exact same.nodup distinct
  | connects => exact nodup_update (nodup_enter distinct)
  | unlistens => exact distinct
  | shuts =>
    rw [List.map_map]
    exact distinct

/-- The first channel of a peer is one more channel in the table. -/
theorem holds_connect (distinct : (t.peers.map Prod.fst).Nodup) {networkId : NetworkId} {st : PeerState}
    (found : t.peers.lookup networkId = some st) (free : st.socketFd = none) {taken : Fd} (limit : Nat) :
    (t.update networkId (fun st => (st.bound taken).connect taken limit)).Holds peer fd ↔
      t.Holds peer fd ∨ (st.peerId, taken) = (peer, fd) := by
  have inside := KeyedList.mem_of_lookup found
  have only {entry : NetworkId × PeerState} (member : entry ∈ t.peers) (here : entry.1 = networkId) :
      entry = (networkId, st) :=
    List.inj_on_of_nodup_map distinct member inside here
  rw [update_eq_map]
  constructor
  · rintro ⟨_, member, owner, holds⟩
    obtain ⟨entry, before, rfl⟩ := List.mem_map.mp member
    dsimp only at owner holds
    split at owner
    · rename_i here
      obtain rfl := only before here
      rw [if_pos rfl] at holds
      have same : taken = fd := Option.some.inj holds
      have id : st.peerId = peer := (st.bound_peerId taken).symm.trans owner
      exact Or.inr (by rw [same, id])
    · rename_i other
      rw [if_neg other] at holds
      exact Or.inl ⟨entry, before, owner, holds⟩
  · rintro (⟨entry, before, owner, holds⟩ | same)
    · have other : entry.1 ≠ networkId := by
        intro here
        obtain rfl := only before here
        rw [free] at holds
        cases holds
      refine ⟨_, List.mem_map_of_mem before, ?_⟩
      rw [if_neg other]
      exact ⟨owner, holds⟩
    · obtain ⟨owner, fds⟩ := Prod.mk.inj same
      refine ⟨_, List.mem_map_of_mem inside, ?_⟩
      rw [if_pos rfl]
      exact ⟨(st.bound_peerId taken).trans owner, congrArg some fds⟩

theorem holds_shuts (gone : Fd) :
    Holds { t with peers := t.peers.map (fun entry => (entry.1, entry.2.shutdown gone)) } peer fd ↔
      t.Holds peer fd ∧ fd ≠ gone := by
  constructor
  · rintro ⟨_, member, owner, holds⟩
    obtain ⟨entry, inside, rfl⟩ := List.mem_map.mp member
    rw [PeerState.shutdown_peerId] at owner
    rw [PeerState.shutdown_socketFd] at holds
    split at holds
    · cases holds
    · rename_i differs
      exact ⟨⟨entry, inside, owner, holds⟩, fun same => differs (same ▸ holds)⟩
  · rintro ⟨⟨entry, inside, owner, holds⟩, kept⟩
    refine ⟨_, List.mem_map_of_mem inside, ?_, ?_⟩
    · rwa [PeerState.shutdown_peerId]
    · rwa [PeerState.shutdown_socketFd, if_neg (fun same => kept (Option.some.inj (holds.symm.trans same)))]

theorem not_drops {event : BusEvent} (other : ∀ gone, event ≠ .onShutdown gone) : ¬ t.Drops event fd := by
  cases event with
  | onShutdown gone => exact absurd rfl (other gone)
  | _ => exact id

/-- How channels change hands: `on_shutdown` takes one away, and `on_bind`
gives one out where it makes a lane. -/
theorem Moves.holds {event : BusEvent} {next : DsoftbusTransport} (moves : t.Moves event next)
    (distinct : (t.peers.map Prod.fst).Nodup) :
    next.Holds peer fd ↔ (t.Holds peer fd ∧ ¬ t.Drops event fd) ∨ t.newLane event = some (peer, fd) := by
  cases moves with
  | quiet same noLane other => simp [same.holds, noLane, not_drops other]
  | connects lane found free =>
    rw [holds_connect (nodup_enter distinct) found free, holds_enter, lane, Option.some.injEq]
    simp [Drops]
  | unlistens listening =>
    have kept : ¬ t.Drops (.onShutdown _) fd := fun drops => drops.1 listening
    exact (or_iff_left (Option.some_ne_none _).symm).trans (and_iff_left kept) |>.symm
  | shuts other =>
    rw [holds_shuts]
    simp [Drops, newLane, other]

theorem newLane_of_drops {event : BusEvent} (drops : t.Drops event fd) : t.newLane event = none := by
  cases event with
  | onShutdown gone => rfl
  | _ => exact drops.elim

theorem owned_iff : (t.Holds peer fd ∧ t.Alone peer fd) ↔ ∀ other, t.Holds other fd ↔ other = peer := by
  constructor
  · rintro ⟨holds, only⟩ other
    constructor
    · rintro ⟨entry, inside, rfl, alsoHolds⟩
      exact only entry inside alsoHolds
    · rintro rfl
      exact holds
  · intro exact
    exact ⟨(exact peer).mpr rfl, fun entry inside holds => (exact _).mp ⟨entry, inside, rfl, holds⟩⟩

/-- A channel stays with its peer unless it is dropped or given to another. -/
theorem owned_step (distinct : (t.peers.map Prod.fst).Nodup) (event : BusEvent)
    (owned : t.Holds peer fd ∧ t.Alone peer fd) :
    ((t.step event).transport.Holds peer fd ∧ (t.step event).transport.Alone peer fd) ↔
      ¬ t.Drops event fd ∧ ∀ sink ∈ t.newLane event, sink.2 = fd → sink.1 = peer := by
  rw [owned_iff] at owned ⊢
  constructor
  · intro after
    refine ⟨fun drops => ?_, ?_⟩
    · rcases ((t.step_moves event).holds distinct).mp ((after peer).mpr rfl) with ⟨_, kept⟩ | made
      · exact kept drops
      · rw [newLane_of_drops drops] at made
        cases made
    · rintro ⟨other, taken⟩ made rfl
      exact (after other).mp (((t.step_moves event).holds distinct).mpr (Or.inr made))
  · rintro ⟨kept, own⟩ other
    rw [(t.step_moves event).holds distinct, owned other]
    constructor
    · rintro (⟨same, _⟩ | made)
      · exact same
      · exact own (other, fd) made rfl
    · exact fun same => Or.inl ⟨same, kept⟩

end DsoftbusTransport

namespace BusLanes

/-- Every lane that is past its check still has its channel to itself. -/
def Good (s : BusLanes) : Prop := ∀ lane ∈ s.lanes, lane.sending.isSome →
  s.transport.Holds lane.peerId lane.fd ∧ s.transport.Alone lane.peerId lane.fd

variable {s : BusLanes}

theorem nodup_step (event : Event) (distinct : (s.transport.peers.map Prod.fst).Nodup) :
    ((s.step event).transport.peers.map Prod.fst).Nodup := by
  cases event with
  | bus event => exact (DsoftbusTransport.step_moves _ event).nodup distinct
  | deliver i data => exact distinct
  | sendBytes i => exact distinct

/-- A change to one lane. -/
theorem forall_modify {lanes : List BusLane} {i : Nat} {f : BusLane → BusLane} {p : BusLane → Prop}
    (others : ∀ lane ∈ lanes, p lane) :
    (∀ lane ∈ lanes.modify i f, p lane) ↔ ∀ lane ∈ lanes[i]?, p (f lane) := by
  constructor
  · intro every lane at_i
    refine every (f lane) (List.mem_iff_getElem?.mpr ⟨i, ?_⟩)
    rw [List.getElem?_modify_eq, Option.mem_def.mp at_i]
    rfl
  · intro changed lane member
    obtain ⟨j, found⟩ := List.mem_iff_getElem?.mp member
    by_cases here : i = j
    · subst here
      rw [List.getElem?_modify_eq] at found
      obtain ⟨before, at_i, rfl⟩ := Option.map_eq_some_iff.mp found
      exact changed before at_i
    · rw [List.getElem?_modify_ne _ _ here] at found
      exact others lane (List.mem_of_getElem? found)

theorem good_bus (distinct : (s.transport.peers.map Prod.fst).Nodup) (good : s.Good) (event : BusEvent) :
    (s.step (.bus event)).Good ↔ s.Undisturbed (.bus event) := by
  constructor
  · intro after lane inside sending
    refine (DsoftbusTransport.owned_step distinct event (good lane inside sending)).mp ?_
    exact after lane (List.mem_append_left _ inside) sending
  · intro undisturbed lane member sending
    rcases List.mem_append.mp member with inside | made
    · exact (DsoftbusTransport.owned_step distinct event (good lane inside sending)).mpr (undisturbed lane inside sending)
    · obtain ⟨sink, _, rfl⟩ := List.mem_map.mp made
      cases sending

theorem good_deliver (good : s.Good) (i : Nat) (data : Bytes) :
    (s.step (.deliver i data)).Good ↔ s.Undisturbed (.deliver i data) := by
  refine (forall_modify good).trans (forall₂_congr (fun lane at_i => ?_))
  unfold BusLane.check
  split
  · rename_i passes
    exact ⟨fun owned _ _ _ => (owned rfl).2, fun alone _ => ⟨passes.2.2, alone passes.1 passes.2.1 passes.2.2⟩⟩
  · rename_i fails
    refine iff_of_true (good lane (List.mem_of_getElem? at_i)) (fun waiting running holds => ?_)
    exact absurd ⟨waiting, running, holds⟩ fails

theorem good_sendBytes (good : s.Good) (i : Nat) : (s.step (.sendBytes i)).Good := by
  refine (forall_modify good).mpr (fun lane _ sending => ?_)
  cases sending

theorem good_step (distinct : (s.transport.peers.map Prod.fst).Nodup) (good : s.Good) (event : Event) :
    (s.step event).Good ↔ s.Undisturbed event := by
  cases event with
  | bus event => exact good_bus distinct good event
  | deliver i data => exact good_deliver good i data
  | sendBytes i => exact iff_of_true (good_sendBytes good i) trivial

/-- A lane's `SendBytes` may come at any time after its check. -/
theorem good_iff : s.Good ↔ ∀ i, s.WritesOwn (.sendBytes i) := by
  constructor
  · exact fun good i lane at_i => good lane (List.mem_of_getElem? at_i)
  · intro own lane inside
    obtain ⟨i, at_i⟩ := List.mem_iff_getElem?.mp inside
    exact own i lane at_i

theorem good_iff_undisturbed (listenFd : Option Fd) (events : List Event) :
    (∀ first, first <+: events → (Run.exec step (start listenFd) first).Good) ↔
      Run.Along step Undisturbed (start listenFd) events := by
  refine Run.always_iff_along (fun first event _ earlier => ?_) (fun lane inside => absurd inside List.not_mem_nil)
  have distinct : ((Run.exec step (start listenFd) first).transport.peers.map Prod.fst).Nodup :=
    @Run.invariant _ _ step (fun s => (s.transport.peers.map Prod.fst).Nodup) (fun _ event => nodup_step event) _ first
      List.nodup_nil
  exact good_step distinct (earlier first (List.prefix_refl _)) event

/-- In the runs in which nobody disturbs a lane between its check and its
`SendBytes`, each lane writes to its own peer. Every other run can be cut off
where one `SendBytes` more goes elsewhere. -/
theorem writes_own_channel (listenFd : Option Fd) (events : List Event) :
    (Run.Along step Undisturbed (start listenFd) events → Run.Along step WritesOwn (start listenFd) events) ∧
    (¬ Run.Along step Undisturbed (start listenFd) events → ∃ first, first <+: events ∧
      ∃ i, ¬ Run.Along step WritesOwn (start listenFd) (first ++ [.sendBytes i])) := by
  rw [← good_iff_undisturbed]
  constructor
  · intro good
    refine Run.along_iff_forall.mpr (fun first event inside => ?_)
    have before := good first ((List.prefix_append first [event]).trans inside)
    cases event with
    | bus event => trivial
    | deliver i data => trivial
    | sendBytes i => exact good_iff.mp before i
  · intro breached
    push Not at breached
    obtain ⟨first, isPrefix, lost⟩ := breached
    rw [good_iff] at lost
    push Not at lost
    obtain ⟨i, elsewhere⟩ := lost
    exact ⟨first, isPrefix, i, fun own => elsewhere ((Run.along_snoc step).mp own).2⟩

/-- DSoftBus reuses the descriptor of a channel that was shut down while a
lane of the first peer is about to write to it. -/
theorem writes_to_next_owner :
    let checked : List Event := [.bus (.onBind 5 ⟨[1]⟩ 0), .deliver 0 [42], .bus (.onShutdown 5), .bus (.onBind 5 ⟨[2]⟩ 0)]
    ¬ Run.Along step WritesOwn (start (some 1)) (checked ++ [.sendBytes 0]) ∧
      (Run.exec step (start (some 1)) checked).lanes[0]? = some { peerId := 1, fd := 5, sending := some [42] } ∧
      (Run.exec step (start (some 1)) checked).transport.Holds 2 5 := by
  decide

end BusLanes

end Mdds
