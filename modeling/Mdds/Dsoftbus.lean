import Mathlib.Data.Finset.Card
import Mdds.Stack

namespace Mdds

/-- A socket of DSoftBus on one device. -/
abbrev Fd := Nat

/-- The LNN name of a device, ordered as a string. -/
structure NetworkId where
  bytes : Bytes
  deriving DecidableEq

instance : LT NetworkId := ⟨fun a b => a.bytes < b.bytes⟩
instance : DecidableLT NetworkId := fun a b => inferInstanceAs (Decidable (a.bytes < b.bytes))

def kInvalidPeer : PeerId := 0

/-- `socketFd` is the connected channel, `pendingFd` an outgoing socket that
is still binding, `lane` the peer and the channel its sink captured. -/
structure PeerState where
  peerId : PeerId
  socketFd : Option Fd := none
  pendingFd : Option Fd := none
  upNotified : Bool := false
  lane : Option (PeerId × Fd) := none
  maxPayload : Nat := 0
  deriving DecidableEq

structure DsoftbusTransport where
  listenFd : Option Fd := none
  running : Bool := true
  peers : List (NetworkId × PeerState) := []
  nextPeerId : PeerId := 1
  deriving DecidableEq

/-- What a section leaves: the tables, the calls its thread makes to the
listener afterwards, and the sockets it gave to `Shutdown`. -/
structure BusOutcome where
  transport : DsoftbusTransport
  calls : List Call := []
  shutdowns : List Fd := []

inductive BusEvent
  | connectOnlinePeers (nodes : List NetworkId)
  | bindPeer (networkId : NetworkId) (fd : Fd)
  | bindFailed (networkId : NetworkId) (fd : Fd)
  | onBind (fd : Fd) (networkId : NetworkId) (limit : Nat)
  | onShutdown (fd : Fd)
  | onError (fd : Fd)
  | onBytesReceived (fd : Fd) (data : Bytes)

/-- The bind of this socket is over. -/
def PeerState.bound (st : PeerState) (fd : Fd) : PeerState :=
  if st.pendingFd = some fd then { st with pendingFd := none } else st

/-- The channel becomes the one of the peer, with a lane of its own. -/
def PeerState.connect (st : PeerState) (fd : Fd) (limit : Nat) : PeerState :=
  { st with socketFd := some fd, upNotified := true, maxPayload := limit, lane := some (st.peerId, fd) }

/-- The loop body of `on_shutdown`. -/
def PeerState.shutdown (st : PeerState) (fd : Fd) : PeerState :=
  if st.socketFd = some fd then { st with socketFd := none, maxPayload := 0, lane := none, upNotified := false }
  else st.bound fd

namespace DsoftbusTransport
variable (t : DsoftbusTransport)

/-- A network id seen for the first time gets the next peer id. -/
def enter (networkId : NetworkId) : DsoftbusTransport :=
  match t.peers.lookup networkId with
  | some _ => t
  | none =>
    { t with
      peers := KeyedList.emplace networkId { peerId := t.nextPeerId } t.peers
      nextPeerId := t.nextPeerId + 1 }

def update (networkId : NetworkId) (f : PeerState → PeerState) : DsoftbusTransport :=
  { t with peers := KeyedList.modify networkId f t.peers }

/-- The peer is new, or has neither a channel nor a bind in progress. -/
def wantsBind (networkId : NetworkId) : Bool :=
  (t.peers.lookup networkId).all (fun st => st.socketFd = none ∧ st.pendingFd = none)

/-- The loop body of `connect_online_peers`. -/
def poll (found : DsoftbusTransport × List NetworkId) (networkId : NetworkId) : DsoftbusTransport × List NetworkId :=
  (found.1.enter networkId, if found.1.wantsBind networkId then found.2 ++ [networkId] else found.2)

/-- The locked part of `connect_online_peers` and the peers it will bind to. -/
def connectOnlinePeers (nodes : List NetworkId) : DsoftbusTransport × List NetworkId := nodes.foldl poll (t, [])

/-- The locked part of `bind_peer`, after `Socket` returned. -/
def bindPeer (networkId : NetworkId) (fd : Fd) : BusOutcome :=
  match t.peers.lookup networkId with
  | none => { transport := t, shutdowns := [fd] }
  | some _ => { transport := t.update networkId (fun st => { st with pendingFd := some fd }) }

/-- The end of `bind_peer` when `BindAsync` is refused. -/
def bindFailed (networkId : NetworkId) (fd : Fd) : BusOutcome :=
  { transport := t.update networkId (fun st => st.bound fd), shutdowns := [fd] }

/-- `on_bind`; the limit is what `probe_max_payload` reads. -/
def onBind (fd : Fd) (networkId : NetworkId) (limit : Nat) : BusOutcome :=
  if networkId.bytes = [] then { transport := t }
  else
    match (t.enter networkId).peers.lookup networkId with
    | none => { transport := t.enter networkId }
    | some st =>
      match st.socketFd with
      | none =>
        { transport := (t.enter networkId).update networkId (fun st => (st.bound fd).connect fd limit)
          calls := [.up st.peerId] }
      | some other =>
        { transport := (t.enter networkId).update networkId (fun st => st.bound fd)
          shutdowns := if other ≠ fd then [fd] else [] }

/-- `on_shutdown`: with several matches the last one is told. -/
def onShutdown (fd : Fd) : BusOutcome :=
  if t.listenFd = some fd then { transport := { t with running := false } }
  else
    let told := (t.peers.filter (fun entry => entry.2.socketFd = some fd && entry.2.upNotified)).map
      (fun entry => entry.2.peerId)
    { transport := { t with peers := t.peers.map (fun entry => (entry.1, entry.2.shutdown fd)) }
      calls := ((told.getLast?.filter (· ≠ kInvalidPeer)).map Call.down).toList }

/-- `on_error`: the first match only. -/
def onError (fd : Fd) : BusOutcome :=
  match t.peers.find? (fun entry => entry.2.pendingFd = some fd) with
  | none => { transport := t }
  | some entry => { transport := t.update entry.1 (fun st => { st with pendingFd := none }), shutdowns := [fd] }

def onBytesReceived (fd : Fd) (data : Bytes) : BusOutcome :=
  match t.peers.find? (fun entry => entry.2.socketFd = some fd) with
  | none => { transport := t }
  | some entry => { transport := t, calls := if entry.2.peerId ≠ kInvalidPeer then [.bytes entry.2.peerId data] else [] }

def step : BusEvent → BusOutcome
  | .connectOnlinePeers nodes => { transport := (t.connectOnlinePeers nodes).1 }
  | .bindPeer networkId fd => t.bindPeer networkId fd
  | .bindFailed networkId fd => t.bindFailed networkId fd
  | .onBind fd networkId limit => t.onBind fd networkId limit
  | .onShutdown fd => t.onShutdown fd
  | .onError fd => t.onError fd
  | .onBytesReceived fd data => t.onBytesReceived fd data

end DsoftbusTransport

/-- The callbacks of DSoftBus run on threads of their own and do not wait for
each other's calls to the listener. -/
def dsoftbusBackend : Backend DsoftbusTransport BusEvent where
  step t event := ((t.step event).transport, (t.step event).calls)
  stepThread _ := .callbacks
  callThread _ := .callbacks

namespace PeerState
variable (st : PeerState) (fd : Fd)

@[simp] theorem bound_peerId : (st.bound fd).peerId = st.peerId := by
  unfold bound
  split <;> rfl

@[simp] theorem bound_socketFd : (st.bound fd).socketFd = st.socketFd := by
  unfold bound
  split <;> rfl

@[simp] theorem bound_upNotified : (st.bound fd).upNotified = st.upNotified := by
  unfold bound
  split <;> rfl

@[simp] theorem shutdown_peerId : (st.shutdown fd).peerId = st.peerId := by
  unfold shutdown
  split
  · rfl
  · exact bound_peerId st fd

theorem shutdown_socketFd : (st.shutdown fd).socketFd = if st.socketFd = some fd then none else st.socketFd := by
  unfold shutdown
  split
  · rfl
  · exact bound_socketFd st fd

theorem shutdown_upNotified :
    (st.shutdown fd).upNotified = if st.socketFd = some fd then false else st.upNotified := by
  unfold shutdown
  split
  · rfl
  · exact bound_upNotified st fd

end PeerState

namespace DsoftbusTransport

/-- The tables of a transport that has seen fewer than 2^56 devices: peer ids
are handed out in turn, every channel belongs to one peer, and a peer was
told to be up while it has a channel. -/
structure Keyed (t : DsoftbusTransport) : Prop where
  distinct : (t.peers.map Prod.fst).Nodup
  next : t.nextPeerId.toNat = t.peers.length + 1
  few : t.peers.length < 2 ^ 56
  ids : ∀ entry ∈ t.peers, 0 < entry.2.peerId.toNat ∧ entry.2.peerId.toNat ≤ t.peers.length
  single : ∀ entry ∈ t.peers, ∀ other ∈ t.peers, entry.2.peerId = other.2.peerId → entry = other
  notified : ∀ entry ∈ t.peers, entry.2.upNotified = entry.2.socketFd.isSome
  own : ∀ entry ∈ t.peers, ∀ other ∈ t.peers, ∀ fd, entry.2.socketFd = some fd → other.2.socketFd = some fd → entry = other

/-- The peers with a channel, in the ids of the participant. -/
def Linked (index : Nat) (t : DsoftbusTransport) (peer : PeerId) : Prop :=
  ∃ entry ∈ t.peers, entry.2.socketFd.isSome = true ∧ makePeerId index entry.2.peerId = peer

variable {t : DsoftbusTransport} {index : Nat} {peer : PeerId}

/-- Rewriting entries keeps the tables in shape as long as it gives no peer a channel. -/
theorem Keyed.rewrite (keyed : t.Keyed) {f : NetworkId × PeerState → PeerState}
    (sameId : ∀ entry ∈ t.peers, (f entry).peerId = entry.2.peerId)
    (notified : ∀ entry ∈ t.peers, (f entry).upNotified = (f entry).socketFd.isSome)
    (noNew : ∀ entry ∈ t.peers, ∀ fd, (f entry).socketFd = some fd → entry.2.socketFd = some fd) :
    Keyed { t with peers := t.peers.map (fun entry => (entry.1, f entry)) } := by
  refine ⟨?_, ?_, ?_, ?_, ?_, ?_, ?_⟩
  · rw [List.map_map]
    exact keyed.distinct
  · exact keyed.next.trans (by rw [List.length_map])
  · rw [List.length_map]
    exact keyed.few
  · rintro _ member
    obtain ⟨entry, inside, rfl⟩ := List.mem_map.mp member
    rw [List.length_map, sameId entry inside]
    exact keyed.ids entry inside
  · rintro _ member _ alsoMember same
    obtain ⟨entry, inside, rfl⟩ := List.mem_map.mp member
    obtain ⟨other, there, rfl⟩ := List.mem_map.mp alsoMember
    rw [keyed.single entry inside other there ((sameId entry inside).symm.trans (same.trans (sameId other there)))]
  · rintro _ member
    obtain ⟨entry, inside, rfl⟩ := List.mem_map.mp member
    exact notified entry inside
  · rintro _ member _ alsoMember fd holds alsoHolds
    obtain ⟨entry, inside, rfl⟩ := List.mem_map.mp member
    obtain ⟨other, there, rfl⟩ := List.mem_map.mp alsoMember
    rw [keyed.own entry inside other there fd (noNew entry inside fd holds) (noNew other there fd alsoHolds)]

theorem linked_rewrite {f : NetworkId × PeerState → PeerState}
    (sameId : ∀ entry ∈ t.peers, (f entry).peerId = entry.2.peerId)
    (sameFd : ∀ entry ∈ t.peers, (f entry).socketFd = entry.2.socketFd) :
    Linked index { t with peers := t.peers.map (fun entry => (entry.1, f entry)) } peer ↔ Linked index t peer := by
  constructor
  · rintro ⟨_, member, up, same⟩
    obtain ⟨entry, inside, rfl⟩ := List.mem_map.mp member
    rw [sameFd entry inside] at up
    rw [sameId entry inside] at same
    exact ⟨entry, inside, up, same⟩
  · rintro ⟨entry, inside, up, same⟩
    refine ⟨_, List.mem_map_of_mem inside, ?_, ?_⟩
    · rwa [sameFd entry inside]
    · rwa [sameId entry inside]

theorem update_eq_map (t : DsoftbusTransport) (networkId : NetworkId) (f : PeerState → PeerState) :
    t.update networkId f =
      { t with peers := t.peers.map (fun entry => (entry.1, if entry.1 = networkId then f entry.2 else entry.2)) } := by
  unfold update KeyedList.modify
  congr 1
  refine List.map_congr_left (fun entry _ => ?_)
  split <;> rfl

/-- An update that only touches what concerns a bind in progress. -/
theorem Keyed.update (keyed : t.Keyed) (networkId : NetworkId) {f : PeerState → PeerState}
    (sameId : ∀ st, (f st).peerId = st.peerId) (sameFd : ∀ st, (f st).socketFd = st.socketFd)
    (sameUp : ∀ st, (f st).upNotified = st.upNotified) :
    (t.update networkId f).Keyed ∧ (Linked index (t.update networkId f) peer ↔ Linked index t peer) := by
  have ids : ∀ entry ∈ t.peers, (if entry.1 = networkId then f entry.2 else entry.2).peerId = entry.2.peerId := by
    intro entry _
    split
    · exact sameId entry.2
    · rfl
  have fds : ∀ entry ∈ t.peers, (if entry.1 = networkId then f entry.2 else entry.2).socketFd = entry.2.socketFd := by
    intro entry _
    split
    · exact sameFd entry.2
    · rfl
  rw [update_eq_map]
  refine ⟨keyed.rewrite ids (fun entry inside => ?_) (fun entry inside fd => ?_), linked_rewrite ids fds⟩
  · rw [fds entry inside, ← keyed.notified entry inside]
    split
    · exact sameUp entry.2
    · rfl
  · rw [fds entry inside]
    exact id

/-- There are peer ids left for these devices. -/
def Room (t : DsoftbusTransport) (names : List NetworkId) : Prop :=
  (t.peers.map Prod.fst ++ names).toFinset.card < 2 ^ 56

instance (t : DsoftbusTransport) (names : List NetworkId) : Decidable (t.Room names) :=
  inferInstanceAs (Decidable ((t.peers.map Prod.fst ++ names).toFinset.card < 2 ^ 56))

theorem Room.mono {next : DsoftbusTransport} {names rest : List NetworkId} (room : t.Room names)
    (known : next.peers.map Prod.fst ++ rest ⊆ t.peers.map Prod.fst ++ names) : next.Room rest := by
  have fewer : (next.peers.map Prod.fst ++ rest).toFinset ⊆ (t.peers.map Prod.fst ++ names).toFinset := by
    intro name member
    rw [List.mem_toFinset] at member ⊢
    exact known member
  exact lt_of_le_of_lt (Finset.card_le_card fewer) room

theorem mem_keys_enter {networkId name : NetworkId} (member : name ∈ (t.enter networkId).peers.map Prod.fst) :
    name = networkId ∨ name ∈ t.peers.map Prod.fst := by
  unfold enter at member
  split at member
  · exact Or.inr member
  · exact KeyedList.mem_keys_emplace member

theorem mem_enter {networkId : NetworkId} {entry : NetworkId × PeerState} (member : entry ∈ (t.enter networkId).peers) :
    entry = (networkId, { peerId := t.nextPeerId }) ∨ entry ∈ t.peers := by
  unfold enter at member
  split at member
  · exact Or.inr member
  · exact KeyedList.mem_of_mem_emplace member

/-- A device seen for the first time gets an id of its own and no channel. -/
theorem Keyed.enter (keyed : t.Keyed) {networkId : NetworkId} (room : t.Room [networkId]) :
    (t.enter networkId).Keyed ∧ (Linked index (t.enter networkId) peer ↔ Linked index t peer) := by
  unfold DsoftbusTransport.enter
  cases found : t.peers.lookup networkId with
  | some st => exact ⟨keyed, Iff.rfl⟩
  | none =>
    have absent := KeyedList.not_mem_keys found
    have longer := @KeyedList.length_emplace _ _ _ _ _ networkId ({ peerId := t.nextPeerId } : PeerState) t.peers absent
    have inside {entry : NetworkId × PeerState} := @KeyedList.mem_emplace _ _ _ _ _ networkId
      ({ peerId := t.nextPeerId } : PeerState) t.peers entry absent
    have count : t.peers.length + 1 < 2 ^ 56 := by
      have distinct : (t.peers.map Prod.fst ++ [networkId]).Nodup :=
        List.nodup_append.mpr ⟨keyed.distinct, List.nodup_singleton _, fun name member other same =>
          fun equal => absent (List.mem_singleton.mp same ▸ equal ▸ member)⟩
      have all := List.toFinset_card_of_nodup distinct
      rw [List.length_append, List.length_map, List.length_singleton] at all
      exact all ▸ room
    have fresh {entry : NetworkId × PeerState} (member : entry ∈ t.peers) : entry.2.peerId ≠ t.nextPeerId := by
      intro same
      have bound := (keyed.ids entry member).2
      rw [same, keyed.next] at bound
      omega
    constructor
    · refine ⟨KeyedList.nodup_emplace keyed.distinct absent, ?_, longer ▸ count, ?_, ?_, ?_, ?_⟩
      · rw [longer, BitVec.toNat_add, keyed.next]
        have one : (1 : U64).toNat = 1 := rfl
        rw [one]
        exact Nat.mod_eq_of_lt (by omega)
      · intro entry member
        rw [longer]
        rcases inside.mp member with rfl | before
        · exact ⟨by rw [keyed.next]; omega, Nat.le_of_eq keyed.next⟩
        · exact ⟨(keyed.ids entry before).1, Nat.le_succ_of_le (keyed.ids entry before).2⟩
      · intro entry member other alsoMember same
        rcases inside.mp member with rfl | before
        · rcases inside.mp alsoMember with rfl | there
          · rfl
          · exact absurd same.symm (fresh there)
        · rcases inside.mp alsoMember with rfl | there
          · exact absurd same (fresh before)
          · exact keyed.single entry before other there same
      · intro entry member
        rcases inside.mp member with rfl | before
        · rfl
        · exact keyed.notified entry before
      · intro entry member other alsoMember fd holds alsoHolds
        rcases inside.mp member with rfl | before
        · cases holds
        · rcases inside.mp alsoMember with rfl | there
          · cases alsoHolds
          · exact keyed.own entry before other there fd holds alsoHolds
    · constructor
      · rintro ⟨entry, member, up, same⟩
        rcases inside.mp member with rfl | before
        · cases up
        · exact ⟨entry, before, up, same⟩
      · rintro ⟨entry, before, up, same⟩
        exact ⟨entry, inside.mpr (Or.inr before), up, same⟩

/-- Polling adds entries for new devices, and none of them has a channel. -/
theorem Keyed.connectOnlinePeers (keyed : t.Keyed) {nodes : List NetworkId} (room : t.Room nodes) :
    (t.connectOnlinePeers nodes).1.Keyed ∧ (Linked index (t.connectOnlinePeers nodes).1 peer ↔ Linked index t peer) := by
  suffices loop : ∀ (t : DsoftbusTransport) (found : List NetworkId), t.Keyed → t.Room nodes →
      (nodes.foldl DsoftbusTransport.poll (t, found)).1.Keyed ∧
        (Linked index (nodes.foldl DsoftbusTransport.poll (t, found)).1 peer ↔ Linked index t peer) from
    loop t [] keyed room
  clear room
  induction nodes with
  | nil => exact fun t _ keyed _ => ⟨keyed, Iff.rfl⟩
  | cons networkId rest ih =>
    intro t found keyed room
    have first := @Keyed.enter t index peer keyed networkId (room.mono (fun name member => by
      rcases List.mem_append.mp member with known | new
      · exact List.mem_append_left _ known
      · exact List.mem_append_right _ (List.mem_singleton.mp new ▸ List.mem_cons_self)))
    have next := ih (t.enter networkId) (poll (t, found) networkId).2 first.1 (room.mono (fun name member => by
      rcases List.mem_append.mp member with known | later
      · rcases mem_keys_enter known with rfl | before
        · exact List.mem_append_right _ List.mem_cons_self
        · exact List.mem_append_left _ before
      · exact List.mem_append_right _ (List.mem_cons_of_mem _ later)))
    exact ⟨next.1, next.2.trans first.2⟩

/-- What the transport relies on: fewer than 2^56 devices, and channels that
are told apart by their descriptors. -/
def Admits (t : DsoftbusTransport) : BusEvent → Prop
  | .connectOnlinePeers nodes => t.Room nodes
  | .onBind fd networkId _ => t.Room [networkId] ∧ ∀ entry ∈ t.peers, entry.2.socketFd = some fd → entry.1 = networkId
  | _ => True

instance (t : DsoftbusTransport) (event : BusEvent) : Decidable (t.Admits event) :=
  match event with
  | .connectOnlinePeers nodes => inferInstanceAs (Decidable (t.Room nodes))
  | .onBind fd networkId _ => inferInstanceAs (Decidable (t.Room [networkId] ∧
      ∀ entry ∈ t.peers, entry.2.socketFd = some fd → entry.1 = networkId))
  | .bindPeer .. | .bindFailed .. | .onShutdown _ | .onError _ | .onBytesReceived .. => isTrue trivial

/-- The first channel of a peer connects it. -/
theorem Keyed.connect (keyed : t.Keyed) {networkId : NetworkId} {st : PeerState} (found : (networkId, st) ∈ t.peers)
    {fd : Fd} (limit : Nat) (unused : ∀ entry ∈ t.peers, entry.2.socketFd = some fd → entry.1 = networkId) :
    (t.update networkId (fun st => (st.bound fd).connect fd limit)).Keyed ∧
      (Linked index (t.update networkId (fun st => (st.bound fd).connect fd limit)) peer ↔
        peer = makePeerId index st.peerId ∨ Linked index t peer) := by
  have only {entry : NetworkId × PeerState} (member : entry ∈ t.peers) (here : entry.1 = networkId) :
      entry = (networkId, st) :=
    List.inj_on_of_nodup_map keyed.distinct member found here
  have sameId (entry : NetworkId × PeerState) :
      (if entry.1 = networkId then (entry.2.bound fd).connect fd limit else entry.2).peerId = entry.2.peerId := by
    split
    · exact entry.2.bound_peerId fd
    · rfl
  rw [update_eq_map]
  constructor
  · refine ⟨?_, ?_, ?_, ?_, ?_, ?_, ?_⟩
    · rw [List.map_map]
      exact keyed.distinct
    · exact keyed.next.trans (by rw [List.length_map])
    · rw [List.length_map]
      exact keyed.few
    · rintro _ member
      obtain ⟨entry, inside, rfl⟩ := List.mem_map.mp member
      rw [List.length_map, sameId]
      exact keyed.ids entry inside
    · rintro _ member _ alsoMember same
      obtain ⟨entry, inside, rfl⟩ := List.mem_map.mp member
      obtain ⟨other, there, rfl⟩ := List.mem_map.mp alsoMember
      rw [sameId, sameId] at same
      rw [keyed.single entry inside other there same]
    · rintro _ member
      obtain ⟨entry, inside, rfl⟩ := List.mem_map.mp member
      dsimp only
      split
      · rfl
      · exact keyed.notified entry inside
    · -- Only this peer has the new channel.
      have holder {entry : NetworkId × PeerState} (inside : entry ∈ t.peers)
          (holds : (if entry.1 = networkId then (entry.2.bound fd).connect fd limit else entry.2).socketFd = some fd) :
          entry.1 = networkId := by
        split at holds
        · assumption
        · exact unused entry inside holds
      have before {entry : NetworkId × PeerState} {other : Fd} (differ : other ≠ fd)
          (holds : (if entry.1 = networkId then (entry.2.bound fd).connect fd limit else entry.2).socketFd = some other) :
          entry.2.socketFd = some other := by
        split at holds
        · exact absurd (Option.some.inj holds).symm differ
        · exact holds
      rintro _ member _ alsoMember other holds alsoHolds
      obtain ⟨entry, inside, rfl⟩ := List.mem_map.mp member
      obtain ⟨second, there, rfl⟩ := List.mem_map.mp alsoMember
      by_cases this : other = fd
      · subst this
        rw [only inside (holder inside holds), only there (holder there alsoHolds)]
      · rw [keyed.own entry inside second there other (before this holds) (before this alsoHolds)]
  · constructor
    · rintro ⟨_, member, up, rfl⟩
      obtain ⟨entry, inside, rfl⟩ := List.mem_map.mp member
      by_cases here : entry.1 = networkId
      · exact Or.inl (by rw [sameId, only inside here])
      · refine Or.inr ⟨entry, inside, ?_, by rw [sameId]⟩
        rwa [if_neg here] at up
    · rintro (rfl | ⟨entry, inside, up, rfl⟩)
      · refine ⟨_, List.mem_map_of_mem found, ?_, by rw [sameId]⟩
        rw [if_pos rfl]
        rfl
      · refine ⟨_, List.mem_map_of_mem inside, ?_, by rw [sameId]⟩
        split
        · rfl
        · exact up

/-- The peers that `on_shutdown` finds on a channel. -/
theorem Keyed.told (keyed : t.Keyed) {fd : Fd} {entry : NetworkId × PeerState} (inside : entry ∈ t.peers)
    (holds : entry.2.socketFd = some fd) :
    ((t.peers.filter (fun entry => entry.2.socketFd = some fd && entry.2.upNotified)).map
      (fun entry => entry.2.peerId)).getLast? = some entry.2.peerId := by
  have listed : entry.2.peerId ∈ (t.peers.filter (fun entry => entry.2.socketFd = some fd && entry.2.upNotified)).map
      (fun entry => entry.2.peerId) := by
    refine List.mem_map_of_mem (f := fun entry : NetworkId × PeerState => entry.2.peerId) (List.mem_filter.mpr ⟨inside, ?_⟩)
    simp [holds, keyed.notified entry inside]
  cases last : ((t.peers.filter (fun entry => entry.2.socketFd = some fd && entry.2.upNotified)).map
      (fun entry => entry.2.peerId)).getLast? with
  | none => exact absurd listed (List.getLast?_eq_none_iff.mp last ▸ List.not_mem_nil)
  | some id =>
    obtain ⟨other, there, rfl⟩ := List.mem_map.mp (List.mem_of_getLast? last)
    obtain ⟨member, matching⟩ := List.mem_filter.mp there
    have alsoHolds : other.2.socketFd = some fd := by simpa using (Bool.and_eq_true_iff.mp matching).1
    rw [keyed.own other member entry inside fd alsoHolds holds]

/-- Losing its channel disconnects the peer, and nobody else. -/
theorem Keyed.onShutdown (keyed : t.Keyed) (fd : Fd) :
    (t.onShutdown fd).transport.Keyed ∧ (Linked index (t.onShutdown fd).transport peer ↔
      (Notices.newest (Call.tells index) (t.onShutdown fd).calls peer).elim (Linked index t peer) (· = true)) := by
  unfold DsoftbusTransport.onShutdown
  dsimp only
  split
  · exact ⟨⟨keyed.distinct, keyed.next, keyed.few, keyed.ids, keyed.single, keyed.notified, keyed.own⟩, Iff.rfl⟩
  · constructor
    · refine keyed.rewrite (fun entry _ => entry.2.shutdown_peerId fd) (fun entry inside => ?_) (fun entry _ other => ?_)
      · rw [PeerState.shutdown_upNotified, PeerState.shutdown_socketFd, keyed.notified entry inside]
        split <;> rfl
      · rw [PeerState.shutdown_socketFd]
        split
        · exact fun none => absurd none (Option.some_ne_none other).symm
        · exact id
    · by_cases lost : ∃ entry ∈ t.peers, entry.2.socketFd = some fd
      · obtain ⟨entry, inside, holds⟩ := lost
        have valid : entry.2.peerId ≠ kInvalidPeer := by
          intro zero
          have positive := (keyed.ids entry inside).1
          rw [zero] at positive
          exact absurd positive (Nat.lt_irrefl 0)
        rw [keyed.told inside holds, Option.filter_some, decide_eq_true valid, if_pos rfl, Option.map_some,
          Option.toList_some, Notices.newest_singleton, Call.tells]
        by_cases here : peer = makePeerId index entry.2.peerId
        · rw [if_pos here]
          refine iff_of_false ?_ Bool.false_ne_true
          rintro ⟨_, member, up, same⟩
          obtain ⟨other, there, rfl⟩ := List.mem_map.mp member
          rw [PeerState.shutdown_peerId, here] at same
          have bound {entry : NetworkId × PeerState} (member : entry ∈ t.peers) : entry.2.peerId.toNat < 2 ^ 56 :=
            lt_of_le_of_lt (keyed.ids entry member).2 keyed.few
          obtain rfl := keyed.single other there entry inside (makePeerId_inj (bound there) (bound inside) same)
          rw [PeerState.shutdown_socketFd, if_pos holds] at up
          cases up
        · rw [if_neg here]
          constructor
          · rintro ⟨_, member, up, same⟩
            obtain ⟨other, there, rfl⟩ := List.mem_map.mp member
            rw [PeerState.shutdown_socketFd] at up
            split at up
            · cases up
            · exact ⟨other, there, up, same ▸ by rw [PeerState.shutdown_peerId]⟩
          · rintro ⟨other, there, up, rfl⟩
            refine ⟨_, List.mem_map_of_mem there, ?_, by rw [PeerState.shutdown_peerId]⟩
            rw [PeerState.shutdown_socketFd,
              if_neg (fun same => here (by rw [keyed.own other there entry inside fd same holds]))]
            exact up
      · have none : t.peers.filter (fun entry => entry.2.socketFd = some fd && entry.2.upNotified) = [] := by
          refine List.filter_eq_nil_iff.mpr (fun entry inside matching => lost ⟨entry, inside, ?_⟩)
          simpa using (Bool.and_eq_true_iff.mp matching).1
        rw [none]
        refine linked_rewrite (fun entry _ => entry.2.shutdown_peerId fd) (fun entry inside => ?_)
        rw [PeerState.shutdown_socketFd, if_neg (fun holds => lost ⟨entry, inside, holds⟩)]

theorem step_law (keyed : t.Keyed) {event : BusEvent} (admitted : t.Admits event) :
    (t.step event).transport.Keyed ∧ (Linked index (t.step event).transport peer ↔
      (Notices.newest (Call.tells index) (t.step event).calls peer).elim (Linked index t peer) (· = true)) := by
  cases event with
  | connectOnlinePeers nodes => exact keyed.connectOnlinePeers admitted
  | bindPeer networkId fd =>
    rw [step, bindPeer]
    split
    · exact ⟨keyed, Iff.rfl⟩
    · exact keyed.update networkId (fun _ => rfl) (fun _ => rfl) (fun _ => rfl)
  | bindFailed networkId fd =>
    exact keyed.update networkId (fun st => st.bound_peerId fd) (fun st => st.bound_socketFd fd)
      (fun st => st.bound_upNotified fd)
  | onBind fd networkId limit =>
    rw [step, onBind]
    split
    · exact ⟨keyed, Iff.rfl⟩
    · have entered := @Keyed.enter t index peer keyed networkId admitted.1
      split
      · exact entered
      · rename_i st found
        split
        · rename_i free
          have unused : ∀ entry ∈ (t.enter networkId).peers, entry.2.socketFd = some fd → entry.1 = networkId := by
            intro entry member holds
            rcases mem_enter member with rfl | before
            · rfl
            · exact admitted.2 entry before holds
          have connected := @Keyed.connect _ index peer entered.1 networkId st (KeyedList.mem_of_lookup found) fd limit unused
          refine ⟨connected.1, ?_⟩
          rw [Notices.newest_singleton, Call.tells, connected.2, entered.2]
          by_cases here : peer = makePeerId index st.peerId
          · simp [here]
          · simp [here]
        · have updated := @Keyed.update _ index peer entered.1 networkId _ (fun st => st.bound_peerId fd)
            (fun st => st.bound_socketFd fd) (fun st => st.bound_upNotified fd)
          exact ⟨updated.1, updated.2.trans entered.2⟩
  | onShutdown fd => exact keyed.onShutdown fd
  | onError fd =>
    rw [step, onError]
    split
    · exact ⟨keyed, Iff.rfl⟩
    · exact keyed.update _ (fun _ => rfl) (fun _ => rfl) (fun _ => rfl)
  | onBytesReceived fd data =>
    rw [step, onBytesReceived]
    split
    · exact ⟨keyed, Iff.rfl⟩
    · refine ⟨keyed, ?_⟩
      dsimp only
      split <;> exact Iff.rfl

/-- Who has a channel changes only with a call that says so. -/
theorem announces (index : Nat) : dsoftbusBackend.Announces index Keyed Admits (Linked index) where
  kept _ _ keyed admitted := (@step_law _ index kInvalidPeer keyed _ admitted).1
  told _ _ keyed admitted _ := (step_law keyed admitted).2

end DsoftbusTransport

end Mdds
