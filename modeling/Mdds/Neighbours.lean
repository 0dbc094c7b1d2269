import Mdds.Channels

namespace Mdds

/-- What the DSoftBus backend is to its listener: the devices in the order in
which they were first seen, and the channel of each. -/
structure Neighbours where
  seen : List NetworkId := []
  channel : NetworkId → Option Fd := fun _ => none

namespace Neighbours
variable (n : Neighbours)

def meet (networkId : NetworkId) : Neighbours :=
  if networkId ∈ n.seen then n else { n with seen := n.seen ++ [networkId] }

/-- Devices are numbered from one on. -/
def name (networkId : NetworkId) : PeerId := BitVec.ofNat 64 (n.seen.idxOf networkId + 1)

/-- The first channel of a device is kept until it is shut. -/
def step (listenFd : Option Fd) (n : Neighbours) : BusEvent → Neighbours
  | .connectOnlinePeers nodes => nodes.foldl meet n
  | .onBind fd networkId _ =>
    if networkId.bytes = [] then n
    else
      { seen := (n.meet networkId).seen
        channel := Function.update n.channel networkId ((n.channel networkId).or (some fd)) }
  | .onShutdown fd =>
    if listenFd = some fd then n
    else { n with channel := fun networkId => if n.channel networkId = some fd then none else n.channel networkId }
  | _ => n

/-- The calls that an event leads to. -/
inductive Tells (listenFd : Option Fd) (n : Neighbours) : BusEvent → Call → Prop
  | up {fd : Fd} {networkId : NetworkId} {limit : Nat} (named : networkId.bytes ≠ []) (free : n.channel networkId = none) :
    Tells listenFd n (.onBind fd networkId limit) (.up ((n.meet networkId).name networkId))
  | down {fd : Fd} {networkId : NetworkId} (other : listenFd ≠ some fd) (held : n.channel networkId = some fd) :
    Tells listenFd n (.onShutdown fd) (.down (n.name networkId))
  | bytes {fd : Fd} {networkId : NetworkId} {data : Bytes} (held : n.channel networkId = some fd) :
    Tells listenFd n (.onBytesReceived fd data) (.bytes (n.name networkId) data)

variable {n} {networkId other : NetworkId}

@[simp] theorem meet_channel : (n.meet networkId).channel = n.channel := by
  unfold meet
  split <;> rfl

theorem mem_meet : other ∈ (n.meet networkId).seen ↔ other ∈ n.seen ∨ other = networkId := by
  unfold meet
  split
  · rename_i known
    exact (or_iff_left_of_imp (fun same => same ▸ known)).symm
  · rw [List.mem_append, List.mem_singleton]

theorem name_meet (known : other ∈ n.seen) : (n.meet networkId).name other = n.name other := by
  unfold meet
  split
  · rfl
  · rw [name, name, List.idxOf_append_of_mem known]

theorem name_meet_self (new : networkId ∉ n.seen) :
    (n.meet networkId).name networkId = BitVec.ofNat 64 (n.seen.length + 1) := by
  rw [meet, if_neg new, name, List.idxOf_append_of_notMem new, List.idxOf_cons_self, Nat.add_zero]

/-- A name lasts. -/
theorem name_step (listenFd : Option Fd) (known : other ∈ n.seen) (event : BusEvent) :
    other ∈ (n.step listenFd event).seen ∧ (n.step listenFd event).name other = n.name other := by
  have same : ∀ (nodes : List NetworkId) (n : Neighbours), other ∈ n.seen →
      other ∈ (nodes.foldl meet n).seen ∧ (nodes.foldl meet n).name other = n.name other := by
    intro nodes
    induction nodes with
    | nil => exact fun _ known => ⟨known, rfl⟩
    | cons networkId rest ih =>
      intro n known
      obtain ⟨still, as⟩ := ih (n.meet networkId) (mem_meet.mpr (Or.inl known))
      exact ⟨still, as.trans (name_meet known)⟩
  cases event with
  | connectOnlinePeers nodes => exact same nodes n known
  | onBind fd networkId limit =>
    simp only [step]
    split
    · exact ⟨known, rfl⟩
    · exact ⟨mem_meet.mpr (Or.inl known), name_meet known⟩
  | onShutdown fd =>
    simp only [step]
    split
    · exact ⟨known, rfl⟩
    · exact ⟨known, rfl⟩
  | bindPeer | bindFailed | onError | onBytesReceived => exact ⟨known, rfl⟩

theorem name_exec (listenFd : Option Fd) (known : other ∈ n.seen) (events : List BusEvent) :
    other ∈ (Run.exec (step listenFd) n events).seen ∧ (Run.exec (step listenFd) n events).name other = n.name other := by
  induction events generalizing n with
  | nil => exact ⟨known, rfl⟩
  | cons event rest ih =>
    obtain ⟨still, same⟩ := name_step listenFd known event
    obtain ⟨later, as⟩ := ih still
    exact ⟨later, as.trans same⟩

end Neighbours

namespace DsoftbusTransport
variable {t : DsoftbusTransport} {n : Neighbours} {networkId other : NetworkId}

/-- The id under which the listener knows a device. -/
def knownAs (t : DsoftbusTransport) (networkId : NetworkId) : Option PeerId :=
  (t.peers.lookup networkId).map PeerState.peerId

structure Represents (t : DsoftbusTransport) (n : Neighbours) : Prop where
  keyed : t.Keyed
  names : ∀ networkId, t.knownAs networkId = if networkId ∈ n.seen then some (n.name networkId) else none
  count : n.seen.length = t.peers.length
  channel : ∀ networkId, t.channelTo networkId = n.channel networkId

theorem knownAs_update {f : PeerState → PeerState} (same : ∀ st, (f st).peerId = st.peerId) :
    (t.update networkId f).knownAs other = t.knownAs other := by
  unfold update knownAs
  dsimp only
  rw [KeyedList.lookup_modify]
  split
  · cases t.peers.lookup other with
    | none => rfl
    | some st => exact congrArg some (same st)
  · rfl

theorem Represents.lookup_isSome (represents : t.Represents n) :
    (t.peers.lookup networkId).isSome = true ↔ networkId ∈ n.seen := by
  have named := represents.names networkId
  rw [knownAs] at named
  rw [← Option.isSome_map (f := PeerState.peerId), named]
  split
  · rename_i known
    exact iff_of_true rfl known
  · rename_i new
    exact iff_of_false Bool.false_ne_true new

/-- A device seen for the first time is numbered next. -/
theorem Represents.enter (represents : t.Represents n) (room : t.Room [networkId]) :
    (t.enter networkId).Represents (n.meet networkId) := by
  have keyed := (@Keyed.enter t 0 kInvalidPeer represents.keyed networkId room).1
  have channel (other : NetworkId) : (t.enter networkId).channelTo other = (n.meet networkId).channel other := by
    rw [channelTo_enter, Neighbours.meet_channel]
    exact represents.channel other
  by_cases known : networkId ∈ n.seen
  · have same : t.enter networkId = t := by
      obtain ⟨st, found⟩ := Option.isSome_iff_exists.mp (represents.lookup_isSome.mpr known)
      rw [DsoftbusTransport.enter, found]
    have still : n.meet networkId = n := if_pos known
    rw [same, still]
    exact represents
  · have absent : t.peers.lookup networkId = none := by
      rw [← Option.not_isSome_iff_eq_none, represents.lookup_isSome]
      exact known
    have entered : t.enter networkId =
        { t with
          peers := KeyedList.emplace networkId { peerId := t.nextPeerId } t.peers
          nextPeerId := t.nextPeerId + 1 } := by rw [DsoftbusTransport.enter, absent]
    have next : BitVec.ofNat 64 (n.seen.length + 1) = t.nextPeerId := by
      rw [represents.count, ← represents.keyed.next, BitVec.ofNat_toNat, BitVec.setWidth_eq]
    refine ⟨keyed, fun other => ?_, ?_, channel⟩
    · rw [knownAs, entered]
      dsimp only
      by_cases here : other = networkId
      · subst here
        rw [KeyedList.lookup_emplace_self absent, if_pos (Neighbours.mem_meet.mpr (Or.inr rfl)),
          Neighbours.name_meet_self known, next]
        rfl
      · rw [KeyedList.lookup_emplace_other here]
        refine (represents.names other).trans ?_
        by_cases seen : other ∈ n.seen
        · rw [if_pos seen, if_pos (Neighbours.mem_meet.mpr (Or.inl seen)), Neighbours.name_meet seen]
        · rw [if_neg seen, if_neg (fun member => (Neighbours.mem_meet.mp member).elim seen here)]
    · rw [entered]
      dsimp only
      rw [KeyedList.length_emplace (KeyedList.not_mem_keys absent), Neighbours.meet, if_neg known, List.length_append,
        List.length_singleton, represents.count]

/-- What only concerns a bind in progress does not show. -/
theorem Represents.update (represents : t.Represents n) (networkId : NetworkId) {f : PeerState → PeerState}
    (sameId : ∀ st, (f st).peerId = st.peerId) (sameFd : ∀ st, (f st).socketFd = st.socketFd)
    (sameUp : ∀ st, (f st).upNotified = st.upNotified) : (t.update networkId f).Represents n := by
  refine ⟨(@Keyed.update t 0 kInvalidPeer represents.keyed networkId f sameId sameFd sameUp).1, fun other => ?_, ?_,
    fun other => ?_⟩
  · rw [knownAs_update sameId]
    exact represents.names other
  · rw [DsoftbusTransport.update, KeyedList.modify, List.length_map]
    exact represents.count
  · rw [channelTo_update sameFd]
    exact represents.channel other

/-- The first channel of a device is kept, and a second one turned away. -/
theorem Represents.onBind (represents : t.Represents n) {fd : Fd} {limit : Nat} (room : t.Room [networkId])
    (own : ∀ entry ∈ t.peers, entry.2.socketFd = some fd → entry.1 = networkId) :
    (t.onBind fd networkId limit).transport.Represents (n.step t.listenFd (.onBind fd networkId limit)) := by
  have keyed := (@step_law t 0 kInvalidPeer represents.keyed (.onBind fd networkId limit) ⟨room, own⟩).1
  by_cases named : networkId.bytes = []
  · have same : (t.onBind fd networkId limit).transport = t := by rw [DsoftbusTransport.onBind, if_pos named]
    have still : n.step t.listenFd (.onBind fd networkId limit) = n := if_pos named
    rw [same, still]
    exact represents
  · have entered := represents.enter room
    obtain ⟨st, found⟩ := Option.isSome_iff_exists.mp (entered.lookup_isSome.mpr (Neighbours.mem_meet.mpr (Or.inr rfl)))
    have held : n.channel networkId = st.socketFd := by
      rw [← @Neighbours.meet_channel n networkId, ← entered.channel, channelTo, found]
      rfl
    have next : n.step t.listenFd (.onBind fd networkId limit) =
        { seen := (n.meet networkId).seen
          channel := Function.update n.channel networkId ((n.channel networkId).or (some fd)) } := if_neg named
    rw [next, held]
    cases free : st.socketFd with
    | none =>
      have bound : (t.onBind fd networkId limit).transport =
          (t.enter networkId).update networkId (fun st => (st.bound fd).connect fd limit) := by
        rw [DsoftbusTransport.onBind, if_neg named, found]
        simp only [free]
      rw [DsoftbusTransport.step, bound] at keyed
      rw [bound]
      refine ⟨keyed, fun other => ?_, ?_, fun other => ?_⟩
      · have same (st : PeerState) : ((st.bound fd).connect fd limit).peerId = st.peerId := st.bound_peerId fd
        rw [knownAs_update same]
        exact entered.names other
      · rw [DsoftbusTransport.update, KeyedList.modify, List.length_map]
        exact entered.count
      · by_cases here : other = networkId
        · subst here
          dsimp only
          rw [Function.update_self, channelTo, DsoftbusTransport.update]
          dsimp only
          rw [KeyedList.lookup_modify, if_pos rfl, found]
          rfl
        · dsimp only
          rw [Function.update_of_ne here, channelTo, DsoftbusTransport.update]
          dsimp only
          rw [KeyedList.lookup_modify, if_neg here]
          exact (entered.channel other).trans (congrFun Neighbours.meet_channel other)
    | some kept =>
      have bound : (t.onBind fd networkId limit).transport = (t.enter networkId).update networkId (fun st => st.bound fd) := by
        rw [DsoftbusTransport.onBind, if_neg named, found]
        simp only [free]
      have same : Function.update n.channel networkId ((some kept).or (some fd)) = (n.meet networkId).channel := by
        rw [Option.some_or, ← free, ← held, Function.update_eq_self, Neighbours.meet_channel]
      rw [bound, same]
      exact entered.update networkId (fun st => st.bound_peerId fd) (fun st => st.bound_socketFd fd)
        (fun st => st.bound_upNotified fd)

theorem Represents.onShutdown (represents : t.Represents n) (fd : Fd) :
    (t.onShutdown fd).transport.Represents (n.step t.listenFd (.onShutdown fd)) := by
  have keyed := (@Keyed.onShutdown t 0 kInvalidPeer represents.keyed fd).1
  by_cases listens : t.listenFd = some fd
  · have same : (t.onShutdown fd).transport = { t with running := false } := by
      rw [DsoftbusTransport.onShutdown, if_pos listens]
    have still : n.step t.listenFd (.onShutdown fd) = n := if_pos listens
    rw [same] at keyed ⊢
    rw [still]
    exact ⟨keyed, represents.names, represents.count, represents.channel⟩
  · have same : (t.onShutdown fd).transport =
        { t with peers := t.peers.map (fun entry => (entry.1, entry.2.shutdown fd)) } := by
      rw [DsoftbusTransport.onShutdown, if_neg listens]
    have next : n.step t.listenFd (.onShutdown fd) =
        { n with channel := fun networkId => if n.channel networkId = some fd then none else n.channel networkId } :=
      if_neg listens
    rw [next]
    refine ⟨keyed, fun other => ?_, ?_, fun other => ?_⟩
    · rw [same, knownAs]
      dsimp only
      rw [KeyedList.lookup_map, Option.map_map]
      refine Eq.trans ?_ (represents.names other)
      rw [knownAs]
      congr 1
      funext st
      exact st.shutdown_peerId fd
    · rw [same]
      exact (List.length_map _).trans represents.count.symm |>.symm
    · dsimp only
      rw [(onShutdown_clears listens).1, represents.channel]

/-- One section of the backend is one step of the neighbours. -/
theorem Represents.step (represents : t.Represents n) {event : BusEvent} (admitted : t.Admits event) :
    (t.step event).transport.Represents (n.step t.listenFd event) ∧ (t.step event).transport.listenFd = t.listenFd := by
  cases event with
  | connectOnlinePeers nodes =>
    refine ⟨?_, (@connectOnlinePeers_same t ⟨[]⟩ nodes).2⟩
    suffices loop : ∀ (t : DsoftbusTransport) (n : Neighbours) (found : List NetworkId), t.Represents n → t.Room nodes →
        (nodes.foldl DsoftbusTransport.poll (t, found)).1.Represents (nodes.foldl Neighbours.meet n) from
      loop t n [] represents admitted
    clear admitted
    induction nodes with
    | nil => exact fun _ _ _ represents _ => represents
    | cons networkId rest ih =>
      intro t n found represents room
      refine ih (t.enter networkId) (n.meet networkId) _ (represents.enter (room.mono (fun name member => ?_)))
        (room.mono (fun name member => ?_))
      · rcases List.mem_append.mp member with known | new
        · exact List.mem_append_left _ known
        · exact List.mem_append_right _ (List.mem_singleton.mp new ▸ List.mem_cons_self)
      · rcases List.mem_append.mp member with known | later
        · rcases mem_keys_enter known with rfl | before
          · exact List.mem_append_right _ List.mem_cons_self
          · exact List.mem_append_left _ before
        · exact List.mem_append_right _ (List.mem_cons_of_mem _ later)
  | bindPeer networkId fd =>
    refine ⟨?_, (@bindPeer_same t networkId networkId fd).2.1⟩
    rw [DsoftbusTransport.step, bindPeer]
    split
    · exact represents
    · exact represents.update networkId (fun _ => rfl) (fun _ => rfl) (fun _ => rfl)
  | bindFailed networkId fd =>
    exact ⟨represents.update networkId (fun st => st.bound_peerId fd) (fun st => st.bound_socketFd fd)
      (fun st => st.bound_upNotified fd), rfl⟩
  | onBind fd networkId limit =>
    refine ⟨represents.onBind admitted.1 admitted.2, ?_⟩
    rw [DsoftbusTransport.step, DsoftbusTransport.onBind]
    split
    · rfl
    · split
      · exact listenFd_enter
      · split
        · exact listenFd_enter
        · exact listenFd_enter
  | onShutdown fd =>
    refine ⟨represents.onShutdown fd, ?_⟩
    rw [DsoftbusTransport.step, DsoftbusTransport.onShutdown]
    split <;> rfl
  | onError fd =>
    refine ⟨?_, (@onError_same t ⟨[]⟩ fd).2.1⟩
    rw [DsoftbusTransport.step, onError]
    split
    · exact represents
    · exact represents.update _ (fun _ => rfl) (fun _ => rfl) (fun _ => rfl)
  | onBytesReceived fd data =>
    rw [DsoftbusTransport.step, onBytesReceived]
    split
    · exact ⟨represents, rfl⟩
    · exact ⟨represents, rfl⟩

/-- The entry of a device. -/
theorem Represents.entry (represents : t.Represents n) {entry : NetworkId × PeerState} (inside : entry ∈ t.peers) :
    entry.2.peerId = n.name entry.1 ∧ n.channel entry.1 = entry.2.socketFd := by
  have found := KeyedList.lookup_of_mem represents.keyed.distinct inside
  constructor
  · have named := represents.names entry.1
    rw [knownAs, found, Option.map_some, if_pos (represents.lookup_isSome.mp (Option.isSome_iff_exists.mpr ⟨_, found⟩))] at named
    exact Option.some.inj named
  · rw [← represents.channel, channelTo, found]
    rfl

theorem Represents.holder (represents : t.Represents n) {fd : Fd} :
    (∃ entry ∈ t.peers, entry.1 = networkId ∧ entry.2.socketFd = some fd) ↔ n.channel networkId = some fd := by
  constructor
  · rintro ⟨entry, inside, rfl, holds⟩
    exact (represents.entry inside).2.trans holds
  · intro held
    rw [← represents.channel, channelTo] at held
    obtain ⟨st, found, holds⟩ := Option.bind_eq_some_iff.mp held
    exact ⟨(networkId, st), KeyedList.mem_of_lookup found, rfl, holds⟩

/-- A device on a channel has an id that is not the invalid one. -/
theorem Represents.valid (represents : t.Represents n) {entry : NetworkId × PeerState} (inside : entry ∈ t.peers) :
    entry.2.peerId ≠ kInvalidPeer := by
  intro zero
  have positive := (represents.keyed.ids entry inside).1
  rw [zero] at positive
  exact absurd positive (Nat.lt_irrefl 0)

/-- The listener is told what the neighbours tell. -/
theorem Represents.tells (represents : t.Represents n) {event : BusEvent} (admitted : t.Admits event) :
    (t.step event).calls.length ≤ 1 ∧ ∀ call, call ∈ (t.step event).calls ↔ n.Tells t.listenFd event call := by
  have silent {event : BusEvent} {calls : List Call} (none : calls = []) (untold : ∀ call, ¬ n.Tells t.listenFd event call) :
      calls.length ≤ 1 ∧ ∀ call, call ∈ calls ↔ n.Tells t.listenFd event call := by
    rw [none]
    exact ⟨Nat.zero_le 1, fun call => iff_of_false List.not_mem_nil (untold call)⟩
  cases event with
  | connectOnlinePeers nodes => exact silent rfl (fun call told => by cases told)
  | bindPeer networkId fd =>
    refine silent ?_ (fun call told => by cases told)
    rw [DsoftbusTransport.step, bindPeer]
    split <;> rfl
  | bindFailed networkId fd => exact silent rfl (fun call told => by cases told)
  | onError fd =>
    refine silent ?_ (fun call told => by cases told)
    rw [DsoftbusTransport.step, onError]
    split <;> rfl
  | onBind fd networkId limit =>
    rw [DsoftbusTransport.step, DsoftbusTransport.onBind]
    by_cases named : networkId.bytes = []
    · rw [if_pos named]
      refine silent rfl (fun call told => ?_)
      cases told with
      | up other _ => exact other named
    · have entered := represents.enter admitted.1
      obtain ⟨st, found⟩ := Option.isSome_iff_exists.mp (entered.lookup_isSome.mpr (Neighbours.mem_meet.mpr (Or.inr rfl)))
      obtain ⟨known, held⟩ := entered.entry (KeyedList.mem_of_lookup found)
      rw [Neighbours.meet_channel] at held
      rw [if_neg named, found]
      cases free : st.socketFd with
      | none =>
        simp only [free]
        refine ⟨Nat.le_refl 1, fun call => ?_⟩
        rw [List.mem_singleton]
        constructor
        · rintro rfl
          rw [known]
          exact .up named (held.trans free)
        · intro told
          cases told with
          | up _ _ => rw [known]
      | some kept =>
        simp only [free]
        refine silent rfl (fun call told => ?_)
        cases told with
        | up _ unheld => exact Option.some_ne_none kept (free.symm.trans (held.symm.trans unheld))
  | onShutdown fd =>
    rw [DsoftbusTransport.step, DsoftbusTransport.onShutdown]
    by_cases listens : t.listenFd = some fd
    · rw [if_pos listens]
      refine silent rfl (fun call told => ?_)
      cases told with
      | down other _ => exact other listens
    · rw [if_neg listens]
      by_cases lost : ∃ entry ∈ t.peers, entry.2.socketFd = some fd
      · obtain ⟨entry, inside, holds⟩ := lost
        obtain ⟨known, held⟩ := represents.entry inside
        dsimp only
        rw [represents.keyed.told inside holds, Option.filter_some, decide_eq_true (represents.valid inside), if_pos rfl,
          Option.map_some, Option.toList_some]
        refine ⟨Nat.le_refl 1, fun call => ?_⟩
        rw [List.mem_singleton]
        constructor
        · rintro rfl
          rw [known]
          exact .down listens (held.trans holds)
        · intro told
          cases told with
          | down _ also =>
            obtain ⟨other, there, rfl, alsoHolds⟩ := represents.holder.mpr also
            rw [← (represents.entry there).1, represents.keyed.own other there entry inside fd alsoHolds holds]
      · have none : t.peers.filter (fun entry => entry.2.socketFd = some fd && entry.2.upNotified) = [] := by
          refine List.filter_eq_nil_iff.mpr (fun entry inside matching => lost ⟨entry, inside, ?_⟩)
          simpa using (Bool.and_eq_true_iff.mp matching).1
        dsimp only
        rw [none]
        refine silent rfl (fun call told => ?_)
        cases told with
        | down _ held =>
          obtain ⟨entry, inside, _, holds⟩ := represents.holder.mpr held
          exact lost ⟨entry, inside, holds⟩
  | onBytesReceived fd data =>
    rw [DsoftbusTransport.step, onBytesReceived]
    cases found : t.peers.find? (fun entry => entry.2.socketFd = some fd) with
    | none =>
      refine silent rfl (fun call told => ?_)
      cases told with
      | bytes held =>
        obtain ⟨entry, inside, _, holds⟩ := represents.holder.mpr held
        exact List.find?_eq_none.mp found entry inside (decide_eq_true holds)
    | some entry =>
      have inside := List.mem_of_find?_eq_some found
      have holds : entry.2.socketFd = some fd := by simpa using List.find?_some found
      obtain ⟨known, held⟩ := represents.entry inside
      dsimp only
      rw [if_pos (represents.valid inside)]
      refine ⟨Nat.le_refl 1, fun call => ?_⟩
      rw [List.mem_singleton]
      constructor
      · rintro rfl
        rw [known]
        exact .bytes (held.trans holds)
      · intro told
        cases told with
        | bytes also =>
          obtain ⟨other, there, rfl, alsoHolds⟩ := represents.holder.mpr also
          rw [← (represents.entry there).1, represents.keyed.own other there entry inside fd alsoHolds holds]

theorem exec_represents (listenFd : Option Fd) {events : List BusEvent}
    (admitted : Run.Along (fun t event => (step t event).transport) Admits { listenFd := listenFd } events) :
    let t := Run.exec (fun t event => (step t event).transport) { listenFd := listenFd } events
    t.Represents (Run.exec (Neighbours.step listenFd) {} events) ∧ t.listenFd = listenFd := by
  induction events using List.reverseRecOn with
  | nil =>
    have keyed : Keyed { listenFd := listenFd } := by
      refine ⟨List.nodup_nil, rfl, Nat.two_pow_pos 56, ?_, ?_, ?_, ?_⟩
      all_goals exact fun entry member => absurd member List.not_mem_nil
    exact ⟨⟨keyed, fun networkId => rfl, rfl, fun networkId => rfl⟩, rfl⟩
  | append_singleton events event ih =>
    obtain ⟨before, admits⟩ := (Run.along_snoc _).mp admitted
    obtain ⟨represents, listening⟩ := ih before
    rw [Run.exec_snoc, Run.exec_snoc]
    obtain ⟨next, still⟩ := represents.step admits
    rw [listening] at next still
    exact ⟨next, still⟩

/-- The backend is what its neighbours are, after every run: a device keeps
the id under which it was first seen, no other device has this id, and no two
are on one channel. Its listener is told just when the first channel of a device
opens, when it closes, and what comes through it in between. -/
theorem refines_neighbours (listenFd : Option Fd) {events : List BusEvent}
    (admitted : Run.Along (fun t event => (step t event).transport) Admits { listenFd := listenFd } events) :
    let t := Run.exec (fun t event => (step t event).transport) { listenFd := listenFd } events
    let n := Run.exec (Neighbours.step listenFd) {} events
    (∀ networkId, t.knownAs networkId = if networkId ∈ n.seen then some (n.name networkId) else none) ∧
    (∀ networkId, t.channelTo networkId = n.channel networkId) ∧
    (∀ first rest, events = first ++ rest → ∀ networkId ∈ (Run.exec (Neighbours.step listenFd) {} first).seen,
      n.name networkId = (Run.exec (Neighbours.step listenFd) {} first).name networkId) ∧
    (∀ a ∈ n.seen, ∀ b ∈ n.seen, n.name a = n.name b → a = b) ∧
    (∀ a b fd, n.channel a = some fd → n.channel b = some fd → a = b) ∧
    ∀ event, t.Admits event → (t.step event).calls.length ≤ 1 ∧
      ∀ call, call ∈ (t.step event).calls ↔ n.Tells listenFd event call := by
  intro t n
  obtain ⟨represents, listening⟩ := exec_represents listenFd admitted
  refine ⟨represents.names, represents.channel, fun first rest split networkId known => ?_, fun a knownA b knownB same => ?_,
    fun a b fd held also => ?_, fun event admits => ?_⟩
  · have later := Neighbours.name_exec listenFd known rest
    rw [← Run.exec_append, ← split] at later
    exact later.2
  · have listed {networkId : NetworkId} (known : networkId ∈ n.seen) : ∃ entry ∈ t.peers, entry.1 = networkId := by
      obtain ⟨st, found⟩ := Option.isSome_iff_exists.mp (represents.lookup_isSome.mpr known)
      exact ⟨_, KeyedList.mem_of_lookup found, rfl⟩
    obtain ⟨entry, inside, rfl⟩ := listed knownA
    obtain ⟨other, there, rfl⟩ := listed knownB
    rw [← (represents.entry inside).1, ← (represents.entry there).1] at same
    rw [represents.keyed.single entry inside other there same]
  · obtain ⟨entry, inside, rfl, holds⟩ := represents.holder.mpr held
    obtain ⟨other, there, rfl, alsoHolds⟩ := represents.holder.mpr also
    rw [represents.keyed.own entry inside other there fd holds alsoHolds]
  · have told := represents.tells admits
    rw [listening] at told
    exact told

/-- The second device seen opens a channel, has another one turned away, and
comes back on it. -/
theorem refines_neighbours_second :
    let events : List BusEvent := [.connectOnlinePeers [⟨[1]⟩], .onBind 7 ⟨[2]⟩ 0, .onBind 8 ⟨[2]⟩ 0, .onBind 9 ⟨[1]⟩ 0,
      .onShutdown 7, .onBind 8 ⟨[2]⟩ 0]
    let t := Run.exec (fun t event => (step t event).transport) { listenFd := some 3 } events
    t.channelTo ⟨[2]⟩ = some 8 ∧ ∀ data, .bytes 2 data ∈ (t.step (.onBytesReceived 8 data)).calls := by
  intro events t
  have admitted : Run.Along (fun t event => (step t event).transport) Admits { listenFd := some 3 } events := by
    decide +kernel
  obtain ⟨_, channel, _, _, _, tells⟩ := refines_neighbours (some 3) admitted
  have held : (Run.exec (Neighbours.step (some 3)) {} events).channel ⟨[2]⟩ = some 8 := by decide +kernel
  have named : (Run.exec (Neighbours.step (some 3)) {} events).name ⟨[2]⟩ = 2 := by decide +kernel
  refine ⟨(channel ⟨[2]⟩).trans held, fun data => ?_⟩
  have told : Neighbours.Tells (some 3) _ (.onBytesReceived 8 data) _ := .bytes held
  rw [named] at told
  exact ((tells (.onBytesReceived 8 data) trivial).2 _).mpr told

end DsoftbusTransport

end Mdds
