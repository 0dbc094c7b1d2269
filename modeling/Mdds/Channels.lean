import Mdds.Dsoftbus

namespace Mdds

inductive Side
  | left
  | right
  deriving DecidableEq

def Side.other : Side → Side
  | left => right
  | right => left

/-- An established channel: the descriptor each device knows it by. -/
structure Channel where
  left : Fd
  right : Fd
  deriving DecidableEq

def Channel.fd (c : Channel) : Side → Fd
  | .left => c.left
  | .right => c.right

/-- The channel with these descriptors at this side and at the other. -/
def Channel.between : Side → Fd → Fd → Channel
  | .left, near, far => ⟨near, far⟩
  | .right, near, far => ⟨far, near⟩

/-- A callback that DSoftBus has raised. -/
inductive Callback
  | bound (fd : Fd)
  | shutdown (fd : Fd)
  | error (fd : Fd)
  deriving DecidableEq

/-- The name of a device, which LNN never leaves empty. -/
structure DeviceName extends NetworkId where
  named : bytes ≠ []

/-- One device. `toBind` and `socket` belong to the poll thread, which stands
between `Socket` and `BindAsync` while `socket` is set; `binding` are the
sockets DSoftBus is still binding, `pending` the raised callbacks that wait to
be processed. `dropped` and `gone` only record: the sockets shut as duplicates
and those whose `OnShutdown` was processed. -/
structure Device where
  transport : DsoftbusTransport := { listenFd := some 0 }
  toBind : List NetworkId := []
  socket : Option (NetworkId × Fd) := none
  binding : List Fd := []
  pending : List Callback := []
  nextFd : Fd := 1
  dropped : List Fd := []
  gone : List Fd := []

/-- What happens at one device; `opened` and `accepted` are what `Socket` and
`BindAsync` return. -/
inductive DeviceEvent
  | poll
  | bindPeer (opened : Bool)
  | bindAsync (accepted : Bool)
  | bindError (index : Nat)
  | callback (index : Nat) (limit : Nat)

/-- The callback as the transport processes it. -/
def Callback.run (peer : NetworkId) (limit : Nat) (t : DsoftbusTransport) : Callback → BusOutcome
  | bound fd => t.onBind fd peer limit
  | shutdown fd => t.onShutdown fd
  | error fd => t.onError fd

namespace Device
variable (d : Device) (peer : NetworkId)

/-- A step of one device that sees the other under this name, and the sockets
it gave to `Shutdown`. -/
def step : DeviceEvent → Device × List Fd
  | .poll =>
    if d.transport.running ∧ d.toBind = [] ∧ d.socket = none then
      let found := d.transport.connectOnlinePeers [peer]
      ({ d with transport := found.1, toBind := found.2 }, [])
    else (d, [])
  | .bindPeer opened =>
    match d.toBind, d.socket with
    | networkId :: rest, none =>
      if opened then
        let outcome := d.transport.bindPeer networkId d.nextFd
        ({ d with
          transport := outcome.transport
          toBind := rest
          socket := if outcome.shutdowns = [] then some (networkId, d.nextFd) else none
          nextFd := d.nextFd + 1 }, outcome.shutdowns)
      else ({ d with toBind := rest }, [])
    | _, _ => (d, [])
  | .bindAsync accepted =>
    match d.socket with
    | none => (d, [])
    | some (networkId, fd) =>
      if accepted then ({ d with socket := none, binding := d.binding ++ [fd] }, [])
      else
        let outcome := d.transport.bindFailed networkId fd
        ({ d with transport := outcome.transport, socket := none }, outcome.shutdowns)
  | .bindError index =>
    match d.binding[index]? with
    | none => (d, [])
    | some fd => ({ d with binding := d.binding.eraseIdx index, pending := d.pending ++ [.error fd] }, [])
  | .callback index limit =>
    match d.pending[index]? with
    | none => (d, [])
    | some callback =>
      let outcome := callback.run peer limit d.transport
      ({ d with
        transport := outcome.transport
        pending := d.pending.eraseIdx index
        dropped := match callback with
          | .bound _ => d.dropped ++ outcome.shutdowns
          | _ => d.dropped
        gone := match callback with
          | .shutdown fd => d.gone ++ [fd]
          | _ => d.gone }, outcome.shutdowns)

end Device

/-- Two devices and the channels DSoftBus has established between them. -/
structure Pair where
  ends : Side → Device := fun _ => {}
  channels : List Channel := []

/-- `establish` completes a bind, `linkLost` takes a channel away from both
devices, and `listenLost` closes a listening socket. -/
inductive PairEvent
  | device (side : Side) (event : DeviceEvent)
  | establish (side : Side) (index : Nat)
  | linkLost (index : Nat)
  | listenLost (side : Side)

namespace Pair
variable (name : Side → DeviceName) (s : Pair)

/-- `Shutdown` at one end raises `OnShutdown` at the other end of the channel. -/
def raised (side : Side) (shut : List Fd) : List Callback :=
  (s.channels.filter (fun c => c.fd side ∈ shut)).map (fun c => .shutdown (c.fd side.other))

/-- DSoftBus establishes the channel of a socket: the other device gets a new
descriptor for it, and both an `OnBind`. -/
def bindOn (side : Side) (index : Nat) (fd : Fd) : Pair where
  channels := s.channels ++ [.between side fd (s.ends side.other).nextFd]
  ends := fun x =>
    if x = side then
      { s.ends x with
        binding := (s.ends x).binding.eraseIdx index
        pending := (s.ends x).pending ++ [.bound fd] }
    else
      { s.ends x with
        nextFd := (s.ends side.other).nextFd + 1
        pending := (s.ends x).pending ++ [.bound (s.ends side.other).nextFd] }

def step : PairEvent → Pair
  | .device side event =>
    let result := (s.ends side).step (name side.other).toNetworkId event
    { s with
      ends := fun x =>
        if x = side then result.1 else { s.ends x with pending := (s.ends x).pending ++ s.raised side result.2 } }
  | .establish side index =>
    match (s.ends side).binding[index]? with
    | none => s
    | some fd => s.bindOn side index fd
  | .linkLost index =>
    match s.channels[index]? with
    | none => s
    | some c =>
      { s with ends := fun x => { s.ends x with pending := (s.ends x).pending ++ [.shutdown (c.fd x)] } }
  | .listenLost side =>
    { s with
      ends := fun x =>
        if x = side then
          { s.ends x with pending := (s.ends x).pending ++ (s.ends x).transport.listenFd.toList.map .shutdown }
        else s.ends x }

end Pair

/-- The channel to a device. -/
def DsoftbusTransport.channelTo (t : DsoftbusTransport) (networkId : NetworkId) : Option Fd :=
  (t.peers.lookup networkId).bind PeerState.socketFd

namespace Pair
variable (name : Side → DeviceName) (s : Pair)

/-- The channel that a device keeps for the other one. -/
def held (side : Side) : Option Fd := (s.ends side).transport.channelTo (name side.other).toNetworkId

/-- One end keeps a channel that the other end has shut as a duplicate. -/
def Split : Prop :=
  ∃ side, ∃ c ∈ s.channels, s.held name side = some (c.fd side) ∧ c.fd side.other ∈ (s.ends side.other).dropped

/-- With no callback pending, two kept channels are the same one. -/
def Joined : Prop :=
  (∀ side, (s.ends side).pending = []) → ∀ left right, s.held name .left = some left → s.held name .right = some right →
    ∃ c ∈ s.channels, c.left = left ∧ c.right = right

/-- An `OnBind` finds its end without a channel only if the other end has not
shut this channel as a duplicate, and with another channel only if the other
end does not keep this one. -/
def KeepsTogether (s : Pair) : PairEvent → Prop
  | .device side (.callback index _) =>
    ∀ c ∈ s.channels, (s.ends side).pending[index]? = some (.bound (c.fd side)) →
      (s.held name side = none → c.fd side.other ∉ (s.ends side.other).dropped) ∧
        (s.held name side ≠ none → s.held name side.other ≠ some (c.fd side.other))
  | _ => True

/-- No channel is kept whose `OnShutdown` was processed before. -/
def KeepsLive (s : Pair) : PairEvent → Prop
  | .device side (.callback index _) =>
    ∀ c ∈ s.channels, (s.ends side).pending[index]? = some (.bound (c.fd side)) →
      s.held name side = none → c.fd side ∉ (s.ends side).gone
  | _ => True

def Converging (s : Pair) (event : PairEvent) : Prop := s.KeepsTogether name event ∧ s.KeepsLive name event

instance (event : PairEvent) : Decidable (s.KeepsTogether name event) :=
  match event with
  | .device side (.callback index _) => inferInstanceAs (Decidable (∀ c ∈ s.channels,
      (s.ends side).pending[index]? = some (.bound (c.fd side)) →
        (s.held name side = none → c.fd side.other ∉ (s.ends side.other).dropped) ∧
          (s.held name side ≠ none → s.held name side.other ≠ some (c.fd side.other))))
  | .device _ .poll | .device _ (.bindPeer _) | .device _ (.bindAsync _) | .device _ (.bindError _) => isTrue trivial
  | .establish .. | .linkLost _ | .listenLost _ => isTrue trivial

instance (event : PairEvent) : Decidable (s.KeepsLive name event) :=
  match event with
  | .device side (.callback index _) => inferInstanceAs (Decidable (∀ c ∈ s.channels,
      (s.ends side).pending[index]? = some (.bound (c.fd side)) →
        s.held name side = none → c.fd side ∉ (s.ends side).gone))
  | .device _ .poll | .device _ (.bindPeer _) | .device _ (.bindAsync _) | .device _ (.bindError _) => isTrue trivial
  | .establish .. | .linkLost _ | .listenLost _ => isTrue trivial

instance (event : PairEvent) : Decidable (s.Converging name event) :=
  inferInstanceAs (Decidable (s.KeepsTogether name event ∧ s.KeepsLive name event))

end Pair

namespace DsoftbusTransport
variable {t : DsoftbusTransport} {peer networkId : NetworkId} {fd : Fd}

@[simp] theorem channelTo_enter : (t.enter networkId).channelTo peer = t.channelTo peer := by
  unfold enter channelTo
  cases known : t.peers.lookup networkId with
  | some st => rfl
  | none =>
    by_cases here : peer = networkId
    · dsimp only
      rw [here, known, KeyedList.lookup_emplace_self known]
      rfl
    · dsimp only
      rw [KeyedList.lookup_emplace_other here]

@[simp] theorem listenFd_enter : (t.enter networkId).listenFd = t.listenFd := by
  unfold enter
  split <;> rfl

theorem channelTo_update {f : PeerState → PeerState} (same : ∀ st, (f st).socketFd = st.socketFd) :
    (t.update networkId f).channelTo peer = t.channelTo peer := by
  unfold update channelTo
  dsimp only
  rw [KeyedList.lookup_modify]
  split
  · cases t.peers.lookup peer with
    | none => rfl
    | some st => exact same st
  · rfl

theorem connectOnlinePeers_same (nodes : List NetworkId) :
    (t.connectOnlinePeers nodes).1.channelTo peer = t.channelTo peer ∧
      (t.connectOnlinePeers nodes).1.listenFd = t.listenFd := by
  suffices loop : ∀ (t : DsoftbusTransport) (found : List NetworkId),
      (nodes.foldl poll (t, found)).1.channelTo peer = t.channelTo peer ∧
        (nodes.foldl poll (t, found)).1.listenFd = t.listenFd from loop t []
  induction nodes with
  | nil => exact fun _ _ => ⟨rfl, rfl⟩
  | cons networkId rest ih =>
    intro t found
    have later := ih (t.enter networkId) (poll (t, found) networkId).2
    rw [channelTo_enter, listenFd_enter] at later
    exact later

theorem bindPeer_same : (t.bindPeer networkId fd).transport.channelTo peer = t.channelTo peer ∧
    (t.bindPeer networkId fd).transport.listenFd = t.listenFd ∧ ∀ shut ∈ (t.bindPeer networkId fd).shutdowns, shut = fd := by
  unfold bindPeer
  split
  · exact ⟨rfl, rfl, fun shut member => List.mem_singleton.mp member⟩
  · exact ⟨channelTo_update (fun _ => rfl), rfl, fun _ member => absurd member List.not_mem_nil⟩

theorem bindFailed_same : (t.bindFailed networkId fd).transport.channelTo peer = t.channelTo peer ∧
    (t.bindFailed networkId fd).transport.listenFd = t.listenFd :=
  ⟨channelTo_update (fun st => st.bound_socketFd fd), rfl⟩

theorem onError_same : (t.onError fd).transport.channelTo peer = t.channelTo peer ∧
    (t.onError fd).transport.listenFd = t.listenFd ∧ ∀ shut ∈ (t.onError fd).shutdowns, shut = fd := by
  unfold onError
  split
  · exact ⟨rfl, rfl, fun _ member => absurd member List.not_mem_nil⟩
  · exact ⟨channelTo_update (fun _ => rfl), rfl, fun shut member => List.mem_singleton.mp member⟩

/-- The first channel is kept, another one is shut. -/
theorem onBind_keeps (named : peer.bytes ≠ []) (limit : Nat) :
    (t.onBind fd peer limit).transport.listenFd = t.listenFd ∧
      ((t.channelTo peer = none ∧ (t.onBind fd peer limit).transport.channelTo peer = some fd ∧
          (t.onBind fd peer limit).shutdowns = []) ∨
        ∃ kept, t.channelTo peer = some kept ∧ (t.onBind fd peer limit).transport.channelTo peer = some kept ∧
          (t.onBind fd peer limit).shutdowns = if kept ≠ fd then [fd] else []) := by
  have entered := @channelTo_enter t peer peer
  obtain ⟨st, known⟩ : ∃ st, (t.enter peer).peers.lookup peer = some st := by
    unfold enter
    cases known : t.peers.lookup peer with
    | some st => exact ⟨st, known⟩
    | none => exact ⟨_, KeyedList.lookup_emplace_self known⟩
  have now : t.channelTo peer = st.socketFd := by
    rw [← entered, channelTo, known]
    rfl
  rw [now]
  unfold onBind
  rw [if_neg named, known]
  dsimp only
  cases channel : st.socketFd with
  | none =>
    refine ⟨listenFd_enter, Or.inl ⟨rfl, ?_, rfl⟩⟩
    unfold channelTo update
    dsimp only
    rw [KeyedList.lookup_modify, if_pos rfl, known]
    rfl
  | some kept =>
    refine ⟨listenFd_enter, Or.inr ⟨kept, rfl, ?_, rfl⟩⟩
    rw [channelTo_update (fun st => st.bound_socketFd fd), entered, now, channel]

/-- The channel is given up if it is the one that was shut. -/
theorem onShutdown_clears (other : t.listenFd ≠ some fd) :
    (t.onShutdown fd).transport.channelTo peer = (if t.channelTo peer = some fd then none else t.channelTo peer) ∧
      (t.onShutdown fd).transport.listenFd = t.listenFd ∧ (t.onShutdown fd).shutdowns = [] := by
  unfold onShutdown
  rw [if_neg other]
  refine ⟨?_, rfl, rfl⟩
  unfold channelTo
  dsimp only
  rw [KeyedList.lookup_map]
  cases t.peers.lookup peer with
  | none => rfl
  | some st => exact st.shutdown_socketFd fd

end DsoftbusTransport

def Callback.boundFd : Callback → Option Fd
  | bound fd => some fd
  | _ => none

def Callback.shutdownFd : Callback → Option Fd
  | shutdown fd => some fd
  | _ => none

def Callback.errorFd : Callback → Option Fd
  | error fd => some fd
  | _ => none

namespace Device

def bounds (d : Device) : List Fd := d.pending.filterMap Callback.boundFd
def downs (d : Device) : List Fd := d.pending.filterMap Callback.shutdownFd
def errors (d : Device) : List Fd := d.pending.filterMap Callback.errorFd

/-- The sockets of a device that belong to no channel. -/
def sockets (d : Device) : List Fd := (d.socket.map Prod.snd).toList ++ (d.binding ++ d.errors)

/-- Nothing about the channels has changed. -/
structure Still (peer : NetworkId) (d next : Device) : Prop where
  held : next.transport.channelTo peer = d.transport.channelTo peer
  bounds : next.bounds = d.bounds
  downs : next.downs = d.downs
  dropped : next.dropped = d.dropped
  gone : next.gone = d.gone

/-- What a device does about its channels: nothing, it answers an `OnBind`, or
it processes an `OnShutdown`. -/
inductive Moves (peer : NetworkId) (d : Device) : DeviceEvent → Device → List Fd → Prop
  | still {event : DeviceEvent} {next : Device} {shut : List Fd} (same : Still peer d next)
      (other : ∀ index limit fd, event = .callback index limit → d.pending[index]? ≠ some (.bound fd))
      (own : ∀ fd ∈ shut, fd ∈ d.sockets ∨ fd = d.nextFd) : Moves peer d event next shut
  | bound {index limit : Nat} {fd : Fd} {next : Device} {shut before after : List Fd}
      (found : d.pending[index]? = some (.bound fd)) (waiting : d.bounds = before ++ fd :: after)
      (rest : next.bounds = before ++ after) (downs : next.downs = d.downs) (gone : next.gone = d.gone)
      (dropped : next.dropped = d.dropped ++ shut)
      (kept : (d.transport.channelTo peer = none ∧ next.transport.channelTo peer = some fd ∧ shut = []) ∨
        ∃ kept, d.transport.channelTo peer = some kept ∧ next.transport.channelTo peer = some kept ∧
          shut = if kept ≠ fd then [fd] else []) : Moves peer d (.callback index limit) next shut
  | shutdown {index limit : Nat} {fd : Fd} {next : Device} {before after : List Fd}
      (found : d.pending[index]? = some (.shutdown fd)) (waiting : d.downs = before ++ fd :: after)
      (rest : next.downs = before ++ after) (bounds : next.bounds = d.bounds) (dropped : next.dropped = d.dropped)
      (gone : next.gone = d.gone ++ [fd])
      (held : d.transport.listenFd = some fd ∧ next.transport.channelTo peer = d.transport.channelTo peer ∨
        next.transport.channelTo peer =
          if d.transport.channelTo peer = some fd then none else d.transport.channelTo peer) :
      Moves peer d (.callback index limit) next []

variable {d : Device} {peer : NetworkId}

/-- One step of a device makes one of these moves. -/
theorem step_moves (named : peer.bytes ≠ []) (event : DeviceEvent) :
    Moves peer d event (d.step peer event).1 (d.step peer event).2 := by
  have nothing : ∀ fd ∈ ([] : List Fd), fd ∈ d.sockets ∨ fd = d.nextFd := fun _ member => absurd member List.not_mem_nil
  have idle : Still peer d d := ⟨rfl, rfl, rfl, rfl, rfl⟩
  cases event with
  | poll =>
    have other : ∀ index limit fd, DeviceEvent.poll = .callback index limit → d.pending[index]? ≠ some (.bound fd) :=
      fun _ _ _ same => by cases same
    simp only [step]
    split
    · exact .still ⟨(DsoftbusTransport.connectOnlinePeers_same _).1, rfl, rfl, rfl, rfl⟩ other nothing
    · exact .still idle other nothing
  | bindPeer opened =>
    have other : ∀ index limit fd, DeviceEvent.bindPeer opened = .callback index limit →
        d.pending[index]? ≠ some (.bound fd) := fun _ _ _ same => by cases same
    simp only [step]
    split
    · split
      · obtain ⟨held, _, own⟩ := @DsoftbusTransport.bindPeer_same d.transport peer ‹NetworkId› d.nextFd
        exact .still ⟨held, rfl, rfl, rfl, rfl⟩ other (fun fd member => Or.inr (own fd member))
      · exact .still ⟨rfl, rfl, rfl, rfl, rfl⟩ other nothing
    · exact .still idle other nothing
  | bindAsync accepted =>
    have other : ∀ index limit fd, DeviceEvent.bindAsync accepted = .callback index limit →
        d.pending[index]? ≠ some (.bound fd) := fun _ _ _ same => by cases same
    simp only [step]
    split
    · exact .still idle other nothing
    · rename_i networkId fd bound
      split
      · exact .still ⟨rfl, rfl, rfl, rfl, rfl⟩ other nothing
      · refine .still ⟨DsoftbusTransport.bindFailed_same.1, rfl, rfl, rfl, rfl⟩ other (fun shut member => Or.inl ?_)
        rw [List.mem_singleton.mp member, sockets, bound]
        exact List.mem_append_left _ List.mem_cons_self
  | bindError index =>
    have other : ∀ i limit fd, DeviceEvent.bindError index = .callback i limit → d.pending[i]? ≠ some (.bound fd) :=
      fun _ _ _ same => by cases same
    simp only [step]
    split
    · exact .still idle other nothing
    · refine .still ⟨rfl, ?_, ?_, rfl, rfl⟩ other nothing
      · simp [bounds, Callback.boundFd]
      · simp [downs, Callback.shutdownFd]
  | callback index limit =>
    simp only [step]
    split
    · rename_i absent
      refine .still idle (fun i _ fd same found => ?_) nothing
      cases same
      rw [absent] at found
      cases found
    · rename_i callback found
      obtain ⟨before, after, split, erased⟩ := Notices.eraseIdx_split found
      cases callback with
      | bound fd =>
        obtain ⟨_, kept⟩ := @DsoftbusTransport.onBind_keeps d.transport peer fd named limit
        have waiting : d.bounds = before.filterMap Callback.boundFd ++ fd :: after.filterMap Callback.boundFd := by
          simp [bounds, split, Callback.boundFd]
        refine .bound found waiting ?_ ?_ rfl rfl kept
        · simp [bounds, erased]
        · simp only [downs, erased]
          simp [split, List.filterMap_cons, Callback.shutdownFd]
      | shutdown fd =>
        have outcome : (d.transport.onShutdown fd).shutdowns = [] ∧ (d.transport.listenFd = some fd ∧
            (d.transport.onShutdown fd).transport.channelTo peer = d.transport.channelTo peer ∨
          (d.transport.onShutdown fd).transport.channelTo peer =
            if d.transport.channelTo peer = some fd then none else d.transport.channelTo peer) := by
          by_cases listening : d.transport.listenFd = some fd
          · rw [DsoftbusTransport.onShutdown, if_pos listening]
            exact ⟨rfl, Or.inl ⟨listening, rfl⟩⟩
          · obtain ⟨held, _, none⟩ := @DsoftbusTransport.onShutdown_clears d.transport peer fd listening
            exact ⟨none, Or.inr held⟩
        simp only [Callback.run, outcome.1]
        have waiting : d.downs = before.filterMap Callback.shutdownFd ++ fd :: after.filterMap Callback.shutdownFd := by
          simp [downs, split, Callback.shutdownFd]
        refine .shutdown found waiting ?_ ?_ rfl rfl outcome.2
        · simp [downs, erased]
        · simp only [bounds, erased]
          simp [split, List.filterMap_cons, Callback.boundFd]
      | error fd =>
        obtain ⟨held, _, own⟩ := @DsoftbusTransport.onError_same d.transport peer fd
        refine .still ⟨held, ?_, ?_, rfl, rfl⟩ (fun i _ other same again => ?_) (fun shut member => Or.inl ?_)
        · simp only [bounds, erased]
          simp [split, List.filterMap_cons, Callback.boundFd]
        · simp only [downs, erased]
          simp [split, List.filterMap_cons, Callback.shutdownFd]
        · cases same
          rw [found] at again
          cases again
        · rw [own shut member, sockets]
          refine List.mem_append_right _ (List.mem_append_right _ ?_)
          exact List.mem_filterMap.mpr ⟨.error fd, split ▸ List.mem_append_right _ List.mem_cons_self, rfl⟩

/-- A step of a device opens at most one socket, the next one, and every other
socket only moves on. -/
theorem step_sockets (event : DeviceEvent) (named : peer.bytes ≠ []) :
    (d.step peer event).1.transport.listenFd = d.transport.listenFd ∧ d.nextFd ≤ (d.step peer event).1.nextFd ∧
      ∀ fd, (d.step peer event).1.sockets.count fd ≤ d.sockets.count fd ∨
        (fd = d.nextFd ∧ d.nextFd < (d.step peer event).1.nextFd ∧
          (d.step peer event).1.sockets.count fd ≤ d.sockets.count fd + 1) := by
  have idle : d.transport.listenFd = d.transport.listenFd ∧ d.nextFd ≤ d.nextFd ∧
      ∀ fd, d.sockets.count fd ≤ d.sockets.count fd ∨
        (fd = d.nextFd ∧ d.nextFd < d.nextFd ∧ d.sockets.count fd ≤ d.sockets.count fd + 1) :=
    ⟨rfl, Nat.le_refl _, fun _ => Or.inl (Nat.le_refl _)⟩
  cases event with
  | poll =>
    simp only [step]
    split
    · exact ⟨(@DsoftbusTransport.connectOnlinePeers_same _ peer _).2, idle.2⟩
    · exact idle
  | bindPeer opened =>
    simp only [step]
    split
    · rename_i networkId rest _ free
      split
      · refine ⟨(@DsoftbusTransport.bindPeer_same d.transport peer networkId d.nextFd).2.1, Nat.le_succ _, fun fd => ?_⟩
        simp only [sockets, free, errors, Option.map_none, Option.toList_none, List.nil_append, List.count_append]
        split
        · simp only [Option.map_some, Option.toList_some, List.count_singleton, beq_iff_eq]
          by_cases here : fd = d.nextFd
          · rw [if_pos here.symm]
            exact Or.inr ⟨here, Nat.lt_succ_self _, by omega⟩
          · left
            rw [if_neg (Ne.symm here)]
            omega
        · simp only [Option.map_none, Option.toList_none, List.count_nil]
          omega
      · exact idle
    · exact idle
  | bindAsync accepted =>
    simp only [step]
    split
    · exact idle
    · rename_i networkId fd bound
      split
      · refine ⟨rfl, Nat.le_refl _, fun other => Or.inl ?_⟩
        simp only [sockets, bound, errors, Option.map_some, Option.map_none, Option.toList_some, Option.toList_none,
          List.count_append, List.nil_append]
        omega
      · refine ⟨rfl, Nat.le_refl _, fun other => Or.inl ?_⟩
        simp only [sockets, bound, errors, Option.map_some, Option.map_none, Option.toList_some, Option.toList_none,
          List.count_append, List.nil_append]
        omega
  | bindError index =>
    simp only [step]
    split
    · exact idle
    · rename_i fd found
      obtain ⟨before, after, split, erased⟩ := Notices.eraseIdx_split found
      refine ⟨rfl, Nat.le_refl _, fun other => Or.inl ?_⟩
      simp only [sockets, errors, erased]
      simp only [split, List.filterMap_append, List.filterMap_cons, Callback.errorFd, List.filterMap_nil,
        List.count_append, List.count_cons, List.count_nil]
      omega
  | callback index limit =>
    simp only [step]
    split
    · exact idle
    · rename_i callback found
      obtain ⟨before, after, split, erased⟩ := Notices.eraseIdx_split found
      refine ⟨?_, Nat.le_refl _, fun other => Or.inl ?_⟩
      · cases callback with
        | bound fd => exact (DsoftbusTransport.onBind_keeps named limit).1
        | shutdown fd =>
          by_cases listening : d.transport.listenFd = some fd
          · simp only [Callback.run, DsoftbusTransport.onShutdown, listening, if_true]
          · exact (@DsoftbusTransport.onShutdown_clears d.transport peer fd listening).2.1
        | error fd => exact (@DsoftbusTransport.onError_same d.transport peer fd).2.1
      · simp only [sockets, errors, erased]
        simp only [split, List.filterMap_append, List.count_append]
        have fewer := ((List.sublist_cons_self callback after).filterMap Callback.errorFd).count_le other
        omega

end Device

/-- What one device knows of its channels: the one it keeps, those whose
`OnBind` or `OnShutdown` waits, and those it shut or heard to be gone. -/
structure View where
  held : Option Fd
  bounds : List Fd
  downs : List Fd
  dropped : List Fd
  gone : List Fd

/-- The device was told that the channel is over, or shut it itself. -/
def View.Over (v : View) (fd : Fd) : Prop := fd ∈ v.dropped ∨ fd ∈ v.downs ∨ fd ∈ v.gone

/-- One device and its channels, seen with the other device: `OnBind` comes
once for each channel, leads to the channel being kept or shut, and
`OnShutdown` has a reason at the other end. -/
structure Told (channels : List Channel) (side : Side) (near far : View) : Prop where
  held : ∀ fd, near.held = some fd → ∃ c ∈ channels, c.fd side = fd
  bound : ∀ fd ∈ near.bounds, ∃ c ∈ channels, c.fd side = fd
  dropped : ∀ fd ∈ near.dropped, ∃ c ∈ channels, c.fd side = fd
  raised : ∀ fd, fd ∈ near.downs ∨ fd ∈ near.gone → fd = 0 ∨ ∃ c ∈ channels, c.fd side = fd
  once : near.bounds.Nodup
  fresh : ∀ fd ∈ near.bounds, near.held ≠ some fd ∧ fd ∉ near.dropped
  apart : ∀ fd, near.held = some fd → fd ∉ near.dropped
  settled : ∀ c ∈ channels, c.fd side ∈ near.bounds ∨ c.fd side ∈ near.dropped ∨ near.held = some (c.fd side) ∨
    c.fd side ∈ near.gone
  reason : ∀ c ∈ channels, c.fd side ∈ near.downs ∨ c.fd side ∈ near.gone → far.Over (c.fd side.other)

namespace Told
variable {channels : List Channel} {side : Side} {near far : View} {fd : Fd} {before after : List Fd}

/-- The other device may learn that more is over. -/
theorem toward {later : View} (told : Told channels side near far) (more : ∀ fd, far.Over fd → later.Over fd) :
    Told channels side near later :=
  { told with reason := fun c member past => more _ (told.reason c member past) }

theorem mem_rest {list : List Fd} {other : Fd} (waiting : list = before ++ fd :: after) :
    other ∈ list ↔ other = fd ∨ other ∈ before ++ after := by
  rw [waiting, List.mem_append, List.mem_cons, List.mem_append, or_left_comm]

theorem waits_once (told : Told channels side near far) (waiting : near.bounds = before ++ fd :: after) :
    fd ∉ before ++ after ∧ (before ++ after).Nodup := by
  have once := told.once
  rwa [waiting, List.nodup_middle, List.nodup_cons] at once

/-- The first channel is kept. -/
theorem keep (told : Told channels side near far) (waiting : near.bounds = before ++ fd :: after)
    (free : near.held = none) : Told channels side { near with bounds := before ++ after, held := some fd } far := by
  have here : fd ∈ near.bounds := (mem_rest waiting).mpr (Or.inl rfl)
  obtain ⟨single, once⟩ := told.waits_once waiting
  refine { told with
    held := ?_
    bound := fun other member => told.bound other ((mem_rest waiting).mpr (Or.inr member))
    once := once, fresh := ?_, apart := ?_, settled := ?_ }
  · rintro other same
    obtain rfl := Option.some.inj same
    exact told.bound fd here
  · intro other member
    refine ⟨fun same => ?_, (told.fresh other ((mem_rest waiting).mpr (Or.inr member))).2⟩
    obtain rfl := Option.some.inj same
    exact single member
  · intro other same
    obtain rfl := Option.some.inj same
    exact (told.fresh fd here).2
  · intro c member
    rcases told.settled c member with bound | dropped | held | gone
    · rcases (mem_rest waiting).mp bound with same | later
      · exact Or.inr (Or.inr (Or.inl (congrArg some same.symm)))
      · exact Or.inl later
    · exact Or.inr (Or.inl dropped)
    · rw [free] at held
      cases held
    · exact Or.inr (Or.inr (Or.inr gone))

/-- A further channel is shut. -/
theorem drop (told : Told channels side near far) (waiting : near.bounds = before ++ fd :: after) :
    Told channels side { near with bounds := before ++ after, dropped := near.dropped ++ [fd] } far := by
  have here : fd ∈ near.bounds := (mem_rest waiting).mpr (Or.inl rfl)
  obtain ⟨single, once⟩ := told.waits_once waiting
  refine { told with
    bound := fun other member => told.bound other ((mem_rest waiting).mpr (Or.inr member))
    dropped := ?_, once := once, fresh := ?_, apart := ?_, settled := ?_ }
  · intro other member
    rcases List.mem_append.mp member with before | new
    · exact told.dropped other before
    · exact List.mem_singleton.mp new ▸ told.bound fd here
  · intro other member
    obtain ⟨notHeld, notDropped⟩ := told.fresh other ((mem_rest waiting).mpr (Or.inr member))
    refine ⟨notHeld, fun inside => ?_⟩
    rcases List.mem_append.mp inside with before | new
    · exact notDropped before
    · exact single (List.mem_singleton.mp new ▸ member)
  · intro other held inside
    rcases List.mem_append.mp inside with before | new
    · exact told.apart other held before
    · exact (told.fresh fd here).1 (List.mem_singleton.mp new ▸ held)
  · intro c member
    rcases told.settled c member with bound | dropped | held | gone
    · rcases (mem_rest waiting).mp bound with same | later
      · exact Or.inr (Or.inl (List.mem_append_right _ (List.mem_singleton.mpr same)))
      · exact Or.inl later
    · exact Or.inr (Or.inl (List.mem_append_left _ dropped))
    · exact Or.inr (Or.inr (Or.inl held))
    · exact Or.inr (Or.inr (Or.inr gone))

/-- An `OnShutdown` is processed. -/
theorem shut (told : Told channels side near far) (waiting : near.downs = before ++ fd :: after) {held : Option Fd}
    (clears : held = if near.held = some fd then none else near.held) :
    Told channels side { near with held := held, downs := before ++ after, gone := near.gone ++ [fd] } far := by
  have kept {other : Fd} (same : held = some other) : near.held = some other := by
    rw [clears] at same
    split at same
    · cases same
    · exact same
  have heard {other : Fd} (past : other ∈ before ++ after ∨ other ∈ near.gone ++ [fd]) :
      other ∈ near.downs ∨ other ∈ near.gone := by
    rcases past with down | gone
    · exact Or.inl ((mem_rest waiting).mpr (Or.inr down))
    · rcases List.mem_append.mp gone with gone | new
      · exact Or.inr gone
      · exact Or.inl ((mem_rest waiting).mpr (Or.inl (List.mem_singleton.mp new)))
  refine { told with
    held := fun other same => told.held other (kept same)
    raised := fun other past => told.raised other (heard past)
    fresh := fun other member => ⟨fun same => (told.fresh other member).1 (kept same), (told.fresh other member).2⟩
    apart := fun other same => told.apart other (kept same)
    settled := ?_
    reason := fun c member past => told.reason c member (heard past) }
  intro c member
  rcases told.settled c member with bound | dropped | still | gone
  · exact Or.inl bound
  · exact Or.inr (Or.inl dropped)
  · by_cases same : c.fd side = fd
    · exact Or.inr (Or.inr (Or.inr (List.mem_append_right _ (List.mem_singleton.mpr same))))
    · refine Or.inr (Or.inr (Or.inl ?_))
      rw [clears, still, if_neg (fun equal => same (Option.some.inj equal))]
  · exact Or.inr (Or.inr (Or.inr (List.mem_append_left _ gone)))

/-- More of the `OnShutdown` are raised, each for a channel that is over. -/
theorem more (told : Told channels side near far) {extra : List Fd}
    (origin : ∀ fd ∈ extra, fd = 0 ∨ ∃ c ∈ channels, c.fd side = fd)
    (past : ∀ c ∈ channels, c.fd side ∈ extra → far.Over (c.fd side.other)) :
    Told channels side { near with downs := near.downs ++ extra } far := by
  refine { told with raised := fun fd member => ?_, reason := fun c member down => ?_ }
  · rcases member with down | gone
    · rcases List.mem_append.mp down with old | new
      · exact told.raised fd (Or.inl old)
      · exact origin fd new
    · exact told.raised fd (Or.inr gone)
  · rcases down with down | gone
    · rcases List.mem_append.mp down with old | new
      · exact told.reason c member (Or.inl old)
      · exact past c member new
    · exact told.reason c member (Or.inr gone)

/-- A new channel is told to the device. -/
theorem establish (told : Told channels side near far) {c : Channel} (new : ∀ d ∈ channels, d.fd side ≠ c.fd side)
    (valid : c.fd side ≠ 0) :
    Told (channels ++ [c]) side { near with bounds := near.bounds ++ [c.fd side] } far := by
  have old {fd : Fd} (known : ∃ d ∈ channels, d.fd side = fd) : ∃ d ∈ channels ++ [c], d.fd side = fd := by
    obtain ⟨d, member, same⟩ := known
    exact ⟨d, List.mem_append_left _ member, same⟩
  have unknown {fd : Fd} (known : ∃ d ∈ channels, d.fd side = fd) : fd ≠ c.fd side := by
    obtain ⟨d, member, rfl⟩ := known
    exact new d member
  have silent (past : c.fd side ∈ near.downs ∨ c.fd side ∈ near.gone) : False := by
    rcases told.raised (c.fd side) past with zero | known
    · exact valid zero
    · exact unknown known rfl
  refine ⟨fun fd same => old (told.held fd same), fun fd member => ?_, fun fd member => old (told.dropped fd member),
    fun fd past => (told.raised fd past).imp_right old, ?_, fun fd member => ?_, told.apart, fun d member => ?_,
    fun d member past => ?_⟩
  · rcases List.mem_append.mp member with before | last
    · exact old (told.bound fd before)
    · exact ⟨c, List.mem_append_right _ List.mem_cons_self, (List.mem_singleton.mp last).symm⟩
  · refine List.nodup_append.mpr ⟨told.once, List.nodup_singleton _, fun fd member other last same => ?_⟩
    exact unknown (told.bound fd member) (same.trans (List.mem_singleton.mp last))
  · rcases List.mem_append.mp member with before | last
    · exact told.fresh fd before
    · rw [List.mem_singleton.mp last]
      exact ⟨fun held => unknown (told.held _ held) rfl, fun dropped => unknown (told.dropped _ dropped) rfl⟩
  · rcases List.mem_append.mp member with before | last
    · exact (told.settled d before).imp_left (fun bound => List.mem_append_left _ bound)
    · exact Or.inl (List.mem_append_right _ (List.mem_singleton.mp last ▸ List.mem_singleton.mpr rfl))
  · rcases List.mem_append.mp member with before | last
    · exact told.reason d before past
    · exact (silent (List.mem_singleton.mp last ▸ past)).elim

end Told

def Device.view (d : Device) (peer : NetworkId) : View where
  held := d.transport.channelTo peer
  bounds := d.bounds
  downs := d.downs
  dropped := d.dropped
  gone := d.gone

@[simp] theorem Side.other_other (side : Side) : side.other.other = side := by
  cases side <;> rfl

theorem Side.other_ne (side : Side) : side.other ≠ side := by
  cases side <;> exact fun same => by cases same

theorem Side.eq_other {side x : Side} (differ : x ≠ side) : x = side.other := by
  cases side <;> cases x <;> first | rfl | exact absurd rfl differ

@[simp] theorem Channel.between_near (side : Side) (near far : Fd) : (Channel.between side near far).fd side = near := by
  cases side <;> rfl

@[simp] theorem Channel.between_far (side : Side) (near far : Fd) : (Channel.between side near far).fd side.other = far := by
  cases side <;> rfl

namespace Device

/-- Raising an `OnShutdown` changes nothing else. -/
theorem view_raise (d : Device) (peer : NetworkId) (fds : List Fd) :
    Device.view { d with pending := d.pending ++ fds.map .shutdown } peer =
      { d.view peer with downs := (d.view peer).downs ++ fds } := by
  have bounds : (fds.map Callback.shutdown).filterMap Callback.boundFd = [] := by
    rw [List.filterMap_map]
    exact List.filterMap_eq_nil_iff.mpr (fun _ _ => rfl)
  have downs : (fds.map Callback.shutdown).filterMap Callback.shutdownFd = fds := by
    rw [List.filterMap_map]
    exact List.filterMap_some
  simp only [view, Device.bounds, Device.downs, List.filterMap_append, bounds, downs, List.append_nil]

theorem sockets_raise (d : Device) (fds : List Fd) :
    sockets { d with pending := d.pending ++ fds.map .shutdown } = d.sockets := by
  have errors : (fds.map Callback.shutdown).filterMap Callback.errorFd = [] := by
    rw [List.filterMap_map]
    exact List.filterMap_eq_nil_iff.mpr (fun _ _ => rfl)
  simp only [sockets, Device.errors, List.filterMap_append, errors, List.append_nil]

end Device

namespace Pair
variable {name : Side → DeviceName} {s : Pair}

/-- The descriptors of a device: the ends of its channels and its other
sockets, all different and none the listening one. -/
structure Distinct (s : Pair) : Prop where
  once : ∀ side fd, (s.channels.map (fun c => c.fd side)).count fd + (s.ends side).sockets.count fd ≤ 1
  range : ∀ side fd, fd ∈ s.channels.map (fun c => c.fd side) ∨ fd ∈ (s.ends side).sockets →
    0 < fd ∧ fd < (s.ends side).nextFd
  next : ∀ side, 0 < (s.ends side).nextFd
  listen : ∀ side, (s.ends side).transport.listenFd = some 0

theorem Distinct.inj (distinct : s.Distinct) {side : Side} {c d : Channel} (member : c ∈ s.channels)
    (alsoMember : d ∈ s.channels) (same : c.fd side = d.fd side) : c = d := by
  have nodup : (s.channels.map (fun c => c.fd side)).Nodup := by
    refine List.nodup_iff_count_le_one.mpr (fun fd => ?_)
    have once := distinct.once side fd
    omega
  exact List.inj_on_of_nodup_map nodup member alsoMember same

/-- A socket of no channel is the end of no channel. -/
theorem Distinct.apart (distinct : s.Distinct) {side : Side} {fd : Fd} (member : fd ∈ (s.ends side).sockets)
    {c : Channel} (inside : c ∈ s.channels) : c.fd side ≠ fd := by
  rintro rfl
  have once := distinct.once side (c.fd side)
  have here := List.count_pos_iff.mpr member
  have there := List.count_pos_iff.mpr (List.mem_map_of_mem (f := fun c : Channel => c.fd side) inside)
  omega

/-- What a run of the two devices keeps. -/
structure Sound (name : Side → DeviceName) (s : Pair) : Prop extends Distinct s where
  told : ∀ side, Told s.channels side ((s.ends side).view (name side.other).toNetworkId)
    ((s.ends side.other).view (name side).toNetworkId)

/-- The ends of the channels whose other ends were shut. -/
def raisedFds (s : Pair) (side : Side) (shut : List Fd) : List Fd :=
  (s.channels.filter (fun c => c.fd side ∈ shut)).map (fun c => c.fd side.other)

theorem raised_eq (s : Pair) (side : Side) (shut : List Fd) : s.raised side shut = (s.raisedFds side shut).map .shutdown := by
  rw [raised, raisedFds, List.map_map]
  rfl

theorem ends_device {side : Side} {event : DeviceEvent} (x : Side) :
    (s.step name (.device side event)).ends x =
      if x = side then ((s.ends side).step (name side.other).toNetworkId event).1
      else { s.ends x with pending := (s.ends x).pending ++
        (s.raisedFds side ((s.ends side).step (name side.other).toNetworkId event).2).map .shutdown } := by
  rw [← raised_eq]
  rfl

theorem Distinct.device (distinct : s.Distinct) (side : Side) (event : DeviceEvent) :
    (s.step name (.device side event)).Distinct := by
  obtain ⟨listen, grows, counts⟩ := @Device.step_sockets (s.ends side) _ event (name side.other).named
  have channels : (s.step name (.device side event)).channels = s.channels := rfl
  refine ⟨fun x fd => ?_, fun x fd member => ?_, fun x => ?_, fun x => ?_⟩
  · rw [ends_device, channels]
    by_cases here : x = side
    · subst here
      rw [if_pos rfl]
      have once := distinct.once x fd
      rcases counts fd with fewer | ⟨new, _, one⟩
      · omega
      · have unused : (s.channels.map (fun c => c.fd x)).count fd = 0 ∧ (s.ends x).sockets.count fd = 0 := by
          refine ⟨List.count_eq_zero.mpr (fun member => ?_), List.count_eq_zero.mpr (fun member => ?_)⟩
          · exact absurd (distinct.range x fd (Or.inl member)).2 (new ▸ Nat.lt_irrefl _)
          · exact absurd (distinct.range x fd (Or.inr member)).2 (new ▸ Nat.lt_irrefl _)
        omega
    · rw [if_neg here, Device.sockets_raise]
      exact distinct.once x fd
  · rw [ends_device] at member ⊢
    rw [channels] at member
    by_cases here : x = side
    · subst here
      rw [if_pos rfl] at member ⊢
      rcases member with inside | inside
      · have range := distinct.range x fd (Or.inl inside)
        exact ⟨range.1, lt_of_lt_of_le range.2 grows⟩
      · have positive := List.count_pos_iff.mpr inside
        rcases counts fd with fewer | ⟨new, more, _⟩
        · have range := distinct.range x fd (Or.inr (List.count_pos_iff.mp (by omega)))
          exact ⟨range.1, lt_of_lt_of_le range.2 grows⟩
        · exact new ▸ ⟨distinct.next x, more⟩
    · rw [if_neg here, Device.sockets_raise] at member
      rw [if_neg here]
      exact distinct.range x fd member
  · rw [ends_device]
    split
    · exact lt_of_lt_of_le (distinct.next side) grows
    · exact distinct.next x
  · rw [ends_device]
    split
    · rename_i here
      rw [listen]
      exact distinct.listen side
    · exact distinct.listen x

theorem mem_raisedFds {side : Side} {shut : List Fd} {fd : Fd} :
    fd ∈ s.raisedFds side shut ↔ ∃ c ∈ s.channels, c.fd side ∈ shut ∧ c.fd side.other = fd := by
  simp only [raisedFds, List.mem_map, List.mem_filter, decide_eq_true_eq, and_assoc]

/-- Both devices stay told through a move of one of them. -/
theorem Distinct.told_device (distinct : s.Distinct) {side : Side} {peer : NetworkId} {event : DeviceEvent} {next : Device}
    {shut : List Fd} {far : View} (moves : Device.Moves peer (s.ends side) event next shut)
    (here : Told s.channels side ((s.ends side).view peer) far)
    (there : Told s.channels side.other far ((s.ends side).view peer)) :
    Told s.channels side (next.view peer) { far with downs := far.downs ++ s.raisedFds side shut } ∧
      Told s.channels side.other { far with downs := far.downs ++ s.raisedFds side shut } (next.view peer) := by
  have later : ∀ fd, far.Over fd → View.Over { far with downs := far.downs ++ s.raisedFds side shut } fd :=
    fun fd past => past.imp_right (fun rest => rest.imp_left (List.mem_append_left _))
  have none (silent : shut = []) : { far with downs := far.downs ++ s.raisedFds side shut } = far := by
    rw [silent, raisedFds]
    simp
  cases moves with
  | still same _ own =>
    have quiet : s.raisedFds side shut = [] := by
      refine List.eq_nil_iff_forall_not_mem.mpr (fun fd member => ?_)
      obtain ⟨c, inside, shutHere, _⟩ := mem_raisedFds.mp member
      rcases own _ shutHere with socket | next
      · exact distinct.apart socket inside rfl
      · have range := distinct.range side _ (Or.inl (List.mem_map_of_mem (f := fun c : Channel => c.fd side) inside))
        exact absurd range.2 (next ▸ Nat.lt_irrefl _)
    have unchanged : next.view peer = (s.ends side).view peer := by
      simp only [Device.view, same.held, same.bounds, same.downs, same.dropped, same.gone]
    rw [quiet, List.append_nil, unchanged]
    exact ⟨here, there⟩
  | @bound index limit fd _ _ before after found waiting rest downs gone dropped kept =>
    rcases kept with ⟨free, keeps, silent⟩ | ⟨kept, holds, keeps, shuts⟩
    · have changed : next.view peer =
          { (s.ends side).view peer with bounds := before ++ after, held := some fd } := by
        simp only [Device.view, keeps, rest, downs, gone, dropped, silent, List.append_nil]
      rw [none silent, changed]
      exact ⟨here.keep waiting free, there.toward (fun _ past => past)⟩
    · have differ : kept ≠ fd := by
        rintro rfl
        exact (here.fresh kept ((Told.mem_rest waiting).mpr (Or.inl rfl))).1 holds
      rw [if_pos differ] at shuts
      have changed : next.view peer = { (s.ends side).view peer with
          bounds := before ++ after, dropped := ((s.ends side).view peer).dropped ++ [fd] } := by
        simp only [Device.view, keeps, holds, rest, downs, gone, dropped, shuts]
      rw [changed]
      refine ⟨(here.drop waiting).toward later, (there.toward ?_).more ?_ ?_⟩
      · exact fun _ past => past.imp_left (List.mem_append_left _)
      · intro other member
        obtain ⟨c, inside, _, same⟩ := mem_raisedFds.mp member
        exact Or.inr ⟨c, inside, same⟩
      · intro c inside member
        obtain ⟨d, alsoInside, shutHere, same⟩ := mem_raisedFds.mp member
        obtain rfl := distinct.inj alsoInside inside same
        rw [shuts] at shutHere
        rw [Side.other_other]
        exact Or.inl (List.mem_append_right _ shutHere)
  | @shutdown index limit fd _ before after found waiting rest bounds dropped gone held =>
    have clears : next.transport.channelTo peer =
        if (s.ends side).transport.channelTo peer = some fd then Option.none else (s.ends side).transport.channelTo peer := by
      rcases held with ⟨listening, same⟩ | cleared
      · rw [same, if_neg]
        intro holds
        obtain ⟨c, inside, rfl⟩ := here.held fd holds
        have range := distinct.range side _ (Or.inl (List.mem_map_of_mem (f := fun c : Channel => c.fd side) inside))
        rw [distinct.listen] at listening
        exact absurd range.1 (Option.some.inj listening ▸ Nat.lt_irrefl 0)
      · exact cleared
    have changed : next.view peer = { (s.ends side).view peer with
        held := next.transport.channelTo peer, downs := before ++ after,
        gone := ((s.ends side).view peer).gone ++ [fd] } := by
      simp only [Device.view, bounds, rest, dropped, gone]
    rw [none rfl, changed]
    refine ⟨here.shut waiting clears, there.toward (fun other past => ?_)⟩
    rcases past with dropped | down | gone
    · exact Or.inl dropped
    · rcases (Told.mem_rest waiting).mp down with rfl | later
      · exact Or.inr (Or.inr (List.mem_append_right _ List.mem_cons_self))
      · exact Or.inr (Or.inl later)
    · exact Or.inr (Or.inr (List.mem_append_left _ gone))

/-- What holds of both sides when it holds of one and of the other. -/
theorem both {p : Side → Prop} (side : Side) (here : p side) (there : p side.other) (x : Side) : p x := by
  by_cases same : x = side
  · exact same ▸ here
  · exact Side.eq_other same ▸ there

theorem Sound.device (sound : s.Sound name) (side : Side) (event : DeviceEvent) :
    (s.step name (.device side event)).Sound name := by
  refine ⟨sound.toDistinct.device side event, ?_⟩
  have near : ((s.step name (.device side event)).ends side) =
      ((s.ends side).step (name side.other).toNetworkId event).1 := by rw [ends_device, if_pos rfl]
  have far : ((s.step name (.device side event)).ends side.other).view (name side).toNetworkId =
      { (s.ends side.other).view (name side).toNetworkId with
        downs := ((s.ends side.other).view (name side).toNetworkId).downs ++
          s.raisedFds side ((s.ends side).step (name side.other).toNetworkId event).2 } := by
    rw [ends_device, if_neg side.other_ne, Device.view_raise]
  have there := sound.told side.other
  rw [Side.other_other] at there
  obtain ⟨first, second⟩ := sound.toDistinct.told_device (Device.step_moves (name side.other).named event)
    (sound.told side) there
  refine both side ?_ ?_
  · rw [near, far]
    exact first
  · rw [Side.other_other, near, far]
    exact second

/-- Raising an `OnShutdown` leaves the descriptors as they are. -/
theorem Distinct.raise (distinct : s.Distinct) (fds : Side → List Fd) :
    Distinct { s with ends := fun x => { s.ends x with pending := (s.ends x).pending ++ (fds x).map .shutdown } } := by
  refine ⟨fun x fd => ?_, fun x fd member => ?_, distinct.next, distinct.listen⟩
  · rw [Device.sockets_raise]
    exact distinct.once x fd
  · rw [Device.sockets_raise] at member
    exact distinct.range x fd member

theorem Sound.linkLost (sound : s.Sound name) (index : Nat) : (s.step name (.linkLost index)).Sound name := by
  simp only [step]
  split
  · exact sound
  · rename_i c found
    have inside := List.mem_of_getElem? found
    have past (side : Side) (v : View) : ({ v with downs := v.downs ++ [c.fd side] } : View).Over (c.fd side) :=
      Or.inr (Or.inl (List.mem_append_right _ List.mem_cons_self))
    refine ⟨sound.toDistinct.raise (fun side => [c.fd side]), fun side => ?_⟩
    have here := (s.ends side).view_raise (name side.other).toNetworkId [c.fd side]
    have there := (s.ends side.other).view_raise (name side).toNetworkId [c.fd side.other]
    rw [List.map_singleton] at here there
    rw [here, there]
    refine ((sound.told side).toward ?_).more ?_ ?_
    · exact fun _ past => past.imp_right (fun rest => rest.imp_left (List.mem_append_left _))
    · intro fd member
      exact Or.inr ⟨c, inside, (List.mem_singleton.mp member).symm⟩
    · intro d alsoInside member
      obtain rfl := sound.inj alsoInside inside (List.mem_singleton.mp member)
      exact past side.other _

theorem Sound.listenLost (sound : s.Sound name) (side : Side) : (s.step name (.listenLost side)).Sound name := by
  have raised : s.step name (.listenLost side) = { s with
      ends := fun x => { s.ends x with pending := (s.ends x).pending ++ (if x = side then [0] else []).map .shutdown } } := by
    simp only [step]
    congr 1
    funext x
    by_cases here : x = side
    · subst here
      rw [if_pos rfl, if_pos rfl, sound.listen]
      rfl
    · rw [if_neg here, if_neg here, List.map_nil, List.append_nil]
  rw [raised]
  refine ⟨sound.toDistinct.raise _, fun x => ?_⟩
  dsimp only
  rw [Device.view_raise, Device.view_raise]
  refine ((sound.told x).toward ?_).more ?_ ?_
  · exact fun _ past => past.imp_right (fun rest => rest.imp_left (List.mem_append_left _))
  · intro fd member
    split at member
    · exact Or.inl (List.mem_singleton.mp member)
    · exact absurd member List.not_mem_nil
  · intro c inside member
    have range := sound.range x _ (Or.inl (List.mem_map_of_mem (f := fun c : Channel => c.fd x) inside))
    split at member
    · exact absurd range.1 (List.mem_singleton.mp member ▸ Nat.lt_irrefl 0)
    · exact absurd member List.not_mem_nil

section Establish
variable {side : Side} {index : Nat} {fd : Fd}

theorem bindOn_near : (s.bindOn side index fd).ends side = { s.ends side with
    binding := (s.ends side).binding.eraseIdx index
    pending := (s.ends side).pending ++ [.bound fd] } := if_pos rfl

theorem bindOn_far : (s.bindOn side index fd).ends side.other = { s.ends side.other with
    nextFd := (s.ends side.other).nextFd + 1
    pending := (s.ends side.other).pending ++ [.bound (s.ends side.other).nextFd] } := if_neg side.other_ne

theorem Distinct.bindOn (distinct : s.Distinct) (found : (s.ends side).binding[index]? = some fd) :
    (s.bindOn side index fd).Distinct := by
  obtain ⟨before, after, split, erased⟩ := Notices.eraseIdx_split found
  have moved (other : Fd) : ((s.bindOn side index fd).ends side).sockets.count other + [fd].count other =
      (s.ends side).sockets.count other := by
    rw [bindOn_near, Device.sockets, Device.errors, erased, Device.sockets, Device.errors, split]
    simp only [List.filterMap_append, List.filterMap_cons, Callback.errorFd, List.filterMap_nil, List.count_append,
      List.count_cons, List.count_nil]
    omega
  have stays : ((s.bindOn side index fd).ends side.other).sockets = (s.ends side.other).sockets := by
    rw [bindOn_far, Device.sockets, Device.errors, Device.sockets, Device.errors]
    simp [List.filterMap_cons, Callback.errorFd]
  have inside : fd ∈ (s.ends side).sockets := by
    rw [Device.sockets, split]
    exact List.mem_append_right _ (List.mem_append_left _ (List.mem_append_right _ List.mem_cons_self))
  have added (x : Side) : (s.bindOn side index fd).channels.map (fun c => c.fd x) =
      s.channels.map (fun c => c.fd x) ++ [(Channel.between side fd (s.ends side.other).nextFd).fd x] := List.map_append
  have near := congrArg Device.nextFd (@bindOn_near s side index fd)
  have far := congrArg Device.nextFd (@bindOn_far s side index fd)
  have once (x : Side) := both (p := fun x => ∀ other, ((s.bindOn side index fd).channels.map (fun c => c.fd x)).count other +
    ((s.bindOn side index fd).ends x).sockets.count other ≤ 1) side (x := x)
  have range (x : Side) := both (p := fun x => ∀ other, other ∈ (s.bindOn side index fd).channels.map (fun c => c.fd x) ∨
    other ∈ ((s.bindOn side index fd).ends x).sockets → 0 < other ∧ other < ((s.bindOn side index fd).ends x).nextFd)
      side (x := x)
  have next (x : Side) := both (p := fun x => 0 < ((s.bindOn side index fd).ends x).nextFd) side (x := x)
  have listen (x : Side) := both (p := fun x => ((s.bindOn side index fd).ends x).transport.listenFd = some 0) side (x := x)
  refine ⟨fun x => once x (fun other => ?_) (fun other => ?_),
    fun x => range x (fun other member => ?_) (fun other member => ?_), fun x => next x ?_ ?_, fun x => listen x ?_ ?_⟩
  · have once := distinct.once side other
    rw [added, Channel.between_near, List.count_append]
    have same := moved other
    omega
  · have once := distinct.once side.other other
    rw [added, Channel.between_far, List.count_append, stays, List.count_singleton]
    by_cases new : other = (s.ends side.other).nextFd
    · have unused : (s.channels.map (fun c => c.fd side.other)).count other = 0 ∧
          (s.ends side.other).sockets.count other = 0 := by
        refine ⟨List.count_eq_zero.mpr (fun member => ?_), List.count_eq_zero.mpr (fun member => ?_)⟩
        · exact absurd (distinct.range side.other other (Or.inl member)).2 (new ▸ Nat.lt_irrefl _)
        · exact absurd (distinct.range side.other other (Or.inr member)).2 (new ▸ Nat.lt_irrefl _)
      split <;> omega
    · rw [if_neg (by simpa using Ne.symm new)]
      omega
  · rw [near]
    rw [added, Channel.between_near] at member
    refine distinct.range side other (member.elim (fun ends => ?_) (fun socket => Or.inr ?_))
    · rcases List.mem_append.mp ends with old | new
      · exact Or.inl old
      · exact Or.inr (List.mem_singleton.mp new ▸ inside)
    · have same := moved other
      have positive := List.count_pos_iff.mpr socket
      exact List.count_pos_iff.mp (by omega)
  · rw [far]
    rw [added, Channel.between_far, stays] at member
    have old (known : other ∈ s.channels.map (fun c => c.fd side.other) ∨ other ∈ (s.ends side.other).sockets) :
        0 < other ∧ other < (s.ends side.other).nextFd + 1 :=
      ⟨(distinct.range side.other other known).1, Nat.lt_succ_of_lt (distinct.range side.other other known).2⟩
    rcases member with ends | socket
    · rcases List.mem_append.mp ends with known | new
      · exact old (Or.inl known)
      · rw [List.mem_singleton.mp new]
        exact ⟨distinct.next side.other, Nat.lt_succ_self _⟩
    · exact old (Or.inr socket)
  · rw [near]
    exact distinct.next side
  · rw [far]
    exact Nat.succ_pos _
  · rw [bindOn_near]
    exact distinct.listen side
  · rw [bindOn_far]
    exact distinct.listen side.other

end Establish

theorem Sound.establish (sound : s.Sound name) (side : Side) (index : Nat) :
    (s.step name (.establish side index)).Sound name := by
  simp only [step]
  split
  · exact sound
  · rename_i fd found
    have distinct := sound.toDistinct.bindOn found
    have inside : fd ∈ (s.ends side).sockets :=
      List.mem_append_right _ (List.mem_append_left _ (List.mem_of_getElem? found))
    have near : ((s.bindOn side index fd).ends side).view (name side.other).toNetworkId =
        { (s.ends side).view (name side.other).toNetworkId with
          bounds := ((s.ends side).view (name side.other).toNetworkId).bounds ++ [fd] } := by
      rw [bindOn_near]
      simp [Device.view, Device.bounds, Device.downs, List.filterMap_cons, Callback.boundFd, Callback.shutdownFd]
    have far : ((s.bindOn side index fd).ends side.other).view (name side).toNetworkId =
        { (s.ends side.other).view (name side).toNetworkId with
          bounds := ((s.ends side.other).view (name side).toNetworkId).bounds ++ [(s.ends side.other).nextFd] } := by
      rw [bindOn_far]
      simp [Device.view, Device.bounds, Device.downs, List.filterMap_cons, Callback.boundFd, Callback.shutdownFd]
    refine ⟨distinct, both side ?_ ?_⟩
    · rw [near, far]
      have new := (sound.told side).establish (c := .between side fd (s.ends side.other).nextFd)
        (fun d known => by rw [Channel.between_near]; exact sound.apart inside known)
        (by rw [Channel.between_near]; exact Nat.ne_of_gt (sound.range side fd (Or.inr inside)).1)
      rw [Channel.between_near] at new
      exact new.toward (fun _ past => past)
    · rw [Side.other_other, near, far]
      have there := sound.told side.other
      rw [Side.other_other] at there
      have new := there.establish (c := .between side fd (s.ends side.other).nextFd)
        (fun d known same => by
          rw [Channel.between_far] at same
          have range := sound.range side.other _
            (Or.inl (List.mem_map_of_mem (f := fun c : Channel => c.fd side.other) known))
          exact absurd range.2 (same ▸ Nat.lt_irrefl _))
        (by rw [Channel.between_far]; exact Nat.ne_of_gt (sound.next side.other))
      rw [Channel.between_far] at new
      exact new.toward (fun _ past => past)

/-- Every step keeps the two devices sound. -/
theorem Sound.step (sound : s.Sound name) (event : PairEvent) : (s.step name event).Sound name := by
  cases event with
  | device side event => exact sound.device side event
  | establish side index => exact sound.establish side index
  | linkLost index => exact sound.linkLost index
  | listenLost side => exact sound.listenLost side

theorem sound_initially : ({} : Pair).Sound name := by
  have nothing {p : Channel → Prop} : ∀ c ∈ ([] : List Channel), p c := fun _ member => absurd member List.not_mem_nil
  have noFd {p : Fd → Prop} : ∀ fd ∈ ([] : List Fd), p fd := fun _ member => absurd member List.not_mem_nil
  refine ⟨⟨fun _ _ => Nat.zero_le 1, fun _ fd member => ?_, fun _ => Nat.one_pos, fun _ => rfl⟩, fun side => ?_⟩
  · exact absurd member (by simp [Device.sockets, Device.errors])
  · refine ⟨fun _ same => (by cases same), noFd, noFd, fun _ member => ?_, List.nodup_nil, noFd,
      fun _ same => (by cases same),
      nothing, nothing⟩
    exact absurd member (by simp [Device.view, Device.downs])

/-- The two ways to be split, seen from one side. -/
theorem split_iff (side : Side) : s.Split name ↔
    (∃ c ∈ s.channels, s.held name side = some (c.fd side) ∧ c.fd side.other ∈ (s.ends side.other).dropped) ∨
      ∃ c ∈ s.channels, s.held name side.other = some (c.fd side.other) ∧ c.fd side ∈ (s.ends side).dropped := by
  constructor
  · rintro ⟨x, c, inside, keeps, shut⟩
    by_cases here : x = side
    · subst here
      exact Or.inl ⟨c, inside, keeps, shut⟩
    · obtain rfl := Side.eq_other here
      rw [Side.other_other] at shut
      exact Or.inr ⟨c, inside, keeps, shut⟩
  · rintro (⟨c, inside, keeps, shut⟩ | ⟨c, inside, keeps, shut⟩)
    · exact ⟨side, c, inside, keeps, shut⟩
    · exact ⟨side.other, c, inside, keeps, by rwa [Side.other_other]⟩

theorem held_device {side : Side} {event : DeviceEvent} :
    (s.step name (.device side event)).held name side =
        ((s.ends side).step (name side.other).toNetworkId event).1.transport.channelTo (name side.other).toNetworkId ∧
      (s.step name (.device side event)).held name side.other = s.held name side.other := by
  refine ⟨?_, ?_⟩
  · rw [held, ends_device, if_pos rfl]
  · rw [held, ends_device, if_neg side.other_ne]
    rfl

theorem dropped_device {side : Side} {event : DeviceEvent} :
    ((s.step name (.device side event)).ends side).dropped =
        ((s.ends side).step (name side.other).toNetworkId event).1.dropped ∧
      ((s.step name (.device side event)).ends side.other).dropped = (s.ends side.other).dropped := by
  refine ⟨?_, ?_⟩
  · rw [ends_device, if_pos rfl]
  · rw [ends_device, if_neg side.other_ne]

/-- A step of a device splits the pair exactly if it answers an `OnBind` that
it may not answer. -/
theorem Sound.split_device (sound : s.Sound name) (whole : ¬ s.Split name) (side : Side) (event : DeviceEvent) :
    ¬ (s.step name (.device side event)).Split name ↔ s.KeepsTogether name (.device side event) := by
  have told := sound.told side
  have moves := @Device.step_moves (s.ends side) _ (name side.other).named event
  rw [split_iff side] at whole ⊢
  rw [held_device.1, held_device.2, dropped_device.1, dropped_device.2]
  change ¬ ((∃ c ∈ s.channels, _) ∨ ∃ c ∈ s.channels, _) ↔ _
  generalize ((s.ends side).step (name side.other).toNetworkId event).1 = next at *
  generalize ((s.ends side).step (name side.other).toNetworkId event).2 = shut at *
  obtain ⟨notHere, notThere⟩ := not_or.mp whole
  cases moves with
  | still same other _ =>
    rw [same.held, same.dropped]
    refine iff_of_true whole ?_
    cases event with
    | callback index limit => exact fun c _ found => absurd found (other index limit _ rfl)
    | _ => trivial
  | @shutdown index limit fd _ before after found waiting rest bounds dropped gone held =>
    rw [dropped]
    refine iff_of_true (not_or.mpr ⟨?_, notThere⟩) ?_
    · rintro ⟨c, inside, keeps, shut⟩
      refine notHere ⟨c, inside, ?_, shut⟩
      rcases held with ⟨_, same⟩ | cleared
      · exact same.symm.trans keeps
      · rw [cleared] at keeps
        split at keeps
        · cases keeps
        · exact keeps
    · intro c _ bound
      rw [found] at bound
      cases bound
  | @bound index limit fd _ _ before after found waiting rest downs gone dropped kept =>
    obtain ⟨c, inside, rfl⟩ := told.bound fd ((Told.mem_rest waiting).mpr (Or.inl rfl))
    have only {d : Channel} (member : d ∈ s.channels) (same : (s.ends side).pending[index]? = some (.bound (d.fd side))) :
        d = c := by
      rw [found] at same
      exact sound.inj member inside (Callback.bound.inj (Option.some.inj same)).symm
    rcases kept with ⟨free, keeps, silent⟩ | ⟨kept, holds, keeps, shuts⟩
    · have asks : s.KeepsTogether name (.device side (.callback index limit)) ↔
          c.fd side.other ∉ (s.ends side.other).dropped := by
        have free : s.held name side = none := free
        refine ⟨fun all => (all c inside found).1 free,
          fun alone d member same => ⟨fun _ => ?_, fun used => absurd free used⟩⟩
        exact only member same ▸ alone
      rw [asks, keeps, dropped, silent, List.append_nil]
      refine not_congr ⟨?_, fun shut => Or.inl ⟨c, inside, rfl, shut⟩⟩
      rintro (⟨d, member, same, shut⟩ | again)
      · exact sound.inj member inside (Option.some.inj same).symm ▸ shut
      · exact absurd again notThere
    · have differ : kept ≠ c.fd side := by
        rintro rfl
        exact (told.fresh _ ((Told.mem_rest waiting).mpr (Or.inl rfl))).1 holds
      have asks : s.KeepsTogether name (.device side (.callback index limit)) ↔
          s.held name side.other ≠ some (c.fd side.other) := by
        have used : s.held name side ≠ none := fun free => Option.some_ne_none kept (holds.symm.trans free)
        refine ⟨fun all => (all c inside found).2 used,
          fun alone d member same => ⟨fun free => absurd free used, fun _ => ?_⟩⟩
        exact only member same ▸ alone
      rw [if_pos differ] at shuts
      rw [asks, keeps, dropped, shuts]
      refine not_congr ⟨?_, fun held => Or.inr ⟨c, inside, held, List.mem_append_right _ List.mem_cons_self⟩⟩
      rintro (⟨d, member, same, shut⟩ | ⟨d, member, held, shut⟩)
      · exact absurd ⟨d, member, holds.trans same, shut⟩ notHere
      · rcases List.mem_append.mp shut with old | new
        · exact absurd ⟨d, member, held, old⟩ notThere
        · exact sound.inj member inside (List.mem_singleton.mp new) ▸ held

theorem Sound.split_step (sound : s.Sound name) (whole : ¬ s.Split name) (event : PairEvent) :
    ¬ (s.step name event).Split name ↔ s.KeepsTogether name event := by
  cases event with
  | device side event => exact sound.split_device whole side event
  | establish side index =>
    refine iff_of_true ?_ trivial
    simp only [Pair.step]
    split
    · exact whole
    · rename_i fd found
      rintro ⟨x, c, inside, keeps, shut⟩
      have held : (s.bindOn side index fd).held name x = s.held name x := by
        unfold Pair.held bindOn
        dsimp only
        split <;> rfl
      have dropped : ((s.bindOn side index fd).ends x.other).dropped = (s.ends x.other).dropped := by
        unfold bindOn
        dsimp only
        split <;> rfl
      rw [held] at keeps
      rw [dropped] at shut
      -- What is kept or shut is a channel that was there before.
      obtain ⟨d, member, same⟩ := (sound.told x).held _ keeps
      obtain rfl := (sound.toDistinct.bindOn found).inj (List.mem_append_left _ member) inside same
      exact whole ⟨x, d, member, keeps, shut⟩
  | linkLost index =>
    refine iff_of_true ?_ trivial
    simp only [Pair.step]
    split
    · exact whole
    · exact whole
  | listenLost side =>
    refine iff_of_true ?_ trivial
    rintro ⟨x, c, inside, keeps, shut⟩
    refine whole ⟨x, c, inside, ?_, ?_⟩
    · refine Eq.trans ?_ keeps
      unfold Pair.held Pair.step
      dsimp only
      split <;> rfl
    · simp only [Pair.step] at shut
      split at shut <;> exact shut

/-- No device keeps a channel whose `OnShutdown` it has processed. -/
def Alive (name : Side → DeviceName) (s : Pair) : Prop :=
  ∀ side fd, s.held name side = some fd → fd ∉ (s.ends side).gone

theorem Sound.alive_device (sound : s.Sound name) (alive : s.Alive name) {side : Side} {event : DeviceEvent}
    (converging : s.Converging name (.device side event)) : (s.step name (.device side event)).Alive name := by
  have told := sound.told side
  have moves := @Device.step_moves (s.ends side) _ (name side.other).named event
  have goneHere : ((s.step name (.device side event)).ends side).gone =
      ((s.ends side).step (name side.other).toNetworkId event).1.gone := by rw [ends_device, if_pos rfl]
  have goneThere : ((s.step name (.device side event)).ends side.other).gone = (s.ends side.other).gone := by
    rw [ends_device, if_neg side.other_ne]
  intro x
  refine both (p := fun x => ∀ fd, (s.step name (.device side event)).held name x = some fd →
    fd ∉ ((s.step name (.device side event)).ends x).gone) side ?_ ?_ x
  · rw [held_device.1, goneHere]
    generalize ((s.ends side).step (name side.other).toNetworkId event).1 = next at *
    generalize ((s.ends side).step (name side.other).toNetworkId event).2 = shut at *
    cases moves with
    | still same _ _ =>
      rw [same.held, same.gone]
      exact alive side
    | @bound index limit fd _ _ before after found waiting rest downs gone dropped kept =>
      rw [gone]
      rcases kept with ⟨free, keeps, _⟩ | ⟨kept, holds, keeps, _⟩
      · intro other held
        rw [keeps] at held
        obtain rfl := Option.some.inj held
        obtain ⟨c, inside, rfl⟩ := told.bound fd ((Told.mem_rest waiting).mpr (Or.inl rfl))
        exact converging.2 c inside found free
      · rw [keeps, ← holds]
        exact alive side
    | @shutdown index limit fd _ before after found waiting rest bounds dropped gone held =>
      rw [gone]
      intro other keeps member
      have before : s.held name side = some other ∧ other ≠ fd := by
        rcases held with ⟨listening, same⟩ | cleared
        · have holds : s.held name side = some other := same.symm.trans keeps
          refine ⟨holds, fun equal => ?_⟩
          obtain ⟨c, inside, rfl⟩ := told.held other holds
          have range := sound.range side _ (Or.inl (List.mem_map_of_mem (f := fun c : Channel => c.fd side) inside))
          rw [sound.listen, ← equal] at listening
          exact absurd range.1 (Option.some.inj listening ▸ Nat.lt_irrefl 0)
        · rw [cleared] at keeps
          split at keeps
          · cases keeps
          · rename_i differ
            exact ⟨keeps, fun equal => differ (equal ▸ keeps)⟩
      rcases List.mem_append.mp member with old | new
      · exact alive side other before.1 old
      · exact before.2 (List.mem_singleton.mp new)
  · rw [held_device.2, goneThere]
    exact alive side.other

theorem Sound.alive_step (sound : s.Sound name) (alive : s.Alive name) {event : PairEvent}
    (converging : s.Converging name event) : (s.step name event).Alive name := by
  cases event with
  | device side event => exact sound.alive_device alive converging
  | establish side index =>
    simp only [Pair.step]
    split
    · exact alive
    · intro x fd keeps
      unfold Pair.held bindOn at keeps
      unfold bindOn
      dsimp only at keeps ⊢
      split at keeps
      · rename_i here
        rw [if_pos here]
        exact alive x fd keeps
      · rename_i here
        rw [if_neg here]
        exact alive x fd keeps
  | linkLost index =>
    simp only [Pair.step]
    split <;> exact alive
  | listenLost side =>
    intro x fd keeps
    unfold Pair.held Pair.step at keeps
    unfold Pair.step
    dsimp only at keeps ⊢
    split at keeps
    · rename_i here
      rw [if_pos here]
      exact alive x fd keeps
    · rename_i here
      rw [if_neg here]
      exact alive x fd keeps

/-- At rest a channel kept at one end is kept at the other. -/
theorem Sound.joined (sound : s.Sound name) (alive : s.Alive name) (whole : ¬ s.Split name)
    (quiet : ∀ side, (s.ends side).pending = []) {side : Side} {fd : Fd} (keeps : s.held name side = some fd) :
    ∃ c ∈ s.channels, c.fd side = fd ∧ s.held name side.other = some (c.fd side.other) := by
  obtain ⟨c, inside, rfl⟩ := (sound.told side).held fd keeps
  refine ⟨c, inside, rfl, ?_⟩
  have noBounds (x : Side) (fd : Fd) : fd ∉ (s.ends x).bounds := by
    rw [Device.bounds, quiet]
    exact List.not_mem_nil
  have noDowns (x : Side) (fd : Fd) : fd ∉ (s.ends x).downs := by
    rw [Device.downs, quiet]
    exact List.not_mem_nil
  have far := sound.told side.other
  rw [Side.other_other] at far
  rcases far.settled c inside with bound | dropped | held | gone
  · exact absurd bound (noBounds side.other _)
  · exact absurd ⟨side, c, inside, keeps, dropped⟩ whole
  · rw [Pair.held, Side.other_other]
    exact held
  · -- The far end lost it, so the near end shut it or lost it as well.
    have past := far.reason c inside (Or.inr gone)
    rw [Side.other_other] at past
    rcases past with dropped | down | gone
    · exact absurd dropped ((sound.told side).apart _ keeps)
    · exact absurd down (noDowns side _)
    · exact absurd gone (alive side _ keeps)

/-- The two devices are never split exactly if every `OnBind` is answered in a
way that keeps them together. -/
theorem never_split_iff (name : Side → DeviceName) (events : List PairEvent) :
    (∀ first, first <+: events → ¬ (Run.exec (step name) {} first).Split name) ↔
      Run.Along (step name) (KeepsTogether name) {} events := by
  refine @Run.always_iff_along _ _ (step name) (fun s => ¬ s.Split name) (KeepsTogether name) {} events
    (fun first event _ whole => ?_) ?_
  · have sound := Run.invariant (fun s event (sound : s.Sound name) => sound.step event) first sound_initially
    exact sound.split_step (whole first (List.prefix_refl first)) event
  · rintro ⟨_, c, member, _⟩
    exact absurd member List.not_mem_nil

/-- Two devices that bind to each other at the same time, in any order and
with any losses, never keep a channel the other has shut as a duplicate, and
at rest keep the same channel, as long as each `OnBind` finds its channel
neither kept nor shut the other way round at the other end and not yet gone. -/
theorem converge_on_one_channel (name : Side → DeviceName) {events : List PairEvent}
    (converging : Run.Along (step name) (Converging name) {} events) :
    ∀ first, first <+: events →
      ¬ (Run.exec (step name) {} first).Split name ∧ (Run.exec (step name) {} first).Joined name := by
  intro first inside
  have kept (s : Pair) (event : PairEvent) (good : s.Sound name ∧ s.Alive name ∧ ¬ s.Split name)
      (ok : s.Converging name event) :
      (s.step name event).Sound name ∧ (s.step name event).Alive name ∧ ¬ (s.step name event).Split name :=
    ⟨good.1.step event, good.1.alive_step good.2.1 ok, (good.1.split_step good.2.2 event).mpr ok.1⟩
  have initially : ({} : Pair).Sound name ∧ ({} : Pair).Alive name ∧ ¬ ({} : Pair).Split name := by
    refine ⟨sound_initially, fun _ _ _ => List.not_mem_nil, ?_⟩
    rintro ⟨_, c, member, _⟩
    exact absurd member List.not_mem_nil
  obtain ⟨sound, alive, whole⟩ := (converging.earlier inside).invariant kept initially
  refine ⟨whole, fun quiet left right keeps alsoKeeps => ?_⟩
  obtain ⟨c, member, rfl, far⟩ := sound.joined alive whole quiet keeps
  exact ⟨c, member, rfl, Option.some.inj (far.symm.trans alsoKeeps)⟩

def twoDevices : Side → DeviceName
  | .left => ⟨⟨[0x61]⟩, by decide⟩
  | .right => ⟨⟨[0x62]⟩, by decide⟩

/-- Both devices bind, and both channels are established. -/
def simultaneousConnect : List PairEvent :=
  [.device .left .poll, .device .left (.bindPeer true), .device .left (.bindAsync true), .device .right .poll,
    .device .right (.bindPeer true), .device .right (.bindAsync true), .establish .left 0, .establish .right 0]

/-- Each device sees the `OnBind` of its own channel first: the left one shuts
the channel that the right one keeps. -/
theorem opposite_orders_split :
    (Run.exec (step twoDevices) {} (simultaneousConnect ++ [.device .left (.callback 0 0), .device .right (.callback 1 0),
      .device .left (.callback 0 0)])).Split twoDevices :=
  ⟨.right, ⟨2, 1⟩, by decide, by decide, by decide⟩

def orderedConnect : List PairEvent :=
  simultaneousConnect ++ [.device .left (.callback 0 0), .device .right (.callback 0 0), .device .left (.callback 0 0),
    .device .right (.callback 0 0), .device .left (.callback 0 0), .device .right (.callback 0 0)]

/-- Both devices see the channel of the left one first. -/
theorem same_order_converges :
    ¬ (Run.exec (step twoDevices) {} orderedConnect).Split twoDevices ∧
      (Run.exec (step twoDevices) {} orderedConnect).Joined twoDevices :=
  @converge_on_one_channel twoDevices orderedConnect (by decide) orderedConnect (List.prefix_refl _)

end Pair

end Mdds
