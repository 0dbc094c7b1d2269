import Mdds.Deliver

/- The life of the one DSoftBus transport of a process: `start`, the callbacks and
the poll thread, `stop`. The callbacks find the transport through `s_instance`. -/

namespace Mdds

namespace DsoftbusTransport
variable (t : DsoftbusTransport)

/-- The lanes in the peer table. -/
def heldLanes : List (PeerId × Fd) := t.peers.filterMap (fun entry => entry.2.lane)

/-- The lanes that `on_shutdown` takes out of the table. -/
def deadLanes : BusEvent → List (PeerId × Fd)
  | .onShutdown fd =>
    if t.listenFd = some fd then []
    else t.peers.filterMap (fun entry => if entry.2.socketFd = some fd then entry.2.lane else none)
  | _ => []

end DsoftbusTransport

/-- `instanceSet` says that `s_instance` points to the transport, `pollThread`
that the thread is not joined yet. The lanes that a call takes out of the
table are stopped by this call. -/
structure BusProcess where
  transport : DsoftbusTransport := { running := false }
  instanceSet : Bool := false
  pollThread : Bool := false
  made : List (PeerId × Fd) := []
  stopped : List (PeerId × Fd) := []

inductive BusProcess.Event
  | bus (event : BusEvent)
  | send (peer : PeerId) (data : Bytes)

namespace BusProcess
variable (p : BusProcess)

/-- `start`: the socket that `Socket` returns, if it does, and whether
`Listen` accepts it. -/
def start (socket : Option Fd) (listens : Bool) : BusProcess × Bool :=
  if p.transport.running || p.instanceSet then (p, false)
  else
    match socket with
    | none => ({ p with transport := { p.transport with listenFd := none } }, false)
    | some fd =>
      if listens then
        ({ p with
            transport := { p.transport with listenFd := some fd, running := true }
            instanceSet := true
            pollThread := true }, true)
      else ({ p with transport := { p.transport with listenFd := none } }, false)

/-- A callback is dispatched to `s_instance`, the rest is up to the poll thread. -/
def runs : BusEvent → Bool
  | .onBind .. | .onShutdown _ | .onError _ | .onBytesReceived .. => p.instanceSet
  | .connectOnlinePeers _ | .bindPeer .. | .bindFailed .. => p.pollThread

/-- `send` pushes a frame onto a lane and leaves the tables alone. -/
def step : Event → BusProcess
  | .bus event =>
    if p.runs event then
      { p with
        transport := (p.transport.step event).transport
        made := p.made ++ (p.transport.newLane event).toList
        stopped := p.stopped ++ p.transport.deadLanes event }
    else p
  | .send _ _ => p

/-- The second locked part of `stop`, after the poll thread was joined, and
the stops of the lanes that follow it. -/
def release : BusProcess where
  transport := { p.transport with peers := [], listenFd := none }
  instanceSet := false
  pollThread := false
  made := p.made
  stopped := p.stopped ++ p.transport.heldLanes

/-- `stop`, with what runs between its two locked parts. -/
def stop (during : List Event) : BusProcess :=
  if p.transport.running then
    (Run.exec step { p with transport := { p.transport with running := false } } during).release
  else p

/-- Nothing of the transport is left. -/
structure TornDown : Prop where
  peers : p.transport.peers = []
  listenFd : p.transport.listenFd = none
  instanceSet : p.instanceSet = false
  pollThread : p.pollThread = false
  lanes : p.made.Perm p.stopped

end BusProcess

@[simp] theorem PeerState.bound_lane (st : PeerState) (fd : Fd) : (st.bound fd).lane = st.lane := by
  unfold bound
  split <;> rfl

namespace DsoftbusTransport
variable {t : DsoftbusTransport}

/-- A peer without a channel has no lane either. -/
def Idle (t : DsoftbusTransport) : Prop := ∀ entry ∈ t.peers, entry.2.socketFd = none → entry.2.lane = none

theorem enter_lanes (networkId : NetworkId) :
    (t.enter networkId).heldLanes.Perm t.heldLanes ∧ (t.Idle → (t.enter networkId).Idle) := by
  unfold enter
  cases found : t.peers.lookup networkId with
  | some st => exact ⟨.refl _, id⟩
  | none =>
    have perm := @KeyedList.emplace_perm _ _ _ _ _ networkId ({ peerId := t.nextPeerId } : PeerState) _
      (KeyedList.not_mem_keys found)
    refine ⟨perm.filterMap _, fun idle entry member => ?_⟩
    rcases List.mem_cons.mp (perm.mem_iff.mp member) with rfl | before
    · exact fun _ => rfl
    · exact idle entry before

theorem Quiet.lanes {next : DsoftbusTransport} (quiet : t.Quiet next) :
    next.heldLanes.Perm t.heldLanes ∧ (t.Idle → next.Idle) := by
  induction quiet with
  | refl => exact ⟨.refl _, id⟩
  | enter _ networkId ih =>
    obtain ⟨held, idle⟩ := enter_lanes networkId
    exact ⟨held.trans ih.1, fun before => idle (ih.2 before)⟩
  | pending _ networkId only ih =>
    rw [update_eq_map]
    constructor
    · refine List.Perm.trans (.of_eq ?_) ih.1
      unfold heldLanes
      rw [List.filterMap_map]
      exact List.filterMap_congr (fun entry _ => (only.same (entry.1 = networkId) entry.2).2.2)
    · intro before _ member
      obtain ⟨entry, inside, rfl⟩ := List.mem_map.mp member
      obtain ⟨_, sameFd, sameLane⟩ := only.same (entry.1 = networkId) entry.2
      exact fun free => sameLane.trans (ih.2 before entry inside (sameFd.symm.trans free))

/-- The new channel of a peer comes with a lane. -/
theorem connect_lanes (distinct : (t.peers.map Prod.fst).Nodup) (idle : t.Idle) {networkId : NetworkId} {st : PeerState}
    (found : t.peers.lookup networkId = some st) (free : st.socketFd = none) (fd : Fd) (limit : Nat) :
    (t.update networkId (fun st => (st.bound fd).connect fd limit)).heldLanes.Perm ((st.peerId, fd) :: t.heldLanes) ∧
      (t.update networkId (fun st => (st.bound fd).connect fd limit)).Idle := by
  have inside := KeyedList.mem_of_lookup found
  have empty : st.lane = none := idle _ inside free
  constructor
  · obtain ⟨before, after⟩ := KeyedList.perm_erase distinct found (fun st => (st.bound fd).connect fd limit)
    have others := before.filterMap (fun entry => entry.2.lane)
    have withNew := after.filterMap (fun entry => entry.2.lane)
    rw [List.filterMap_cons_none (by exact empty)] at others
    rw [List.filterMap_cons_some (by exact congrArg (fun id => some (id, fd)) (st.bound_peerId fd))] at withNew
    exact withNew.trans (others.symm.cons _)
  · rw [update_eq_map]
    intro _ member
    obtain ⟨entry, there, rfl⟩ := List.mem_map.mp member
    dsimp only
    split
    · intro none
      cases none
    · exact idle entry there

/-- Losing a channel takes the lanes on it out of the table. -/
theorem shutdown_lanes (fd : Fd) (entries : List (NetworkId × PeerState)) :
    (entries.filterMap (fun entry => entry.2.lane)).Perm
      (entries.filterMap (fun entry => if entry.2.socketFd = some fd then entry.2.lane else none) ++
        (entries.map (fun entry => (entry.1, entry.2.shutdown fd))).filterMap (fun entry => entry.2.lane)) := by
  induction entries with
  | nil => exact .refl _
  | cons entry rest ih =>
    rw [List.map_cons, List.filterMap_cons, List.filterMap_cons, List.filterMap_cons]
    by_cases gone : entry.2.socketFd = some fd
    · have taken : (entry.2.shutdown fd).lane = none := by rw [PeerState.shutdown, if_pos gone]
      simp only [taken, if_pos gone]
      cases entry.2.lane with
      | none => exact ih
      | some lane => exact ih.cons lane
    · have kept : (entry.2.shutdown fd).lane = entry.2.lane := by
        rw [PeerState.shutdown, if_neg gone, PeerState.bound_lane]
      simp only [kept, if_neg gone]
      cases entry.2.lane with
      | none => exact ih
      | some lane => exact (ih.cons lane).trans List.perm_middle.symm

theorem deadLanes_other {event : BusEvent} (other : ∀ fd, event ≠ .onShutdown fd) : t.deadLanes event = [] := by
  cases event with
  | onShutdown fd => exact absurd rfl (other fd)
  | _ => rfl

/-- The lanes made so far are in the table until they are taken out of it. -/
theorem Moves.lanes {event : BusEvent} {next : DsoftbusTransport} (moves : t.Moves event next)
    (distinct : (t.peers.map Prod.fst).Nodup) (idle : t.Idle) :
    (t.heldLanes ++ (t.newLane event).toList).Perm (t.deadLanes event ++ next.heldLanes) ∧ next.Idle := by
  cases moves with
  | quiet same noLane other =>
    rw [noLane, deadLanes_other other, Option.toList_none, List.append_nil, List.nil_append]
    exact ⟨same.lanes.1.symm, same.lanes.2 idle⟩
  | @connects fd networkId limit st lane found free =>
    obtain ⟨entered, enteredIdle⟩ := @enter_lanes t networkId
    obtain ⟨held, stillIdle⟩ := connect_lanes (nodup_enter distinct) (enteredIdle idle) found free fd limit
    rw [lane]
    exact ⟨(List.perm_append_singleton _ _).trans ((entered.symm.cons _).trans held.symm), stillIdle⟩
  | @unlistens fd listening =>
    rw [show t.deadLanes (.onShutdown fd) = [] from if_pos listening]
    exact ⟨.of_eq (List.append_nil _), idle⟩
  | @shuts fd other =>
    rw [show t.deadLanes (.onShutdown fd) = _ from if_neg other]
    refine ⟨(List.Perm.of_eq (List.append_nil _)).trans (shutdown_lanes fd t.peers), ?_⟩
    intro _ member
    obtain ⟨entry, inside, rfl⟩ := List.mem_map.mp member
    dsimp only [PeerState.shutdown]
    split
    · exact fun _ => rfl
    · rw [PeerState.bound_socketFd, PeerState.bound_lane]
      exact idle entry inside

theorem Quiet.socket {next : DsoftbusTransport} (quiet : t.Quiet next) :
    next.listenFd = t.listenFd ∧ next.running = t.running := by
  induction quiet with
  | refl => exact ⟨rfl, rfl⟩
  | @enter next _ networkId ih =>
    have same : (next.enter networkId).listenFd = next.listenFd ∧ (next.enter networkId).running = next.running := by
      unfold DsoftbusTransport.enter
      split <;> exact ⟨rfl, rfl⟩
    exact ⟨same.1.trans ih.1, same.2.trans ih.2⟩
  | pending _ networkId only ih => exact ih

/-- Only `on_shutdown` of the listening socket touches `running_`. -/
theorem Moves.socket {event : BusEvent} {next : DsoftbusTransport} (moves : t.Moves event next) :
    next.listenFd = t.listenFd ∧
      (next.running = true ↔ t.running = true ∧ ∀ fd ∈ t.listenFd, event ≠ .onShutdown fd) := by
  cases moves with
  | quiet same _ other =>
    rw [same.socket.2]
    exact ⟨same.socket.1, (and_iff_left (fun fd _ => other fd)).symm⟩
  | @connects _ networkId =>
    have entered := (@Quiet.refl t |>.enter networkId).socket
    refine ⟨entered.1, ?_⟩
    rw [show (DsoftbusTransport.update _ networkId _).running = t.running from entered.2]
    exact (and_iff_left (fun _ _ same => BusEvent.noConfusion same)).symm
  | unlistens listening => exact ⟨rfl, iff_of_false Bool.false_ne_true (fun both => both.2 _ listening rfl)⟩
  | shuts other =>
    refine ⟨rfl, (and_iff_left (fun listen listening same => ?_)).symm⟩
    exact other (BusEvent.onShutdown.inj same ▸ listening)

end DsoftbusTransport

namespace BusProcess
variable {p : BusProcess}

/-- A lane that is not stopped yet is in the table. -/
structure LanesHeld (p : BusProcess) : Prop where
  distinct : (p.transport.peers.map Prod.fst).Nodup
  idle : p.transport.Idle
  lanes : p.made.Perm (p.stopped ++ p.transport.heldLanes)

theorem LanesHeld.step (held : p.LanesHeld) (event : Event) : (p.step event).LanesHeld := by
  cases event with
  | send peer data => exact held
  | bus event =>
    rw [BusProcess.step]
    split
    · obtain ⟨moved, idle⟩ := (p.transport.step_moves event).lanes held.distinct held.idle
      refine ⟨(p.transport.step_moves event).nodup held.distinct, idle, ?_⟩
      have before := held.lanes.append_right (p.transport.newLane event).toList
      have after := moved.append_left p.stopped
      rw [List.append_assoc] at before
      have both := before.trans after
      rwa [← List.append_assoc p.stopped] at both
    · exact held

/-- With every lane held, the table accounts for all that have to be stopped. -/
theorem LanesHeld.release (held : p.LanesHeld) : p.release.TornDown := ⟨rfl, rfl, rfl, rfl, held.lanes⟩

/-- The transport listens on this socket, and the callbacks find it. -/
structure Listening (p : BusProcess) (fd : Fd) : Prop where
  listenFd : p.transport.listenFd = some fd
  instanceSet : p.instanceSet = true
  pollThread : p.pollThread = true

theorem Listening.step {fd : Fd} (listening : p.Listening fd) (event : Event) : (p.step event).Listening fd := by
  cases event with
  | send peer data => exact listening
  | bus event =>
    rw [BusProcess.step]
    split
    · exact ⟨(p.transport.step_moves event).socket.1.trans listening.listenFd, listening.instanceSet, listening.pollThread⟩
    · exact listening

theorem Listening.run {fd : Fd} (listening : p.Listening fd) (events : List Event) :
    (Run.exec BusProcess.step p events).Listening fd :=
  @Run.invariant _ _ BusProcess.step (fun p => p.Listening fd) (fun _ event before => before.step event) p events listening

theorem Listening.running_step {fd : Fd} (listening : p.Listening fd) (event : Event) :
    (p.step event).transport.running = true ↔ p.transport.running = true ∧ event ≠ .bus (.onShutdown fd) := by
  cases event with
  | send peer data => exact (and_iff_left (fun same => Event.noConfusion same)).symm
  | bus event =>
    have runs : p.runs event = true := by
      cases event with
      | onBind | onShutdown | onError | onBytesReceived => exact listening.instanceSet
      | connectOnlinePeers | bindPeer | bindFailed => exact listening.pollThread
    rw [BusProcess.step, if_pos runs, (p.transport.step_moves event).socket.2, listening.listenFd]
    simp

/-- The flag says whether the listening socket was shut down. -/
theorem Listening.running_run {fd : Fd} (listening : p.Listening fd) (events : List Event) :
    (Run.exec BusProcess.step p events).transport.running = true ↔
      p.transport.running = true ∧ .bus (.onShutdown fd) ∉ events := by
  induction events generalizing p with
  | nil => simp
  | cons event rest ih =>
    rw [Run.exec_cons, ih (listening.step event), listening.running_step event, List.mem_cons, not_or, and_assoc]
    refine and_congr_right (fun _ => and_congr_left (fun _ => ne_comm))

/-- A transport that was not started does nothing. -/
theorem run_unstarted (unset : p.instanceSet = false) (joined : p.pollThread = false) (events : List Event) :
    Run.exec step p events = p := by
  induction events with
  | nil => rfl
  | cons event rest ih =>
    have silent : p.step event = p := by
      cases event with
      | send peer data => rfl
      | bus event =>
        refine if_neg ?_
        cases event <;> simp [runs, unset, joined]
    rw [Run.exec_cons, silent, ih]

/-- `start` on a fresh transport, with no other one around. -/
theorem start_fresh (socket : Option Fd) (listens : Bool) :
    (∃ fd, socket = some fd ∧ listens = true ∧
      start {} socket listens = ({ transport := { listenFd := some fd }, instanceSet := true, pollThread := true }, true)) ∨
    ((∀ fd ∈ socket, listens ≠ true) ∧ start {} socket listens = ({}, false)) := by
  cases socket with
  | none => exact Or.inr ⟨fun fd none => absurd none (Option.some_ne_none fd).symm, rfl⟩
  | some fd =>
    cases listens with
    | true => exact Or.inl ⟨fd, rfl, rfl, rfl⟩
    | false => exact Or.inr ⟨fun _ _ => Bool.false_ne_true, rfl⟩

/-- `stop` leaves nothing behind, and nothing in the way of the next start,
exactly if the listening socket was not shut down before. -/
theorem stop_tears_down_iff (socket : Option Fd) (listens : Bool) (events during : List Event) :
    let p := (Run.exec step (start {} socket listens).1 events).stop during
    p.TornDown ∧ (∀ fd, (start { instanceSet := p.instanceSet } (some fd) true).2 = true) ↔
      ∀ fd ∈ socket, listens = true → .bus (.onShutdown fd) ∉ events := by
  intro p
  rcases start_fresh socket listens with ⟨fd, rfl, rfl, started⟩ | ⟨failed, started⟩
  · have listening : (start {} (some fd) true).1.Listening fd := by
      rw [started]
      exact ⟨rfl, rfl, rfl⟩
    have held : (start {} (some fd) true).1.LanesHeld := by
      rw [started]
      exact ⟨List.nodup_nil, fun entry inside => absurd inside List.not_mem_nil, .refl _⟩
    have before : (Run.exec step (start {} (some fd) true).1 events).LanesHeld :=
      Run.invariant (fun _ event held => held.step event) events held
    have runs := listening.running_run events
    have still := listening.run events
    by_cases lost : .bus (.onShutdown fd) ∈ events
    · -- `stop` returns at once, and `s_instance` still points to the transport.
      have kept : p = Run.exec step (start {} (some fd) true).1 events := if_neg (fun running => (runs.mp running).2 lost)
      refine iff_of_false (fun done => ?_) (fun never => never fd rfl rfl lost)
      rw [kept] at done
      exact absurd (done.1.instanceSet.symm.trans still.instanceSet) Bool.false_ne_true
    · have running := runs.mpr ⟨by rw [started], lost⟩
      have released : p = BusProcess.release _ := if_pos running
      refine iff_of_true ?_ (fun other found _ => Option.some.inj found ▸ lost)
      rw [released]
      refine ⟨LanesHeld.release ?_, fun _ => rfl⟩
      exact Run.invariant (fun _ event held => held.step event) during ⟨before.distinct, before.idle, before.lanes⟩
  · have kept : p = {} := by
      have same : (start {} socket listens).1 = {} := congrArg Prod.fst started
      have idle : Run.exec step (start {} socket listens).1 events = {} := by rw [same, run_unstarted rfl rfl]
      exact (congrArg (fun before => stop before during) idle).trans (if_neg Bool.false_ne_true)
    refine iff_of_true ?_ (fun fd found listening => absurd listening (failed fd found))
    rw [kept]
    exact ⟨⟨rfl, rfl, rfl, rfl, .refl _⟩, fun _ => rfl⟩

/-- The listening socket is shut down before `stop`: the transport stays
`s_instance`, and the next one cannot start. -/
theorem stop_leaves_instance :
    let p := (Run.exec step (start {} (some 1) true).1 [.bus (.onBind 5 ⟨[1]⟩ 0), .bus (.onShutdown 1)]).stop []
    ¬ p.TornDown ∧ p.transport.peers ≠ [] ∧ p.transport.listenFd = some 1 ∧ p.instanceSet = true ∧
      p.pollThread = true ∧ p.made = [(1, 5)] ∧ p.stopped = [] ∧
      (start { instanceSet := p.instanceSet } (some 2) true).2 = false := by
  intro p
  have left : p.transport.peers ≠ [] := by decide
  exact ⟨fun done => left done.peers, left, by decide⟩

end BusProcess

end Mdds
