import Mdds.Dsoftbus
import Mdds.Udp

namespace Mdds

/-- The peer gets the next periodic announce and the next heartbeats. -/
def Running.Reaches (s : Running) (peer : PeerId) : Prop :=
  (s.loop = .broadcasting → (peer, .announce s.snapshot s.announceSeq) ∈ (s.step .broadcastAnnounce).2) ∧
    (s.loop = .beating → ∀ body ∈ s.heartbeats, (peer, .heartbeat body) ∈ (s.step .sendHeartbeats).2)

theorem Running.reaches {s : Running} {peer : PeerId} (up : peer ∈ s.peers) : s.Reaches peer := by
  constructor
  · intro phase
    simp only [step, phase, if_true]
    exact List.mem_map_of_mem up
  · intro phase body listed
    simp only [step, phase, if_true]
    exact List.mem_flatMap.mpr ⟨peer, up, List.mem_map_of_mem listed⟩

namespace Stack
variable {τ ε : Type}

/-- A peer of this transport about which no notification is in flight is held
by the participant exactly if it is connected, and then it gets the broadcasts. -/
def Agrees (index : Nat) (connected : τ → PeerId → Prop) (s : Stack τ) : Prop :=
  ∀ peer, Relayed index peer → (∀ call ∈ s.calls, call.tells index peer = none) →
    (peer ∈ s.participant.peers ↔ connected s.transport peer) ∧ (connected s.transport peer → s.participant.Reaches peer)

theorem agrees_after {B : Backend τ ε} {index : Nat} {inv : τ → Prop} {admitted : τ → ε → Prop}
    {connected : τ → PeerId → Prop} (law : B.Announces index inv admitted connected) {t : τ} (initially : inv t)
    (nobody : ∀ peer, ¬ connected t peer) (owner : GuidPrefix) {events : List (Event ε)}
    (allowed : Run.Along (step B index) (Admitted B index admitted) ⟨t, [], Running.create owner⟩ events) :
    (Run.exec (step B index) ⟨t, [], Running.create owner⟩ events).Agrees index connected := by
  have track : OnTrack index inv connected ⟨t, [], Running.create owner⟩ :=
    ⟨initially, fun peer => iff_of_false (fun holds => absurd holds.2 List.not_mem_nil) (nobody peer)⟩
  intro peer relayed quiet
  have agree := OnTrack.agree law track allowed relayed quiet
  exact ⟨agree, fun up => Running.reaches (agree.mpr up)⟩

/-- Whatever the two backends go through, they and the participant agree on
who is up as long as the calls about a peer reach the participant in the
order of the table changes they tell of. -/
theorem peers_agree (index : Nat) (owner : GuidPrefix) (udp : UdpLoopbackTransport) (bus : DsoftbusTransport)
    {datagrams : List (Event UdpEvent)} {callbacks : List (Event BusEvent)}
    (udpOrdered : Run.Along (step udpBackend index) (InOrder udpBackend index)
      ⟨{ udp with peers := [] }, [], Running.create owner⟩ datagrams)
    (busOrdered : Run.Along (step dsoftbusBackend index) (Admitted dsoftbusBackend index DsoftbusTransport.Admits)
      ⟨{ bus with peers := [], nextPeerId := 1 }, [], Running.create owner⟩ callbacks) :
    (Run.exec (step udpBackend index) ⟨{ udp with peers := [] }, [], Running.create owner⟩ datagrams).Agrees index
        (UdpLoopbackTransport.Knows index) ∧
      (Run.exec (step dsoftbusBackend index) ⟨{ bus with peers := [], nextPeerId := 1 }, [], Running.create owner⟩
        callbacks).Agrees index (DsoftbusTransport.Linked index) := by
  constructor
  · have keyed : UdpLoopbackTransport.Keyed { udp with peers := [] } :=
      ⟨List.nodup_nil, fun _ member => absurd member List.not_mem_nil⟩
    refine agrees_after (UdpLoopbackTransport.announces index) keyed ?_ owner ?_
    · rintro peer ⟨_, member, _⟩
      exact absurd member List.not_mem_nil
    · refine (Run.along_congr (fun s event => ?_) _ _).mpr udpOrdered
      cases event with
      | transport => exact iff_of_true (fun _ => trivial) trivial
      | _ => exact Iff.rfl
  · refine agrees_after (DsoftbusTransport.announces index) ?_ ?_ owner busOrdered
    · refine ⟨List.nodup_nil, rfl, Nat.two_pow_pos 56, ?_, ?_, ?_, ?_⟩ <;>
        exact fun _ member => absurd member List.not_mem_nil
    · rintro peer ⟨_, member, _⟩
      exact absurd member List.not_mem_nil

/-- A presence datagram of the first other process of this host. -/
def ping (now : Nat) : Event UdpEvent :=
  .transport (.receive kLoopbackIp 47812 [0x00, 0x50, 0x49, 0x4E, 0x47, 0, 0, 0, 0, 0, 0, 0] now)

/-- The swept peer is heard again, and the news of its return overtakes the
news of its loss; the same on the DSoftBus side when a new channel is bound
while the loss of the old one is still being told. -/
theorem peers_disagree :
    ¬ (Run.exec (step udpBackend 0) ⟨{}, [], Running.create ⟨List.replicate 12 0, rfl⟩⟩
        [ping 0, .call 0 default, .own (.sendAnnounce 0), .transport (.sweepPeers 2000000001),
          ping 2000000002, .call 1 default,
          .own (.sendAnnounce 0), .call 0 default]).Agrees 0 (UdpLoopbackTransport.Knows 0) ∧
      ¬ (Run.exec (step dsoftbusBackend 0) ⟨{}, [], Running.create ⟨List.replicate 12 0, rfl⟩⟩
        [.transport (.onBind 5 ⟨[0x62]⟩ 0), .call 0 default, .own (.sendAnnounce 0), .transport (.onShutdown 5),
          .transport (.onBind 6 ⟨[0x62]⟩ 0), .call 1 default, .own (.sendAnnounce 0), .call 0 default]).Agrees 0
            (DsoftbusTransport.Linked 0) := by
  constructor
  · intro agrees
    have there := (agrees (makePeerKey kLoopbackIp 47812) (by decide) (by decide)).1.mpr
      ⟨makePeerKey kLoopbackIp 47812, by decide, by decide⟩
    exact absurd there (by decide)
  · intro agrees
    have there := (agrees 1 (by decide) (by decide)).1.mpr ⟨_, List.mem_cons_self, by decide⟩
    exact absurd there (by decide)

/-- A peer that comes and goes without its notifications overtaking each other. -/
theorem peers_agree_in_order :
    (Run.exec (step udpBackend 0) ⟨{}, [], Running.create ⟨List.replicate 12 0, rfl⟩⟩
        [ping 0, .call 0 default, .transport (.sweepPeers 2000000001), .call 0 default]).Agrees 0
          (UdpLoopbackTransport.Knows 0) ∧
      (Run.exec (step dsoftbusBackend 0) ⟨{}, [], Running.create ⟨List.replicate 12 0, rfl⟩⟩
        [.transport (.onBind 5 ⟨[0x62]⟩ 0), .call 0 default, .transport (.onShutdown 5), .call 0 default]).Agrees 0
          (DsoftbusTransport.Linked 0) := by
  exact @peers_agree 0 ⟨List.replicate 12 0, rfl⟩ {} {}
    [ping 0, .call 0 default, .transport (.sweepPeers 2000000001), .call 0 default]
    [.transport (.onBind 5 ⟨[0x62]⟩ 0), .call 0 default, .transport (.onShutdown 5), .call 0 default] (by decide) (by decide)

end Stack

namespace Running

/-- Whatever the order of the callbacks, every remote participant and every
partial sample belongs to a peer that is up, and a peer that went down leaves
nothing behind until it comes up again, exactly if every announce and every
fragment is handled while its peer is up. -/
theorem no_zombie_iff (owner : GuidPrefix) (turns : List Section) :
    ((∀ first, first <+: turns → (Run.exec (fun s turn => (s.step turn).1) (create owner) first).NoZombie) ∧
      ∀ first peer later, first ++ .peerDown peer :: later <+: turns → .peerUp peer ∉ later →
        (Run.exec (fun s turn => (s.step turn).1) (create owner) (first ++ .peerDown peer :: later)).Forgotten peer) ↔
    Run.Along (fun s turn => (s.step turn).1) Attributed (create owner) turns := by
  have initially : (create owner).NoZombie :=
    ⟨fun _ member => absurd member List.not_mem_nil, fun _ member => absurd member List.not_mem_nil⟩
  have exactly := @Run.always_iff_along _ _ (fun (s : Running) turn => (s.step turn).1) NoZombie Attributed (create owner)
    turns (fun first turn _ clean => (clean first (List.prefix_refl first)).step turn) initially
  refine ⟨fun always => exactly.mp always.1, fun attributed => ⟨exactly.mpr attributed, ?_⟩⟩
  intro first peer later inside absent
  refine (exactly.mpr attributed _ inside).forgotten ?_
  rw [Run.exec_append, Run.exec_cons]
  exact down_until_up (fun member => (mem_peers_peerDown.mp member).1 rfl) absent

/-- The receiving thread has checked the sender of a fragment when the sweep
drops that peer, and hands the fragment over after the participant has heard
of the loss. -/
theorem zombie_after_down :
    ¬ (Run.exec (Stack.step udpBackend 0) ⟨{}, [], create ⟨List.replicate 12 0, rfl⟩⟩
        [Stack.ping 0, .call 0 default, .own (.sendAnnounce 0),
          .transport (.receive kLoopbackIp 47812 (encodeDataFrag default 1 0 2 0 [0x61] 0 none) 1000000000),
          .transport (.sweepPeers 2000000001), .call 1 default, .call 0 default]).participant.NoZombie := by
  intro clean
  exact absurd (clean.partials (makePeerKey kLoopbackIp 47812) (by decide)) (by decide)

end Running

end Mdds
