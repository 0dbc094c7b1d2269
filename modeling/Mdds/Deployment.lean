import Mdds.Domain
import Mdds.UdpNetwork

namespace Mdds

/-- `peer_transport_index`. -/
def peerTransportIndex (peer : PeerId) : Nat := (peer >>> 56).toNat

namespace Stack
variable (s : Stack UdpLoopbackTransport)

/-- `max_payload` of a participant that has no other transport. -/
def maxPayload (peer : PeerId) : Nat := if peerTransportIndex peer = 0 then s.transport.udpMaxPayload else 0

/-- `send_frame`, up to the socket. -/
def accepts (peer : PeerId) (data : Bytes) : Bool :=
  decide (peerTransportIndex peer = 0) && s.transport.accepts (peerBackendId peer) data

/-- What the section of an event hands to `send_frame`. -/
def frames (event : Event UdpEvent) : List (PeerId × Bytes) :=
  (s.turn udpBackend 0 event).toList.flatMap (fun turn => (s.participant.step turn).2.flatMap (fun send =>
    (send.2.encode (s.maxPayload send.1)).map (send.1, ·)))

end Stack

/-- Participants, each on a UDP transport of its own, with the frames that wait
for `send_frame` and every datagram sent. -/
structure Deployment (ι : Type) where
  stack : ι → Stack UdpLoopbackTransport
  outbox : ι → List (PeerId × Bytes) := fun _ => []
  wire : List (UdpDatagram ι) := []

/-- `send` says which process a datagram will reach, and which of the sender's
addresses it will seem to come from. -/
inductive DeploymentEvent (ι : Type)
  | presence (p q : ι) (fromIp : U32)
  | send (p : ι) (index : Nat) (q : ι) (fromIp : U32)
  | arrive (index : Nat) (now : Nat)
  | sweepPeers (p : ι) (now : Nat)
  | call (p : ι) (index : Nat) (clocks : Clocks)
  | own (p : ι) (turn : Section)

namespace Deployment
variable {ι : Type} [DecidableEq ι] (d : Deployment ι)

/-- The network of the transports. -/
def net : UdpNet ι where
  node p := (d.stack p).transport
  wire := d.wire

def perform (p : ι) (event : Stack.Event UdpEvent) : Deployment ι where
  stack := Function.update d.stack p (Stack.step udpBackend 0 (d.stack p) event)
  outbox := Function.update d.outbox p (d.outbox p ++ (d.stack p).frames event)
  wire := d.wire

def step : DeploymentEvent ι → Deployment ι
  | .presence p q fromIp => { d with wire := d.wire ++ [⟨p, fromIp, q, presencePacket (d.stack p).transport.domainId⟩] }
  | .send p index q fromIp =>
    match (d.outbox p)[index]? with
    | none => d
    | some (peer, data) =>
      { d with
        outbox := Function.update d.outbox p ((d.outbox p).eraseIdx index)
        wire := if (d.stack p).accepts peer data then d.wire ++ [⟨p, fromIp, q, data⟩] else d.wire }
  | .arrive index now =>
    match d.wire[index]? with
    | none => d
    | some x => d.perform x.dest (.transport (.receive x.fromIp (d.stack x.source).transport.port x.bytes now))
  | .sweepPeers p now => d.perform p (.transport (.sweepPeers now))
  | .call p index clocks => d.perform p (.call index clocks)
  | .own p turn => d.perform p (.own turn)

/-- The section that the participant goes through, with the limits of its transport. -/
def sectionsOf (p : ι) (event : Stack.Event UdpEvent) : List (ι × Turn) :=
  ((d.stack p).turn udpBackend 0 event).toList.map (fun turn => (p, ⟨turn, (d.stack p).maxPayload⟩))

def sections : DeploymentEvent ι → List (ι × Turn)
  | .call p index clocks => d.sectionsOf p (.call index clocks)
  | .own p turn => d.sectionsOf p (.own turn)
  | _ => []

end Deployment

theorem getLsbD_peerBackendId (peer : PeerId) (i : Nat) :
    (peerBackendId peer).getLsbD i = (peer.getLsbD i && decide (i < 56)) := by
  rw [peerBackendId, BitVec.getLsbD_and, show (0x00ffffffffffffff#64) = BitVec.ofNat 64 (2 ^ 56 - 1) from rfl,
    BitVec.getLsbD_ofNat, Nat.testBit_two_pow_sub_one]
  by_cases low : i < 56
  · simp [low, show i < 64 by omega]
  · simp [low]

/-- The transport index does not touch the address. -/
theorem PeerId.ip_backend (peer : PeerId) : (peerBackendId peer).ip = peer.ip := by
  refine BitVec.eq_of_getLsbD_eq (fun i small => ?_)
  simp only [PeerId.ip, BitVec.getLsbD_setWidth, BitVec.getLsbD_ushiftRight, getLsbD_peerBackendId]
  simp [show 16 + i < 56 by omega]

theorem PeerId.port_backend (peer : PeerId) : (peerBackendId peer).port = peer.port := by
  refine BitVec.eq_of_getLsbD_eq (fun i small => ?_)
  simp only [PeerId.port, BitVec.getLsbD_setWidth, getLsbD_peerBackendId]
  simp [show i < 56 by omega]

/-- A frame that lost its end has no header that a decoder accepts. -/
theorem decodeHeader_cut {type : FrameType} {flags : U16} {body : Bytes} {n : Nat}
    (short : (encodeFrame type flags body).length < 2 ^ 32) (cut : n < (encodeFrame type flags body).length) :
    decodeHeader ((encodeFrame type flags body).take n) = none := by
  have length : (encodeFrame type flags body).length = kHeaderSize + body.length := by
    rw [encodeFrame, List.length_append, encodeHeader_length]
  unfold decodeHeader
  by_cases header : n < kHeaderSize
  · rw [if_pos]
    rw [List.length_take]
    exact lt_of_le_of_lt (Nat.min_le_left ..) header
  · have split : (encodeFrame type flags body).take n =
        encodeHeader type flags (BitVec.ofNat 32 body.length) ++ body.take (n - kHeaderSize) := by
      rw [encodeFrame, List.take_append, List.take_of_length_le (by rw [encodeHeader_length]; omega), encodeHeader_length]
    have lenAt : getU32 ((encodeHeader type flags (BitVec.ofNat 32 body.length) ++ body.take (n - kHeaderSize)).drop 8) =
        BitVec.ofNat 32 body.length := getU32_putU32 ..
    have bodyLen : (BitVec.ofNat 32 body.length).toNat = body.length := by
      rw [BitVec.toNat_ofNat, Nat.mod_eq_of_lt (by omega)]
    rw [split]
    dsimp only
    rw [lenAt, bodyLen]
    have missing : (encodeHeader type flags (BitVec.ofNat 32 body.length) ++ body.take (n - kHeaderSize)).length -
        kHeaderSize < body.length := by
      rw [List.length_append, encodeHeader_length, List.length_take]
      omega
    rw [if_pos missing]
    simp only [ite_self]

/-- Bytes without a header are junk. -/
theorem junk_of_header {bytes : Bytes} (header : decodeHeader bytes = none) : Junk bytes where
  data := by
    cases decoded : decodeData bytes with
    | none => rfl
    | some body =>
      have typed := decodeData_type decoded
      rw [header] at typed
      cases typed
  fragment := by
    cases decoded : decodeDataFrag bytes with
    | none => rfl
    | some body =>
      have typed := decodeDataFrag_type decoded
      rw [header] at typed
      cases typed
  announce := by
    cases decoded : decodeAnnounce bytes with
    | none => rfl
    | some content =>
      have typed := decodeAnnounce_type decoded
      rw [header] at typed
      cases typed

namespace Deployment
variable {ι : Type} [DecidableEq ι] (sites : UdpSites ι) (owners : ι → GuidPrefix)

def start : Deployment ι where
  stack p := { transport := sites.transport p, participant := Running.create (owners p) }

/-- Datagrams keep to the addresses, the participants have no other transport,
and nothing of theirs runs out. -/
def Admits (d : Deployment ι) : DeploymentEvent ι → Prop
  | .presence p q fromIp => sites.At q fromIp p
  | .send p index q fromIp => ∀ entry ∈ (d.outbox p)[index]?, (d.stack p).accepts entry.1 entry.2 = true →
      sites.At q fromIp p ∧ sites.Names p (peerBackendId entry.1) q
  | .own p turn => turn.caller = none ∧ (d.stack p).participant.Within turn
  | _ => True

instance (d : Deployment ι) : ∀ event, Decidable (Admits sites d event)
  | .presence p q fromIp => inferInstanceAs (Decidable (sites.At q fromIp p))
  | .send p index q fromIp => inferInstanceAs (Decidable (∀ entry ∈ (d.outbox p)[index]?,
      (d.stack p).accepts entry.1 entry.2 = true → sites.At q fromIp p ∧ sites.Names p (peerBackendId entry.1) q))
  | .own _ _ => inferInstanceAs (Decidable (_ ∧ _))
  | .arrive .. | .sweepPeers .. | .call .. => isTrue trivial

variable (turns : List (ι × Turn))

/-- The participant has handed the frame to `send_frame`. -/
def Handed (p : ι) (data : Bytes) : Prop :=
  ∃ first t rest, turns = first ++ (p, t) :: rest ∧
    ∃ send ∈ (((Domain.run owners first).node p).step t.turn).2, data ∈ send.2.encode (t.limits send.1)

/-- Handed over, and of a length that the transport takes. -/
def Posted (p _q : ι) (data : Bytes) : Prop :=
  Handed owners turns p data ∧ data.length ≤ (sites.transport p).udpMaxPayload

variable {sites owners turns} {p q : ι} {data : Bytes}

theorem Handed.append (handed : Handed owners turns p data) (more : List (ι × Turn)) :
    Handed owners (turns ++ more) p data := by
  obtain ⟨first, t, rest, rfl, sent⟩ := handed
  exact ⟨first, t, rest ++ more, by simp, sent⟩

theorem Handed.on_wire (handed : Handed owners turns p data) : data ∈ (Domain.run owners turns).wire := by
  obtain ⟨first, t, rest, rfl, send, member, encoded⟩ := handed
  have earlier : (Domain.run owners (first ++ [(p, t)])).wire <+: _ := Soup.wire_append _ _ rest
  rw [List.append_assoc, List.singleton_append] at earlier
  refine earlier.subset ?_
  rw [Domain.run, Run.exec_snoc]
  exact List.mem_append_right _ (List.mem_flatMap.mpr ⟨send, member, encoded⟩)

theorem Handed.plain (handed : Handed owners turns p data) (limit : Nat) : presenceDomain (data.take limit) = none := by
  obtain ⟨_, _, _, _, _, _, encoded⟩ := handed
  exact presenceDomain_frame encoded limit

/-- Cut to a buffer, a frame is whole or junk. -/
theorem Handed.cut (handed : Handed owners turns p data) (short : data.length < 2 ^ 32) (n : Nat) :
    data.take n = data ∨ Junk (data.take n) := by
  obtain ⟨_, _, _, _, _, _, encoded⟩ := handed
  obtain ⟨type, flags, body, rfl⟩ := Frame.encode_framed encoded
  rcases Nat.lt_or_ge n (encodeFrame type flags body).length with less | enough
  · exact Or.inr (junk_of_header (decodeHeader_cut short less))
  · exact Or.inl (List.take_of_length_le enough)

/-- A frame only says what its sender has said. -/
theorem Handed.genuine (distinct : Function.Injective owners) (admitted : Domain.Admitted owners turns)
    (handed : Handed owners turns p data) : Genuine (fun _ : Unit => Domain.told owners turns p) data := by
  obtain ⟨first, t, rest, rfl, send, member, encoded⟩ := handed
  obtain ⟨before, admits, _⟩ := (Run.along_append _).mp admitted
  have ledger := ((Domain.run_sound distinct before).1 p).ledger
  have known : ∀ fact ∈ Domain.told owners first p ++ ((Domain.run owners first).node p).tells t.turn,
      fact ∈ Domain.told owners (first ++ (p, t) :: rest) p := by
    intro fact said
    have later : Domain.told owners (first ++ [(p, t)]) p <+: _ := Soup.told_append _ _ rest p
    rw [List.append_assoc, List.singleton_append] at later
    refine later.subset ?_
    rw [Domain.told, Soup.told_snoc, Soup.tell_self]
    exact said
  exact (ledger.sends admits.within (fun fact said => ⟨(), known fact said⟩) member).genuine (admits.limits send.1) encoded

/-- The participants are those of a domain that went through `turns`, on
transports that lead them to each other. -/
structure Sound (sites : UdpSites ι) (owners : ι → GuidPrefix) (turns : List (ι × Turn)) (d : Deployment ι) : Prop where
  net : sites.Sound (Posted sites owners turns) d.net
  party : ∀ p, (d.stack p).participant = (Domain.run owners turns).node p
  outbox : ∀ p, ∀ entry ∈ d.outbox p, Handed owners turns p entry.2
  calls : ∀ p, ∀ call ∈ (d.stack p).calls, sites.Attributed (Posted sites owners turns) p call
  remote : ∀ q, ∀ entry ∈ (d.stack q).participant.remote, ∃ p, p ≠ q ∧ entry.1 = makeGuid (owners p) .participant 0 ∧
    sites.Names q (peerBackendId entry.2.peer) p

theorem perform_net (d : Deployment ι) (p : ι) (event : Stack.Event UdpEvent) : (d.perform p event).net =
    { d.net with node := Function.update d.net.node p (Stack.step udpBackend 0 (d.stack p) event).transport } := by
  have nodes : (d.perform p event).net.node =
      Function.update d.net.node p (Stack.step udpBackend 0 (d.stack p) event).transport := by
    funext q
    by_cases here : q = p
    · subst here
      simp [net, perform]
    · simp [net, perform, here]
  rw [← nodes]
  rfl

/-- The transport of a node takes a step, if its thread is free to. -/
theorem Sound.transport {d : Deployment ι} (sound : d.Sound sites owners turns) {event : UdpEvent}
    (kept : sites.Sound (Posted sites owners turns)
      { d.net with node := Function.update d.net.node p ((d.net.node p).step event).1 })
    (told : ∀ call ∈ ((d.net.node p).step event).2, sites.Attributed (Posted sites owners turns) p call) :
    (d.perform p (.transport event)).Sound sites owners turns := by
  have quiet : (d.perform p (.transport event)).outbox = d.outbox := by
    simp [perform, Stack.frames, Stack.turn]
  have others {q : ι} (differ : q ≠ p) : (d.perform p (.transport event)).stack q = d.stack q :=
    Function.update_of_ne differ ..
  have here : (d.perform p (.transport event)).stack p = Stack.step udpBackend 0 (d.stack p) (.transport event) :=
    Function.update_self ..
  have parties (q : ι) : ((d.perform p (.transport event)).stack q).participant = (d.stack q).participant := by
    by_cases same : q = p
    · subst same
      rw [here]
      rfl
    · rw [others same]
  refine ⟨?_, fun q => (parties q).trans (sound.party q), quiet ▸ sound.outbox, fun q call member => ?_, fun q => ?_⟩
  · rw [perform_net]
    by_cases free : (d.stack p).mayStep udpBackend event = true
    · simp only [Stack.step, free, if_true]
      exact kept
    · simp only [Stack.step, free, Bool.false_eq_true, if_false]
      rw [show (d.stack p).transport = d.net.node p from rfl, Function.update_eq_self]
      exact sound.net
  · by_cases same : q = p
    · subst same
      rw [here] at member
      simp only [Stack.step] at member
      split at member
      · rcases List.mem_append.mp member with waiting | new
        · exact sound.calls q call waiting
        · exact told call new
      · exact sound.calls q call member
    · rw [others same] at member
      exact sound.calls q call member
  · rw [parties]
    exact sound.remote q

/-- What came from a process is whole or junk, and says only what that process
has said. -/
theorem received (distinct : Function.Injective owners) (limits : ∀ p, (sites.transport p).udpMaxPayload < 2 ^ 32)
    (admitted : Domain.Admitted owners turns) {origin : PeerId}
    (attributed : sites.Attributed (Posted sites owners turns) q (.bytes origin data)) :
    ∃ p, p ≠ q ∧ sites.Names q origin p ∧ (data ∈ (Domain.run owners turns).wire ∨ Junk data) ∧
      Genuine (fun _ : Unit => Domain.told owners turns p) data := by
  obtain ⟨p, differ, _, names, bytes⟩ := attributed
  obtain ⟨whole, ⟨handed, short⟩, rfl⟩ := bytes data rfl
  refine ⟨p, differ, names, ?_⟩
  rcases handed.cut (lt_of_le_of_lt short (limits p)) ((sites.transport q).udpMaxPayload + 64) with same | junk
  · rw [same]
    exact ⟨Or.inl handed.on_wire, handed.genuine distinct admitted⟩
  · exact ⟨Or.inr junk, junk.genuine⟩

/-- The participant of a node goes through a section of its own or through one
that its transport calls for. -/
theorem Sound.turn (distinct : Function.Injective owners) (limits : ∀ p, (sites.transport p).udpMaxPayload < 2 ^ 32)
    (admitted : Domain.Admitted owners turns) {d : Deployment ι} (sound : d.Sound sites owners turns)
    {event : Stack.Event UdpEvent} {turn : Section} (taken : (d.stack p).turn udpBackend 0 event = some turn)
    (within : (d.stack p).participant.Within turn)
    (heard : ∀ peer data clocks, turn = .bytes peer data clocks → ∃ origin, peer = makePeerId 0 origin ∧
      sites.Attributed (Posted sites owners turns) p (.bytes origin data)) :
    (Domain.run owners turns).Admits (p, ⟨turn, (d.stack p).maxPayload⟩) ∧
      (d.perform p event).Sound sites owners (turns ++ [(p, ⟨turn, (d.stack p).maxPayload⟩)]) := by
  have limit (peer : PeerId) : (d.stack p).maxPayload peer < 2 ^ 32 := by
    have static := congrArg UdpLoopbackTransport.udpMaxPayload (sound.net.static p)
    rw [Stack.maxPayload]
    split
    · exact lt_of_eq_of_lt static (limits p)
    · decide
  have still : (Stack.step udpBackend 0 (d.stack p) event).transport = (d.stack p).transport := by
    cases event with
    | transport e => cases taken
    | call | own => rfl
  have fewer : ∀ call ∈ (Stack.step udpBackend 0 (d.stack p) event).calls, call ∈ (d.stack p).calls := by
    intro call member
    cases event with
    | transport e => cases taken
    | call i clocks =>
      simp only [Stack.step] at member
      split at member
      · exact List.mem_of_mem_eraseIdx member
      · exact member
    | own => exact member
  have next : (Stack.step udpBackend 0 (d.stack p) event).participant = ((d.stack p).participant.step turn).1 := by
    simp only [Stack.step, taken]
  have frames : (d.stack p).frames event = ((d.stack p).participant.step turn).2.flatMap (fun send =>
      (send.2.encode ((d.stack p).maxPayload send.1)).map (send.1, ·)) := by
    simp [Stack.frames, taken]
  have others {q : ι} (differ : q ≠ p) : (d.perform p event).stack q = d.stack q := Function.update_of_ne differ ..
  have here : (d.perform p event).stack p = Stack.step udpBackend 0 (d.stack p) event := Function.update_self ..
  have more {a b : ι} {bytes : Bytes} (posted : Posted sites owners turns a b bytes) :
      Posted sites owners (turns ++ [(p, ⟨turn, (d.stack p).maxPayload⟩)]) a b bytes := ⟨posted.1.append _, posted.2⟩
  refine ⟨⟨sound.party p ▸ within, limit, fun data member => ?_⟩, ?_, fun q => ?_, fun q entry member => ?_,
    fun q call member => ?_, fun q entry member => ?_⟩
  · cases turn with
    | bytes peer bytes clocks =>
      obtain rfl := Option.mem_some.mp member
      obtain ⟨origin, _, attributed⟩ := heard peer bytes clocks rfl
      obtain ⟨_, _, _, sent, _⟩ := received distinct limits admitted attributed
      exact sent
    | _ => cases member
  · rw [perform_net, still, show (d.stack p).transport = d.net.node p from rfl, Function.update_eq_self]
    exact sound.net.mono more
  · rw [Domain.node_snoc]
    by_cases same : p = q
    · subst same
      rw [here, next, if_pos rfl, sound.party]
      rfl
    · rw [others (Ne.symm same), if_neg same]
      exact sound.party q
  · by_cases same : q = p
    · subst same
      simp only [perform, Function.update_self] at member
      rcases List.mem_append.mp member with waiting | new
      · exact (sound.outbox q entry waiting).append _
      · rw [frames] at new
        obtain ⟨send, sent, inside⟩ := List.mem_flatMap.mp new
        obtain ⟨bytes, encoded, rfl⟩ := List.mem_map.mp inside
        exact ⟨turns, _, [], rfl, send, sound.party q ▸ sent, encoded⟩
    · simp only [perform, Function.update_of_ne same] at member
      exact (sound.outbox q entry member).append _
  · refine UdpSites.Attributed.mono more ?_
    by_cases same : q = p
    · subst same
      rw [here] at member
      exact sound.calls q call (fewer call member)
    · rw [others same] at member
      exact sound.calls q call member
  · by_cases same : q = p
    · subst same
      rw [here, next] at member
      rcases Running.step_remote_origin member with ⟨old, before, _, rfl⟩ | ⟨peer, bytes, clocks, snap, seq, is, announce, rfl⟩
      · exact sound.remote q old before
      · obtain ⟨origin, rfl, attributed⟩ := heard peer bytes clocks is
        obtain ⟨p, differ, names, _, genuine⟩ := received distinct limits admitted attributed
        obtain ⟨_, said⟩ := genuine.announce snap seq announce
        have sender := ((Domain.run_sound distinct admitted).1 p)
        obtain ⟨_, guid, _⟩ := sender.ledger.announced _ _ said
        refine ⟨p, differ, guid.trans ?_, ?_⟩
        · rw [sender.ledger.guid, sender.owner]
        · rw [UdpSites.Names, peerBackendId_makePeerId, PeerId.ip_backend, PeerId.port_backend]
          exact names
    · rw [others same] at member
      exact sound.remote q entry member

/-- A call that may not be made yet, or a section that is not the
participant's own, does nothing. -/
theorem perform_idle {d : Deployment ι} {event : Stack.Event UdpEvent}
    (idle : (d.stack p).turn udpBackend 0 event = none) (call : ∀ e, event ≠ .transport e) : d.perform p event = d := by
  have same : Stack.step udpBackend 0 (d.stack p) event = d.stack p := by
    cases event with
    | transport e => exact absurd rfl (call e)
    | call i clocks =>
      have none := Option.map_eq_none_iff.mp idle
      simp only [Stack.step, idle, none, Option.isSome_none, Bool.false_eq_true, if_false]
    | own turn => simp only [Stack.step, idle]
  have silent : (d.stack p).frames event = [] := by simp [Stack.frames, idle]
  rw [perform, same, silent, List.append_nil, Function.update_eq_self, Function.update_eq_self]

section Step
variable (distinct : Function.Injective owners) (limits : ∀ p, (sites.transport p).udpMaxPayload < 2 ^ 32)
  (admitted : Domain.Admitted owners turns) {d : Deployment ι} (sound : d.Sound sites owners turns)
include distinct limits admitted sound

/-- A call or a section of one's own, whether it is taken or not. -/
theorem Sound.perform {event : Stack.Event UdpEvent} (call : ∀ e, event ≠ .transport e)
    (within : ∀ turn, (d.stack p).turn udpBackend 0 event = some turn → (d.stack p).participant.Within turn)
    (heard : ∀ peer data clocks, (d.stack p).turn udpBackend 0 event = some (.bytes peer data clocks) →
      ∃ origin, peer = makePeerId 0 origin ∧ sites.Attributed (Posted sites owners turns) p (.bytes origin data)) :
    Domain.Admitted owners (turns ++ d.sectionsOf p event) ∧
      (d.perform p event).Sound sites owners (turns ++ d.sectionsOf p event) := by
  cases taken : (d.stack p).turn udpBackend 0 event with
  | none =>
    have silent : d.sectionsOf p event = [] := by simp [sectionsOf, taken]
    rw [silent, List.append_nil, perform_idle taken call]
    exact ⟨admitted, sound⟩
  | some turn =>
    have single : d.sectionsOf p event = [(p, ⟨turn, (d.stack p).maxPayload⟩)] := by simp [sectionsOf, taken]
    obtain ⟨admits, next⟩ := sound.turn distinct limits admitted taken (within turn taken)
      (fun peer data clocks is => heard peer data clocks (is ▸ taken))
    rw [single]
    exact ⟨(Run.along_snoc _).mpr ⟨admitted, admits⟩, next⟩

theorem Sound.step {event : DeploymentEvent ι} (admits : Admits sites d event) :
    Domain.Admitted owners (turns ++ d.sections event) ∧ (d.step event).Sound sites owners (turns ++ d.sections event) := by
  cases event with
  | presence p q fromIp =>
    simp only [Deployment.sections, List.append_nil]
    exact ⟨admitted, sound.net.send (sound.net.presence admits), sound.party, sound.outbox, sound.calls, sound.remote⟩
  | send p index q fromIp =>
    simp only [Deployment.sections, List.append_nil]
    refine ⟨admitted, ?_⟩
    rw [Deployment.step]
    cases found : (d.outbox p)[index]? with
    | none => exact sound
    | some entry =>
      obtain ⟨peer, data⟩ := entry
      have handed := sound.outbox p (peer, data) (List.mem_of_getElem? found)
      refine ⟨?_, sound.party, fun r entry member => ?_, sound.calls, sound.remote⟩
      · dsimp only
        split
        · rename_i accepted
          have short : data.length ≤ (sites.transport p).udpMaxPayload := by
            have taken := (Bool.and_eq_true _ _).mp ((Bool.and_eq_true _ _).mp accepted).2
            have static := congrArg UdpLoopbackTransport.udpMaxPayload (sound.net.static p)
            exact (of_decide_eq_true taken.1).trans_eq static
          exact sound.net.send ⟨(admits (peer, data) found accepted).1, Or.inr ⟨handed.plain, handed, short⟩⟩
        · exact sound.net
      · dsimp only at member
        by_cases same : r = p
        · subst same
          rw [Function.update_self] at member
          exact sound.outbox r entry (List.mem_of_mem_eraseIdx member)
        · rw [Function.update_of_ne same] at member
          exact sound.outbox r entry member
  | arrive index now =>
    simp only [Deployment.sections, List.append_nil]
    refine ⟨admitted, ?_⟩
    rw [Deployment.step]
    cases found : d.wire[index]? with
    | none => exact sound
    | some x =>
      obtain ⟨kept, told⟩ := sound.net.arrive (List.mem_of_getElem? found : x ∈ d.net.wire) now
      exact sound.transport kept told
  | sweepPeers p now =>
    simp only [Deployment.sections, List.append_nil]
    obtain ⟨kept, told⟩ := sound.net.sweep p now
    exact ⟨admitted, sound.transport kept told⟩
  | call p index clocks =>
    have origin {turn : Section} (taken : (d.stack p).turn udpBackend 0 (.call index clocks) = some turn) :
        ∃ call ∈ (d.stack p).calls, turn = call.turn 0 clocks := by
      obtain ⟨call, waiting, same⟩ := Option.map_eq_some_iff.mp taken
      exact ⟨call, List.mem_of_getElem? (Option.filter_eq_some_iff.mp waiting).1, same.symm⟩
    refine sound.perform distinct limits admitted (fun e is => by cases is) (fun turn taken => ?_)
      (fun peer data time taken => ?_)
    · obtain ⟨call, _, rfl⟩ := origin taken
      cases call <;> trivial
    · obtain ⟨call, waiting, same⟩ := origin taken
      cases call with
      | bytes origin bytes =>
        obtain ⟨rfl, rfl, _⟩ := Section.bytes.inj same
        exact ⟨origin, rfl, sound.calls p _ waiting⟩
      | up | down => cases same
  | own p turn =>
    obtain ⟨foreign, within⟩ := admits
    have own {other : Section} (taken : (d.stack p).turn udpBackend 0 (.own turn) = some other) : other = turn := by
      rw [Stack.turn, foreign] at taken
      exact (Option.some.inj taken).symm
    refine sound.perform distinct limits admitted (fun e is => by cases is) (fun other taken => own taken ▸ within)
      (fun peer data time taken => ?_)
    rw [← own taken] at foreign
    cases foreign

end Step

/-- A reader's process, a writer's on the same host, and a third one. -/
def demoNames (p : Fin 3) : GuidPrefix := ⟨List.replicate 12 (BitVec.ofNat 8 (p.val + 1)), List.length_replicate ..⟩

theorem demoNames_injective : Function.Injective demoNames := by
  intro a b
  revert a b
  decide

theorem demoSites_limits (p : Fin 3) : (UdpSites.demoSites.transport p).udpMaxPayload < 2 ^ 32 := by
  rw [show (UdpSites.demoSites.transport p).udpMaxPayload = 60000 from rfl]
  decide

/-- Reader and writer hear of each other, announce themselves, and a sample is
written, sent and received. -/
def demoRun : List (DeploymentEvent (Fin 3)) :=
  let hear (p : Fin 3) : DeploymentEvent (Fin 3) := .call p 0 Domain.demoClocks
  [.own 1 (.createWriter 5 [0x74] [0x75] {} 0), .own 0 (.createReader 6 [0x74] [0x75] {} false 0),
    .presence 1 0 kLoopbackIp, .presence 0 1 kLoopbackIp, .arrive 0 5, .arrive 1 6, hear 0, hear 1,
    .own 1 (.sendAnnounce 0), .own 0 (.sendAnnounce 0), .send 1 0 0 kLoopbackIp, .send 0 0 1 kLoopbackIp, .arrive 2 7,
    .arrive 3 8, hear 0, hear 1, .own 1 (.write 5 2000 [7, 8] 2), .send 1 0 0 kLoopbackIp, .arrive 4 9, hear 0]

theorem demoRun_admitted :
    Run.Along step (Admits UdpSites.demoSites) (start UdpSites.demoSites demoNames) demoRun := by
  decide +kernel

theorem run_sound (distinct : Function.Injective owners) (limits : ∀ p, (sites.transport p).udpMaxPayload < 2 ^ 32)
    {events : List (DeploymentEvent ι)} (admitted : Run.Along step (Admits sites) (start sites owners) events) :
    Domain.Admitted owners (Run.log step sections (start sites owners) events) ∧
      (Run.exec step (start sites owners) events).Sound sites owners (Run.log step sections (start sites owners) events) := by
  induction events using List.reverseRecOn with
  | nil =>
    refine ⟨trivial, ⟨fun p => rfl, fun d member => ?_, fun q peer member => ?_⟩, fun p => rfl, fun p entry member => ?_,
      fun p call member => ?_, fun q entry member => ?_⟩
    · exact absurd member List.not_mem_nil
    · have none : (sites.transport q).peers = [] := sites.fresh q
      simp [net, start, none] at member
    · exact absurd member List.not_mem_nil
    · exact absurd member List.not_mem_nil
    · exact absurd member List.not_mem_nil
  | append_singleton events event ih =>
    obtain ⟨before, admits⟩ := (Run.along_snoc step).mp admitted
    rw [Run.exec_snoc, Run.log_snoc]
    obtain ⟨within, sound⟩ := ih before
    exact sound.step distinct limits within admits

/-- Participants on UDP make up a domain: whatever happens to their datagrams,
each goes through the sections of an admitted run of the domain. -/
theorem refines_domain (distinct : Function.Injective owners)
    (limits : ∀ p, (sites.transport p).udpMaxPayload < 2 ^ 32) {events : List (DeploymentEvent ι)}
    (admitted : Run.Along step (Admits sites) (start sites owners) events) :
    Domain.Admitted owners (Run.log step sections (start sites owners) events) ∧
      ∀ p, ((Run.exec step (start sites owners) events).stack p).participant =
        (Domain.run owners (Run.log step sections (start sites owners) events)).node p := by
  obtain ⟨within, sound⟩ := run_sound distinct limits admitted
  exact ⟨within, sound.party⟩

theorem refines_domain_sample : ∃ turns, Domain.Admitted demoNames turns ∧
    (((Domain.run demoNames turns).node 0).readers.lookup 6).map ReaderImpl.unread =
      some [([7, 8], ⟨makeGuid (demoNames 1) .writer 1, 1, 2⟩)] := by
  obtain ⟨within, same⟩ := refines_domain demoNames_injective demoSites_limits demoRun_admitted
  refine ⟨_, within, ?_⟩
  rw [← same 0]
  decide +kernel

/-- Who is in the graph of a participant is another participant, its peer id
leads there and nowhere else, and there arrives what is sent to it. -/
theorem peers_lead_home (distinct : Function.Injective owners)
    (limits : ∀ p, (sites.transport p).udpMaxPayload < 2 ^ 32) {events : List (DeploymentEvent ι)}
    (admitted : Run.Along step (Admits sites) (start sites owners) events) :
    let d := Run.exec step (start sites owners) events
    (∀ q, ∀ entry ∈ (d.stack q).participant.remote, ∃ p, p ≠ q ∧ entry.1 = makeGuid (owners p) .participant 0 ∧
      sites.Names q (peerBackendId entry.2.peer) p ∧ ∀ other, sites.Names q (peerBackendId entry.2.peer) other → other = p) ∧
    ∀ q index p fromIp data, Admits sites d (.send q index p fromIp) →
      ∀ entry ∈ (d.stack q).participant.remote, (d.outbox q)[index]? = some (entry.2.peer, data) →
        (d.stack q).accepts entry.2.peer data = true → entry.1 = makeGuid (owners p) .participant 0 := by
  intro d
  obtain ⟨_, sound⟩ := run_sound distinct limits admitted
  refine ⟨fun q entry member => ?_, fun q index p fromIp data admits entry member waiting accepted => ?_⟩
  · obtain ⟨p, differ, guid, names⟩ := sound.remote q entry member
    exact ⟨p, differ, guid, names, fun other also => also.unique names⟩
  · obtain ⟨home, _, guid, names⟩ := sound.remote q entry member
    rw [names.unique (admits _ waiting accepted).2] at guid
    exact guid

/-- The sample on its way to the reader's process. -/
theorem peers_lead_home_sample :
    ∃ entry ∈ ((Run.exec step (start UdpSites.demoSites demoNames) (demoRun.take 17)).stack 1).participant.remote,
      entry.2.peer = makePeerId 0 (makePeerKey kLoopbackIp 47811) ∧ entry.1 = makeGuid (demoNames 0) .participant 0 := by
  have before : Run.Along step (Admits UdpSites.demoSites) (start UdpSites.demoSites demoNames) (demoRun.take 17) := by
    decide +kernel
  have home := (peers_lead_home demoNames_injective demoSites_limits before).2 1 0 0 kLoopbackIp
  generalize is : Run.exec step (start UdpSites.demoSites demoNames) (demoRun.take 17) = d at home
  have sends : Admits UdpSites.demoSites d (.send 1 0 0 kLoopbackIp) := by
    rw [← is]
    decide +kernel
  have known : (d.stack 1).participant.remote.map (fun entry => entry.2.peer) =
      [makePeerId 0 (makePeerKey kLoopbackIp 47811)] := by
    rw [← is]
    decide +kernel
  have ready : ((d.outbox 1)[0]?).map (fun waiting => (waiting.1, (d.stack 1).accepts waiting.1 waiting.2)) =
      some (makePeerId 0 (makePeerKey kLoopbackIp 47811), true) := by
    rw [← is]
    decide +kernel
  obtain ⟨⟨peer, data⟩, waiting, taken⟩ := Option.map_eq_some_iff.mp ready
  obtain ⟨rfl, accepted⟩ := Prod.mk.inj taken
  obtain ⟨entry, member, peer⟩ := List.mem_map.mp (known ▸ List.mem_singleton_self (makePeerId 0 (makePeerKey kLoopbackIp 47811)))
  refine ⟨entry, member, peer, home data sends entry member ?_ ?_⟩
  · rw [peer, waiting]
  · rw [peer, accepted]

end Deployment

end Mdds
