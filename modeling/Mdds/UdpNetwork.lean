import Mdds.Exchange
import Mdds.Presence

namespace Mdds

/-- `send_presence`, up to the socket. -/
def presencePacket (domain : U32) : Bytes := [0x00, 0x50, 0x49, 0x4E, 0x47] ++ putU32 domain ++ [0, 0, 0]

/-- The address that `send` reads off an id. -/
def PeerId.ip (peer : PeerId) : U32 := (peer >>> 16).setWidth 32

def PeerId.port (peer : PeerId) : U16 := peer.setWidth 16

/-- The checks of `send` before the socket. -/
def UdpLoopbackTransport.accepts (t : UdpLoopbackTransport) (peer : PeerId) (data : Bytes) : Bool :=
  decide (data.length ≤ t.udpMaxPayload) && (t.peers.lookup peer).isSome

/-- Where the processes of a network run, and their transports as `start`
leaves them: a host has addresses of its own besides the loopback one, all
of which its processes enumerate, and no two of them share a port. -/
structure UdpSites (ι : Type) where
  host : ι → Nat
  addrs : Nat → List U32
  transport : ι → UdpLoopbackTransport
  owned : ∀ {ip h other}, ip ∈ addrs h → ip ∈ addrs other → h = other
  loopback : ∀ h, kLoopbackIp ∉ addrs h
  bound : ∀ {p q}, host p = host q → (transport p).port = (transport q).port → p = q
  self : ∀ p ip, ip ∈ (transport p).selfAddrs ↔ ip = kLoopbackIp ∨ ip ∈ addrs (host p)
  fresh : ∀ p, (transport p).peers = []

/-- A datagram on its way to the process it will reach. -/
structure UdpDatagram (ι : Type) where
  source : ι
  fromIp : U32
  dest : ι
  bytes : Bytes

/-- Datagrams stay once sent, so that delivering by position, again or never
covers reordering, duplication and loss. -/
structure UdpNet (ι : Type) where
  node : ι → UdpLoopbackTransport
  wire : List (UdpDatagram ι) := []

/-- `presence` is one `send_presence` as it reaches one process, from one of
the addresses of its sender; a broadcast is several of them. -/
inductive UdpTurn (ι : Type)
  | presence (p q : ι) (fromIp : U32)
  | send (p : ι) (peer : PeerId) (q : ι) (fromIp : U32) (data : Bytes)
  | arrive (index : Nat) (now : Nat)
  | sweepPeers (p : ι) (now : Nat)

namespace UdpNet
variable {ι : Type} [DecidableEq ι]

def step (net : UdpNet ι) : UdpTurn ι → UdpNet ι
  | .presence p q fromIp =>
    { net with wire := net.wire ++ [⟨p, fromIp, q, presencePacket (net.node p).domainId⟩] }
  | .send p peer q fromIp data =>
    if (net.node p).accepts peer data then { net with wire := net.wire ++ [⟨p, fromIp, q, data⟩] } else net
  | .arrive index now =>
    match net.wire[index]? with
    | none => net
    | some d =>
      { net with
        node := Function.update net.node d.dest ((net.node d.dest).receive d.fromIp (net.node d.source).port d.bytes now).1 }
  | .sweepPeers p now => { net with node := Function.update net.node p ((net.node p).sweepPeers now).1 }

/-- The calls made to the listeners, each with its process. -/
def calls (net : UdpNet ι) : UdpTurn ι → List (ι × Call)
  | .arrive index now =>
    match net.wire[index]? with
    | none => []
    | some d => ((net.node d.dest).receive d.fromIp (net.node d.source).port d.bytes now).2.map (d.dest, ·)
  | .sweepPeers p now => ((net.node p).sweepPeers now).2.map (p, ·)
  | _ => []

end UdpNet

namespace UdpSites
variable {ι : Type} (sites : UdpSites ι)

/-- Seen from `q`, this is an address of the process `p`. -/
def At (q : ι) (ip : U32) (p : ι) : Prop :=
  ip = kLoopbackIp ∧ sites.host p = sites.host q ∨ ip ∈ sites.addrs (sites.host p)

/-- The id leads from `q` to the process `p`. -/
def Names (q : ι) (peer : PeerId) (p : ι) : Prop := sites.At q peer.ip p ∧ peer.port = (sites.transport p).port

instance (q : ι) (ip : U32) (p : ι) : Decidable (sites.At q ip p) := inferInstanceAs (Decidable (_ ∧ _ ∨ _))

instance (q : ι) (peer : PeerId) (p : ι) : Decidable (sites.Names q peer p) := inferInstanceAs (Decidable (_ ∧ _))

def start : UdpNet ι where
  node := sites.transport

/-- The network keeps to the addresses, and what is sent are frames. -/
def Admits (net : UdpNet ι) : UdpTurn ι → Prop
  | .presence p q fromIp => sites.At q fromIp p
  | .send p peer q fromIp data => sites.At q fromIp p ∧ sites.Names p peer q ∧
      ∃ frame : Frame, data ∈ frame.encode (net.node p).udpMaxPayload
  | _ => True

end UdpSites

theorem presenceDomain_packet (domain : U32) : presenceDomain (presencePacket domain) = some domain := by
  have whole : (domain >>> 24).setWidth 8 ++ (domain >>> 16).setWidth 8 ++ (domain >>> 8).setWidth 8 ++
      domain.setWidth 8 = domain := by
    refine BitVec.eq_of_getLsbD_eq (fun i small => ?_)
    simp only [BitVec.getLsbD_append, BitVec.getLsbD_setWidth, BitVec.getLsbD_ushiftRight]
    split
    · rename_i low
      simp [low]
    · split
      · rename_i low
        simp only [low, decide_true, Bool.true_and]
        congr 1
        omega
      · split
        · rename_i low
          simp only [low, decide_true, Bool.true_and]
          congr 1
          omega
        · have low : i - 8 - 8 - 8 < 8 := by omega
          simp only [low, decide_true, Bool.true_and]
          congr 1
          omega
  exact congrArg some whole

@[simp] theorem PeerId.ip_makePeerKey (ip : U32) (port : U16) : (makePeerKey ip port).ip = ip := by
  refine BitVec.eq_of_getLsbD_eq (fun i small => ?_)
  have above : port.getLsbD (16 + i) = false := BitVec.getLsbD_of_ge port (16 + i) (Nat.le_add_right ..)
  simp only [PeerId.ip, makePeerKey, BitVec.getLsbD_setWidth, BitVec.getLsbD_ushiftRight, BitVec.getLsbD_or,
    BitVec.getLsbD_shiftLeft, above]
  simp [small, show 16 + i < 64 by omega, show i < 64 by omega]

@[simp] theorem PeerId.port_makePeerKey (ip : U32) (port : U16) : (makePeerKey ip port).port = port := by
  refine BitVec.eq_of_getLsbD_eq (fun i small => ?_)
  simp only [PeerId.port, makePeerKey, BitVec.getLsbD_setWidth, BitVec.getLsbD_or, BitVec.getLsbD_shiftLeft]
  simp [small]
  omega

/-- Everything that is sent is a frame. -/
theorem Frame.encode_framed {frame : Frame} {maxPayload : Nat} {data : Bytes} (sent : data ∈ frame.encode maxPayload) :
    ∃ type flags body, data = encodeFrame type flags body := by
  cases frame with
  | announce | acknack | heartbeat | gap => exact ⟨_, _, _, List.mem_singleton.mp sent⟩
  | data =>
    obtain ⟨type, flags, _, _, framed⟩ := carries_sendSampleTo sent
    exact ⟨type, flags, _, framed⟩

/-- A frame is no presence datagram, even cut short. -/
theorem presenceDomain_frame {frame : Frame} {maxPayload : Nat} {data : Bytes} (sent : data ∈ frame.encode maxPayload)
    (limit : Nat) : presenceDomain (data.take limit) = none := by
  obtain ⟨type, flags, body, rfl⟩ := Frame.encode_framed sent
  refine if_neg (fun both => ?_)
  cases limit with
  | zero => exact absurd both.2 (by simp)
  | succ limit =>
    have first := congrArg (fun bytes => byteAt bytes 0) both.2
    simp [encodeFrame, encodeHeader, byteAt] at first

namespace UdpLoopbackTransport

/-- A peer that is there after a datagram was there before, or the datagram
was its presence. -/
theorem Leased.origin {t next : UdpLoopbackTransport} {peer : PeerId} {fromIp : U32} {fromPort : U16} {datagram : Bytes}
    {now : Nat} {calls : List Call} (leased : t.Leased peer (.receive fromIp fromPort datagram now) next calls)
    (member : peer ∈ next.peers.map Prod.fst) : peer ∈ t.peers.map Prod.fst ∨
      ¬ (fromPort = t.port ∧ fromIp ∈ t.selfAddrs) ∧
        presenceDomain (datagram.take (t.udpMaxPayload + 64)) = some t.domainId ∧ t.sender fromIp fromPort = peer := by
  cases renewed : t.renews peer (.receive fromIp fromPort datagram now) with
  | some stamp =>
    rw [renews] at renewed
    split at renewed
    · rename_i heard
      exact Or.inr heard
    · cases renewed
  | none =>
    have held := leased.lookup
    rw [Lease.step_keep renewed (fun _ => rfl)] at held
    exact Or.inl (KeyedList.isSome_lookup.mp (held ▸ KeyedList.isSome_lookup.mpr member))

/-- A call is about a peer that is there before, or after. -/
theorem Leased.known {t next : UdpLoopbackTransport} {event : UdpEvent} {calls : List Call}
    (leased : ∀ peer, t.Leased peer event next calls) {call : Call} (member : call ∈ calls) :
    call.peer ∈ t.peers.map Prod.fst ∨ call.peer ∈ next.peers.map Prod.fst := by
  have held {peer : PeerId} (there : t.peers.lookup peer ≠ none) : peer ∈ t.peers.map Prod.fst :=
    KeyedList.isSome_lookup.mp (Option.isSome_iff_ne_none.mpr there)
  cases call with
  | up peer =>
    obtain ⟨renewed, _⟩ := (leased peer).up.mp member
    obtain ⟨stamp, brought⟩ := Option.ne_none_iff_exists'.mp renewed
    have now := (leased peer).lookup
    rw [Lease.step_renew brought] at now
    exact Or.inr (KeyedList.isSome_lookup.mp (by rw [Call.peer, now]; rfl))
  | down peer =>
    obtain ⟨stamp, found, _⟩ := (leased peer).down.mp member
    exact Or.inl (held (found ▸ Option.some_ne_none stamp))
  | bytes peer data => exact Or.inl (held ((leased peer).bytes data |>.mp member).2)

end UdpLoopbackTransport

namespace UdpSites
variable {ι : Type} {sites : UdpSites ι} {p q : ι} {ip : U32}

/-- An id leads to one process only. -/
theorem Names.unique {peer : PeerId} {other : ι} (first : sites.Names q peer p) (second : sites.Names q peer other) :
    p = other := by
  refine sites.bound ?_ (first.2.symm.trans second.2)
  rcases first.1 with ⟨loop, here⟩ | owns
  · rcases second.1 with ⟨_, there⟩ | owns
    · exact here.trans there.symm
    · rw [loop] at owns
      exact absurd owns (sites.loopback _)
  · rcases second.1 with ⟨loop, _⟩ | alsoOwns
    · rw [loop] at owns
      exact absurd owns (sites.loopback _)
    · exact sites.owned owns alsoOwns

/-- The sender of a datagram, unless it is the receiver itself, is known under
an id that leads back to it. -/
theorem At.names (at_ : sites.At q ip p)
    (foreign : ¬ ((sites.transport p).port = (sites.transport q).port ∧ ip ∈ (sites.transport q).selfAddrs)) :
    p ≠ q ∧ sites.Names q ((sites.transport q).sender ip (sites.transport p).port) p := by
  refine ⟨?_, ?_, PeerId.port_makePeerKey ..⟩
  · rintro rfl
    refine foreign ⟨rfl, (sites.self p ip).mpr ?_⟩
    rcases at_ with ⟨loop, _⟩ | owns
    · exact Or.inl loop
    · exact Or.inr owns
  · rw [UdpLoopbackTransport.sender, PeerId.ip_makePeerKey]
    split
    · rename_i own
      refine Or.inl ⟨rfl, ?_⟩
      rcases at_ with ⟨_, here⟩ | owns
      · exact here
      · rcases (sites.self q ip).mp own with loop | alsoOwns
        · rw [loop] at owns
          exact absurd owns (sites.loopback _)
        · exact sites.owned owns alsoOwns
    · exact at_

variable (sites) in
/-- The id is that of another process, of the same domain. -/
def Knows (q : ι) (peer : PeerId) : Prop :=
  ∃ p, p ≠ q ∧ (sites.transport p).domainId = (sites.transport q).domainId ∧ sites.Names q peer p

section Sent
variable (sites) (sent : ι → ι → Bytes → Prop)

/-- A datagram is a presence of its sender, or a frame that was sent. -/
structure Genuine (d : UdpDatagram ι) : Prop where
  at_ : sites.At d.dest d.fromIp d.source
  bytes : d.bytes = presencePacket (sites.transport d.source).domainId ∨
    (∀ limit, presenceDomain (d.bytes.take limit) = none) ∧ sent d.source d.dest d.bytes

structure Sound (net : UdpNet ι) : Prop where
  static : ∀ p, net.node p = { sites.transport p with peers := (net.node p).peers }
  wire : ∀ d ∈ net.wire, sites.Genuine sent d
  table : ∀ q, ∀ peer ∈ (net.node q).peers.map Prod.fst, sites.Knows q peer

/-- The call is about another process of the domain, the one its id leads to,
and data is what this process sent there, cut to the length of the buffer. -/
def Attributed (q : ι) (call : Call) : Prop :=
  ∃ p, p ≠ q ∧ (sites.transport p).domainId = (sites.transport q).domainId ∧ sites.Names q call.peer p ∧
    ∀ data, call = .bytes call.peer data → ∃ whole, sent p q whole ∧
      data = whole.take ((sites.transport q).udpMaxPayload + 64)

end Sent

section Mono
variable {sent later : ι → ι → Bytes → Prop} (more : ∀ {p q data}, sent p q data → later p q data)
include more

theorem Genuine.mono {d : UdpDatagram ι} (genuine : sites.Genuine sent d) : sites.Genuine later d :=
  ⟨genuine.at_, genuine.bytes.imp_right (fun frame => ⟨frame.1, more frame.2⟩)⟩

theorem Sound.mono {net : UdpNet ι} (sound : sites.Sound sent net) : sites.Sound later net :=
  ⟨sound.static, fun d member => (sound.wire d member).mono more, sound.table⟩

theorem Attributed.mono {call : Call} (attributed : sites.Attributed sent q call) : sites.Attributed later q call := by
  obtain ⟨p, differ, domain, names, bytes⟩ := attributed
  refine ⟨p, differ, domain, names, fun data carries => ?_⟩
  obtain ⟨whole, posted, cut⟩ := bytes data carries
  exact ⟨whole, more posted, cut⟩

end Mono

section Keep
variable {sent : ι → ι → Bytes → Prop} {net : UdpNet ι} (sound : sites.Sound sent net)
include sound

theorem Sound.send {d : UdpDatagram ι} (genuine : sites.Genuine sent d) :
    sites.Sound sent { net with wire := net.wire ++ [d] } := by
  refine ⟨sound.static, fun other member => ?_, sound.table⟩
  rcases List.mem_append.mp member with old | new
  · exact sound.wire other old
  · exact List.mem_singleton.mp new ▸ genuine

theorem Sound.presence (at_ : sites.At q ip p) :
    sites.Genuine sent ⟨p, ip, q, presencePacket (net.node p).domainId⟩ := by
  refine ⟨at_, Or.inl ?_⟩
  rw [sound.static]

/-- Who is heard is known by an id that leads to the sender. -/
theorem Sound.hears {d : UdpDatagram ι} (genuine : sites.Genuine sent d) (now : Nat) :
    (∀ peer ∈ ((net.node d.dest).receive d.fromIp (net.node d.source).port d.bytes now).1.peers.map Prod.fst,
      sites.Knows d.dest peer) ∧
    ∀ peer data, .bytes peer data ∈ ((net.node d.dest).receive d.fromIp (net.node d.source).port d.bytes now).2 →
      sites.Names d.dest peer d.source ∧ data = d.bytes.take ((sites.transport d.dest).udpMaxPayload + 64) ∧
        sent d.source d.dest d.bytes := by
  have port : (net.node d.source).port = (sites.transport d.source).port := by rw [sound.static]
  have own : (net.node d.dest).port = (sites.transport d.dest).port ∧
      (net.node d.dest).selfAddrs = (sites.transport d.dest).selfAddrs ∧
      (net.node d.dest).domainId = (sites.transport d.dest).domainId ∧
      (net.node d.dest).udpMaxPayload = (sites.transport d.dest).udpMaxPayload := by
    rw [sound.static]
    exact ⟨rfl, rfl, rfl, rfl⟩
  obtain ⟨ownPort, selfAddrs, domain, maxPayload⟩ := own
  have leased (peer : PeerId) := (net.node d.dest).receive_leased peer d.fromIp (net.node d.source).port d.bytes now
  generalize (net.node d.dest).receive d.fromIp (net.node d.source).port d.bytes now = result at leased ⊢
  have sender : (net.node d.dest).sender d.fromIp (net.node d.source).port =
      (sites.transport d.dest).sender d.fromIp (sites.transport d.source).port := by
    rw [UdpLoopbackTransport.sender, UdpLoopbackTransport.sender, selfAddrs, port]
  have whole : (presencePacket (sites.transport d.source).domainId).take ((net.node d.dest).udpMaxPayload + 64) =
      presencePacket (sites.transport d.source).domainId :=
    List.take_of_length_le (Nat.le_add_left_of_le (by decide : 12 ≤ 64))
  refine ⟨fun peer member => ?_, fun peer data member => ?_⟩
  · rcases (leased peer).origin member with old | ⟨foreign, presence, named⟩
    · exact sound.table d.dest peer old
    · rw [port, ownPort, selfAddrs] at foreign
      obtain ⟨differ, names⟩ := genuine.at_.names foreign
      rw [← sender, named] at names
      rcases genuine.bytes with packet | ⟨frame, _⟩
      · rw [packet, whole, presenceDomain_packet, domain] at presence
        exact ⟨d.source, differ, Option.some.inj presence, names⟩
      · rw [frame] at presence
        cases presence
  · have brought := (((leased peer).bytes data).mp member).1
    rw [UdpLoopbackTransport.carries] at brought
    split at brought
    · rename_i all
      obtain ⟨foreign, _, plain, named⟩ := all
      rw [port, ownPort, selfAddrs] at foreign
      rcases genuine.bytes with packet | ⟨_, sent⟩
      · rw [packet, whole, presenceDomain_packet] at plain
        cases plain
      · have names := (genuine.at_.names foreign).2
        rw [← sender, named] at names
        exact ⟨names, by rw [← Option.some.inj brought, maxPayload], sent⟩
    · cases brought

variable [DecidableEq ι]

/-- A node that has changed nothing but its peers. -/
theorem Sound.update {next : UdpLoopbackTransport} (static : next = { net.node q with peers := next.peers })
    (table : ∀ peer ∈ next.peers.map Prod.fst, sites.Knows q peer) :
    sites.Sound sent { net with node := Function.update net.node q next } := by
  refine ⟨fun p => ?_, sound.wire, fun p peer member => ?_⟩
  · dsimp only
    by_cases same : p = q
    · subst same
      rw [Function.update_self, static, sound.static]
    · rw [Function.update_of_ne same]
      exact sound.static p
  · dsimp only at member
    by_cases same : p = q
    · subst same
      rw [Function.update_self] at member
      exact table peer member
    · rw [Function.update_of_ne same] at member
      exact sound.table p peer member

/-- A datagram arrives. -/
theorem Sound.arrive {d : UdpDatagram ι} (member : d ∈ net.wire) (now : Nat) :
    let result := (net.node d.dest).receive d.fromIp (net.node d.source).port d.bytes now
    sites.Sound sent { net with node := Function.update net.node d.dest result.1 } ∧
      ∀ call ∈ result.2, sites.Attributed sent d.dest call := by
  intro result
  obtain ⟨table, bytes⟩ := sound.hears (sound.wire d member) now
  refine ⟨sound.update (UdpLoopbackTransport.receive_leased default ..).static table, fun call inside => ?_⟩
  have known : sites.Knows d.dest call.peer := by
    rcases UdpLoopbackTransport.Leased.known (fun peer => UdpLoopbackTransport.receive_leased peer ..) inside with before | after
    · exact sound.table d.dest call.peer before
    · exact table call.peer after
  obtain ⟨p, differ, domain, names⟩ := known
  refine ⟨p, differ, domain, names, fun data carries => ?_⟩
  rw [carries] at inside
  obtain ⟨source, content, posted⟩ := bytes _ data inside
  rw [names.unique source]
  exact ⟨d.bytes, posted, content⟩

/-- A sweep tells of peers it has known. -/
theorem Sound.sweep (p : ι) (now : Nat) :
    sites.Sound sent { net with node := Function.update net.node p ((net.node p).sweepPeers now).1 } ∧
      ∀ call ∈ ((net.node p).sweepPeers now).2, sites.Attributed sent p call := by
  constructor
  · refine sound.update rfl (fun peer member => sound.table p peer ?_)
    exact (List.filter_sublist.map Prod.fst).subset member
  · intro call member
    obtain ⟨entry, old, rfl⟩ := List.mem_map.mp member
    obtain ⟨other, differ, domain, names⟩ :=
      sound.table p entry.1 (List.mem_map_of_mem (f := Prod.fst) (List.mem_of_mem_filter old))
    exact ⟨other, differ, domain, names, fun data carries => by cases carries⟩

end Keep

variable [DecidableEq ι]

variable (sites) in
/-- The process has sent the bytes to an id of the receiver, and its transport
took them. -/
def Sent (turns : List (UdpTurn ι)) (p q : ι) (data : Bytes) : Prop :=
  ∃ first peer fromIp rest, turns = first ++ .send p peer q fromIp data :: rest ∧
    ((Run.exec UdpNet.step sites.start first).node p).accepts peer data = true

theorem Sent.snoc {turns : List (UdpTurn ι)} {data : Bytes} (sent : sites.Sent turns p q data) (turn : UdpTurn ι) :
    sites.Sent (turns ++ [turn]) p q data := by
  obtain ⟨first, peer, fromIp, rest, rfl, accepted⟩ := sent
  exact ⟨first, peer, fromIp, rest ++ [turn], by simp, accepted⟩

/-- One turn of the network, with the calls it leads to. -/
theorem Sound.turn {turns : List (UdpTurn ι)}
    (sound : sites.Sound (sites.Sent turns) (Run.exec UdpNet.step sites.start turns)) {turn : UdpTurn ι}
    (admits : sites.Admits (Run.exec UdpNet.step sites.start turns) turn) :
    sites.Sound (sites.Sent (turns ++ [turn])) ((Run.exec UdpNet.step sites.start turns).step turn) ∧
      ∀ q call, (q, call) ∈ (Run.exec UdpNet.step sites.start turns).calls turn →
        sites.Attributed (sites.Sent turns) q call := by
  generalize same : Run.exec UdpNet.step sites.start turns = net at sound admits
  have keep : sites.Sound (sites.Sent (turns ++ [turn])) net := sound.mono (fun sent => sent.snoc turn)
  cases turn with
  | presence p q fromIp => exact ⟨keep.send (keep.presence admits), fun q call member => absurd member List.not_mem_nil⟩
  | send p peer q fromIp data =>
    refine ⟨?_, fun q call member => absurd member List.not_mem_nil⟩
    rw [UdpNet.step]
    split
    · rename_i accepted
      obtain ⟨at_, names, frame, sent⟩ := admits
      exact keep.send ⟨at_, Or.inr ⟨presenceDomain_frame sent, turns, peer, fromIp, [], rfl, same ▸ accepted⟩⟩
    · exact keep
  | arrive index now =>
    rw [UdpNet.step, UdpNet.calls]
    cases found : net.wire[index]? with
    | none => exact ⟨keep, fun q call member => absurd member List.not_mem_nil⟩
    | some d =>
      have member := List.mem_of_getElem? found
      refine ⟨(keep.arrive member now).1, fun q call inside => ?_⟩
      obtain ⟨made, told, same⟩ := List.mem_map.mp inside
      obtain ⟨rfl, rfl⟩ := Prod.mk.inj same
      exact (sound.arrive member now).2 made told
  | sweepPeers p now =>
    refine ⟨(keep.sweep p now).1, fun q call inside => ?_⟩
    obtain ⟨made, told, same⟩ := List.mem_map.mp inside
    obtain ⟨rfl, rfl⟩ := Prod.mk.inj same
    exact (sound.sweep p now).2 made told

theorem sound (turns : List (UdpTurn ι)) (admitted : Run.Along UdpNet.step sites.Admits sites.start turns) :
    sites.Sound (sites.Sent turns) (Run.exec UdpNet.step sites.start turns) := by
  induction turns using List.reverseRecOn with
  | nil =>
    refine ⟨fun p => rfl, fun d member => absurd member List.not_mem_nil, fun q peer member => ?_⟩
    rw [Run.exec_nil, start, sites.fresh] at member
    exact absurd member List.not_mem_nil
  | append_singleton turns turn ih =>
    obtain ⟨before, admits⟩ := (Run.along_snoc UdpNet.step).mp admitted
    rw [Run.exec_snoc]
    exact ((ih before).turn admits).1

/-- Whatever the network loses, repeats and reorders: the peers of a process
are other processes of its domain, each id leads to one of them, and what a
listener is told comes from the process the id leads to. -/
theorem udp_attributed (turns : List (UdpTurn ι)) (admitted : Run.Along UdpNet.step sites.Admits sites.start turns) :
    (∀ q, ∀ peer ∈ ((Run.exec UdpNet.step sites.start turns).node q).peers.map Prod.fst, ∃ p, p ≠ q ∧
      (sites.transport p).domainId = (sites.transport q).domainId ∧ sites.Names q peer p ∧
        ∀ other, sites.Names q peer other → other = p) ∧
    ∀ first turn rest q call, turns = first ++ turn :: rest →
      (q, call) ∈ (Run.exec UdpNet.step sites.start first).calls turn → sites.Attributed (sites.Sent first) q call := by
  refine ⟨fun q peer member => ?_, fun first turn rest q call split called => ?_⟩
  · obtain ⟨p, differ, domain, names⟩ := (sites.sound turns admitted).table q peer member
    exact ⟨p, differ, domain, names, fun other also => also.unique names⟩
  · rw [split] at admitted
    obtain ⟨before, admits, _⟩ := (Run.along_append UdpNet.step).mp admitted
    exact ((sites.sound first before).turn admits).2 q call called

instance : NeZero 3 := ⟨Nat.succ_ne_zero 2⟩

/-- Two processes on one host and one on another. -/
def demoSites : UdpSites (Fin 3) where
  host p := if p = 2 then 1 else 0
  addrs h := if h = 0 then [0xC0A80001] else if h = 1 then [0xC0A80002] else []
  transport p := { port := if p = 1 then 47812 else 47811
                   selfAddrs := [kLoopbackIp, if p = 2 then 0xC0A80002 else 0xC0A80001] }
  owned {ip h other} first second := by
    have only {h : Nat} (member : ip ∈ if h = 0 then [(0xC0A80001 : U32)] else if h = 1 then [0xC0A80002] else []) :
        h = 0 ∧ ip = 0xC0A80001 ∨ h = 1 ∧ ip = 0xC0A80002 := by
      split at member
      · rename_i zero
        exact Or.inl ⟨zero, List.mem_singleton.mp member⟩
      · split at member
        · rename_i one
          exact Or.inr ⟨one, List.mem_singleton.mp member⟩
        · exact absurd member List.not_mem_nil
    rcases only first with ⟨rfl, rfl⟩ | ⟨rfl, rfl⟩ <;> rcases only second with ⟨rfl, same⟩ | ⟨rfl, same⟩
    · rfl
    · exact absurd same (by decide)
    · exact absurd same (by decide)
    · rfl
  loopback h := by
    split
    · decide
    · split <;> decide
  bound {p q} := by
    revert p q
    decide
  self p ip := by
    rw [List.mem_cons, List.mem_singleton]
    by_cases two : p = 2 <;> simp [two]
  fresh _ := rfl

def demoHeartbeat : Bytes := encodeHeartbeat ⟨default, 1, 3⟩

/-- The first process hears the presence of the third, of the second, and its
own as it comes back from a broadcast; the second one sends it a frame. -/
def demoTurnsUdp : List (UdpTurn (Fin 3)) :=
  [.presence 2 0 0xC0A80002, .presence 1 0 kLoopbackIp, .presence 0 0 0xC0A80001, .presence 0 1 0xC0A80001,
    .arrive 0 5, .arrive 2 6, .arrive 1 7, .arrive 3 8,
    .send 1 (makePeerKey kLoopbackIp 47811) 0 kLoopbackIp demoHeartbeat, .arrive 4 9, .arrive 4 9]

theorem udp_attributed_heartbeat :
    ∃ p whole, p ≠ 0 ∧ demoSites.Names 0 (makePeerKey kLoopbackIp 47812) p ∧
      demoSites.Sent (demoTurnsUdp.take 9) p 0 whole ∧ demoHeartbeat = whole.take 60064 := by
  have admitted : Run.Along UdpNet.step demoSites.Admits demoSites.start demoTurnsUdp :=
    ⟨Or.inr (by decide), Or.inl ⟨rfl, rfl⟩, Or.inr (by decide), Or.inr (by decide), trivial, trivial, trivial, trivial,
      ⟨Or.inl ⟨rfl, rfl⟩, ⟨Or.inl ⟨by decide, rfl⟩, by decide⟩, .heartbeat ⟨default, 1, 3⟩, List.mem_singleton_self _⟩,
      trivial, trivial, trivial⟩
  have called : (0, Call.bytes (makePeerKey kLoopbackIp 47812) demoHeartbeat) ∈
      (Run.exec UdpNet.step demoSites.start (demoTurnsUdp.take 9)).calls (.arrive 4 9) := by
    decide +kernel
  obtain ⟨p, differ, _, names, bytes⟩ :=
    (udp_attributed demoTurnsUdp admitted).2 (demoTurnsUdp.take 9) (.arrive 4 9) [.arrive 4 9] 0 _ rfl called
  obtain ⟨whole, sent, content⟩ := bytes demoHeartbeat rfl
  exact ⟨p, whole, differ, names, sent, content⟩

end UdpSites

end Mdds
