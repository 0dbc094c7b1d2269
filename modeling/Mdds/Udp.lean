import Mdds.Stack

namespace Mdds

def kPresenceSize : Nat := 12
def kPeerTimeoutFactor : U32 := 4
def kLoopbackIp : U32 := 0x7F000001

def makePeerKey (ip : U32) (port : U16) : PeerId := (ip.setWidth 64 <<< 16) ||| port.setWidth 64

/-- The tables of `UdpLoopbackTransport`; `peers` holds when each peer was
last heard, on the steady clock in nanoseconds. -/
structure UdpLoopbackTransport where
  domainId : U32 := 0
  udpAnnounceMs : U32 := 500
  udpMaxPayload : Nat := 60000
  port : U16 := 47811
  selfAddrs : List U32 := [kLoopbackIp]
  peers : List (PeerId × Nat) := []

/-- One turn of `recv_loop` or of `sweep_peers`, up to the release of the lock. -/
inductive UdpEvent
  | receive (fromIp : U32) (fromPort : U16) (datagram : Bytes) (now : Nat)
  | sweepPeers (now : Nat)

/-- The domain of a presence datagram, which stands in network byte order. -/
def presenceDomain (buf : Bytes) : Option U32 :=
  if buf.length = kPresenceSize ∧ buf.take 5 = [0x00, 0x50, 0x49, 0x4E, 0x47] then
    some (byteAt buf 5 ++ byteAt buf 6 ++ byteAt buf 7 ++ byteAt buf 8)
  else none

namespace UdpLoopbackTransport
variable (t : UdpLoopbackTransport)

/-- Same-host senders go by their loopback address. -/
def sender (fromIp : U32) (fromPort : U16) : PeerId :=
  makePeerKey (if fromIp ∈ t.selfAddrs then kLoopbackIp else fromIp) fromPort

/-- The body of `recv_loop` for one datagram. -/
def receive (fromIp : U32) (fromPort : U16) (datagram : Bytes) (now : Nat) : UdpLoopbackTransport × List Call :=
  let buf := datagram.take (t.udpMaxPayload + 64)
  let peer := t.sender fromIp fromPort
  if buf = [] then (t, [])
  else if fromPort = t.port ∧ fromIp ∈ t.selfAddrs then (t, [])
  else
    match presenceDomain buf with
    | some domain =>
      if domain ≠ t.domainId then (t, [])
      else
        match t.peers.lookup peer with
        | none => ({ t with peers := KeyedList.emplace peer now t.peers }, [.up peer])
        | some _ => ({ t with peers := KeyedList.modify peer (fun _ => now) t.peers }, [])
    | none => if (t.peers.lookup peer).isSome then (t, [.bytes peer buf]) else (t, [])

/-- The peer was not heard for the timeout, a 32-bit number of milliseconds. -/
def expired (now : Nat) (entry : PeerId × Nat) : Bool :=
  (t.udpAnnounceMs * kPeerTimeoutFactor).toNat * 1000000 < now - entry.2

def sweepPeers (now : Nat) : UdpLoopbackTransport × List Call :=
  ({ t with peers := t.peers.filter (fun entry => !t.expired now entry) },
    (t.peers.filter (t.expired now)).map (fun entry => .down entry.1))

def step : UdpEvent → UdpLoopbackTransport × List Call
  | .receive fromIp fromPort datagram now => t.receive fromIp fromPort datagram now
  | .sweepPeers now => t.sweepPeers now

end UdpLoopbackTransport

/-- The receiving thread tells who came up and hands over the data, the
announcing thread tells who went away. -/
def udpBackend : Backend UdpLoopbackTransport UdpEvent where
  step := UdpLoopbackTransport.step
  stepThread
    | .receive .. => .receiving
    | .sweepPeers _ => .announcing
  callThread
    | .down _ => .announcing
    | _ => .receiving

theorem makePeerKey_small (ip : U32) (port : U16) : (makePeerKey ip port).toNat < 2 ^ 56 := by
  have ipSmall := ip.isLt
  have portSmall := port.isLt
  rw [makePeerKey, BitVec.toNat_or, BitVec.toNat_shiftLeft, BitVec.toNat_setWidth, BitVec.toNat_setWidth,
    Nat.shiftLeft_eq]
  refine Nat.or_lt_two_pow ?_ ?_ <;> omega

namespace UdpLoopbackTransport

/-- Each peer has one entry, and its id fits next to the transport index. -/
structure Keyed (t : UdpLoopbackTransport) : Prop where
  distinct : (t.peers.map Prod.fst).Nodup
  small : ∀ key ∈ t.peers.map Prod.fst, key.toNat < 2 ^ 56

/-- The peers of the table, in the ids of the participant. -/
def Knows (index : Nat) (t : UdpLoopbackTransport) (peer : PeerId) : Prop :=
  ∃ known ∈ t.peers.map Prod.fst, makePeerId index known = peer

/-- What a datagram does: it adds its sender and tells so, or leaves the
peers as they are and tells nothing about them. -/
theorem receive_cases (t : UdpLoopbackTransport) (fromIp : U32) (fromPort : U16) (datagram : Bytes) (now : Nat) :
    (∃ peer : PeerId, peer.toNat < 2 ^ 56 ∧ peer ∉ t.peers.map Prod.fst ∧
        t.receive fromIp fromPort datagram now = ({ t with peers := KeyedList.emplace peer now t.peers }, [.up peer])) ∨
      ((t.receive fromIp fromPort datagram now).1.peers.map Prod.fst = t.peers.map Prod.fst ∧
        ∀ call ∈ (t.receive fromIp fromPort datagram now).2, ∃ peer data, call = .bytes peer data) := by
  have nothing : ∀ call ∈ ([] : List Call), ∃ peer data, call = .bytes peer data :=
    fun _ member => absurd member List.not_mem_nil
  unfold receive
  dsimp only
  split
  · exact Or.inr ⟨rfl, nothing⟩
  · split
    · exact Or.inr ⟨rfl, nothing⟩
    · split
      · split
        · exact Or.inr ⟨rfl, nothing⟩
        · split
          · rename_i absent
            exact Or.inl ⟨_, makePeerKey_small .., KeyedList.not_mem_keys absent, rfl⟩
          · refine Or.inr ⟨?_, nothing⟩
            dsimp only
            rw [KeyedList.keys_modify]
      · split
        · refine Or.inr ⟨rfl, fun call member => ?_⟩
          rw [List.mem_singleton.mp member]
          exact ⟨_, _, rfl⟩
        · exact Or.inr ⟨rfl, nothing⟩

theorem step_keyed {t : UdpLoopbackTransport} (keyed : t.Keyed) (event : UdpEvent) : (t.step event).1.Keyed := by
  have of_keys {next : UdpLoopbackTransport} (same : next.peers.map Prod.fst = t.peers.map Prod.fst) : next.Keyed := by
    refine ⟨same ▸ keyed.distinct, fun key member => ?_⟩
    rw [same] at member
    exact keyed.small key member
  cases event with
  | receive fromIp fromPort datagram now =>
    rw [step]
    rcases t.receive_cases fromIp fromPort datagram now with ⟨peer, small, absent, added⟩ | ⟨same, _⟩
    · rw [added]
      refine ⟨KeyedList.nodup_emplace keyed.distinct absent, fun key member => ?_⟩
      rcases KeyedList.mem_keys_emplace member with rfl | before
      · exact small
      · exact keyed.small key before
    · exact of_keys same
  | sweepPeers now =>
    have fewer : ((t.sweepPeers now).1.peers.map Prod.fst).Sublist (t.peers.map Prod.fst) :=
      List.filter_sublist.map Prod.fst
    exact ⟨keyed.distinct.sublist fewer, fun key member => keyed.small key (fewer.subset member)⟩

/-- A sweep tells of exactly the peers it drops. -/
theorem sweep_told {t : UdpLoopbackTransport} (keyed : t.Keyed) (index now : Nat) (peer : PeerId) :
    (t.sweepPeers now).1.Knows index peer ↔
      (Notices.newest (Call.tells index) (t.sweepPeers now).2 peer).elim (t.Knows index peer) (· = true) := by
  have downs : ∀ call ∈ (t.sweepPeers now).2, call.tells index peer = none ∨ call.tells index peer = some false := by
    intro call member
    obtain ⟨entry, _, rfl⟩ := List.mem_map.mp member
    by_cases here : peer = makePeerId index entry.1
    · exact Or.inr (if_pos here)
    · exact Or.inl (if_neg here)
  by_cases dropped : ∃ entry ∈ t.peers, t.expired now entry = true ∧ peer = makePeerId index entry.1
  · obtain ⟨entry, inside, old, rfl⟩ := dropped
    have call : Call.down entry.1 ∈ (t.sweepPeers now).2 :=
      List.mem_map_of_mem (f := fun e : PeerId × Nat => Call.down e.1) (List.mem_filter.mpr ⟨inside, old⟩)
    rw [Notices.newest_eq_some downs ⟨_, call, if_pos rfl⟩]
    refine iff_of_false ?_ (by simp)
    rintro ⟨key, member, same⟩
    obtain ⟨other, kept, rfl⟩ := List.mem_map.mp member
    obtain ⟨there, young⟩ := List.mem_filter.mp kept
    have equal := makePeerId_inj (keyed.small _ (List.mem_map_of_mem (f := Prod.fst) there))
      (keyed.small _ (List.mem_map_of_mem (f := Prod.fst) inside)) same
    have whole : other = entry := List.inj_on_of_nodup_map keyed.distinct there inside equal
    rw [whole, old] at young
    cases young
  · have silent : ∀ call ∈ (t.sweepPeers now).2, call.tells index peer = none := by
      intro call member
      obtain ⟨entry, inside, rfl⟩ := List.mem_map.mp member
      obtain ⟨there, old⟩ := List.mem_filter.mp inside
      exact if_neg (fun here => dropped ⟨entry, there, old, here⟩)
    rw [Notices.newest_eq_none silent]
    constructor
    · rintro ⟨key, member, same⟩
      exact ⟨key, (List.filter_sublist.map Prod.fst).subset member, same⟩
    · rintro ⟨key, member, rfl⟩
      obtain ⟨entry, inside, rfl⟩ := List.mem_map.mp member
      refine ⟨entry.1, List.mem_map_of_mem (f := Prod.fst) (List.mem_filter.mpr ⟨inside, ?_⟩), rfl⟩
      rw [Bool.not_eq_true']
      exact Bool.eq_false_iff.mpr (fun old => dropped ⟨entry, inside, old, rfl⟩)

/-- The table of the UDP backend changes only with a call that says so. -/
theorem announces (index : Nat) : udpBackend.Announces index Keyed (fun _ _ => True) (Knows index) where
  kept _ event keyed _ := step_keyed keyed event
  told t event keyed _ peer := by
    cases event with
    | receive fromIp fromPort datagram now =>
      change (t.receive fromIp fromPort datagram now).1.Knows index peer ↔ _
      change _ ↔ (Notices.newest (Call.tells index) (t.receive fromIp fromPort datagram now).2 peer).elim _ _
      rcases t.receive_cases fromIp fromPort datagram now with ⟨fresh, _, absent, added⟩ | ⟨same, data⟩
      · have grows (key : PeerId) : key ∈ (KeyedList.emplace fresh now t.peers).map Prod.fst ↔
            key = fresh ∨ key ∈ t.peers.map Prod.fst := by
          simp only [List.mem_map, KeyedList.mem_emplace absent, or_and_right, exists_or, exists_eq_left, eq_comm]
        rw [added, Notices.newest_singleton, Call.tells, Knows]
        simp only [grows, or_and_right, exists_or, exists_eq_left]
        by_cases here : peer = makePeerId index fresh
        · simp [here]
        · simp [here, Ne.symm here, Knows]
      · rw [Notices.newest_eq_none (fun call member => ?_)]
        · exact exists_congr (fun key => by rw [same])
        · obtain ⟨origin, buf, rfl⟩ := data call member
          rfl
    | sweepPeers now => exact sweep_told keyed index now peer

end UdpLoopbackTransport

end Mdds
