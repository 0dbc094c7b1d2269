import Mdds.Lib.Lease
import Mdds.Udp

namespace Mdds

instance : LawfulBEq U32 := inferInstance

/-- With distinct keys a filter acts on the value under a key. -/
theorem KeyedList.lookup_filter {κ ν : Type} [DecidableEq κ] {keep : κ × ν → Bool} {entries : List (κ × ν)}
    (distinct : (entries.map Prod.fst).Nodup) (key : κ) :
    (entries.filter keep).lookup key = (entries.lookup key).filter (fun value => keep (key, value)) := by
  have kept : ((entries.filter keep).map Prod.fst).Nodup := distinct.sublist (List.filter_sublist.map Prod.fst)
  refine Option.ext (fun value => ?_)
  rw [Option.filter_eq_some_iff]
  constructor
  · intro found
    obtain ⟨inside, keeps⟩ := List.mem_filter.mp (KeyedList.mem_of_lookup found)
    exact ⟨KeyedList.lookup_of_mem distinct inside, keeps⟩
  · rintro ⟨found, keeps⟩
    exact KeyedList.lookup_of_mem kept (List.mem_filter.mpr ⟨KeyedList.mem_of_lookup found, keeps⟩)

namespace UdpLoopbackTransport
variable (t : UdpLoopbackTransport)

/-- When the event brings a presence of the peer. -/
def renews (peer : PeerId) : UdpEvent → Option Nat
  | .sweepPeers _ => none
  | .receive fromIp fromPort datagram now =>
    if ¬ (fromPort = t.port ∧ fromIp ∈ t.selfAddrs) ∧
        presenceDomain (datagram.take (t.udpMaxPayload + 64)) = some t.domainId ∧ t.sender fromIp fromPort = peer then some now
    else none

/-- The data that the event brings from the peer. -/
def carries (peer : PeerId) : UdpEvent → Option Bytes
  | .sweepPeers _ => none
  | .receive fromIp fromPort datagram _ =>
    let buf := datagram.take (t.udpMaxPayload + 64)
    if ¬ (fromPort = t.port ∧ fromIp ∈ t.selfAddrs) ∧ buf ≠ [] ∧ presenceDomain buf = none ∧
        t.sender fromIp fromPort = peer then some buf
    else none

/-- The event is a sweep that finds the stamp too old. -/
def timesOut : UdpEvent → Nat → Bool
  | .sweepPeers now, stamp => decide ((t.udpAnnounceMs * kPeerTimeoutFactor).toNat * 1000000 < now - stamp)
  | .receive .., _ => false

/-- One turn is one step of the lease of each peer, and the calls say where a
lease begins and where it ends. -/
structure Leased (peer : PeerId) (event : UdpEvent) (next : UdpLoopbackTransport) (calls : List Call) : Prop where
  static : next = { t with peers := next.peers }
  lookup : next.peers.lookup peer = Lease.step (t.renews peer) t.timesOut (t.peers.lookup peer) event
  up : .up peer ∈ calls ↔ t.renews peer event ≠ none ∧ t.peers.lookup peer = none
  down : .down peer ∈ calls ↔ ∃ stamp, t.peers.lookup peer = some stamp ∧ t.timesOut event stamp = true
  bytes : ∀ data, .bytes peer data ∈ calls ↔ t.carries peer event = some data ∧ t.peers.lookup peer ≠ none

variable {t}

/-- A datagram that is no presence leaves every lease alone. -/
theorem unheard_leased {peer : PeerId} {fromIp : U32} {fromPort : U16} {datagram : Bytes} {now : Nat} {calls : List Call}
    (unheard : t.renews peer (.receive fromIp fromPort datagram now) = none)
    (only : ∀ call ∈ calls, ∃ data, call = .bytes (t.sender fromIp fromPort) data)
    (bytes : ∀ data, .bytes peer data ∈ calls ↔
      t.carries peer (.receive fromIp fromPort datagram now) = some data ∧ t.peers.lookup peer ≠ none) :
    t.Leased peer (.receive fromIp fromPort datagram now) t calls := by
  refine ⟨rfl, (Lease.step_keep unheard (fun _ => rfl)).symm, ?_, ?_, bytes⟩
  · refine iff_of_false (fun member => ?_) (fun both => both.1 unheard)
    obtain ⟨_, same⟩ := only _ member
    cases same
  · refine iff_of_false (fun member => ?_) ?_
    · obtain ⟨_, same⟩ := only _ member
      cases same
    · rintro ⟨_, _, late⟩
      cases late

/-- A presence renews the lease of its sender, and begins it. -/
theorem heard_leased {fromIp : U32} {fromPort : U16} {datagram : Bytes} {now : Nat} (peer : PeerId)
    (foreign : ¬ (fromPort = t.port ∧ fromIp ∈ t.selfAddrs))
    (presence : presenceDomain (datagram.take (t.udpMaxPayload + 64)) = some t.domainId) :
    (t.peers.lookup (t.sender fromIp fromPort) = none → t.Leased peer (.receive fromIp fromPort datagram now)
      { t with peers := KeyedList.emplace (t.sender fromIp fromPort) now t.peers } [.up (t.sender fromIp fromPort)]) ∧
    (t.peers.lookup (t.sender fromIp fromPort) ≠ none → t.Leased peer (.receive fromIp fromPort datagram now)
      { t with peers := KeyedList.modify (t.sender fromIp fromPort) (fun _ => now) t.peers } []) := by
  have renewed : t.renews peer (.receive fromIp fromPort datagram now) =
      if t.sender fromIp fromPort = peer then some now else none := by
    simp only [renews, foreign, presence, not_false_eq_true, true_and]
  have noData {data : Bytes} : ¬ (t.carries peer (.receive fromIp fromPort datagram now) = some data ∧
      t.peers.lookup peer ≠ none) := by
    simp [carries, presence]
  have noDown : ¬ ∃ stamp, t.peers.lookup peer = some stamp ∧
      t.timesOut (.receive fromIp fromPort datagram now) stamp = true := by
    rintro ⟨_, _, late⟩
    cases late
  by_cases here : t.sender fromIp fromPort = peer
  · rw [if_pos here] at renewed
    rw [here]
    refine ⟨fun absent => ⟨rfl, ?_, ?_, iff_of_false (by simp) noDown, fun data => iff_of_false (by simp) noData⟩,
      fun present => ⟨rfl, ?_, ?_, iff_of_false List.not_mem_nil noDown, fun data => iff_of_false List.not_mem_nil noData⟩⟩
    · rw [Lease.step_renew renewed]
      exact KeyedList.lookup_emplace_self absent
    · rw [List.mem_singleton, renewed]
      exact iff_of_true rfl ⟨Option.some_ne_none now, absent⟩
    · obtain ⟨stamp, found⟩ := Option.ne_none_iff_exists'.mp present
      rw [Lease.step_renew renewed]
      dsimp only
      rw [KeyedList.lookup_modify, if_pos rfl, found, Option.map_some]
    · exact iff_of_false List.not_mem_nil (fun both => present both.2)
  · rw [if_neg here] at renewed
    refine ⟨fun absent => ⟨rfl, ?_, ?_, iff_of_false (by simp) noDown, fun data => iff_of_false (by simp) noData⟩,
      fun present => ⟨rfl, ?_, ?_, iff_of_false List.not_mem_nil noDown, fun data => iff_of_false List.not_mem_nil noData⟩⟩
    · rw [Lease.step_keep renewed (fun _ => rfl)]
      exact KeyedList.lookup_emplace_other (Ne.symm here)
    · rw [List.mem_singleton, renewed]
      exact iff_of_false (fun same => here (Call.up.inj same).symm) (fun both => both.1 rfl)
    · rw [Lease.step_keep renewed (fun _ => rfl)]
      dsimp only
      rw [KeyedList.lookup_modify, if_neg (Ne.symm here)]
    · exact iff_of_false List.not_mem_nil (fun both => both.1 renewed)

theorem receive_leased (peer : PeerId) (fromIp : U32) (fromPort : U16) (datagram : Bytes) (now : Nat) :
    t.Leased peer (.receive fromIp fromPort datagram now) (t.receive fromIp fromPort datagram now).1
      (t.receive fromIp fromPort datagram now).2 := by
  have ignored (unheard : t.renews peer (.receive fromIp fromPort datagram now) = none)
      (empty : t.carries peer (.receive fromIp fromPort datagram now) = none) :
      t.Leased peer (.receive fromIp fromPort datagram now) t [] :=
    unheard_leased unheard (fun _ member => absurd member List.not_mem_nil)
      (fun data => iff_of_false List.not_mem_nil (fun both => by rw [empty] at both; cases both.1))
  unfold receive
  dsimp only
  split
  · rename_i empty
    exact ignored (if_neg (fun all => by rw [empty] at all; cases all.2.1)) (if_neg (fun all => all.2.1 empty))
  · rename_i content
    split
    · rename_i own
      exact ignored (if_neg (fun all => all.1 own)) (if_neg (fun all => all.1 own))
    · rename_i foreign
      split
      · rename_i domain presence
        split
        · rename_i differ
          refine ignored (if_neg (fun all => differ ?_)) (if_neg (fun all => ?_))
          · exact Option.some.inj (presence.symm.trans all.2.1)
          · rw [presence] at all
            cases all.2.2.1
        · rename_i equal
          rw [Decidable.not_not.mp equal] at presence
          split
          · rename_i absent
            exact (heard_leased peer foreign presence).1 absent
          · rename_i stamp present
            exact (heard_leased peer foreign presence).2 (present ▸ Option.some_ne_none stamp)
      · rename_i plain
        have unheard : t.renews peer (.receive fromIp fromPort datagram now) = none :=
          if_neg (fun all => by rw [plain] at all; cases all.2.1)
        have brought : t.carries peer (.receive fromIp fromPort datagram now) =
            if t.sender fromIp fromPort = peer then some (datagram.take (t.udpMaxPayload + 64)) else none := by
          simp only [carries, foreign, content, plain, ne_eq, not_false_eq_true, true_and]
        split
        · rename_i known
          refine unheard_leased unheard (fun call member => ⟨_, List.mem_singleton.mp member⟩) (fun data => ?_)
          rw [List.mem_singleton, Call.bytes.injEq, brought]
          by_cases here : t.sender fromIp fromPort = peer
          · rw [here] at known
            simp [here, Option.isSome_iff_ne_none.mp known, eq_comm]
          · simp [here, Ne.symm here]
        · rename_i unknown
          refine unheard_leased unheard (fun _ member => absurd member List.not_mem_nil)
            (fun data => iff_of_false List.not_mem_nil ?_)
          rw [brought]
          by_cases here : t.sender fromIp fromPort = peer
          · rw [here] at unknown
            exact fun both => unknown (Option.isSome_iff_ne_none.mpr both.2)
          · simp [here]

theorem sweepPeers_leased (keyed : t.Keyed) (peer : PeerId) (now : Nat) :
    t.Leased peer (.sweepPeers now) (t.sweepPeers now).1 (t.sweepPeers now).2 := by
  refine ⟨rfl, KeyedList.lookup_filter keyed.distinct peer, iff_of_false (fun member => ?_) (fun both => both.1 rfl), ?_,
    fun data => iff_of_false (fun member => ?_) (fun both => by cases both.1)⟩
  · obtain ⟨_, _, same⟩ := List.mem_map.mp member
    cases same
  · constructor
    · intro member
      obtain ⟨⟨_, stamp⟩, inside, same⟩ := List.mem_map.mp member
      obtain ⟨there, late⟩ := List.mem_filter.mp inside
      obtain rfl := Call.down.inj same
      exact ⟨stamp, KeyedList.lookup_of_mem keyed.distinct there, late⟩
    · rintro ⟨stamp, found, late⟩
      exact List.mem_map.mpr ⟨(peer, stamp), List.mem_filter.mpr ⟨KeyedList.mem_of_lookup found, late⟩, rfl⟩
  · obtain ⟨_, _, same⟩ := List.mem_map.mp member
    cases same

theorem step_leased (keyed : t.Keyed) (peer : PeerId) (event : UdpEvent) :
    t.Leased peer event (t.step event).1 (t.step event).2 := by
  cases event with
  | receive fromIp fromPort datagram now => exact receive_leased peer fromIp fromPort datagram now
  | sweepPeers now => exact sweepPeers_leased keyed peer now

/-- The table after a run, peer by peer. -/
theorem exec_leased (fresh : t.peers = []) (events : List UdpEvent) :
    let next := Run.exec (fun t event => (t.step event).1) t events
    next.Keyed ∧ next = { t with peers := next.peers } ∧
      ∀ peer, next.peers.lookup peer = events.foldl (Lease.step (t.renews peer) t.timesOut) none := by
  induction events using List.reverseRecOn with
  | nil =>
    refine ⟨⟨?_, fun key member => ?_⟩, rfl, fun peer => ?_⟩
    · rw [Run.exec_nil, fresh]
      exact List.nodup_nil
    · rw [Run.exec_nil, fresh] at member
      exact absurd member List.not_mem_nil
    · rw [Run.exec_nil, fresh]
      rfl
  | append_singleton events event ih =>
    obtain ⟨keyed, static, lookup⟩ := ih
    rw [Run.exec_snoc]
    generalize Run.exec (fun t event => (t.step event).1) t events = next at keyed static lookup
    refine ⟨step_keyed keyed event, ?_, fun peer => ?_⟩
    · rw [(step_leased keyed default event).static, static]
    · rw [(step_leased keyed peer event).lookup, List.foldl_append, List.foldl_cons, List.foldl_nil, ← lookup, static]
      rfl

/-- A peer is in the table as long as the last presence that was heard from it
is not found too old. It comes up with the first presence, goes down with the
sweep that finds the last one too old, and exactly in between its data is
handed on. -/
theorem peer_up_while_heard (fresh : t.peers = []) (events : List UdpEvent) (peer : PeerId) :
    let next := Run.exec (fun t event => (t.step event).1) t events
    let heard := Lease.Runs (t.renews peer) t.timesOut events
    (∀ stamp, next.peers.lookup peer = some stamp ↔ heard stamp) ∧ ∀ event,
      (.up peer ∈ (next.step event).2 ↔ t.renews peer event ≠ none ∧ ∀ stamp, ¬ heard stamp) ∧
      (.down peer ∈ (next.step event).2 ↔ ∃ stamp, heard stamp ∧ t.timesOut event stamp = true) ∧
      ∀ data, .bytes peer data ∈ (next.step event).2 ↔ t.carries peer event = some data ∧ ∃ stamp, heard stamp := by
  intro next heard
  have leased : next.Keyed ∧ next = { t with peers := next.peers } ∧ ∀ peer, next.peers.lookup peer =
      events.foldl (Lease.step (t.renews peer) t.timesOut) none := exec_leased fresh events
  obtain ⟨keyed, static, lookup⟩ := leased
  have held (stamp : Nat) : next.peers.lookup peer = some stamp ↔ heard stamp := by
    rw [lookup]
    exact Lease.held_iff events stamp
  have config : next.renews peer = t.renews peer ∧ next.timesOut = t.timesOut ∧ next.carries peer = t.carries peer := by
    rw [static]
    exact ⟨rfl, rfl, rfl⟩
  refine ⟨held, fun event => ?_⟩
  obtain ⟨_, _, up, down, bytes⟩ := step_leased keyed peer event
  have unheld : next.peers.lookup peer = none ↔ ∀ stamp, ¬ heard stamp :=
    Option.eq_none_iff_forall_ne_some.trans (forall_congr' (fun stamp => not_congr (held stamp)))
  rw [config.1, unheld] at up
  simp only [config.2.1, held] at down
  refine ⟨up, down, fun data => ?_⟩
  rw [bytes, config.2.2, ne_eq, unheld, not_forall_not]

/-- Heard once, a peer outlives a sweep after just two seconds, and not one a
nanosecond later. -/
theorem peer_up_while_heard_once :
    let t : UdpLoopbackTransport := {}
    let peer := makePeerKey kLoopbackIp 47812
    let events : List UdpEvent :=
      [.receive kLoopbackIp 47812 [0x00, 0x50, 0x49, 0x4E, 0x47, 0, 0, 0, 0, 0, 0, 0] 5, .sweepPeers 2000000005]
    .down peer ∈ ((Run.exec (fun t event => (t.step event).1) t events).step (.sweepPeers 2000000006)).2 := by
  intro t peer events
  have law := (peer_up_while_heard (t := t) rfl events peer).2 (.sweepPeers 2000000006)
  refine law.2.1.mpr ⟨5, ⟨[], _, [.sweepPeers 2000000005], rfl, ?_, fun later member => ?_⟩, by decide⟩
  · decide
  · obtain rfl := List.mem_singleton.mp member
    exact ⟨rfl, by decide⟩

end UdpLoopbackTransport

end Mdds
