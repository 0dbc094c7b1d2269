import Mdds.Guid
import Mdds.Lib.Shared

/- The send lanes of one transport. A lane is a bounded queue with a worker;
all lanes share one byte budget, guarded by no lock. Frames are in memory
while they are counted, so that no sum of their sizes wraps. -/

namespace Mdds

/-- `SendBudget`. -/
structure SendBudget where
  limit : Nat
  used : Nat := 0

namespace SendLane

/-- Where the worker of a lane is: at the head of its loop, in the sink with
one frame, in the loop that drops the queue, or gone. -/
inductive Worker
  | waiting
  | sending (frame : Bytes)
  | discarding
  | exited
  deriving DecidableEq

/-- The frame in flight. -/
def Worker.holds : Worker → List Bytes
  | sending frame => [frame]
  | _ => []

end SendLane

/-- `SendLane`. The lock is held by a caller of `push` that has passed the
checks and by a worker that discards. -/
structure SendLane where
  byteLimit : Nat
  queue : List Bytes := []
  bytes : Nat := 0
  stopping : Bool := false
  drain : Bool := false
  dropped : Nat := 0
  failed : Nat := 0
  pushing : Option Bytes := none
  worker : SendLane.Worker := .waiting

/-- The steps between which other lanes may run. `push` loads the shared
counter and adds to it later, the worker releases the lock around the sink. -/
inductive LaneAction
  | push (frame : Bytes)
  | reserve
  | run
  | discard
  | sinkReturns (ok : Bool)
  | stop (drain : Bool)
  deriving DecidableEq

/-- What is observed of a lane. -/
inductive LaneLog
  | offered
  | accepted
  | handed
  | discarded

namespace SendLane
variable (l : SendLane) (global : SendBudget)

def locked : Bool := l.pushing.isSome || l.worker = .discarding

/-- The test of `push`. -/
def rejects (frame : Bytes) : Bool :=
  l.stopping || l.byteLimit < l.bytes + frame.length || global.limit < global.used + frame.length

/-- `release`. -/
def release (len : Nat) : SendLane × SendBudget :=
  ({ l with bytes := l.bytes - len }, { global with used := global.used - len })

/-- One step on a lane. A step that has to wait for the lock, or whose turn it
is not, changes nothing. -/
def act : LaneAction → SendLane × SendBudget
  | .push frame =>
    if l.locked then (l, global)
    else if l.rejects global frame then ({ l with dropped := l.dropped + 1 }, global)
    else ({ l with pushing := some frame }, global)
  | .reserve =>
    match l.pushing with
    | none => (l, global)
    | some frame =>
      ({ l with queue := l.queue ++ [frame], bytes := l.bytes + frame.length, pushing := none },
        { global with used := global.used + frame.length })
  | .run =>
    if l.locked ∨ l.worker ≠ .waiting then (l, global)
    else
      match l.queue with
      | [] => if l.stopping then ({ l with worker := .exited }, global) else (l, global)
      | frame :: rest =>
        if l.stopping && !l.drain then ({ l with worker := .discarding }, global)
        else
          let (released, global) := l.release global frame.length
          ({ released with queue := rest, worker := .sending frame }, global)
  | .discard =>
    if l.worker ≠ .discarding then (l, global)
    else
      match l.queue with
      | [] => ({ l with worker := .exited }, global)
      | frame :: rest =>
        let (released, global) := l.release global frame.length
        ({ released with queue := rest }, global)
  | .sinkReturns ok =>
    match l.worker with
    | .sending _ => ({ l with failed := if ok then l.failed else l.failed + 1, worker := .waiting }, global)
    | _ => (l, global)
  | .stop drain => if l.locked then (l, global) else ({ l with stopping := true, drain := drain }, global)

/-- The frames with which a step shows in the log: those that `push` was called
with, those it queued, those the sink got, and those that were dropped from
the queue. -/
def emits : LaneLog → SendLane → LaneAction → List Bytes
  | .offered, l, .push frame => if l.locked then [] else [frame]
  | .accepted, l, .reserve => l.pushing.toList
  | .handed, l, .sinkReturns _ => l.worker.holds
  | .discarded, l, .discard => if l.worker = .discarding then l.queue.take 1 else []
  | _, _, _ => []

variable {l global}

theorem pushing_of_unlocked (free : ¬ l.locked = true) : l.pushing = none := by
  rw [locked, Bool.or_eq_true, not_or, Option.isSome_iff_ne_none, not_not] at free
  exact free.1

/-- A lane and all that has been observed of it. -/
structure Tracks (byteLimit : Nat) (l : SendLane) (seen : LaneLog → List Bytes) : Prop where
  limit : l.byteLimit = byteLimit
  order : seen .accepted = seen .handed ++ seen .discarded ++ (l.worker.holds ++ l.queue)
  bytes : l.bytes = (l.queue.map List.length).sum
  within : l.bytes ≤ byteLimit
  room : ∀ frame ∈ l.pushing, l.bytes + frame.length ≤ byteLimit ∧ l.stopping = false
  counted : (seen .offered).length = (seen .accepted).length + l.dropped + l.pushing.toList.length
  discarded : seen .discarded ≠ [] → l.worker = .discarding ∨ l.worker = .exited
  stopped : l.worker = .discarding ∨ l.worker = .exited → l.stopping = true
  exited : l.worker = .exited → l.queue = []

namespace Tracks
variable {l : SendLane} {global : SendBudget} {byteLimit : Nat} {seen : LaneLog → List Bytes}

/-- A step that has to wait, or that observes nothing. -/
theorem idle {action : LaneAction} (tracks : l.Tracks byteLimit seen) (silent : ∀ kind, emits kind l action = []) :
    l.Tracks byteLimit (fun kind => seen kind ++ emits kind l action) := by
  have same : (fun kind => seen kind ++ emits kind l action) = seen :=
    funext (fun kind => by rw [silent, List.append_nil])
  rw [same]
  exact tracks

theorem push (tracks : l.Tracks byteLimit seen) (frame : Bytes) :
    (l.act global (.push frame)).1.Tracks byteLimit (fun kind => seen kind ++ emits kind l (.push frame)) := by
  unfold act
  dsimp only
  split
  · rename_i locked
    exact tracks.idle (fun kind => by cases kind <;> simp [emits, locked])
  · rename_i free
    have none := pushing_of_unlocked free
    have counted := tracks.counted
    rw [none] at counted
    split
    · refine { tracks with order := ?_, counted := ?_, discarded := ?_ }
      · simpa [emits] using tracks.order
      · simp only [emits, if_neg free, none, List.length_append, List.length_singleton, List.append_nil] at counted ⊢
        omega
      · simpa [emits] using tracks.discarded
    · rename_i fits
      simp only [rejects, Bool.or_eq_true, decide_eq_true_eq, not_or, Nat.not_lt, Bool.not_eq_true] at fits
      obtain ⟨⟨running, room⟩, _⟩ := fits
      refine { tracks with order := ?_, room := ?_, counted := ?_, discarded := ?_ }
      · simpa [emits] using tracks.order
      · rintro _ ⟨⟩
        exact ⟨tracks.limit ▸ room, running⟩
      · simp only [emits, if_neg free, List.length_append, List.length_singleton, List.append_nil, Option.toList_none,
          Option.toList_some, List.length_nil] at counted ⊢
        omega
      · simpa [emits] using tracks.discarded

/-- The room found by the check is still there: nobody else had the lock. -/
theorem reserve (tracks : l.Tracks byteLimit seen) :
    (l.act global .reserve).1.Tracks byteLimit (fun kind => seen kind ++ emits kind l .reserve) := by
  unfold act
  dsimp only
  split
  · rename_i none
    exact tracks.idle (fun kind => by cases kind <;> simp [emits, none])
  · rename_i frame holder
    obtain ⟨room, running⟩ := tracks.room frame holder
    have counted := tracks.counted
    rw [holder] at counted
    have alive : ¬ (l.worker = .discarding ∨ l.worker = .exited) := fun ended => by
      simp [tracks.stopped ended] at running
    exact {
      limit := tracks.limit
      order := by
        simp only [emits, holder, Option.toList_some, List.append_nil, tracks.order, List.append_assoc]
      bytes := by
        simp only [List.map_append, List.sum_append, List.map_cons, List.map_nil, List.sum_cons, List.sum_nil,
          Nat.add_zero, tracks.bytes]
      within := room
      room := fun _ absurd => by cases absurd
      counted := by
        simp only [emits, holder, List.append_nil, List.length_append, Option.toList_some, Option.toList_none,
          List.length_singleton, List.length_nil] at counted ⊢
        omega
      discarded := by simpa [emits] using tracks.discarded
      stopped := tracks.stopped
      exited := fun ended => absurd (Or.inr ended) alive }

theorem stop (tracks : l.Tracks byteLimit seen) (drain : Bool) :
    (l.act global (.stop drain)).1.Tracks byteLimit (fun kind => seen kind ++ emits kind l (.stop drain)) := by
  have quiet := @idle _ _ _ (.stop drain) tracks (fun kind => by cases kind <;> rfl)
  unfold act
  dsimp only
  split
  · exact quiet
  · rename_i free
    have none := pushing_of_unlocked free
    exact { quiet with room := fun frame holder => by simp [none] at holder, stopped := fun _ => rfl }

theorem sinkReturns (tracks : l.Tracks byteLimit seen) (ok : Bool) :
    (l.act global (.sinkReturns ok)).1.Tracks byteLimit (fun kind => seen kind ++ emits kind l (.sinkReturns ok)) := by
  unfold act
  dsimp only
  split
  · rename_i frame sending
    -- A worker in the sink has dropped nothing.
    have kept : seen .discarded = [] := by
      by_contra dropped
      rcases tracks.discarded dropped with ended | ended <;> simp [sending] at ended
    have order := tracks.order
    rw [sending, kept] at order
    refine { tracks with order := ?_, counted := ?_, discarded := ?_, stopped := ?_, exited := ?_ }
    · simpa [emits, sending, kept, Worker.holds] using order
    · simpa [emits] using tracks.counted
    · simp [emits, kept]
    · rintro (ended | ended) <;> cases ended
    · rintro ⟨⟩
  · rename_i idle
    refine tracks.idle (fun kind => ?_)
    cases kind with
    | handed =>
      cases holder : l.worker with
      | sending frame => exact absurd holder (idle frame)
      | _ => simp [emits, holder, Worker.holds]
    | _ => rfl

theorem run (tracks : l.Tracks byteLimit seen) :
    (l.act global .run).1.Tracks byteLimit (fun kind => seen kind ++ emits kind l .run) := by
  have quiet := @idle _ _ _ .run tracks (fun kind => by cases kind <;> rfl)
  unfold act
  dsimp only
  split
  · exact quiet
  · rename_i turn
    rw [not_or, not_not] at turn
    obtain ⟨free, waiting⟩ := turn
    have order := quiet.order
    rw [waiting] at order
    split
    · rename_i empty
      split
      · rename_i stopping
        exact { quiet with
          order := order, discarded := fun _ => Or.inr rfl, stopped := fun _ => stopping, exited := fun _ => empty }
      · exact quiet
    · rename_i frame rest front
      split
      · rename_i discards
        have stopping : l.stopping = true := by
          rw [Bool.and_eq_true] at discards
          exact discards.1
        exact { quiet with
          order := order, discarded := fun _ => Or.inl rfl, stopped := fun _ => stopping, exited := nofun }
      · have bytes := tracks.bytes
        have within := tracks.within
        rw [front, List.map_cons, List.sum_cons] at bytes
        have none := pushing_of_unlocked free
        refine { quiet with
          order := ?_, bytes := ?_, within := ?_, room := ?_, discarded := ?_, stopped := ?_, exited := nofun }
        · simpa [Worker.holds, front] using order
        · simp only [release, bytes, Nat.add_sub_cancel_left]
        · simp only [release]
          omega
        · simp [release, none]
        · intro dropped
          rcases quiet.discarded dropped with ended | ended <;> simp [waiting] at ended
        · rintro (ended | ended) <;> cases ended

theorem discard (tracks : l.Tracks byteLimit seen) :
    (l.act global .discard).1.Tracks byteLimit (fun kind => seen kind ++ emits kind l .discard) := by
  unfold act
  dsimp only
  split
  · rename_i other
    exact tracks.idle (fun kind => by cases kind <;> simp [emits, other])
  · rename_i here
    rw [not_not] at here
    have stopping := tracks.stopped (Or.inl here)
    have order := tracks.order
    rw [here] at order
    split
    · rename_i empty
      have quiet := @idle _ _ _ .discard tracks (fun kind => by cases kind <;> simp [emits, empty])
      have same := quiet.order
      rw [here] at same
      exact { quiet with
        order := same, discarded := fun _ => Or.inr rfl, stopped := fun _ => stopping, exited := fun _ => empty }
    · rename_i frame rest front
      have bytes := tracks.bytes
      have within := tracks.within
      rw [front, List.map_cons, List.sum_cons] at bytes
      refine { tracks with
        order := ?_, bytes := ?_, within := ?_, room := ?_, counted := ?_, discarded := ?_, exited := ?_ }
      · simpa [emits, here, front, Worker.holds, release] using order
      · simp only [release, bytes, Nat.add_sub_cancel_left]
      · simp only [release]
        omega
      · intro pending holder
        have running := (tracks.room pending holder).2
        rw [stopping] at running
        cases running
      · simpa [emits, release] using tracks.counted
      · exact fun _ => Or.inl here
      · intro ended
        simp [release, here] at ended

theorem act (tracks : l.Tracks byteLimit seen) (global : SendBudget) (action : LaneAction) :
    (l.act global action).1.Tracks byteLimit (fun kind => seen kind ++ emits kind l action) := by
  cases action with
  | push frame => exact tracks.push frame
  | reserve => exact tracks.reserve
  | run => exact tracks.run
  | discard => exact tracks.discard
  | sinkReturns ok => exact tracks.sinkReturns ok
  | stop drain => exact tracks.stop drain

end Tracks

/-- What a step does to the shared counter is what it does to the lane's own. -/
theorem act_used {l : SendLane} {global : SendBudget} (exact : l.bytes = (l.queue.map List.length).sum)
    (counted : l.bytes ≤ global.used) (action : LaneAction) :
    (l.act global action).2.used + l.bytes = global.used + (l.act global action).1.bytes := by
  have released {frame : Bytes} {rest : List Bytes} (front : l.queue = frame :: rest) :
      global.used - frame.length + l.bytes = global.used + (l.bytes - frame.length) := by
    rw [front, List.map_cons, List.sum_cons] at exact
    omega
  cases action with
  | push frame =>
    simp only [act]
    split
    · rfl
    · split <;> rfl
  | reserve =>
    simp only [act]
    split
    · rfl
    · simp only
      omega
  | run =>
    simp only [act]
    split
    · rfl
    · split
      · split <;> rfl
      · rename_i front
        split
        · rfl
        · exact released front
  | discard =>
    simp only [act]
    split
    · rfl
    · split
      · rfl
      · rename_i front
        exact released front
  | sinkReturns ok =>
    simp only [act]
    split <;> rfl
  | stop drain =>
    simp only [act]
    split <;> rfl

theorem act_limit (l : SendLane) (global : SendBudget) (action : LaneAction) :
    (l.act global action).2.limit = global.limit := by
  cases action with
  | push frame =>
    simp only [act]
    split
    · rfl
    · split <;> rfl
  | run =>
    simp only [act]
    split
    · rfl
    · split
      · split <;> rfl
      · split <;> rfl
  | discard =>
    simp only [act]
    split
    · rfl
    · split <;> rfl
  | reserve | sinkReturns | stop =>
    simp only [act]
    split <;> rfl

/-- A lane that nobody has asked to throw its queue away. -/
structure Draining (l : SendLane) (seen : LaneLog → List Bytes) : Prop where
  drain : l.stopping = true → l.drain = true
  worker : l.worker ≠ .discarding
  kept : seen .discarded = []

theorem Draining.act {l : SendLane} {seen : LaneLog → List Bytes} (draining : l.Draining seen) (global : SendBudget)
    {action : LaneAction} (other : action ≠ .stop false) :
    (l.act global action).1.Draining (fun kind => seen kind ++ emits kind l action) := by
  have kept : seen .discarded ++ emits .discarded l action = [] := by
    rw [draining.kept, List.nil_append]
    cases action with
    | discard => exact if_neg draining.worker
    | _ => rfl
  have same : l.Draining (fun kind => seen kind ++ emits kind l action) := ⟨draining.drain, draining.worker, kept⟩
  cases action with
  | push frame =>
    simp only [SendLane.act]
    split
    · exact same
    · split <;> exact ⟨draining.drain, draining.worker, kept⟩
  | reserve =>
    simp only [SendLane.act]
    split
    · exact same
    · exact ⟨draining.drain, draining.worker, kept⟩
  | run =>
    simp only [SendLane.act]
    split
    · exact same
    · split
      · split
        · exact ⟨draining.drain, nofun, kept⟩
        · exact same
      · split
        · rename_i discards
          rw [Bool.and_eq_true, Bool.not_eq_true'] at discards
          have drains := draining.drain discards.1
          rw [discards.2] at drains
          cases drains
        · exact ⟨draining.drain, nofun, kept⟩
  | discard =>
    simp only [SendLane.act, if_pos draining.worker]
    exact same
  | sinkReturns ok =>
    simp only [SendLane.act]
    split
    · exact ⟨draining.drain, nofun, kept⟩
    · exact same
  | stop drain =>
    cases drain with
    | false => exact absurd rfl other
    | true =>
      simp only [SendLane.act]
      split
      · exact same
      · exact ⟨fun _ => rfl, draining.worker, kept⟩

end SendLane

/-- The lanes of one transport. -/
abbrev SendLanes (ι : Type) := Shared ι SendLane SendBudget

namespace SendLanes
variable {ι : Type} [DecidableEq ι]

def create (limit : Nat) (byteLimit : ι → Nat) : SendLanes ι where
  resource := { limit := limit }
  part := fun i => { byteLimit := byteLimit i }

def after (limit : Nat) (byteLimit : ι → Nat) (events : List (ι × LaneAction)) : SendLanes ι :=
  Run.exec (Shared.step SendLane.act) (create limit byteLimit) events

/-- What has been observed of one lane. -/
def seen (limit : Nat) (byteLimit : ι → Nat) (events : List (ι × LaneAction)) (i : ι) (kind : LaneLog) : List Bytes :=
  Shared.log SendLane.act (SendLane.emits kind) i (create limit byteLimit) events

variable {limit : Nat} {byteLimit : ι → Nat} {events : List (ι × LaneAction)}

theorem tracks (i : ι) : ((after limit byteLimit events).part i).Tracks (byteLimit i) (seen limit byteLimit events i) := by
  refine Shared.part_invariant SendLane.act SendLane.emits
    (fun _ global action _ (_ : True) tracks => tracks.act global action) ?_ (fun _ _ => trivial)
  exact {
    limit := rfl
    order := rfl
    bytes := rfl
    within := Nat.zero_le _
    room := nofun
    counted := rfl
    discarded := fun dropped => absurd rfl dropped
    stopped := nofun
    exited := nofun }

theorem draining {i : ι} (drained : (i, .stop false) ∉ events) :
    ((after limit byteLimit events).part i).Draining (seen limit byteLimit events i) := by
  refine Shared.part_invariant SendLane.act SendLane.emits
    (fun _ global action _ (other : action ≠ .stop false) draining => draining.act global other) ⟨nofun, nofun, rfl⟩ ?_
  rintro _ member rfl
  exact drained member

/-- The shared counter is the sum of what the lanes count. -/
theorem used_eq [Fintype ι] :
    (after limit byteLimit events).resource.used = ∑ i, ((after limit byteLimit events).part i).bytes := by
  induction events using List.reverseRecOn with
  | nil => exact (Finset.sum_const_zero).symm
  | append_singleton events event ih =>
    have last : after limit byteLimit (events ++ [event]) = Shared.step SendLane.act (after limit byteLimit events) event :=
      Run.exec_snoc _ _ _ _
    have own : ((after limit byteLimit events).part event.1).Tracks _ _ := tracks event.1
    have counted := (Shared.weight_le_sum SendLane.bytes (after limit byteLimit events) event.1).trans ih.symm.le
    rw [last]
    exact Shared.level_step SendLane.act SendLane.bytes SendBudget.used (SendLane.act_used own.bytes counted event.2) ih

/-- Whatever the lanes of a transport do, in any interleaving: each lane is a
queue without loss, its bytes are those of its queue and within its limit, the
shared counter is their sum, a push is accepted or counted as dropped, and a
worker leaves an empty lane, all of it sent if no stop asked to discard. -/
theorem loss_free_fifo [Fintype ι] (limit : Nat) (byteLimit : ι → Nat) (events : List (ι × LaneAction)) :
    let lanes := after limit byteLimit events
    let seen := seen limit byteLimit events
    lanes.resource.used = ∑ i, (lanes.part i).bytes ∧
    ∀ i, seen i .accepted = seen i .handed ++ seen i .discarded ++ ((lanes.part i).worker.holds ++ (lanes.part i).queue) ∧
      ((i, .stop false) ∉ events →
        seen i .accepted = seen i .handed ++ ((lanes.part i).worker.holds ++ (lanes.part i).queue)) ∧
      (lanes.part i).bytes = ((lanes.part i).queue.map List.length).sum ∧
      (lanes.part i).bytes ≤ byteLimit i ∧
      (seen i .offered).length =
        (seen i .accepted).length + (lanes.part i).dropped + (lanes.part i).pushing.toList.length ∧
      ((lanes.part i).worker = .exited → (i, .stop false) ∉ events → seen i .handed = seen i .accepted) ∧
      ((lanes.part i).worker = .exited → (lanes.part i).queue = [] ∧ (lanes.part i).bytes = 0) := by
  intro lanes seen
  refine ⟨used_eq, fun i => ?_⟩
  have tracks : (lanes.part i).Tracks (byteLimit i) (seen i) := tracks i
  have order (drained : (i, .stop false) ∉ events) :
      seen i .accepted = seen i .handed ++ ((lanes.part i).worker.holds ++ (lanes.part i).queue) := by
    have kept : seen i .discarded = [] := (draining drained).kept
    rw [tracks.order, kept, List.append_nil]
  refine ⟨tracks.order, order, tracks.bytes, tracks.within, tracks.counted, fun ended drained => ?_, fun ended => ?_⟩
  · rw [order drained, ended, tracks.exited ended]
    exact (List.append_nil _).symm
  · have empty := tracks.exited ended
    exact ⟨empty, by rw [tracks.bytes, empty, List.map_nil, List.sum_nil]⟩

/-- One lane drains, the other throws its queue away. -/
theorem loss_free_fifo_two_stops :
    let events : List (Bool × LaneAction) := [(false, .push [1]), (false, .reserve), (true, .push [3]), (false, .run),
      (true, .reserve), (false, .push [2]), (false, .reserve), (true, .stop false), (false, .stop true),
      (false, .sinkReturns true), (true, .run), (false, .run), (true, .discard), (false, .sinkReturns true),
      (true, .discard), (false, .run)]
    seen 8 (fun _ => 4) events false .handed = seen 8 (fun _ => 4) events false .accepted ∧
      seen 8 (fun _ => 4) events false .accepted = [[1], [2]] ∧
      ((after 8 (fun _ => 4) events).part true).bytes = 0 ∧ seen 8 (fun _ => 4) events true .discarded = [[3]] := by
  intro events
  obtain ⟨_, lanes⟩ := loss_free_fifo 8 (fun _ => 4) events
  obtain ⟨_, _, _, _, _, sent, _⟩ := lanes false
  obtain ⟨_, _, _, _, _, _, left⟩ := lanes true
  exact ⟨sent rfl (by decide), rfl, (left rfl).2, rfl⟩

end SendLanes

end Mdds
