/-
The gate never has more peers in than its limit, and it turns one away only where so many workers have not come to their
ends. Workers end at any time, also while a peer is let in (`Gate.enterAmid`): one that ends before the notices are read
leaves its place, and one that ends later keeps it until they are read again. That they are read one by one makes no
difference (`Workers.reapAmid_eq`).
-/
import LineRing.Proofs.Workers.Calls

namespace LineRing

namespace Gate

variable {g : Gate}

/-! ## A gate on which workers end -/

/-- The gate once these workers have come to their ends, one after the other. -/
def finishEach (g : Gate) (ids : List WorkerId) : Gate := ids.foldl finish g

theorem finishEach_eq (ids : List WorkerId) :
    ∀ g : Gate, g.finishEach ids = { g with workers := g.workers.finishEach ids } := by
  induction ids with
  | nil => exact fun _ => rfl
  | cons id rest ih => exact fun g => ih (g.finish id)

@[simp] theorem finishEach_limit (ids : List WorkerId) (g : Gate) : (g.finishEach ids).limit = g.limit := by
  rw [finishEach_eq]

@[simp] theorem finishEach_active (ids : List WorkerId) (g : Gate) : (g.finishEach ids).active = g.active := by
  simp [finishEach_eq, active, Workers.active]

@[simp] theorem finishEach_nextId (ids : List WorkerId) (g : Gate) :
    (g.finishEach ids).workers.nextId = g.workers.nextId := by
  simp [finishEach_eq]

@[simp] theorem finishEach_running (ids : List WorkerId) (g : Gate) :
    (g.finishEach ids).workers.running = g.workers.running.diff ids := by
  simp [finishEach_eq]

/-- The account of the workers holds, and no more of them are tracked than the gate lets in. -/
structure WF (g : Gate) : Prop where
  workers : g.workers.WF
  active_le : g.active ≤ g.limit

theorem running_le_active (h : g.WF) : g.workers.running.length ≤ g.active := by
  have heq : g.active = g.workers.running.length + g.workers.notices.length := h.workers.active_eq
  omega

theorem finish_wf (h : g.WF) (id : WorkerId) : (g.finish id).WF := by
  refine ⟨Workers.finish_wf h.workers id, ?_⟩
  have hle := h.active_le
  simpa [active, Workers.active, finish] using hle

theorem finishEach_wf (ids : List WorkerId) (h : g.WF) : (g.finishEach ids).WF := by
  constructor
  · rw [finishEach_eq]
    exact Workers.finishEach_wf ids h.workers
  · rw [finishEach_active, finishEach_limit]
    exact h.active_le

theorem active_reap (h : g.WF) : g.reap.active = g.workers.running.length := Workers.active_reap h.workers

theorem reap_wf (h : g.WF) : g.reap.WF := by
  constructor
  · exact Workers.reap_wf h.workers
  · show g.reap.active ≤ g.limit
    rw [active_reap h]
    exact Nat.le_trans (running_le_active h) h.active_le

/-! ## Letting a peer in -/

/-- The workers that end while a peer is let in, in the order of their ends. -/
structure Meanwhile where
  /-- After the look whether the gate is full, and before notices are read to make room. -/
  looked : List WorkerId := []
  /-- After that, and before a worker is started. -/
  cleared : List WorkerId := []
  /-- After a worker has been started, and before notices are read again. -/
  started : List WorkerId := []
  deriving DecidableEq, Repr

/-- The gate with the workers that have ended joined, if it is full; some of them end after it was found so. -/
def makeRoomAmid (g : Gate) (looked : List WorkerId) : Gate :=
  if g.limit ≤ g.workers.active then (g.finishEach looked).reap else g.finishEach looked

/-- Starts a worker for a peer, as `enter` does, while workers end. -/
def enterAmid (g : Gate) (refused : Option Fault) (m : Meanwhile) : Gate × Except Failure (Option WorkerId) :=
  let g := (g.makeRoomAmid m.looked).finishEach m.cleared
  if g.limit ≤ g.workers.active then (g, .ok none)
  else
    match g.workers.spawn refused with
    | (workers, .error failure) => ({ g with workers := workers }, .error failure)
    | (workers, .ok id) => (({ g with workers := workers }.finishEach m.started).reap, .ok (some id))

theorem enterAmid_nil (g : Gate) (refused : Option Fault) : g.enterAmid refused {} = g.enter refused := rfl

theorem makeRoomAmid_running (g : Gate) (looked : List WorkerId) :
    (g.makeRoomAmid looked).workers.running = g.workers.running.diff looked := by
  unfold makeRoomAmid
  split
  · exact finishEach_running looked g
  · exact finishEach_running looked g

theorem makeRoomAmid_nextId (g : Gate) (looked : List WorkerId) :
    (g.makeRoomAmid looked).workers.nextId = g.workers.nextId := by
  unfold makeRoomAmid
  split
  · exact finishEach_nextId looked g
  · exact finishEach_nextId looked g

theorem makeRoomAmid_wf (h : g.WF) (looked : List WorkerId) : (g.makeRoomAmid looked).WF := by
  unfold makeRoomAmid
  split
  · exact reap_wf (finishEach_wf looked h)
  · exact finishEach_wf looked h

theorem makeRoomAmid_limit (g : Gate) (looked : List WorkerId) : (g.makeRoomAmid looked).limit = g.limit := by
  unfold makeRoomAmid
  split
  · exact finishEach_limit looked g
  · exact finishEach_limit looked g

/-- There is no room left just if so many workers have not ended. In a gate that is not found full, the workers that
have ended may well be tracked still, and there is room all the same. -/
theorem makeRoomAmid_full_iff (h : g.WF) (looked : List WorkerId) :
    g.limit ≤ (g.makeRoomAmid looked).active ↔ (g.workers.running.diff looked).length = g.limit := by
  have hwf := finishEach_wf looked h
  have hle := running_le_active hwf
  have hroom := h.active_le
  rw [finishEach_running, finishEach_active] at hle
  unfold makeRoomAmid
  split
  · rw [active_reap hwf, finishEach_running]
    omega
  · rename_i hfree
    change ¬ g.limit ≤ g.active at hfree
    rw [finishEach_active]
    omega

theorem spawn_wf (h : g.WF) (hroom : g.active < g.limit) (refused : Option Fault) :
    ({ g with workers := (g.workers.spawn refused).1 } : Gate).WF := by
  refine ⟨Workers.spawn_wf h.workers refused, ?_⟩
  cases refused with
  | some fault => exact h.active_le
  | none =>
    show (g.workers.tracked ++ [g.workers.nextId]).length ≤ g.limit
    rw [List.length_append]
    exact hroom

/-- What comes of letting a peer in: it is turned away, or the system refuses a worker, or a worker is started. -/
theorem enterAmid_cases (h : g.WF) (refused : Option Fault) (m : Meanwhile) :
    ∃ ready : Gate, ready.WF ∧ ready.limit = g.limit ∧ ready.workers.nextId = g.workers.nextId ∧
      ready.workers.running = (g.workers.running.diff m.looked).diff m.cleared ∧
      ((g.workers.running.diff m.looked).length = g.limit ∧ g.enterAmid refused m = (ready, .ok none) ∨
      (g.workers.running.diff m.looked).length < g.limit ∧ ready.active < g.limit ∧
        ((∃ fault, refused = some fault ∧
            g.enterAmid refused m = ({ ready with workers := (ready.workers.spawn refused).1 }, .error (.stream fault))) ∨
          (refused = none ∧
            g.enterAmid refused m =
              (({ ready with workers := (ready.workers.spawn refused).1 }.finishEach m.started).reap,
                .ok (some ready.workers.nextId))))) := by
  have hwf : ((g.makeRoomAmid m.looked).finishEach m.cleared).WF := finishEach_wf m.cleared (makeRoomAmid_wf h m.looked)
  have hlimit : ((g.makeRoomAmid m.looked).finishEach m.cleared).limit = g.limit :=
    (finishEach_limit _ _).trans (makeRoomAmid_limit _ _)
  have hfull := makeRoomAmid_full_iff h m.looked
  rw [← finishEach_active m.cleared] at hfull
  refine ⟨(g.makeRoomAmid m.looked).finishEach m.cleared, hwf, hlimit, ?_, ?_, ?_⟩
  · rw [finishEach_nextId, makeRoomAmid_nextId]
  · rw [finishEach_running, makeRoomAmid_running]
  · by_cases hroom : g.limit ≤ ((g.makeRoomAmid m.looked).finishEach m.cleared).active
    · exact Or.inl ⟨hfull.1 hroom, if_pos (by rw [hlimit]; exact hroom)⟩
    · refine Or.inr ⟨?_, Nat.lt_of_not_le hroom, ?_⟩
      · have hle := running_le_active (finishEach_wf m.looked h)
        have hcap := h.active_le
        have hne := mt hfull.2 hroom
        rw [finishEach_running, finishEach_active] at hle
        omega
      · have henter : g.enterAmid refused m = _ := if_neg (by rw [hlimit]; exact hroom)
        cases refused with
        | some fault => exact Or.inl ⟨fault, rfl, henter⟩
        | none => exact Or.inr ⟨rfl, henter⟩

theorem enterAmid_wf (h : g.WF) (refused : Option Fault) (m : Meanwhile) :
    (g.enterAmid refused m).1.WF ∧ (g.enterAmid refused m).1.limit = g.limit := by
  obtain ⟨ready, hwf, hlimit, -, -, ⟨-, henter⟩ | ⟨-, hroom, ⟨fault, -, henter⟩ | ⟨-, henter⟩⟩⟩ :=
    enterAmid_cases h refused m
  · rw [henter]
    exact ⟨hwf, hlimit⟩
  · rw [henter]
    exact ⟨spawn_wf hwf (by rw [hlimit]; exact hroom) refused, hlimit⟩
  · rw [henter]
    constructor
    · exact reap_wf (finishEach_wf m.started (spawn_wf hwf (by rw [hlimit]; exact hroom) refused))
    · exact (finishEach_limit _ _).trans hlimit

/-- Where workers end only between the calls, a call starts one new worker or none, and no other comes or goes. -/
theorem enter_cases (h : g.WF) (refused : Option Fault) :
    (∃ id, (g.enter refused).2 = .ok (some id) ∧ id ∉ g.workers.tracked ∧
      (g.enter refused).1.workers.running = g.workers.running ++ [id]) ∨
    (∀ id, (g.enter refused).2 ≠ .ok (some id)) ∧ (g.enter refused).1.workers.running = g.workers.running := by
  rw [← enterAmid_nil]
  obtain ⟨ready, -, -, hnext, hrunning, ⟨-, henter⟩ | ⟨-, -, ⟨fault, rfl, henter⟩ | ⟨rfl, henter⟩⟩⟩ :=
    enterAmid_cases h refused {}
  · rw [henter]
    exact Or.inr ⟨by simp, hrunning⟩
  · rw [henter]
    exact Or.inr ⟨by simp, hrunning⟩
  · rw [henter]
    refine Or.inl ⟨_, rfl, by rw [hnext]; exact h.workers.nextId_notMem, ?_⟩
    show ready.workers.running ++ [ready.workers.nextId] = _
    rw [hrunning]; rfl

/-! ## Runs -/

/-- What happens at a gate. -/
inductive Event where
  /-- A peer comes; the system may refuse a worker. -/
  | enter (refused : Option Fault) (m : Meanwhile)
  /-- A worker comes to its end, normally or not. -/
  | finish (id : WorkerId)
  /-- The workers that have ended are joined. -/
  | reap

def step (g : Gate) : Event → Gate
  | .enter refused m => (g.enterAmid refused m).1
  | .finish id => g.finish id
  | .reap => g.reap

def run (g : Gate) (events : List Event) : Gate := events.foldl step g

theorem step_wf (h : g.WF) (event : Event) : (g.step event).WF ∧ (g.step event).limit = g.limit := by
  cases event with
  | enter refused m => exact enterAmid_wf h refused m
  | finish id => exact ⟨finish_wf h id, rfl⟩
  | reap => exact ⟨reap_wf h, rfl⟩

theorem run_wf (events : List Event) : ∀ {g : Gate}, g.WF → (g.run events).WF ∧ (g.run events).limit = g.limit := by
  induction events with
  | nil => exact fun h => ⟨h, rfl⟩
  | cons event rest ih =>
    intro g h
    obtain ⟨hstep, hlimit⟩ := step_wf h event
    obtain ⟨hrun, heq⟩ := ih hstep
    exact ⟨hrun, heq.trans hlimit⟩

/-- The gate keeps its limit. Whatever has happened at a new gate, and whichever workers end while the next peer comes:
no more workers are active than the limit, and those that run are among them. The peer is turned away just if, when the
notices have been read, so many workers have not ended; else a worker is started, or the system refuses it. Where none
is started, those run that ran before and have not ended, and all of them stay tracked. A worker that is started is a
new one, and it makes no more than the limit with those that run then. -/
theorem gate_keeps_limit (limit : Nat) (events : List Event) :
    let g := run { limit := limit } events
    g.active ≤ limit ∧ g.workers.running.length ≤ g.active ∧ (∀ id ∈ g.workers.running, id ∈ g.workers.tracked) ∧
    ∀ (refused : Option Fault) (m : Meanwhile),
      let unfinished := g.workers.running.diff m.looked
      let g' := (g.enterAmid refused m).1
      let answer := (g.enterAmid refused m).2
      (answer = .ok none ↔ unfinished.length = limit) ∧
      (unfinished.length < limit →
        answer = match refused with
          | some fault => .error (.stream fault)
          | none => .ok (some g.workers.nextId)) ∧
      ((∀ id, answer ≠ .ok (some id)) →
        g'.workers.running = unfinished.diff m.cleared ∧ ∀ id ∈ g'.workers.running, id ∈ g'.workers.tracked) ∧
      (∀ id, answer = .ok (some id) →
        id ∉ g.workers.tracked ∧ (unfinished.diff m.cleared ++ [id]).length ≤ limit) := by
  intro g
  have hnew : WF { limit := limit } := ⟨Workers.new_wf, Nat.zero_le limit⟩
  obtain ⟨hwf, hlimit⟩ := run_wf events hnew
  replace hlimit : g.limit = limit := hlimit
  refine ⟨?_, running_le_active hwf, fun id hid => hwf.workers.mem_tracked_of_running hid, ?_⟩
  · rw [← hlimit]
    exact hwf.active_le
  · intro refused m unfinished g' answer
    have hwf' : g'.WF := (enterAmid_wf hwf refused m).1
    have htracked : ∀ id ∈ g'.workers.running, id ∈ g'.workers.tracked :=
      fun id hid => hwf'.workers.mem_tracked_of_running hid
    obtain ⟨ready, hready, -, hnext, hrunning, ⟨hfull, henter⟩ | ⟨hfree, hroom, ⟨fault, rfl, henter⟩ | ⟨rfl, henter⟩⟩⟩ :=
      enterAmid_cases hwf refused m
    · rw [hlimit] at hfull
      have hanswer : answer = .ok none := congrArg Prod.snd henter
      have hg' : g' = ready := congrArg Prod.fst henter
      refine ⟨iff_of_true hanswer hfull, ?_, ?_, ?_⟩
      · intro hlt
        exact absurd hfull (Nat.ne_of_lt hlt)
      · intro _
        exact ⟨by rw [hg']; exact hrunning, htracked⟩
      · intro id hid
        rw [hanswer] at hid; cases hid
    · rw [hlimit] at hfree
      have hanswer : answer = .error (.stream fault) := congrArg Prod.snd henter
      have hg' : g'.workers.running = ready.workers.running := congrArg (·.1.workers.running) henter
      refine ⟨iff_of_false (by rw [hanswer]; simp) (Nat.ne_of_lt hfree), fun _ => hanswer, ?_, ?_⟩
      · intro _
        exact ⟨hg'.trans hrunning, htracked⟩
      · intro id hid
        rw [hanswer] at hid; cases hid
    · rw [hlimit] at hfree hroom
      have hanswer : answer = .ok (some g.workers.nextId) := (congrArg Prod.snd henter).trans (by rw [hnext])
      refine ⟨iff_of_false (by rw [hanswer]; simp) (Nat.ne_of_lt hfree), fun _ => hanswer, ?_, ?_⟩
      · intro hnone
        exact absurd hanswer (hnone _)
      · intro id hid
        rw [hanswer] at hid
        obtain rfl : g.workers.nextId = id := by simpa using hid
        refine ⟨hwf.workers.nextId_notMem, ?_⟩
        rw [← hrunning, List.length_append]
        exact Nat.lt_of_le_of_lt (running_le_active hready) hroom

/-- Two workers fill the gate. A third peer is turned away while the first of them ends after the notices are read, and
comes in where it ends before. -/
theorem gate_keeps_limit_two :
    let g := run { limit := 2 } [.enter none {}, .finish 9, .enter none {}, .reap]
    g.active = 2 ∧ (g.enterAmid none { cleared := [1] }).2 = .ok none ∧
      (g.enterAmid none { looked := [1] }).2 = .ok (some 3) := by
  intro g
  obtain ⟨-, -, -, hpeer⟩ := gate_keeps_limit 2 [.enter none {}, .finish 9, .enter none {}, .reap]
  obtain ⟨hlate, -⟩ := hpeer none { cleared := [1] }
  obtain ⟨-, hsoon, -⟩ := hpeer none { looked := [1] }
  exact ⟨by decide, hlate.2 (by decide), hsoon (by decide)⟩

end Gate

end LineRing
