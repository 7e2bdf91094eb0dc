/-
The history of the workers: the names that were given to them, and the workers that were joined, with workers that end at
any time. Main statement: whatever has happened, no worker is lost and none is joined twice; a reading of the notices
joins those that have posted one; and nothing is left of the workers that have all been waited for
(`run_accounts_for_all`).
-/
import LineRing.Proofs.Workers.Calls

namespace LineRing

/-- The workers, and what has become of them. -/
structure History where
  workers : Workers := {}
  /-- The names that were given, first to last. -/
  started : List WorkerId := []
  /-- The workers that were joined, first to last. -/
  joined : List WorkerId := []

namespace History

open Workers

variable {h : History}

/-- What happens to the workers. -/
inductive Event where
  /-- A worker is started, unless the system refuses. -/
  | spawn (refused : Option Fault) (amid : List WorkerId)
  /-- A worker comes to its end, normally or not. -/
  | finish (id : WorkerId)
  /-- The workers that have ended are joined. -/
  | reap (amid : List (List WorkerId))
  /-- All workers are waited for. -/
  | joinAll (order : Order) (amid : WorkerId → List WorkerId)

def step (h : History) : Event → History
  | .spawn refused amid =>
    let (workers, answer) := h.workers.spawnAmid refused amid
    { h with workers := workers, started := h.started ++ answer.toOption.toList }
  | .finish id => { h with workers := h.workers.finish id }
  | .reap amid =>
    let (workers, joined) := h.workers.reapAmid amid
    { h with workers := workers, joined := h.joined ++ joined }
  | .joinAll order amid =>
    let (workers, joined) := h.workers.joinAllAmid order amid
    { h with workers := workers, joined := h.joined ++ joined }

def run (h : History) (events : List Event) : History := events.foldl step h

/-- Those that were started are tracked or have been joined, and their names come in order. -/
structure WF (h : History) : Prop where
  workers : h.workers.WF
  perm : (h.workers.tracked ++ h.joined).Perm h.started
  sorted : h.started.Pairwise (· < ·)
  lt_nextId : ∀ id ∈ h.started, id < h.workers.nextId

theorem new_wf : ({} : History).WF := ⟨Workers.new_wf, List.Perm.refl _, List.Pairwise.nil, by simp⟩

/-- From one history to a later one: workers are started, under names that have not been given, and workers are joined,
of those that were tracked and the new ones. -/
structure Grows (h later : History) (new late : List WorkerId) : Prop where
  started : later.started = h.started ++ new
  joined : later.joined = h.joined ++ late
  perm : (later.workers.tracked ++ late).Perm (h.workers.tracked ++ new)
  sorted : new.Pairwise (· < ·)
  nextId_le : ∀ id ∈ new, h.workers.nextId ≤ id
  lt_nextId : ∀ id ∈ new, id < later.workers.nextId
  mono : h.workers.nextId ≤ later.workers.nextId

theorem Grows.wf {later : History} {new late : List WorkerId} (hgrows : h.Grows later new late) (hwf : h.WF)
    (hworkers : later.workers.WF) : later.WF := by
  refine ⟨hworkers, ?_, ?_, ?_⟩
  · rw [hgrows.joined, hgrows.started]
    refine List.perm_iff_count.2 fun id => ?_
    have hold := hwf.perm.count_eq id
    have hnew := hgrows.perm.count_eq id
    simp only [List.count_append] at hold hnew ⊢
    omega
  · rw [hgrows.started]
    refine List.pairwise_append.2 ⟨hwf.sorted, hgrows.sorted, fun old hold id hid => ?_⟩
    exact Nat.lt_of_lt_of_le (hwf.lt_nextId old hold) (hgrows.nextId_le id hid)
  · rw [hgrows.started]
    intro id hid
    rcases List.mem_append.1 hid with hold | hnew
    · exact Nat.lt_of_lt_of_le (hwf.lt_nextId id hold) hgrows.mono
    · exact hgrows.lt_nextId id hnew

theorem Grows.refl (h : History) : h.Grows h [] [] := by
  constructor <;> simp

theorem Grows.trans {between later : History} {new new' late late' : List WorkerId} (hfirst : h.Grows between new late)
    (hsecond : between.Grows later new' late') : h.Grows later (new ++ new') (late ++ late') := by
  constructor
  · rw [hsecond.started, hfirst.started, List.append_assoc]
  · rw [hsecond.joined, hfirst.joined, List.append_assoc]
  · refine List.perm_iff_count.2 fun id => ?_
    have hone := hfirst.perm.count_eq id
    have htwo := hsecond.perm.count_eq id
    simp only [List.count_append] at hone htwo ⊢
    omega
  · refine List.pairwise_append.2 ⟨hfirst.sorted, hsecond.sorted, fun id hid id' hid' => ?_⟩
    exact Nat.lt_of_lt_of_le (hfirst.lt_nextId id hid) (hsecond.nextId_le id' hid')
  · intro id hid
    rcases List.mem_append.1 hid with hid | hid
    · exact hfirst.nextId_le id hid
    · exact Nat.le_trans hfirst.mono (hsecond.nextId_le id hid)
  · intro id hid
    rcases List.mem_append.1 hid with hid | hid
    · exact Nat.lt_of_lt_of_le (hfirst.lt_nextId id hid) hsecond.mono
    · exact hsecond.lt_nextId id hid
  · exact Nat.le_trans hfirst.mono hsecond.mono

/-! ## Runs -/

theorem step_spawn_grows (hw : h.workers.WF) (refused : Option Fault) (amid : List WorkerId) :
    ∃ new, h.Grows (h.step (.spawn refused amid)) new [] ∧ (h.step (.spawn refused amid)).workers.WF := by
  have hstep : h.step (.spawn refused amid) =
      { h with workers := (h.workers.spawn refused).1.finishEach amid,
               started := h.started ++ (h.workers.spawn refused).2.toOption.toList } := by
    rw [step, spawnAmid_eq]
  rw [hstep]
  have hwf := finishEach_wf amid (spawn_wf hw refused)
  cases refused with
  | some fault => exact ⟨[], by constructor <;> simp [spawn, Except.toOption], hwf⟩
  | none => exact ⟨[h.workers.nextId], by constructor <;> simp [spawn, Except.toOption], hwf⟩

theorem step_reap_grows (hw : h.workers.WF) (amid : List (List WorkerId)) :
    h.Grows (h.step (.reap amid)) [] (h.workers.reapAmid amid).2 ∧ (h.step (.reap amid)).workers.WF := by
  obtain ⟨looks, hreap⟩ := reapAmid_eq amid h.workers
  have hended := finishEach_wf (amid.take looks).flatten hw
  have hwf : (h.workers.reapAmid amid).1.WF := by rw [hreap]; exact reap_wf hended
  refine ⟨?_, hwf⟩
  have hperm : ((h.workers.reapAmid amid).1.tracked ++ (h.workers.reapAmid amid).2).Perm h.workers.tracked := by
    have hkept := perm_reap hended
    rwa [finishEach_tracked, ← hreap] at hkept
  have hnext : (h.workers.reapAmid amid).1.nextId = h.workers.nextId := by
    rw [hreap]
    exact finishEach_nextId _ _
  constructor
  case perm => rw [List.append_nil]; exact hperm
  case mono => exact Nat.le_of_eq hnext.symm
  all_goals simp [step]

theorem step_joinAll_grows (hw : h.workers.WF) (order : Order) (amid : WorkerId → List WorkerId) :
    h.Grows (h.step (.joinAll order amid)) [] (h.workers.joinAllAmid order amid).2 ∧
      (h.step (.joinAll order amid)).workers = { nextId := h.workers.nextId } := by
  have hworkers : (h.step (.joinAll order amid)).workers = { nextId := h.workers.nextId } := by
    obtain ⟨hjoined, -⟩ := joinAllAmid_eq hw order amid
    obtain ⟨-, hleft, -⟩ := (joinAll?_eq_some_iff (finishEach_wf _ hw)).1 hjoined
    rwa [finishEach_nextId] at hleft
  refine ⟨?_, hworkers⟩
  constructor
  case perm => rw [hworkers, List.append_nil]; exact order.perm h.workers.tracked
  case mono => exact Nat.le_of_eq (congrArg nextId hworkers).symm
  all_goals simp [step]

theorem step_grows (hw : h.workers.WF) (event : Event) :
    ∃ new late, h.Grows (h.step event) new late ∧ (h.step event).workers.WF := by
  cases event with
  | spawn refused amid =>
    obtain ⟨new, hgrows, hwf⟩ := step_spawn_grows hw refused amid
    exact ⟨new, [], hgrows, hwf⟩
  | finish id => exact ⟨[], [], by constructor <;> simp [step], finish_wf hw id⟩
  | reap amid => exact ⟨[], _, step_reap_grows hw amid⟩
  | joinAll order amid =>
    obtain ⟨hgrows, hworkers⟩ := step_joinAll_grows hw order amid
    refine ⟨[], _, hgrows, ?_⟩
    rw [hworkers]
    exact idle_wf _

theorem run_grows (events : List Event) :
    ∀ {h : History}, h.workers.WF → ∃ new late, h.Grows (h.run events) new late ∧ (h.run events).workers.WF := by
  induction events with
  | nil => exact fun hw => ⟨[], [], .refl _, hw⟩
  | cons event rest ih =>
    intro h hw
    obtain ⟨new, late, hstep, hnext⟩ := step_grows hw event
    obtain ⟨new', late', hrun, hlast⟩ := ih hnext
    exact ⟨new ++ new', late ++ late', hstep.trans hrun, hlast⟩

theorem run_wf (events : List Event) : (run {} events).WF := by
  obtain ⟨new, late, hgrows, hworkers⟩ := run_grows events new_wf.workers
  exact hgrows.wf new_wf hworkers

theorem WF.nodup (hwf : h.WF) : (h.workers.tracked ++ h.joined).Nodup :=
  hwf.perm.nodup_iff.2 (hwf.sorted.imp Nat.ne_of_lt)

/-- To read notices while workers end joins those tracked that have posted one, and no other. -/
theorem reapAmid_joins (hw : h.workers.WF) (amid : List (List WorkerId)) :
    ∃ looks, let posted := (h.workers.finishEach (amid.take looks).flatten).notices
      let left := (h.workers.reapAmid amid).1
      (∀ id, id ∈ (h.workers.reapAmid amid).2 ↔ id ∈ h.workers.tracked ∧ id ∈ posted) ∧
        (∀ id, id ∈ left.tracked ↔ id ∈ h.workers.tracked ∧ id ∉ posted) ∧
        (∀ id ∈ (h.workers.reapAmid amid).2, id ∉ left.running) ∧ left.notices = [] := by
  obtain ⟨looks, hreap⟩ := reapAmid_eq amid h.workers
  have hended := finishEach_wf (amid.take looks).flatten hw
  refine ⟨looks, ?_⟩
  rw [hreap, reap_snd hended]
  intro posted left
  have hboth : h.workers.tracked.Perm ((h.workers.finishEach (amid.take looks).flatten).running ++ posted) := by
    have hperm := hended.perm
    rwa [finishEach_tracked] at hperm
  -- a worker has posted its notice, or it runs
  have hapart : ∀ id ∈ posted, id ∉ (h.workers.finishEach (amid.take looks).flatten).running := by
    intro id hposted hrunning
    exact List.disjoint_of_nodup_append (hboth.nodup_iff.1 hw.nodup) hrunning hposted
  refine ⟨fun id => ?_, fun id => ?_, hapart, rfl⟩
  · exact ⟨fun hposted => ⟨hboth.mem_iff.2 (List.mem_append_right _ hposted), hposted⟩, And.right⟩
  · rw [(perm_reap_tracked hended).mem_iff, hboth.mem_iff, List.mem_append]
    constructor
    · exact fun hrunning => ⟨Or.inl hrunning, fun hposted => hapart id hposted hrunning⟩
    · rintro ⟨hrunning | hposted, hnot⟩
      · exact hrunning
      · exact absurd hposted hnot

/-- Once all workers have been waited for, only those started later are joined, or post notices. -/
theorem later_of_joinAll (hw : h.workers.WF) (order : Order) (amid : WorkerId → List WorkerId) (later : List Event) :
    let done := h.step (.joinAll order amid)
    ∃ late, (done.run later).joined = done.joined ++ late ∧ (∀ id ∈ late, h.workers.nextId ≤ id) ∧
      ∀ id ∈ (done.run later).workers.notices, h.workers.nextId ≤ id := by
  intro done
  obtain ⟨-, hworkers⟩ := step_joinAll_grows hw order amid
  have hdone : done.workers.WF := by
    rw [hworkers]
    exact idle_wf _
  obtain ⟨new, late, hgrows, hlast⟩ := run_grows later hdone
  have hperm := hgrows.perm
  have hnew := hgrows.nextId_le
  rw [hworkers, List.nil_append] at hperm
  rw [hworkers] at hnew
  refine ⟨late, hgrows.joined, fun id hid => ?_, fun id hid => ?_⟩
  · exact hnew id (hperm.mem_iff.1 (List.mem_append_right _ hid))
  · exact hnew id (hperm.mem_iff.1 (List.mem_append_left _ (hlast.mem_tracked_iff.2 (Or.inr hid))))

/-! ## The main statement -/

/-- Whatever has happened, with workers that end at any time: the names that were given rise, and the next one is above
them all. Those started are the active ones and those that have been joined, and no worker is among these twice. A
reading of the notices joins just those tracked that have posted one by its last look, which are none that run; it
leaves the others tracked, and no notice. When all workers have been waited for, none is active and all that were
started have been joined; and only workers that are started later are joined after that, or are found to have posted. -/
theorem run_accounts_for_all (events : List Event) :
    let h := run {} events
    let w := h.workers
    h.started.Pairwise (· < ·) ∧ (∀ id ∈ h.started, id < w.nextId) ∧
    w.active + h.joined.length = h.started.length ∧
    (w.tracked ++ h.joined).Perm h.started ∧ (w.tracked ++ h.joined).Nodup ∧
    (∀ amid, ∃ looks, let posted := (w.finishEach (amid.take looks).flatten).notices
      let left := (w.reapAmid amid).1
      (∀ id, id ∈ (w.reapAmid amid).2 ↔ id ∈ w.tracked ∧ id ∈ posted) ∧
        (∀ id, id ∈ left.tracked ↔ id ∈ w.tracked ∧ id ∉ posted) ∧
        (∀ id ∈ (w.reapAmid amid).2, id ∉ left.running) ∧ left.notices = []) ∧
    ∀ (order : Order) (amid : WorkerId → List WorkerId) (later : List Event),
      let done := h.step (.joinAll order amid)
      done.workers.active = 0 ∧ done.workers.running = [] ∧ done.workers.notices = [] ∧ done.joined.Perm h.started ∧
        ∃ late, (done.run later).joined = done.joined ++ late ∧ (∀ id ∈ late, w.nextId ≤ id) ∧
          ∀ id ∈ (done.run later).workers.notices, w.nextId ≤ id := by
  intro h w
  have hwf : h.WF := run_wf events
  have hcount : w.active + h.joined.length = h.started.length := by
    rw [← hwf.perm.length_eq, List.length_append]
    rfl
  refine ⟨hwf.sorted, hwf.lt_nextId, hcount, hwf.perm, hwf.nodup, reapAmid_joins hwf.workers, ?_⟩
  intro order amid later done
  obtain ⟨hgrows, hworkers⟩ := step_joinAll_grows hwf.workers order amid
  have hdone : done.WF := hgrows.wf hwf (by rw [hworkers]; exact idle_wf _)
  have hall := hdone.perm
  rw [hgrows.started, List.append_nil, hworkers, List.nil_append] at hall
  exact ⟨by rw [hworkers]; rfl, by rw [hworkers], by rw [hworkers], hall, later_of_joinAll hwf.workers order amid later⟩

/-- A worker that ends before it is tracked, a worker that the system refuses, and one that ends while notices are
read; two more are waited for, the second first, and one is started after that. -/
theorem run_accounts_for_all_early_end :
    let before : List Event := [.spawn none [1], .spawn (some ⟨.brokenPipe, none⟩) [], .spawn none [], .reap [[], [3]]]
    let reversed : Order := ⟨List.reverse, List.reverse_perm⟩
    let events := before ++ [.spawn none [], .spawn none [4]]
    let done := (run {} events).step (.joinAll reversed fun _ => [])
    (run {} before).joined = [1, 3] ∧ done.joined = [1, 3, 5, 4] ∧ done.workers.active = 0 ∧
      ∀ id ∈ (done.run [.spawn none [6], .finish 5]).workers.notices, 6 ≤ id := by
  intro before reversed events done
  obtain ⟨-, -, -, -, -, -, hjoinAll⟩ := run_accounts_for_all events
  obtain ⟨hactive, -, -, -, late, -, -, hnotices⟩ :=
    hjoinAll reversed (fun _ => []) [.spawn none [6], .finish 5]
  exact ⟨by decide, by decide, hactive, hnotices⟩

end History

end LineRing
