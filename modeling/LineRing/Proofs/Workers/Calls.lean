/-
Calls within which workers end. A worker may come to its end at any time, also between the steps of a call: when it has
been started and is not tracked yet (`spawnAmid`), when some notices have been read (`reapAmid`), when other workers are
waited for (`joinAllAmid`). Main statements: each of these does what the call does with nothing going on, with the ends
before or after it (`spawnAmid_eq`, `reapAmid_eq`, `joinAllAmid_eq`).
-/
import LineRing.Proofs.Workers.Account

namespace LineRing

namespace Workers

variable {w : Workers}

/-! ## Workers that end while one is started -/

/-- Starts a worker while workers end. The new one runs before it is tracked, and may have come to its end by then. -/
def spawnAmid (w : Workers) (refused : Option Fault) (amid : List WorkerId) : Workers × Except Failure WorkerId :=
  let id := w.nextId
  match refused with
  | some fault => ({ w with nextId := id + 1 }.finishEach amid, .error (.stream fault))
  | none =>
    let w := { w with nextId := id + 1, running := w.running ++ [id] }.finishEach amid
    ({ w with tracked := w.tracked ++ [id] }, .ok id)

/-- A worker's end does not depend on who is tracked. -/
theorem finishEach_track (tracked ids : List WorkerId) :
    ∀ w : Workers, { w with tracked := tracked }.finishEach ids = { w.finishEach ids with tracked := tracked } := by
  induction ids with
  | nil => exact fun _ => rfl
  | cons id rest ih =>
    intro w
    have hfirst : { w with tracked := tracked }.finish id = { w.finish id with tracked := tracked } := by
      unfold finish
      dsimp only
      split
      · rfl
      · rfl
    show ({ w with tracked := tracked }.finish id).finishEach rest = _
    rw [hfirst, ih]
    rfl

/-- To start a worker while workers end is to start it before. -/
theorem spawnAmid_eq (w : Workers) (refused : Option Fault) (amid : List WorkerId) :
    w.spawnAmid refused amid = ((w.spawn refused).1.finishEach amid, (w.spawn refused).2) := by
  cases refused with
  | some fault => rfl
  | none =>
    have htrack := finishEach_track (w.tracked ++ [w.nextId]) amid
      { w with nextId := w.nextId + 1, running := w.running ++ [w.nextId] }
    simp only [spawnAmid, spawn, finishEach_tracked]
    rw [← htrack]

/-! ## Workers that end while notices are read -/

/-- Reads one notice and joins its worker, if that is tracked. -/
def joinFirst (w : Workers) : Workers :=
  match w.notices with
  | [] => w
  | id :: rest => { w with tracked := w.tracked.erase id, notices := rest }

/-- Reads notices one by one until there is none, and joins their workers. Before each look for a notice, workers end. -/
def reapAmid (w : Workers) : List (List WorkerId) → Workers × List WorkerId
  | [] => w.reap
  | ended :: later =>
    let w := w.finishEach ended
    match w.notices with
    | [] => (w, [])
    | id :: _ =>
      let (left, joined) := reapAmid w.joinFirst later
      (left, if id ∈ w.tracked then id :: joined else joined)

theorem reap_of_notices {id : WorkerId} {rest : List WorkerId} (h : w.notices = id :: rest) :
    w.reap = (w.joinFirst.reap.1, if id ∈ w.tracked then id :: w.joinFirst.reap.2 else w.joinFirst.reap.2) := by
  obtain ⟨nextId, tracked, running, notices⟩ := w
  obtain rfl : notices = id :: rest := h
  unfold reap joinFirst
  dsimp only
  by_cases hid : id ∈ tracked
  · simp only [joinNoticed, if_pos hid]
  · simp only [joinNoticed, if_neg hid, List.erase_of_not_mem hid]

theorem joinFirst_finish (h : w.notices ≠ []) (id : WorkerId) : (w.finish id).joinFirst = w.joinFirst.finish id := by
  obtain ⟨nextId, tracked, running, notices⟩ := w
  cases notices with
  | nil => exact absurd rfl h
  | cons first rest =>
    by_cases hid : id ∈ running
    · simp [finish, joinFirst, hid]
    · simp [finish, joinFirst, hid]

theorem notices_finishEach (ids : List WorkerId) (w : Workers) : w.notices <+: (w.finishEach ids).notices := by
  refine finishEach_induction (P := fun w' => w.notices <+: w'.notices) ?_ ids (List.prefix_refl _)
  intro w' id h
  unfold finish
  split
  · exact h.trans (List.prefix_append _ _)
  · exact h

theorem joinFirst_finishEach (ids : List WorkerId) :
    ∀ {w : Workers}, w.notices ≠ [] → (w.finishEach ids).joinFirst = w.joinFirst.finishEach ids := by
  induction ids with
  | nil => exact fun _ => rfl
  | cons id rest ih =>
    intro w h
    have hnext : (w.finish id).notices ≠ [] := fun hnil => h (List.prefix_nil.1 (hnil ▸ notices_finishEach [id] w))
    show ((w.finish id).finishEach rest).joinFirst = (w.joinFirst.finish id).finishEach rest
    rw [ih hnext, joinFirst_finish h]

/-- To read notices while workers end is to read them once the workers have ended, those that end before the last look
for a notice. -/
theorem reapAmid_eq (amid : List (List WorkerId)) :
    ∀ w : Workers, ∃ looks, w.reapAmid amid = (w.finishEach (amid.take looks).flatten).reap := by
  induction amid with
  | nil => exact fun _ => ⟨0, rfl⟩
  | cons ended later ih =>
    intro w
    cases hnotices : (w.finishEach ended).notices with
    | nil =>
      refine ⟨1, ?_⟩
      simp only [reapAmid, hnotices, List.take_succ_cons, List.take_zero, List.flatten_singleton]
      rw [reap, hnotices, joinNoticed, ← hnotices]
    | cons id rest =>
      obtain ⟨looks, hlooks⟩ := ih (w.finishEach ended).joinFirst
      refine ⟨looks + 1, ?_⟩
      -- what ends after the first notice has been read may as well end before
      obtain ⟨more, hmore⟩ := notices_finishEach (later.take looks).flatten (w.finishEach ended)
      rw [hnotices, List.cons_append] at hmore
      have hne : (w.finishEach ended).notices ≠ [] := by rw [hnotices]; exact List.cons_ne_nil _ _
      rw [List.take_succ_cons, List.flatten_cons, finishEach_append, reap_of_notices hmore.symm,
        joinFirst_finishEach _ hne, ← hlooks, finishEach_tracked]
      simp only [reapAmid, hnotices]

/-! ## Waiting for all workers -/

/-- An order in which a table is gone through. -/
structure Order where
  arrange : List WorkerId → List WorkerId
  perm : ∀ ids, (arrange ids).Perm ids

/-- Waits for each worker in turn and joins it; others end while one is waited for. -/
def joinAllAmid (w : Workers) (order : Order) (amid : WorkerId → List WorkerId) : Workers × List WorkerId :=
  let ids := order.arrange w.tracked
  let w := w.finishEach (ids.flatMap fun id => amid id ++ [id])
  ({ w with tracked := [], notices := [] }, ids)

theorem running_of_finished (h : w.WF) {ids : List WorkerId} (hids : ∀ id ∈ w.running, id ∈ ids) :
    (w.finishEach ids).running = [] := by
  rw [finishEach_running]
  refine List.eq_nil_iff_forall_not_mem.2 fun id hmem => ?_
  obtain ⟨hrunning, hleft⟩ := h.nodup_running.mem_sdiff_iff.1 hmem
  exact hleft (hids id hrunning)

/-- To wait for each worker in turn, while others end, is to join them all once all these have ended; only the order in
which they are joined may be another. -/
theorem joinAllAmid_eq (h : w.WF) (order : Order) (amid : WorkerId → List WorkerId) :
    let ended := (order.arrange w.tracked).flatMap fun id => amid id ++ [id]
    (w.finishEach ended).joinAll? = some ((w.joinAllAmid order amid).1, w.tracked) ∧
      (w.joinAllAmid order amid).2.Perm w.tracked := by
  intro ended
  have hperm := order.perm w.tracked
  have hwaited : ∀ id ∈ w.running, id ∈ ended := by
    intro id hid
    refine List.mem_flatMap.2 ⟨id, hperm.mem_iff.2 (h.mem_tracked_of_running hid), ?_⟩
    exact List.mem_append_right _ (List.mem_singleton_self id)
  have hended := (finishEach_wf ended h).ended_iff.2 (running_of_finished h hwaited)
  refine ⟨?_, hperm⟩
  rw [joinAll?, if_pos hended, finishEach_tracked]
  rfl

end Workers

end LineRing
