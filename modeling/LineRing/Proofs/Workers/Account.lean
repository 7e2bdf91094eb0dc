/-
The account of the workers. A worker that is tracked either runs or has posted its one notice, and no name is in the
account twice (`Workers.WF`). So to join the workers whose notices have been posted leaves those tracked that run.
-/
import LineRing.Workers
import Mathlib.Data.List.Nodup

namespace LineRing

namespace Workers

variable {w : Workers}

structure WF (w : Workers) : Prop where
  perm : w.tracked.Perm (w.running ++ w.notices)
  nodup : w.tracked.Nodup
  lt_nextId : ∀ id ∈ w.tracked, id < w.nextId

namespace WF

theorem mem_tracked_iff (h : w.WF) {id : WorkerId} : id ∈ w.tracked ↔ id ∈ w.running ∨ id ∈ w.notices := by
  rw [h.perm.mem_iff, List.mem_append]

theorem mem_tracked_of_running (h : w.WF) {id : WorkerId} (hid : id ∈ w.running) : id ∈ w.tracked :=
  h.mem_tracked_iff.2 (Or.inl hid)

/-- The workers that run are tracked, so all tracked ones have come to their ends just where none runs. -/
theorem ended_iff (h : w.WF) : (∀ id ∈ w.tracked, id ∉ w.running) ↔ w.running = [] := by
  constructor
  · intro hended
    rw [List.eq_nil_iff_forall_not_mem]
    exact fun id hid => hended id (h.mem_tracked_of_running hid) hid
  · intro hidle id _
    rw [hidle]
    exact List.not_mem_nil

theorem active_eq (h : w.WF) : w.active = w.running.length + w.notices.length := by
  rw [active, h.perm.length_eq, List.length_append]

theorem nextId_notMem (h : w.WF) : w.nextId ∉ w.tracked :=
  fun hmem => absurd (h.lt_nextId _ hmem) (Nat.lt_irrefl _)

theorem nodup_running (h : w.WF) : w.running.Nodup := (h.perm.nodup_iff.1 h.nodup).of_append_left

end WF

theorem idle_wf (nextId : WorkerId) : ({ nextId := nextId } : Workers).WF :=
  ⟨List.Perm.refl _, List.nodup_nil, by simp⟩

theorem new_wf : ({} : Workers).WF := idle_wf 1

/-! ## Starting -/

theorem spawn_wf (h : w.WF) (refused : Option Fault) : (w.spawn refused).1.WF := by
  cases refused with
  | some fault =>
    constructor
    · exact h.perm
    · exact h.nodup
    · intro id hid
      exact Nat.lt_succ_of_lt (h.lt_nextId id hid)
  | none =>
    constructor
    · show (w.tracked ++ [w.nextId]).Perm (w.running ++ [w.nextId] ++ w.notices)
      calc (w.tracked ++ [w.nextId]).Perm (w.running ++ w.notices ++ [w.nextId]) := h.perm.append_right _
        _ = w.running ++ (w.notices ++ [w.nextId]) := List.append_assoc _ _ _
        List.Perm _ (w.running ++ ([w.nextId] ++ w.notices)) := List.perm_append_comm.append_left _
        _ = w.running ++ [w.nextId] ++ w.notices := (List.append_assoc _ _ _).symm
    · show (w.tracked ++ [w.nextId]).Nodup
      rw [← List.concat_eq_append]
      exact h.nodup.concat h.nextId_notMem
    · show ∀ id ∈ w.tracked ++ [w.nextId], id < w.nextId + 1
      intro id hid
      rcases List.mem_append.1 hid with hid | hid
      · exact Nat.lt_succ_of_lt (h.lt_nextId id hid)
      · rw [List.mem_singleton.1 hid]; exact Nat.lt_succ_self _

/-! ## Ending -/

@[simp] theorem finish_tracked (w : Workers) (id : WorkerId) : (w.finish id).tracked = w.tracked := by
  unfold finish; split <;> rfl

@[simp] theorem finish_nextId (w : Workers) (id : WorkerId) : (w.finish id).nextId = w.nextId := by
  unfold finish; split <;> rfl

@[simp] theorem finish_running (w : Workers) (id : WorkerId) : (w.finish id).running = w.running.erase id := by
  unfold finish
  split
  · rfl
  · rename_i hid; exact (List.erase_of_not_mem hid).symm

/-- The notice of a worker takes the place of the worker in the account. -/
theorem finish_wf (h : w.WF) (id : WorkerId) : (w.finish id).WF := by
  unfold finish
  split
  · rename_i hid
    refine ⟨?_, h.nodup, h.lt_nextId⟩
    show w.tracked.Perm (w.running.erase id ++ (w.notices ++ [id]))
    calc w.tracked.Perm (w.running ++ w.notices) := h.perm
      List.Perm _ (id :: w.running.erase id ++ w.notices) := (List.perm_cons_erase hid).append_right _
      List.Perm _ (w.running.erase id ++ w.notices ++ [id]) := (List.perm_append_singleton id _).symm
      _ = w.running.erase id ++ (w.notices ++ [id]) := List.append_assoc _ _ _
  · exact h

/-- The workers once these have come to their ends, one after the other. -/
def finishEach (w : Workers) (ids : List WorkerId) : Workers := ids.foldl finish w

theorem finishEach_append (w : Workers) (ids more : List WorkerId) :
    w.finishEach (ids ++ more) = (w.finishEach ids).finishEach more := List.foldl_append

theorem finishEach_induction {P : Workers → Prop} (hstep : ∀ (w : Workers) (id : WorkerId), P w → P (w.finish id))
    (ids : List WorkerId) : ∀ {w : Workers}, P w → P (w.finishEach ids) := by
  induction ids with
  | nil => exact id
  | cons id rest ih => exact fun {w} h => ih (hstep w id h)

@[simp] theorem finishEach_tracked (ids : List WorkerId) (w : Workers) : (w.finishEach ids).tracked = w.tracked :=
  finishEach_induction (P := fun w' => w'.tracked = w.tracked) (fun _ _ h => (finish_tracked _ _).trans h) ids rfl

@[simp] theorem finishEach_nextId (ids : List WorkerId) (w : Workers) : (w.finishEach ids).nextId = w.nextId :=
  finishEach_induction (P := fun w' => w'.nextId = w.nextId) (fun _ _ h => (finish_nextId _ _).trans h) ids rfl

@[simp] theorem finishEach_running (ids : List WorkerId) :
    ∀ w : Workers, (w.finishEach ids).running = w.running.diff ids := by
  induction ids with
  | nil => exact fun _ => (List.diff_nil _).symm
  | cons id rest ih =>
    intro w
    rw [List.diff_cons, ← finish_running]
    exact ih (w.finish id)

theorem finishEach_wf (ids : List WorkerId) (h : w.WF) : (w.finishEach ids).WF :=
  finishEach_induction (P := WF) (fun _ id h => finish_wf h id) ids h

/-! ## Joining -/

/-- Where each notice is of a tracked worker, each joins that worker, and no other is joined. -/
theorem joinNoticed_of_perm {running : List WorkerId} (notices : List WorkerId) :
    ∀ {tracked : List WorkerId}, tracked.Perm (running ++ notices) →
      (joinNoticed tracked notices).1 = notices ∧ (joinNoticed tracked notices).2.Perm running := by
  induction notices with
  | nil =>
    intro tracked h
    rw [List.append_nil] at h
    exact ⟨rfl, h⟩
  | cons id rest ih =>
    intro tracked h
    have hfront : tracked.Perm (id :: (running ++ rest)) := h.trans List.perm_middle
    have hid : id ∈ tracked := hfront.mem_iff.2 (List.mem_cons_self ..)
    have herase : (tracked.erase id).Perm (running ++ rest) := by
      have := hfront.erase id
      rwa [List.erase_cons_head] at this
    obtain ⟨hjoined, hleft⟩ := ih herase
    unfold joinNoticed
    rw [if_pos hid]
    exact ⟨congrArg (id :: ·) hjoined, hleft⟩

theorem reap_snd (h : w.WF) : w.reap.2 = w.notices := (joinNoticed_of_perm w.notices h.perm).1

theorem perm_reap_tracked (h : w.WF) : w.reap.1.tracked.Perm w.running := (joinNoticed_of_perm w.notices h.perm).2

theorem reap_wf (h : w.WF) : w.reap.1.WF := by
  have hperm := perm_reap_tracked h
  constructor
  · show w.reap.1.tracked.Perm (w.running ++ [])
    rw [List.append_nil]
    exact hperm
  · exact hperm.nodup_iff.2 h.nodup_running
  · intro id hid
    exact h.lt_nextId id (h.mem_tracked_of_running (hperm.mem_iff.1 hid))

/-- Who is tracked when notices are read, and who is joined then, were tracked before. -/
theorem perm_reap (h : w.WF) : (w.reap.1.tracked ++ w.reap.2).Perm w.tracked := by
  rw [reap_snd h]
  exact ((perm_reap_tracked h).append_right _).trans h.perm.symm

/-- Only workers that run are active once those that have ended are joined. -/
theorem active_reap (h : w.WF) : w.reap.1.active = w.running.length := (perm_reap_tracked h).length_eq

/-- All workers can be joined just where none runs; then none of them is left, and no notice. -/
theorem joinAll?_eq_some_iff (h : w.WF) {left : Workers} {joined : List WorkerId} :
    w.joinAll? = some (left, joined) ↔ w.running = [] ∧ left = { nextId := w.nextId } ∧ joined = w.tracked := by
  unfold joinAll?
  rw [Option.ite_none_right_eq_some, h.ended_iff]
  constructor
  · rintro ⟨hidle, heq⟩
    cases heq
    exact ⟨hidle, by rw [hidle], rfl⟩
  · rintro ⟨hidle, rfl, rfl⟩
    exact ⟨hidle, by rw [hidle]⟩

end Workers

end LineRing
