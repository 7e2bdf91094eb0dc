/-
A ring is a bounded queue. `Ring.run` works off a list of operations and collects the values that insertions evict, and
`Ring.inserted` lists what was put in; both begin anew at each clearing. Main statement: whatever was done to a new
ring, what came out of it, followed by what it holds, is what was put in, and every view of the ring is a view of the
last of these values, as many as there is room for.

The invariant is an equation of lists, `Ring.Queued`, besides `Ring.WF`: nothing has been evicted from a ring that is
not full, and so the flag tells whether more was put in than there is room for.
-/
import LineRing.Log.Lemmas
import LineRing.Ring.Lemmas
import Mathlib.Algebra.GroupWithZero.Nat
import Mathlib.Data.List.DropRight

namespace LineRing

namespace Ring

variable {α : Type}

/-! ## Operations -/

/-- What is done to a ring. -/
inductive Op (α : Type) where
  | insert (a : α)
  | clear
  deriving DecidableEq, Repr

/-- The values put in since the last clearing, once one more operation is done. -/
def Op.extend (values : List α) : Op α → List α
  | .insert a => values ++ [a]
  | .clear => []

/-- The values put in since the last clearing, first one first. -/
def inserted (ops : List (Op α)) : List α := ops.foldl Op.extend []

/-- A ring and the values evicted from it since the last clearing, once one more operation is done. -/
def Op.apply (s : Ring α × List α) : Op α → Ring α × List α
  | .insert a => ((s.1.insert a).1, s.2 ++ (s.1.insert a).2.toList)
  | .clear => (s.1.clear, [])

/-- A ring after operations, and the values evicted from it since the last clearing, first one first. -/
def run (r : Ring α) (ops : List (Op α)) : Ring α × List α := ops.foldl Op.apply (r, [])

/-! ## The invariant -/

/-- The invariant of a ring with what was evicted from it, once `values` were put in. -/
structure Queued (capacity : Nat) (values : List α) (s : Ring α × List α) : Prop where
  wf : s.1.WF
  capacity_eq : s.1.capacity = capacity
  append_eq : s.2 ++ s.1.toList = values
  full_of_ne_nil : s.2 ≠ [] → s.1.full = true

theorem head?_toList_append_tail : ∀ l : List α, l.head?.toList ++ l.tail = l
  | [] => rfl
  | _ :: _ => rfl

theorem Queued.apply {capacity : Nat} {values : List α} {s : Ring α × List α} (h : Queued capacity values s)
    (op : Op α) : Queued capacity (op.extend values) (op.apply s) := by
  obtain ⟨hwf, hcap, happ, hfull⟩ := h
  cases op with
  | clear => exact ⟨clear_wf hwf, by rw [← hcap]; exact capacity_clear _, toList_clear _, fun hne => absurd rfl hne⟩
  | insert a =>
    have hflag : s.1.full = true → (s.1.insert a).1.full = true := by
      intro hf; simp [insert, hf]
    refine ⟨insert_wf hwf a, by rw [← hcap]; exact capacity_insert _ _, ?_, fun hne => ?_⟩
    · -- what is evicted was the first value held
      show s.2 ++ (s.1.insert a).2.toList ++ (s.1.insert a).1.toList = values ++ [a]
      rw [insert_snd hwf, toList_insert hwf, ← happ]
      cases hf : s.1.full with
      | true =>
        rw [if_pos rfl, if_pos rfl, List.append_assoc, ← List.append_assoc s.1.toList.head?.toList,
          head?_toList_append_tail, List.append_assoc]
      | false => simp
    · cases hf : s.1.full with
      | true => exact hflag hf
      | false =>
        refine absurd (hfull fun hnil => hne ?_) (by rw [hf]; simp)
        show s.2 ++ (s.1.insert a).2.toList = []
        rw [insert_snd hwf, hf, hnil]; rfl

theorem Queued.foldl {capacity : Nat} (ops : List (Op α)) :
    ∀ {values : List α} {s : Ring α × List α}, Queued capacity values s →
      Queued capacity (ops.foldl Op.extend values) (ops.foldl Op.apply s) := by
  induction ops with
  | nil => exact id
  | cons op rest ih => exact fun h => ih (h.apply op)

/-- Any operations on a new ring keep the invariant. -/
theorem queued_run {capacity : Nat} {r : Ring α} (h : create capacity = .ok r) (ops : List (Op α)) :
    Queued capacity (inserted ops) (r.run ops) := by
  obtain ⟨hwf, rfl⟩ := create_wf h
  exact Queued.foldl ops ⟨hwf, capacity_empty _, toList_empty _, fun hne => absurd rfl hne⟩

namespace Queued

variable {capacity : Nat} {values : List α} {s : Ring α × List α}

/-! ## What the invariant says of the ring -/

theorem length_eq (h : Queued capacity values s) : values.length = s.2.length + s.1.count := by
  rw [← h.append_eq, List.length_append, h.wf.length_toList]

theorem full_iff (h : Queued capacity values s) : s.1.full = true ↔ capacity ≤ values.length := by
  have hlen := h.length_eq
  have hcount := h.wf.count_eq
  have hlt := h.wf.next_lt
  have hcap := h.capacity_eq
  cases hf : s.1.full with
  | true =>
    rw [hf, if_pos rfl] at hcount
    exact iff_of_true rfl (by omega)
  | false =>
    have hnil : s.2 = [] := by
      by_contra hne
      have := h.full_of_ne_nil hne
      rw [hf] at this; cases this
    rw [hf, if_neg (by simp)] at hcount
    rw [hnil, List.length_nil] at hlen
    exact ⟨fun hn => absurd hn (by simp), fun hle => by omega⟩

theorem count_eq (h : Queued capacity values s) : s.1.count = min values.length capacity := by
  have hlen := h.length_eq
  have hle := h.wf.count_le
  have hcap := h.capacity_eq
  rcases Nat.lt_or_ge values.length capacity with hlt | hge
  · have hnil : s.2 = [] := by
      by_contra hne
      have := h.full_iff.1 (h.full_of_ne_nil hne)
      omega
    rw [hnil, List.length_nil] at hlen
    omega
  · have hcount := h.wf.count_eq
    rw [h.full_iff.2 hge, if_pos rfl] at hcount
    omega

/-- The values held are the last ones put in. -/
theorem toList_eq (h : Queued capacity values s) : s.1.toList = values.rtake capacity := by
  have hlen := h.length_eq
  have hcount := h.count_eq
  have hskip : values.length - capacity = s.2.length := by omega
  rw [List.rtake, hskip, ← h.append_eq, List.drop_left]

theorem get?_eq (h : Queued capacity values s) (i : Nat) : s.1.get? i = (values.rtake capacity)[i]? := by
  rw [← h.toList_eq, h.wf.getElem?_toList]

theorem insert_snd_eq (h : Queued capacity values s) (a : α) :
    (s.1.insert a).2 = if capacity ≤ values.length then s.1.get? 0 else none := by
  rw [insert_snd h.wf, List.head?_eq_getElem?, h.wf.getElem?_toList]
  simp only [h.full_iff]

end Queued

/-! ## The main statement -/

/-- A log is a bounded queue of entries. Whatever is done to a new log with room for `capacity` entries, the entries
that were evicted since the last clearing, followed by those that are held, are the entries put in since then. An
insertion evicts an entry iff there is no room left, and then the oldest one. What the log holds, counts and finds is
the last of the entries put in, as many as there is room for. -/
theorem create_run_queue {capacity : Nat} {log : Log} (h : create capacity = .ok log) (ops : List (Op Entry)) :
    let held := (log.run ops).1
    let evicted := (log.run ops).2
    let entries := inserted ops
    evicted ++ held.toList = entries ∧
    (∀ e, ((held.insert e).2.isSome ↔ capacity ≤ entries.length) ∧
      (capacity ≤ entries.length → (held.insert e).2 = held.get? 0)) ∧
    held.count = min entries.length capacity ∧
    (held.full = true ↔ capacity ≤ entries.length) ∧
    (held.isEmpty = true ↔ entries = []) ∧
    (∀ i, held.get? i = (entries.rtake capacity)[i]?) ∧
    (∀ i, held.count ≤ i → held.get? i = none) ∧
    Log.size held = ((entries.rtake capacity).map List.length).sum := by
  intro held evicted entries
  have hq : Queued capacity entries (held, evicted) := queued_run h ops
  refine ⟨hq.append_eq, fun e => ?_, hq.count_eq, hq.full_iff, ?_, hq.get?_eq, fun i hi => ?_, ?_⟩
  · constructor
    · rw [isSome_insert_snd hq.wf]; exact hq.full_iff
    · intro hle
      rw [hq.insert_snd_eq e, if_pos hle]
  · have hcount := hq.count_eq
    have hpos := hq.wf.capacity_pos
    have hcap := hq.capacity_eq
    rw [isEmpty, beq_iff_eq, ← List.length_eq_zero_iff]
    simp only at hcount hpos hcap
    omega
  · rw [get?, if_neg (by omega)]
  · rw [← hq.toList_eq]; rfl

/-- A log with room for two entries that is cleared after one, and then evicts two of four. -/
theorem create_run_queue_cleared :
    let held := ((empty 2 : Log).run [.insert [97, 10], .clear, .insert [98, 10], .insert [], .insert [99, 10],
      .insert [10]]).1
    let evicted := ((empty 2 : Log).run [.insert [97, 10], .clear, .insert [98, 10], .insert [], .insert [99, 10],
      .insert [10]]).2
    (create 2 : Except Unmade Log) = .ok (empty 2) ∧
      evicted ++ held.toList = [[98, 10], [], [99, 10], [10]] ∧ held.count = 2 ∧ Log.size held = 3 := by
  intro held evicted
  have hnew : (create 2 : Except Unmade Log) = .ok (empty 2) := rfl
  obtain ⟨happ, -, hcount, -, -, -, -, hsize⟩ := create_run_queue hnew
    [.insert [97, 10], .clear, .insert [98, 10], .insert [], .insert [99, 10], .insert [10]]
  exact ⟨hnew, happ, hcount, hsize⟩

end Ring

end LineRing
