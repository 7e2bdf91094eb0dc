/-
What a handle reads while others commit. Main statement: in any run of a host, what a read brings is what has been
committed from a place on, which is the position of the handle past all that has been evicted. So a handle that is only
read is not brought the same place twice, between two reads it skips as much as was evicted, and as long as nothing is
evicted it is brought one stretch (`reads_skip_only_evicted`).

A position counts from the oldest entry retained, so an eviction changes what it stands for. A place (`place?`) does
not: it counts from the first entry committed since the last clearing. The proof rests on the equation that what was
evicted and what is retained are what was committed (`queued_dropped`), and on one fact about moves, that the position
goes up by what is brought (`position_after`).
-/
import LineRing.Proofs.Handle.Read
import LineRing.Proofs.Host.Order
import LineRing.Proofs.Log.Slices
import Mathlib.Data.List.Infix

namespace LineRing

namespace Handle

variable {store : Store} {lock : Lock}

/-! ## One read -/

/-- What becomes of a handle that is asked for bytes: it moves over those that it brings, or stays where it is. -/
def MovesOver (store : Store) (h : Handle) (outcome : Handle × Except Failure Bytes) : Prop :=
  (∃ failure, outcome = (h, .error failure)) ∨
  ∃ got, got <+: store.log.bytes.drop h.position ∧ outcome = ({ h with position := h.position + got.length }, .ok got)

theorem read_movesOver (store : Store) (lock : Lock) (h : Handle) (most : Nat) :
    h.MovesOver store (h.read store lock most) := by
  cases hlock : store.acquire lock with
  | error failure => exact Or.inl ⟨failure, by unfold read; rw [hlock]⟩
  | ok u =>
    cases hs : store.log.slice? h.position most with
    | none => exact Or.inr ⟨[], List.nil_prefix, read_of_slice?_eq_none hlock hs⟩
    | some slice => exact Or.inr ⟨slice, Log.prefix_of_slice? hs, read_of_slice?_eq_some hlock hs⟩

/-- A read by one that has the lock brings nothing just where the log has ended, and otherwise bytes of one command. -/
theorem read_spec (hwf : store.log.WF) (hlock : store.acquire lock = .ok ()) (h : Handle) {most : Nat}
    (hmost : 0 < most) :
    (store.log.size ≤ h.position ∧ h.read store lock most = (h, .ok [])) ∨
    (h.position < store.log.size ∧ ∃ slice, 1 ≤ slice.length ∧ slice.length ≤ most ∧
      slice <+: store.log.bytes.drop h.position ∧ store.log.Holds h.position slice ∧
      h.read store lock most = ({ h with position := h.position + slice.length }, .ok slice)) := by
  cases hs : store.log.slice? h.position most with
  | none => exact Or.inl ⟨Log.slice?_eq_none_iff.1 hs, read_of_slice?_eq_none hlock hs⟩
  | some slice =>
    have hlt : ¬ store.log.size ≤ h.position := fun hle => by
      rw [Log.slice?_eq_none_iff.2 hle] at hs
      cases hs
    obtain ⟨-, hle, hpos⟩ := Log.slice?_eq_some hs
    exact Or.inr ⟨Nat.lt_of_not_le hlt, slice, hpos hmost, hle, Log.prefix_of_slice? hs, Log.holds_of_slice? hwf hs,
      read_of_slice?_eq_some hlock hs⟩

theorem readAll_movesOver (store : Store) (lock : Lock) (h : Handle) :
    h.MovesOver store (h.readAll store lock) := by
  cases hlock : store.acquire lock with
  | error failure =>
    refine Or.inl ⟨failure, ?_⟩
    unfold readAll
    rw [List.replicate_succ, readWith, read, hlock]
  | ok u =>
    obtain ⟨got, hgot, hbegins, -⟩ := readWith_cases hlock _ h (readAllBuffers_pos (store.log.size + 1))
    exact Or.inr ⟨got, hbegins, hgot⟩

end Handle

namespace Host

/-! ## Places -/

/-- Whether an action puts a handle somewhere else than its reads do. -/
def Action.repositions (id : ClientId) : Action → Bool
  | openHandle other | closeHandle other | seek other _ | seekTo other _ => other == id
  | _ => false

/-- The bytes that a move brings to a handle. -/
def Move.brought (m : Move) (id : ClientId) : Bytes :=
  match m.answer with
  | .bytes b => if m.action.client = .handle id then b else []
  | _ => []

/-- Where a handle is to read next, counted in all that was committed since the last clearing. -/
def place? (id : ClientId) (past : List Move) (host : Host) : Option Nat :=
  (host.handles id).map fun h => totalLength (dropped past) + h.position

/-! ## One move -/

namespace Move

variable {m : Move} {id : ClientId}

/-- Nothing but a read brings bytes to a handle. -/
theorem action_of_brought (h : m.brought id ≠ []) : (∃ most, m.action = .read id most) ∨ m.action = .readAll id := by
  obtain ⟨b, hb, hc⟩ : ∃ b, m.answer = .bytes b ∧ m.action.client = .handle id := by
    unfold brought at h
    split at h
    · rename_i b hb
      split at h
      · exact ⟨b, hb, ‹_›⟩
      · exact absurd rfl h
    · exact absurd rfl h
  obtain ⟨host, lock, action⟩ := m
  cases action with
  | read other most => exact Or.inl ⟨most, by simpa [Action.client] using hc⟩
  | readAll other => exact Or.inr (by simpa [Action.client] using hc)
  | write | writeAll | flush | seek | seekTo =>
    exact absurd hb (withHandle_answer_ne _ _ _ _ rfl fun a ha => by cases ha)
  | openHandle | closeHandle => cases hb
  | _ => cases hc

theorem evicted?_of_brought (h : m.brought id ≠ []) : m.evicted? = none := by
  have hoffer : m.offer? = none := by
    unfold offer?
    rcases action_of_brought h with ⟨most, haction⟩ | haction
    · rw [haction]
    · rw [haction]
  unfold evicted?
  rw [m.commit?_of_offer?_eq_none hoffer]; rfl

theorem step_readHandle {h : Handle} (hh : m.before.handles id = some h) (look : Handle → Handle × Except Failure Bytes)
    (hstep : m.before.step m.lock m.action = m.before.readHandle id .bytes look) :
    m.answer = .of .bytes (look h).2 ∧ m.after.handles id = some (look h).1 := by
  rw [readHandle, withHandle_some _ _ _ _ hh] at hstep
  unfold answer after
  rw [hstep]
  exact ⟨rfl, if_pos rfl⟩

theorem position_after_read {h : Handle} (hh : m.before.handles id = some h) (hc : m.action.client = .handle id)
    (look : Handle → Handle × Except Failure Bytes)
    (hstep : m.before.step m.lock m.action = m.before.readHandle id .bytes look)
    (hmoves : h.MovesOver m.before.store (look h)) :
    m.brought id <+: m.before.store.log.bytes.drop h.position ∧
      ∃ h', m.after.handles id = some h' ∧ h'.position = h.position + (m.brought id).length := by
  obtain ⟨hans, hafter⟩ := step_readHandle hh look hstep
  unfold brought
  rw [hans, hafter]
  rcases hmoves with ⟨failure, heq⟩ | ⟨got, hgot, heq⟩
  · rw [heq]
    exact ⟨List.nil_prefix, h, rfl, rfl⟩
  · rw [heq]
    simp only [Answer.of, hc, if_true]
    exact ⟨hgot, _, rfl, rfl⟩

theorem position_of_not_read {h : Handle} (hh : m.before.handles id = some h)
    (hm : m.action.repositions id = false) (hread : ∀ most, m.action ≠ .read id most) (hall : m.action ≠ .readAll id) :
    ∃ h', m.after.handles id = some h' ∧ h'.position = h.position := by
  by_cases hc : m.action.client = .handle id
  · obtain ⟨host, lock, action⟩ := m
    replace hh : host.handles id = some h := hh
    cases action with
    | write other | writeAll other | flush other =>
      obtain rfl : other = id := by simpa [Action.client] using hc
      simp [after, step, readHandle, withHandle_handles_self, hh]
    | openHandle other | closeHandle other | seek other | seekTo other =>
      obtain rfl : other = id := by simpa [Action.client] using hc
      simp [Action.repositions] at hm
    | read other most =>
      obtain rfl : other = id := by simpa [Action.client] using hc
      exact absurd rfl (hread most)
    | readAll other =>
      obtain rfl : other = id := by simpa [Action.client] using hc
      exact absurd rfl hall
    | _ => cases hc
  · rw [m.handles_after_of_ne hc]
    exact ⟨h, hh, rfl⟩

/-- A handle that is not put elsewhere goes up by what is brought to it, and that is what the log has there. -/
theorem position_after {h : Handle} (hh : m.before.handles id = some h) (hm : m.action.repositions id = false) :
    m.brought id <+: m.before.store.log.bytes.drop h.position ∧
      ∃ h', m.after.handles id = some h' ∧ h'.position = h.position + (m.brought id).length := by
  by_cases hread : (∃ most, m.action = .read id most) ∨ m.action = .readAll id
  · rcases hread with ⟨most, haction⟩ | haction
    · refine position_after_read hh (by rw [haction]; rfl) (fun h => h.read m.before.store m.lock most) ?_ ?_
      · rw [haction]; rfl
      · exact h.read_movesOver m.before.store m.lock most
    · refine position_after_read hh (by rw [haction]; rfl) (fun h => h.readAll m.before.store m.lock) ?_ ?_
      · rw [haction]; rfl
      · exact h.readAll_movesOver m.before.store m.lock
  · have hnil : m.brought id = [] := by
      by_contra hne
      exact hread (action_of_brought hne)
    obtain ⟨hmost, hall⟩ := not_or.1 hread
    rw [hnil]
    exact ⟨List.nil_prefix, position_of_not_read hh hm (fun most haction => hmost ⟨most, haction⟩) hall⟩

end Move

/-! ## Runs -/

variable {id : ClientId}

/-- Over moves that do not put it elsewhere, the position of a handle goes up by all that is brought to it. -/
theorem position_run {host : Host} {hd : Handle} (hopen : host.handles id = some hd) {life : List (Lock × Action)}
    (hlife : ∀ x ∈ life, x.2.repositions id = false) :
    ∃ h, (host.run life).1.handles id = some h ∧
      h.position = hd.position + ((host.moves life).flatMap (·.brought id)).length := by
  have hstart : ∃ h, host.handles id = some h ∧
      h.position = hd.position + (([] : List Move).flatMap (·.brought id)).length := ⟨hd, hopen, rfl⟩
  refine run_induction_of (Q := fun action => action.repositions id = false)
    (P := fun past host => ∃ h, host.handles id = some h ∧
      h.position = hd.position + (past.flatMap (·.brought id)).length) ?_ life hlife hstart
  rintro past m hm ⟨h, hh, hposition⟩
  obtain ⟨-, h', hh', hposition'⟩ := m.position_after hh hm
  refine ⟨h', hh', ?_⟩
  rw [hposition', hposition, List.flatMap_append, List.flatMap_singleton, List.length_append, Nat.add_assoc]

/-- How far a handle has got that stood at this position after a past and then made these moves, among those of others:
past all that was evicted, and past all that was brought to it. -/
def reached (id : ClientId) (position : Nat) (past later : List Move) : Nat :=
  totalLength (dropped past) + position + totalLength (later.filterMap Move.evicted?) +
    (later.flatMap (·.brought id)).length

theorem reached_append (id : ClientId) (position : Nat) (past later more : List Move) :
    reached id position past (later ++ more) =
      reached id position past later + totalLength (more.filterMap Move.evicted?) +
        (more.flatMap (·.brought id)).length := by
  unfold reached
  rw [List.filterMap_append, List.flatMap_append, totalLength_append, List.length_append]
  omega

theorem keeps_of_life {life : List (Lock × Action)}
    (hlife : ∀ x ∈ life, x.2.clears = false ∧ x.2.repositions id = false) (host : Host) :
    ∀ m ∈ host.moves life, m.action.clears = false :=
  forall_action_moves (Q := fun action => action.clears = false) life fun x hx => (hlife x hx).1

theorem place?_run {host : Host} (past : List Move) {hd : Handle} (hopen : host.handles id = some hd)
    {life : List (Lock × Action)} (hlife : ∀ x ∈ life, x.2.clears = false ∧ x.2.repositions id = false) :
    place? id (past ++ host.moves life) (host.run life).1 =
      some (reached id hd.position past (host.moves life)) := by
  obtain ⟨h, hh, hposition⟩ := position_run hopen fun x hx => (hlife x hx).2
  unfold place? reached
  rw [hh, Option.map_some, dropped_append_of_keeps past (keeps_of_life hlife host), totalLength_append, hposition]
  congr 1
  omega

/-- What is retained is what was committed but for what was evicted. -/
theorem drop_bytes_eq {capacity : Nat} {past : List Move} {host : Host}
    (h : Ring.Queued capacity (committed past) (host.store.log, dropped past)) (position : Nat) :
    host.store.log.bytes.drop position =
      (committed past).flatten.drop (totalLength (dropped past) + position) := by
  rw [← h.append_eq, List.flatten_append, totalLength_eq, ← List.drop_drop, List.drop_left]
  rfl

theorem length_committed {capacity : Nat} {past : List Move} {host : Host}
    (h : Ring.Queued capacity (committed past) (host.store.log, dropped past)) :
    (committed past).flatten.length = totalLength (dropped past) + host.store.log.size := by
  rw [← h.append_eq, ← totalLength_eq, totalLength_append]; rfl

/-- Pieces that each lie where those before them end make up one stretch. -/
theorem flatMap_prefix {α : Type} {f : α → Bytes} {all : Bytes} {l : List α} :
    ∀ {start : Nat},
      (∀ before a after, l = before ++ a :: after → f a <+: all.drop (start + (before.flatMap f).length)) →
      l.flatMap f <+: all.drop start := by
  induction l with
  | nil => exact fun _ => List.nil_prefix
  | cons a rest ih =>
    intro start h
    obtain ⟨left, hleft⟩ := h [] a rest rfl
    rw [List.flatMap_nil, List.length_nil, Nat.add_zero] at hleft
    have hrest : rest.flatMap f <+: all.drop (start + (f a).length) := by
      refine ih fun before b after hsplit => ?_
      have hb := h (a :: before) b after (by rw [hsplit]; rfl)
      rwa [List.flatMap_cons, List.length_append, ← Nat.add_assoc] at hb
    rw [← List.drop_drop, ← hleft, List.drop_left] at hrest
    rw [List.flatMap_cons, ← hleft]
    exact (List.prefix_append_right_inj _).2 hrest

section Life

variable {capacity : Nat} {past : List Move} {host : Host} {life : List (Lock × Action)} {hd : Handle}
  (hqueued : Ring.Queued capacity (committed past) (host.store.log, dropped past))
  (hopen : host.handles id = some hd) (hlife : ∀ x ∈ life, x.2.clears = false ∧ x.2.repositions id = false)

include hqueued hopen hlife

/-- What is brought to a handle is what was committed from the place on that it has got to. -/
theorem brought_at_place {before after : List Move} {m : Move} (hm : host.moves life = before ++ m :: after) :
    place? id (past ++ before) m.before = some (reached id hd.position past before) ∧
      m.brought id <+: (committed (past ++ host.moves life)).flatten.drop (reached id hd.position past before) := by
  have hkeeps := keeps_of_life hlife host
  rw [hm] at hkeeps ⊢
  obtain ⟨a, b, rfl, rfl, hbefore, -⟩ := exists_of_moves_eq life hm
  obtain ⟨ha, hb⟩ := List.forall_mem_append.1 hlife
  have hplace := place?_run past hopen ha
  have hmoved := queued_moves hqueued a
  rw [← hbefore] at hplace hmoved
  refine ⟨hplace, ?_⟩
  -- at the move, what was evicted and what is retained are what was committed by then
  obtain ⟨h, hh, hstart⟩ := Option.map_eq_some_iff.1 hplace
  obtain ⟨hbrought, -⟩ := m.position_after hh (hb _ List.mem_cons_self).2
  rw [drop_bytes_eq hmoved, hstart] at hbrought
  rw [← List.append_assoc, committed_append_of_keeps _ (List.forall_mem_append.1 hkeeps).2, List.flatten_append]
  exact hbrought.trans ((List.prefix_append _ _).drop _)

theorem stretch_of_no_eviction (hnone : ∀ m ∈ host.moves life, m.evicted? = none) :
    (host.moves life).flatMap (·.brought id) <+:
      (committed (past ++ host.moves life)).flatten.drop (totalLength (dropped past) + hd.position) := by
  refine flatMap_prefix fun before m after hm => ?_
  obtain ⟨-, hbrought⟩ := brought_at_place hqueued hopen hlife hm
  have hbefore : before.filterMap Move.evicted? = [] := by
    refine List.filterMap_eq_nil_iff.2 fun x hx => hnone x ?_
    rw [hm]
    exact List.mem_append_left _ hx
  unfold reached at hbrought
  rw [hbefore] at hbrought
  exact hbrought

/-- A handle that is brought one stretch of what was committed ends where this does, at the latest. -/
theorem within_of_no_eviction (hnone : ∀ m ∈ host.moves life, m.evicted? = none)
    (hle : hd.position ≤ host.store.log.size) :
    ∃ left, (host.run life).1.handles id = some left ∧ left.position ≤ (host.run life).1.store.log.size := by
  have hkeeps := keeps_of_life hlife host
  obtain ⟨left, hleft, hposition⟩ := position_run hopen fun x hx => (hlife x hx).2
  have hbrought := (stretch_of_no_eviction hqueued hopen hlife hnone).length_le
  have hlen := length_committed hqueued
  have hlen' := length_committed (queued_moves hqueued life)
  rw [dropped_append_of_keeps _ hkeeps, List.filterMap_eq_nil_iff.2 hnone, List.append_nil] at hlen'
  have hgrows : (committed past).flatten.length ≤ (committed (past ++ host.moves life)).flatten.length := by
    rw [committed_append_of_keeps _ hkeeps, List.flatten_append, List.length_append]
    omega
  rw [List.length_drop] at hbrought
  exact ⟨left, hleft, by omega⟩

end Life

/-! ## The main statement -/

/-- A handle that is only read skips what is evicted, and nothing else. Take any run from a new store that leads to a
host with a handle open. A read with the lock brings nothing just where the position is at the end of the log or past
it; else it brings a byte at least, and no more than were asked for, of one command, and moves over them. They are
what was committed since the last clearing, from the place on that is the position past all that was evicted since
then. Now take any moves of any clients that neither clear nor put the handle elsewhere. What is brought to the handle
is always what was committed from its place on. No place is brought to it twice, and between two reads that bring
bytes it skips as much as is evicted. As long as nothing is evicted, all that is brought to it is one stretch of what
was committed, and it stays within the log if it was. -/
theorem reads_skip_only_evicted {capacity : Nat} {store : Store} (h : Ring.create capacity = .ok store.log)
    (earlier : List (Lock × Action)) {id : ClientId} {hd : Handle}
    (hopen : (run { store := store } earlier).1.handles id = some hd) :
    let host := (run { store := store } earlier).1
    let past := moves { store := store } earlier
    (∀ lock most, host.store.acquire lock = .ok () → 0 < most →
      let m : Move := ⟨host, lock, .read id most⟩
      (m.answer = .bytes [] ↔ host.store.log.size ≤ hd.position) ∧
      (host.store.log.size ≤ hd.position → m.after.handles id = some hd) ∧
      (hd.position < host.store.log.size → ∃ slice, m.answer = .bytes slice ∧ 1 ≤ slice.length ∧ slice.length ≤ most ∧
        slice <+: (committed past).flatten.drop (totalLength (dropped past) + hd.position) ∧
        host.store.log.Holds hd.position slice ∧
        m.after.handles id = some { hd with position := hd.position + slice.length })) ∧
    ∀ life, (∀ x ∈ life, x.2.clears = false ∧ x.2.repositions id = false) →
      let later := host.moves life
      let all := (committed (past ++ later)).flatten
      (∀ before m after, later = before ++ m :: after →
        ∃ start, place? id (past ++ before) m.before = some start ∧ m.brought id <+: all.drop start) ∧
      (∀ before m₁ between m₂ after, later = before ++ m₁ :: between ++ m₂ :: after →
        m₁.brought id ≠ [] → m₂.brought id ≠ [] →
        ∃ start₁ start₂, place? id (past ++ before) m₁.before = some start₁ ∧
          place? id (past ++ (before ++ m₁ :: between)) m₂.before = some start₂ ∧
          start₁ + (m₁.brought id).length ≤ start₂ ∧
          ((∀ m ∈ between, m.brought id = []) →
            start₂ = start₁ + (m₁.brought id).length + totalLength (between.filterMap Move.evicted?))) ∧
      ((∀ m ∈ later, m.evicted? = none) →
        later.flatMap (·.brought id) <+: all.drop (totalLength (dropped past) + hd.position) ∧
        (hd.position ≤ host.store.log.size →
          ∃ left, (host.run life).1.handles id = some left ∧
            left.position ≤ (host.run life).1.store.log.size)) := by
  intro host past
  have hqueued : Ring.Queued capacity (committed past) (host.store.log, dropped past) := queued_dropped h earlier
  refine ⟨fun lock most hlock hmost => ?_, fun life hlife => ?_⟩
  · intro m
    obtain ⟨hans, hafter⟩ := Move.step_readHandle (m := m) hopen (fun h => h.read host.store lock most) rfl
    rw [hans, hafter, ← drop_bytes_eq hqueued]
    rcases hd.read_spec hqueued.wf hlock hmost with ⟨hend, hread⟩ | ⟨hlt, slice, hpos, hle, hbytes, hholds, hread⟩
    · rw [hread]
      exact ⟨iff_of_true rfl hend, fun _ => rfl, fun hlt => absurd hlt (Nat.not_lt.2 hend)⟩
    · rw [hread]
      refine ⟨iff_of_false ?_ (Nat.not_le.2 hlt), fun hend => absurd hlt (Nat.not_lt.2 hend), fun _ => ?_⟩
      · intro hnil
        cases Answer.bytes.inj hnil
        exact absurd hpos (Nat.not_succ_le_zero 0)
      · exact ⟨slice, rfl, hpos, hle, hbytes, hholds, rfl⟩
  · intro later all
    refine ⟨fun before m after hm => ?_, fun before m₁ between m₂ after hsplit hne₁ hne₂ => ?_, fun hnone => ?_⟩
    · obtain ⟨hplace, hbrought⟩ := brought_at_place hqueued hopen hlife hm
      exact ⟨_, hplace, hbrought⟩
    · have hfirst : later = before ++ m₁ :: (between ++ m₂ :: after) := by rw [hsplit]; simp
      obtain ⟨hplace₁, -⟩ := brought_at_place hqueued hopen hlife hfirst
      obtain ⟨hplace₂, -⟩ := brought_at_place hqueued hopen hlife hsplit
      have hreached := reached_append id hd.position past before (m₁ :: between)
      rw [List.filterMap_cons_none (Move.evicted?_of_brought hne₁), List.flatMap_cons, List.length_append] at hreached
      refine ⟨_, _, hplace₁, hplace₂, by omega, fun hbetween => ?_⟩
      have hnil : between.flatMap (·.brought id) = [] := List.flatMap_eq_nil_iff.2 hbetween
      rw [hnil, List.length_nil] at hreached
      omega
    · exact ⟨stretch_of_no_eviction hqueued hopen hlife hnone, within_of_no_eviction hqueued hopen hlife hnone⟩

/-- A handle reads a byte, then a command of two bytes is evicted for one of another handle, and it reads on from the
same position: it has skipped two bytes. A wait for the lock fails before that. -/
theorem reads_skip_only_evicted_two_bytes :
    let store : Store := { log := Ring.empty 2, patience := some 1000 }
    let earlier : List (Lock × Action) :=
      [(.free, .openHandle 0), (.free, .commit [97, 10]), (.free, .commit [98, 99, 10])]
    let meanwhile : List (Lock × Action) :=
      [(.free, .openHandle 1), (.free, .write 1 [100, 10]), (.held, .read 0 5)]
    let life := (.free, .read 0 1) :: meanwhile ++ [(.free, .read 0 5)]
    let host := (run { store := store } earlier).1
    let past := moves { store := store } earlier
    let m₁ : Move := ⟨host, .free, .read 0 1⟩
    let between := m₁.after.moves meanwhile
    let m₂ : Move := ⟨(m₁.after.run meanwhile).1, .free, .read 0 5⟩
    Ring.create 2 = .ok store.log ∧ host.handles 0 = some { draft := {} } ∧
      (∀ x ∈ life, x.2.clears = false ∧ x.2.repositions 0 = false) ∧
      host.moves life = [] ++ m₁ :: between ++ m₂ :: [] ∧ m₁.brought 0 = [97] ∧ m₂.brought 0 = [99, 10] ∧
      place? 0 (past ++ []) m₁.before = some 0 ∧ place? 0 (past ++ ([] ++ m₁ :: between)) m₂.before = some 3 := by
  intro store earlier meanwhile life host past m₁ between m₂
  have hnew : Ring.create 2 = .ok store.log := rfl
  have hopen : host.handles 0 = some { draft := {} } := rfl
  have hlife : ∀ x ∈ life, x.2.clears = false ∧ x.2.repositions 0 = false := by decide
  have hsplit : host.moves life = [] ++ m₁ :: between ++ m₂ :: [] := rfl
  have hfirst : m₁.brought 0 = [97] := by decide
  have hsecond : m₂.brought 0 = [99, 10] := by decide
  obtain ⟨-, hreads⟩ := reads_skip_only_evicted hnew earlier hopen
  obtain ⟨-, hskips, -⟩ := hreads life hlife
  obtain ⟨start₁, start₂, hplace₁, hplace₂, -, hgap⟩ :=
    hskips [] m₁ between m₂ [] hsplit (by rw [hfirst]; simp) (by rw [hsecond]; simp)
  have hstart : start₁ = 0 := (Option.some.inj (hplace₁.symm.trans rfl : some start₁ = some 0))
  have hevicted : between.filterMap Move.evicted? = [[97, 10]] := by decide
  rw [hgap (by decide), hstart, hfirst, hevicted] at hplace₂
  rw [hstart] at hplace₁
  exact ⟨hnew, hopen, hlife, hsplit, hfirst, hsecond, hplace₁, hplace₂⟩

end Host

end LineRing
