/-
The ways to read a host. Main statement: on a host that has come about in any way, what is sent from an offset on, what
a handle there reads to the end, and what is read there slice by slice are one and the same rest of the snapshot; no
piece of it is empty or crosses from one command into the next; and none of these reads changes the log (`reads_agree`).
-/
import LineRing.Proofs.Host.Seek
import LineRing.Proofs.Log.Slices

namespace LineRing

namespace Handle

/-! ## A handle read to the end -/

/-- Reads with buffers of these sizes, one after the other, until one of them brings no bytes. -/
inductive Drains (store : Store) (lock : Lock) : Handle → (Nat → Nat) → List Bytes → Handle → Prop
  | done {h left : Handle} {sizes : Nat → Nat} (hend : h.read store lock (sizes 0) = (left, .ok [])) :
      Drains store lock h sizes [] left
  | more {h next left : Handle} {sizes : Nat → Nat} {slice : Bytes} {rest : List Bytes} (hne : slice ≠ [])
      (hread : h.read store lock (sizes 0) = (next, .ok slice))
      (hrest : Drains store lock next (fun i => sizes (i + 1)) rest left) :
      Drains store lock h sizes (slice :: rest) left

variable {store : Store} {lock : Lock}

/-- A handle that is read to the end moves over the slices that the log has from its position on. -/
theorem drains_of_readOut (hlock : store.acquire lock = .ok ()) {offset : Nat} {sizes : Nat → Nat}
    {slices : List Bytes} (hread : store.log.ReadOut offset sizes slices) :
    (∀ i, 0 < sizes i) → ∀ h : Handle, h.position = offset →
      h.Drains store lock sizes slices { h with position := offset + slices.flatten.length } := by
  induction hread with
  | done hend =>
    rintro - h rfl
    exact .done (read_of_slice?_eq_none hlock hend)
  | @more offset sizes slice rest hslice _ ih =>
    rintro hsizes h rfl
    have hpos := (Log.slice?_eq_some hslice).2.2 (hsizes 0)
    have hrest := ih (fun i => hsizes (i + 1)) { h with position := h.position + slice.length } rfl
    rw [List.flatten_cons, List.length_append, ← Nat.add_assoc]
    exact .more (List.length_pos_iff.1 hpos) (read_of_slice?_eq_some hlock hslice) hrest

theorem Drains.readOut (hlock : store.acquire lock = .ok ()) {h left : Handle} {sizes : Nat → Nat}
    {slices : List Bytes} (hdrains : h.Drains store lock sizes slices left) :
    (∀ i, 0 < sizes i) → store.log.ReadOut h.position sizes slices ∧
      left = { h with position := h.position + slices.flatten.length } := by
  induction hdrains with
  | @done h left sizes hend =>
    intro hsizes
    cases hs : store.log.slice? h.position (sizes 0) with
    | none =>
      rw [read_of_slice?_eq_none hlock hs] at hend
      cases hend
      exact ⟨.done hs, rfl⟩
    | some slice =>
      -- a buffer that is not empty gets a byte where there is one
      have hpos := (Log.slice?_eq_some hs).2.2 (hsizes 0)
      rw [read_of_slice?_eq_some hlock hs] at hend
      cases hend
      exact absurd hpos (Nat.lt_irrefl 0)
  | @more h next left sizes slice rest hne hread _ ih =>
    intro hsizes
    cases hs : store.log.slice? h.position (sizes 0) with
    | none =>
      rw [read_of_slice?_eq_none hlock hs] at hread
      cases hread
      exact absurd rfl hne
    | some slice' =>
      rw [read_of_slice?_eq_some hlock hs] at hread
      cases hread
      obtain ⟨hrest, rfl⟩ := ih fun i => hsizes (i + 1)
      refine ⟨.more hs hrest, ?_⟩
      rw [List.flatten_cons, List.length_append, ← Nat.add_assoc]

theorem readAll_eq (hlock : store.acquire lock = .ok ()) (h : Handle) :
    (h.readAll store lock).2 = .ok (store.log.bytes.drop h.position) := by
  obtain ⟨hspent, hroom⟩ := readWith_to_end hlock h (readAllBuffers_pos (store.log.size + 1))
  refine hspent.1 (hroom ?_)
  rw [List.length_replicate, List.length_drop, Log.length_bytes]
  omega

end Handle

namespace Host

/-! ## Moves that read -/

/-- Whether a client reads with this move, or asks, or looks for a place. -/
def Move.looks (m : Move) : Bool :=
  match m.action with
  | .snapshot | .count | .size | .flush _ | .read .. | .readAll _ | .seek .. | .seekTo .. => true
  | .settle id _ =>
    match m.before.sessions id with
    | some ⟨_, .decided (.seek _)⟩ => true
    | _ => false
  | _ => false

theorem Move.store_after_of_looks {m : Move} (h : m.looks = true) : m.after.store = m.before.store := by
  have hclears : m.action.clears = false := by
    obtain ⟨host, lock, action⟩ := m
    cases action with
    | clear => cases h
    | _ => rfl
  have hoffer : m.offer? = none := by
    obtain ⟨host, lock, action⟩ := m
    cases action with
    | commit | write | writeAll => cases h
    | settle id outlet =>
      unfold looks at h
      unfold offer?
      dsimp only at h ⊢
      rcases hs : host.sessions id with _ | ⟨settings, draft | e | d | result⟩ <;> simp_all
    | _ => rfl
  rw [m.store_after, hclears, m.commit?_of_offer?_eq_none hoffer]
  rfl

theorem run_store_of_looks (steps : List (Lock × Action)) :
    ∀ {host : Host}, (∀ m ∈ host.moves steps, m.looks = true) → (host.run steps).1.store = host.store := by
  induction steps with
  | nil => exact fun _ => rfl
  | cons x rest ih =>
    intro host h
    obtain ⟨hx, hrest⟩ := List.forall_mem_cons.1 h
    exact (ih hrest).trans (Move.store_after_of_looks hx)

/-! ## The main statement -/

/-- All ways to read agree. Take a host that actions of its clients lead to, and a client that gets the lock. The
snapshot is the retained commands one after the other. From any offset on, even past the end, the rest of the snapshot
is what is sent to a peer that takes everything, whatever the chunk is, and its length is what is reported; what slices
make up that are read one after the other; and what a handle reads to the end. Such readings do come to an end. Each
piece has a byte at least and no more than was asked for, and lies within one command. Moves that only read leave the
store as it was, so that the same reads bring the same bytes again. -/
theorem reads_agree {host : Host} (hhost : host.Reachable) {lock : Lock} (hlock : host.store.acquire lock = .ok ())
    (offset : Nat) :
    let store := host.store
    let log := store.log
    ∃ (all : Bytes) (entries : List Entry), store.snapshot lock = .ok all ∧ store.size lock = .ok all.length ∧
      store.count lock = .ok entries.length ∧ (∀ i, log.get? i = entries[i]?) ∧ entries.flatten = all ∧
      (∀ chunk, ∃ slices,
        log.stream offset chunk Outlet.accepting.sink [] =
          (Outlet.sent slices ++ [.flush (.ok ())], .ok (all.drop offset).length) ∧
        slices.flatten = all.drop offset ∧ log.Tiles offset (fun _ => max chunk 1) slices) ∧
      (∀ sizes, (∀ i, 0 < sizes i) →
        (∃ slices, log.ReadOut offset sizes slices) ∧
        ∀ slices, log.ReadOut offset sizes slices → slices.flatten = all.drop offset ∧ log.Tiles offset sizes slices) ∧
      (∀ h : Handle, h.position = offset →
        (h.readAll store lock).2 = .ok (all.drop offset) ∧
        ∀ sizes, (∀ i, 0 < sizes i) →
          (∃ slices left, h.Drains store lock sizes slices left) ∧
          ∀ slices left, h.Drains store lock sizes slices left →
            slices.flatten = all.drop offset ∧ log.Tiles offset sizes slices ∧
              left = { h with position := offset + (all.drop offset).length }) ∧
      ∀ steps, (∀ m ∈ host.moves steps, m.looks = true) → (host.run steps).1.store = store := by
  intro store log
  have hwf : log.WF := hhost.wf
  have hread : ∀ {sizes : Nat → Nat} {slices : List Bytes}, (∀ i, 0 < sizes i) → log.ReadOut offset sizes slices →
      slices.flatten = log.bytes.drop offset ∧ log.Tiles offset sizes slices :=
    fun hsizes h => ⟨h.flatten_eq, h.tiles hwf hsizes⟩
  refine ⟨log.bytes, log.toList, ?_, ?_, ?_, fun i => (hwf.getElem?_toList i).symm, rfl, ?_, ?_, ?_,
    fun steps => run_store_of_looks steps⟩
  · unfold Store.snapshot; rw [hlock]; rfl
  · unfold Store.size; rw [hlock, Log.length_bytes]; rfl
  · unfold Store.count; rw [hlock, hwf.length_toList]; rfl
  -- what is sent is a reading in slices of one size
  · intro chunk
    refine ⟨log.slicesFrom offset chunk, Outlet.stream_accepting log offset chunk [], ?_⟩
    exact hread (fun _ => by omega) (log.readOut_slicesFrom offset chunk)
  · intro sizes hsizes
    exact ⟨log.exists_readOut offset hsizes, fun slices h => hread hsizes h⟩
  -- and so is what a handle reads, with the sizes of its buffers
  · rintro h rfl
    refine ⟨Handle.readAll_eq hlock h, fun sizes hsizes => ⟨?_, ?_⟩⟩
    · obtain ⟨slices, h'⟩ := log.exists_readOut h.position hsizes
      exact ⟨slices, _, Handle.drains_of_readOut hlock h' hsizes h rfl⟩
    · intro slices left hdrains
      obtain ⟨hreadOut, hleft⟩ := hdrains.readOut hlock hsizes
      obtain ⟨hall, htiles⟩ := hread hsizes hreadOut
      exact ⟨hall, htiles, hall ▸ hleft⟩

/-- After an eviction, with an empty entry between two commands. -/
theorem reads_agree_after_eviction :
    let host := (run { store := { log := Ring.empty 3 } }
      [(.free, .commit [1]), (.free, .commit [2, 10]), (.free, .commit []), (.free, .commit [97, 98, 10])]).1
    host.Reachable ∧ host.store.acquire .free = .ok () ∧ host.store.snapshot .free = .ok [2, 10, 97, 98, 10] ∧
      host.store.log.Tiles 1 (fun i => i + 1) [[10], [97, 98], [10]] := by
  intro host
  have hhost : host.Reachable := ⟨3, _, _, rfl, rfl⟩
  have hlock : host.store.acquire .free = .ok () := rfl
  obtain ⟨all, entries, hall, -, -, -, -, -, hslices, -, -⟩ := reads_agree hhost hlock 1
  refine ⟨hhost, hlock, by decide, ?_⟩
  refine ((hslices (fun i => i + 1) fun i => Nat.succ_pos i).2 _ ?_).2
  exact .more (by decide) (.more (by decide) (.more (by decide) (.done (by decide))))

end Host

end LineRing
