/-
Reading through a handle to the end. Main statement: buffers of any sizes, none of them empty, are filled with what the
log has from the position of the handle on; once a read would bring nothing, they hold all of it, and that is so after
as many reads as there are bytes, at the latest.
-/
import LineRing.Handle
import LineRing.Log.Lemmas

namespace LineRing

namespace Handle

variable {store : Store} {lock : Lock}

/-- Whether the handle is at the end of the log, so that reading brings nothing. -/
def IsSpent (store : Store) (lock : Lock) (h : Handle) : Prop := ∀ most, (h.read store lock most).2 = .ok []

theorem read_of_slice?_eq_none (hlock : store.acquire lock = .ok ()) {h : Handle} {most : Nat}
    (hs : store.log.slice? h.position most = none) : h.read store lock most = (h, .ok []) := by
  unfold read; rw [hlock, hs]

theorem read_of_slice?_eq_some (hlock : store.acquire lock = .ok ()) {h : Handle} {most : Nat} {slice : Bytes}
    (hs : store.log.slice? h.position most = some slice) :
    h.read store lock most = ({ h with position := h.position + slice.length }, .ok slice) := by
  unfold read; rw [hlock, hs]

/-- A read finds the end of the log, or moves over the bytes that it brings. -/
theorem read_cases (hlock : store.acquire lock = .ok ()) (h : Handle) {most : Nat} (hmost : 0 < most) :
    (store.log.size ≤ h.position ∧ h.read store lock most = (h, .ok [])) ∨
    (∃ slice, slice ≠ [] ∧ slice <+: store.log.bytes.drop h.position ∧
      h.read store lock most = ({ h with position := h.position + slice.length }, .ok slice)) := by
  cases hs : store.log.slice? h.position most with
  | none => exact Or.inl ⟨Log.slice?_eq_none_iff.1 hs, read_of_slice?_eq_none hlock hs⟩
  | some slice =>
    have hpos := (Log.slice?_eq_some hs).2.2 hmost
    exact Or.inr ⟨slice, List.length_pos_iff.1 hpos, Log.prefix_of_slice? hs, read_of_slice?_eq_some hlock hs⟩

theorem isSpent_iff (hlock : store.acquire lock = .ok ()) (h : Handle) :
    h.IsSpent store lock ↔ store.log.size ≤ h.position := by
  constructor
  · intro hspent
    rcases h.read_cases hlock Nat.one_pos with ⟨hle, -⟩ | ⟨slice, hne, -, hread⟩
    · exact hle
    · have hnil := hspent 1
      rw [hread] at hnil
      cases hnil
      exact absurd rfl hne
  · intro hle most
    unfold read
    rw [hlock, Log.slice?_eq_none_iff.2 hle]

/-- What reads bring begins what the log has from the position on, and is all of it where there are more buffers than
bytes brought. -/
theorem readWith_cases (hlock : store.acquire lock = .ok ()) (sizes : List Nat) :
    ∀ h : Handle, (∀ n ∈ sizes, 0 < n) →
      ∃ got, h.readWith store lock sizes = ({ h with position := h.position + got.length }, .ok got) ∧
        got <+: store.log.bytes.drop h.position ∧
        (got = store.log.bytes.drop h.position ∨ sizes.length ≤ got.length) := by
  induction sizes with
  | nil => exact fun h _ => ⟨[], rfl, List.nil_prefix, Or.inr (Nat.le_refl 0)⟩
  | cons most rest ih =>
    intro h hsizes
    obtain ⟨hmost, hrest⟩ := List.forall_mem_cons.1 hsizes
    unfold readWith
    rcases h.read_cases hlock hmost with ⟨hle, hread⟩ | ⟨slice, hne, ⟨left, hleft⟩, hread⟩
    · have hend : store.log.bytes.drop h.position = [] :=
        List.drop_of_length_le (by rw [Log.length_bytes]; exact hle)
      rw [hread, hend]
      exact ⟨[], rfl, List.nil_prefix, Or.inl rfl⟩
    · obtain ⟨got, hgot, hbegins, hall⟩ := ih { h with position := h.position + slice.length } hrest
      have hdrop : store.log.bytes.drop (h.position + slice.length) = left := by
        rw [← List.drop_drop, ← hleft, List.drop_left]
      simp only [hdrop] at hbegins hall
      cases slice with
      | nil => exact absurd rfl hne
      | cons b tail =>
        rw [hread]
        simp only [hgot]
        refine ⟨b :: tail ++ got, ?_, ?_, ?_⟩
        · rw [List.length_append, Nat.add_assoc]; rfl
        · rw [← hleft]
          exact (List.prefix_append_right_inj _).2 hbegins
        · rw [← hleft]
          rcases hall with rfl | hlen
          · exact Or.inl rfl
          · refine Or.inr ?_
            simp only [List.length_cons, List.length_append]
            omega

theorem readAllBuffers_pos (count : Nat) : ∀ n ∈ List.replicate count readAllBuffer, 0 < n := by
  intro n hn
  obtain rfl := List.eq_of_mem_replicate hn
  exact Nat.succ_pos _

/-- Buffers hold all that the log has from the position on just if the handle has got to the end, and it gets there if
there are more buffers than bytes. -/
theorem readWith_to_end (hlock : store.acquire lock = .ok ()) (h : Handle) {sizes : List Nat}
    (hsizes : ∀ n ∈ sizes, 0 < n) :
    ((h.readWith store lock sizes).1.IsSpent store lock ↔
      (h.readWith store lock sizes).2 = .ok (store.log.bytes.drop h.position)) ∧
    ((store.log.bytes.drop h.position).length < sizes.length →
      (h.readWith store lock sizes).1.IsSpent store lock) := by
  obtain ⟨got, hgot, hbegins, hall⟩ := readWith_cases hlock sizes h hsizes
  have hle := hbegins.length_le
  have hlen : (store.log.bytes.drop h.position).length = store.log.size - h.position := by simp
  rw [hgot, isSpent_iff hlock]
  dsimp only
  refine ⟨⟨fun hspent => ?_, fun hresult => ?_⟩, fun hroom => ?_⟩
  · rw [hbegins.eq_of_length (by omega)]
  · cases hresult
    omega
  · rcases hall with rfl | hshort
    · omega
    · omega

end Handle

end LineRing
