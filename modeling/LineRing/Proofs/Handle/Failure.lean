/-
Operations of a handle that fail: for the length of a command, for the lock, or for a place that the log does not have.
Each of them leaves the store and the handle as they were, also where it had begun to change them (`write_of_error` and
the lemmas after it).
-/
import LineRing.Proofs.Handle.Operation
import LineRing.Proofs.Handle.Read

namespace LineRing

theorem Store.acquire_eq_error {store : Store} {lock : Lock} {failure : Failure}
    (h : store.acquire lock = .error failure) : ∃ waited, failure = .lockTimeout waited := by
  unfold acquire at h
  split at h
  · cases h
  · split at h
    · cases h
    · cases h
      exact ⟨_, rfl⟩

namespace Handle

/-! ## Operations that fail -/

/-- Why an operation of a handle may fail. -/
inductive Refusal : Failure → Prop
  | tooLarge (size limit : Nat) : Refusal (.tooLarge size limit)
  | lockTimeout (waited : Nat) : Refusal (.lockTimeout waited)
  | noSuchCommand (index retained : Nat) : Refusal (.noSuchCommand index retained)
  | noSuchByte (offset size : Nat) : Refusal (.noSuchByte offset size)
  | outside (target : Int) (size : Nat) : Refusal (.stream (seekFault target size))

theorem refusal_of_acquire {store : Store} {lock : Lock} {failure : Failure}
    (h : store.acquire lock = .error failure) : Refusal failure := by
  obtain ⟨waited, rfl⟩ := Store.acquire_eq_error h
  exact .lockTimeout waited

theorem refusal_of_offsetOf {log : Log} {a : Address} {failure : Failure} (h : log.offsetOf a = .error failure) :
    Refusal failure := by
  unfold Log.offsetOf at h
  split at h
  · cases h
    exact .noSuchCommand _ _
  · split at h
    · cases h
    · cases h
      exact .noSuchByte _ _

section

variable {store : Store} {lock : Lock} {h : Handle} {failure : Failure}

theorem write_of_error {data : Bytes} (hf : (h.write store lock data).2.2 = .error failure) :
    h.write store lock data = (store, h, .error failure) ∧ Refusal failure := by
  rcases h.write_cases store lock data with ⟨f, happ, -, hw⟩ | ⟨-, hw⟩ | ⟨e, f, -, hl, hw⟩ | ⟨e, -, -, hw⟩
  · rw [hw] at hf ⊢
    cases hf
    obtain ⟨limit, -, -, rfl⟩ := Draft.append_eq_error_iff.1 happ
    exact ⟨rfl, .tooLarge _ _⟩
  · rw [hw] at hf; cases hf
  · rw [hw] at hf ⊢
    cases hf
    exact ⟨rfl, refusal_of_acquire hl⟩
  · rw [hw] at hf; cases hf

/-- A write that ends a command commits it, if it has the lock. -/
theorem write_of_ended? {data : Bytes} {e : Entry} (he : h.ended? data = some e) (hl : store.acquire lock = .ok ()) :
    h.write store lock data = ((store.insert e).1, { h with draft := h.draft.clear }, .ok data.length) := by
  rcases h.write_cases store lock data with ⟨f, -, hno, -⟩ | ⟨hno, -⟩ | ⟨e', f, -, hheld, -⟩ | ⟨e', he', -, hw⟩
  · rw [he] at hno; cases hno
  · rw [he] at hno; cases hno
  · rw [hl] at hheld; cases hheld
  · rw [he] at he'
    cases he'
    exact hw

theorem writeAll_of_error {data : Bytes} (hf : (h.writeAll store lock data).2.2 = .error failure) :
    h.writeAll store lock data = (store, h, .error failure) ∧ Refusal failure := by
  by_cases hne : data = []
  · subst hne; cases hf
  · rw [writeAll_eq hne] at hf ⊢
    cases hw : (h.write store lock data).2.2 with
    | ok n => rw [hw] at hf; cases hf
    | error f =>
      rw [hw] at hf
      cases hf
      obtain ⟨heq, hrefusal⟩ := write_of_error hw
      rw [heq]
      exact ⟨rfl, hrefusal⟩

theorem read_of_error {most : Nat} (hf : (h.read store lock most).2 = .error failure) :
    h.read store lock most = (h, .error failure) ∧ Refusal failure := by
  unfold read at hf ⊢
  cases hl : store.acquire lock with
  | error f =>
    rw [hl] at hf
    cases hf
    exact ⟨rfl, refusal_of_acquire hl⟩
  | ok u =>
    simp only [hl] at hf
    split at hf
    · cases hf
    · cases hf

/-- Reading to the end fails with its first read only, before anything has been read. -/
theorem readAll_of_error (hf : (h.readAll store lock).2 = .error failure) :
    h.readAll store lock = (h, .error failure) ∧ Refusal failure := by
  cases hl : store.acquire lock with
  | error f =>
    have hall : h.readAll store lock = (h, .error f) := by
      unfold readAll
      rw [List.replicate_succ, readWith, read, hl]
    rw [hall] at hf ⊢
    cases hf
    exact ⟨rfl, refusal_of_acquire hl⟩
  | ok u =>
    obtain ⟨got, hgot, -⟩ := readWith_cases hl _ h (readAllBuffers_pos (store.log.size + 1))
    unfold readAll at hf
    rw [hgot] at hf
    cases hf

theorem seek_of_error {whence : Whence} (hf : (h.seek store lock whence).2 = .error failure) :
    h.seek store lock whence = (h, .error failure) ∧ Refusal failure := by
  unfold seek Store.size at hf ⊢
  cases hl : store.acquire lock with
  | error f =>
    rw [hl] at hf
    cases hf
    exact ⟨rfl, refusal_of_acquire hl⟩
  | ok u =>
    simp only [hl, bind, Except.bind, pure, Except.pure] at hf ⊢
    split at hf
    · cases hf
    · rename_i hout
      rw [if_neg hout]
      cases hf
      exact ⟨rfl, .outside _ _⟩

theorem seekTo_of_error {d : Directive} (hf : (h.seekTo store lock d).2 = .error failure) :
    h.seekTo store lock d = (h, .error failure) ∧ Refusal failure := by
  unfold seekTo at hf ⊢
  cases hl : store.acquire lock with
  | error f =>
    rw [hl] at hf
    cases hf
    exact ⟨rfl, refusal_of_acquire hl⟩
  | ok u =>
    simp only [hl] at hf ⊢
    cases ho : store.log.offsetOf d.address with
    | error f =>
      rw [ho] at hf
      cases hf
      exact ⟨rfl, refusal_of_offsetOf ho⟩
    | ok offset => rw [ho] at hf; cases hf

end

end Handle

end LineRing
