/-
What one operation of a handle does. A write comes to one of four things, and only one of them touches the store;
everything else that a handle does leaves the store and the draft as they were.
-/
import LineRing.Handle

namespace LineRing

namespace Handle

/-! ## Writing -/

/-- The command that a write ends, if it ends one. -/
def ended? (h : Handle) (data : Bytes) : Option Entry :=
  match h.draft.append data with
  | .error _ => none
  | .ok draft => draft.take.1

/-- The handle with more bytes in its draft. -/
def extend (h : Handle) (data : Bytes) : Handle := { h with draft := { h.draft with bytes := h.draft.bytes ++ data } }

/-- A command that a write ends is what was written of it before and now, within the limit. -/
theorem ended?_eq_some {h : Handle} {data : Bytes} {e : Entry} (he : h.ended? data = some e) :
    e = h.draft.bytes ++ data ∧ e.getLast? = some newline ∧ ∀ limit ∈ h.draft.limit, e.length ≤ limit := by
  unfold ended? at he
  split at he
  · cases he
  · rename_i draft happ
    obtain ⟨hlimit, rfl⟩ := Draft.append_eq_ok_iff.1 happ
    obtain ⟨rfl, hlast, -⟩ := Draft.take_eq_some (Prod.ext he rfl)
    exact ⟨rfl, hlast, fun limit hl => by rw [List.length_append]; exact hlimit limit hl⟩

theorem ended?_eq_none {h : Handle} {data : Bytes} (he : h.ended? data = none) :
    (∃ failure, h.draft.append data = .error failure) ∨
      (∀ limit ∈ h.draft.limit, (h.draft.bytes ++ data).length ≤ limit) ∧
        (h.draft.bytes ++ data).getLast? ≠ some newline := by
  unfold ended? at he
  cases happ : h.draft.append data with
  | error failure => exact Or.inl ⟨failure, rfl⟩
  | ok draft =>
    rw [happ] at he
    obtain ⟨hlimit, rfl⟩ := Draft.append_eq_ok_iff.1 happ
    obtain ⟨-, hopen⟩ := Draft.take_eq_none (Prod.ext he rfl)
    exact Or.inr ⟨fun limit hl => by rw [List.length_append]; exact hlimit limit hl, beq_eq_false_iff_ne.1 hopen⟩

/-- A write is refused for its length, joins the draft, ends a command that cannot be committed, or commits it. A write
that is refused leaves everything as it was. -/
theorem write_cases (store : Store) (lock : Lock) (h : Handle) (data : Bytes) :
    (∃ failure, h.draft.append data = .error failure ∧ h.ended? data = none ∧
      h.write store lock data = (store, h, .error failure)) ∨
    (h.ended? data = none ∧ h.write store lock data = (store, h.extend data, .ok data.length)) ∨
    (∃ e failure, h.ended? data = some e ∧ store.acquire lock = .error failure ∧
      h.write store lock data = (store, h, .error failure)) ∨
    (∃ e, h.ended? data = some e ∧ store.acquire lock = .ok () ∧
      h.write store lock data = ((store.insert e).1, { h with draft := h.draft.clear }, .ok data.length)) := by
  unfold write ended?
  cases happ : h.draft.append data with
  | error failure => exact Or.inl ⟨failure, rfl, rfl, rfl⟩
  | ok draft =>
    refine Or.inr ?_
    have hcut := Draft.truncate_of_append happ
    obtain ⟨-, rfl⟩ := Draft.append_eq_ok_iff.1 happ
    simp only
    split
    · rename_i hc
      have htake := Draft.take_of_isComplete hc
      refine Or.inr ?_
      cases hlock : store.acquire lock with
      | error failure => exact Or.inl ⟨_, failure, by rw [htake], rfl, by simp only [hcut]⟩
      | ok u => exact Or.inr ⟨_, by rw [htake], rfl, by rw [htake]; rfl⟩
    · rename_i hc
      rw [Bool.not_eq_true] at hc
      exact Or.inl ⟨by rw [Draft.take_of_not_isComplete hc], rfl⟩

/-- A write to a draft that is not ended is refused, and leaves everything as it was; or it joins the draft; or its last
byte is a newline, and it commits. -/
theorem write_cases_of_open {h : Handle} (hopen : h.draft.bytes.getLast? ≠ some newline) (store : Store) (lock : Lock)
    (data : Bytes) :
    (∃ failure, (h.ended? data = none ∨ store.acquire lock = .error failure) ∧
      h.write store lock data = (store, h, .error failure)) ∨
    (data.getLast? ≠ some newline ∧ h.ended? data = none ∧
      (∀ limit ∈ h.draft.limit, (h.draft.bytes ++ data).length ≤ limit) ∧
      h.write store lock data = (store, h.extend data, .ok data.length)) ∨
    (data.getLast? = some newline ∧ h.ended? data = some (h.draft.bytes ++ data) ∧ store.acquire lock = .ok () ∧
      h.write store lock data =
        ((store.insert (h.draft.bytes ++ data)).1, { h with draft := h.draft.clear }, .ok data.length)) := by
  have hlast : (h.draft.bytes ++ data).getLast? = some newline ↔ data.getLast? = some newline := by
    rw [List.getLast?_append]
    cases data.getLast? with
    | none => simp [hopen]
    | some b => simp
  rcases h.write_cases store lock data with ⟨f, -, he, hw⟩ | ⟨he, hw⟩ | ⟨e, f, -, hl, hw⟩ | ⟨e, he, hl, hw⟩
  · exact Or.inl ⟨f, Or.inl he, hw⟩
  · rcases ended?_eq_none he with ⟨f, happ⟩ | ⟨hlimit, hne⟩
    · unfold write at hw
      rw [happ] at hw
      exact absurd (congrArg (·.2.2) hw) (by simp)
    · exact Or.inr (Or.inl ⟨fun hd => hne (hlast.2 hd), he, hlimit, hw⟩)
  · exact Or.inl ⟨f, Or.inr hl, hw⟩
  · obtain ⟨rfl, hend, -⟩ := ended?_eq_some he
    exact Or.inr (Or.inr ⟨hlast.1 hend, he, hl, hw⟩)

theorem write_fst (store : Store) (lock : Lock) (h : Handle) (data : Bytes) :
    (h.write store lock data).1 =
      match store.acquire lock, h.ended? data with
      | .ok (), some e => (store.insert e).1
      | _, _ => store := by
  rcases h.write_cases store lock data with ⟨f, -, he, hw⟩ | ⟨he, hw⟩ | ⟨e, f, he, hl, hw⟩ | ⟨e, he, hl, hw⟩
  · rw [hw, he]; cases store.acquire lock <;> rfl
  · rw [hw, he]; cases store.acquire lock <;> rfl
  · rw [hw, he, hl]
  · rw [hw, he, hl]

theorem writeAll_eq {data : Bytes} (hne : data ≠ []) (store : Store) (lock : Lock) (h : Handle) :
    h.writeAll store lock data =
      ((h.write store lock data).1, (h.write store lock data).2.1, (h.write store lock data).2.2.map fun _ => ()) := by
  cases data with
  | nil => exact absurd rfl hne
  | cons b rest => rfl

/-! ## What a write leaves alone -/

@[simp] theorem write_limit (store : Store) (lock : Lock) (h : Handle) (data : Bytes) :
    (h.write store lock data).2.1.draft.limit = h.draft.limit := by
  rcases h.write_cases store lock data with ⟨f, -, -, hw⟩ | ⟨-, hw⟩ | ⟨e, f, -, -, hw⟩ | ⟨e, -, -, hw⟩ <;>
    rw [hw] <;> rfl

@[simp] theorem writeAll_limit (store : Store) (lock : Lock) (h : Handle) (data : Bytes) :
    (h.writeAll store lock data).2.1.draft.limit = h.draft.limit := by
  by_cases hne : data = []
  · subst hne; rfl
  · rw [writeAll_eq hne]; exact write_limit store lock h data

@[simp] theorem write_position (store : Store) (lock : Lock) (h : Handle) (data : Bytes) :
    (h.write store lock data).2.1.position = h.position := by
  rcases h.write_cases store lock data with ⟨f, -, -, hw⟩ | ⟨-, hw⟩ | ⟨e, f, -, -, hw⟩ | ⟨e, -, -, hw⟩ <;>
    exact congrArg (fun written => written.2.1.position) hw

@[simp] theorem writeAll_position (store : Store) (lock : Lock) (h : Handle) (data : Bytes) :
    (h.writeAll store lock data).2.1.position = h.position := by
  by_cases hne : data = []
  · subst hne; rfl
  · rw [writeAll_eq hne]; exact write_position store lock h data

/-! ## Reading and positioning -/

@[simp] theorem read_draft (store : Store) (lock : Lock) (h : Handle) (most : Nat) :
    (h.read store lock most).1.draft = h.draft := by
  unfold read
  split
  · rfl
  · split <;> rfl

@[simp] theorem readWith_draft (store : Store) (lock : Lock) (sizes : List Nat) :
    ∀ h : Handle, (h.readWith store lock sizes).1.draft = h.draft := by
  induction sizes with
  | nil => exact fun _ => rfl
  | cons most rest ih =>
    intro h
    have hread := read_draft store lock h most
    unfold readWith
    split
    · rename_i heq; rw [heq] at hread; exact hread
    · rename_i heq; rw [heq] at hread; exact hread
    · rename_i heq; rw [heq] at hread; exact (ih _).trans hread

@[simp] theorem readAll_draft (store : Store) (lock : Lock) (h : Handle) :
    (h.readAll store lock).1.draft = h.draft := readWith_draft store lock _ h

@[simp] theorem seek_draft (store : Store) (lock : Lock) (h : Handle) (whence : Whence) :
    (h.seek store lock whence).1.draft = h.draft := by
  unfold seek
  split
  · rfl
  · dsimp only; split <;> rfl

@[simp] theorem seekTo_draft (store : Store) (lock : Lock) (h : Handle) (d : Directive) :
    (h.seekTo store lock d).1.draft = h.draft := by
  unfold seekTo
  split
  · rfl
  · split <;> rfl

end Handle

end LineRing
