/-
A session as a reading followed by a settling. `listen` is the reading alone: it goes through events that do not decide
anything, up to the first arrival that does or to the end of the script. Main statements: a session against a script is
`listen`, then `settle` on the store with the commits that others made meanwhile (`converse_eq_settle`), and where
`listen` stops (`listen_append`, `listen_cases`).
-/
import LineRing.Proofs.Session.Settle
import Mathlib.Algebra.GroupWithZero.Nat
import Mathlib.Data.List.Basic

namespace LineRing

/-- A store after commits of several entries. -/
def Store.commitAll (store : Store) (lock : Lock) (entries : List Entry) : Store :=
  entries.foldl (fun store e => (store.commit lock e).1) store

@[simp] theorem Store.commitAll_nil (store : Store) (lock : Lock) : store.commitAll lock [] = store := rfl

theorem Store.commitAll_cons (store : Store) (lock : Lock) (e : Entry) (rest : List Entry) :
    store.commitAll lock (e :: rest) = (store.commit lock e).1.commitAll lock rest := rfl

theorem Store.patience_commit (store : Store) (lock : Lock) (e : Entry) :
    (store.commit lock e).1.patience = store.patience := by
  unfold Store.commit
  split <;> rfl

theorem Store.acquire_commitAll (lock others : Lock) (entries : List Entry) :
    ∀ store : Store, (store.commitAll others entries).acquire lock = store.acquire lock := by
  induction entries with
  | nil => exact fun _ => rfl
  | cons e rest ih =>
    intro store
    rw [commitAll_cons, ih]
    unfold acquire
    rw [patience_commit]

namespace Session

/-! ## Scripts -/

/-- The bytes that the reads of a script bring, in order. -/
def brought (script : List Event) : Bytes :=
  (script.map fun
    | .arrival (.bytes piece) => piece
    | _ => []).flatten

/-- The entries that others commit during a script, in order. -/
def foreign (script : List Event) : List Entry :=
  script.filterMap fun
    | .commit e => some e
    | _ => none

/-- Whether an event decides nothing: a commit of another client, a read that was interrupted, or one that brings bytes
and ends no command. -/
def Event.isPassing : Event → Bool
  | .commit _ => true
  | .arrival (.bytes piece) => !piece.isEmpty && piece.getLast? != some newline
  | .arrival (.fault fault) => fault.kind == .interrupted

@[simp] theorem brought_nil : brought [] = [] := rfl

theorem brought_cons (ev : Event) (rest : List Event) : brought (ev :: rest) = brought [ev] ++ brought rest := by
  simp [brought]

@[simp] theorem brought_commit (e : Entry) : brought [.commit e] = [] := rfl

@[simp] theorem brought_bytes (piece : Bytes) : brought [.arrival (.bytes piece)] = piece := by simp [brought]

@[simp] theorem brought_fault (fault : Fault) : brought [.arrival (.fault fault)] = [] := rfl

@[simp] theorem foreign_nil : foreign [] = [] := rfl

@[simp] theorem foreign_commit (e : Entry) (rest : List Event) : foreign (.commit e :: rest) = e :: foreign rest := rfl

@[simp] theorem foreign_arrival (a : Arrival) (rest : List Event) : foreign (.arrival a :: rest) = foreign rest := rfl

/-! ## Listening -/

/-- Reads of a session from a draft on, up to the one that decides: the events that are over then, and what was
decided. -/
def listen (draft : Draft) : List Event → List Event × Decision
  | [] => ([], .atEnd draft)
  | .commit e :: rest => (.commit e :: (listen draft rest).1, (listen draft rest).2)
  | .arrival a :: rest =>
    match receive draft a with
    | .receiving draft => (.arrival a :: (listen draft rest).1, (listen draft rest).2)
    | .decided decision => ([.arrival a], decision)

theorem listen_commit (draft : Draft) (e : Entry) (rest : List Event) :
    listen draft (.commit e :: rest) = (.commit e :: (listen draft rest).1, (listen draft rest).2) := rfl

theorem listen_of_receiving {draft next : Draft} {a : Arrival} (h : receive draft a = .receiving next)
    (rest : List Event) :
    listen draft (.arrival a :: rest) = (.arrival a :: (listen next rest).1, (listen next rest).2) := by
  rw [listen, h]

theorem listen_of_decided {draft : Draft} {a : Arrival} {decision : Decision}
    (h : receive draft a = .decided decision) (rest : List Event) :
    listen draft (.arrival a :: rest) = ([.arrival a], decision) := by
  rw [listen, h]

/-- A session is what its reads decide, done under the lock on the store that others have left. -/
theorem converse_eq_settle {σ : Type} (sink : Sink σ) (chunk : Nat) (lock others : Lock) (s : σ)
    (script : List Event) : ∀ (store : Store) (draft : Draft),
    let report := converse sink chunk lock others store s draft script
    let used := (listen draft script).1
    (report.store, report.sink, report.result) =
        settle sink chunk lock (store.commitAll others (foreign used)) s (listen draft script).2 ∧
      script = used ++ report.rest := by
  induction script with
  | nil =>
    intro store draft
    simp only [converse, listen, foreign_nil, Store.commitAll_nil, List.append_nil, and_self]
  | cons ev rest ih =>
    intro store draft
    cases ev with
    | commit e =>
      obtain ⟨h1, h2⟩ := ih (store.commit others e).1 draft
      simp only [converse, listen, foreign_commit, Store.commitAll_cons]
      exact ⟨h1, List.cons_eq_cons.2 ⟨rfl, h2⟩⟩
    | arrival a =>
      cases h : receive draft a with
      | receiving next =>
        obtain ⟨h1, h2⟩ := ih store next
        simp only [converse, h, listen_of_receiving h, foreign_arrival]
        exact ⟨h1, List.cons_eq_cons.2 ⟨rfl, h2⟩⟩
      | decided decision =>
        simp only [converse, h, listen_of_decided h, foreign_arrival, foreign_nil, Store.commitAll_nil,
          List.cons_append, List.nil_append, and_self]

/-! ## Where listening stops -/

section Stops

variable {limit : Nat}

/-- What one read comes to. It adds bytes that end no command, within the limit; it fails, as a fault of the stream or
for its length; it ends the bytes of the peer; or it ends a command. -/
theorem receive_cases {got : Bytes} (hgot : got.length ≤ limit) (a : Arrival) :
    ((Event.arrival a).isPassing = true ∧ (got ++ brought [.arrival a]).length ≤ limit ∧
      receive ⟨got, some limit⟩ a = .receiving ⟨got ++ brought [.arrival a], some limit⟩) ∨
    (∃ failure, ((∃ fault, a = .fault fault ∧ fault.kind ≠ .interrupted) ∨
        limit < (got ++ brought [.arrival a]).length) ∧
      receive ⟨got, some limit⟩ a = .decided (.close (.error failure))) ∨
    (a = .bytes [] ∧ receive ⟨got, some limit⟩ a = .decided (.atEnd ⟨got, some limit⟩)) ∨
    (∃ piece, a = .bytes piece ∧ piece.getLast? = some newline ∧ (got ++ piece).length ≤ limit ∧
      receive ⟨got, some limit⟩ a = .decided (.ofCommand (got ++ piece))) := by
  cases a with
  | fault fault =>
    rw [brought_fault, List.append_nil]
    by_cases hkind : fault.kind = .interrupted
    · exact Or.inl ⟨beq_iff_eq.2 hkind, hgot, if_pos hkind⟩
    · exact Or.inr (Or.inl ⟨.stream fault, Or.inl ⟨fault, rfl, hkind⟩, if_neg hkind⟩)
  | bytes piece =>
    rw [brought_bytes]
    cases piece with
    | nil => exact Or.inr (Or.inr (Or.inl ⟨rfl, rfl⟩))
    | cons b rest =>
      have hlast : (got ++ b :: rest).getLast? = (b :: rest).getLast? :=
        List.getLast?_append_of_ne_nil _ (List.cons_ne_nil b rest)
      -- whatever bytes a read brings, `accept` decides about them
      show _ ∨ (∃ failure, _ ∧ accept ⟨got, some limit⟩ (b :: rest) = _) ∨ _
      rcases accept_cases ⟨got, some limit⟩ (b :: rest) with ⟨failure, hfull, hacc⟩ | ⟨hle, hacc⟩
      · refine Or.inr (Or.inl ⟨failure, Or.inr (Nat.lt_of_not_le fun hle => ?_), hacc⟩)
        rw [List.length_append] at hle
        rw [Draft.append_eq_ok_iff.2 ⟨fun l hl => by cases hl; exact hle, rfl⟩] at hfull
        cases hfull
      · have hle := hle limit rfl
        rw [← List.length_append] at hle
        rw [hlast] at hacc
        rcases hacc with ⟨hne, hacc⟩ | ⟨heq, hacc⟩
        · exact Or.inl ⟨by simpa [Event.isPassing] using hne, hle, hacc⟩
        · exact Or.inr (Or.inr (Or.inr ⟨_, rfl, heq, hle, hacc⟩))

theorem receive_of_isPassing {got : Bytes} {a : Arrival} (h : (Event.arrival a).isPassing = true)
    (hle : (got ++ brought [.arrival a]).length ≤ limit) :
    receive ⟨got, some limit⟩ a = .receiving ⟨got ++ brought [.arrival a], some limit⟩ := by
  have hgot : got.length ≤ limit := by
    rw [List.length_append] at hle; omega
  rcases receive_cases hgot a with ⟨-, -, hrec⟩ | ⟨-, ⟨fault, rfl, hkind⟩ | hlt, -⟩ | ⟨rfl, -⟩ | ⟨piece, rfl, hlast, -⟩
  · exact hrec
  · exact absurd (beq_iff_eq.1 h) hkind
  · omega
  · cases h
  · simp [Event.isPassing, hlast] at h

theorem listen_append (rest before : List Event) :
    ∀ {got : Bytes}, (∀ ev ∈ before, ev.isPassing = true) → (got ++ brought before).length ≤ limit →
      listen ⟨got, some limit⟩ (before ++ rest) =
        (before ++ (listen ⟨got ++ brought before, some limit⟩ rest).1,
          (listen ⟨got ++ brought before, some limit⟩ rest).2) := by
  induction before with
  | nil =>
    intro got _ _
    rw [brought_nil, List.append_nil]; rfl
  | cons ev before ih =>
    intro got hpass hle
    obtain ⟨hev, hrest⟩ := List.forall_mem_cons.1 hpass
    rw [brought_cons, ← List.append_assoc] at hle ⊢
    cases ev with
    | commit e =>
      rw [brought_commit, List.append_nil] at hle ⊢
      rw [List.cons_append, listen_commit, ih hrest hle]; rfl
    | arrival a =>
      have hone : (got ++ brought [.arrival a]).length ≤ limit := by
        rw [List.length_append] at hle; omega
      rw [List.cons_append, listen_of_receiving (receive_of_isPassing hev hone), ih hrest hle]; rfl

/-- In every script, events that decide nothing, within the limit, come before its end or an arrival that decides. -/
theorem exists_stop (script : List Event) :
    ∀ {got : Bytes}, got.length ≤ limit →
      ∃ before after, script = before ++ after ∧ (∀ ev ∈ before, ev.isPassing = true) ∧
        (got ++ brought before).length ≤ limit ∧
        (after = [] ∨ ∃ a rest decision, after = .arrival a :: rest ∧
          receive ⟨got ++ brought before, some limit⟩ a = .decided decision) := by
  induction script with
  | nil =>
    intro got hgot
    exact ⟨[], [], rfl, List.forall_mem_nil _, by rw [brought_nil, List.append_nil]; exact hgot, Or.inl rfl⟩
  | cons ev rest ih =>
    intro got hgot
    cases ev with
    | commit e =>
      obtain ⟨before, after, rfl, hpass, hlen, hstop⟩ := ih hgot
      have hb : brought (.commit e :: before) = brought before := brought_cons ..
      refine ⟨.commit e :: before, after, rfl, List.forall_mem_cons.2 ⟨rfl, hpass⟩, ?_⟩
      rw [hb]
      exact ⟨hlen, hstop⟩
    | arrival a =>
      cases hrec : receive ⟨got, some limit⟩ a with
      | decided decision =>
        refine ⟨[], .arrival a :: rest, rfl, List.forall_mem_nil _, ?_⟩
        rw [brought_nil, List.append_nil]
        exact ⟨hgot, Or.inr ⟨a, rest, decision, rfl, hrec⟩⟩
      | receiving next =>
        obtain ⟨hev, hle⟩ : (Event.arrival a).isPassing = true ∧ (got ++ brought [.arrival a]).length ≤ limit := by
          rcases receive_cases hgot a with ⟨hev, hle, -⟩ | ⟨_, -, hdec⟩ | ⟨-, hdec⟩ | ⟨_, -, -, -, hdec⟩
          · exact ⟨hev, hle⟩
          all_goals rw [hdec] at hrec; cases hrec
        obtain ⟨before, after, rfl, hpass, hlen, hstop⟩ := ih hle
        rw [List.append_assoc, ← brought_cons] at hlen hstop
        exact ⟨.arrival a :: before, after, rfl, List.forall_mem_cons.2 ⟨hev, hpass⟩, hlen, hstop⟩

end Stops

end Session

end LineRing
