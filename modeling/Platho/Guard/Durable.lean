import Platho.Guard.Store

/-!
# Adds that have resolved are stored

A call of `add` waits for a write that begins after its nonce is pending, so the nonce is in a
batch that is written, or in the set that is folded. Under the lock nothing else is written, so
a fold replaces rows that it has read. Hence no row loses a nonce (`rows_grow`).

A nonce that is in the set of the tab resolves at once, whether or not it was written.
`AddsStored` is the condition that it was.
-/

namespace Platho.Guard

open Js Tact

@[simp] theorem mem_addAll {seen : OrdSet Nonce} {nonces : List Nonce} {n : Nonce} :
    n ∈ addAll seen nonces ↔ n ∈ seen ∨ n ∈ nonces := by
  induction nonces generalizing seen with
  | nil => simp [addAll]
  | cons nonce nonces ih =>
    change n ∈ addAll (seen.add nonce) nonces ↔ _
    rw [ih, OrdSet.mem_add, List.mem_cons, or_assoc]

namespace Store

variable {store : Store} {nonces : List Nonce} {n : Nonce}

theorem mem_guardNonces :
    n ∈ store.guardNonces ↔ n ∈ store.main.getD [] ∨
      ∃ k row, store.parts.get k = some row ∧ n ∈ row := by
  rw [guardNonces, List.mem_append, List.mem_flatten]
  simp only [OrdMap.mem_values_iff]
  grind

/-- A part of a new name comes to the rows. -/
theorem mem_putPart : n ∈ (store.putPart nonces).guardNonces ↔ n ∈ store.guardNonces ∨ n ∈ nonces := by
  have fresh : store.parts.get store.drawn = none := by
    by_contra found
    exact Nat.lt_irrefl _ (store.parts_lt _ (OrdMap.mem_keys_iff.mpr found))
  rw [mem_guardNonces, mem_guardNonces]
  constructor
  · rintro (main | ⟨k, row, found, mem⟩)
    · exact .inl (.inl main)
    · rw [putPart, OrdMap.get_set] at found
      split at found
      · cases found
        exact .inr mem
      · exact .inl (.inr ⟨k, row, found, mem⟩)
  · rintro ((main | ⟨k, row, found, mem⟩) | mem)
    · exact .inl main
    · refine .inr ⟨k, row, ?_, mem⟩
      rw [putPart, OrdMap.get_set_of_ne]
      · exact found
      · rintro rfl
        cases fresh.symm.trans found
    · exact .inr ⟨store.drawn, nonces, OrdMap.get_set_self, mem⟩

theorem mem_putFold {held : List Nat} {deleteIds : List Nonce} (mem : n ∈ nonces) :
    n ∈ (store.putFold nonces held deleteIds).guardNonces :=
  mem_guardNonces.mpr (.inl mem)

end Store

/-! ## What holds of every tab -/

/-- The batch that a write has taken. -/
def Phase.batch : Phase → List Nonce
  | .waiting => []
  | .reading batch | .folding batch | .foldWriting batch _ _ | .partWriting batch => batch

/-- A write holds the lock once it has taken its batch. -/
def Phase.held : Phase → Prop
  | .waiting => False
  | _ => True

/-- What a write knows: its calls are stored or in its batch, and what it folds has all rows. -/
structure Job.Sound (store : Store) (holds : Prop) (tab : Tab) (job : Job) : Prop where
  holds : job.phase.held → holds
  batch : ∀ n ∈ job.phase.batch, n ∈ tab.seen
  deleteIds : ∀ n ∈ job.deleteIds, n ∈ tab.seen
  waiting : ∀ n ∈ job.callers,
    n ∈ store.guardNonces ∨ n ∈ job.phase.batch ∨ job.phase = .waiting ∧ n ∈ tab.pending
  folds : ∀ batch nonces held, job.phase = .foldWriting batch nonces held →
    ∀ n, n ∈ store.guardNonces ∨ n ∈ batch ∨ n ∈ job.deleteIds → n ∈ nonces

structure Tab.Sound (store : Store) (holds : Prop) (tab : Tab) : Prop where
  pending : ∀ n ∈ tab.pending, n ∈ tab.seen
  job : ∀ job, tab.job = some job → job.Sound store holds tab
  queued : ∀ callers, tab.queued = some callers → ∀ n ∈ callers,
    n ∈ store.guardNonces ∨ n ∈ tab.pending ∨ ∃ job, tab.job = some job ∧ n ∈ job.phase.batch

def State.Sound (s : State) : Prop :=
  ∀ (i : Nat) tab, s.tabs[i]? = some tab → tab.Sound s.store (s.lock = some i)

/-- What other tabs may rely on: rows are kept, and one that has the lock finds the store as it
was. -/
structure Frame (s t : State) (i : Nat) : Prop where
  grows : ∀ n ∈ s.store.guardNonces, n ∈ t.store.guardNonces
  locked : ∀ j, j ≠ i → s.lock = some j → t.lock = some j ∧ t.store = s.store

theorem Tab.Sound.frame {s t : State} {i j : Nat} {tab : Tab} (frame : Frame s t i) (other : j ≠ i)
    (sound : tab.Sound s.store (s.lock = some j)) : tab.Sound t.store (t.lock = some j) := by
  refine ⟨sound.pending, fun job found => ?_, fun callers found n mem => ?_⟩
  · have held := sound.job job found
    refine ⟨fun locked => (frame.locked j other (held.holds locked)).1, held.batch, held.deleteIds,
      fun n mem => (held.waiting n mem).imp_left (frame.grows n), fun batch nonces names phase => ?_⟩
    have locked : s.lock = some j := held.holds (by rw [phase]; trivial)
    rw [(frame.locked j other locked).2]
    exact held.folds batch nonces names phase
  · exact (sound.queued callers found n mem).imp_left (frame.grows n)

/-- One tab moves, and the others rely on the frame. -/
theorem State.Sound.move {s t : State} {i : Nat} {tab : Tab} (sound : s.Sound) (frame : Frame s t i)
    (tabs : t.tabs = s.tabs.set i tab) (here : tab.Sound t.store (t.lock = some i)) : t.Sound := by
  intro j other found
  rw [tabs, List.getElem?_set] at found
  by_cases same : i = j
  · subst same
    rw [if_pos rfl] at found
    split at found
    · cases found
      exact here
    · cases found
  · rw [if_neg same] at found
    exact (sound j other found).frame frame (Ne.symm same)

/-! ## Steps -/

variable {s : State} {i : Nat} {tab : Tab} {job : Job} {e : Step}

theorem State.Sound.create (sound : s.Sound) :
    State.Sound { s with tabs := s.tabs ++ [Tab.create s.store] } := by
  intro j other found
  rw [List.getElem?_append] at found
  split at found
  · exact sound j other found
  · obtain rfl : Tab.create s.store = other := by
      cases rest : j - s.tabs.length with
      | zero => simpa [rest] using found
      | succ rest' => simp [rest] at found
    refine ⟨fun n mem => absurd mem (OrdSet.not_mem_empty n), fun job running => ?_, ?_⟩
    · simp only [Tab.create] at running
      split at running
      · cases running
      · cases running
        refine ⟨False.elim, nofun, fun n mem => ?_, nofun,
          nofun⟩
        exact mem_addAll.mpr (.inr (List.mem_append_left _ mem))
    · rintro callers ⟨⟩

theorem State.Sound.add (sound : s.Sound) (here : s.tabs[i]? = some tab) (id : Nonce) :
    (s.add i tab id).Sound := by
  rw [State.add]
  split
  · exact sound
  · have held := sound i tab here
    refine sound.move ⟨fun _ mem => mem, fun j _ locked => ⟨locked, rfl⟩⟩ rfl ⟨?_, ?_, ?_⟩
    · intro n mem
      exact OrdSet.mem_add.mpr ((OrdSet.mem_add.mp mem).imp_left (held.pending n))
    · intro job running
      have knows := held.job job running
      refine ⟨knows.holds, fun n mem => OrdSet.mem_add.mpr (.inl (knows.batch n mem)),
        fun n mem => OrdSet.mem_add.mpr (.inl (knows.deleteIds n mem)), fun n mem => ?_, knows.folds⟩
      obtain stored | batch | ⟨waiting, pending⟩ := knows.waiting n mem
      · exact .inl stored
      · exact .inr (.inl batch)
      · exact .inr (.inr ⟨waiting, OrdSet.mem_add.mpr (.inl pending)⟩)
    · rintro _ ⟨⟩ n mem
      obtain old | new := List.mem_append.mp mem
      · cases queued : tab.queued with
        | none =>
          rw [queued] at old
          cases old
        | some callers =>
          rw [queued] at old
          obtain stored | pending | batch := held.queued callers queued n old
          · exact .inl stored
          · exact .inr (.inl (OrdSet.mem_add.mpr (.inl pending)))
          · exact .inr (.inr batch)
      · exact .inr (.inl (OrdSet.mem_add.mpr (.inr (List.mem_singleton.mp new))))

theorem State.Sound.begin (sound : s.Sound) (here : s.tabs[i]? = some tab) (idle : tab.job = none)
    {callers : List Nonce} (queued : tab.queued = some callers) :
    (s.withTab i { tab with job := some ⟨callers, [], .waiting⟩, queued := none }).Sound := by
  have held := sound i tab here
  refine sound.move ⟨fun _ mem => mem, fun j _ locked => ⟨locked, rfl⟩⟩ rfl
    ⟨held.pending, ?_, nofun⟩
  rintro _ ⟨⟩
  refine ⟨False.elim, nofun, nofun, fun n mem => ?_,
    nofun⟩
  obtain stored | pending | ⟨job, running, -⟩ := held.queued callers queued n mem
  · exact .inl stored
  · exact .inr (.inr ⟨rfl, pending⟩)
  · cases idle.symm.trans running

theorem State.Sound.takeBatch (sound : s.Sound) (here : s.tabs[i]? = some tab)
    (running : tab.job = some job) (waits : job.phase = .waiting) (free : s.lock = none) :
    (s.takeBatch i tab job).Sound := by
  have held := sound i tab here
  have knows := held.job job running
  have none : ∀ {n}, n ∉ job.phase.batch := by simp [waits, Phase.batch]
  refine sound.move ⟨fun _ mem => mem, fun j _ locked => ?_⟩ rfl ⟨?_, ?_, ?_⟩
  · cases free.symm.trans locked
  · exact fun n mem => absurd mem (OrdSet.not_mem_empty n)
  · rintro _ ⟨⟩
    refine ⟨fun _ => rfl, held.pending, knows.deleteIds, fun n mem => ?_,
      nofun⟩
    obtain stored | batch | ⟨-, pending⟩ := knows.waiting n mem
    · exact .inl stored
    · exact absurd batch none
    · exact .inr (.inl pending)
  · intro callers queued n mem
    obtain stored | pending | ⟨job', running', batch⟩ := held.queued callers queued n mem
    · exact .inl stored
    · exact .inr (.inr ⟨_, rfl, pending⟩)
    · cases running.symm.trans running'
      exact absurd batch none

/-- The tab that has the lock gives it back. -/
theorem Frame.unlock {t : State} (locked : s.lock = some i)
    (grows : ∀ n ∈ s.store.guardNonces, n ∈ t.store.guardNonces) : Frame s t i :=
  ⟨grows, fun _ other other' => absurd (Option.some.inj (other'.symm.trans locked)) other⟩

theorem State.Sound.fail (sound : s.Sound) (here : s.tabs[i]? = some tab)
    (running : tab.job = some job) (began : job.phase.held) :
    (s.fail i tab job.phase.batch).Sound := by
  have held := sound i tab here
  have knows := held.job job running
  refine sound.move (.unlock (knows.holds began) fun _ mem => mem) rfl ⟨?_, nofun, ?_⟩
  · intro n mem
    obtain pending | batch := mem_addAll.mp mem
    · exact held.pending n pending
    · exact knows.batch n batch
  · intro callers queued n mem
    obtain stored | pending | ⟨job', running', batch⟩ := held.queued callers queued n mem
    · exact .inl stored
    · exact .inr (.inl (mem_addAll.mpr (.inl pending)))
    · cases running.symm.trans running'
      exact .inr (.inl (mem_addAll.mpr (.inr batch)))

/-- A write that is done has stored its batch, and with it the nonces of its calls. -/
theorem State.Sound.settle (sound : s.Sound) (here : s.tabs[i]? = some tab)
    (running : tab.job = some job) (began : job.phase.held) {store : Store}
    (grows : ∀ n ∈ s.store.guardNonces, n ∈ store.guardNonces)
    (stored : ∀ n ∈ job.phase.batch, n ∈ store.guardNonces) {seen : OrdSet Nonce}
    (more : ∀ n ∈ tab.seen, n ∈ seen) :
    (s.settle i { tab with seen } job store).Sound ∧
      ∀ n ∈ job.callers, n ∈ store.guardNonces := by
  have held := sound i tab here
  have knows := held.job job running
  refine ⟨sound.move (.unlock (knows.holds began) grows) rfl ⟨?_, nofun, ?_⟩, fun n mem => ?_⟩
  · exact fun n mem => more n (held.pending n mem)
  · intro callers queued n mem
    obtain old | pending | ⟨job', running', batch⟩ := held.queued callers queued n mem
    · exact .inl (grows n old)
    · exact .inr (.inl pending)
    · cases running.symm.trans running'
      exact .inl (stored n batch)
  · obtain old | batch | ⟨waits, -⟩ := knows.waiting n mem
    · exact grows n old
    · exact stored n batch
    · rw [waits] at began
      exact began.elim

/-- A write goes on with its batch, and the tab may have seen more. -/
theorem State.Sound.advance (sound : s.Sound) (here : s.tabs[i]? = some tab)
    (running : tab.job = some job) (began : job.phase.held) {seen : OrdSet Nonce}
    (more : ∀ n ∈ tab.seen, n ∈ seen) {phase : Phase} (batch : phase.batch = job.phase.batch)
    (folds : ∀ batch nonces held, phase = .foldWriting batch nonces held →
      ∀ n, n ∈ s.store.guardNonces ∨ n ∈ batch ∨ n ∈ job.deleteIds → n ∈ nonces) :
    (s.withTab i { tab with seen, job := some { job with phase } }).Sound := by
  have held := sound i tab here
  have knows := held.job job running
  refine sound.move ⟨fun _ mem => mem, fun j _ locked => ⟨locked, rfl⟩⟩ rfl ⟨?_, ?_, ?_⟩
  · exact fun n mem => more n (held.pending n mem)
  · rintro _ ⟨⟩
    refine ⟨fun _ => knows.holds began, fun n mem => more n (knows.batch n (batch ▸ mem)),
      fun n mem => more n (knows.deleteIds n mem), fun n mem => ?_, folds⟩
    obtain stored | mem | ⟨waits, -⟩ := knows.waiting n mem
    · exact .inl stored
    · exact .inr (.inl (batch ▸ mem))
    · rw [waits] at began
      exact began.elim
  · intro callers queued n mem
    obtain stored | pending | ⟨job', running', mem⟩ := held.queued callers queued n mem
    · exact .inl stored
    · exact .inr (.inl pending)
    · cases running.symm.trans running'
      exact .inr (.inr ⟨_, rfl, batch ▸ mem⟩)

/-! ## One step -/

/-- What every step keeps: tabs are sound, no row loses a nonce, and a call that resolves has its
nonce stored, or the nonce was in the set of its tab. -/
structure Stepped (s : State) (e : Step) (t : State) : Prop where
  sound : t.Sound
  guard : ∀ n ∈ s.store.guardNonces, n ∈ t.store.guardNonces
  rows : ∀ n ∈ s.store.rows, n ∈ t.store.rows
  resolved : ∀ n ∈ t.resolved, n ∈ s.resolved ∨ n ∈ t.store.guardNonces ∨
    ∃ i tab, e = .add i n ∧ s.tabs[i]? = some tab ∧ n ∈ tab.seen

/-- A step that leaves the store as it is, and resolves no call. -/
theorem Stepped.quiet {t : State} (sound : t.Sound) (store : t.store = s.store)
    (resolved : t.resolved = s.resolved) : Stepped s e t := by
  refine ⟨sound, fun n mem => ?_, fun n mem => ?_, fun n mem => .inl (resolved ▸ mem)⟩
  · exact store.symm ▸ mem
  · exact store.symm ▸ mem

theorem Stepped.settle (sound : s.Sound) (here : s.tabs[i]? = some tab)
    (running : tab.job = some job) (began : job.phase.held) {store : Store}
    (grows : ∀ n ∈ s.store.guardNonces, n ∈ store.guardNonces)
    (rows : ∀ n ∈ s.store.plain, n ∈ store.rows)
    (stored : ∀ n ∈ job.phase.batch, n ∈ store.guardNonces) {seen : OrdSet Nonce}
    (more : ∀ n ∈ tab.seen, n ∈ seen) : Stepped s e (s.settle i { tab with seen } job store) := by
  obtain ⟨sound, resolved⟩ := sound.settle here running began grows stored more
  refine ⟨sound, grows, fun n mem => ?_, fun n mem => ?_⟩
  · obtain plain | mem := List.mem_append.mp mem
    · exact rows n plain
    · exact List.mem_append_right _ (grows n mem)
  · exact (List.mem_append.mp mem).imp_right fun mem => .inl (resolved n mem)

theorem Stepped.readParts (sound : s.Sound) (here : s.tabs[i]? = some tab)
    (running : tab.job = some job) {batch : List Nonce} (phase : job.phase = .reading batch) :
    Stepped s e (s.readParts i tab job batch) := by
  have began : job.phase.held := by rw [phase]; trivial
  have taken : job.phase.batch = batch := by rw [phase]; rfl
  have more : ∀ n ∈ tab.seen, n ∈ addAll tab.seen s.store.parts.values.flatten :=
    fun n mem => mem_addAll.mpr (.inl mem)
  rw [State.readParts]
  split_ifs with fold some
  · exact .quiet (sound.advance here running began more taken.symm nofun) rfl rfl
  · exact .quiet (sound.advance here running began more taken.symm nofun) rfl rfl
  · refine .settle sound here running began (fun _ mem => mem)
      (fun n mem => List.mem_append_left _ mem) (fun n mem => ?_) more
    rw [taken, not_not.mp some] at mem
    cases mem

theorem Stepped.readRows (sound : s.Sound) (here : s.tabs[i]? = some tab)
    (running : tab.job = some job) {batch : List Nonce} (phase : job.phase = .folding batch) :
    Stepped s e (s.readRows i tab job batch) := by
  have knows := (sound i tab here).job job running
  have began : job.phase.held := by rw [phase]; trivial
  have taken : job.phase.batch = batch := by rw [phase]; rfl
  have more : ∀ n ∈ tab.seen, n ∈ addAll tab.seen s.store.guardNonces :=
    fun n mem => mem_addAll.mpr (.inl mem)
  refine .quiet (sound.advance here running began more taken.symm ?_) rfl rfl
  rintro _ _ _ ⟨⟩ n (stored | mem | mem)
  · exact mem_addAll.mpr (.inr stored)
  · exact more n (knows.batch n (taken ▸ mem))
  · exact more n (knows.deleteIds n mem)

theorem Stepped.putFold (sound : s.Sound) (here : s.tabs[i]? = some tab)
    (running : tab.job = some job) {batch nonces : List Nonce} {held : List Nat}
    (phase : job.phase = .foldWriting batch nonces held) :
    Stepped s e (s.settle i tab job (s.store.putFold nonces held job.deleteIds)) := by
  have knows := (sound i tab here).job job running
  have began : job.phase.held := by rw [phase]; trivial
  have taken : job.phase.batch = batch := by rw [phase]; rfl
  have folds := knows.folds batch nonces held phase
  refine .settle sound here running began (fun n mem => Store.mem_putFold (folds n (.inl mem)))
    (fun n mem => ?_) (fun n mem => Store.mem_putFold (folds n (.inr (.inl (taken ▸ mem)))))
    (fun _ mem => mem)
  by_cases deleted : n ∈ job.deleteIds
  · exact List.mem_append_right _ (Store.mem_putFold (folds n (.inr (.inr deleted))))
  · exact List.mem_append_left _ (List.mem_filter.mpr ⟨mem, by simpa using deleted⟩)

theorem Stepped.putPart (sound : s.Sound) (here : s.tabs[i]? = some tab)
    (running : tab.job = some job) {batch : List Nonce} (phase : job.phase = .partWriting batch) :
    Stepped s e (s.settle i tab job (s.store.putPart batch)) := by
  have began : job.phase.held := by rw [phase]; trivial
  have taken : job.phase.batch = batch := by rw [phase]; rfl
  exact .settle sound here running began (fun n mem => Store.mem_putPart.mpr (.inl mem))
    (fun n mem => List.mem_append_left _ mem)
    (fun n mem => Store.mem_putPart.mpr (.inr (taken ▸ mem))) (fun _ mem => mem)

theorem Stepped.failed (sound : s.Sound) (here : s.tabs[i]? = some tab)
    (running : tab.job = some job) {batch : List Nonce} (taken : job.phase.batch = batch)
    (began : job.phase.held) : Stepped s e (s.fail i tab batch) :=
  .quiet (taken ▸ sound.fail here running began) rfl rfl

theorem Stepped.step {t : State} (sound : s.Sound) (stepped : step s e = some t) :
    Stepped s e t := by
  cases e with
  | create =>
    cases stepped
    exact .quiet sound.create rfl rfl
  | add i id =>
    obtain ⟨tab, here, stepped⟩ := Option.bind_eq_some_iff.mp stepped
    split at stepped
    · cases stepped
      refine ⟨sound.add here id, ?_, ?_, ?_⟩
      · unfold State.add
        split <;> exact fun n mem => mem
      · unfold State.add
        split <;> exact fun n mem => mem
      · intro n mem
        unfold State.add at mem
        split at mem
        · next seen =>
            obtain old | new := List.mem_append.mp mem
            · exact .inl old
            · obtain rfl := List.mem_singleton.mp new
              exact .inr (.inr ⟨i, tab, rfl, here, seen⟩)
        · exact .inl mem
    · cases stepped
  | begin i =>
    obtain ⟨tab, here, stepped⟩ := Option.bind_eq_some_iff.mp stepped
    split at stepped
    · next idle queued =>
        cases stepped
        exact .quiet (sound.begin here idle queued) rfl rfl
    · cases stepped
  | lock i =>
    obtain ⟨tab, here, stepped⟩ := Option.bind_eq_some_iff.mp stepped
    obtain ⟨job, running, stepped⟩ := Option.bind_eq_some_iff.mp stepped
    split at stepped
    · next waits free =>
        cases stepped
        exact .quiet (sound.takeBatch here running waits free) rfl rfl
    · cases stepped
  | read i ok =>
    obtain ⟨tab, here, stepped⟩ := Option.bind_eq_some_iff.mp stepped
    obtain ⟨job, running, stepped⟩ := Option.bind_eq_some_iff.mp stepped
    split at stepped
    · next phase =>
        cases ok <;> cases stepped
        · exact .failed sound here running (by rw [phase]; rfl) (by rw [phase]; trivial)
        · exact .readParts sound here running phase
    · cases stepped
  | foldRead i ok =>
    obtain ⟨tab, here, stepped⟩ := Option.bind_eq_some_iff.mp stepped
    obtain ⟨job, running, stepped⟩ := Option.bind_eq_some_iff.mp stepped
    split at stepped
    · next phase =>
        cases ok <;> cases stepped
        · exact .failed sound here running (by rw [phase]; rfl) (by rw [phase]; trivial)
        · exact .readRows sound here running phase
    · cases stepped
  | foldWrite i ok =>
    obtain ⟨tab, here, stepped⟩ := Option.bind_eq_some_iff.mp stepped
    obtain ⟨job, running, stepped⟩ := Option.bind_eq_some_iff.mp stepped
    split at stepped
    · next phase =>
        cases ok <;> cases stepped
        · exact .failed sound here running (by rw [phase]; rfl) (by rw [phase]; trivial)
        · exact .putFold sound here running phase
    · cases stepped
  | partWrite i ok =>
    obtain ⟨tab, here, stepped⟩ := Option.bind_eq_some_iff.mp stepped
    obtain ⟨job, running, stepped⟩ := Option.bind_eq_some_iff.mp stepped
    split at stepped
    · next phase =>
        cases ok <;> cases stepped
        · exact .failed sound here running (by rw [phase]; rfl) (by rw [phase]; trivial)
        · exact .putPart sound here running phase
    · cases stepped

/-! ## Runs -/

theorem State.Sound.ofStore (store : Store) : (State.ofStore store).Sound := by
  intro i tab found
  simp [State.ofStore] at found

/-- A nonce that the set of the tab has is stored when it is added again. -/
def AddsStored (s : State) : Step → Prop
  | .add i id => ∀ tab ∈ s.tabs[i]?, id ∈ tab.seen → id ∈ s.store.guardNonces
  | _ => True

instance (s : State) (e : Step) : Decidable (AddsStored s e) :=
  match e with
  | .add i id =>
    inferInstanceAs (Decidable (∀ tab ∈ s.tabs[i]?, id ∈ tab.seen → id ∈ s.store.guardNonces))
  | .create | .begin _ | .lock _ | .read .. | .foldRead .. | .foldWrite .. | .partWrite .. =>
    inferInstanceAs (Decidable True)

/-- In every run no step takes a nonce from the rows, and in a run whose adds meet the condition a
nonce whose add has resolved is stored, and a guard that opens has it. -/
theorem resolved_adds_are_stored {store : Store} {steps : List Step} {final : State} :
    (run anyEvent step (.ofStore store) steps = some final →
      ∀ e next, step final e = some next → ∀ n ∈ final.store.rows, n ∈ next.store.rows) ∧
    (run AddsStored step (.ofStore store) steps = some final →
      ∀ n ∈ final.resolved,
        n ∈ final.store.guardNonces ∧ (Tab.create final.store).has n = true) := by
  constructor
  · intro reached e next stepped
    have sound : final.Sound :=
      run_invariant (fun s e t sound _ stepped => (Stepped.step sound stepped).sound)
        (.ofStore store) reached
    exact (Stepped.step sound stepped).rows
  · intro reached n mem
    have invariant : final.Sound ∧ ∀ n ∈ final.resolved, n ∈ final.store.guardNonces := by
      refine run_invariant (P := fun s => s.Sound ∧ ∀ n ∈ s.resolved, n ∈ s.store.guardNonces)
        ?_ ⟨.ofStore store, nofun⟩ reached
      rintro s e t ⟨sound, stored⟩ allowed stepped
      have moved := Stepped.step sound stepped
      refine ⟨moved.sound, fun n mem => ?_⟩
      obtain old | new | ⟨i, tab, rfl, here, seen⟩ := moved.resolved n mem
      · exact moved.guard n (stored n old)
      · exact new
      · exact moved.guard n (allowed tab here seen)
    have stored := invariant.2 n mem
    exact ⟨stored, decide_eq_true (mem_addAll.mpr (.inr (List.mem_append_right _ stored)))⟩

namespace Store

def blank : Store := ⟨[], none, .empty, 0, nofun⟩

end Store

/-- Two tabs, and one nonce of each. -/
def twoAdds : List Step :=
  [.create, .create, .add 0 "a", .add 1 "b", .begin 0, .begin 1, .lock 1, .read 1 true,
    .partWrite 1 true, .lock 0, .read 0 true, .partWrite 0 true]

theorem resolved_adds_are_stored_twice :
    ∃ final, run AddsStored step (.ofStore .blank) twoAdds = some final ∧
      "a" ∈ final.store.guardNonces := by
  have found : (run AddsStored step (.ofStore .blank) twoAdds).any fun final =>
      decide ("a" ∈ final.resolved) := by
    decide +kernel
  obtain ⟨final, reached, mem⟩ := (Option.any_eq_true _ _).mp found
  exact ⟨final, reached,
    (resolved_adds_are_stored.2 reached "a" (of_decide_eq_true mem)).1⟩

/-- The write of a nonce fails, and the nonce is added again. -/
theorem add_resolves_unstored :
    ∃ final, run anyEvent step (.ofStore .blank)
        [.create, .add 0 "a", .begin 0, .lock 0, .read 0 false, .add 0 "a"] = some final ∧
      "a" ∈ final.resolved ∧ "a" ∉ final.store.guardNonces := by
  have found : (run anyEvent step (.ofStore .blank)
      [.create, .add 0 "a", .begin 0, .lock 0, .read 0 false, .add 0 "a"]).any fun final =>
        decide ("a" ∈ final.resolved ∧ "a" ∉ final.store.guardNonces) := by
    decide +kernel
  obtain ⟨final, reached, lost⟩ := (Option.any_eq_true _ _).mp found
  exact ⟨final, reached, of_decide_eq_true lost⟩

end Platho.Guard
