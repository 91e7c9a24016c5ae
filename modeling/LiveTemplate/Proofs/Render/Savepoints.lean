import LiveTemplate.Proofs.Render.Removal
import LiveTemplate.Workbench.Hooks

/-!
Hooks that wait for the end of a transaction, and what a savepoint takes back of them. A `Notice` is
one entry of a queue. Going back to a savepoint leaves the transaction exactly as it was when the
savepoint was taken, whatever was queued in between and however often that work took back part of
itself. So work that was taken back cannot be told from work that was never done.
-/

namespace LiveTemplate

open Effects

/-- The queues of a transaction. -/
inductive Notice.Kind where
  | created | updated | install | update | destroyed
  deriving DecidableEq

/-- The kinds, in the order in which a commit runs their hooks. -/
def Notice.Kind.inOrder : List Notice.Kind := [.created, .updated, .install, .update, .destroyed]

theorem Notice.Kind.mem_inOrder (kind : Notice.Kind) : kind ∈ Notice.Kind.inOrder := by
  cases kind <;> decide

/-- A hook that waits until the transaction is committed. -/
inductive Notice where
  | created (component : Component)
  | updated (component : Component)
  | install (modifier : Modifier)
  | update (modifier : Modifier)
  | destroyed (owned : Owned)

namespace Notice

def kind : Notice → Kind
  | .created _ => .created
  | .updated _ => .updated
  | .install _ => .install
  | .update _ => .update
  | .destroyed _ => .destroyed

/-- Puts the hook at the end of its queue. -/
def enter : Notice → Transaction → Transaction
  | .created component => Transaction.didCreate component
  | .updated component => Transaction.didUpdate component
  | .install modifier => Transaction.install modifier
  | .update modifier => Transaction.update modifier
  | .destroyed owned => Transaction.didDestroy owned

/-- Calls the hook. -/
def run (hooks : Hooks) : Notice → StateM Page Unit
  | .created component => (hooks.component component.name).didCreate component
  | .updated component => (hooks.component component.name).didUpdate component
  | .install modifier => (hooks.modifier modifier.name).install modifier
  | .update modifier => (hooks.modifier modifier.name).update modifier
  | .destroyed (.component component) => (hooks.component component.name).destroy component
  | .destroyed (.modifier modifier) => (hooks.modifier modifier.name).destroy modifier

/-- The hooks one kind after the other, those of a kind as they were queued. -/
def sorted (notices : List Notice) : List Notice :=
  Kind.inOrder.flatMap fun kind => notices.filter fun notice => notice.kind = kind

/-- Sorted by kinds that are apart from each other, nothing is lost and nothing is doubled. -/
theorem sorted_by_perm {kinds : List Kind} (apart : kinds.Nodup) {notices : List Notice}
    (covers : ∀ notice ∈ notices, notice.kind ∈ kinds) :
    (kinds.flatMap fun kind => notices.filter fun notice => notice.kind = kind).Perm notices := by
  induction kinds generalizing notices with
  | nil =>
    rw [List.eq_nil_iff_forall_not_mem.mpr fun notice member =>
      List.not_mem_nil (covers notice member)]
    exact .refl _
  | cons kind rest ih =>
    obtain ⟨fresh, apart⟩ := List.nodup_cons.mp apart
    have others : (rest.flatMap fun other => notices.filter fun notice => notice.kind = other) =
        rest.flatMap fun other => (notices.filter fun notice => !(notice.kind = kind)).filter
          fun notice => notice.kind = other := by
      refine List.flatMap_congr fun other member => ?_
      rw [List.filter_filter]
      refine List.filter_congr fun notice _ => ?_
      by_cases same : notice.kind = other
      · have different : other ≠ kind := fun equal => fresh (equal ▸ member)
        simp [same, different]
      · simp [same]
    rw [List.flatMap_cons, others]
    refine List.Perm.trans (.append_left _ (ih apart fun notice member => ?_))
      (List.filter_append_perm (fun notice : Notice => notice.kind = kind) notices)
    obtain ⟨member, different⟩ := List.mem_filter.mp member
    exact (List.mem_cons.mp (covers notice member)).resolve_left (by simpa using different)

theorem sorted_perm (notices : List Notice) : (sorted notices).Perm notices :=
  sorted_by_perm (by decide) fun notice _ => notice.kind.mem_inOrder

/-! What waits in each queue -/

def created? : Notice → Option Component
  | .created component => some component
  | _ => none

def updated? : Notice → Option Component
  | .updated component => some component
  | _ => none

def install? : Notice → Option Modifier
  | .install modifier => some modifier
  | _ => none

def update? : Notice → Option Modifier
  | .update modifier => some modifier
  | _ => none

def destroyed? : Notice → Option Owned
  | .destroyed owned => some owned
  | _ => none

/-- Calling the hooks of one queue is calling those of its kind. -/
theorem run_queue {α : Type} (hooks : Hooks) (kind : Kind) (pick : Notice → Option α)
    (call : α → StateM Page Unit)
    (picked : ∀ notice, match pick notice with
      | some subject => notice.kind = kind ∧ notice.run hooks = call subject
      | none => notice.kind ≠ kind) (notices : List Notice) :
    (notices.filterMap pick).forM call =
      (notices.filter fun notice => notice.kind = kind).forM (run hooks) := by
  induction notices with
  | nil => rfl
  | cons notice rest ih =>
    have here := picked notice
    cases found : pick notice with
    | none =>
      rw [found] at here
      rw [List.filterMap_cons_none found, List.filter_cons_of_neg (by simpa using here), ih]
    | some subject =>
      rw [found] at here
      rw [List.filterMap_cons_some found, List.filter_cons_of_pos (by simpa using here.1),
        List.forM, List.forM, here.2, ih]

end Notice

namespace Transaction

/-- The transaction with more hooks queued. -/
def queueing (transaction : Transaction) (notices : List Notice) : Transaction :=
  notices.foldl (fun transaction notice => notice.enter transaction) transaction

variable {transaction : Transaction}

theorem queueing_append (early late : List Notice) :
    transaction.queueing (early ++ late) = (transaction.queueing early).queueing late :=
  List.foldl_append

/-- Queues only grow, each by the hooks of its kind. -/
theorem queueing_eq (notices : List Notice) :
    transaction.queueing notices = {
      created := transaction.created ++ notices.filterMap Notice.created?
      updated := transaction.updated ++ notices.filterMap Notice.updated?
      installs := transaction.installs ++ notices.filterMap Notice.install?
      updates := transaction.updates ++ notices.filterMap Notice.update?
      destructors := transaction.destructors ++ notices.filterMap Notice.destroyed? } := by
  induction notices generalizing transaction with
  | nil => simp only [queueing, List.foldl_nil, List.filterMap_nil, List.append_nil]
  | cons notice rest ih =>
    change (notice.enter transaction).queueing rest = _
    rw [ih]
    cases notice <;>
      simp only [Notice.enter, didCreate, didUpdate, install, update, didDestroy,
        List.filterMap_cons, Notice.created?, Notice.updated?, Notice.install?, Notice.update?,
        Notice.destroyed?, List.append_assoc, List.singleton_append]

/-- What was queued before a savepoint is still there, and that is all. -/
theorem rollbackTo_queueing (notices : List Notice) :
    (transaction.queueing notices).rollbackTo transaction.savepoint = transaction := by
  rw [queueing_eq]
  simp only [rollbackTo, savepoint, List.take_left]

/-- The hooks run one kind after the other. -/
theorem run_queueing (hooks : Hooks) (notices : List Notice) :
    Transaction.run hooks (({} : Transaction).queueing notices) =
      (Notice.sorted notices).forM (Notice.run hooks) := by
  have created := Notice.run_queue hooks .created Notice.created? (fun component => (hooks.component component.name).didCreate component)
    (fun notice => by cases notice <;> simp [Notice.created?, Notice.kind, Notice.run]) notices
  have updated := Notice.run_queue hooks .updated Notice.updated? (fun component => (hooks.component component.name).didUpdate component)
    (fun notice => by cases notice <;> simp [Notice.updated?, Notice.kind, Notice.run]) notices
  have installs := Notice.run_queue hooks .install Notice.install? (fun modifier => (hooks.modifier modifier.name).install modifier)
    (fun notice => by cases notice <;> simp [Notice.install?, Notice.kind, Notice.run]) notices
  have updates := Notice.run_queue hooks .update Notice.update? (fun modifier => (hooks.modifier modifier.name).update modifier)
    (fun notice => by cases notice <;> simp [Notice.update?, Notice.kind, Notice.run]) notices
  have destructors := Notice.run_queue hooks .destroyed Notice.destroyed? (destroy hooks)
    (fun notice => by
      cases notice with
      | destroyed owned => cases owned <;> exact ⟨rfl, rfl⟩
      | _ => simp [Notice.destroyed?, Notice.kind]) notices
  simp only [queueing_eq, Transaction.run, List.nil_append, created, updated, installs, updates,
    destructors, Notice.sorted, Notice.Kind.inOrder, List.flatMap_cons, List.flatMap_nil,
    List.append_nil, List.forM_eq_forM, List.forM_append]

end Transaction

/-- What is done while a transaction is open. -/
inductive Deed where
  | notify (notice : Notice)
  | savepoint
  /-- Goes back to the last savepoint of this work to which it has not gone back yet, if any. -/
  | rollback

namespace Render

def notify (notice : Notice) : Render Unit := queue notice.enter

/-- Some work, given the savepoints to which it may still go back, the last one first. -/
def work : List Deed → List Savepoint → Render Unit
  | [], _ => return
  | .notify notice :: rest, marks => do
    notify notice
    work rest marks
  | .savepoint :: rest, marks => do work rest ((← savepoint) :: marks)
  | .rollback :: rest, [] => work rest []
  | .rollback :: rest, mark :: marks => do
    rollbackTo mark
    work rest marks

/-- What was queued when each of the savepoints was taken, on top of the transaction. Each found at
least as much as the one before it. -/
inductive Marked (transaction : Transaction) : List Notice → List Savepoint → Prop where
  | start (queued : List Notice) : Marked transaction queued []
  | mark {early : List Notice} {marks : List Savepoint} (late : List Notice)
      (earlier : Marked transaction early marks) :
      Marked transaction (early ++ late) ((transaction.queueing early).savepoint :: marks)

theorem Marked.queue {transaction : Transaction} {queued : List Notice} {marks : List Savepoint}
    (marked : Marked transaction queued marks) (notice : Notice) :
    Marked transaction (queued ++ [notice]) marks := by
  cases marked with
  | start queued => exact .start _
  | mark late earlier =>
    rw [List.append_assoc]
    exact .mark _ earlier

/-- The world while a transaction is open. -/
def during (world : World) (transaction : Transaction) : World :=
  { world with transaction := some transaction }

variable {world : World} {transaction : Transaction}

theorem queue_during (change : Transaction → Transaction) :
    queue change (during world transaction) = .ok () (during world (change transaction)) :=
  rfl

theorem savepoint_during :
    savepoint (during world transaction) =
      .ok transaction.savepoint (during world transaction) :=
  rfl

theorem rollbackTo_during (mark : Savepoint) :
    rollbackTo mark (during world transaction) =
      .ok () (during world (transaction.rollbackTo mark)) :=
  rfl

theorem notifyAll_during (notices : List Notice) :
    notices.forM notify (during world transaction) =
      .ok () (during world (transaction.queueing notices)) := by
  induction notices generalizing transaction with
  | nil => rfl
  | cons notice rest ih => exact (bind_of_ok (queue_during notice.enter)).trans ih

/-- Work only adds to what was queued when it began, whatever it takes back of itself. -/
theorem work_queues (deeds : List Deed) {marks : List Savepoint} {queued : List Notice}
    (marked : Marked transaction queued marks) :
    ∃ left, work deeds marks (during world (transaction.queueing queued)) =
      .ok () (during world (transaction.queueing left)) := by
  induction deeds generalizing marks queued with
  | nil => exact ⟨queued, rfl⟩
  | cons deed rest ih =>
    cases deed with
    | notify notice =>
      obtain ⟨left, done⟩ := ih (marked.queue notice)
      rw [Transaction.queueing_append] at done
      exact ⟨left, (bind_of_ok (queue_during notice.enter)).trans done⟩
    | savepoint =>
      have more := Marked.mark [] marked
      rw [List.append_nil] at more
      obtain ⟨left, done⟩ := ih more
      exact ⟨left, (bind_of_ok savepoint_during).trans done⟩
    | rollback =>
      cases marked with
      | start => exact ih (.start queued)
      | @mark early marks late earlier =>
        obtain ⟨left, done⟩ := ih earlier
        refine ⟨left, (bind_of_ok (rollbackTo_during _)).trans ?_⟩
        rwa [Transaction.queueing_append, Transaction.rollbackTo_queueing]

/-- Work that is taken back leaves no trace of itself. -/
theorem work_taken_back (deeds : List Deed) :
    ∃ between, work deeds [] (during world transaction) = .ok () between ∧
      rollbackTo transaction.savepoint between = .ok () (during world transaction) := by
  have begun : Marked transaction [] [] := .start []
  obtain ⟨left, done⟩ := work_queues deeds begun
  refine ⟨_, done, ?_⟩
  rw [rollbackTo_during, Transaction.rollbackTo_queueing]

theorem begin_cases (world : World) :
    begin world = match world.transaction with
      | none => .ok () (during world {})
      | some _ => .error (.failed .transactionInProgress) world := by
  refine (bind_of_ok rfl).trans ?_
  cases world.transaction <;> rfl

/-- Hooks that were queued run in order when the transaction is committed. -/
theorem commit_during (hooks : Hooks) (notices : List Notice) :
    commit hooks (during world (({} : Transaction).queueing notices)) = .ok () { world with
      transaction := none
      page := (((Notice.sorted notices).forM (Notice.run hooks)).run world.page).2 } := by
  rw [← Transaction.run_queueing]
  rfl

/-- A transaction in which work was taken back to a savepoint runs the hooks that it would run had that
work never been done: those of each kind as they were queued, each of them once. Without a
transaction nothing can be queued, marked or committed, and within one no other can begin; what is
refused changes nothing. -/
theorem rollback_erases_work (hooks : Hooks) (before : List Notice) (undone : List Deed)
    (after : List Notice) :
    ((do
        begin
        before.forM notify
        let mark ← savepoint
        work undone []
        rollbackTo mark
        after.forM notify
        commit hooks) =
      (do
        begin
        before.forM notify
        after.forM notify
        commit hooks : Render Unit)) ∧
    (Notice.sorted (before ++ after)).Perm (before ++ after) ∧
    ∀ world : World, match world.transaction with
      | none =>
        (do
          begin
          before.forM notify
          after.forM notify
          commit hooks : Render Unit) world = .ok () { world with
            transaction := none
            page := (((Notice.sorted (before ++ after)).forM (Notice.run hooks)).run world.page).2 } ∧
        (∀ notice, notify notice world = .error (.failed .noTransaction) world) ∧
        savepoint world = .error (.failed .noTransaction) world ∧
        commit hooks world = .error (.failed .noTransaction) world
      | some _ => begin world = .error (.failed .transactionInProgress) world := by
  refine ⟨funext fun world => ?_, Notice.sorted_perm _, fun world => ?_⟩
  · have begins := begin_cases world
    cases there : world.transaction with
    | some transaction =>
      rw [there] at begins
      rw [bind_of_error begins, bind_of_error begins]
    | none =>
      rw [there] at begins
      rw [bind_of_ok begins, bind_of_ok begins, bind_of_ok (notifyAll_during before),
        bind_of_ok (notifyAll_during before), bind_of_ok savepoint_during]
      obtain ⟨between, done, undone⟩ := work_taken_back undone
      rw [bind_of_ok done, bind_of_ok undone]
  · have begins := begin_cases world
    cases there : world.transaction with
    | some transaction => rwa [there] at begins
    | none =>
      rw [there] at begins
      refine ⟨?_, fun notice => ?_, ?_, ?_⟩
      · rw [bind_of_ok begins, bind_of_ok (notifyAll_during before),
          bind_of_ok (notifyAll_during after), ← Transaction.queueing_append]
        exact commit_during hooks _
      all_goals
        refine (bind_of_ok rfl).trans ?_
        rw [there]
        rfl

/-- What the hooks of the workbench wrote down by the end. -/
def written (action : Render Unit) : List String :=
  match action {} with
  | .ok _ world | .error _ world => world.page.store.host.log.reverse

/-- Work that queued a hook of each kind, and went back to a savepoint of its own, was taken back. Of
what is left, the hooks run by kinds. -/
theorem rollback_erases_work_written :
    let card : Component := ⟨0, "card", .const .undefined, .constant⟩
    let shelf : Component := ⟨1, "shelf", .const .undefined, .constant⟩
    let focus : Modifier := { id := 2, name := "focus", element := 7, invocation := {} }
    let before : List Notice :=
      [.destroyed (.component card), .update focus, .created card, .updated card]
    let undone : List Deed := [.notify (.created shelf), .savepoint, .notify (.install focus),
      .notify (.destroyed (.component shelf)), .rollback, .notify (.updated shelf),
      .notify (.update focus)]
    let after : List Notice := [.destroyed (.modifier focus), .install focus, .created shelf]
    written (do
        begin
        before.forM notify
        let mark ← savepoint
        work undone []
        rollbackTo mark
        after.forM notify
        commit Workbench.recordingHooks) =
      ["card created", "shelf created", "card updated", "focus install #7 attached=false ",
        "focus update #7 ", "card destroyed", "focus destroy #7"] := by
  intro card shelf focus before undone after
  rw [(rollback_erases_work Workbench.recordingHooks before undone after).1]
  decide +kernel

end Render

end LiveTemplate
