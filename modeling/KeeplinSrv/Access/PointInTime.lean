import KeeplinSrv.Access.Permissions
import KeeplinSrv.Collab.ApplyOp
import KeeplinSrv.Common.Machine

/-!
# Note content that is handed out

`get_note`, `export_note` and the snapshot of a `Join` (`http.rs`, `collab.rs`):
an access check, a read of the order and a read of the lines, each in statements
of their own. Between two statements anything may be committed by others
(`ReadRun.step`).

`read_at_one_state`: if the access check still holds when the order is read, and
nothing is committed between the reads of the order and the lines that changes
the lines, then the content is that of one committed state of the request's duration in
which the caller could read the note. A batch committed between the two reads can
make a content come out that the note never had (`tornExport`).
-/

namespace KeeplinSrv

open Common

/-! ## The requests -/

/-- The contents of the live lines in order (`http.rs`, lines 916–922). -/
def liveContents (order : List Uuid) (lines : FinMap Uuid Line) : List String :=
  ((order.filterMap lines.get?).filter fun line => line.deletedAt = none).map Line.content

/-- The end of `materialize_body`: the size cap and the join. -/
def joinBody (cap : ℕ) (order : List Uuid) (lines : FinMap Uuid Line) : Prog readLang String :=
  let live := liveContents order lines
  let total := (live.map String.utf8ByteSize).sum + (live.length - 1)
  if 0 < cap ∧ cap < total then
    .throw (.PayloadTooLarge s!"note body is {total} bytes, exceeds the {cap}-byte limit")
  else pure ("\n".intercalate live)

/-- The two reads that `materialize_body` and `read_snapshot` begin with. -/
def readContent (noteId : Uuid) : Prog readLang (NoteOrder × FinMap Uuid Line) := do
  let found ← Prog.send (L := readLang) (.getNoteOrder noteId)
  match found with
  | none => Prog.throw .NotFound
  | some order => do
    let lines ← Prog.send (L := readLang) (.listLines noteId)
    pure (order, lines)

/-- `materialize_body` (`http.rs`, lines 910–937); `cap` is
    `max_note_body_bytes`. -/
def materializeBody (cap : ℕ) (noteId : Uuid) : Prog readLang String := do
  let content ← readContent noteId
  joinBody cap content.1.order content.2

/-- `line_snapshot`. -/
def Line.snapshot (line : Line) : LineSnapshot :=
  ⟨line.id, line.content, line.createdAt, line.updatedAt, line.deletedAt, line.vv,
    line.lastWriter⟩

/-- The snapshot of an order and the lines of a note. -/
def snapshotOf (noteId : Uuid) (order : NoteOrder) (lines : FinMap Uuid Line) :
    NoteLinesSnapshot :=
  ⟨noteId, order.order, order.updatedAt, order.vv, order.lastWriter, lines.map Line.snapshot⟩

/-- `read_snapshot` (`collab.rs`, lines 541–556). -/
def readSnapshot (noteId : Uuid) : Prog readLang NoteLinesSnapshot := do
  let content ← readContent noteId
  pure (snapshotOf noteId content.1 content.2)

inductive ReadKind
  | getNote
  | exportNote
  | join

/-- What a request hands out. -/
inductive Response
  | note (note : Note) (body : String)
  | exported (id : Uuid) (title body : String)
  | welcome (snapshot : NoteLinesSnapshot)

/-- `get_note` (`http.rs`, lines 1010–1029), `export_note` (lines 2087–2111) and the
    part of a `Join` up to its `Welcome`. -/
def readRequest (cap : ℕ) (userId noteId : Uuid) : ReadKind → Prog readLang Response
  | .getNote => do
    let note ← authorizeRead userId noteId
    let body ← materializeBody cap noteId
    pure (.note note body)
  | .exportNote => do
    let note ← authorizeRead userId noteId
    let body ← materializeBody cap noteId
    pure (.exported note.id note.title body)
  | .join => do
    let _ ← authorizeRead userId noteId
    let snapshot ← readSnapshot noteId
    pure (.welcome snapshot)

/-- What a request does with the rows it has read. -/
def reply (cap : ℕ) (noteId : Uuid) (kind : ReadKind) (note : Note) (order : NoteOrder)
    (lines : FinMap Uuid Line) : Prog readLang Response :=
  match kind with
  | .getNote => joinBody cap order.order lines >>= fun body => pure (.note note body)
  | .exportNote =>
    joinBody cap order.order lines >>= fun body => pure (.exported note.id note.title body)
  | .join => pure (.welcome (snapshotOf noteId order lines))

/-- The three requests have one shape. -/
theorem readRequest_eq (cap : ℕ) (userId noteId : Uuid) (kind : ReadKind) :
    readRequest cap userId noteId kind = authorizeRead userId noteId >>= fun note =>
      readContent noteId >>= fun content => reply cap noteId kind note content.1 content.2 := by
  cases kind with
  | getNote | exportNote | join =>
    simp only [readRequest, materializeBody, readSnapshot, Prog.bind_assoc]
    rfl

/-! ## The content of a committed state -/

/-- The join of the live lines in order. -/
def Committed.body (c : Committed) (noteId : Uuid) : Option String :=
  (c.db.noteLineOrder.get? noteId).map fun order =>
    "\n".intercalate (liveContents order.order (c.db.linesOf noteId))

/-- The order and the lines. -/
def Committed.snapshot (c : Committed) (noteId : Uuid) : Option NoteLinesSnapshot :=
  (c.db.noteLineOrder.get? noteId).map fun order =>
    snapshotOf noteId order (c.db.linesOf noteId)

/-- The response shows the content that the note has in the committed rows. -/
def Response.Shows (noteId : Uuid) (c : Committed) : Response → Prop
  | note _ body | exported _ _ body => c.body noteId = some body
  | welcome snapshot => c.snapshot noteId = some snapshot

/-- What a response shows is read off the order and the lines. -/
theorem reply_shows {cap : ℕ} {noteId : Uuid} {kind : ReadKind} {note : Note} {order : NoteOrder}
    {lines : FinMap Uuid Line} {response : Response} {c : Committed}
    (hreply : reply cap noteId kind note order lines = .done response)
    (horder : c.db.noteLineOrder.get? noteId = some order) (hlines : c.db.linesOf noteId = lines) :
    response.Shows noteId c := by
  subst hlines
  cases kind with
  | getNote | exportNote =>
    simp only [reply, joinBody] at hreply
    split_ifs at hreply
    · cases hreply
    · obtain rfl := Prog.done.inj hreply
      exact congrArg (Option.map _) horder
  | join =>
    obtain rfl := Prog.done.inj hreply
    exact congrArg (Option.map _) horder

/-! ## Requests among commits -/

/-- A request in progress: the committed rows, all that have been committed since
    its start, and what it has still to do. -/
structure ReadRun where
  committed : Committed
  passed : List Committed
  rest : Prog readLang Response

def ReadRun.start (c : Committed) (request : Prog readLang Response) : ReadRun := ⟨c, [c], request⟩

/-- Others commit, or the request sends its next statement. -/
inductive ReadStep
  | commit (next : Committed)
  | stmt

def ReadRun.step (s : ReadRun) (label : ReadStep) : Option ReadRun :=
  match s.rest, label with
  | .call _ _, .commit next => some { s with committed := next, passed := s.passed ++ [next] }
  | .call q k, .stmt => some { s with rest := k (s.committed.answer q) }
  | _, _ => none

/-- The user can read the note when its order is read, and a commit between the
    reads of the order and of the lines leaves the lines as they are. -/
def ReadRun.steady (userId noteId : Uuid) (s : ReadRun) (label : ReadStep) : Bool :=
  match s.rest, label with
  | .call (.getNoteOrder _) _, .stmt => s.committed.canRead userId noteId
  | .call (.listLines _) _, .commit next =>
    next.db.linesOf noteId = s.committed.db.linesOf noteId
  | _, _ => true

section

variable {cap : ℕ} {userId noteId : Uuid} {kind : ReadKind} {s s' : ReadRun} {label : ReadStep}
  {response : Response}

/-- The request behind its access check. -/
def content (cap : ℕ) (noteId : Uuid) (kind : ReadKind) (note : Note) : Prog readLang Response :=
  readContent noteId >>= fun content => reply cap noteId kind note content.1 content.2

/-- A state since the start in which the user could read the note, with this order
    and these lines. -/
def Had (userId noteId : Uuid) (s : ReadRun) (order : NoteOrder) (lines : FinMap Uuid Line) :
    Prop :=
  ∃ c ∈ s.passed, c.canRead userId noteId = true ∧
    c.db.noteLineOrder.get? noteId = some order ∧ c.db.linesOf noteId = lines

/-- Where a request is. -/
inductive ReadRun.Phase (cap : ℕ) (userId noteId : Uuid) (kind : ReadKind) (s : ReadRun) : Prop
  | authorizing {p : Prog readLang Note} (hp : p.Sends ReadSql.IsAccess)
      (hrest : s.rest = p >>= content cap noteId kind)
  | reading {note : Note} {order : NoteOrder}
      (hhad : Had userId noteId s order (s.committed.db.linesOf noteId))
      (hrest : s.rest = .call (.listLines noteId) fun lines =>
        reply cap noteId kind note order lines)
  | replied {note : Note} {order : NoteOrder} {lines : FinMap Uuid Line}
      (hhad : Had userId noteId s order lines)
      (hrest : s.rest = reply cap noteId kind note order lines)
  | failed {e : AppError} (hrest : s.rest = .throw e)

/-- The reply is not a statement. -/
theorem reply_ne_call {note : Note} {order : NoteOrder} {lines : FinMap Uuid Line}
    {q : ReadSql} {k : q.Res → Prog readLang Response} :
    reply cap noteId kind note order lines ≠ .call q k := by
  cases kind with
  | getNote | exportNote =>
    simp only [reply, joinBody]
    split_ifs
    · exact nofun
    · exact nofun
  | join => exact nofun

theorem Had.commit {order : NoteOrder} {lines : FinMap Uuid Line} {next : Committed}
    (h : Had userId noteId s order lines) :
    Had userId noteId { s with committed := next, passed := s.passed ++ [next] } order lines := by
  obtain ⟨c, hc, hcan⟩ := h
  exact ⟨c, List.mem_append_left _ hc, hcan⟩

/-- The invariant: the request is in a phase, and the committed rows are among
    those that have been committed since its start. -/
structure ReadRun.Inv (cap : ℕ) (userId noteId : Uuid) (kind : ReadKind) (s : ReadRun) : Prop where
  current : s.committed ∈ s.passed
  phase : s.Phase cap userId noteId kind

theorem ReadRun.Inv.start (c : Committed) :
    (ReadRun.start c (readRequest cap userId noteId kind)).Inv cap userId noteId kind where
  current := List.mem_singleton_self c
  phase := .authorizing (authorizeRead_sends userId noteId) (readRequest_eq ..)

theorem ReadRun.step_commit {next : Committed} (hstep : s.step (.commit next) = some s') :
    s' = { s with committed := next, passed := s.passed ++ [next] } := by
  unfold ReadRun.step at hstep
  split at hstep
  · rename_i next' hrest hlabel
    obtain rfl := ReadStep.commit.inj hlabel
    exact (Option.some.inj hstep).symm
  · rename_i hlabel
    cases hlabel
  · cases hstep

/-- A commit only matters between the reads of the order and of the lines. -/
theorem ReadRun.Inv.commit {next : Committed} (h : s.Inv cap userId noteId kind)
    (hsteady : s.steady userId noteId (.commit next) = true)
    (hstep : s.step (.commit next) = some s') : s'.Inv cap userId noteId kind := by
  obtain rfl := ReadRun.step_commit hstep
  refine ⟨List.mem_append_right _ (List.mem_singleton_self next), ?_⟩
  cases h.phase with
  | authorizing hp hrest => exact .authorizing hp hrest
  | reading hhad hrest =>
    simp only [ReadRun.steady, hrest, decide_eq_true_eq] at hsteady
    refine .reading ?_ hrest
    rw [hsteady]
    exact hhad.commit
  | replied hhad hrest => exact .replied hhad.commit hrest
  | failed hrest => exact .failed hrest

theorem ReadRun.step_stmt {q : ReadSql} {k : q.Res → Prog readLang Response}
    (hrest : s.rest = .call q k) (hstep : s.step .stmt = some s') :
    s' = { s with rest := k (s.committed.answer q) } := by
  simp only [ReadRun.step, hrest] at hstep
  exact (Option.some.inj hstep).symm

theorem ReadRun.step_stmt_call (hstep : s.step .stmt = some s') :
    ∃ q k, s.rest = .call q k := by
  unfold ReadRun.step at hstep
  split at hstep
  · rename_i hlabel
    cases hlabel
  · rename_i q k hrest hlabel
    exact ⟨q, k, hrest⟩
  · cases hstep

/-- The read of the order, in a state in which the user can read the note. -/
theorem ReadRun.Inv.readOrder {note : Note} (h : s.Inv cap userId noteId kind)
    (hrest : s.rest = content cap noteId kind note)
    (hsteady : s.steady userId noteId .stmt = true) (hstep : s.step .stmt = some s') :
    s'.Inv cap userId noteId kind := by
  have hcall : s.rest = .call (.getNoteOrder noteId) fun found =>
      (match found with
        | none => Prog.throw .NotFound
        | some order => do
          let lines ← Prog.send (L := readLang) (.listLines noteId)
          pure (order, lines)) >>= fun content => reply cap noteId kind note content.1 content.2 := by
    rw [hrest]
    rfl
  obtain rfl := ReadRun.step_stmt hcall hstep
  refine ⟨h.current, ?_⟩
  simp only [ReadRun.steady, hcall] at hsteady
  cases hfound : s.committed.db.noteLineOrder.get? noteId with
  | none =>
    refine .failed (e := .NotFound) ?_
    simp only [Committed.answer, hfound]
    rfl
  | some order =>
    refine @ReadRun.Phase.reading cap userId noteId kind _ note order
      ⟨s.committed, h.current, hsteady, hfound, rfl⟩ ?_
    simp only [Committed.answer, hfound]
    rfl

/-- A statement. -/
theorem ReadRun.Inv.stmt (h : s.Inv cap userId noteId kind)
    (hsteady : s.steady userId noteId .stmt = true) (hstep : s.step .stmt = some s') :
    s'.Inv cap userId noteId kind := by
  cases h.phase with
  | @authorizing p hp hrest =>
    cases p with
    | done note => exact h.readOrder hrest hsteady hstep
    | throw e =>
      obtain ⟨q, k, hcall⟩ := ReadRun.step_stmt_call hstep
      cases hrest.symm.trans hcall
    | call q k =>
      obtain rfl := ReadRun.step_stmt hrest hstep
      exact ⟨h.current, .authorizing (hp.2 _) rfl⟩
  | reading hhad hrest =>
    obtain rfl := ReadRun.step_stmt hrest hstep
    exact ⟨h.current, .replied hhad rfl⟩
  | replied hhad hrest =>
    obtain ⟨q, k, hcall⟩ := ReadRun.step_stmt_call hstep
    exact absurd (hrest.symm.trans hcall) reply_ne_call
  | failed hrest =>
    obtain ⟨q, k, hcall⟩ := ReadRun.step_stmt_call hstep
    cases hrest.symm.trans hcall

/-- **Content of one state.** A request whose access check still holds when the
    order is read, and between whose reads of the order and of the lines nothing is
    committed that changes the lines, hands out the content of one committed state of
    its duration in which the user could read the note. -/
theorem read_at_one_state {c : Committed} {steps : List ReadStep}
    (hsteady : Meets ReadRun.step (fun s label => s.steady userId noteId label = true)
      (ReadRun.start c (readRequest cap userId noteId kind)) steps)
    (hrun : run ReadRun.step (ReadRun.start c (readRequest cap userId noteId kind)) steps = some s)
    (hdone : s.rest = .done response) :
    ∃ c' ∈ s.passed, c'.canRead userId noteId = true ∧ response.Shows noteId c' := by
  have hstep : ∀ (s : ReadRun) (label : ReadStep) (s' : ReadRun), s.Inv cap userId noteId kind →
      s.steady userId noteId label = true → s.step label = some s' →
      s'.Inv cap userId noteId kind := by
    intro s label s' h hsteady hstep
    cases label with
    | commit next => exact h.commit hsteady hstep
    | stmt => exact h.stmt hsteady hstep
  have hend := run_induction hstep (ReadRun.Inv.start c) hsteady hrun
  cases hend.phase with
  | @authorizing p hp hrest =>
    cases p with
    | done note => cases hdone.symm.trans hrest
    | throw e => cases hdone.symm.trans hrest
    | call q k => cases hdone.symm.trans hrest
  | reading hhad hrest => cases hdone.symm.trans hrest
  | replied hhad hrest =>
    obtain ⟨c', hc', hcan, horder, hlines⟩ := hhad
    exact ⟨c', hc', hcan, reply_shows (hrest.symm.trans hdone) horder hlines⟩
  | failed hrest => cases hdone.symm.trans hrest

/-! ## A torn export

User 5 exports note 1 while device 2 replaces its only line. -/

/-- Note 1 of user 5 with one line. -/
def beforeBatch : Committed where
  db :=
    { notes := FinMap.empty.insert 1 ⟨1, "Plan", 5, none, 0, 0, none⟩
      lines := FinMap.empty.insert 10 ⟨10, 1, "old", 0, 0, none, .empty, "a"⟩
      noteLineOrder := FinMap.empty.insert 1 ⟨1, [10], 0, .empty, "a"⟩ }
  notebooks := .empty
  noteShares := .empty
  notebookShares := .empty

/-- Line 10 is deleted and line 11 inserted behind it. -/
def replaceLine : OpBatch where
  now := 7
  noteId := 1
  deviceId := 2
  ops :=
    let w := Uuid.toString 2
    [.delete 10 7 (FinMap.empty.insert w 1) w 7,
      .insert (some 10) 11 "new" (FinMap.empty.insert w 1) w 7]

/-- The rows after the batch. -/
def afterBatch : Committed := { beforeBatch with db := replaceLine.after .sample beforeBatch.db }

/-- The body of a finished export. -/
def ReadRun.exportedBody (s : ReadRun) : Option String :=
  match s.rest with
  | .done (.exported _ _ body) => some body
  | _ => none

theorem ReadRun.exists_of_exportedBody {body : String} (h : s.exportedBody = some body) :
    ∃ id title, s.rest = .done (.exported id title body) := by
  unfold ReadRun.exportedBody at h
  split at h
  · rename_i id title body' hrest
    obtain rfl := Option.some.inj h
    exact ⟨id, title, hrest⟩
  · cases h

/-- The batch is committed before the order is read. -/
def untornExport : List ReadStep := [.stmt, .commit afterBatch, .stmt, .stmt]

/-- The batch is committed between the reads of the order and of the lines. -/
def tornExport : List ReadStep := [.stmt, .stmt, .commit afterBatch, .stmt]

theorem run_untornExport :
    (run ReadRun.step (ReadRun.start beforeBatch (readRequest 0 5 1 .exportNote)) untornExport).map
      ReadRun.exportedBody = some (some "new") := by
  decide +kernel

theorem run_tornExport :
    (run ReadRun.step (ReadRun.start beforeBatch (readRequest 0 5 1 .exportNote)) tornExport).map
      (fun s => (s.exportedBody, s.passed.map fun c => c.body 1)) =
      some (some "", [some "old", some "new"]) := by
  decide +kernel

theorem read_at_one_state_untorn :
    ∃ s id title,
      run ReadRun.step (ReadRun.start beforeBatch (readRequest 0 5 1 .exportNote)) untornExport =
        some s ∧
      s.rest = .done (.exported id title "new") ∧
      ∃ c ∈ s.passed, c.canRead 5 1 = true ∧ (Response.exported id title "new").Shows 1 c := by
  obtain ⟨s, hs, hbody⟩ := Option.map_eq_some_iff.mp run_untornExport
  obtain ⟨id, title, hdone⟩ := ReadRun.exists_of_exportedBody hbody
  exact ⟨s, id, title, hs, hdone, read_at_one_state (by decide +kernel) hs hdone⟩

/-- The export is empty, which the note never was: the old line is deleted in the
    lines that are read, and the new line is missing in the order. -/
theorem tornExport_never_committed :
    ∃ s id title,
      run ReadRun.step (ReadRun.start beforeBatch (readRequest 0 5 1 .exportNote)) tornExport =
        some s ∧
      s.rest = .done (.exported id title "") ∧
      ¬ ∃ c ∈ s.passed, (Response.exported id title "").Shows 1 c := by
  obtain ⟨s, hs, hend⟩ := Option.map_eq_some_iff.mp run_tornExport
  obtain ⟨hbody, hpassed⟩ := Prod.mk.inj hend
  obtain ⟨id, title, hdone⟩ := ReadRun.exists_of_exportedBody hbody
  refine ⟨s, id, title, hs, hdone, ?_⟩
  rintro ⟨c, hc, hshows⟩
  have hmem : some "" ∈ s.passed.map fun c => c.body 1 := List.mem_map.mpr ⟨c, hc, hshows⟩
  rw [hpassed] at hmem
  simp at hmem

end

end KeeplinSrv
