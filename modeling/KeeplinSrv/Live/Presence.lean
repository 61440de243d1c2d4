import KeeplinSrv.Common.Query
import KeeplinSrv.Live.Registry

/-!
# Presence

Every connection that is in a note has a row in `collab_presence`, whichever instance it is
connected to (`0010_collab_bus.sql`). A `Join` and a `Cursor` upsert the row, a `Leave` and
a disconnect delete it (`touch_presence`, `clear_presence` in `collab.rs`). An instance that
dies leaves its rows behind: the others sweep them once they are 150 s old, and every
instance keeps its own from growing old by a heartbeat (`maintenance_loop` in `main.rs`).
Clients are shown one entry for each user with a row (`deliver_presence`).

The machine is the bus with the table beside it: the steps that execute `upsert_presence`
and `delete_presence` are those of `Server.step` at `touchPresence` and `clearPresence`.
-/

namespace KeeplinSrv

open Common

/-! ## The table -/

structure Cursor where
  lineId : Uuid
  column : ℕ
  deriving DecidableEq

structure PresenceKey where
  noteId : Uuid
  instanceId : Uuid
  connId : ℕ
  deriving DecidableEq

/-- A row of `collab_presence`. The cursor, which is there as JSON, comes back as it was. -/
structure PresenceRow where
  userId : Uuid
  displayName : String
  cursor : Option Cursor
  updatedAt : DateTime
  deriving DecidableEq

structure PresenceInfo where
  userId : String
  displayName : String
  cursor : Option Cursor
  deriving DecidableEq

/-- `collab_presence`. -/
abbrev CollabPresence := FinMap PresenceKey PresenceRow

namespace CollabPresence

variable (rows : CollabPresence) (key : PresenceKey)

/-- The row that `upsert_presence` leaves. -/
def upserted (userId : Uuid) (displayName : String) (cursor : Option Cursor) (now : DateTime) :
    PresenceRow :=
  match rows.get? key with
  | some row => { row with displayName, cursor, updatedAt := now }
  | none => ⟨userId, displayName, cursor, now⟩

/-- `upsert_presence`. -/
def upsertPresence (userId : Uuid) (displayName : String) (cursor : Option Cursor)
    (now : DateTime) : CollabPresence :=
  rows.insert key (rows.upserted key userId displayName cursor now)

/-- `delete_presence`. -/
def deletePresence : CollabPresence := rows.erase {key}

/-- `touch_instance_presence`. -/
def touchInstancePresence (instanceId : Uuid) (now : DateTime) : CollabPresence :=
  .overlay (fun key => key.instanceId = instanceId) (rows.map ({ · with updatedAt := now })) rows

/-- `sweep_presence`. -/
def sweepPresence (olderThan : DateTime) : CollabPresence :=
  rows.remove fun _ row => row.updatedAt < olderThan

/-- `delete_instance_presence`. -/
def deleteInstancePresence (instanceId : Uuid) : CollabPresence :=
  rows.remove fun key _ => key.instanceId = instanceId

/-- What `list_presence` may return: the rows of the note, in any order. -/
def Lists (noteId : Uuid) (found : List PresenceRow) : Prop :=
  (found : Multiset PresenceRow) = (rows.rows.filter (·.1.noteId = noteId)).map Prod.snd

end CollabPresence

/-- What `deliver_presence` makes of one row: the first of a user names him, and the first
    with a cursor places him. -/
def addPresence (byUser : FinMap Uuid PresenceInfo) (row : PresenceRow) :
    FinMap Uuid PresenceInfo :=
  byUser.insert row.userId <|
    match byUser.get? row.userId with
    | some p => if p.cursor = none then { p with cursor := row.cursor } else p
    | none => ⟨row.userId.toString, row.displayName, row.cursor⟩

/-- The users that a `Presence` message lists; `into_values` drops the keys. -/
def presenceByUser (rows : List PresenceRow) : FinMap Uuid PresenceInfo :=
  rows.foldl addPresence .empty

/-! ## The instances and the table -/

/-- The interval after which a row is stale, `PRESENCE_TTL_SECS`. -/
def presenceTtl : ℤ := 150 * 1_000_000

/-- The presence statements of a handler. -/
inductive PresenceStmt
  | upsert (key : PresenceKey)
  | delete (key : PresenceKey)
  deriving DecidableEq

def PresenceStmt.key : PresenceStmt → PresenceKey
  | .upsert key | .delete key => key

def Task.presenceStmt (instanceId : Uuid) (c : ℕ) : Task → Option PresenceStmt
  | .touchPresence noteId => some (.upsert ⟨noteId, instanceId, c⟩)
  | .clearPresence noteId _ => some (.delete ⟨noteId, instanceId, c⟩)
  | .idle | .closed | .joinAccess _ | .joinSession _ | .joinLock .. | .joinOrder ..
  | .joinLines .. | .joinSubscribe .. | .announce .. | .presence .. | .presenceSlow ..
  | .leaving _ | .unsubscribe .. | .dropIfEmpty .. | .opAccess .. | .opLock .. | .opOrderLock ..
  | .opApply .. | .opBroadcast .. | .opSlow .. | .opEvent .. | .opNotify .. => none

/-- The presence statement that a step executes, or that fails in it. -/
def Bus.presenceStmt (b : Bus) : BusStep → Option PresenceStmt
  | .server i (.go c _) | .server i (.fail c _) =>
    ((b.nodes i).hub.conns c).task.presenceStmt i c
  | .server .. | .listen .. => none

/-- The statement of the step fails. -/
def BusStep.fails : BusStep → Bool
  | .server _ (.fail ..) => true
  | .server .. | .listen .. => false

/-- What a step of the handlers brings besides: the name of the user who connects, the
    cursor of a `Cursor` message, and whether a statement that fails has taken effect. -/
structure Brought where
  displayName : String
  cursor : Cursor
  written : Bool

/-- The instances, the table, and what `run_connection` knows of each connection: the
    name of its user and the cursor that it is about to write. No step reads `ghosts`,
    `unwritten` and `beats`: the rows whose deletion has failed, the rows that could not be
    written or have been swept, and the time of the last heartbeat of each instance. -/
structure PresenceSite where
  bus : Bus
  collabPresence : CollabPresence
  displayNames : Uuid → ℕ → String
  cursors : Uuid → ℕ → Option Cursor
  clock : DateTime
  ghosts : Finset PresenceKey
  unwritten : Finset PresenceKey
  beats : Uuid → DateTime

/-- A step of the bus; `delete_instance_presence` as an instance starts; the heartbeat of an
    instance; a sweep; time passes. -/
inductive PresenceStep
  | bus (l : BusStep) (brought : Brought)
  | cleanup (instanceId : Uuid)
  | heartbeat (instanceId : Uuid)
  | sweep (stale : DateTime)
  | tick (elapsed : ℕ)

/-- The instance whose step it is; a sweep may be any other's. -/
def PresenceStep.instance? : PresenceStep → Option Uuid
  | .bus (.server i _) _ | .bus (.listen i _) _ | .cleanup i | .heartbeat i => some i
  | .sweep _ | .tick _ => none

namespace PresenceSite

variable (core : KeeplinCore) (s : PresenceSite)

/-- Before any instance has started. -/
def init (db : Db) (now : DateTime) : PresenceSite :=
  ⟨.init db, .empty, fun _ _ => "", fun _ _ => none, now, ∅, ∅, fun _ => now⟩

def conn (key : PresenceKey) : Connection := (s.bus.nodes key.instanceId).hub.conns key.connId

/-- What the handlers learn. -/
def hear (brought : Brought) : BusStep → PresenceSite
  | .server i (.connect ..) => { s with
      displayNames := Function.update s.displayNames i <|
        Function.update (s.displayNames i) (s.bus.nodes i).hub.nextConnId brought.displayName }
  | .server i (.recv c (.cursor _)) => { s with
      cursors := Function.update s.cursors i <|
        Function.update (s.cursors i) c (some brought.cursor) }
  | .server i (.go c _) =>
    match ((s.bus.nodes i).hub.conns c).task with
    | .joinSubscribe .. => { s with
        cursors := Function.update s.cursors i <| Function.update (s.cursors i) c none }
    | _ => s
  | .server .. | .listen .. => s

/-- A presence statement is executed. -/
def exec : PresenceStmt → PresenceSite
  | .upsert key => { s with
      collabPresence := s.collabPresence.upsertPresence key (s.conn key).userId
        (s.displayNames key.instanceId key.connId) (s.cursors key.instanceId key.connId) s.clock
      ghosts := s.ghosts.erase key
      unwritten := s.unwritten.erase key }
  | .delete key => { s with
      collabPresence := s.collabPresence.deletePresence key, ghosts := s.ghosts.erase key }

/-- A presence statement fails. -/
def lose : PresenceStmt → PresenceSite
  | .upsert key => { s with unwritten := insert key s.unwritten }
  | .delete key => { s with ghosts := insert key s.ghosts }

/-- The presence statement of a step. -/
def runStmt (l : BusStep) (brought : Brought) : PresenceSite :=
  match s.bus.presenceStmt l with
  | some stmt => if l.fails && !brought.written then s.lose stmt else s.exec stmt
  | none => s

/-- One step. -/
def step (s : PresenceSite) : PresenceStep → Option PresenceSite
  | .bus l brought => (s.bus.step core l).map fun bus =>
      { (s.runStmt l brought).hear brought l with bus }
  | .cleanup i =>
    if (s.bus.nodes i).hub.nextConnId = 0 then
      some { s with collabPresence := s.collabPresence.deleteInstancePresence i }
    else none
  | .heartbeat i => some { s with
      collabPresence := s.collabPresence.touchInstancePresence i s.clock
      beats := Function.update s.beats i s.clock }
  | .sweep stale =>
    if stale ≤ s.clock - presenceTtl then
      let swept := s.collabPresence.sweepPresence stale
      some { s with
        collabPresence := swept
        unwritten := s.unwritten ∪ s.collabPresence.keys.filter (· ∉ swept.keys) }
    else none
  | .tick elapsed => some { s with clock := s.clock + elapsed }

/-- A statement of a handler fails, or a sweep takes a row. -/
def disturbed (s : PresenceSite) : PresenceStep → Bool
  | .bus l _ => l.fails
  | .sweep stale => (s.collabPresence.sweepPresence stale).keys ≠ s.collabPresence.keys
  | .cleanup _ | .heartbeat _ | .tick _ => false

end PresenceSite

/-! ## What clients are shown -/

theorem presenceByUser_concat (rows : List PresenceRow) (row : PresenceRow) :
    presenceByUser (rows ++ [row]) = addPresence (presenceByUser rows) row := by
  rw [presenceByUser, List.foldl_append]
  rfl

/-- A user is shown once, under the name in his first row, at the first place in his rows. -/
theorem get?_presenceByUser (rows : List PresenceRow) (u : Uuid) :
    (presenceByUser rows).get? u = (rows.filter (·.userId = u)).head?.map fun row =>
      ⟨u.toString, row.displayName, (rows.filter (·.userId = u)).findSome? (·.cursor)⟩ := by
  induction rows using List.reverseRecOn with
  | nil => rfl
  | append_singleton rows row ih =>
    rw [presenceByUser_concat, addPresence, FinMap.get?_insert, List.filter_append]
    by_cases hu : row.userId = u
    · subst hu
      rw [if_pos rfl, ih, List.filter_singleton, decide_eq_true rfl, cond_true,
        List.findSome?_append, List.head?_append]
      cases (rows.filter (·.userId = row.userId)) with
      | nil => simp
      | cons first rest =>
        simp only [List.head?_cons, Option.map_some, Option.some_or]
        cases hcursor : (first :: rest).findSome? (·.cursor) <;> simp
    · rw [if_neg (Ne.symm hu), ih, List.filter_singleton, decide_eq_false hu]
      simp

theorem CollabPresence.Lists.mem {rows : CollabPresence} {n : Uuid} {found : List PresenceRow}
    (h : rows.Lists n found) {row : PresenceRow} :
    row ∈ found ↔ ∃ key, key.noteId = n ∧ rows.get? key = some row := by
  have hmem : row ∈ (found : Multiset PresenceRow) ↔
      row ∈ (rows.rows.filter (·.1.noteId = n)).map Prod.snd := by rw [h]
  rw [Multiset.mem_coe] at hmem
  rw [hmem, Multiset.mem_map]
  constructor
  · rintro ⟨⟨key, row⟩, hrow, rfl⟩
    rw [Multiset.mem_filter, FinMap.mem_rows] at hrow
    exact ⟨key, hrow.2, hrow.1⟩
  · rintro ⟨key, hn, hrow⟩
    refine ⟨⟨key, row⟩, ?_, rfl⟩
    rw [Multiset.mem_filter, FinMap.mem_rows]
    exact ⟨hrow, hn⟩

/-- Whoever is shown has a row, and the name is the one in it. -/
theorem exists_row_of_shown {rows : List PresenceRow} {u : Uuid} {p : PresenceInfo}
    (h : (presenceByUser rows).get? u = some p) :
    ∃ row ∈ rows, row.userId = u ∧ p.displayName = row.displayName := by
  rw [get?_presenceByUser] at h
  obtain ⟨row, hrow, rfl⟩ := Option.map_eq_some_iff.mp h
  have hmem := List.mem_filter.mp (List.mem_of_head? hrow)
  exact ⟨row, hmem.1, of_decide_eq_true hmem.2, rfl⟩

/-- Whoever has a row is shown, and with a cursor if there is one in the row. -/
theorem shown_of_row {rows : List PresenceRow} {row : PresenceRow} (h : row ∈ rows) :
    ∃ p, (presenceByUser rows).get? row.userId = some p ∧
      (row.cursor.isSome → p.cursor.isSome) := by
  have hmem : row ∈ rows.filter (·.userId = row.userId) :=
    List.mem_filter.mpr ⟨h, decide_eq_true rfl⟩
  rw [get?_presenceByUser]
  cases hfilter : rows.filter (·.userId = row.userId) with
  | nil =>
    rw [hfilter] at hmem
    cases hmem
  | cons first rest =>
    refine ⟨_, rfl, fun hcursor => ?_⟩
    rw [← hfilter]
    exact List.findSome?_isSome_iff.mpr ⟨row, hmem, hcursor⟩

end KeeplinSrv
