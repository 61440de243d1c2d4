import KeeplinSrv.Core

/-!
# The collaborative wire types

The messages of `protocol.rs` that the collaborative channel acts on. Cursors,
acknowledgements and presence lists carry no note content and are left out.
-/

namespace KeeplinSrv

/-- `LineOp` (`protocol.rs`, lines 43–75). -/
inductive LineOp
  | insert (afterLineId : Option Uuid) (lineId : Uuid) (content : String) (vv : VersionVector)
      (lastWriter : String) (updatedAt : DateTime)
  | update (lineId : Uuid) (content : String) (vv : VersionVector) (lastWriter : String)
      (updatedAt : DateTime)
  | delete (lineId : Uuid) (deletedAt : DateTime) (vv : VersionVector) (lastWriter : String)
      (updatedAt : DateTime)
  | move (lineIds : List Uuid) (afterLineId : Option Uuid) (vv : VersionVector)
      (lastWriter : String) (updatedAt : DateTime)
  deriving DecidableEq

namespace LineOp

/-- `LineOp::last_writer` (`protocol.rs`, lines 80–87). -/
def lastWriter : LineOp → String
  | insert _ _ _ _ w _ | update _ _ _ w _ | delete _ _ _ w _ | move _ _ _ w _ => w

/-- The version vector the op carries. -/
def vv : LineOp → VersionVector
  | insert _ _ _ v _ _ | update _ _ v _ _ | delete _ _ v _ _ | move _ _ v _ _ => v

/-- The `updated_at` the op carries. -/
def updatedAt : LineOp → DateTime
  | insert _ _ _ _ _ t | update _ _ _ _ t | delete _ _ _ _ t | move _ _ _ _ t => t

end LineOp

/-- `LineSnapshot` (`protocol.rs`, lines 23–32). -/
structure LineSnapshot where
  id : Uuid
  content : String
  createdAt : DateTime
  updatedAt : DateTime
  deletedAt : Option DateTime
  vv : VersionVector
  lastWriter : String

/-- `NoteLinesSnapshot` (`protocol.rs`, lines 34–43); the lines are listed in no
    particular order. -/
structure NoteLinesSnapshot where
  noteId : Uuid
  order : List Uuid
  updatedAt : DateTime
  vv : VersionVector
  lastWriter : String
  lines : Common.FinMap Uuid LineSnapshot

end KeeplinSrv
