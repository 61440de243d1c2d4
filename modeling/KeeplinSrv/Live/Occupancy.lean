import KeeplinSrv.Live.Presence

/-!
# Who is in a note

A connection occupies a note from the moment it has joined it to the moment it deletes its
row, and is inside it once it has written the row. Only the two presence statements take a
connection out of the first state or into the second (`step_occupies`, `step_inside`).
-/

namespace KeeplinSrv

open Common

/-- The note whose row is still to be deleted. -/
def Visit.leaving? : Visit → Option Uuid
  | .unsubscribing n _ | .clearing n => some n
  | .nowhere | .entering .. | .touching _ | .dropping _ => none

/-- The connection is in the note, or has still to delete its row. -/
def Connection.occupies (k : Connection) (n : Uuid) : Bool :=
  (k.joined.get? n).isSome || k.task.rest.any (fun rest => (rest.get? n).isSome) ||
    decide (k.task.visit.leaving? = some n)

/-- The connection is in the note, and has written its row. -/
def Connection.inside (k : Connection) (n : Uuid) : Bool :=
  (k.joined.get? n).isSome && decide (k.task.visit ≠ .touching n)

/-- A connection that deletes a row is in the note no more. -/
def Connection.Left (k : Connection) : Prop :=
  ∀ n, k.task.visit.leaving? = some n → k.joined.get? n = none

theorem Connection.occupies_iff {k : Connection} {n : Uuid} :
    k.occupies n = true ↔ (k.joined.get? n).isSome ∨
      (∃ rest, k.task.rest = some rest ∧ (rest.get? n).isSome) ∨
        k.task.visit.leaving? = some n := by
  unfold Connection.occupies
  cases k.task.rest <;> simp [or_assoc]

theorem Connection.inside_iff {k : Connection} {n : Uuid} :
    k.inside n = true ↔ (k.joined.get? n).isSome ∧ k.task.visit ≠ .touching n := by
  unfold Connection.inside
  rw [Bool.and_eq_true, decide_eq_true_iff]

namespace Server

variable {core : KeeplinCore} {instanceId : Uuid} {s s' : Server} {c d : ℕ} {l : ServerStep}
  {n : Uuid}

/-- The row of a connection is no more its own once it has been deleted. -/
theorem Visits.occupies (hv : Visits c l s s') (h : (s.conns c).occupies n = true) :
    (s'.conns c).occupies n = true ∨ (∃ rest, (s.conns c).task = .clearPresence n rest) ∧
      ((∃ now, l = .go c now) ∨ ∃ handled, l = .fail c handled) := by
  rw [Connection.occupies_iff] at h ⊢
  cases hv with
  | stay hk =>
    rw [hk.joined, hk.rest, hk.visit]
    exact .inl h
  | enter hbefore hk | cursor hbefore _ hk =>
    rw [hbefore.1] at h
    rw [hk.joined, hk.rest]
    exact .inl (h.imp_right fun h => .inl (h.resolve_right (by simp [Visit.leaving?])))
  | abandon hbefore _ hk | drop hbefore hk =>
    rw [hbefore] at h
    rw [hk.joined, hk.rest]
    exact .inl (h.imp_right fun h => .inl (h.resolve_right (by simp [Visit.leaving?])))
  | touch hbefore _ hk =>
    have hvisit : (s.conns c).task.visit.leaving? = none := by rw [hbefore]; rfl
    rw [hvisit] at h
    rw [hk.joined, hk.rest]
    exact .inl (h.imp_right fun h => .inl (h.resolve_right (by simp)))
  | @join m i hbefore _ hrest hjoined =>
    rw [hbefore] at h
    rw [hjoined, hrest]
    left
    rcases h with h | h | h
    · refine .inl ?_
      rw [FinMap.get?_insert]
      split_ifs
      · rfl
      · exact h
    · exact .inr (.inl h)
    · cases h
  | @leave m i hbefore _ hvisit _ hjoined =>
    rw [hbefore.1, hbefore.2] at h
    rw [hvisit, hjoined]
    left
    rcases h with h | ⟨rest, hrest, -⟩ | h
    · by_cases hm : n = m
      · exact .inr (.inr (hm ▸ rfl))
      · refine .inl ?_
        rwa [FinMap.get?_erase, if_neg (by simpa using hm)]
    · cases hrest
    · cases h
  | close hbefore _ hrest _ =>
    rw [hbefore.1, hbefore.2] at h
    rw [hrest]
    left
    rcases h with h | ⟨rest, hnone, -⟩ | h
    · exact .inr (.inl ⟨_, rfl, h⟩)
    · cases hnone
    · cases h
  | @pick m i rest hbefore hleaving _ hvisit hrest hjoined =>
    rw [hbefore, hleaving] at h
    rw [hvisit, hrest, hjoined]
    left
    rcases h with h | ⟨rest', hrest', h⟩ | h
    · exact .inl h
    · obtain rfl := Option.some.inj hrest'
      by_cases hm : n = m
      · exact .inr (.inr (hm ▸ rfl))
      · refine .inr (.inl ⟨_, rfl, ?_⟩)
        rwa [FinMap.get?_erase, if_neg (by simpa using hm)]
    · cases h
  | unsubscribe hbefore hk =>
    rw [hbefore] at h
    rw [hk.joined, hk.rest, hk.visit]
    exact .inl h
  | @clear m rest hbefore hl hk =>
    rw [hk.joined, hk.rest]
    rcases h with h | h | h
    · exact .inl (.inl h)
    · exact .inl (.inr (.inl h))
    · rw [hbefore] at h
      obtain rfl := Option.some.inj h
      exact .inr ⟨⟨rest, hbefore⟩, hl⟩

/-- Whoever is in a note after a step has been there before, or has just written his row. -/
theorem Visits.inside (hv : Visits c l s s') (h : (s'.conns c).inside n = true) :
    (s.conns c).inside n = true ∨ (s.conns c).task = .touchPresence n ∧
      ((∃ now, l = .go c now) ∨ ∃ handled, l = .fail c handled) := by
  rw [Connection.inside_iff] at h ⊢
  cases hv with
  | stay hk =>
    rw [hk.joined, hk.visit] at h
    exact .inl h
  | enter hbefore hk | cursor hbefore _ hk =>
    rw [hk.joined] at h
    rw [hbefore.1]
    exact .inl ⟨h.1, by simp⟩
  | abandon hbefore _ hk | drop hbefore hk | unsubscribe hbefore hk =>
    rw [hk.joined] at h
    rw [hbefore]
    exact .inl ⟨h.1, by simp⟩
  | @touch m hbefore hl hk =>
    rw [hk.joined] at h
    by_cases hm : m = n
    · exact .inr ⟨hm ▸ hbefore, hl⟩
    · refine .inl ⟨h.1, ?_⟩
      rw [hbefore]
      simpa [Task.visit] using hm
  | @join m i hbefore hvisit _ hjoined =>
    rw [hjoined, hvisit, FinMap.get?_insert] at h
    rw [hbefore]
    split_ifs at h with hm
    · exact absurd (congrArg Visit.touching hm.symm) h.2
    · exact .inl ⟨h.1, by simp⟩
  | @leave m i hbefore _ _ _ hjoined =>
    rw [hjoined, FinMap.get?_erase] at h
    rw [hbefore.1]
    split_ifs at h
    · cases h.1
    · exact .inl ⟨h.1, by simp⟩
  | close _ _ _ hjoined =>
    rw [hjoined] at h
    cases h.1
  | pick hbefore _ _ _ _ hjoined =>
    rw [hjoined] at h
    rw [hbefore]
    exact .inl ⟨h.1, by simp⟩
  | clear hbefore _ hk =>
    rw [hk.joined] at h
    rw [hbefore]
    exact .inl ⟨h.1, by simp [Task.visit]⟩

theorem Visits.left (hv : Visits c l s s') (hh : s.Houses c (s.conns c))
    (h : (s.conns c).Left) : (s'.conns c).Left := by
  intro m hm
  cases hv with
  | stay hk =>
    rw [hk.visit] at hm
    rw [hk.joined]
    exact h m hm
  | enter _ hk | abandon _ _ hk | cursor _ _ hk | touch _ _ hk | clear _ _ hk | drop _ hk =>
    rw [hk.visit] at hm
    cases hm
  | join _ hvisit =>
    rw [hvisit] at hm
    cases hm
  | leave _ _ hvisit _ hjoined =>
    rw [hvisit] at hm
    obtain rfl := Option.some.inj hm
    rw [hjoined, FinMap.get?_erase, if_pos (Finset.mem_singleton_self _)]
  | close _ _ _ hjoined =>
    rw [hjoined]
    rfl
  | pick _ hleaving _ _ _ hjoined =>
    rw [hjoined, hh.closing _ hleaving]
    rfl
  | unsubscribe hbefore hk =>
    rw [hk.visit] at hm
    rw [hk.joined]
    refine h m ?_
    rw [hbefore]
    exact hm

/-! ### The user of a connection -/

theorem userId_setConn {h : Hub} {k : Connection} (hk : k.userId = (h.conns c).userId) (d : ℕ) :
    ((h.setConn c k).conns d).userId = (h.conns d).userId := by
  rw [Hub.conns_setConn, Function.update_apply]
  split_ifs with hd
  · rw [hk, hd]
  · rfl

theorem userId_goto {h : Hub} {t : Task} (d : ℕ) :
    ((h.goto c t).conns d).userId = (h.conns d).userId :=
  userId_setConn (k := { h.conns c with task := t }) rfl d

theorem userId_broadcast {h : Hub} {i : ℕ} {msg : CollabServerMsg} {skip : Option ℕ} (d : ℕ) :
    ((h.broadcast i msg skip).conns d).userId = (h.conns d).userId := by
  unfold Hub.broadcast Connection.offer
  dsimp only
  split_ifs <;> rfl

theorem userId_dropSlow {h : Hub} {i : ℕ} {slow : Finset ℕ} (d : ℕ) :
    ((h.dropSlow i slow).conns d).userId = (h.conns d).userId := by
  unfold Hub.dropSlow
  dsimp only
  split_ifs <;> rfl

/-- The user of a connection stays the same. -/
theorem step_userId (h : s.step core instanceId l = some s') (hd : d < s.nextConnId) :
    (s'.conns d).userId = (s.conns d).userId := by
  cases step_stepped h with
  | move _ hm => exact userId_setConn hm.userId d
  | @write c =>
    exact userId_setConn (k := { s.conns c with taken := (s.conns c).taken + 1 }) rfl d
  | connect userId deviceId =>
    dsimp only
    rw [Function.update_of_ne (Nat.ne_of_lt hd)]
  | joinExisting | joinAcquire | opAcquire | readLines | opEvent | opNotify | opAbandon
  | unsubscribe => exact userId_goto d
  | @create c n =>
    exact userId_setConn (k := { s.conns c with task := .joinLock n s.nextSession }) rfl d
  | @subscribed c n i seen snapshot =>
    obtain ⟨k, hk, hconns⟩ := @subscribed_conns s c i n seen snapshot
    have huser := userId_setConn (h := s.toHub) (c := c) (k := { k with
      joined := (s.conns c).joined.insert n i
      feeds := (s.conns c).feeds.insert n ⟨i, seen, false⟩
      task := .touchPresence n }) hk.userId d
    rw [Hub.conns_setConn, ← hconns] at huser
    exact huser
  | release _ _ hk | commitNothing _ hk | commit _ hk =>
    exact (userId_goto d).trans (userId_setConn hk.userId d)
  | broadcastOp | presence => exact (userId_goto d).trans (userId_broadcast d)
  | opSlow | presenceSlow => exact (userId_goto d).trans (userId_dropSlow d)
  | dropIfEmpty => exact (userId_goto d).trans (by rw [Hub.conns_dropIfEmpty])

end Server

/-! ## A step of the bus -/

namespace Node

variable {i : Uuid} {x : Shared} {n n' : Node} {l : ListenerStep}

theorem go_userId (h : n.go x = some n') (d : ℕ) :
    (n'.hub.conns d).userId = (n.hub.conns d).userId := by
  unfold go at h
  split at h
  · obtain ⟨e, he, rfl⟩ := Option.map_eq_some_iff.mp h
    rfl
  · split at h <;> obtain rfl := Option.some.inj h <;> rfl
  · obtain ⟨hub, hlock, rfl⟩ := Option.map_eq_some_iff.mp h
    unfold Hub.lock at hlock
    split_ifs at hlock
    obtain rfl := Option.some.inj hlock
    rfl
  · obtain rfl := Option.some.inj h
    exact Server.userId_broadcast d
  · obtain rfl := Option.some.inj h
    exact Server.userId_dropSlow d
  · split at h <;> obtain rfl := Option.some.inj h <;> rfl
  · obtain rfl := Option.some.inj h
    exact Server.userId_broadcast d
  · obtain rfl := Option.some.inj h
    exact Server.userId_dropSlow d
  · cases h
  · cases h

theorem listen_userId (h : n.listen i x l = some n') (d : ℕ) :
    (n'.hub.conns d).userId = (n.hub.conns d).userId := by
  cases l with
  | go => exact go_userId h d
  | recv =>
    simp only [listen] at h
    split at h
    · obtain ⟨p, hp, rfl⟩ := Option.map_eq_some_iff.mp h
      rfl
    · cases h
  | connect | disconnect | recvPresence noteId | fail =>
    simp only [listen] at h
    split at h
    all_goals first
      | cases h
        done
      | obtain rfl := Option.some.inj h
        rfl

end Node

namespace Task

variable {i : Uuid} {c : ℕ} {t : Task}

theorem touching_of_upsert {key : PresenceKey} {b : Bus}
    (h : ((b.nodes i).hub.conns c).task.presenceStmt i c = some (.upsert key)) :
    ((b.nodes key.instanceId).hub.conns key.connId).task = .touchPresence key.noteId := by
  cases ht : ((b.nodes i).hub.conns c).task with
  | touchPresence n =>
    rw [ht] at h
    cases h
    exact ht
  | _ =>
    rw [ht] at h
    cases h

theorem clearing_of_delete {key : PresenceKey} {b : Bus}
    (h : ((b.nodes i).hub.conns c).task.presenceStmt i c = some (.delete key)) :
    ((b.nodes key.instanceId).hub.conns key.connId).task.visit = .clearing key.noteId := by
  cases ht : ((b.nodes i).hub.conns c).task with
  | clearPresence n rest =>
    rw [ht] at h
    cases h
    exact congrArg Task.visit ht
  | _ =>
    rw [ht] at h
    cases h

theorem key_of_presenceStmt {stmt : PresenceStmt} (h : t.presenceStmt i c = some stmt) :
    stmt.key.instanceId = i := by
  cases t with
  | touchPresence n | clearPresence n rest =>
    cases h
    rfl
  | _ => cases h

end Task

namespace Bus

variable {core : KeeplinCore} {b b' : Bus} {l : BusStep} {i : Uuid} {c : ℕ} {n : Uuid}

/-- What a step of the bus is to a connection: it is its own turn, the connection comes into
    being, or it stays where it is. -/
inductive Concerns (i : Uuid) (c : ℕ) (b : Bus) (l : BusStep) (b' : Bus) : Prop
  | visit {l' : ServerStep} {s : Server} (hl : l = .server i l')
      (hv : Server.Visits c l' (b.server i) s) (hconn : (b'.nodes i).hub.conns c = s.conns c)
  | new (hc : c = (b.nodes i).hub.nextConnId)
      (htask : ((b'.nodes i).hub.conns c).task = .idle)
      (hjoined : ((b'.nodes i).hub.conns c).joined = .empty)
  | same (htask : ((b'.nodes i).hub.conns c).task = ((b.nodes i).hub.conns c).task)
      (hjoined : ((b'.nodes i).hub.conns c).joined = ((b.nodes i).hub.conns c).joined)

theorem step_concerns (hstep : b.step core l = some b') (i : Uuid) (c : ℕ) :
    Concerns i c b l b' := by
  cases l with
  | server j l =>
    obtain ⟨s, hs, rfl⟩ := Option.map_eq_some_iff.mp hstep
    by_cases hij : i = j
    · subst hij
      have hnode : ((b.withServer i s).nodes i).hub = s.toHub := by simp [withServer]
      cases hc : l.conn with
      | none =>
        cases l with
        | connect userId deviceId =>
          obtain rfl := Option.some.inj hs
          by_cases hnew : c = (b.nodes i).hub.nextConnId
          · subst hnew
            refine .new rfl ?_ ?_
            · rw [hnode]
              simp [server]
            · rw [hnode]
              simp [server]
          · refine .same ?_ ?_
            · rw [hnode]
              simp [server, Function.update_of_ne hnew]
            · rw [hnode]
              simp [server, Function.update_of_ne hnew]
        | _ => cases hc
      | some d =>
        by_cases hcd : c = d
        · subst hcd
          exact .visit rfl (Server.step_visits hs hc) (by rw [hnode])
        · have hothers := (Server.step_turn hs hc).others c hcd
          refine .same ?_ ?_
          · rw [hnode]
            exact hothers.1
          · rw [hnode]
            exact hothers.2
    · have hnode : (b.withServer j s).nodes i = b.nodes i := by simp [withServer, hij]
      exact .same (by rw [hnode]) (by rw [hnode])
  | listen j l =>
    obtain ⟨m, hm, rfl⟩ := Option.map_eq_some_iff.mp hstep
    by_cases hij : i = j
    · subst hij
      have hturn := Node.listen_turn hm
      exact .same (by simpa using hturn.task c) (by simpa using hturn.joined c)
    · exact .same (by simp [Function.update_of_ne hij]) (by simp [Function.update_of_ne hij])

/-- A connection keeps its user, and its number. -/
theorem step_conn (hstep : b.step core l = some b') (hc : c < (b.nodes i).hub.nextConnId) :
    c < (b'.nodes i).hub.nextConnId ∧
      ((b'.nodes i).hub.conns c).userId = ((b.nodes i).hub.conns c).userId := by
  cases l with
  | server j l =>
    obtain ⟨s, hs, rfl⟩ := Option.map_eq_some_iff.mp hstep
    by_cases hij : i = j
    · subst hij
      have hnode : ((b.withServer i s).nodes i).hub = s.toHub := by simp [withServer]
      have hnext : (b.nodes i).hub.nextConnId ≤ s.nextConnId := by
        cases hl : l.conn with
        | none =>
          cases l with
          | connect userId deviceId =>
            obtain rfl := Option.some.inj hs
            exact Nat.le_succ _
          | _ => cases hl
        | some d => exact (Server.step_turn hs hl).nextConnId.ge
      rw [hnode]
      exact ⟨hc.trans_le hnext, Server.step_userId hs hc⟩
    · have hnode : (b.withServer j s).nodes i = b.nodes i := by simp [withServer, hij]
      rw [hnode]
      exact ⟨hc, rfl⟩
  | listen j l =>
    obtain ⟨m, hm, rfl⟩ := Option.map_eq_some_iff.mp hstep
    by_cases hij : i = j
    · subst hij
      dsimp only
      rw [Function.update_self, (Node.listen_turn hm).nextConnId]
      exact ⟨hc, Node.listen_userId hm c⟩
    · dsimp only
      rw [Function.update_of_ne hij]
      exact ⟨hc, rfl⟩

theorem step_occupies (hstep : b.step core l = some b') (hh : b.Housed)
    (h : ((b.nodes i).hub.conns c).occupies n = true) :
    ((b'.nodes i).hub.conns c).occupies n = true ∨
      b.presenceStmt l = some (.delete ⟨n, i, c⟩) := by
  cases step_concerns hstep i c with
  | visit hl hv hconn =>
    rw [hconn]
    rcases hv.occupies h with h | ⟨⟨rest, ht⟩, ⟨now, rfl⟩ | ⟨handled, rfl⟩⟩
    · exact .inl h
    · right
      subst hl
      exact congrArg (Task.presenceStmt i c) ht
    · right
      subst hl
      exact congrArg (Task.presenceStmt i c) ht
  | new hc =>
    have hclosed := (hh i).absent c hc.ge
    have hrest : ((b.nodes i).hub.conns c).task.rest = some .empty := by rw [hclosed]; rfl
    rw [Connection.occupies_iff, ((hh i).conn c).closing _ hrest, hclosed] at h
    rcases h with h | ⟨rest, hr, h⟩ | h
    · cases h
    · obtain rfl := Option.some.inj hr
      cases h
    · cases h
  | same htask hjoined =>
    left
    rw [Connection.occupies_iff] at h ⊢
    rwa [htask, hjoined]

theorem step_inside (hstep : b.step core l = some b')
    (h : ((b'.nodes i).hub.conns c).inside n = true) :
    ((b.nodes i).hub.conns c).inside n = true ∨
      b.presenceStmt l = some (.upsert ⟨n, i, c⟩) := by
  cases step_concerns hstep i c with
  | visit hl hv hconn =>
    rw [hconn] at h
    rcases hv.inside h with h | ⟨ht, ⟨now, rfl⟩ | ⟨handled, rfl⟩⟩
    · exact .inl h
    · right
      subst hl
      exact congrArg (Task.presenceStmt i c) ht
    · right
      subst hl
      exact congrArg (Task.presenceStmt i c) ht
  | new _ _ hjoined =>
    rw [Connection.inside_iff, hjoined] at h
    cases h.1
  | same htask hjoined =>
    left
    rw [Connection.inside_iff] at h ⊢
    rwa [← htask, ← hjoined]

theorem step_left (hstep : b.step core l = some b') (hh : b.Housed)
    (h : ((b.nodes i).hub.conns c).Left) : ((b'.nodes i).hub.conns c).Left := by
  cases step_concerns hstep i c with
  | visit hl hv hconn =>
    rw [hconn]
    exact hv.left ((hh i).conn c) h
  | new _ htask =>
    intro m hm
    rw [htask] at hm
    cases hm
  | same htask hjoined =>
    intro m hm
    rw [htask] at hm
    rw [hjoined]
    exact h m hm

/-- The await point at which a row is written. -/
theorem touching_of_upsert {key : PresenceKey} (h : b.presenceStmt l = some (.upsert key)) :
    ((b.nodes key.instanceId).hub.conns key.connId).task = .touchPresence key.noteId := by
  unfold presenceStmt at h
  split at h
  · exact Task.touching_of_upsert h
  · exact Task.touching_of_upsert h
  · cases h
  · cases h

/-- The await point at which a row is deleted. -/
theorem clearing_of_delete {key : PresenceKey} (h : b.presenceStmt l = some (.delete key)) :
    ((b.nodes key.instanceId).hub.conns key.connId).task.visit = .clearing key.noteId := by
  unfold presenceStmt at h
  split at h
  · exact Task.clearing_of_delete h
  · exact Task.clearing_of_delete h
  · cases h
  · cases h

end Bus

end KeeplinSrv
