import KeeplinSrv.Live.OneRoom
import KeeplinSrv.Live.Replica

/-!
# Observers

A connection that has joined a note and only listens (`Stays`), while everybody who
edits the note does so in the session it has joined (`EditedIn`). The op messages it
is sent are the batches told of, in commit order and numbered upwards
(`Observed`), so the copy that starts from its `Welcome` follows the store batch by
batch (`observer_agrees`).

`Server.Effect` sums up what a step does that an observer could notice: most steps
are quiet, a batch is committed, or a committed batch is broadcast.
-/

namespace KeeplinSrv

open Common

/-! ## What an observer notices -/

/-- The note and the session in which the handler of an `Op` works. -/
def Task.editing : Task → Option (Uuid × ℕ)
  | .opAccess n i _ | .opLock n i _ | .opOrderLock n i _ | .opApply n i _
  | .opBroadcast n i _ _ | .opSlow n i _ _ _ => some (n, i)
  | _ => none

/-- A `Join` that has read the order of the note. -/
def Task.reading : Task → Bool
  | .joinLines .. | .joinSubscribe .. => true
  | _ => false

/-- The number and the ops of an `Op` message on the note. -/
def CollabServerMsg.opOn (noteId : Uuid) : CollabServerMsg → Option (ℕ × List LineOp)
  | .op serverSeq n _ ops _ => if n = noteId then some (serverSeq, ops) else none
  | .welcome .. | .presence _ | .error .. => none

/-- The `Op` messages on the note. -/
def heard (noteId : Uuid) (msgs : List CollabServerMsg) : List (ℕ × List LineOp) :=
  msgs.filterMap (CollabServerMsg.opOn noteId)

/-- What a step that neither commits nor broadcasts a batch makes of a task: the
    snapshot of a `Join` is read from the tables `db`. -/
structure Task.Quiet (db : Db) (t t' : Task) : Prop where
  broadcasting : t'.broadcasting = t.broadcasting
  order : ∀ n i o, t' = .joinLines n i o → t = t' ∨ db.noteLineOrder.get? n = some o
  lines : ∀ n i snapshot seen, t' = .joinSubscribe n i snapshot seen →
    t = t' ∨ ∃ o, t = .joinLines n i o ∧ snapshot = snapshotOf n o (db.linesOf n)

/-- Messages without an op batch are put into the queue. -/
def Connection.Extends (k k' : Connection) : Prop :=
  ∃ msgs, k'.sent = k.sent ++ msgs ∧ ∀ msg ∈ msgs, msg.batch? = none

section

variable {k : Connection} {t t' : Task} {db : Db}

theorem Connection.Extends.refl (k : Connection) : k.Extends k := ⟨[], by simp, by simp⟩

theorem Connection.Extends.offer {msg : CollabServerMsg} {i : ℕ} (h : msg.batch? = none) :
    k.Extends (k.offer msg i) := by
  unfold Connection.offer
  split_ifs
  · exact .refl k
  · refine ⟨[msg], rfl, fun m hm => ?_⟩
    obtain rfl := List.mem_singleton.mp hm
    exact h

theorem Task.Quiet.refl (t : Task) : t.Quiet db t :=
  ⟨rfl, fun _ _ _ _ => .inl rfl, fun _ _ _ _ _ => .inl rfl⟩

/-- Towards a task that is no part of a `Join`'s reading. -/
theorem Task.Quiet.of_not_reading (hb : t'.broadcasting = t.broadcasting)
    (hreading : t'.reading = false) : t.Quiet db t' := by
  refine ⟨hb, fun n i o ht => ?_, fun n i snapshot seen ht => ?_⟩
  · rw [ht] at hreading
    cases hreading
  · rw [ht] at hreading
    cases hreading

end

namespace Server

/-- Whoever edits the note does so in the session, and is not the observer. -/
def EditedIn (c : ℕ) (n : Uuid) (i : ℕ) (s : Server) : Prop :=
  ∀ d < s.nextConnId, ∀ p ∈ (s.conns d).task.editing, p.1 = n → p.2 = i ∧ d ≠ c

/-- The observer has joined the note in the session, and no full queue has cost it
    anything. -/
def Stays (c : ℕ) (n : Uuid) (i : ℕ) (s : Server) : Prop :=
  (s.conns c).joined.get? n = some i ∧ ((s.conns c).feeds.get? n).any fun f => !f.dropped

instance (c : ℕ) (n : Uuid) (i : ℕ) (s : Server) : Decidable (EditedIn c n i s) :=
  inferInstanceAs (Decidable (∀ d < s.nextConnId, _))

instance (c : ℕ) (n : Uuid) (i : ℕ) (s : Server) : Decidable (Stays c n i s) :=
  inferInstanceAs (Decidable (_ ∧ _))

/-- What a step does that an observer could notice. -/
inductive Effect (core : KeeplinCore) (s s' : Server) : Prop
  | quiet (hcommits : s'.commits = s.commits) (hdb : s'.db = s.db)
      (hseq : ∀ j < s.nextSession, (s'.sessions j).seq = (s.sessions j).seq)
      (hsent : ∀ d < s.nextConnId, (s.conns d).Extends (s'.conns d))
      (htask : ∀ d, (s.conns d).task.Quiet s.db (s'.conns d).task)
  | commit {e : ℕ} {x : Commit}
      (ht : (s.conns e).task = .opApply x.noteId x.session x.batch.ops)
      (hrun : runBatch core x.batch.now x.noteId x.batch.deviceId x.batch.ops s.db =
        .ok (x.outcomes, x.db))
      (hcommits : s'.commits = s.commits ++ [x]) (hdb : s'.db = x.db)
      (hseq : ∀ j, (s'.sessions j).seq = (s.sessions j).seq)
      (hconn : ∀ d, d ≠ e → s'.conns d = s.conns d)
      (hsent : (s.conns e).Extends (s'.conns e))
      (htask : (s'.conns e).task = if x.applied = [] then .idle
        else .opBroadcast x.noteId x.session x.applied s.commits.length)
  | broadcast {e : ℕ} {m : Uuid} {j : ℕ} {applied : List LineOp} {b : ℕ}
      (ht : (s.conns e).task = .opBroadcast m j applied b)
      (hs : s' = s.rooms (s.broadcastOp e m j applied b))

section

variable {core : KeeplinCore} {instanceId : Uuid} {s s' : Server} {l : ServerStep} {c d i : ℕ}
  {n : Uuid} {k : Connection} {db : Db} {t : Task}

/-- A quiet step in which the record of one connection is replaced. -/
theorem Effect.update (hconns : s'.conns = Function.update s.conns c k)
    (hcommits : s'.commits = s.commits) (hdb : s'.db = s.db)
    (hseq : ∀ j < s.nextSession, (s'.sessions j).seq = (s.sessions j).seq)
    (hsent : (s.conns c).Extends k) (htask : (s.conns c).task.Quiet s.db k.task) :
    Effect core s s' := by
  refine .quiet hcommits hdb hseq (fun d _ => ?_) fun d => ?_
  · rw [hconns, Function.update_apply]
    split_ifs with hd
    · exact hd ▸ hsent
    · exact .refl _
  · rw [hconns, Function.update_apply]
    split_ifs with hd
    · exact hd ▸ htask
    · exact .refl _

/-- A quiet step in which the handler of a connection goes on. -/
theorem Effect.goto (hconns : s'.conns = Function.update s.conns c { s.conns c with task := t })
    (hcommits : s'.commits = s.commits) (hdb : s'.db = s.db)
    (hseq : ∀ j < s.nextSession, (s'.sessions j).seq = (s.sessions j).seq)
    (htask : (s.conns c).task.Quiet s.db t) : Effect core s s' :=
  .update hconns hcommits hdb hseq (.refl _) htask

theorem seq_setSession {h : Hub} (i : ℕ) (x : CollabSession) (hx : x.seq = (h.sessions i).seq)
    (j : ℕ) : ((h.setSession i x).sessions j).seq = (h.sessions j).seq := by
  rw [Hub.sessions_setSession, Function.update_apply]
  split_ifs with hj
  · rw [hj, hx]
  · rfl

theorem quiet_afterPresence {after : AfterPresence} (hb : t.broadcasting = none) :
    t.Quiet db after.task := by
  cases after with
  | idle => exact .of_not_reading hb.symm rfl
  | dropIfEmpty n rest => exact .of_not_reading hb.symm rfl

/-- The slow subscribers are removed, and the handler goes on. -/
theorem Effect.goto_dropSlow {slow : Finset ℕ} {h : Hub} (hconns : h.conns = (s.dropSlow i slow).conns)
    (hseq : ∀ j, (h.sessions j).seq = (s.sessions j).seq) (htask : (s.conns c).task.Quiet s.db t) :
    Effect core s (s.rooms (h.goto c t)) := by
  have hdrop : ∀ d, ((s.dropSlow i slow).conns d).sent = (s.conns d).sent := by
    intro d
    simp only [Hub.dropSlow]
    split_ifs <;> rfl
  refine .quiet rfl rfl (fun j _ => hseq j) (fun d _ => ?_) fun d => ?_
  · simp only [rooms, Hub.conns_goto, hconns, Function.update_apply]
    split_ifs with hd
    · exact ⟨[], by rw [hd, hdrop, List.append_nil], by simp⟩
    · exact ⟨[], by rw [hdrop, List.append_nil], by simp⟩
  · simp only [rooms, Hub.conns_goto, hconns, Function.update_apply]
    split_ifs with hd
    · exact hd ▸ htask
    · rw [conns_dropSlow]
      exact .refl _

/-- **Every step is quiet, commits a batch or broadcasts one.** -/
theorem Stepped.effect (h : s.Sound) (hstep : Stepped core instanceId s l s') : Effect core s s' := by
  cases hstep with
  | @move c k locks hc hm hread =>
    refine .update rfl rfl rfl (fun _ _ => rfl) hm.sent ⟨?_, fun n i o ht => ?_, ?_⟩
    · rw [hm.broadcasting.1, hm.broadcasting.2]
    · exact .inr (hread n i o ht)
    · intro n i snapshot seen ht
      have hnone := hm.subscribing.2
      rw [ht] at hnone
      cases hnone
  | write => exact .update rfl rfl rfl (fun _ _ => rfl) (.refl _) (.refl _)
  | connect userId deviceId =>
    refine .quiet rfl rfl (fun _ _ => rfl) (fun d hd => ?_) fun d => ?_
    · simp only [Function.update_of_ne hd.ne]
      exact .refl _
    · simp only [Function.update_apply]
      split_ifs with hd
      · have hclosed : (s.conns d).task = .closed := by
          by_contra hne
          exact absurd ((h.conn d).live (.inl hne)) (by rw [hd]; exact lt_irrefl _)
        rw [hclosed]
        exact .of_not_reading rfl rfl
      · exact .refl _
  | joinExisting ht hr =>
    exact .goto rfl rfl rfl (fun _ _ => rfl) (.of_not_reading (by rw [ht]; rfl) rfl)
  | create ht hr =>
    refine .goto rfl rfl rfl (fun j hj => ?_) (.of_not_reading (by rw [ht]; rfl) rfl)
    exact congrArg CollabSession.seq (Function.update_of_ne hj.ne _ _)
  | @joinAcquire c n i ht hfree =>
    refine .goto rfl rfl rfl (fun j _ => ?_) (.of_not_reading (by rw [ht]; rfl) rfl)
    exact seq_setSession i { s.sessions i with applyLock := some (.conn c) } rfl j
  | @opAcquire c n i ops ht hfree =>
    refine .goto rfl rfl rfl (fun j _ => ?_) (.of_not_reading (by rw [ht]; rfl) rfl)
    exact seq_setSession i { s.sessions i with applyLock := some (.conn c) } rfl j
  | @readLines c n i o ht =>
    refine .goto rfl rfl rfl (fun _ _ => rfl) ⟨by rw [ht]; rfl, ?_, ?_⟩
    · intro n' i' o' htask
      cases htask
    · rintro n' i' snapshot seen ⟨⟩
      exact .inr ⟨o, ht, rfl⟩
  | @subscribed c n i seen snapshot ht =>
    obtain ⟨k, hm, hconns⟩ := @subscribed_conns s c i n seen snapshot
    refine .update hconns rfl rfl (fun j _ => ?_) hm.sent (.of_not_reading (by rw [ht]; rfl) rfl)
    simp only [rooms, Server.subscribed, Hub.sessions_setConn, Hub.unlock, Hub.sessions_setSession,
      Function.update_apply, Hub.sessions_tell, Hub.subscribe]
    split_ifs with hj
    · rw [hj]
    · rfl
  | @release c i k locks hl hf hm =>
    have hconns : (((s.setConn c k).unlock i).goto c .idle).conns =
        Function.update s.conns c { k with task := .idle } := by
      simp [Hub.goto, Hub.unlock, Hub.setConn, Hub.setSession]
    refine .update hconns rfl rfl (fun j _ => ?_) hm.sent (.of_not_reading ?_ rfl)
    · exact seq_setSession (h := s.setConn c k) i { s.sessions i with applyLock := none } rfl j
    · cases hb : (s.conns c).task.broadcasting with
      | none => rfl
      | some p => rw [Task.broadcasting_fanout hb] at hf; cases hf
  | @commitNothing c k n i ops now outcomes db locks ht hm hrun hnone =>
    have hconns : (((s.setConn c k).unlock i).goto c .idle).conns =
        Function.update s.conns c { k with task := .idle } := by
      simp [Hub.goto, Hub.unlock, Hub.setConn, Hub.setSession]
    have hnothing : Commit.applied
        ⟨instanceId, c, i, ⟨now, n, (s.conns c).deviceId, ops⟩, outcomes, db⟩ = [] := hnone
    refine .commit ht hrun rfl rfl (fun j => ?_) (fun d hd => ?_) ?_ ?_
    · exact seq_setSession (h := s.setConn c k) i { s.sessions i with applyLock := none } rfl j
    · exact (congrFun hconns d).trans (Function.update_of_ne hd _ _)
    · rw [Connection.Extends, hconns, Function.update_self]
      exact hm.sent
    · rw [hconns, Function.update_self, if_pos hnothing]
  | @commit c k n i ops now outcomes db locks ht hm hrun hsome =>
    have hconns : ((s.setConn c k).goto c
        (.opBroadcast n i (opsApplied outcomes) s.commits.length)).conns =
        Function.update s.conns c { k with
          task := .opBroadcast n i (opsApplied outcomes) s.commits.length } := by
      simp [Hub.goto, Hub.setConn]
    have hsomething : Commit.applied
        ⟨instanceId, c, i, ⟨now, n, (s.conns c).deviceId, ops⟩, outcomes, db⟩ ≠ [] := hsome
    refine .commit ht hrun rfl rfl (fun j => rfl) (fun d hd => ?_) ?_ ?_
    · exact (congrFun hconns d).trans (Function.update_of_ne hd _ _)
    · rw [Connection.Extends, hconns, Function.update_self]
      exact hm.sent
    · rw [hconns, Function.update_self, if_neg hsomething]
      rfl
  | broadcastOp ht hl => exact .broadcast ht rfl
  | @opSlow c n i applied batch slow ht =>
    refine @Effect.goto_dropSlow _ _ _ i _ slow _ rfl (fun j => ?_)
      (.of_not_reading (by rw [ht]; rfl) rfl)
    simp only [Hub.unlock, Hub.dropSlow, Hub.unsubscribe, Hub.sessions_setSession,
      Function.update_apply]
    split_ifs with hj
    · rw [hj]
    · rfl
  | opEvent ht => exact .goto rfl rfl rfl (fun _ _ => rfl) (.of_not_reading (by rw [ht]; rfl) rfl)
  | opNotify ht hl =>
    exact .goto rfl rfl rfl (fun _ _ => rfl) (.of_not_reading (by rw [ht]; rfl) rfl)
  | opAbandon ht hl =>
    exact .goto rfl rfl rfl (fun _ _ => rfl)
      (.of_not_reading (Task.broadcasting_eq_none hl).symm rfl)
  | @presence c n i after ht =>
    refine .quiet rfl rfl (fun _ _ => rfl) (fun d _ => ?_) fun d => ?_
    · simp only [rooms, Hub.conns_goto, Hub.broadcast, Function.update_apply]
      split_ifs with hd
      · exact hd ▸ .offer rfl
      · exact hd ▸ .refl _
      · exact .offer rfl
      · exact .refl _
    · simp only [rooms, Hub.conns_goto, Function.update_apply]
      split_ifs with hd
      · rw [hd, ht]
        exact .of_not_reading rfl rfl
      · rw [conns_broadcast]
        exact .refl _
  | @presenceSlow c i slow after ht =>
    refine @Effect.goto_dropSlow _ _ _ i _ slow _ rfl (fun j => ?_)
      (quiet_afterPresence (by rw [ht]; rfl))
    simp only [Hub.dropSlow, Hub.unsubscribe, Hub.sessions_setSession, Function.update_apply]
    split_ifs with hj
    · rw [hj]
    · rfl
  | @unsubscribe c n i rest ht =>
    refine .goto rfl rfl rfl (fun j _ => ?_) (.of_not_reading (by rw [ht]; rfl) rfl)
    exact seq_setSession i { s.sessions i with
      subscribers := (s.sessions i).subscribers \ {c} } rfl j
  | @dropIfEmpty c n rest now ht hl =>
    have hconns : ((s.dropIfEmpty n).goto c (afterLeave rest)).conns =
        Function.update s.conns c { s.conns c with task := afterLeave rest } := by
      rw [Hub.conns_goto, Hub.conns_dropIfEmpty]
    refine .goto hconns rfl rfl (fun j _ => ?_) ?_
    · simp only [rooms, Hub.sessions_goto, Hub.dropIfEmpty]
      split
      · split_ifs <;> rfl
      · rfl
    · rw [ht]
      cases rest with
      | none => exact .of_not_reading rfl rfl
      | some rest => exact .of_not_reading rfl rfl

end

/-! ## Reading the snapshot -/

section

variable {core : KeeplinCore} {instanceId : Uuid} {s s' : Server} {l : ServerStep} {c d e i : ℕ}
  {n : Uuid}

/-- Only one handler is in the critical section of a session. -/
theorem Sound.locked_unique (h : s.Sound) (hd : (s.conns d).task.locked = some i)
    (he : (s.conns e).task.locked = some i) : d = e := by
  have hlock := (h.conn d).locked i hd
  rw [(h.conn e).locked i he] at hlock
  exact (Holder.conn.inj (Option.some.inj hlock)).symm

/-- An editor of the note is in the session. -/
theorem EditedIn.of_editing (h : EditedIn c n i s) (hs : s.Sound) {j : ℕ}
    (hd : (s.conns d).task.editing = some (n, j)) : j = i ∧ d ≠ c := by
  refine h d ((hs.conn d).live (.inl fun hcl => ?_)) (n, j) hd rfl
  rw [hcl] at hd
  cases hd

/-- What a `Join` of the note has read so far is what the store has. -/
structure Reads (c : ℕ) (n : Uuid) (i : ℕ) (s : Server) : Prop where
  order : ∀ o, (s.conns c).task = .joinLines n i o → s.db.noteLineOrder.get? n = some o
  lines : ∀ snapshot seen, (s.conns c).task = .joinSubscribe n i snapshot seen →
    Agrees n s.db snapshot.toDb

/-- Nobody commits a batch on the note while the `Join` is in its critical section. -/
theorem Reads.step (h : Reads c n i s) (hs : s.Sound) (hedit : EditedIn c n i s)
    (heffect : Effect core s s') : Reads c n i s' := by
  cases heffect with
  | quiet hcommits hdb hseq hsent htask =>
    refine ⟨fun o ht => ?_, fun snapshot seen ht => ?_⟩
    · rw [hdb]
      rcases (htask c).order n i o ht with hsame | hread
      · exact h.order o (hsame.trans ht)
      · exact hread
    · rw [hdb]
      rcases (htask c).lines n i snapshot seen ht with hsame | ⟨o, hold, rfl⟩
      · exact h.lines snapshot seen (hsame.trans ht)
      · exact agrees_snapshotOf (h.order o hold)
  | @commit e x ht hrun hcommits hdb hseq hconn hsent htask =>
    have hlocked : (s.conns e).task.locked = some x.session := by rw [ht]; rfl
    have hother : (s.conns c).task.locked = some i → e ≠ c → x.noteId ≠ n := by
      rintro hl hec rfl
      have hx := (hedit.of_editing hs (by rw [ht]; rfl)).1
      exact hec (hs.locked_unique (hx ▸ hlocked) hl)
    have hsame : ∀ t, (s'.conns c).task = t → t.locked = some i → t.broadcasting = none →
        (s.conns c).task = t ∧ x.noteId ≠ n := by
      intro t ht' hl hne
      by_cases hec : e = c
      · exfalso
        rw [← hec, htask] at ht'
        split_ifs at ht'
        · rw [← ht'] at hl
          cases hl
        · rw [← ht'] at hne
          cases hne
      · rw [hconn c (Ne.symm hec)] at ht'
        exact ⟨ht', hother (ht' ▸ hl) hec⟩
    have hisolated := runBatch_isolated hrun
    refine ⟨fun o ht' => ?_, fun snapshot seen ht' => ?_⟩
    · obtain ⟨hold, hne⟩ := hsame _ ht' rfl rfl
      rw [hdb, hisolated.order n hne.symm]
      exact h.order o hold
    · obtain ⟨hold, hne⟩ := hsame _ ht' rfl rfl
      rw [hdb]
      exact (h.lines snapshot seen hold).of_isolated hisolated hne
  | @broadcast e m j applied b ht hs' =>
    have htask : ∀ t, (s'.conns c).task = t → t.fanout = none →
        (s.conns c).task = t := by
      rintro t rfl hne
      rw [hs', rooms, conns_broadcastOp] at hne ⊢
      split_ifs at hne ⊢
      · cases hne
      · exact Connection.task_offer.symm
      · rfl
    have hdb : s'.db = s.db := by rw [hs']; rfl
    refine ⟨fun o ht' => ?_, fun snapshot seen ht' => ?_⟩
    · rw [hdb]
      exact h.order o (htask _ ht' rfl)
    · rw [hdb]
      exact h.lines snapshot seen (htask _ ht' rfl)

/-! ## Hearing the batches -/

/-- Since the state `r`: the messages and the batches that have come, and what the
    observer has heard of the batches told of. The last of them may still be on its
    way. -/
structure Observed (core : KeeplinCore) (c : ℕ) (n : Uuid) (i : ℕ) (r s : Server)
    (msgs : List CollabServerMsg) (new : List Commit) : Prop where
  sent : (s.conns c).sent = (r.conns c).sent ++ msgs
  commits : s.commits = r.commits ++ new
  history : History core r.db new s.db
  bound : ∀ m ∈ heard n msgs, m.1 ≤ (s.sessions i).seq
  seqs : (heard n msgs).Pairwise fun m m' => m.1 < m'.1
  caught : (∀ b, ¬ s.Pending i b) ∧
      (heard n msgs).map Prod.snd = (told n new).map Commit.applied ∨
    ∃ b x earlier, s.Pending i b ∧ s.commits[b]? = some x ∧ told n new = earlier ++ [x] ∧
      (heard n msgs).map Prod.snd = earlier.map Commit.applied

variable {r : Server} {msgs msgs' : List CollabServerMsg} {new : List Commit} {x : Commit}

theorem heard_append : heard n (msgs ++ msgs') = heard n msgs ++ heard n msgs' :=
  List.filterMap_append

theorem heard_eq_nil (h : ∀ msg ∈ msgs, msg.batch? = none) : heard n msgs = [] := by
  refine List.filterMap_eq_nil_iff.mpr fun msg hmsg => ?_
  have hnone := h msg hmsg
  cases msg with
  | op => cases hnone
  | welcome => rfl
  | presence => rfl
  | error => rfl

theorem told_concat : told n (new ++ [x]) =
    told n new ++ if x.noteId = n ∧ x.applied ≠ [] then [x] else [] := by
  rw [told, told, List.filter_append]
  congr 1
  split_ifs with hx
  · simp [hx]
  · simp [hx]

theorem observed_refl (hidle : ∀ b, ¬ r.Pending i b) : Observed core c n i r r [] [] where
  sent := (List.append_nil _).symm
  commits := (List.append_nil _).symm
  history := rfl
  bound m hm := by cases hm
  seqs := .nil
  caught := .inl ⟨hidle, rfl⟩

/-- More messages that are no op batches on the note. -/
theorem Observed.quiet (h : Observed core c n i r s msgs new)
    (hsent : (s'.conns c).sent = (s.conns c).sent ++ msgs') (hmsgs : heard n msgs' = [])
    (hcommits : s'.commits = s.commits) (hdb : s'.db = s.db)
    (hseq : (s'.sessions i).seq = (s.sessions i).seq)
    (hpending : ∀ b, s'.Pending i b ↔ s.Pending i b) :
    Observed core c n i r s' (msgs ++ msgs') new where
  sent := by rw [hsent, h.sent, List.append_assoc]
  commits := hcommits.trans h.commits
  history := by rw [hdb]; exact h.history
  bound m hm := by
    rw [heard_append, hmsgs, List.append_nil] at hm
    rw [hseq]
    exact h.bound m hm
  seqs := by
    rw [heard_append, hmsgs, List.append_nil]
    exact h.seqs
  caught := by
    rw [heard_append, hmsgs, List.append_nil]
    simp only [hpending, hcommits]
    exact h.caught

/-- The observer is a subscriber of the session. -/
theorem Stays.mem_subscribers (h : Stays c n i s) (hs : s.Sound) :
    c ∈ (s.sessions i).subscribers := by
  obtain ⟨f, hf, -, hor⟩ := (hs.conn c).fed n i h.1
  have hkept := h.2
  rw [hf, Option.any_some] at hkept
  rcases hor with hdropped | ⟨hmem, -⟩
  · rw [hdropped] at hkept
    cases hkept
  · exact hmem

/-- A broadcast that finds the queue full ends the observation. -/
theorem not_stays_dropFeeds (h : Stays c n i s) (hs : s.Sound)
    (hk : s'.conns c = (s.conns c).dropFeeds i) : ¬ Stays c n i s' := by
  intro h'
  obtain ⟨f, hf, hfi, -⟩ := (hs.conn c).fed n i h.1
  have hkept := h'.2
  have hget : ((s.conns c).dropFeeds i).feeds.get? n = some (f.drop i) :=
    feeds_dropFeeds.mpr ⟨f, hf, rfl⟩
  rw [hk, hget, Option.any_some, Feed.drop, if_pos hfi] at hkept
  cases hkept

theorem not_pending_of_locked (hs : s.Sound) (hl : (s.conns e).task.locked = some i)
    (hb : (s.conns e).task.broadcasting = none) (b : ℕ) : ¬ s.Pending i b := by
  rintro ⟨d, hd⟩
  obtain rfl := hs.locked_unique (Task.locked_of_broadcasting hd) hl
  cases hb.symm.trans hd

/-- A batch is committed. -/
theorem Observed.commit (h : Observed core c n i r s msgs new) (hs : s.Sound)
    (hedit : EditedIn c n i s) (hstay : Stays c n i s)
    (ht : (s.conns e).task = .opApply x.noteId x.session x.batch.ops)
    (hrun : runBatch core x.batch.now x.noteId x.batch.deviceId x.batch.ops s.db =
      .ok (x.outcomes, x.db))
    (hcommits : s'.commits = s.commits ++ [x]) (hdb : s'.db = x.db)
    (hseq : ∀ j, (s'.sessions j).seq = (s.sessions j).seq)
    (hconn : ∀ d, d ≠ e → s'.conns d = s.conns d) (hsent : (s.conns e).Extends (s'.conns e))
    (htask : (s'.conns e).task = if x.applied = [] then .idle
      else .opBroadcast x.noteId x.session x.applied s.commits.length) :
    ∃ msgs', Observed core c n i r s' (msgs ++ msgs') (new ++ [x]) := by
  have hlocked : (s.conns e).task.locked = some x.session := by rw [ht]; rfl
  have hnone : (s.conns e).task.broadcasting = none := by rw [ht]; rfl
  obtain ⟨msgs', hmsgs, hquiet⟩ : (s.conns c).Extends (s'.conns c) := by
    by_cases hec : c = e
    · exact hec ▸ hsent
    · rw [hconn c hec]
      exact .refl _
  -- what is pending afterwards
  have hold : ∀ b, s.Pending i b → s'.Pending i b := by
    rintro b ⟨d, hd⟩
    refine ⟨d, ?_⟩
    rwa [hconn d (by rintro rfl; cases hnone.symm.trans hd)]
  have hnew : ∀ b, s'.Pending i b →
      s.Pending i b ∨ x.applied ≠ [] ∧ x.session = i ∧ b = s.commits.length := by
    rintro b ⟨d, hd⟩
    by_cases hde : d = e
    · rw [hde, htask] at hd
      split_ifs at hd with hx
      · cases hd
      · obtain ⟨hi, hb⟩ := Prod.ext_iff.mp (Option.some.inj hd)
        exact .inr ⟨hx, hi, hb.symm⟩
    · exact .inl ⟨d, by rwa [hconn d hde] at hd⟩
  refine ⟨msgs', ?_⟩
  have hheard : heard n (msgs ++ msgs') = heard n msgs := by
    rw [heard_append, heard_eq_nil hquiet, List.append_nil]
  refine
    { sent := by rw [hmsgs, h.sent, List.append_assoc]
      commits := by rw [hcommits, h.commits, List.append_assoc]
      history := by rw [hdb]; exact history_concat h.history hrun
      bound := fun m hm => by rw [hheard] at hm; rw [hseq]; exact h.bound m hm
      seqs := by rw [hheard]; exact h.seqs
      caught := ?_ }
  rw [hheard, told_concat]
  by_cases hx : x.noteId = n ∧ x.applied ≠ []
  · rw [if_pos hx]
    have hxi : x.session = i := (hedit.of_editing hs (by rw [ht, hx.1]; rfl)).1
    rcases h.caught with ⟨-, hall⟩ | ⟨b, y, earlier, hb, -⟩
    · refine .inr ⟨s.commits.length, x, told n new, ⟨e, ?_⟩, ?_, rfl, hall⟩
      · rw [htask, if_neg hx.2, hxi]
        rfl
      · rw [hcommits, getElem?_concat]
        exact .inr ⟨rfl, rfl⟩
    · exact absurd hb (not_pending_of_locked hs (hxi ▸ hlocked) hnone b)
  · rw [if_neg hx, List.append_nil]
    have hpending : ∀ b, s'.Pending i b → s.Pending i b := by
      intro b hb
      rcases hnew b hb with hb | ⟨hxa, hxi, -⟩
      · exact hb
      · exfalso
        have hnote := ((hs.conn e).holds x.noteId x.session (.inr (by rw [ht]; rfl))).2
        have hnote' := ((hs.conn c).holds n i (.inl hstay.1)).2
        rw [hxi, hnote'] at hnote
        exact hx ⟨hnote.symm, hxa⟩
    rcases h.caught with ⟨hidle, hall⟩ | ⟨b, y, earlier, hb, hy, htold, hall⟩
    · exact .inl ⟨fun b hb => hidle b (hpending b hb), hall⟩
    · refine .inr ⟨b, y, earlier, hold b hb, ?_, htold, hall⟩
      rw [hcommits, getElem?_concat]
      exact .inl hy

/-- A batch of the note is broadcast to the observer. -/
theorem Observed.broadcast (h : Observed core c n i r s msgs new) (hs : s.Sound)
    (hedit : EditedIn c n i s) (hstay : Stays c n i s) (hstay' : Stays c n i s')
    {applied : List LineOp} {b : ℕ} (ht : (s.conns e).task = .opBroadcast n i applied b)
    (hs' : s' = s.rooms (s.broadcastOp e n i applied b)) :
    ∃ msgs', Observed core c n i r s' (msgs ++ msgs') new := by
  have hec : c ≠ e := (hedit.of_editing hs (by rw [ht]; rfl)).2.symm
  have hbroadcasting : (s.conns e).task.broadcasting = some (i, b) := by rw [ht]; rfl
  obtain ⟨x, hx, -, -, -, hxa⟩ := (hs.conn e).broadcasting n i applied b ht
  have hconns : s'.conns c = (s.conns c).offer (s.opMsg e n i applied b) i := by
    rw [hs', rooms, conns_broadcastOp, if_neg hec, if_pos (hstay.mem_subscribers hs)]
  have hroom : (s.conns c).isFull = false := by
    by_contra hfull
    rw [Connection.offer, if_pos (by simpa using hfull)] at hconns
    exact not_stays_dropFeeds hstay hs hconns hstay'
  rw [Connection.offer, hroom, if_neg Bool.false_ne_true] at hconns
  have hheard : heard n (msgs ++ [s.opMsg e n i applied b]) =
      heard n msgs ++ [((s.sessions i).seq + 1, applied)] := by
    rw [heard_append]
    simp [heard, opMsg, CollabServerMsg.opOn]
  have hseq : (s'.sessions i).seq = (s.sessions i).seq + 1 := by
    rw [hs']
    simp [rooms, Server.broadcastOp, Hub.bumpSeq, Hub.sessions_setSession]
  have hidle : ∀ b', ¬ s'.Pending i b' := by
    rintro b' ⟨d, hd⟩
    rw [hs', rooms, conns_broadcastOp] at hd
    split_ifs at hd with hde
    · cases hd
    · rw [Connection.task_offer] at hd
      exact hde (hs.locked_unique (Task.locked_of_broadcasting hd)
        (Task.locked_of_broadcasting hbroadcasting))
    · exact hde (hs.locked_unique (Task.locked_of_broadcasting hd)
        (Task.locked_of_broadcasting hbroadcasting))
  refine ⟨[s.opMsg e n i applied b], ?_⟩
  refine
    { sent := by rw [hconns]; simp [h.sent]
      commits := by rw [hs']; exact h.commits
      history := by rw [hs']; exact h.history
      bound := fun m hm => ?_
      seqs := ?_
      caught := .inl ⟨hidle, ?_⟩ }
  · rw [hheard, List.mem_append, List.mem_singleton] at hm
    rw [hseq]
    rcases hm with hm | rfl
    · exact (h.bound m hm).trans (Nat.le_succ _)
    · exact le_rfl
  · rw [hheard, List.pairwise_append]
    refine ⟨h.seqs, List.pairwise_singleton _ _, fun m hm m' hm' => ?_⟩
    obtain rfl := List.mem_singleton.mp hm'
    exact Nat.lt_succ_of_le (h.bound m hm)
  · rw [hheard, List.map_append]
    rcases h.caught with ⟨hnone, -⟩ | ⟨b', y, earlier, ⟨d, hd⟩, hy, htold, hall⟩
    · exact absurd ⟨e, hbroadcasting⟩ (hnone b)
    · obtain rfl := hs.locked_unique (Task.locked_of_broadcasting hd)
        (Task.locked_of_broadcasting hbroadcasting)
      obtain ⟨-, rfl⟩ := Prod.ext_iff.mp (Option.some.inj (hbroadcasting.symm.trans hd))
      obtain rfl := Option.some.inj (hx.symm.trans hy)
      rw [htold, hall, List.map_append, ← hxa]
      rfl

/-- A batch of another note is broadcast. -/
theorem Observed.broadcast_other (h : Observed core c n i r s msgs new) (hs : s.Sound)
    (hstay : Stays c n i s) {m : Uuid} {j : ℕ} {applied : List LineOp} {b : ℕ} (hne : m ≠ n)
    (ht : (s.conns e).task = .opBroadcast m j applied b)
    (hs' : s' = s.rooms (s.broadcastOp e m j applied b)) :
    ∃ msgs', Observed core c n i r s' (msgs ++ msgs') new := by
  have hji : i ≠ j := by
    rintro rfl
    have hnote := ((hs.conn e).holds m i (.inr (by rw [ht]; rfl))).2
    exact hne (hnote.symm.trans ((hs.conn c).holds n i (.inl hstay.1)).2)
  have hbroadcasting : (s.conns e).task.broadcasting = some (j, b) := by rw [ht]; rfl
  obtain ⟨msgs', hsent, hmsgs⟩ : ∃ msgs', (s'.conns c).sent = (s.conns c).sent ++ msgs' ∧
      heard n msgs' = [] := by
    rw [hs', rooms, conns_broadcastOp]
    split_ifs with hce
    · exact ⟨[], by simp [hce], rfl⟩
    · unfold Connection.offer
      split_ifs
      · exact ⟨[], by simp, rfl⟩
      · exact ⟨[s.opMsg e m j applied b], rfl, by simp [heard, opMsg, CollabServerMsg.opOn, hne]⟩
    · exact ⟨[], by simp, rfl⟩
  refine ⟨msgs', h.quiet hsent hmsgs (by rw [hs']; rfl) (by rw [hs']; rfl) ?_ fun b' => ?_⟩
  · rw [hs']
    simp [rooms, Server.broadcastOp, Hub.bumpSeq, Hub.sessions_setSession, hji]
  · refine exists_congr fun d => ?_
    rw [hs', rooms, conns_broadcastOp]
    split_ifs with hde
    · rw [hde, hbroadcasting]
      simp [Task.broadcasting, hji.symm]
    · rw [Connection.task_offer]
    · exact Iff.rfl

/-- What a step means for the observer. -/
theorem Observed.step (h : Observed core c n i r s msgs new) (hs : s.Sound)
    (hedit : EditedIn c n i s) (hstay : Stays c n i s) (hstay' : Stays c n i s')
    (heffect : Effect core s s') :
    ∃ msgs' new', Observed core c n i r s' (msgs ++ msgs') (new ++ new') := by
  obtain ⟨hi, -⟩ := (hs.conn c).holds n i (.inl hstay.1)
  cases heffect with
  | quiet hcommits hdb hseq hsent htask =>
    obtain ⟨msgs', hmsgs, hquiet⟩ := hsent c ((hs.conn c).live (.inr ⟨n, i, hstay.1⟩))
    refine ⟨msgs', [], ?_⟩
    rw [List.append_nil]
    refine h.quiet hmsgs (heard_eq_nil hquiet) hcommits hdb (hseq i hi) fun b => ?_
    exact exists_congr fun d => by rw [(htask d).broadcasting]
  | @commit e x ht hrun hcommits hdb hseq hconn hsent htask =>
    obtain ⟨msgs', hobs⟩ := h.commit hs hedit hstay ht hrun hcommits hdb hseq hconn hsent htask
    exact ⟨msgs', [x], hobs⟩
  | @broadcast e m j applied b ht hs' =>
    by_cases hm : m = n
    · subst hm
      obtain rfl : j = i := (hedit.of_editing hs (by rw [ht]; rfl)).1
      obtain ⟨msgs', hobs⟩ := h.broadcast hs hedit hstay hstay' ht hs'
      exact ⟨msgs', [], by rwa [List.append_nil]⟩
    · obtain ⟨msgs', hobs⟩ := h.broadcast_other hs hstay hm ht hs'
      exact ⟨msgs', [], by rwa [List.append_nil]⟩

/-! ## The observer's copy -/

/-- What the observer has since its `Welcome`, which left the instance in `r`. The op
    messages on the note are numbered upwards and are, in commit order, the batches
    told of, all but perhaps the last one, whose broadcast is still to come; every
    batch is committed without an error on the tables that the one before it left;
    and the ops of the first `k + 1` messages lead the copy from the snapshot to what
    the `k`-th of these batches left in the store. -/
structure ObserverAgrees (core : KeeplinCore) (c : ℕ) (n : Uuid) (snapshot : NoteLinesSnapshot)
    (r s : Server) (msgs : List CollabServerMsg) (new : List Commit) : Prop where
  sent : (s.conns c).sent = (r.conns c).sent ++ msgs
  commits : s.commits = r.commits ++ new
  history : History core r.db new s.db
  seqs : (heard n msgs).Pairwise fun m m' => m.1 < m'.1
  ops : (heard n msgs).map Prod.snd <+: (told n new).map Commit.applied
  behind : (told n new).length ≤ (heard n msgs).length + 1
  complete : (∀ b, ¬ s.InProgress b) → (heard n msgs).length = (told n new).length
  start : Agrees n r.db snapshot.toDb
  copy : ∀ k < (heard n msgs).length, ∃ x, (told n new)[k]? = some x ∧
    Replayed core n snapshot.toDb (((heard n msgs).take (k + 1)).flatMap Prod.snd) x.db

theorem take_map_of_prefix {α β γ : Type} {f : α → γ} {g : β → γ} {as : List α} {bs : List β}
    (h : as.map f <+: bs.map g) {k : ℕ} (hk : k < as.length) :
    ∃ b, bs[k]? = some b ∧ (as.take (k + 1)).map f = (bs.take (k + 1)).map g := by
  have hlen : as.length ≤ bs.length := by simpa using h.length_le
  refine ⟨bs[k], List.getElem?_eq_getElem (hk.trans_le hlen), ?_⟩
  rw [List.map_take, List.map_take, List.prefix_iff_eq_take.mp h, List.take_take]
  congr 1
  simp
  omega

theorem Observed.agrees {snapshot : NoteLinesSnapshot} (h : Observed core c n i r s msgs new)
    (hsnapshot : Agrees n r.db snapshot.toDb) :
    ObserverAgrees core c n snapshot r s msgs new := by
  have hops : (heard n msgs).map Prod.snd <+: (told n new).map Commit.applied := by
    rcases h.caught with ⟨-, hall⟩ | ⟨b, x, earlier, -, -, htold, hall⟩
    · rw [hall]
    · rw [hall, htold, List.map_append]
      exact List.prefix_append _ _
  refine
    { sent := h.sent
      commits := h.commits
      history := h.history
      seqs := h.seqs
      ops := hops
      behind := ?_
      complete := fun hidle => ?_
      start := hsnapshot
      copy := fun k hk => ?_ }
  · rcases h.caught with ⟨-, hall⟩ | ⟨b, x, earlier, -, -, htold, hall⟩
    · have hlen := congrArg List.length hall
      simp only [List.length_map] at hlen
      omega
    · have hlen := congrArg List.length hall
      simp only [List.length_map] at hlen
      rw [htold, List.length_append, List.length_singleton]
      omega
  · rcases h.caught with ⟨-, hall⟩ | ⟨b, x, earlier, hb, -⟩
    · simpa using congrArg List.length hall
    · exact absurd ⟨i, hb⟩ (hidle b)
  · obtain ⟨x, hx, htake⟩ := take_map_of_prefix hops hk
    refine ⟨x, hx, ?_⟩
    have hcopy := h.history.replayed (.nil hsnapshot) hx
    rwa [List.nil_append, List.flatMap_def, ← htake, ← List.flatMap_def] at hcopy

/-- The state after the `Welcome`. -/
theorem welcome_step {w : Server} {snapshot : NoteLinesSnapshot} {seen : ℕ} {now : DateTime}
    (hlines : (w.conns c).task = .joinSubscribe n i snapshot seen)
    (hwelcome : w.step core instanceId (.go c now) = some r) :
    r = w.rooms (w.subscribed c n i snapshot seen) := by
  simp only [Server.step, Server.go, hlines, Option.some.injEq] at hwelcome
  exact hwelcome.symm

/-- **Observers' copies agree with the store.** The connection `c` reads the order of
    the note in the session `i` in state `t`, has read the snapshot in `w`, and has its
    `Welcome` in `r`. From `t` on everybody who edits the note does so in the session,
    and from `r` on the connection stays in it and sends no ops on the note. -/
theorem observer_agrees {db : Db} {ls ls₂ ls₃ : List ServerStep} {t w : Server}
    {snapshot : NoteLinesSnapshot} {seen : ℕ} {now : DateTime}
    (hstart : run (step core instanceId) (init db) ls = some t)
    (horder : (t.conns c).task = .joinOrder n i)
    (hread : run (step core instanceId) t ls₂ = some w)
    (hlines : (w.conns c).task = .joinSubscribe n i snapshot seen)
    (hwelcome : w.step core instanceId (.go c now) = some r)
    (hrun : run (step core instanceId) r ls₃ = some s)
    (hedit : Meets (step core instanceId) (fun s _ => EditedIn c n i s) t
      (ls₂ ++ .go c now :: ls₃))
    (hstay : Always (step core instanceId) (Stays c n i) r ls₃) :
    ((w.conns c).isFull = false →
      (r.conns c).sent = (w.conns c).sent ++ [.welcome n snapshot]) ∧
      ∃ msgs new, ObserverAgrees core c n snapshot r s msgs new := by
  have hstep : ∀ (s : Server) l t, s.Sound → s.step core instanceId l = some t → t.Sound :=
    fun s l t h ht => h.step (step_stepped ht)
  have ht : t.Sound := run_invariant hstep (sound_init db) hstart
  obtain ⟨hedit₂, hedit₃⟩ := meets_append.mp hedit
  obtain ⟨-, hedit₃⟩ := (meets_cons hwelcome).mp (hedit₃ w hread)
  -- the snapshot is what the store has
  have hreads : w.Sound ∧ Reads c n i w := by
    refine run_induction (P := fun s => s.Sound ∧ Reads c n i s) (fun s l t h hl hst => ?_)
      ⟨ht, ?_⟩ hedit₂ hread
    · exact ⟨hstep s l t h.1 hst, h.2.step h.1 hl ((step_stepped hst).effect h.1)⟩
    · refine ⟨fun o ho => ?_, fun snapshot seen ho => ?_⟩
      · cases horder.symm.trans ho
      · cases horder.symm.trans ho
  obtain ⟨hw, hreads⟩ := hreads
  have hagrees := hreads.lines snapshot seen hlines
  have hr := welcome_step hlines hwelcome
  have hsound : r.Sound := hstep w _ r hw hwelcome
  -- the observation begins
  obtain ⟨k, hk, hconns⟩ := @subscribed_conns w c i n seen snapshot
  have hstayr : Stays c n i r := by
    rw [hr, Stays, rooms, hconns, Function.update_self]
    simp
  have hidle : ∀ b, ¬ r.Pending i b := by
    rintro b ⟨d, hd⟩
    rw [hr, rooms, hconns, Function.update_apply] at hd
    split_ifs at hd with hdc
    · cases hd
    · exact not_pending_of_locked (e := c) hw (by rw [hlines]; rfl) (by rw [hlines]; rfl) b ⟨d, hd⟩
  refine ⟨fun hfull => ?_, ?_⟩
  · rw [hr]
    simp [rooms, Server.subscribed, Hub.tell, Hub.setConn, Hub.unlock, Hub.setSession,
      Hub.subscribe, Connection.trySend, hfull]
  have hall : s.Sound ∧ Stays c n i s ∧ ∃ msgs new, Observed core c n i r s msgs new := by
    refine run_induction
      (P := fun s => s.Sound ∧ Stays c n i s ∧ ∃ msgs new, Observed core c n i r s msgs new)
      (fun s l t h hl hst => ?_) ⟨hsound, hstayr, [], [], observed_refl hidle⟩ (hedit₃.and hstay) hrun
    obtain ⟨hs, hstays, msgs, new, hobs⟩ := h
    have hstay' := hl.2 t hst
    obtain ⟨msgs', new', hobs'⟩ :=
      hobs.step hs hl.1 hstays hstay' ((step_stepped hst).effect hs)
    exact ⟨hstep s l t hs hst, hstay', _, _, hobs'⟩
  obtain ⟨-, -, msgs, new, hobs⟩ := hall
  refine ⟨msgs, new, hobs.agrees ?_⟩
  rw [hr]
  exact hagrees

end

/-- Device 1 begins to join note 1, in whose session device 2 is. -/
def beginJoin : List ServerStep :=
  [.connect 1 1, .connect 1 2] ++ joins 1 1 ++ [.recv 0 (.join 1), .access 0 granted] ++ goes 0 2

/-- It ends its `Join`, and device 2 inserts a line. -/
def hearInsert : List ServerStep := goes 0 4 ++ sends 1 1 [sampleInsert]

theorem observer_agrees_hearInsert : ∃ t w r s snapshot seen msgs new,
    run (step .sample 1) (init sampleDb) beginJoin = some t ∧
      (t.conns 0).task = .joinOrder 1 0 ∧
      run (step .sample 1) t (goes 0 2) = some w ∧
      (w.conns 0).task = .joinSubscribe 1 0 snapshot seen ∧
      w.step .sample 1 (.go 0 5) = some r ∧
      run (step .sample 1) r hearInsert = some s ∧ (s.conns 0).got = [0] ∧
      (r.conns 0).sent = (w.conns 0).sent ++ [.welcome 1 snapshot] ∧
      ObserverAgrees .sample 0 1 snapshot r s msgs new := by
  have hjoin : (run (step .sample 1) (init sampleDb) beginJoin).map (fun t => (t.conns 0).task) =
      some (.joinOrder 1 0) := rfl
  have hsubscribe : (run (step .sample 1) (init sampleDb) (beginJoin ++ goes 0 2)).map
      (fun w => ((w.conns 0).task.subscribing, (w.conns 0).isFull)) =
        some (some (1, 0, 0), false) := rfl
  have hhear : (run (step .sample 1) (init sampleDb)
      (beginJoin ++ goes 0 2 ++ .go 0 5 :: hearInsert)).map (fun s => (s.conns 0).got) =
        some [0] := by decide +kernel
  have hedit : Meets (step .sample 1) (fun s _ => EditedIn 0 1 0 s) (init sampleDb)
      (beginJoin ++ (goes 0 2 ++ .go 0 5 :: hearInsert)) := by decide +kernel
  have hstay : ∀ r ∈ run (step .sample 1) (init sampleDb) (beginJoin ++ goes 0 2 ++ [.go 0 5]),
      Always (step .sample 1) (Stays 0 1 0) r hearInsert := by decide +kernel
  obtain ⟨s, hs, hgot⟩ := Option.map_eq_some_iff.mp hhear
  obtain ⟨w, hw, hs⟩ := run_append.mp hs
  obtain ⟨r, hr, hs⟩ := run_cons.mp hs
  obtain ⟨w', hw', hview⟩ := Option.map_eq_some_iff.mp hsubscribe
  obtain rfl := Option.some.inj (hw.symm.trans hw')
  obtain ⟨hsub, hfull⟩ := Prod.ext_iff.mp hview
  obtain ⟨t, ht, htw⟩ := run_append.mp hw
  obtain ⟨t', ht', htask⟩ := Option.map_eq_some_iff.mp hjoin
  obtain rfl := Option.some.inj (ht.symm.trans ht')
  have hlines : ∃ snapshot, (w.conns 0).task = .joinSubscribe 1 0 snapshot 0 := by
    cases hk : (w.conns 0).task <;> rw [hk] at hsub <;> cases hsub
    exact ⟨_, rfl⟩
  obtain ⟨snapshot, hlines⟩ := hlines
  have hreach : run (step .sample 1) (init sampleDb) (beginJoin ++ goes 0 2 ++ [.go 0 5]) = some r :=
    run_append.mpr ⟨w, hw, run_cons.mpr ⟨r, hr, rfl⟩⟩
  obtain ⟨hwelcome, msgs, new, hagrees⟩ := observer_agrees ht htask htw hlines hr hs
    ((meets_append.mp hedit).2 t ht) (hstay r hreach)
  exact ⟨t, w, r, s, snapshot, 0, msgs, new, ht, htask, htw, hlines, hr, hs, hgot, hwelcome hfull,
    hagrees⟩

end Server

end KeeplinSrv
