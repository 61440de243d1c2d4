import KeeplinSrv.Live.Turns

/-!
# How a connection enters and leaves notes

A handler goes through the same stages for each note: it enters the session that the
registry holds, is there, is announced, and on the way out unsubscribes, clears its
presence and drops the session if it is empty. `Server.Visits` says which of these a step
of a handler is, and what it does to the registry and to the subscribers.
-/

namespace KeeplinSrv

open Common

/-- What a handler is doing about one note. -/
inductive Visit
  | nowhere
  | entering (noteId : Uuid) (session : ℕ)
  | touching (noteId : Uuid)
  | unsubscribing (noteId : Uuid) (session : ℕ)
  | clearing (noteId : Uuid)
  | dropping (noteId : Uuid)
  deriving DecidableEq

/-- The note that is still to be dropped after an announcement. -/
def AfterPresence.visit : AfterPresence → Visit
  | .idle => .nowhere
  | .dropIfEmpty noteId _ => .dropping noteId

def Task.visit : Task → Visit
  | .joinLock n i | .joinOrder n i | .joinLines n i _ | .joinSubscribe n i _ _ => .entering n i
  | .touchPresence n => .touching n
  | .unsubscribe n i _ => .unsubscribing n i
  | .clearPresence n _ => .clearing n
  | .announce _ after | .presence _ _ after | .presenceSlow _ _ after => after.visit
  | .dropIfEmpty n _ => .dropping n
  | .idle | .closed | .joinAccess _ | .joinSession _ | .leaving _ | .opAccess .. | .opLock ..
  | .opOrderLock .. | .opApply .. | .opBroadcast .. | .opSlow .. | .opEvent .. | .opNotify .. =>
    .nowhere

/-- The notes that a disconnect has still to leave, after the current one; `none` while the
    socket is open. -/
def AfterPresence.rest : AfterPresence → Option (FinMap Uuid ℕ)
  | .idle => none
  | .dropIfEmpty _ rest => rest

def Task.rest : Task → Option (FinMap Uuid ℕ)
  | .leaving rest => some rest
  | .closed => some .empty
  | .unsubscribe _ _ rest | .clearPresence _ rest | .dropIfEmpty _ rest => rest
  | .announce _ after | .presence _ _ after | .presenceSlow _ _ after => after.rest
  | .idle | .joinAccess _ | .joinSession _ | .joinLock .. | .joinOrder ..
  | .joinLines .. | .joinSubscribe .. | .touchPresence _ | .opAccess .. | .opLock ..
  | .opOrderLock .. | .opApply .. | .opBroadcast .. | .opSlow .. | .opEvent .. | .opNotify .. =>
    none

/-- A handler that neither leaves its socket nor is doing anything about a note. -/
def Task.Elsewhere (t : Task) : Prop := t.visit = .nowhere ∧ t.rest = none

theorem AfterPresence.visit_task (after : AfterPresence) : after.task.visit = after.visit := by
  cases after <;> rfl

theorem AfterPresence.rest_task (after : AfterPresence) : after.task.rest = after.rest := by
  cases after <;> rfl

theorem visit_afterLeave (rest : Option (FinMap Uuid ℕ)) : (afterLeave rest).visit = .nowhere := by
  cases rest <;> rfl

theorem rest_afterLeave (rest : Option (FinMap Uuid ℕ)) :
    (afterLeave rest).rest = rest := by
  cases rest <;> rfl

/-- No session gets a new subscriber, and no number of a session is given back. -/
structure Hub.Shrinks (h h' : Hub) : Prop where
  subscribers : ∀ i, (h'.sessions i).subscribers ⊆ (h.sessions i).subscribers
  nextSession : h.nextSession ≤ h'.nextSession

namespace Hub

variable {h h' h'' : Hub} {i : ℕ} {cs : Finset ℕ}

theorem Shrinks.of_eq (hsessions : h'.sessions = h.sessions)
    (hnext : h'.nextSession = h.nextSession) : h.Shrinks h' :=
  ⟨fun _ => by rw [hsessions], hnext.ge⟩

theorem Shrinks.refl (h : Hub) : h.Shrinks h := .of_eq rfl rfl

theorem Shrinks.trans (hh : h.Shrinks h') (hh' : h'.Shrinks h'') : h.Shrinks h'' :=
  ⟨fun i => (hh'.subscribers i).trans (hh.subscribers i), hh.nextSession.trans hh'.nextSession⟩

theorem shrinks_setSession {y : CollabSession} (hy : y.subscribers ⊆ (h.sessions i).subscribers) :
    h.Shrinks (h.setSession i y) := by
  refine ⟨fun j => ?_, le_rfl⟩
  rw [sessions_setSession, Function.update_apply]
  split_ifs with hj
  · rw [hj]
    exact hy
  · exact Finset.Subset.refl _

theorem shrinks_unlock : h.Shrinks (h.unlock i) := shrinks_setSession (Finset.Subset.refl _)

theorem shrinks_bumpSeq : h.Shrinks (h.bumpSeq i) := shrinks_setSession (Finset.Subset.refl _)

theorem shrinks_lock {holder : Holder} (hh : h.lock i holder = some h') : h.Shrinks h' := by
  unfold Hub.lock at hh
  split_ifs at hh
  obtain rfl := Option.some.inj hh
  exact shrinks_setSession (Finset.Subset.refl _)

theorem shrinks_unsubscribe : h.Shrinks (h.unsubscribe i cs) :=
  shrinks_setSession Finset.sdiff_subset

theorem shrinks_dropSlow : h.Shrinks (h.dropSlow i cs) :=
  ⟨shrinks_unsubscribe.subscribers, le_rfl⟩

theorem shrinks_foldl_tell {c : ℕ} (msgs : List CollabServerMsg) :
    h.Shrinks (msgs.foldl (Hub.tell · c) h) := by
  induction msgs generalizing h with
  | nil => exact .refl h
  | cons msg msgs ih =>
    have htell : h.Shrinks (h.tell c msg) := .of_eq rfl rfl
    exact htell.trans ih

end Hub

namespace Server

/-- Which notes the handler is in, or is leaving, after a step. -/
structure Whereabouts (k k' : Connection) (visit : Visit) : Prop where
  visit : k'.task.visit = visit
  rest : k'.task.rest = k.task.rest
  joined : k'.joined = k.joined

/-- The note of a `Join` that fails after it has got the session of the note. -/
def joinFails (s : Server) : ServerStep → Option Uuid
  | .go c _ =>
    match (s.conns c).task with
    | .joinOrder n _ => if s.db.noteLineOrder.get? n = none then some n else none
    | _ => none
  | .fail c _ =>
    match (s.conns c).task with
    | .joinOrder n _ | .joinLines n _ _ => some n
    | _ => none
  | .connect .. | .recv .. | .close _ | .access .. | .pick .. | .write _ => none

/-- What the turn of connection `c` does about the notes that it is in. -/
inductive Visits (c : ℕ) (l : ServerStep) (s s' : Server) : Prop
  | stay (hk : Whereabouts (s.conns c) (s'.conns c) (s.conns c).task.visit)
      (hregistry : s'.registry = s.registry) (hsubs : s.toHub.Shrinks s'.toHub)
  | enter {n : Uuid} {i : ℕ} (hbefore : (s.conns c).task.Elsewhere)
      (hk : Whereabouts (s.conns c) (s'.conns c) (.entering n i))
      (hold : s.registry.get? n = some i ∨ s.registry.get? n = none ∧ i = s.nextSession ∧
        i < s'.nextSession ∧ (s'.sessions i).subscribers = ∅)
      (hregistry : ∀ m, s'.registry.get? m = if m = n then some i else s.registry.get? m)
      (hsubs : s.toHub.Shrinks s'.toHub)
  | abandon {n : Uuid} {i : ℕ} (hbefore : (s.conns c).task.visit = .entering n i)
      (hl : s.joinFails l = some n)
      (hk : Whereabouts (s.conns c) (s'.conns c) .nowhere) (hregistry : s'.registry = s.registry)
      (hsubs : s.toHub.Shrinks s'.toHub)
  | join {n : Uuid} {i : ℕ} (hbefore : (s.conns c).task.visit = .entering n i)
      (hvisit : (s'.conns c).task.visit = .touching n)
      (hrest : (s'.conns c).task.rest = (s.conns c).task.rest)
      (hjoined : (s'.conns c).joined = (s.conns c).joined.insert n i)
      (hregistry : s'.registry = s.registry) (hnext : s'.nextSession = s.nextSession)
      (hsubs : ∀ j d, d ∈ (s'.sessions j).subscribers →
        d ∈ (s.sessions j).subscribers ∨ d = c ∧ j = i)
  | cursor {n : Uuid} {i : ℕ} (hbefore : (s.conns c).task.Elsewhere)
      (hin : (s.conns c).joined.get? n = some i)
      (hk : Whereabouts (s.conns c) (s'.conns c) (.touching n))
      (hregistry : s'.registry = s.registry) (hsubs : s.toHub.Shrinks s'.toHub)
  | touch {n : Uuid} (hbefore : (s.conns c).task = .touchPresence n)
      (hl : (∃ now, l = .go c now) ∨ ∃ handled, l = .fail c handled)
      (hk : Whereabouts (s.conns c) (s'.conns c) .nowhere) (hregistry : s'.registry = s.registry)
      (hsubs : s.toHub.Shrinks s'.toHub)
  | leave {n : Uuid} {i : ℕ} (hbefore : (s.conns c).task.Elsewhere)
      (hin : (s.conns c).joined.get? n = some i)
      (hvisit : (s'.conns c).task.visit = .unsubscribing n i)
      (hrest : (s'.conns c).task.rest = none)
      (hjoined : (s'.conns c).joined = (s.conns c).joined.erase {n})
      (hregistry : s'.registry = s.registry) (hsubs : s.toHub.Shrinks s'.toHub)
  | close (hbefore : (s.conns c).task.Elsewhere) (hvisit : (s'.conns c).task.visit = .nowhere)
      (hrest : (s'.conns c).task.rest = some (s.conns c).joined)
      (hjoined : (s'.conns c).joined = .empty)
      (hregistry : s'.registry = s.registry) (hsubs : s.toHub.Shrinks s'.toHub)
  | pick {n : Uuid} {i : ℕ} {rest : FinMap Uuid ℕ} (hbefore : (s.conns c).task.visit = .nowhere)
      (hleaving : (s.conns c).task.rest = some rest) (hin : rest.get? n = some i)
      (hvisit : (s'.conns c).task.visit = .unsubscribing n i)
      (hrest : (s'.conns c).task.rest = some (rest.erase {n}))
      (hjoined : (s'.conns c).joined = (s.conns c).joined)
      (hregistry : s'.registry = s.registry) (hsubs : s.toHub.Shrinks s'.toHub)
  | unsubscribe {n : Uuid} {i : ℕ} (hbefore : (s.conns c).task.visit = .unsubscribing n i)
      (hk : Whereabouts (s.conns c) (s'.conns c) (.clearing n))
      (hregistry : s'.registry = s.registry) (hsubs : s.toHub.Shrinks s'.toHub)
      (hout : c ∉ (s'.sessions i).subscribers)
  | clear {n : Uuid} {rest : Option (FinMap Uuid ℕ)}
      (hbefore : (s.conns c).task = .clearPresence n rest)
      (hl : (∃ now, l = .go c now) ∨ ∃ handled, l = .fail c handled)
      (hk : Whereabouts (s.conns c) (s'.conns c) (.dropping n))
      (hregistry : s'.registry = s.registry) (hsubs : s.toHub.Shrinks s'.toHub)
  | drop {n : Uuid} (hbefore : (s.conns c).task.visit = .dropping n)
      (hk : Whereabouts (s.conns c) (s'.conns c) .nowhere)
      (hregistry : s'.registry = s.registry ∧ (∀ i, s.registry.get? n = some i →
        (s.sessions i).subscribers ≠ ∅) ∨ s'.registry = s.registry.erase {n})
      (hsubs : s.toHub.Shrinks s'.toHub)

section

variable {core : KeeplinCore} {instanceId : Uuid} {s s' : Server} {c i : ℕ} {l : ServerStep}
  {t t₀ : Task} {h : Hub} {x : Shared} {n : Uuid} {visit : Visit}

/-- Where a handler is that goes on to another await point. -/
theorem whereabouts_goto (ht : (s.conns c).task = t₀) (hjoined : (h.conns c).joined =
    (s.conns c).joined) (hrest : t.rest = t₀.rest) :
    Whereabouts (s.conns c) ((h.goto c t).conns c) t.visit := by
  rw [Hub.conns_goto, Function.update_self]
  exact ⟨rfl, by rw [ht]; exact hrest, hjoined⟩

/-- A handler goes on to another await point, where it is as far with its notes. -/
theorem Visits.goto (ht : (s.conns c).task = t₀) (hjoined : (h.conns c).joined =
    (s.conns c).joined) (hregistry : h.registry = s.registry)
    (hsubs : s.toHub.Shrinks h)
    (hvisit : t.visit = t₀.visit) (hrest : t.rest = t₀.rest) :
    Visits c l s ⟨x, h.goto c t⟩ := by
  refine .stay ?_ hregistry ⟨hsubs.subscribers, hsubs.nextSession⟩
  rw [ht, ← hvisit]
  exact whereabouts_goto ht hjoined hrest

theorem joined_foldl_tell (msgs : List CollabServerMsg) (h : Hub) (d : ℕ) :
    ((msgs.foldl (Hub.tell · c) h).conns d).joined = (h.conns d).joined :=
  (Hub.same_foldl_tell msgs).joined d

/-- The handler stays where it is. -/
theorem Visits.same (hh : s.toHub.Same h) (hregistry : h.registry = s.registry)
    (hsubs : s.toHub.Shrinks h) :
    Visits c l s ⟨x, h⟩ :=
  .stay ⟨congrArg Task.visit (hh.task c), congrArg Task.rest (hh.task c), hh.joined c⟩ hregistry
    hsubs

theorem registry_foldl_tell (msgs : List CollabServerMsg) (h : Hub) :
    (msgs.foldl (Hub.tell · c) h).registry = h.registry := by
  induction msgs generalizing h with
  | nil => rfl
  | cons msg msgs ih => exact ih _

/-! ## What every step does -/

theorem visits_refuseOr {refusal : Option CollabServerMsg} (ht : (s.conns c).task = t₀)
    (hbefore : t₀.Elsewhere) (ht' : t.Elsewhere) : Visits c l s (s.refuseOr c refusal t) := by
  cases refusal with
  | none =>
    exact .goto ht rfl rfl (.refl _) (ht'.1.trans hbefore.1.symm)
      (ht'.2.trans hbefore.2.symm)
  | some msg =>
    exact .goto ht (Hub.same_tell.joined c) rfl ((.of_eq rfl rfl)) hbefore.1.symm
      hbefore.2.symm

theorem visits_access {answer : Option (Except AppError Access)}
    (h : s.access c answer = some s') : Visits c l s s' := by
  unfold access at h
  split at h
  · next n ht =>
    obtain rfl := Option.some.inj h
    exact visits_refuseOr ht ⟨rfl, rfl⟩ ⟨rfl, rfl⟩
  · next n i ops ht =>
    obtain rfl := Option.some.inj h
    exact visits_refuseOr ht ⟨rfl, rfl⟩ ⟨rfl, rfl⟩
  · cases h

/-- A handler that is not about to enter a note returns an error with its lock. -/
theorem visits_abortLocked (ht : (s.conns c).task = t₀) (hh : s.toHub.Same h)
    (hregistry : h.registry = s.registry) (hsubs : s.toHub.Shrinks h)
    (hbefore : t₀.Elsewhere) : Visits c l s (abortLocked ⟨x, h⟩ c i) := by
  have hjoined : (((h.unlock i).tell c internalError).conns c).joined = (s.conns c).joined :=
    (Hub.same_tell.joined c).trans (hh.joined c)
  have hunlock : s.toHub.Shrinks (h.unlock i) := hsubs.trans Hub.shrinks_unlock
  exact .goto ht hjoined hregistry ⟨hunlock.subscribers, hunlock.nextSession⟩ hbefore.1.symm
    hbefore.2.symm

/-- A `Join` fails after it has got its session. -/
theorem visits_abandon (ht : (s.conns c).task = t₀) (hbefore : t₀.visit = .entering n i)
    (hl : s.joinFails l = some n) (hrest : t₀.rest = none) :
    Visits c l s (s.abortLocked c i) := by
  have hunlock : s.toHub.Shrinks (s.unlock i) := Hub.shrinks_unlock
  refine .abandon (ht ▸ hbefore) hl ?_ rfl ⟨hunlock.subscribers, hunlock.nextSession⟩
  exact whereabouts_goto ht (Hub.same_tell.joined c) hrest.symm

theorem visits_applyBatch {ops : List LineOp} {now : DateTime}
    (ht : (s.conns c).task = .opApply n i ops) :
    Visits c l s (s.applyBatch core instanceId c now n i ops) := by
  unfold applyBatch
  dsimp only
  split
  · exact visits_abortLocked ht (Hub.same_foldl_tell _) (registry_foldl_tell _ _)
      (Hub.shrinks_foldl_tell _) ⟨rfl, rfl⟩
  · split_ifs
    · exact .goto ht (joined_foldl_tell _ _ c) (registry_foldl_tell _ _)
        ((Hub.shrinks_foldl_tell _).trans Hub.shrinks_unlock) rfl rfl
    · exact .goto ht (joined_foldl_tell _ _ c) (registry_foldl_tell _ _)
        (Hub.shrinks_foldl_tell _) rfl rfl

theorem visits_getOrCreate (ht : (s.conns c).task = .joinSession n) :
    Visits c l s (s.rooms ((s.getOrCreate n).2.goto c (.joinLock n (s.getOrCreate n).1))) := by
  have hbefore : (s.conns c).task.Elsewhere := by
    rw [ht]
    exact ⟨rfl, rfl⟩
  unfold Hub.getOrCreate
  split
  · next i hr =>
    refine .enter hbefore (whereabouts_goto ht rfl rfl) (.inl hr) (fun m => ?_)
      (.of_eq rfl rfl)
    split_ifs with hm
    · rw [hm]
      exact hr
    · rfl
  · next hr =>
    have hsubs : s.toHub.Shrinks (s.setSession s.nextSession (.new n)) :=
      Hub.shrinks_setSession (Finset.empty_subset _)
    refine .enter hbefore (whereabouts_goto ht rfl rfl)
      (.inr ⟨hr, rfl, Nat.lt_succ_self _, ?_⟩) (fun m => FinMap.get?_insert _ _ _ _)
      ⟨hsubs.subscribers, Nat.le_succ _⟩
    simp [rooms, Hub.goto, Hub.setConn, Hub.setSession, CollabSession.new]

theorem visits_subscribed {snapshot : NoteLinesSnapshot} {seen : ℕ}
    (ht : (s.conns c).task = .joinSubscribe n i snapshot seen) :
    Visits c l s (s.rooms (s.subscribed c n i snapshot seen)) := by
  obtain ⟨k, -, hconns⟩ := @subscribed_conns s c i n seen snapshot
  have hk := congrFun hconns c
  rw [Function.update_self] at hk
  refine .join (n := n) (i := i) (by rw [ht]; rfl) ?_ ?_ ?_ rfl rfl fun j d hd => ?_
  · rw [rooms, hk]
    rfl
  · rw [rooms, hk, ht]
    rfl
  · rw [rooms, hk]
  · rw [rooms, sessions_subscribed, Function.update_apply] at hd
    split_ifs at hd with hj
    · rcases Finset.mem_insert.mp hd with rfl | hd
      · exact .inr ⟨rfl, hj⟩
      · exact .inl (hj ▸ hd)
    · exact .inl hd

theorem visits_dropIfEmpty {rest : Option (FinMap Uuid ℕ)}
    (ht : (s.conns c).task = .dropIfEmpty n rest) :
    Visits c l s (s.rooms ((s.dropIfEmpty n).goto c (afterLeave rest))) := by
  have hk : Whereabouts (s.conns c) (((s.dropIfEmpty n).goto c (afterLeave rest)).conns c)
      .nowhere :=
    visit_afterLeave rest ▸
      whereabouts_goto ht (Hub.same_dropIfEmpty.joined c) (rest_afterLeave rest)
  refine .drop (n := n) (by rw [ht]; rfl) hk ?_ (.of_eq ?_ ?_)
  · show (s.dropIfEmpty n).registry = s.registry ∧ _ ∨ (s.dropIfEmpty n).registry = _
    unfold Hub.dropIfEmpty
    split
    · next i hi =>
      split_ifs with hsubs
      · exact .inr rfl
      · refine .inl ⟨rfl, fun j hj => ?_⟩
        obtain rfl : i = j := Option.some.inj (hi.symm.trans hj)
        exact hsubs
    · next hnone => exact .inl ⟨rfl, fun j hj => by rw [hnone] at hj; cases hj⟩
  · show (s.dropIfEmpty n).sessions = _
    unfold Hub.dropIfEmpty
    split
    · split_ifs <;> rfl
    · rfl
  · show (s.dropIfEmpty n).nextSession = _
    unfold Hub.dropIfEmpty
    split
    · split_ifs <;> rfl
    · rfl

theorem visits_broadcastOp {applied : List LineOp} {batch : ℕ}
    (ht : (s.conns c).task = .opBroadcast n i applied batch) :
    Visits c l s (s.rooms (s.broadcastOp c n i applied batch)) := by
  have hk : Whereabouts (s.conns c) ((s.broadcastOp c n i applied batch).conns c) .nowhere :=
    whereabouts_goto ht ((Hub.same_bumpSeq.trans Hub.same_broadcast).joined c) rfl
  have hsubs : s.toHub.Shrinks (s.bumpSeq i) := Hub.shrinks_bumpSeq
  exact .stay (by rwa [ht]) rfl ⟨hsubs.subscribers, hsubs.nextSession⟩

theorem visits_go {now : DateTime} (h : s.go core instanceId c now = some s') :
    Visits c (.go c now) s s' := by
  have hsame : s.toHub.Shrinks s.toHub := .refl _
  unfold go at h
  split at h
  case h_1 n ht =>
    obtain rfl := Option.some.inj h
    exact visits_getOrCreate ht
  case h_2 n i ht | h_14 n i ops ht =>
    obtain ⟨h', hlock, rfl⟩ := Option.map_eq_some_iff.mp h
    have hsubs := Hub.shrinks_lock hlock
    unfold Hub.lock at hlock
    split_ifs at hlock
    obtain rfl := Option.some.inj hlock
    exact .goto ht rfl rfl hsubs rfl rfl
  case h_3 n i ht =>
    split at h
    · next hnone =>
      obtain rfl := Option.some.inj h
      exact visits_abandon ht rfl (by simp [joinFails, ht, hnone]) rfl
    · obtain rfl := Option.some.inj h
      exact .goto ht rfl rfl hsame rfl rfl
  case h_5 n i snapshot seen ht =>
    obtain rfl := Option.some.inj h
    exact visits_subscribed ht
  case h_6 n ht =>
    obtain rfl := Option.some.inj h
    exact .touch ht (.inl ⟨now, rfl⟩) (whereabouts_goto ht rfl rfl) rfl (.of_eq rfl rfl)
  case h_7 n after ht =>
    split at h
    · obtain rfl := Option.some.inj h
      exact .goto ht rfl rfl hsame after.visit_task after.rest_task
    · obtain rfl := Option.some.inj h
      exact .goto ht rfl rfl hsame rfl rfl
  case h_8 n i after ht =>
    obtain rfl := Option.some.inj h
    exact .goto ht (Hub.same_broadcast.joined c) rfl (.of_eq rfl rfl) rfl rfl
  case h_9 i slow after ht =>
    obtain rfl := Option.some.inj h
    exact .goto ht (Hub.same_dropSlow.joined c) rfl Hub.shrinks_dropSlow
      after.visit_task after.rest_task
  case h_10 rest ht =>
    split_ifs at h with hrest
    obtain rfl := Option.some.inj h
    refine .goto ht rfl rfl hsame rfl ?_
    have hnone : ∀ n, rest.get? n = none := fun n => by
      have hn : n ∉ rest.keys := by simp [hrest]
      rwa [rest.mem_keys, Option.not_isSome_iff_eq_none] at hn
    exact congrArg some (FinMap.ext fun n => (hnone n).symm)
  case h_11 n i rest ht =>
    obtain rfl := Option.some.inj h
    have hsubs : s.toHub.Shrinks (s.unsubscribe i {c}) := Hub.shrinks_unsubscribe
    refine .unsubscribe (i := i) (by rw [ht]; rfl)
      (whereabouts_goto ht (Hub.same_unsubscribe.joined c) rfl) rfl
      ⟨hsubs.subscribers, hsubs.nextSession⟩ ?_
    simp [rooms, Hub.goto, Hub.setConn, Hub.unsubscribe]
  case h_12 n rest ht =>
    obtain rfl := Option.some.inj h
    exact .clear ht (.inl ⟨now, rfl⟩) (whereabouts_goto ht rfl rfl) rfl (.of_eq rfl rfl)
  case h_13 n rest ht =>
    obtain rfl := Option.some.inj h
    exact visits_dropIfEmpty ht
  case h_15 n i ops ht =>
    split_ifs at h
    obtain rfl := Option.some.inj h
    exact .goto ht rfl rfl hsame rfl rfl
  case h_16 n i ops ht =>
    obtain rfl := Option.some.inj h
    exact visits_applyBatch ht
  case h_17 n i applied batch ht =>
    obtain rfl := Option.some.inj h
    exact visits_broadcastOp ht
  case h_18 n i applied batch slow ht =>
    obtain rfl := Option.some.inj h
    exact .goto ht (Hub.same_dropSlow.joined c) rfl
      (Hub.shrinks_dropSlow.trans Hub.shrinks_unlock) rfl rfl
  case h_4 n i order ht | h_19 n applied batch ht | h_20 seq batch ht =>
    obtain rfl := Option.some.inj h
    exact .goto ht rfl rfl hsame rfl rfl
  all_goals cases h

theorem visits_fail {handled : ℕ} (h : s.fail core c handled = some s') :
    Visits c (.fail c handled) s s' := by
  have hsame : s.toHub.Shrinks s.toHub := .refl _
  unfold fail at h
  split at h
  case h_1 n ht | h_2 n i ops ht =>
    obtain rfl := Option.some.inj h
    exact .goto ht (Hub.same_tell.joined c) rfl (.of_eq rfl rfl) rfl rfl
  case h_3 n ht =>
    obtain rfl := Option.some.inj h
    exact .touch ht (.inr ⟨handled, rfl⟩) (whereabouts_goto ht (Hub.same_tell.joined c) rfl) rfl
      (.of_eq rfl rfl)
  case h_4 n i ht | h_5 n i order ht =>
    obtain rfl := Option.some.inj h
    exact visits_abandon ht rfl (by simp [joinFails, ht]) rfl
  case h_6 n i ops ht =>
    obtain rfl := Option.some.inj h
    exact visits_abortLocked ht (.refl _) rfl hsame ⟨rfl, rfl⟩
  case h_7 n i ops ht =>
    obtain rfl := Option.some.inj h
    exact visits_abortLocked ht (Hub.same_foldl_tell _) (registry_foldl_tell _ _)
      (Hub.shrinks_foldl_tell _) ⟨rfl, rfl⟩
  case h_8 n i after ht =>
    obtain rfl := Option.some.inj h
    exact .goto ht rfl rfl hsame after.visit_task after.rest_task
  case h_9 n rest ht =>
    obtain rfl := Option.some.inj h
    exact .clear ht (.inr ⟨handled, rfl⟩) (whereabouts_goto ht rfl rfl) rfl (.of_eq rfl rfl)
  case h_10 n applied batch ht | h_11 seq batch ht =>
    obtain rfl := Option.some.inj h
    exact .goto ht rfl rfl hsame rfl rfl
  all_goals cases h

/-- A handler that takes a message which it has to look at. -/
theorem visits_take (ht : (s.conns c).task = .idle) (ht' : t.Elsewhere) :
    Visits c l s (s.rooms (s.goto c t)) :=
  .goto ht rfl rfl (.refl _) ht'.1 ht'.2

theorem visits_recv (ht : (s.conns c).task = .idle) (msg : CollabClientMsg) :
    Visits c l s (s.recv c msg) := by
  have hbefore : (s.conns c).task.Elsewhere := by
    rw [ht]
    exact ⟨rfl, rfl⟩
  have htell : ∀ msg, Visits c l s (s.rooms (s.tell c msg)) := fun msg =>
    .same Hub.same_tell rfl (.of_eq rfl rfl)
  cases msg with
  | join n => exact visits_take ht ⟨rfl, rfl⟩
  | leave n =>
    simp only [recv]
    cases hj : (s.conns c).joined.get? n with
    | none => exact .same (.refl _) rfl (.refl _)
    | some i =>
      refine .leave hbefore hj ?_ ?_ ?_ rfl (.of_eq rfl rfl)
      · simp [rooms, Task.visit]
      · simp [rooms, Task.rest]
      · simp [rooms]
  | op n ops =>
    simp only [recv]
    cases hj : (s.conns c).joined.get? n with
    | none => exact htell _
    | some i => exact visits_take ht ⟨rfl, rfl⟩
  | cursor n =>
    simp only [recv]
    cases hj : (s.conns c).joined.get? n with
    | none => exact .same (.refl _) rfl (.refl _)
    | some i => exact .cursor hbefore hj (whereabouts_goto ht rfl rfl) rfl (.of_eq rfl rfl)
  | unparseable error => exact htell _

/-- **What a step does about the notes that its connection is in.** -/
theorem step_visits (h : s.step core instanceId l = some s') (hc : l.conn = some c) :
    Visits c l s s' := by
  cases l with
  | connect userId deviceId => cases hc
  | recv d msg =>
    obtain rfl := Option.some.inj hc
    simp only [step] at h
    split at h
    · next ht =>
      obtain rfl := Option.some.inj h
      exact visits_recv ht msg
    · cases h
  | close d =>
    obtain rfl := Option.some.inj hc
    simp only [step] at h
    split at h
    · next ht =>
      obtain rfl := Option.some.inj h
      refine .close (by rw [ht]; exact ⟨rfl, rfl⟩) ?_ ?_ ?_ rfl (.of_eq rfl rfl)
      · simp [rooms, Task.visit]
      · simp [rooms, Task.rest]
      · simp [rooms]
    · cases h
  | access d answer =>
    obtain rfl := Option.some.inj hc
    exact visits_access h
  | go d now =>
    obtain rfl := Option.some.inj hc
    exact visits_go h
  | pick d n =>
    obtain rfl := Option.some.inj hc
    simp only [step] at h
    split at h
    · next rest ht =>
      obtain ⟨i, hi, rfl⟩ := Option.map_eq_some_iff.mp h
      refine .pick (n := n) (i := i) (by rw [ht]; rfl) (by rw [ht]; rfl) hi ?_ ?_ ?_ rfl
        (.of_eq rfl rfl)
      · simp [rooms, Hub.goto, Task.visit]
      · simp [rooms, Hub.goto, Task.rest]
      · simp [rooms, Hub.goto]
    · cases h
  | fail d handled =>
    obtain rfl := Option.some.inj hc
    exact visits_fail h
  | write d =>
    obtain rfl := Option.some.inj hc
    simp only [step] at h
    split_ifs at h
    obtain rfl := Option.some.inj h
    exact .same (Hub.same_setConn rfl rfl) rfl (.of_eq rfl rfl)

end

end Server

end KeeplinSrv
