import KeeplinSrv.Live.Rooms

/-!
# One live session for a note

Whoever has joined a note on an instance is in the session that the registry holds
for it, and gets every batch that is committed after its snapshot was read, as
long as `drop_if_empty` never removes a session to which a connection still has a
handle (`one_room`). A session without subscribers is not a session without handles:
a `Join` that waits for the lock and a connection that a full queue has cost its
subscription have one, and are left behind in a room of their own (`twoRooms`).
-/

namespace KeeplinSrv

open Common

namespace Server

/-- Whoever has joined the note and is subscribed to a session of it is subscribed
    to the session that the registry holds for it. -/
def OneRoom (s : Server) : Prop :=
  ∀ n c d i j, ((s.conns c).joined.get? n).isSome → ((s.conns d).joined.get? n).isSome →
    (s.sessions i).noteId = n → (s.sessions j).noteId = n →
    c ∈ (s.sessions i).subscribers → d ∈ (s.sessions j).subscribers →
    i = j ∧ s.registry.get? n = some i

/-- A batch whose handler has yet to broadcast it. -/
def InProgress (s : Server) (b : ℕ) : Prop := ∃ i, s.Pending i b

/-- Whoever has joined the note has in its queue every batch that others committed
    since its snapshot was read, but for those still to be broadcast, or has been
    dropped for a full queue. -/
def NoGap (s : Server) : Prop :=
  ∀ c n, ((s.conns c).joined.get? n).isSome →
    ∃ f, (s.conns c).feeds.get? n = some f ∧ (f.dropped = true ∨
      ∀ b x, f.seen ≤ b → s.commits[b]? = some x → x.noteId = n → x.conn ≠ c → x.applied ≠ [] →
        b ∈ (s.conns c).got ∨ s.InProgress b)

/-- `drop_if_empty` removes no session to which a connection has a handle. -/
def dropsUnheld (s : Server) : ServerStep → Prop
  | .go c _ =>
    match (s.conns c).task with
    | .dropIfEmpty n _ => ∀ i ∈ s.registry.get? n, (s.sessions i).subscribers = ∅ →
        ∀ d < s.nextConnId, ¬ (s.conns d).Holds n i
    | _ => True
  | _ => True

instance (s : Server) (l : ServerStep) : Decidable (s.dropsUnheld l) := by
  unfold dropsUnheld
  split
  · split <;> infer_instance
  · infer_instance

/-! ## What a step does to a connection -/

/-- The handles and the feeds of a connection after a step. -/
structure ConnFacts (s s' : Server) (k k' : Connection) : Prop where
  holds : ∀ n i, k'.Holds n i → k.Holds n i ∨ s'.registry.get? n = some i
  feeds : ∀ n i f, k'.joined.get? n = some i → k'.feeds.get? n = some f →
    (∃ f', k.joined.get? n = some i ∧ k.feeds.get? n = some f' ∧ f'.seen = f.seen) ∨
      k.task.subscribing = some (n, i, f.seen)
  subscribing : ∀ n i seen, k'.task.subscribing = some (n, i, seen) →
    k.task.subscribing = some (n, i, seen) ∨ seen = s.commits.length

section

variable {core : KeeplinCore} {instanceId : Uuid} {s s' : Server} {c d i j : ℕ} {n : Uuid}
  {k k' : Connection} {t : Task} {l : ServerStep}

theorem ConnFacts.of_eq (htask : k'.task = k.task) (hjoined : k'.joined = k.joined)
    (hfeeds : k'.feeds = k.feeds) : ConnFacts s s' k k' where
  holds n i hh := .inl (by rwa [Connection.Holds, htask, hjoined] at hh)
  feeds n i f hj hf := .inl ⟨f, hjoined ▸ hj, hfeeds ▸ hf, rfl⟩
  subscribing n i seen hs := .inl (htask ▸ hs)

/-- Only the task changes, and takes no handle. -/
theorem ConnFacts.of_task (hjoined : k'.joined = k.joined) (hfeeds : k'.feeds = k.feeds)
    (hhandle : ∀ p, k'.task.handle = some p → k.task.handle = some p)
    (hsubscribing : k'.task.subscribing = none) : ConnFacts s s' k k' where
  holds n i hh := .inl (hh.imp (fun hj => hjoined ▸ hj) (hhandle (n, i)))
  feeds n i f hj hf := .inl ⟨f, hjoined ▸ hj, hfeeds ▸ hf, rfl⟩
  subscribing n i seen hs := by cases hsubscribing.symm.trans hs

theorem ConnFacts.dropFeeds (h : ConnFacts s s' k k') (i : ℕ) :
    ConnFacts s s' k (k'.dropFeeds i) where
  holds := h.holds
  feeds n j f hj hf := by
    obtain ⟨f', hf', rfl⟩ := feeds_dropFeeds.mp hf
    have hseen : (f'.drop i).seen = f'.seen := by
      unfold Feed.drop
      split_ifs <;> rfl
    rw [hseen]
    exact h.feeds n j f' hj hf'
  subscribing := h.subscribing

theorem ConnFacts.offer (msg : CollabServerMsg) (i : ℕ) : ConnFacts s s' k (k.offer msg i) := by
  unfold Connection.offer
  split_ifs
  · exact (ConnFacts.of_eq rfl rfl rfl).dropFeeds i
  · exact .of_eq rfl rfl rfl

/-- Where the record of the acting connection is replaced. -/
theorem ConnFacts.update (hconns : s'.conns = Function.update s.conns c k)
    (hc : ConnFacts s s' (s.conns c) k) (d : ℕ) : ConnFacts s s' (s.conns d) (s'.conns d) := by
  rw [hconns, Function.update_apply]
  split_ifs with hd
  · exact hd ▸ hc
  · exact .of_eq rfl rfl rfl

/-- A task that has no handle takes the place of another. -/
theorem ConnFacts.goto (h : ConnFacts s s' k k') (hhandle : t.handle = none)
    (hsubscribing : t.subscribing = none) : ConnFacts s s' k { k' with task := t } where
  holds n i hh := by
    rcases hh with hj | hh
    · exact h.holds n i (.inl hj)
    · cases hhandle.symm.trans hh
  feeds := h.feeds
  subscribing n i seen hs := by cases hsubscribing.symm.trans hs

theorem ConnFacts.goto_dropSlow {slow : Finset ℕ} (hhandle : t.handle = none)
    (hsubscribing : t.subscribing = none) (d : ℕ) :
    ConnFacts s s' (s.conns d) ((((s.dropSlow i slow).goto c t)).conns d) := by
  have hdrop : ∀ e, ConnFacts s s' (s.conns e) ((s.dropSlow i slow).conns e) := by
    intro e
    simp only [Hub.dropSlow]
    split_ifs
    · exact (ConnFacts.of_eq rfl rfl rfl).dropFeeds i
    · exact .of_eq rfl rfl rfl
  rw [Hub.conns_goto, Function.update_apply]
  split_ifs with hd
  · exact hd ▸ (hdrop c).goto hhandle hsubscribing
  · exact hdrop d

theorem Stepped.connFacts (hstep : Stepped core instanceId s l s') (d : ℕ) :
    ConnFacts s s' (s.conns d) (s'.conns d) := by
  cases hstep with
  | move hc hm hread =>
    refine .update rfl ⟨fun n i hh => .inl ?_, fun n i f hj hf => .inl ?_, fun n i seen hs => .inl ?_⟩ d
    · exact hh.elim (fun hj => .inl (hm.joined n i hj)) (hm.handle n i)
    · exact ⟨f, hm.joined n i hj, hm.feeds ▸ hf, rfl⟩
    · cases hm.subscribing.2.symm.trans hs
  | write =>
    refine .update rfl ?_ d
    exact .of_eq rfl rfl rfl
  | connect userId deviceId =>
    refine .update rfl ⟨fun n i hh => ?_, fun n i f hj => ?_, fun n i seen hs => ?_⟩ d
    · rcases hh with hj | hh
      · cases hj
      · cases hh
    · cases hj
    · cases hs
  | @joinExisting c n i ht hr =>
    refine .update rfl ?_ d
    refine ⟨fun n' i' hh => ?_, fun n i f hj hf => .inl ⟨f, hj, hf, rfl⟩, fun _ _ _ hs => ?_⟩
    · refine hh.imp .inl fun hh => ?_
      obtain ⟨rfl, rfl⟩ : n = n' ∧ i = i' := by simpa [Task.handle] using hh
      exact hr
    · cases hs
  | @create c n ht hr =>
    refine .update rfl ?_ d
    refine ⟨fun n' i' hh => ?_, fun n i f hj hf => .inl ⟨f, hj, hf, rfl⟩, fun _ _ _ hs => ?_⟩
    · refine hh.imp .inl fun hh => ?_
      obtain ⟨rfl, rfl⟩ : n = n' ∧ s.nextSession = i' := by simpa [Task.handle] using hh
      exact FinMap.get?_insert_self ..
    · cases hs
  | joinAcquire ht hfree =>
    refine .update rfl ?_ d
    exact .of_task rfl rfl (fun p hp => by rw [ht]; exact hp) rfl
  | opAcquire ht hfree =>
    refine .update rfl ?_ d
    exact .of_task rfl rfl (fun p hp => by rw [ht]; exact hp) rfl
  | readLines ht =>
    refine .update rfl ?_ d
    refine ⟨fun n' i' hh => .inl (hh.imp_right fun hh => by rw [ht]; exact hh),
      fun n i f hj hf => .inl ⟨f, hj, hf, rfl⟩, fun n' i' seen hs => .inr ?_⟩
    exact (Prod.ext_iff.mp (Prod.ext_iff.mp (Option.some.inj hs)).2).2.symm
  | @subscribed c n i seen snapshot ht =>
    obtain ⟨k, hm, hconns⟩ := @subscribed_conns s c i n seen snapshot
    refine .update hconns ⟨fun n' i' hh => .inl ?_, fun n' i' f hj hf => ?_, fun _ _ _ hs => ?_⟩ d
    · rcases hh with hj | hh
      · rw [FinMap.get?_insert] at hj
        split_ifs at hj with hn
        · obtain rfl := Option.some.inj hj
          exact .inr (by rw [ht, hn]; rfl)
        · exact .inl hj
      · cases hh
    · rw [FinMap.get?_insert] at hj hf
      split_ifs at hj hf with hn
      · obtain rfl := Option.some.inj hj
        obtain rfl := Option.some.inj hf
        exact .inr (by rw [ht, hn]; rfl)
      · exact .inl ⟨f, hj, hf, rfl⟩
    · cases hs
  | @release c i k locks hl hf hm =>
    have hconns : (((s.setConn c k).unlock i).goto c .idle).conns =
        Function.update s.conns c { k with task := .idle } := by
      simp [Hub.goto, Hub.unlock, Hub.setConn, Hub.setSession]
    refine .update hconns ?_ d
    exact .of_task hm.joined hm.feeds (fun p hp => by cases hp) rfl
  | @commitNothing c k n i ops now outcomes db locks ht hm hrun hnone =>
    have hconns : (((s.setConn c k).unlock i).goto c .idle).conns =
        Function.update s.conns c { k with task := .idle } := by
      simp [Hub.goto, Hub.unlock, Hub.setConn, Hub.setSession]
    refine .update hconns ?_ d
    exact .of_task hm.joined hm.feeds (fun p hp => by cases hp) rfl
  | @commit c k n i ops now outcomes db locks ht hm hrun hsome =>
    have hconns : ((s.setConn c k).goto c
        (.opBroadcast n i (opsApplied outcomes) s.commits.length)).conns =
        Function.update s.conns c { k with
          task := .opBroadcast n i (opsApplied outcomes) s.commits.length } := by
      simp [Hub.goto, Hub.setConn]
    refine .update hconns ?_ d
    exact .of_task hm.joined hm.feeds (fun p hp => by rw [ht]; exact hp) rfl
  | broadcastOp ht hl =>
    simp only [rooms, conns_broadcastOp]
    split_ifs with hd hmem
    · subst hd
      exact .of_task rfl rfl (fun p hp => by rw [ht]; exact hp) rfl
    · exact .offer ..
    · exact .of_eq rfl rfl rfl
  | opSlow ht => exact .goto_dropSlow rfl rfl d
  | opEvent ht =>
    refine .update rfl ?_ d
    exact .of_task rfl rfl (fun p hp => by cases hp) rfl
  | opNotify ht hl =>
    refine .update rfl ?_ d
    exact .of_task rfl rfl (fun p hp => by cases hp) rfl
  | opAbandon ht hl =>
    refine .update rfl ?_ d
    exact .of_task rfl rfl (fun p hp => by cases hp) rfl
  | presence ht =>
    simp only [rooms, Hub.conns_goto, Function.update_apply, Hub.broadcast]
    split_ifs with hd hmem
    · subst hd
      exact (ConnFacts.offer _ _).goto rfl rfl
    · subst hd
      exact .of_task rfl rfl (fun p hp => by cases hp) rfl
    · exact .offer ..
    · exact .of_eq rfl rfl rfl
  | @presenceSlow c i slow after ht =>
    exact .goto_dropSlow after.plain_task.1 after.plain_task.2.2.1 d
  | unsubscribe ht =>
    refine .update rfl ?_ d
    exact .of_task rfl rfl (fun p hp => by cases hp) rfl
  | @dropIfEmpty c n rest now ht hl =>
    have hconns : ((s.dropIfEmpty n).goto c (afterLeave rest)).conns =
        Function.update s.conns c { s.conns c with task := afterLeave rest } := by
      rw [Hub.conns_goto, Hub.conns_dropIfEmpty]
    refine .update hconns ?_ d
    exact .of_task rfl rfl (fun p hp => by cases (afterLeave_plain rest).1.symm.trans hp)
      (afterLeave_plain rest).2.2.1

/-! ## What a step does to the rooms -/

/-- The registry, the sessions and the batches committed after a step. -/
structure RoomFacts (s s' : Server) (l : ServerStep) : Prop where
  registry : ∀ n i, s.registry.get? n = some i → s'.registry.get? n = some i ∨
    ∃ c now rest, l = .go c now ∧ (s.conns c).task = .dropIfEmpty n rest ∧
      (s.sessions i).subscribers = ∅
  noteId : ∀ j < s.nextSession, (s'.sessions j).noteId = (s.sessions j).noteId
  members : ∀ d j, d ∈ (s'.sessions j).subscribers →
    d ∈ (s.sessions j).subscribers ∨ ∃ n, (s.conns d).Holds n j
  commits : ∀ (b : ℕ) (x : Commit), s'.commits[b]? = some x → s.commits[b]? = some x ∨
    s'.registry = s.registry ∧ (s.conns x.conn).Holds x.noteId x.session

theorem RoomFacts.of_eq (hregistry : s'.registry = s.registry) (hcommits : s'.commits = s.commits)
    (hsessions : ∀ j, (s'.sessions j).noteId = (s.sessions j).noteId ∧
      (s'.sessions j).subscribers ⊆ (s.sessions j).subscribers) : RoomFacts s s' l where
  registry _ _ hr := .inl (hregistry ▸ hr)
  noteId j _ := (hsessions j).1
  members _ j hd := .inl ((hsessions j).2 hd)
  commits _ _ hx := .inl (hcommits ▸ hx)

/-- One session changes, and gets no subscriber. -/
theorem RoomFacts.of_session {x : CollabSession} (hregistry : s'.registry = s.registry)
    (hcommits : s'.commits = s.commits) (hsessions : s'.sessions = Function.update s.sessions i x)
    (hnote : x.noteId = (s.sessions i).noteId)
    (hmem : x.subscribers ⊆ (s.sessions i).subscribers) : RoomFacts s s' l := by
  refine .of_eq hregistry hcommits fun j => ?_
  rw [hsessions, Function.update_apply]
  split_ifs with hj
  · exact hj ▸ ⟨hnote, hmem⟩
  · exact ⟨rfl, Finset.Subset.refl _⟩

theorem RoomFacts.of_commit {x : Commit} (hregistry : s'.registry = s.registry)
    (hcommits : s'.commits = s.commits ++ [x])
    (hx : (s.conns x.conn).Holds x.noteId x.session)
    (hsessions : ∀ j, (s'.sessions j).noteId = (s.sessions j).noteId ∧
      (s'.sessions j).subscribers ⊆ (s.sessions j).subscribers) : RoomFacts s s' l where
  registry n i hr := .inl (hregistry ▸ hr)
  noteId j _ := (hsessions j).1
  members d j hd := .inl ((hsessions j).2 hd)
  commits b y hy := by
    rw [hcommits, getElem?_concat] at hy
    refine hy.imp_right ?_
    rintro ⟨-, rfl⟩
    exact ⟨hregistry, hx⟩

theorem Stepped.roomFacts (hstep : Stepped core instanceId s l s') : RoomFacts s s' l := by
  have hsame : ∀ j, (s.sessions j).noteId = (s.sessions j).noteId ∧
      (s.sessions j).subscribers ⊆ (s.sessions j).subscribers :=
    fun j => ⟨rfl, Finset.Subset.refl _⟩
  cases hstep with
  | move | write | connect | joinExisting | readLines | opEvent | opNotify | opAbandon | presence =>
    exact .of_eq rfl rfl hsame
  | @create c n ht hr =>
    have hold : ∀ j < s.nextSession,
        Function.update s.sessions s.nextSession (.new n) j = s.sessions j :=
      fun j hj => Function.update_of_ne hj.ne _ _
    refine ⟨fun n' i hr' => .inl ?_, fun j hj => ?_, fun d j hd => .inl ?_, fun b x hx => .inl hx⟩
    · have hn : n' ≠ n := by
        rintro rfl
        cases hr.symm.trans hr'
      exact (FinMap.get?_insert_of_ne _ hn _).trans hr'
    · exact congrArg CollabSession.noteId (hold j hj)
    · simp only [Function.update_apply] at hd
      split_ifs at hd
      · cases Finset.notMem_empty d hd
      · exact hd
  | joinAcquire ht hfree => exact .of_session rfl rfl rfl rfl (Finset.Subset.refl _)
  | opAcquire ht hfree => exact .of_session rfl rfl rfl rfl (Finset.Subset.refl _)
  | @subscribed c n i seen snapshot ht =>
    have hsession : (s.subscribed c n i snapshot seen).sessions =
        Function.update s.sessions i { s.sessions i with
          applyLock := none, subscribers := insert c (s.sessions i).subscribers } := by
      simp [Server.subscribed, Hub.tell, Hub.setConn, Hub.unlock, Hub.setSession, Hub.subscribe]
    refine ⟨fun n i hr => .inl hr, fun j hj => ?_, fun d j hd => ?_, fun b x hx => .inl hx⟩
    · simp only [rooms, hsession, Function.update_apply]
      split_ifs with hji
      · rw [hji]
      · rfl
    · simp only [rooms, hsession, Function.update_apply] at hd
      split_ifs at hd with hji
      · rcases Finset.mem_insert.mp hd with rfl | hd
        · exact .inr ⟨n, .inr (by rw [ht, hji]; rfl)⟩
        · exact .inl (hji ▸ hd)
      · exact .inl hd
  | release hl hf hm => exact .of_session rfl rfl rfl rfl (Finset.Subset.refl _)
  | @commitNothing c k n i ops now outcomes db locks ht hm hrun hnone =>
    refine .of_commit rfl rfl (.inr (by rw [ht]; rfl)) fun j => ?_
    simp only [Hub.sessions_goto, Hub.unlock, Hub.sessions_setSession, Hub.sessions_setConn,
      Function.update_apply]
    split_ifs with hj
    · rw [hj]
      exact ⟨rfl, Finset.Subset.refl _⟩
    · exact hsame j
  | commit ht hm hrun hsome => exact .of_commit rfl rfl (.inr (by rw [ht]; rfl)) hsame
  | @broadcastOp c n i applied batch now ht hl =>
    exact .of_eq rfl rfl fun j => ⟨(sessions_broadcastOp j).1, (sessions_broadcastOp j).2.2.subset⟩
  | @opSlow c n i applied batch slow ht =>
    refine .of_eq rfl rfl fun j => ?_
    simp only [rooms, Hub.sessions_goto, Hub.unlock, Hub.dropSlow, Hub.unsubscribe,
      Hub.sessions_setSession, Function.update_apply]
    split_ifs with hj
    · rw [hj]
      exact ⟨rfl, Finset.sdiff_subset⟩
    · exact hsame j
  | presenceSlow ht => exact .of_session rfl rfl rfl rfl Finset.sdiff_subset
  | unsubscribe ht => exact .of_session rfl rfl rfl rfl Finset.sdiff_subset
  | @dropIfEmpty c n rest now ht hl =>
    have hrooms : (s.dropIfEmpty n).sessions = s.sessions ∧ ∀ n' i, s.registry.get? n' = some i →
        (s.dropIfEmpty n).registry.get? n' = some i ∨
          n' = n ∧ (s.sessions i).subscribers = ∅ := by
      unfold Hub.dropIfEmpty
      split
      · rename_i i hi
        split_ifs with hempty
        · refine ⟨rfl, fun n' j hj => ?_⟩
          by_cases hn : n' = n
          · subst hn
            obtain rfl := Option.some.inj (hi.symm.trans hj)
            exact .inr ⟨rfl, hempty⟩
          · exact .inl (FinMap.get?_erase_singleton.mpr ⟨hn, hj⟩)
        · exact ⟨rfl, fun _ _ hj => .inl hj⟩
      · exact ⟨rfl, fun _ _ hj => .inl hj⟩
    refine ⟨fun n' i hr => ?_, fun j _ => ?_, fun d j hd => .inl ?_, fun b x hx => .inl hx⟩
    · rcases hrooms.2 n' i hr with hr' | ⟨rfl, hempty⟩
      · exact .inl hr'
      · exact .inr ⟨c, now, rest, hl, ht, hempty⟩
    · simp only [rooms, Hub.sessions_goto, hrooms.1]
    · simpa only [rooms, Hub.sessions_goto, hrooms.1] using hd

/-! ## The invariant -/

/-- What the registry holds for a note is what every handle leads to and what every
    subscriber is in, and the batches of the note committed since a snapshot was
    read are batches of the session joined. -/
structure RoomInv (s : Server) : Prop where
  sound : s.Sound
  holds : ∀ d n i, (s.conns d).Holds n i → s.registry.get? n = some i
  members : ∀ d i, d ∈ (s.sessions i).subscribers →
    s.registry.get? (s.sessions i).noteId = some i
  feeds : ∀ d n i f, (s.conns d).joined.get? n = some i → (s.conns d).feeds.get? n = some f →
    ∀ b x, f.seen ≤ b → s.commits[b]? = some x → x.noteId = n → x.session = i
  subscribing : ∀ d n i seen, (s.conns d).task.subscribing = some (n, i, seen) →
    ∀ b x, seen ≤ b → s.commits[b]? = some x → x.noteId = n → x.session = i

theorem roomInv_init (db : Db) : (init db).RoomInv where
  sound := sound_init db
  holds d n i hh := by rcases hh with hj | hh <;> [cases hj; cases hh]
  members d i hd := by cases Finset.notMem_empty d hd
  feeds d n i f hj := by cases hj
  subscribing d n i seen hs := by cases hs

/-- Only present connections have handles. -/
theorem Sound.lt_of_holds (h : s.Sound) (hh : (s.conns d).Holds n i) : d < s.nextConnId := by
  refine (h.conn d).live ?_
  rcases hh with hj | hh
  · exact .inr ⟨n, i, hj⟩
  · refine .inl fun hcl => ?_
    rw [hcl] at hh
    cases hh

/-- Handles and subscriptions keep a session in the registry. -/
theorem RoomInv.registry (h : s.RoomInv) (hr : RoomFacts s s' l) (hcond : s.dropsUnheld l)
    (hn : s.registry.get? n = some i)
    (huse : (∃ d, (s.conns d).Holds n i) ∨ ∃ d, d ∈ (s.sessions i).subscribers) :
    s'.registry.get? n = some i := by
  rcases hr.registry n i hn with hkept | ⟨c, now, rest, rfl, ht, hempty⟩
  · exact hkept
  · exfalso
    rcases huse with ⟨d, hd⟩ | ⟨d, hd⟩
    · simp only [dropsUnheld, ht] at hcond
      exact hcond i hn hempty d (h.sound.lt_of_holds hd) hd
    · rw [hempty] at hd
      cases Finset.notMem_empty d hd

theorem RoomInv.step (h : s.RoomInv) (hcond : s.dropsUnheld l)
    (hstep : Stepped core instanceId s l s') : s'.RoomInv := by
  have hc := hstep.connFacts
  have hr := hstep.roomFacts
  have hholds : ∀ d n i, (s'.conns d).Holds n i → s'.registry.get? n = some i := by
    intro d n i hh
    rcases (hc d).holds n i hh with hold | hnew
    · exact h.registry hr hcond (h.holds d n i hold) (.inl ⟨d, hold⟩)
    · exact hnew
  -- a batch committed by this step was committed in the session that the registry holds
  have hcommits : ∀ n i (b : ℕ) (x : Commit), s'.registry.get? n = some i → s'.commits[b]? = some x →
      x.noteId = n → s.commits[b]? = some x ∨ x.session = i := by
    intro n i b x hn hx hxn
    rcases hr.commits b x hx with hold | ⟨hsame, hx⟩
    · exact .inl hold
    · have hreg := h.holds x.conn x.noteId x.session hx
      rw [← hsame, hxn, hn] at hreg
      exact .inr (Option.some.inj hreg).symm
  refine ⟨h.sound.step hstep, hholds, fun d i hd => ?_, fun d n i f hj hf b x hb hx hxn => ?_,
    fun d n i seen hs b x hb hx hxn => ?_⟩
  · rcases hr.members d i hd with hold | ⟨n, hh⟩
    · have hreg := h.members d i hold
      rw [hr.noteId i (h.sound.registered _ i hreg).1]
      exact h.registry hr hcond hreg (.inr ⟨d, hold⟩)
    · obtain ⟨hi, hn⟩ := (h.sound.conn d).holds n i hh
      rw [hr.noteId i hi, hn]
      exact h.registry hr hcond (h.holds d n i hh) (.inl ⟨d, hh⟩)
  · rcases hcommits n i b x (hholds d n i (.inl hj)) hx hxn with hold | hsession
    · rcases (hc d).feeds n i f hj hf with ⟨f', hj', hf', hseen⟩ | hs
      · exact h.feeds d n i f' hj' hf' b x (hseen ▸ hb) hold hxn
      · exact h.subscribing d n i f.seen hs b x hb hold hxn
    · exact hsession
  · have hhandle := (Task.locked_of_subscribing hs).2
    rcases hcommits n i b x (hholds d n i (.inr hhandle)) hx hxn with hold | hsession
    · rcases (hc d).subscribing n i seen hs with hs' | rfl
      · exact h.subscribing d n i seen hs' b x hb hold hxn
      · exact absurd (List.getElem?_eq_some_iff.mp hold).1 (not_lt.mpr hb)
    · exact hsession

theorem RoomInv.oneRoom (h : s.RoomInv) : s.OneRoom := by
  intro n c d i j _ _ hi hj hc hd
  have hregi := h.members c i hc
  have hregj := h.members d j hd
  rw [hi] at hregi
  rw [hj] at hregj
  exact ⟨Option.some.inj (hregi.symm.trans hregj), hregi⟩

theorem RoomInv.noGap (h : s.RoomInv) : s.NoGap := by
  intro c n hjoined
  obtain ⟨i, hj⟩ := Option.isSome_iff_exists.mp hjoined
  obtain ⟨f, hf, -, hor⟩ := (h.sound.conn c).fed n i hj
  refine ⟨f, hf, hor.imp_right fun ⟨_, hall⟩ => fun b x hb hx hxn hxc hxa => ?_⟩
  exact (hall b x hb hx (h.feeds c n i f hj hf b x hb hx hxn) hxc hxa).imp_right fun hp => ⟨i, hp⟩

/-- **One live session for a note and no gap after the `Welcome`.** -/
theorem one_room {db : Db} {ls : List ServerStep}
    (hcond : Meets (step core instanceId) dropsUnheld (init db) ls)
    (hrun : run (step core instanceId) (init db) ls = some s) : s.OneRoom ∧ s.NoGap := by
  have hinv : s.RoomInv :=
    run_induction (fun s l t h hl hstep => h.step hl (step_stepped hstep)) (roomInv_init db) hcond
      hrun
  exact ⟨hinv.oneRoom, hinv.noGap⟩

end

/-! ## Runs -/

/-- The steps of a handler. -/
def goes (c steps : ℕ) : List ServerStep := List.replicate steps (.go c 5)

/-- The note may be read and written. -/
def granted : Option (Except AppError Access) := some (.ok .owner)

/-- A whole `Join`, its presence included. -/
def joins (c : ℕ) (n : Uuid) : List ServerStep :=
  .recv c (.join n) :: .access c granted :: goes c 9

/-- A whole `Leave` of a note whose session the registry holds. -/
def leaves (c : ℕ) (n : Uuid) : List ServerStep := .recv c (.leave n) :: goes c 6

/-- A whole `Op`, up to the notification. -/
def sends (c : ℕ) (n : Uuid) (ops : List LineOp) : List ServerStep :=
  .recv c (.op n ops) :: .access c granted :: goes c 7

/-- Two devices join note 1, the second inserts a line, and both leave. -/
def quietRun : List ServerStep :=
  [.connect 1 1, .connect 1 2] ++ joins 0 1 ++ joins 1 1 ++ sends 1 1 [sampleInsert] ++
    leaves 1 1 ++ leaves 0 1

theorem one_room_quietRun : ∃ s, run (step .sample 1) (init sampleDb) quietRun = some s ∧
    (s.conns 0).got = [0] ∧ s.OneRoom ∧ s.NoGap := by
  have hview : (run (step .sample 1) (init sampleDb) quietRun).map (fun s => (s.conns 0).got) =
      some [0] := by decide +kernel
  obtain ⟨s, hrun, hgot⟩ := Option.map_eq_some_iff.mp hview
  exact ⟨s, hrun, hgot, one_room (by decide +kernel) hrun⟩

/-- Device 1 leaves note 1 while device 2 waits for the lock in its `Join`; device 3
    joins afterwards, and then device 2 inserts a line. -/
def twoRoomsRun : List ServerStep :=
  [.connect 1 1, .connect 1 2, .connect 1 3] ++ joins 0 1 ++
    [.recv 1 (.join 1), .access 1 granted, .go 1 5] ++ leaves 0 1 ++ goes 1 6 ++ joins 2 1 ++
    sends 1 1 [sampleInsert]

/-- What becomes of connections 1 and 2. -/
def twoRoomsView (s : Server) : Prop :=
  (s.conns 1).joined.get? 1 = some 0 ∧ (s.conns 2).joined.get? 1 = some 1 ∧
    1 ∈ (s.sessions 0).subscribers ∧ 2 ∈ (s.sessions 1).subscribers ∧
    (s.sessions 0).noteId = 1 ∧ (s.sessions 1).noteId = 1 ∧ s.nextConnId = 3 ∧
    (s.conns 2).feeds.get? 1 = some ⟨1, 0, false⟩ ∧ (s.conns 2).got = [] ∧
    (∀ e < 3, (s.conns e).task.broadcasting = none) ∧
    s.commits.map (fun x => (x.noteId, x.conn, x.applied)) = [(1, 1, [sampleInsert])]

instance (s : Server) : Decidable s.twoRoomsView := by
  unfold twoRoomsView
  infer_instance

/-- **Two rooms.** Both have joined note 1, in different sessions, and the line that
    device 2 inserts never reaches device 3. -/
theorem twoRooms : ∃ s, run (step .sample 1) (init sampleDb) twoRoomsRun = some s ∧
    ¬ s.OneRoom ∧ ¬ s.NoGap := by
  have hview : (run (step .sample 1) (init sampleDb) twoRoomsRun).map
      (fun s => decide s.twoRoomsView) = some true := by decide +kernel
  obtain ⟨s, hrun, hs⟩ := Option.map_eq_some_iff.mp hview
  obtain ⟨hj₁, hj₂, hm₁, hm₂, hn₁, hn₂, hnext, hf, hgot, htasks, hcommits⟩ := of_decide_eq_true hs
  have hsound : s.Sound :=
    run_invariant (fun s l t h hstep => h.step (step_stepped hstep)) (sound_init sampleDb) hrun
  refine ⟨s, hrun, fun hroom => ?_, fun hgap => ?_⟩
  · have heq := (hroom 1 1 2 0 1 (by rw [hj₁]; rfl) (by rw [hj₂]; rfl) hn₁ hn₂ hm₁ hm₂).1
    cases heq
  · obtain ⟨f, hf', hor⟩ := hgap 2 1 (by rw [hj₂]; rfl)
    obtain rfl := Option.some.inj (hf.symm.trans hf')
    obtain ⟨x, xs, hx, hx₁, hxs⟩ := List.map_eq_cons_iff.mp hcommits
    obtain ⟨hxn, hxc, hxa⟩ : x.noteId = 1 ∧ x.conn = 1 ∧ x.applied = [sampleInsert] := by
      simpa using hx₁
    rcases hor with hdropped | hall
    · cases hdropped
    · rcases hall 0 x le_rfl (by rw [hx]; rfl) hxn (by simp [hxc]) (by simp [hxa]) with hb | ⟨i, e, he⟩
      · rw [hgot] at hb
        cases hb
      · have hlt : e < s.nextConnId := by
          refine (hsound.conn e).live (.inl fun hcl => ?_)
          rw [hcl] at he
          cases he
        rw [htasks e (hnext ▸ hlt)] at he
        cases he

end Server

end KeeplinSrv
